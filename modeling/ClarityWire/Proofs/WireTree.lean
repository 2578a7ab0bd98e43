import ClarityWire.Proofs.Fields
import ClarityWire.Proofs.Reading
import ClarityWire.Value.Decode

/-!
# What an encoding says

A wire tree is a value the way it is written: the entries of a tuple in the order in which they
stand, the bytes of a string as they are, and any depth, length or repetition. It has bytes, and
reading it either meets a first failure or gives a value, with each part placed at its offset.
-/

namespace ClarityWire

/-- What is written of a value that holds no other values. -/
inductive Atom where
  | int (bits : BitVec 128)
  | uint (bits : BitVec 128)
  | buffer (bytes : Bytes)
  | bool (value : Bool)
  | principal (address : StacksAddress)
  | contract (id : ContractPrincipal)
  | optionalNone
  | ascii (bytes : Bytes)
  | utf8 (bytes : Bytes)

/-- The values that hold exactly one other value. -/
inductive Wrapper where
  | responseOk
  | responseErr
  | optionalSome

/-- A value the way it is written. -/
inductive WireTree where
  | atom (content : Atom)
  | wrapped (wrapper : Wrapper) (body : WireTree)
  | list (items : List WireTree)
  | tuple (entries : List (ClarityName × WireTree))

namespace Atom

def tag : Atom → TypeTag
  | .int _ => .int
  | .uint _ => .uint
  | .buffer _ => .buffer
  | .bool true => .boolTrue
  | .bool false => .boolFalse
  | .principal _ => .principal
  | .contract _ => .contract
  | .optionalNone => .optionalNone
  | .ascii _ => .ascii
  | .utf8 _ => .utf8

/-- The bytes behind the tag. -/
def body : Atom → Bytes
  | .int bits => Bytes.ofNat 16 bits.toNat
  | .uint bits => Bytes.ofNat 16 bits.toNat
  | .buffer bytes => bytes.sized
  | .bool _ => []
  | .principal address => address.wireBytes
  | .contract id => id.issuer.wireBytes ++ id.name.wireBytes
  | .optionalNone => []
  | .ascii bytes => bytes.sized
  | .utf8 bytes => bytes.sized

/-- The length that is written in front of the bytes, and zero where none is. -/
def size : Atom → Nat
  | .buffer bytes => bytes.length
  | .ascii bytes => bytes.length
  | .utf8 bytes => bytes.length
  | _ => 0

/-- The failure of a string that is not well-formed. -/
def textFailure? : Atom → Option WireError
  | .utf8 bytes => if Utf8.WellFormed bytes then none else some .invalidUtf8
  | _ => none

/-- The value that is read. -/
def value : Atom → Value
  | .int bits => .int bits
  | .uint bits => .uint bits
  | .buffer bytes => .buffer bytes
  | .bool value => .bool value
  | .principal address => .principal address
  | .contract id => .contract id
  | .optionalNone => .optionalNone
  | .ascii bytes => .ascii bytes
  | .utf8 bytes => .utf8 (Utf8.scalars bytes)

end Atom

namespace Wrapper

def tag : Wrapper → TypeTag
  | .responseOk => .responseOk
  | .responseErr => .responseErr
  | .optionalSome => .optionalSome

def value : Wrapper → ClarityValue → Value
  | .responseOk, body => .responseOk body
  | .responseErr, body => .responseErr body
  | .optionalSome, body => .optionalSome body

end Wrapper

/-- The failure of a value nested too deep. -/
def depthFailure? (depth : Nat) : Option WireError :=
  if maxValueDepth < depth then some (.depthExceeded maxValueDepth) else none

/-- The range of a part, if ranges are recorded. -/
def spanAt (capture : Bool) (start stop : Nat) : Option Span :=
  if capture then some ⟨start, stop⟩ else none

namespace WireTree

mutual

/-- The bytes of a tree. -/
def bytes : WireTree → Bytes
  | .atom content => content.tag.toByte :: content.body
  | .wrapped wrapper body => wrapper.tag.toByte :: bytes body
  | .list items => TypeTag.list.toByte :: (Bytes.ofNat 4 items.length ++ itemBytes items)
  | .tuple entries => TypeTag.tuple.toByte :: (Bytes.ofNat 4 entries.length ++ entryBytes entries)

def itemBytes : List WireTree → Bytes
  | [] => []
  | item :: rest => bytes item ++ itemBytes rest

def entryBytes : List (ClarityName × WireTree) → Bytes
  | [] => []
  | (name, tree) :: rest => name.wireBytes ++ bytes tree ++ entryBytes rest

end

mutual

/-- The first failure that reading a tree at a given depth meets. -/
def failure? (depth : Nat) : WireTree → Option WireError
  | .atom content =>
    (depthFailure? depth).or ((sizeFailure? content.size).or content.textFailure?)
  | .wrapped _ body => (depthFailure? depth).or (failure? (depth + 1) body)
  | .list items =>
    (depthFailure? depth).or ((sizeFailure? items.length).or (itemsFailure? (depth + 1) items))
  | .tuple entries =>
    (depthFailure? depth).or ((sizeFailure? entries.length).or
      ((entriesFailure? (depth + 1) entries).or
        ((Fields.repeated? (entries.map (·.1))).map .duplicateKey)))

def itemsFailure? (depth : Nat) : List WireTree → Option WireError
  | [] => none
  | item :: rest => (failure? depth item).or (itemsFailure? depth rest)

def entriesFailure? (depth : Nat) : List (ClarityName × WireTree) → Option WireError
  | [] => none
  | (_, tree) :: rest => (failure? depth tree).or (entriesFailure? depth rest)

end

mutual

/-- The value that is read of a tree whose bytes start at a given offset. -/
def located (capture : Bool) (offset : Nat) : WireTree → ClarityValue
  | .atom content => ⟨content.value, spanAt capture offset (offset + 1 + content.body.length)⟩
  | .wrapped wrapper body =>
    ⟨wrapper.value (located capture (offset + 1) body),
      spanAt capture offset (offset + 1 + (bytes body).length)⟩
  | .list items =>
    ⟨.list (locatedItems capture (offset + 5) items),
      spanAt capture offset (offset + 5 + (itemBytes items).length)⟩
  | .tuple entries =>
    ⟨.tuple (Fields.sort (locatedEntries capture (offset + 5) entries)),
      spanAt capture offset (offset + 5 + (entryBytes entries).length)⟩

def locatedItems (capture : Bool) (offset : Nat) : List WireTree → List ClarityValue
  | [] => []
  | item :: rest =>
    located capture offset item :: locatedItems capture (offset + (bytes item).length) rest

def locatedEntries (capture : Bool) (offset : Nat) :
    List (ClarityName × WireTree) → List (ClarityName × ClarityValue)
  | [] => []
  | (name, tree) :: rest =>
    (name, located capture (offset + name.wireBytes.length) tree) ::
      locatedEntries capture (offset + name.wireBytes.length + (bytes tree).length) rest

end

/-- Whether every length in a tree can be written in four bytes. -/
inductive Representable : WireTree → Prop
  | atom {content : Atom} (hsize : content.size < 256 ^ 4) : Representable (.atom content)
  | wrapped {wrapper : Wrapper} {body : WireTree} (hbody : Representable body) :
    Representable (.wrapped wrapper body)
  | list {items : List WireTree} (hcount : items.length < 256 ^ 4)
    (hitems : ∀ item ∈ items, Representable item) : Representable (.list items)
  | tuple {entries : List (ClarityName × WireTree)} (hcount : entries.length < 256 ^ 4)
    (hentries : ∀ entry ∈ entries, Representable entry.2) : Representable (.tuple entries)

/-- Induction over a tree, with the hypothesis for every tree directly inside. -/
@[elab_as_elim, induction_eliminator]
theorem induction {motive : WireTree → Prop} (atom : ∀ content, motive (.atom content))
    (wrapped : ∀ wrapper body, motive body → motive (.wrapped wrapper body))
    (list : ∀ items, (∀ item ∈ items, motive item) → motive (.list items))
    (tuple : ∀ entries, (∀ entry ∈ entries, motive entry.2) → motive (.tuple entries))
    (tree : WireTree) : motive tree := by
  refine @WireTree.rec motive (fun items => ∀ item ∈ items, motive item)
    (fun entries => ∀ entry ∈ entries, motive entry.2) (fun entry => motive entry.2)
    atom wrapped list tuple ?_ ?_ ?_ ?_ ?_ tree
  · exact fun _ h => nomatch h
  · intro first rest hfirst hrest item hitem
    rcases List.mem_cons.mp hitem with rfl | hitem
    · exact hfirst
    · exact hrest item hitem
  · exact fun _ h => nomatch h
  · intro first rest hfirst hrest entry hentry
    rcases List.mem_cons.mp hentry with rfl | hentry
    · exact hfirst
    · exact hrest entry hentry
  · exact fun _ _ h => h

end WireTree

end ClarityWire
