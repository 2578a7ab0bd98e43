import ClarityWire.Proofs.Parts
import ClarityWire.Proofs.TreeValue
import ClarityWire.Value.Encode

/-!
# Values as trees

Every value is written the way one tree is written, with the fields of its tuples in their order.
What ranges a value recorded does not matter, and neither does how its strings are split.
-/

namespace ClarityWire

namespace Value

mutual

/-- The tree as which a value is written. -/
def tree : Value → WireTree
  | .int bits => .atom (.int bits)
  | .uint bits => .atom (.uint bits)
  | .buffer bytes => .atom (.buffer bytes)
  | .bool value => .atom (.bool value)
  | .principal address => .atom (.principal address)
  | .contract id => .atom (.contract id)
  | .responseOk ⟨body, _⟩ => .wrapped .responseOk (tree body)
  | .responseErr ⟨body, _⟩ => .wrapped .responseErr (tree body)
  | .optionalNone => .atom .optionalNone
  | .optionalSome ⟨body, _⟩ => .wrapped .optionalSome (tree body)
  | .list items => .list (treeItems items)
  | .tuple fields => .tuple (treeFields fields)
  | .ascii bytes => .atom (.ascii bytes)
  | .utf8 groups => .atom (.utf8 groups.flatten)

def treeItems : List (Spanned Value) → List WireTree
  | [] => []
  | ⟨item, _⟩ :: rest => tree item :: treeItems rest

def treeFields : List (ClarityName × Spanned Value) → List (ClarityName × WireTree)
  | [] => []
  | (name, ⟨field, _⟩) :: rest => (name, tree field) :: treeFields rest

end

theorem tree_wrapped (wrapper : Wrapper) (body : ClarityValue) :
    (wrapper.value body).tree = .wrapped wrapper body.value.tree := by
  obtain ⟨value, span⟩ := body
  cases wrapper <;> rw [Wrapper.value, tree]

theorem tree_list (items : List ClarityValue) :
    (Value.list items).tree = .list (items.map fun item => item.value.tree) := by
  rw [tree]
  congr 1
  induction items with
  | nil => rfl
  | cons item rest ih => rw [treeItems, ih, List.map_cons]

theorem tree_tuple (fields : Fields ClarityValue) :
    (Value.tuple fields).tree = .tuple (fields.map fun field => (field.1, field.2.value.tree)) := by
  rw [tree]
  congr 1
  induction fields with
  | nil => rfl
  | cons field rest ih => rw [treeFields, ih, List.map_cons]

/-- Induction over a value, with one case for all values that hold no others and one for all that
hold exactly one. -/
@[elab_as_elim, induction_eliminator]
theorem induction {motive : Value → Prop}
    (atom : ∀ value a, value.tree = .atom a → motive value)
    (wrapped : ∀ (wrapper : Wrapper) (body : ClarityValue), motive body.value →
      motive (wrapper.value body))
    (list : ∀ items : List ClarityValue, (∀ item ∈ items, motive item.value) →
      motive (.list items))
    (tuple : ∀ fields : Fields ClarityValue,
      (∀ field ∈ fields, motive field.2.value) → motive (.tuple fields))
    (value : Value) : motive value := by
  induction value using inductionOnChildren with
  | step value ih =>
    cases value
    case responseOk body => exact wrapped .responseOk body (ih body (List.mem_singleton.mpr rfl))
    case responseErr body => exact wrapped .responseErr body (ih body (List.mem_singleton.mpr rfl))
    case optionalSome body =>
      exact wrapped .optionalSome body (ih body (List.mem_singleton.mpr rfl))
    case list items => exact list items ih
    case tuple fields =>
      apply tuple
      intro field hfield
      exact ih field.2 (List.mem_map_of_mem hfield)
    all_goals exact atom _ _ (by rw [tree])

/-! ## Children -/

theorem children_atom {value : Value} {a : Atom} (h : value.tree = .atom a) :
    value.children = [] := by
  cases value <;> rw [tree] at h <;> cases h <;> rfl

theorem children_wrapped (wrapper : Wrapper) (body : ClarityValue) :
    (wrapper.value body).children = [body] := by
  cases wrapper <;> rfl

/-! ## Types -/

/-- Two values of one type, which for truth values makes them equal. -/
inductive SameType : Value → Value → Prop
  | int (a b : BitVec 128) : SameType (.int a) (.int b)
  | uint (a b : BitVec 128) : SameType (.uint a) (.uint b)
  | buffer (a b : Bytes) : SameType (.buffer a) (.buffer b)
  | bool (value : Bool) : SameType (.bool value) (.bool value)
  | principal (a b : StacksAddress) : SameType (.principal a) (.principal b)
  | contract (a b : ContractPrincipal) : SameType (.contract a) (.contract b)
  | responseOk (a b : ClarityValue) : SameType (.responseOk a) (.responseOk b)
  | responseErr (a b : ClarityValue) : SameType (.responseErr a) (.responseErr b)
  | optionalNone : SameType .optionalNone .optionalNone
  | optionalSome (a b : ClarityValue) : SameType (.optionalSome a) (.optionalSome b)
  | list (a b : List ClarityValue) : SameType (.list a) (.list b)
  | tuple (a b : Fields ClarityValue) : SameType (.tuple a) (.tuple b)
  | ascii (a b : Bytes) : SameType (.ascii a) (.ascii b)
  | utf8 (a b : List Bytes) : SameType (.utf8 a) (.utf8 b)

theorem sameType_of_typeTag : {value other : Value} → value.typeTag = other.typeTag →
    SameType value other
  | .int a, .int b, _ => .int a b
  | .uint a, .uint b, _ => .uint a b
  | .buffer a, .buffer b, _ => .buffer a b
  | .bool true, .bool true, _ => .bool true
  | .bool false, .bool false, _ => .bool false
  | .principal a, .principal b, _ => .principal a b
  | .contract a, .contract b, _ => .contract a b
  | .responseOk a, .responseOk b, _ => .responseOk a b
  | .responseErr a, .responseErr b, _ => .responseErr a b
  | .optionalNone, .optionalNone, _ => .optionalNone
  | .optionalSome a, .optionalSome b, _ => .optionalSome a b
  | .list a, .list b, _ => .list a b
  | .tuple a, .tuple b, _ => .tuple a b
  | .ascii a, .ascii b, _ => .ascii a b
  | .utf8 a, .utf8 b, _ => .utf8 a b

theorem SameType.exists_body {wrapper : Wrapper} {body : ClarityValue} {other : Value}
    (h : SameType (wrapper.value body) other) : ∃ body', other = wrapper.value body' := by
  cases wrapper <;> cases h <;> exact ⟨_, rfl⟩

/-! ## Writing -/

private theorem tagged_eq (tag : UInt8) (body : Bytes) :
    (do let n ← Encoder.byte tag; let m ← Encoder.writeCounted body; return n + m) =
      Encoder.writeCounted (tag :: body) := by
  rw [Encoder.byte_eq, Encoder.writeCounted_append, List.singleton_append]

private theorem counted_eq (tag : UInt8) (count : Nat) (body : Bytes) :
    (do
      let n ← Encoder.byte tag
      let m ← Encoder.length count
      Encoder.countFrom (n + m) body) =
      Encoder.writeCounted (tag :: (Bytes.ofNat 4 count ++ body)) := by
  have hall := Encoder.writeCounted_bind_countFrom 0 [tag] (Bytes.ofNat 4 count ++ body)
  simp only [Nat.zero_add, Encoder.countFrom_zero, List.singleton_append] at hall
  simp only [Encoder.byte_eq, Encoder.length_eq, Encoder.writeCounted_bind_countFrom, hall]

private theorem groups_eq (count : Nat) (groups : List Bytes) :
    Encoder.groups count groups = Encoder.countFrom count groups.flatten := by
  induction groups generalizing count with
  | nil => rw [Encoder.groups, List.flatten_nil, Encoder.countFrom_nil]
  | cons group rest ih =>
    simp only [Encoder.groups, ih, Encoder.writeCounted_bind_countFrom, List.flatten_cons]

private theorem foldl_length (n : Nat) (groups : List Bytes) :
    (groups.map List.length).foldl (· + ·) n = n + groups.flatten.length := by
  induction groups generalizing n with
  | nil => rfl
  | cons group rest ih =>
    rw [List.map_cons, List.foldl_cons, ih, List.flatten_cons, List.length_append, Nat.add_assoc]

private theorem contract_eq (id : ContractPrincipal) :
    (contract id).encoder =
      Encoder.writeCounted
        (TypeTag.contract.toByte :: (id.issuer.wireBytes ++ id.name.wireBytes)) := by
  have hall := tagged_eq TypeTag.contract.toByte (id.issuer.wireBytes ++ id.name.wireBytes)
  rw [← Encoder.writeCounted_append] at hall
  simp only [bind_assoc, pure_bind] at hall
  rw [encoder, Encoder.stacksAddress_eq, Encoder.name_eq]
  exact hall

private theorem encoder_atom {value : Value} {a : Atom} (h : value.tree = .atom a) :
    value.encoder = Encoder.writeCounted (a.tag.toByte :: a.body) := by
  cases value <;> rw [tree] at h <;> cases h
  case int bits => rw [encoder, Encoder.word128_eq, tagged_eq]; rfl
  case uint bits => rw [encoder, Encoder.word128_eq, tagged_eq]; rfl
  case buffer bytes => rw [encoder, Encoder.sizedBytes_eq, tagged_eq]; rfl
  case bool value => cases value <;> rw [encoder, Encoder.byte_eq] <;> rfl
  case principal address => rw [encoder, Encoder.stacksAddress_eq, tagged_eq]; rfl
  case contract id => exact contract_eq id
  case optionalNone => rw [encoder, Encoder.byte_eq]; rfl
  case ascii bytes => rw [encoder, Encoder.sizedBytes_eq, tagged_eq]; rfl
  case utf8 groups =>
    simp only [encoder, groups_eq, counted_eq, foldl_length, Nat.zero_add]
    rfl

private theorem encodeItems_eq (items : List ClarityValue)
    (h : ∀ item ∈ items, item.value.encoder = Encoder.writeCounted item.value.tree.bytes)
    (count : Nat) :
    encodeItems count items =
      Encoder.countFrom count (items.flatMap fun item => item.value.tree.bytes) := by
  induction items generalizing count with
  | nil => rw [encodeItems, List.flatMap_nil, Encoder.countFrom_nil]
  | cons item rest ih =>
    obtain ⟨hitem, hrest⟩ := List.forall_mem_cons.mp h
    simp only [encodeItems, hitem, ih hrest, Encoder.writeCounted_bind_countFrom, List.flatMap_cons]

private theorem encodeFields_eq (fields : Fields ClarityValue)
    (h : ∀ field ∈ fields, field.2.value.encoder = Encoder.writeCounted field.2.value.tree.bytes)
    (count : Nat) :
    encodeFields count fields = Encoder.countFrom count
      (fields.flatMap fun field => field.1.wireBytes ++ field.2.value.tree.bytes) := by
  induction fields generalizing count with
  | nil => rw [encodeFields, List.flatMap_nil, Encoder.countFrom_nil]
  | cons field rest ih =>
    obtain ⟨hfield, hrest⟩ := List.forall_mem_cons.mp h
    simp only [encodeFields, Encoder.name_eq, hfield, ih hrest, Encoder.writeCounted_bind_countFrom,
      List.flatMap_cons, List.append_assoc]

private theorem encoder_wrapped (wrapper : Wrapper) (body : ClarityValue) :
    (wrapper.value body).encoder = (do
      let n ← Encoder.byte wrapper.tag.toByte
      let m ← body.value.encoder
      return n + m) := by
  obtain ⟨value, span⟩ := body
  cases wrapper <;> rw [Wrapper.value, encoder] <;> rfl

/-- Writing a value is writing the bytes of its tree at once. -/
theorem encoder_eq (value : Value) : value.encoder = Encoder.writeCounted value.tree.bytes := by
  induction value with
  | atom value a h => rw [encoder_atom h, h, WireTree.bytes]
  | wrapped wrapper body ih =>
    rw [encoder_wrapped, ih, tagged_eq, tree_wrapped, WireTree.bytes]
  | list items ih =>
    simp only [encoder, encodeItems_eq items ih, counted_eq, tree_list, WireTree.bytes,
      WireTree.itemBytes_eq, List.length_map, List.flatMap_map]
  | tuple fields ih =>
    simp only [encoder, encodeFields_eq fields ih, counted_eq, tree_tuple, WireTree.bytes,
      WireTree.entryBytes_eq, WireTree.entryText, List.length_map, List.flatMap_map]

/-- A value is written as the bytes of its tree. -/
theorem toBytes_eq (value : Value) : value.toBytes = value.tree.bytes := by
  rw [toBytes, encoder_eq, Encoder.toBytes_writeCounted]

end Value

end ClarityWire
