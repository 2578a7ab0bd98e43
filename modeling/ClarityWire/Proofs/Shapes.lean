import Mathlib.Data.List.Nodup
import ClarityWire.Proofs.Terms
import ClarityWire.Proofs.ValueTree
import ClarityWire.Value.Signature

/-!
# Shapes

The shape of a value is what a single value shows of its type: sizes, names of fields and the shapes
of the values inside it, a list being judged by its first item. The type signature is the shape
written as a term, so it tells the shape and nothing else.
-/

namespace ClarityWire

/-- What a value shows of its type. -/
inductive Shape where
  /-- What is not shown: the items of an empty list, the content of none, the side of a response
  that is not there. -/
  | unknown
  | int
  | uint
  | bool
  /-- An account or a contract. -/
  | principal
  /-- So many bytes. -/
  | buffer (size : Nat)
  /-- So many bytes. -/
  | ascii (size : Nat)
  /-- So many scalars. -/
  | utf8 (scalars : Nat)
  | list (length : Nat) (item : Shape)
  | tuple (fields : List (ClarityName × Shape))
  | optional (content : Shape)
  | response (ok err : Shape)

namespace Value

mutual

/-- The shape of a value. -/
def shape : Value → Shape
  | .int _ => .int
  | .uint _ => .uint
  | .buffer bytes => .buffer bytes.length
  | .bool _ => .bool
  | .principal _ => .principal
  | .contract _ => .principal
  | .responseOk ⟨body, _⟩ => .response (shape body) .unknown
  | .responseErr ⟨body, _⟩ => .response .unknown (shape body)
  | .optionalNone => .optional .unknown
  | .optionalSome ⟨body, _⟩ => .optional (shape body)
  | .list [] => .list 0 .unknown
  | .list (⟨item, _⟩ :: rest) => .list (rest.length + 1) (shape item)
  | .tuple fields => .tuple (fieldShapes fields)
  | .ascii bytes => .ascii bytes.length
  | .utf8 groups => .utf8 groups.length

def fieldShapes : List (ClarityName × Spanned Value) → List (ClarityName × Shape)
  | [] => []
  | (name, ⟨field, _⟩) :: rest => (name, shape field) :: fieldShapes rest

end

end Value

/-! ## Words -/

/-- The words of signatures that do not depend on the value. -/
inductive Keyword where
  | unknown
  | int
  | uint
  | bool
  | principal
  | buffer
  | ascii
  | utf8
  | list
  | tuple
  | optional
  | response
  deriving DecidableEq

namespace Keyword

def text : Keyword → String
  | .unknown => Value.unknownType
  | .int => "int"
  | .uint => "uint"
  | .bool => "bool"
  | .principal => "principal"
  | .buffer => "buff"
  | .ascii => "string-ascii"
  | .utf8 => "string-utf8"
  | .list => "list"
  | .tuple => "tuple"
  | .optional => "optional"
  | .response => "response"

def word (keyword : Keyword) : Text.Word where
  chars := keyword.text.toList
  nonempty := by cases keyword <;> decide
  plain := by cases keyword <;> decide

/-- All keywords. -/
def all : List Keyword :=
  [.unknown, .int, .uint, .bool, .principal, .buffer, .ascii, .utf8, .list, .tuple, .optional,
    .response]

private theorem mem_all (keyword : Keyword) : keyword ∈ all := by
  cases keyword <;> decide

private theorem word_injective {a b : Keyword} (h : a.word = b.word) : a = b := by
  have hnodup : (all.map word).Nodup := by decide
  exact List.inj_on_of_nodup_map hnodup (mem_all a) (mem_all b) h

@[simp]
theorem word_inj {a b : Keyword} : a.word = b.word ↔ a = b :=
  ⟨word_injective, congrArg word⟩

end Keyword

/-- A name as a word. -/
def Name.word (name : ClarityName) : Text.Word where
  chars := name.text.toList
  nonempty := name.toList_text_ne_nil
  plain := List.all_eq_true.mpr fun _ hc =>
    Text.isPlain_of (p := fun c => NameKind.clarity.allowsChar c = true) (by decide) (by decide)
      (by decide) (name.allowsChar_of_mem hc)

theorem Name.word_injective {a b : ClarityName} (h : a.word = b.word) : a = b :=
  Name.eq_of_text (String.toList_inj.mp (congrArg Text.Word.chars h))

namespace Shape

/-! ## Terms -/

mutual

/-- A shape as a term. A scalar counts four bytes. -/
def term : Shape → Text.Term
  | .unknown => .bare Keyword.unknown.word
  | .int => .bare Keyword.int.word
  | .uint => .bare Keyword.uint.word
  | .bool => .bare Keyword.bool.word
  | .principal => .bare Keyword.principal.word
  | .buffer size => .form Keyword.buffer.word [.bare (.ofNat size)]
  | .ascii size => .form Keyword.ascii.word [.bare (.ofNat size)]
  | .utf8 scalars => .form Keyword.utf8.word [.bare (.ofNat (scalars * 4))]
  | .list length item => .form Keyword.list.word [.bare (.ofNat length), term item]
  | .tuple fields => .form Keyword.tuple.word (fieldTerms fields)
  | .optional content => .form Keyword.optional.word [term content]
  | .response ok err => .form Keyword.response.word [term ok, term err]

def fieldTerms : List (ClarityName × Shape) → List Text.Term
  | [] => []
  | (name, shape) :: rest => .form name.word [term shape] :: fieldTerms rest

end

/-- Induction over a shape, with the hypothesis for every shape directly inside. -/
@[elab_as_elim, induction_eliminator]
theorem induction {motive : Shape → Prop} (unknown : motive .unknown) (int : motive .int)
    (uint : motive .uint) (bool : motive .bool) (principal : motive .principal)
    (buffer : ∀ size, motive (.buffer size)) (ascii : ∀ size, motive (.ascii size))
    (utf8 : ∀ scalars, motive (.utf8 scalars))
    (list : ∀ length item, motive item → motive (.list length item))
    (tuple : ∀ fields : List (ClarityName × Shape), (∀ field ∈ fields, motive field.2) →
      motive (.tuple fields))
    (optional : ∀ content, motive content → motive (.optional content))
    (response : ∀ ok err, motive ok → motive err → motive (.response ok err))
    (shape : Shape) : motive shape := by
  refine Shape.rec (motive_1 := motive) (motive_2 := fun fields => ∀ field ∈ fields, motive field.2)
    (motive_3 := fun field => motive field.2) unknown int uint bool principal buffer ascii utf8 list
    tuple optional response ?_ ?_ ?_ shape
  · rintro field ⟨⟩
  · intro field rest hfield hrest
    exact List.forall_mem_cons.mpr ⟨hfield, hrest⟩
  · intro name shape hshape
    exact hshape

private theorem eq_of_fieldTerms {fields others : List (ClarityName × Shape)}
    (hfields : ∀ field ∈ fields, ∀ other : Shape, field.2.term = other.term → field.2 = other)
    (h : fieldTerms fields = fieldTerms others) : fields = others := by
  induction fields generalizing others with
  | nil =>
    cases others with
    | nil => rfl
    | cons other others => cases h
  | cons field rest ih =>
    obtain ⟨hfield, hrest⟩ := List.forall_mem_cons.mp hfields
    cases others with
    | nil => cases h
    | cons other others =>
      rw [fieldTerms, fieldTerms] at h
      obtain ⟨hhead, htail⟩ := List.cons.inj h
      obtain ⟨hname, hshape⟩ := Text.Term.form.inj hhead
      have hname : field.1 = other.1 := Name.word_injective hname
      have hshape : field.2 = other.2 := hfield other.2 (List.cons.inj hshape).1
      rw [ih hrest htail, Prod.ext hname hshape]

/-- The term of a shape tells the shape: its first word the kind, and what stands behind that the
rest. -/
theorem term_injective {shape other : Shape} (h : shape.term = other.term) : shape = other := by
  induction shape generalizing other with
  | unknown | int | uint | bool | principal =>
    cases other
    all_goals first | rfl | simp [term] at h
  | buffer size =>
    cases other
    case buffer size' =>
      have hsize : Text.Word.ofNat size = .ofNat size' := by simpa [term] using h
      rw [Text.Word.ofNat_injective hsize]
    all_goals simp [term] at h
  | ascii size =>
    cases other
    case ascii size' =>
      have hsize : Text.Word.ofNat size = .ofNat size' := by simpa [term] using h
      rw [Text.Word.ofNat_injective hsize]
    all_goals simp [term] at h
  | utf8 scalars =>
    cases other
    case utf8 scalars' =>
      have hbytes : scalars * 4 = scalars' * 4 :=
        Text.Word.ofNat_injective (by simpa [term] using h)
      rw [Nat.eq_of_mul_eq_mul_right (by decide) hbytes]
    all_goals simp [term] at h
  | list length item ih =>
    cases other
    case list length' item' =>
      have hparts : Text.Word.ofNat length = Text.Word.ofNat length' ∧ item.term = item'.term := by
        simpa [term] using h
      rw [Text.Word.ofNat_injective hparts.1, ih hparts.2]
    all_goals simp [term] at h
  | tuple fields ih =>
    cases other
    case tuple fields' => rw [eq_of_fieldTerms ih (by simpa [term] using h)]
    all_goals simp [term] at h
  | optional content ih =>
    cases other
    case optional content' => rw [ih (by simpa [term] using h)]
    all_goals simp [term] at h
  | response ok err ihOk ihErr =>
    cases other
    case response ok' err' =>
      have hsides : ok.term = ok'.term ∧ err.term = err'.term := by simpa [term] using h
      rw [ihOk hsides.1, ihErr hsides.2]
    all_goals simp [term] at h

end Shape

namespace Value

/-! ## Signatures -/

private theorem toList_fieldSignaturesOnto {fields : Fields ClarityValue}
    (h : ∀ field ∈ fields, ∀ out,
      (signatureOnto out field.2.value).toList = out.toList ++ field.2.value.shape.term.spelling)
    (out : String) :
    (fieldSignaturesOnto out fields).toList =
      out.toList ++ Text.Term.argumentSpellings (Shape.fieldTerms (fieldShapes fields)) := by
  induction fields generalizing out with
  | nil => exact (List.append_nil _).symm
  | cons field rest ih =>
    obtain ⟨hfield, hrest⟩ := List.forall_mem_cons.mp h
    change (fieldSignaturesOnto (signatureOnto (out ++ " (" ++ field.1.text ++ " ") field.2.value ++
      ")") rest).toList = _
    rw [ih hrest, String.toList_append, hfield]
    simp only [fieldShapes, Shape.fieldTerms, Text.Term.argumentSpellings, Text.Term.spelling,
      String.toList_append, List.append_assoc, List.cons_append, List.append_nil]
    rfl

/-- The type signature is the shape, written as a term. -/
theorem toList_signatureOnto (value : Value) (out : String) :
    (signatureOnto out value).toList = out.toList ++ value.shape.term.spelling := by
  induction value generalizing out with
  | atom value a htree =>
    cases value <;> rw [tree] at htree <;> cases htree
    all_goals
      simp only [signatureOnto, String.toList_append, List.append_assoc, shape, Shape.term,
        Text.Term.spelling, Text.Term.argumentSpellings, List.append_nil, List.cons_append]
      rfl
  | wrapped wrapper body ih =>
    obtain ⟨body, span⟩ := body
    cases wrapper
    all_goals
      simp only [Wrapper.value, signatureOnto, ih, String.toList_append, List.append_assoc, shape,
        Shape.term, Text.Term.spelling, Text.Term.argumentSpellings, List.append_nil,
        List.cons_append]
      rfl
  | list items ih =>
    cases items with
    | nil =>
      simp only [signatureOnto, String.toList_append, List.append_assoc]
      rfl
    | cons item rest =>
      have hitem := ih item (List.mem_cons_self ..)
      obtain ⟨item, span⟩ := item
      simp only [signatureOnto, hitem, String.toList_append, List.append_assoc, shape, Shape.term,
        Text.Term.spelling, Text.Term.argumentSpellings, List.append_nil, List.cons_append]
      rfl
  | tuple fields ih =>
    rw [signatureOnto, String.toList_append, toList_fieldSignaturesOnto ih, String.toList_append]
    simp only [List.append_assoc]
    rfl

/-- **Type signatures tell shapes.** Two values have one type signature exactly if they have one
shape. -/
theorem signature_eq_iff_shape (value other : Value) :
    value.signature = other.signature ↔ value.shape = other.shape := by
  have hterm (value : Value) : value.signature.toList = value.shape.term.spelling :=
    toList_signatureOnto value ""
  constructor
  · intro h
    have hspelling : value.shape.term.spelling = other.shape.term.spelling := by
      rw [← hterm, h, hterm]
    exact Shape.term_injective (Text.Term.spelling_injective hspelling)
  · intro h
    apply String.toList_inj.mp
    rw [hterm, h, hterm]

end Value

end ClarityWire
