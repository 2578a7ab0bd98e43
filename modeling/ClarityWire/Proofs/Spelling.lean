import ClarityWire.Proofs.Ranges
import ClarityWire.Value.Render

/-!
# The text of a value, character by character

The text of a value is appended to whatever has been written before. Here it stands on its own, as
the characters of a value put together from those of the values inside it.
-/

namespace ClarityWire

/-- What the text of a value that holds exactly one other starts with. -/
def Wrapper.opener : Wrapper → List Char
  | .responseOk => ['(', 'o', 'k', ' ']
  | .responseErr => ['(', 'e', 'r', 'r', ' ']
  | .optionalSome => ['(', 's', 'o', 'm', 'e', ' ']

namespace Value

variable {limit? : Option Nat}

/-- The characters of the text of a value. -/
def spelling (limit? : Option Nat) (value : Value) : List Char :=
  (value.renderLimited limit?).toList

/-- The characters of an item of a list. -/
def itemSpelling (item : ClarityValue) : List Char :=
  ' ' :: item.value.spelling none

/-- The characters of a field of a tuple. -/
def fieldSpelling (field : ClarityName × ClarityValue) : List Char :=
  [' ', '('] ++ field.1.text.toList ++ ' ' :: (field.2.value.spelling none ++ [')'])

/-! ## Appending -/

private theorem toList_renderItemsOnto {items : List ClarityValue}
    (h : ∀ item ∈ items, ∀ out,
      (renderOnto none out item.value).toList = out.toList ++ item.value.spelling none)
    (out : String) :
    (renderItemsOnto out items).toList = out.toList ++ items.flatMap itemSpelling := by
  induction items generalizing out with
  | nil => exact (List.append_nil _).symm
  | cons item rest ih =>
    obtain ⟨hitem, hrest⟩ := List.forall_mem_cons.mp h
    change (renderItemsOnto (renderOnto none (out ++ " ") item.value) rest).toList = _
    rw [ih hrest, hitem, String.toList_append, List.flatMap_cons]
    simp only [itemSpelling, List.append_assoc, List.cons_append]
    rfl

private theorem toList_renderFieldsOnto {fields : Fields ClarityValue}
    (h : ∀ field ∈ fields, ∀ out,
      (renderOnto none out field.2.value).toList = out.toList ++ field.2.value.spelling none)
    (out : String) :
    (renderFieldsOnto out fields).toList = out.toList ++ fields.flatMap fieldSpelling := by
  induction fields generalizing out with
  | nil => exact (List.append_nil _).symm
  | cons field rest ih =>
    obtain ⟨hfield, hrest⟩ := List.forall_mem_cons.mp h
    change (renderFieldsOnto (renderOnto none (out ++ " (" ++ field.1.text ++ " ") field.2.value ++
      ")") rest).toList = _
    rw [ih hrest, String.toList_append, hfield, List.flatMap_cons]
    simp only [String.toList_append, fieldSpelling, List.append_assoc, List.cons_append]
    rfl

private theorem renderOnto_wrapped (wrapper : Wrapper) (body : ClarityValue) (out : String) :
    renderOnto limit? out (wrapper.value body) =
      renderOnto none (out ++ String.ofList wrapper.opener) body.value ++ ")" := by
  cases wrapper <;> rfl

/-- The text of a value is appended as it is. -/
theorem toList_renderOnto (value : Value) (limit? : Option Nat) (out : String) :
    (renderOnto limit? out value).toList = out.toList ++ value.spelling limit? := by
  induction value generalizing limit? out with
  | atom value a htree =>
    cases value <;> rw [tree] at htree <;> cases htree
    case atom.bool.refl value =>
      cases value <;> rw [spelling, renderLimited, renderOnto, renderOnto, String.toList_append] <;>
        rfl
    all_goals
      simp only [spelling, renderLimited, renderOnto, String.toList_append, List.append_assoc]
      rfl
  | wrapped wrapper body ih =>
    rw [spelling, renderLimited, renderOnto_wrapped, renderOnto_wrapped, String.toList_append,
      String.toList_append, ih, ih, String.toList_append, String.toList_append]
    simp only [List.append_assoc]
    rfl
  | list items ih =>
    have hitems := toList_renderItemsOnto fun item hitem => ih item hitem none
    simp only [spelling, renderLimited, renderOnto, String.toList_append, hitems,
      List.append_assoc]
    rfl
  | tuple fields ih =>
    have hfields := toList_renderFieldsOnto fun field hfield => ih field hfield none
    simp only [spelling, renderLimited, renderOnto, String.toList_append, hfields,
      List.append_assoc]
    rfl

/-! ## Simple values -/

theorem spelling_int (bits : BitVec 128) :
    (Value.int bits).spelling limit? = bits.toInt.repr.toList := by
  change ("" ++ bits.toInt.repr).toList = _
  rw [String.toList_append]
  rfl

theorem spelling_uint (bits : BitVec 128) :
    (Value.uint bits).spelling limit? = 'u' :: bits.toNat.repr.toList := by
  change ("" ++ "u" ++ bits.toNat.repr).toList = _
  rw [String.toList_append, String.toList_append]
  rfl

theorem spelling_buffer (bytes : Bytes) :
    (Value.buffer bytes).spelling limit? =
      Hex.truncatedDigits bytes (limit?.getD (2 * bytes.length)) := by
  change ("" ++ Hex.encodeTruncated bytes limit?).toList = _
  simp only [String.toList_append, Hex.encodeTruncated, String.toList_ofList]
  rfl

theorem spelling_principal (address : StacksAddress) :
    (Value.principal address).spelling limit? = (renderAddress address).toList := by
  change ("" ++ renderAddress address).toList = _
  rw [String.toList_append]
  rfl

theorem spelling_contract (id : ContractPrincipal) :
    (Value.contract id).spelling limit? = (renderContract id).toList := by
  change ("" ++ renderContract id).toList = _
  rw [String.toList_append]
  rfl

theorem spelling_ascii (bytes : Bytes) :
    (Value.ascii bytes).spelling limit? = '\x22' :: (bytes.flatMap escapeByte ++ ['\x22']) := by
  change ("" ++ "\"" ++ String.ofList (bytes.flatMap escapeByte) ++ "\"").toList = _
  simp only [String.toList_append, String.toList_ofList]
  rfl

theorem spelling_utf8 (groups : List Bytes) :
    (Value.utf8 groups).spelling limit? =
      'u' :: '\x22' :: (groups.flatMap (escapeGroup limit?) ++ ['\x22']) := by
  change ("" ++ "u\"" ++ String.ofList (groups.flatMap (escapeGroup limit?)) ++ "\"").toList = _
  simp only [String.toList_append, String.toList_ofList]
  rfl

/-! ## Compound values -/

theorem spelling_wrapped (wrapper : Wrapper) (body : ClarityValue) :
    (wrapper.value body).spelling limit? =
      wrapper.opener ++ (body.value.spelling none ++ [')']) := by
  rw [spelling, renderLimited, renderOnto_wrapped, String.toList_append, toList_renderOnto]
  simp only [String.toList_append, String.toList_ofList, List.append_assoc]
  rfl

theorem spelling_list (items : List ClarityValue) :
    (Value.list items).spelling limit? =
      ['(', 'l', 'i', 's', 't'] ++ (items.flatMap itemSpelling ++ [')']) := by
  have hitems := toList_renderItemsOnto fun item (_ : item ∈ items) =>
    toList_renderOnto item.value none
  change (renderItemsOnto ("" ++ "(list") items ++ ")").toList = _
  rw [String.toList_append, hitems, List.append_assoc]
  rfl

theorem spelling_tuple (fields : Fields ClarityValue) :
    (Value.tuple fields).spelling limit? =
      ['(', 't', 'u', 'p', 'l', 'e'] ++ (fields.flatMap fieldSpelling ++ [')']) := by
  have hfields := toList_renderFieldsOnto fun field (_ : field ∈ fields) =>
    toList_renderOnto field.2.value none
  change (renderFieldsOnto ("" ++ "(tuple") fields ++ ")").toList = _
  rw [String.toList_append, hfields, List.append_assoc]
  rfl

/-- Ranges do not show. -/
theorem spelling_erase (value : Value) : value.erase.spelling limit? = value.spelling limit? := by
  rw [erase]
  induction value generalizing limit? with
  | atom value a htree =>
    cases value <;> rw [tree] at htree <;> cases htree <;> simp only [rebuild, id_eq]
  | wrapped wrapper body ih =>
    rw [rebuild_wrapped, spelling_wrapped, spelling_wrapped, ClarityValue.rebuild, ih]
  | list items ih =>
    rw [rebuild_list, spelling_list, spelling_list, List.flatMap_map, List.flatMap_def,
      List.flatMap_def]
    congr 3
    apply List.map_congr_left
    intro item hitem
    rw [itemSpelling, itemSpelling, ClarityValue.rebuild, ih item hitem]
  | tuple fields ih =>
    rw [rebuild_tuple, spelling_tuple, spelling_tuple, List.flatMap_map, List.flatMap_def,
      List.flatMap_def]
    congr 3
    apply List.map_congr_left
    intro field hfield
    rw [fieldSpelling, fieldSpelling, ClarityValue.rebuild, ih field hfield]

theorem renderLimited_erase (value : Value) :
    value.erase.renderLimited limit? = value.renderLimited limit? :=
  String.toList_inj.mp value.spelling_erase

end Value

end ClarityWire
