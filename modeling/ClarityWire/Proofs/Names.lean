import ClarityWire.Name
import ClarityWire.Proofs.Utf8

/-!
# Names and their bytes

A name is determined by its bytes, its length always fits one byte, and its own check accepts it.
Names are totally ordered by their bytes.
-/

namespace ClarityWire.Name

variable {kind : NameKind}

theorem eq_of_text {a b : Name kind} (h : a.text = b.text) : a = b := by
  cases a
  cases b
  cases h
  rfl

theorem bytes_injective {a b : Name kind} (h : a.bytes = b.bytes) : a = b :=
  eq_of_text (String.toList_inj.mp (Utf8.encode_injective h))

theorem allowsLength_bytes (name : Name kind) : kind.allowsLength name.bytes.length = true := by
  have h := name.accepted
  rw [NameKind.accepts, Bool.and_eq_true] at h
  exact h.1

theorem length_bytes_lt (name : Name kind) : name.bytes.length < 256 := by
  have h := name.allowsLength_bytes
  simp only [NameKind.allowsLength, Bool.and_eq_true, decide_eq_true_eq] at h
  cases kind <;> simp only [NameKind.maxLength] at h <;> omega

/-- Checking the text of a name gives the name back. -/
theorem ofString_text (name : Name kind) : ofString kind name.text = .ok name := by
  rw [ofString, dif_pos name.accepted]

theorem text_of_ofString {text : String} {name : Name kind} (h : ofString kind text = .ok name) :
    name.text = text := by
  unfold ofString at h
  split at h
  · cases h
    rfl
  · split at h <;> cases h

/-- The bytes of a name are well-formed and spell its text. -/
theorem decode?_bytes (name : Name kind) : Utf8.decode? name.bytes = some name.text.toList :=
  Utf8.decode?_encode _

private theorem all_allowsChar_of_mem_reserved :
    ∀ text ∈ kind.reserved, text.toList.all kind.allowsChar := by
  cases kind <;> decide

/-- A name has no other characters than those that may follow its first letter. -/
theorem allowsChar_of_mem (name : Name kind) {c : Char} (hc : c ∈ name.text.toList) :
    kind.allowsChar c = true := by
  have h := name.accepted
  rw [NameKind.accepts, Bool.and_eq_true, NameKind.allowsText, Bool.or_eq_true,
    List.contains_iff_mem] at h
  rcases h.2 with hreserved | hword
  · exact List.all_eq_true.mp (all_allowsChar_of_mem_reserved name.text hreserved) c hc
  · cases htext : name.text.toList with
    | nil =>
      rw [htext] at hc
      cases hc
    | cons first rest =>
      rw [htext] at hc hword
      rw [NameKind.allowsWord, Bool.and_eq_true, List.all_eq_true] at hword
      rcases List.mem_cons.mp hc with rfl | hrest
      · rw [NameKind.allowsChar, Char.isAlphanum, hword.1, Bool.true_or, Bool.true_or]
      · exact hword.2 c hrest

theorem toList_text_ne_nil (name : Name kind) : name.text.toList ≠ [] := by
  intro hnil
  have h := name.accepted
  have hempty : name.text = "" := String.toList_inj.mp hnil
  have hreserved : kind.reserved.contains "" = false := by cases kind <;> decide
  rw [NameKind.accepts, Bool.and_eq_true, NameKind.allowsText, hempty, hreserved] at h
  cases h.2

/-! ## Order -/

instance : Std.TransOrd (Name kind) :=
  inferInstanceAs (Std.TransCmp (compareOn bytes))

instance : Std.LawfulEqOrd (Name kind) where
  eq_of_compare h := bytes_injective (Std.LawfulEqOrd.eq_of_compare (α := Bytes) h)

end ClarityWire.Name
