import Mathlib.Data.List.Forall2
import ClarityWire.Proofs.Reading
import ClarityWire.Value.Decode

/-!
# Strings scalar by scalar

What spells a scalar in UTF-8 can be told from the number alone: of the forms that carry its bits it
is the shortest, and only numbers that are scalars are spelled at all. A byte string that falls into
such groups falls into them in one way, and reading a string finds them.
-/

namespace ClarityWire

namespace Utf8

/-- The bits of a number in the first byte and in groups of six behind it, where the first byte
tells how many bytes follow. -/
inductive Form (n : Nat) : Bytes → Prop where
  | one (hn : n < 0x80) : Form n [UInt8.ofNat n]
  | two {a b : Nat} (ha : a < 32) (hb : b < 64) (hn : n = a * 64 + b) :
    Form n [UInt8.ofNat (0xC0 + a), UInt8.ofNat (0x80 + b)]
  | three {a b c : Nat} (ha : a < 16) (hb : b < 64) (hc : c < 64)
    (hn : n = (a * 64 + b) * 64 + c) :
    Form n [UInt8.ofNat (0xE0 + a), UInt8.ofNat (0x80 + b), UInt8.ofNat (0x80 + c)]
  | four {a b c d : Nat} (ha : a < 8) (hb : b < 64) (hc : c < 64) (hd : d < 64)
    (hn : n = ((a * 64 + b) * 64 + c) * 64 + d) :
    Form n [UInt8.ofNat (0xF0 + a), UInt8.ofNat (0x80 + b), UInt8.ofNat (0x80 + c),
      UInt8.ofNat (0x80 + d)]

/-- The bytes spell a scalar: they have its form and are not overlong, and the number is neither a
surrogate nor beyond the last scalar. -/
structure Spells (n : Nat) (group : Bytes) : Prop where
  form : Form n group
  shortest : ∀ other, Form n other → group.length ≤ other.length
  not_surrogate : ¬ (0xD800 ≤ n ∧ n ≤ 0xDFFF)
  le_last : n ≤ 0x10FFFF

/-- A byte string in groups that spell one scalar each. -/
structure Split (bytes : Bytes) (groups : List Bytes) : Prop where
  flatten_eq : groups.flatten = bytes
  spells : ∀ group ∈ groups, ∃ n, Spells n group

variable {n : Nat} {group bytes : Bytes} {groups : List Bytes}

/-! ## The shortest form -/

/-- How many bytes the shortest form of a number has. -/
def leastSize (n : Nat) : Nat :=
  if n < 0x80 then 1 else if n < 0x800 then 2 else if n < 0x10000 then 3 else 4

theorem Form.leastSize_le (h : Form n group) : leastSize n ≤ group.length := by
  cases h <;> simp only [leastSize, List.length_cons, List.length_nil] <;> split_ifs <;> omega

theorem exists_form (h : n ≤ 0x10FFFF) : ∃ group, Form n group ∧ group.length = leastSize n := by
  unfold leastSize
  split_ifs with h1 h2 h3
  · exact ⟨_, .one h1, rfl⟩
  · exact ⟨_, .two (a := n / 64) (b := n % 64) (by omega) (by omega) (by omega), rfl⟩
  · exact ⟨_, .three (a := n / 4096) (b := n / 64 % 64) (c := n % 64) (by omega) (by omega)
      (by omega) (by omega), rfl⟩
  · exact ⟨_, .four (a := n / 262144) (b := n / 4096 % 64) (c := n / 64 % 64) (d := n % 64)
      (by omega) (by omega) (by omega) (by omega) (by omega), rfl⟩

theorem Spells.length_eq (h : Spells n group) : group.length = leastSize n := by
  obtain ⟨other, hform, hlength⟩ := exists_form h.le_last
  have hshortest := h.shortest other hform
  have hleast := h.form.leastSize_le
  omega

theorem Spells.length_bounds (h : Spells n group) : 1 ≤ group.length ∧ group.length ≤ 4 := by
  rw [h.length_eq, leastSize]
  split_ifs <;> omega

theorem isValidChar_iff : n.isValidChar ↔ ¬ (0xD800 ≤ n ∧ n ≤ 0xDFFF) ∧ n ≤ 0x10FFFF := by
  rw [Nat.isValidChar]
  omega

theorem Spells.isValidChar (h : Spells n group) : n.isValidChar :=
  isValidChar_iff.mpr ⟨h.not_surrogate, h.le_last⟩

theorem spells_of_form (hform : Form n group) (hlength : group.length = leastSize n)
    (hvalid : n.isValidChar) : Spells n group where
  form := hform
  shortest _ hother := hlength ▸ hother.leastSize_le
  not_surrogate := (isValidChar_iff.mp hvalid).1
  le_last := (isValidChar_iff.mp hvalid).2

/-- A shortest form is what the scalar is encoded as. -/
theorem Spells.utf8EncodeChar_eq (h : Spells n group) :
    String.utf8EncodeChar (Char.ofNat n) = group := by
  have hlast := h.le_last
  have hlength := h.length_eq
  unfold leastSize at hlength
  cases h.form with
  | one hn => exact encode_one hn
  | two ha hb hn =>
    have hlow : 0x80 ≤ n := by
      change 2 = _ at hlength
      split_ifs at hlength <;> omega
    exact encode_two ha hb hn hlow
  | three ha hb hc hn =>
    have hlow : 0x800 ≤ n := by
      change 3 = _ at hlength
      split_ifs at hlength <;> omega
    exact encode_three ha hb hc hn hlow h.isValidChar
  | four ha hb hc hd hn =>
    have hlow : 0x10000 ≤ n := by
      change 4 = _ at hlength
      split_ifs at hlength <;> omega
    exact encode_four hb hc hd hn hlow (by omega)

/-- Each scalar is spelled by its encoding. -/
theorem spells_utf8EncodeChar (c : Char) : Spells c.toNat (String.utf8EncodeChar c) := by
  have hvalid : c.toNat.isValidChar := c.valid
  obtain ⟨group, hform, hlength⟩ := exists_form (isValidChar_iff.mp hvalid).2
  have hspells := spells_of_form hform hlength hvalid
  have hgroup := hspells.utf8EncodeChar_eq
  rw [Char.ofNat_toNat] at hgroup
  rwa [hgroup]

/-- The number can be told from the bytes. -/
theorem Spells.unique {m : Nat} (h : Spells n group) (hm : Spells m group) : m = n := by
  have hchar : Char.ofNat m = Char.ofNat n := by
    have hencode : encode [Char.ofNat m] = encode [Char.ofNat n] := by
      rw [encode_cons, encode_cons, hm.utf8EncodeChar_eq, h.utf8EncodeChar_eq]
    exact List.singleton_inj.mp (encode_injective hencode)
  rw [← val_ofNat hm.isValidChar, hchar, val_ofNat h.isValidChar]

theorem exists_spells_iff :
    (∃ n, Spells n group) ↔ ∃ c, String.utf8EncodeChar c = group := by
  constructor
  · rintro ⟨n, h⟩
    exact ⟨Char.ofNat n, h.utf8EncodeChar_eq⟩
  · rintro ⟨c, rfl⟩
    exact ⟨c.toNat, spells_utf8EncodeChar c⟩

/-! ## Splitting -/

/-- The splits of a byte string are the encodings of the scalars of a text that it encodes. -/
theorem split_iff : Split bytes groups ↔
    ∃ text : List Char, encode text = bytes ∧ text.map String.utf8EncodeChar = groups := by
  constructor
  · rintro ⟨rfl, hspells⟩
    obtain ⟨text, rfl⟩ := exists_text_of_groups fun group hgroup =>
      exists_spells_iff.mp (hspells group hgroup)
    exact ⟨text, List.flatMap_def .., rfl⟩
  · rintro ⟨text, rfl, rfl⟩
    refine ⟨(List.flatMap_def ..).symm, ?_⟩
    intro group hgroup
    obtain ⟨c, -, rfl⟩ := List.mem_map.mp hgroup
    exact ⟨c.toNat, spells_utf8EncodeChar c⟩

theorem Split.unique (h : Split bytes groups) {other : List Bytes} (hother : Split bytes other) :
    other = groups := by
  obtain ⟨text, htext, rfl⟩ := split_iff.mp h
  obtain ⟨otherText, hotherText, rfl⟩ := split_iff.mp hother
  rw [encode_injective (hotherText.trans htext.symm)]

theorem exists_split_iff : (∃ groups, Split bytes groups) ↔ WellFormed bytes := by
  simp only [split_iff]
  constructor
  · rintro ⟨groups, text, htext, -⟩
    exact ⟨text, htext⟩
  · rintro ⟨text, htext⟩
    exact ⟨_, text, htext, rfl⟩

end Utf8

namespace Value

theorem ofUtf8_encode (text : List Char) : ofUtf8 (Utf8.encode text) = .ok (ofText text) := by
  rw [ofUtf8, ofUtf8?, Utf8.decode?_encode]
  rfl

theorem ofUtf8_of_not_wellFormed {bytes : Bytes} (h : ¬ Utf8.WellFormed bytes) :
    ofUtf8 bytes = .error .invalidUtf8 := by
  rw [ofUtf8, ofUtf8?, Utf8.decode?_eq_none_iff.mpr h]
  rfl

theorem ofUtf8_eq_ok_iff {bytes : Bytes} {value : Value} :
    ofUtf8 bytes = .ok value ↔ ∃ groups, Utf8.Split bytes groups ∧ value = .utf8 groups := by
  constructor
  · intro h
    by_cases hform : Utf8.WellFormed bytes
    · obtain ⟨text, rfl⟩ := hform
      rw [ofUtf8_encode] at h
      exact ⟨_, Utf8.split_iff.mpr ⟨text, rfl, rfl⟩, (Except.ok.inj h).symm⟩
    · rw [ofUtf8_of_not_wellFormed hform] at h
      cases h
  · rintro ⟨groups, hsplit, rfl⟩
    obtain ⟨text, rfl, rfl⟩ := Utf8.split_iff.mp hsplit
    exact ofUtf8_encode text

theorem ofUtf8_eq_error_iff {bytes : Bytes} {e : WireError} :
    ofUtf8 bytes = .error e ↔ (¬ ∃ groups, Utf8.Split bytes groups) ∧ e = .invalidUtf8 := by
  rw [Utf8.exists_split_iff]
  constructor
  · intro h
    by_cases hform : Utf8.WellFormed bytes
    · obtain ⟨text, rfl⟩ := hform
      rw [ofUtf8_encode] at h
      cases h
    · rw [ofUtf8_of_not_wellFormed hform] at h
      exact ⟨hform, (Except.error.inj h).symm⟩
  · rintro ⟨hform, rfl⟩
    exact ofUtf8_of_not_wellFormed hform

end Value

/-! ## Strings on the wire -/

namespace Decoder

theorem ofExcept_answers {α : Type} (answer : Except WireError α) (offset : Nat) :
    (ofExcept answer).Answers offset [] answer := by
  cases answer with
  | ok value => exact .done value offset
  | error e => exact .fail e offset []

theorem content_utf8 (child : Decoder ClarityValue) :
    content child .utf8 = sizedBytes >>= fun bytes => ofExcept (Value.ofUtf8 bytes) := by
  refine congrArg (sizedBytes >>= ·) (funext fun bytes => ?_)
  rw [Value.ofUtf8]
  cases Value.ofUtf8? bytes <;> rfl

/-- Behind its length, a string is read as its bytes are. -/
theorem content_utf8_answers (child : Decoder ClarityValue) {bytes : Bytes}
    (h : bytes.length ≤ maxValueSize) (offset : Nat) :
    (content child .utf8).Answers offset bytes.sized (Value.ofUtf8 bytes) := by
  have hlimit : bytes.length < 256 ^ 4 := Nat.lt_of_le_of_lt h (by decide)
  have hsized := sizedBytes_answers hlimit offset
  rw [sizeFailure?, if_neg (Nat.not_lt.mpr h)] at hsized
  rw [content_utf8]
  exact hsized.bind_nil (ofExcept_answers _ _)

end Decoder

namespace Value

/-- **UTF-8 strings split without loss.** Bytes are read as a string exactly if they fall into
groups that spell one scalar each, which are then the groups of the string, and any others are
refused as ill-formed. There is one such split. Its groups have one to four bytes and spell the
scalars of the text that the bytes encode, so the string is that of the text. A string on the wire
is read in the same way. -/
theorem ofUtf8_splits (bytes : Bytes) :
    (∀ value, ofUtf8 bytes = .ok value ↔
        ∃ groups, Utf8.Split bytes groups ∧ value = .utf8 groups) ∧
      (∀ e, ofUtf8 bytes = .error e ↔
        (¬ ∃ groups, Utf8.Split bytes groups) ∧ e = .invalidUtf8) ∧
      (∀ groups, Utf8.Split bytes groups →
        (∀ other, Utf8.Split bytes other → other = groups) ∧
        (∀ group ∈ groups, 1 ≤ group.length ∧ group.length ≤ 4 ∧ ∃! n, Utf8.Spells n group) ∧
        ∃ text : String, Utf8.ofString text = bytes ∧
          List.Forall₂ (fun c group => Utf8.Spells c.toNat group) text.toList groups ∧
            Value.utf8 groups = ofText text.toList) ∧
      ∀ (child : Decoder ClarityValue) (offset : Nat), bytes.length ≤ maxValueSize →
        (Decoder.content child .utf8).Answers offset bytes.sized (ofUtf8 bytes) := by
  refine ⟨?_, ?_, ?_, ?_⟩
  · intro value
    exact ofUtf8_eq_ok_iff
  · intro e
    exact ofUtf8_eq_error_iff
  · intro groups hsplit
    refine ⟨fun other hother => hsplit.unique hother, ?_, ?_⟩
    · intro group hgroup
      obtain ⟨n, hn⟩ := hsplit.spells group hgroup
      obtain ⟨hpos, hle⟩ := hn.length_bounds
      exact ⟨hpos, hle, n, hn, fun m hm => hn.unique hm⟩
    · obtain ⟨text, rfl, rfl⟩ := Utf8.split_iff.mp hsplit
      refine ⟨String.ofList text, ?_, ?_, ?_⟩
      · rw [Utf8.ofString, String.toList_ofList]
      · rw [String.toList_ofList, List.forall₂_map_right_iff, List.forall₂_same]
        exact fun c _ => Utf8.spells_utf8EncodeChar c
      · rw [String.toList_ofList, ofText]
  · intro child offset h
    exact Decoder.content_utf8_answers child h offset

/-- A scalar of each length. -/
def everyLength : Bytes := [0x7a, 0xc3, 0xa9, 0xe2, 0x82, 0xac, 0xf0, 0x9f, 0x98, 0x80]

theorem ofUtf8_splits_everyLength :
    Utf8.Split everyLength [[0x7a], [0xc3, 0xa9], [0xe2, 0x82, 0xac], [0xf0, 0x9f, 0x98, 0x80]] ∧
      (∀ other, Utf8.Split everyLength other →
        other = [[0x7a], [0xc3, 0xa9], [0xe2, 0x82, 0xac], [0xf0, 0x9f, 0x98, 0x80]]) ∧
      ∀ child : Decoder ClarityValue, (Decoder.content child .utf8).Answers 0 everyLength.sized
        (.ok (ofText ['z', 'é', '€', '😀'])) := by
  obtain ⟨hok, -, hsplits, hwire⟩ := ofUtf8_splits everyLength
  have hread : ofUtf8 everyLength = .ok (ofText ['z', 'é', '€', '😀']) := by rfl
  obtain ⟨groups, hsplit, hgroups⟩ := (hok _).mp hread
  obtain rfl := Value.utf8.inj hgroups
  refine ⟨hsplit, (hsplits _ hsplit).1, fun child => ?_⟩
  rw [← hread]
  exact hwire child 0 (by decide)

end Value

end ClarityWire
