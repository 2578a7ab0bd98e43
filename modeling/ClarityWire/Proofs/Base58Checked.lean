import ClarityWire.Proofs.Base58

/-!
# Base 58 with a checksum

A text in the checked form is what its payload is written as. Every other text is refused, and the
text tells what for: a character that is no digit, fewer bytes than a checksum has, or a checksum
that is not that of the bytes in front of it.
-/

namespace ClarityWire.Base58

variable {checksum : Bytes → Checksum} {text : String} {answer : Except Error Bytes}

/-- What may be read of a text: the payload that it was written for, and else the first of its
faults in the order in which they are looked for. -/
inductive CheckedReading (checksum : Bytes → Checksum) : String → Except Error Bytes → Prop where
  | payload (payload : Bytes) :
    CheckedReading checksum (encodeCheck checksum payload) (.ok payload)
  | foreign {text : String} {c : Char} (h : text.toList.find? (· ∉ symbols) = some c) :
    CheckedReading checksum text (.error (.invalidCharacter c))
  | short {bytes : Bytes} (h : bytes.length < Checksum.size) :
    CheckedReading checksum (encode bytes) (.error (.tooShort bytes.length))
  | mismatch {payload : Bytes} {carried : Checksum} (h : checksum payload ≠ carried) :
    CheckedReading checksum (encode (payload ++ carried.toBytes))
      (.error (.checksumMismatch (checksum payload) carried))

theorem CheckedReading.decodeCheck_eq (h : CheckedReading checksum text answer) :
    decodeCheck checksum text = answer := by
  cases h with
  | payload payload => exact decodeCheck_eq_ok_iff.mpr rfl
  | foreign h => rw [decodeCheck, decode_eq_error_iff.mpr ⟨_, h, rfl⟩]
  | short h =>
    rw [decodeCheck, decode_eq_ok_iff.mpr rfl]
    simp only [Checksum.split?_eq_none_iff.mpr h]
  | mismatch h =>
    rw [decodeCheck, decode_eq_ok_iff.mpr rfl]
    simp only [Checksum.split?_eq_some_iff.mpr rfl, if_neg h]

theorem exists_checkedReading (checksum : Bytes → Checksum) (text : String) :
    ∃ answer, CheckedReading checksum text answer := by
  cases hread : decode text with
  | error e =>
    obtain ⟨c, hc, rfl⟩ := decode_eq_error_iff.mp hread
    exact ⟨_, .foreign hc⟩
  | ok bytes =>
    obtain rfl := decode_eq_ok_iff.mp hread
    cases hsplit : Checksum.split? bytes with
    | none => exact ⟨_, .short (Checksum.split?_eq_none_iff.mp hsplit)⟩
    | some parts =>
      obtain ⟨payload, carried⟩ := parts
      obtain rfl := Checksum.split?_eq_some_iff.mp hsplit
      by_cases h : checksum payload = carried
      · subst h
        exact ⟨_, .payload payload⟩
      · exact ⟨_, .mismatch h⟩

theorem decodeCheck_eq_iff : decodeCheck checksum text = answer ↔
    CheckedReading checksum text answer := by
  constructor
  · rintro rfl
    obtain ⟨answer, h⟩ := exists_checkedReading checksum text
    rwa [h.decodeCheck_eq]
  · exact CheckedReading.decodeCheck_eq

theorem decodeCheck_eq_invalidCharacter_iff {c : Char} :
    decodeCheck checksum text = .error (.invalidCharacter c) ↔
      text.toList.find? (· ∉ symbols) = some c := by
  rw [decodeCheck_eq_iff]
  constructor
  · intro h
    cases h with
    | foreign h => exact h
  · exact .foreign

theorem decodeCheck_eq_tooShort_iff {n : Nat} :
    decodeCheck checksum text = .error (.tooShort n) ↔
      n < Checksum.size ∧ ∃ bytes, encode bytes = text ∧ bytes.length = n := by
  rw [decodeCheck_eq_iff]
  constructor
  · intro h
    cases h with
    | short h => exact ⟨h, _, rfl, rfl⟩
  · rintro ⟨h, bytes, rfl, rfl⟩
    exact .short h

theorem decodeCheck_eq_checksumMismatch_iff {computed carried : Checksum} :
    decodeCheck checksum text = .error (.checksumMismatch computed carried) ↔
      computed ≠ carried ∧ ∃ payload, encode (payload ++ carried.toBytes) = text ∧
        checksum payload = computed := by
  rw [decodeCheck_eq_iff]
  constructor
  · intro h
    cases h with
    | mismatch h => exact ⟨h, _, rfl, rfl⟩
  · rintro ⟨h, payload, rfl, rfl⟩
    exact .mismatch h

/-- **The checked form reads what it writes and nothing else.** A text is read as a payload exactly
if it is the text of that payload. Every other text is refused: for its first character that is no
digit if it has one, for its length if it spells fewer bytes than a checksum has, and else because
its last four bytes are not the checksum of the bytes in front of them, which are both reported. -/
theorem decodeCheck_inverts_encodeCheck (checksum : Bytes → Checksum) (text : String) :
    (∀ payload, decodeCheck checksum text = .ok payload ↔ text = encodeCheck checksum payload) ∧
      (∀ c, decodeCheck checksum text = .error (.invalidCharacter c) ↔
        text.toList.find? (· ∉ symbols) = some c) ∧
      (∀ n, decodeCheck checksum text = .error (.tooShort n) ↔
        n < 4 ∧ ∃ bytes : Bytes, encode bytes = text ∧ bytes.length = n) ∧
      ∀ computed carried, decodeCheck checksum text = .error (.checksumMismatch computed carried) ↔
        computed ≠ carried ∧ ∃ payload, encode (payload ++ carried.toBytes) = text ∧
          checksum payload = computed := by
  refine ⟨?_, ?_, ?_, ?_⟩
  · intro payload
    rw [decodeCheck_eq_ok_iff, eq_comm]
  · intro c
    exact decodeCheck_eq_invalidCharacter_iff
  · intro n
    exact decodeCheck_eq_tooShort_iff
  · intro computed carried
    exact decodeCheck_eq_checksumMismatch_iff

end ClarityWire.Base58
