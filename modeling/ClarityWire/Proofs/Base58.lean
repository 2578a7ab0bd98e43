import ClarityWire.Base58
import ClarityWire.Proofs.Numerals

/-!
# Base 58 and bytes

Encoding changes the base of the bytes to 58 and keeps their leading zeros, decoding changes it
back. Both are exact, so base 58 texts and byte strings correspond to each other one to one.
-/

namespace ClarityWire.Base58

theorem symbols_nodup : symbols.Nodup := by decide

private theorem symbols_ascii : symbols.all (fun c => decide (c.toNat < 128)) = true := by
  decide

private theorem digit?_of_ascii :
    ∀ n < 128, digit? (Char.ofNat n) = symbols.idxOf? (Char.ofNat n) := by
  decide +kernel

/-- The table holds for each character its place in the alphabet. -/
theorem digit?_eq_idxOf? (c : Char) : digit? c = symbols.idxOf? c := by
  apply digitTable.digit?_eq_of_ascii (fun c => symbols.idxOf? c) digit?_of_ascii
  intro c h
  rw [List.idxOf?_eq_none_iff]
  intro hc
  exact Nat.not_lt.mpr h (of_decide_eq_true (List.all_eq_true.mp symbols_ascii c hc))

theorem digit?_eq_some_iff {c : Char} {d : Nat} : digit? c = some d ↔ d < 58 ∧ symbol d = c := by
  rw [digit?_eq_idxOf?]
  exact Radix.idxOf?_eq_some_iff_getD symbols_nodup '1'

theorem isNone_digit? (c : Char) : (digit? c).isNone = decide (c ∉ symbols) := by
  rw [Bool.eq_iff_iff, Option.isNone_iff_eq_none, digit?_eq_idxOf?, List.idxOf?_eq_none_iff,
    decide_eq_true_iff]

theorem isSome_digit? {c : Char} : (digit? c).isSome ↔ c ∈ symbols := by
  rw [digit?_eq_idxOf?]
  exact List.isSome_idxOf?

theorem digit?_symbol {d : Nat} (h : d < 58) : digit? (symbol d) = some d :=
  digit?_eq_some_iff.mpr ⟨h, rfl⟩

theorem encodeChars_eq (bytes : Bytes) :
    encodeChars bytes = (Radix.rebase 256 58 (bytes.map UInt8.toNat)).map symbol := by
  have hnumber := Radix.number_drop_leadingZeros 256 (bytes.map UInt8.toNat)
  rw [Radix.leadingZeros_map_toNat] at hnumber
  simp only [encodeChars, Radix.rebase, Radix.leadingZeros_map_toNat, List.map_append,
    List.map_replicate, List.map_drop, Radix.numeral]
  rw [Radix.convert_eq (by decide) (by decide), hnumber]

theorem decodeChars_eq (text : List Char) :
    decodeChars text =
      match text.find? (· ∉ symbols) with
      | some c => .error (.invalidCharacter c)
      | none => .ok ((Radix.rebase 58 256 (text.filterMap digit?)).map UInt8.ofNat) := by
  let ds := text.filterMap digit?
  have hconvert : Radix.convert 58 256 (ds.drop (Radix.leadingZeros ds)) =
      Radix.digits 256 (Radix.number 58 ds) := by
    rw [Radix.convert_eq (by decide) (by decide), Radix.number_drop_leadingZeros]
  simp only [decodeChars, isNone_digit?]
  cases text.find? (· ∉ symbols) with
  | some c => rfl
  | none =>
    simp only [Radix.rebase, List.map_append, List.map_replicate, Radix.numeral]
    rw [← hconvert]
    rfl

theorem decodeChars_encodeChars (bytes : Bytes) : decodeChars (encodeChars bytes) = .ok bytes := by
  have hfind : (encodeChars bytes).find? (· ∉ symbols) = none := by
    rw [List.find?_eq_none]
    intro c hc
    rw [encodeChars_eq] at hc
    obtain ⟨d, hd, rfl⟩ := List.mem_map.mp hc
    have hlt : d < 58 := Radix.rebase_lt (by decide) d hd
    simpa using isSome_digit?.mp (by simp [digit?_symbol hlt])
  rw [decodeChars_eq, hfind, encodeChars_eq]
  exact congrArg Except.ok (Radix.bytes_of_symbols (by decide) (fun d => digit?_symbol) bytes)

theorem encodeChars_of_decodeChars {text : List Char} {bytes : Bytes}
    (h : decodeChars text = .ok bytes) : encodeChars bytes = text := by
  rw [decodeChars_eq] at h
  cases hfind : text.find? (· ∉ symbols) with
  | some c =>
    rw [hfind] at h
    cases h
  | none =>
    rw [hfind] at h
    obtain rfl := Except.ok.inj h
    have hsymbols : ∀ c ∈ text, (digit? c).isSome := by
      intro c hc
      simpa [isSome_digit?] using List.find?_eq_none.mp hfind c hc
    have hdigits (c : Char) (d : Nat) : digit? c = some d → d < 58 ∧ symbol d = id c :=
      digit?_eq_some_iff.mp
    rw [encodeChars_eq, Radix.symbols_of_bytes (by decide) hdigits hsymbols, List.map_id]

theorem decode_eq_ok_iff {text : String} {bytes : Bytes} :
    decode text = .ok bytes ↔ encode bytes = text := by
  constructor
  · intro h
    rw [encode, encodeChars_of_decodeChars h, String.ofList_toList]
  · rintro rfl
    rw [decode, encode, String.toList_ofList, decodeChars_encodeChars]

theorem decode_eq_error_iff {text : String} {e : Error} :
    decode text = .error e ↔
      ∃ c, text.toList.find? (· ∉ symbols) = some c ∧ e = .invalidCharacter c := by
  rw [decode, decodeChars_eq]
  cases text.toList.find? (· ∉ symbols) <;> simp [eq_comm]

/-! ## The checked form -/

/-- What is read as a payload is what the payload is written as, and no other text. -/
theorem decodeCheck_eq_ok_iff {checksum : Bytes → Checksum} {text : String} {payload : Bytes} :
    decodeCheck checksum text = .ok payload ↔ encodeCheck checksum payload = text := by
  rw [encodeCheck, ← decode_eq_ok_iff, decodeCheck]
  cases decode text with
  | error e => simp
  | ok bytes =>
    dsimp only
    rw [Except.ok.injEq, ← Checksum.split?_eq_some_iff]
    cases Checksum.split? bytes with
    | none => simp
    | some parts =>
      obtain ⟨front, carried⟩ := parts
      by_cases h : checksum front = carried <;> grind

/-! ## Correspondence -/

/-- Decoding undoes encoding. It takes exactly the texts over the alphabet, which encoding then
gives back, and refuses any other for its first character outside the alphabet. -/
theorem decode_correspondence :
    (∀ bytes : Bytes, decode (encode bytes) = .ok bytes) ∧
      (∀ text : String, (∃ bytes, decode text = .ok bytes) ↔ ∀ c ∈ text.toList, c ∈ symbols) ∧
      (∀ (text : String) (bytes : Bytes), decode text = .ok bytes → encode bytes = text) ∧
      (∀ (text other : String) (bytes : Bytes),
        decode text = .ok bytes → decode other = .ok bytes → text = other) ∧
      ∀ (text : String) (e : Error), decode text = .error e ↔
        ∃ c, text.toList.find? (· ∉ symbols) = some c ∧ e = .invalidCharacter c := by
  refine ⟨?_, ?_, ?_, ?_, ?_⟩
  · intro bytes
    exact decode_eq_ok_iff.mpr rfl
  · intro text
    have hfind : text.toList.find? (· ∉ symbols) = none ↔ ∀ c ∈ text.toList, c ∈ symbols := by
      simp [List.find?_eq_none]
    rw [← hfind, decode, decodeChars_eq]
    cases text.toList.find? (· ∉ symbols) <;> simp
  · intro text bytes h
    exact decode_eq_ok_iff.mp h
  · intro text other bytes h h'
    rw [← decode_eq_ok_iff.mp h, decode_eq_ok_iff.mp h']
  · intro text e
    exact decode_eq_error_iff

end ClarityWire.Base58
