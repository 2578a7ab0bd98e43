import ClarityWire.Proofs.Packing
import ClarityWire.Proofs.Words

/-!
# c32 and bytes

Encoding changes the base of the bytes to 32 and keeps their leading zeros, decoding changes it
back. Byte strings correspond one to one to the texts in capitals and without look-alikes, and
every other text that is read is a spelling of one of these.
-/

namespace ClarityWire.C32

/-- A letter or digit of ASCII, in either case, that stands for a digit. -/
def Accepted (c : Char) : Prop :=
  c.isAlphanum ∧ c ≠ 'U' ∧ c ≠ 'u'

instance : DecidablePred Accepted :=
  fun c => inferInstanceAs (Decidable (c.isAlphanum ∧ c ≠ 'U' ∧ c ≠ 'u'))

/-- The capital form of a character, with look-alikes replaced by the digits they stand for. -/
def canonical (c : Char) : Char :=
  match c.toUpper with
  | 'O' => '0'
  | 'I' => '1'
  | 'L' => '1'
  | capital => capital

/-- A text in capitals, with look-alikes replaced. -/
def normalize (text : String) : String :=
  text.map canonical

/-- The character for which a text is refused: the first one outside ASCII or else the last one
that stands for no digit. -/
def offending? (text : List Char) : Option Char :=
  (text.find? fun c => !isAscii c).or (text.reverse.find? fun c => decide (¬ Accepted c))

/-! ## Characters -/

theorem symbols_nodup : symbols.Nodup := by decide

private theorem symbols_ascii : symbols.all isAscii = true := by decide

private theorem canonical_of_not_ascii {c : Char} (h : 128 ≤ c.toNat) : canonical c = c := by
  have hsmall : ¬ (c.val ≥ 'a'.val ∧ c.val ≤ 'z'.val) := by
    rintro ⟨-, hz⟩
    have hz : c.toNat ≤ 122 := UInt32.le_iff_toNat_le.mp hz
    omega
  have hupper : c.toUpper = c := dif_neg hsmall
  rw [canonical, hupper]
  split
  · exact absurd h (by decide)
  · exact absurd h (by decide)
  · exact absurd h (by decide)
  · rfl

private theorem digit?_of_ascii :
    ∀ n < 128, digit? (Char.ofNat n) = symbols.idxOf? (canonical (Char.ofNat n)) := by
  decide +kernel

/-- The table holds for each character the place that its capital form has in the alphabet, or the
digit that it looks like. -/
theorem digit?_eq_idxOf? (c : Char) : digit? c = symbols.idxOf? (canonical c) := by
  apply digitTable.digit?_eq_of_ascii (fun c => symbols.idxOf? (canonical c)) digit?_of_ascii
  intro c h
  rw [canonical_of_not_ascii h, List.idxOf?_eq_none_iff]
  intro hc
  exact Nat.not_lt.mpr h (of_decide_eq_true (List.all_eq_true.mp symbols_ascii c hc))

example : "OoIiLl".toList.map digit? = [some 0, some 0, some 1, some 1, some 1, some 1] := by
  cbv

theorem digit?_eq_some_iff {c : Char} {d : Nat} :
    digit? c = some d ↔ d < 32 ∧ symbol d = canonical c := by
  rw [digit?_eq_idxOf?]
  exact Radix.idxOf?_eq_some_iff_getD symbols_nodup '0'

private theorem canonical_symbol : ∀ d < 32, canonical (symbol d) = symbol d := by decide

private theorem canonical_toLower_symbol :
    ∀ d < 32, canonical (symbol d).toLower = symbol d := by decide

theorem digit?_symbol {d : Nat} (h : d < 32) : digit? (symbol d) = some d :=
  digit?_eq_some_iff.mpr ⟨h, (canonical_symbol d h).symm⟩

theorem digit?_toLower_symbol {d : Nat} (h : d < 32) : digit? (symbol d).toLower = some d :=
  digit?_eq_some_iff.mpr ⟨h, (canonical_toLower_symbol d h).symm⟩

theorem isAscii_of_accepted {c : Char} (h : Accepted c) : isAscii c = true := by
  have hlast := (Text.code_of_isAlphanum h.1).2
  rw [isAscii, decide_eq_true_iff]
  omega

private theorem isSome_digit?_of_ascii :
    ∀ n < 128, (digit? (Char.ofNat n)).isSome = decide (Accepted (Char.ofNat n)) := by
  decide +kernel

theorem isSome_digit? (c : Char) : (digit? c).isSome = decide (Accepted c) := by
  by_cases h : c.toNat < 128
  · have hc := isSome_digit?_of_ascii c.toNat h
    rwa [Char.ofNat_toNat] at hc
  · have hnone : digit? c = none := by
      rw [digit?_eq_idxOf?, canonical_of_not_ascii (Nat.not_lt.mp h), List.idxOf?_eq_none_iff]
      exact fun hc => h (of_decide_eq_true (List.all_eq_true.mp symbols_ascii c hc))
    have hnot : ¬ Accepted c := fun hc => h (of_decide_eq_true (isAscii_of_accepted hc))
    rw [hnone, decide_eq_false hnot]
    rfl

theorem accepted_of_digit? {c : Char} {d : Nat} (h : digit? c = some d) : Accepted c := by
  have hsome := isSome_digit? c
  rw [h] at hsome
  exact of_decide_eq_true hsome.symm

theorem symbol_mem : ∀ d < 32, symbol d ∈ symbols := by decide

theorem accepted_of_canonical_mem {c : Char} (h : canonical c ∈ symbols) : Accepted c := by
  have hsome := isSome_digit? c
  rw [digit?_eq_idxOf?, List.isSome_idxOf?.mpr h] at hsome
  exact of_decide_eq_true hsome.symm

theorem accepted_of_isDigit {c : Char} (h : c.isDigit) : Accepted c := by
  refine ⟨by simp [Char.isAlphanum, h], ?_, ?_⟩ <;>
  · rintro rfl
    exact absurd h (by decide)

theorem filterMap_digit?_lt {text : List Char} : ∀ d ∈ text.filterMap digit?, d < 32 := by
  intro d hd
  obtain ⟨c, -, hc⟩ := List.mem_filterMap.mp hd
  exact (digit?_eq_some_iff.mp hc).1

/-! ## Digits -/

theorem encodeChars_eq (bytes : Bytes) :
    encodeChars bytes = (Radix.rebase 256 32 (bytes.map UInt8.toNat)).map symbol := by
  rw [encodeChars, (Packing.settled_bytes bytes).finish, Radix.rebase,
    Radix.leadingZeros_map_toNat, List.map_append, List.map_replicate]
  rfl

theorem packDigits_eq {digits : List Nat} (h : ∀ d ∈ digits, d < 32) :
    packDigits digits = (Radix.rebase 32 256 digits).map UInt8.ofNat := by
  rw [packDigits, (Packing.settled_digits h).finish, Radix.rebase, List.map_append,
    List.map_replicate]
  rfl

/-! ## Texts -/

theorem decodeChars_eq (text : List Char) :
    decodeChars text =
      match offending? text with
      | some c => .error (.invalidCharacter c)
      | none => .ok ((Radix.rebase 32 256 (text.filterMap digit?)).map UInt8.ofNat) := by
  have hnone : (fun c => (digit? c).isNone) = fun c => decide (¬ Accepted c) := by
    funext c
    rw [← Option.not_isSome, isSome_digit?, decide_not]
  rw [decodeChars, requireAscii, digitValues, offending?, hnone]
  cases text.find? fun c => !isAscii c with
  | some c => rfl
  | none =>
    cases text.reverse.find? fun c => decide (¬ Accepted c) with
    | some c => rfl
    | none => exact congrArg Except.ok (packDigits_eq filterMap_digit?_lt)

theorem offending?_eq_none_iff {text : List Char} :
    offending? text = none ↔ ∀ c ∈ text, Accepted c := by
  simp only [offending?, Option.or_eq_none_iff, List.find?_eq_none, List.mem_reverse,
    Bool.not_eq_true', Bool.not_eq_false, decide_eq_true_iff, not_not]
  exact ⟨And.right, fun h => ⟨fun c hc => isAscii_of_accepted (h c hc), h⟩⟩

/-- A text of ASCII is refused for the character behind which all others are accepted. -/
theorem offending?_append {front back : List Char} {c : Char}
    (hascii : ∀ d ∈ front ++ c :: back, isAscii d) (hback : ∀ d ∈ back, Accepted d)
    (hc : ¬ Accepted c) : offending? (front ++ c :: back) = some c := by
  have hfirst : (front ++ c :: back).find? (fun d => !isAscii d) = none := by
    rw [List.find?_eq_none]
    intro d hd
    simp [hascii d hd]
  have hafter : back.reverse.find? (fun d => decide (¬ Accepted d)) = none := by
    rw [List.find?_eq_none]
    intro d hd
    simp [hback d (List.mem_reverse.mp hd)]
  rw [offending?, hfirst, Option.none_or, List.reverse_append, List.reverse_cons, List.append_assoc,
    List.find?_append, hafter, Option.none_or, List.singleton_append]
  exact List.find?_cons_of_pos (by simp [hc])

private theorem decodeChars_spelled {spell : Nat → Char} (h : ∀ d < 32, digit? (spell d) = some d)
    (bytes : Bytes) :
    decodeChars ((Radix.rebase 256 32 (bytes.map UInt8.toNat)).map spell) = .ok bytes := by
  have hoffending :
      offending? ((Radix.rebase 256 32 (bytes.map UInt8.toNat)).map spell) = none := by
    rw [offending?_eq_none_iff]
    intro c hc
    obtain ⟨d, hd, rfl⟩ := List.mem_map.mp hc
    exact accepted_of_digit? (h d (Radix.rebase_lt (by decide) d hd))
  rw [decodeChars_eq, hoffending]
  exact congrArg Except.ok (Radix.bytes_of_symbols (by decide) h bytes)

theorem decodeChars_encodeChars (bytes : Bytes) : decodeChars (encodeChars bytes) = .ok bytes := by
  rw [encodeChars_eq]
  exact decodeChars_spelled (fun d => digit?_symbol) bytes

theorem decodeChars_toLower_encodeChars (bytes : Bytes) :
    decodeChars ((encodeChars bytes).map Char.toLower) = .ok bytes := by
  rw [encodeChars_eq, List.map_map]
  exact decodeChars_spelled (fun d => digit?_toLower_symbol) bytes

theorem encodeChars_of_decodeChars {text : List Char} {bytes : Bytes}
    (h : decodeChars text = .ok bytes) : encodeChars bytes = text.map canonical := by
  rw [decodeChars_eq] at h
  cases hoffending : offending? text with
  | some c =>
    rw [hoffending] at h
    cases h
  | none =>
    rw [hoffending] at h
    obtain rfl := Except.ok.inj h
    have hsymbols : ∀ c ∈ text, (digit? c).isSome := by
      intro c hc
      rw [isSome_digit?, decide_eq_true_iff]
      exact offending?_eq_none_iff.mp hoffending c hc
    rw [encodeChars_eq]
    exact Radix.symbols_of_bytes (by decide) (fun c d => digit?_eq_some_iff.mp) hsymbols

theorem decodeChars_eq_ok_iff {text : List Char} {bytes : Bytes} :
    decodeChars text = .ok bytes ↔
      (∀ c ∈ text, Accepted c) ∧ text.map canonical = encodeChars bytes := by
  constructor
  · intro h
    refine ⟨?_, (encodeChars_of_decodeChars h).symm⟩
    rw [decodeChars_eq] at h
    rw [← offending?_eq_none_iff]
    cases hoffending : offending? text with
    | some c =>
      rw [hoffending] at h
      cases h
    | none => rfl
  · rintro ⟨haccepted, htext⟩
    have hread := decodeChars_eq text
    rw [offending?_eq_none_iff.mpr haccepted] at hread
    rw [hread]
    have hencode := encodeChars_of_decodeChars hread
    have hback := decodeChars_encodeChars bytes
    rw [← htext, ← hencode, decodeChars_encodeChars] at hback
    exact hback

theorem decode_eq_error_iff {text : String} {e : Error} :
    decode text = .error e ↔ ∃ c, offending? text.toList = some c ∧ e = .invalidCharacter c := by
  rw [decode, decodeChars_eq]
  cases offending? text.toList <;> simp [eq_comm]

theorem encode_eq_normalize_iff {text : String} {bytes : Bytes} :
    encode bytes = normalize text ↔ text.toList.map canonical = encodeChars bytes := by
  rw [encode, normalize, ← String.toList_inj, String.toList_ofList, String.toList_map, eq_comm]

theorem decode_eq_ok_iff {text : String} {bytes : Bytes} :
    decode text = .ok bytes ↔ (∀ c ∈ text.toList, Accepted c) ∧ encode bytes = normalize text := by
  rw [decode, decodeChars_eq_ok_iff, encode_eq_normalize_iff]

/-- Decoding undoes encoding, in capitals and in small letters. It takes exactly the texts whose
characters all stand for digits, encoding then gives the normal form of the text, and texts with one
normal form are the same bytes. -/
theorem decode_upToSpelling :
    (∀ bytes : Bytes, decode (encode bytes) = .ok bytes ∧
        decode (encode bytes).toLower = .ok bytes) ∧
      (∀ text : String, (∃ bytes, decode text = .ok bytes) ↔ ∀ c ∈ text.toList, Accepted c) ∧
      (∀ (text : String) (bytes : Bytes),
        decode text = .ok bytes → encode bytes = normalize text) ∧
      (∀ (text other : String) (bytes otherBytes : Bytes),
        decode text = .ok bytes → decode other = .ok otherBytes →
          (bytes = otherBytes ↔ normalize text = normalize other)) ∧
      ∀ (text : String) (e : Error), decode text = .error e ↔
        ∃ c, offending? text.toList = some c ∧ e = .invalidCharacter c := by
  refine ⟨?_, ?_, ?_, ?_, ?_⟩
  · intro bytes
    constructor
    · rw [decode, encode, String.toList_ofList, decodeChars_encodeChars]
    · have hlower : (encode bytes).toLower = (encode bytes).map Char.toLower := rfl
      rw [decode, hlower, encode, String.toList_map, String.toList_ofList,
        decodeChars_toLower_encodeChars]
  · intro text
    rw [← offending?_eq_none_iff, decode, decodeChars_eq]
    cases offending? text.toList <;> simp
  · intro text bytes h
    exact (decode_eq_ok_iff.mp h).2
  · intro text other bytes otherBytes h h'
    obtain ⟨haccepted, hencode⟩ := decode_eq_ok_iff.mp h
    constructor
    · rintro rfl
      rw [← hencode, (decode_eq_ok_iff.mp h').2]
    · intro hnormal
      rw [hnormal] at hencode
      have hsame := decode_eq_ok_iff.mpr ⟨(decode_eq_ok_iff.mp h').1, hencode⟩
      rw [h'] at hsame
      exact (Except.ok.inj hsame).symm
  · intro text e
    exact decode_eq_error_iff

end ClarityWire.C32
