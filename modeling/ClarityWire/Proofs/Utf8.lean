import ClarityWire.Text.Utf8
import Mathlib.Data.Set.List

/-!
# Well-formed UTF-8

Reading accepts exactly the byte strings that encode some text, and gives that text back. The
first byte of a sequence fixes how many more are owed, so the scalars of a well-formed byte string
are determined by its bytes.
-/

namespace ClarityWire.Utf8

/-- Whether a byte string is the encoding of some text. -/
def WellFormed (bytes : Bytes) : Prop :=
  ∃ text, encode text = bytes

@[simp] theorem encode_nil : encode [] = [] := rfl

@[simp] theorem encode_cons (c : Char) (text : List Char) :
    encode (c :: text) = String.utf8EncodeChar c ++ encode text := rfl

/-! ## The four lengths of a sequence -/

private theorem toNat_ofNat_byte {n : Nat} (h : n < 256) : (UInt8.ofNat n).toNat = n := by
  rw [UInt8.toNat_ofNat', Nat.mod_eq_of_lt h]

theorem val_ofNat {n : Nat} (h : n.isValidChar) : (Char.ofNat n).val.toNat = n := by
  rw [Char.ofNat, dif_pos h]
  rfl

theorem encode_one {n : Nat} (hn : n < 0x80) :
    String.utf8EncodeChar (Char.ofNat n) = [UInt8.ofNat n] := by
  have hvalid : n.isValidChar := .inl (by omega)
  rw [String.utf8EncodeChar, val_ofNat hvalid]
  simp only [show n ≤ 0x7f by omega, if_true]

theorem encode_two {a b n : Nat} (ha : a < 32) (hb : b < 64) (hn : n = a * 64 + b)
    (hlow : 0x80 ≤ n) :
    String.utf8EncodeChar (Char.ofNat n) = [UInt8.ofNat (0xC0 + a), UInt8.ofNat (0x80 + b)] := by
  have hvalid : n.isValidChar := .inl (by omega)
  rw [String.utf8EncodeChar, val_ofNat hvalid]
  simp only [show ¬ n ≤ 0x7f by omega, show n ≤ 0x7ff by omega, if_true, if_false]
  have h0 : n / 64 % 0x20 + 0xc0 = 0xC0 + a := by omega
  have h1 : n % 0x40 + 0x80 = 0x80 + b := by omega
  rw [h0, h1]

theorem encode_three {a b c n : Nat} (ha : a < 16) (hb : b < 64) (hc : c < 64)
    (hn : n = (a * 64 + b) * 64 + c) (hlow : 0x800 ≤ n) (hvalid : n.isValidChar) :
    String.utf8EncodeChar (Char.ofNat n) =
      [UInt8.ofNat (0xE0 + a), UInt8.ofNat (0x80 + b), UInt8.ofNat (0x80 + c)] := by
  rw [String.utf8EncodeChar, val_ofNat hvalid]
  simp only [show ¬ n ≤ 0x7f by omega, show ¬ n ≤ 0x7ff by omega, show n ≤ 0xffff by omega,
    if_true, if_false]
  have h0 : n / 4096 % 0x10 + 0xe0 = 0xE0 + a := by omega
  have h1 : n / 64 % 0x40 + 0x80 = 0x80 + b := by omega
  have h2 : n % 0x40 + 0x80 = 0x80 + c := by omega
  rw [h0, h1, h2]

theorem encode_four {a b c d n : Nat} (hb : b < 64) (hc : c < 64)
    (hd : d < 64) (hn : n = ((a * 64 + b) * 64 + c) * 64 + d) (hlow : 0x10000 ≤ n)
    (hhigh : n < 0x110000) :
    String.utf8EncodeChar (Char.ofNat n) =
      [UInt8.ofNat (0xF0 + a), UInt8.ofNat (0x80 + b), UInt8.ofNat (0x80 + c),
        UInt8.ofNat (0x80 + d)] := by
  have hvalid : n.isValidChar := .inr ⟨by omega, hhigh⟩
  rw [String.utf8EncodeChar, val_ofNat hvalid]
  simp only [show ¬ n ≤ 0x7f by omega, show ¬ n ≤ 0x7ff by omega, show ¬ n ≤ 0xffff by omega,
    if_false]
  have h0 : n / 262144 % 0x08 + 0xf0 = 0xF0 + a := by omega
  have h1 : n / 4096 % 0x40 + 0x80 = 0x80 + b := by omega
  have h2 : n / 64 % 0x40 + 0x80 = 0x80 + c := by omega
  have h3 : n % 0x40 + 0x80 = 0x80 + d := by omega
  rw [h0, h1, h2, h3]

/-! ## The first byte and the bytes after it -/

private theorem first_two {a : Nat} (hlow : 2 ≤ a) (ha : a < 32) :
    first (UInt8.ofNat (0xC0 + a)) = .pending ⟨a, 0x80, 0xBF, 0⟩ := by
  have hbits : (0xC0 + a) % 32 = a := by omega
  simp only [first, toNat_ofNat_byte (show 0xC0 + a < 256 by omega), hbits,
    show ¬ 0xC0 + a < 0x80 by omega, show ¬ 0xC0 + a < 0xC2 by omega,
    show 0xC0 + a < 0xE0 by omega, if_true, if_false]

/-- The least second byte after a first byte of three or four. -/
private def leastSecond (special a : Nat) : Nat :=
  if a = 0 then special else 0x80

private theorem first_three {a : Nat} (ha : a < 16) :
    first (UInt8.ofNat (0xE0 + a)) =
      .pending ⟨a, leastSecond 0xA0 a, if a = 13 then 0x9F else 0xBF, 1⟩ := by
  have hbits : (0xE0 + a) % 16 = a := by omega
  simp only [first, toNat_ofNat_byte (show 0xE0 + a < 256 by omega), hbits,
    show ¬ 0xE0 + a < 0x80 by omega, show ¬ 0xE0 + a < 0xC2 by omega,
    show ¬ 0xE0 + a < 0xE0 by omega, show 0xE0 + a < 0xF0 by omega, if_true, if_false, leastSecond]
  by_cases h0 : a = 0
  · simp [h0]
  · by_cases h13 : a = 13
    · simp [h13]
    · simp [h0, h13, show ¬ 0xE0 + a = 0xED by omega]

private theorem first_four {a : Nat} (ha : a ≤ 4) :
    first (UInt8.ofNat (0xF0 + a)) =
      .pending ⟨a, leastSecond 0x90 a, if a = 4 then 0x8F else 0xBF, 2⟩ := by
  have hcases : a = 0 ∨ a = 1 ∨ a = 2 ∨ a = 3 ∨ a = 4 := by omega
  rcases hcases with rfl | rfl | rfl | rfl | rfl <;> decide

private theorem decodeFrom_last {text : List Char} {bits low high b : Nat} {rest : Bytes}
    (hb : b < 64) (hlow : low ≤ 0x80 + b) (hhigh : 0x80 + b ≤ high) :
    decodeFrom text (some ⟨bits, low, high, 0⟩) (UInt8.ofNat (0x80 + b) :: rest) =
      decodeFrom (Char.ofNat (bits * 64 + b) :: text) none rest := by
  have hbits : (0x80 + b) % 64 = b := by omega
  rw [decodeFrom, Pending.next]
  simp only [toNat_ofNat_byte (show 0x80 + b < 256 by omega), hlow, hhigh, and_self, if_true, hbits]

private theorem decodeFrom_more {text : List Char} {bits low high more b : Nat} {rest : Bytes}
    (hb : b < 64) (hlow : low ≤ 0x80 + b) (hhigh : 0x80 + b ≤ high) :
    decodeFrom text (some ⟨bits, low, high, more + 1⟩) (UInt8.ofNat (0x80 + b) :: rest) =
      decodeFrom text (some ⟨bits * 64 + b, 0x80, 0xBF, more⟩) rest := by
  have hbits : (0x80 + b) % 64 = b := by omega
  rw [decodeFrom, Pending.next]
  simp only [toNat_ofNat_byte (show 0x80 + b < 256 by omega), hlow, hhigh, and_self, if_true, hbits]

private theorem decodeFrom_none_cons {text : List Char} {byte : UInt8} {rest : Bytes}
    {state : Pending} (h : first byte = .pending state) :
    decodeFrom text none (byte :: rest) = decodeFrom text (some state) rest := by
  rw [decodeFrom, h]

private theorem cons_of_decodeFrom_some {text out : List Char} {bits low high more : Nat}
    {bytes : Bytes} (hlow : 0x80 ≤ low) (hhigh : high ≤ 0xBF)
    (h : decodeFrom text (some ⟨bits, low, high, more⟩) bytes = some out) :
    ∃ b rest, bytes = UInt8.ofNat (0x80 + b) :: rest ∧ b < 64 ∧ low ≤ 0x80 + b ∧
      0x80 + b ≤ high := by
  cases bytes with
  | nil => simp [decodeFrom] at h
  | cons byte rest =>
    by_cases hrange : low ≤ byte.toNat ∧ byte.toNat ≤ high
    · refine ⟨byte.toNat - 0x80, rest, ?_, by omega, by omega, by omega⟩
      rw [show 0x80 + (byte.toNat - 0x80) = byte.toNat by omega, UInt8.ofNat_toNat]
    · simp only [decodeFrom, Pending.next, hrange, if_false] at h
      cases h

/-! ## Both directions -/

/-- The encoding of a scalar is read as that scalar, whatever stands behind it. -/
theorem decodeFrom_utf8EncodeChar (text : List Char) (c : Char) (rest : Bytes) :
    decodeFrom text none (String.utf8EncodeChar c ++ rest) = decodeFrom (c :: text) none rest := by
  obtain ⟨n, hc, hvalid⟩ : ∃ n, Char.ofNat n = c ∧ n.isValidChar :=
    ⟨c.toNat, Char.ofNat_toNat c, c.valid⟩
  subst hc
  by_cases h1 : n < 0x80
  · have hn : (UInt8.ofNat n).toNat = n := toNat_ofNat_byte (by omega)
    rw [encode_one h1]
    simp only [List.cons_append, List.nil_append, decodeFrom, first, hn, h1, if_true]
  by_cases h2 : n < 0x800
  · have hlead := first_two (a := n / 64) (by omega) (by omega)
    rw [encode_two (a := n / 64) (b := n % 64) (by omega) (by omega) (by omega) (by omega)]
    simp only [List.cons_append, List.nil_append]
    rw [decodeFrom_none_cons hlead, decodeFrom_last (by omega) (by omega) (by omega),
      show n / 64 * 64 + n % 64 = n by omega]
  by_cases h3 : n < 0x10000
  · have hlead := first_three (a := n / 4096) (by omega)
    have hlow : leastSecond 0xA0 (n / 4096) ≤ 0x80 + n / 64 % 64 := by
      unfold leastSecond
      split <;> omega
    have hhigh : 0x80 + n / 64 % 64 ≤ if n / 4096 = 13 then 0x9F else 0xBF := by
      rcases hvalid with hv | hv <;> split <;> omega
    rw [encode_three (a := n / 4096) (b := n / 64 % 64) (c := n % 64) (by omega) (by omega)
      (by omega) (by omega) (by omega) hvalid]
    simp only [List.cons_append, List.nil_append]
    rw [decodeFrom_none_cons hlead, decodeFrom_more (by omega) hlow hhigh,
      decodeFrom_last (by omega) (by omega) (by omega),
      show (n / 4096 * 64 + n / 64 % 64) * 64 + n % 64 = n by omega]
  · have hsmall : n < 0x110000 := by rcases hvalid with hv | hv <;> omega
    have hlead := first_four (a := n / 262144) (by omega)
    have hlow : leastSecond 0x90 (n / 262144) ≤ 0x80 + n / 4096 % 64 := by
      unfold leastSecond
      split <;> omega
    have hhigh : 0x80 + n / 4096 % 64 ≤ if n / 262144 = 4 then 0x8F else 0xBF := by
      split <;> omega
    rw [encode_four (a := n / 262144) (b := n / 4096 % 64) (c := n / 64 % 64) (d := n % 64)
      (by omega) (by omega) (by omega) (by omega) (by omega) hsmall]
    simp only [List.cons_append, List.nil_append]
    rw [decodeFrom_none_cons hlead, decodeFrom_more (by omega) hlow hhigh,
      decodeFrom_more (by omega) (by omega) (by omega),
      decodeFrom_last (by omega) (by omega) (by omega),
      show ((n / 262144 * 64 + n / 4096 % 64) * 64 + n / 64 % 64) * 64 + n % 64 = n by omega]

theorem decode?_encode (text : List Char) : decode? (encode text) = some text := by
  have hrun : ∀ done, decodeFrom done none (encode text) = some (done.reverse ++ text) := by
    induction text with
    | nil => intro done; simp
    | cons c text ih =>
      intro done
      rw [encode_cons, decodeFrom_utf8EncodeChar, ih]
      simp
  exact hrun []

private theorem first_cases (byte : UInt8) :
    first byte = .illFormed ∨
      (byte.toNat < 0x80 ∧ first byte = .scalar (Char.ofNat byte.toNat)) ∨
      (∃ a, 2 ≤ a ∧ a < 32 ∧ byte = UInt8.ofNat (0xC0 + a)) ∨
      (∃ a, a < 16 ∧ byte = UInt8.ofNat (0xE0 + a)) ∨
      (∃ a, a ≤ 4 ∧ byte = UInt8.ofNat (0xF0 + a)) := by
  have hbyte (k : Nat) (h : k ≤ byte.toNat) : byte = UInt8.ofNat (k + (byte.toNat - k)) := by
    rw [show k + (byte.toNat - k) = byte.toNat by omega, UInt8.ofNat_toNat]
  have hlt := byte.toNat_lt
  by_cases h1 : byte.toNat < 0x80
  · exact .inr (.inl ⟨h1, by simp only [first, h1, if_true]⟩)
  by_cases h2 : byte.toNat < 0xC2
  · exact .inl (by simp only [first, h1, h2, if_true, if_false])
  by_cases h3 : byte.toNat < 0xE0
  · exact .inr (.inr (.inl ⟨byte.toNat - 0xC0, by omega, by omega, hbyte 0xC0 (by omega)⟩))
  by_cases h4 : byte.toNat < 0xF0
  · exact .inr (.inr (.inr (.inl ⟨byte.toNat - 0xE0, by omega, hbyte 0xE0 (by omega)⟩)))
  by_cases h5 : byte.toNat ≤ 0xF4
  · exact .inr (.inr (.inr (.inr ⟨byte.toNat - 0xF0, by omega, hbyte 0xF0 (by omega)⟩)))
  · refine .inl ?_
    simp only [first, h1, h2, h3, h4, show ¬ byte.toNat = 0xE0 by omega,
      show ¬ byte.toNat = 0xED by omega, show ¬ byte.toNat = 0xF0 by omega,
      show ¬ byte.toNat < 0xF4 by omega, show ¬ byte.toNat = 0xF4 by omega, if_false]

private theorem cons_of_decodeFrom_none {text out : List Char} {byte : UInt8} {tail : Bytes}
    (h : decodeFrom text none (byte :: tail) = some out) :
    ∃ c rest, byte :: tail = String.utf8EncodeChar c ++ rest := by
  rcases first_cases byte with hbad | ⟨hsmall, -⟩ | ⟨a, ha, ha', rfl⟩ | ⟨a, ha, rfl⟩ | ⟨a, ha, rfl⟩
  · simp [decodeFrom, hbad] at h
  · refine ⟨Char.ofNat byte.toNat, tail, ?_⟩
    rw [encode_one hsmall, UInt8.ofNat_toNat, List.cons_append, List.nil_append]
  · rw [decodeFrom_none_cons (first_two ha ha')] at h
    obtain ⟨b, rest, rfl, hb, -, -⟩ := cons_of_decodeFrom_some (by decide) (by decide) h
    refine ⟨Char.ofNat (a * 64 + b), rest, ?_⟩
    rw [encode_two ha' hb rfl (by omega)]
    rfl
  · have hlow : 0x80 ≤ leastSecond 0xA0 a := by unfold leastSecond; split <;> omega
    have hhigh : (if a = 13 then 0x9F else 0xBF) ≤ 0xBF := by split <;> omega
    rw [decodeFrom_none_cons (first_three ha)] at h
    obtain ⟨b, rest, rfl, hb, hbl, hbh⟩ := cons_of_decodeFrom_some hlow hhigh h
    rw [decodeFrom_more hb hbl hbh] at h
    obtain ⟨c, rest, rfl, hc, -, -⟩ := cons_of_decodeFrom_some (by decide) (by decide) h
    have hleast : 0x800 ≤ (a * 64 + b) * 64 + c := by
      unfold leastSecond at hbl
      split at hbl <;> omega
    have hvalid : ((a * 64 + b) * 64 + c).isValidChar := by
      by_cases hlt : a < 13
      · exact .inl (by omega)
      by_cases h13 : a = 13
      · rw [if_pos h13] at hbh
        exact .inl (by omega)
      · exact .inr (by omega)
    refine ⟨Char.ofNat ((a * 64 + b) * 64 + c), rest, ?_⟩
    rw [encode_three ha hb hc rfl hleast hvalid]
    rfl
  · have hlow : 0x80 ≤ leastSecond 0x90 a := by unfold leastSecond; split <;> omega
    have hhigh : (if a = 4 then 0x8F else 0xBF) ≤ 0xBF := by split <;> omega
    rw [decodeFrom_none_cons (first_four ha)] at h
    obtain ⟨b, rest, rfl, hb, hbl, hbh⟩ := cons_of_decodeFrom_some hlow hhigh h
    rw [decodeFrom_more hb hbl hbh] at h
    obtain ⟨c, rest, rfl, hc, hcl, hch⟩ := cons_of_decodeFrom_some (by decide) (by decide) h
    rw [decodeFrom_more hc hcl hch] at h
    obtain ⟨d, rest, rfl, hd, -, -⟩ := cons_of_decodeFrom_some (by decide) (by decide) h
    have hleast : 0x10000 ≤ ((a * 64 + b) * 64 + c) * 64 + d := by
      unfold leastSecond at hbl
      split at hbl <;> omega
    have hmost : ((a * 64 + b) * 64 + c) * 64 + d < 0x110000 := by
      split at hbh <;> omega
    refine ⟨Char.ofNat (((a * 64 + b) * 64 + c) * 64 + d), rest, ?_⟩
    rw [encode_four hb hc hd rfl hleast hmost]
    rfl

theorem encode_of_decodeFrom (bytes : Bytes) (text out : List Char)
    (h : decodeFrom text none bytes = some out) : ∃ more, out = text.reverse ++ more ∧
      encode more = bytes := by
  -- on the length, since one scalar takes up one to four bytes
  induction hn : bytes.length using Nat.strongRecOn generalizing bytes text with
  | _ n ih =>
    cases bytes with
    | nil =>
      refine ⟨[], ?_, rfl⟩
      rw [decodeFrom_nil] at h
      simpa using (Option.some.inj h).symm
    | cons byte tail =>
      obtain ⟨c, rest, hsplit⟩ := cons_of_decodeFrom_none h
      rw [hsplit, decodeFrom_utf8EncodeChar] at h
      have hshort : rest.length < n := by
        have hlen := congrArg List.length hsplit
        have hpos : 0 < (String.utf8EncodeChar c).length :=
          List.length_pos_iff.mpr String.utf8EncodeChar_ne_nil
        rw [List.length_append] at hlen
        omega
      obtain ⟨more, rfl, hmore⟩ := ih rest.length hshort rest (c :: text) h rfl
      exact ⟨c :: more, by simp, by rw [encode_cons, hmore, hsplit]⟩

/-- Reading accepts exactly the encodings of texts. -/
theorem decode?_eq_some_iff {bytes : Bytes} {text : List Char} :
    decode? bytes = some text ↔ encode text = bytes := by
  constructor
  · intro h
    obtain ⟨more, hout, hmore⟩ := encode_of_decodeFrom bytes [] text h
    simp only [List.reverse_nil, List.nil_append] at hout
    rw [hout, hmore]
  · rintro rfl
    exact decode?_encode text

theorem decode?_eq_none_iff {bytes : Bytes} : decode? bytes = none ↔ ¬ WellFormed bytes := by
  rw [Option.eq_none_iff_forall_ne_some]
  simp only [WellFormed, ne_eq, decode?_eq_some_iff, not_exists]

private theorem repairFrom_of_decodeFrom {text out : List Char} {state? : Option Pending}
    {bytes : Bytes} (h : decodeFrom text state? bytes = some out) :
    repairFrom text state? bytes = out := by
  induction bytes generalizing text state? with
  | nil =>
    cases state? with
    | none => exact Option.some.inj h
    | some state => cases h
  | cons byte rest ih =>
    cases state? with
    | none =>
      rw [decodeFrom] at h
      rw [repairFrom]
      split at h
      · exact ih h
      · exact ih h
      · cases h
    | some state =>
      rw [decodeFrom] at h
      rw [repairFrom]
      split at h
      · exact ih h
      · exact ih h
      · cases h

theorem decodeLossy_encode (text : List Char) : decodeLossy (encode text) = String.ofList text := by
  rw [decodeLossy, repairFrom_of_decodeFrom (decode?_encode text)]

theorem encode_injective {s t : List Char} (h : encode s = encode t) : s = t := by
  have hs := decode?_encode s
  rw [h, decode?_encode t] at hs
  exact (Option.some.inj hs).symm

instance (bytes : Bytes) : Decidable (WellFormed bytes) :=
  match h : decode? bytes with
  | some text => .isTrue ⟨text, decode?_eq_some_iff.mp h⟩
  | none => .isFalse (decode?_eq_none_iff.mp h)

/-! ## One scalar at a time -/

/-- The encodings of the scalars of a well-formed byte string, one by one. -/
def scalars (bytes : Bytes) : List Bytes :=
  ((decode? bytes).getD []).map String.utf8EncodeChar

theorem scalars_encode (text : List Char) :
    scalars (encode text) = text.map String.utf8EncodeChar := by
  rw [scalars, decode?_encode, Option.getD_some]

theorem flatten_scalars {bytes : Bytes} (h : WellFormed bytes) :
    (scalars bytes).flatten = bytes := by
  obtain ⟨text, rfl⟩ := h
  rw [scalars_encode, encode, List.flatMap_def]

/-- Groups of one scalar each are the encodings of the scalars of a text. -/
theorem exists_text_of_groups {groups : List Bytes}
    (h : ∀ group ∈ groups, ∃ c, String.utf8EncodeChar c = group) :
    ∃ text : List Char, text.map String.utf8EncodeChar = groups := by
  have htext : groups ∈ Set.range (List.map String.utf8EncodeChar) := by
    rw [Set.range_list_map]
    exact h
  exact htext

/-- Splitting what groups spell changes nothing exactly if each of them is one scalar. -/
theorem scalars_flatten_eq_iff {groups : List Bytes} :
    scalars groups.flatten = groups ↔ ∀ group ∈ groups, ∃ c, String.utf8EncodeChar c = group := by
  constructor
  · intro h group hgroup
    rw [← h] at hgroup
    obtain ⟨c, -, hc⟩ := List.mem_map.mp hgroup
    exact ⟨c, hc⟩
  · intro h
    obtain ⟨text, rfl⟩ := exists_text_of_groups h
    rw [← List.flatMap_def]
    exact scalars_encode text

end ClarityWire.Utf8
