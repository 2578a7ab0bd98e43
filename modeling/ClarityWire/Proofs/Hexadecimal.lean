import ClarityWire.Hex

/-!
# Hexadecimal digits

Two digits tell a byte, so the digits of a byte string tell the string.
-/

namespace ClarityWire.Hex

private theorem digit_injective : ∀ m < 16, ∀ n < 16, digit m = digit n → m = n := by decide

private theorem isAlphanum_digit : ∀ n < 16, (digit n).isAlphanum = true := by decide

theorem digit?_digit : ∀ n < 16, digit? (UInt8.ofNat (digit n).toNat) = some n := by decide

theorem digitPair_injective {a b : UInt8} (h : digitPair a = digitPair b) : a = b := by
  have ha := a.toNat_lt
  have hb := b.toNat_lt
  obtain ⟨hhigh, hlow⟩ := List.cons.inj h
  have hquotient := digit_injective (a.toNat / 16) (by omega) (b.toNat / 16) (by omega) hhigh
  have hremainder := digit_injective (a.toNat % 16) (by omega) (b.toNat % 16) (by omega)
    (List.cons.inj hlow).1
  apply UInt8.toNat_inj.mp
  omega

theorem digits_injective {a b : Bytes} (h : digits a = digits b) : a = b := by
  induction a generalizing b with
  | nil =>
    cases b with
    | nil => rfl
    | cons byte rest => cases h
  | cons byte rest ih =>
    cases b with
    | nil => cases h
    | cons other others =>
      rw [digits, digits, List.flatMap_cons, List.flatMap_cons] at h
      obtain ⟨hpair, hrest⟩ := List.append_inj h rfl
      rw [digitPair_injective hpair, ih hrest]

theorem encode_injective {a b : Bytes} (h : encode a = encode b) : a = b :=
  digits_injective (String.ofList_injective h)

theorem isAlphanum_of_mem_digits {bytes : Bytes} {c : Char} (h : c ∈ digits bytes) :
    c.isAlphanum = true := by
  obtain ⟨byte, -, hc⟩ := List.mem_flatMap.mp h
  have hbyte := byte.toNat_lt
  simp only [digitPair, List.mem_cons, List.not_mem_nil, or_false] at hc
  rcases hc with rfl | rfl
  · exact isAlphanum_digit _ (by omega)
  · exact isAlphanum_digit _ (by omega)

/-! ## Cut short -/

theorem length_digits (bytes : Bytes) : (digits bytes).length = 2 * bytes.length := by
  induction bytes with
  | nil => rfl
  | cons byte rest ih =>
    rw [digits, List.flatMap_cons, List.length_append, ← digits, ih, List.length_cons]
    change 2 + 2 * rest.length = 2 * (rest.length + 1)
    omega

/-- Digits from the front are those of whole bytes, and then those of the bytes behind. -/
theorem take_digits (bytes : Bytes) (whole extra : Nat) :
    (digits bytes).take (2 * whole + extra) =
      digits (bytes.take whole) ++ (digits (bytes.drop whole)).take extra := by
  induction whole generalizing bytes with
  | zero => rw [Nat.mul_zero, Nat.zero_add]; rfl
  | succ whole ih =>
    cases bytes with
    | nil => simp [digits]
    | cons byte rest =>
      have hcount : 2 * (whole + 1) + extra = 2 * whole + extra + 1 + 1 := by omega
      have hrest := ih rest
      rw [hcount, List.take_succ_cons, List.drop_succ_cons]
      simp only [digits, List.flatMap_cons, digitPair, List.cons_append, List.nil_append,
        List.take_succ_cons] at hrest ⊢
      rw [hrest]

/-- Cutting short is taking digits from the front. -/
theorem truncatedDigits_eq (bytes : Bytes) (limit : Nat) :
    truncatedDigits bytes limit = (digits bytes).take limit := by
  have htake := take_digits bytes (limit / 2) (limit % 2)
  rw [Nat.div_add_mod] at htake
  rw [htake, truncatedDigits]
  congr 1
  split
  · next h =>
    have hinside : limit / 2 < bytes.length := by omega
    rw [h.2, List.drop_eq_getElem_cons hinside]
    rfl
  · next h =>
    -- the limit falls between two bytes or behind the last one
    by_cases hodd : limit % 2 = 1
    · have hbehind : bytes.length ≤ limit / 2 := by omega
      rw [List.drop_eq_nil_of_le hbehind]
      exact List.take_nil.symm
    · have heven : limit % 2 = 0 := by omega
      rw [heven, List.take_zero]

/-- A limit of two digits for each byte cuts nothing off. -/
theorem truncatedDigits_full (bytes : Bytes) :
    truncatedDigits bytes (2 * bytes.length) = digits bytes := by
  rw [truncatedDigits_eq, ← length_digits, List.take_length]

end ClarityWire.Hex
