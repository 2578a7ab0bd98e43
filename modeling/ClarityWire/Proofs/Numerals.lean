import Mathlib.Data.List.GetD
import Mathlib.Data.List.TakeWhile
import Mathlib.Data.Nat.Digits.Lemmas
import ClarityWire.Bytes
import ClarityWire.Radix

/-!
# Numerals in ordinary order

In a text or a byte string the most significant digit comes first. Such a list of digits is the
shortest numeral of a number behind some zeros. The number can be written in another base and the
zeros be kept, and nothing is lost: writing it in the first base again gives the same list.
-/

namespace ClarityWire.Radix

variable {base newBase : Nat}

/-- The number that digits denote, most significant digit first. -/
def number (base : Nat) (ds : List Nat) : Nat :=
  value base ds.reverse

/-- The shortest numeral of a number, most significant digit first. Zero has no digits. -/
def numeral (base n : Nat) : List Nat :=
  (digits base n).reverse

def leadingZeros (ds : List Nat) : Nat :=
  (ds.takeWhile (· == 0)).length

/-- The same number in another base, behind as many zeros. -/
def rebase (base newBase : Nat) (ds : List Nat) : List Nat :=
  List.replicate (leadingZeros ds) 0 ++ numeral newBase (number base ds)

theorem value_eq_ofDigits (base : Nat) (ds : List Nat) : value base ds = Nat.ofDigits base ds := by
  induction ds with
  | nil => rfl
  | cons d ds ih => rw [value, ih, Nat.ofDigits_cons]

theorem digits_of_pos (h : 1 < base) {n : Nat} (hn : 0 < n) :
    digits base n = n % base :: digits base (n / base) := by
  rw [digits, if_pos ⟨h, hn⟩]

@[simp] theorem digits_zero (base : Nat) : digits base 0 = [] := by
  rw [digits]
  simp

theorem digits_eq_digits (h : 1 < base) (n : Nat) : digits base n = Nat.digits base n := by
  induction n using Nat.strongRecOn with
  | ind n ih =>
    by_cases hn : 0 < n
    · rw [digits_of_pos h hn, ih _ (Nat.div_lt_self hn h), Nat.digits_def' h hn]
    · simp [Nat.eq_zero_of_not_pos hn]

/-! ## Changing the base digit by digit -/

theorem mulAdd_digits {factor : Nat} (h : 1 < base) (hfactor : 0 < factor) (n carry : Nat) :
    mulAdd base factor (digits base n) carry = digits base (carry + n * factor) := by
  induction n using Nat.strongRecOn generalizing carry with
  | ind n ih =>
    by_cases hn : 0 < n
    · -- The lowest digit of `n` gives the lowest digit of the result, the rest carries on.
      let sum := carry + n % base * factor
      have hsum : carry + n * factor = sum + base * (n / base * factor) := by
        have hsplit := Nat.mod_add_div n base
        calc carry + n * factor
            = carry + (n % base + base * (n / base)) * factor := by rw [hsplit]
          _ = sum + base * (n / base * factor) := by ring
      have hpos : 0 < carry + n * factor := Nat.add_pos_right _ (Nat.mul_pos hn hfactor)
      have hbase : 0 < base := by omega
      calc mulAdd base factor (digits base n) carry
          = sum % base :: mulAdd base factor (digits base (n / base)) (sum / base) := by
            rw [digits_of_pos h hn, mulAdd]
        _ = sum % base :: digits base (sum / base + n / base * factor) := by
            rw [ih _ (Nat.div_lt_self hn h)]
        _ = digits base (carry + n * factor) := by
            rw [digits_of_pos h hpos, hsum, Nat.add_mul_mod_self_left,
              Nat.add_mul_div_left _ _ hbase]
    · simp [Nat.eq_zero_of_not_pos hn, mulAdd]

theorem number_concat (base : Nat) (ds : List Nat) (d : Nat) :
    number base (ds ++ [d]) = d + number base ds * base := by
  rw [number, List.reverse_append, List.reverse_singleton, List.singleton_append, value, number,
    Nat.mul_comm]

theorem convert_eq (hbase : 0 < base) (h : 1 < newBase) (ds : List Nat) :
    convert base newBase ds = digits newBase (number base ds) := by
  induction ds using List.reverseRecOn with
  | nil => simp [convert, number, value]
  | append_singleton ds d ih =>
    have hstep : convert base newBase (ds ++ [d]) =
        mulAdd newBase base (convert base newBase ds) d := by simp [convert]
    rw [hstep, ih, mulAdd_digits h hbase, number_concat]

/-! ## Zeros in front -/

theorem number_cons (base d : Nat) (ds : List Nat) :
    number base (d :: ds) = d * base ^ ds.length + number base ds := by
  rw [number, number, value_eq_ofDigits, value_eq_ofDigits, Nat.ofDigits_reverse_cons]
  ring

@[simp] theorem number_zeros_append (base count : Nat) (ds : List Nat) :
    number base (List.replicate count 0 ++ ds) = number base ds := by
  simp [number, value_eq_ofDigits]

theorem replicate_append_dropWhile {α : Type} [DecidableEq α] (a : α) (l : List α) :
    List.replicate (l.takeWhile (· == a)).length a ++ l.dropWhile (· == a) = l := by
  have hfront : l.takeWhile (· == a) = List.replicate (l.takeWhile (· == a)).length a := by
    rw [List.eq_replicate_iff]
    refine ⟨rfl, ?_⟩
    intro b hb
    simpa using List.mem_takeWhile_imp hb
  rw [← hfront, List.takeWhile_append_dropWhile]

theorem drop_length_takeWhile {α : Type} [DecidableEq α] (a : α) (l : List α) :
    l.drop (l.takeWhile (· == a)).length = l.dropWhile (· == a) := by
  have hdrop : (List.replicate (l.takeWhile (· == a)).length a ++ l.dropWhile (· == a)).drop
      (l.takeWhile (· == a)).length = l.dropWhile (· == a) := List.drop_left' List.length_replicate
  rwa [replicate_append_dropWhile] at hdrop

theorem zeros_append_dropWhile (ds : List Nat) :
    List.replicate (leadingZeros ds) 0 ++ ds.dropWhile (· == 0) = ds :=
  replicate_append_dropWhile 0 ds

theorem number_dropWhile (base : Nat) (ds : List Nat) :
    number base (ds.dropWhile (· == 0)) = number base ds := by
  rw [← number_zeros_append base (leadingZeros ds), zeros_append_dropWhile]

theorem number_drop_leadingZeros (base : Nat) (ds : List Nat) :
    number base (ds.drop (leadingZeros ds)) = number base ds := by
  rw [leadingZeros, drop_length_takeWhile, number_dropWhile]

theorem head?_numeral (h : 1 < base) (n : Nat) : (numeral base n).head? ≠ some 0 := by
  rw [numeral, List.head?_reverse, digits_eq_digits h]
  by_cases hn : n = 0
  · simp [hn]
  · have hne : Nat.digits base n ≠ [] := Nat.digits_ne_nil_iff_ne_zero.mpr hn
    rw [List.getLast?_eq_some_getLast hne]
    simpa using Nat.getLast_digit_ne_zero base hn

theorem leadingZeros_append {ds : List Nat} (h : ds.head? ≠ some 0) (count : Nat) :
    leadingZeros (List.replicate count 0 ++ ds) = count := by
  have hnone : ds.takeWhile (· == 0) = [] := by
    cases ds with
    | nil => rfl
    | cons d ds => simp_all
  rw [leadingZeros, List.takeWhile_append_of_pos (by simp), hnone]
  simp

/-! ## Numbers and their numerals -/

theorem number_numeral (h : 1 < base) (n : Nat) : number base (numeral base n) = n := by
  rw [number, numeral, List.reverse_reverse, value_eq_ofDigits, digits_eq_digits h,
    Nat.ofDigits_digits]

theorem numeral_lt (h : 1 < base) {n d : Nat} (hd : d ∈ numeral base n) : d < base := by
  rw [numeral, List.mem_reverse, digits_eq_digits h] at hd
  exact Nat.digits_lt_base h hd

theorem numeral_number (h : 1 < base) {ds : List Nat} (hds : ∀ d ∈ ds, d < base) :
    numeral base (number base ds) = ds.dropWhile (· == 0) := by
  have hlt : ∀ d ∈ (ds.dropWhile (· == 0)).reverse, d < base := by
    intro d hd
    exact hds d ((List.dropWhile_suffix _).mem (List.mem_reverse.mp hd))
  have hlast : ∀ hne : (ds.dropWhile (· == 0)).reverse ≠ [],
      (ds.dropWhile (· == 0)).reverse.getLast hne ≠ 0 := by
    intro hne
    rw [List.getLast_reverse]
    exact beq_eq_false_iff_ne.mp (List.head_dropWhile_not (· == 0) _)
  rw [numeral, ← number_dropWhile, digits_eq_digits h, number, value_eq_ofDigits,
    Nat.digits_ofDigits base h _ hlt hlast, List.reverse_reverse]

theorem zeros_append_numeral (h : 1 < base) {ds : List Nat} (hds : ∀ d ∈ ds, d < base) :
    List.replicate (leadingZeros ds) 0 ++ numeral base (number base ds) = ds := by
  rw [numeral_number h hds, zeros_append_dropWhile]

/-! ## Changing the base and keeping the zeros -/

theorem rebase_lt (h : 1 < newBase) {ds : List Nat} :
    ∀ d ∈ rebase base newBase ds, d < newBase := by
  intro d hd
  rcases List.mem_append.mp hd with hd | hd
  · rw [List.eq_of_mem_replicate hd]
    omega
  · exact numeral_lt h hd

/-- Changing the base and changing it back gives the digits that were there. -/
theorem rebase_rebase (h : 1 < base) (h' : 1 < newBase) {ds : List Nat}
    (hds : ∀ d ∈ ds, d < base) : rebase newBase base (rebase base newBase ds) = ds := by
  have hzeros : leadingZeros (rebase base newBase ds) = leadingZeros ds :=
    leadingZeros_append (head?_numeral h' _) _
  have hnumber : number newBase (rebase base newBase ds) = number base ds := by
    rw [rebase, number_zeros_append, number_numeral h']
  rw [rebase, hzeros, hnumber, zeros_append_numeral h hds]

theorem length_le_length_rebase (h : 1 < newBase) (hle : newBase ≤ base) {ds : List Nat}
    (hds : ∀ d ∈ ds, d < base) : ds.length ≤ (rebase base newBase ds).length := by
  have hbase : 1 < base := by omega
  have hdigits : (numeral base (number base ds)).length ≤
      (numeral newBase (number base ds)).length := by
    rw [numeral, numeral, List.length_reverse, List.length_reverse, digits_eq_digits hbase,
      digits_eq_digits h, Nat.digits_length_le_iff hbase]
    exact (Nat.lt_base_pow_length_digits h).trans_le (Nat.pow_le_pow_left hle _)
  have hlength := congrArg List.length (zeros_append_numeral hbase hds)
  rw [List.length_append] at hlength
  rw [rebase, List.length_append]
  omega

/-! ## Bytes as digits -/

theorem toNat_lt_of_mem (bytes : Bytes) : ∀ d ∈ bytes.map UInt8.toNat, d < 256 := by
  intro d hd
  obtain ⟨byte, -, rfl⟩ := List.mem_map.mp hd
  exact byte.toNat_lt

theorem map_ofNat_map_toNat (bytes : Bytes) : (bytes.map UInt8.toNat).map UInt8.ofNat = bytes := by
  simp [Function.comp_def]

theorem map_toNat_map_ofNat {ds : List Nat} (h : ∀ d ∈ ds, d < 256) :
    (ds.map UInt8.ofNat).map UInt8.toNat = ds := by
  rw [List.map_map]
  conv_rhs => rw [← List.map_id ds]
  apply List.map_congr_left
  intro d hd
  exact Nat.mod_eq_of_lt (h d hd)

theorem leadingZeros_map_toNat (bytes : Bytes) :
    leadingZeros (bytes.map UInt8.toNat) = Bytes.leadingZeros bytes := by
  have hzero : (fun d => d == 0) ∘ UInt8.toNat = fun byte => byte == 0 := by
    funext byte
    rw [Function.comp_apply, Bool.eq_iff_iff, beq_iff_eq, beq_iff_eq, ← UInt8.toNat_inj]
    rfl
  rw [leadingZeros, List.takeWhile_map, hzero, List.length_map, Bytes.leadingZeros]

/-! ## Digits as characters -/

/-- Looking characters up is searching them if the two agree on ASCII and nothing else is found. -/
theorem DigitTable.digit?_eq_of_ascii (table : DigitTable) (search : Char → Option Nat)
    (hascii : ∀ n < 128, table.digit? (Char.ofNat n) = search (Char.ofNat n))
    (hbeyond : ∀ c : Char, 128 ≤ c.toNat → search c = none) (c : Char) :
    table.digit? c = search c := by
  by_cases h : c.toNat < 128
  · have hc := hascii c.toNat h
    rwa [Char.ofNat_toNat] at hc
  · have hnone : table[c.toNat]? = none := getElem?_neg table c.toNat h
    rw [hbeyond c (Nat.not_lt.mp h), DigitTable.digit?, hnone]
    rfl

theorem idxOf?_eq_some_iff_getD {symbols : List Char} (h : symbols.Nodup) {c : Char}
    (fallback : Char) {d : Nat} :
    symbols.idxOf? c = some d ↔ d < symbols.length ∧ symbols.getD d fallback = c := by
  rw [List.idxOf?_eq_some_iff]
  constructor
  · rintro ⟨hd, hc, -⟩
    exact ⟨hd, by rw [List.getD_eq_getElem _ _ hd, hc]⟩
  · rintro ⟨hd, hc⟩
    rw [List.getD_eq_getElem _ _ hd] at hc
    refine ⟨hd, hc, ?_⟩
    intro j hj heq
    have hsame := h.getElem_inj_iff.mp (heq.trans hc.symm)
    omega

variable {digit? : Char → Option Nat} {symbol : Nat → Char}

theorem map_filterMap_digit {shape : Char → Char}
    (h : ∀ c d, digit? c = some d → symbol d = shape c) {text : List Char}
    (htext : ∀ c ∈ text, (digit? c).isSome) :
    (text.filterMap digit?).map symbol = text.map shape := by
  induction text with
  | nil => rfl
  | cons c text ih =>
    obtain ⟨d, hd⟩ := Option.isSome_iff_exists.mp (htext c (by simp))
    have hrest := ih fun c hc => htext c (by simp [hc])
    rw [List.filterMap_cons_some hd, List.map_cons, List.map_cons, hrest, h c d hd]

theorem filterMap_map_symbol {ds : List Nat} (h : ∀ d ∈ ds, digit? (symbol d) = some d) :
    (ds.map symbol).filterMap digit? = ds := by
  rw [List.filterMap_map]
  induction ds with
  | nil => rfl
  | cons d ds ih =>
    have hd : (digit? ∘ symbol) d = some d := h d (by simp)
    rw [List.filterMap_cons_some hd, ih fun d hd => h d (by simp [hd])]

/-! ## Byte strings as texts -/

/-- A byte string is read back from the symbols of its digits. -/
theorem bytes_of_symbols (hbase : 1 < base) (h : ∀ d < base, digit? (symbol d) = some d)
    (bytes : Bytes) :
    (rebase base 256
      (((rebase 256 base (bytes.map UInt8.toNat)).map symbol).filterMap digit?)).map UInt8.ofNat =
        bytes := by
  have hlt : ∀ d ∈ rebase 256 base (bytes.map UInt8.toNat), d < base := rebase_lt hbase
  rw [filterMap_map_symbol fun d hd => h d (hlt d hd),
    rebase_rebase (by decide) hbase (toNat_lt_of_mem bytes), map_ofNat_map_toNat]

/-- A text comes back from the bytes that its digits are read as, in one spelling. -/
theorem symbols_of_bytes (hbase : 1 < base) {shape : Char → Char}
    (h : ∀ c d, digit? c = some d → d < base ∧ symbol d = shape c) {text : List Char}
    (htext : ∀ c ∈ text, (digit? c).isSome) :
    (rebase 256 base
      (((rebase base 256 (text.filterMap digit?)).map UInt8.ofNat).map UInt8.toNat)).map symbol =
        text.map shape := by
  have hlt : ∀ d ∈ text.filterMap digit?, d < base := by
    intro d hd
    obtain ⟨c, -, hc⟩ := List.mem_filterMap.mp hd
    exact (h c d hc).1
  rw [map_toNat_map_ofNat (rebase_lt (by decide)), rebase_rebase hbase (by decide) hlt,
    map_filterMap_digit (fun c d hd => (h c d hd).2) htext]

end ClarityWire.Radix
