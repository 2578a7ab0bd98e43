import Mathlib.Tactic.Ring
import ClarityWire.C32
import ClarityWire.Proofs.Numerals

/-!
# Regrouping bits

A regrouping holds the lowest bits of a number, in complete units and a carry that has not filled a
unit yet. Taking in a byte or a digit puts its bits on top of the carry and then completes as many
units as are there, so once all the input is taken in, the units are the digits of the number that
the input denotes.
-/

namespace ClarityWire.C32.Packing

/-- The packing spells a number of a given width in bits, in units of `unit` bits. -/
structure Holds (unit : Nat) (p : Packing) (width n : Nat) : Prop where
  units_lt : ∀ u ∈ p.units, u < 2 ^ unit
  carry_lt : p.carry < 2 ^ p.bits
  width_eq : unit * p.units.length + p.bits = width
  number_eq : Radix.number (2 ^ unit) (p.carry :: p.units) = n

/-- All complete units are out. -/
structure Settled (unit : Nat) (p : Packing) (width n : Nat) : Prop extends
    Holds unit p width n where
  bits_lt : p.bits < unit

/-- Puts `count` bits on top of the carry. -/
def add (count v : Nat) (p : Packing) : Packing :=
  ⟨p.units, p.carry + v * 2 ^ p.bits, p.bits + count⟩

/-- Completes the unit at the low end of the carry. -/
def emit (unit : Nat) (p : Packing) : Packing :=
  ⟨p.carry % 2 ^ unit :: p.units, p.carry / 2 ^ unit, p.bits - unit⟩

variable {unit width n : Nat} {p : Packing}

@[simp] theorem units_add (count v : Nat) : (p.add count v).units = p.units := rfl

@[simp] theorem bits_add (count v : Nat) : (p.add count v).bits = p.bits + count := rfl

@[simp] theorem bits_emit (unit : Nat) : (p.emit unit).bits = p.bits - unit := rfl

theorem settled_empty (h : 0 < unit) : empty.Settled unit 0 0 where
  units_lt := by simp [empty]
  carry_lt := by simp [empty]
  width_eq := rfl
  number_eq := by simp [empty, Radix.number, Radix.value]
  bits_lt := h

theorem Holds.add (h : p.Holds unit width n) {count v : Nat} (hv : v < 2 ^ count) :
    (p.add count v).Holds unit (width + count) (v * 2 ^ width + n) where
  units_lt := h.units_lt
  carry_lt := by
    have hcarry := h.carry_lt
    calc p.carry + v * 2 ^ p.bits < (v + 1) * 2 ^ p.bits := by rw [Nat.add_one_mul]; omega
      _ ≤ 2 ^ count * 2 ^ p.bits := Nat.mul_le_mul_right _ hv
      _ = 2 ^ (p.bits + count) := by rw [pow_add, Nat.mul_comm]
  width_eq := by
    rw [units_add, bits_add, ← Nat.add_assoc, h.width_eq]
  number_eq := by
    have hpow : 2 ^ width = 2 ^ p.bits * (2 ^ unit) ^ p.units.length := by
      rw [← h.width_eq, pow_add, pow_mul, Nat.mul_comm]
    rw [← h.number_eq, hpow, Packing.add, Radix.number_cons, Radix.number_cons]
    ring

theorem Holds.emit (h : p.Holds unit width n) (hbits : unit ≤ p.bits) :
    (p.emit unit).Holds unit width n where
  units_lt := by
    intro u hu
    rcases List.mem_cons.mp hu with rfl | hu
    · exact Nat.mod_lt _ (by positivity)
    · exact h.units_lt u hu
  carry_lt := by
    apply Nat.div_lt_of_lt_mul
    rw [← pow_add, bits_emit, Nat.add_sub_cancel' hbits]
    exact h.carry_lt
  width_eq := by
    have hwidth := h.width_eq
    simp only [Packing.emit, List.length_cons, Nat.mul_add_one]
    omega
  number_eq := by
    have hsplit := Nat.mod_add_div p.carry (2 ^ unit)
    rw [← h.number_eq, Packing.emit, Radix.number_cons, Radix.number_cons, Radix.number_cons,
      List.length_cons]
    conv_rhs => rw [← hsplit]
    ring

/-! ## The two directions -/

theorem pushDigit_eq (digit : Nat) (p : Packing) :
    p.pushDigit digit = if 8 ≤ p.bits + 5 then (p.add 5 digit).emit 8 else p.add 5 digit := by
  simp only [pushDigit, Nat.shiftLeft_eq, Nat.shiftRight_eq_div_pow]
  rfl

private theorem lowest_unit {bits unit carry : Nat} (hbits : bits ≤ unit)
    (hcarry : carry < 2 ^ bits)
    (v : Nat) :
    (carry + v * 2 ^ bits) % 2 ^ unit = v % 2 ^ (unit - bits) * 2 ^ bits + carry ∧
      (carry + v * 2 ^ bits) / 2 ^ unit = v / 2 ^ (unit - bits) := by
  have hpos : 0 < 2 ^ bits := by positivity
  have hpow : 2 ^ unit = 2 ^ bits * 2 ^ (unit - bits) := by
    rw [← pow_add, Nat.add_sub_cancel' hbits]
  have hmod : (carry + v * 2 ^ bits) % 2 ^ bits = carry := by
    rw [Nat.add_mul_mod_self_right, Nat.mod_eq_of_lt hcarry]
  have hdiv : (carry + v * 2 ^ bits) / 2 ^ bits = v := by
    rw [Nat.add_mul_div_right _ _ hpos, Nat.div_eq_of_lt hcarry, Nat.zero_add]
  constructor
  · rw [hpow, Nat.mod_mul, hmod, hdiv]
    ring
  · rw [hpow, ← Nat.div_div_eq_div_mul, hdiv]

theorem pushByte_eq (hcarry : p.carry < 2 ^ p.bits) (hbits : p.bits < 5) (byte : UInt8) :
    p.pushByte byte =
      let first := (p.add 8 byte.toNat).emit 5
      if 5 ≤ first.bits then first.emit 5 else first := by
  obtain ⟨hlow, hhigh⟩ := lowest_unit hbits.le hcarry byte.toNat
  have hrest : 8 - (p.bits + 3) = 5 - p.bits := by omega
  have hleft : p.bits + 8 - 5 = p.bits + 3 := by omega
  simp only [add, emit, hlow, hhigh, hleft]
  simp only [pushByte, Nat.shiftLeft_eq, Nat.shiftRight_eq_div_pow, Nat.one_mul, hrest]
  rfl

theorem Settled.pushByte (h : p.Settled 5 width n) (byte : UInt8) :
    (p.pushByte byte).Settled 5 (width + 8) (byte.toNat * 2 ^ width + n) := by
  have hadd : (p.add 8 byte.toNat).Holds 5 (width + 8) (byte.toNat * 2 ^ width + n) :=
    h.toHolds.add byte.toNat_lt
  have hfirst := hadd.emit (show 5 ≤ p.bits + 8 by omega)
  have hbits : ((p.add 8 byte.toNat).emit 5).bits = p.bits + 3 := by simp
  have hlt := h.bits_lt
  rw [pushByte_eq h.carry_lt hlt]
  dsimp only
  split
  · next hmore =>
    refine ⟨hfirst.emit hmore, ?_⟩
    rw [bits_emit]
    omega
  · exact ⟨hfirst, by omega⟩

theorem Settled.pushDigit (h : p.Settled 8 width n) {digit : Nat} (hdigit : digit < 32) :
    (p.pushDigit digit).Settled 8 (width + 5) (digit * 2 ^ width + n) := by
  have hadd : (p.add 5 digit).Holds 8 (width + 5) (digit * 2 ^ width + n) := h.toHolds.add hdigit
  have hlt := h.bits_lt
  rw [pushDigit_eq]
  split
  · next hmore =>
    refine ⟨hadd.emit hmore, ?_⟩
    rw [bits_emit, bits_add]
    omega
  · next hfew =>
    refine ⟨hadd, ?_⟩
    rw [bits_add]
    omega

theorem settled_bytes (bytes : Bytes) :
    (bytes.foldr pushByte empty).Settled 5 (8 * bytes.length)
      (Radix.number 256 (bytes.map UInt8.toNat)) := by
  induction bytes with
  | nil => exact settled_empty (by decide)
  | cons byte bytes ih =>
    have hpow : 256 ^ bytes.length = 2 ^ (8 * bytes.length) := by rw [pow_mul]; norm_num
    rw [List.map_cons, Radix.number_cons, List.length_map, hpow]
    exact ih.pushByte byte

theorem settled_digits {digits : List Nat} (h : ∀ d ∈ digits, d < 32) :
    (digits.foldr pushDigit empty).Settled 8 (5 * digits.length) (Radix.number 32 digits) := by
  induction digits with
  | nil => exact settled_empty (by decide)
  | cons digit digits ih =>
    have hpow : 32 ^ digits.length = 2 ^ (5 * digits.length) := by rw [pow_mul]; norm_num
    rw [Radix.number_cons, hpow]
    exact (ih fun d hd => h d (by simp [hd])).pushDigit (h digit (by simp))

/-! ## The result -/

/-- In the end a regrouping gives the shortest numeral of the number it holds. -/
theorem Settled.finish (h : p.Settled unit width n) : p.finish = Radix.numeral (2 ^ unit) n := by
  have hbits := h.bits_lt
  have hunit : 1 < 2 ^ unit := Nat.one_lt_two_pow (by omega)
  have hlt : ∀ u ∈ p.carry :: p.units, u < 2 ^ unit := by
    intro u hu
    rcases List.mem_cons.mp hu with rfl | hu
    · exact h.carry_lt.trans_le (Nat.pow_le_pow_right (by decide) hbits.le)
    · exact h.units_lt u hu
  rw [← h.number_eq, Radix.numeral_number hunit hlt, Packing.finish]
  by_cases hempty : 0 < p.bits
  · rw [if_pos hempty]
  · have hzero : p.carry = 0 := by
      have hcarry := h.carry_lt
      rw [Nat.eq_zero_of_not_pos hempty] at hcarry
      omega
    rw [if_neg hempty, hzero]
    rfl

end ClarityWire.C32.Packing
