import Mathlib.Tactic.Ring
import ClarityWire.Bytes

/-!
# Numbers in fixed width

Writing the lowest bytes of a number and reading a byte string as a number are inverse to each
other, up to the bytes that the width leaves out. A number that fits the width is read back.
-/

namespace ClarityWire.Bytes

private theorem foldl_toNat (bytes : Bytes) (n : Nat) :
    bytes.foldl (fun n byte => n * 256 + byte.toNat) n =
      n * 256 ^ bytes.length + toNat bytes := by
  induction bytes generalizing n with
  | nil => simp [toNat]
  | cons byte bytes ih =>
    have hcons : toNat (byte :: bytes) = byte.toNat * 256 ^ bytes.length + toNat bytes := by
      rw [toNat, List.foldl_cons, ih]
      ring
    rw [List.foldl_cons, ih, hcons, List.length_cons]
    ring

theorem toNat_cons (byte : UInt8) (bytes : Bytes) :
    toNat (byte :: bytes) = byte.toNat * 256 ^ bytes.length + toNat bytes := by
  rw [toNat, List.foldl_cons, foldl_toNat]
  ring

theorem toNat_lt (bytes : Bytes) : toNat bytes < 256 ^ bytes.length := by
  induction bytes with
  | nil => simp [toNat]
  | cons byte bytes ih =>
    have hbyte : byte.toNat + 1 ≤ 256 := byte.toNat_lt
    calc toNat (byte :: bytes)
        = byte.toNat * 256 ^ bytes.length + toNat bytes := toNat_cons byte bytes
      _ < (byte.toNat + 1) * 256 ^ bytes.length := by rw [Nat.add_one_mul]; omega
      _ ≤ 256 * 256 ^ bytes.length := Nat.mul_le_mul_right _ hbyte
      _ = 256 ^ (byte :: bytes).length := by rw [List.length_cons]; ring

private theorem shiftRight_bytes (n width : Nat) : n >>> (8 * width) = n / 256 ^ width := by
  rw [Nat.shiftRight_eq_div_pow, Nat.pow_mul]

/-- Writing in a width keeps a number up to the bytes above the width. -/
theorem toNat_ofNat (width n : Nat) : toNat (ofNat width n) = n % 256 ^ width := by
  induction width with
  | zero => simp [ofNat, toNat, Nat.mod_one]
  | succ width ih =>
    rw [ofNat, toNat_cons, length_ofNat, ih, shiftRight_bytes, UInt8.toNat_ofNat']
    have hsplit := Nat.mod_mul (x := n) (a := 256 ^ width) (b := 256)
    rw [Nat.pow_succ 256 width, hsplit]
    ring

theorem toNat_ofNat_of_lt {width n : Nat} (h : n < 256 ^ width) :
    toNat (ofNat width n) = n := by
  rw [toNat_ofNat, Nat.mod_eq_of_lt h]

private theorem ofNat_mod (width extra n : Nat) :
    ofNat width (extra * 256 ^ width + n) = ofNat width n := by
  induction width generalizing extra with
  | zero => rfl
  | succ width ih =>
    have hhead : UInt8.ofNat ((extra * 256 ^ (width + 1) + n) >>> (8 * width)) =
        UInt8.ofNat (n >>> (8 * width)) := by
      have hpos : 0 < 256 ^ width := Nat.pow_pos (by decide)
      have hquot : (extra * 256 ^ (width + 1) + n) / 256 ^ width =
          extra * 256 + n / 256 ^ width := by
        rw [show extra * 256 ^ (width + 1) + n = n + extra * 256 * 256 ^ width by ring,
          Nat.add_mul_div_right _ _ hpos]
        ring
      apply UInt8.toNat_inj.mp
      rw [shiftRight_bytes, shiftRight_bytes, hquot, UInt8.toNat_ofNat', UInt8.toNat_ofNat']
      omega
    have htail : ofNat width (extra * 256 ^ (width + 1) + n) = ofNat width n := by
      rw [show extra * 256 ^ (width + 1) = extra * 256 * 256 ^ width by ring]
      exact ih (extra * 256)
    rw [ofNat, hhead, htail, ofNat]

/-- A byte string is what the number it denotes is written as, in its own width. -/
theorem ofNat_toNat (bytes : Bytes) : ofNat bytes.length (toNat bytes) = bytes := by
  induction bytes with
  | nil => rfl
  | cons byte bytes ih =>
    have hpos : 0 < 256 ^ bytes.length := Nat.pow_pos (by decide)
    have hhead : toNat (byte :: bytes) >>> (8 * bytes.length) = byte.toNat := by
      rw [shiftRight_bytes, toNat_cons, Nat.add_comm, Nat.add_mul_div_right _ _ hpos,
        Nat.div_eq_of_lt (toNat_lt bytes), Nat.zero_add]
    rw [List.length_cons, ofNat, hhead, toNat_cons, ofNat_mod, ih, UInt8.ofNat_toNat]

theorem ofNat_toNat_of_length {width : Nat} {bytes : Bytes} (h : bytes.length = width) :
    ofNat width (toNat bytes) = bytes := by
  subst h
  exact ofNat_toNat bytes

/-- A number that fits a width is written as the byte string of that width that denotes it. -/
theorem ofNat_eq_iff {width n : Nat} (h : n < 256 ^ width) {bytes : Bytes} :
    ofNat width n = bytes ↔ bytes.length = width ∧ toNat bytes = n := by
  constructor
  · rintro rfl
    exact ⟨length_ofNat width n, toNat_ofNat_of_lt h⟩
  · rintro ⟨hlength, rfl⟩
    exact ofNat_toNat_of_length hlength

/-- Numbers that fit a width are written differently when they differ. -/
theorem ofNat_injective_of_lt {width m n : Nat} (hm : m < 256 ^ width) (hn : n < 256 ^ width)
    (h : ofNat width m = ofNat width n) : m = n := by
  rw [← toNat_ofNat_of_lt hm, h, toNat_ofNat_of_lt hn]

end ClarityWire.Bytes
