import ClarityWire.Proofs.Base58
import ClarityWire.Proofs.C32
import ClarityWire.Proofs.Guarded

/-!
# Digit loops in registers

The loops that regroup bits and those that change a base, with every operation guarded. Regrouping
keeps fewer bits in the carry than make a unit, so that a shift never loses one, and changing a base
keeps the carry below the old base, so that it stays below the product of both bases while a digit
is taken in. So neither meets a guard, and both give what the unguarded loops give. Texts of base 58
are taken in digit by digit up to the first character that is none, so the guards are passed before
a bad character as well. How much space is reserved for a result in advance is left out.
-/

namespace ClarityWire

open Guarded

namespace C32

namespace Packing

/-- Takes in one more byte. Registers have eight bits, and digits are indices of the alphabet. -/
def pushByteGuarded? (byte : UInt8) (p : Packing) : Option Packing := do
  let lowBits ← difference? 5 p.bits
  let power ← shiftLeft? 8 1 lowBits
  let mask ← difference? power 1
  let low ← shiftLeft? 8 (byte.toNat &&& mask) p.bits
  let sum ← fit? 256 (low + p.carry)
  let digit ← fit? symbols.length sum
  let bits ← fit? 256 (p.bits + 3)
  let highBits ← difference? 8 bits
  let carry ← shiftRight? 8 byte.toNat highBits
  if 5 ≤ bits then
    let next ← fit? symbols.length (carry &&& 0x1f)
    let left ← difference? bits 5
    return ⟨next :: digit :: p.units, carry >>> 5, left⟩
  else
    return ⟨digit :: p.units, carry, bits⟩

/-- Takes in one more digit. The carry has sixteen bits, and bytes have eight. -/
def pushDigitGuarded? (digit : Nat) (p : Packing) : Option Packing := do
  let shifted ← shiftLeft? 16 digit p.bits
  let carry ← fit? 65536 (p.carry + shifted)
  let bits ← fit? 256 (p.bits + 5)
  if 8 ≤ bits then
    let byte ← fit? 256 (carry &&& 0xff)
    let left ← difference? bits 8
    return ⟨byte :: p.units, carry >>> 8, left⟩
  else
    return ⟨p.units, carry, bits⟩

/-- All units without zeros in front. The bits left over have to be a unit below the limit. -/
def finishGuarded? (limit : Nat) (p : Packing) : Option (List Nat) :=
  if 0 < p.bits then do
    let last ← fit? limit p.carry
    return (last :: p.units).dropWhile (· == 0)
  else
    return p.units.dropWhile (· == 0)

variable {unit width n : Nat} {p : Packing}

/-- What holds before a byte is taken in: the bits left over are fewer than a digit has, and with
the lowest bits of any byte on top of them they are an index of the alphabet. -/
structure EntersByte (p : Packing) : Prop where
  bits_le : p.bits ≤ 4
  carry_lt : p.carry < 2 ^ p.bits
  low_add_carry_lt : ∀ byte : UInt8,
    ((byte.toNat % 2 ^ (5 - p.bits)) <<< p.bits) + p.carry < 32
  units_lt : ∀ digit ∈ p.units, digit < 32

/-- What holds before a digit is taken in: the bits left over are fewer than a byte has, and with
any digit on top of them they fit sixteen bits. -/
structure EntersDigit (p : Packing) : Prop where
  bits_le : p.bits ≤ 7
  carry_lt : p.carry < 2 ^ p.bits
  carry_add_lt : ∀ digit < 32, p.carry + digit <<< p.bits < 65536
  units_lt : ∀ byte ∈ p.units, byte < 256

theorem Settled.entersByte (h : p.Settled 5 width n) : p.EntersByte where
  bits_le := Nat.le_of_lt_succ h.bits_lt
  carry_lt := h.carry_lt
  low_add_carry_lt := by
    intro byte
    have hunits := (h.pushByte byte).units_lt
    apply hunits
    simp only [Packing.pushByte, Nat.one_shiftLeft]
    split <;> simp
  units_lt := h.units_lt

theorem Settled.entersDigit (h : p.Settled 8 width n) : p.EntersDigit where
  bits_le := Nat.le_of_lt_succ h.bits_lt
  carry_lt := h.carry_lt
  carry_add_lt := by
    intro digit hdigit
    have hlt := h.bits_lt
    have hadd := (h.toHolds.add (show digit < 2 ^ 5 from hdigit)).carry_lt
    calc p.carry + digit <<< p.bits = (p.add 5 digit).carry := by rw [Nat.shiftLeft_eq]; rfl
      _ < 2 ^ (p.bits + 5) := hadd
      _ ≤ 2 ^ 16 := Nat.pow_le_pow_right (by decide) (by omega)
  units_lt := h.units_lt

theorem pushByteGuarded?_eq (h : p.EntersByte) (byte : UInt8) :
    pushByteGuarded? byte p = some (p.pushByte byte) := by
  have hbits := h.bits_le
  have hsum := h.low_add_carry_lt byte
  have hpower : 1 <<< (5 - p.bits) < 2 ^ 8 := by
    rw [Nat.one_shiftLeft]
    exact Nat.pow_lt_pow_right (by decide) (by omega)
  have hpos : 1 ≤ 1 <<< (5 - p.bits) := by
    rw [Nat.one_shiftLeft]
    exact Nat.two_pow_pos _
  have hmask : byte.toNat &&& (1 <<< (5 - p.bits) - 1) = byte.toNat % 2 ^ (5 - p.bits) := by
    rw [Nat.one_shiftLeft, Nat.and_two_pow_sub_one_eq_mod]
  have hfive (v : Nat) : v &&& 0x1f = v % 32 := Nat.and_two_pow_sub_one_eq_mod v 5
  have hnext (v : Nat) : v &&& 0x1f < symbols.length := by
    rw [hfive]
    exact Nat.mod_lt v (by decide)
  rw [pushByteGuarded?, difference?_bind (by omega), shiftLeft?_bind (by omega) hpower,
    difference?_bind hpos, hmask, shiftLeft?_bind (by omega) (by omega), fit?_bind (by omega),
    fit?_bind (by exact hsum), fit?_bind (by omega), difference?_bind (by omega),
    shiftRight?_bind (by omega), pushByte, Nat.one_shiftLeft]
  split
  · next hmore =>
    rw [fit?_bind (hnext _), difference?_bind hmore, hfive]
    rfl
  · rfl

theorem pushDigitGuarded?_eq (h : p.EntersDigit) {digit : Nat} (hdigit : digit < 32) :
    pushDigitGuarded? digit p = some (p.pushDigit digit) := by
  have hbits := h.bits_le
  have hcarry := h.carry_add_lt digit hdigit
  have height (v : Nat) : v &&& 0xff = v % 256 := Nat.and_two_pow_sub_one_eq_mod v 8
  have hbyte (v : Nat) : v &&& 0xff < 256 := by
    rw [height]
    exact Nat.mod_lt v (by decide)
  rw [pushDigitGuarded?, shiftLeft?_bind (by omega) (by omega), fit?_bind hcarry,
    fit?_bind (by omega), pushDigit]
  split
  · next hmore =>
    rw [fit?_bind (hbyte _), difference?_bind hmore, height]
    rfl
  · rfl

theorem finishGuarded?_eq (h : p.Settled unit width n) {limit : Nat} (hlimit : 2 ^ unit ≤ limit) :
    p.finishGuarded? limit = some p.finish := by
  have hcarry : p.carry < limit :=
    calc p.carry < 2 ^ p.bits := h.carry_lt
      _ ≤ 2 ^ unit := Nat.pow_le_pow_right (by decide) h.bits_lt.le
      _ ≤ limit := hlimit
  rw [finishGuarded?, finish]
  split
  · rw [fit?_bind hcarry]
    rfl
  · rfl

end Packing

/-- The text of a byte string, with every operation guarded. -/
def encodeGuarded? (bytes : Bytes) : Option String := do
  let packed ← bytes.foldrM Packing.pushByteGuarded? .empty
  let digits ← packed.finishGuarded? symbols.length
  return String.ofList (List.replicate (Bytes.leadingZeros bytes) (symbol 0) ++ digits.map symbol)

/-- The bytes that digits stand for, with every operation guarded. -/
def packDigitsGuarded? (digits : List Nat) : Option Bytes := do
  let packed ← digits.foldrM Packing.pushDigitGuarded? .empty
  let bytes ← packed.finishGuarded? 256
  return List.replicate (digits.takeWhile (· == 0)).length 0 ++ bytes.map UInt8.ofNat

/-- Reads a text, with every operation guarded. -/
def decodeGuarded? (text : String) : Option (Except Error Bytes) :=
  match requireAscii text.toList >>= fun _ => digitValues text.toList with
  | .error e => some (.error e)
  | .ok digits => (packDigitsGuarded? digits).map .ok

theorem encodeGuarded?_eq (bytes : Bytes) : encodeGuarded? bytes = some (encode bytes) := by
  have hloop : bytes.foldrM Packing.pushByteGuarded? .empty =
      some (bytes.foldr Packing.pushByte .empty) := by
    apply foldrM_eq_some
    intro byte behind _
    exact Packing.pushByteGuarded?_eq (Packing.settled_bytes behind).entersByte byte
  have hfinish := Packing.finishGuarded?_eq (Packing.settled_bytes bytes)
    (show 2 ^ 5 ≤ symbols.length by decide)
  rw [encodeGuarded?, hloop, Option.bind_eq_bind, Option.bind_some, hfinish]
  rfl

theorem packDigitsGuarded?_eq {digits : List Nat} (h : ∀ d ∈ digits, d < 32) :
    packDigitsGuarded? digits = some (packDigits digits) := by
  have hloop : digits.foldrM Packing.pushDigitGuarded? .empty =
      some (digits.foldr Packing.pushDigit .empty) := by
    apply foldrM_eq_some
    intro digit behind hsuffix
    have hbehind : ∀ d ∈ behind, d < 32 := fun d hd => h d (hsuffix.mem (List.mem_cons_of_mem _ hd))
    exact Packing.pushDigitGuarded?_eq (Packing.settled_digits hbehind).entersDigit
      (h digit (hsuffix.mem List.mem_cons_self))
  have hfinish := Packing.finishGuarded?_eq (Packing.settled_digits h) (show 2 ^ 8 ≤ 256 by decide)
  rw [packDigitsGuarded?, hloop, Option.bind_eq_bind, Option.bind_some, hfinish]
  rfl

theorem decodeGuarded?_eq (text : String) : decodeGuarded? text = some (decode text) := by
  rw [decodeGuarded?, decode, decodeChars, digitValues]
  cases requireAscii text.toList with
  | error e => rfl
  | ok _ =>
    cases text.toList.reverse.find? fun c => (digit? c).isNone with
    | some c => rfl
    | none =>
      have hdigits : ∀ d ∈ text.toList.filterMap digit?, d < 32 := filterMap_digit?_lt
      change (packDigitsGuarded? (text.toList.filterMap digit?)).map Except.ok = _
      rw [packDigitsGuarded?_eq hdigits]
      rfl

end C32

namespace Radix

/-- Multiplies a numeral and adds to it in place. The carry has a register for the numbers below
`room`, and digits are stored in registers for those of the base. -/
def mulAddGuarded? (room base factor : Nat) : List Nat → (carry : Nat) → Option (List Nat)
  | [], carry => do
    let carry ← fit? room carry
    (digits base carry).mapM (fit? base)
  | d :: ds, carry => do
    let product ← fit? room (d * factor)
    let sum ← fit? room (carry + product)
    let digit ← fit? base (sum % base)
    let rest ← mulAddGuarded? room base factor ds (sum / base)
    return digit :: rest

/-- Rewrites a numeral in another base, with every operation guarded. -/
def convertGuarded? (room base newBase : Nat) (numerals : List Nat) : Option (List Nat) :=
  numerals.foldlM (fun ds d => mulAddGuarded? room newBase base ds d) []

variable {room base newBase factor carry d n : Nat} {ds numerals : List Nat}

theorem digits_lt (h : 1 < base) : ∀ d ∈ digits base n, d < base := by
  intro d hd
  exact numeral_lt h (List.mem_reverse.mpr hd)

theorem convert_lt (hbase : 0 < base) (h : 1 < newBase) :
    ∀ d ∈ convert base newBase numerals, d < newBase := by
  rw [convert_eq hbase h]
  exact digits_lt h

theorem mulAdd_lt (h : 1 < base) : ∀ d ∈ mulAdd base factor ds carry, d < base := by
  induction ds generalizing carry with
  | nil => exact digits_lt h
  | cons d ds ih => exact List.forall_mem_cons.mpr ⟨Nat.mod_lt _ (by omega), ih⟩

/-- A carry below the factor and a digit of the base make a sum below their product. -/
theorem carry_add_lt (hcarry : carry < factor) (hd : d < base) :
    carry + d * factor < base * factor :=
  calc carry + d * factor < (d + 1) * factor := by rw [Nat.add_one_mul]; omega
    _ ≤ base * factor := Nat.mul_le_mul_right factor hd

theorem mulAddGuarded?_eq (h : 1 < base) (hroom : base * factor ≤ room) (hcarry : carry < factor)
    (hds : ∀ d ∈ ds, d < base) :
    mulAddGuarded? room base factor ds carry = some (mulAdd base factor ds carry) := by
  induction ds generalizing carry with
  | nil =>
    have hfactor : factor ≤ base * factor := Nat.le_mul_of_pos_left factor (by omega)
    rw [mulAddGuarded?, fit?_bind (by omega), mapM_fit? (digits_lt h), mulAdd]
  | cons d ds ih =>
    have hsum := carry_add_lt hcarry (hds d List.mem_cons_self)
    have hdigit : (carry + d * factor) % base < base := Nat.mod_lt _ (by omega)
    have hrest := ih (Nat.div_lt_of_lt_mul hsum) fun e he => hds e (List.mem_cons_of_mem d he)
    rw [mulAddGuarded?, fit?_bind (by omega), fit?_bind (by omega), fit?_bind hdigit, hrest, mulAdd]
    rfl

theorem convertGuarded?_eq (h : 1 < newBase) (hroom : newBase * base ≤ room)
    (hnumerals : ∀ d ∈ numerals, d < base) :
    convertGuarded? room base newBase numerals = some (convert base newBase numerals) := by
  -- The digits already there may be any of the new base.
  have hloop : ∀ ds : List Nat, (∀ d ∈ ds, d < newBase) →
      numerals.foldlM (fun ds d => mulAddGuarded? room newBase base ds d) ds =
        some (numerals.foldl (fun ds d => mulAdd newBase base ds d) ds) := by
    induction numerals with
    | nil => intro ds _; rfl
    | cons d numerals ih =>
      intro ds hds
      have hstep := mulAddGuarded?_eq h hroom (hnumerals d List.mem_cons_self) hds
      rw [List.foldlM_cons, hstep, List.foldl_cons]
      exact ih (fun e he => hnumerals e (List.mem_cons_of_mem d he)) _ (mulAdd_lt h)
  exact hloop [] nofun

end Radix

namespace Base58

/-- The text of a byte string, with every operation guarded. -/
def encodeGuarded? (room : Nat) (bytes : Bytes) : Option String := do
  let zeros := Bytes.leadingZeros bytes
  let rest ← bytes.slice? zeros bytes.length
  let digits ← Radix.convertGuarded? room 256 58 (rest.map UInt8.toNat)
  let indices ← digits.reverse.mapM (fit? symbols.length)
  return String.ofList (List.replicate zeros (symbol 0) ++ indices.map symbol)

/-- Takes in the digits of a text one after the other, up to a character that is none. -/
def takeInGuarded? (room : Nat) : List Char → List Nat → Option (Except Error (List Nat))
  | [], ds => some (.ok ds)
  | c :: text, ds =>
    match digit? c with
    | none => some (.error (.invalidCharacter c))
    | some d => do
      let taken ← Radix.mulAddGuarded? room 256 58 ds d
      takeInGuarded? room text taken

/-- Reads a text, with every operation guarded. -/
def decodeGuarded? (room : Nat) (text : String) : Option (Except Error Bytes) := do
  let zeros := (text.toList.takeWhile (· == symbol 0)).length
  let taken ← takeInGuarded? room (text.toList.drop zeros) []
  return taken.map fun ds => List.replicate zeros 0 ++ ds.reverse.map UInt8.ofNat

variable {room : Nat}

theorem encodeGuarded?_eq (hroom : 58 * 256 ≤ room) (bytes : Bytes) :
    encodeGuarded? room bytes = some (encode bytes) := by
  have hzeros : Bytes.leadingZeros bytes ≤ bytes.length :=
    (List.takeWhile_prefix _).length_le
  have hrest : bytes.slice? (Bytes.leadingZeros bytes) bytes.length =
      some (bytes.drop (Bytes.leadingZeros bytes)) := by
    rw [Bytes.slice?, if_pos ⟨hzeros, le_rfl⟩, ← List.length_drop, List.take_length]
  have hconvert := Radix.convertGuarded?_eq (show 1 < 58 by decide) hroom
    (Radix.toNat_lt_of_mem (bytes.drop (Bytes.leadingZeros bytes)))
  have hindices (numerals : List Nat) :
      ∀ d ∈ (Radix.convert 256 58 numerals).reverse, d < symbols.length := by
    intro d hd
    exact Radix.convert_lt (by decide) (by decide) d (List.mem_reverse.mp hd)
  rw [encodeGuarded?, hrest, Option.bind_eq_bind, Option.bind_some, hconvert, Option.bind_eq_bind,
    Option.bind_some, mapM_fit? (hindices _)]
  rfl

theorem takeInGuarded?_eq (hroom : 58 * 256 ≤ room) (text : List Char) {ds : List Nat}
    (hds : ∀ d ∈ ds, d < 256) :
    takeInGuarded? room text ds =
      some ((text.find? fun c => (digit? c).isNone).elim
        (.ok ((text.filterMap digit?).foldl (fun ds d => Radix.mulAdd 256 58 ds d) ds))
        fun c => .error (.invalidCharacter c)) := by
  induction text generalizing ds with
  | nil => rfl
  | cons c text ih =>
    cases hc : digit? c with
    | none => simp [takeInGuarded?, hc]
    | some d =>
      have hd : d < 58 := (digit?_eq_some_iff.mp hc).1
      have hstep := Radix.mulAddGuarded?_eq (show 1 < 256 by decide) (by omega) hd hds
      simp only [takeInGuarded?, hc, hstep, Option.bind_eq_bind, Option.bind_some]
      rw [ih (Radix.mulAdd_lt (by decide)), List.find?_cons_of_neg (by simp [hc]),
        List.filterMap_cons_some hc, List.foldl_cons]

theorem head?_filterMap_digit? {text : List Char} (h : text.head? ≠ some (symbol 0))
    (hfind : text.find? (fun c => (digit? c).isNone) = none) :
    (text.filterMap digit?).head? ≠ some 0 := by
  cases text with
  | nil => simp
  | cons c text =>
    have hc := List.find?_eq_none.mp hfind c List.mem_cons_self
    obtain ⟨d, hd⟩ := Option.ne_none_iff_exists'.mp (by simpa using hc)
    rw [List.filterMap_cons_some hd, List.head?_cons]
    intro hzero
    rw [Option.some.inj hzero] at hd
    exact h (congrArg some (digit?_eq_some_iff.mp hd).2.symm)

/-- Zeros in front are copied, and only what follows them is converted. -/
theorem decodeChars_zeros_append {text : List Char} (h : text.head? ≠ some (symbol 0))
    (count : Nat) :
    decodeChars (List.replicate count (symbol 0) ++ text) =
      (text.find? fun c => (digit? c).isNone).elim
        (.ok (List.replicate count 0 ++
          (Radix.convert 58 256 (text.filterMap digit?)).reverse.map UInt8.ofNat))
        fun c => .error (.invalidCharacter c) := by
  have hzero : digit? (symbol 0) = some 0 := digit?_symbol (by decide)
  have hzeros : (List.replicate count (symbol 0)).filterMap digit? = List.replicate count 0 :=
    List.filterMap_replicate_of_some hzero
  have hnone : (List.replicate count (symbol 0)).find? (fun c => (digit? c).isNone) = none := by
    simp [hzero]
  rw [decodeChars, List.find?_append, hnone, Option.none_or, List.filterMap_append, hzeros]
  cases hfind : text.find? fun c => (digit? c).isNone with
  | some c => rfl
  | none =>
    have hcount := Radix.leadingZeros_append (head?_filterMap_digit? h hfind) count
    rw [Radix.leadingZeros] at hcount
    dsimp only
    rw [hcount, List.drop_left' List.length_replicate, Option.elim_none]

theorem decodeGuarded?_eq (hroom : 58 * 256 ≤ room) (text : String) :
    decodeGuarded? room text = some (decode text) := by
  have hsplit := Radix.replicate_append_dropWhile (symbol 0) text.toList
  have hhead : (text.toList.dropWhile (· == symbol 0)).head? ≠ some (symbol 0) := by
    intro h
    simpa [h] using List.head?_dropWhile_not (· == symbol 0) text.toList
  have hdecode := decodeChars_zeros_append hhead (text.toList.takeWhile (· == symbol 0)).length
  rw [hsplit] at hdecode
  have htaken (rest : List Char) :=
    takeInGuarded?_eq hroom rest (show ∀ d ∈ [], d < 256 from nofun)
  rw [decodeGuarded?, Radix.drop_length_takeWhile, htaken, decode, hdecode]
  cases (text.toList.dropWhile (· == symbol 0)).find? fun c => (digit? c).isNone with
  | some c => rfl
  | none => rfl

end Base58

end ClarityWire
