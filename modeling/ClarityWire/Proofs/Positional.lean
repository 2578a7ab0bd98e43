import ClarityWire.Proofs.Base58
import ClarityWire.Proofs.BigEndian
import ClarityWire.Proofs.C32

/-!
# Positional notation

The digits of a text are the shortest numeral of the number that the bytes denote, behind a zero
digit for each leading zero byte. Bytes fall into leading zeros and a rest in one way, and a number
has one shortest numeral, so this tells the text.
-/

namespace ClarityWire

namespace Radix

variable {base n : Nat} {ds : List Nat}

/-- The digits are those of a number, most significant first, with no zero in front. -/
structure Shortest (base n : Nat) (ds : List Nat) : Prop where
  digits_lt : ∀ d ∈ ds, d < base
  head_ne_zero : ds.head? ≠ some 0
  number_eq : number base ds = n

theorem dropWhile_of_head?_ne_zero (h : ds.head? ≠ some 0) : ds.dropWhile (· == 0) = ds := by
  cases ds with
  | nil => rfl
  | cons d ds => simp_all

theorem shortest_numeral (h : 1 < base) (n : Nat) : Shortest base n (numeral base n) where
  digits_lt := fun _ => numeral_lt h
  head_ne_zero := head?_numeral h n
  number_eq := number_numeral h n

theorem Shortest.eq_numeral (h : 1 < base) (hds : Shortest base n ds) : ds = numeral base n := by
  rw [← hds.number_eq, numeral_number h hds.digits_lt, dropWhile_of_head?_ne_zero hds.head_ne_zero]

/-! ## Byte strings in another base -/

theorem number_map_toNat (bytes : Bytes) :
    number 256 (bytes.map UInt8.toNat) = Bytes.toNat bytes := by
  induction bytes with
  | nil => rfl
  | cons byte bytes ih =>
    rw [List.map_cons, number_cons, ih, List.length_map, Bytes.toNat_cons]

theorem head?_dropWhile_bytes (bytes : Bytes) : (bytes.dropWhile (· == 0)).head? ≠ some 0 := by
  intro h
  have hnot := List.head?_dropWhile_not (· == 0) bytes
  rw [h] at hnot
  exact absurd hnot (by decide)

/-- The digits of a byte string in another base. -/
theorem rebase_map_toNat (h : 1 < base) (bytes : Bytes) : ∃ zeros rest digits,
    bytes = List.replicate zeros 0 ++ rest ∧ rest.head? ≠ some 0 ∧
      Shortest base (Bytes.toNat bytes) digits ∧
        rebase 256 base (bytes.map UInt8.toNat) = List.replicate zeros 0 ++ digits := by
  refine ⟨Bytes.leadingZeros bytes, bytes.dropWhile (· == 0), numeral base (Bytes.toNat bytes),
    (replicate_append_dropWhile 0 bytes).symm, head?_dropWhile_bytes bytes,
    shortest_numeral h _, ?_⟩
  rw [rebase, leadingZeros_map_toNat, number_map_toNat]

theorem leadingZeros_bytes {rest : Bytes} (h : rest.head? ≠ some 0) (zeros : Nat) :
    Bytes.leadingZeros (List.replicate zeros 0 ++ rest) = zeros := by
  have hhead : (rest.map UInt8.toNat).head? ≠ some 0 := by
    cases rest with
    | nil => nofun
    | cons byte rest =>
      intro hzero
      have hbyte : byte.toNat = 0 := Option.some.inj hzero
      exact h (congrArg some (UInt8.toNat_inj.mp hbyte))
  rw [← leadingZeros_map_toNat, List.map_append, List.map_replicate]
  exact leadingZeros_append hhead zeros

/-- A byte string falls into zeros and a rest in one way, and there is one shortest numeral of its
number, so the digits in another base are told by that. -/
theorem rebase_map_toNat_eq_iff (h : 1 < base) {bytes : Bytes} :
    rebase 256 base (bytes.map UInt8.toNat) = ds ↔ ∃ zeros rest digits,
      bytes = List.replicate zeros 0 ++ rest ∧ rest.head? ≠ some 0 ∧
        Shortest base (Bytes.toNat bytes) digits ∧ ds = List.replicate zeros 0 ++ digits := by
  constructor
  · rintro rfl
    exact rebase_map_toNat h bytes
  · rintro ⟨zeros, rest, digits, hsplit, hrest, hdigits, rfl⟩
    have hzeros : Bytes.leadingZeros bytes = zeros := by rw [hsplit, leadingZeros_bytes hrest]
    rw [rebase, leadingZeros_map_toNat, hzeros, number_map_toNat, hdigits.eq_numeral h]

end Radix

namespace C32

/-- **c32 is positional notation in base 32.** The text of a byte string has a `0` for each leading
zero byte, and then the shortest numeral of the number that the bytes denote. -/
theorem encode_positional (bytes : Bytes) : ∃ (zeros : Nat) (rest : Bytes) (digits : List Nat),
    bytes = List.replicate zeros 0 ++ rest ∧ rest.head? ≠ some 0 ∧
      Radix.Shortest 32 (Bytes.toNat bytes) digits ∧
        encode bytes = String.ofList (List.replicate zeros '0' ++
          digits.map fun d => "0123456789ABCDEFGHJKMNPQRSTVWXYZ".toList.getD d '0') := by
  obtain ⟨zeros, rest, digits, hsplit, hrest, hdigits, hrebase⟩ :=
    Radix.rebase_map_toNat (show 1 < 32 by decide) bytes
  refine ⟨zeros, rest, digits, hsplit, hrest, hdigits, ?_⟩
  rw [encode, encodeChars_eq, hrebase, List.map_append, List.map_replicate]
  rfl

example : encode [0, 0, 3, 232] = "00Z8" := by decide

end C32

namespace Base58

/-- **Base 58 is positional notation.** A text is what a byte string is written as exactly if it has
a `1` for each leading zero byte, and then the shortest numeral of the number that the bytes denote,
most significant byte first. -/
theorem encode_eq_iff_shortest (bytes : Bytes) (text : String) :
    encode bytes = text ↔ ∃ (zeros : Nat) (rest : Bytes) (digits : List Nat),
      bytes = List.replicate zeros 0 ++ rest ∧ rest.head? ≠ some 0 ∧
        Radix.Shortest 58 (Bytes.toNat bytes) digits ∧
          text = String.ofList (List.replicate zeros '1' ++ digits.map fun d =>
            "123456789ABCDEFGHJKLMNPQRSTUVWXYZabcdefghijkmnopqrstuvwxyz".toList.getD d '1') := by
  have hencode : encode bytes =
      String.ofList ((Radix.rebase 256 58 (bytes.map UInt8.toNat)).map symbol) := by
    rw [encode, encodeChars_eq]
  have hsymbols (zeros : Nat) (digits : List Nat) :
      (List.replicate zeros 0 ++ digits).map symbol =
        List.replicate zeros '1' ++ digits.map symbol := by
    rw [List.map_append, List.map_replicate]
    rfl
  rw [hencode]
  constructor
  · rintro rfl
    obtain ⟨zeros, rest, digits, hsplit, hrest, hdigits, hrebase⟩ :=
      (Radix.rebase_map_toNat_eq_iff (show 1 < 58 by decide)).mp rfl
    refine ⟨zeros, rest, digits, hsplit, hrest, hdigits, ?_⟩
    rw [hrebase, hsymbols]
    rfl
  · rintro ⟨zeros, rest, digits, hsplit, hrest, hdigits, rfl⟩
    rw [(Radix.rebase_map_toNat_eq_iff (show 1 < 58 by decide)).mpr
      ⟨zeros, rest, digits, hsplit, hrest, hdigits, rfl⟩, hsymbols]
    rfl

example : encode [0, 0, 13, 36] = "11211" := by cbv

end Base58

end ClarityWire
