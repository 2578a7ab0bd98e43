import ClarityWire.Proofs.C32Checked
import ClarityWire.Proofs.GuardedLoops

/-!
# Checked texts in buffers

Reading a checked text looks up its first byte, cuts it behind that byte and cuts the checksum off
the bytes that were read. By then the text is known to be ASCII and both are known to be long
enough, so every look-up and every cut lies inside and between characters. Together with the digit
loops this makes all of writing and reading free of faults.
-/

namespace ClarityWire

open Guarded

namespace C32

variable {checksum : Bytes → Checksum}

/-- The payload of the bytes behind a version, if these end in the checksum of both. -/
def verifiedGuarded? (checksum : Bytes → Checksum) (version : UInt8) (bytes : Bytes) :
    Option (Except Error (UInt8 × Bytes)) := do
  match ← splitChecksum? bytes with
  | none => return .error (.tooShort bytes.length)
  | some (payload, carried) =>
    let computed := checksum (version :: payload)
    if computed = carried then return .ok (version, payload)
    else return .error (.checksumMismatch computed carried)

/-- Reads checked text by the positions of its bytes, with every operation guarded. -/
def decodeCheckGuarded? (checksum : Bytes → Checksum) (text : String) :
    Option (Except Error (UInt8 × Bytes)) :=
  match requireAscii text.toList with
  | .error e => some (.error e)
  | .ok _ =>
    let bytes := Utf8.ofString text
    if bytes.length < 2 then
      some (.error (.tooShort bytes.length))
    else do
      let first ← bytes[0]?
      match digit? (Char.ofNat first.toNat) with
      | none => return .error (.invalidCharacter (Char.ofNat first.toNat))
      | some digit =>
        let body ← sliceFrom? text 1
        match ← decodeGuarded? body with
        | .error e => return .error e
        | .ok packed => verifiedGuarded? checksum (UInt8.ofNat digit) packed

/-- Reads address text by the positions of its bytes, with every operation guarded. -/
def decodeAddressGuarded? (checksum : Bytes → Checksum) (text : String) :
    Option (Except Error (UInt8 × Bytes)) :=
  match requireAscii text.toList with
  | .error e => some (.error e)
  | .ok _ =>
    let bytes := Utf8.ofString text
    if bytes.length ≤ 5 then
      some (.error (.tooShort bytes.length))
    else do
      let body ← sliceFrom? text 1
      decodeCheckGuarded? checksum body

theorem verifiedGuarded?_eq (version : UInt8) (bytes : Bytes) :
    verifiedGuarded? checksum version bytes = some (verified checksum version bytes) := by
  rw [verifiedGuarded?, splitChecksum?_eq, Option.bind_eq_bind, Option.bind_some, verified]
  cases Checksum.split? bytes with
  | none => rfl
  | some parts => exact (apply_ite some _ _ _).symm

/-- The bytes of a text of ASCII are its characters. -/
theorem ofString_of_requireAscii {text : List Char} (h : requireAscii text = .ok ()) :
    Utf8.ofString (String.ofList text) = text.map fun c => UInt8.ofNat c.toNat := by
  rw [Utf8.ofString, String.toList_ofList]
  apply encode_of_ascii
  intro c hc
  exact of_decide_eq_true (requireAscii_eq_ok_iff.mp h c hc)

theorem decodeCheckGuarded?_ofList (text : List Char) :
    decodeCheckGuarded? checksum (String.ofList text) = some (decodeCheckChars checksum text) := by
  rw [decodeCheckGuarded?, String.toList_ofList]
  cases hascii : requireAscii text with
  | error e =>
    unfold decodeCheckChars
    rw [hascii]
    rfl
  | ok _ =>
    have hbytes := ofString_of_requireAscii hascii
    match text with
    | [] => rfl
    | [c] =>
      unfold decodeCheckChars
      rw [hascii, hbytes]
      rfl
    | first :: next :: rest =>
      have hfirst : first.toNat < 128 :=
        of_decide_eq_true (requireAscii_eq_ok_iff.mp hascii first List.mem_cons_self)
      rw [decodeCheckChars_cons, hascii, hbytes]
      dsimp only
      rw [if_neg (by simp)]
      simp only [List.map_cons, List.getElem?_cons_zero, Option.bind_eq_bind, Option.bind_some,
        ofNat_toNat_byte hfirst]
      cases digit? first with
      | none => rfl
      | some digit =>
        simp only [sliceFrom?_one hfirst, Option.bind_some, decodeGuarded?_eq, decode,
          String.toList_ofList]
        cases decodeChars (next :: rest) with
        | error e => rfl
        | ok packed => exact verifiedGuarded?_eq _ packed

theorem decodeCheckGuarded?_eq (text : String) :
    decodeCheckGuarded? checksum text = some (decodeCheck checksum text) := by
  rw [← String.ofList_toList (s := text), decodeCheckGuarded?_ofList, decodeCheck,
    String.toList_ofList]

theorem decodeAddress_ofList (text : List Char) :
    decodeAddress checksum (String.ofList text) = requireAscii text >>= fun _ =>
      if text.length ≤ 5 then .error (.tooShort text.length)
      else decodeCheckChars checksum (text.drop 1) := by
  unfold decodeAddress
  rw [String.toList_ofList]
  rfl

theorem decodeAddressGuarded?_ofList (text : List Char) :
    decodeAddressGuarded? checksum (String.ofList text) =
      some (decodeAddress checksum (String.ofList text)) := by
  rw [decodeAddressGuarded?, String.toList_ofList, decodeAddress_ofList]
  cases hascii : requireAscii text with
  | error e => rfl
  | ok _ =>
    have hlength : (Utf8.ofString (String.ofList text)).length = text.length := by
      rw [ofString_of_requireAscii hascii, List.length_map]
    dsimp only
    rw [hlength]
    change _ = some (if text.length ≤ 5 then _ else _)
    split
    · rfl
    · next hlong =>
      match text with
      | [] => exact absurd hlong (by simp)
      | first :: body =>
        have hfirst : first.toNat < 128 :=
          of_decide_eq_true (requireAscii_eq_ok_iff.mp hascii first List.mem_cons_self)
        rw [sliceFrom?_one hfirst]
        exact decodeCheckGuarded?_ofList body

theorem decodeAddressGuarded?_eq (text : String) :
    decodeAddressGuarded? checksum text = some (decodeAddress checksum text) := by
  rw [← String.ofList_toList (s := text), decodeAddressGuarded?_ofList]

end C32

namespace Base58

variable {checksum : Bytes → Checksum} {room : Nat}

/-- Reads checked text by the positions of its bytes, with every operation guarded. -/
def decodeCheckGuarded? (checksum : Bytes → Checksum) (room : Nat) (text : String) :
    Option (Except Error Bytes) := do
  match ← decodeGuarded? room text with
  | .error e => return .error e
  | .ok bytes =>
    match ← splitChecksum? bytes with
    | none => return .error (.tooShort bytes.length)
    | some (payload, carried) =>
      let computed := checksum payload
      if computed = carried then return .ok payload
      else return .error (.checksumMismatch computed carried)

theorem decodeCheckGuarded?_eq (hroom : 58 * 256 ≤ room) (text : String) :
    decodeCheckGuarded? checksum room text = some (decodeCheck checksum text) := by
  rw [decodeCheckGuarded?, decodeGuarded?_eq hroom, Option.bind_eq_bind, Option.bind_some,
    decodeCheck]
  cases decode text with
  | error e => rfl
  | ok bytes =>
    dsimp only
    rw [splitChecksum?_eq, Option.bind_eq_bind, Option.bind_some]
    cases Checksum.split? bytes with
    | none => rfl
    | some parts => exact (apply_ite some _ _ _).symm

end Base58

/-- **Text codecs never fault.** On entry to every round the loops of c32 hold fewer bits than a
unit has, and the digits of base 58 stay below 58. Whatever bytes are written and whatever text is
read, no guarded operation fails, and the result is that of the unguarded computation. In base 58
the carry takes no more room than the numbers below 58 · 256. -/
theorem Guarded.textCodecs_neverFault (checksum : Bytes → Checksum) :
    (∀ bytes : Bytes, (bytes.foldr C32.Packing.pushByte .empty).EntersByte) ∧
      (∀ bytes : Bytes, C32.encodeGuarded? bytes = some (C32.encode bytes)) ∧
      (∀ digits : List Nat, (∀ d ∈ digits, d < 32) →
        (digits.foldr C32.Packing.pushDigit .empty).EntersDigit ∧
          C32.packDigitsGuarded? digits = some (C32.packDigits digits)) ∧
      (∀ text : String, C32.decodeGuarded? text = some (C32.decode text) ∧
        C32.decodeCheckGuarded? checksum text = some (C32.decodeCheck checksum text) ∧
          C32.decodeAddressGuarded? checksum text = some (C32.decodeAddress checksum text)) ∧
      (∀ (bytes : Bytes), ∀ d ∈ Radix.convert 256 58 (bytes.map UInt8.toNat), d < 58) ∧
      ∀ room, 58 * 256 ≤ room →
        (∀ bytes : Bytes, Base58.encodeGuarded? room bytes = some (Base58.encode bytes)) ∧
          ∀ text : String, Base58.decodeGuarded? room text = some (Base58.decode text) ∧
            Base58.decodeCheckGuarded? checksum room text =
              some (Base58.decodeCheck checksum text) := by
  refine ⟨?_, C32.encodeGuarded?_eq, ?_, ?_, ?_, ?_⟩
  · intro bytes
    exact (C32.Packing.settled_bytes bytes).entersByte
  · intro digits h
    exact ⟨(C32.Packing.settled_digits h).entersDigit, C32.packDigitsGuarded?_eq h⟩
  · intro text
    exact ⟨C32.decodeGuarded?_eq text, C32.decodeCheckGuarded?_eq text,
      C32.decodeAddressGuarded?_eq text⟩
  · intro bytes
    exact Radix.convert_lt (by decide) (by decide)
  · intro room hroom
    refine ⟨Base58.encodeGuarded?_eq hroom, ?_⟩
    intro text
    exact ⟨Base58.decodeGuarded?_eq hroom text, Base58.decodeCheckGuarded?_eq hroom text⟩

theorem Guarded.textCodecs_neverFault_word32 :
    (∀ d ∈ [31, 0, 31], d < 32) ∧
      C32.packDigitsGuarded? [31, 0, 31] = some [0x7C, 0x1F] ∧ 58 * 256 ≤ 2 ^ 32 ∧
        Base58.encodeGuarded? (2 ^ 32) [57, 255] = some (Base58.encode [57, 255]) := by
  obtain ⟨-, -, hdigits, -, -, hroom⟩ := Guarded.textCodecs_neverFault Checksum.sha256d
  have hlt : ∀ d ∈ [31, 0, 31], d < 32 := by decide
  have hword : 58 * 256 ≤ 2 ^ 32 := by decide
  exact ⟨hlt, (hdigits _ hlt).2, hword, (hroom _ hword).1 _⟩

-- The bound is exact: the largest digit and the largest byte together just fit.
example : Base58.encodeGuarded? (58 * 256 - 1) [57, 255] = none := by cbv

end ClarityWire
