import ClarityWire.Text.Utf8

/-!
# Hexadecimal

Bytes are written as two lowercase digits each and read from digits of either case. A reading
either takes as many bytes as the text has, or insists on a given number of them; in both the
length is checked before any digit, and lengths are counted in bytes of the text.

Writing can be cut short after a given number of digits, which may split the last byte.
-/

namespace ClarityWire.Hex

/-- The digit of a number below sixteen. -/
def digit (n : Nat) : Char :=
  Nat.digitChar n

/-- The value of a digit. -/
def digit? (byte : UInt8) : Option Nat :=
  if '0'.toNat ≤ byte.toNat ∧ byte.toNat ≤ '9'.toNat then some (byte.toNat - '0'.toNat)
  else if 'a'.toNat ≤ byte.toNat ∧ byte.toNat ≤ 'f'.toNat then some (byte.toNat - 'a'.toNat + 10)
  else if 'A'.toNat ≤ byte.toNat ∧ byte.toNat ≤ 'F'.toNat then some (byte.toNat - 'A'.toNat + 10)
  else none

/-- The two digits of a byte. -/
def digitPair (byte : UInt8) : List Char :=
  [digit (byte.toNat / 16), digit (byte.toNat % 16)]

/-- The digits of a byte string. -/
def digits (bytes : Bytes) : List Char :=
  bytes.flatMap digitPair

/-- The hexadecimal text of a byte string. -/
def encode (bytes : Bytes) : String :=
  String.ofList (digits bytes)

/-- At most `limit` digits of a byte string: the whole bytes that fit and, where the limit falls
inside a byte, the high half of it. -/
def truncatedDigits (bytes : Bytes) (limit : Nat) : List Char :=
  digits (bytes.take (limit / 2)) ++
    if h : limit < 2 * bytes.length ∧ limit % 2 = 1 then
      [digit (bytes[limit / 2].toNat / 16)]
    else []

/-- The hexadecimal text of a byte string, cut after `limit?` digits if a limit is given. -/
def encodeTruncated (bytes : Bytes) (limit? : Option Nat) : String :=
  String.ofList (truncatedDigits bytes (limit?.getD (2 * bytes.length)))

/-- Why a text of any length is not hexadecimal. -/
inductive Error where
  /-- The number of bytes is odd. -/
  | oddLength (length : Nat)
  /-- The first byte that is no digit. -/
  | invalidDigit (byte : UInt8)
  deriving DecidableEq, Repr

def Error.message : Error → String
  | .oddLength _ => "odd length, failed to create bytes from hex"
  | .invalidDigit _ => "invalid char, failed to create bytes from hex"

/-- The texts of the underlying causes, outermost first. -/
def Error.causes : Error → List String
  | .oddLength length => ["odd hex string length " ++ toString length]
  | .invalidDigit byte => ["invalid hex char " ++ toString byte.toNat]

/-- Why a text is not the hexadecimal form of a given number of bytes. -/
inductive SizedError where
  /-- The text has the wrong length. -/
  | wrongLength (actual expected : Nat)
  /-- The first byte that is no digit. -/
  | invalidDigit (byte : UInt8)
  deriving DecidableEq, Repr

def SizedError.message : SizedError → String
  | .wrongLength _ _ => "failed to parse hex"
  | .invalidDigit _ => "failed to parse hex digit"

/-- The texts of the underlying causes, outermost first. -/
def SizedError.causes : SizedError → List String
  | .wrongLength actual expected =>
    ["invilad hex string length " ++ toString actual ++ " (expected " ++ toString expected ++ ")"]
  | .invalidDigit byte => ["invalid hex char " ++ toString byte.toNat]

/-- The values of the digits, or the first byte that is none. -/
def digitValues : Bytes → Except UInt8 (List Nat)
  | [] => .ok []
  | byte :: rest =>
    match digit? byte with
    | some value => (digitValues rest).map (value :: ·)
    | none => .error byte

/-- Joins digit values pairwise; a value left over is dropped. -/
def joinPairs : List Nat → Bytes
  | high :: low :: rest => UInt8.ofNat (high * 16 + low) :: joinPairs rest
  | _ => []

/-- Reads hexadecimal text of any even length. -/
def decode (text : String) : Except Error Bytes :=
  let bytes := Utf8.ofString text
  if bytes.length % 2 = 1 then
    .error (.oddLength bytes.length)
  else
    match digitValues bytes with
    | .ok values => .ok (joinPairs values)
    | .error byte => .error (.invalidDigit byte)

theorem length_of_digitValues {bytes : Bytes} {values : List Nat}
    (h : digitValues bytes = .ok values) : values.length = bytes.length := by
  induction bytes generalizing values with
  | nil => cases h; rfl
  | cons byte rest ih =>
    unfold digitValues at h
    split at h
    · cases hr : digitValues rest with
      | error e => simp [hr, Except.map] at h
      | ok tail =>
        simp only [hr, Except.map, Except.ok.injEq] at h
        simp [← h, ih hr]
    · cases h

theorem length_joinPairs (values : List Nat) : (joinPairs values).length = values.length / 2 := by
  fun_induction joinPairs values with
  | case1 high low rest ih => simp [ih]; omega
  | case2 values h =>
    match values, h with
    | [], _ => rfl
    | [_], _ => simp
    | high :: low :: rest, h => exact absurd rfl (h high low rest)

/-- Reads the hexadecimal text of exactly `size` bytes. -/
def decodeSized (size : Nat) (text : String) : Except SizedError (Block size) :=
  let bytes := Utf8.ofString text
  if hb : bytes.length = 2 * size then
    match hv : digitValues bytes with
    | .ok values =>
      .ok ⟨joinPairs values, by rw [length_joinPairs, length_of_digitValues hv, hb]; omega⟩
    | .error byte => .error (.invalidDigit byte)
  else
    .error (.wrongLength bytes.length (2 * size))

end ClarityWire.Hex
