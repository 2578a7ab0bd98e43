import ClarityWire.Bytes

/-!
# UTF-8

Text is encoded scalar by scalar. Reading goes byte by byte through the well-formed sequences: a
first byte says how many continuation bytes are owed, and the first of those is held to a narrower
range after `E0`, `ED`, `F0` and `F4`, which shuts out overlong forms, surrogates and everything
above `10FFFF`.

`decode?` refuses ill-formed input. `decodeLossy` reads on instead and writes one replacement
character for each ill-formed part, a part being the longest run that could still have begun a
well-formed sequence, or else a single byte.
-/

namespace ClarityWire.Utf8

/-- The encodings of the scalars, one after another. -/
def encode (text : List Char) : Bytes :=
  text.flatMap String.utf8EncodeChar

/-- The encoding of a string. -/
def ofString (text : String) : Bytes :=
  encode text.toList

/-- A sequence under way: the scalar bits gathered so far, the range the next byte has to lie in,
and the number of continuation bytes owed after that one. -/
structure Pending where
  bits : Nat
  low : Nat
  high : Nat
  more : Nat
  deriving DecidableEq, Repr

/-- What one more byte does to the reading of a sequence. -/
inductive Progress where
  /-- The sequence is complete and stands for this scalar. -/
  | scalar (c : Char)
  /-- Continuation bytes are still owed. -/
  | pending (state : Pending)
  /-- No well-formed sequence continues with this byte. -/
  | illFormed
  deriving DecidableEq, Repr

/-- Reads the first byte of a sequence. -/
def first (byte : UInt8) : Progress :=
  let b := byte.toNat
  if b < 0x80 then .scalar (Char.ofNat b)
  else if b < 0xC2 then .illFormed
  else if b < 0xE0 then .pending ⟨b % 32, 0x80, 0xBF, 0⟩
  else if b = 0xE0 then .pending ⟨b % 16, 0xA0, 0xBF, 1⟩
  else if b = 0xED then .pending ⟨b % 16, 0x80, 0x9F, 1⟩
  else if b < 0xF0 then .pending ⟨b % 16, 0x80, 0xBF, 1⟩
  else if b = 0xF0 then .pending ⟨b % 8, 0x90, 0xBF, 2⟩
  else if b < 0xF4 then .pending ⟨b % 8, 0x80, 0xBF, 2⟩
  else if b = 0xF4 then .pending ⟨b % 8, 0x80, 0x8F, 2⟩
  else .illFormed

/-- Reads the next byte of a sequence under way. -/
def Pending.next (state : Pending) (byte : UInt8) : Progress :=
  let b := byte.toNat
  if state.low ≤ b ∧ b ≤ state.high then
    let bits := state.bits * 64 + b % 64
    match state.more with
    | 0 => .scalar (Char.ofNat bits)
    | more + 1 => .pending ⟨bits, 0x80, 0xBF, more⟩
  else
    .illFormed

/-- Reads on, with the scalars already read in reverse in `text`. -/
def decodeFrom (text : List Char) : Option Pending → Bytes → Option (List Char)
  | none, [] => some text.reverse
  | some _, [] => none
  | none, byte :: rest =>
    match first byte with
    | .scalar c => decodeFrom (c :: text) none rest
    | .pending state => decodeFrom text (some state) rest
    | .illFormed => none
  | some state, byte :: rest =>
    match state.next byte with
    | .scalar c => decodeFrom (c :: text) none rest
    | .pending state => decodeFrom text (some state) rest
    | .illFormed => none

@[simp] theorem decodeFrom_nil (text : List Char) :
    decodeFrom text none [] = some text.reverse := by
  rw [decodeFrom]

/-- The scalars a well-formed byte string encodes, and nothing for any other. -/
def decode? (bytes : Bytes) : Option (List Char) :=
  decodeFrom [] none bytes

/-- What stands in for an ill-formed part. -/
def replacement : Char := '\uFFFD'

/-- Reads on past ill-formed parts. A byte that breaks a sequence off starts afresh. -/
def repairFrom (text : List Char) : Option Pending → Bytes → List Char
  | none, [] => text.reverse
  | some _, [] => (replacement :: text).reverse
  | none, byte :: rest =>
    match first byte with
    | .scalar c => repairFrom (c :: text) none rest
    | .pending state => repairFrom text (some state) rest
    | .illFormed => repairFrom (replacement :: text) none rest
  | some state, byte :: rest =>
    match state.next byte with
    | .scalar c => repairFrom (c :: text) none rest
    | .pending state => repairFrom text (some state) rest
    | .illFormed =>
      match first byte with
      | .scalar c => repairFrom (c :: replacement :: text) none rest
      | .pending state => repairFrom (replacement :: text) (some state) rest
      | .illFormed => repairFrom (replacement :: replacement :: text) none rest

/-- The text of any byte string, with a replacement character for each ill-formed part. -/
def decodeLossy (bytes : Bytes) : String :=
  String.ofList (repairFrom [] none bytes)

end ClarityWire.Utf8
