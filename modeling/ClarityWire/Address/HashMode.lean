import ClarityWire.Address.Error

/-!
# Hash modes

How a public key or a script was hashed into the twenty bytes of an address. The mode decides
between the two address versions of a network: modes that hash one public key use the single
signature version, all others the multiple signature version.
-/

namespace ClarityWire

/-- The ways to hash a key or a script. -/
inductive HashMode where
  | p2pkh
  | p2sh
  | p2wpkh
  | p2wsh
  | p2shNonSequential
  | p2wshNonSequential
  deriving DecidableEq, Repr

namespace HashMode

/-- The byte a mode is known by. -/
def toByte : HashMode → UInt8
  | .p2pkh => 0
  | .p2sh => 1
  | .p2wpkh => 2
  | .p2wsh => 3
  | .p2shNonSequential => 5
  | .p2wshNonSequential => 7

/-- The mode of a byte. -/
def ofByte (byte : UInt8) : Except AddressError HashMode :=
  match byte.toNat with
  | 0 => .ok .p2pkh
  | 1 => .ok .p2sh
  | 2 => .ok .p2wpkh
  | 3 => .ok .p2wsh
  | 5 => .ok .p2shNonSequential
  | 7 => .ok .p2wshNonSequential
  | _ => .error (.invalidHashMode byte)

/-- Whether one public key is hashed. -/
def isSingleSignature : HashMode → Bool
  | .p2pkh | .p2wpkh => true
  | _ => false

end HashMode

namespace AddressVersion

/-- Single signature on the main network; addresses start with `SP`. -/
def mainnetSingle : UInt8 := 22

/-- Multiple signature on the main network; addresses start with `SM`. -/
def mainnetMulti : UInt8 := 20

/-- Single signature on the test network; addresses start with `ST`. -/
def testnetSingle : UInt8 := 26

/-- Multiple signature on the test network; addresses start with `SN`. -/
def testnetMulti : UInt8 := 21

/-- The version for a mode and a network. -/
def ofMode (mode : HashMode) (mainnet : Bool) : UInt8 :=
  match mainnet, mode.isSingleSignature with
  | true, true => mainnetSingle
  | true, false => mainnetMulti
  | false, true => testnetSingle
  | false, false => testnetMulti

end AddressVersion

end ClarityWire
