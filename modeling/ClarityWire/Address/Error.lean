import ClarityWire.Base58
import ClarityWire.C32

/-!
# Address errors

Why a text or a byte is no address, no version or no hash mode.
-/

namespace ClarityWire

inductive AddressError where
  /-- The text is not in the checked c32 form, or the version has no such form. -/
  | c32 (error : C32.Error)
  /-- The text is not in the checked base 58 form. -/
  | base58 (error : Base58.Error)
  /-- The payload has the wrong number of bytes. -/
  | invalidLength (length : Nat)
  /-- No address of this kind has this version. -/
  | invalidVersion (version : UInt8)
  /-- No hash mode has this byte. -/
  | invalidHashMode (mode : UInt8)
  deriving DecidableEq, Repr

namespace AddressError

def message : AddressError → String
  | .c32 e => "c32 error: " ++ e.message
  | .base58 e => "base58 error: " ++ e.message
  | .invalidLength length => "invalid address payload length: " ++ toString length
  | .invalidVersion version => "invalid address version: " ++ toString version.toNat
  | .invalidHashMode mode => "invalid address hash mode: " ++ toString mode.toNat

/-- The texts of the underlying causes, outermost first. -/
def causes : AddressError → List String
  | .c32 e => [e.message]
  | .base58 e => [e.message]
  | _ => []

end AddressError

end ClarityWire
