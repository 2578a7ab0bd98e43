import ClarityWire.Address.HashMode

/-!
# Stacks addresses

A version byte and a hash. The text form is checked c32 and exists for versions below 32; a version
of 32 or more only ever arrives from the wire, and such an address is shown as the error that its
text form gives.
-/

namespace ClarityWire

structure StacksAddress where
  version : UInt8
  hash : Hash160
  deriving DecidableEq

namespace StacksAddress

/-- An address with a text form. -/
def new (version : UInt8) (hash : Hash160) : Except AddressError StacksAddress :=
  if version.toNat < C32.versionLimit then .ok ⟨version, hash⟩
  else .error (.invalidVersion version)

/-- The address of a hash that was made in a given mode for a given network. -/
def ofMode (mode : HashMode) (mainnet : Bool) (hash : Hash160) : StacksAddress :=
  ⟨AddressVersion.ofMode mode mainnet, hash⟩

/-- Whether the version is one of the main network's. -/
def isMainnet (address : StacksAddress) : Bool :=
  address.version == AddressVersion.mainnetSingle || address.version == AddressVersion.mainnetMulti

/-- The text form. -/
def toC32 (address : StacksAddress) : Except AddressError String :=
  (C32.encodeAddress Checksum.sha256d address.version address.hash.1).mapError .c32

/-- The text form, or the error in its place. -/
def render (address : StacksAddress) : String :=
  match address.toC32 with
  | .ok text => text
  | .error e => "ERROR: " ++ e.message

/-- Reads the text form. -/
def ofString (text : String) : Except AddressError StacksAddress :=
  match C32.decodeAddress Checksum.sha256d text with
  | .error e => .error (.c32 e)
  | .ok (version, payload) =>
    if h : payload.length = 20 then new version ⟨payload, h⟩
    else .error (.invalidLength payload.length)

/-- Addresses are ordered by version, then by hash. -/
instance : Ord StacksAddress where
  compare a b := (compare a.version b.version).then (Bytes.compare a.hash.1 b.hash.1)

end StacksAddress

end ClarityWire
