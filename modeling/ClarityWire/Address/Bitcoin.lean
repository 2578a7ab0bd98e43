import ClarityWire.Address.Error

/-!
# Bitcoin addresses

The older addresses that share their hash with Stacks addresses. Their text is checked base 58 of a
version byte and the hash. The version tells kind and network, except that the regression test
network uses the versions of the test network and so is read back as that one.
-/

namespace ClarityWire

/-- What is hashed into a Bitcoin address. -/
inductive BitcoinAddressKind where
  | publicKeyHash
  | scriptHash
  deriving DecidableEq, Repr, Ord

inductive BitcoinNetwork where
  | mainnet
  | testnet
  | regtest
  deriving DecidableEq, Repr, Ord

/-- The version bytes of a network. -/
structure BitcoinVersions where
  publicKeyHash : UInt8
  scriptHash : UInt8
  deriving DecidableEq, Repr

namespace BitcoinVersions

def mainnet : BitcoinVersions := ⟨0, 5⟩

def testnet : BitcoinVersions := ⟨111, 196⟩

end BitcoinVersions

/-- The versions that a network uses. -/
def BitcoinNetwork.versions : BitcoinNetwork → BitcoinVersions
  | .mainnet => .mainnet
  | .testnet => .testnet
  | .regtest => .testnet

structure BitcoinAddress where
  kind : BitcoinAddressKind
  network : BitcoinNetwork
  hash : Hash160
  deriving DecidableEq

namespace BitcoinAddress

/-- The version byte. -/
def version (address : BitcoinAddress) : UInt8 :=
  match address.kind with
  | .publicKeyHash => address.network.versions.publicKeyHash
  | .scriptHash => address.network.versions.scriptHash

/-- The kind and network of a version byte. -/
def ofVersion? (version : UInt8) : Option (BitcoinAddressKind × BitcoinNetwork) :=
  if version = BitcoinVersions.mainnet.publicKeyHash then some (.publicKeyHash, .mainnet)
  else if version = BitcoinVersions.mainnet.scriptHash then some (.scriptHash, .mainnet)
  else if version = BitcoinVersions.testnet.publicKeyHash then some (.publicKeyHash, .testnet)
  else if version = BitcoinVersions.testnet.scriptHash then some (.scriptHash, .testnet)
  else none

/-- The text form. -/
def render (address : BitcoinAddress) : String :=
  Base58.encodeCheck Checksum.sha256d (address.version :: address.hash.1)

/-- Reads the text form. The length of the payload is judged before its version. -/
def ofString (text : String) : Except AddressError BitcoinAddress :=
  match Base58.decodeCheck Checksum.sha256d text with
  | .error e => .error (.base58 e)
  | .ok [] => .error (.invalidLength 0)
  | .ok (version :: hash) =>
    if h : hash.length = 20 then
      match ofVersion? version with
      | some (kind, network) => .ok ⟨kind, network, ⟨hash, h⟩⟩
      | none => .error (.invalidVersion version)
    else
      .error (.invalidLength (hash.length + 1))

/-- Addresses are ordered by kind, then by network, then by hash. -/
instance : Ord BitcoinAddress where
  compare a b :=
    ((compare a.kind b.kind).then (compare a.network b.network)).then
      (Bytes.compare a.hash.1 b.hash.1)

end BitcoinAddress

end ClarityWire
