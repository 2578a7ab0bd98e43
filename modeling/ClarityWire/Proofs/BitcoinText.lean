import ClarityWire.Address.Bitcoin
import ClarityWire.Proofs.Base58

/-!
# Bitcoin addresses as text

Base 58 with a checksum loses nothing, so a text is read as the one address that it is the text of,
but for the network: the version in front of the hash does not tell the test networks apart.
-/

namespace ClarityWire

/-- The network that is read where this one is written. -/
def BitcoinNetwork.readBack : BitcoinNetwork → BitcoinNetwork
  | .mainnet => .mainnet
  | .testnet => .testnet
  | .regtest => .testnet

/-- The address that is read of the text of this one. -/
def BitcoinAddress.readBack (address : BitcoinAddress) : BitcoinAddress :=
  { address with network := address.network.readBack }

namespace BitcoinAddress

variable {address other : BitcoinAddress} {text : String} {version : UInt8}

/-! ## Versions -/

@[simp] theorem version_readBack (address : BitcoinAddress) :
    address.readBack.version = address.version := by
  obtain ⟨kind, network, hash⟩ := address
  cases network <;> rfl

theorem network_readBack_ne (address : BitcoinAddress) : address.readBack.network ≠ .regtest := by
  obtain ⟨kind, network, hash⟩ := address
  cases network <;> nofun

/-- A version tells kind and network of the addresses that have it, the last network left aside. -/
theorem ofVersion?_eq_some_iff :
    ofVersion? version = some (address.kind, address.network) ↔
      address.network ≠ .regtest ∧ address.version = version := by
  obtain ⟨kind, network, hash⟩ := address
  constructor
  · intro h
    rw [ofVersion?] at h
    split_ifs at h with h1 h2 h3 h4 <;> cases h
    · exact ⟨nofun, h1.symm⟩
    · exact ⟨nofun, h2.symm⟩
    · exact ⟨nofun, h3.symm⟩
    · exact ⟨nofun, h4.symm⟩
  · rintro ⟨hnetwork, rfl⟩
    cases network
    · cases kind <;> rfl
    · cases kind <;> rfl
    · exact absurd rfl hnetwork

theorem ofVersion?_eq_none_iff :
    ofVersion? version = none ↔ ∀ network : BitcoinNetwork,
      version ≠ network.versions.publicKeyHash ∧ version ≠ network.versions.scriptHash := by
  constructor
  · intro h
    rw [ofVersion?] at h
    split_ifs at h with h1 h2 h3 h4
    intro network
    cases network
    · exact ⟨h1, h2⟩
    · exact ⟨h3, h4⟩
    · exact ⟨h3, h4⟩
  · intro h
    obtain ⟨h1, h2⟩ := h .mainnet
    obtain ⟨h3, h4⟩ := h .testnet
    exact (if_neg h1).trans ((if_neg h2).trans ((if_neg h3).trans (if_neg h4)))

/-! ## Reading -/

/-- What may be read of a text: nothing if it is not in the checked form, and else the address whose
text it is, unless its payload is too long or too short or starts with no version. -/
inductive Reading : String → Except AddressError BitcoinAddress → Prop where
  | refused {text : String} {e : Base58.Error}
    (h : Base58.decodeCheck Checksum.sha256d text = .error e) : Reading text (.error (.base58 e))
  | wrongLength {payload : Bytes} (h : payload.length ≠ 21) :
    Reading (Base58.encodeCheck Checksum.sha256d payload) (.error (.invalidLength payload.length))
  | wrongVersion {version : UInt8} (hash : Hash160) (h : ofVersion? version = none) :
    Reading (Base58.encodeCheck Checksum.sha256d (version :: hash.1))
      (.error (.invalidVersion version))
  | address {address : BitcoinAddress} (h : address.network ≠ .regtest) :
    Reading address.render (.ok address)

theorem Reading.ofString_eq {answer : Except AddressError BitcoinAddress}
    (h : Reading text answer) : ofString text = answer := by
  cases h with
  | refused h => rw [ofString, h]
  | @wrongLength payload h =>
    rw [ofString, Base58.decodeCheck_eq_ok_iff.mpr rfl]
    cases payload with
    | nil => rfl
    | cons version hash =>
      have hhash : hash.length ≠ 20 := fun heq => h (congrArg Nat.succ heq)
      exact dif_neg hhash
  | @wrongVersion version hash h =>
    rw [ofString, Base58.decodeCheck_eq_ok_iff.mpr rfl]
    simp only [hash.2, h]
    rfl
  | @address found h =>
    have hversion := ofVersion?_eq_some_iff.mpr ⟨h, rfl⟩
    rw [ofString, render, Base58.decodeCheck_eq_ok_iff.mpr rfl]
    simp only [found.hash.2, hversion]
    rfl

theorem exists_reading (text : String) : ∃ answer, Reading text answer := by
  cases hread : Base58.decodeCheck Checksum.sha256d text with
  | error e => exact ⟨_, .refused hread⟩
  | ok payload =>
    obtain rfl := Base58.decodeCheck_eq_ok_iff.mp hread
    by_cases hlength : payload.length = 21
    · obtain ⟨version, hash, rfl⟩ := List.exists_cons_of_length_eq_add_one hlength
      have hhash : hash.length = 20 := Nat.succ.inj hlength
      cases hversion : ofVersion? version with
      | none => exact ⟨_, .wrongVersion ⟨hash, hhash⟩ hversion⟩
      | some found =>
        let address : BitcoinAddress := ⟨found.1, found.2, hash, hhash⟩
        obtain ⟨hnetwork, rfl⟩ := (ofVersion?_eq_some_iff.mp hversion :
          address.network ≠ .regtest ∧ address.version = version)
        exact ⟨.ok address, .address hnetwork⟩
    · exact ⟨_, .wrongLength hlength⟩

theorem ofString_eq_iff {answer : Except AddressError BitcoinAddress} :
    ofString text = answer ↔ Reading text answer := by
  constructor
  · rintro rfl
    obtain ⟨answer, h⟩ := exists_reading text
    rwa [h.ofString_eq]
  · exact Reading.ofString_eq

theorem ofString_eq_ok_iff :
    ofString text = .ok address ↔ address.network ≠ .regtest ∧ address.render = text := by
  rw [ofString_eq_iff]
  constructor
  · intro h
    cases h with
    | address h => exact ⟨h, rfl⟩
  · rintro ⟨h, rfl⟩
    exact .address h

theorem ofString_eq_invalidLength_iff {n : Nat} :
    ofString text = .error (.invalidLength n) ↔
      n ≠ 21 ∧ ∃ payload : Bytes, payload.length = n ∧
        Base58.encodeCheck Checksum.sha256d payload = text := by
  rw [ofString_eq_iff]
  constructor
  · intro h
    cases h with
    | wrongLength h => exact ⟨h, _, rfl, rfl⟩
  · rintro ⟨h, payload, rfl, rfl⟩
    exact .wrongLength h

theorem ofString_eq_invalidVersion_iff :
    ofString text = .error (.invalidVersion version) ↔
      (∀ network : BitcoinNetwork,
        version ≠ network.versions.publicKeyHash ∧ version ≠ network.versions.scriptHash) ∧
        ∃ hash : Hash160, Base58.encodeCheck Checksum.sha256d (version :: hash.1) = text := by
  rw [ofString_eq_iff, ← ofVersion?_eq_none_iff]
  constructor
  · intro h
    cases h with
    | wrongVersion hash h => exact ⟨h, hash, rfl⟩
  · rintro ⟨h, hash, rfl⟩
    exact .wrongVersion hash h

/-! ## Showing, then reading -/

theorem render_readBack (address : BitcoinAddress) : address.readBack.render = address.render := by
  rw [render, version_readBack]
  rfl

theorem ofString_render (address : BitcoinAddress) :
    ofString address.render = .ok address.readBack := by
  rw [ofString_eq_ok_iff]
  exact ⟨network_readBack_ne address, render_readBack address⟩

theorem render_eq_render_iff :
    address.render = other.render ↔ address.readBack = other.readBack := by
  constructor
  · intro h
    have hread := ofString_render address
    rw [h, ofString_render] at hread
    exact (Except.ok.inj hread).symm
  · intro h
    rw [← render_readBack, h, render_readBack]

/-- **One text to an address, but for the test networks.** A text is read as an address exactly if
it is the text of the address, whose network is then not the one that is read back as another. Every
address is read back with its kind, its hash and the network that stands for its own, and those are
what two addresses of one text agree in. Checked texts that are refused have a payload of another
length, or one that starts with a version of no network. -/
theorem ofString_upToNetwork :
    (∀ (text : String) (address : BitcoinAddress),
        ofString text = .ok address ↔ address.network ≠ .regtest ∧ address.render = text) ∧
      (∀ address : BitcoinAddress,
        ofString address.render = .ok { address with network := address.network.readBack }) ∧
      (∀ address other : BitcoinAddress, address.render = other.render ↔
        address.kind = other.kind ∧ address.hash = other.hash ∧
          address.network.readBack = other.network.readBack) ∧
      (∀ (text : String) (n : Nat), ofString text = .error (.invalidLength n) ↔
        n ≠ 21 ∧ ∃ payload : Bytes, payload.length = n ∧
          Base58.encodeCheck Checksum.sha256d payload = text) ∧
      ∀ (text : String) (version : UInt8), ofString text = .error (.invalidVersion version) ↔
        (∀ network : BitcoinNetwork,
          version ≠ network.versions.publicKeyHash ∧ version ≠ network.versions.scriptHash) ∧
          ∃ hash : Hash160, Base58.encodeCheck Checksum.sha256d (version :: hash.1) = text := by
  refine ⟨?_, ?_, ?_, ?_, ?_⟩
  · intro text address
    exact ofString_eq_ok_iff
  · intro address
    exact ofString_render address
  · intro address other
    rw [render_eq_render_iff, readBack, readBack, mk.injEq]
    tauto
  · intro text n
    exact ofString_eq_invalidLength_iff
  · intro text version
    exact ofString_eq_invalidVersion_iff

end BitcoinAddress

end ClarityWire
