import ClarityWire.Address.Stacks
import ClarityWire.Name

/-!
# Contracts

A deployed contract is named by its issuer and its contract name. On the wire a contract principal
carries a Clarity name instead, which every contract name is, save the reserved one.
-/

namespace ClarityWire

/-- A deployed contract. -/
structure ContractIdentifier where
  issuer : StacksAddress
  name : ContractName
  deriving DecidableEq

/-- A contract as a value on the wire refers to it. -/
structure ContractPrincipal where
  issuer : StacksAddress
  name : ClarityName
  deriving DecidableEq

/-- Contracts are ordered by issuer, then by name. -/
instance : Ord ContractIdentifier where
  compare a b := (compare a.issuer b.issuer).then (compare a.name b.name)

/-- Contract principals are ordered by issuer, then by name. -/
instance : Ord ContractPrincipal where
  compare a b := (compare a.issuer b.issuer).then (compare a.name b.name)

/-- The issuer and the name, with a point between them. -/
def ContractIdentifier.render (id : ContractIdentifier) : String :=
  id.issuer.render ++ "." ++ id.name.text

namespace ContractPrincipal

/-- The issuer and the name, with a point between them. -/
def render (principal : ContractPrincipal) : String :=
  principal.issuer.render ++ "." ++ principal.name.text

/-- The principal of a deployed contract, if its name is a Clarity name. -/
def ofIdentifier (id : ContractIdentifier) : Except NameError ContractPrincipal :=
  (Name.ofString .clarity id.name.text).map fun name => ⟨id.issuer, name⟩

end ContractPrincipal

end ClarityWire
