import ClarityWire.Proofs.NameReading
import ClarityWire.Proofs.ValueTree

/-!
# Contracts as principals

Every contract name but the reserved one is a Clarity name as well, and the Clarity names that are
contract names are the short words without any of the further marks. So a deployed contract has a
principal unless it is the transient one, and the principal says what the contract says.
-/

namespace ClarityWire

/-! ## Names of both kinds -/

theorem Word.mono {marks wider text : String} (h : Word marks text)
    (hmarks : marks.toList ⊆ wider.toList) : Word wider text := by
  obtain ⟨first, rest, htext, hfirst, hrest⟩ := h
  refine ⟨first, rest, htext, hfirst, ?_⟩
  intro c hc
  exact (hrest c hc).imp_right fun hmark => hmarks hmark

theorem Word.length_pos {marks text : String} (h : Word marks text) :
    1 ≤ (Utf8.ofString text).length := by
  obtain ⟨first, rest, htext, -, -⟩ := h
  have hsize : 1 ≤ (String.utf8EncodeChar first).length := by
    rw [String.length_utf8EncodeChar]
    exact first.utf8Size_pos
  rw [Utf8.ofString, htext, Utf8.encode_cons, List.length_append]
  omega

namespace Name

variable {text : String}

private theorem not_accepts_transient : ¬ NameKind.clarity.accepts transientContractName := by
  decide

/-- The texts that are names of both kinds. -/
theorem accepts_both_iff :
    NameKind.contract.accepts text ∧ NameKind.clarity.accepts text ↔
      Word "-_" text ∧ (Utf8.ofString text).length ≤ 40 := by
  constructor
  · intro h
    rcases accepts_iff_grammar.mp h.1 with hreserved | hword
    · rw [hreserved] at h
      exact absurd h.2 not_accepts_transient
    · exact ⟨hword.1, hword.2.2⟩
  · intro h
    have hwide : Word "-_!?+<>=/*" text := h.1.mono (by decide)
    exact ⟨accepts_iff_grammar.mpr (.inr ⟨h.1, h.1.length_pos, h.2⟩),
      accepts_iff_grammar.mpr (.inr ⟨hwide, by omega⟩)⟩

/-- Of the contract names only the reserved one is no Clarity name. -/
theorem accepts_clarity_iff (h : NameKind.contract.accepts text) :
    NameKind.clarity.accepts text ↔ text ≠ transientContractName := by
  constructor
  · intro hclarity heq
    rw [heq] at hclarity
    exact not_accepts_transient hclarity
  · intro hne
    rcases accepts_iff_grammar.mp h with hreserved | hword
    · exact absurd hreserved hne
    · exact (accepts_both_iff.mpr ⟨hword.1, hword.2.2⟩).2

end Name

/-! ## Principals of contracts -/

/-- A contract principal comes back from its bytes. -/
theorem Value.decode_toBytes_contract (principal : ContractPrincipal) :
    Value.decoder.decode (Value.contract principal).toBytes = .ok (.contract principal) := by
  have htree : (Value.contract principal).tree = .atom (.contract principal) := by rw [Value.tree]
  rw [Value.toBytes_eq, htree, Value.decode_eq_ok_iff_tree]
  exact ⟨.atom (.contract principal), rfl, rfl, rfl⟩

namespace ContractPrincipal

variable {id : ContractIdentifier} {principal : ContractPrincipal}

/-- The principal of a contract is the one with the same issuer and the same name. -/
theorem ofIdentifier_eq_ok_iff :
    ofIdentifier id = .ok principal ↔
      principal.issuer = id.issuer ∧ principal.name.text = id.name.text := by
  obtain ⟨issuer, name⟩ := principal
  rw [ofIdentifier]
  constructor
  · intro h
    cases hname : Name.ofString .clarity id.name.text with
    | error e =>
      rw [hname] at h
      cases h
    | ok read =>
      rw [hname] at h
      cases h
      exact ⟨rfl, Name.text_of_ofString hname⟩
  · intro h
    rw [← h.1, ← h.2, Name.ofString_text]
    rfl

theorem ofIdentifier_of_transient (h : id.name.text = transientContractName) :
    ofIdentifier id = .error (.invalidName .clarity transientContractName) := by
  have hrefused : Name.ofString .clarity transientContractName =
      .error (.invalidName .clarity transientContractName) := by
    rfl
  rw [ofIdentifier, h, hrefused]
  rfl

theorem exists_ofIdentifier (h : id.name.text ≠ transientContractName) :
    ∃ principal, ofIdentifier id = .ok principal := by
  have haccepts := (Name.accepts_clarity_iff id.name.accepted).mpr h
  exact ⟨⟨id.issuer, id.name.text, haccepts⟩, ofIdentifier_eq_ok_iff.mpr ⟨rfl, rfl⟩⟩

theorem ofIdentifier_eq_error_iff {e : NameError} :
    ofIdentifier id = .error e ↔
      id.name.text = transientContractName ∧ e = .invalidName .clarity transientContractName := by
  by_cases h : id.name.text = transientContractName
  · simp [ofIdentifier_of_transient h, h, eq_comm]
  · obtain ⟨principal, hprincipal⟩ := exists_ofIdentifier h
    simp [hprincipal, h]

/-- A principal is that of a contract if its name is a contract name. -/
theorem exists_eq_ofIdentifier_iff :
    (∃ id, ofIdentifier id = .ok principal) ↔ NameKind.contract.accepts principal.name.text := by
  constructor
  · intro h
    obtain ⟨id, hid⟩ := h
    rw [(ofIdentifier_eq_ok_iff.mp hid).2]
    exact id.name.accepted
  · intro h
    exact ⟨⟨principal.issuer, principal.name.text, h⟩, ofIdentifier_eq_ok_iff.mpr ⟨rfl, rfl⟩⟩

theorem render_eq (h : ofIdentifier id = .ok principal) : principal.render = id.render := by
  obtain ⟨hissuer, hname⟩ := ofIdentifier_eq_ok_iff.mp h
  rw [render, ContractIdentifier.render, hissuer, hname]

/-- **Contracts become principals without loss.** There is no principal for the transient contract,
and for any other there is one with the same issuer, name and text that comes back from its bytes.
The principals that arise so are those whose name is a word of at most 40 bytes with no marks but
`-` and `_`. -/
theorem ofIdentifier_lossless :
    (∀ (id : ContractIdentifier) (e : NameError), ofIdentifier id = .error e ↔
        id.name.text = "__transient" ∧ e = .invalidName .clarity "__transient") ∧
      (∀ id : ContractIdentifier, id.name.text ≠ "__transient" → ∃ principal,
        ofIdentifier id = .ok principal ∧ principal.issuer = id.issuer ∧
          principal.name.text = id.name.text ∧ principal.render = id.render ∧
            Value.decoder.decode (Value.contract principal).toBytes = .ok (.contract principal)) ∧
      ∀ principal : ContractPrincipal, (∃ id, ofIdentifier id = .ok principal) ↔
        Word "-_" principal.name.text ∧ (Utf8.ofString principal.name.text).length ≤ 40 := by
  refine ⟨?_, ?_, ?_⟩
  · intro id e
    exact ofIdentifier_eq_error_iff
  · intro id h
    obtain ⟨principal, hprincipal⟩ := exists_ofIdentifier h
    obtain ⟨hissuer, hname⟩ := ofIdentifier_eq_ok_iff.mp hprincipal
    exact ⟨principal, hprincipal, hissuer, hname, render_eq hprincipal,
      Value.decode_toBytes_contract principal⟩
  · intro principal
    have hclarity := principal.name.accepted
    rw [exists_eq_ofIdentifier_iff, ← Name.accepts_both_iff]
    simp [hclarity]

/-- A contract of an account whose version has no text form. -/
def unprintableVault : ContractIdentifier :=
  ⟨⟨0x5D, List.replicate 20 0x6B, rfl⟩, "vault-v2_b", by decide⟩

theorem ofIdentifier_lossless_unprintableVault :
    unprintableVault.name.text ≠ "__transient" ∧ ∃ principal,
      ofIdentifier unprintableVault = .ok principal ∧
        principal.issuer = unprintableVault.issuer ∧ principal.name.text = "vault-v2_b" ∧
          principal.render = unprintableVault.render ∧
            Value.decoder.decode (Value.contract principal).toBytes = .ok (.contract principal) :=
  ⟨by decide, ofIdentifier_lossless.2.1 unprintableVault (by decide)⟩

end ContractPrincipal

end ClarityWire
