import ClarityWire.Proofs.C32Checked
import ClarityWire.TextForm

/-!
# Stacks addresses as text

A text is read as an address when it spells the text form of the address, behind any lead of ASCII.
No address is lost this way and no two share a spelling. Addresses without a text form are shown as
an error, which no address has as a spelling.
-/

namespace ClarityWire.StacksAddress

variable {address : StacksAddress} {text : String} {version : UInt8} {payload : Bytes}

/-- The text is one character of ASCII, no matter which, and then in any spelling the text form of
the address without its lead. -/
def SpelledBy (address : StacksAddress) (text : String) : Prop :=
  address.version.toNat < C32.versionLimit ∧ ∃ (first : Char) (body : String),
    text = String.singleton first ++ body ∧ C32.isAscii first ∧
      address.render = String.singleton C32.addressLead ++ C32.normalize body

theorem toC32_of_lt (h : address.version.toNat < C32.versionLimit) :
    address.toC32 = .ok address.render := by
  rw [render, toC32, C32.encodeAddress, C32.encodeCheck_of_lt h]
  rfl

theorem render_of_lt (h : address.version.toNat < C32.versionLimit) :
    address.render = String.ofList
      (C32.addressLead :: C32.checkedChars Checksum.sha256d address.version address.hash.1) := by
  rw [render, toC32, C32.encodeAddress, C32.encodeCheck_of_lt h]
  rfl

theorem render_of_ge (h : C32.versionLimit ≤ address.version.toNat) :
    address.render = "ERROR: " ++ ("c32 error: " ++
      ("invalid c32 version " ++ toString address.version.toNat ++ ", must be below 32")) := by
  rw [render, toC32, C32.encodeAddress, C32.encodeCheck_of_ge h]
  rfl

/-- Accepted characters need not be asked for: no other text has such a normal form. -/
theorem spellsChecked_iff_render {body : String} :
    C32.SpellsChecked Checksum.sha256d address.version address.hash.1 C32.addressLead body ↔
      address.version.toNat < C32.versionLimit ∧
        address.render = String.singleton C32.addressLead ++ C32.normalize body := by
  rw [C32.spellsChecked_iff]
  refine and_congr_right fun h => ?_
  have hrender : address.render = String.singleton C32.addressLead ++ C32.normalize body ↔
      body.toList.map C32.canonical =
        C32.checkedChars Checksum.sha256d address.version address.hash.1 := by
    rw [render_of_lt h, ← String.toList_inj, String.toList_ofList, String.toList_append,
      String.toList_singleton, C32.normalize, String.toList_map, List.singleton_append,
      List.cons_inj_right, eq_comm]
  rw [hrender]
  exact and_iff_right_of_imp (C32.accepted_of_map_canonical h)

/-! ## Reading -/

theorem decodeAddress_eq_ok_iff :
    C32.decodeAddress Checksum.sha256d text = .ok (version, payload) ↔
      ∃ (first : Char) (body : String), text = String.singleton first ++ body ∧
        C32.isAscii first ∧
          C32.SpellsChecked Checksum.sha256d version payload C32.addressLead body :=
  C32.decodeAddress_eq_ok_iff

theorem version_lt_of_decodeAddress
    (h : C32.decodeAddress Checksum.sha256d text = .ok (version, payload)) :
    version.toNat < C32.versionLimit := by
  obtain ⟨first, body, -, -, hbody⟩ := decodeAddress_eq_ok_iff.mp h
  exact hbody.1

/-- The version of a text that is read is a digit, so only the length of its payload is judged. -/
theorem ofString_of_decodeAddress
    (h : C32.decodeAddress Checksum.sha256d text = .ok (version, payload)) :
    ofString text =
      if hsize : payload.length = 20 then .ok ⟨version, payload, hsize⟩
      else .error (.invalidLength payload.length) := by
  simp only [ofString, h, new, if_pos (version_lt_of_decodeAddress h)]

theorem ofString_of_decodeAddress_error {e : C32.Error}
    (h : C32.decodeAddress Checksum.sha256d text = .error e) : ofString text = .error (.c32 e) := by
  simp only [ofString, h]

theorem ofString_eq_ok_iff :
    ofString text = .ok address ↔
      C32.decodeAddress Checksum.sha256d text = .ok (address.version, address.hash.1) := by
  constructor
  · intro h
    cases hread : C32.decodeAddress Checksum.sha256d text with
    | error e =>
      rw [ofString_of_decodeAddress_error hread] at h
      cases h
    | ok read =>
      rw [ofString_of_decodeAddress hread] at h
      split at h
      · cases h
        rfl
      · cases h
  · intro h
    rw [ofString_of_decodeAddress h, dif_pos address.hash.2]

theorem ofString_eq_ok_iff_spelledBy : ofString text = .ok address ↔ address.SpelledBy text := by
  rw [ofString_eq_ok_iff, decodeAddress_eq_ok_iff, SpelledBy]
  simp only [spellsChecked_iff_render]
  constructor
  · rintro ⟨first, body, htext, hfirst, h, hrender⟩
    exact ⟨h, first, body, htext, hfirst, hrender⟩
  · rintro ⟨h, first, body, htext, hfirst, hrender⟩
    exact ⟨first, body, htext, hfirst, h, hrender⟩

theorem ofString_eq_invalidLength_iff {n : Nat} :
    ofString text = .error (.invalidLength n) ↔
      n ≠ 20 ∧ ∃ version payload,
        C32.decodeAddress Checksum.sha256d text = .ok (version, payload) ∧ payload.length = n := by
  cases hread : C32.decodeAddress Checksum.sha256d text with
  | error e => simp [ofString_of_decodeAddress_error hread]
  | ok read =>
    obtain ⟨version, payload⟩ := read
    rw [ofString_of_decodeAddress hread]
    by_cases hsize : payload.length = 20
    · rw [dif_pos hsize]
      constructor
      · intro h
        cases h
      · rintro ⟨hn, _, _, hsame, rfl⟩
        cases hsame
        exact absurd hsize hn
    · rw [dif_neg hsize]
      constructor
      · intro h
        cases h
        exact ⟨hsize, version, payload, rfl, rfl⟩
      · rintro ⟨-, _, _, hsame, rfl⟩
        cases hsame
        rfl

theorem ofString_ne_invalidVersion : ofString text ≠ .error (.invalidVersion version) := by
  cases hread : C32.decodeAddress Checksum.sha256d text with
  | error e => simp [ofString_of_decodeAddress_error hread]
  | ok read =>
    rw [ofString_of_decodeAddress hread]
    split <;> simp

/-! ## Showing, then reading -/

theorem ofString_render (h : address.version.toNat < C32.versionLimit) :
    ofString address.render = .ok address := by
  rw [ofString_eq_ok_iff, render_of_lt h, C32.decodeAddress_cons_eq_ok_iff]
  exact ⟨by decide, C32.decodeCheckChars_checkedChars h⟩

private theorem render_eq_ofList_of_ge (h : C32.versionLimit ≤ address.version.toNat) :
    address.render = String.ofList ('E' :: 'R' ::
      ("ROR: c32 error: invalid c32 version ".toList ++ Nat.toDigits 10 address.version.toNat ++
        ", must be below".toList ++ ' ' :: ['3', '2'])) := by
  rw [render_of_ge h, ← String.toList_inj, String.toList_ofList, Nat.toString_eq_ofList_toDigits]
  simp only [String.toList_append, String.toList_ofList, List.append_assoc]
  rfl

/-- An address without a text form is shown as a text that is refused for its last blank. -/
theorem ofString_render_of_ge (h : C32.versionLimit ≤ address.version.toNat) :
    ofString address.render = .error (.c32 (.invalidCharacter ' ')) := by
  have hfront : "ROR: c32 error: invalid c32 version ".toList.all C32.isAscii := by rfl
  have hback : ", must be below".toList.all C32.isAscii := by rfl
  have hdigits : ∀ c ∈ Nat.toDigits 10 address.version.toNat, C32.isAscii c := fun c hc =>
    C32.isAscii_of_accepted (C32.accepted_of_isDigit
      (Nat.isDigit_of_mem_toDigits (by decide) (by decide) hc))
  have hbody : ∀ c ∈ "ROR: c32 error: invalid c32 version ".toList ++
      Nat.toDigits 10 address.version.toNat ++ ", must be below".toList ++ ' ' :: ['3', '2'],
      C32.isAscii c := by
    rw [List.all_eq_true] at hfront hback
    simp only [List.forall_mem_append]
    refine ⟨⟨⟨hfront, hdigits⟩, hback⟩, ?_⟩
    simp [C32.isAscii]
  apply ofString_of_decodeAddress_error
  rw [render_eq_ofList_of_ge h]
  apply C32.decodeAddress_eq_invalidCharacter
  · exact List.forall_mem_cons.mpr ⟨by decide, List.forall_mem_cons.mpr ⟨by decide, hbody⟩⟩
  · simp
  · decide
  · exact C32.offending?_append hbody (by simp [C32.Accepted]) (by decide)

/-- **One address to a spelling.** A text is read as the address whose text form it spells, so every
address that has a text form is read back from it, and no text spells two. The version of a text is
never refused, and its length exactly when it spells a payload that is no hash. An address without a
text form is shown as a text, in JSON too, that is refused for a character. -/
theorem ofString_upToSpelling :
    (∀ (text : String) (address : StacksAddress),
        ofString text = .ok address ↔ address.SpelledBy text) ∧
      (∀ address : StacksAddress, address.version.toNat < C32.versionLimit →
        ofString address.render = .ok address) ∧
      (∀ (text : String) (address other : StacksAddress),
        address.SpelledBy text → other.SpelledBy text → address = other) ∧
      (∀ (text : String) (version : UInt8), ofString text ≠ .error (.invalidVersion version)) ∧
      (∀ (text : String) (n : Nat), ofString text = .error (.invalidLength n) ↔
        n ≠ 20 ∧ ∃ (first : Char) (body : String) (version : UInt8) (payload : Bytes),
          text = String.singleton first ++ body ∧ C32.isAscii first ∧
            C32.SpellsChecked Checksum.sha256d version payload C32.addressLead body ∧
              payload.length = n) ∧
      ∀ address : StacksAddress, C32.versionLimit ≤ address.version.toNat →
        ofString address.render = .error (.c32 (.invalidCharacter ' ')) ∧
          TextForm.stacksAddress.ofJson (TextForm.stacksAddress.toJson address) =
            .error (AddressError.c32 (.invalidCharacter ' ')).message := by
  refine ⟨?_, ?_, ?_, ?_, ?_, ?_⟩
  · intro text address
    exact ofString_eq_ok_iff_spelledBy
  · intro address h
    exact ofString_render h
  · intro text address other h h'
    rw [← ofString_eq_ok_iff_spelledBy] at h h'
    rw [h] at h'
    exact Except.ok.inj h'
  · intro text version
    exact ofString_ne_invalidVersion
  · intro text n
    rw [ofString_eq_invalidLength_iff]
    refine and_congr_right fun _ => ?_
    simp only [decodeAddress_eq_ok_iff]
    constructor
    · rintro ⟨version, payload, ⟨first, body, htext, hfirst, hbody⟩, hn⟩
      exact ⟨first, body, version, payload, htext, hfirst, hbody, hn⟩
    · rintro ⟨first, body, version, payload, htext, hfirst, hbody, hn⟩
      exact ⟨version, payload, ⟨first, body, htext, hfirst, hbody⟩, hn⟩
  · intro address h
    have hread := ofString_render_of_ge h
    refine ⟨hread, ?_⟩
    change (ofString address.render).mapError AddressError.message = _
    rw [hread]
    rfl

def zeroHash : Hash160 := ⟨List.replicate 20 0, rfl⟩

theorem ofString_upToSpelling_zeroHash :
    ofString (render ⟨22, zeroHash⟩) = .ok ⟨22, zeroHash⟩ ∧
      (∀ other, SpelledBy other (render ⟨22, zeroHash⟩) → ⟨22, zeroHash⟩ = other) ∧
        ofString (render ⟨32, zeroHash⟩) = .error (.c32 (.invalidCharacter ' ')) := by
  obtain ⟨hspelled, hrender, hunique, -, -, hwide⟩ := ofString_upToSpelling
  have hread := hrender ⟨22, zeroHash⟩ (by decide)
  refine ⟨hread, ?_, (hwide ⟨32, zeroHash⟩ (by decide)).1⟩
  intro other hother
  exact hunique _ _ other ((hspelled _ _).mp hread) hother

end ClarityWire.StacksAddress
