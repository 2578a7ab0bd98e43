import ClarityWire.Proofs.C32

/-!
# The checked form of c32

What is read as a version and a payload are exactly the spellings of the one text that these are
written as. This holds for every way to compute checksums, and for addresses behind any first
character of ASCII.
-/

namespace ClarityWire.C32

variable {checksum : Bytes → Checksum} {version : UInt8} {payload : Bytes}

/-- The text is, up to the spelling of its characters, what is written of the version and the
payload behind the lead. -/
def SpellsChecked (checksum : Bytes → Checksum) (version : UInt8) (payload : Bytes) (lead : Char)
    (text : String) : Prop :=
  version.toNat < versionLimit ∧ (∀ c ∈ text.toList, Accepted c) ∧
    encodeCheck checksum version payload lead = .ok (String.singleton lead ++ normalize text)

/-- The characters behind the lead: the version, then the payload with its checksum. -/
def checkedChars (checksum : Bytes → Checksum) (version : UInt8) (payload : Bytes) : List Char :=
  symbol version.toNat :: encodeChars (payload ++ (checksum (version :: payload)).toBytes)

theorem length_le_length_encodeChars (bytes : Bytes) :
    bytes.length ≤ (encodeChars bytes).length := by
  have h : (bytes.map UInt8.toNat).length ≤
      (Radix.rebase 256 32 (bytes.map UInt8.toNat)).length :=
    Radix.length_le_length_rebase (by decide) (by decide) (Radix.toNat_lt_of_mem bytes)
  rwa [List.length_map, ← List.length_map symbol, ← encodeChars_eq] at h

theorem five_le_length {text : List Char}
    (h : text.map canonical = checkedChars checksum version payload) : 5 ≤ text.length := by
  have hbody := length_le_length_encodeChars (payload ++ (checksum (version :: payload)).toBytes)
  have hlength := congrArg List.length h
  simp only [List.length_append, Checksum.length_toBytes, Checksum.size] at hbody
  simp only [List.length_map, checkedChars, List.length_cons] at hlength
  omega

theorem encodeCheck_of_lt (h : version.toNat < versionLimit) (lead : Char) :
    encodeCheck checksum version payload lead =
      .ok (String.ofList (lead :: checkedChars checksum version payload)) :=
  if_pos h

theorem encodeCheck_of_ge (h : versionLimit ≤ version.toNat) (lead : Char) :
    encodeCheck checksum version payload lead = .error (.invalidVersion version) :=
  if_neg (Nat.not_lt.mpr h)

theorem mem_symbols_of_mem_checkedChars (h : version.toNat < versionLimit) {c : Char}
    (hc : c ∈ checkedChars checksum version payload) : c ∈ symbols := by
  rw [checkedChars, encodeChars_eq] at hc
  rcases List.mem_cons.mp hc with rfl | hc
  · exact symbol_mem _ h
  · obtain ⟨d, hd, rfl⟩ := List.mem_map.mp hc
    exact symbol_mem d (Radix.rebase_lt (by decide) d hd)

/-- A text is accepted if its normal form is that of a version and a payload. -/
theorem accepted_of_map_canonical (h : version.toNat < versionLimit) {text : List Char}
    (htext : text.map canonical = checkedChars checksum version payload) :
    ∀ c ∈ text, Accepted c := by
  intro c hc
  apply accepted_of_canonical_mem
  apply mem_symbols_of_mem_checkedChars h
  rw [← htext]
  exact List.mem_map_of_mem hc

theorem spellsChecked_iff {lead : Char} {text : String} :
    SpellsChecked checksum version payload lead text ↔
      version.toNat < versionLimit ∧ (∀ c ∈ text.toList, Accepted c) ∧
        text.toList.map canonical = checkedChars checksum version payload := by
  refine and_congr_right fun h => and_congr_right fun _ => ?_
  rw [encodeCheck_of_lt h, Except.ok.injEq, ← String.toList_inj, String.toList_ofList,
    String.toList_append, String.toList_singleton, normalize, String.toList_map,
    List.singleton_append, List.cons_inj_right, eq_comm]

/-! ## Characters of ASCII -/

theorem requireAscii_eq_ok_iff {text : List Char} :
    requireAscii text = .ok () ↔ ∀ c ∈ text, isAscii c := by
  rw [requireAscii]
  cases hfind : text.find? fun c => !isAscii c with
  | some c =>
    have hc := List.find?_some hfind
    have hmem := List.mem_of_find?_eq_some hfind
    constructor
    · intro h
      cases h
    · intro h
      simp [h c hmem] at hc
  | none => simpa using hfind

theorem bind_requireAscii_eq_ok_iff {α : Type} {text : List Char} {next : Unit → Except Error α}
    {a : α} : requireAscii text >>= next = .ok a ↔ (∀ c ∈ text, isAscii c) ∧ next () = .ok a := by
  rw [← requireAscii_eq_ok_iff]
  cases requireAscii text with
  | error e => simp [bind, Except.bind]
  | ok _ => simp [bind, Except.bind]

theorem bind_requireAscii {α : Type} {text : List Char} (h : ∀ c ∈ text, isAscii c)
    (next : Unit → Except Error α) : requireAscii text >>= next = next () := by
  rw [requireAscii_eq_ok_iff.mpr h]
  rfl

/-! ## Reading -/

def verified (checksum : Bytes → Checksum) (version : UInt8) (bytes : Bytes) :
    Except Error (UInt8 × Bytes) :=
  match Checksum.split? bytes with
  | none => .error (.tooShort bytes.length)
  | some (payload, carried) =>
    let computed := checksum (version :: payload)
    if computed = carried then .ok (version, payload)
    else .error (.checksumMismatch computed carried)

theorem verified_eq_ok_iff {version' : UInt8} {bytes : Bytes} :
    verified checksum version' bytes = .ok (version, payload) ↔
      version' = version ∧ bytes = payload ++ (checksum (version :: payload)).toBytes := by
  rw [← Checksum.split?_eq_some_iff, verified]
  cases Checksum.split? bytes with
  | none => simp
  | some parts =>
    obtain ⟨payload', carried⟩ := parts
    by_cases h : checksum (version' :: payload') = carried <;> grind

theorem decodeCheckChars_cons (versionChar next : Char) (rest : List Char) :
    decodeCheckChars checksum (versionChar :: next :: rest) =
      (requireAscii (versionChar :: next :: rest) >>= fun _ =>
        match digit? versionChar with
        | none => .error (.invalidCharacter versionChar)
        | some digit => decodeChars (next :: rest) >>= verified checksum (UInt8.ofNat digit)) :=
  rfl

theorem decodeCheckChars_cons_eq_ok_iff {versionChar next : Char} {rest : List Char} :
    decodeCheckChars checksum (versionChar :: next :: rest) = .ok (version, payload) ↔
      (∀ c ∈ versionChar :: next :: rest, isAscii c) ∧ digit? versionChar = some version.toNat ∧
        decodeChars (next :: rest) =
          .ok (payload ++ (checksum (version :: payload)).toBytes) := by
  rw [decodeCheckChars_cons, bind_requireAscii_eq_ok_iff]
  refine and_congr_right fun _ => ?_
  cases hdigit : digit? versionChar with
  | none => simp
  | some digit =>
    have hlt := (digit?_eq_some_iff.mp hdigit).1
    have hversion : UInt8.ofNat digit = version ↔ digit = version.toNat := by
      rw [← UInt8.toNat_inj, UInt8.toNat_ofNat', Nat.mod_eq_of_lt (by omega)]
    cases decodeChars (next :: rest) with
    | error e => simp [bind, Except.bind]
    | ok bytes => simp [bind, Except.bind, verified_eq_ok_iff, hversion]

theorem decodeCheckChars_of_short {text : List Char} (h : text.length < 2) :
    decodeCheckChars checksum text ≠ .ok (version, payload) := by
  intro hread
  unfold decodeCheckChars at hread
  obtain ⟨-, hread⟩ := bind_requireAscii_eq_ok_iff.mp hread
  split at hread
  · simp at h
  · cases hread

theorem decodeCheckChars_eq_ok_iff {text : List Char} :
    decodeCheckChars checksum text = .ok (version, payload) ↔
      version.toNat < versionLimit ∧ (∀ c ∈ text, Accepted c) ∧
        text.map canonical = checkedChars checksum version payload := by
  by_cases hshort : text.length < 2
  · have hnot : text.map canonical ≠ checkedChars checksum version payload := by
      intro htext
      have hfive := five_le_length htext
      omega
    simp [decodeCheckChars_of_short hshort, hnot]
  · match text with
    | [] => simp at hshort
    | [_] => simp at hshort
    | versionChar :: next :: rest =>
      rw [decodeCheckChars_cons_eq_ok_iff, decodeChars_eq_ok_iff, checkedChars]
      constructor
      · rintro ⟨-, hdigit, hrest, htext⟩
        obtain ⟨hlt, hversion⟩ := digit?_eq_some_iff.mp hdigit
        refine ⟨hlt, ?_, congrArg₂ List.cons hversion.symm htext⟩
        exact List.forall_mem_cons.mpr ⟨accepted_of_digit? hdigit, hrest⟩
      · rintro ⟨hlt, haccepted, htext⟩
        obtain ⟨hversion, htext⟩ := List.cons.inj htext
        refine ⟨fun c hc => isAscii_of_accepted (haccepted c hc), ?_, ?_, htext⟩
        · exact digit?_eq_some_iff.mpr ⟨hlt, hversion.symm⟩
        · exact fun c hc => haccepted c (List.mem_cons_of_mem _ hc)

theorem decodeCheck_eq_ok_iff {lead : Char} {text : String} :
    decodeCheck checksum text = .ok (version, payload) ↔
      SpellsChecked checksum version payload lead text := by
  rw [decodeCheck, decodeCheckChars_eq_ok_iff, spellsChecked_iff]

theorem decodeAddress_cons_eq_ok_iff {first : Char} {body : List Char} :
    decodeAddress checksum (String.ofList (first :: body)) = .ok (version, payload) ↔
      isAscii first ∧ decodeCheckChars checksum body = .ok (version, payload) := by
  unfold decodeAddress
  rw [String.toList_ofList, bind_requireAscii_eq_ok_iff, List.forall_mem_cons]
  constructor
  · rintro ⟨⟨hfirst, -⟩, hread⟩
    split at hread
    · cases hread
    · exact ⟨hfirst, hread⟩
  · rintro ⟨hfirst, hread⟩
    obtain ⟨-, haccepted, htext⟩ := decodeCheckChars_eq_ok_iff.mp hread
    -- The length guard asks for no more characters than the version and the checksum take up.
    have hlong : ¬ (first :: body).length ≤ 5 := by
      have hfive := five_le_length htext
      rw [List.length_cons]
      omega
    refine ⟨⟨hfirst, fun c hc => isAscii_of_accepted (haccepted c hc)⟩, ?_⟩
    rw [if_neg hlong]
    exact hread

private theorem singleton_append (c : Char) (text : String) :
    String.singleton c ++ text = String.ofList (c :: text.toList) := by
  simp

theorem decodeAddress_eq_ok_iff {lead : Char} {text : String} :
    decodeAddress checksum text = .ok (version, payload) ↔
      ∃ (first : Char) (body : String), text = String.singleton first ++ body ∧ isAscii first ∧
        SpellsChecked checksum version payload lead body := by
  constructor
  · intro h
    cases htext : text.toList with
    | nil =>
      unfold decodeAddress at h
      rw [htext] at h
      cases h
    | cons first body =>
      have hcons : text = String.ofList (first :: body) := by rw [← htext, String.ofList_toList]
      rw [hcons, decodeAddress_cons_eq_ok_iff] at h
      refine ⟨first, String.ofList body, ?_, h.1, ?_⟩
      · rw [singleton_append, String.toList_ofList, hcons]
      · rw [← decodeCheck_eq_ok_iff, decodeCheck, String.toList_ofList]
        exact h.2
  · rintro ⟨first, body, rfl, hfirst, hbody⟩
    rw [singleton_append, decodeAddress_cons_eq_ok_iff]
    exact ⟨hfirst, decodeCheck_eq_ok_iff.mpr hbody⟩

/-- Behind a lead and a version, the text is refused for the character for which its body is. -/
theorem decodeAddress_eq_invalidCharacter {first versionChar c : Char} {body : List Char}
    (hascii : ∀ c ∈ first :: versionChar :: body, isAscii c) (hlength : 4 ≤ body.length)
    (hversion : Accepted versionChar) (hc : offending? body = some c) :
    decodeAddress checksum (String.ofList (first :: versionChar :: body)) =
      .error (.invalidCharacter c) := by
  obtain ⟨digit, hdigit⟩ : ∃ digit, digit? versionChar = some digit := by
    rw [← Option.isSome_iff_exists, isSome_digit?, decide_eq_true hversion]
  have hbody : decodeChars body = .error (.invalidCharacter c) := by rw [decodeChars_eq, hc]
  have hlong : ¬ (first :: versionChar :: body).length ≤ 5 := by
    simp only [List.length_cons]
    omega
  obtain ⟨next, rest, rfl⟩ := List.exists_cons_of_length_pos (by omega : 0 < body.length)
  unfold decodeAddress
  rw [String.toList_ofList, bind_requireAscii hascii, if_neg hlong, List.drop_one, List.tail_cons,
    decodeCheckChars_cons, bind_requireAscii (List.forall_mem_cons.mp hascii).2, hdigit, hbody]
  rfl

/-! ## Writing, then reading -/

theorem decodeAddress_of_not_ascii {lead : Char} (h : isAscii lead = false) (body : List Char) :
    decodeAddress checksum (String.ofList (lead :: body)) = .error (.invalidCharacter lead) := by
  have hrefuse : requireAscii (lead :: body) = .error (.invalidCharacter lead) := by
    rw [requireAscii, List.find?_cons_of_pos (by simp [h])]
  unfold decodeAddress
  rw [String.toList_ofList]
  change requireAscii (lead :: body) >>= _ = _
  rw [hrefuse]
  rfl

theorem decodeCheckChars_checkedChars (h : version.toNat < versionLimit) :
    decodeCheckChars checksum (checkedChars checksum version payload) = .ok (version, payload) := by
  have hversion : digit? (symbol version.toNat) = some version.toNat := digit?_symbol h
  obtain ⟨haccepted, hcanonical⟩ := decodeChars_eq_ok_iff.mp
    (decodeChars_encodeChars (payload ++ (checksum (version :: payload)).toBytes))
  rw [decodeCheckChars_eq_ok_iff]
  refine ⟨h, List.forall_mem_cons.mpr ⟨accepted_of_digit? hversion, haccepted⟩, ?_⟩
  exact congrArg₂ List.cons (digit?_eq_some_iff.mp hversion).2.symm hcanonical

/-- What is read as a version and a payload are the spellings of what is written of them, behind any
character of ASCII in an address. Versions that are no digit have no such text. -/
theorem decodeCheck_exact (checksum : Bytes → Checksum) :
    (∀ (text : String) (version : UInt8) (payload : Bytes) (lead : Char),
        decodeCheck checksum text = .ok (version, payload) ↔
          SpellsChecked checksum version payload lead text) ∧
      (∀ (text : String) (version : UInt8) (payload : Bytes) (lead : Char),
        decodeAddress checksum text = .ok (version, payload) ↔
          ∃ (first : Char) (body : String), text = String.singleton first ++ body ∧
            isAscii first ∧ SpellsChecked checksum version payload lead body) ∧
      (∀ (version : UInt8) (payload : Bytes) (lead : Char), version.toNat < versionLimit →
        ∃ text, encodeCheck checksum version payload lead = .ok text ∧
          decodeAddress checksum text =
            if isAscii lead then .ok (version, payload) else .error (.invalidCharacter lead)) ∧
      ∀ (version : UInt8) (payload : Bytes) (lead : Char), versionLimit ≤ version.toNat →
        encodeCheck checksum version payload lead = .error (.invalidVersion version) := by
  refine ⟨?_, ?_, ?_, ?_⟩
  · intro text version payload lead
    exact decodeCheck_eq_ok_iff
  · intro text version payload lead
    exact decodeAddress_eq_ok_iff
  · intro version payload lead h
    refine ⟨_, encodeCheck_of_lt h lead, ?_⟩
    cases hlead : isAscii lead with
    | true => exact decodeAddress_cons_eq_ok_iff.mpr ⟨hlead, decodeCheckChars_checkedChars h⟩
    | false => exact decodeAddress_of_not_ascii hlead _
  · intro version payload lead h
    exact encodeCheck_of_ge h lead

end ClarityWire.C32
