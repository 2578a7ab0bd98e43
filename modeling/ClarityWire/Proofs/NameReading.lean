import ClarityWire.Proofs.Reading
import ClarityWire.Proofs.Repair

/-!
# Names from texts and from bytes

A name is checked in one way, whether it is given as a text or read behind its length: the bytes of
a text are read as the name that the text is, or refused for the reason for which the text is
refused. What can only go wrong on reading is a length out of bounds, which is refused before
anything else is read, and bytes that are no text.
-/

namespace ClarityWire

/-- A letter, and then letters, digits and some marks. -/
def Word (marks text : String) : Prop :=
  ∃ first rest, text.toList = first :: rest ∧ first.isAlpha ∧
    ∀ c ∈ rest, c.isAlphanum ∨ c ∈ marks.toList

/-- The texts that are names. -/
def NameKind.Grammar : NameKind → String → Prop
  | .clarity, text =>
    text ∈ ["-", "+", "=", "/", "*", "<", ">", "<=", ">="] ∨
      Word "-_!?+<>=/*" text ∧ (Utf8.ofString text).length ≤ 128
  | .contract, text =>
    text = "__transient" ∨
      Word "-_" text ∧ 1 ≤ (Utf8.ofString text).length ∧ (Utf8.ofString text).length ≤ 40

theorem NameKind.allowsLength_iff {kind : NameKind} {length : Nat} :
    kind.allowsLength length ↔ kind.minLength ≤ length ∧ length ≤ kind.maxLength := by
  simp [NameKind.allowsLength]

namespace Name

variable {kind : NameKind} {text : String}

/-! ## Texts that are names -/

theorem exists_ofString_eq_ok_iff :
    (∃ name, ofString kind text = .ok name) ↔ kind.accepts text := by
  constructor
  · intro ⟨name, hname⟩
    rw [← text_of_ofString hname]
    exact name.accepted
  · intro h
    exact ⟨⟨text, h⟩, by rw [ofString, dif_pos h]⟩

theorem ofString_of_badLength (h : kind.allowsLength (Utf8.ofString text).length = false) :
    ofString kind text = .error (.badLength kind (Utf8.ofString text).length) := by
  have hnot : ¬ kind.accepts text := by simp [NameKind.accepts, h]
  rw [ofString, dif_neg hnot, if_neg (by simp [h])]

private theorem allowsWord_iff {marks : String} (hmarks : kind.marks = marks.toList) :
    kind.allowsWord text.toList ↔ Word marks text := by
  cases htext : text.toList with
  | nil => simp [NameKind.allowsWord, Word, htext]
  | cons first rest =>
    simp [NameKind.allowsWord, NameKind.allowsChar, Word, htext, hmarks]

private theorem allowsLength_of_mem_reserved :
    ∀ text ∈ kind.reserved, kind.allowsLength (Utf8.ofString text).length := by
  cases kind <;> decide

private theorem accepts_iff (marks : String) (hmarks : kind.marks = marks.toList) :
    kind.accepts text ↔ text ∈ kind.reserved ∨
      Word marks text ∧ kind.allowsLength (Utf8.ofString text).length := by
  have hreserved : text ∈ kind.reserved → kind.allowsLength (Utf8.ofString text).length :=
    allowsLength_of_mem_reserved text
  simp only [NameKind.accepts, NameKind.allowsText, Bool.and_eq_true, Bool.or_eq_true,
    List.contains_iff_mem, allowsWord_iff hmarks]
  tauto

theorem accepts_iff_grammar : kind.accepts text ↔ kind.Grammar text := by
  cases kind with
  | clarity =>
    rw [accepts_iff "-_!?+<>=/*" (by decide), NameKind.allowsLength_iff]
    simp [NameKind.Grammar, NameKind.reserved, NameKind.minLength, NameKind.maxLength]
  | contract =>
    rw [accepts_iff "-_" (by decide), NameKind.allowsLength_iff]
    simp [NameKind.Grammar, NameKind.reserved, NameKind.minLength, NameKind.maxLength,
      transientContractName]

/-! ## Bytes that are names -/

/-- What the bytes of a name are read as once their number is in bounds. -/
def ofBytes (kind : NameKind) (bytes : Bytes) : Except WireError (Name kind) :=
  match Utf8.decode? bytes with
  | some text => (ofString kind (String.ofList text)).mapError .invalidName
  | none => .error (.invalidName (.invalidName kind (Utf8.decodeLossy bytes)))

theorem ofBytes_ofString (kind : NameKind) (text : String) :
    ofBytes kind (Utf8.ofString text) = (ofString kind text).mapError .invalidName := by
  simp [ofBytes, Utf8.ofString, Utf8.decode?_encode]

theorem ofBytes_of_illFormed (kind : NameKind) {bytes : Bytes} (h : ¬ Utf8.WellFormed bytes) :
    ofBytes kind bytes = .error (.invalidName (.invalidName kind (Utf8.decodeLossy bytes))) := by
  simp [ofBytes, Utf8.decode?_eq_none_iff.mpr h]

end Name

namespace Decoder

variable {kind : NameKind}

theorem name_answers_badLength {length : UInt8} (h : kind.allowsLength length.toNat = false)
    (offset : Nat) : (name kind).Answers offset [length]
      (.error (.invalidName (.badLength kind length.toNat))) := by
  have hnumber := number_answers 1 length.toNat_lt offset
  have hbytes : Bytes.ofNat 1 length.toNat = [length] := by simp [Bytes.ofNat]
  rw [hbytes] at hnumber
  apply hnumber.bind_nil
  rw [if_neg (by simp [h])]
  exact .fail _ _ _

theorem name_answers_bytes {bytes : Bytes} (h : kind.allowsLength bytes.length) (offset : Nat) :
    (name kind).Answers offset (UInt8.ofNat bytes.length :: bytes) (Name.ofBytes kind bytes) := by
  have hlt : bytes.length < 256 := by
    have hmax := (NameKind.allowsLength_iff.mp h).2
    cases kind <;> simp only [NameKind.maxLength] at hmax <;> omega
  have hnumber := number_answers 1 hlt offset
  have hheader : Bytes.ofNat 1 bytes.length = [UInt8.ofNat bytes.length] := rfl
  rw [hheader] at hnumber
  apply hnumber.bind
  rw [if_pos h]
  refine (block_answers ⟨bytes, rfl⟩ _).bind_nil ?_
  dsimp only
  rw [Name.ofBytes]
  cases Utf8.decode? bytes with
  | none => exact .fail _ _ _
  | some text =>
    dsimp only
    cases Name.ofString kind (String.ofList text) with
    | ok value => exact .done value _
    | error e => exact .fail _ _ _

end Decoder

namespace Name

/-- **One grammar whichever way a name arrives.** The bytes of a text, behind their number, are read
as the name the text is, or refused for what the text is refused for. Bytes that are no text are
refused with their repaired text, and a length out of bounds before any byte behind it is read. The
texts that are names are those of the grammar. -/
theorem decodeFront_agrees (kind : NameKind) :
    (∀ (text : String) (rest : Bytes), (Utf8.ofString text).length ≤ 255 →
        (Decoder.name kind).decodeFront
            (UInt8.ofNat (Utf8.ofString text).length :: Utf8.ofString text ++ rest) =
          ((ofString kind text).mapError .invalidName).map fun name =>
            (name, 1 + (Utf8.ofString text).length)) ∧
      (∀ payload rest : Bytes, kind.minLength ≤ payload.length → payload.length ≤ kind.maxLength →
        ¬ Utf8.WellFormed payload → ∃ text, Utf8.Repaired payload text ∧
          (Decoder.name kind).decodeFront (UInt8.ofNat payload.length :: payload ++ rest) =
            .error (.invalidName (.invalidName kind (String.ofList text)))) ∧
      (∀ (length : UInt8) (rest : Bytes),
        length.toNat < kind.minLength ∨ kind.maxLength < length.toNat →
          (Decoder.name kind).decodeFront (length :: rest) =
            .error (.invalidName (.badLength kind length.toNat))) ∧
      ∀ text : String, (∃ name, ofString kind text = .ok name) ↔ kind.Grammar text := by
  have hbadLength : ∀ (length : UInt8) (rest : Bytes), kind.allowsLength length.toNat = false →
      (Decoder.name kind).decodeFront (length :: rest) =
        .error (.invalidName (.badLength kind length.toNat)) := by
    intro length rest h
    exact (Decoder.name_answers_badLength h 0).decodeFront rest
  refine ⟨?_, ?_, ?_, ?_⟩
  · intro text rest hbyte
    cases hlength : kind.allowsLength (Utf8.ofString text).length with
    | true =>
      rw [(Decoder.name_answers_bytes hlength 0).decodeFront rest, ofBytes_ofString,
        List.length_cons, Nat.add_comm]
    | false =>
      have htoNat : (UInt8.ofNat (Utf8.ofString text).length).toNat =
          (Utf8.ofString text).length := Nat.mod_eq_of_lt (by omega)
      rw [← htoNat] at hlength
      rw [List.cons_append, hbadLength _ _ hlength, htoNat,
        ofString_of_badLength (by rwa [← htoNat])]
      rfl
  · intro payload rest hmin hmax hillFormed
    have hlength := NameKind.allowsLength_iff.mpr ⟨hmin, hmax⟩
    refine ⟨_, Utf8.repaired_decodeLossy payload, ?_⟩
    rw [(Decoder.name_answers_bytes hlength 0).decodeFront rest,
      ofBytes_of_illFormed kind hillFormed, String.ofList_toList]
    rfl
  · intro length rest h
    apply hbadLength
    rw [← Bool.not_eq_true, NameKind.allowsLength_iff]
    omega
  · intro text
    rw [exists_ofString_eq_ok_iff, accepts_iff_grammar]

theorem decodeFront_agrees_transient :
    (Decoder.name .contract).decodeFront (11 :: Utf8.ofString "__transient" ++ [0xff]) =
        .ok (⟨"__transient", by decide⟩, 12) ∧
      (Decoder.name .clarity).decodeFront [3, 0x61, 0xe2, 0x9c, 0xff] =
        .error (.invalidName (.invalidName .clarity "a\uFFFD")) ∧
      (Decoder.name .contract).decodeFront [41] =
        .error (.invalidName (.badLength .contract 41)) := by
  refine ⟨(decodeFront_agrees .contract).1 "__transient" [0xff] (by decide), ?_,
    (decodeFront_agrees .contract).2.2.1 41 [] (by decide)⟩
  -- the payload ends in the middle of a character
  obtain ⟨text, hrepaired, hread⟩ := (decodeFront_agrees .clarity).2.1 [0x61, 0xe2, 0x9c] [0xff]
    (by decide) (by decide) (by decide)
  have htext : Utf8.decodeLossy [0x61, 0xe2, 0x9c] = "a\uFFFD" := by decide
  rwa [← Utf8.repaired_iff.mp hrepaired, htext] at hread

end Name

end ClarityWire
