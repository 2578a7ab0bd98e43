import ClarityWire.Proofs.BigEndian
import ClarityWire.Proofs.Names
import ClarityWire.Proofs.Sources
import ClarityWire.Proofs.Writing

/-!
# Reading from the front of the input

Two properties of decoders that carry over from parts to the whole. `Answers` tells what a decoder
does on every input that starts with certain bytes, whether it reads an item there or fails.
`ReadsOnly` tells which bytes stand in front of the input when a decoder has read an item.
-/

namespace ClarityWire

/-- The failure of a length over the limit. -/
def sizeFailure? (size : Nat) : Option WireError :=
  if maxValueSize < size then some (.oversized size maxValueSize) else none

/-- A value, unless a check has failed. -/
def outcome {α : Type} (failure? : Option WireError) (value : α) : Except WireError α :=
  match failure? with
  | some e => .error e
  | none => .ok value

namespace Decoder

variable {α β σ : Type}

/-- On every input that starts with `front`, the decoder fails as told, or reads the item told and
exactly the bytes of `front`. -/
def Answers (d : Decoder α) (offset : Nat) (front : Bytes) (answer : Except WireError α) : Prop :=
  ∀ rest : Bytes, d.run (⟨front ++ rest, offset⟩ : Cursor) =
    answer.map fun value => (value, ⟨rest, offset + front.length⟩)

/-- Every item that the decoder reads is spelled by the bytes that it takes. -/
def ReadsOnly (d : Decoder α) (spelled : α → Bytes → Prop) : Prop :=
  ∀ (input : Cursor) (value : α) (last : Cursor), d.run input = .ok (value, last) →
    ∃ front, input.rest = front ++ last.rest ∧ spelled value front

/-! ## Parts and the whole -/

theorem run_andThen [ByteSource σ] (d : Decoder α) (f : α → Decoder β) (input : σ) :
    (d >>= f).run input =
      match d.run input with
      | .ok (value, rest) => (f value).run rest
      | .error e => .error e :=
  run_bind d f input

theorem Answers.done (value : α) (offset : Nat) :
    (Decoder.done value).Answers offset [] (.ok value) :=
  fun _ => rfl

theorem Answers.fail (e : WireError) (offset : Nat) (front : Bytes) :
    (Decoder.fail e : Decoder α).Answers offset front (.error e) :=
  fun _ => rfl

theorem Answers.bind {d : Decoder α} {f : α → Decoder β} {offset : Nat} {a b : Bytes} {value : α}
    {answer : Except WireError β} (hd : d.Answers offset a (.ok value))
    (hf : (f value).Answers (offset + a.length) b answer) :
    (d >>= f).Answers offset (a ++ b) answer := by
  intro rest
  rw [List.append_assoc, run_andThen, hd (b ++ rest)]
  have h := hf rest
  rw [Nat.add_assoc, ← List.length_append] at h
  exact h

theorem Answers.bind_nil {d : Decoder α} {f : α → Decoder β} {offset : Nat} {a : Bytes} {value : α}
    {answer : Except WireError β} (hd : d.Answers offset a (.ok value))
    (hf : (f value).Answers (offset + a.length) [] answer) : (d >>= f).Answers offset a answer := by
  have h := hd.bind hf
  rwa [List.append_nil] at h

theorem Answers.bind_error {d : Decoder α} {f : α → Decoder β} {offset : Nat} {a : Bytes}
    {e : WireError} (hd : d.Answers offset a (.error e)) (b : Bytes) :
    (d >>= f).Answers offset (a ++ b) (.error e) := by
  intro rest
  rw [List.append_assoc, run_andThen, hd (b ++ rest)]
  rfl

theorem Answers.map {d : Decoder α} {offset : Nat} {front : Bytes} {answer : Except WireError α}
    (hd : d.Answers offset front answer) (f : α → β) :
    (f <$> d).Answers offset front (answer.map f) := by
  intro rest
  rw [map_eq_pure_bind, run_andThen, hd rest]
  cases answer <;> rfl

theorem Answers.position {f : Nat → Decoder α} {offset : Nat} {front : Bytes}
    {answer : Except WireError α} (hf : (f offset).Answers offset front answer) :
    (Decoder.position Decoder.done >>= f).Answers offset front answer :=
  fun rest => hf rest

theorem Answers.decodeFront {d : Decoder α} {front : Bytes} {answer : Except WireError α}
    (hd : d.Answers 0 front answer) (rest : Bytes) :
    d.decodeFront (front ++ rest) = answer.map fun value => (value, front.length) := by
  rw [Decoder.decodeFront, Cursor.ofBuffer, List.drop_zero, hd rest]
  cases answer <;> simp [Except.map]

theorem ReadsOnly.mono {d : Decoder α} {spelled other : α → Bytes → Prop}
    (hd : d.ReadsOnly spelled) (h : ∀ value front, spelled value front → other value front) :
    d.ReadsOnly other := by
  intro input value last hrun
  obtain ⟨front, hfront, hspelled⟩ := hd input value last hrun
  exact ⟨front, hfront, h value front hspelled⟩

theorem ReadsOnly.done (value : α) :
    (Decoder.done value).ReadsOnly fun item front => item = value ∧ front = [] := by
  intro input item last hrun
  cases hrun
  exact ⟨[], rfl, rfl, rfl⟩

theorem ReadsOnly.fail (e : WireError) (spelled : α → Bytes → Prop) :
    (Decoder.fail e : Decoder α).ReadsOnly spelled := by
  intro input value last hrun
  cases hrun

theorem ReadsOnly.bind {d : Decoder α} {f : α → Decoder β} {first : α → Bytes → Prop}
    {spelled : β → Bytes → Prop} (hd : d.ReadsOnly first)
    (hf : ∀ value a, first value a → (f value).ReadsOnly fun item b => spelled item (a ++ b)) :
    (d >>= f).ReadsOnly spelled := by
  intro input item last hrun
  rw [run_andThen] at hrun
  cases hfirst : d.run input with
  | error e => rw [hfirst] at hrun; cases hrun
  | ok taken =>
    obtain ⟨value, middle⟩ := taken
    rw [hfirst] at hrun
    obtain ⟨a, ha, hvalue⟩ := hd input value middle hfirst
    obtain ⟨b, hb, hitem⟩ := hf value a hvalue middle item last hrun
    exact ⟨a ++ b, by rw [ha, hb, List.append_assoc], hitem⟩

theorem ReadsOnly.map {d : Decoder α} {spelled : β → Bytes → Prop} (f : α → β)
    (hd : d.ReadsOnly fun value front => spelled (f value) front) :
    (f <$> d).ReadsOnly spelled := by
  rw [map_eq_pure_bind]
  apply hd.bind
  intro value a ha
  apply (ReadsOnly.done (f value)).mono
  intro item b hb
  obtain ⟨rfl, rfl⟩ := hb
  rwa [List.append_nil]

theorem ReadsOnly.position {f : Nat → Decoder α} {spelled : α → Bytes → Prop}
    (hf : ∀ offset, (f offset).ReadsOnly spelled) :
    (Decoder.position Decoder.done >>= f).ReadsOnly spelled :=
  fun input => hf input.offset input

/-- An item that is answered in front of whatever follows and read from its own bytes only is read
exactly where these stand. -/
theorem decodeFront_eq_ok_iff_spelling {d : Decoder α} {spelling : α → Bytes}
    (hd : ∀ value, d.Answers 0 (spelling value) (.ok value))
    (hreads : d.ReadsOnly fun value front => front = spelling value) {bytes : Bytes} {value : α}
    {n : Nat} : d.decodeFront bytes = .ok (value, n) ↔
      ∃ rest, bytes = spelling value ++ rest ∧ n = (spelling value).length := by
  constructor
  · intro h
    cases hrun : d.run (Cursor.ofBuffer bytes 0) with
    | error e =>
      rw [decodeFront, hrun] at h
      cases h
    | ok read =>
      obtain ⟨item, last⟩ := read
      have hread := h
      rw [decodeFront, hrun] at hread
      cases hread
      obtain ⟨front, hfront, rfl⟩ := hreads _ value last hrun
      have hbytes : bytes = spelling value ++ last.rest := hfront
      have hanswer := (hd value).decodeFront last.rest
      rw [← hbytes, h] at hanswer
      exact ⟨last.rest, hbytes, congrArg Prod.snd (Except.ok.inj hanswer)⟩
  · rintro ⟨rest, rfl, rfl⟩
    exact (hd value).decodeFront rest

theorem Answers.take {size : Nat} {next : Block size → Decoder α} {offset : Nat} {front : Bytes}
    {answer : Except WireError α} (block : Block size)
    (h : (next block).Answers (offset + size) front answer) :
    (Decoder.take size next).Answers offset (block.1 ++ front) answer := by
  intro rest
  rw [List.append_assoc, run_take_append, h rest, List.length_append, block.2, Nat.add_assoc]

theorem ReadsOnly.take {size : Nat} {next : Block size → Decoder α} {spelled : α → Bytes → Prop}
    (h : ∀ block, (next block).ReadsOnly fun value front => spelled value (block.1 ++ front)) :
    (Decoder.take size next).ReadsOnly spelled := by
  rintro ⟨bytes, offset⟩ value last hrun
  rcases Cursor.starts_or_short size bytes with ⟨block, rest, rfl⟩ | hshort
  · rw [run_take_append] at hrun
    obtain ⟨front, hfront, hvalue⟩ := h block _ value last hrun
    exact ⟨block.1 ++ front, by rw [List.append_assoc, ← hfront], hvalue⟩
  · rw [run_take_eq_error next hshort] at hrun
    cases hrun

theorem Answers.bind_outcome {d : Decoder α} {f : α → Decoder β} {offset : Nat} {a b : Bytes}
    {first? second? : Option WireError} {value : α} {item : β}
    (hd : d.Answers offset a (outcome first? value))
    (hf : first? = none → (f value).Answers (offset + a.length) b (outcome second? item)) :
    (d >>= f).Answers offset (a ++ b) (outcome (first?.or second?) item) := by
  cases first? with
  | none => exact hd.bind (hf rfl)
  | some e => exact hd.bind_error b

theorem Answers.map_outcome {d : Decoder α} {offset : Nat} {front : Bytes}
    {failure? : Option WireError} {value : α} (hd : d.Answers offset front (outcome failure? value))
    (f : α → β) : (f <$> d).Answers offset front (outcome failure? (f value)) := by
  have h := hd.map f
  cases failure? <;> exact h

/-! ## Items of a fixed layout -/

theorem block_answers {size : Nat} (block : Block size) (offset : Nat) :
    (Decoder.block size).Answers offset block.1 (.ok block) := by
  have h := Answers.take block (Answers.done block (offset + size))
  rwa [List.append_nil] at h

theorem block_readsOnly (size : Nat) :
    (Decoder.block size).ReadsOnly fun block front => front = block.1 := by
  refine .take fun block => (ReadsOnly.done block).mono fun item front h => ?_
  obtain ⟨rfl, rfl⟩ := h
  exact List.append_nil _

theorem number_answers (width : Nat) {n : Nat} (h : n < 256 ^ width) (offset : Nat) :
    (number width).Answers offset (Bytes.ofNat width n) (.ok n) := by
  let block : Block width := ⟨Bytes.ofNat width n, Bytes.length_ofNat width n⟩
  have hvalue : Bytes.toNat block.1 = n := Bytes.toNat_ofNat_of_lt h
  have hrun : (number width).Answers offset (block.1 ++ []) (.ok (Bytes.toNat block.1)) :=
    Answers.take block (Answers.done _ _)
  rwa [List.append_nil, hvalue] at hrun

theorem number_readsOnly (width : Nat) :
    (number width).ReadsOnly fun n front => n < 256 ^ width ∧ front = Bytes.ofNat width n := by
  refine .take fun block => (ReadsOnly.done _).mono fun n front h => ?_
  obtain ⟨rfl, rfl⟩ := h
  have hlt := Bytes.toNat_lt block.1
  rw [block.2] at hlt
  exact ⟨hlt, by rw [List.append_nil, Bytes.ofNat_toNat_of_length block.2]⟩

theorem byte_answers (value : UInt8) (offset : Nat) :
    byte.Answers offset [value] (.ok value) := by
  have h := (number_answers 1 value.toNat_lt offset).map UInt8.ofNat
  have hbytes : Bytes.ofNat 1 value.toNat = [value] := by simp [Bytes.ofNat]
  rw [hbytes] at h
  rw [Except.map, UInt8.ofNat_toNat] at h
  exact h

theorem byte_readsOnly : byte.ReadsOnly fun value front => front = [value] := by
  apply ReadsOnly.map
  apply (number_readsOnly 1).mono
  intro n front h
  rw [h.2]
  rfl

theorem word32_answers (value : UInt32) (offset : Nat) :
    word32.Answers offset (Bytes.ofNat 4 value.toNat) (.ok value) := by
  have h := (number_answers 4 value.toNat_lt offset).map UInt32.ofNat
  rw [Except.map, UInt32.ofNat_toNat] at h
  exact h

theorem word32_readsOnly :
    word32.ReadsOnly fun value front => front = Bytes.ofNat 4 value.toNat := by
  apply ReadsOnly.map
  apply (number_readsOnly 4).mono
  intro n front h
  have hvalue : (UInt32.ofNat n).toNat = n := by
    rw [UInt32.toNat_ofNat']
    exact Nat.mod_eq_of_lt h.1
  rw [hvalue, h.2]

theorem word128_answers (bits : BitVec 128) (offset : Nat) :
    word128.Answers offset (Bytes.ofNat 16 bits.toNat) (.ok bits) := by
  have hlt : bits.toNat < 256 ^ 16 := bits.isLt
  have h := (number_answers 16 hlt offset).map (BitVec.ofNat 128)
  rw [Except.map, BitVec.ofNat_toNat, BitVec.setWidth_eq] at h
  exact h

theorem word128_readsOnly :
    word128.ReadsOnly fun bits front => front = Bytes.ofNat 16 bits.toNat := by
  apply ReadsOnly.map
  apply (number_readsOnly 16).mono
  intro n front h
  have hbits : (BitVec.ofNat 128 n).toNat = n := by
    rw [BitVec.toNat_ofNat]
    exact Nat.mod_eq_of_lt h.1
  rw [hbits, h.2]

theorem length_answers {n : Nat} (h : n < 256 ^ 4) (offset : Nat) :
    Decoder.length.Answers offset (Bytes.ofNat 4 n) (outcome (sizeFailure? n) n) := by
  apply (number_answers 4 h offset).bind_nil
  by_cases hn : n ≤ maxValueSize
  · rw [if_pos hn, sizeFailure?, if_neg (Nat.not_lt.mpr hn)]
    exact .done n _
  · rw [if_neg hn, sizeFailure?, if_pos (Nat.not_le.mp hn)]
    exact .fail _ _ _

theorem length_readsOnly :
    Decoder.length.ReadsOnly fun n front => n ≤ maxValueSize ∧ front = Bytes.ofNat 4 n := by
  apply (number_readsOnly 4).bind
  intro n a ha
  by_cases hn : n ≤ maxValueSize
  · rw [if_pos hn]
    apply (ReadsOnly.done n).mono
    intro item front h
    obtain ⟨rfl, rfl⟩ := h
    exact ⟨hn, by rw [List.append_nil, ha.2]⟩
  · rw [if_neg hn]
    exact .fail _ _

theorem limited_answers (bytes : Bytes) (offset : Nat) :
    (limited bytes.length).Answers offset bytes (.ok bytes) := by
  have hblock := (block_answers ⟨bytes, rfl⟩ offset).map Subtype.val
  intro rest
  rw [run_limited]
  exact hblock rest

theorem limited_readsOnly (size : Nat) :
    (limited size).ReadsOnly fun bytes front => bytes.length = size ∧ front = bytes := by
  have hblock : (Subtype.val <$> block size).ReadsOnly fun bytes front =>
      bytes.length = size ∧ front = bytes := by
    apply ReadsOnly.map
    apply (block_readsOnly size).mono
    intro block front h
    exact ⟨block.2, h⟩
  intro input bytes last hrun
  rw [run_limited] at hrun
  exact hblock input bytes last hrun

theorem sizedBytes_answers {bytes : Bytes} (h : bytes.length < 256 ^ 4) (offset : Nat) :
    sizedBytes.Answers offset bytes.sized (outcome (sizeFailure? bytes.length) bytes) := by
  rw [← Option.or_none (o := sizeFailure? bytes.length)]
  apply (length_answers h offset).bind_outcome
  intro _
  exact limited_answers bytes _

theorem sizedBytes_readsOnly :
    sizedBytes.ReadsOnly fun bytes front => bytes.length ≤ maxValueSize ∧ front = bytes.sized := by
  apply length_readsOnly.bind
  intro n a ha
  apply (limited_readsOnly n).mono
  intro bytes front h
  rw [h.2, ha.2, Bytes.sized, h.1]
  exact ⟨ha.1, rfl⟩

theorem stacksAddress_answers (address : StacksAddress) (offset : Nat) :
    stacksAddress.Answers offset address.wireBytes (.ok address) := by
  have hhash := (block_answers address.hash (offset + 1)).map (StacksAddress.mk address.version)
  exact (byte_answers address.version offset).bind hhash

theorem stacksAddress_readsOnly :
    stacksAddress.ReadsOnly fun address front => front = address.wireBytes := by
  apply byte_readsOnly.bind
  intro version a ha
  apply ReadsOnly.map
  apply (block_readsOnly 20).mono
  intro block front h
  rw [h, ha]
  rfl

theorem name_answers {kind : NameKind} (name : Name kind) (offset : Nat) :
    (Decoder.name kind).Answers offset name.wireBytes (.ok name) := by
  have hlength : name.bytes.length < 256 ^ 1 := name.length_bytes_lt
  have hheader : Bytes.ofNat 1 name.bytes.length = [UInt8.ofNat name.bytes.length] := rfl
  have hnumber := number_answers 1 hlength offset
  rw [hheader] at hnumber
  apply hnumber.bind
  rw [if_pos name.allowsLength_bytes]
  refine (block_answers ⟨name.bytes, rfl⟩ _).bind_nil ?_
  simp only [name.decode?_bytes, String.ofList_toList, name.ofString_text]
  exact .done name _

theorem name_readsOnly (kind : NameKind) :
    (Decoder.name kind).ReadsOnly fun name front => front = name.wireBytes := by
  apply (number_readsOnly 1).bind
  intro n a ha
  split
  · apply (block_readsOnly n).bind
    intro block b hb
    split
    · next text htext =>
      cases hname : Name.ofString kind (String.ofList text) with
      | error e => exact .fail _ _
      | ok name =>
        apply (ReadsOnly.done name).mono
        intro item front h
        obtain ⟨rfl, rfl⟩ := h
        have hbytes : item.bytes = block.1 := by
          rw [Name.bytes, Utf8.ofString, Name.text_of_ofString hname, String.toList_ofList]
          exact Utf8.decode?_eq_some_iff.mp htext
        rw [ha.2, hb, List.append_nil, Name.wireBytes, hbytes, block.2]
        rfl
    · exact .fail _ _
  · exact .fail _ _

/-! ## Repetition -/

private theorem replicateFrom_eq (d : Decoder α) (items : List α) (count : Nat) :
    replicateFrom d items count = (items.reverse ++ ·) <$> replicate count d := by
  induction count generalizing items with
  | zero =>
    change Decoder.done items.reverse = Decoder.done (items.reverse ++ [])
    rw [List.append_nil]
  | succ count ih =>
    change (d >>= fun item => replicateFrom d (item :: items) count) =
      (items.reverse ++ ·) <$> (d >>= fun item => replicateFrom d [item] count)
    rw [map_bind]
    refine congrArg (d >>= ·) (funext fun item => ?_)
    rw [ih (item :: items), ih [item], Functor.map_map]
    simp only [List.reverse_cons, List.append_assoc, List.reverse_nil, List.nil_append]

theorem replicate_succ (d : Decoder α) (count : Nat) :
    replicate (count + 1) d = d >>= fun item => (item :: ·) <$> replicate count d := by
  change (d >>= fun item => replicateFrom d [item] count) = _
  refine congrArg (d >>= ·) (funext fun item => ?_)
  rw [replicateFrom_eq]
  rfl

/-- What is read of some items that stand one after another, each with the offset it starts at. -/
def placed (bytes : β → Bytes) (value : Nat → β → α) : (offset : Nat) → List β → List α
  | _, [] => []
  | offset, item :: rest =>
    value offset item :: placed bytes value (offset + (bytes item).length) rest

theorem replicate_answers {d : Decoder α} {bytes : β → Bytes} {failure? : β → Option WireError}
    {value : Nat → β → α} (items : List β)
    (h : ∀ item ∈ items, ∀ offset,
      d.Answers offset (bytes item) (outcome (failure? item) (value offset item))) (offset : Nat) :
    (replicate items.length d).Answers offset (items.flatMap bytes)
      (outcome (items.findSome? failure?) (placed bytes value offset items)) := by
  induction items generalizing offset with
  | nil => exact .done [] offset
  | cons item rest ih =>
    have hrest := ih (fun other hother => h other (List.mem_cons_of_mem _ hother))
      (offset + (bytes item).length)
    have hcons := hrest.map_outcome (value offset item :: ·)
    have hfind : (item :: rest).findSome? failure? =
        (failure? item).or (rest.findSome? failure?) := by
      rw [List.findSome?_cons]
      cases failure? item <;> rfl
    rw [List.length_cons, replicate_succ, List.flatMap_cons, hfind]
    exact (h item (List.mem_cons_self ..) offset).bind_outcome fun _ => hcons

theorem replicate_readsOnly {d : Decoder α} {allowed : β → Prop} {bytes : β → Bytes}
    (hd : d.ReadsOnly fun _ front => ∃ item, allowed item ∧ bytes item = front) (count : Nat) :
    (replicate count d).ReadsOnly fun _ front => ∃ items : List β, items.length = count ∧
      (∀ item ∈ items, allowed item) ∧ items.flatMap bytes = front := by
  induction count with
  | zero =>
    refine (ReadsOnly.done []).mono fun _ front h => ⟨[], rfl, ?_, h.2.symm⟩
    simp
  | succ count ih =>
    rw [replicate_succ]
    apply hd.bind
    intro _ a ha
    apply ReadsOnly.map
    apply ih.mono
    intro _ b hb
    obtain ⟨item, hitem, rfl⟩ := ha
    obtain ⟨items, rfl, hitems, rfl⟩ := hb
    refine ⟨item :: items, rfl, ?_, rfl⟩
    intro other hother
    rcases List.mem_cons.mp hother with rfl | hother
    · exact hitem
    · exact hitems other hother

end Decoder

end ClarityWire
