import ClarityWire.Proofs.Grammar

/-!
# Failures inside values that are not complete

An opening is the front of a value that ends where a value inside it is due. What stands in front of
that place is read without a failure, and neither the end of the value nor a check that comes after
its last entry is reached. So whatever is wrong at the place is what the decoder reports, however
deep it is and whatever follows.
-/

namespace ClarityWire

/-- An opening of a value found at a given depth. The keys of a tuple may repeat. -/
inductive Opening (depth : Nat) : Bytes → Prop
  | responseOk : Opening depth [0x07]
  | responseErr : Opening depth [0x08]
  | optionalSome : Opening depth [0x0a]
  | list {count : Nat} {items : List (Bytes × Value)} (hcount : count ≤ maxValueSize)
    (hshort : items.length < count) (hitems : ∀ item ∈ items, Wire (depth + 1) item.1 item.2) :
    Opening depth (0x0b :: (Bytes.ofNat 4 count ++ items.flatMap fun item => item.1))
  | tuple {count : Nat} {entries : List (ClarityName × Bytes × Value)} (key : ClarityName)
    (hcount : count ≤ maxValueSize) (hshort : entries.length < count)
    (hentries : ∀ entry ∈ entries, Wire (depth + 1) entry.2.1 entry.2.2) :
    Opening depth (0x0c :: (Bytes.ofNat 4 count ++
      ((entries.flatMap fun entry => entry.1.wireBytes ++ entry.2.1) ++ key.wireBytes)))

/-- Openings from a given depth on, each directly inside the one before it. -/
inductive Openings : (depth count : Nat) → Bytes → Prop
  | none (depth : Nat) : Openings depth 0 []
  | more {depth count : Nat} {first rest : Bytes} (opening : Opening depth first)
    (inner : Openings (depth + 1) count rest) : Openings depth (count + 1) (first ++ rest)

theorem Openings.replicate_optionalSome (depth count : Nat) :
    Openings depth count (List.replicate count 0x0a) := by
  induction count generalizing depth with
  | zero => exact .none depth
  | succ count ih => exact .more .optionalSome (ih (depth + 1))

namespace Decoder

variable {α : Type} {capture : Bool}

/-- Reading some items fails where one of them does. -/
theorem replicate_answers_error {d : Decoder α} {fronts : List Bytes} {count : Nat}
    {front : Bytes} {e : WireError} (hshort : fronts.length < count)
    (hfronts : ∀ other ∈ fronts, ∀ offset, ∃ value, d.Answers offset other (.ok value))
    (hfront : ∀ offset, d.Answers offset front (.error e)) (offset : Nat) :
    (replicate count d).Answers offset (fronts.flatten ++ front) (.error e) := by
  induction fronts generalizing count offset with
  | nil =>
    obtain ⟨count, rfl⟩ := Nat.exists_eq_add_one.mpr hshort
    have hfirst :=
      (hfront offset).bind_error (f := fun item => (item :: ·) <$> replicate count d) []
    rw [List.append_nil] at hfirst
    rw [replicate_succ, List.flatten_nil, List.nil_append]
    exact hfirst
  | cons first others ih =>
    obtain ⟨count, rfl⟩ := Nat.exists_eq_add_one.mpr (Nat.zero_lt_of_lt hshort)
    obtain ⟨hfirst, hothers⟩ := List.forall_mem_cons.mp hfronts
    obtain ⟨value, hvalue⟩ := hfirst offset
    rw [replicate_succ, List.flatten_cons, List.append_assoc]
    apply hvalue.bind
    exact (ih (Nat.lt_of_succ_lt_succ hshort) hothers (offset + first.length)).map (value :: ·)

/-- What the grammar derives is read wherever it stands. -/
theorem exists_answers_of_wire {depth : Nat} {bytes : Bytes} {value : Value}
    (h : Wire depth bytes value) (offset : Nat) :
    ∃ node, (atDepth capture depth).Answers offset bytes (.ok node) := by
  obtain ⟨tree, hfail, hderived⟩ := WireTree.exists_of_wire h
  obtain ⟨rfl, -⟩ := Prod.mk.inj hderived
  have hanswers : (atDepth capture depth).Answers offset tree.bytes
      (outcome (tree.failure? depth) (tree.located capture offset)) :=
    atDepth_answers (WireTree.representable_of_failure? hfail) depth offset
  rw [hfail] at hanswers
  exact ⟨_, hanswers⟩

private theorem node_answers_error (tag : TypeTag) {child : Decoder ClarityValue} {body : Bytes}
    {e : WireError} {offset : Nat} (h : (content child tag).Answers (offset + 1) body (.error e)) :
    (node capture child).Answers offset (tag.toByte :: body) (.error e) := by
  have hcontent : (content child tag).Answers (offset + 1) body
      (outcome (some e) Value.optionalNone) := h
  exact node_answers hcontent

/-! ## One opening -/

private theorem counted_answers_error {d : Decoder α} {f : List α → Decoder Value} {count : Nat}
    {fronts : List Bytes} {front : Bytes} {e : WireError} (hcount : count ≤ maxValueSize)
    (hshort : fronts.length < count)
    (hfronts : ∀ other ∈ fronts, ∀ offset, ∃ value, d.Answers offset other (.ok value))
    (hfront : ∀ offset, d.Answers offset front (.error e)) (offset : Nat) :
    (do let count ← Decoder.length; let items ← replicate count d; f items : Decoder Value).Answers
      offset (Bytes.ofNat 4 count ++ (fronts.flatten ++ front)) (.error e) := by
  have hheader := length_answers (lt_of_le_maxValueSize hcount) offset
  rw [WireTree.sizeFailure?_eq_none_iff.mpr hcount] at hheader
  apply hheader.bind
  have hitems := (replicate_answers_error hshort hfronts hfront
    (offset + (Bytes.ofNat 4 count).length)).bind_error (f := f) []
  rwa [List.append_nil] at hitems

/-- A failure at the place where an opening ends is a failure of the whole. -/
theorem atDepth_answers_of_opening {depth : Nat} {opened front : Bytes} {e : WireError}
    (h : Opening depth opened) (hdepth : depth ≤ maxValueDepth)
    (hfront : ∀ offset, (atDepth capture (depth + 1)).Answers offset front (.error e))
    (offset : Nat) : (atDepth capture depth).Answers offset (opened ++ front) (.error e) := by
  rw [atDepth_of_le hdepth]
  cases h with
  | responseOk => exact node_answers_error .responseOk ((hfront _).map Value.responseOk)
  | responseErr => exact node_answers_error .responseErr ((hfront _).map Value.responseErr)
  | optionalSome => exact node_answers_error .optionalSome ((hfront _).map Value.optionalSome)
  | @list count items hcount hshort hitems =>
    have hfronts : ∀ other ∈ items.map (·.1), ∀ offset,
        ∃ node, (atDepth capture (depth + 1)).Answers offset other (.ok node) := by
      intro other hother offset
      obtain ⟨item, hitem, rfl⟩ := List.mem_map.mp hother
      exact exists_answers_of_wire (hitems item hitem) offset
    rw [← List.length_map (·.1)] at hshort
    have hcontent := counted_answers_error (f := fun items => return .list items) hcount hshort
      hfronts hfront (offset + 1)
    rw [List.cons_append, List.append_assoc, List.flatMap_def]
    exact node_answers_error .list hcontent
  | @tuple count entries key hcount hshort hentries =>
    have hfronts : ∀ other ∈ entries.map fun entry => entry.1.wireBytes ++ entry.2.1, ∀ offset,
        ∃ read, (field (atDepth capture (depth + 1))).Answers offset other (.ok read) := by
      intro other hother offset
      obtain ⟨entry, hentry, rfl⟩ := List.mem_map.mp hother
      obtain ⟨node, hnode⟩ := exists_answers_of_wire (hentries entry hentry)
        (offset + entry.1.wireBytes.length)
      exact ⟨(entry.1, node), (name_answers entry.1 offset).bind (hnode.map (entry.1, ·))⟩
    -- the next key is read as well, and then the failing place is reached
    have hkey : ∀ offset, (field (atDepth capture (depth + 1))).Answers offset
        (key.wireBytes ++ front) (.error e) := fun offset =>
      (name_answers key offset).bind ((hfront _).map (key, ·))
    rw [← List.length_map (fun entry => entry.1.wireBytes ++ entry.2.1)] at hshort
    have hcontent := counted_answers_error
      (f := fun entries => match Fields.ofList entries with
        | .ok fields => return .tuple fields
        | .error name => .fail (.duplicateKey name))
      hcount hshort hfronts hkey (offset + 1)
    rw [List.cons_append, List.append_assoc, List.append_assoc, List.flatMap_def]
    exact node_answers_error .tuple hcontent

/-- A failure inside nested openings is a failure of the whole. -/
theorem atDepth_answers_of_openings {depth count : Nat} {opened front : Bytes} {e : WireError}
    (h : Openings depth count opened) (hdepth : depth + count ≤ maxValueDepth + 1)
    (hfront : ∀ offset, (atDepth capture (depth + count)).Answers offset front (.error e))
    (offset : Nat) : (atDepth capture depth).Answers offset (opened ++ front) (.error e) := by
  induction h generalizing offset with
  | none depth => exact hfront offset
  | @more depth count first rest hopening _ ih =>
    have hsum : depth + 1 + count = depth + (count + 1) := by omega
    rw [hsum] at ih
    rw [List.append_assoc]
    exact atDepth_answers_of_opening hopening (by omega) (ih hdepth hfront) offset

/-! ## What may be wrong at the place -/

theorem atDepth_answers_depthExceeded (offset : Nat) :
    (atDepth capture (maxValueDepth + 1)).Answers offset []
      (.error (.depthExceeded maxValueDepth)) := by
  rw [atDepth, if_neg (Nat.not_succ_le_self maxValueDepth)]
  exact .fail _ _ _

theorem atDepth_answers_badTypeTag {depth : Nat} (hdepth : depth ≤ maxValueDepth) {byte : UInt8}
    (hbyte : 14 < byte) (offset : Nat) :
    (atDepth capture depth).Answers offset [byte] (.error (.badTypeTag byte)) := by
  have htag : TypeTag.ofByte? byte = none := by
    cases h : TypeTag.ofByte? byte with
    | none => rfl
    | some tag =>
      have hle : tag.toByte ≤ 14 := by cases tag <;> decide
      rw [TypeTag.toByte_of_ofByte? h] at hle
      exact absurd hbyte (UInt8.not_lt.mpr hle)
  rw [atDepth_of_le hdepth]
  apply Answers.position
  apply (byte_answers byte offset).bind_nil
  simp only [htag]
  exact .fail _ _ _

private theorem length_bind_answers_error {f : Nat → Decoder α} {n : Nat} (hlt : n < 256 ^ 4)
    (hlarge : maxValueSize < n) (offset : Nat) :
    (Decoder.length >>= f).Answers offset (Bytes.ofNat 4 n)
      (.error (.oversized n maxValueSize)) := by
  have hlength := length_answers hlt offset
  rw [sizeFailure?, if_pos hlarge] at hlength
  have h := hlength.bind_error (f := f) []
  rwa [List.append_nil] at h

theorem atDepth_answers_oversized {depth : Nat} (hdepth : depth ≤ maxValueDepth) {tag : UInt8}
    (htag : tag ∈ ([0x02, 0x0b, 0x0c, 0x0d, 0x0e] : Bytes)) {n : Nat} (hlt : n < 256 ^ 4)
    (hlarge : maxValueSize < n) (offset : Nat) :
    (atDepth capture depth).Answers offset (tag :: Bytes.ofNat 4 n)
      (.error (.oversized n maxValueSize)) := by
  have hbytes : sizedBytes.Answers (offset + 1) (Bytes.ofNat 4 n)
      (.error (.oversized n maxValueSize)) := length_bind_answers_error hlt hlarge _
  rw [atDepth_of_le hdepth]
  simp only [List.mem_cons, List.not_mem_nil, or_false] at htag
  rcases htag with rfl | rfl | rfl | rfl | rfl
  · exact node_answers_error .buffer (hbytes.map Value.buffer)
  · exact node_answers_error .list (length_bind_answers_error hlt hlarge _)
  · exact node_answers_error .tuple (length_bind_answers_error hlt hlarge _)
  · exact node_answers_error .ascii (hbytes.map Value.ascii)
  · rw [← List.append_nil (Bytes.ofNat 4 n)]
    exact node_answers_error .utf8 (hbytes.bind_error [])

end Decoder

namespace Value

private theorem decodeFront_of_answers_error {front : Bytes} {e : WireError}
    (h : (Decoder.atDepth false 0).Answers 0 front (.error e)) (rest : Bytes) :
    decoder.decodeFront (front ++ rest) = .error e := by
  have hrun : (ClarityValue.decoder false).run (⟨front ++ rest, 0⟩ : Cursor) = .error e := by
    rw [ClarityValue.run_decoder]
    exact h rest
  rw [Decoder.decodeFront, run_decoder, Cursor.ofBuffer, List.drop_zero, hrun]
  rfl

private theorem decodeFront_inside {count : Nat} {opened front : Bytes} {e : WireError}
    (h : Openings 0 count opened) (hcount : count ≤ maxValueDepth + 1)
    (hfront : ∀ offset, (Decoder.atDepth false count).Answers offset front (.error e))
    (rest : Bytes) : decoder.decodeFront (opened ++ front ++ rest) = .error e := by
  rw [← Nat.zero_add count] at hcount hfront
  exact decodeFront_of_answers_error
    (Decoder.atDepth_answers_of_openings h hcount hfront 0) rest

/-- Inside openings the limits and the types are checked at once: nothing that follows matters, and
nothing that stands in front is reported instead. -/
theorem decodeFront_openings {count : Nat} {opened : Bytes} (h : Openings 0 count opened)
    (rest : Bytes) :
    (count = 17 → decoder.decodeFront (opened ++ rest) = .error (.depthExceeded 16)) ∧
      (count ≤ 16 →
        (∀ tag ∈ ([0x02, 0x0b, 0x0c, 0x0d, 0x0e] : Bytes), ∀ n : Nat, 1048576 < n → n < 2 ^ 32 →
          decoder.decodeFront (opened ++ [tag] ++ Bytes.ofNat 4 n ++ rest) =
            .error (.oversized n 1048576)) ∧
        ∀ tag : UInt8, 14 < tag →
          decoder.decodeFront (opened ++ [tag] ++ rest) = .error (.badTypeTag tag)) := by
  refine ⟨?_, ?_⟩
  · rintro rfl
    have hfail := decodeFront_inside h (Nat.le_refl 17) Decoder.atDepth_answers_depthExceeded rest
    rw [List.append_nil] at hfail
    exact hfail
  · intro hcount
    have hplace : count ≤ maxValueDepth + 1 := Nat.le_succ_of_le hcount
    refine ⟨?_, ?_⟩
    · intro tag htag n hlarge hlt
      rw [List.append_assoc opened]
      exact decodeFront_inside h hplace
        (Decoder.atDepth_answers_oversized hcount htag hlt hlarge) rest
    · intro tag htag
      exact decodeFront_inside h hplace (Decoder.atDepth_answers_badTypeTag hcount htag) rest

/-- A tuple of three fields up to a key that it already has, and there a list of two items up to
its second. -/
def repeatedKeyOpened : Bytes :=
  [0x0c, 0, 0, 0, 3, 1, 0x61, 0x03, 1, 0x61, 0x0b, 0, 0, 0, 2, 0x04]

theorem openings_repeatedKeyOpened : Openings 0 2 repeatedKeyOpened := by
  have hfields : ∀ entry ∈ [((⟨"a", by decide⟩ : ClarityName), ([0x03] : Bytes), Value.bool true)],
      Wire 1 entry.2.1 entry.2.2 := List.forall_mem_singleton.mpr (.boolTrue (by decide))
  have hitems : ∀ item ∈ [(([0x04] : Bytes), Value.bool false)], Wire 2 item.1 item.2 :=
    List.forall_mem_singleton.mpr (.boolFalse (by decide))
  have htuple := Opening.tuple ⟨"a", by decide⟩ (by decide : 3 ≤ maxValueSize) (by decide) hfields
  have hlist : Opening 1 [0x0b, 0, 0, 0, 2, 0x04] :=
    .list (by decide : 2 ≤ maxValueSize) (by decide) hitems
  exact Openings.more htuple (.more hlist (.none 2))

theorem decodeFront_openings_repeatedKeyOpened :
    decoder.decodeFront (List.replicate 17 0x0a ++ [0x03]) = .error (.depthExceeded 16) ∧
      decoder.decodeFront (repeatedKeyOpened ++ [0x0e] ++ Bytes.ofNat 4 1048577 ++ []) =
          .error (.oversized 1048577 1048576) ∧
        decoder.decodeFront (repeatedKeyOpened ++ [0x0f] ++ [0x00]) =
          .error (.badTypeTag 0x0f) := by
  have hdeep := decodeFront_openings (Openings.replicate_optionalSome 0 17) [0x03]
  have hlarge := decodeFront_openings openings_repeatedKeyOpened []
  have hbad := decodeFront_openings openings_repeatedKeyOpened [0x00]
  exact ⟨hdeep.1 rfl, (hlarge.2 (by decide)).1 0x0e (by decide) 1048577 (by decide) (by decide),
    (hbad.2 (by decide)).2 0x0f (by decide)⟩

end Value

end ClarityWire
