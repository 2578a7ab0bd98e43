import ClarityWire.Proofs.TreeReading

/-!
# Decoding and trees

A byte string is decoded exactly when it starts with the bytes of a tree that meets no failure, and
the value is then the value of the tree.
-/

namespace ClarityWire

namespace WireTree

/-- The value that is read of a tree, with no ranges recorded. -/
def value (tree : WireTree) : Value :=
  (tree.located false 0).value

/-- The field that is read of a tuple entry, with no ranges recorded. -/
def valueEntry (entry : ClarityName × WireTree) : ClarityName × ClarityValue :=
  (entry.1, .bare entry.2.value)

theorem map_fst_valueEntry (entries : List (ClarityName × WireTree)) :
    (entries.map valueEntry).map (·.1) = entries.map (·.1) :=
  List.map_map

theorem map_placed {α β γ : Type} {bytes : β → Bytes} {value : Nat → β → α} (f : α → γ)
    (offset : Nat) (items : List β) :
    (Decoder.placed bytes value offset items).map f =
      Decoder.placed bytes (fun offset item => f (value offset item)) offset items := by
  induction items generalizing offset with
  | nil => rfl
  | cons item rest ih => rw [Decoder.placed, List.map_cons, ih, Decoder.placed]

/-- What is read of items does not depend on where they start if it does for none of them. -/
theorem placed_eq_map {α β : Type} {bytes : β → Bytes} {value : Nat → β → α} {f : β → α}
    (items : List β) (h : ∀ item ∈ items, ∀ offset, value offset item = f item) (offset : Nat) :
    Decoder.placed bytes value offset items = items.map f := by
  induction items generalizing offset with
  | nil => rfl
  | cons item rest ih =>
    obtain ⟨hitem, hrest⟩ := List.forall_mem_cons.mp h
    rw [Decoder.placed, hitem, ih hrest, List.map_cons]

/-- Without ranges it does not matter where a tree starts. -/
theorem located_false (tree : WireTree) (offset : Nat) :
    tree.located false offset = .bare tree.value := by
  have hany : ∀ other, tree.located false offset = tree.located false other := by
    induction tree generalizing offset with
    | atom a => intro other; rfl
    | wrapped wrapper body ih =>
      intro other
      rw [located, located, ih (offset + 1) (other + 1)]
      rfl
    | list items ih =>
      intro other
      have hitems (start : Nat) : locatedItems false start items = items.map (located false 0) := by
        rw [locatedItems_eq]
        exact placed_eq_map items (fun item hitem start => ih item hitem start 0) start
      rw [located, located, hitems, hitems]
      rfl
    | tuple entries ih =>
      intro other
      have hentries (start : Nat) : locatedEntries false start entries =
          entries.map (fun entry => (entry.1, entry.2.located false 0)) := by
        rw [locatedEntries_eq]
        refine placed_eq_map entries (fun entry hentry start => ?_) start
        rw [locatedEntry, ih entry hentry _ 0]
      rw [located, located, hentries, hentries]
      rfl
  have hspan : (tree.located false 0).span = none := by cases tree <;> rfl
  rw [hany 0, Spanned.bare, value, ← hspan]

theorem value_wrapped (wrapper : Wrapper) (body : WireTree) :
    (WireTree.wrapped wrapper body).value = wrapper.value (.bare body.value) := by
  rw [value, located, located_false]

theorem value_list (items : List WireTree) :
    (WireTree.list items).value = .list (items.map fun item => .bare item.value) := by
  rw [value, located, locatedItems_eq]
  exact congrArg Value.list
    (placed_eq_map items (fun item _ offset => item.located_false offset) _)

theorem value_tuple (entries : List (ClarityName × WireTree)) :
    (WireTree.tuple entries).value = .tuple (Fields.sort (entries.map valueEntry)) := by
  rw [value, located, locatedEntries_eq]
  refine congrArg (fun fields => Value.tuple (Fields.sort fields))
    (placed_eq_map entries (fun entry _ offset => ?_) _)
  rw [locatedEntry, located_false, valueEntry]

/-! ## Trees without a failure -/

theorem sizeFailure?_eq_none_iff {n : Nat} : sizeFailure? n = none ↔ n ≤ maxValueSize := by
  rw [sizeFailure?]
  split <;> simp <;> omega

theorem depthFailure?_eq_none_iff {n : Nat} : depthFailure? n = none ↔ n ≤ maxValueDepth := by
  rw [depthFailure?]
  split <;> simp <;> omega

theorem textFailure?_utf8_eq_none_iff {bytes : Bytes} :
    (Atom.utf8 bytes).textFailure? = none ↔ Utf8.WellFormed bytes := by
  rw [Atom.textFailure?]
  split <;> simp [*]

theorem failure?_atom_eq_none_iff {depth : Nat} {a : Atom} :
    (WireTree.atom a).failure? depth = none ↔
      depth ≤ maxValueDepth ∧ a.size ≤ maxValueSize ∧ a.textFailure? = none := by
  change (depthFailure? depth).or ((sizeFailure? a.size).or a.textFailure?) = none ↔ _
  rw [Option.or_eq_none_iff, Option.or_eq_none_iff, depthFailure?_eq_none_iff,
    sizeFailure?_eq_none_iff]

theorem failure?_wrapped_eq_none_iff {depth : Nat} {wrapper : Wrapper} {body : WireTree} :
    (WireTree.wrapped wrapper body).failure? depth = none ↔
      depth ≤ maxValueDepth ∧ body.failure? (depth + 1) = none := by
  change (depthFailure? depth).or (body.failure? (depth + 1)) = none ↔ _
  rw [Option.or_eq_none_iff, depthFailure?_eq_none_iff]

theorem failure?_list_eq_none_iff {depth : Nat} {items : List WireTree} :
    (WireTree.list items).failure? depth = none ↔
      depth ≤ maxValueDepth ∧ items.length ≤ maxValueSize ∧
        ∀ item ∈ items, item.failure? (depth + 1) = none := by
  change (depthFailure? depth).or ((sizeFailure? items.length).or
    (itemsFailure? (depth + 1) items)) = none ↔ _
  rw [Option.or_eq_none_iff, Option.or_eq_none_iff, depthFailure?_eq_none_iff,
    sizeFailure?_eq_none_iff, itemsFailure?_eq, List.findSome?_eq_none_iff]

theorem failure?_tuple_eq_none_iff {depth : Nat} {entries : List (ClarityName × WireTree)} :
    (WireTree.tuple entries).failure? depth = none ↔
      depth ≤ maxValueDepth ∧ entries.length ≤ maxValueSize ∧
        (∀ entry ∈ entries, entry.2.failure? (depth + 1) = none) ∧
          (entries.map (·.1)).Nodup := by
  rw [failure?, Option.or_eq_none_iff, Option.or_eq_none_iff, Option.or_eq_none_iff,
    depthFailure?_eq_none_iff, sizeFailure?_eq_none_iff, entriesFailure?_eq,
    List.findSome?_eq_none_iff, Option.map_eq_none_iff, Fields.repeated?_eq_none_iff]

/-- The limits are far below what four bytes can hold. -/
theorem representable_of_failure? {tree : WireTree} {depth : Nat}
    (h : tree.failure? depth = none) : tree.Representable := by
  induction tree generalizing depth with
  | atom a => exact .atom (lt_of_le_maxValueSize (failure?_atom_eq_none_iff.mp h).2.1)
  | wrapped wrapper body ih => exact .wrapped (ih (failure?_wrapped_eq_none_iff.mp h).2)
  | list items ih =>
    obtain ⟨-, hcount, hitems⟩ := failure?_list_eq_none_iff.mp h
    exact .list (lt_of_le_maxValueSize hcount) fun item hitem => ih item hitem (hitems item hitem)
  | tuple entries ih =>
    obtain ⟨-, hcount, hentries, -⟩ := failure?_tuple_eq_none_iff.mp h
    exact .tuple (lt_of_le_maxValueSize hcount) fun entry hentry =>
      ih entry hentry (hentries entry hentry)

end WireTree

namespace ClarityValue

/-- At the start of a buffer it makes no difference where the counting starts. -/
theorem run_plainDecoder_zero (bytes : Bytes) :
    plainDecoder.run (Cursor.ofBuffer bytes 0) = (decoder false).run (Cursor.ofBuffer bytes 0) :=
  rfl

/-- On a cursor the counter tells what the cursor would. -/
theorem run_decoder (capture : Bool) (input : Cursor) :
    (decoder capture).run input = (Decoder.nested capture maxValueDepth).run input :=
  Decoder.run_counted_offset _ input

theorem run_plainDecoder (rest : Bytes) (offset : Nat) :
    plainDecoder.run (⟨rest, offset⟩ : Cursor) =
      ((decoder false).run (⟨rest, 0⟩ : Cursor)).map (Prod.map id (Cursor.shift offset)) := by
  have hcounted := Decoder.run_counted (Decoder.nested false maxValueDepth) rest 0 offset
  rw [Nat.zero_add] at hcounted
  rw [run_decoder]
  exact hcounted

/-- Reading from a cursor on the bytes of a tree. -/
theorem run_decoder_bytes {tree : WireTree} (h : tree.Representable) (capture : Bool)
    (rest : Bytes) (offset : Nat) :
    (decoder capture).run (⟨tree.bytes ++ rest, offset⟩ : Cursor) =
      (outcome (tree.failure? 0) (tree.located capture offset)).map
        fun node => (node, ⟨rest, offset + tree.bytes.length⟩) := by
  rw [run_decoder]
  exact Decoder.atDepth_answers h 0 offset rest

/-- Reading succeeds exactly in front of a tree without a failure, and stops behind it. -/
theorem run_decoder_eq_ok_iff {capture : Bool} {input last : Cursor} {node : ClarityValue} :
    (decoder capture).run input = .ok (node, last) ↔
      ∃ tree : WireTree, tree.failure? 0 = none ∧ input.rest = tree.bytes ++ last.rest ∧
        last.offset = input.offset + tree.bytes.length ∧
          node = tree.located capture input.offset := by
  constructor
  · intro hrun
    have hreads : (Decoder.nested capture maxValueDepth).ReadsOnly fun _ front =>
        Decoder.SpellsTree front := Decoder.atDepth_readsOnly 0
    have hnested := hrun
    rw [run_decoder] at hnested
    obtain ⟨front, hfront, tree, htree, rfl⟩ := hreads input node last hnested
    have hanswer := run_decoder_bytes htree capture last.rest input.offset
    rw [← hfront, show (⟨input.rest, input.offset⟩ : Cursor) = input from rfl, hrun] at hanswer
    cases hfail : tree.failure? 0 with
    | some e => rw [hfail] at hanswer; cases hanswer
    | none =>
      rw [hfail] at hanswer
      have hpair := Except.ok.inj hanswer
      exact ⟨tree, hfail, hfront, congrArg (·.2.offset) hpair, congrArg (·.1) hpair⟩
  · rintro ⟨tree, hfail, hfront, hoffset, rfl⟩
    have hanswer := run_decoder_bytes (WireTree.representable_of_failure? hfail) capture last.rest
      input.offset
    rw [← hfront, hfail, ← hoffset] at hanswer
    exact hanswer

end ClarityValue

namespace Value

theorem run_decoder (bytes : Bytes) :
    decoder.run (Cursor.ofBuffer bytes 0) =
      ((ClarityValue.decoder false).run (Cursor.ofBuffer bytes 0)).map fun (node, last) =>
        (node.value, last) := by
  rw [decoder, map_eq_pure_bind, Decoder.run_andThen, ClarityValue.run_plainDecoder_zero]
  cases (ClarityValue.decoder false).run (Cursor.ofBuffer bytes 0) <;> rfl

/-- What decoding the bytes of a tree gives, whatever follows them. -/
theorem decodeFront_bytes {tree : WireTree} (h : tree.Representable) (rest : Bytes) :
    decoder.decodeFront (tree.bytes ++ rest) =
      (outcome (tree.failure? 0) tree.value).map fun value => (value, tree.bytes.length) := by
  have hrun := ClarityValue.run_decoder_bytes h false rest 0
  rw [Decoder.decodeFront, run_decoder, Cursor.ofBuffer, List.drop_zero, hrun, Nat.zero_add]
  cases tree.failure? 0 <;> rfl

/-- Decoding the front succeeds exactly when a tree without a failure stands there. -/
theorem decodeFront_eq_ok_iff_tree {bytes : Bytes} {value : Value} {n : Nat} :
    decoder.decodeFront bytes = .ok (value, n) ↔
      ∃ (tree : WireTree) (rest : Bytes), tree.failure? 0 = none ∧ bytes = tree.bytes ++ rest ∧
        n = tree.bytes.length ∧ value = tree.value := by
  constructor
  · intro h
    rw [Decoder.decodeFront, run_decoder, Cursor.ofBuffer, List.drop_zero] at h
    cases hrun : (ClarityValue.decoder false).run (⟨bytes, 0⟩ : Cursor) with
    | error e => rw [hrun] at h; cases h
    | ok read =>
      obtain ⟨node, last⟩ := read
      rw [hrun] at h
      cases h
      obtain ⟨tree, hfail, hfront, hoffset, rfl⟩ := ClarityValue.run_decoder_eq_ok_iff.mp hrun
      exact ⟨tree, last.rest, hfail, hfront, by rw [hoffset]; exact Nat.zero_add _, rfl⟩
  · rintro ⟨tree, rest, hfail, rfl, rfl, rfl⟩
    rw [decodeFront_bytes (WireTree.representable_of_failure? hfail), hfail]
    rfl

/-- Decoding the whole succeeds exactly on the bytes of trees without a failure. -/
theorem decode_eq_ok_iff_tree {bytes : Bytes} {value : Value} :
    decoder.decode bytes = .ok value ↔
      ∃ tree : WireTree, tree.failure? 0 = none ∧ tree.bytes = bytes ∧ tree.value = value := by
  constructor
  · intro h
    cases hfront : decoder.decodeFront bytes with
    | error e => rw [Decoder.decode, hfront] at h; cases h
    | ok read =>
      obtain ⟨front, n⟩ := read
      obtain ⟨tree, rest, hfail, hbytes, rfl, rfl⟩ := decodeFront_eq_ok_iff_tree.mp hfront
      rw [Decoder.decode, hfront] at h
      by_cases hall : tree.bytes.length = bytes.length
      · have hrest : rest = [] := by
          rw [hbytes, List.length_append] at hall
          exact List.length_eq_zero_iff.mp (by omega)
        rw [hrest, List.append_nil] at hbytes
        simp only [hall, if_true, Except.ok.injEq] at h
        exact ⟨tree, hfail, hbytes.symm, h⟩
      · simp only [hall, if_false] at h
        cases h
  · rintro ⟨tree, hfail, rfl, rfl⟩
    have hfront := decodeFront_bytes (WireTree.representable_of_failure? hfail) []
    rw [List.append_nil, hfail] at hfront
    rw [Decoder.decode, hfront]
    simp only [outcome, Except.map, if_true]

end Value

end ClarityWire
