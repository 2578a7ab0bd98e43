import ClarityWire.Proofs.WireTree

/-!
# Reading trees

The decoder of values reads exactly trees. On the bytes of a tree it meets the tree's first
failure or reads the tree's value, and whenever it has read a value, the bytes it took are those of
a tree.
-/

namespace ClarityWire

namespace WireTree

/-! ## Lists of trees -/

/-- The bytes of a tuple entry. -/
def entryText (entry : ClarityName × WireTree) : Bytes :=
  entry.1.wireBytes ++ entry.2.bytes

/-- The field that is read of a tuple entry at a given offset. -/
def locatedEntry (capture : Bool) (offset : Nat) (entry : ClarityName × WireTree) :
    ClarityName × ClarityValue :=
  (entry.1, entry.2.located capture (offset + entry.1.wireBytes.length))

theorem itemBytes_eq (items : List WireTree) : itemBytes items = items.flatMap bytes := by
  induction items with
  | nil => rfl
  | cons item rest ih => rw [itemBytes, ih, List.flatMap_cons]

theorem entryBytes_eq (entries : List (ClarityName × WireTree)) :
    entryBytes entries = entries.flatMap entryText := by
  induction entries with
  | nil => rfl
  | cons entry rest ih => rw [entryBytes, ih, List.flatMap_cons, entryText]

theorem itemsFailure?_eq (depth : Nat) (items : List WireTree) :
    itemsFailure? depth items = items.findSome? (failure? depth) := by
  induction items with
  | nil => rfl
  | cons item rest ih =>
    rw [itemsFailure?, ih, List.findSome?_cons]
    cases failure? depth item <;> rfl

theorem entriesFailure?_eq (depth : Nat) (entries : List (ClarityName × WireTree)) :
    entriesFailure? depth entries = entries.findSome? fun entry => entry.2.failure? depth := by
  induction entries with
  | nil => rfl
  | cons entry rest ih =>
    rw [entriesFailure?, ih, List.findSome?_cons]
    cases failure? depth entry.2 <;> rfl

theorem locatedItems_eq (capture : Bool) (offset : Nat) (items : List WireTree) :
    locatedItems capture offset items = Decoder.placed bytes (located capture) offset items := by
  induction items generalizing offset with
  | nil => rfl
  | cons item rest ih => rw [locatedItems, ih, Decoder.placed]

theorem locatedEntries_eq (capture : Bool) (offset : Nat)
    (entries : List (ClarityName × WireTree)) :
    locatedEntries capture offset entries =
      Decoder.placed entryText (locatedEntry capture) offset entries := by
  induction entries generalizing offset with
  | nil => rfl
  | cons entry rest ih =>
    rw [locatedEntries, ih, Decoder.placed, entryText, List.length_append, Nat.add_assoc]
    rfl

theorem map_fst_locatedEntries (capture : Bool) (offset : Nat)
    (entries : List (ClarityName × WireTree)) :
    (locatedEntries capture offset entries).map (·.1) = entries.map (·.1) := by
  induction entries generalizing offset with
  | nil => rfl
  | cons entry rest ih => rw [locatedEntries, List.map_cons, List.map_cons, ih]

end WireTree

theorem lt_of_le_maxValueSize {n : Nat} (h : n ≤ maxValueSize) : n < 256 ^ 4 :=
  Nat.lt_of_le_of_lt h (by decide)

theorem TypeTag.ofByte?_toByte (tag : TypeTag) : TypeTag.ofByte? tag.toByte = some tag := by
  cases tag <;> rfl

theorem TypeTag.toByte_injective {t u : TypeTag} (h : t.toByte = u.toByte) : t = u := by
  have hsome := congrArg TypeTag.ofByte? h
  rw [TypeTag.ofByte?_toByte, TypeTag.ofByte?_toByte] at hsome
  exact Option.some.inj hsome

theorem TypeTag.toByte_of_ofByte? {byte : UInt8} {tag : TypeTag}
    (h : TypeTag.ofByte? byte = some tag) : tag.toByte = byte := by
  apply UInt8.toNat_inj.mp
  unfold TypeTag.ofByte? at h
  split at h <;> cases h <;> simp only [TypeTag.toByte, *] <;> rfl

namespace Decoder

variable {capture : Bool}

/-- The decoder of values found at a given depth. -/
def atDepth (capture : Bool) (depth : Nat) : Decoder ClarityValue :=
  if depth ≤ maxValueDepth then nested capture (maxValueDepth - depth)
  else .fail (.depthExceeded maxValueDepth)

theorem atDepth_of_le {depth : Nat} (h : depth ≤ maxValueDepth) :
    atDepth capture depth = node capture (atDepth capture (depth + 1)) := by
  rw [atDepth, if_pos h, atDepth]
  by_cases hlast : depth = maxValueDepth
  · rw [if_neg (by omega), hlast, Nat.sub_self, nested]
  · rw [if_pos (by omega), show maxValueDepth - depth = maxValueDepth - (depth + 1) + 1 by omega,
      nested]

/-! ## One value -/

theorem node_answers {child : Decoder ClarityValue} {tag : TypeTag} {body : Bytes}
    {failure? : Option WireError} {value : Value} {offset : Nat}
    (h : (content child tag).Answers (offset + 1) body (outcome failure? value)) :
    (node capture child).Answers offset (tag.toByte :: body)
      (outcome failure? ⟨value, spanAt capture offset (offset + 1 + body.length)⟩) := by
  refine .position ((byte_answers tag.toByte offset).bind ?_)
  simp only [TypeTag.ofByte?_toByte]
  rw [← List.append_nil body, ← Option.or_none (o := failure?)]
  refine h.bind_outcome fun _ => .position ?_
  rw [List.append_nil]
  exact .done _ _

theorem node_readsOnly {child : Decoder ClarityValue} {spelled : Bytes → Prop}
    (h : ∀ tag, (content child tag).ReadsOnly fun _ body => spelled (tag.toByte :: body)) :
    (node capture child).ReadsOnly fun _ front => spelled front := by
  refine .position fun start => byte_readsOnly.bind fun byte a ha => ?_
  split
  · exact .fail _ _
  · next tag htag =>
    refine (h tag).bind fun value body hbody => .position fun stop => ?_
    apply (ReadsOnly.done _).mono
    intro item front hdone
    rw [hdone.2, List.append_nil, ha, ← TypeTag.toByte_of_ofByte? htag]
    exact hbody

/-! ## Contents -/

theorem utf8_answers {bytes : Bytes} (h : bytes.length < 256 ^ 4) (offset : Nat) :
    (do
      let bytes ← sizedBytes
      match Value.ofUtf8? bytes with
      | some value => return value
      | none => .fail .invalidUtf8 : Decoder Value).Answers offset bytes.sized
      (outcome ((sizeFailure? bytes.length).or (if Utf8.WellFormed bytes then none
        else some .invalidUtf8)) (.utf8 (Utf8.scalars bytes))) := by
  rw [← List.append_nil bytes.sized]
  apply (sizedBytes_answers h offset).bind_outcome
  intro _
  by_cases hform : Utf8.WellFormed bytes
  · obtain ⟨text, rfl⟩ := hform
    have hvalue : Value.ofUtf8? (Utf8.encode text) = some (Value.ofText text) := by
      rw [Value.ofUtf8?, Utf8.decode?_encode, Option.map_some]
    rw [if_pos ⟨text, rfl⟩, Utf8.scalars_encode]
    simp only [hvalue]
    exact .done _ _
  · have hvalue : Value.ofUtf8? bytes = none := by
      rw [Value.ofUtf8?, Utf8.decode?_eq_none_iff.mpr hform, Option.map_none]
    rw [if_neg hform]
    simp only [hvalue]
    exact .fail _ _ _

theorem atom_answers (child : Decoder ClarityValue) {a : Atom} (h : a.size < 256 ^ 4)
    (offset : Nat) :
    (content child a.tag).Answers offset a.body
      (outcome ((sizeFailure? a.size).or a.textFailure?) a.value) := by
  cases a with
  | int bits => exact (word128_answers bits offset).map Value.int
  | uint bits => exact (word128_answers bits offset).map Value.uint
  | buffer bytes =>
    have htext : (Atom.buffer bytes).textFailure? = none := rfl
    rw [htext, Option.or_none]
    exact (sizedBytes_answers h offset).map_outcome Value.buffer
  | bool value => cases value <;> exact .done _ _
  | principal address => exact (stacksAddress_answers address offset).map Value.principal
  | contract id =>
    apply (stacksAddress_answers id.issuer offset).bind
    exact (name_answers id.name _).bind_nil (.done _ _)
  | optionalNone => exact .done _ _
  | ascii bytes =>
    have htext : (Atom.ascii bytes).textFailure? = none := rfl
    rw [htext, Option.or_none]
    exact (sizedBytes_answers h offset).map_outcome Value.ascii
  | utf8 bytes => exact utf8_answers h offset

theorem wrapped_answers {child : Decoder ClarityValue} {wrapper : Wrapper} {body : Bytes}
    {failure? : Option WireError} {value : ClarityValue} {offset : Nat}
    (h : child.Answers offset body (outcome failure? value)) :
    (content child wrapper.tag).Answers offset body (outcome failure? (wrapper.value value)) := by
  cases wrapper with
  | responseOk => exact h.map_outcome Value.responseOk
  | responseErr => exact h.map_outcome Value.responseErr
  | optionalSome => exact h.map_outcome Value.optionalSome

theorem list_answers {child : Decoder ClarityValue} {failure? : WireTree → Option WireError}
    {items : List WireTree} (hcount : items.length < 256 ^ 4) (offset : Nat)
    (h : ∀ item ∈ items, ∀ offset, child.Answers offset item.bytes
      (outcome (failure? item) (item.located capture offset))) :
    (content child .list).Answers offset (Bytes.ofNat 4 items.length ++ WireTree.itemBytes items)
      (outcome ((sizeFailure? items.length).or (items.findSome? failure?))
        (.list (WireTree.locatedItems capture (offset + 4) items))) := by
  rw [WireTree.itemBytes_eq, WireTree.locatedItems_eq]
  apply (length_answers hcount offset).bind_outcome
  intro _
  rw [Bytes.length_ofNat]
  exact (replicate_answers items h (offset + 4)).map_outcome Value.list

theorem field_answers {child : Decoder ClarityValue} {entry : ClarityName × WireTree}
    {failure? : Option WireError} {offset : Nat}
    (h : ∀ offset, child.Answers offset entry.2.bytes
      (outcome failure? (entry.2.located capture offset))) :
    (field child).Answers offset (WireTree.entryText entry)
      (outcome failure? (WireTree.locatedEntry capture offset entry)) := by
  apply (name_answers entry.1 offset).bind
  exact (h _).map_outcome fun value => (entry.1, value)

theorem tuple_answers {child : Decoder ClarityValue} {failure? : WireTree → Option WireError}
    {entries : List (ClarityName × WireTree)} (hcount : entries.length < 256 ^ 4) (offset : Nat)
    (h : ∀ entry ∈ entries, ∀ offset, child.Answers offset entry.2.bytes
      (outcome (failure? entry.2) (entry.2.located capture offset))) :
    (content child .tuple).Answers offset
      (Bytes.ofNat 4 entries.length ++ WireTree.entryBytes entries)
      (outcome ((sizeFailure? entries.length).or
          ((entries.findSome? fun entry => failure? entry.2).or
            ((Fields.repeated? (entries.map (·.1))).map .duplicateKey)))
        (.tuple (Fields.sort (WireTree.locatedEntries capture (offset + 4) entries)))) := by
  have hfields : ∀ entry ∈ entries, ∀ offset, (field child).Answers offset
      (WireTree.entryText entry)
      (outcome (failure? entry.2) (WireTree.locatedEntry capture offset entry)) :=
    fun entry hentry offset => field_answers (h entry hentry)
  have hread := replicate_answers entries hfields (offset + 4)
  rw [← WireTree.locatedEntries_eq, ← WireTree.entryBytes_eq] at hread
  apply (length_answers hcount offset).bind_outcome
  intro _
  rw [Bytes.length_ofNat, ← List.append_nil (WireTree.entryBytes entries)]
  apply hread.bind_outcome
  intro _
  rw [Fields.ofList_eq, WireTree.map_fst_locatedEntries]
  cases Fields.repeated? (entries.map (·.1)) with
  | some name => exact .fail _ _ _
  | none => exact .done _ _

/-! ## Whole trees -/

private theorem depth_answers {depth offset : Nat} {front : Bytes} {failure? : Option WireError}
    {value : ClarityValue}
    (h : (node capture (atDepth capture (depth + 1))).Answers offset front
      (outcome failure? value)) :
    (atDepth capture depth).Answers offset front
      (outcome ((depthFailure? depth).or failure?) value) := by
  by_cases hdepth : depth ≤ maxValueDepth
  · rw [atDepth_of_le hdepth, depthFailure?, if_neg (Nat.not_lt.mpr hdepth), Option.none_or]
    exact h
  · rw [atDepth, if_neg hdepth, depthFailure?, if_pos (Nat.not_le.mp hdepth)]
    exact .fail _ _ _

private theorem length_header (count : Nat) (bytes : Bytes) :
    (Bytes.ofNat 4 count ++ bytes).length = 4 + bytes.length := by
  rw [List.length_append, Bytes.length_ofNat]

/-- On the bytes of a tree the decoder meets the tree's first failure or reads its value. -/
theorem atDepth_answers {tree : WireTree} (h : tree.Representable) (depth offset : Nat) :
    (atDepth capture depth).Answers offset tree.bytes
      (outcome (tree.failure? depth) (tree.located capture offset)) := by
  induction tree generalizing depth offset with
  | atom a =>
    cases h with
    | atom hsize => exact depth_answers (node_answers (atom_answers _ hsize _))
  | wrapped wrapper body ih =>
    cases h with
    | wrapped hbody =>
      exact depth_answers (node_answers (wrapped_answers (ih hbody (depth + 1) (offset + 1))))
  | list items ih =>
    cases h with
    | list hcount hitems =>
      have hlist := list_answers hcount (offset + 1) fun item hitem offset =>
        ih item hitem (hitems item hitem) (depth + 1) offset
      have hnode := depth_answers (node_answers hlist)
      rw [length_header, ← WireTree.itemsFailure?_eq,
        show offset + 1 + (4 + (WireTree.itemBytes items).length) =
          offset + 5 + (WireTree.itemBytes items).length by omega] at hnode
      exact hnode
  | tuple entries ih =>
    cases h with
    | tuple hcount hentries =>
      have htuple := tuple_answers hcount (offset + 1) fun entry hentry offset =>
        ih entry hentry (hentries entry hentry) (depth + 1) offset
      have hnode := depth_answers (node_answers htuple)
      rw [length_header, ← WireTree.entriesFailure?_eq,
        show offset + 1 + (4 + (WireTree.entryBytes entries).length) =
          offset + 5 + (WireTree.entryBytes entries).length by omega] at hnode
      exact hnode

/-! ## Nothing else is read -/

/-- Whether bytes are those of a tree. -/
def SpellsTree (bytes : Bytes) : Prop :=
  ∃ tree : WireTree, tree.Representable ∧ tree.bytes = bytes

private theorem spells_atom {a : Atom} (h : a.size < 256 ^ 4) :
    SpellsTree (a.tag.toByte :: a.body) :=
  ⟨.atom a, .atom h, rfl⟩

private theorem spells_fixed {a : Atom} (h : a.size = 0) : SpellsTree (a.tag.toByte :: a.body) :=
  spells_atom (by rw [h]; decide)

private theorem wrapped_readsOnly {child : Decoder ClarityValue}
    (h : child.ReadsOnly fun _ front => SpellsTree front) (wrapper : Wrapper)
    (f : ClarityValue → Value) :
    (f <$> child).ReadsOnly fun _ body => SpellsTree (wrapper.tag.toByte :: body) := by
  apply ReadsOnly.map
  apply h.mono
  intro _ body hbody
  obtain ⟨tree, htree, rfl⟩ := hbody
  exact ⟨.wrapped wrapper tree, .wrapped htree, rfl⟩

private theorem field_readsOnly {child : Decoder ClarityValue}
    (h : child.ReadsOnly fun _ front => SpellsTree front) :
    (field child).ReadsOnly fun _ front => ∃ entry : ClarityName × WireTree,
      entry.2.Representable ∧ WireTree.entryText entry = front := by
  apply (name_readsOnly .clarity).bind
  intro name a ha
  apply ReadsOnly.map
  apply h.mono
  intro _ b hb
  obtain ⟨tree, htree, rfl⟩ := hb
  exact ⟨(name, tree), htree, by rw [WireTree.entryText, ha]⟩

theorem content_readsOnly {child : Decoder ClarityValue}
    (h : child.ReadsOnly fun _ front => SpellsTree front) (tag : TypeTag) :
    (content child tag).ReadsOnly fun _ body => SpellsTree (tag.toByte :: body) := by
  cases tag with
  | int =>
    apply ReadsOnly.map
    apply word128_readsOnly.mono
    intro bits front hfront
    rw [hfront]
    exact spells_fixed (a := .int bits) rfl
  | uint =>
    apply ReadsOnly.map
    apply word128_readsOnly.mono
    intro bits front hfront
    rw [hfront]
    exact spells_fixed (a := .uint bits) rfl
  | buffer =>
    apply ReadsOnly.map
    apply sizedBytes_readsOnly.mono
    intro bytes front hfront
    rw [hfront.2]
    exact spells_atom (a := .buffer bytes) (lt_of_le_maxValueSize hfront.1)
  | boolTrue =>
    apply (ReadsOnly.done _).mono
    intro _ front hfront
    rw [hfront.2]
    exact spells_fixed (a := .bool true) rfl
  | boolFalse =>
    apply (ReadsOnly.done _).mono
    intro _ front hfront
    rw [hfront.2]
    exact spells_fixed (a := .bool false) rfl
  | principal =>
    apply ReadsOnly.map
    apply stacksAddress_readsOnly.mono
    intro address front hfront
    rw [hfront]
    exact spells_fixed (a := .principal address) rfl
  | contract =>
    apply stacksAddress_readsOnly.bind
    intro issuer a ha
    apply (name_readsOnly .clarity).bind
    intro name b hb
    apply (ReadsOnly.done _).mono
    intro _ front hfront
    rw [hfront.2, List.append_nil, ha, hb]
    exact spells_fixed (a := .contract ⟨issuer, name⟩) rfl
  | responseOk => exact wrapped_readsOnly h .responseOk _
  | responseErr => exact wrapped_readsOnly h .responseErr _
  | optionalNone =>
    apply (ReadsOnly.done _).mono
    intro _ front hfront
    rw [hfront.2]
    exact spells_fixed (a := .optionalNone) rfl
  | optionalSome => exact wrapped_readsOnly h .optionalSome _
  | list =>
    apply length_readsOnly.bind
    intro count a ha
    apply ReadsOnly.map
    apply (replicate_readsOnly h count).mono
    intro _ front hfront
    obtain ⟨items, rfl, hitems, rfl⟩ := hfront
    refine ⟨.list items, .list (lt_of_le_maxValueSize ha.1) hitems, ?_⟩
    rw [WireTree.bytes, WireTree.itemBytes_eq, ha.2]
  | tuple =>
    apply length_readsOnly.bind
    intro count a ha
    apply (replicate_readsOnly (field_readsOnly h) count).bind
    intro _ b hb
    obtain ⟨entries, rfl, hentries, rfl⟩ := hb
    split
    · apply (ReadsOnly.done _).mono
      intro _ front hfront
      refine ⟨.tuple entries, .tuple (lt_of_le_maxValueSize ha.1) hentries, ?_⟩
      rw [WireTree.bytes, WireTree.entryBytes_eq, ha.2, hfront.2, List.append_nil]
    · exact .fail _ _
  | ascii =>
    apply ReadsOnly.map
    apply sizedBytes_readsOnly.mono
    intro bytes front hfront
    rw [hfront.2]
    exact spells_atom (a := .ascii bytes) (lt_of_le_maxValueSize hfront.1)
  | utf8 =>
    apply sizedBytes_readsOnly.bind
    intro bytes a ha
    split
    · apply (ReadsOnly.done _).mono
      intro _ front hfront
      rw [hfront.2, List.append_nil, ha.2]
      exact spells_atom (a := .utf8 bytes) (lt_of_le_maxValueSize ha.1)
    · exact .fail _ _

/-- Whenever the decoder has read a value, it took the bytes of a tree. -/
theorem atDepth_readsOnly (depth : Nat) :
    (atDepth capture depth).ReadsOnly fun _ front => SpellsTree front := by
  by_cases hdepth : depth ≤ maxValueDepth
  · rw [atDepth_of_le hdepth]
    exact node_readsOnly (content_readsOnly (atDepth_readsOnly (depth + 1)))
  · rw [atDepth, if_neg hdepth]
    exact .fail _ _
termination_by maxValueDepth + 1 - depth

end Decoder

end ClarityWire
