import ClarityWire.Proofs.Offsets
import ClarityWire.Proofs.Reordering

/-!
# Where each part stands

With ranges recorded, every part of a value that was read of a buffer is read of a tree that stands
in the buffer, and its range is that of the tree. So the ranges nest, the ones side by side leave no
gap but for the names of fields, and the bytes of a range decode to the part it belongs to.
-/

namespace ClarityWire

/-- Whether values take up everything between two positions of a buffer, each behind certain other
bytes. -/
def Tiles (buffer : Bytes) : Nat → List (Bytes × ClarityValue) → Nat → Prop
  | start, [], stop => start = stop
  | start, (front, node) :: rest, stop =>
    Bytes.slice? buffer start (start + front.length) = some front ∧
      ∃ middle, node.span = some ⟨start + front.length, middle⟩ ∧ Tiles buffer middle rest stop

/-- Whether the values directly inside a value that takes up a range of a buffer stand behind its
tag, or behind its tag and its count. Fields stand in the order in which they were written, each
behind its name and the length of the name. -/
def Value.ChildrenPlaced (buffer : Bytes) (start stop : Nat) : Value → Prop
  | .responseOk body => body.span = some ⟨start + 1, stop⟩
  | .responseErr body => body.span = some ⟨start + 1, stop⟩
  | .optionalSome body => body.span = some ⟨start + 1, stop⟩
  | .list items => Tiles buffer (start + 5) (items.map fun item => ([], item)) stop
  | .tuple fields => ∃ written : Fields ClarityValue, written.Perm fields ∧
    Tiles buffer (start + 5) (written.map fun field => (field.1.wireBytes, field.2)) stop
  | _ => True

theorem Bytes.slice?_append (front bytes back : Bytes) :
    Bytes.slice? (front ++ bytes ++ back) front.length (front.length + bytes.length) =
      some bytes := by
  rw [Bytes.slice?, if_pos]
  · rw [List.append_assoc, List.drop_left, Nat.add_sub_cancel_left, List.take_left]
  · simp only [List.length_append]
    omega

theorem tiles_placed {β : Type} {bytes : β → Bytes} {value : Nat → β → Bytes × ClarityValue}
    (items : List β) (h : ∀ offset item, ∃ back, bytes item = (value offset item).1 ++ back ∧
      (value offset item).2.span =
        some ⟨offset + (value offset item).1.length, offset + (bytes item).length⟩)
    (before after : Bytes) :
    Tiles (before ++ items.flatMap bytes ++ after) before.length
      (Decoder.placed bytes value before.length items)
      (before.length + (items.flatMap bytes).length) := by
  induction items generalizing before with
  | nil => rfl
  | cons item rest ih =>
    obtain ⟨back, hbytes, hspan⟩ := h before.length item
    have hrest := ih (before ++ bytes item)
    have hfront := Bytes.slice?_append before (value before.length item).1
      (back ++ rest.flatMap bytes ++ after)
    rw [List.flatMap_cons, List.length_append]
    rw [List.length_append, Nat.add_assoc] at hrest
    refine ⟨?_, before.length + (bytes item).length, hspan, ?_⟩
    · simp only [hbytes, List.append_assoc] at hfront ⊢
      exact hfront
    · simp only [List.append_assoc] at hrest ⊢
      exact hrest

private theorem tiles_counted {β : Type} {bytes : β → Bytes}
    {value : Nat → β → Bytes × ClarityValue}
    (items : List β) (h : ∀ offset item, ∃ back, bytes item = (value offset item).1 ++ back ∧
      (value offset item).2.span =
        some ⟨offset + (value offset item).1.length, offset + (bytes item).length⟩)
    (tag : UInt8) (front back : Bytes) :
    Tiles (front ++ (tag :: (Bytes.ofNat 4 items.length ++ items.flatMap bytes)) ++ back)
      (front.length + 5) (Decoder.placed bytes value (front.length + 5) items)
      (front.length + (tag :: (Bytes.ofNat 4 items.length ++ items.flatMap bytes)).length) := by
  have hheader : (front ++ tag :: Bytes.ofNat 4 items.length).length = front.length + 5 := by
    rw [List.length_append, List.length_cons, Bytes.length_ofNat]
  have hstop : front.length + (tag :: (Bytes.ofNat 4 items.length ++ items.flatMap bytes)).length =
      front.length + 5 + (items.flatMap bytes).length := by
    rw [List.length_cons, List.length_append, Bytes.length_ofNat]
    omega
  have htiles := tiles_placed items h (front ++ tag :: Bytes.ofNat 4 items.length) back
  rw [hheader] at htiles
  rw [hstop]
  simp only [List.append_assoc, List.cons_append] at htiles ⊢
  exact htiles

theorem exists_of_mem_placed {α β : Type} {bytes : β → Bytes} {value : Nat → β → α} {a : α}
    {items : List β} {offset : Nat} (h : a ∈ Decoder.placed bytes value offset items) :
    ∃ front item back, items = front ++ item :: back ∧
      a = value (offset + (front.flatMap bytes).length) item := by
  induction items generalizing offset with
  | nil => cases h
  | cons item rest ih =>
    rcases List.mem_cons.mp h with rfl | hrest
    · exact ⟨[], item, rest, rfl, rfl⟩
    · obtain ⟨front, other, back, rfl, rfl⟩ := ih hrest
      refine ⟨item :: front, other, back, rfl, ?_⟩
      rw [List.flatMap_cons, List.length_append, Nat.add_assoc]

namespace WireTree

/-- The range of a tree starts at its offset and is as long as its bytes. -/
theorem span_located (tree : WireTree) {capture : Bool} (offset : Nat) :
    (tree.located capture offset).span = spanAt capture offset (offset + tree.bytes.length) := by
  cases tree <;> rw [located, bytes] <;>
    simp only [List.length_cons, List.length_append, Bytes.length_ofNat] <;> congr 1 <;> omega

theorem bytes_ne_nil (tree : WireTree) : tree.bytes ≠ [] := by
  rw [bytes_eq]
  exact List.cons_ne_nil _ _

/-- A tree without a failure has none either where it is found less deep. -/
theorem failure?_of_le {tree : WireTree} {depth other : Nat} (hle : other ≤ depth)
    (h : tree.failure? depth = none) : tree.failure? other = none := by
  induction tree generalizing depth other with
  | atom a =>
    obtain ⟨hdepth, hrest⟩ := failure?_atom_eq_none_iff.mp h
    exact failure?_atom_eq_none_iff.mpr ⟨Nat.le_trans hle hdepth, hrest⟩
  | wrapped wrapper body ih =>
    obtain ⟨hdepth, hbody⟩ := failure?_wrapped_eq_none_iff.mp h
    apply failure?_wrapped_eq_none_iff.mpr
    exact ⟨Nat.le_trans hle hdepth, ih (Nat.succ_le_succ hle) hbody⟩
  | list items ih =>
    obtain ⟨hdepth, hcount, hitems⟩ := failure?_list_eq_none_iff.mp h
    apply failure?_list_eq_none_iff.mpr
    refine ⟨Nat.le_trans hle hdepth, hcount, ?_⟩
    intro item hitem
    exact ih item hitem (Nat.succ_le_succ hle) (hitems item hitem)
  | tuple entries ih =>
    obtain ⟨hdepth, hcount, hentries, hnames⟩ := failure?_tuple_eq_none_iff.mp h
    apply failure?_tuple_eq_none_iff.mpr
    refine ⟨Nat.le_trans hle hdepth, hcount, ?_, hnames⟩
    intro entry hentry
    exact ih entry hentry (Nat.succ_le_succ hle) (hentries entry hentry)

/-- The values inside what is read of a tree take up its bytes as they should. -/
theorem childrenPlaced_located (tree : WireTree) (front back : Bytes) :
    (tree.located true front.length).value.ChildrenPlaced (front ++ tree.bytes ++ back) front.length
      (front.length + tree.bytes.length) := by
  cases tree with
  | atom a => cases a <;> exact trivial
  | wrapped wrapper body =>
    have hspan : (body.located true (front.length + 1)).span =
        some ⟨front.length + 1, front.length + 1 + body.bytes.length⟩ :=
      body.span_located (front.length + 1)
    rw [located, bytes, List.length_cons, Nat.add_comm _ 1, ← Nat.add_assoc]
    cases wrapper <;> exact hspan
  | list items =>
    rw [located, bytes, itemBytes_eq, Value.ChildrenPlaced, locatedItems_eq, map_placed]
    apply tiles_counted
    intro offset item
    exact ⟨item.bytes, rfl, item.span_located offset⟩
  | tuple entries =>
    rw [located, bytes, entryBytes_eq]
    refine ⟨locatedEntries true (front.length + 5) entries, (Fields.sort_perm _).symm, ?_⟩
    rw [locatedEntries_eq, map_placed]
    apply tiles_counted
    intro offset entry
    refine ⟨entry.2.bytes, rfl, ?_⟩
    rw [entryText, List.length_append, ← Nat.add_assoc]
    exact entry.2.span_located (offset + entry.1.wireBytes.length)

/-- The trees directly inside a tree. -/
def children : WireTree → List WireTree
  | .atom _ => []
  | .wrapped _ body => [body]
  | .list items => items
  | .tuple entries => entries.map (·.2)

theorem failure?_of_mem_children {tree inner : WireTree} {depth : Nat}
    (h : tree.failure? depth = none) (hinner : inner ∈ tree.children) :
    inner.failure? (depth + 1) = none := by
  cases tree with
  | atom a => cases hinner
  | wrapped wrapper body =>
    obtain ⟨-, hbody⟩ := failure?_wrapped_eq_none_iff.mp h
    exact List.mem_singleton.mp hinner ▸ hbody
  | list items =>
    obtain ⟨-, -, hitems⟩ := failure?_list_eq_none_iff.mp h
    exact hitems inner hinner
  | tuple entries =>
    obtain ⟨-, -, hentries, -⟩ := failure?_tuple_eq_none_iff.mp h
    obtain ⟨entry, hentry, rfl⟩ := List.mem_map.mp hinner
    exact hentries entry hentry

/-- What stands directly inside is read of a tree as well, whose bytes are among those of the
whole. -/
theorem exists_of_mem_children {tree : WireTree} {capture : Bool} {offset : Nat}
    {child : ClarityValue} (hchild : child ∈ (tree.located capture offset).value.children) :
    ∃ inner ∈ tree.children, ∃ front back : Bytes, tree.bytes = front ++ inner.bytes ++ back ∧
      child = inner.located capture (offset + front.length) := by
  cases tree with
  | atom a => cases a <;> cases hchild
  | wrapped wrapper body =>
    rw [located, Value.children_wrapped, List.mem_singleton] at hchild
    refine ⟨body, List.mem_singleton.mpr rfl, [wrapper.tag.toByte], [], ?_, hchild⟩
    rw [bytes, List.append_nil, List.singleton_append]
  | list items =>
    rw [located, Value.children, locatedItems_eq] at hchild
    obtain ⟨before, item, after, rfl, rfl⟩ := exists_of_mem_placed hchild
    refine ⟨item, by simp [children], TypeTag.list.toByte ::
      (Bytes.ofNat 4 (before ++ item :: after).length ++ before.flatMap bytes),
      after.flatMap bytes, ?_, ?_⟩
    · simp only [bytes, itemBytes_eq, List.flatMap_append, List.flatMap_cons, List.cons_append,
        List.append_assoc]
    · rw [List.length_cons, List.length_append, Bytes.length_ofNat]
      congr 1
      omega
  | tuple entries =>
    rw [located, Value.children, locatedEntries_eq] at hchild
    obtain ⟨field, hfield, rfl⟩ := List.mem_map.mp hchild
    obtain ⟨before, entry, after, rfl, rfl⟩ :=
      exists_of_mem_placed ((Fields.sort_perm _).mem_iff.mp hfield)
    refine ⟨entry.2, by simp [children], TypeTag.tuple.toByte ::
      (Bytes.ofNat 4 (before ++ entry :: after).length ++
        (before.flatMap entryText ++ entry.1.wireBytes)), after.flatMap entryText, ?_, ?_⟩
    · simp only [bytes, entryBytes_eq, entryText, List.flatMap_append, List.flatMap_cons,
        List.cons_append, List.append_assoc]
    · change entry.2.located capture
        (offset + 5 + (before.flatMap entryText).length + entry.1.wireBytes.length) = _
      simp only [List.length_cons, List.length_append, Bytes.length_ofNat]
      congr 1
      omega

end WireTree

/-! ## Every part -/

/-- Whether a value found at a given depth was read of a tree that stands in a buffer between two
positions. -/
def ReadBetween (buffer : Bytes) (first last : Nat) (depth : Nat) (node : ClarityValue) : Prop :=
  ∃ (tree : WireTree) (front back : Bytes), tree.failure? depth = none ∧
    buffer = front ++ tree.bytes ++ back ∧ first ≤ front.length ∧
      front.length + tree.bytes.length ≤ last ∧ node = tree.located true front.length

theorem ReadBetween.child {buffer : Bytes} {first last depth : Nat} {node : ClarityValue}
    (h : ReadBetween buffer first last depth node) :
    ∀ child ∈ node.value.children, ReadBetween buffer first last (depth + 1) child := by
  obtain ⟨tree, front, back, hfail, hbuffer, hfirst, hlast, rfl⟩ := h
  intro child hchild
  obtain ⟨inner, hinner, before, after, hbytes, rfl⟩ := WireTree.exists_of_mem_children hchild
  rw [hbytes, List.length_append, List.length_append] at hlast
  refine ⟨inner, front ++ before, after ++ back, WireTree.failure?_of_mem_children hfail hinner,
    ?_, ?_, ?_, ?_⟩
  · rw [hbuffer, hbytes]
    simp only [List.append_assoc]
  · rw [List.length_append]
    omega
  · rw [List.length_append]
    omega
  · rw [List.length_append]

/-- What a recorded range says about the part that was read there. -/
theorem ReadBetween.exact {buffer : Bytes} {first last depth : Nat} {node : ClarityValue}
    (h : ReadBetween buffer first last depth node) :
    ∃ (start stop : Nat) (bytes : Bytes), node.span = some ⟨start, stop⟩ ∧
      node.bytes? buffer = some bytes ∧ first ≤ start ∧ start < stop ∧ stop ≤ last ∧
        node.value.ChildrenPlaced buffer start stop ∧
          Value.decoder.decode bytes = .ok node.value.erase ∧
            (node.value.toBytes = bytes ↔ KeysAscending bytes) := by
  obtain ⟨tree, front, back, hfail, rfl, hfirst, hlast, rfl⟩ := h
  have hspan : (tree.located true front.length).span =
      some ⟨front.length, front.length + tree.bytes.length⟩ := tree.span_located front.length
  have hpos := List.length_pos_iff.mpr tree.bytes_ne_nil
  have htop : tree.failure? 0 = none := WireTree.failure?_of_le (Nat.zero_le depth) hfail
  have herase := tree.erase_located true front.length
  refine ⟨front.length, front.length + tree.bytes.length, tree.bytes, hspan, ?_, hfirst, by omega,
    hlast, tree.childrenPlaced_located front back, ?_, ?_⟩
  · rw [Spanned.bytes?, hspan]
    exact Bytes.slice?_append front tree.bytes back
  · rw [herase]
    exact Value.decode_eq_ok_iff_tree.mpr ⟨tree, htop, rfl, rfl⟩
  · rw [← Value.toBytes_erase, herase]
    exact WireTree.toBytes_value_eq_iff htop

/-- Reading with ranges recorded gives every part the range of the bytes that it was read from. -/
theorem ClarityValue.read_ranges {buffer : Bytes} {position : Nat} {node : ClarityValue}
    {last : Cursor} (h : read true (Cursor.ofBuffer buffer position) = .ok (node, last)) :
    node.span = some ⟨position, last.offset⟩ ∧ last.offset ≤ buffer.length ∧
      (∀ part ∈ node.parts, ∃ (start stop : Nat) (bytes : Bytes),
        part.2.span = some ⟨start, stop⟩ ∧ part.2.bytes? buffer = some bytes ∧
          position ≤ start ∧ start < stop ∧ stop ≤ last.offset ∧
            part.2.value.ChildrenPlaced buffer start stop ∧
              Value.decoder.decode bytes = .ok part.2.value.erase ∧
                (part.2.value.toBytes = bytes ↔ KeysAscending bytes)) ∧
      read true (Cursor.ofBuffer buffer position) =
        (read true (Cursor.ofBuffer (buffer.drop position) 0)).map
          fun (moved, stop) => (moved.shift position, stop.shift position) := by
  obtain ⟨tree, hfail, hrest, hlast, rfl⟩ := run_decoder_eq_ok_iff.mp h
  have hstop : last.offset = position + tree.bytes.length := hlast
  have hlength : (buffer.drop position).length = tree.bytes.length + last.rest.length := by
    rw [← List.length_append, ← hrest]
    rfl
  have hpos := List.length_pos_iff.mpr tree.bytes_ne_nil
  -- something was read, so the position lies inside the buffer
  rw [List.length_drop] at hlength
  have hfront : (buffer.take position).length = position := List.length_take_of_le (by omega)
  have hroot : ReadBetween buffer position last.offset 0 (tree.located true position) := by
    refine ⟨tree, buffer.take position, last.rest, hfail, ?_, ?_, ?_, ?_⟩
    · rw [List.append_assoc, ← hrest]
      exact (List.take_append_drop position buffer).symm
    · rw [hfront]
    · rw [hfront, hstop]
    · rw [hfront]
  refine ⟨?_, by omega, ?_, ClarityValue.read_ofBuffer buffer position⟩
  · rw [hstop]
    exact tree.span_located position
  · intro part hpart
    have hpart : ReadBetween buffer position last.offset part.1 part.2 :=
      forall_partsFrom (fun _ _ => ReadBetween.child) hroot part hpart
    exact hpart.exact

/-- A tuple with its keys in descending order, between bytes that are no part of it. -/
def surroundedTuple : Bytes :=
  [0xaa, 0xbb, 0x0c, 0, 0, 0, 2, 1, 0x62, 0x09, 1, 0x61, 0x0a, 0x03, 0xff]

theorem ClarityValue.read_ranges_surroundedTuple :
    ∃ node last, read true (Cursor.ofBuffer surroundedTuple 2) = .ok (node, last) ∧
      node.span = some ⟨2, 14⟩ ∧
        ∀ part ∈ node.parts, ∃ bytes, part.2.bytes? surroundedTuple = some bytes ∧
          Value.decoder.decode bytes = .ok part.2.value.erase ∧
            (part.2.value.toBytes = bytes ↔ KeysAscending bytes) := by
  have h : read true (Cursor.ofBuffer surroundedTuple 2) = .ok
      (⟨.tuple [(⟨"a", by decide⟩, ⟨.optionalSome ⟨.bool true, some ⟨13, 14⟩⟩, some ⟨12, 14⟩⟩),
        (⟨"b", by decide⟩, ⟨.optionalNone, some ⟨9, 10⟩⟩)], some ⟨2, 14⟩⟩, ⟨[0xff], 14⟩) := by rfl
  obtain ⟨hspan, -, hparts, -⟩ := read_ranges h
  refine ⟨_, _, h, hspan, ?_⟩
  intro part hpart
  obtain ⟨start, stop, bytes, -, hbytes, -, -, -, -, hdecode, hwrite⟩ := hparts part hpart
  exact ⟨bytes, hbytes, hdecode, hwrite⟩

end ClarityWire
