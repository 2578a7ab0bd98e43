import ClarityWire.Proofs.Ranges

/-!
# Decoding what was written

Nothing is checked on writing, so what is written of a value may fail to decode. Which check fails
first is told by the value alone, and if none does the value comes back with its UTF-8 strings split
into their scalars.
-/

namespace ClarityWire

namespace Value

/-- The length or the count that is written in front of the content, and zero where none is. -/
def size : Value → Nat
  | .buffer bytes => bytes.length
  | .list items => items.length
  | .tuple fields => fields.length
  | .ascii bytes => bytes.length
  | .utf8 groups => groups.flatten.length
  | _ => 0

/-- The failure of a UTF-8 string whose groups are not well-formed one after another. -/
def textFailure? : Value → Option WireError
  | .utf8 groups => if Utf8.WellFormed groups.flatten then none else some .invalidUtf8
  | _ => none

/-- The first check that a value found at a given depth fails, those inside it left aside. -/
def check? (depth : Nat) (value : Value) : Option WireError :=
  (depthFailure? depth).or ((sizeFailure? value.size).or value.textFailure?)

/-- The first check that fails in a value found at a given depth, where every part is checked
before those inside it. -/
def failureFrom? (depth : Nat) (node : ClarityValue) : Option WireError :=
  (ClarityValue.partsFrom depth node).findSome? fun part => check? part.1 part.2.value

/-- The first check that fails in a value. -/
def firstFailure? (value : Value) : Option WireError :=
  failureFrom? 0 (.bare value)

/-- The fields of a tuple, and none of any other value. -/
def fields : Value → Fields ClarityValue
  | .tuple fields => fields
  | _ => []

/-- Whether every tuple holds its fields in ascending order of names, as it is built to. -/
def Ordered (value : Value) : Prop :=
  value.Everywhere fun part => Fields.Ascending part.fields

/-- Whether every length and every count can be written in four bytes. -/
def Announceable (value : Value) : Prop :=
  value.Everywhere fun part => part.size < 2 ^ 32

instance (value : Value) : Decidable value.Ordered :=
  inferInstanceAs (Decidable (value.Everywhere _))

instance (value : Value) : Decidable value.Announceable :=
  inferInstanceAs (Decidable (value.Everywhere _))

def SplitByScalars : Value → Prop
  | .utf8 groups => ∀ group ∈ groups, ∃ c, String.utf8EncodeChar c = group
  | _ => True

/-- Whether every UTF-8 string holds its scalars one by one. -/
def Scalar (value : Value) : Prop :=
  value.Everywhere SplitByScalars

/-! ## Tuples are built in order -/

theorem ordered_iff {value : Value} :
    value.Ordered ↔
      Fields.Ascending value.fields ∧ ∀ child ∈ value.children, child.value.Ordered :=
  everywhere_iff

private theorem ordered_tuple {fields : Fields ClarityValue} (hfields : Fields.Ascending fields)
    (h : ∀ field ∈ fields, field.2.value.Ordered) : (Value.tuple fields).Ordered := by
  apply ordered_iff.mpr
  refine ⟨hfields, ?_⟩
  intro child hchild
  obtain ⟨field, hfield, rfl⟩ := List.mem_map.mp hchild
  exact h field hfield

/-- A tuple built from values in order is in order. -/
theorem ordered_of_ofFields {entries : List (ClarityName × Value)} {value : Value}
    (h : ofFields entries = .ok value) (hentries : ∀ entry ∈ entries, entry.2.Ordered) :
    value.Ordered := by
  rw [ofFields, Fields.ofList_eq] at h
  split at h
  · cases h
  · next hrepeated =>
    cases h
    apply ordered_tuple (Fields.sort_ascending ((Fields.repeated?_eq_none_iff _).mp hrepeated))
    intro field hfield
    obtain ⟨entry, hentry, rfl⟩ := List.mem_map.mp ((Fields.sort_perm _).mem_iff.mp hfield)
    exact hentries entry hentry

private theorem ordered_value {tree : WireTree} {depth : Nat} (h : tree.failure? depth = none) :
    tree.value.Ordered := by
  induction tree generalizing depth with
  | atom a =>
    apply ordered_iff.mpr
    cases a <;> exact ⟨List.Pairwise.nil, List.forall_mem_nil _⟩
  | wrapped wrapper body ih =>
    obtain ⟨-, hbody⟩ := WireTree.failure?_wrapped_eq_none_iff.mp h
    rw [WireTree.value_wrapped]
    apply ordered_iff.mpr
    rw [children_wrapped]
    refine ⟨?_, List.forall_mem_singleton.mpr (ih hbody)⟩
    cases wrapper <;> exact List.Pairwise.nil
  | list items ih =>
    obtain ⟨-, -, hitems⟩ := WireTree.failure?_list_eq_none_iff.mp h
    rw [WireTree.value_list]
    apply ordered_iff.mpr
    refine ⟨List.Pairwise.nil, ?_⟩
    intro child hchild
    obtain ⟨item, hitem, rfl⟩ := List.mem_map.mp hchild
    exact ih item hitem (hitems item hitem)
  | tuple entries ih =>
    obtain ⟨-, -, hentries, hnames⟩ := WireTree.failure?_tuple_eq_none_iff.mp h
    rw [← WireTree.map_fst_valueEntry] at hnames
    rw [WireTree.value_tuple]
    apply ordered_tuple (Fields.sort_ascending hnames)
    intro field hfield
    obtain ⟨entry, hentry, rfl⟩ := List.mem_map.mp ((Fields.sort_perm _).mem_iff.mp hfield)
    exact ih entry hentry (hentries entry hentry)

/-- Whatever is decoded is in order. -/
theorem ordered_of_decodeFront {bytes : Bytes} {value : Value} {n : Nat}
    (h : decoder.decodeFront bytes = .ok (value, n)) : value.Ordered := by
  obtain ⟨tree, -, hfail, -, -, rfl⟩ := decodeFront_eq_ok_iff_tree.mp h
  exact ordered_value hfail

/-! ## Values and their trees -/

private theorem findSome?_flatMap {α β γ : Type} (f : β → Option γ) (g : α → List β)
    (items : List α) :
    (items.flatMap g).findSome? f = items.findSome? fun item => (g item).findSome? f := by
  induction items with
  | nil => rfl
  | cons item rest ih =>
    rw [List.flatMap_cons, List.findSome?_append, ih, List.findSome?_cons]
    cases (g item).findSome? f <;> rfl

private theorem findSome?_congr {α β : Type} {f g : α → Option β} {items : List α}
    (h : ∀ item ∈ items, f item = g item) : items.findSome? f = items.findSome? g := by
  induction items with
  | nil => rfl
  | cons item rest ih =>
    obtain ⟨hitem, hrest⟩ := List.forall_mem_cons.mp h
    rw [List.findSome?_cons, List.findSome?_cons, hitem, ih hrest]

private theorem check?_atom {depth : Nat} {value : Value} {a : Atom} (h : value.tree = .atom a) :
    check? depth value = (WireTree.atom a).failure? depth := by
  rw [check?, WireTree.failure?]
  cases value <;> rw [tree] at h <;> cases h <;> rfl

private theorem check?_wrapped (depth : Nat) (wrapper : Wrapper) (body : ClarityValue) :
    check? depth (wrapper.value body) = depthFailure? depth := by
  have hsize : sizeFailure? 0 = none := rfl
  cases wrapper <;> simp only [check?, Wrapper.value, size, textFailure?, hsize, Option.or_none]

/-- The checks of a value come before those of the values directly inside it. -/
theorem failureFrom?_eq (depth : Nat) (node : ClarityValue) :
    failureFrom? depth node =
      (check? depth node.value).or (node.value.children.findSome? (failureFrom? (depth + 1))) := by
  rw [failureFrom?, ClarityValue.partsFrom_eq, List.findSome?_cons, findSome?_flatMap]
  cases check? depth node.value <;> rfl

theorem Ordered.child {value : Value} (h : value.Ordered) {child : ClarityValue}
    (hchild : child ∈ value.children) : child.value.Ordered :=
  (ordered_iff.mp h).2 child hchild

/-- What reading the tree of a value meets first is the first check that fails in the value. -/
theorem failure?_tree {value : Value} (h : value.Ordered) (depth : Nat) (span : Option Span) :
    value.tree.failure? depth = failureFrom? depth ⟨value, span⟩ := by
  induction value generalizing depth span with
  | atom value a htree =>
    simp only [failureFrom?_eq, children_atom htree, List.findSome?_nil, Option.or_none,
      check?_atom htree, htree]
  | wrapped wrapper body ih =>
    have hbody : body.value.Ordered := h.child (by simp [children_wrapped])
    rw [failureFrom?_eq, tree_wrapped, WireTree.failure?, children_wrapped,
      List.findSome?_singleton, check?_wrapped, ih hbody]
  | list items ih =>
    have hitems : items.findSome? (fun item => item.value.tree.failure? (depth + 1)) =
        items.findSome? (failureFrom? (depth + 1)) := by
      apply findSome?_congr
      intro item hitem
      exact ih item hitem (h.child hitem) (depth + 1) item.span
    rw [failureFrom?_eq, tree_list, WireTree.failure?, WireTree.itemsFailure?_eq,
      List.findSome?_map, List.length_map, children, ← hitems, check?, Option.or_assoc,
      Option.or_assoc]
    rfl
  | tuple fields ih =>
    have hfields : fields.findSome? (fun field => field.2.value.tree.failure? (depth + 1)) =
        (fields.map (·.2)).findSome? (failureFrom? (depth + 1)) := by
      rw [List.findSome?_map]
      apply findSome?_congr
      intro field hfield
      rw [Function.comp_apply]
      exact ih field hfield (h.child (List.mem_map_of_mem hfield)) (depth + 1) field.2.span
    have hascending : Fields.Ascending fields := (ordered_iff.mp h).1
    -- ascending names do not repeat, so only the checks of the value are left
    have hnames : Fields.repeated? (fields.map (·.1)) = none := by
      rw [Fields.repeated?_eq_none_iff]
      exact hascending.nodup
    rw [failureFrom?_eq, tree_tuple, WireTree.failure?, WireTree.entriesFailure?_eq,
      List.findSome?_map, List.length_map, List.map_map, children, ← hfields, check?,
      Option.or_assoc, Option.or_assoc]
    simp only [Function.comp_def, hnames, Option.map_none, Option.or_none]
    rfl

/-- The lengths of a value are those of its tree. -/
theorem representable_tree {value : Value} (h : value.Announceable) :
    value.tree.Representable := by
  induction value with
  | atom value a htree =>
    have hsize := (everywhere_iff.mp h).1
    rw [htree]
    apply WireTree.Representable.atom
    cases value <;> rw [tree] at htree <;> cases htree <;> exact hsize
  | wrapped wrapper body ih =>
    rw [tree_wrapped]
    exact .wrapped (ih ((everywhere_iff.mp h).2 body (by simp [children_wrapped])))
  | list items ih =>
    obtain ⟨hcount, hinside⟩ := everywhere_iff.mp h
    rw [tree_list]
    apply WireTree.Representable.list
    · rw [List.length_map]
      exact hcount
    · intro item hitem
      obtain ⟨node, hnode, rfl⟩ := List.mem_map.mp hitem
      exact ih node hnode (hinside node hnode)
  | tuple fields ih =>
    obtain ⟨hcount, hinside⟩ := everywhere_iff.mp h
    rw [tree_tuple]
    apply WireTree.Representable.tuple
    · rw [List.length_map]
      exact hcount
    · intro entry hentry
      obtain ⟨field, hfield, rfl⟩ := List.mem_map.mp hentry
      exact ih field hfield (hinside field.2 (List.mem_map_of_mem hfield))

/-- What is read of the tree of a value is the value, split into scalars. -/
theorem value_tree {value : Value} (h : value.Ordered) : value.tree.value = value.resplit := by
  induction value with
  | atom value a htree =>
    rw [htree]
    cases value <;> rw [tree] at htree <;> cases htree <;> rfl
  | wrapped wrapper body ih =>
    have hbody := ih (h.child (by simp [children_wrapped]))
    rw [tree_wrapped, WireTree.value_wrapped, hbody, resplit, resplit, rebuild_wrapped]
    rfl
  | list items ih =>
    rw [tree_list, WireTree.value_list, List.map_map, resplit, rebuild_list]
    congr 1
    apply List.map_congr_left
    intro item hitem
    rw [Function.comp_apply, ih item hitem (h.child hitem)]
    rfl
  | tuple fields ih =>
    have hascending : Fields.Ascending fields := (ordered_iff.mp h).1
    have hfields : fields.map (fun field => WireTree.valueEntry (field.1, field.2.value.tree)) =
        fields.map fun field => (field.1, Spanned.bare field.2.value.resplit) := by
      apply List.map_congr_left
      intro field hfield
      rw [WireTree.valueEntry, ih field hfield (h.child (List.mem_map_of_mem hfield))]
    rw [tree_tuple, WireTree.value_tuple, List.map_map, Function.comp_def, hfields,
      Fields.sort_map (fun node : ClarityValue => Spanned.bare node.value.resplit),
      Fields.sort_of_ascending hascending, resplit, rebuild_tuple]
    rfl

/-! ## Splitting -/

/-- Splitting into scalars changes nothing, ranges aside, exactly if that is how it was split. -/
theorem resplit_eq_erase_iff {value : Value} : value.resplit = value.erase ↔ value.Scalar := by
  rw [Scalar]
  induction value with
  | atom value a htree =>
    rw [everywhere_iff, children_atom htree]
    cases value <;> rw [tree] at htree <;> cases htree <;>
      simp [resplit, erase, rebuild, SplitByScalars, Utf8.scalars_flatten_eq_iff]
  | wrapped wrapper body ih =>
    rw [everywhere_iff, children_wrapped, List.forall_mem_singleton, ← ih, resplit, resplit,
      erase, erase, rebuild_wrapped, rebuild_wrapped]
    cases wrapper <;> simp [Wrapper.value, ClarityValue.rebuild, SplitByScalars]
  | list items ih =>
    have hitems := forall₂_congr ih
    rw [everywhere_iff, children, ← hitems, resplit, erase, rebuild_list, rebuild_list]
    simp [SplitByScalars, ClarityValue.rebuild, resplit, erase]
  | tuple fields ih =>
    have hfields := forall₂_congr ih
    rw [everywhere_iff, children, List.forall_mem_map, ← hfields, resplit, erase, rebuild_tuple,
      rebuild_tuple]
    simp [SplitByScalars, ClarityValue.rebuild, resplit, erase]

/-- The comparison of the program sees a change exactly if a string was not split by scalars. -/
theorem resplit_beq_iff (value : Value) : (value.resplit == value) = true ↔ value.Scalar := by
  have herase : value.resplit.erase = value.resplit := by
    rw [resplit, erase, rebuild_rebuild]
    rfl
  change same value.resplit value = true ↔ value.Scalar
  rw [same_iff, herase, resplit_eq_erase_iff]

/-! ## The round trip -/

private theorem decodeFront_written {value : Value} (hordered : value.Ordered)
    (hsizes : value.Announceable) (rest : Bytes) :
    decoder.decodeFront (value.toBytes ++ rest) =
      (outcome value.firstFailure? value.resplit).map fun read => (read, value.toBytes.length) := by
  rw [toBytes_eq, decodeFront_bytes (representable_tree hsizes), failure?_tree hordered 0 none,
    value_tree hordered]
  rfl

private theorem announceable_of_firstFailure? {value : Value} (h : value.firstFailure? = none) :
    value.Announceable := by
  intro part hpart
  have hcheck := List.findSome?_eq_none_iff.mp h part hpart
  rw [check?, Option.or_eq_none_iff, Option.or_eq_none_iff] at hcheck
  exact lt_of_le_maxValueSize (WireTree.sizeFailure?_eq_none_iff.mp hcheck.2.1)

private theorem eq_of_written_eq {value other : Value} (hvalue : value.Ordered)
    (hother : other.Ordered) (hpass : value.firstFailure? = none)
    (hpass' : other.firstFailure? = none) {rest rest' : Bytes}
    (h : value.toBytes ++ rest = other.toBytes ++ rest') :
    value.resplit = other.resplit ∧ rest = rest' := by
  have hread := decodeFront_written hvalue (announceable_of_firstFailure? hpass) rest
  have hread' := decodeFront_written hother (announceable_of_firstFailure? hpass') rest'
  rw [hpass] at hread
  rw [← h, hread, hpass'] at hread'
  have hpair := Prod.mk.inj (Except.ok.inj hread')
  exact ⟨hpair.1, (List.append_inj h hpair.2).2⟩

/-- Decoding what was written of a value, whatever follows it, fails with the first check that
fails in the value, and otherwise gives the value back with its strings split into scalars. -/
theorem decodeFront_toBytes (value : Value) (hordered : value.Ordered)
    (hsizes : value.Announceable) (rest : Bytes) :
    decoder.decodeFront (value.toBytes ++ rest) =
        (match value.firstFailure? with
        | some e => .error e
        | none => .ok (value.resplit, value.toBytes.length)) ∧
      ((value.resplit == value) = true ↔ value.Scalar) ∧
      (value.firstFailure? = none → value.Scalar →
        ∀ (other : Value) (otherRest : Bytes), other.Ordered → other.firstFailure? = none →
          other.Scalar → value.toBytes ++ rest = other.toBytes ++ otherRest →
            (value == other) = true ∧ rest = otherRest) := by
  refine ⟨?_, value.resplit_beq_iff, ?_⟩
  · rw [decodeFront_written hordered hsizes]
    cases value.firstFailure? <;> rfl
  · intro hpass hscalar other otherRest hother hpass' hscalar' h
    obtain ⟨hsplit, hrest⟩ := eq_of_written_eq hordered hother hpass hpass' h
    rw [resplit_eq_erase_iff.mpr hscalar, resplit_eq_erase_iff.mpr hscalar'] at hsplit
    exact ⟨(same_iff value other).mpr hsplit, hrest⟩

/-- A tuple with a string whose first scalar is spread over two groups. -/
def spreadScalar : Value :=
  .tuple [(⟨"a", by decide⟩, .bare (.utf8 [[0xC3], [0xA9, 0x21]])),
    (⟨"b", by decide⟩, .bare (.list [.bare (.optionalSome (.bare (.int 1))), .bare (.bool true)]))]

theorem decodeFront_toBytes_spreadScalar :
    spreadScalar.Ordered ∧ spreadScalar.Announceable ∧
      decoder.decodeFront (spreadScalar.toBytes ++ [0xFF]) = .ok (spreadScalar.resplit, 41) ∧
        ((spreadScalar.resplit == spreadScalar) = true ↔ spreadScalar.Scalar) := by
  have hordered : spreadScalar.Ordered := by decide
  have hsizes : spreadScalar.Announceable := by decide
  have hpass : spreadScalar.firstFailure? = none := by decide
  have hlength : spreadScalar.toBytes.length = 41 := by decide
  obtain ⟨hread, hsplit, -⟩ := decodeFront_toBytes spreadScalar hordered hsizes [0xFF]
  rw [hpass, hlength] at hread
  exact ⟨hordered, hsizes, hread, hsplit⟩

end Value

end ClarityWire
