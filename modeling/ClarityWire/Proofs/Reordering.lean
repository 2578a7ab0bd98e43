import ClarityWire.Proofs.Ranges
import ClarityWire.Proofs.UniqueTree
import Mathlib.Logic.Relation

/-!
# Tuple order

The order in which the entries of a tuple stand is the one freedom that the format leaves. What is
written of a decoded value is the tree it was decoded from with the entries of every tuple sorted,
so decoding and writing again changes the order of entries and nothing else.
-/

namespace ClarityWire

namespace WireTree

mutual

/-- The tree with the entries of every tuple in ascending order of names. -/
def sorted : WireTree → WireTree
  | .atom a => .atom a
  | .wrapped wrapper body => .wrapped wrapper (sorted body)
  | .list items => .list (sortedItems items)
  | .tuple entries => .tuple (Fields.sort (sortedEntries entries))

def sortedItems : List WireTree → List WireTree
  | [] => []
  | item :: rest => sorted item :: sortedItems rest

def sortedEntries : List (ClarityName × WireTree) → List (ClarityName × WireTree)
  | [] => []
  | (name, tree) :: rest => (name, sorted tree) :: sortedEntries rest

end

/-- Whether the entries of every tuple are in ascending order of names. -/
inductive Ascending : WireTree → Prop
  | atom (a : Atom) : Ascending (.atom a)
  | wrapped {wrapper : Wrapper} {body : WireTree} (hbody : Ascending body) :
    Ascending (.wrapped wrapper body)
  | list {items : List WireTree} (hitems : ∀ item ∈ items, Ascending item) :
    Ascending (.list items)
  | tuple {entries : List (ClarityName × WireTree)} (hnames : Fields.Ascending entries)
    (hentries : ∀ entry ∈ entries, Ascending entry.2) : Ascending (.tuple entries)

/-- One tuple, anywhere in a tree, has its entries permuted. -/
inductive Step : WireTree → WireTree → Prop
  | permute {entries others : List (ClarityName × WireTree)} (h : entries.Perm others) :
    Step (.tuple entries) (.tuple others)
  | wrapped (wrapper : Wrapper) {body other : WireTree} (h : Step body other) :
    Step (.wrapped wrapper body) (.wrapped wrapper other)
  | item (front back : List WireTree) {tree other : WireTree} (h : Step tree other) :
    Step (.list (front ++ tree :: back)) (.list (front ++ other :: back))
  | entry (front back : List (ClarityName × WireTree)) (name : ClarityName) {tree other : WireTree}
    (h : Step tree other) :
    Step (.tuple (front ++ (name, tree) :: back)) (.tuple (front ++ (name, other) :: back))

/-- Any number of tuples, anywhere in a tree, have their entries permuted. -/
abbrev Steps : WireTree → WireTree → Prop :=
  Relation.ReflTransGen Step

theorem sorted_list (items : List WireTree) :
    (WireTree.list items).sorted = .list (items.map sorted) := by
  rw [sorted]
  congr 1
  induction items with
  | nil => rfl
  | cons item rest ih => rw [sortedItems, ih, List.map_cons]

theorem sorted_tuple (entries : List (ClarityName × WireTree)) :
    (WireTree.tuple entries).sorted =
      .tuple (Fields.sort (entries.map fun entry => (entry.1, entry.2.sorted))) := by
  have hentries : sortedEntries entries = entries.map fun entry => (entry.1, entry.2.sorted) := by
    induction entries with
    | nil => rfl
    | cons entry rest ih => rw [sortedEntries, ih, List.map_cons]
  rw [sorted, hentries]

/-! ## One tuple reordered -/

theorem Step.symm {tree other : WireTree} (h : Step tree other) : Step other tree := by
  induction h with
  | permute h => exact .permute h.symm
  | wrapped wrapper _ ih => exact .wrapped wrapper ih
  | item front back _ ih => exact .item front back ih
  | entry front back name _ ih => exact .entry front back name ih

/-- Reordering keeps a tree free of failures. -/
theorem Step.failure? {tree other : WireTree} (h : Step tree other) {depth : Nat}
    (hfail : tree.failure? depth = none) : other.failure? depth = none := by
  induction h generalizing depth with
  | permute h =>
    obtain ⟨hdepth, hcount, hentries, hnames⟩ := failure?_tuple_eq_none_iff.mp hfail
    apply failure?_tuple_eq_none_iff.mpr
    refine ⟨hdepth, h.length_eq ▸ hcount, ?_, (h.map _).nodup_iff.mp hnames⟩
    intro entry hentry
    exact hentries entry (h.mem_iff.mpr hentry)
  | wrapped wrapper _ ih =>
    obtain ⟨hdepth, hbody⟩ := failure?_wrapped_eq_none_iff.mp hfail
    exact failure?_wrapped_eq_none_iff.mpr ⟨hdepth, ih hbody⟩
  | item front back _ ih =>
    obtain ⟨hdepth, hcount, hitems⟩ := failure?_list_eq_none_iff.mp hfail
    simp only [List.forall_mem_append, List.forall_mem_cons, List.length_append,
      List.length_cons] at hcount hitems
    apply failure?_list_eq_none_iff.mpr
    simp only [List.forall_mem_append, List.forall_mem_cons, List.length_append, List.length_cons]
    exact ⟨hdepth, hcount, hitems.1, ih hitems.2.1, hitems.2.2⟩
  | entry front back name _ ih =>
    obtain ⟨hdepth, hcount, hentries, hnames⟩ := failure?_tuple_eq_none_iff.mp hfail
    simp only [List.forall_mem_append, List.forall_mem_cons, List.length_append, List.length_cons,
      List.map_append, List.map_cons] at hcount hentries hnames
    apply failure?_tuple_eq_none_iff.mpr
    simp only [List.forall_mem_append, List.forall_mem_cons, List.length_append, List.length_cons,
      List.map_append, List.map_cons]
    exact ⟨hdepth, hcount, ⟨hentries.1, ih hentries.2.1, hentries.2.2⟩, hnames⟩

/-- Reordering keeps the number of bytes. -/
theorem Step.length_bytes {tree other : WireTree} (h : Step tree other) :
    other.bytes.length = tree.bytes.length := by
  induction h with
  | permute h =>
    have hbytes := (h.flatMap_right entryText).length_eq
    simp only [bytes_eq, content, List.length_cons, List.length_append, Bytes.length_ofNat, hbytes]
  | wrapped wrapper _ ih => simp only [bytes, List.length_cons, ih]
  | item front back _ ih =>
    simp only [bytes, itemBytes_eq, List.flatMap_append, List.flatMap_cons, List.length_cons,
      List.length_append, Bytes.length_ofNat, ih]
  | entry front back name _ ih =>
    simp only [bytes, entryBytes_eq, entryText, List.flatMap_append, List.flatMap_cons,
      List.length_cons, List.length_append, Bytes.length_ofNat, ih]

/-- Reordering keeps the value. -/
theorem Step.value {tree other : WireTree} (h : Step tree other) {depth : Nat}
    (hfail : tree.failure? depth = none) : other.value = tree.value := by
  induction h generalizing depth with
  | @permute entries others h =>
    obtain ⟨-, -, -, hnames⟩ := failure?_tuple_eq_none_iff.mp hfail
    rw [← map_fst_valueEntry] at hnames
    rw [value_tuple, value_tuple, Fields.sort_eq_of_perm (h.map valueEntry) hnames]
  | wrapped wrapper _ ih =>
    obtain ⟨-, hbody⟩ := failure?_wrapped_eq_none_iff.mp hfail
    rw [value_wrapped, value_wrapped, ih hbody]
  | item front back _ ih =>
    obtain ⟨-, -, hitems⟩ := failure?_list_eq_none_iff.mp hfail
    simp only [List.forall_mem_append, List.forall_mem_cons] at hitems
    simp only [value_list, List.map_append, List.map_cons, ih hitems.2.1]
  | entry front back name _ ih =>
    obtain ⟨-, -, hentries, -⟩ := failure?_tuple_eq_none_iff.mp hfail
    simp only [List.forall_mem_append, List.forall_mem_cons] at hentries
    simp only [value_tuple, List.map_append, List.map_cons, valueEntry, ih hentries.2.1]

/-! ## Any number of tuples reordered -/

theorem Steps.symm {tree other : WireTree} (h : Steps tree other) : Steps other tree := by
  induction h with
  | refl => exact .refl
  | tail _ hstep ih => exact .head hstep.symm ih

theorem Steps.failure? {tree other : WireTree} (h : Steps tree other) {depth : Nat}
    (hfail : tree.failure? depth = none) : other.failure? depth = none := by
  induction h with
  | refl => exact hfail
  | tail _ hstep ih => exact hstep.failure? ih

theorem Steps.length_bytes {tree other : WireTree} (h : Steps tree other) :
    other.bytes.length = tree.bytes.length := by
  induction h with
  | refl => rfl
  | tail _ hstep ih => rw [hstep.length_bytes, ih]

theorem Steps.value {tree other : WireTree} (h : Steps tree other) {depth : Nat}
    (hfail : tree.failure? depth = none) : other.value = tree.value := by
  induction h with
  | refl => rfl
  | tail hsteps hstep ih => rw [hstep.value (Steps.failure? hsteps hfail), ih]

theorem Steps.map {tree other : WireTree} (h : Steps tree other) (f : WireTree → WireTree)
    (hf : ∀ a b, Step a b → Step (f a) (f b)) : Steps (f tree) (f other) := by
  induction h with
  | refl => exact .refl
  | tail _ hstep ih => exact ih.tail (hf _ _ hstep)

private theorem steps_items (front items : List WireTree)
    (h : ∀ item ∈ items, Steps item item.sorted) :
    Steps (.list (front ++ items)) (.list (front ++ items.map sorted)) := by
  -- the items in `front` are sorted already, and each step moves the next one over
  induction items generalizing front with
  | nil => exact .refl
  | cons item back ih =>
    obtain ⟨hitem, hrest⟩ := List.forall_mem_cons.mp h
    have hfirst : Steps (.list (front ++ item :: back)) (.list (front ++ item.sorted :: back)) :=
      Steps.map hitem (fun tree => .list (front ++ tree :: back))
        fun _ _ hstep => .item front back hstep
    have hback := ih (front ++ [item.sorted]) hrest
    rw [List.append_assoc, List.append_assoc] at hback
    exact hfirst.trans hback

private theorem steps_entries (front entries : List (ClarityName × WireTree))
    (h : ∀ entry ∈ entries, Steps entry.2 entry.2.sorted) :
    Steps (.tuple (front ++ entries))
      (.tuple (front ++ entries.map fun entry => (entry.1, entry.2.sorted))) := by
  induction entries generalizing front with
  | nil => exact .refl
  | cons entry back ih =>
    obtain ⟨hentry, hrest⟩ := List.forall_mem_cons.mp h
    have hfirst : Steps (.tuple (front ++ entry :: back))
        (.tuple (front ++ (entry.1, entry.2.sorted) :: back)) :=
      Steps.map hentry (fun tree => .tuple (front ++ (entry.1, tree) :: back))
        fun _ _ hstep => .entry front back entry.1 hstep
    have hback := ih (front ++ [(entry.1, entry.2.sorted)]) hrest
    rw [List.append_assoc, List.append_assoc] at hback
    exact hfirst.trans hback

/-- Sorting every tuple is reordering. -/
theorem steps_sorted (tree : WireTree) : Steps tree tree.sorted := by
  induction tree with
  | atom a => exact .refl
  | wrapped wrapper body ih =>
    rw [sorted]
    exact ih.map (.wrapped wrapper) fun _ _ hstep => .wrapped wrapper hstep
  | list items ih =>
    rw [sorted_list]
    exact steps_items [] items ih
  | tuple entries ih =>
    rw [sorted_tuple]
    apply Relation.ReflTransGen.tail (steps_entries [] entries ih)
    exact .permute (Fields.sort_perm _).symm

/-- Sorting changes nothing exactly if all is in ascending order. -/
theorem sorted_eq_iff {tree : WireTree} {depth : Nat} (h : tree.failure? depth = none) :
    tree.sorted = tree ↔ tree.Ascending := by
  induction tree generalizing depth with
  | atom a => exact ⟨fun _ => .atom a, fun _ => rfl⟩
  | wrapped wrapper body ih =>
    obtain ⟨-, hbody⟩ := failure?_wrapped_eq_none_iff.mp h
    rw [sorted, WireTree.wrapped.injEq, ih hbody]
    constructor
    · intro heq
      exact .wrapped heq.2
    · intro hasc
      cases hasc with | wrapped hbody => exact ⟨rfl, hbody⟩
  | list items ih =>
    obtain ⟨-, -, hitems⟩ := failure?_list_eq_none_iff.mp h
    rw [sorted_list, WireTree.list.injEq, Fields.map_eq_self_iff]
    constructor
    · intro heq
      apply Ascending.list
      intro item hitem
      exact (ih item hitem (hitems item hitem)).mp (heq item hitem)
    · intro hasc item hitem
      cases hasc with | list hinside =>
      exact (ih item hitem (hitems item hitem)).mpr (hinside item hitem)
  | tuple entries ih =>
    obtain ⟨-, -, hentries, hnames⟩ := failure?_tuple_eq_none_iff.mp h
    rw [sorted_tuple, WireTree.tuple.injEq, Fields.sort_map_eq_self_iff hnames]
    constructor
    · intro ⟨hasc, heq⟩
      apply Ascending.tuple hasc
      intro entry hentry
      exact (ih entry hentry (hentries entry hentry)).mp (heq entry hentry)
    · intro hasc
      cases hasc with | tuple hnames hinside =>
      refine ⟨hnames, ?_⟩
      intro entry hentry
      exact (ih entry hentry (hentries entry hentry)).mpr (hinside entry hentry)

/-- A decoded value is written as the tree it was decoded from, sorted. -/
theorem tree_value {tree : WireTree} {depth : Nat} (h : tree.failure? depth = none) :
    tree.value.tree = tree.sorted := by
  induction tree generalizing depth with
  | atom a =>
    obtain ⟨-, -, htext⟩ := failure?_atom_eq_none_iff.mp h
    cases a <;> try rfl
    case utf8 bytes =>
      have hflatten := Utf8.flatten_scalars (textFailure?_utf8_eq_none_iff.mp htext)
      change WireTree.atom (.utf8 (Utf8.scalars bytes).flatten) = .atom (.utf8 bytes)
      rw [hflatten]
  | wrapped wrapper body ih =>
    obtain ⟨-, hbody⟩ := failure?_wrapped_eq_none_iff.mp h
    rw [value_wrapped, Value.tree_wrapped, sorted, Spanned.bare, ih hbody]
  | list items ih =>
    obtain ⟨-, -, hitems⟩ := failure?_list_eq_none_iff.mp h
    rw [value_list, Value.tree_list, sorted_list, List.map_map]
    congr 1
    apply List.map_congr_left
    intro item hitem
    exact ih item hitem (hitems item hitem)
  | tuple entries ih =>
    obtain ⟨-, -, hentries, -⟩ := failure?_tuple_eq_none_iff.mp h
    rw [value_tuple, Value.tree_tuple, sorted_tuple,
      ← Fields.sort_map fun node : ClarityValue => node.value.tree, List.map_map]
    congr 2
    apply List.map_congr_left
    intro entry hentry
    exact congrArg (Prod.mk entry.1) (ih entry hentry (hentries entry hentry))

end WireTree

/-! ## Byte strings -/

/-- Whether the keys of every tuple that a byte string spells, at any level, are in ascending
order. -/
def KeysAscending (bytes : Bytes) : Prop :=
  ∃ tree : WireTree, tree.Representable ∧ tree.bytes = bytes ∧ tree.Ascending

/-- Whether one byte string turns into another when the entries of the tuples it spells, at any
level, are permuted. -/
def Reordered (bytes other : Bytes) : Prop :=
  ∃ tree tree' : WireTree, tree.Representable ∧ tree'.Representable ∧ tree.bytes = bytes ∧
    tree'.bytes = other ∧ WireTree.Steps tree tree'

theorem keysAscending_bytes_iff {tree : WireTree} (h : tree.Representable) :
    KeysAscending tree.bytes ↔ tree.Ascending := by
  constructor
  · rintro ⟨other, hother, hbytes, hasc⟩
    rw [WireTree.bytes_injective h hother hbytes.symm]
    exact hasc
  · intro hasc
    exact ⟨tree, h, rfl, hasc⟩

theorem reordered_bytes_iff {tree other : WireTree} (h : tree.Representable)
    (hother : other.Representable) :
    Reordered tree.bytes other.bytes ↔ WireTree.Steps tree other := by
  constructor
  · rintro ⟨a, b, ha, hb, habytes, hbbytes, hsteps⟩
    rw [WireTree.bytes_injective h ha habytes.symm, WireTree.bytes_injective hother hb hbbytes.symm]
    exact hsteps
  · intro hsteps
    exact ⟨tree, other, h, hother, rfl, rfl, hsteps⟩

namespace WireTree

variable {tree other : WireTree} {depth : Nat}

/-- Writing a decoded value gives back the bytes it was decoded from exactly if the keys in them
were in ascending order. -/
theorem toBytes_value_eq_iff (h : tree.failure? depth = none) :
    tree.value.toBytes = tree.bytes ↔ KeysAscending tree.bytes := by
  have hsorted : tree.sorted.failure? depth = none := Steps.failure? (steps_sorted tree) h
  have htree := representable_of_failure? h
  rw [Value.toBytes_eq, tree_value h, keysAscending_bytes_iff htree, ← sorted_eq_iff h]
  constructor
  · intro hbytes
    exact bytes_injective (representable_of_failure? hsorted) htree hbytes
  · intro heq
    rw [heq]

/-- Two trees have the same value exactly if they differ in the order of entries alone. -/
theorem value_eq_iff_steps (h : tree.failure? depth = none) (hother : other.failure? depth = none) :
    tree.value = other.value ↔ Steps tree other := by
  constructor
  · intro heq
    have hsorted : tree.sorted = other.sorted := by rw [← tree_value h, heq, tree_value hother]
    have hback : Steps other.sorted other := Steps.symm (steps_sorted other)
    rw [← hsorted] at hback
    exact (steps_sorted tree).trans hback
  · intro hsteps
    exact (Steps.value hsteps h).symm

end WireTree

namespace Value

/-- Decoding and writing again puts the entries of every tuple in ascending order of keys and
changes nothing else. Two byte strings have the same value exactly if they differ in the order of
entries alone. -/
theorem decode_canonical {bytes : Bytes} {value : Value} (h : decoder.decode bytes = .ok value) :
    value.toBytes.length = bytes.length ∧
      decoder.decode value.toBytes = .ok value ∧
      (decoder.decode value.toBytes).map toBytes = .ok value.toBytes ∧
      (value.toBytes = bytes ↔ KeysAscending bytes) ∧
      ∀ (other : Bytes) (otherValue : Value), decoder.decode other = .ok otherValue →
        ((value == otherValue) = true ↔ Reordered bytes other) ∧
          (value = otherValue ↔ Reordered bytes other) := by
  obtain ⟨tree, hfail, rfl, rfl⟩ := decode_eq_ok_iff_tree.mp h
  have hsteps := tree.steps_sorted
  have hwritten : tree.value.toBytes = tree.sorted.bytes := by
    rw [toBytes_eq, WireTree.tree_value hfail]
  have hagain : decoder.decode tree.value.toBytes = .ok tree.value := by
    rw [hwritten]
    apply decode_eq_ok_iff_tree.mpr
    exact ⟨tree.sorted, WireTree.Steps.failure? hsteps hfail, rfl,
      WireTree.Steps.value hsteps hfail⟩
  refine ⟨?_, hagain, ?_, WireTree.toBytes_value_eq_iff hfail, ?_⟩
  · rw [hwritten, WireTree.Steps.length_bytes hsteps]
  · rw [hagain]
    rfl
  · intro other otherValue hother
    obtain ⟨tree', hfail', rfl, rfl⟩ := decode_eq_ok_iff_tree.mp hother
    have hequal : tree.value = tree'.value ↔ Reordered tree.bytes tree'.bytes := by
      rw [WireTree.value_eq_iff_steps hfail hfail', reordered_bytes_iff
        (WireTree.representable_of_failure? hfail) (WireTree.representable_of_failure? hfail')]
    rw [tree.value_beq_iff tree']
    exact ⟨hequal, hequal⟩

/-- A tuple inside a tuple, each with its two keys in descending order. -/
def descendingTuples : Bytes :=
  [0x0c, 0, 0, 0, 2, 1, 0x62, 0x09, 1, 0x61, 0x0c, 0, 0, 0, 2, 1, 0x62, 0x03, 1, 0x61, 0x04]

theorem decode_canonical_descendingTuples :
    ∃ value, decoder.decode descendingTuples = .ok value ∧ value.toBytes.length = 21 ∧
      (value.toBytes = descendingTuples ↔ KeysAscending descendingTuples) ∧
      Reordered descendingTuples value.toBytes := by
  have h : decoder.decode descendingTuples = .ok (.tuple
      [(⟨"a", by decide⟩, .bare (.tuple
        [(⟨"a", by decide⟩, .bare (.bool false)), (⟨"b", by decide⟩, .bare (.bool true))])),
      (⟨"b", by decide⟩, .bare .optionalNone)]) := by rfl
  obtain ⟨hlength, hagain, -, hbytes, hequal⟩ := decode_canonical h
  exact ⟨_, h, hlength, hbytes, (hequal _ _ hagain).2.mp rfl⟩

end Value

end ClarityWire
