import ClarityWire.Proofs.TreeValue

/-!
# The grammar of values

The grammar says which bytes spell which value, production by production, with the limits on
depth, lengths and counts. The decoder accepts exactly what the grammar derives.
-/

namespace ClarityWire

/-- `Wire depth bytes value` says that the bytes spell the value where it is found at the given
depth. The values inside it were read without ranges, as `.bare` says. -/
inductive Wire : Nat → Bytes → Value → Prop
  | int {depth : Nat} (hdepth : depth ≤ maxValueDepth) (digits : Block 16) :
    Wire depth (0x00 :: digits.1) (.int (BitVec.ofNat 128 (Bytes.toNat digits.1)))
  | uint {depth : Nat} (hdepth : depth ≤ maxValueDepth) (digits : Block 16) :
    Wire depth (0x01 :: digits.1) (.uint (BitVec.ofNat 128 (Bytes.toNat digits.1)))
  | buffer {depth : Nat} (hdepth : depth ≤ maxValueDepth) {bytes : Bytes}
    (hsize : bytes.length ≤ maxValueSize) : Wire depth (0x02 :: bytes.sized) (.buffer bytes)
  | boolTrue {depth : Nat} (hdepth : depth ≤ maxValueDepth) : Wire depth [0x03] (.bool true)
  | boolFalse {depth : Nat} (hdepth : depth ≤ maxValueDepth) : Wire depth [0x04] (.bool false)
  | principal {depth : Nat} (hdepth : depth ≤ maxValueDepth) (version : UInt8) (hash : Hash160) :
    Wire depth (0x05 :: version :: hash.1) (.principal ⟨version, hash⟩)
  | contract {depth : Nat} (hdepth : depth ≤ maxValueDepth) (version : UInt8) (hash : Hash160)
    (name : ClarityName) :
    Wire depth (0x06 :: version :: (hash.1 ++ name.wireBytes)) (.contract ⟨⟨version, hash⟩, name⟩)
  | responseOk {depth : Nat} (hdepth : depth ≤ maxValueDepth) {bytes : Bytes} {body : Value}
    (hbody : Wire (depth + 1) bytes body) : Wire depth (0x07 :: bytes) (.responseOk (.bare body))
  | responseErr {depth : Nat} (hdepth : depth ≤ maxValueDepth) {bytes : Bytes} {body : Value}
    (hbody : Wire (depth + 1) bytes body) : Wire depth (0x08 :: bytes) (.responseErr (.bare body))
  | optionalNone {depth : Nat} (hdepth : depth ≤ maxValueDepth) : Wire depth [0x09] .optionalNone
  | optionalSome {depth : Nat} (hdepth : depth ≤ maxValueDepth) {bytes : Bytes} {body : Value}
    (hbody : Wire (depth + 1) bytes body) : Wire depth (0x0a :: bytes) (.optionalSome (.bare body))
  | list {depth : Nat} (hdepth : depth ≤ maxValueDepth) {items : List (Bytes × Value)}
    (hcount : items.length ≤ maxValueSize)
    (hitems : ∀ item ∈ items, Wire (depth + 1) item.1 item.2) :
    Wire depth (0x0b :: (Bytes.ofNat 4 items.length ++ items.flatMap fun item => item.1))
      (.list (items.map fun item => .bare item.2))
  -- the entries stand in any order, the fields of the value do not
  | tuple {depth : Nat} (hdepth : depth ≤ maxValueDepth)
    {entries : List (ClarityName × Bytes × Value)} {fields : Fields ClarityValue}
    (hcount : entries.length ≤ maxValueSize)
    (hentries : ∀ entry ∈ entries, Wire (depth + 1) entry.2.1 entry.2.2)
    (hnames : (entries.map fun entry => entry.1).Nodup)
    (hfields : fields.Perm (entries.map fun entry => (entry.1, .bare entry.2.2)))
    (hsorted : Fields.Ascending fields) :
    Wire depth
      (0x0c :: (Bytes.ofNat 4 entries.length ++
        entries.flatMap fun entry => entry.1.wireBytes ++ entry.2.1))
      (.tuple fields)
  | ascii {depth : Nat} (hdepth : depth ≤ maxValueDepth) {bytes : Bytes}
    (hsize : bytes.length ≤ maxValueSize) : Wire depth (0x0d :: bytes.sized) (.ascii bytes)
  | utf8 {depth : Nat} (hdepth : depth ≤ maxValueDepth) {text : List Char}
    (hsize : (Utf8.encode text).length ≤ maxValueSize) :
    Wire depth (0x0e :: (Utf8.encode text).sized) (.utf8 (text.map String.utf8EncodeChar))

namespace WireTree

/-! ## Trees are derivations -/

private theorem ofNat_toNat_digits (bits : BitVec 128) :
    BitVec.ofNat 128 (Bytes.toNat (Bytes.ofNat 16 bits.toNat)) = bits := by
  have hlt : bits.toNat < 256 ^ 16 := bits.isLt
  rw [Bytes.toNat_ofNat_of_lt hlt, BitVec.ofNat_toNat, BitVec.setWidth_eq]

private theorem wire_atom {depth : Nat} {a : Atom} (h : (WireTree.atom a).failure? depth = none) :
    Wire depth (WireTree.atom a).bytes (WireTree.atom a).value := by
  obtain ⟨hdepth, hsize, htext⟩ := failure?_atom_eq_none_iff.mp h
  cases a with
  | int bits =>
    have hwire := Wire.int hdepth ⟨Bytes.ofNat 16 bits.toNat, Bytes.length_ofNat _ _⟩
    rw [ofNat_toNat_digits] at hwire
    exact hwire
  | uint bits =>
    have hwire := Wire.uint hdepth ⟨Bytes.ofNat 16 bits.toNat, Bytes.length_ofNat _ _⟩
    rw [ofNat_toNat_digits] at hwire
    exact hwire
  | buffer bytes => exact .buffer hdepth hsize
  | bool value =>
    cases value with
    | false => exact .boolFalse hdepth
    | true => exact .boolTrue hdepth
  | principal address => exact .principal hdepth address.version address.hash
  | contract id => exact .contract hdepth id.issuer.version id.issuer.hash id.name
  | optionalNone => exact .optionalNone hdepth
  | ascii bytes => exact .ascii hdepth hsize
  | utf8 bytes =>
    obtain ⟨text, rfl⟩ := textFailure?_utf8_eq_none_iff.mp htext
    have hwire := Wire.utf8 hdepth hsize
    rw [← Utf8.scalars_encode] at hwire
    exact hwire

/-- What a tree derives. -/
def derived (tree : WireTree) : Bytes × Value :=
  (tree.bytes, tree.value)

/-- What a tuple entry derives behind its name. -/
def derivedEntry (entry : ClarityName × WireTree) : ClarityName × Bytes × Value :=
  (entry.1, entry.2.derived)

/-- A tree without a failure is a derivation of its bytes and its value. -/
theorem wire_of_failure? {tree : WireTree} {depth : Nat} (h : tree.failure? depth = none) :
    Wire depth tree.bytes tree.value := by
  induction tree generalizing depth with
  | atom a => exact wire_atom h
  | wrapped wrapper body ih =>
    obtain ⟨hdepth, hbody⟩ := failure?_wrapped_eq_none_iff.mp h
    rw [value_wrapped]
    cases wrapper with
    | responseOk => exact .responseOk hdepth (ih hbody)
    | responseErr => exact .responseErr hdepth (ih hbody)
    | optionalSome => exact .optionalSome hdepth (ih hbody)
  | list items ih =>
    obtain ⟨hdepth, hcount, hitems⟩ := failure?_list_eq_none_iff.mp h
    have hderived : ∀ part ∈ items.map derived, Wire (depth + 1) part.1 part.2 := by
      intro part hpart
      obtain ⟨item, hitem, rfl⟩ := List.mem_map.mp hpart
      exact ih item hitem (hitems item hitem)
    rw [← List.length_map derived] at hcount
    have hwire := Wire.list hdepth hcount hderived
    rw [List.length_map, List.flatMap_map, List.map_map] at hwire
    rw [value_list, bytes, itemBytes_eq]
    exact hwire
  | tuple entries ih =>
    obtain ⟨hdepth, hcount, hentries, hnames⟩ := failure?_tuple_eq_none_iff.mp h
    have hderived : ∀ part ∈ entries.map derivedEntry, Wire (depth + 1) part.2.1 part.2.2 := by
      intro part hpart
      obtain ⟨entry, hentry, rfl⟩ := List.mem_map.mp hpart
      exact ih entry hentry (hentries entry hentry)
    have hkeys : (entries.map derivedEntry).map (fun part => part.1) = entries.map (·.1) :=
      List.map_map
    have hvalues : (entries.map derivedEntry).map (fun part => (part.1, Spanned.bare part.2.2)) =
        entries.map valueEntry := List.map_map
    have hfields : ((entries.map valueEntry).map (·.1)).Nodup := by
      rw [map_fst_valueEntry]
      exact hnames
    rw [← List.length_map derivedEntry] at hcount
    have hwire := Wire.tuple hdepth hcount hderived (hkeys ▸ hnames)
      (hvalues ▸ Fields.sort_perm (entries.map valueEntry)) (Fields.sort_ascending hfields)
    rw [List.length_map, List.flatMap_map] at hwire
    rw [value_tuple, bytes, entryBytes_eq]
    exact hwire

/-! ## Derivations are trees -/

private theorem exists_map_eq {α β : Type} {f : α → β} {good : α → Prop} {parts : List β}
    (h : ∀ part ∈ parts, ∃ a, good a ∧ f a = part) :
    ∃ found : List α, (∀ a ∈ found, good a) ∧ found.map f = parts := by
  induction parts with
  | nil => exact ⟨[], List.forall_mem_nil good, rfl⟩
  | cons part rest ih =>
    obtain ⟨⟨a, ha, hpart⟩, hlater⟩ := List.forall_mem_cons.mp h
    obtain ⟨found, hfound, hrest⟩ := ih hlater
    have hgood : ∀ b ∈ a :: found, good b := List.forall_mem_cons.mpr ⟨ha, hfound⟩
    exact ⟨a :: found, hgood, by rw [List.map_cons, hpart, hrest]⟩

private theorem exists_atom {depth : Nat} (a : Atom) (hdepth : depth ≤ maxValueDepth)
    (hsize : a.size ≤ maxValueSize) (htext : a.textFailure? = none) :
    ∃ tree : WireTree, tree.failure? depth = none ∧
      tree.derived = (a.tag.toByte :: a.body, a.value) :=
  ⟨.atom a, failure?_atom_eq_none_iff.mpr ⟨hdepth, hsize, htext⟩, rfl⟩

private theorem exists_fixed {depth : Nat} (a : Atom) (hdepth : depth ≤ maxValueDepth)
    (hsize : a.size = 0) (htext : a.textFailure? = none) :
    ∃ tree : WireTree, tree.failure? depth = none ∧
      tree.derived = (a.tag.toByte :: a.body, a.value) :=
  exists_atom a hdepth (hsize ▸ Nat.zero_le _) htext

private theorem exists_wrapped {depth : Nat} {bytes : Bytes} {body : Value} (wrapper : Wrapper)
    (hdepth : depth ≤ maxValueDepth)
    (h : ∃ tree : WireTree, tree.failure? (depth + 1) = none ∧ tree.derived = (bytes, body)) :
    ∃ tree : WireTree, tree.failure? depth = none ∧
      tree.derived = (wrapper.tag.toByte :: bytes, wrapper.value (.bare body)) := by
  obtain ⟨tree, htree, hderived⟩ := h
  obtain ⟨rfl, rfl⟩ := Prod.mk.inj hderived
  refine ⟨.wrapped wrapper tree, failure?_wrapped_eq_none_iff.mpr ⟨hdepth, htree⟩, ?_⟩
  rw [derived, value_wrapped, WireTree.bytes]

private theorem ofNat_digits (digits : Block 16) :
    Bytes.ofNat 16 (BitVec.ofNat 128 (Bytes.toNat digits.1)).toNat = digits.1 := by
  have hlt : Bytes.toNat digits.1 < 2 ^ 128 := by
    have hbound := Bytes.toNat_lt digits.1
    rw [digits.2] at hbound
    exact hbound
  rw [BitVec.toNat_ofNat, Nat.mod_eq_of_lt hlt, Bytes.ofNat_toNat_of_length digits.2]

private theorem exists_list {depth : Nat} {parts : List (Bytes × Value)}
    (hdepth : depth ≤ maxValueDepth) (hcount : parts.length ≤ maxValueSize)
    (h : ∀ part ∈ parts, ∃ tree : WireTree, tree.failure? (depth + 1) = none ∧
      tree.derived = part) :
    ∃ tree : WireTree, tree.failure? depth = none ∧
      tree.derived = (0x0b :: (Bytes.ofNat 4 parts.length ++ parts.flatMap fun part => part.1),
        .list (parts.map fun part => .bare part.2)) := by
  obtain ⟨items, hitems, rfl⟩ := exists_map_eq h
  rw [List.length_map] at hcount
  refine ⟨.list items, failure?_list_eq_none_iff.mpr ⟨hdepth, hcount, hitems⟩, ?_⟩
  rw [derived, value_list, WireTree.bytes, itemBytes_eq, List.length_map, List.flatMap_map,
    List.map_map]
  rfl

private theorem exists_tuple {depth : Nat} {parts : List (ClarityName × Bytes × Value)}
    {fields : Fields ClarityValue} (hdepth : depth ≤ maxValueDepth)
    (hcount : parts.length ≤ maxValueSize) (hnames : (parts.map fun part => part.1).Nodup)
    (hfields : fields.Perm (parts.map fun part => (part.1, .bare part.2.2)))
    (hsorted : Fields.Ascending fields)
    (h : ∀ part ∈ parts, ∃ tree : WireTree, tree.failure? (depth + 1) = none ∧
      tree.derived = part.2) :
    ∃ tree : WireTree, tree.failure? depth = none ∧
      tree.derived = (0x0c :: (Bytes.ofNat 4 parts.length ++
        parts.flatMap fun part => part.1.wireBytes ++ part.2.1), .tuple fields) := by
  have hparts : ∀ part ∈ parts, ∃ entry : ClarityName × WireTree,
      entry.2.failure? (depth + 1) = none ∧ derivedEntry entry = part := by
    intro part hpart
    obtain ⟨tree, htree, hderived⟩ := h part hpart
    exact ⟨(part.1, tree), htree, by rw [derivedEntry, hderived]⟩
  obtain ⟨entries, hentries, rfl⟩ := exists_map_eq hparts
  rw [List.length_map] at hcount
  rw [List.map_map] at hnames hfields
  have hvalues : ((entries.map valueEntry).map (·.1)).Nodup := by
    rw [map_fst_valueEntry]
    exact hnames
  have hsort : Fields.sort (entries.map valueEntry) = fields :=
    (Fields.sort_eq_iff hvalues).mpr ⟨hfields, hsorted⟩
  refine ⟨.tuple entries, failure?_tuple_eq_none_iff.mpr ⟨hdepth, hcount, hentries, hnames⟩, ?_⟩
  rw [derived, value_tuple, hsort, WireTree.bytes, entryBytes_eq, List.length_map,
    List.flatMap_map]
  rfl

/-- Every derivation comes from a tree without a failure. -/
theorem exists_of_wire {depth : Nat} {bytes : Bytes} {value : Value} (h : Wire depth bytes value) :
    ∃ tree : WireTree, tree.failure? depth = none ∧ tree.derived = (bytes, value) := by
  induction h with
  | int hdepth digits =>
    have htree := exists_fixed (.int (BitVec.ofNat 128 (Bytes.toNat digits.1))) hdepth rfl rfl
    rw [Atom.body, ofNat_digits] at htree
    exact htree
  | uint hdepth digits =>
    have htree := exists_fixed (.uint (BitVec.ofNat 128 (Bytes.toNat digits.1))) hdepth rfl rfl
    rw [Atom.body, ofNat_digits] at htree
    exact htree
  | buffer hdepth hsize => exact exists_atom (.buffer _) hdepth hsize rfl
  | boolTrue hdepth => exact exists_fixed (.bool true) hdepth rfl rfl
  | boolFalse hdepth => exact exists_fixed (.bool false) hdepth rfl rfl
  | principal hdepth version hash => exact exists_fixed (.principal ⟨version, hash⟩) hdepth rfl rfl
  | contract hdepth version hash name =>
    exact exists_fixed (.contract ⟨⟨version, hash⟩, name⟩) hdepth rfl rfl
  | responseOk hdepth _ ih => exact exists_wrapped .responseOk hdepth ih
  | responseErr hdepth _ ih => exact exists_wrapped .responseErr hdepth ih
  | optionalNone hdepth => exact exists_fixed .optionalNone hdepth rfl rfl
  | optionalSome hdepth _ ih => exact exists_wrapped .optionalSome hdepth ih
  | list hdepth hcount _ ih => exact exists_list hdepth hcount ih
  | tuple hdepth hcount _ hnames hfields hsorted ih =>
    exact exists_tuple hdepth hcount hnames hfields hsorted ih
  | ascii hdepth hsize => exact exists_atom (.ascii _) hdepth hsize rfl
  | @utf8 depth hdepth text hsize =>
    have htext : (Atom.utf8 (Utf8.encode text)).textFailure? = none :=
      textFailure?_utf8_eq_none_iff.mpr ⟨text, rfl⟩
    have htree := exists_atom (.utf8 (Utf8.encode text)) hdepth hsize htext
    rw [Atom.value, Utf8.scalars_encode] at htree
    exact htree

end WireTree

/-- The decoder reads a value from the front of a byte string exactly when the grammar derives
that value from the bytes it takes. -/
theorem Value.decodeFront_eq_ok_iff_wire (bytes : Bytes) (value : Value) (n : Nat) :
    Value.decoder.decodeFront bytes = .ok (value, n) ↔
      n ≤ bytes.length ∧ Wire 0 (bytes.take n) value := by
  rw [Value.decodeFront_eq_ok_iff_tree]
  constructor
  · rintro ⟨tree, rest, hfail, rfl, rfl, rfl⟩
    rw [List.length_append, List.take_left]
    exact ⟨Nat.le_add_right _ _, WireTree.wire_of_failure? hfail⟩
  · intro ⟨hn, hwire⟩
    obtain ⟨tree, hfail, hderived⟩ := WireTree.exists_of_wire hwire
    obtain ⟨hbytes, hvalue⟩ := Prod.mk.inj hderived
    have hlength : n = tree.bytes.length := by rw [hbytes, List.length_take_of_le hn]
    refine ⟨tree, bytes.drop n, hfail, ?_, hlength, hvalue.symm⟩
    rw [hbytes, List.take_append_drop]

end ClarityWire
