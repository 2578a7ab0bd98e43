import ClarityWire.Proofs.TreeReading

/-!
# One tree for each encoding

No two trees begin a byte string in the same place: each item is told by its bytes, and they say
where it ends. The format leaves no second way to write a length, a number, a name or a string.
-/

namespace ClarityWire

/-- Whether two items are equal, and followed by the same bytes, as soon as they begin the same
byte string. -/
def Unambiguous {α : Type} (spell : α → Bytes) (a b : α) : Prop :=
  ∀ rest rest' : Bytes, spell a ++ rest = spell b ++ rest' → a = b ∧ rest = rest'

/-- Items one after another are unambiguous if each of them is and their number is known. -/
theorem Unambiguous.flatMap {α : Type} {spell : α → Bytes} {items others : List α}
    (h : ∀ a ∈ items, ∀ b ∈ others, Unambiguous spell a b) (hlength : items.length = others.length)
    {rest rest' : Bytes} (heq : items.flatMap spell ++ rest = others.flatMap spell ++ rest') :
    items = others ∧ rest = rest' := by
  induction items generalizing others with
  | nil =>
    have hnil : others = [] := List.length_eq_zero_iff.mp hlength.symm
    subst hnil
    exact ⟨rfl, heq⟩
  | cons item items ih =>
    cases others with
    | nil => cases hlength
    | cons other others =>
      simp only [List.flatMap_cons, List.append_assoc] at heq
      obtain ⟨hitem, hrest⟩ := h item (List.mem_cons_self ..) other (List.mem_cons_self ..) _ _ heq
      have hlater : ∀ a ∈ items, ∀ b ∈ others, Unambiguous spell a b := by
        intro a ha b hb
        exact h a (List.mem_cons_of_mem _ ha) b (List.mem_cons_of_mem _ hb)
      obtain ⟨hitems, hrest⟩ := ih hlater (Nat.succ.inj hlength) hrest
      exact ⟨by rw [hitem, hitems], hrest⟩

theorem Unambiguous.of_length {α : Type} {spell : α → Bytes} {a b : α}
    (hlength : (spell a).length = (spell b).length) (hinj : spell a = spell b → a = b) :
    Unambiguous spell a b := by
  intro rest rest' heq
  obtain ⟨hspell, hrest⟩ := List.append_inj heq hlength
  exact ⟨hinj hspell, hrest⟩

theorem Name.wireBytes_unambiguous {kind : NameKind} (name other : Name kind) :
    Unambiguous wireBytes name other := by
  intro rest rest' heq
  rw [wireBytes, wireBytes, List.cons_append, List.cons_append, List.cons.injEq] at heq
  have hlength : name.bytes.length = other.bytes.length := by
    have hcount := congrArg UInt8.toNat heq.1
    rw [UInt8.toNat_ofNat', UInt8.toNat_ofNat', Nat.mod_eq_of_lt name.length_bytes_lt,
      Nat.mod_eq_of_lt other.length_bytes_lt] at hcount
    exact hcount
  obtain ⟨hbytes, hrest⟩ := List.append_inj heq.2 hlength
  exact ⟨Name.bytes_injective hbytes, hrest⟩

theorem StacksAddress.wireBytes_unambiguous (address other : StacksAddress) :
    Unambiguous wireBytes address other := by
  apply Unambiguous.of_length
  · rw [wireBytes, wireBytes, List.length_cons, List.length_cons, address.hash.2, other.hash.2]
  · intro heq
    obtain ⟨hversion, hhash⟩ := List.cons.inj heq
    cases address
    cases other
    congr 1
    exact Subtype.ext hhash

theorem Bytes.sized_unambiguous {bytes other : Bytes} (h : bytes.length < 256 ^ 4)
    (hother : other.length < 256 ^ 4) : Unambiguous sized bytes other := by
  intro rest rest' heq
  rw [sized, sized, List.append_assoc, List.append_assoc] at heq
  obtain ⟨hcount, hrest⟩ := List.append_inj heq (by rw [length_ofNat, length_ofNat])
  exact List.append_inj hrest (ofNat_injective_of_lt h hother hcount)

theorem word128_unambiguous (bits other : BitVec 128) :
    Unambiguous (fun bits : BitVec 128 => Bytes.ofNat 16 bits.toNat) bits other := by
  apply Unambiguous.of_length
  · rw [Bytes.length_ofNat, Bytes.length_ofNat]
  · intro heq
    have hlt : bits.toNat < 256 ^ 16 := bits.isLt
    have hlt' : other.toNat < 256 ^ 16 := other.isLt
    exact BitVec.eq_of_toNat_eq (Bytes.ofNat_injective_of_lt hlt hlt' heq)

namespace WireTree

/-- The tag in front of a tree. -/
def tag : WireTree → TypeTag
  | .atom a => a.tag
  | .wrapped wrapper _ => wrapper.tag
  | .list _ => .list
  | .tuple _ => .tuple

/-- The bytes behind the tag. -/
def content : WireTree → Bytes
  | .atom a => a.body
  | .wrapped _ body => body.bytes
  | .list items => Bytes.ofNat 4 items.length ++ items.flatMap bytes
  | .tuple entries => Bytes.ofNat 4 entries.length ++ entries.flatMap entryText

theorem bytes_eq (tree : WireTree) : tree.bytes = tree.tag.toByte :: tree.content := by
  cases tree <;> simp only [bytes, tag, content, itemBytes_eq, entryBytes_eq]

/-- Which kind of tree a tag announces. -/
def shape : TypeTag → Nat
  | .responseOk => 1
  | .responseErr => 1
  | .optionalSome => 1
  | .list => 2
  | .tuple => 3
  | _ => 0

@[simp] theorem shape_list : shape .list = 2 := rfl

@[simp] theorem shape_tuple : shape .tuple = 3 := rfl

@[simp] theorem shape_atom (a : Atom) : shape a.tag = 0 := by
  rcases a with _ | _ | _ | (_ | _) | _ | _ | _ | _ | _ <;> rfl

@[simp] theorem shape_wrapper (wrapper : Wrapper) : shape wrapper.tag = 1 := by
  cases wrapper <;> rfl

/-- Atoms of the same tag are told apart by what stands behind it. -/
theorem body_unambiguous {a b : Atom} (htag : a.tag = b.tag) (ha : a.size < 256 ^ 4)
    (hb : b.size < 256 ^ 4) : Unambiguous Atom.body a b := by
  intro rest rest' h
  rcases a with bits | bits | bytes | (_ | _) | address | id | _ | bytes | bytes <;>
    rcases b with bits' | bits' | bytes' | (_ | _) | address' | id' | _ | bytes' | bytes' <;>
    cases htag
  · obtain ⟨rfl, hrest⟩ := word128_unambiguous bits bits' rest rest' h
    exact ⟨rfl, hrest⟩
  · obtain ⟨rfl, hrest⟩ := word128_unambiguous bits bits' rest rest' h
    exact ⟨rfl, hrest⟩
  · obtain ⟨rfl, hrest⟩ := Bytes.sized_unambiguous ha hb rest rest' h
    exact ⟨rfl, hrest⟩
  · exact ⟨rfl, h⟩
  · exact ⟨rfl, h⟩
  · obtain ⟨rfl, hrest⟩ := address.wireBytes_unambiguous address' rest rest' h
    exact ⟨rfl, hrest⟩
  · simp only [Atom.body, List.append_assoc] at h
    obtain ⟨hissuer, hname⟩ := id.issuer.wireBytes_unambiguous id'.issuer _ _ h
    obtain ⟨hname, hrest⟩ := id.name.wireBytes_unambiguous id'.name _ _ hname
    cases id
    cases id'
    subst hissuer hname
    exact ⟨rfl, hrest⟩
  · exact ⟨rfl, h⟩
  · obtain ⟨rfl, hrest⟩ := Bytes.sized_unambiguous ha hb rest rest' h
    exact ⟨rfl, hrest⟩
  · obtain ⟨rfl, hrest⟩ := Bytes.sized_unambiguous ha hb rest rest' h
    exact ⟨rfl, hrest⟩

private theorem entryText_unambiguous {entry other : ClarityName × WireTree}
    (h : Unambiguous bytes entry.2 other.2) : Unambiguous entryText entry other := by
  intro rest rest' heq
  rw [entryText, entryText, List.append_assoc, List.append_assoc] at heq
  obtain ⟨hname, hrest⟩ := entry.1.wireBytes_unambiguous other.1 _ _ heq
  obtain ⟨htree, hrest⟩ := h _ _ hrest
  exact ⟨Prod.ext hname htree, hrest⟩

private theorem counted_flatMap {α : Type} {spell : α → Bytes} {items others : List α}
    (hcount : items.length < 256 ^ 4) (hcount' : others.length < 256 ^ 4)
    (h : ∀ a ∈ items, ∀ b ∈ others, Unambiguous spell a b) {rest rest' : Bytes}
    (heq : Bytes.ofNat 4 items.length ++ items.flatMap spell ++ rest =
      Bytes.ofNat 4 others.length ++ others.flatMap spell ++ rest') :
    items = others ∧ rest = rest' := by
  rw [List.append_assoc, List.append_assoc] at heq
  obtain ⟨hlength, hrest⟩ := List.append_inj heq (by rw [Bytes.length_ofNat, Bytes.length_ofNat])
  exact Unambiguous.flatMap h (Bytes.ofNat_injective_of_lt hcount hcount' hlength) hrest

private theorem unambiguous_of_content {tree other : WireTree}
    (h : tree.tag = other.tag → Unambiguous content tree other) : Unambiguous bytes tree other := by
  intro rest rest' heq
  rw [bytes_eq, bytes_eq, List.cons_append, List.cons_append, List.cons.injEq] at heq
  exact h (TypeTag.toByte_injective heq.1) rest rest' heq.2

/-- Two trees that begin the same byte string are equal and end in the same place. -/
theorem bytes_unambiguous {tree other : WireTree} (h : tree.Representable)
    (hother : other.Representable) : Unambiguous bytes tree other := by
  induction tree generalizing other with
  | atom a =>
    apply unambiguous_of_content
    intro htag rest rest' heq
    -- equal tags leave only trees of the same kind
    have hshape := congrArg shape htag
    cases other <;> simp [tag] at hshape
    case atom b =>
      cases h with | atom ha =>
      cases hother with | atom hb =>
      obtain ⟨rfl, hrest⟩ := body_unambiguous htag ha hb rest rest' heq
      exact ⟨rfl, hrest⟩
  | wrapped wrapper body ih =>
    apply unambiguous_of_content
    intro htag rest rest' heq
    have hshape := congrArg shape htag
    cases other <;> simp [tag] at hshape
    case wrapped wrapper' body' =>
      cases h with | wrapped hbody =>
      cases hother with | wrapped hbody' =>
      obtain ⟨rfl, hrest⟩ := ih hbody hbody' rest rest' heq
      have hwrapper : wrapper = wrapper' := by
        cases wrapper <;> cases wrapper' <;> cases htag <;> rfl
      exact ⟨by rw [hwrapper], hrest⟩
  | list items ih =>
    apply unambiguous_of_content
    intro htag rest rest' heq
    have hshape := congrArg shape htag
    cases other <;> simp [tag] at hshape
    case list others =>
      cases h with | list hcount hitems =>
      cases hother with | list hcount' hothers =>
      have hparts : ∀ a ∈ items, ∀ b ∈ others, Unambiguous bytes a b := by
        intro a ha b hb
        exact ih a ha (hitems a ha) (hothers b hb)
      obtain ⟨rfl, hrest⟩ := counted_flatMap hcount hcount' hparts heq
      exact ⟨rfl, hrest⟩
  | tuple entries ih =>
    apply unambiguous_of_content
    intro htag rest rest' heq
    have hshape := congrArg shape htag
    cases other <;> simp [tag] at hshape
    case tuple others =>
      cases h with | tuple hcount hentries =>
      cases hother with | tuple hcount' hothers =>
      have hparts : ∀ a ∈ entries, ∀ b ∈ others, Unambiguous entryText a b := by
        intro a ha b hb
        exact entryText_unambiguous (ih a ha (hentries a ha) (hothers b hb))
      obtain ⟨rfl, hrest⟩ := counted_flatMap hcount hcount' hparts heq
      exact ⟨rfl, hrest⟩

/-- A byte string is spelled by at most one tree. -/
theorem bytes_injective {tree other : WireTree} (h : tree.Representable)
    (hother : other.Representable) (heq : tree.bytes = other.bytes) : tree = other :=
  (bytes_unambiguous h hother [] [] (by rw [heq])).1

end WireTree

end ClarityWire
