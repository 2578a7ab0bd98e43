import Mathlib.Data.List.Basic

/-!
# Words of a text

A word is a run of characters up to a space, to a closing parenthesis or to the end of the text, so
two texts that start with words agree only if the words do. Numbers in decimal are such words. What
tells where its own spelling ends also does so in a sequence.
-/

namespace ClarityWire.Text

/-- Two texts whose characters have a property, each followed by a character that does not have it
or by nothing. -/
theorem eq_of_run_append {p : Char → Prop} {a b rest rest' : List Char} (ha : ∀ c ∈ a, p c)
    (hb : ∀ c ∈ b, p c) (hrest : ∀ c ∈ rest.head?, ¬ p c) (hrest' : ∀ c ∈ rest'.head?, ¬ p c)
    (h : a ++ rest = b ++ rest') : a = b ∧ rest = rest' := by
  induction a generalizing b with
  | nil =>
    cases b with
    | nil => exact ⟨rfl, h⟩
    | cons c b =>
      rw [List.nil_append, List.cons_append] at h
      exact absurd (hb c (List.mem_cons_self ..)) (hrest c (by rw [h]; rfl))
  | cons c a ih =>
    obtain ⟨hc, ha⟩ := List.forall_mem_cons.mp ha
    cases b with
    | nil =>
      rw [List.nil_append, List.cons_append] at h
      exact absurd hc (hrest' c (by rw [← h]; rfl))
    | cons d b =>
      obtain ⟨rfl, htail⟩ := List.cons.inj h
      obtain ⟨rfl, hrests⟩ := ih ha (List.forall_mem_cons.mp hb).2 htail
      exact ⟨rfl, hrests⟩

/-! ## Where a word ends -/

/-- What may follow a word or a closed text: nothing, or what stands behind it in parentheses. -/
def Ends (rest : List Char) : Prop :=
  ∀ c ∈ rest.head?, c = ' ' ∨ c = ')'

theorem ends_cons {c : Char} (h : c = ' ' ∨ c = ')') (rest : List Char) : Ends (c :: rest) := by
  intro d hd
  cases hd
  exact h

theorem Ends.not_head {rest : List Char} (h : Ends rest) {p : Char → Prop} (hspace : ¬ p ' ')
    (hparen : ¬ p ')') : ∀ c ∈ rest.head?, ¬ p c := by
  intro c hc
  rcases h c hc with rfl | rfl
  · exact hspace
  · exact hparen

/-! ## Letters and digits -/

theorem code_of_isAlphanum {c : Char} (h : c.isAlphanum = true) :
    48 ≤ c.toNat ∧ c.toNat ≤ 122 := by
  rcases Bool.or_eq_true_iff.mp h with hletter | hdigit
  · rcases Bool.or_eq_true_iff.mp hletter with hcapital | hsmall
    · obtain ⟨hfirst, hlast⟩ : 'A'.val ≤ c.val ∧ c.val ≤ 'Z'.val := of_decide_eq_true hcapital
      have hfirst : 65 ≤ c.toNat := UInt32.le_iff_toNat_le.mp hfirst
      have hlast : c.toNat ≤ 90 := UInt32.le_iff_toNat_le.mp hlast
      omega
    · obtain ⟨hfirst, hlast⟩ := Bool.and_eq_true_iff.mp hsmall
      have hfirst : 97 ≤ c.toNat := UInt32.le_iff_toNat_le.mp (of_decide_eq_true hfirst)
      have hlast : c.toNat ≤ 122 := UInt32.le_iff_toNat_le.mp (of_decide_eq_true hlast)
      omega
  · obtain ⟨hfirst, hlast⟩ := Bool.and_eq_true_iff.mp hdigit
    have hfirst : 48 ≤ c.toNat := UInt32.le_iff_toNat_le.mp (of_decide_eq_true hfirst)
    have hlast : c.toNat ≤ 57 := UInt32.le_iff_toNat_le.mp (of_decide_eq_true hlast)
    omega

/-! ## Numbers -/

def IsDecimal (c : Char) : Prop :=
  c.isDigit = true ∨ c = '-'

theorem isDigit_of_mem_repr {n : Nat} {c : Char} (h : c ∈ n.repr.toList) : c.isDigit = true := by
  rw [Nat.repr_eq_ofList_toDigits, String.toList_ofList] at h
  exact Nat.isDigit_of_mem_toDigits (by decide) (by decide) h

theorem repr_ne_nil (n : Nat) : n.repr.toList ≠ [] := by
  rw [Nat.repr_eq_ofList_toDigits, String.toList_ofList]
  exact Nat.toDigits_ne_nil

theorem isDecimal_of_mem_repr {n : Int} {c : Char} (h : c ∈ n.repr.toList) : IsDecimal c := by
  rw [Int.repr_eq_if] at h
  split at h
  · exact .inl (isDigit_of_mem_repr h)
  · rw [String.toList_append, List.mem_append] at h
    rcases h with hsign | hdigit
    · exact .inr (List.mem_singleton.mp hsign)
    · exact .inl (isDigit_of_mem_repr hdigit)

theorem repr_int_ne_nil (n : Int) : n.repr.toList ≠ [] := by
  rw [Int.repr_eq_if]
  split
  · exact repr_ne_nil _
  · rw [String.toList_append]
    exact List.append_ne_nil_of_right_ne_nil _ (repr_ne_nil _)

theorem eq_of_repr {m n : Nat} (h : m.repr = n.repr) : m = n := by
  rw [← String.toList_inj, Nat.repr_eq_ofList_toDigits, Nat.repr_eq_ofList_toDigits,
    String.toList_ofList, String.toList_ofList] at h
  calc m = Nat.ofDigitChars 10 (Nat.toDigits 10 m) 0 := Nat.ofDigitChars_ten_toDigits.symm
    _ = n := by rw [h, Nat.ofDigitChars_ten_toDigits]

private theorem repr_ne_sign (m n : Nat) : m.repr ≠ "-" ++ n.repr := by
  intro h
  have hmem : '-' ∈ m.repr.toList := by
    rw [h, String.toList_append]
    exact List.mem_cons_self
  exact absurd (isDigit_of_mem_repr hmem) (by decide)

theorem eq_of_repr_int {m n : Int} (h : m.repr = n.repr) : m = n := by
  rw [Int.repr_eq_if, Int.repr_eq_if] at h
  split at h <;> split at h
  · have hnat := eq_of_repr h
    omega
  · exact absurd h (repr_ne_sign _ _)
  · exact absurd h.symm (repr_ne_sign _ _)
  · rw [← String.toList_inj, String.toList_append, String.toList_append] at h
    have hnat := eq_of_repr (String.toList_inj.mp (List.append_cancel_left h))
    omega

/-! ## Sequences -/

section

variable {α : Type} {spell : α → List Char} {follows : List Char → Prop} {stop : Char}

/-- Whether what starts with the spelling of an item may follow another, and never starts with the
character that ends the sequence. -/
def Continues (spell : α → List Char) (follows : List Char → Prop) (stop : Char) (item : α) :
    Prop :=
  ∀ rest, follows (spell item ++ rest) ∧ ∀ tail, spell item ++ rest ≠ stop :: tail

private theorem follows_flatMap {items : List α}
    (h : ∀ item ∈ items, Continues spell follows stop item)
    (hstop : ∀ tail, follows (stop :: tail)) (tail : List Char) :
    follows (items.flatMap spell ++ stop :: tail) := by
  cases items with
  | nil => exact hstop tail
  | cons item rest =>
    rw [List.flatMap_cons, List.append_assoc]
    exact (h item (List.mem_cons_self ..) _).1

/-- Two sequences of spellings, each up to the character that ends it, agree only if their items do,
given that this is so of single items. -/
theorem forall₂_of_flatMap_append {same : α → α → Prop} {items others : List α}
    (hstep : ∀ item ∈ items, ∀ other ∈ others, ∀ rest rest', follows rest → follows rest' →
      spell item ++ rest = spell other ++ rest' → same item other ∧ rest = rest')
    (hitems : ∀ item ∈ items, Continues spell follows stop item)
    (hothers : ∀ other ∈ others, Continues spell follows stop other)
    (hstop : ∀ tail, follows (stop :: tail)) {tail tail' : List Char}
    (h : items.flatMap spell ++ stop :: tail = others.flatMap spell ++ stop :: tail') :
    List.Forall₂ same items others ∧ tail = tail' := by
  induction items generalizing others with
  | nil =>
    cases others with
    | nil => exact ⟨.nil, (List.cons.inj h).2⟩
    | cons other others =>
      rw [List.flatMap_cons, List.append_assoc] at h
      exact absurd h.symm ((hothers other (List.mem_cons_self ..) _).2 tail)
  | cons item items ih =>
    cases others with
    | nil =>
      rw [List.flatMap_cons, List.append_assoc] at h
      exact absurd h ((hitems item (List.mem_cons_self ..) _).2 tail')
    | cons other others =>
      obtain ⟨-, hitems⟩ := List.forall_mem_cons.mp hitems
      obtain ⟨-, hothers⟩ := List.forall_mem_cons.mp hothers
      rw [List.flatMap_cons, List.flatMap_cons, List.append_assoc, List.append_assoc] at h
      obtain ⟨hsame, hrest⟩ := hstep item (List.mem_cons_self ..) other (List.mem_cons_self ..) _ _
        (follows_flatMap hitems hstop tail) (follows_flatMap hothers hstop tail') h
      have hlater : ∀ item ∈ items, ∀ other ∈ others, ∀ rest rest', follows rest → follows rest' →
          spell item ++ rest = spell other ++ rest' → same item other ∧ rest = rest' :=
        fun item hitem other hother =>
          hstep item (List.mem_cons_of_mem _ hitem) other (List.mem_cons_of_mem _ hother)
      obtain ⟨hrests, htail⟩ := ih hlater hitems hothers hrest
      exact ⟨.cons hsame hrests, htail⟩

end

end ClarityWire.Text
