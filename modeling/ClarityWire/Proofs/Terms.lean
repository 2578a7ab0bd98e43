import Mathlib.Data.List.Forall2
import ClarityWire.Proofs.Words

/-!
# Words in parentheses

A term is a word, or a word with terms behind it, all in parentheses and a space in front of each.
Its text ends where it says, whatever follows in a larger term, so the text of a term tells the
term.
-/

namespace ClarityWire.Text

/-- Whether a character neither ends a word nor opens a term. -/
def isPlain (c : Char) : Bool :=
  c != ' ' && c != '(' && c != ')'

theorem isPlain_of {p : Char → Prop} (hspace : ¬ p ' ') (hopen : ¬ p '(') (hclose : ¬ p ')')
    {c : Char} (h : p c) : isPlain c = true := by
  have hne : ∀ delimiter : Char, ¬ p delimiter → c ≠ delimiter := by
    rintro delimiter hdelimiter rfl
    exact hdelimiter h
  rw [isPlain, bne_iff_ne.mpr (hne ' ' hspace), bne_iff_ne.mpr (hne '(' hopen),
    bne_iff_ne.mpr (hne ')' hclose)]
  rfl

/-- One or more characters of which none ends a word or opens a term. -/
structure Word where
  chars : List Char
  nonempty : chars ≠ []
  plain : chars.all isPlain = true
  deriving DecidableEq

/-- A word, or a word with terms behind it. -/
inductive Term where
  | bare (word : Word)
  | form (head : Word) (arguments : List Term)

namespace Word

theorem isPlain_of_mem (word : Word) {c : Char} (h : c ∈ word.chars) : isPlain c = true :=
  List.all_eq_true.mp word.plain c h

theorem eq_of_chars {a b : Word} (h : a.chars = b.chars) : a = b := by
  cases a
  cases b
  cases h
  rfl

/-- Words tell where they end. -/
theorem eq_of_append {a b : Word} {rest rest' : List Char} (hrest : Ends rest)
    (hrest' : Ends rest') (h : a.chars ++ rest = b.chars ++ rest') : a = b ∧ rest = rest' := by
  obtain ⟨hchars, htail⟩ := eq_of_run_append (fun _ => a.isPlain_of_mem)
    (fun _ => b.isPlain_of_mem) (hrest.not_head (by decide) (by decide))
    (hrest'.not_head (by decide) (by decide)) h
  exact ⟨eq_of_chars hchars, htail⟩

theorem append_ne_paren (word : Word) (rest tail : List Char) :
    word.chars ++ rest ≠ '(' :: tail := by
  intro h
  obtain ⟨c, chars, hchars⟩ := List.exists_cons_of_ne_nil word.nonempty
  have hmem : c ∈ word.chars := by
    rw [hchars]
    exact List.mem_cons_self ..
  have hplain : isPlain c = true := word.isPlain_of_mem hmem
  rw [hchars] at h
  cases h
  cases hplain

/-- A number in decimal. -/
def ofNat (n : Nat) : Word where
  chars := n.repr.toList
  nonempty := repr_ne_nil n
  plain := List.all_eq_true.mpr fun _ hc =>
    isPlain_of (p := fun c => c.isDigit = true) (by decide) (by decide) (by decide)
      (isDigit_of_mem_repr hc)

theorem ofNat_injective {m n : Nat} (h : ofNat m = ofNat n) : m = n :=
  eq_of_repr (String.toList_inj.mp (congrArg chars h))

end Word

namespace Term

/-- Induction over a term, with the hypothesis for every argument. -/
@[elab_as_elim, induction_eliminator]
theorem induction {motive : Term → Prop} (bare : ∀ word, motive (.bare word))
    (form : ∀ head arguments, (∀ argument ∈ arguments, motive argument) →
      motive (.form head arguments))
    (term : Term) : motive term :=
  match term with
  | .bare word => bare word
  | .form head arguments =>
    form head arguments fun argument _ => induction bare form argument
termination_by sizeOf term
decreasing_by
  have hlt := List.sizeOf_lt_of_mem ‹_›
  rw [Term.form.sizeOf_spec]
  omega

mutual

/-- The characters of a term. -/
def spelling : Term → List Char
  | .bare word => word.chars
  | .form head arguments => '(' :: (head.chars ++ (argumentSpellings arguments ++ [')']))

def argumentSpellings : List Term → List Char
  | [] => []
  | argument :: rest => ' ' :: spelling argument ++ argumentSpellings rest

end

theorem argumentSpellings_eq (arguments : List Term) :
    argumentSpellings arguments = arguments.flatMap fun argument => ' ' :: argument.spelling := by
  induction arguments with
  | nil => rfl
  | cons argument rest ih => rw [argumentSpellings, ih, List.flatMap_cons]

theorem spelling_form_append (head : Word) (arguments : List Term) (rest : List Char) :
    (Term.form head arguments).spelling ++ rest =
      '(' :: (head.chars ++
        (arguments.flatMap (fun argument => ' ' :: argument.spelling) ++ ')' :: rest)) := by
  rw [spelling, argumentSpellings_eq]
  simp only [List.cons_append, List.append_assoc, List.nil_append]

private theorem ends_arguments (arguments : List Term) (rest : List Char) :
    Ends (arguments.flatMap (fun argument => ' ' :: argument.spelling) ++ ')' :: rest) := by
  cases arguments with
  | nil => exact ends_cons (.inr rfl) _
  | cons argument arguments => exact ends_cons (.inl rfl) _

/-- Terms tell where they end. -/
theorem eq_of_spelling_append {a b : Term} {rest rest' : List Char} (hrest : Ends rest)
    (hrest' : Ends rest') (h : a.spelling ++ rest = b.spelling ++ rest') :
    a = b ∧ rest = rest' := by
  induction a generalizing b rest rest' with
  | bare word =>
    cases b with
    | bare other =>
      rw [spelling, spelling] at h
      obtain ⟨rfl, htail⟩ := Word.eq_of_append hrest hrest' h
      exact ⟨rfl, htail⟩
    | form head arguments =>
      rw [spelling, spelling_form_append] at h
      exact absurd h (word.append_ne_paren rest _)
  | form head arguments ih =>
    cases b with
    | bare other =>
      rw [spelling_form_append, spelling] at h
      exact absurd h.symm (other.append_ne_paren rest' _)
    | form head' others =>
      rw [spelling_form_append, spelling_form_append] at h
      obtain ⟨rfl, htail⟩ := Word.eq_of_append (ends_arguments arguments rest)
        (ends_arguments others rest') (List.cons.inj h).2
      have hcontinues : ∀ argument : Term, Continues
          (fun argument : Term => ' ' :: argument.spelling) Ends ')' argument := by
        intro argument rest
        refine ⟨ends_cons (.inl rfl) _, ?_⟩
        intro tail heq
        cases heq
      have hstep : ∀ argument ∈ arguments, ∀ other ∈ others, ∀ rest rest', Ends rest → Ends rest' →
          ' ' :: argument.spelling ++ rest = ' ' :: other.spelling ++ rest' →
            argument = other ∧ rest = rest' := by
        intro argument hargument other _ rest rest' hrest hrest' heq
        exact ih argument hargument hrest hrest' (List.cons.inj heq).2
      obtain ⟨hsame, hrests⟩ := forall₂_of_flatMap_append hstep
        (fun argument _ => hcontinues argument) (fun other _ => hcontinues other)
        (ends_cons (.inr rfl)) htail
      rw [List.forall₂_eq_eq_eq] at hsame
      exact ⟨congrArg (Term.form head) hsame, hrests⟩

theorem spelling_injective {a b : Term} (h : a.spelling = b.spelling) : a = b := by
  have hnone : Ends [] := by rintro c ⟨⟩
  have happend : a.spelling ++ [] = b.spelling ++ [] := by rw [h]
  exact (eq_of_spelling_append hnone hnone happend).1

end Term

end ClarityWire.Text
