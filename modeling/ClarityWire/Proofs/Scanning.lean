import ClarityWire.Proofs.Precision
import ClarityWire.Proofs.Readability

/-!
# Scanning the text of a value

A reader of texts that knows only double quotes, backslashes and parentheses is never misled by what
a value holds: no byte of a string ends its literal, nothing else in a text opens one or is a
parenthesis of its own, and every character shows.
-/

namespace ClarityWire

namespace Text

/-- Whether a character is one of ASCII that shows, or the space. -/
def IsPrintable (c : Char) : Prop :=
  0x20 ≤ c.toNat ∧ c.toNat ≤ 0x7e

instance : DecidablePred IsPrintable :=
  fun _ => inferInstanceAs (Decidable (_ ∧ _))

/-- Where a scan of a text stands, with the number of parentheses that are open outside literals. -/
inductive Scan where
  | outside (depth : Nat)
  /-- In a literal. -/
  | inside (depth : Nat)
  /-- In a literal, behind a backslash. -/
  | escaped (depth : Nat)
  deriving DecidableEq

namespace Scan

/-- One character further. A parenthesis that closes none is refused. -/
def step : Scan → Char → Option Scan
  | .outside depth, '\x22' => some (.inside depth)
  | .outside depth, '(' => some (.outside (depth + 1))
  | .outside 0, ')' => none
  | .outside (depth + 1), ')' => some (.outside depth)
  | .outside depth, _ => some (.outside depth)
  | .inside depth, '\x22' => some (.outside depth)
  | .inside depth, '\\' => some (.escaped depth)
  | .inside depth, _ => some (.inside depth)
  | .escaped depth, _ => some (.inside depth)

/-- Scans a text to its end. -/
def run (scan : Scan) (text : List Char) : Option Scan :=
  text.foldlM step scan

theorem step_outside {c : Char} (hquote : c ≠ '\x22') (hopen : c ≠ '(') (hclose : c ≠ ')')
    (depth : Nat) : step (.outside depth) c = some (.outside depth) := by
  rw [step]
  · exact hquote
  · exact hopen
  · intro hc _
    exact hclose hc
  · intro _ hc _
    exact hclose hc

theorem step_inside {c : Char} (hquote : c ≠ '\x22') (hslash : c ≠ '\\') (depth : Nat) :
    step (.inside depth) c = some (.inside depth) := by
  rw [step]
  · exact hquote
  · exact hslash

end Scan

/-- Characters that show, and through which a scan comes back to where it stood, however many
parentheses are open. -/
structure Keeps (place : Nat → Scan) (text : List Char) : Prop where
  printable : ∀ c ∈ text, IsPrintable c
  returns : ∀ depth, (place depth).run text = some (place depth)

namespace Keeps

variable {place : Nat → Scan} {text : List Char}

theorem nil (place : Nat → Scan) : Keeps place [] where
  printable := by rintro c ⟨⟩
  returns _ := rfl

theorem append {front back : List Char} (hfront : Keeps place front) (hback : Keeps place back) :
    Keeps place (front ++ back) where
  printable := List.forall_mem_append.mpr ⟨hfront.printable, hback.printable⟩
  returns depth := by
    rw [Scan.run, List.foldlM_append, ← Scan.run, hfront.returns]
    exact hback.returns depth

theorem flatMap {α : Type} {spell : α → List Char} {items : List α}
    (h : ∀ item ∈ items, Keeps place (spell item)) : Keeps place (items.flatMap spell) := by
  induction items with
  | nil => exact nil place
  | cons item rest ih =>
    obtain ⟨hitem, hrest⟩ := List.forall_mem_cons.mp h
    rw [List.flatMap_cons]
    exact hitem.append (ih hrest)

/-- A single character that keeps a scan where it stands. -/
theorem singleton {c : Char} (hc : IsPrintable c)
    (hstep : ∀ depth, (place depth).step c = some (place depth)) : Keeps place [c] where
  printable := List.forall_mem_singleton.mpr hc
  returns depth := by
    rw [Scan.run, List.foldlM_cons, hstep]
    rfl

theorem of_forall (h : ∀ c ∈ text, Keeps place [c]) : Keeps place text := by
  have hchars : Keeps place (text.flatMap fun c => [c]) := flatMap h
  rwa [List.flatMap_singleton'] at hchars

/-- Parentheses around a text that needs none. -/
theorem parenthesized (h : Keeps .outside text) : Keeps .outside ('(' :: (text ++ [')'])) where
  printable := by
    rw [List.forall_mem_cons, List.forall_mem_append, List.forall_mem_singleton]
    exact ⟨by decide, h.printable, by decide⟩
  returns depth := by
    change Scan.run (.outside (depth + 1)) (text ++ [')']) = _
    rw [Scan.run, List.foldlM_append, ← Scan.run, h.returns]
    rfl

/-- A literal whose content does not leave it. -/
theorem quoted (h : Keeps .inside text) : Keeps .outside ('\x22' :: (text ++ ['\x22'])) where
  printable := by
    rw [List.forall_mem_cons, List.forall_mem_append, List.forall_mem_singleton]
    exact ⟨by decide, h.printable, by decide⟩
  returns depth := by
    change Scan.run (.inside depth) (text ++ ['\x22']) = _
    rw [Scan.run, List.foldlM_append, ← Scan.run, h.returns]
    rfl

/-- A backslash takes one character with it, whichever that is. -/
theorem backslash {c : Char} (hc : IsPrintable c) : Keeps .inside ['\\', c] where
  printable := by
    rw [List.forall_mem_cons, List.forall_mem_singleton]
    exact ⟨by decide, hc⟩
  returns _ := rfl

end Keeps

/-! ## Characters that do nothing -/

/-- Whether a character shows and is neither a quote, a backslash nor a parenthesis. -/
def IsInert (c : Char) : Prop :=
  IsPrintable c ∧ c ≠ '\x22' ∧ c ≠ '\\' ∧ c ≠ '(' ∧ c ≠ ')'

instance : DecidablePred IsInert :=
  fun _ => inferInstanceAs (Decidable (_ ∧ _))

theorem Keeps.of_inert_outside {text : List Char} (h : ∀ c ∈ text, IsInert c) :
    Keeps .outside text := by
  apply of_forall
  intro c hc
  obtain ⟨hprintable, hquote, -, hopen, hclose⟩ := h c hc
  exact singleton hprintable (Scan.step_outside hquote hopen hclose)

theorem Keeps.of_inert_inside {text : List Char} (h : ∀ c ∈ text, IsInert c) :
    Keeps .inside text := by
  apply of_forall
  intro c hc
  obtain ⟨hprintable, hquote, hslash, -, -⟩ := h c hc
  exact singleton hprintable (Scan.step_inside hquote hslash)

private theorem isPrintable_of_isAlphanum {c : Char} (h : c.isAlphanum = true) :
    IsPrintable c := by
  have hcode := code_of_isAlphanum h
  rw [IsPrintable]
  omega

theorem isInert_of_isAlphanum {c : Char} (h : c.isAlphanum = true) : IsInert c := by
  refine ⟨isPrintable_of_isAlphanum h, ?_⟩
  have hne : ∀ d : Char, d.isAlphanum = false → c ≠ d := by
    rintro d hd rfl
    rw [h] at hd
    cases hd
  exact ⟨hne _ rfl, hne _ rfl, hne _ rfl, hne _ rfl⟩

theorem isInert_of_isDecimal {c : Char} (h : IsDecimal c) : IsInert c := by
  rcases h with hdigit | rfl
  · exact isInert_of_isAlphanum (by rw [Char.isAlphanum, hdigit, Bool.or_true])
  · decide

theorem isInert_of_mem_repr {n : Nat} {c : Char} (h : c ∈ n.repr.toList) : IsInert c :=
  isInert_of_isDecimal (.inl (isDigit_of_mem_repr h))

theorem isInert_of_all {text : List Char} (h : text.all (fun c => decide (IsInert c)) = true) :
    ∀ c ∈ text, IsInert c :=
  fun c hc => of_decide_eq_true (List.all_eq_true.mp h c hc)

end Text

open Text

theorem C32.isInert_of_mem_symbols : ∀ c ∈ symbols, IsInert c :=
  isInert_of_all (by decide)

theorem NameKind.isInert_of_allowsChar {kind : NameKind} {c : Char}
    (h : kind.allowsChar c = true) : IsInert c := by
  have hmarks : ∀ c ∈ kind.marks, IsInert c := isInert_of_all (by cases kind <;> decide)
  rw [allowsChar, Bool.or_eq_true, List.contains_iff_mem] at h
  rcases h with halphanum | hmark
  · exact isInert_of_isAlphanum halphanum
  · exact hmarks c hmark

/-- The text form of an address and the error in its place are both inert. -/
theorem StacksAddress.isInert_of_mem_render (address : StacksAddress) :
    ∀ c ∈ address.render.toList, IsInert c := by
  by_cases h : address.version.toNat < C32.versionLimit
  · intro c hc
    exact C32.isInert_of_mem_symbols c (mem_symbols_of_mem_render h hc)
  · have hfront : ∀ c ∈ "ERROR: ".toList ++ ("c32 error: ".toList ++ "invalid c32 version ".toList),
        IsInert c := isInert_of_all (by decide)
    have hback : ∀ c ∈ ", must be below 32".toList, IsInert c := isInert_of_all (by decide)
    have hversion : ∀ c ∈ (toString address.version.toNat).toList, IsInert c :=
      fun _ => isInert_of_mem_repr
    rw [render_of_ge (Nat.not_lt.mp h)]
    simp only [String.toList_append, List.forall_mem_append] at hfront ⊢
    exact ⟨hfront.1, hfront.2.1, ⟨hfront.2.2, hversion⟩, hback⟩

namespace Value

/-! ## Simple values -/

private theorem isInert_of_mem_renderAddress (address : StacksAddress) :
    ∀ c ∈ (renderAddress address).toList, IsInert c := by
  have hrender := address.isInert_of_mem_render
  rw [StacksAddress.render] at hrender
  rw [renderAddress]
  cases htext : address.toC32 with
  | ok text =>
    rw [htext] at hrender
    rw [String.toList_append, List.forall_mem_append]
    exact ⟨isInert_of_all (by decide), hrender⟩
  | error e =>
    rw [htext] at hrender
    exact hrender

private theorem isInert_of_mem_renderContract (id : ContractPrincipal) :
    ∀ c ∈ (renderContract id).toList, IsInert c := by
  have hrender := id.issuer.isInert_of_mem_render
  have hname : ∀ c ∈ id.name.text.toList, IsInert c :=
    fun _ hc => NameKind.isInert_of_allowsChar (id.name.allowsChar_of_mem hc)
  rw [StacksAddress.render] at hrender
  rw [renderContract]
  cases htext : id.issuer.toC32 with
  | ok text =>
    rw [htext] at hrender
    simp only [String.toList_append, List.forall_mem_append]
    exact ⟨⟨⟨isInert_of_all (by decide), hrender⟩, isInert_of_all (by decide)⟩, hname⟩
  | error e =>
    rw [htext] at hrender
    exact hrender

private theorem isInert_of_mem_int {n : Int} {c : Char} (h : c ∈ n.repr.toList) : IsInert c :=
  isInert_of_isDecimal (isDecimal_of_mem_repr h)

private theorem isInert_of_mem_truncatedDigits {bytes : Bytes} {limit : Nat} {c : Char}
    (h : c ∈ Hex.truncatedDigits bytes limit) : IsInert c := by
  rw [Hex.truncatedDigits_eq] at h
  exact isInert_of_isAlphanum (Hex.isAlphanum_of_mem_digits (List.mem_of_mem_take h))

/-! ## Literals -/

private theorem isPrintable_of_namedEscape? {letter : Char} {byte : UInt8}
    (h : namedEscape? letter = some byte) : IsPrintable letter := by
  unfold namedEscape? at h
  split at h
  case h_10 => cases h
  all_goals decide

/-- The spelling of a byte never leaves its literal. -/
theorem keeps_escapeByte (byte : UInt8) : Keeps .inside (escapeByte byte) := by
  refine escapeByte_cases (motive := fun _ chars => Keeps .inside chars) ?_ ?_ ?_ byte
  · intro byte letter h
    exact .backslash (isPrintable_of_namedEscape? h)
  · intro byte
    have hdigits : Keeps .inside (Hex.digitPair byte) := by
      apply Keeps.of_inert_inside
      intro c hc
      have hmem : c ∈ Hex.digits [byte] := by simpa [Hex.digits]
      exact isInert_of_isAlphanum (Hex.isAlphanum_of_mem_digits hmem)
    exact (Keeps.backslash (by decide)).append hdigits
  · intro byte c _ hlow hhigh hquote hslash
    exact .singleton ⟨hlow, Nat.le_of_lt_succ hhigh⟩ (Scan.step_inside hquote hslash)

/-- Nor does the spelling of a group, well-formed or not. -/
theorem keeps_escapeGroup (limit? : Option Nat) (group : Bytes) :
    Keeps .inside (escapeGroup limit? group) := by
  match group with
  | [] => exact .nil _
  | [byte] => exact keeps_escapeByte byte
  | first :: second :: rest =>
    have hopen : Keeps .inside ['\\', 'u', '\x7b'] :=
      (Keeps.backslash (by decide)).append (.of_inert_inside (isInert_of_all (by decide)))
    have hclose : Keeps .inside ['\x7d'] := .of_inert_inside (isInert_of_all (by decide))
    have hlong : 2 ≤ (first :: second :: rest).length := Nat.le_add_left 2 rest.length
    rw [escapeGroup_long limit? hlong]
    apply hopen.append
    exact (Keeps.of_inert_inside fun _ => isInert_of_mem_truncatedDigits).append hclose

/-! ## All values -/

private theorem keeps_atom {value : Value} {a : Atom} (h : value.tree = .atom a)
    (limit? : Option Nat) : Keeps .outside (value.spelling limit?) := by
  cases value <;> rw [tree] at h <;> cases h
  case int bits =>
    rw [spelling_int]
    exact .of_inert_outside fun _ => isInert_of_mem_int
  case uint bits =>
    rw [spelling_uint]
    exact .of_inert_outside (List.forall_mem_cons.mpr ⟨by decide, fun _ => isInert_of_mem_repr⟩)
  case buffer bytes =>
    rw [spelling_buffer]
    exact .of_inert_outside fun _ => isInert_of_mem_truncatedDigits
  case bool value =>
    have hfalse : Keeps .outside "false".toList := .of_inert_outside (isInert_of_all (by decide))
    have htrue : Keeps .outside "true".toList := .of_inert_outside (isInert_of_all (by decide))
    cases value
    · exact hfalse
    · exact htrue
  case principal address =>
    rw [spelling_principal]
    exact .of_inert_outside (isInert_of_mem_renderAddress address)
  case contract id =>
    rw [spelling_contract]
    exact .of_inert_outside (isInert_of_mem_renderContract id)
  case optionalNone =>
    have hnone : Keeps .outside "none".toList := .of_inert_outside (isInert_of_all (by decide))
    exact hnone
  case ascii bytes =>
    rw [spelling_ascii]
    exact .quoted (.flatMap fun byte _ => keeps_escapeByte byte)
  case utf8 groups =>
    rw [spelling_utf8]
    have hmark : Keeps .outside ['u'] := .of_inert_outside (isInert_of_all (by decide))
    exact hmark.append (.quoted (.flatMap fun group _ => keeps_escapeGroup limit? group))

private theorem keeps_form {word text : List Char} (hword : ∀ c ∈ word, IsInert c)
    (h : Keeps .outside text) : Keeps .outside ('(' :: word ++ (text ++ [')'])) := by
  have hinner := (Keeps.of_inert_outside hword).append h
  rw [List.cons_append, ← List.append_assoc]
  exact hinner.parenthesized

/-- A text shows, and a scan comes back to where it stood, whatever the value holds. -/
theorem keeps_spelling (value : Value) (limit? : Option Nat) :
    Keeps .outside (value.spelling limit?) := by
  have hspace : Keeps .outside [' '] := .of_inert_outside (isInert_of_all (by decide))
  induction value generalizing limit? with
  | atom value a htree => exact keeps_atom htree limit?
  | wrapped wrapper body ih =>
    rw [spelling_wrapped]
    cases wrapper <;> exact keeps_form (isInert_of_all (by decide)) (ih none)
  | list items ih =>
    rw [spelling_list]
    apply keeps_form (isInert_of_all (by decide))
    apply Keeps.flatMap
    intro item hitem
    exact hspace.append (ih item hitem none)
  | tuple fields ih =>
    rw [spelling_tuple]
    apply keeps_form (isInert_of_all (by decide))
    apply Keeps.flatMap
    intro field hfield
    have hname : ∀ c ∈ field.1.text.toList ++ [' '], IsInert c := by
      rw [List.forall_mem_append]
      exact ⟨fun _ hc => NameKind.isInert_of_allowsChar (field.1.allowsChar_of_mem hc),
        isInert_of_all (by decide)⟩
    have hspelling : fieldSpelling field = [' '] ++ ('(' :: (field.1.text.toList ++ [' ']) ++
        (field.2.value.spelling none ++ [')'])) := by
      simp only [fieldSpelling, List.cons_append, List.append_assoc, List.nil_append]
    rw [hspelling]
    exact hspace.append (keeps_form hname (ih field hfield none))

/-- **Texts are lexically safe.** Every character of the text of a value shows, and a scan of the
text ends outside all literals with no parenthesis open, having met none that closes nothing. -/
theorem render_scans (value : Value) :
    (∀ c ∈ value.render.toList, 0x20 ≤ c.toNat ∧ c.toNat ≤ 0x7e) ∧
      Scan.run (.outside 0) value.render.toList = some (.outside 0) := by
  have hkeeps := value.keeps_spelling none
  exact ⟨hkeeps.printable, hkeeps.returns 0⟩

end Value

end ClarityWire
