import ClarityWire.Proofs.Hexadecimal
import ClarityWire.Proofs.Utf8
import ClarityWire.Proofs.Words
import ClarityWire.Value.Render
import Mathlib.Data.List.Forall2

/-!
# String literals

Each byte and each scalar of a string literal is spelled so that it can be told where its spelling
ends, whatever follows, and no spelling starts with the quote that ends the literal.
-/

namespace ClarityWire.Value

open Text

/-- The byte that is spelled by a backslash and the given letter. -/
def namedEscape? : Char → Option UInt8
  | 'a' => some 0x07
  | 'b' => some 0x08
  | 't' => some 0x09
  | 'n' => some 0x0A
  | 'v' => some 0x0B
  | 'f' => some 0x0C
  | 'r' => some 0x0D
  | '\x22' => some 0x22
  | '\\' => some 0x5C
  | _ => none

/-- Reads one byte of a string literal back, and what follows its spelling. -/
def unescape? : List Char → Option (UInt8 × List Char)
  | '\\' :: 'x' :: high :: low :: rest => do
    let high ← Hex.digit? (UInt8.ofNat high.toNat)
    let low ← Hex.digit? (UInt8.ofNat low.toNat)
    return (UInt8.ofNat (16 * high + low), rest)
  | '\\' :: name :: rest => (namedEscape? name).map (·, rest)
  | c :: rest => if c = '\\' ∨ c = '\x22' then none else some (UInt8.ofNat c.toNat, rest)
  | [] => none

private theorem unescape?_plain {c : Char} (hslash : c ≠ '\\') (hquote : c ≠ '\x22')
    (rest : List Char) : unescape? (c :: rest) = some (UInt8.ofNat c.toNat, rest) := by
  unfold unescape?
  split
  · next h => exact absurd (List.cons.inj h).1 hslash
  · next h => exact absurd (List.cons.inj h).1 hslash
  · next h =>
    obtain ⟨rfl, rfl⟩ := List.cons.inj h
    exact if_neg (not_or.mpr ⟨hslash, hquote⟩)
  · next h => cases h

private theorem unescape?_hex (byte : UInt8) (rest : List Char) :
    unescape? ('\\' :: 'x' :: Hex.digitPair byte ++ rest) = some (byte, rest) := by
  have hbyte := byte.toNat_lt
  have hhigh := Hex.digit?_digit (byte.toNat / 16) (by omega)
  have hlow := Hex.digit?_digit (byte.toNat % 16) (by omega)
  simp only [Hex.digitPair, List.cons_append, List.nil_append, unescape?, hhigh, hlow,
    Option.bind_eq_bind, Option.bind_some, Nat.div_add_mod, UInt8.ofNat_toNat, Option.pure_def]

private theorem unescape?_named {byte : UInt8} {letter : Char}
    (h : namedEscape? letter = some byte) (rest : List Char) :
    unescape? ('\\' :: letter :: rest) = some (byte, rest) := by
  rw [unescape?, h]
  · rfl
  · rintro high low tail rfl -
    cases h

/-- A byte is spelled by a letter of its own, in hexadecimal, or as itself if it shows and is
neither the quote nor the backslash. -/
theorem escapeByte_cases {motive : UInt8 → List Char → Prop}
    (named : ∀ byte letter, namedEscape? letter = some byte → motive byte ['\\', letter])
    (hex : ∀ byte, motive byte ('\\' :: 'x' :: Hex.digitPair byte))
    (plain : ∀ (byte : UInt8) (c : Char), c.toNat = byte.toNat → 32 ≤ c.toNat → c.toNat < 127 →
      c ≠ '\x22' → c ≠ '\\' → motive byte [c])
    (byte : UInt8) : motive byte (escapeByte byte) := by
  rw [escapeByte]
  iterate 7
    refine iteInduction (fun h => ?_) fun _ => ?_
    · subst h
      exact named _ _ rfl
  refine iteInduction (fun h => ?_) fun hquote => ?_
  · subst h
    exact named _ _ rfl
  refine iteInduction (fun h => ?_) fun hslash => ?_
  · subst h
    exact named _ _ rfl
  refine iteInduction (fun _ => hex byte) fun hrange => ?_
  obtain ⟨hlow, hhigh⟩ := not_or.mp hrange
  have hlow : 32 ≤ byte.toNat := UInt8.le_iff_toNat_le.mp (UInt8.not_lt.mp hlow)
  have hhigh : byte.toNat < 127 := UInt8.lt_iff_toNat_lt.mp (UInt8.not_le.mp hhigh)
  have hnat : (Char.ofNat byte.toNat).toNat = byte.toNat := Utf8.val_ofNat (.inl (by omega))
  apply plain byte _ hnat (by omega) (by omega)
  · intro hc
    rw [hc] at hnat
    exact hquote (UInt8.toNat_inj.mp hnat.symm)
  · intro hc
    rw [hc] at hnat
    exact hslash (UInt8.toNat_inj.mp hnat.symm)

/-- A byte is read back from its spelling, and nothing else is touched. -/
theorem unescape?_escapeByte (byte : UInt8) (rest : List Char) :
    unescape? (escapeByte byte ++ rest) = some (byte, rest) := by
  refine escapeByte_cases
    (motive := fun byte chars => unescape? (chars ++ rest) = some (byte, rest)) ?_ ?_ ?_ byte
  · intro byte letter h
    exact unescape?_named h rest
  · intro byte
    exact unescape?_hex byte rest
  · intro byte c hnat _ _ hquote hslash
    rw [List.singleton_append, unescape?_plain hslash hquote, hnat, UInt8.ofNat_toNat]

/-- Two spellings of bytes, with anything behind them, agree only if the bytes do. -/
theorem eq_of_escapeByte_append {a b : UInt8} {rest rest' : List Char}
    (h : escapeByte a ++ rest = escapeByte b ++ rest') : a = b ∧ rest = rest' := by
  have hread := unescape?_escapeByte a rest
  rw [h, unescape?_escapeByte] at hread
  exact Prod.mk.inj (Option.some.inj hread).symm

theorem escapeByte_append_ne_quote (byte : UInt8) (rest tail : List Char) :
    escapeByte byte ++ rest ≠ '\x22' :: tail := by
  intro h
  have hread := unescape?_escapeByte byte rest
  rw [h] at hread
  cases hread

/-! ## Groups -/

theorem escapeGroup_long (limit? : Option Nat) {group : Bytes} (h : 2 ≤ group.length) :
    escapeGroup limit? group = ['\\', 'u', '\x7b'] ++
      (Hex.truncatedDigits group (limit?.getD (2 * group.length)) ++ ['\x7d']) := by
  match group with
  | first :: second :: rest =>
    rw [escapeGroup, List.append_assoc]
    · exact List.cons_ne_nil _ _
    · intro byte hbyte
      cases hbyte

private theorem escapeGroup_none {group : Bytes} (h : 2 ≤ group.length) :
    escapeGroup none group = ['\\', 'u', '\x7b'] ++ (Hex.digits group ++ ['\x7d']) := by
  rw [escapeGroup_long none h, Option.getD_none, Hex.truncatedDigits_full]

private theorem escapeByte_append_ne_group (byte : UInt8) (rest tail : List Char) :
    escapeByte byte ++ rest ≠ '\\' :: 'u' :: tail := by
  intro h
  have hread := unescape?_escapeByte byte rest
  rw [h] at hread
  cases tail with
  | nil => cases hread
  | cons c tail => cases tail <;> cases hread

private theorem singleton_or_long {group : Bytes} (h : group ≠ []) :
    (∃ byte, group = [byte]) ∨ 2 ≤ group.length := by
  match group with
  | [byte] => exact .inl ⟨byte, rfl⟩
  | first :: second :: rest => exact .inr (Nat.le_add_left 2 rest.length)

theorem eq_of_escapeGroup_append {a b : Bytes} (ha : a ≠ []) (hb : b ≠ [])
    {rest rest' : List Char} (h : escapeGroup none a ++ rest = escapeGroup none b ++ rest') :
    a = b ∧ rest = rest' := by
  rcases singleton_or_long ha with ⟨byte, rfl⟩ | hlong
  · rcases singleton_or_long hb with ⟨other, rfl⟩ | hlong'
    · obtain ⟨rfl, hrest⟩ := eq_of_escapeByte_append h
      exact ⟨rfl, hrest⟩
    · rw [escapeGroup_none hlong'] at h
      exact absurd h (escapeByte_append_ne_group byte rest _)
  · rw [escapeGroup_none hlong] at h
    rcases singleton_or_long hb with ⟨other, rfl⟩ | hlong'
    · exact absurd h.symm (escapeByte_append_ne_group other rest' _)
    · rw [escapeGroup_none hlong'] at h
      simp only [List.append_assoc, List.append_cancel_left_eq] at h
      have hbrace : ∀ tail : List Char, ∀ c ∈ (['\x7d'] ++ tail).head?, ¬ c.isAlphanum := by
        intro tail c hc
        cases hc
        decide
      obtain ⟨hdigits, hrest⟩ := eq_of_run_append (fun _ => Hex.isAlphanum_of_mem_digits)
        (fun _ => Hex.isAlphanum_of_mem_digits) (hbrace rest) (hbrace rest') h
      exact ⟨Hex.digits_injective hdigits, (List.cons.inj hrest).2⟩

theorem escapeGroup_append_ne_quote {group : Bytes} (h : group ≠ []) (rest tail : List Char) :
    escapeGroup none group ++ rest ≠ '\x22' :: tail := by
  rcases singleton_or_long h with ⟨byte, rfl⟩ | hlong
  · exact escapeByte_append_ne_quote byte rest tail
  · rw [escapeGroup_none hlong]
    intro hquote
    cases hquote

/-! ## Strings -/

/-- The literals of two strings of bytes agree only if the strings do. -/
theorem eq_of_flatMap_escapeByte {bytes others : Bytes} {tail tail' : List Char}
    (h : bytes.flatMap escapeByte ++ '\x22' :: tail =
      others.flatMap escapeByte ++ '\x22' :: tail') :
    bytes = others ∧ tail = tail' := by
  have hcontinues : ∀ strings : Bytes, ∀ byte ∈ strings,
      Continues escapeByte (fun _ => True) '\x22' byte :=
    fun _ byte _ rest => ⟨trivial, escapeByte_append_ne_quote byte rest⟩
  have hboth : List.Forall₂ (· = ·) bytes others ∧ tail = tail' :=
    forall₂_of_flatMap_append (fun _ _ _ _ _ _ _ _ => eq_of_escapeByte_append) (hcontinues bytes)
      (hcontinues others) (fun _ => trivial) h
  rwa [List.forall₂_eq_eq_eq] at hboth

/-- The literals of two strings of groups agree only if the groups do. -/
theorem eq_of_flatMap_escapeGroup {groups others : List Bytes} {tail tail' : List Char}
    (hgroups : ∀ group ∈ groups, group ≠ []) (hothers : ∀ group ∈ others, group ≠ [])
    (h : groups.flatMap (escapeGroup none) ++ '\x22' :: tail =
      others.flatMap (escapeGroup none) ++ '\x22' :: tail') :
    groups = others ∧ tail = tail' := by
  have hcontinues : ∀ strings : List Bytes, (∀ group ∈ strings, group ≠ []) →
      ∀ group ∈ strings, Continues (escapeGroup none) (fun _ => True) '\x22' group :=
    fun _ hstrings group hgroup rest =>
      ⟨trivial, escapeGroup_append_ne_quote (hstrings group hgroup) rest⟩
  have hboth : List.Forall₂ (· = ·) groups others ∧ tail = tail' :=
    forall₂_of_flatMap_append
      (fun group hgroup other hother _ _ _ _ =>
        eq_of_escapeGroup_append (hgroups group hgroup) (hothers other hother))
      (hcontinues groups hgroups) (hcontinues others hothers) (fun _ => trivial) h
  rwa [List.forall₂_eq_eq_eq] at hboth

end ClarityWire.Value
