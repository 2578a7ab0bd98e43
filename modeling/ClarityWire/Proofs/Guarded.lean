import Mathlib.Algebra.Group.Nat.Defs
import ClarityWire.Checksum
import ClarityWire.Proofs.Utf8

/-!
# Guarded operations

In a register of fixed width a computation goes wrong where a result does not fit, a difference is
below zero or a shift is as long as the register, and in a buffer where an index or a cut lies
outside of it or inside a character. Each operation here gives the exact result, or nothing where
it goes wrong. So a computation in these operations that gives a result has met none of this.
-/

namespace ClarityWire.Guarded

/-! ## Registers -/

/-- A result, if it stays below the limit of the register that takes it. -/
def fit? (limit n : Nat) : Option Nat :=
  if n < limit then some n else none

/-- A difference, if it is not below zero. -/
def difference? (a b : Nat) : Option Nat :=
  if b ≤ a then some (a - b) else none

/-- A register of `width` bits shifted up, if by less than its width and without losing a bit. -/
def shiftLeft? (width n distance : Nat) : Option Nat :=
  if distance < width then fit? (2 ^ width) (n <<< distance) else none

/-- A register of `width` bits shifted down, if by less than its width. -/
def shiftRight? (width n distance : Nat) : Option Nat :=
  if distance < width then some (n >>> distance) else none

variable {limit n a b width distance : Nat}

theorem fit?_of_lt (h : n < limit) : fit? limit n = some n :=
  if_pos h

theorem difference?_of_le (h : b ≤ a) : difference? a b = some (a - b) :=
  if_pos h

/-! A guard that is passed leaves the computation behind it. -/

variable {α : Type}

theorem fit?_bind (h : n < limit) (next : Nat → Option α) : fit? limit n >>= next = next n := by
  rw [fit?_of_lt h]
  rfl

theorem difference?_bind (h : b ≤ a) (next : Nat → Option α) :
    difference? a b >>= next = next (a - b) := by
  rw [difference?_of_le h]
  rfl

theorem shiftLeft?_bind (hdistance : distance < width) (h : n <<< distance < 2 ^ width)
    (next : Nat → Option α) : shiftLeft? width n distance >>= next = next (n <<< distance) := by
  rw [shiftLeft?, if_pos hdistance, fit?_bind h]

theorem shiftRight?_bind (h : distance < width) (next : Nat → Option α) :
    shiftRight? width n distance >>= next = next (n >>> distance) := by
  rw [shiftRight?, if_pos h]
  rfl

theorem mapM_fit? {ns : List Nat} (h : ∀ n ∈ ns, n < limit) : ns.mapM (fit? limit) = some ns := by
  induction ns with
  | nil => rfl
  | cons n ns ih =>
    have hrest := ih fun m hm => h m (List.mem_cons_of_mem n hm)
    rw [List.mapM_cons, fit?_bind (h n List.mem_cons_self), hrest]
    rfl

/-! ## Loops -/

/-- A loop over a list from its end gives what the plain loop gives, if each step does in the state
that the elements behind it lead to. -/
theorem foldrM_eq_some {α β : Type} {step? : α → β → Option β} {step : α → β → β} {start : β}
    {items : List α}
    (h : ∀ item behind, item :: behind <:+ items →
      step? item (behind.foldr step start) = some (step item (behind.foldr step start))) :
    items.foldrM step? start = some (items.foldr step start) := by
  induction items with
  | nil => rfl
  | cons item behind ih =>
    have hbehind := ih fun other rest hsuffix => h other rest (hsuffix.trans (List.suffix_cons _ _))
    rw [List.foldrM_cons, hbehind, List.foldr_cons]
    exact h item behind (List.suffix_refl _)

/-! ## Buffers -/

/-- The text from a byte offset on, if a character starts there or the text ends there. -/
def sliceFrom? (text : String) (offset : Nat) : Option String :=
  if h : (⟨offset⟩ : String.Pos.Raw).IsValid text then
    some (text.sliceFrom ⟨⟨offset⟩, h⟩).copy
  else
    none

/-- A text can be cut exactly behind its beginnings. -/
theorem sliceFrom?_eq_some_iff {text back : String} {offset : Nat} :
    sliceFrom? text offset = some back ↔
      ∃ front : String, text = front ++ back ∧ offset = front.utf8ByteSize := by
  rw [sliceFrom?]
  constructor
  · intro h
    split at h
    · next hvalid =>
      have hsplit := String.Pos.splits ⟨⟨offset⟩, hvalid⟩
      rw [Option.some.inj h] at hsplit
      exact ⟨_, hsplit.eq_append, congrArg String.Pos.Raw.byteIdx hsplit.offset_eq_rawEndPos⟩
    · cases h
  · intro h
    obtain ⟨front, htext, rfl⟩ := h
    have hvalid : (⟨front.utf8ByteSize⟩ : String.Pos.Raw).IsValid text :=
      String.Pos.Raw.isValid_iff_exists_append.mpr ⟨front, back, htext, rfl⟩
    have hsplit : (⟨⟨front.utf8ByteSize⟩, hvalid⟩ : text.Pos).Splits front back := ⟨htext, rfl⟩
    rw [dif_pos hvalid, hsplit.copy_sliceFrom_eq]

/-- Splits a checksum off by position, once there are enough bytes for one. -/
def splitChecksum? (bytes : Bytes) : Option (Option (Bytes × Checksum)) :=
  if bytes.length < Checksum.size then
    some none
  else do
    let start ← difference? bytes.length Checksum.size
    let payload ← bytes.slice? 0 start
    let byte0 ← bytes[start]?
    let byte1 ← bytes[start + 1]?
    let byte2 ← bytes[start + 2]?
    let byte3 ← bytes[start + 3]?
    return some (payload, ⟨byte0, byte1, byte2, byte3⟩)

theorem splitChecksum?_eq (bytes : Bytes) :
    splitChecksum? bytes = some (Checksum.split? bytes) := by
  cases hsplit : Checksum.split? bytes with
  | none => rw [splitChecksum?, if_pos (Checksum.split?_eq_none_iff.mp hsplit)]
  | some parts =>
    obtain ⟨payload, sum⟩ := parts
    rw [Checksum.split?_eq_some_iff.mp hsplit]
    have hsize : Checksum.size ≤ (payload ++ sum.toBytes).length := by simp
    have hstart : (payload ++ sum.toBytes).length - Checksum.size = payload.length := by simp
    have hpayload : (payload ++ sum.toBytes).slice? 0 payload.length = some payload := by
      rw [Bytes.slice?, if_pos ⟨Nat.zero_le _, by simp⟩, List.drop_zero, Nat.sub_zero,
        List.take_left]
    rw [splitChecksum?, if_neg (Nat.not_lt.mpr hsize), difference?_bind hsize, hstart, hpayload]
    simp [Checksum.toBytes]

/-! ## Bytes of ASCII -/

theorem encode_of_ascii {text : List Char} (h : ∀ c ∈ text, c.toNat < 128) :
    Utf8.encode text = text.map fun c => UInt8.ofNat c.toNat := by
  induction text with
  | nil => rfl
  | cons c text ih =>
    have hc := Utf8.encode_one (h c List.mem_cons_self)
    rw [Char.ofNat_toNat] at hc
    rw [Utf8.encode_cons, hc, ih fun d hd => h d (List.mem_cons_of_mem c hd)]
    rfl

theorem ofNat_toNat_byte {c : Char} (h : c.toNat < 128) :
    Char.ofNat (UInt8.ofNat c.toNat).toNat = c := by
  rw [UInt8.toNat_ofNat', Nat.mod_eq_of_lt (by omega), Char.ofNat_toNat]

/-- Behind a first character of ASCII a text can be cut. -/
theorem sliceFrom?_one {first : Char} (h : first.toNat < 128) (rest : List Char) :
    sliceFrom? (String.ofList (first :: rest)) 1 = some (String.ofList rest) := by
  have hsize : first.utf8Size = 1 :=
    Char.utf8Size_eq_one_iff.mpr (UInt32.le_iff_toNat_le.mpr (Nat.le_of_lt_succ h))
  rw [sliceFrom?_eq_some_iff]
  refine ⟨String.singleton first, ?_, ?_⟩
  · rw [← String.toList_inj]
    simp
  · rw [String.utf8ByteSize_singleton, hsize]

end ClarityWire.Guarded
