import ClarityWire.Proofs.Literals
import ClarityWire.Proofs.Spelling

/-!
# Texts cut short

A limit on hexadecimal digits takes digits from the front of a buffer, and of each long scalar of a
UTF-8 string. It concerns the outermost value only: any other text is written in full.
-/

namespace ClarityWire.Value

/-- The spelling of a group of a UTF-8 string, with something done to the digits of a scalar of more
than one byte. -/
def groupSpelling (cut : List Char → List Char) : Bytes → List Char
  | [] => []
  | [byte] => escapeByte byte
  | group => ['\\', 'u', '\x7b'] ++ (cut (Hex.digits group) ++ ['\x7d'])

/-- The characters of a UTF-8 string, with the same done to the digits of all such scalars. -/
def literalSpelling (cut : List Char → List Char) (groups : List Bytes) : List Char :=
  'u' :: '\x22' :: (groups.flatMap (groupSpelling cut) ++ ['\x22'])

/-- The characters of a value that a limit leaves: buffers and strings are cut, and no other value
is, whatever is inside it. -/
def cutSpelling (limit : Nat) : Value → List Char
  | .buffer bytes => (Hex.digits bytes).take limit
  | .utf8 groups => literalSpelling (List.take limit) groups
  | value => value.render.toList

private theorem escapeGroup_eq {cut : List Char → List Char} {limit? : Option Nat} {group : Bytes}
    (h : Hex.truncatedDigits group (limit?.getD (2 * group.length)) = cut (Hex.digits group)) :
    escapeGroup limit? group = groupSpelling cut group := by
  match group with
  | [] => rfl
  | [byte] => rfl
  | first :: second :: rest =>
    have hlong : 2 ≤ (first :: second :: rest).length := Nat.le_add_left 2 rest.length
    rw [escapeGroup_long limit? hlong, h, groupSpelling]
    · exact List.cons_ne_nil _ _
    · intro byte hbyte
      cases hbyte

private theorem spelling_utf8_eq {cut : List Char → List Char} {limit? : Option Nat}
    {groups : List Bytes} (h : ∀ group : Bytes,
      Hex.truncatedDigits group (limit?.getD (2 * group.length)) = cut (Hex.digits group)) :
    (Value.utf8 groups).spelling limit? = literalSpelling cut groups := by
  have hgroups : escapeGroup limit? = groupSpelling cut := by
    funext group
    exact escapeGroup_eq (h group)
  rw [spelling_utf8, hgroups, literalSpelling]

theorem spelling_utf8_none (groups : List Bytes) :
    (Value.utf8 groups).spelling none = literalSpelling id groups :=
  spelling_utf8_eq Hex.truncatedDigits_full

theorem spelling_some (limit : Nat) (value : Value) :
    value.spelling (some limit) = value.cutSpelling limit := by
  cases value with
  | buffer bytes => rw [spelling_buffer, Hex.truncatedDigits_eq]; rfl
  | utf8 groups => exact spelling_utf8_eq fun group => Hex.truncatedDigits_eq group limit
  | bool value => cases value <;> rfl
  | _ => rfl

/-- **A limit cuts the outermost value only.** Bytes under a limit are written as that many of their
hexadecimal digits, or all if there are fewer; where the limit splits a byte, that byte is there.
A value has the same text with its range as without, cut if it is a buffer, cut in each long scalar
if it is a UTF-8 string, and in full if it is any other value. -/
theorem renderLimited_exact (limit : Nat) :
    (∀ bytes : Bytes, Hex.encodeTruncated bytes (some limit) =
      String.ofList ((Hex.encode bytes).toList.take (min limit (2 * bytes.length)))) ∧
    (∀ bytes : Bytes, limit < 2 * bytes.length → limit % 2 = 1 →
      ∃ byte, bytes[limit / 2]? = some byte ∧ Hex.truncatedDigits bytes limit =
        Hex.digits (bytes.take (limit / 2)) ++ [Hex.digit (byte.toNat / 16)]) ∧
    (∀ (value : Value) (span : Option Span),
      ClarityValue.renderLimited (some limit) ⟨value, span⟩ = value.renderLimited (some limit)) ∧
    (∀ groups : List Bytes, (Value.utf8 groups).render.toList = literalSpelling id groups) ∧
    ∀ value : Value, (value.renderLimited (some limit)).toList = value.cutSpelling limit := by
  refine ⟨?_, ?_, ?_, spelling_utf8_none, spelling_some limit⟩
  · intro bytes
    rw [Hex.encodeTruncated, Option.getD_some, Hex.truncatedDigits_eq, Hex.encode,
      String.toList_ofList, ← Hex.length_digits, ← List.take_take, List.take_length]
  · intro bytes hlimit hodd
    have hinside : limit / 2 < bytes.length := by omega
    refine ⟨bytes[limit / 2], List.getElem?_eq_getElem hinside, ?_⟩
    rw [Hex.truncatedDigits, dif_pos ⟨hlimit, hodd⟩]
  · intro value span
    rfl

/-- Three bytes, the second of which is split by a limit of three. -/
def splitBytes : Bytes := [0x1a, 0x2b, 0x3c]

theorem renderLimited_exact_splitBytes :
    3 < 2 * splitBytes.length ∧ 3 % 2 = 1 ∧
      (∃ byte, splitBytes[3 / 2]? = some byte ∧ Hex.truncatedDigits splitBytes 3 =
        Hex.digits (splitBytes.take (3 / 2)) ++ [Hex.digit (byte.toNat / 16)]) ∧
      ((Value.buffer splitBytes).renderLimited (some 3)).toList = ['1', 'a', '2'] ∧
      ((Value.list [.bare (.buffer splitBytes)]).renderLimited (some 3)).toList =
        (Value.list [.bare (.buffer splitBytes)]).render.toList := by
  obtain ⟨-, hsplit, -, -, hcut⟩ := renderLimited_exact 3
  exact ⟨by decide, by decide, hsplit splitBytes (by decide) (by decide), hcut (.buffer splitBytes),
    hcut (.list [.bare (.buffer splitBytes)])⟩

end ClarityWire.Value
