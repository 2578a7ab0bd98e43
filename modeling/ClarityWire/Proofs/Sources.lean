import ClarityWire.Wire.ByteStream
import ClarityWire.Wire.Cursor
import ClarityWire.Wire.Fixed

/-!
# Ways of reading

Taking what there is up to a limit and checking how much it was comes to the same as asking for
exactly that much, on a cursor and on a stream alike. And a counter in front of a cursor tells the
positions that the cursor would tell, as far on from where the counter was set as the cursor is from
where it stood.
-/

namespace ClarityWire

/-- A cursor on the same bytes, further on. -/
def Cursor.shift (distance : Nat) (cursor : Cursor) : Cursor :=
  ⟨cursor.rest, cursor.offset + distance⟩

/-- What is taken up to a limit, if it is as much as the limit. -/
def ByteSource.checkFull {σ : Type} (limit : Nat) (taken : Bytes × σ) :
    Except WireError (Block limit × σ) :=
  if h : taken.1.length = limit then .ok (⟨taken.1, h⟩, taken.2) else .error .unexpectedEof

/-- A source on which a limit and a check are a demand. -/
class LawfulSource (σ : Type) [ByteSource σ] : Prop where
  upTo_checkFull : ∀ (limit : Nat) (source : σ),
    (ByteSource.upTo limit source >>= ByteSource.checkFull limit) = ByteSource.take limit source

namespace Decoder

variable {α σ : Type}

section

variable [ByteSource σ] [LawfulSource σ]

/-- A decoder that goes on only with all it has asked for might as well demand it. -/
theorem run_upTo_eq_take {limit : Nat} {next : Bytes → Decoder α}
    (h : ∀ bytes, bytes.length ≠ limit → next bytes = .fail .unexpectedEof) (source : σ) :
    (upTo limit next).run source = (take limit fun block => next block.1).run source := by
  have hexact := LawfulSource.upTo_checkFull limit source
  rw [run, run, ← hexact]
  cases ByteSource.upTo limit source with
  | error e => rfl
  | ok taken =>
    by_cases hfull : taken.1.length = limit
    · have hcheck : ByteSource.checkFull limit taken = .ok (⟨taken.1, hfull⟩, taken.2) :=
        dif_pos hfull
      simp only [bind, Except.bind, hcheck]
    · have hcheck : ByteSource.checkFull limit taken = .error .unexpectedEof := dif_neg hfull
      simp only [bind, Except.bind, hcheck, h taken.1 hfull, run]

theorem run_limited (size : Nat) (source : σ) :
    (limited size).run source = (Subtype.val <$> block size).run source := by
  have hshort (bytes : Bytes) (h : bytes.length ≠ size) :
      (if bytes.length = size then Decoder.done bytes else .fail .unexpectedEof) =
        .fail .unexpectedEof := if_neg h
  have hfull : (fun block : Block size => if block.1.length = size then Decoder.done block.1
      else .fail .unexpectedEof) = fun block => .done block.1 :=
    funext fun block => if_pos block.2
  rw [limited, run_upTo_eq_take hshort, hfull]
  rfl

end

/-! ## Cursors -/

instance : LawfulSource Cursor where
  upTo_checkFull := by
    intro limit cursor
    change ByteSource.checkFull limit (cursor.rest.take limit, _) = cursor.take limit
    by_cases h : (cursor.rest.take limit).length = limit
    · rw [ByteSource.checkFull, dif_pos h, Cursor.take, dif_pos h, h]
    · rw [ByteSource.checkFull, dif_neg h, Cursor.take, dif_neg h]

/-- Behind a counter a decoder reads what it reads where the counter is set, and stops as far from
there as the cursor stood. -/
theorem run_counted (d : Decoder α) (rest : Bytes) (offset distance : Nat) :
    (d.counted offset).run (⟨rest, offset + distance⟩ : Cursor) =
      (d.run (⟨rest, offset⟩ : Cursor)).map (Prod.map id (Cursor.shift distance)) := by
  induction d generalizing rest offset with
  | done _ => rfl
  | fail _ => rfl
  | take count next ih =>
    rcases Cursor.starts_or_short count rest with ⟨block, more, rfl⟩ | hshort
    · have hnext := ih block more (offset + count)
      rw [counted, run_take_append, run_take_append, block.2, ← hnext, Nat.add_right_comm]
    · rw [counted, run_take_eq_error _ hshort, run_take_eq_error _ hshort]
      rfl
  | upTo limit next ih =>
    have hnext := ih (rest.take limit) (rest.drop limit) (offset + (rest.take limit).length)
    rw [Nat.add_right_comm] at hnext
    exact hnext
  | position next ih => exact ih offset rest offset

theorem run_counted_offset (d : Decoder α) (cursor : Cursor) :
    (d.counted cursor.offset).run cursor = d.run cursor := by
  have hcounted := run_counted d cursor.rest cursor.offset 0
  have hshift : Prod.map id (Cursor.shift 0) = @id (α × Cursor) := rfl
  rw [hshift, Except.map_id] at hcounted
  exact hcounted

end Decoder

/-! ## Streams -/

namespace ByteStream

theorem drain_step {limit : Nat} (hlimit : limit ≠ 0) (s : ByteStream) :
    s.drain limit =
      match s.read limit with
      | (.interrupted, t) => t.drain limit
      | (.failed error, _) => .error (.ofIo error)
      | (.bytes [], t) => .ok ([], t)
      | (.bytes (byte :: chunk), t) =>
        (t.drain (limit - (chunk.length + 1))).map (Prod.map (byte :: chunk ++ ·) id) := by
  rw [drain, if_neg hlimit]
  split <;> simp only [*]

/-- What stands in front of what is still to come counts towards the limit. -/
theorem map_checkFull {front : Bytes} {limit : Nat} (hfront : front.length ≤ limit)
    (taken : Except WireError (Bytes × ByteStream)) :
    (taken.map (Prod.map (front ++ ·) id) >>= ByteSource.checkFull limit) =
      (taken >>= ByteSource.checkFull (limit - front.length)).map fun full =>
        (⟨front ++ full.1.1, by rw [List.length_append, full.1.2]; omega⟩, full.2) := by
  cases taken with
  | error e => rfl
  | ok taken =>
    change ByteSource.checkFull limit (front ++ taken.1, taken.2) =
      (ByteSource.checkFull (limit - front.length) taken).map _
    by_cases h : taken.1.length = limit - front.length
    · have hall : (front ++ taken.1).length = limit := by rw [List.length_append]; omega
      rw [ByteSource.checkFull, ByteSource.checkFull, dif_pos h, dif_pos hall]
      rfl
    · have hall : (front ++ taken.1).length ≠ limit := by rw [List.length_append]; omega
      rw [ByteSource.checkFull, ByteSource.checkFull, dif_neg h, dif_neg hall]
      rfl

theorem drain_checkFull (limit : Nat) (s : ByteStream) :
    (s.drain limit >>= ByteSource.checkFull limit) = s.fill limit := by
  fun_induction fill limit s with
  | case1 s =>
    rw [drain, if_pos rfl]
    rfl
  | case2 wanted s hw t hread ih =>
    rw [drain_step hw, hread]
    exact ih
  | case3 wanted s hw error t hread =>
    rw [drain_step hw, hread]
    rfl
  | case4 wanted s hw t hread =>
    rw [drain_step hw, hread]
    exact dif_neg (Ne.symm hw)
  | case5 wanted s hw byte chunk t hread e hfill ih =>
    have hrest : (t.drain (wanted - (chunk.length + 1)) >>=
        ByteSource.checkFull (wanted - (byte :: chunk).length)) = .error e := ih.trans hfill
    rw [drain_step hw, hread]
    dsimp only
    rw [map_checkFull (length_le_of_bytes hread), hrest]
    rfl
  | case6 wanted s hw byte chunk t hread more last hfill hle ih =>
    have hrest : (t.drain (wanted - (chunk.length + 1)) >>=
        ByteSource.checkFull (wanted - (byte :: chunk).length)) = .ok (more, last) := ih.trans hfill
    rw [drain_step hw, hread]
    dsimp only
    rw [map_checkFull hle, hrest]
    rfl

end ByteStream

instance : LawfulSource ByteStream where
  upTo_checkFull := ByteStream.drain_checkFull

end ClarityWire
