import ClarityWire.Wire.Error

/-!
# Decoders

A decoder is a program that asks its source for bytes, either for an exact number of them or for as
many as there are up to a limit, and may ask how far the source has advanced. It says nothing about
how a source delivers: `run` carries the program out on any source, and no decoder can ask for a
byte it does not need. A decoder may also read through a counter, which passes its demands on and
answers itself how far the source has advanced.
-/

namespace ClarityWire

/-- A program that reads an item. -/
inductive Decoder (α : Type) : Type where
  /-- The item has been read. -/
  | done (value : α)
  /-- There is no item. -/
  | fail (error : WireError)
  /-- Reads on with the next `count` bytes. -/
  | take (count : Nat) (next : Block count → Decoder α)
  /-- Reads on with the next bytes up to the end of the source, but no more than `limit`. -/
  | upTo (limit : Nat) (next : Bytes → Decoder α)
  /-- Reads on with the position of the next byte. -/
  | position (next : Nat → Decoder α)

/-- What bytes can be read from. -/
class ByteSource (σ : Type) where
  /-- The next bytes, exactly as many as asked for, and the source after them. -/
  take : (count : Nat) → σ → Except WireError (Block count × σ)
  /-- The next bytes up to the end or the limit, and the source after them. -/
  upTo : (limit : Nat) → σ → Except WireError (Bytes × σ)
  /-- The position of the next byte. -/
  position : σ → Nat

namespace Decoder

variable {α β σ : Type}

/-- Runs one decoder and then the one chosen by its item. -/
protected def bind : Decoder α → (α → Decoder β) → Decoder β
  | .done value, f => f value
  | .fail e, _ => .fail e
  | .take count next, f => .take count fun block => (next block).bind f
  | .upTo limit next, f => .upTo limit fun bytes => (next bytes).bind f
  | .position next, f => .position fun offset => (next offset).bind f

instance : Monad Decoder where
  pure := .done
  bind := Decoder.bind

theorem bind_done (d : Decoder α) : d.bind .done = d := by
  induction d with
  | done _ => rfl
  | fail _ => rfl
  | take count next ih => exact congrArg (take count) (funext ih)
  | upTo limit next ih => exact congrArg (upTo limit) (funext ih)
  | position next ih => exact congrArg position (funext ih)

theorem bind_assoc {γ : Type} (d : Decoder α) (f : α → Decoder β) (g : β → Decoder γ) :
    (d.bind f).bind g = d.bind fun value => (f value).bind g := by
  induction d with
  | done _ => rfl
  | fail _ => rfl
  | take count next ih => exact congrArg (take count) (funext ih)
  | upTo limit next ih => exact congrArg (upTo limit) (funext ih)
  | position next ih => exact congrArg position (funext ih)

instance : LawfulMonad Decoder :=
  LawfulMonad.mk' Decoder bind_done (fun _ _ => rfl) bind_assoc

/-- Carries a decoder out on a source. -/
def run [ByteSource σ] : Decoder α → σ → Except WireError (α × σ)
  | .done value, source => .ok (value, source)
  | .fail e, _ => .error e
  | .take count next, source =>
    match ByteSource.take count source with
    | .ok (block, rest) => (next block).run rest
    | .error e => .error e
  | .upTo limit next, source =>
    match ByteSource.upTo limit source with
    | .ok (bytes, rest) => (next bytes).run rest
    | .error e => .error e
  | .position next, source => (next (ByteSource.position source)).run source

theorem run_bind [ByteSource σ] (d : Decoder α) (f : α → Decoder β) (source : σ) :
    (d.bind f).run source =
      match d.run source with
      | .ok (value, rest) => (f value).run rest
      | .error e => .error e := by
  induction d generalizing source with
  | done _ => rfl
  | fail _ => rfl
  | take count next ih =>
    simp only [Decoder.bind, run]
    cases ByteSource.take count source with
    | error _ => rfl
    | ok taken => exact ih taken.1 taken.2
  | upTo limit next ih =>
    simp only [Decoder.bind, run]
    cases ByteSource.upTo limit source with
    | error _ => rfl
    | ok taken => exact ih taken.1 taken.2
  | position next ih => exact ih _ _

/-- Reads `count` items with the items already read in reverse in `items`. -/
def replicateFrom (d : Decoder α) (items : List α) : (count : Nat) → Decoder (List α)
  | 0 => .done items.reverse
  | count + 1 => d.bind fun item => replicateFrom d (item :: items) count

/-- Reads `count` items one after another. -/
def replicate (count : Nat) (d : Decoder α) : Decoder (List α) :=
  replicateFrom d [] count

/-- Succeeds with the value of a check or fails with its error. -/
def ofExcept : Except WireError α → Decoder α
  | .ok value => .done value
  | .error e => .fail e

/-! ## Counting -/

/-- The decoder behind a counter at a position. The counter adds up the bytes that it hands on, and
the position is asked of it and no longer of the source. -/
def counted : Decoder α → (offset : Nat) → Decoder α
  | .done value, _ => .done value
  | .fail e, _ => .fail e
  | .take count next, offset =>
    .take count fun block => (next block).counted (offset + block.1.length)
  | .upTo limit next, offset =>
    .upTo limit fun bytes => (next bytes).counted (offset + bytes.length)
  | .position next, offset => (next offset).counted offset

/-! ## Limits as demands -/

/-- Reads `size` bytes as what there is of them, and notices itself when that is less. -/
def limited (size : Nat) : Decoder Bytes :=
  .upTo size fun bytes => if bytes.length = size then .done bytes else .fail .unexpectedEof

end Decoder

end ClarityWire
