import ClarityWire.Wire.Decoder

/-!
# Byte streams

A source that delivers as it pleases: each call hands out some of the bytes asked for, at least one
unless the stream has ended, and calls may be interrupted first, which only means that they have to
be made again. After its bytes a stream ends or fails.
-/

namespace ClarityWire

/-- What a stream does once its bytes are used up. -/
inductive StreamEnd where
  | ended
  | failing (error : IoError)
  deriving DecidableEq, Repr

/-- A stream part way through. -/
structure ByteStream where
  /-- The bytes still to come. -/
  rest : Bytes
  ending : StreamEnd
  /-- The most bytes that the given delivery hands out; zero counts as one. -/
  pace : Nat → Nat
  /-- How many calls are interrupted before the given delivery. -/
  interruptions : Nat → Nat
  /-- The deliveries made so far. -/
  deliveries : Nat
  /-- The interruptions that still come before the next delivery. -/
  pending : Nat
  /-- The bytes delivered so far. -/
  offset : Nat

/-- The outcome of one call. -/
inductive Delivery where
  | bytes (chunk : Bytes)
  | interrupted
  | failed (error : IoError)
  deriving DecidableEq, Repr

namespace ByteStream

/-- A stream over a byte string. When a failure is given with an offset inside the string, reading
on at that offset fails. -/
def ofBytes (bytes : Bytes) (pace interruptions : Nat → Nat) (failure : Option (Nat × IoError)) :
    ByteStream :=
  let stream (rest : Bytes) (ending : StreamEnd) : ByteStream :=
    ⟨rest, ending, pace, interruptions, 0, interruptions 0, 0⟩
  match failure with
  | some (limit, error) =>
    if limit ≤ bytes.length then stream (bytes.take limit) (.failing error)
    else stream bytes .ended
  | none => stream bytes .ended

/-- One call for at most `wanted` bytes. -/
def read (wanted : Nat) (s : ByteStream) : Delivery × ByteStream :=
  match s.pending, s.rest, s.ending with
  | pending + 1, _, _ => (.interrupted, { s with pending := pending })
  | 0, [], .ended => (.bytes [], s)
  | 0, [], .failing error => (.failed error, s)
  | 0, byte :: rest, _ =>
    let chunk := (byte :: rest).take (min wanted (max 1 (s.pace s.deliveries)))
    (.bytes chunk,
      { s with
        rest := (byte :: rest).drop chunk.length
        deliveries := s.deliveries + 1
        pending := s.interruptions (s.deliveries + 1)
        offset := s.offset + chunk.length })

theorem pending_lt_of_interrupted {wanted : Nat} {s t : ByteStream}
    (h : s.read wanted = (.interrupted, t)) : t.pending < s.pending := by
  unfold read at h
  split at h
  next heq => cases h; rw [heq]; exact Nat.lt_succ_self _
  all_goals simp at h

theorem length_le_of_bytes {wanted : Nat} {s t : ByteStream} {chunk : Bytes}
    (h : s.read wanted = (.bytes chunk, t)) : chunk.length ≤ wanted := by
  unfold read at h
  split at h <;> cases h
  · exact Nat.zero_le _
  · exact Nat.le_trans (List.length_take_le ..) (Nat.min_le_left ..)

/-- Calls until `wanted` bytes have arrived, making interrupted calls again. -/
def fill (wanted : Nat) (s : ByteStream) : Except WireError (Block wanted × ByteStream) :=
  if hw : wanted = 0 then
    .ok (⟨[], hw.symm⟩, s)
  else
    match h : s.read wanted with
    | (.interrupted, t) => fill wanted t
    | (.failed error, _) => .error (.ofIo error)
    | (.bytes [], _) => .error .unexpectedEof
    | (.bytes (byte :: chunk), t) =>
      match fill (wanted - (chunk.length + 1)) t with
      | .error e => .error e
      | .ok (more, last) =>
        have hle : (byte :: chunk).length ≤ wanted := length_le_of_bytes h
        .ok (⟨byte :: chunk ++ more.1, by
          have hm := more.2
          simp only [List.length_cons] at hle
          simp only [List.length_append, List.length_cons, hm]
          omega⟩, last)
termination_by (wanted, s.pending)
decreasing_by
  · exact Prod.Lex.right _ (pending_lt_of_interrupted h)
  · exact Prod.Lex.left _ _ (by omega)

/-- Calls until the stream has ended or `limit` bytes have arrived, making interrupted calls
again. -/
def drain (limit : Nat) (s : ByteStream) : Except WireError (Bytes × ByteStream) :=
  if limit = 0 then
    .ok ([], s)
  else
    match _h : s.read limit with
    | (.interrupted, t) => drain limit t
    | (.failed error, _) => .error (.ofIo error)
    | (.bytes [], t) => .ok ([], t)
    | (.bytes (byte :: chunk), t) =>
      (drain (limit - (chunk.length + 1)) t).map (Prod.map (byte :: chunk ++ ·) id)
termination_by (limit, s.pending)
decreasing_by
  · exact Prod.Lex.right _ (pending_lt_of_interrupted _h)
  · exact Prod.Lex.left _ _ (by omega)

instance : ByteSource ByteStream where
  take := fill
  upTo := drain
  position := ByteStream.offset

end ByteStream

/-- Reads an item from a stream and counts the bytes it takes up. -/
def Decoder.decodeStream {α : Type} (d : Decoder α) (s : ByteStream) :
    Except WireError (α × Nat) :=
  (d.run s).map fun (value, last) => (value, last.offset)

end ClarityWire
