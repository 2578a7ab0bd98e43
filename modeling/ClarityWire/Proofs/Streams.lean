import ClarityWire.Proofs.Demand
import ClarityWire.Wire.ByteStream

/-!
# Reading from streams

A decoder reads from a stream what it reads from the bytes themselves, however the stream hands them
out. How a stream ends shows only in the failure of an item that it cuts off.
-/

namespace ClarityWire

/-- The failure to read on at the end of a stream. -/
def StreamEnd.failure : StreamEnd → WireError
  | .ended => .unexpectedEof
  | .failing error => .ofIo error

/-- What a failure on the bytes becomes on a stream that ends like this. -/
def StreamEnd.report (ending : StreamEnd) (e : WireError) : WireError :=
  if e = .unexpectedEof then ending.failure else e

@[simp] theorem StreamEnd.report_unexpectedEof (ending : StreamEnd) :
    ending.report .unexpectedEof = ending.failure :=
  if_pos rfl

theorem StreamEnd.report_of_ne {e : WireError} (h : e ≠ .unexpectedEof) (ending : StreamEnd) :
    ending.report e = e :=
  if_neg h

theorem StreamEnd.report_ended (e : WireError) : StreamEnd.ended.report e = e := by
  by_cases h : e = .unexpectedEof <;> simp [report, failure, h]

theorem StreamEnd.mapError_report_ended {α : Type} (answer : Except WireError α) :
    answer.mapError StreamEnd.ended.report = answer := by
  cases answer <;> simp [Except.mapError, report_ended]

theorem StreamEnd.mapError_report {α : Type} {answer : Except WireError α}
    (h : answer ≠ .error .unexpectedEof) (ending : StreamEnd) :
    answer.mapError ending.report = answer := by
  cases answer with
  | ok value => rfl
  | error e =>
    have he : e ≠ .unexpectedEof := fun heq => h (congrArg Except.error heq)
    exact congrArg Except.error (report_of_ne he ending)

namespace ByteStream

variable {s t u : ByteStream} {wanted : Nat}

def cursor (s : ByteStream) : Cursor :=
  ⟨s.rest, s.offset⟩

/-- One stream becomes the other by handing out a chunk. -/
structure Gives (s : ByteStream) (chunk : Bytes) (t : ByteStream) : Prop where
  rest : s.rest = chunk ++ t.rest
  offset : t.offset = s.offset + chunk.length
  ending : t.ending = s.ending

theorem Gives.trans {a b : Bytes} (h : s.Gives a t) (h' : t.Gives b u) : s.Gives (a ++ b) u where
  rest := by rw [h.rest, h'.rest, List.append_assoc]
  offset := by rw [h'.offset, h.offset, List.length_append, Nat.add_assoc]
  ending := h'.ending.trans h.ending

theorem Gives.cursor_eq {block : Block wanted} (h : s.Gives block.1 t) :
    s.cursor = ⟨block.1 ++ t.rest, s.offset⟩ ∧ t.cursor = ⟨t.rest, s.offset + wanted⟩ := by
  simp [cursor, h.rest, h.offset, block.2]

/-! ## One call -/

/-- What a call may come to, with the stream after it. -/
def Delivers (s : ByteStream) : Delivery × ByteStream → Prop
  | (.interrupted, t) => s.Gives [] t
  | (.failed error, _) => s.rest = [] ∧ s.ending.failure = .ofIo error
  | (.bytes [], _) => s.rest = [] ∧ s.ending.failure = .unexpectedEof
  | (.bytes (byte :: chunk), t) => s.Gives (byte :: chunk) t

theorem read_delivers (s : ByteStream) (h : wanted ≠ 0) : s.Delivers (s.read wanted) := by
  unfold read
  split
  · exact ⟨rfl, rfl, rfl⟩
  · next hrest hending => exact ⟨hrest, by rw [hending, StreamEnd.failure]⟩
  · next error hrest hending => exact ⟨hrest, by rw [hending, StreamEnd.failure]⟩
  · next byte rest _ hrest =>
    have hsize : min wanted (max 1 (s.pace s.deliveries)) ≠ 0 := by omega
    obtain ⟨size, hsize⟩ := Nat.exists_eq_succ_of_ne_zero hsize
    rw [hsize]
    -- At least one byte is asked for and handed out, so the chunk is not empty.
    have hchunk : (byte :: rest).take (size + 1) <+: byte :: rest := List.take_prefix _ _
    exact ⟨hrest.trans (List.prefix_iff_eq_append.mp hchunk).symm, rfl, rfl⟩

/-! ## As many calls as it takes -/

/-- What asking for a number of bytes may come to. -/
def Fills (s : ByteStream) (wanted : Nat) : Except WireError (Block wanted × ByteStream) → Prop
  | .ok (block, t) => s.Gives block.1 t
  | .error e => s.rest.length < wanted ∧ s.ending.failure = e

theorem fills_error_of_rest_eq_nil {e : WireError} (hw : wanted ≠ 0)
    (h : s.rest = [] ∧ s.ending.failure = e) : s.Fills wanted (.error e) :=
  ⟨by simpa [h.1] using Nat.pos_of_ne_zero hw, h.2⟩

theorem Gives.fills_error {chunk : Bytes} {e : WireError} (h : s.Gives chunk t)
    (ht : t.Fills (wanted - chunk.length) (.error e)) : s.Fills wanted (.error e) := by
  refine ⟨?_, by rw [← h.ending, ht.2]⟩
  have hshort : t.rest.length < wanted - chunk.length := ht.1
  rw [h.rest, List.length_append]
  omega

theorem fill_fills (wanted : Nat) (s : ByteStream) : s.Fills wanted (s.fill wanted) := by
  fun_induction fill wanted s with
  | case1 s => exact ⟨rfl, rfl, rfl⟩
  | case2 wanted s hw t hread ih =>
    -- The call is made again, on a stream that has given nothing away.
    have hgives := read_delivers s hw
    rw [hread] at hgives
    cases hfill : t.fill wanted with
    | ok filled =>
      rw [hfill] at ih
      exact hgives.trans ih
    | error e =>
      rw [hfill] at ih
      exact hgives.fills_error ih
  | case3 wanted s hw error t hread =>
    have hends := read_delivers s hw
    rw [hread] at hends
    exact fills_error_of_rest_eq_nil hw hends
  | case4 wanted s hw t hread =>
    have hends := read_delivers s hw
    rw [hread] at hends
    exact fills_error_of_rest_eq_nil hw hends
  | case5 wanted s hw byte chunk t hread e hfill ih =>
    have hgives := read_delivers s hw
    rw [hread] at hgives
    rw [hfill] at ih
    exact hgives.fills_error ih
  | case6 wanted s hw byte chunk t hread more last hfill hle ih =>
    have hgives := read_delivers s hw
    rw [hread] at hgives
    rw [hfill] at ih
    exact hgives.trans ih

end ByteStream

namespace Decoder

variable {α : Type}

/-- A decoder stops at the same place of a stream as of its bytes, with the same item, or fails
alike. -/
theorem LeavesEnd.run_stream {d : Decoder α} (hd : d.LeavesEnd) (s : ByteStream) :
    (d.run s).map (Prod.map id ByteStream.cursor) =
      (d.run s.cursor).mapError s.ending.report := by
  induction hd generalizing s with
  | done value => rfl
  | @fail e h =>
    have hreport : s.ending.report e = e := StreamEnd.report_of_ne h _
    simp [run, Except.map, Except.mapError, hreport]
  | @demand d count next hd _ ih =>
    rw [hd.run_eq, hd.run_eq]
    have hfills := s.fill_fills count
    cases hfill : s.fill count with
    | ok filled =>
      obtain ⟨block, t⟩ := filled
      rw [hfill] at hfills
      obtain ⟨hs, ht⟩ := hfills.cursor_eq
      have hrun : (Decoder.take count next).run s = (next block).run t := by
        simp [run, ByteSource.take, hfill]
      rw [hrun, ih, hs, run_take_append, ht, hfills.ending]
    | error e =>
      rw [hfill] at hfills
      have hrun : (Decoder.take count next).run s = .error e := by
        simp [run, ByteSource.take, hfill]
      rw [hrun, ByteStream.cursor, run_take_eq_error next hfills.1, ← hfills.2]
      simp [Except.map, Except.mapError]
  | position _ ih => exact ih s.offset s

theorem LeavesEnd.decodeStream_eq {d : Decoder α} (hd : d.LeavesEnd) {s : ByteStream}
    (hs : s.offset = 0) :
    d.decodeStream s = (d.decodeFront s.rest).mapError s.ending.report := by
  have hcursor : s.cursor = Cursor.ofBuffer s.rest 0 := by
    rw [ByteStream.cursor, hs]
    rfl
  have hstream : d.decodeStream s =
      ((d.run s).map (Prod.map id ByteStream.cursor)).map (Prod.map id Cursor.offset) := by
    rw [decodeStream]
    cases d.run s <;> rfl
  rw [hstream, hd.run_stream, hcursor, decodeFront]
  cases d.run (Cursor.ofBuffer s.rest 0) <;> rfl

theorem LeavesEnd.decodeStream_of_needed_le {d : Decoder α} (hd : d.LeavesEnd) {s : ByteStream}
    (hs : s.offset = 0) {bytes : Bytes} (hstart : s.rest <+: bytes)
    (h : d.needed (Cursor.ofBuffer bytes 0) ≤ s.rest.length) :
    d.decodeStream s = d.decodeFront bytes := by
  obtain ⟨rest, rfl⟩ := hstart
  have hfront : d.decodeFront (s.rest ++ []) = d.decodeFront (s.rest ++ rest) :=
    hd.decodeFront_congr [] h
  have hwhole : d.decodeFront (s.rest ++ rest) ≠ .error .unexpectedEof := by
    apply hd.decodeFront_ne_unexpectedEof
    rw [List.length_append]
    exact Nat.le_add_right_of_le h
  rw [List.append_nil] at hfront
  rw [hd.decodeStream_eq hs, hfront, StreamEnd.mapError_report hwhole]

end Decoder

namespace WireType

/-- **The reader makes no difference.** However a stream splits its bytes and however often it is
interrupted, what is read from it and how many bytes that takes depends on the bytes alone. If
reading on fails at some point, an item cut off there fails with that failure, and whatever asks for
no byte behind that point is read or refused as if the bytes went on.

A decoder's demands follow from the bytes it has seen, so what any reader does in a run, even one
that heeds how much is asked for, is one choice of pace and interruptions. -/
theorem decodeStream_ofBytes (type : WireType) (bytes : Bytes) (pace interruptions : Nat → Nat) :
    type.decoder.decodeStream (.ofBytes bytes pace interruptions none) =
        type.decoder.decodeFront bytes ∧
      ∀ (limit : Nat) (error : IoError), limit ≤ bytes.length →
        type.decoder.decodeStream (.ofBytes bytes pace interruptions (some (limit, error))) =
            (type.decoder.decodeFront (bytes.take limit)).mapError
              (fun e => if e = .unexpectedEof then .ofIo error else e) ∧
          (type.decoder.needed (.ofBuffer bytes 0) ≤ limit →
            type.decoder.decodeStream (.ofBytes bytes pace interruptions (some (limit, error))) =
              type.decoder.decodeFront bytes) ∧
          ∀ item count, type.decoder.decodeFront bytes = .ok (item, count) → count ≤ limit →
            type.decoder.decodeStream (.ofBytes bytes pace interruptions (some (limit, error))) =
              .ok (item, count) := by
  have hd := type.decoder_leavesEnd
  refine ⟨?_, fun limit error hlimit => ?_⟩
  · rw [hd.decodeStream_eq rfl]
    exact StreamEnd.mapError_report_ended _
  · have hstream : ByteStream.ofBytes bytes pace interruptions (some (limit, error)) =
        ⟨bytes.take limit, .failing error, pace, interruptions, 0, interruptions 0, 0⟩ :=
      if_pos hlimit
    rw [hstream]
    have hneeded (h : type.decoder.needed (.ofBuffer bytes 0) ≤ limit) :
        type.decoder.decodeStream
            ⟨bytes.take limit, .failing error, pace, interruptions, 0, interruptions 0, 0⟩ =
          type.decoder.decodeFront bytes := by
      apply hd.decodeStream_of_needed_le rfl (List.take_prefix limit bytes)
      rwa [List.length_take_of_le hlimit]
    refine ⟨hd.decodeStream_eq rfl, hneeded, fun item count hread hcount => ?_⟩
    rw [← hread]
    apply hneeded
    rwa [hd.needed_of_decodeFront hread]

theorem decodeStream_ofBytes_word32 :
    word32.decoder.decodeStream
          (.ofBytes [0, 0, 1, 2, 9] (fun _ => 1) id (some (4, ⟨.other, "closed"⟩))) =
        .ok ((258 : UInt32), 4) ∧
      word32.decoder.decodeStream
          (.ofBytes [0, 0, 1, 2, 9] (fun _ => 1) id (some (3, ⟨.other, "closed"⟩))) =
        .error (.io ⟨.other, "closed"⟩) := by
  have h := (decodeStream_ofBytes .word32 [0, 0, 1, 2, 9] (fun _ => 1) id).2
  constructor
  · exact (h 4 ⟨.other, "closed"⟩ (by decide)).2.1 (by decide)
  · exact (h 3 ⟨.other, "closed"⟩ (by decide)).1

end WireType

end ClarityWire
