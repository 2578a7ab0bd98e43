import ClarityWire.Proofs.Utf8

/-!
# Ill-formed parts

Bytes that are no text are repaired part by part. A part is the encoding of a scalar, or the longest
run of bytes that begins one without being one, or else a single byte that begins none. There is
only one way to divide a byte string like this, and repairing finds it.
-/

namespace ClarityWire.Utf8

/-- Whether some scalar is encoded with these bytes in front. -/
def Begins (front : Bytes) : Prop :=
  ∃ c, front <+: String.utf8EncodeChar c

/-- Whether `front` is the longest run in front of `rest` that begins the encoding of a scalar. -/
structure LongestRun (front rest : Bytes) : Prop where
  nonempty : front ≠ []
  begins : Begins front
  longest : ∀ byte tail, rest = byte :: tail → ¬ Begins (front ++ [byte])

/-- The texts that bytes are repaired to, with the replacement character for each ill-formed
part. -/
inductive Repaired : Bytes → List Char → Prop
  | nil : Repaired [] []
  | scalar (c : Char) {rest : Bytes} {text : List Char} (repaired : Repaired rest text) :
      Repaired (String.utf8EncodeChar c ++ rest) (c :: text)
  | broken {front rest : Bytes} {text : List Char} (run : LongestRun front rest)
      (incomplete : ∀ c, front ≠ String.utf8EncodeChar c) (repaired : Repaired rest text) :
      Repaired (front ++ rest) (replacement :: text)
  | stray {byte : UInt8} {rest : Bytes} {text : List Char} (begins : ¬ Begins [byte])
      (repaired : Repaired rest text) : Repaired (byte :: rest) (replacement :: text)

/-! ## Sequences under way -/

/-- Whether a sequence under way can still be completed. -/
private def Pending.Open (state : Pending) : Prop :=
  state.low ≤ state.high ∧ state.high < 256

/-- Whether reading some bytes leaves a sequence under way. -/
private structure LeadsTo (front : Bytes) (state : Pending) : Prop where
  nonempty : front ≠ []
  decodeFrom_eq : ∀ text rest,
    decodeFrom text none (front ++ rest) = decodeFrom text (some state) rest
  isOpen : state.Open

private theorem open_of_first {byte : UInt8} {state : Pending} (h : first byte = .pending state) :
    state.Open := by
  simp only [first] at h
  repeat' split at h
  all_goals cases h
  all_goals simp [Pending.Open]

private theorem Pending.Open.next {state later : Pending} {byte : UInt8}
    (h : state.next byte = .pending later) : later.Open := by
  simp only [Pending.next] at h
  split at h
  · split at h
    · cases h
    · cases h
      simp [Pending.Open]
  · cases h

private theorem decode?_eq_singleton_iff {bytes : Bytes} {c : Char} :
    decode? bytes = some [c] ↔ bytes = String.utf8EncodeChar c := by
  rw [decode?_eq_some_iff, encode_cons, encode_nil, List.append_nil, eq_comm]

private theorem Pending.Open.exists_scalar {state : Pending} (h : state.Open) :
    ∃ tail c, ∀ text, decodeFrom text (some state) tail = some (c :: text).reverse := by
  obtain ⟨bits, low, high, more⟩ := state
  induction more generalizing bits low high with
  | zero =>
    have hlow : (UInt8.ofNat low).toNat = low := Nat.mod_eq_of_lt (h.1.trans_lt h.2)
    have hrange : low ≤ high := h.1
    refine ⟨[UInt8.ofNat low], Char.ofNat (bits * 64 + low % 64), ?_⟩
    intro text
    simp [decodeFrom, Pending.next, hlow, hrange]
  | succ more ih =>
    have hlow : (UInt8.ofNat low).toNat = low := Nat.mod_eq_of_lt (h.1.trans_lt h.2)
    have hrange : low ≤ high := h.1
    have hlater : (⟨bits * 64 + low % 64, 0x80, 0xBF, more⟩ : Pending).Open := by
      simp [Pending.Open]
    obtain ⟨tail, c, htail⟩ := ih _ _ _ hlater
    refine ⟨UInt8.ofNat low :: tail, c, ?_⟩
    intro text
    simp [decodeFrom, Pending.next, hlow, hrange, htail]

namespace LeadsTo

variable {front : Bytes} {state : Pending} {byte : UInt8}

private theorem of_first (h : first byte = .pending state) : LeadsTo [byte] state where
  nonempty := List.cons_ne_nil _ _
  decodeFrom_eq text rest := by simp [decodeFrom, h]
  isOpen := open_of_first h

private theorem next (hfront : LeadsTo front state) {later : Pending}
    (h : state.next byte = .pending later) : LeadsTo (front ++ [byte]) later where
  nonempty := by simp
  decodeFrom_eq text rest := by simp [hfront.decodeFrom_eq, decodeFrom, h]
  isOpen := Pending.Open.next h

private theorem eq_of_scalar (hfront : LeadsTo front state) {c : Char}
    (h : state.next byte = .scalar c) : front ++ [byte] = String.utf8EncodeChar c := by
  apply decode?_eq_singleton_iff.mp
  simp [decode?, hfront.decodeFrom_eq, decodeFrom, h]

private theorem begins (hfront : LeadsTo front state) : Begins front := by
  obtain ⟨tail, c, htail⟩ := hfront.isOpen.exists_scalar
  have hwhole : front ++ tail = String.utf8EncodeChar c := by
    apply decode?_eq_singleton_iff.mp
    simp [decode?, hfront.decodeFrom_eq, htail]
  exact ⟨c, tail, hwhole⟩

private theorem incomplete (hfront : LeadsTo front state) (c : Char) :
    front ≠ String.utf8EncodeChar c := by
  intro hwhole
  have hread := decode?_eq_singleton_iff.mpr hwhole
  rw [decode?, ← List.append_nil front, hfront.decodeFrom_eq] at hread
  cases hread

private theorem not_begins (hfront : LeadsTo front state) (h : state.next byte = .illFormed) :
    ¬ Begins (front ++ [byte]) := by
  rintro ⟨c, tail, hwhole⟩
  have hread := decode?_eq_singleton_iff.mpr hwhole
  simp [decode?, hfront.decodeFrom_eq, decodeFrom, h] at hread

end LeadsTo

private theorem eq_of_first_eq_scalar {byte : UInt8} {c : Char} (h : first byte = .scalar c) :
    [byte] = String.utf8EncodeChar c := by
  apply decode?_eq_singleton_iff.mp
  simp [decode?, decodeFrom, h]

private theorem not_begins_of_first {byte : UInt8} (h : first byte = .illFormed) :
    ¬ Begins [byte] := by
  intro ⟨c, tail, hwhole⟩
  have hread := decode?_eq_singleton_iff.mpr hwhole
  simp [decode?, decodeFrom, h] at hread

/-! ## Repairing -/

private theorem repairFrom_break {text : List Char} {state : Pending} {byte : UInt8} {rest : Bytes}
    (h : state.next byte = .illFormed) :
    repairFrom text (some state) (byte :: rest) =
      repairFrom (replacement :: text) none (byte :: rest) := by
  rw [repairFrom, repairFrom, h]

private theorem exists_repaired (bytes : Bytes) :
    (∀ text, ∃ more, repairFrom text none bytes = text.reverse ++ more ∧ Repaired bytes more) ∧
      ∀ text front state, LeadsTo front state → ∃ more,
        repairFrom text (some state) bytes = text.reverse ++ more ∧
          Repaired (front ++ bytes) more := by
  induction bytes with
  | nil =>
    constructor
    · intro text
      exact ⟨[], by simp [repairFrom], .nil⟩
    · intro text front state hfront
      refine ⟨[replacement], by simp [repairFrom], ?_⟩
      exact .broken ⟨hfront.nonempty, hfront.begins, by simp⟩ hfront.incomplete .nil
  | cons byte rest ih =>
    obtain ⟨hnone, hsome⟩ := ih
    have hstart : ∀ text, ∃ more, repairFrom text none (byte :: rest) = text.reverse ++ more ∧
        Repaired (byte :: rest) more := by
      intro text
      cases hfirst : first byte with
      | scalar c =>
        obtain ⟨more, hmore, hrepaired⟩ := hnone (c :: text)
        refine ⟨c :: more, by simp [repairFrom, hfirst, hmore], ?_⟩
        have hscalar := Repaired.scalar c hrepaired
        rwa [← eq_of_first_eq_scalar hfirst] at hscalar
      | pending state =>
        obtain ⟨more, hmore, hrepaired⟩ := hsome text [byte] state (.of_first hfirst)
        exact ⟨more, by simp [repairFrom, hfirst, hmore], hrepaired⟩
      | illFormed =>
        obtain ⟨more, hmore, hrepaired⟩ := hnone (replacement :: text)
        refine ⟨replacement :: more, by simp [repairFrom, hfirst, hmore], ?_⟩
        exact .stray (not_begins_of_first hfirst) hrepaired
    refine ⟨hstart, ?_⟩
    intro text front state hfront
    cases hnext : state.next byte with
    | scalar c =>
      obtain ⟨more, hmore, hrepaired⟩ := hnone (c :: text)
      refine ⟨c :: more, by simp [repairFrom, hnext, hmore], ?_⟩
      have hscalar := Repaired.scalar c hrepaired
      rw [← hfront.eq_of_scalar hnext] at hscalar
      simpa using hscalar
    | pending later =>
      obtain ⟨more, hmore, hrepaired⟩ := hsome text (front ++ [byte]) later (hfront.next hnext)
      exact ⟨more, by simp [repairFrom, hnext, hmore], by simpa using hrepaired⟩
    | illFormed =>
      obtain ⟨more, hmore, hrepaired⟩ := hstart (replacement :: text)
      refine ⟨replacement :: more, by simp [repairFrom_break hnext, hmore], ?_⟩
      have hlongest : ∀ other tail, byte :: rest = other :: tail → ¬ Begins (front ++ [other]) := by
        intro other tail heq
        cases heq
        exact hfront.not_begins hnext
      exact .broken ⟨hfront.nonempty, hfront.begins, hlongest⟩ hfront.incomplete hrepaired

theorem repaired_decodeLossy (bytes : Bytes) : Repaired bytes (decodeLossy bytes).toList := by
  obtain ⟨more, hmore, hrepaired⟩ := (exists_repaired bytes).1 []
  simpa [decodeLossy, hmore] using hrepaired

/-! ## There is one way to divide bytes -/

theorem Begins.of_prefix {front bytes : Bytes} (h : Begins bytes) (hfront : front <+: bytes) :
    Begins front := by
  obtain ⟨c, hc⟩ := h
  exact ⟨c, hfront.trans hc⟩

theorem eq_of_utf8EncodeChar_starts {c d : Char}
    (h : String.utf8EncodeChar c <+: String.utf8EncodeChar d) : c = d := by
  obtain ⟨tail, htail⟩ := h
  have hread : decode? (String.utf8EncodeChar d) = some [d] := decode?_eq_singleton_iff.mpr rfl
  rw [← htail, decode?, decodeFrom_utf8EncodeChar] at hread
  obtain ⟨more, hmore, -⟩ := encode_of_decodeFrom tail [c] [d] hread
  simp at hmore
  exact hmore.1.symm

theorem longestRun_utf8EncodeChar (c : Char) (rest : Bytes) :
    LongestRun (String.utf8EncodeChar c) rest where
  nonempty := String.utf8EncodeChar_ne_nil
  begins := ⟨c, List.prefix_rfl⟩
  longest := by
    intro byte tail _ hbegins
    obtain ⟨d, hd⟩ := hbegins
    have hcd := eq_of_utf8EncodeChar_starts ((List.prefix_append _ _).trans hd)
    have hlength := hd.length_le
    rw [hcd, List.length_append, List.length_singleton] at hlength
    omega

private theorem LongestRun.eq_of_prefix {front rest front' rest' : Bytes}
    (h : LongestRun front rest) (h' : LongestRun front' rest')
    (heq : front ++ rest = front' ++ rest') (hstarts : front <+: front') : front = front' := by
  obtain ⟨tail, rfl⟩ := hstarts
  cases tail with
  | nil => simp
  | cons byte tail =>
    have hrest : rest = byte :: (tail ++ rest') := by simpa using heq
    have hlonger : front ++ [byte] <+: front ++ byte :: tail := ⟨tail, by simp⟩
    exact absurd (h'.begins.of_prefix hlonger) (h.longest byte _ hrest)

theorem LongestRun.unique {front rest front' rest' : Bytes} (h : LongestRun front rest)
    (h' : LongestRun front' rest') (heq : front ++ rest = front' ++ rest') :
    front = front' ∧ rest = rest' := by
  have hfront : front = front' := by
    have hstarts : front <+: front' ++ rest' := ⟨rest, heq⟩
    rcases List.prefix_or_prefix_of_prefix hstarts (List.prefix_append front' rest') with hle | hle
    · exact h.eq_of_prefix h' heq hle
    · exact (h'.eq_of_prefix h heq.symm hle).symm
  rw [hfront] at heq
  exact ⟨hfront, List.append_cancel_left heq⟩

theorem LongestRun.begins_head {front rest tail : Bytes} {byte : UInt8} (h : LongestRun front rest)
    (heq : front ++ rest = byte :: tail) : Begins [byte] := by
  cases front with
  | nil => exact absurd rfl h.nonempty
  | cons first front =>
    obtain rfl : first = byte := by simpa using congrArg List.head? heq
    exact h.begins.of_prefix ⟨front, rfl⟩

private theorem Repaired.run_inv {front rest : Bytes} {text : List Char}
    (hrun : LongestRun front rest) (h : Repaired (front ++ rest) text) :
    ∃ more, Repaired rest more ∧
      ((∃ c, front = String.utf8EncodeChar c ∧ text = c :: more) ∨
        (∀ c, front ≠ String.utf8EncodeChar c) ∧ text = replacement :: more) := by
  generalize hbytes : front ++ rest = bytes at h
  cases h with
  | nil => simp [hrun.nonempty] at hbytes
  | scalar c repaired =>
    obtain ⟨rfl, rfl⟩ := hrun.unique (longestRun_utf8EncodeChar c _) hbytes
    exact ⟨_, repaired, .inl ⟨c, rfl, rfl⟩⟩
  | broken run incomplete repaired =>
    obtain ⟨rfl, rfl⟩ := hrun.unique run hbytes
    exact ⟨_, repaired, .inr ⟨incomplete, rfl⟩⟩
  | stray begins repaired => exact absurd (hrun.begins_head hbytes) begins

private theorem Repaired.stray_inv {byte : UInt8} {rest : Bytes} {text : List Char}
    (hbyte : ¬ Begins [byte]) (h : Repaired (byte :: rest) text) :
    ∃ more, Repaired rest more ∧ text = replacement :: more := by
  generalize hbytes : byte :: rest = bytes at h
  cases h with
  | nil => cases hbytes
  | scalar c repaired =>
    exact absurd ((longestRun_utf8EncodeChar c _).begins_head hbytes.symm) hbyte
  | broken run incomplete repaired => exact absurd (run.begins_head hbytes.symm) hbyte
  | stray begins repaired =>
    cases hbytes
    exact ⟨_, repaired, rfl⟩

theorem Repaired.unique {bytes : Bytes} {text other : List Char} (h : Repaired bytes text)
    (h' : Repaired bytes other) : text = other := by
  induction h generalizing other with
  | nil =>
    generalize hbytes : ([] : Bytes) = bytes at h'
    cases h' with
    | nil => rfl
    | scalar c repaired => simp at hbytes
    | broken run incomplete repaired => simp [run.nonempty] at hbytes
    | stray begins repaired => cases hbytes
  | scalar c repaired ih =>
    obtain ⟨more, hmore, hcase⟩ := h'.run_inv (longestRun_utf8EncodeChar c _)
    rcases hcase with ⟨d, hd, rfl⟩ | ⟨hincomplete, -⟩
    · have hstarts : String.utf8EncodeChar c <+: String.utf8EncodeChar d := ⟨[], by simp [hd]⟩
      rw [eq_of_utf8EncodeChar_starts hstarts, ih hmore]
    · exact absurd rfl (hincomplete c)
  | broken run incomplete repaired ih =>
    obtain ⟨more, hmore, hcase⟩ := h'.run_inv run
    rcases hcase with ⟨d, hd, -⟩ | ⟨-, rfl⟩
    · exact absurd hd (incomplete d)
    · rw [ih hmore]
  | stray begins repaired ih =>
    obtain ⟨more, hmore, rfl⟩ := h'.stray_inv begins
    rw [ih hmore]

/-- Repairing gives the one text with a replacement character for each ill-formed part. -/
theorem repaired_iff {bytes : Bytes} {text : List Char} :
    Repaired bytes text ↔ decodeLossy bytes = String.ofList text := by
  have hlossy := repaired_decodeLossy bytes
  constructor
  · intro h
    rw [h.unique hlossy, String.ofList_toList]
  · intro h
    rwa [h, String.toList_ofList] at hlossy

end ClarityWire.Utf8
