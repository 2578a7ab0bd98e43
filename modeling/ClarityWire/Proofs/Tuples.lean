import ClarityWire.Proofs.Signatures
import ClarityWire.Proofs.Spelling

/-!
# Tuples from entries in any order

The fields of a tuple are its entries in ascending order, whatever order these come in, and each is
found by the text of its name. Entries that repeat a name make no tuple, and the first name that is
repeated is reported. Entries in another order make a tuple that no observer tells from the first.
-/

namespace ClarityWire

namespace Fields

variable {α : Type} {fields : Fields α}

/-! ## The name that is reported -/

theorem repeatedFrom?_append (seen before after : List ClarityName) :
    repeatedFrom? seen (before ++ after) =
      (repeatedFrom? seen before).or (repeatedFrom? (before.reverse ++ seen) after) := by
  induction before generalizing seen with
  | nil => simp [repeatedFrom?]
  | cons name rest ih =>
    rw [List.cons_append, repeatedFrom?, repeatedFrom?]
    by_cases h : name ∈ seen <;> simp [h, ih]

/-- In front of the name that is found no other is found. -/
theorem exists_split_of_repeatedFrom? {seen names : List ClarityName} {name : ClarityName}
    (h : repeatedFrom? seen names = some name) : ∃ before after, names = before ++ name :: after ∧
      repeatedFrom? seen before = none ∧ name ∈ before.reverse ++ seen := by
  induction names generalizing seen with
  | nil => cases h
  | cons first rest ih =>
    rw [repeatedFrom?] at h
    by_cases hfirst : first ∈ seen
    · rw [if_pos hfirst] at h
      cases h
      exact ⟨[], rest, rfl, rfl, hfirst⟩
    · rw [if_neg hfirst] at h
      obtain ⟨before, after, hsplit, hnone, hname⟩ := ih h
      refine ⟨first :: before, after, by simp [hsplit], ?_, by simpa using hname⟩
      rw [repeatedFrom?, if_neg hfirst, hnone]

theorem repeated?_eq_some_iff {names : List ClarityName} {name : ClarityName} :
    repeated? names = some name ↔
      ∃ before after, names = before ++ name :: after ∧ name ∈ before ∧ before.Nodup := by
  constructor
  · intro h
    obtain ⟨before, after, hsplit, hnone, hname⟩ := exists_split_of_repeatedFrom? h
    exact ⟨before, after, hsplit, by simpa using hname, (repeated?_eq_none_iff before).mp hnone⟩
  · rintro ⟨before, after, rfl, hname, hnodup⟩
    have hnone : repeatedFrom? [] before = none := (repeated?_eq_none_iff before).mpr hnodup
    rw [repeated?, repeatedFrom?_append, hnone, Option.none_or, repeatedFrom?, if_pos (by simpa)]

theorem ofList_eq_ok_iff {entries : List (ClarityName × α)} :
    ofList entries = .ok fields ↔ (entries.map (·.1)).Nodup ∧ fields = sort entries := by
  rw [ofList_eq, ← repeated?_eq_none_iff]
  cases repeated? (entries.map (·.1)) with
  | none => simp [eq_comm]
  | some name => simp

theorem ofList_eq_error_iff {entries : List (ClarityName × α)} {name : ClarityName} :
    ofList entries = .error name ↔ ∃ before value after,
      entries = before ++ (name, value) :: after ∧
        name ∈ before.map (·.1) ∧ (before.map (·.1)).Nodup := by
  have hreport : ofList entries = .error name ↔ repeated? (entries.map (·.1)) = some name := by
    rw [ofList_eq]
    cases repeated? (entries.map (·.1)) <;> simp
  rw [hreport, repeated?_eq_some_iff]
  constructor
  · intro ⟨names, rest, hsplit, hname, hnodup⟩
    obtain ⟨before, after, rfl, rfl, hafter⟩ := List.map_eq_append_iff.mp hsplit
    obtain ⟨entry, after, rfl, rfl, -⟩ := List.map_eq_cons_iff.mp hafter
    exact ⟨before, entry.2, after, rfl, hname, hnodup⟩
  · intro ⟨before, value, after, hsplit, hname, hnodup⟩
    exact ⟨before.map (·.1), after.map (·.1), by simp [hsplit], hname, hnodup⟩

/-! ## Finding a field -/

/-- Goes through fields in ascending order, up to the first whose name is not below the target. -/
def search? (target : Bytes) : Fields α → Option α
  | [] => none
  | (name, value) :: rest =>
    match Bytes.compare target name.bytes with
    | .lt => none
    | .eq => some value
    | .gt => search? target rest

instance : Std.TransCmp Bytes.compare :=
  inferInstanceAs (Std.TransOrd (List UInt8))

instance : Std.LawfulEqCmp Bytes.compare :=
  inferInstanceAs (Std.LawfulEqOrd (List UInt8))

theorem get?_cons (name : ClarityName) (value : α) (rest : Fields α) (text : String) :
    get? ((name, value) :: rest) text =
      if name.text = text then some value else rest.get? text := by
  by_cases h : name.text = text <;> simp [get?, h]

theorem get?_eq_lookup (fields : Fields α) (text : String) :
    fields.get? text = (byText id fields).lookup text := by
  induction fields with
  | nil => rfl
  | cons field rest ih =>
    obtain ⟨name, value⟩ := field
    rw [get?_cons]
    by_cases h : name.text = text
    · rw [if_pos h, ← h, lookup_byText_cons_self, id]
    · rw [if_neg h, ih, lookup_byText_cons_of_ne (Ne.symm h)]

theorem get?_text (h : Ascending fields) : ∀ field ∈ fields,
    fields.get? field.1.text = some field.2 := by
  intro field hfield
  rw [get?_eq_lookup, lookup_byText h field hfield, id]

theorem get?_eq_none_iff {text : String} :
    fields.get? text = none ↔ ∀ field ∈ fields, field.1.text ≠ text := by
  simp [get?]

private theorem compare_text_ne {name : ClarityName} {text : String}
    (h : Bytes.compare (Utf8.ofString text) name.bytes ≠ .eq) : name.text ≠ text := by
  rintro rfl
  exact h Std.ReflCmp.compare_self

/-- Going through the names in their order finds what going through all of them finds. -/
theorem search?_eq_get? (h : Ascending fields) (text : String) :
    search? (Utf8.ofString text) fields = fields.get? text := by
  induction fields with
  | nil => rfl
  | cons field rest ih =>
    obtain ⟨name, value⟩ := field
    obtain ⟨hfirst, hrest⟩ := List.pairwise_cons.mp h
    rw [search?]
    cases hcmp : Bytes.compare (Utf8.ofString text) name.bytes with
    | lt =>
      -- the names that follow are greater still
      symm
      rw [get?_eq_none_iff]
      intro other hother
      apply compare_text_ne
      rcases List.mem_cons.mp hother with rfl | hother
      · simp [hcmp]
      · have hlt : Bytes.compare (Utf8.ofString text) other.1.bytes = .lt :=
          Std.TransCmp.lt_trans hcmp (hfirst other hother)
        simp [hlt]
    | eq =>
      have hbytes : Utf8.ofString text = name.bytes := Std.LawfulEqCmp.eq_of_compare hcmp
      have htext : name.text = text := String.toList_inj.mp (Utf8.encode_injective hbytes.symm)
      rw [get?_cons, if_pos htext]
    | gt => rw [get?_cons, if_neg (compare_text_ne (by simp [hcmp])), ih hrest]

/-! ## The fields of a tuple -/

/-- The fields are the entries in ascending order, found by their texts and by no others. -/
structure Collects (entries : List (ClarityName × α)) (fields : Fields α) : Prop where
  perm : fields.Perm entries
  ascending : Ascending fields
  length_eq : fields.length = entries.length
  get?_text : ∀ entry ∈ entries, fields.get? entry.1.text = some entry.2
  get?_other : ∀ text, (∀ entry ∈ entries, entry.1.text ≠ text) → fields.get? text = none
  search?_eq : ∀ text, search? (Utf8.ofString text) fields = fields.get? text

theorem collects_sort {entries : List (ClarityName × α)} (h : (entries.map (·.1)).Nodup) :
    Collects entries (sort entries) where
  perm := sort_perm entries
  ascending := sort_ascending h
  length_eq := (sort_perm entries).length_eq
  get?_text entry hentry := by
    exact get?_text (sort_ascending h) entry ((sort_perm entries).mem_iff.mpr hentry)
  get?_other text htext := by
    rw [get?_eq_none_iff]
    intro field hfield
    exact htext field ((sort_perm entries).mem_iff.mp hfield)
  search?_eq := search?_eq_get? (sort_ascending h)

/-! ## Entries in another order -/

/-- The entries with no ranges in their values. -/
def erased (entries : List (ClarityName × ClarityValue)) : List (ClarityName × Value) :=
  entries.map fun entry => (entry.1, entry.2.value.erase)

theorem map_fst_erased (entries : List (ClarityName × ClarityValue)) :
    (erased entries).map (·.1) = entries.map (·.1) := by
  simp [erased]

private theorem erase_tuple (fields : Fields ClarityValue) :
    (Value.tuple fields).erase =
      .tuple ((erased fields).map fun field => (field.1, .bare field.2)) := by
  rw [Value.erase, Value.rebuild_tuple, erased, List.map_map]
  rfl

theorem erase_tuple_sort {entries others : List (ClarityName × ClarityValue)}
    (h : (entries.map (·.1)).Nodup) (hperm : (erased entries).Perm (erased others)) :
    (Value.tuple (sort entries)).erase = (Value.tuple (sort others)).erase := by
  have hsort (entries : List (ClarityName × ClarityValue)) :
      erased (sort entries) = sort (erased entries) :=
    (sort_map (fun node : ClarityValue => node.value.erase) entries).symm
  rw [erase_tuple, erase_tuple, hsort, hsort, sort_eq_of_perm hperm (by rwa [map_fst_erased])]

end Fields

namespace Value

/-- Values that are equal up to ranges look the same to every observer. -/
theorem observers_of_erase_eq {value other : Value} (h : value.erase = other.erase) :
    value.same other ∧ value.render = other.render ∧ value.signature = other.signature ∧
      value.toBytes = other.toBytes := by
  refine ⟨(same_iff value other).mpr h, ?_, ?_, ?_⟩
  · rw [render, render, ← renderLimited_erase value, h, renderLimited_erase]
  · rw [← signature_erase value, h, signature_erase]
  · rw [← toBytes_erase value, h, toBytes_erase]

end Value

namespace Fields

/-- **Tuples are built from entries in any order.** Entries make a tuple exactly if no name occurs
twice, and its fields are the entries in ascending order, found by their texts. Otherwise the
earliest entry whose name already occurred is reported. The entries in another order, and with
other ranges recorded, make an equal tuple with the same text, type signature and bytes. -/
theorem ofList_unordered (entries : List (ClarityName × ClarityValue)) :
    ((∃ fields, ofList entries = .ok fields) ↔ (entries.map (·.1)).Nodup) ∧
      (∀ fields, ofList entries = .ok fields → Collects entries fields) ∧
      (∀ name, ofList entries = .error name ↔ ∃ before value after,
        entries = before ++ (name, value) :: after ∧ name ∈ before.map (·.1) ∧
          (before.map (·.1)).Nodup) ∧
      ∀ others, (entries.map (·.1)).Nodup → (erased entries).Perm (erased others) →
        ∃ fields fields', ofList entries = .ok fields ∧ ofList others = .ok fields' ∧
          Value.same (.tuple fields) (.tuple fields') ∧
          (Value.tuple fields).render = (Value.tuple fields').render ∧
          (Value.tuple fields).signature = (Value.tuple fields').signature ∧
          (Value.tuple fields).toBytes = (Value.tuple fields').toBytes := by
  refine ⟨?_, ?_, ?_, ?_⟩
  · simp [ofList_eq_ok_iff]
  · intro fields hfields
    obtain ⟨hnodup, rfl⟩ := ofList_eq_ok_iff.mp hfields
    exact collects_sort hnodup
  · intro name
    exact ofList_eq_error_iff
  · intro others hnodup hperm
    have hnodup' : (others.map (·.1)).Nodup := by
      rw [← map_fst_erased] at hnodup ⊢
      exact (hperm.map _).nodup_iff.mp hnodup
    exact ⟨sort entries, sort others, ofList_eq_ok_iff.mpr ⟨hnodup, rfl⟩,
      ofList_eq_ok_iff.mpr ⟨hnodup', rfl⟩,
      Value.observers_of_erase_eq (erase_tuple_sort hnodup hperm)⟩

/-- Three entries, not in the order of their names. -/
def zetaAlphaMid : List (ClarityName × ClarityValue) :=
  [(⟨"zeta", by decide⟩, .bare (.int 1)), (⟨"alpha", by decide⟩, ⟨.bool true, some ⟨9, 10⟩⟩),
    (⟨"mid", by decide⟩, .bare (.buffer [0xab]))]

theorem ofList_unordered_zetaAlphaMid :
    (∃ fields, ofList zetaAlphaMid = .ok fields ∧
        fields.get? "mid" = some (.bare (.buffer [0xab])) ∧ fields.get? "not a name" = none) ∧
      ofList (zetaAlphaMid ++ zetaAlphaMid) = .error ⟨"zeta", by decide⟩ ∧
      ∃ fields fields', ofList zetaAlphaMid = .ok fields ∧
        ofList zetaAlphaMid.reverse = .ok fields' ∧
        (Value.tuple fields).render = (Value.tuple fields').render := by
  have hbuilt := ofList_unordered zetaAlphaMid
  refine ⟨?_, ?_, ?_⟩
  · obtain ⟨fields, hfields⟩ := hbuilt.1.mpr (by decide)
    have hcollects := hbuilt.2.1 fields hfields
    exact ⟨fields, hfields,
      hcollects.get?_text (⟨"mid", by decide⟩, .bare (.buffer [0xab])) (by simp [zetaAlphaMid]),
      hcollects.get?_other "not a name" (by simp [zetaAlphaMid])⟩
  · rw [(ofList_unordered (zetaAlphaMid ++ zetaAlphaMid)).2.2.1]
    exact ⟨zetaAlphaMid, .bare (.int 1), zetaAlphaMid.drop 1, rfl, by decide, by decide⟩
  · have hperm : (erased zetaAlphaMid).Perm (erased zetaAlphaMid.reverse) :=
      (List.reverse_perm zetaAlphaMid).symm.map _
    obtain ⟨fields, fields', hfields, hfields', -, hrender, -⟩ :=
      hbuilt.2.2.2 zetaAlphaMid.reverse (by decide) hperm
    exact ⟨fields, fields', hfields, hfields', hrender⟩

end Fields

end ClarityWire
