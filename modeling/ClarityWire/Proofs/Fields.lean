import ClarityWire.Proofs.Names
import ClarityWire.Value.Fields

/-!
# Sorting fields by name

Building a tuple from named entries succeeds exactly when no name occurs twice, and the fields are
then the entries in strictly ascending order of names. Otherwise the name that is reported is that
of the earliest entry whose name already occurred.
-/

namespace ClarityWire.Fields

variable {α β : Type}

/-- Strictly ascending order of names. -/
def Ascending (fields : List (ClarityName × α)) : Prop :=
  fields.Pairwise fun a b => compare a.1 b.1 = .lt

instance (fields : List (ClarityName × α)) : Decidable (Ascending fields) :=
  inferInstanceAs (Decidable (fields.Pairwise _))

/-- The first of some names that is among those seen before it or at the start. -/
def repeatedFrom? (seen : List ClarityName) : List ClarityName → Option ClarityName
  | [] => none
  | name :: rest => if name ∈ seen then some name else repeatedFrom? (name :: seen) rest

/-- The first name that occurs again. -/
def repeated? (names : List ClarityName) : Option ClarityName :=
  repeatedFrom? [] names

/-- The entries in ascending order of names. -/
def sort (entries : List (ClarityName × α)) : Fields α :=
  entries.mergeSort fun a b => (compare a.1 b.1).isLE

private theorem lt_trans {a b c : ClarityName} (hab : compare a b = .lt) (hbc : compare b c = .lt) :
    compare a c = .lt :=
  Std.TransCmp.lt_trans hab hbc

private theorem lt_irrefl (a : ClarityName) : compare a a ≠ .lt := by
  have hself : compare a a = .eq := Std.ReflCmp.compare_self
  rw [hself]
  decide

/-! ## Names that occur again -/

theorem repeatedFrom?_eq_none_iff (seen names : List ClarityName) :
    repeatedFrom? seen names = none ↔ names.Nodup ∧ ∀ name ∈ names, name ∉ seen := by
  induction names generalizing seen with
  | nil => simp [repeatedFrom?]
  | cons name rest ih =>
    rw [repeatedFrom?]
    by_cases h : name ∈ seen
    · simp [h]
    · rw [if_neg h, ih, List.nodup_cons]
      constructor
      · intro ⟨hnodup, hfresh⟩
        refine ⟨⟨fun hmem => hfresh name hmem (List.mem_cons_self ..), hnodup⟩, ?_⟩
        intro other hother
        rcases List.mem_cons.mp hother with rfl | hother
        · exact h
        · exact fun hseen => hfresh other hother (List.mem_cons_of_mem _ hseen)
      · intro ⟨⟨hname, hnodup⟩, hfresh⟩
        refine ⟨hnodup, fun other hother hseen => ?_⟩
        rcases List.mem_cons.mp hseen with rfl | hseen
        · exact hname hother
        · exact hfresh other (List.mem_cons_of_mem _ hother) hseen

theorem repeated?_eq_none_iff (names : List ClarityName) :
    repeated? names = none ↔ names.Nodup := by
  rw [repeated?, repeatedFrom?_eq_none_iff]
  simp

private theorem repeatedFrom?_congr {seen other : List ClarityName}
    (h : ∀ name, name ∈ seen ↔ name ∈ other) (names : List ClarityName) :
    repeatedFrom? seen names = repeatedFrom? other names := by
  induction names generalizing seen other with
  | nil => rfl
  | cons name rest ih =>
    rw [repeatedFrom?, repeatedFrom?]
    have hcons : ∀ n, n ∈ name :: seen ↔ n ∈ name :: other := by
      intro n
      rw [List.mem_cons, List.mem_cons, h n]
    rw [ih hcons]
    by_cases hname : name ∈ seen
    · rw [if_pos hname, if_pos ((h name).mp hname)]
    · rw [if_neg hname, if_neg (fun hmem => hname ((h name).mpr hmem))]

/-! ## Ascending entries -/

/-- Only the names count for the order. -/
theorem ascending_iff_names {fields : List (ClarityName × α)} :
    Ascending fields ↔ (fields.map (·.1)).Pairwise fun a b => compare a b = .lt := by
  rw [Ascending, List.pairwise_map]

theorem Ascending.nodup {fields : List (ClarityName × α)} (h : Ascending fields) :
    (fields.map (·.1)).Nodup := by
  rw [List.Nodup, List.pairwise_map]
  refine h.imp ?_
  intro a b hlt heq
  rw [heq] at hlt
  exact lt_irrefl _ hlt

theorem eq_of_perm_of_ascending {fields other : List (ClarityName × α)} (h : fields.Perm other)
    (hf : Ascending fields) (ho : Ascending other) : fields = other := by
  refine h.eq_of_pairwise ?_ hf ho
  intro a b _ _ hab hba
  exact absurd (lt_trans hab hba) (lt_irrefl _)

theorem sort_perm (entries : List (ClarityName × α)) : (sort entries).Perm entries :=
  List.mergeSort_perm _ _

theorem sort_ascending {entries : List (ClarityName × α)} (h : (entries.map (·.1)).Nodup) :
    Ascending (sort entries) := by
  have hsorted : (sort entries).Pairwise fun a b => (compare a.1 b.1).isLE := by
    apply List.pairwise_mergeSort
    · intro a b c hab hbc
      exact Std.TransCmp.isLE_trans hab hbc
    · intro a b
      have hswap : compare b.1 a.1 = (compare a.1 b.1).swap := Std.OrientedCmp.eq_swap
      rw [hswap]
      cases compare a.1 b.1 <;> rfl
  have hnodup : (sort entries).Pairwise fun a b => a.1 ≠ b.1 := by
    have hperm := (sort_perm entries).map (·.1)
    exact List.pairwise_map.mp (hperm.nodup_iff.mpr h)
  refine (hsorted.and hnodup).imp ?_
  intro a b ⟨hle, hne⟩
  cases hcmp : compare a.1 b.1 with
  | lt => rfl
  | eq => exact absurd (Std.LawfulEqCmp.eq_of_compare hcmp) hne
  | gt => rw [hcmp] at hle; cases hle

theorem sort_eq_iff {entries fields : List (ClarityName × α)} (h : (entries.map (·.1)).Nodup) :
    sort entries = fields ↔ fields.Perm entries ∧ Ascending fields := by
  constructor
  · rintro rfl
    exact ⟨sort_perm entries, sort_ascending h⟩
  · intro ⟨hperm, hasc⟩
    exact eq_of_perm_of_ascending ((sort_perm entries).trans hperm.symm) (sort_ascending h) hasc

/-- The order in which distinct names come does not matter once they are sorted. -/
theorem sort_eq_of_perm {entries others : List (ClarityName × α)} (h : entries.Perm others)
    (hnames : (entries.map (·.1)).Nodup) : sort entries = sort others := by
  have hnames' : (others.map (·.1)).Nodup := (h.map _).nodup_iff.mp hnames
  apply (sort_eq_iff hnames).mpr
  exact ⟨(sort_perm others).trans h.symm, sort_ascending hnames'⟩

theorem sort_of_ascending {fields : List (ClarityName × α)} (h : Ascending fields) :
    sort fields = fields :=
  (sort_eq_iff h.nodup).mpr ⟨.refl _, h⟩

theorem sort_map (f : α → β) (entries : List (ClarityName × α)) :
    sort (entries.map fun entry => (entry.1, f entry.2)) =
      (sort entries).map fun entry => (entry.1, f entry.2) := by
  symm
  apply List.map_mergeSort
  intros
  rfl

theorem map_eq_self_iff {β : Type} {f : β → β} {items : List β} :
    items.map f = items ↔ ∀ item ∈ items, f item = item := by
  have hmap := List.map_inj_left (f := f) (g := id) (l := items)
  rw [List.map_id] at hmap
  exact hmap

/-- Changing the values of entries and sorting them changes nothing exactly if no value changes and
the entries are sorted. -/
theorem sort_map_eq_self_iff {f : α → α} {entries : List (ClarityName × α)}
    (h : (entries.map (·.1)).Nodup) :
    sort (entries.map fun entry => (entry.1, f entry.2)) = entries ↔
      Ascending entries ∧ ∀ entry ∈ entries, f entry.2 = entry.2 := by
  have hvalues : entries.map (fun entry => (entry.1, f entry.2)) = entries ↔
      ∀ entry ∈ entries, f entry.2 = entry.2 := by
    rw [map_eq_self_iff]
    apply forall₂_congr
    intro entry _
    rw [Prod.ext_iff]
    exact and_iff_right rfl
  rw [sort_map]
  constructor
  · intro heq
    -- sorting keeps the names, so the names were ascending before
    have hnames : (sort entries).map (·.1) = entries.map (·.1) := by
      have hmap := congrArg (List.map Prod.fst) heq
      rw [List.map_map] at hmap
      exact hmap
    have hasc : Ascending entries := by
      rw [ascending_iff_names, ← hnames, ← ascending_iff_names]
      exact sort_ascending h
    rw [sort_of_ascending hasc] at heq
    exact ⟨hasc, hvalues.mp heq⟩
  · intro ⟨hasc, hkept⟩
    rw [sort_of_ascending hasc]
    exact hvalues.mpr hkept

/-! ## Inserting one after another -/

/-- Inserting finds the name taken, or puts the field in its place. -/
theorem insert?_cases {fields : Fields α} (h : Ascending fields) (name : ClarityName) (value : α) :
    (name ∈ fields.map (·.1) ∧ insert? name value fields = none) ∨
      (name ∉ fields.map (·.1) ∧ ∃ result, insert? name value fields = some result ∧
        Ascending result ∧ result.Perm ((name, value) :: fields)) := by
  induction fields with
  | nil => exact .inr ⟨by simp, _, rfl, List.pairwise_singleton .., .refl _⟩
  | cons field rest ih =>
    obtain ⟨key, held⟩ := field
    obtain ⟨hkey, hrest⟩ := List.pairwise_cons.mp h
    rw [insert?]
    cases hcmp : compare name key with
    | lt =>
      have hbefore : ∀ other ∈ (key, held) :: rest, compare name other.1 = .lt := by
        intro other hother
        rcases List.mem_cons.mp hother with rfl | hother
        · exact hcmp
        · exact lt_trans hcmp (hkey other hother)
      refine .inr ⟨?_, _, rfl, List.pairwise_cons.mpr ⟨hbefore, h⟩, .refl _⟩
      intro hmem
      obtain ⟨other, hother, rfl⟩ := List.mem_map.mp hmem
      exact lt_irrefl _ (hbefore other hother)
    | eq =>
      have hname := Std.LawfulEqCmp.eq_of_compare hcmp
      exact .inl ⟨by simp [hname], rfl⟩
    | gt =>
      have hbefore : compare key name = .lt := Std.OrientedCmp.lt_of_gt hcmp
      have hne : name ≠ key := by
        rintro rfl
        exact lt_irrefl _ hbefore
      rcases ih hrest with ⟨hmem, hnone⟩ | ⟨hmem, result, hsome, hasc, hperm⟩
      · exact .inl ⟨List.mem_cons_of_mem _ hmem, by simp only [hnone, Option.map_none]⟩
      · refine .inr ⟨?_, (key, held) :: result, by simp only [hsome, Option.map_some],
          List.pairwise_cons.mpr ⟨?_, hasc⟩, (hperm.cons _).trans (.swap ..)⟩
        · rw [List.map_cons, List.mem_cons, not_or]
          exact ⟨hne, hmem⟩
        · intro other hother
          rcases List.mem_cons.mp (hperm.mem_iff.mp hother) with rfl | hother
          · exact hbefore
          · exact hkey other hother

private theorem insertAll_cases (entries : List (ClarityName × α)) {fields : Fields α}
    (h : Ascending fields) :
    match repeatedFrom? (fields.map (·.1)) (entries.map (·.1)) with
    | some name => insertAll fields entries = .error name
    | none => ∃ result, insertAll fields entries = .ok result ∧ Ascending result ∧
        result.Perm (fields ++ entries) := by
  induction entries generalizing fields with
  | nil => exact ⟨fields, rfl, h, by rw [List.append_nil]⟩
  | cons entry rest ih =>
    obtain ⟨name, value⟩ := entry
    rw [List.map_cons, repeatedFrom?, insertAll]
    rcases insert?_cases h name value with ⟨hmem, hnone⟩ | ⟨hmem, result, hsome, hasc, hperm⟩
    · rw [if_pos hmem, hnone]
    · have hseen := repeatedFrom?_congr (fun n => (hperm.map (·.1)).mem_iff (a := n))
        (rest.map (·.1))
      have hrun := ih hasc
      rw [hseen] at hrun
      rw [if_neg hmem, hsome]
      simp only [List.map_cons] at hrun
      cases hrep : repeatedFrom? (name :: fields.map (·.1)) (rest.map (·.1)) with
      | some again =>
        rw [hrep] at hrun
        exact hrun
      | none =>
        rw [hrep] at hrun
        obtain ⟨last, hlast, hlastAsc, hlastPerm⟩ := hrun
        refine ⟨last, hlast, hlastAsc, hlastPerm.trans ?_⟩
        exact (hperm.append_right rest).trans List.perm_middle.symm

/-- Entries whose names are distinct are sorted; else the first name that occurs again is found. -/
theorem ofList_eq (entries : List (ClarityName × α)) :
    ofList entries =
      match repeated? (entries.map (·.1)) with
      | some name => .error name
      | none => .ok (sort entries) := by
  have h := insertAll_cases entries (List.Pairwise.nil : Ascending ([] : Fields α))
  rw [ofList, repeated?]
  simp only [List.map_nil, List.nil_append] at h
  cases hrep : repeatedFrom? [] (entries.map (·.1)) with
  | some name =>
    rw [hrep] at h
    exact h
  | none =>
    rw [hrep] at h
    obtain ⟨result, hresult, hasc, hperm⟩ := h
    have hnodup := (repeated?_eq_none_iff _).mp hrep
    rw [hresult, (sort_eq_iff hnodup).mpr ⟨hperm, hasc⟩]

/-! ## Fields as a map from texts -/

/-- What the fields hold, by the texts of their names. -/
def byText (f : α → β) (fields : Fields α) : List (String × β) :=
  fields.map fun field => (field.1.text, f field.2)

variable {f : α → β} {fields others : Fields α}

theorem map_fst_byText : (byText f fields).map (·.1) = fields.map (·.1.text) :=
  List.map_map

theorem nodup_texts (h : Ascending fields) : (fields.map (·.1.text)).Nodup := by
  have hnames := h.nodup
  rw [List.Nodup, List.pairwise_map] at hnames ⊢
  refine hnames.imp ?_
  intro field other hne htext
  exact hne (Name.eq_of_text htext)

theorem exists_of_lookup_byText {text : String} {value : β}
    (h : (byText f fields).lookup text = some value) : ∃ field ∈ fields, field.1.text = text := by
  obtain ⟨before, after, hsplit, -⟩ := List.lookup_eq_some_iff.mp h
  have hmem : (text, value) ∈ byText f fields := by rw [hsplit]; simp
  obtain ⟨field, hfield, heq⟩ := List.mem_map.mp hmem
  exact ⟨field, hfield, (Prod.mk.inj heq).1⟩

theorem lookup_byText_cons_self (name : ClarityName) (value : α) (rest : Fields α) :
    (byText f ((name, value) :: rest)).lookup name.text = some (f value) := by
  rw [byText, List.map_cons, List.lookup_cons_self]

theorem lookup_byText_cons_of_ne {name : ClarityName} {text : String} (h : text ≠ name.text)
    (value : α) (rest : Fields α) :
    (byText f ((name, value) :: rest)).lookup text = (byText f rest).lookup text := by
  rw [byText, List.map_cons, List.lookup_cons, beq_eq_false_iff_ne.mpr h]
  rfl

private theorem lookup_byText_first {name : ClarityName} {value : α}
    (h : Ascending ((name, value) :: fields)) : (byText f fields).lookup name.text = none := by
  cases hlookup : (byText f fields).lookup name.text with
  | none => rfl
  | some held =>
    obtain ⟨field, hfield, htext⟩ := exists_of_lookup_byText hlookup
    have hlt := (List.pairwise_cons.mp h).1 field hfield
    rw [Name.eq_of_text htext] at hlt
    exact absurd hlt (lt_irrefl name)

/-- Every field is found by the text of its name. -/
theorem lookup_byText (h : Ascending fields) : ∀ field ∈ fields,
    (byText f fields).lookup field.1.text = some (f field.2) := by
  induction fields with
  | nil => exact List.forall_mem_nil _
  | cons first rest ih =>
    intro field hfield
    rcases List.mem_cons.mp hfield with rfl | hrest
    · exact lookup_byText_cons_self field.1 field.2 rest
    · have hlt := (List.pairwise_cons.mp h).1 field hrest
      have hne : field.1.text ≠ first.1.text := by
        intro htext
        rw [Name.eq_of_text htext] at hlt
        exact lt_irrefl _ hlt
      rw [lookup_byText_cons_of_ne hne]
      exact ih (List.pairwise_cons.mp h).2 field hrest

private theorem eq_or_lt_of_lookup {name first : ClarityName} {value : α} {held : β}
    (h : Ascending ((first, value) :: fields))
    (hlookup : (byText f ((first, value) :: fields)).lookup name.text = some held) :
    first = name ∨ compare first name = .lt := by
  obtain ⟨field, hfield, htext⟩ := exists_of_lookup_byText hlookup
  rw [← Name.eq_of_text htext]
  rcases List.mem_cons.mp hfield with rfl | hrest
  · exact .inl rfl
  · exact .inr ((List.pairwise_cons.mp h).1 field hrest)

private theorem first_name_eq {R : β → β → Prop} {name name' : ClarityName} {value value' : α}
    (hfields : Ascending ((name, value) :: fields))
    (hothers : Ascending ((name', value') :: others))
    (h : ∀ text, Option.Rel R ((byText f ((name, value) :: fields)).lookup text)
      ((byText f ((name', value') :: others)).lookup text)) : name = name' := by
  have hfirst := h name.text
  have hfirst' := h name'.text
  rw [lookup_byText_cons_self] at hfirst hfirst'
  cases hlookup : (byText f ((name', value') :: others)).lookup name.text with
  | none => rw [hlookup] at hfirst; cases hfirst
  | some held =>
    cases hlookup' : (byText f ((name, value) :: fields)).lookup name'.text with
    | none => rw [hlookup'] at hfirst'; cases hfirst'
    | some held' =>
      rcases eq_or_lt_of_lookup hothers hlookup with heq | hlt
      · exact heq.symm
      rcases eq_or_lt_of_lookup hfields hlookup' with heq | hlt'
      · exact heq
      exact absurd (lt_trans hlt hlt') (lt_irrefl name')

/-- Ascending fields that are related as maps are related one by one. -/
theorem forall₂_of_lookup_byText {R : β → β → Prop} (hfields : Ascending fields)
    (hothers : Ascending others)
    (h : ∀ text, Option.Rel R ((byText f fields).lookup text) ((byText f others).lookup text)) :
    List.Forall₂ (fun field other => field.1 = other.1 ∧ R (f field.2) (f other.2))
      fields others := by
  induction fields generalizing others with
  | nil =>
    cases others with
    | nil => exact .nil
    | cons other others =>
      have hother := h other.1.text
      rw [lookup_byText_cons_self other.1 other.2] at hother
      cases hother
  | cons field fields ih =>
    obtain ⟨name, value⟩ := field
    have hfirst := h name.text
    rw [lookup_byText_cons_self] at hfirst
    cases others with
    | nil => cases hfirst
    | cons other others =>
      obtain ⟨name', value'⟩ := other
      obtain rfl := first_name_eq hfields hothers h
      rw [lookup_byText_cons_self] at hfirst
      cases hfirst with
      | some hvalues =>
        refine .cons ⟨rfl, hvalues⟩ (ih (List.pairwise_cons.mp hfields).2
          (List.pairwise_cons.mp hothers).2 ?_)
        intro text
        by_cases htext : text = name.text
        · rw [htext, lookup_byText_first hfields, lookup_byText_first hothers]
          exact .none
        · have hrest := h text
          rwa [lookup_byText_cons_of_ne htext, lookup_byText_cons_of_ne htext] at hrest

end ClarityWire.Fields
