import Mathlib.Data.List.Forall2
import ClarityWire.Proofs.Hexadecimal
import ClarityWire.Proofs.RoundTrip
import ClarityWire.Proofs.Words
import ClarityWire.Value.Summary

/-!
# What summaries tell

A deep summary tells its value even without the members that repeat it as a whole: the text, the
bytes and the text of an address. Objects are compared as maps, so the order of members says
nothing.
-/

namespace ClarityWire

namespace Json

/-- Equality of JSON values, with objects taken as maps. -/
inductive Agrees : Json → Json → Prop
  | null : Agrees .null .null
  | bool (value : Bool) : Agrees (.bool value) (.bool value)
  | number (value : Int) : Agrees (.number value) (.number value)
  | string (text : String) : Agrees (.string text) (.string text)
  | array {items others : List Json} (h : List.Forall₂ Agrees items others) :
    Agrees (.array items) (.array others)
  | object {members others : List (String × Json)}
    (h : ∀ name, Option.Rel Agrees (members.lookup name) (others.lookup name)) :
    Agrees (.object members) (.object others)

mutual

theorem Agrees.refl : (json : Json) → Agrees json json
  | .null => .null
  | .bool value => .bool value
  | .number value => .number value
  | .string text => .string text
  | .array items => .array (agrees_items items)
  | .object members => .object (agrees_lookup members)

private theorem agrees_items : (items : List Json) → List.Forall₂ Agrees items items
  | [] => .nil
  | item :: rest => .cons (Agrees.refl item) (agrees_items rest)

private theorem agrees_lookup : (members : List (String × Json)) → (name : String) →
    Option.Rel Agrees (members.lookup name) (members.lookup name)
  | [], _ => .none
  | (key, json) :: rest, name => by
    rw [List.lookup_cons]
    split
    · exact .some (Agrees.refl json)
    · exact agrees_lookup rest name

end

theorem Agrees.number_eq {a b : Int} (h : Agrees (.number a) (.number b)) : a = b := by
  cases h
  rfl

theorem Agrees.string_eq {a b : String} (h : Agrees (.string a) (.string b)) : a = b := by
  cases h
  rfl

theorem Agrees.forall₂ {items others : List Json} (h : Agrees (.array items) (.array others)) :
    List.Forall₂ Agrees items others := by
  cases h with
  | array h => exact h

theorem Agrees.lookup {members others : List (String × Json)}
    (h : Agrees (.object members) (.object others)) (name : String) :
    Option.Rel Agrees (members.lookup name) (others.lookup name) := by
  cases h with
  | object h => exact h name

/-! ## Derived members -/

/-- The members of a summary that are left out. -/
def derivedNames : List String :=
  ["repr", "hex", "address"]

mutual

/-- A summary without its derived members, and without those of the summaries in it. -/
def stripped : Json → Json
  | .object members => .object (strippedMembers members)
  | .array items => .array (strippedItems items)
  | json => json

def strippedItems : List Json → List Json
  | [] => []
  | item :: rest => stripped item :: strippedItems rest

/-- The members of a summary that are kept. What a tuple has as data is no summary, but its fields
have summaries. -/
def strippedMembers : List (String × Json) → List (String × Json)
  | [] => []
  | (name, json) :: rest =>
    if name ∈ derivedNames then strippedMembers rest
    else (name, if name = "data" then strippedData json else stripped json) :: strippedMembers rest

def strippedData : Json → Json
  | .object fields => .object (strippedFields fields)
  | json => json

/-- All fields of a tuple, whatever their names. -/
def strippedFields : List (String × Json) → List (String × Json)
  | [] => []
  | (name, json) :: rest => (name, stripped json) :: strippedFields rest

end

theorem strippedItems_eq (items : List Json) : strippedItems items = items.map stripped := by
  induction items with
  | nil => rfl
  | cons item rest ih => rw [strippedItems, ih, List.map_cons]

theorem strippedFields_eq (fields : List (String × Json)) :
    strippedFields fields = fields.map fun field => (field.1, stripped field.2) := by
  induction fields with
  | nil => rfl
  | cons field rest ih => rw [strippedFields, ih, List.map_cons]

end Json

namespace Value

/-! ## Summaries of each type -/

/-- The deep summary of a value without derived members. -/
def outline (value : Value) : Json :=
  (value.summary true).stripped

/-- What an outline has besides the number of the type. -/
def outlineMembers (value : Value) : List (String × Json) :=
  Json.strippedMembers value.contentMembers

theorem outline_eq (value : Value) :
    value.outline =
      .object (("type_id", .number value.typeTag.toByte.toNat) :: value.outlineMembers) := by
  rw [outline, summary, if_pos rfl, Json.stripped, headMembers]
  simp only [List.cons_append, List.nil_append, Json.strippedMembers]
  rfl

theorem contentMembers_wrapped (wrapper : Wrapper) (body : ClarityValue) :
    (wrapper.value body).contentMembers = [("value", body.value.summary true)] := by
  obtain ⟨value, span⟩ := body
  cases wrapper <;> rfl

theorem itemSummaries_eq (items : List ClarityValue) :
    itemSummaries items = items.map fun item => item.value.summary true := by
  induction items with
  | nil => rfl
  | cons item rest ih => rw [itemSummaries, ih, List.map_cons]; rfl

theorem fieldSummaries_eq (fields : Fields ClarityValue) :
    fieldSummaries fields = Fields.byText (fun node => node.value.summary true) fields := by
  induction fields with
  | nil => rfl
  | cons field rest ih => rw [fieldSummaries, ih]; rfl

theorem outlineMembers_wrapped (wrapper : Wrapper) (body : ClarityValue) :
    (wrapper.value body).outlineMembers = [("value", body.value.outline)] := by
  rw [outlineMembers, contentMembers_wrapped]
  rfl

theorem outlineMembers_list (items : List ClarityValue) :
    (Value.list items).outlineMembers =
      [("list", .array (items.map fun item => item.value.outline))] := by
  rw [outlineMembers, contentMembers, itemSummaries_eq]
  simp only [Json.strippedMembers, Json.stripped, Json.strippedItems_eq, List.map_map]
  rfl

theorem outlineMembers_tuple (fields : Fields ClarityValue) :
    (Value.tuple fields).outlineMembers =
      [("data", .object (Fields.byText (fun node => node.value.outline) fields))] := by
  rw [outlineMembers, contentMembers, fieldSummaries_eq]
  simp only [Json.strippedMembers, Json.strippedData, Json.strippedFields_eq, Fields.byText,
    List.map_map]
  rfl

/-! ## What can be told from an outline -/

/-- Whether the texts in a summary, by themselves, tell a string. -/
def Shows : Value → Prop
  | .ascii bytes => Utf8.WellFormed bytes
  | .utf8 groups => ∀ group ∈ groups, ∃ c, String.utf8EncodeChar c = group
  | _ => True

instance : DecidablePred Shows
  | .ascii bytes => inferInstanceAs (Decidable (Utf8.WellFormed bytes))
  | .utf8 _ => decidable_of_iff _ Utf8.scalars_flatten_eq_iff
  | .int _ | .uint _ | .buffer _ | .bool _ | .principal _ | .contract _ | .responseOk _
  | .responseErr _ | .optionalNone | .optionalSome _ | .list _ | .tuple _ => isTrue trivial

/-- Whether every string of single bytes is well-formed UTF-8 and every UTF-8 string is held scalar
by scalar. -/
def Textual (value : Value) : Prop :=
  value.Everywhere Shows

instance (value : Value) : Decidable value.Textual :=
  inferInstanceAs (Decidable (value.Everywhere _))

theorem Textual.child {value : Value} (h : value.Textual) {child : ClarityValue}
    (hchild : child ∈ value.children) : child.value.Textual :=
  (everywhere_iff.mp h).2 child hchild

variable {value other : Value}

private theorem rel_of_agrees (h : Json.Agrees value.outline other.outline) (name : String) :
    Option.Rel Json.Agrees
      ((("type_id", .number value.typeTag.toByte.toNat) :: value.outlineMembers).lookup name)
      ((("type_id", .number other.typeTag.toByte.toNat) :: other.outlineMembers).lookup name) := by
  rw [outline_eq, outline_eq] at h
  exact h.lookup name

theorem sameType_of_agrees (h : Json.Agrees value.outline other.outline) :
    SameType value other := by
  have hrel := rel_of_agrees h "type_id"
  rw [List.lookup_cons_self, List.lookup_cons_self] at hrel
  cases hrel with
  | some hnumbers =>
    have hnat : value.typeTag.toByte.toNat = other.typeTag.toByte.toNat :=
      Int.ofNat.inj hnumbers.number_eq
    exact sameType_of_typeTag (TypeTag.toByte_injective (UInt8.toNat_inj.mp hnat))

/-- Members of one name agree. -/
theorem agrees_of_lookup (name : String) {a b : Json} (h : Json.Agrees value.outline other.outline)
    (hname : name ≠ "type_id") (ha : value.outlineMembers.lookup name = some a)
    (hb : other.outlineMembers.lookup name = some b) : Json.Agrees a b := by
  have hrel := rel_of_agrees h name
  rw [List.lookup_cons, List.lookup_cons, beq_eq_false_iff_ne.mpr hname] at hrel
  simp only [ha, hb] at hrel
  cases hrel with
  | some hagrees => exact hagrees

private theorem string_of_lookup (name : String) {a b : String}
    (h : Json.Agrees value.outline other.outline) (hname : name ≠ "type_id")
    (ha : value.outlineMembers.lookup name = some (.string a))
    (hb : other.outlineMembers.lookup name = some (.string b)) : a = b :=
  (agrees_of_lookup name h hname ha hb).string_eq

private theorem address_of_lookup {a b : StacksAddress}
    (h : Json.Agrees value.outline other.outline)
    (hversion : value.outlineMembers.lookup "address_version" = some (.number a.version.toNat))
    (hversion' : other.outlineMembers.lookup "address_version" = some (.number b.version.toNat))
    (hhash : value.outlineMembers.lookup "address_hash_bytes" =
      some (.string (Hex.encode a.hash.1)))
    (hhash' : other.outlineMembers.lookup "address_hash_bytes" =
      some (.string (Hex.encode b.hash.1))) : a = b := by
  have hnumber := (agrees_of_lookup "address_version" h (by decide) hversion hversion').number_eq
  have htext := string_of_lookup "address_hash_bytes" h (by decide) hhash hhash'
  obtain ⟨version, hash⟩ := a
  obtain ⟨version', hash'⟩ := b
  have hversions : version = version' := UInt8.toNat_inj.mp (Int.ofNat.inj hnumber)
  have hhashes : hash = hash' := Subtype.ext (Hex.encode_injective htext)
  rw [hversions, hhashes]

private theorem eq_of_decodeLossy {bytes bytes' : Bytes} (hbytes : Utf8.WellFormed bytes)
    (hbytes' : Utf8.WellFormed bytes')
    (h : Utf8.decodeLossy bytes = Utf8.decodeLossy bytes') : bytes = bytes' := by
  obtain ⟨text, rfl⟩ := hbytes
  obtain ⟨text', rfl⟩ := hbytes'
  rw [Utf8.decodeLossy_encode, Utf8.decodeLossy_encode] at h
  rw [String.ofList_injective h]

private theorem wellFormed_flatten {groups : List Bytes}
    (h : ∀ group ∈ groups, ∃ c, String.utf8EncodeChar c = group) :
    Utf8.WellFormed groups.flatten := by
  obtain ⟨text, rfl⟩ := Utf8.exists_text_of_groups h
  exact ⟨text, rfl⟩

private theorem eq_of_atom {a : Atom} (htree : value.tree = .atom a) (hvalue : value.Shows)
    (hother : other.Shows) (h : Json.Agrees value.outline other.outline) : value = other := by
  cases sameType_of_agrees h with
  | int bits bits' =>
    have hdecimal := string_of_lookup "value" h (by decide) rfl rfl
    exact congrArg Value.int (BitVec.toInt_inj.mp (Text.eq_of_repr_int hdecimal))
  | uint bits bits' =>
    have hdecimal := string_of_lookup "value" h (by decide) rfl rfl
    exact congrArg Value.uint (BitVec.eq_of_toNat_eq (Text.eq_of_repr hdecimal))
  | buffer bytes bytes' =>
    have hdigits := string_of_lookup "buffer" h (by decide) rfl rfl
    exact congrArg Value.buffer (Hex.encode_injective hdigits)
  | bool value => rfl
  | principal address address' =>
    exact congrArg Value.principal (address_of_lookup h rfl rfl rfl rfl)
  | contract id id' =>
    obtain ⟨issuer, name⟩ := id
    obtain ⟨issuer', name'⟩ := id'
    have hissuer : issuer = issuer' := address_of_lookup h rfl rfl rfl rfl
    have hname : name = name' :=
      Name.eq_of_text (string_of_lookup "contract_name" h (by decide) rfl rfl)
    rw [hissuer, hname]
  | optionalNone => rfl
  | ascii bytes bytes' =>
    have htext := string_of_lookup "data" h (by decide) rfl rfl
    exact congrArg Value.ascii (eq_of_decodeLossy hvalue hother htext)
  | utf8 groups groups' =>
    have htext := string_of_lookup "data" h (by decide) rfl rfl
    have hflatten := eq_of_decodeLossy (wellFormed_flatten hvalue) (wellFormed_flatten hother) htext
    rw [← Utf8.scalars_flatten_eq_iff.mpr hvalue, hflatten, Utf8.scalars_flatten_eq_iff.mpr hother]
  | _ =>
    rw [tree] at htree
    cases htree

/-! ## Whole values -/

private theorem forall₂_imp_of_mem {α : Type} {R S : α → α → Prop} {items others : List α}
    (h : List.Forall₂ R items others)
    (himp : ∀ item ∈ items, ∀ other ∈ others, R item other → S item other) :
    List.Forall₂ S items others := by
  induction h with
  | nil => exact .nil
  | cons hfirst _ ih =>
    refine .cons (himp _ (List.mem_cons_self ..) _ (List.mem_cons_self ..) hfirst) (ih ?_)
    intro item hitem other hother
    exact himp item (List.mem_cons_of_mem _ hitem) other (List.mem_cons_of_mem _ hother)

/-- Outlines that agree belong to equal values, ranges aside. -/
theorem erase_eq_of_agrees (hordered : value.Ordered) (hordered' : other.Ordered)
    (hvalue : value.Textual) (hother : other.Textual)
    (h : Json.Agrees value.outline other.outline) : value.erase = other.erase := by
  have hshows := (everywhere_iff.mp hother).1
  induction value generalizing other with
  | atom value a htree => rw [eq_of_atom htree (everywhere_iff.mp hvalue).1 hshows h]
  | wrapped wrapper body ih =>
    obtain ⟨body', rfl⟩ := (sameType_of_agrees h).exists_body
    have hchild : body ∈ (wrapper.value body).children := by simp [children_wrapped]
    have hchild' : body' ∈ (wrapper.value body').children := by simp [children_wrapped]
    have hbody := agrees_of_lookup "value" h (by decide)
      (by rw [outlineMembers_wrapped, List.lookup_cons_self])
      (by rw [outlineMembers_wrapped, List.lookup_cons_self])
    apply erase_wrapped_of_eq
    exact ih (Ordered.child hordered hchild) (Ordered.child hordered' hchild')
      (hvalue.child hchild) (hother.child hchild') hbody
      (everywhere_iff.mp (hother.child hchild')).1
  | list items ih =>
    cases sameType_of_agrees h with
    | list items others =>
      have harrays := agrees_of_lookup "list" h (by decide)
        (by rw [outlineMembers_list, List.lookup_cons_self])
        (by rw [outlineMembers_list, List.lookup_cons_self])
      have hitems := harrays.forall₂
      rw [List.forall₂_map_left_iff, List.forall₂_map_right_iff] at hitems
      apply erase_list_of_forall₂
      apply forall₂_imp_of_mem hitems
      intro item hitem item' hitem' hagrees
      have htextual : item'.value.Textual := hother.child hitem'
      exact ih item hitem (Ordered.child hordered hitem) (Ordered.child hordered' hitem')
        (hvalue.child hitem) htextual hagrees (everywhere_iff.mp htextual).1
  | tuple fields ih =>
    cases sameType_of_agrees h with
    | tuple fields others =>
      have hobjects := agrees_of_lookup "data" h (by decide)
        (by rw [outlineMembers_tuple, List.lookup_cons_self])
        (by rw [outlineMembers_tuple, List.lookup_cons_self])
      have hfields := Fields.forall₂_of_lookup_byText (ordered_iff.mp hordered).1
        (ordered_iff.mp hordered').1 hobjects.lookup
      apply erase_tuple_of_forall₂
      apply forall₂_imp_of_mem hfields
      intro field hfield field' hfield' hagrees
      have hmem : field.2 ∈ (Value.tuple fields).children := List.mem_map_of_mem hfield
      have hmem' : field'.2 ∈ (Value.tuple others).children := List.mem_map_of_mem hfield'
      refine ⟨hagrees.1, ?_⟩
      exact ih field hfield (Ordered.child hordered hmem) (Ordered.child hordered' hmem')
        (hvalue.child hmem) (hother.child hmem') hagrees.2
        (everywhere_iff.mp (hother.child hmem')).1

/-! ## Summaries as maps -/

/-- The names of the members that a deep summary adds, for values of one type or another. -/
def contentNames : List (List String) :=
  [["value"], ["buffer"], ["list"], ["data"], ["address_version", "address_hash_bytes", "address"],
    ["address_version", "address_hash_bytes", "address", "contract_name"], []]

/-- The members that are no derived ones. -/
def toldNames : List String :=
  ["type_id", "value", "buffer", "list", "data", "address_version", "address_hash_bytes",
    "contract_name"]

theorem map_fst_contentMembers (value : Value) :
    value.contentMembers.map (·.1) ∈ contentNames := by
  cases value <;> rw [contentMembers] <;> simp [contentNames, addressMembers]

private theorem names_facts : ∀ names ∈ contentNames,
    (["repr", "hex", "type_id"] ++ names).Nodup ∧
      ∀ name ∈ ["repr", "hex", "type_id"] ++ names,
        name ∈ Json.derivedNames ∨ name ∈ toldNames := by
  decide

/-- Deep summaries that agree, the text, the bytes and the texts of addresses aside, belong to equal
values. Every summary names each of its members once, and the data of a tuple has the summaries of
its fields and nothing else. -/
theorem summary_tells (value : Value) :
    (∀ other : Value, value.Ordered → other.Ordered → value.Textual → other.Textual →
      Json.Agrees (value.summary true).stripped (other.summary true).stripped →
        (value == other) = true) ∧
      ∃ members, value.summary true = .object members ∧ (members.map (·.1)).Nodup ∧
        (∀ name ∈ members.map (·.1), name ∈ Json.derivedNames ∨ name ∈ toldNames) ∧
          ∀ fields, value = .tuple fields → Fields.Ascending fields → ∃ entries,
            members.lookup "data" = some (.object entries) ∧ (entries.map (·.1)).Nodup ∧
              entries.map (·.1) = fields.map (·.1.text) ∧
                ∀ field ∈ fields,
                  entries.lookup field.1.text = some (field.2.value.summary true) := by
  obtain ⟨hnodup, hnames⟩ := names_facts _ (map_fst_contentMembers value)
  refine ⟨?_, value.headMembers ++ value.contentMembers, rfl, ?_, ?_, ?_⟩
  · intro other hordered hordered' hvalue hother h
    exact (same_iff value other).mpr (erase_eq_of_agrees hordered hordered' hvalue hother h)
  · rw [List.map_append]
    exact hnodup
  · rw [List.map_append]
    exact hnames
  · rintro fields rfl hascending
    refine ⟨Fields.byText (fun node => node.value.summary true) fields, ?_, ?_,
      Fields.map_fst_byText, Fields.lookup_byText hascending⟩
    · rw [contentMembers, fieldSummaries_eq]
      rfl
    · rw [Fields.map_fst_byText]
      exact Fields.nodup_texts hascending

/-- A tuple whose fields are named like members of summaries, with a contract of a version that has
no text form. -/
def memberLike : Value :=
  .tuple [(⟨"data", by decide⟩, .bare (.ascii [0x6f, 0x6b])),
    (⟨"repr", by decide⟩, .bare (.list [.bare (.utf8 [[0xe2, 0x9c, 0x93]]),
      .bare (.contract ⟨⟨200, ⟨List.replicate 20 0x33, rfl⟩⟩, ⟨"f", by decide⟩⟩)]))]

/-- The same with ranges. -/
def memberLikeRead : Value :=
  .tuple [(⟨"data", by decide⟩, ⟨.ascii [0x6f, 0x6b], some ⟨10, 17⟩⟩),
    (⟨"repr", by decide⟩, ⟨.list [⟨.utf8 [[0xe2, 0x9c, 0x93]], some ⟨27, 35⟩⟩,
      ⟨.contract ⟨⟨200, ⟨List.replicate 20 0x33, rfl⟩⟩, ⟨"f", by decide⟩⟩, some ⟨35, 59⟩⟩],
      some ⟨22, 59⟩⟩)]

theorem summary_tells_memberLike :
    Json.Agrees (memberLike.summary true).stripped (memberLikeRead.summary true).stripped ∧
      (memberLike == memberLikeRead) = true ∧
        ∃ members, memberLike.summary true = .object members ∧
          ∃ entries, members.lookup "data" = some (.object entries) ∧
            entries.map (·.1) = ["data", "repr"] := by
  have hagrees : Json.Agrees (memberLike.summary true).stripped
      (memberLikeRead.summary true).stripped := Json.Agrees.refl _
  obtain ⟨htells, members, hmembers, -, -, hdata⟩ := summary_tells memberLike
  obtain ⟨entries, hentries, -, hnames, -⟩ := hdata _ rfl (by decide)
  have hsame : (memberLike == memberLikeRead) = true :=
    htells memberLikeRead (by decide) (by decide) (by decide) (by decide) hagrees
  exact ⟨hagrees, hsame, members, hmembers, entries, hentries, hnames⟩

end Value

end ClarityWire
