import ClarityWire.Proofs.Literals
import ClarityWire.Proofs.RoundTrip
import ClarityWire.Proofs.Spelling
import ClarityWire.Proofs.StacksText

/-!
# Reading the text of a value

The first characters of a text announce the type of the value, and its end can be told from what
follows inside a compound value, a space or a closing parenthesis. So the text of a value tells the
value, as long as it has no buffer, which is written without a mark, no principal that is written as
an error, and no string that is not held scalar by scalar.
-/

namespace ClarityWire

/-! ## Addresses and names -/

theorem StacksAddress.render_injective {a b : StacksAddress} (ha : a.version.toNat < 32)
    (hb : b.version.toNat < 32) (h : a.render = b.render) : a = b := by
  have hread := ofString_render ha
  rw [h, ofString_render hb] at hread
  exact (Except.ok.inj hread).symm

theorem StacksAddress.mem_symbols_of_mem_render {a : StacksAddress} (ha : a.version.toNat < 32)
    {c : Char} (h : c ∈ a.render.toList) : c ∈ C32.symbols := by
  rw [render_of_lt ha, String.toList_ofList] at h
  rcases List.mem_cons.mp h with rfl | h
  · decide
  · exact C32.mem_symbols_of_mem_checkedChars ha h

namespace Value

open Text

/-- Whether a value by itself has a text that tells it. -/
def Tells : Value → Prop
  | .buffer _ => False
  | .principal address => address.version.toNat < 32
  | .contract id => id.issuer.version.toNat < 32
  | .utf8 groups => ∀ group ∈ groups, ∃ c, String.utf8EncodeChar c = group
  | _ => True

instance : DecidablePred Tells
  | .utf8 _ => decidable_of_iff _ Utf8.scalars_flatten_eq_iff
  | .buffer _ => isFalse id
  | .principal _ | .contract _ => Nat.decLt _ _
  | .int _ | .uint _ | .bool _ | .responseOk _ | .responseErr _ | .optionalNone | .optionalSome _
  | .list _ | .tuple _ | .ascii _ => isTrue trivial

/-- Whether a value and all values inside it have texts that tell them: no buffer, no version that
is written as an error, and every group of a UTF-8 string is one scalar. -/
def Legible (value : Value) : Prop :=
  value.Everywhere Tells

instance (value : Value) : Decidable value.Legible :=
  inferInstanceAs (Decidable (value.Everywhere _))

theorem Legible.child {value : Value} (h : value.Legible) {child : ClarityValue}
    (hchild : child ∈ value.children) : child.value.Legible :=
  (everywhere_iff.mp h).2 child hchild

/-! ## What stands in front -/

/-- The type that the first characters of a text announce. -/
def announced : List Char → TypeTag
  | '\x22' :: _ => .ascii
  | '\x27' :: _ => .principal
  | 't' :: _ => .boolTrue
  | 'f' :: _ => .boolFalse
  | 'n' :: _ => .optionalNone
  | 'u' :: rest => if rest.head? = some '\x22' then .utf8 else .uint
  | '(' :: 'o' :: _ => .responseOk
  | '(' :: 'e' :: _ => .responseErr
  | '(' :: 's' :: _ => .optionalSome
  | '(' :: 'l' :: _ => .list
  | '(' :: _ => .tuple
  | _ => .int

/-- The type that the text of a value announces. A contract starts like its issuer. -/
def announcedTag : Value → TypeTag
  | .contract _ => .principal
  | value => value.typeTag

private theorem announced_decimal {c : Char} (h : IsDecimal c) (rest : List Char) :
    announced (c :: rest) = .int := by
  rcases h with hdigit | rfl
  · unfold announced
    split
    case h_12 => rfl
    all_goals
      next heq =>
        obtain ⟨rfl, -⟩ := List.cons.inj heq
        cases hdigit
  · rfl

private theorem announced_unsigned {c : Char} (h : c.isDigit = true) (rest : List Char) :
    announced ('u' :: c :: rest) = .uint := by
  have hquote : (c :: rest).head? ≠ some '\x22' := by
    rintro ⟨⟩
    cases h
  rw [announced, if_neg hquote]

theorem toList_renderAddress {address : StacksAddress} (h : address.version.toNat < 32) :
    (renderAddress address).toList = '\x27' :: address.render.toList := by
  rw [renderAddress, StacksAddress.toC32_of_lt h]
  exact String.toList_append

theorem toList_renderContract {id : ContractPrincipal} (h : id.issuer.version.toNat < 32) :
    (renderContract id).toList =
      '\x27' :: (id.issuer.render.toList ++ '.' :: id.name.text.toList) := by
  rw [renderContract, StacksAddress.toC32_of_lt h]
  simp only [String.toList_append, List.append_assoc]
  rfl

theorem announced_spelling {value : Value} (h : value.Tells) (rest : List Char) :
    announced (value.spelling none ++ rest) = value.announcedTag := by
  cases value with
  | int bits =>
    obtain ⟨c, tail, htext⟩ := List.exists_cons_of_ne_nil (repr_int_ne_nil bits.toInt)
    have hc : c ∈ bits.toInt.repr.toList := htext ▸ List.mem_cons_self ..
    rw [spelling_int, htext]
    exact announced_decimal (isDecimal_of_mem_repr hc) _
  | uint bits =>
    obtain ⟨c, tail, htext⟩ := List.exists_cons_of_ne_nil (repr_ne_nil bits.toNat)
    have hc : c ∈ bits.toNat.repr.toList := htext ▸ List.mem_cons_self ..
    rw [spelling_uint, htext]
    exact announced_unsigned (isDigit_of_mem_repr hc) _
  | buffer bytes => cases h
  | bool value => cases value <;> rfl
  | principal address => rw [spelling_principal, toList_renderAddress h]; rfl
  | contract id => rw [spelling_contract, toList_renderContract h]; rfl
  | responseOk body =>
    have hbody : (Value.responseOk body).spelling none = _ := spelling_wrapped .responseOk body
    rw [hbody]
    rfl
  | responseErr body =>
    have hbody : (Value.responseErr body).spelling none = _ := spelling_wrapped .responseErr body
    rw [hbody]
    rfl
  | optionalNone => rfl
  | optionalSome body =>
    have hbody : (Value.optionalSome body).spelling none = _ := spelling_wrapped .optionalSome body
    rw [hbody]
    rfl
  | list items => rw [spelling_list]; rfl
  | tuple fields => rw [spelling_tuple]; rfl
  | ascii bytes => rw [spelling_ascii]; rfl
  | utf8 groups => rw [spelling_utf8]; rfl

/-! ## Where a text ends -/

private theorem eq_of_int_append {m n : Int} {rest rest' : List Char} (hrest : Ends rest)
    (hrest' : Ends rest') (h : m.repr.toList ++ rest = n.repr.toList ++ rest') :
    m = n ∧ rest = rest' := by
  have hspace : ¬ IsDecimal ' ' := by rintro (h | h) <;> cases h
  have hparen : ¬ IsDecimal ')' := by rintro (h | h) <;> cases h
  obtain ⟨hrepr, htail⟩ := eq_of_run_append (fun _ => isDecimal_of_mem_repr)
    (fun _ => isDecimal_of_mem_repr) (hrest.not_head hspace hparen)
    (hrest'.not_head hspace hparen) h
  exact ⟨eq_of_repr_int (String.toList_inj.mp hrepr), htail⟩

private theorem eq_of_nat_append {m n : Nat} {rest rest' : List Char} (hrest : Ends rest)
    (hrest' : Ends rest') (h : m.repr.toList ++ rest = n.repr.toList ++ rest') :
    m = n ∧ rest = rest' := by
  obtain ⟨hrepr, htail⟩ := eq_of_run_append (fun _ => isDigit_of_mem_repr)
    (fun _ => isDigit_of_mem_repr) (hrest.not_head (by decide) (by decide))
    (hrest'.not_head (by decide) (by decide)) h
  exact ⟨eq_of_repr (String.toList_inj.mp hrepr), htail⟩

private theorem eq_of_address_append {a b : StacksAddress} (ha : a.version.toNat < 32)
    (hb : b.version.toNat < 32) {rest rest' : List Char}
    (hrest : ∀ c ∈ rest.head?, c ∉ C32.symbols) (hrest' : ∀ c ∈ rest'.head?, c ∉ C32.symbols)
    (h : a.render.toList ++ rest = b.render.toList ++ rest') : a = b ∧ rest = rest' := by
  obtain ⟨htext, htail⟩ := eq_of_run_append (fun _ => StacksAddress.mem_symbols_of_mem_render ha)
    (fun _ => StacksAddress.mem_symbols_of_mem_render hb) hrest hrest' h
  exact ⟨StacksAddress.render_injective ha hb (String.toList_inj.mp htext), htail⟩

private theorem eq_of_name_append {a b : ClarityName} {rest rest' : List Char} (hrest : Ends rest)
    (hrest' : Ends rest') (h : a.text.toList ++ rest = b.text.toList ++ rest') :
    a = b ∧ rest = rest' := by
  obtain ⟨htext, htail⟩ := eq_of_run_append (fun _ => a.allowsChar_of_mem)
    (fun _ => b.allowsChar_of_mem) (hrest.not_head (by decide) (by decide))
    (hrest'.not_head (by decide) (by decide)) h
  exact ⟨Name.eq_of_text (String.toList_inj.mp htext), htail⟩

private theorem not_symbol_of_ends {rest : List Char} (h : Ends rest) :
    ∀ c ∈ rest.head?, c ∉ C32.symbols :=
  h.not_head (by decide) (by decide)

private theorem dot_not_symbol (rest : List Char) :
    ∀ c ∈ ('.' :: rest).head?, c ∉ C32.symbols := by
  intro c hc
  cases hc
  decide

/-! ## Types -/

private theorem not_ends_dot {rest : List Char} : ¬ Ends ('.' :: rest) := by
  intro h
  rcases h '.' rfl with hc | hc <;> cases hc

private theorem spelling_principal_append_ne {address : StacksAddress} {id : ContractPrincipal}
    (haddress : address.version.toNat < 32) (hid : id.issuer.version.toNat < 32)
    {rest rest' : List Char} (hrest : Ends rest) :
    (Value.principal address).spelling none ++ rest ≠
      (Value.contract id).spelling none ++ rest' := by
  intro h
  rw [spelling_principal, toList_renderAddress haddress, spelling_contract,
    toList_renderContract hid, List.cons_append, List.cons_append, List.append_assoc] at h
  obtain ⟨-, rfl⟩ := eq_of_address_append haddress hid (not_symbol_of_ends hrest)
    (dot_not_symbol _) (List.cons.inj h).2
  exact not_ends_dot hrest

private theorem announcedTag_cases (value : Value) :
    (∃ address, value = .principal address) ∨ (∃ id, value = .contract id) ∨
      (value.announcedTag = value.typeTag ∧ value.announcedTag ≠ .principal) := by
  cases value with
  | principal address => exact .inl ⟨address, rfl⟩
  | contract id => exact .inr (.inl ⟨id, rfl⟩)
  | bool value => cases value <;> exact .inr (.inr ⟨rfl, by decide⟩)
  | _ => exact .inr (.inr ⟨rfl, TypeTag.noConfusion⟩)

/-- Texts that agree up to where they end belong to values of one type. -/
theorem sameType_of_spelling_append {value other : Value} (hvalue : value.Tells)
    (hother : other.Tells) {rest rest' : List Char} (hrest : Ends rest) (hrest' : Ends rest')
    (h : value.spelling none ++ rest = other.spelling none ++ rest') : SameType value other := by
  have htag : value.announcedTag = other.announcedTag := by
    rw [← announced_spelling hvalue rest, h, announced_spelling hother rest']
  rcases announcedTag_cases value with ⟨address, rfl⟩ | ⟨id, rfl⟩ | ⟨hsame, hne⟩
  · rcases announcedTag_cases other with ⟨address', rfl⟩ | ⟨id, rfl⟩ | ⟨-, hne⟩
    · exact .principal address address'
    · exact absurd h (spelling_principal_append_ne hvalue hother hrest)
    · exact absurd htag.symm hne
  · rcases announcedTag_cases other with ⟨address, rfl⟩ | ⟨id', rfl⟩ | ⟨-, hne⟩
    · exact absurd h.symm (spelling_principal_append_ne hother hvalue hrest')
    · exact .contract id id'
    · exact absurd htag.symm hne
  · rcases announcedTag_cases other with ⟨address, rfl⟩ | ⟨id, rfl⟩ | ⟨hsame', -⟩
    · exact absurd htag hne
    · exact absurd htag hne
    · rw [hsame, hsame'] at htag
      exact sameType_of_typeTag htag

/-! ## Simple values -/

private theorem group_ne_nil {groups : List Bytes}
    (h : ∀ group ∈ groups, ∃ c, String.utf8EncodeChar c = group) :
    ∀ group ∈ groups, group ≠ [] := by
  intro group hgroup
  obtain ⟨c, rfl⟩ := h group hgroup
  exact String.utf8EncodeChar_ne_nil

private theorem eq_of_atom_append {value other : Value} {a : Atom} (htree : value.tree = .atom a)
    (hvalue : value.Tells) (hother : other.Tells) {rest rest' : List Char} (hrest : Ends rest)
    (hrest' : Ends rest') (h : value.spelling none ++ rest = other.spelling none ++ rest') :
    value = other ∧ rest = rest' := by
  cases sameType_of_spelling_append hvalue hother hrest hrest' h with
  | int bits bits' =>
    rw [spelling_int, spelling_int] at h
    obtain ⟨hbits, htail⟩ := eq_of_int_append hrest hrest' h
    exact ⟨congrArg Value.int (BitVec.toInt_inj.mp hbits), htail⟩
  | uint bits bits' =>
    rw [spelling_uint, spelling_uint] at h
    obtain ⟨hbits, htail⟩ := eq_of_nat_append hrest hrest' (List.cons.inj h).2
    exact ⟨congrArg Value.uint (BitVec.eq_of_toNat_eq hbits), htail⟩
  | buffer bytes bytes' => cases hvalue
  | bool value => exact ⟨rfl, List.append_cancel_left h⟩
  | principal address address' =>
    rw [spelling_principal, spelling_principal, toList_renderAddress hvalue,
      toList_renderAddress hother] at h
    obtain ⟨rfl, htail⟩ := eq_of_address_append hvalue hother (not_symbol_of_ends hrest)
      (not_symbol_of_ends hrest') (List.cons.inj h).2
    exact ⟨rfl, htail⟩
  | contract id id' =>
    rw [spelling_contract, spelling_contract, toList_renderContract hvalue,
      toList_renderContract hother, List.cons_append, List.cons_append, List.append_assoc,
      List.append_assoc] at h
    obtain ⟨hissuer, hnames⟩ := eq_of_address_append hvalue hother (dot_not_symbol _)
      (dot_not_symbol _) (List.cons.inj h).2
    obtain ⟨hname, htail⟩ := eq_of_name_append hrest hrest' (List.cons.inj hnames).2
    obtain ⟨issuer, name⟩ := id
    cases hissuer
    cases hname
    exact ⟨rfl, htail⟩
  | optionalNone => exact ⟨rfl, List.append_cancel_left h⟩
  | ascii bytes bytes' =>
    rw [spelling_ascii, spelling_ascii, List.cons_append, List.cons_append, List.append_assoc,
      List.append_assoc] at h
    obtain ⟨rfl, htail⟩ := eq_of_flatMap_escapeByte (List.cons.inj h).2
    exact ⟨rfl, htail⟩
  | utf8 groups groups' =>
    rw [spelling_utf8, spelling_utf8] at h
    simp only [List.cons_append, List.append_assoc, List.cons_inj_right] at h
    obtain ⟨rfl, htail⟩ := eq_of_flatMap_escapeGroup (group_ne_nil hvalue) (group_ne_nil hother) h
    exact ⟨rfl, htail⟩
  | _ =>
    rw [tree] at htree
    cases htree

/-! ## Compound values -/

private theorem itemSpelling_continues (item : ClarityValue) :
    Continues itemSpelling Ends ')' item := by
  intro rest
  refine ⟨ends_cons (.inl rfl) _, ?_⟩
  intro tail h
  cases h

private theorem fieldSpelling_continues (field : ClarityName × ClarityValue) :
    Continues fieldSpelling (fun _ => True) ')' field := by
  intro rest
  refine ⟨trivial, ?_⟩
  intro tail h
  cases h

/-- The texts of two values, each followed by whatever may follow one, agree only if the values do,
ranges aside. -/
theorem erase_eq_of_spelling_append {value other : Value} (hvalue : value.Legible)
    (hother : other.Legible) {rest rest' : List Char} (hrest : Ends rest) (hrest' : Ends rest')
    (h : value.spelling none ++ rest = other.spelling none ++ rest') :
    value.erase = other.erase ∧ rest = rest' := by
  have htells := (everywhere_iff.mp hother).1
  induction value generalizing other rest rest' with
  | atom value a htree =>
    obtain ⟨rfl, htail⟩ :=
      eq_of_atom_append htree (everywhere_iff.mp hvalue).1 htells hrest hrest' h
    exact ⟨rfl, htail⟩
  | wrapped wrapper body ih =>
    obtain ⟨body', rfl⟩ := (sameType_of_spelling_append (everywhere_iff.mp hvalue).1 htells hrest
      hrest' h).exists_body
    have hbody : body.value.Legible := hvalue.child (by simp [children_wrapped])
    have hbody' : body'.value.Legible := hother.child (by simp [children_wrapped])
    simp only [spelling_wrapped, List.append_assoc, List.append_cancel_left_eq] at h
    obtain ⟨hsame, htail⟩ := ih hbody hbody' (ends_cons (.inr rfl) rest)
      (ends_cons (.inr rfl) rest') h (everywhere_iff.mp hbody').1
    exact ⟨erase_wrapped_of_eq wrapper hsame, (List.cons.inj htail).2⟩
  | list items ih =>
    cases sameType_of_spelling_append (everywhere_iff.mp hvalue).1 htells hrest hrest' h with
    | list items others =>
      simp only [spelling_list, List.append_assoc, List.append_cancel_left_eq] at h
      have hitems : ∀ item ∈ items, ∀ item' ∈ others, ∀ rest rest', Ends rest → Ends rest' →
          itemSpelling item ++ rest = itemSpelling item' ++ rest' →
            item.value.erase = item'.value.erase ∧ rest = rest' := by
        intro item hitem item' hitem' rest rest' hrest hrest' heq
        have hlegible : item'.value.Legible := hother.child hitem'
        exact ih item hitem (hvalue.child hitem) hlegible hrest hrest' (List.cons.inj heq).2
          (everywhere_iff.mp hlegible).1
      obtain ⟨hsame, htail⟩ := forall₂_of_flatMap_append hitems
        (fun item _ => itemSpelling_continues item) (fun item _ => itemSpelling_continues item)
        (ends_cons (.inr rfl)) h
      exact ⟨erase_list_of_forall₂ hsame, htail⟩
  | tuple fields ih =>
    cases sameType_of_spelling_append (everywhere_iff.mp hvalue).1 htells hrest hrest' h with
    | tuple fields others =>
      simp only [spelling_tuple, List.append_assoc, List.append_cancel_left_eq] at h
      have hfields : ∀ field ∈ fields, ∀ field' ∈ others, ∀ rest rest', True → True →
          fieldSpelling field ++ rest = fieldSpelling field' ++ rest' →
            (field.1 = field'.1 ∧ field.2.value.erase = field'.2.value.erase) ∧ rest = rest' := by
        intro field hfield field' hfield' rest rest' _ _ heq
        have hlegible : field'.2.value.Legible := hother.child (List.mem_map_of_mem hfield')
        simp only [fieldSpelling, List.append_assoc, List.cons_append, List.nil_append,
          List.cons_inj_right] at heq
        -- the name ends at the space, the value at the parenthesis
        obtain ⟨hname, hvalues⟩ := eq_of_name_append (ends_cons (.inl rfl) _)
          (ends_cons (.inl rfl) _) heq
        obtain ⟨hsame, htail⟩ := ih field hfield (hvalue.child (List.mem_map_of_mem hfield))
          hlegible (ends_cons (.inr rfl) rest) (ends_cons (.inr rfl) rest')
          (List.cons.inj hvalues).2 (everywhere_iff.mp hlegible).1
        exact ⟨⟨hname, hsame⟩, (List.cons.inj htail).2⟩
      obtain ⟨hsame, htail⟩ := forall₂_of_flatMap_append hfields
        (fun field _ => fieldSpelling_continues field)
        (fun field _ => fieldSpelling_continues field) (fun _ => trivial) h
      exact ⟨erase_tuple_of_forall₂ hsame, htail⟩

/-- Values with texts that tell them are equal exactly if their texts are. -/
theorem render_eq_iff {value other : Value} (hvalue : value.Legible) (hother : other.Legible) :
    value.render = other.render ↔ (value == other) = true := by
  change value.render = other.render ↔ same value other = true
  rw [same_iff]
  constructor
  · intro h
    have hnone : Ends [] := by rintro c ⟨⟩
    have hspelling : value.spelling none ++ [] = other.spelling none ++ [] := by
      rw [spelling, spelling]
      exact congrArg (fun text : String => text.toList ++ []) h
    exact (erase_eq_of_spelling_append hvalue hother hnone hnone hspelling).1
  · intro h
    apply String.toList_inj.mp
    change value.spelling none = other.spelling none
    rw [← spelling_erase value, h, spelling_erase]

/-- Strings with a quote in them, beside a scalar of three bytes and an account. -/
def quotedPair : Value :=
  .list [.bare (.utf8 [[0x22], [0xe2, 0x9c, 0x93]]), .bare (.tuple
    [(⟨"+", by decide⟩, .bare (.ascii [0x22, 0x20, 0x5c])),
      (⟨"to", by decide⟩, .bare (.principal ⟨22, ⟨List.replicate 20 0x22, rfl⟩⟩))])]

/-- The same with the first string split where the literal of the other one ends. -/
def quotedTriple : Value :=
  .list [.bare (.utf8 [[0x22]]), .bare (.utf8 [[0xe2, 0x9c, 0x93]]), .bare (.tuple
    [(⟨"+", by decide⟩, .bare (.ascii [0x22, 0x20, 0x5c])),
      (⟨"to", by decide⟩, .bare (.principal ⟨22, ⟨List.replicate 20 0x22, rfl⟩⟩))])]

theorem render_eq_iff_quotedPair :
    quotedPair.Legible ∧ quotedTriple.Legible ∧
      (quotedPair.render = quotedPair.erase.render ↔ (quotedPair == quotedPair.erase) = true) ∧
        quotedPair.render ≠ quotedTriple.render := by
  have hpair : quotedPair.Legible := by decide
  have htriple : quotedTriple.Legible := by decide
  refine ⟨hpair, htriple, render_eq_iff hpair (by decide), ?_⟩
  intro h
  exact absurd ((render_eq_iff hpair htriple).mp h) (by decide)

end Value

end ClarityWire
