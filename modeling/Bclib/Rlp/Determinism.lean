import Bclib.Rlp.Unique
import Bclib.Rlp.Writers

namespace Bclib.Rlp

open Data
open Go

/-! When the order in which maps are enumerated shows in the encoding. -/

/-- The keys the sort of `writeMap` compares. -/
def sortable : GoType → Bool
  | .string => true
  | .uint .uintptr => false
  | .uint _ => true
  | .int _ => true
  | _ => false

private theorem bytes_total {left right : List Byte} (different : left ≠ right) :
    left < right ∨ right < left := by
  by_contra neither
  rw [not_or] at neither
  exact different (List.le_antisymm (List.not_lt.1 neither.2) (List.not_lt.1 neither.1))

private theorem order_of_injective {measure : κ → ι} {before : ι → ι → Prop}
    [DecidableRel before] (irrefl : ∀ first, ¬before first first)
    (trans : ∀ first second third, before first second → before second third →
      before first third)
    (total : ∀ first second, first ≠ second → before first second ∨ before second first)
    (injective : Function.Injective measure) :
    StrictOrder fun left right => decide (before (measure left) (measure right)) where
  irrefl key := decide_eq_false (irrefl _)
  trans below above :=
    decide_eq_true (trans _ _ _ (of_decide_eq_true below) (of_decide_eq_true above))
  total different := by
    rcases total _ _ (injective.ne different) with below | above
    · exact .inl (decide_eq_true below)
    · exact .inr (decide_eq_true above)

private theorem string_order :
    StrictOrder fun left right : List Byte => decide (left < right) :=
  order_of_injective List.lt_irrefl (fun _ _ _ => List.lt_trans) (fun _ _ => bytes_total)
    Function.injective_id

private theorem unsigned_order (width : Nat) :
    StrictOrder fun left right : BitVec width => decide (left.toNat < right.toNat) :=
  order_of_injective Nat.lt_irrefl (fun _ _ _ => Nat.lt_trans) (fun _ _ => Nat.lt_or_gt_of_ne)
    fun _ _ => BitVec.eq_of_toNat_eq

private theorem signed_order (width : Nat) :
    StrictOrder fun left right : BitVec width => decide (left.toInt < right.toInt) :=
  order_of_injective Int.lt_irrefl (fun _ _ _ => Int.lt_trans) (fun _ _ => Int.lt_or_gt_of_ne)
    fun _ _ => BitVec.eq_of_toInt_eq

theorem keyLess_order {key : GoType} (compared : sortable key = true) :
    StrictOrder (keyLess key) := by
  cases key with
  | string => exact string_order
  | uint kind =>
      cases kind with
      | uintptr => simp [sortable] at compared
      | _ => exact unsigned_order _
  | int kind => exact signed_order _
  | _ => simp [sortable] at compared

theorem keyLess_never {key : GoType} (incomparable : sortable key = false)
    (left right : Value key) : keyLess key left right = false := by
  cases key with
  | string => simp [sortable] at incomparable
  | uint kind =>
      cases kind with
      | uintptr => rfl
      | _ => simp [sortable] at incomparable
  | int kind => simp [sortable] at incomparable
  | _ => rfl

def spelling (tags : Tags) (type : GoType) (value : Value type) : List Byte :=
  render (pieces type tags (itemOf type value))

def fieldSpelling (fields : Fields) (value : FieldValues fields) : List Byte :=
  render (fieldPieces fields (fieldItemsOf fields value))

section Spelling

variable {elem : GoType} (other : elem.isByte = false)

include other

theorem spelling_slice (tags : Tags) (value : List (Value elem)) :
    spelling tags (.slice elem) value =
      if tags.tail = true then value.flatMap (spelling {} elem)
      else wireList (value.flatMap (spelling {} elem)) := by
  have unfolded : spelling tags (.slice elem) value =
      render (slicePieces tags.tail elem (pieces elem {}) (value.map (itemOf elem))) := rfl
  rw [unfolded, slicePieces_of_not_byte tags.tail other]
  split_ifs
  · rw [render_flatMap, List.flatMap_map]
    rfl
  · rw [render_listPieces, render_flatMap, List.flatMap_map]
    rfl

theorem spelling_array (tags : Tags) {length : Nat} (value : Value (.array length elem)) :
    spelling tags (.array length elem) value = wireList (value.1.flatMap (spelling {} elem)) := by
  have items : (itemOf (.array length elem) value).1 = value.1.map (itemOf elem) := rfl
  rw [spelling, pieces, slicePieces_of_not_byte false other, if_neg Bool.false_ne_true,
    render_listPieces, render_flatMap, items, List.flatMap_map]
  rfl

end Spelling

theorem fieldSpelling_cons (name : String) (tags : Tags) (type : GoType) (rest : Fields)
    (value : FieldValues (.cons name tags type rest)) :
    fieldSpelling (.cons name tags type rest) value =
      spelling tags type value.1 ++ fieldSpelling rest value.2 := by
  rw [fieldSpelling, fieldPieces_fieldItemsOf, render_append]
  rfl

def entrySpelling {key elem : GoType} (entry : Value key × Value elem) :
    List Byte × List Byte :=
  (spelling {} key entry.1, spelling {} elem entry.2)

theorem spelling_map (tags : Tags) (key elem : GoType)
    (value : List (Value key × Value elem)) :
    spelling tags (.map key elem) value =
      mapBytes ((sortEntries key value).map entrySpelling) := by
  have unfolded : spelling tags (.map key elem) value =
      mapBytes (((sortEntries key value).map fun entry =>
        (itemOf key entry.1, itemOf elem entry.2)).map fun entry =>
          (render (pieces key {} entry.1), render (pieces elem {} entry.2))) := by
    rw [mapBytes, List.flatMap_map]
    exact List.append_nil _
  rw [unfolded, List.map_map]
  rfl

def Steadfast (tags : Tags) (type : GoType) (value : Value type) : Prop :=
  ∀ other, SameValue type value other → spelling tags type other = spelling tags type value

def FieldsSteadfast (fields : Fields) (value : FieldValues fields) : Prop :=
  ∀ other, SameFields fields value other → fieldSpelling fields other = fieldSpelling fields value

section Lists

variable {related : α → α → Prop} {spell : α → List Byte}

private theorem forall₂_exchange (refl : ∀ value, related value value)
    {before after : List α} {left right : α} (here : related left right) :
    List.Forall₂ related (before ++ left :: after) (before ++ right :: after) := by
  induction before with
  | nil => exact .cons here (List.forall₂_same.2 fun value _ => refl value)
  | cons first _ ih => exact .cons (refl first) ih

private theorem flatMap_congr {values others : List α}
    (each : ∀ value ∈ values, ∀ other, related value other → spell other = spell value)
    (all : List.Forall₂ related values others) :
    others.flatMap spell = values.flatMap spell := by
  induction all with
  | nil => rfl
  | cons head _ ih =>
      rw [List.forall_mem_cons] at each
      rw [List.flatMap_cons, List.flatMap_cons, each.1 _ head, ih each.2]

private theorem steadfast_of_flatMap (refl : ∀ value, related value value) {values : List α}
    (whole : ∀ others, List.Forall₂ related values others →
      others.flatMap spell = values.flatMap spell) :
    ∀ value ∈ values, ∀ other, related value other → spell other = spell value := by
  intro value member other same
  obtain ⟨before, after, rfl⟩ := List.append_of_mem member
  have flat := whole _ (forall₂_exchange refl same)
  simp only [List.flatMap_append, List.flatMap_cons] at flat
  exact List.append_cancel_right (List.append_cancel_left flat)

private theorem partner_of_map_eq {matched : α → α → Prop} {spell : α → β}
    {values others : List α} (all : List.Forall₂ matched values others)
    (same : others.map spell = values.map spell) {value : α} (member : value ∈ values) :
    ∃ other ∈ others, matched value other ∧ spell other = spell value := by
  induction all with
  | nil => cases member
  | cons head _ ih =>
      obtain ⟨first, rest⟩ := List.cons.inj same
      rcases List.mem_cons.1 member with rfl | later
      · exact ⟨_, List.mem_cons_self .., head, first⟩
      · obtain ⟨other, found, partner⟩ := ih rest later
        exact ⟨other, List.mem_cons_of_mem _ found, partner⟩

end Lists

theorem sameValue_of_sortable {key : GoType} (compared : sortable key = true)
    {left right : Value key} (same : SameValue key left right) : left = right := by
  cases key with
  | string => exact same
  | uint kind => exact same
  | int kind => exact same
  | _ => simp [sortable] at compared

section Maps

variable {key elem : GoType} {value : List (Value key × Value elem)}

def SameEntry (left right : Value key × Value elem) : Prop :=
  SameValue key left.1 right.1 ∧ SameValue elem left.2 right.2

private theorem sameEntry_refl (entry : Value key × Value elem) : SameEntry entry entry :=
  ⟨SameValue.refl key entry.1, SameValue.refl elem entry.2⟩

private theorem map_congr {entries others : List (Value key × Value elem)}
    (each : ∀ entry ∈ entries, Steadfast {} key entry.1 ∧ Steadfast {} elem entry.2)
    (all : List.Forall₂ SameEntry entries others) :
    others.map entrySpelling = entries.map entrySpelling := by
  induction all with
  | nil => rfl
  | cons head _ ih =>
      rw [List.forall_mem_cons] at each
      rw [List.map_cons, List.map_cons, ih each.2]
      exact congrArg (· :: _) (Prod.ext (each.1.1 _ head.1) (each.1.2 _ head.2))

private theorem entries_iff_unsorted :
    (∀ other : List (Value key × Value elem), SameValue (.map key elem) value other →
        other.map entrySpelling = value.map entrySpelling) ↔
      (∀ left ∈ value, ∀ right ∈ value, entrySpelling left = entrySpelling right) ∧
        ∀ entry ∈ value, Steadfast {} key entry.1 ∧ Steadfast {} elem entry.2 := by
  constructor
  · intro whole
    have first : ∀ entry ∈ value, ∃ rest,
        value.map entrySpelling = entrySpelling entry :: rest := by
      intro entry member
      obtain ⟨before, after, rfl⟩ := List.append_of_mem member
      exact ⟨_, (whole (entry :: (before ++ after)) ⟨_, List.perm_middle,
        List.forall₂_same.2 fun entry _ => sameEntry_refl entry⟩).symm⟩
    have exchange : ∀ entry ∈ value, ∀ other, SameEntry entry other →
        entrySpelling other = entrySpelling entry := by
      intro entry member other same
      obtain ⟨before, after, rfl⟩ := List.append_of_mem member
      have lists := whole _ ⟨_, .refl _, forall₂_exchange sameEntry_refl same⟩
      rw [List.map_append, List.map_append] at lists
      exact (List.cons.inj (List.append_cancel_left lists)).1
    refine ⟨fun left inLeft right inRight => ?_, fun entry member => ⟨?_, ?_⟩⟩
    · obtain ⟨_, leftFirst⟩ := first left inLeft
      obtain ⟨_, rightFirst⟩ := first right inRight
      exact (List.cons.inj (leftFirst.symm.trans rightFirst)).1
    · intro other same
      exact congrArg Prod.fst
        (exchange entry member (other, entry.2) ⟨same, SameValue.refl elem entry.2⟩)
    · intro other same
      exact congrArg Prod.snd
        (exchange entry member (entry.1, other) ⟨SameValue.refl key entry.1, same⟩)
  · rintro ⟨alike, each⟩ other ⟨reordered, perm, related⟩
    have same := map_congr (fun entry member => each entry (perm.mem_iff.2 member)) related
    rw [same]
    refine @List.Perm.eq_of_pairwise _ (fun _ _ => True) _ _ ?_ ?_ ?_
      (perm.map entrySpelling).symm
    · intro left right inLeft inRight _ _
      obtain ⟨first, found, rfl⟩ := List.mem_map.1 inLeft
      obtain ⟨second, present, rfl⟩ := List.mem_map.1 inRight
      exact alike first (perm.mem_iff.2 found) second present
    · exact List.pairwise_of_forall fun _ _ => trivial
    · exact List.pairwise_of_forall fun _ _ => trivial

private theorem sorted_exchange (distinct : (value.map Prod.fst).Nodup)
    (whole : ∀ other : List (Value key × Value elem), SameValue (.map key elem) value other →
      (sortEntries key other).map entrySpelling = (sortEntries key value).map entrySpelling)
    {entry : Value key × Value elem} (member : entry ∈ value) {replaced : Value elem}
    (same : SameValue elem entry.2 replaced) :
    entrySpelling (entry.1, replaced) = entrySpelling entry := by
  obtain ⟨before, after, rfl⟩ := List.append_of_mem member
  have changed : SameEntry entry (entry.1, replaced) := ⟨SameValue.refl key entry.1, same⟩
  have lists := whole _ ⟨_, .refl _, forall₂_exchange sameEntry_refl changed⟩
  have exchanged : List.Forall₂
      (fun left right => left = right ∨ left = entry ∧ right = (entry.1, replaced))
      (before ++ entry :: after) (before ++ (entry.1, replaced) :: after) :=
    forall₂_exchange (fun _ => .inl rfl) (.inr ⟨rfl, rfl⟩)
  have sorted := forall₂_sortByKey (keyLess key)
    (by rintro left right (rfl | ⟨rfl, rfl⟩) <;> rfl) exchanged
  obtain ⟨place, found, kept | ⟨_, rfl⟩, spelled⟩ :=
    partner_of_map_eq sorted lists (mem_sortByKey.2 member)
  · -- the entry itself is still there only if it was exchanged for itself
    rw [← kept] at found
    rw [List.map_append, List.map_cons, List.nodup_middle, List.nodup_cons] at distinct
    rcases List.mem_append.1 (mem_sortByKey.1 found) with early | late
    · exact absurd (List.mem_append_left _ (List.mem_map_of_mem early)) distinct.1
    · rcases List.mem_cons.1 late with itself | later
      · rw [← itself]
      · exact absurd (List.mem_append_right _ (List.mem_map_of_mem later)) distinct.1
  · exact spelled

private theorem entries_iff_sorted (compared : sortable key = true)
    (distinct : (value.map Prod.fst).Nodup) :
    (∀ other : List (Value key × Value elem), SameValue (.map key elem) value other →
        (sortEntries key other).map entrySpelling = (sortEntries key value).map entrySpelling) ↔
      ∀ entry ∈ value, Steadfast {} key entry.1 ∧ Steadfast {} elem entry.2 := by
  constructor
  · intro whole entry member
    refine ⟨fun other same => ?_, fun other same => ?_⟩
    · rw [sameValue_of_sortable compared same]
    · exact congrArg Prod.snd (sorted_exchange distinct whole member same)
  · rintro each other ⟨reordered, perm, related⟩
    have sorted : sortEntries key value = sortEntries key reordered :=
      sortByKey_eq_of_perm (keyLess_order compared) distinct perm
    rw [sorted]
    refine map_congr (fun entry member => each entry (perm.mem_iff.2 (mem_sortByKey.1 member)))
      (forall₂_sortByKey (keyLess key) (fun left right same => ?_) related)
    exact sameValue_of_sortable compared same.1

theorem steadfast_map_iff {tags : Tags}
    (fits : (spelling tags (.map key elem) value).length < maxLen)
    (distinct : sortable key = true → (value.map Prod.fst).Nodup) :
    Steadfast tags (.map key elem) value ↔
      (sortable key = true ∨
        ∀ left ∈ value, ∀ right ∈ value, entrySpelling left = entrySpelling right) ∧
      ∀ entry ∈ value, Steadfast {} key entry.1 ∧ Steadfast {} elem entry.2 := by
  have lists : Steadfast tags (.map key elem) value ↔
      ∀ other : List (Value key × Value elem), SameValue (.map key elem) value other →
        (sortEntries key other).map entrySpelling =
          (sortEntries key value).map entrySpelling := by
    rw [spelling_map] at fits
    constructor
    · intro steadfast other same
      have spelled := steadfast other same
      rw [spelling_map, spelling_map] at spelled
      exact (mapBytes_injective fits spelled.symm).symm
    · intro sorted other same
      rw [spelling_map tags key elem other, spelling_map, sorted other same]
  rw [lists]
  cases compared : sortable key with
  | true =>
      rw [entries_iff_sorted compared (distinct compared)]
      simp
  | false =>
      have unsorted : ∀ entries : List (Value key × Value elem),
          sortEntries key entries = entries :=
        sortByKey_of_never (keyLess_never compared)
      simp only [unsorted, entries_iff_unsorted, Bool.false_eq_true, false_or]

end Maps

mutual
/-- Every map inside the value has keys the encoder sorts, or its entries are all
spelled the same. -/
def OrderFree : (type : GoType) → Value type → Prop
  | .uint _, _ => True
  | .int _, _ => True
  | .bool, _ => True
  | .string, _ => True
  | .bigInt, _ => True
  | .number, _ => True
  | .rawValue, _ => True
  | .slice elem, (value : List (Value elem)) => ∀ inner ∈ value, OrderFree elem inner
  | .array _ elem, value => ∀ inner ∈ value.1, OrderFree elem inner
  | .struct fields, value => FieldsOrderFree fields value
  | .ptr elem, (value : Option (Value elem)) => ∀ inner ∈ value, OrderFree elem inner
  | .map key elem, (value : List (Value key × Value elem)) =>
      (sortable key = true ∨
        ∀ left ∈ value, ∀ right ∈ value, entrySpelling left = entrySpelling right) ∧
      ∀ entry ∈ value, OrderFree key entry.1 ∧ OrderFree elem entry.2

def FieldsOrderFree : (fields : Fields) → FieldValues fields → Prop
  | .nil, _ => True
  | .cons _ _ type rest, value => OrderFree type value.1 ∧ FieldsOrderFree rest value.2
end

mutual
/-- No map inside the value has two entries for one key that the encoder sorts
by, as no Go map has. -/
def DistinctKeys : (type : GoType) → Value type → Prop
  | .uint _, _ => True
  | .int _, _ => True
  | .bool, _ => True
  | .string, _ => True
  | .bigInt, _ => True
  | .number, _ => True
  | .rawValue, _ => True
  | .slice elem, (value : List (Value elem)) => ∀ inner ∈ value, DistinctKeys elem inner
  | .array _ elem, value => ∀ inner ∈ value.1, DistinctKeys elem inner
  | .struct fields, value => FieldsDistinctKeys fields value
  | .ptr elem, (value : Option (Value elem)) => ∀ inner ∈ value, DistinctKeys elem inner
  | .map key elem, (value : List (Value key × Value elem)) =>
      (sortable key = true → (value.map Prod.fst).Nodup) ∧
      ∀ entry ∈ value, DistinctKeys key entry.1 ∧ DistinctKeys elem entry.2

def FieldsDistinctKeys : (fields : Fields) → FieldValues fields → Prop
  | .nil, _ => True
  | .cons _ _ type rest, value => DistinctKeys type value.1 ∧ FieldsDistinctKeys rest value.2
end

private theorem length_le_flatMap (spell : α → List Byte) {values : List α} {value : α}
    (member : value ∈ values) : (spell value).length ≤ (values.flatMap spell).length := by
  obtain ⟨before, after, rfl⟩ := List.append_of_mem member
  simp only [List.flatMap_append, List.flatMap_cons, List.length_append]
  omega

theorem entry_fits {key elem : GoType} {value : List (Value key × Value elem)}
    {tags : Tags} (fits : (spelling tags (.map key elem) value).length < maxLen)
    {entry : Value key × Value elem} (member : entry ∈ value) :
    (spelling {} key entry.1).length < maxLen ∧ (spelling {} elem entry.2).length < maxLen := by
  rw [spelling_map] at fits
  have found : entrySpelling entry ∈ (sortEntries key value).map entrySpelling :=
    List.mem_map.2 ⟨entry, mem_sortByKey.2 member, rfl⟩
  have short := Nat.lt_trans (entryList_length_lt found) fits
  simp only [entryList, entrySpelling] at short
  have inner := length_lt_wireList
    (wireString (spelling {} key entry.1) ++ wireString (spelling {} elem entry.2))
  have keyShort := length_le_wireString (spelling {} key entry.1)
  have elemShort := length_le_wireString (spelling {} elem entry.2)
  rw [List.length_append] at inner
  omega

private theorem bytes_eq_of_forall₂ {left right : List (Value .byte)}
    (same : List.Forall₂ (SameValue .byte) left right) : left = right := by
  induction same with
  | nil => rfl
  | cons head _ ih => exact List.cons_eq_cons.2 ⟨head, ih⟩

section Elems

variable {elem : GoType} (other : elem.isByte = false) {tags : Tags}

include other

private theorem steadfast_slice_iff {value : List (Value elem)}
    (fits : (spelling tags (.slice elem) value).length < maxLen) :
    Steadfast tags (.slice elem) value ↔ ∀ inner ∈ value, Steadfast {} elem inner := by
  constructor
  · intro steadfast
    refine steadfast_of_flatMap (SameValue.refl elem) fun others same => ?_
    have spelled := steadfast others same
    rw [spelling_slice other] at fits
    rw [spelling_slice other, spelling_slice other] at spelled
    split_ifs at fits spelled
    · exact spelled
    · exact (wireList_injective fits spelled.symm).symm
  · intro each others same
    rw [spelling_slice other tags others, spelling_slice other, flatMap_congr each same]

private theorem steadfast_array_iff {length : Nat} {value : Value (.array length elem)}
    (fits : (spelling tags (.array length elem) value).length < maxLen) :
    Steadfast tags (.array length elem) value ↔ ∀ inner ∈ value.1, Steadfast {} elem inner := by
  rw [spelling_array other] at fits
  constructor
  · intro steadfast
    refine steadfast_of_flatMap (SameValue.refl elem) fun others same => ?_
    have spelled := steadfast ⟨others, same.length_eq.symm.trans value.2⟩ same
    have lists : wireList (others.flatMap (spelling {} elem)) =
        wireList (value.1.flatMap (spelling {} elem)) :=
      (spelling_array other tags _).symm.trans (spelled.trans (spelling_array other tags value))
    exact (wireList_injective fits lists.symm).symm
  · intro each others same
    rw [spelling_array other tags others, spelling_array other, flatMap_congr each same]

private theorem elem_fits_slice {value : List (Value elem)}
    (fits : (spelling tags (.slice elem) value).length < maxLen) :
    ∀ inner ∈ value, (spelling {} elem inner).length < maxLen := by
  intro inner member
  have inside := length_le_flatMap (spelling {} elem) member
  have outside := length_lt_wireList (value.flatMap (spelling {} elem))
  rw [spelling_slice other] at fits
  split_ifs at fits <;> omega

private theorem elem_fits_array {length : Nat} {value : Value (.array length elem)}
    (fits : (spelling tags (.array length elem) value).length < maxLen) :
    ∀ inner ∈ value.1, (spelling {} elem inner).length < maxLen := by
  intro inner member
  rw [spelling_array other] at fits
  exact Nat.lt_of_le_of_lt (length_le_flatMap _ member) (Nat.lt_trans (length_lt_wireList _) fits)

end Elems

private theorem steadfast_ptr_iff {tags : Tags} {elem : GoType} {inner : Value elem} :
    Steadfast tags (.ptr elem) (some inner : Option (Value elem)) ↔ Steadfast {} elem inner := by
  constructor
  · intro steadfast other same
    exact steadfast (some other : Option (Value elem)) (.some same)
  · intro steadfast other same
    cases same with
    | some same => exact steadfast _ same

private theorem fieldsSteadfast_cons_iff {name : String} {tags : Tags} {type : GoType}
    {rest : Fields} {value : FieldValues (.cons name tags type rest)} :
    FieldsSteadfast (.cons name tags type rest) value ↔
      Steadfast tags type value.1 ∧ FieldsSteadfast rest value.2 := by
  constructor
  · intro steadfast
    refine ⟨fun other same => ?_, fun other same => ?_⟩
    · have spelled := steadfast (other, value.2) ⟨same, SameFields.refl rest value.2⟩
      exact List.append_cancel_right ((fieldSpelling_cons name tags type rest _).symm.trans
        (spelled.trans (fieldSpelling_cons name tags type rest value)))
    · have spelled := steadfast (value.1, other) ⟨SameValue.refl type value.1, same⟩
      exact List.append_cancel_left ((fieldSpelling_cons name tags type rest _).symm.trans
        (spelled.trans (fieldSpelling_cons name tags type rest value)))
  · intro steadfast other same
    rw [fieldSpelling_cons, fieldSpelling_cons, steadfast.1 _ same.1, steadfast.2 _ same.2]

mutual
theorem steadfast_iff : (type : GoType) → (tags : Tags) → (value : Value type) →
    DistinctKeys type value → (spelling tags type value).length < maxLen →
      (Steadfast tags type value ↔ OrderFree type value)
  | .uint _, _, _, _, _ => ⟨fun _ => trivial, fun _ _ same => same ▸ rfl⟩
  | .int _, _, _, _, _ => ⟨fun _ => trivial, fun _ _ same => same ▸ rfl⟩
  | .bool, _, _, _, _ => ⟨fun _ => trivial, fun _ _ same => same ▸ rfl⟩
  | .string, _, _, _, _ => ⟨fun _ => trivial, fun _ _ same => same ▸ rfl⟩
  | .bigInt, _, _, _, _ => ⟨fun _ => trivial, fun _ _ same => same ▸ rfl⟩
  | .number, _, _, _, _ => ⟨fun _ => trivial, fun _ _ same => same ▸ rfl⟩
  | .rawValue, _, _, _, _ => ⟨fun _ => trivial, fun _ _ same => same ▸ rfl⟩
  | .slice elem, tags, (value : List (Value elem)), distinct, fits => by
      cases bytes : elem.isByte with
      | true =>
          obtain rfl := GoType.eq_byte_of_isByte bytes
          refine ⟨fun _ _ _ => trivial, fun _ other same => ?_⟩
          rw [bytes_eq_of_forall₂ same]
      | false =>
          rw [steadfast_slice_iff bytes fits]
          exact forall_congr' fun inner => forall_congr' fun member =>
            steadfast_iff elem {} inner (distinct inner member)
              (elem_fits_slice bytes fits inner member)
  | .array length elem, tags, value, distinct, fits => by
      cases bytes : elem.isByte with
      | true =>
          obtain rfl := GoType.eq_byte_of_isByte bytes
          refine ⟨fun _ _ _ => trivial, fun _ other same => ?_⟩
          rw [Subtype.ext (bytes_eq_of_forall₂ same)]
      | false =>
          rw [steadfast_array_iff bytes fits]
          exact forall_congr' fun inner => forall_congr' fun member =>
            steadfast_iff elem {} inner (distinct inner member)
              (elem_fits_array bytes fits inner member)
  | .struct fields, tags, value, distinct, fits => by
      have short : (fieldSpelling fields value).length < maxLen :=
        Nat.lt_trans (length_lt_wireList _) fits
      refine Iff.trans ?_ (fieldsSteadfast_iff fields value distinct short)
      exact ⟨fun steadfast other same =>
          (wireList_injective fits (steadfast other same).symm).symm,
        fun steadfast other same => congrArg wireList (steadfast other same)⟩
  | .ptr elem, tags, (value : Option (Value elem)), distinct, fits => by
      cases value with
      | none =>
          refine ⟨fun _ _ found => (nomatch found), fun _ other same => ?_⟩
          cases same
          rfl
      | some inner =>
          rw [steadfast_ptr_iff, steadfast_iff elem {} inner (distinct inner rfl) fits]
          exact ⟨fun free other found => Option.some.inj found ▸ free, fun free => free inner rfl⟩
  | .map key elem, tags, (value : List (Value key × Value elem)), distinct, fits => by
      rw [steadfast_map_iff fits distinct.1]
      refine and_congr_right fun _ => forall_congr' fun entry => forall_congr' fun member => ?_
      obtain ⟨keyFits, elemFits⟩ := entry_fits fits member
      exact and_congr
        (steadfast_iff key {} entry.1 (distinct.2 entry member).1 keyFits)
        (steadfast_iff elem {} entry.2 (distinct.2 entry member).2 elemFits)

theorem fieldsSteadfast_iff : (fields : Fields) → (value : FieldValues fields) →
    FieldsDistinctKeys fields value → (fieldSpelling fields value).length < maxLen →
      (FieldsSteadfast fields value ↔ FieldsOrderFree fields value)
  | .nil, _, _, _ => ⟨fun _ => trivial, fun _ _ _ => rfl⟩
  | .cons name tags type rest, value, distinct, fits => by
      rw [fieldSpelling_cons, List.length_append] at fits
      rw [fieldsSteadfast_cons_iff]
      exact and_congr (steadfast_iff type tags value.1 distinct.1 (by omega))
        (fieldsSteadfast_iff rest value.2 distinct.2 (by omega))
end

def Level (left right : List Byte) : Prop :=
  left.length = right.length ∧ (left = right ∨ 2 ≤ left.length)

namespace Level

variable {left right before after : List Byte}

theorem refl (bytes : List Byte) : Level bytes bytes := ⟨rfl, .inl rfl⟩

theorem append (first : Level left right) (second : Level before after) :
    Level (left ++ before) (right ++ after) := by
  refine ⟨by rw [List.length_append, List.length_append, first.1, second.1], ?_⟩
  rcases first.2 with rfl | long
  · rcases second.2 with rfl | long
    · exact .inl rfl
    · exact .inr (by rw [List.length_append]; omega)
  · exact .inr (by rw [List.length_append]; omega)

theorem wireList (level : Level left right) : Level (wireList left) (wireList right) := by
  rcases level with ⟨length, rfl | long⟩
  · exact refl _
  · refine ⟨by simp only [Rlp.wireList, List.length_append, length], .inr ?_⟩
    exact Nat.le_of_lt (Nat.lt_of_le_of_lt long (length_lt_wireList left))

theorem wireString (level : Level left right) : Level (wireString left) (wireString right) := by
  rcases level with ⟨length, rfl | long⟩
  · exact refl _
  · have headed : ¬IsSingle left := fun single => by
      have one := single.1
      omega
    have otherHeaded : ¬IsSingle right := fun single => by
      have one := single.1
      omega
    rw [wireString_of_not_single headed, wireString_of_not_single otherHeaded]
    refine ⟨by rw [List.length_append, List.length_append, length], .inr ?_⟩
    rw [List.length_append]
    omega

theorem flatMap {related : α → α → Prop} {spell : α → List Byte}
    (each : ∀ value other, related value other → Level (spell value) (spell other))
    {values others : List α} (all : List.Forall₂ related values others) :
    Level (values.flatMap spell) (others.flatMap spell) := by
  induction all with
  | nil => exact refl _
  | cons head _ ih => exact (each _ _ head).append ih

theorem listString (length : left.length = right.length) :
    Level (Rlp.wireString (Rlp.wireList left)) (Rlp.wireString (Rlp.wireList right)) := by
  have lists : (Rlp.wireList left).length = (Rlp.wireList right).length := by
    rw [Rlp.wireList, Rlp.wireList, List.length_append, List.length_append, length]
  have head := List.length_pos_iff.2 (puthead_ne_nil 0x80 0xB7 (Rlp.wireList left).length)
  have body := length_lt_wireList left
  rw [wireString_wireList, wireString_wireList]
  refine ⟨by rw [List.length_append, List.length_append, lists], .inr ?_⟩
  rw [List.length_append]
  omega

end Level

mutual
theorem spelling_level : (type : GoType) → (tags : Tags) → (value other : Value type) →
    SameValue type value other →
      Level (spelling tags type value) (spelling tags type other)
  | .uint _, _, _, _, same => same ▸ .refl _
  | .int _, _, _, _, same => same ▸ .refl _
  | .bool, _, _, _, same => same ▸ .refl _
  | .string, _, _, _, same => same ▸ .refl _
  | .bigInt, _, _, _, same => same ▸ .refl _
  | .number, _, _, _, same => same ▸ .refl _
  | .rawValue, _, _, _, same => same ▸ .refl _
  | .slice elem, tags, (value : List (Value elem)), (other : List (Value elem)), same => by
      cases bytes : elem.isByte with
      | true =>
          obtain rfl := GoType.eq_byte_of_isByte bytes
          rw [bytes_eq_of_forall₂ same]
          exact .refl _
      | false =>
          have level := Level.flatMap (spelling_level elem {}) same
          rw [spelling_slice bytes tags value, spelling_slice bytes tags other]
          split_ifs
          · exact level
          · exact level.wireList
  | .array length elem, tags, value, other, same => by
      cases bytes : elem.isByte with
      | true =>
          obtain rfl := GoType.eq_byte_of_isByte bytes
          rw [Subtype.ext (bytes_eq_of_forall₂ same)]
          exact .refl _
      | false =>
          rw [spelling_array bytes tags value, spelling_array bytes tags other]
          exact (Level.flatMap (spelling_level elem {}) same).wireList
  | .struct fields, _, value, other, same => (fieldSpelling_level fields value other same).wireList
  | .ptr elem, _, _, _, .none => .refl _
  | .ptr elem, _, _, _, .some same => spelling_level elem {} _ _ same
  | .map key elem, tags, (value : List (Value key × Value elem)),
      (other : List (Value key × Value elem)), ⟨reordered, perm, related⟩ => by
      have parts : ∀ left right : Value key × Value elem, SameEntry left right →
          Level (entryBytes (entrySpelling left).1 (entrySpelling left).2)
            (entryBytes (entrySpelling right).1 (entrySpelling right).2) := by
        intro left right same
        exact (((spelling_level key {} _ _ same.1).wireString.append
          (spelling_level elem {} _ _ same.2).wireString).wireList).wireString
      have sorted : ∀ entries : List (Value key × Value elem),
          ((sortEntries key entries).flatMap fun entry =>
            entryBytes (entrySpelling entry).1 (entrySpelling entry).2).length =
          (entries.flatMap fun entry =>
            entryBytes (entrySpelling entry).1 (entrySpelling entry).2).length :=
        fun entries => ((sortByKey_perm _ entries).flatMap_right _).length_eq
      rw [spelling_map tags key elem value, spelling_map tags key elem other, mapBytes, mapBytes,
        List.flatMap_map, List.flatMap_map]
      refine Level.listString ?_
      rw [sorted, sorted]
      exact (perm.flatMap_right _).length_eq.trans (Level.flatMap parts related).1

theorem fieldSpelling_level : (fields : Fields) → (value other : FieldValues fields) →
    SameFields fields value other →
      Level (fieldSpelling fields value) (fieldSpelling fields other)
  | .nil, _, _, _ => .refl _
  | .cons _ tags type rest, value, other, same => by
      rw [fieldSpelling_cons, fieldSpelling_cons]
      exact (spelling_level type tags value.1 other.1 same.1).append
        (fieldSpelling_level rest value.2 other.2 same.2)
end

private theorem forall_mem_iff {related : α → α → Prop} {holds : α → Prop}
    (each : ∀ value other, related value other → (holds value ↔ holds other))
    {values others : List α} (all : List.Forall₂ related values others) :
    (∀ value ∈ values, holds value) ↔ ∀ other ∈ others, holds other := by
  induction all with
  | nil => simp
  | cons head _ ih => rw [List.forall_mem_cons, List.forall_mem_cons, each _ _ head, ih]

mutual
theorem SameValue.nonNegative_iff : (type : GoType) → (value other : Value type) →
    SameValue type value other → (NonNegative type value ↔ NonNegative type other)
  | .uint _, _, _, _ => Iff.rfl
  | .int _, _, _, _ => Iff.rfl
  | .bool, _, _, _ => Iff.rfl
  | .string, _, _, _ => Iff.rfl
  | .bigInt, _, _, same => same ▸ Iff.rfl
  | .number, _, _, _ => Iff.rfl
  | .rawValue, _, _, _ => Iff.rfl
  | .slice elem, _, _, same => forall_mem_iff (SameValue.nonNegative_iff elem) same
  | .array _ elem, _, _, same => forall_mem_iff (SameValue.nonNegative_iff elem) same
  | .struct fields, value, other, same => SameFields.nonNegative_iff fields value other same
  | .ptr _, _, _, .none => Iff.rfl
  | .ptr elem, _, _, .some same => by
      have inner := SameValue.nonNegative_iff elem _ _ same
      exact ⟨fun all found member => Option.some.inj member ▸ inner.1 (all _ rfl),
        fun all found member => Option.some.inj member ▸ inner.2 (all _ rfl)⟩
  | .map key elem, _, _, ⟨_, perm, related⟩ => by
      refine Iff.trans ⟨fun all entry member => all entry (perm.mem_iff.2 member),
        fun all entry member => all entry (perm.mem_iff.1 member)⟩
        (forall_mem_iff (fun left right same => ?_) related)
      exact and_congr (SameValue.nonNegative_iff key left.1 right.1 same.1)
        (SameValue.nonNegative_iff elem left.2 right.2 same.2)

theorem SameFields.nonNegative_iff : (fields : Fields) → (value other : FieldValues fields) →
    SameFields fields value other →
      (FieldsNonNegative fields value ↔ FieldsNonNegative fields other)
  | .nil, _, _, _ => Iff.rfl
  | .cons _ _ type rest, value, other, same =>
      and_congr (SameValue.nonNegative_iff type value.1 other.1 same.1)
        (SameFields.nonNegative_iff rest value.2 other.2 same.2)
end

/-- The encoding does not depend on the order in which maps are enumerated if and
only if the maps inside the value are sorted or do not show their order.  Where a
big integer is negative, every order gives the same error. -/
theorem encodeToBytes_orderFree_iff {type : GoType} {value : Value type}
    (distinct : DistinctKeys type value) (fits : encodedLength type value < maxLen) :
    (∀ other, SameValue type value other →
        encodeToBytes type other = encodeToBytes type value) ↔
      (NonNegative type value → OrderFree type value) := by
  have fitsOther : ∀ other, SameValue type value other → encodedLength type other < maxLen :=
    fun other same => (spelling_level type {} value other same).1.symm.trans_lt fits
  by_cases nonNegative : NonNegative type value
  · have encoded : ∀ other, SameValue type value other →
        encodeToBytes type other = .ok (spelling {} type other) := fun other same =>
      encodeToBytes_eq ((SameValue.nonNegative_iff type value other same).1 nonNegative)
        (fitsOther other same)
    have self := encoded value (SameValue.refl type value)
    rw [← steadfast_iff type {} value distinct fits]
    constructor
    · intro all _ other same
      exact Except.ok.inj ((encoded other same).symm.trans ((all other same).trans self))
    · intro steadfast other same
      rw [encoded other same, self, steadfast nonNegative other same]
  · refine ⟨fun _ holds => absurd holds nonNegative, fun _ other same => ?_⟩
    rw [encodeToBytes_negative nonNegative fits, encodeToBytes_negative
      (fun holds => nonNegative ((SameValue.nonNegative_iff type value other same).2 holds))
      (fitsOther other same)]

theorem encodeToBytes_orderFree_strings :
    DistinctKeys (.map .string (.uint .uint8))
        ([([0x61], 1), ([0x62], 2)] : List (List Byte × BitVec 8)) ∧
      ∀ other, SameValue (.map .string (.uint .uint8))
          ([([0x61], 1), ([0x62], 2)] : List (List Byte × BitVec 8)) other →
        encodeToBytes (.map .string (.uint .uint8)) other =
          encodeToBytes (.map .string (.uint .uint8))
            ([([0x61], 1), ([0x62], 2)] : List (List Byte × BitVec 8)) := by
  have distinct : DistinctKeys (.map .string (.uint .uint8))
      ([([0x61], 1), ([0x62], 2)] : List (List Byte × BitVec 8)) :=
    ⟨fun _ => by decide, fun _ _ => ⟨trivial, trivial⟩⟩
  exact ⟨distinct, (encodeToBytes_orderFree_iff distinct (by decide +kernel)).2
    fun _ => ⟨.inl rfl, fun _ _ => ⟨trivial, trivial⟩⟩⟩

/-- The two ways to enumerate `{false: 1, true: 2}` of type `map[bool]uint8`. -/
theorem encodeToBytes_bool_keys :
    SameValue (.map .bool (.uint .uint8)) ([(false, 1), (true, 2)] : List (Bool × BitVec 8))
        ([(true, 2), (false, 1)] : List (Bool × BitVec 8)) ∧
      encodeToBytes (.map .bool (.uint .uint8))
          ([(false, 1), (true, 2)] : List (Bool × BitVec 8)) =
        .ok [0x8A, 0xC9, 0x84, 0xC3, 0x81, 0x80, 0x01, 0x83, 0xC2, 0x01, 0x02] ∧
      encodeToBytes (.map .bool (.uint .uint8))
          ([(true, 2), (false, 1)] : List (Bool × BitVec 8)) ≠
        .ok [0x8A, 0xC9, 0x84, 0xC3, 0x81, 0x80, 0x01, 0x83, 0xC2, 0x01, 0x02] := by
  refine ⟨⟨_, List.Perm.swap _ _ _, List.forall₂_same.2 fun _ _ => ⟨rfl, rfl⟩⟩, ?_, ?_⟩
  · decide +kernel
  · decide +kernel

end Bclib.Rlp
