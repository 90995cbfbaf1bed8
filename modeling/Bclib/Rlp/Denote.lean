import Bclib.Data.Assoc
import Bclib.Rlp.ParseSpec

namespace Bclib.Rlp

open Data
open Go

/-! The value an item stands for, and the values that survive the trip. -/

mutual
/-- Of two entries with the same key the later one counts. -/
def denote : (type : GoType) → Item type → Value type
  | .uint _, item => item
  | .int _, item => item
  | .bool, item => item
  | .string, item => item
  | .bigInt, (item : Nat) => (item : Int)
  | .number, item => some (Bn.setBytes none item)
  | .rawValue, item => item
  | .slice elem, (items : List (Item elem)) => items.map (denote elem)
  | .array _ elem, items => ⟨items.1.map (denote elem), by simp [items.2]⟩
  | .struct fields, items => denoteFields fields items
  | .ptr elem, (item : Option (Item elem)) => item.map (denote elem)
  | .map key elem, (entries : List (Item key × Item elem)) =>
      assocOf (entries.map fun entry => (denote key entry.1, denote elem entry.2))

def denoteFields : (fields : Fields) → FieldItems fields → FieldValues fields
  | .nil, _ => ()
  | .cons _ _ type rest, items => (denote type items.1, denoteFields rest items.2)
end

mutual
/-- No pointer or number inside the value is nil, no big integer negative, and no
map has two entries for one key. -/
def Solid : (type : GoType) → Value type → Prop
  | .uint _, _ => True
  | .int _, _ => True
  | .bool, _ => True
  | .string, _ => True
  | .bigInt, (value : Int) => 0 ≤ value
  | .number, (value : Option Int) => value.isSome = true
  | .rawValue, _ => True
  | .slice elem, (value : List (Value elem)) => ∀ inner ∈ value, Solid elem inner
  | .array _ elem, value => ∀ inner ∈ value.1, Solid elem inner
  | .struct fields, value => FieldsSolid fields value
  | .ptr elem, (value : Option (Value elem)) =>
      ∃ inner, value = some inner ∧ Solid elem inner
  | .map key elem, (value : List (Value key × Value elem)) =>
      (value.map Prod.fst).Nodup ∧
        ∀ entry ∈ value, Solid key entry.1 ∧ Solid elem entry.2

def FieldsSolid : (fields : Fields) → FieldValues fields → Prop
  | .nil, _ => True
  | .cons _ _ type rest, value => Solid type value.1 ∧ FieldsSolid rest value.2
end

def scalar : GoType → Bool
  | .uint _ => true
  | .int _ => true
  | .bool => true
  | .string => true
  | _ => false

mutual
def scalarKeys : GoType → Bool
  | .uint _ => true
  | .int _ => true
  | .bool => true
  | .string => true
  | .bigInt => true
  | .number => true
  | .rawValue => true
  | .slice elem => scalarKeys elem
  | .array _ elem => scalarKeys elem
  | .struct fields => scalarKeysFields fields
  | .ptr elem => scalarKeys elem
  | .map key elem => scalar key && scalarKeys elem

def scalarKeysFields : Fields → Bool
  | .nil => true
  | .cons _ _ type rest => scalarKeys type && scalarKeysFields rest
end

theorem denote_itemOf_scalar : (type : GoType) → scalar type = true →
    (value : Value type) → denote type (itemOf type value) = value
  | .uint _, _, _ => rfl
  | .int _, _, _ => rfl
  | .bool, _, _ => rfl
  | .string, _, _ => rfl

mutual
theorem Solid.nonNegative : (type : GoType) → (value : Value type) →
    Solid type value → NonNegative type value
  | .uint _, _, _ => trivial
  | .int _, _, _ => trivial
  | .bool, _, _ => trivial
  | .string, _, _ => trivial
  | .bigInt, _, solid => solid
  | .number, _, _ => trivial
  | .rawValue, _, _ => trivial
  | .slice elem, _, solid => fun inner member =>
      Solid.nonNegative elem inner (solid inner member)
  | .array _ elem, _, solid => fun inner member =>
      Solid.nonNegative elem inner (solid inner member)
  | .struct fields, value, solid => FieldsSolid.nonNegative fields value solid
  | .ptr elem, _, ⟨inner, rfl, solid⟩ => by
      rintro other found
      cases found
      exact Solid.nonNegative elem inner solid
  | .map key elem, _, solid => fun entry member =>
      ⟨Solid.nonNegative key entry.1 (solid.2 entry member).1,
        Solid.nonNegative elem entry.2 (solid.2 entry member).2⟩

theorem FieldsSolid.nonNegative : (fields : Fields) → (value : FieldValues fields) →
    FieldsSolid fields value → FieldsNonNegative fields value
  | .nil, _, _ => trivial
  | .cons _ _ type rest, value, solid =>
      ⟨Solid.nonNegative type value.1 solid.1, FieldsSolid.nonNegative rest value.2 solid.2⟩
end

mutual
theorem Solid.present : (type : GoType) → (value : Value type) →
    Solid type value → Present type (itemOf type value)
  | .uint _, _, _ => trivial
  | .int _, _, _ => trivial
  | .bool, _, _ => trivial
  | .string, _, _ => trivial
  | .bigInt, _, _ => trivial
  | .number, _, _ => trivial
  | .rawValue, _, _ => trivial
  | .slice elem, _, solid => List.forall_mem_map.2 fun inner member =>
      Solid.present elem inner (solid inner member)
  | .array _ elem, _, solid => List.forall_mem_map.2 fun inner member =>
      Solid.present elem inner (solid inner member)
  | .struct fields, value, solid => FieldsSolid.present fields value solid
  | .ptr elem, _, ⟨inner, rfl, solid⟩ =>
      ⟨itemOf elem inner, rfl, Solid.present elem inner solid⟩
  | .map key elem, _, solid => List.forall_mem_map.2 fun entry member =>
      ⟨Solid.present key entry.1 (solid.2 entry (mem_sortByKey.1 member)).1,
        Solid.present elem entry.2 (solid.2 entry (mem_sortByKey.1 member)).2⟩

theorem FieldsSolid.present : (fields : Fields) → (value : FieldValues fields) →
    FieldsSolid fields value → FieldsPresent fields (fieldItemsOf fields value)
  | .nil, _, _ => trivial
  | .cons _ _ type rest, value, solid =>
      ⟨Solid.present type value.1 solid.1, FieldsSolid.present rest value.2 solid.2⟩
end

private theorem forall₂_map_self {related : β → α → Prop} {f : α → β} {values : List α}
    (each : ∀ value ∈ values, related (f value) value) :
    List.Forall₂ related (values.map f) values := by
  rw [List.forall₂_map_left_iff]
  exact List.forall₂_same.2 each

private theorem denote_map_itemOf {key elem : GoType} (simple : scalar key = true)
    (value : List (Value key × Value elem)) (distinct : (value.map Prod.fst).Nodup) :
    denote (.map key elem) (itemOf (.map key elem) value) =
      (sortEntries key value).map fun entry =>
        (entry.1, denote elem (itemOf elem entry.2)) := by
  have entries : ((sortEntries key value).map fun entry =>
        (itemOf key entry.1, itemOf elem entry.2)).map
        (fun entry => (denote key entry.1, denote elem entry.2)) =
      (sortEntries key value).map fun entry =>
        (entry.1, denote elem (itemOf elem entry.2)) := by
    rw [List.map_map]
    refine List.map_congr_left fun entry _ => ?_
    exact Prod.ext (denote_itemOf_scalar key simple entry.1) rfl
  refine Eq.trans (congrArg assocOf entries) (assocOf_of_nodup ?_)
  rw [List.map_map]
  exact ((sortByKey_perm _ value).map Prod.fst).nodup_iff.2 distinct

theorem sameValue_scalar : (type : GoType) → scalar type = true →
    (value : Value type) → SameValue type value value
  | .uint _, _, _ => rfl
  | .int _, _, _ => rfl
  | .bool, _, _ => rfl
  | .string, _, _ => rfl

mutual
theorem Solid.sameValue : (type : GoType) → scalarKeys type = true →
    (value : Value type) → Solid type value →
      SameValue type (denote type (itemOf type value)) value
  | .uint _, _, _, _ => rfl
  | .int _, _, _, _ => rfl
  | .bool, _, _, _ => rfl
  | .string, _, _, _ => rfl
  | .bigInt, _, _, solid => Int.natAbs_of_nonneg solid
  | .number, _, some number, _ => congrArg some (Bn.setBytes_bytes none number)
  | .rawValue, _, _, _ => rfl
  | .slice elem, keys, (value : List (Value elem)), solid => by
      have each := fun inner member => Solid.sameValue elem keys inner (solid inner member)
      have items : denote (.slice elem) (itemOf (.slice elem) value) =
          value.map (fun inner => denote elem (itemOf elem inner)) := List.map_map
      rw [items]
      exact forall₂_map_self each
  | .array length elem, keys, value, solid => by
      have each := fun inner member => Solid.sameValue elem keys inner (solid inner member)
      have items : (denote (.array length elem) (itemOf (.array length elem) value)).1 =
          value.1.map (fun inner => denote elem (itemOf elem inner)) := List.map_map
      rw [SameValue, items]
      exact forall₂_map_self each
  | .struct fields, keys, value, solid => FieldsSolid.sameFields fields keys value solid
  | .ptr elem, keys, _, ⟨inner, rfl, solid⟩ =>
      .some (Solid.sameValue elem keys inner solid)
  | .map key elem, keys, (value : List (Value key × Value elem)), solid => by
      simp only [scalarKeys, Bool.and_eq_true] at keys
      refine ⟨value.map fun entry => (entry.1, denote elem (itemOf elem entry.2)), ?_, ?_⟩
      · rw [denote_map_itemOf keys.1 value solid.1]
        exact (sortByKey_perm _ value).map _
      · exact forall₂_map_self fun entry member =>
          ⟨sameValue_scalar key keys.1 entry.1,
            Solid.sameValue elem keys.2 entry.2 (solid.2 entry member).2⟩

theorem FieldsSolid.sameFields : (fields : Fields) → scalarKeysFields fields = true →
    (value : FieldValues fields) → FieldsSolid fields value →
      SameFields fields (denoteFields fields (fieldItemsOf fields value)) value
  | .nil, _, _, _ => trivial
  | .cons _ _ type rest, keys, value, solid => by
      simp only [scalarKeysFields, Bool.and_eq_true] at keys
      exact ⟨Solid.sameValue type keys.1 value.1 solid.1,
        FieldsSolid.sameFields rest keys.2 value.2 solid.2⟩
end

mutual
theorem denote_solid : (type : GoType) → (item : Item type) → Present type item →
    Solid type (denote type item)
  | .uint _, _, _ => trivial
  | .int _, _, _ => trivial
  | .bool, _, _ => trivial
  | .string, _, _ => trivial
  | .bigInt, (item : Nat), _ => Int.natCast_nonneg item
  | .number, _, _ => rfl
  | .rawValue, _, _ => trivial
  | .slice elem, _, present => List.forall_mem_map.2 fun item member =>
      denote_solid elem item (present item member)
  | .array _ elem, _, present => List.forall_mem_map.2 fun item member =>
      denote_solid elem item (present item member)
  | .struct fields, items, present => denoteFields_solid fields items present
  | .ptr elem, _, ⟨inner, rfl, present⟩ =>
      ⟨denote elem inner, rfl, denote_solid elem inner present⟩
  | .map key elem, (entries : List (Item key × Item elem)), present => by
      refine ⟨nodup_assocOf _, fun entry member => ?_⟩
      obtain ⟨item, found, rfl⟩ := List.mem_map.1 (mem_assocOf member)
      exact ⟨denote_solid key item.1 (present item found).1,
        denote_solid elem item.2 (present item found).2⟩

theorem denoteFields_solid : (fields : Fields) → (items : FieldItems fields) →
    FieldsPresent fields items → FieldsSolid fields (denoteFields fields items)
  | .nil, _, _ => trivial
  | .cons _ _ type rest, items, present =>
      ⟨denote_solid type items.1 present.1, denoteFields_solid rest items.2 present.2⟩
end

mutual
/-- The type has no `bn.Number` inside: its sign byte may be any byte but `0xFF`. -/
def numberFree : GoType → Bool
  | .uint _ => true
  | .int _ => true
  | .bool => true
  | .string => true
  | .bigInt => true
  | .number => false
  | .rawValue => true
  | .slice elem => numberFree elem
  | .array _ elem => numberFree elem
  | .struct fields => numberFreeFields fields
  | .ptr elem => numberFree elem
  | .map key elem => numberFree key && numberFree elem

def numberFreeFields : Fields → Bool
  | .nil => true
  | .cons _ _ type rest => numberFree type && numberFreeFields rest
end

private theorem map_map_self {f : α → β} {g : β → α} (inverse : ∀ item, g (f item) = item)
    {items : List α} : (items.map f).map g = items := by
  rw [List.map_map]
  exact List.map_id'' inverse items

mutual
theorem itemOf_denote : (type : GoType) → mapFree type = true → numberFree type = true →
    (item : Item type) → itemOf type (denote type item) = item
  | .uint _, _, _, _ => rfl
  | .int _, _, _, _ => rfl
  | .bool, _, _, _ => rfl
  | .string, _, _, _ => rfl
  | .bigInt, _, _, (item : Nat) => Int.natAbs_natCast item
  | .rawValue, _, _, _ => rfl
  | .slice elem, noMaps, noNumbers, items =>
      map_map_self fun item => itemOf_denote elem noMaps noNumbers item
  | .array _ elem, noMaps, noNumbers, items =>
      Subtype.ext (map_map_self fun item => itemOf_denote elem noMaps noNumbers item)
  | .struct fields, noMaps, noNumbers, items =>
      fieldItemsOf_denoteFields fields noMaps noNumbers items
  | .ptr elem, noMaps, noNumbers, item => by
      cases item with
      | none => rfl
      | some item => exact congrArg some (itemOf_denote elem noMaps noNumbers item)

theorem fieldItemsOf_denoteFields : (fields : Fields) → mapFreeFields fields = true →
    numberFreeFields fields = true → (items : FieldItems fields) →
      fieldItemsOf fields (denoteFields fields items) = items
  | .nil, _, _, _ => rfl
  | .cons _ _ type rest, noMaps, noNumbers, items => by
      simp only [mapFreeFields, numberFreeFields, Bool.and_eq_true] at noMaps noNumbers
      exact Prod.ext (itemOf_denote type noMaps.1 noNumbers.1 items.1)
        (fieldItemsOf_denoteFields rest noMaps.2 noNumbers.2 items.2)
end

end Bclib.Rlp
