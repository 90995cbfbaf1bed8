import Bclib.Rlp.Aliasing

namespace Bclib.Rlp

open Data
open Go

/-! The round trip of maps.  All entries of a map are decoded through one variable,
so it holds where that variable can be reused. -/

mutual
/-- Every map inside the value with more than one entry has an element type whose
variables can be reused. -/
def Separate : (type : GoType) → Value type → Prop
  | .uint _, _ => True
  | .int _, _ => True
  | .bool, _ => True
  | .string, _ => True
  | .bigInt, _ => True
  | .number, _ => True
  | .rawValue, _ => True
  | .slice elem, (value : List (Value elem)) => ∀ inner ∈ value, Separate elem inner
  | .array _ elem, value => ∀ inner ∈ value.1, Separate elem inner
  | .struct fields, value => FieldsSeparate fields value
  | .ptr elem, (value : Option (Value elem)) => ∀ inner ∈ value, Separate elem inner
  | .map _ elem, (value : List (Value _ × Value elem)) =>
      (value.length ≤ 1 ∨ reusable elem = true) ∧
        ∀ entry ∈ value, Separate elem entry.2

def FieldsSeparate : (fields : Fields) → FieldValues fields → Prop
  | .nil, _ => True
  | .cons _ _ type rest, value => Separate type value.1 ∧ FieldsSeparate rest value.2
end

mutual
theorem Separate.unshared : (type : GoType) → (value : Value type) →
    Separate type value → Unshared type (itemOf type value)
  | .uint _, _, _ => trivial
  | .int _, _, _ => trivial
  | .bool, _, _ => trivial
  | .string, _, _ => trivial
  | .bigInt, _, _ => trivial
  | .number, _, _ => trivial
  | .rawValue, _, _ => trivial
  | .slice elem, _, separate => List.forall_mem_map.2 fun inner member =>
      Separate.unshared elem inner (separate inner member)
  | .array _ elem, _, separate => List.forall_mem_map.2 fun inner member =>
      Separate.unshared elem inner (separate inner member)
  | .struct fields, value, separate => FieldsSeparate.unshared fields value separate
  | .ptr elem, (value : Option (Value elem)), separate => by
      rintro item found
      obtain ⟨inner, member, rfl⟩ := Option.mem_map.1 found
      exact Separate.unshared elem inner (separate inner member)
  | .map key elem, (value : List (Value key × Value elem)), separate => by
      refine ⟨separate.1.imp (fun few => ?_) id, List.forall_mem_map.2 fun entry member =>
        Separate.unshared elem entry.2 (separate.2 entry (mem_sortByKey.1 member))⟩
      refine Nat.le_trans (Nat.le_of_eq ?_) few
      exact List.length_map _ |>.trans (sortByKey_perm _ value).length_eq

theorem FieldsSeparate.unshared : (fields : Fields) → (value : FieldValues fields) →
    FieldsSeparate fields value → FieldsUnshared fields (fieldItemsOf fields value)
  | .nil, _, _ => trivial
  | .cons _ _ type rest, value, separate =>
      ⟨Separate.unshared type value.1 separate.1,
        FieldsSeparate.unshared rest value.2 separate.2⟩
end

mutual
theorem separate_of_separable : (type : GoType) → separable type = true →
    (value : Value type) → Separate type value
  | .uint _, _, _ => trivial
  | .int _, _, _ => trivial
  | .bool, _, _ => trivial
  | .string, _, _ => trivial
  | .bigInt, _, _ => trivial
  | .number, _, _ => trivial
  | .rawValue, _, _ => trivial
  | .slice elem, free, _ => fun inner _ => separate_of_separable elem free inner
  | .array _ elem, free, _ => fun inner _ => separate_of_separable elem free inner
  | .struct fields, free, value => fieldsSeparate_of_separable fields free value
  | .ptr elem, free, _ => fun inner _ => separate_of_separable elem free inner
  | .map _ elem, free, _ => by
      simp only [separable, Bool.and_eq_true] at free
      exact ⟨.inr free.1, fun entry _ => separate_of_separable elem free.2 entry.2⟩

theorem fieldsSeparate_of_separable : (fields : Fields) → separableFields fields = true →
    (value : FieldValues fields) → FieldsSeparate fields value
  | .nil, _, _ => trivial
  | .cons _ _ type rest, free, value => by
      simp only [separableFields, Bool.and_eq_true] at free
      exact ⟨separate_of_separable type free.1 value.1,
        fieldsSeparate_of_separable rest free.2 value.2⟩
end

theorem roundTrips_of_separate {type : GoType} (plain : codable type = true)
    (keys : scalarKeys type = true) {value : Value type} (solid : Solid type value)
    (fits : encodedLength type value < maxLen) (separate : Separate type value) :
    RoundTrips type value :=
  roundTrips_of_unshared plain keys solid (Separate.unshared type value separate) fits

theorem not_roundTrips_of_fails {type : GoType} (plain : codable type = true)
    {value : Value type} (solid : Solid type value)
    (fits : encodedLength type value < maxLen) (fails : Fails type value) :
    ¬RoundTrips type value := by
  rintro ⟨b, back, encoded, same, decoded⟩
  rw [encodeToBytes_eq (Solid.nonNegative type value solid) fits] at encoded
  obtain rfl := Except.ok.inj encoded
  have enough := Nat.lt_succ_self (itemBytes type (itemOf type value)).length
  have parsed := parseBytes_complete (parse_reads _ type plain) type
    (Solid.present type value solid) fits enough
  obtain ⟨success, heap, cell⟩ := decodeBytesInto_accepts (makeDecoder_simulates _ type plain)
    fits enough .empty (zeroCell type) parsed
  have read := decoded _ enough
  simp only [decodeBytes, success, heap, cell, Except.ok.injEq] at read
  exact fails .empty (zeroCell type) _ (read ▸ same)

/-- Maps survive the round trip where variables of their element types can be
reused.  Those are all the map types for which every map does. -/
theorem map_roundTrips_iff {key elem : GoType} (plain : codable (.map key elem) = true)
    (keys : scalarKeys (.map key elem) = true) :
    (∀ value, Solid (.map key elem) value →
      encodedLength (.map key elem) value < maxLen →
        Separate (.map key elem) value → RoundTrips (.map key elem) value) ∧
    (arrayFree (.map key elem) = true →
      encodedLength (.map key elem) (failingValue (.map key elem)) < maxLen →
        ((∀ value, Solid (.map key elem) value →
            encodedLength (.map key elem) value < maxLen →
              RoundTrips (.map key elem) value) ↔
          separable (.map key elem) = true)) := by
  refine ⟨fun value solid fits separate => roundTrips_of_separate plain keys solid fits separate,
    fun noArrays room => ⟨fun all => ?_, fun free value solid fits => ?_⟩⟩
  · by_contra mixed
    have solid := failingValue_solid (.map key elem) keys
    exact not_roundTrips_of_fails plain solid room
      (failingValue_fails (.map key elem) noArrays keys rfl (Bool.not_eq_true _ ▸ mixed))
      (all _ solid room)
  · exact roundTrips_of_separate plain keys solid fits
      (separate_of_separable (.map key elem) free value)

theorem map_roundTrips_iff_strings :
    RoundTrips (.map .string .string)
        ([([0x61], [0x31]), ([0x62], [0x32])] : List (List Byte × List Byte)) ∧
      ¬∀ value, Solid (.map .string (.slice (.uint .uint64))) value →
        encodedLength (.map .string (.slice (.uint .uint64))) value < maxLen →
          RoundTrips (.map .string (.slice (.uint .uint64))) value := by
  refine ⟨(map_roundTrips_iff rfl rfl).1 _ ⟨by decide, fun _ _ => ⟨trivial, trivial⟩⟩
    (by decide +kernel) ⟨.inr rfl, fun _ _ => trivial⟩, fun all => ?_⟩
  exact absurd ((map_roundTrips_iff rfl rfl).2 rfl (by decide +kernel) |>.1 all) (by decide)

/-- `{"a": [1, 2], "b": [3]}` of type `map[string][]uint64`. -/
def overlapping : Value (.map .string (.slice (.uint .uint64))) :=
  ([([0x61], [1, 2]), ([0x62], [3])] : List (List Byte × List (BitVec 64)))

/-- `{"a": [3, 2], "b": [3]}`. -/
def overwritten : Value (.map .string (.slice (.uint .uint64))) :=
  ([([0x61], [3, 2]), ([0x62], [3])] : List (List Byte × List (BitVec 64)))

private theorem overlapping_encoded :
    encodeToBytes (.map .string (.slice (.uint .uint64))) overlapping =
      .ok [0x8E, 0xCD, 0x86, 0xC5, 0x61, 0x83, 0xC2, 0x01, 0x02,
        0x85, 0xC4, 0x62, 0x82, 0xC1, 0x03] := by
  decide +kernel

private theorem overlapping_decoded :
    decodeBytes 16 (.map .string (.slice (.uint .uint64)))
      [0x8E, 0xCD, 0x86, 0xC5, 0x61, 0x83, 0xC2, 0x01, 0x02,
        0x85, 0xC4, 0x62, 0x82, 0xC1, 0x03] = .ok overwritten := by
  decide +kernel

/-- The second entry is decoded over the elements of the first. -/
theorem overlapping_not_roundTrips :
    Solid (.map .string (.slice (.uint .uint64))) overlapping ∧
      ¬RoundTrips (.map .string (.slice (.uint .uint64))) overlapping := by
  refine ⟨⟨by decide, fun _ _ => ⟨trivial, fun _ _ => trivial⟩⟩, ?_⟩
  rintro ⟨b, back, encoded, ⟨reordered, perm, related⟩, decoded⟩
  obtain rfl := Except.ok.inj (overlapping_encoded.symm.trans encoded)
  obtain rfl := Except.ok.inj (overlapping_decoded.symm.trans (decoded 16 (by decide)))
  obtain ⟨first, _, ⟨key, value⟩, _, rfl⟩ := List.forall₂_cons_right_iff.1 related
  have entry : first = (([0x61], [1, 2]) : List Byte × List (BitVec 64)) :=
    Prod.ext key (SameValue.eq (.slice (.uint .uint64)) rfl value)
  have member := perm.mem_iff.2 (List.mem_cons_self ..)
  have absent : (([0x61], [1, 2]) : List Byte × List (BitVec 64)) ∉
      ([([0x61], [3, 2]), ([0x62], [3])] : List (List Byte × List (BitVec 64))) := by
    decide
  rw [entry] at member
  exact absent member

end Bclib.Rlp
