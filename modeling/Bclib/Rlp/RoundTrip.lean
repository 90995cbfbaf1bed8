import Bclib.Rlp.Simulation
import Bclib.Rlp.StoreSpec
import Bclib.Rlp.Writers

namespace Bclib.Rlp

open Data
open Go

/-! `EncodeToBytes` and `DecodeBytes` are inverse to each other. -/

mutual
theorem unshared_of_mapFree : (type : GoType) → mapFree type = true →
    (item : Item type) → Unshared type item
  | .uint _, _, _ => trivial
  | .int _, _, _ => trivial
  | .bool, _, _ => trivial
  | .string, _, _ => trivial
  | .bigInt, _, _ => trivial
  | .number, _, _ => trivial
  | .rawValue, _, _ => trivial
  | .slice elem, free, _ => fun item _ => unshared_of_mapFree elem free item
  | .array _ elem, free, _ => fun item _ => unshared_of_mapFree elem free item
  | .struct fields, free, items => fieldsUnshared_of_mapFree fields free items
  | .ptr elem, free, _ => fun inner _ => unshared_of_mapFree elem free inner

theorem fieldsUnshared_of_mapFree : (fields : Fields) → mapFreeFields fields = true →
    (items : FieldItems fields) → FieldsUnshared fields items
  | .nil, _, _ => trivial
  | .cons _ _ type rest, free, items => by
      simp only [mapFreeFields, Bool.and_eq_true] at free
      exact ⟨unshared_of_mapFree type free.1 items.1,
        fieldsUnshared_of_mapFree rest free.2 items.2⟩
end

mutual
theorem scalarKeys_of_mapFree : (type : GoType) → mapFree type = true →
    scalarKeys type = true
  | .uint _, _ => rfl
  | .int _, _ => rfl
  | .bool, _ => rfl
  | .string, _ => rfl
  | .bigInt, _ => rfl
  | .number, _ => rfl
  | .rawValue, _ => rfl
  | .slice elem, free => scalarKeys_of_mapFree elem free
  | .array _ elem, free => scalarKeys_of_mapFree elem free
  | .struct fields, free => scalarKeysFields_of_mapFree fields free
  | .ptr elem, free => scalarKeys_of_mapFree elem free

theorem scalarKeysFields_of_mapFree : (fields : Fields) → mapFreeFields fields = true →
    scalarKeysFields fields = true
  | .nil, _ => rfl
  | .cons _ _ type rest, free => by
      simp only [mapFreeFields, Bool.and_eq_true] at free
      simp only [scalarKeysFields, Bool.and_eq_true]
      exact ⟨scalarKeys_of_mapFree type free.1, scalarKeysFields_of_mapFree rest free.2⟩
end

private theorem forall₂_eq {related : α → α → Prop}
    (each : ∀ left right, related left right → left = right) {left right : List α}
    (same : List.Forall₂ related left right) : left = right := by
  have equal := same.imp each
  rw [List.forall₂_eq_eq_eq] at equal
  exact equal

mutual
theorem SameValue.eq : (type : GoType) → mapFree type = true →
    {left right : Value type} → SameValue type left right → left = right
  | .uint _, _, _, _, same => same
  | .int _, _, _, _, same => same
  | .bool, _, _, _, same => same
  | .string, _, _, _, same => same
  | .bigInt, _, _, _, same => same
  | .number, _, _, _, same => same
  | .rawValue, _, _, _, same => same
  | .slice elem, free, left, right, same =>
      forall₂_eq (fun _ _ => SameValue.eq elem free) same
  | .array _ elem, free, left, right, same =>
      Subtype.ext (forall₂_eq (fun _ _ => SameValue.eq elem free) same)
  | .struct fields, free, _, _, same => SameFields.eq fields free same
  | .ptr elem, free, left, right, same => by
      cases same with
      | none => rfl
      | some same => exact congrArg some (SameValue.eq elem free same)

theorem SameFields.eq : (fields : Fields) → mapFreeFields fields = true →
    {left right : FieldValues fields} → SameFields fields left right → left = right
  | .nil, _, _, _, _ => rfl
  | .cons _ _ type rest, free, left, right, same => by
      simp only [mapFreeFields, Bool.and_eq_true] at free
      exact Prod.ext (SameValue.eq type free.1 same.1) (SameFields.eq rest free.2 same.2)
end

/-! `DecodeBytes` is the parser, and the value of the item it returns. -/

section Decode

variable {fuel : Nat} {type : GoType} {b : List Byte}

theorem decodeBytes_of_parse (plain : codable type = true) (keys : scalarKeys type = true)
    (short : b.length < maxLen) (enough : b.length < fuel) {item : Item type}
    (ran : parseBytes type (parse fuel type {}) b = .ok item)
    (unshared : Unshared type item) : decodeBytes fuel type b = .ok (denote type item) := by
  obtain ⟨success, heap, cell⟩ := decodeBytesInto_accepts (makeDecoder_simulates fuel type plain)
    short enough .empty (zeroCell type) ran
  have present := (parseBytes_accepts (parse_reads fuel type plain) short enough ran).1
  have stored := store_stores type keys item present unshared .empty (zeroCell type)
    Heap.tidy_empty (clean_zeroCell _ type)
  simp only [decodeBytes, success, heap, cell, stored.loads]

theorem parse_of_decodeBytes (plain : codable type = true) (short : b.length < maxLen)
    (enough : b.length < fuel) {value : Value type}
    (ran : decodeBytes fuel type b = .ok value) :
    ∃ item, parseBytes type (parse fuel type {}) b = .ok item := by
  cases outcome : parseBytes type (parse fuel type {}) b with
  | ok item => exact ⟨item, rfl⟩
  | error err =>
      have failed := decodeBytesInto_refuses (makeDecoder_simulates fuel type plain) short
        enough .empty (zeroCell type) outcome
      simp [decodeBytes, failed] at ran

end Decode

/-- Decoding what was encoded gives the value back, up to the order in which maps
are enumerated. -/
def RoundTrips (type : GoType) (value : Value type) : Prop :=
  ∃ b back, encodeToBytes type value = .ok b ∧ SameValue type back value ∧
    ∀ fuel, b.length < fuel → decodeBytes fuel type b = .ok back

theorem roundTrips_of_unshared {type : GoType} (plain : codable type = true)
    (keys : scalarKeys type = true) {value : Value type} (solid : Solid type value)
    (unshared : Unshared type (itemOf type value))
    (fits : encodedLength type value < maxLen) : RoundTrips type value := by
  refine ⟨itemBytes type (itemOf type value), denote type (itemOf type value),
    encodeToBytes_eq (Solid.nonNegative type value solid) fits,
    Solid.sameValue type keys value solid, fun fuel enough => ?_⟩
  exact decodeBytes_of_parse plain keys fits enough
    (parseBytes_complete (parse_reads fuel type plain) type
      (Solid.present type value solid) fits enough) unshared

theorem decodeBytes_itemBytes {type : GoType} (plain : codable type = true)
    (noMaps : mapFree type = true) {value : Value type} (solid : Solid type value)
    (fits : encodedLength type value < maxLen) {fuel : Nat}
    (enough : encodedLength type value < fuel) :
    decodeBytes fuel type (itemBytes type (itemOf type value)) = .ok value := by
  have keys := scalarKeys_of_mapFree type noMaps
  rw [decodeBytes_of_parse plain keys fits enough
    (parseBytes_complete (parse_reads fuel type plain) type (Solid.present type value solid)
      fits enough) (unshared_of_mapFree type noMaps _),
    SameValue.eq type noMaps (Solid.sameValue type keys value solid)]

/-- Without maps the value comes back as it was. -/
theorem decodeBytes_encodeToBytes {type : GoType} (plain : codable type = true)
    (noMaps : mapFree type = true) (value : Value type) (solid : Solid type value)
    (fits : encodedLength type value < maxLen) :
    ∃ b, encodeToBytes type value = .ok b ∧
      ∀ fuel, b.length < fuel → decodeBytes fuel type b = .ok value :=
  ⟨itemBytes type (itemOf type value),
    encodeToBytes_eq (Solid.nonNegative type value solid) fits,
    fun _ enough => decodeBytes_itemBytes plain noMaps solid fits enough⟩

theorem decodeBytes_encodeToBytes_numbers :
    ∃ b, encodeToBytes (.slice (.ptr .number))
        ([some (some (-300)), some (some 7)] : List (Option (Option Int))) = .ok b ∧
      ∀ fuel, b.length < fuel → decodeBytes fuel (.slice (.ptr .number)) b =
        .ok ([some (some (-300)), some (some 7)] : List (Option (Option Int))) :=
  decodeBytes_encodeToBytes rfl rfl _
    (List.forall_mem_cons.2 ⟨⟨some (-300), rfl, rfl⟩,
      List.forall_mem_singleton.2 ⟨some 7, rfl, rfl⟩⟩) (by decide +kernel)

section Canonical

variable {type : GoType} {fuel : Nat} {value : Value type}

theorem encodeToBytes_of_decodeBytes (plain : codable type = true)
    (noMaps : mapFree type = true) (noNumbers : numberFree type = true)
    {b : List Byte} (short : b.length < maxLen) (enough : b.length < fuel)
    (decoded : decodeBytes fuel type b = .ok value) : encodeToBytes type value = .ok b := by
  obtain ⟨item, ran⟩ := parse_of_decodeBytes plain short enough decoded
  obtain ⟨present, exactly⟩ := parseBytes_accepts (parse_reads fuel type plain) short enough ran
  rw [decodeBytes_of_parse plain (scalarKeys_of_mapFree type noMaps) short enough ran
    (unshared_of_mapFree type noMaps item)] at decoded
  obtain rfl := Except.ok.inj decoded
  have same := itemOf_denote type noMaps noNumbers item
  rw [exactly noMaps] at short ⊢
  rw [encodeToBytes_eq (Solid.nonNegative type _ (denote_solid type item present))
    (by rw [same]; exact short), same]

/-- Only the encoding of a value decodes to it. -/
theorem encodeToBytes_decodeBytes (plain : codable type = true)
    (noMaps : mapFree type = true) (noNumbers : numberFree type = true)
    {b : List Byte} (short : b.length < maxLen) (enough : b.length < fuel)
    (decoded : decodeBytes fuel type b = .ok value) :
    encodeToBytes type value = .ok b ∧
      ∀ other : List Byte, other.length < maxLen → other.length < fuel →
        decodeBytes fuel type other = .ok value → other = b := by
  have encoded := encodeToBytes_of_decodeBytes plain noMaps noNumbers short enough decoded
  refine ⟨encoded, fun other otherShort otherEnough otherDecoded => ?_⟩
  have again := encodeToBytes_of_decodeBytes plain noMaps noNumbers otherShort otherEnough
    otherDecoded
  exact Except.ok.inj (again.symm.trans encoded)

theorem encodeToBytes_decodeBytes_list :
    decodeBytes 8 (.slice (.int .int8)) [0xC3, 0x81, 0xFF, 0x05] =
        .ok ([0xFF, 0x05] : List (BitVec 8)) ∧
      encodeToBytes (.slice (.int .int8)) ([0xFF, 0x05] : List (BitVec 8)) =
        .ok [0xC3, 0x81, 0xFF, 0x05] := by
  have decoded : decodeBytes 8 (.slice (.int .int8)) [0xC3, 0x81, 0xFF, 0x05] =
      .ok ([0xFF, 0x05] : List (BitVec 8)) := by decide +kernel
  exact ⟨decoded,
    (encodeToBytes_decodeBytes rfl rfl rfl (by decide) (by decide) decoded).1⟩

end Canonical

end Bclib.Rlp
