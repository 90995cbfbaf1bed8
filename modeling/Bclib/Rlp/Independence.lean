import Bclib.Rlp.Refill

namespace Bclib.Rlp

open Data
open Go

/-! What decoding owes to the old contents of the destination. -/

def alikeEach (alike : ι → α → α → Prop) (zero : α) : List ι → List α → List α → Prop
  | [], _, _ => True
  | item :: items, left, right =>
      alike item (left.headD zero) (right.headD zero) ∧
        alikeEach alike zero items left.tail right.tail

mutual
/-- Wherever the item has a number without bytes, the two variables hold the same number.
A nil number, and one that is not there yet, count as zero. -/
def Alike (first second : Heap) : (type : GoType) → Item type → Cell type → Cell type → Prop
  | .uint _, _, _, _ => True
  | .int _, _, _, _ => True
  | .bool, _, _, _ => True
  | .string, _, _, _ => True
  | .bigInt, _, _, _ => True
  | .number, (item : List Byte), left, right => item = [] →
      (load first .number left : Option Int).getD 0 =
        (load second .number right : Option Int).getD 0
  | .rawValue, _, _, _ => True
  | .slice elem, (items : List (Item elem)), left, right =>
      alikeEach (Alike first second elem) (zeroCell elem) items (first.backing elem left)
        (second.backing elem right)
  | .array _ elem, items, left, right =>
      alikeEach (Alike first second elem) (zeroCell elem) items.1 left.1 right.1
  | .struct fields, items, left, right => FieldsAlike first second fields items left right
  | .ptr elem, (item : Option (Item elem)), left, right =>
      ∀ content ∈ item, Alike first second elem content (pointee first elem left)
        (pointee second elem right)
  | .map _ _, _, _, _ => True

def FieldsAlike (first second : Heap) : (fields : Fields) → FieldItems fields →
    FieldCells fields → FieldCells fields → Prop
  | .nil, _, _, _ => True
  | .cons _ _ type rest, items, left, right =>
      Alike first second type items.1 left.1 right.1 ∧
        FieldsAlike first second rest items.2 left.2 right.2
end

variable {first second : Heap}

theorem alikeEach_of_forall {alike : ι → α → α → Prop} {zero : α} (items : List ι)
    (left right : List α) (all : ∀ item ∈ items, ∀ left right, alike item left right) :
    alikeEach alike zero items left right := by
  induction items generalizing left right with
  | nil => trivial
  | cons item items ih =>
      obtain ⟨here, others⟩ := List.forall_mem_cons.1 all
      exact ⟨here _ _, ih _ _ others⟩

private theorem forall₂_overlayEach_iff {related : β → β → Prop} {overlay below : ι → α → β}
    {alike : ι → α → α → Prop} (zero : α)
    (same : ∀ item left right, related (overlay item left) (below item right) ↔
      alike item left right) (items : List ι) (left right : List α) :
    List.Forall₂ related (overlayEach overlay zero items left)
        (overlayEach below zero items right) ↔ alikeEach alike zero items left right := by
  induction items generalizing left right with
  | nil => exact ⟨fun _ => trivial, fun _ => .nil⟩
  | cons item items ih =>
      rw [overlayEach, overlayEach, List.forall₂_cons, same, ih]
      rfl

private theorem number_alike_iff (old other : Option Int) (item : List Byte) :
    some (Bn.setBytes old item) = some (Bn.setBytes other item) ↔
      (item = [] → old.getD 0 = other.getD 0) := by
  cases item with
  | nil => simp [Bn.setBytes]
  | cons sign magnitude => simp [Bn.setBytes]

mutual
theorem sameValue_overlay_iff : (type : GoType) → (item : Item type) → (left right : Cell type) →
    (SameValue type (overlay first type item left) (overlay second type item right) ↔
      Alike first second type item left right)
  | .uint _, _, _, _ => ⟨fun _ => trivial, fun _ => rfl⟩
  | .int _, _, _, _ => ⟨fun _ => trivial, fun _ => rfl⟩
  | .bool, _, _, _ => ⟨fun _ => trivial, fun _ => rfl⟩
  | .string, _, _, _ => ⟨fun _ => trivial, fun _ => rfl⟩
  | .bigInt, _, _, _ => ⟨fun _ => trivial, fun _ => rfl⟩
  | .number, item, _, _ => number_alike_iff _ _ item
  | .rawValue, _, _, _ => ⟨fun _ => trivial, fun _ => rfl⟩
  | .slice elem, items, _, _ =>
      forall₂_overlayEach_iff (zeroCell elem) (sameValue_overlay_iff elem) items _ _
  | .array _ elem, items, left, right =>
      forall₂_overlayEach_iff (zeroCell elem) (sameValue_overlay_iff elem) items.1 left.1 right.1
  | .struct fields, items, left, right => sameFields_overlay_iff fields items left right
  | .ptr _, none, _, _ =>
      ⟨fun _ _ found => absurd found (Option.not_mem_none _), fun _ => Option.Rel.none⟩
  | .ptr elem, some item, left, right => by
      have inner := sameValue_overlay_iff elem item (pointee first elem left)
        (pointee second elem right)
      refine ⟨fun same content found => ?_, fun alike => .some (inner.2 (alike item rfl))⟩
      cases found
      cases same with
      | some related => exact inner.1 related
  | .map key elem, _, _, _ => ⟨fun _ => trivial, fun _ => SameValue.refl (.map key elem) _⟩

theorem sameFields_overlay_iff : (fields : Fields) → (items : FieldItems fields) →
    (left right : FieldCells fields) →
    (SameFields fields (overlayFields first fields items left)
        (overlayFields second fields items right) ↔
      FieldsAlike first second fields items left right)
  | .nil, _, _, _ => Iff.rfl
  | .cons _ _ type rest, items, left, right =>
      and_congr (sameValue_overlay_iff type items.1 left.1 right.1)
        (sameFields_overlay_iff rest items.2 left.2 right.2)
end

abbrev Destination (type : GoType) := Heap × Cell type

def decodedInto (fuel : Nat) (type : GoType) (b : List Byte) (destination : Destination type) :
    Decoded (Cell type) :=
  decodeBytesInto type (makeDecoder fuel type {}) b destination.1 destination.2

/-- Both succeed or neither does, and then they hold deeply equal values. -/
structure Independent (fuel : Nat) (type : GoType) (b : List Byte)
    (first second : Destination type) : Prop where
  success : (decodedInto fuel type b first).err = none ↔
    (decodedInto fuel type b second).err = none
  value : (decodedInto fuel type b first).err = none →
    (decodedInto fuel type b second).err = none →
      SameValue type
        (load (decodedInto fuel type b first).heap type (decodedInto fuel type b first).cell)
        (load (decodedInto fuel type b second).heap type (decodedInto fuel type b second).cell)

/-- What the bytes say, whatever they are decoded into. -/
def itemIn (fuel : Nat) (type : GoType) (b : List Byte) : Except Err (Item type) :=
  parseBytes type (parse fuel type {}) b

theorem decodedInto_ok {fuel : Nat} {type : GoType} {b : List Byte} {item : Item type}
    (read : itemIn fuel type b = .ok item) {destination : Destination type}
    (tree : Tree destination.1 type destination.2) :
    (decodedInto fuel type b destination).err = none ∧
      load (decodedInto fuel type b destination).heap type
          (decodedInto fuel type b destination).cell =
        overlay destination.1 type item destination.2 := by
  obtain ⟨success, heap, cell⟩ := decodeBytesInto_ok (makeDecoder_executes fuel type {}) read
    destination.1 destination.2
  refine ⟨success, ?_⟩
  rw [decodedInto, heap, cell]
  exact place_overwrites type {} item destination.1 destination.2 tree

theorem decodedInto_error {fuel : Nat} {type : GoType} {b : List Byte} {err : Err}
    (refused : itemIn fuel type b = .error err) (destination : Destination type) :
    (decodedInto fuel type b destination).err = some err :=
  decodeBytesInto_error (makeDecoder_executes fuel type {}) refused destination.1 destination.2

section Destinations

variable {fuel : Nat} {type : GoType} {b : List Byte} {left right : Destination type}

theorem independent_of_alike (ownLeft : Tree left.1 type left.2)
    (ownRight : Tree right.1 type right.2)
    (alike : ∀ item, itemIn fuel type b = .ok item →
      Alike left.1 right.1 type item left.2 right.2) : Independent fuel type b left right := by
  cases read : itemIn fuel type b with
  | error err =>
      have failed := decodedInto_error read left
      refine ⟨by rw [failed, decodedInto_error read right], fun success => ?_⟩
      rw [failed] at success
      cases success
  | ok item =>
      obtain ⟨decoded, value⟩ := decodedInto_ok read ownLeft
      obtain ⟨other, otherValue⟩ := decodedInto_ok read ownRight
      refine ⟨by rw [decoded, other], fun _ _ => ?_⟩
      rw [value, otherValue]
      exact (sameValue_overlay_iff type item left.2 right.2).2 (alike item read)

/-- Only an empty number shows what was in the destination before. -/
theorem independent_iff_alike (ownLeft : Tree left.1 type left.2)
    (ownRight : Tree right.1 type right.2) :
    Independent fuel type b left right ↔
      ∀ item, itemIn fuel type b = .ok item →
        Alike left.1 right.1 type item left.2 right.2 := by
  refine ⟨fun independent item read => ?_, independent_of_alike ownLeft ownRight⟩
  obtain ⟨decoded, value⟩ := decodedInto_ok read ownLeft
  obtain ⟨other, otherValue⟩ := decodedInto_ok read ownRight
  have same := independent.value decoded other
  rw [value, otherValue] at same
  exact (sameValue_overlay_iff type item left.2 right.2).1 same

end Destinations

/-- Two numbers behind a slice of length one. -/
def heldNumbers : Destination (.slice .number) :=
  ((((TypedHeap.alloc .empty wordType [(7#64 : BitVec 64)]).alloc wordType
    [(9#64 : BitVec 64)]).alloc .bigInt [(⟨false, ⟨some 0, 1⟩⟩ : BigIntCell)]).alloc .bigInt
      [(⟨false, ⟨some 1, 1⟩⟩ : BigIntCell)] |>.alloc .number
        [(some 0 : Option Nat), (some 1 : Option Nat)], (⟨some 0, 1⟩ : SliceHeader))

def heldNoNumbers : Destination (.slice .number) := (.empty, SliceHeader.empty)

theorem independent_iff_alike_numbers :
    Tree heldNumbers.1 (.slice .number) heldNumbers.2 ∧
      Tree heldNoNumbers.1 (.slice .number) heldNoNumbers.2 ∧
      Independent 4 (.slice .number) [0xc2#8, 0x05#8, 0x06#8] heldNumbers heldNoNumbers := by
  have numbers : Tree heldNumbers.1 (.slice .number) heldNumbers.2 := by
    refine ⟨⟨by decide +kernel, by decide +kernel⟩, by decide +kernel, ?_⟩
    intro cell member
    change cell ∈ ([some 0, some 1] : List (Option Nat)) at member
    rcases List.mem_pair.1 member with rfl | rfl
    · rintro address ⟨rfl⟩
      exact List.cons_ne_nil _ _
    · rintro address ⟨rfl⟩
      exact List.cons_ne_nil _ _
  have none : Tree heldNoNumbers.1 (.slice .number) heldNoNumbers.2 :=
    tree_zeroCell .empty (.slice .number)
  refine ⟨numbers, none, (independent_iff_alike numbers none).2 ?_⟩
  intro items read
  have filled : Option.all (fun items : List (List Byte) => items.all fun item => !item.isEmpty)
      (itemIn 4 (.slice .number) [0xc2#8, 0x05#8, 0x06#8]).toOption = true := by decide +kernel
  rw [read] at filled
  refine alikeEach_of_forall items _ _ fun item member left right empty => ?_
  have bytes := List.all_eq_true.1 filled item member
  rw [empty] at bytes
  cases bytes

def heldFive : Destination .number :=
  ((TypedHeap.alloc .empty wordType [(5#64 : BitVec 64)]).alloc .bigInt
    [(⟨false, ⟨some 0, 1⟩⟩ : BigIntCell)], (some 0 : Option Nat))

def heldNothing : Destination .number := (.empty, (none : Option Nat))

theorem emptyNumber_shows_old : ¬Independent 2 .number [0x80#8] heldFive heldNothing := by
  intro independent
  have values := independent.value (by decide +kernel) (by decide +kernel)
  have different : load (decodedInto 2 .number [0x80#8] heldFive).heap .number
      (decodedInto 2 .number [0x80#8] heldFive).cell ≠
    load (decodedInto 2 .number [0x80#8] heldNothing).heap .number
      (decodedInto 2 .number [0x80#8] heldNothing).cell := by decide +kernel
  exact different values

mutual
def numberless : GoType → Bool
  | .uint _ => true
  | .int _ => true
  | .bool => true
  | .string => true
  | .bigInt => true
  | .number => false
  | .rawValue => true
  | .slice elem => numberless elem
  | .array _ elem => numberless elem
  | .struct fields => numberlessFields fields
  | .ptr elem => numberless elem
  | .map _ _ => true

def numberlessFields : Fields → Bool
  | .nil => true
  | .cons _ _ type rest => numberless type && numberlessFields rest
end

mutual
theorem alike_of_numberless (first second : Heap) : (type : GoType) → numberless type = true →
    (item : Item type) → (left right : Cell type) → Alike first second type item left right
  | .uint _, _, _, _, _ => trivial
  | .int _, _, _, _, _ => trivial
  | .bool, _, _, _, _ => trivial
  | .string, _, _, _, _ => trivial
  | .bigInt, _, _, _, _ => trivial
  | .rawValue, _, _, _, _ => trivial
  | .slice elem, free, items, _, _ => alikeEach_of_forall items _ _ fun item _ =>
      alike_of_numberless first second elem free item
  | .array _ elem, free, items, _, _ => alikeEach_of_forall items.1 _ _ fun item _ =>
      alike_of_numberless first second elem free item
  | .struct fields, free, items, left, right =>
      fieldsAlike_of_numberless first second fields free items left right
  | .ptr elem, free, _, _, _ => fun item _ =>
      alike_of_numberless first second elem free item _ _
  | .map _ _, _, _, _, _ => trivial

theorem fieldsAlike_of_numberless (first second : Heap) : (fields : Fields) →
    numberlessFields fields = true → (items : FieldItems fields) →
      (left right : FieldCells fields) → FieldsAlike first second fields items left right
  | .nil, _, _, _, _ => trivial
  | .cons _ _ type rest, free, items, left, right => by
      rw [numberlessFields, Bool.and_eq_true] at free
      exact ⟨alike_of_numberless first second type free.1 items.1 left.1 right.1,
        fieldsAlike_of_numberless first second rest free.2 items.2 left.2 right.2⟩
end

theorem independent_of_numberless {type : GoType} (free : numberless type = true) (fuel : Nat)
    (b : List Byte) {left right : Destination type} (ownLeft : Tree left.1 type left.2)
    (ownRight : Tree right.1 type right.2) : Independent fuel type b left right :=
  independent_of_alike ownLeft ownRight fun item _ =>
    alike_of_numberless left.1 right.1 type free item left.2 right.2

end Bclib.Rlp
