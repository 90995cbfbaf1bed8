import Bclib.Rlp.RoundTrip

namespace Bclib.Rlp

open Data
open Go

/-! Element types whose variables cannot be reused.  The second of two entries is
then decoded into the memory the first one refers to. -/

def Growing (set : Store ι α) : Prop :=
  ∀ (item : ι) (heap : Heap) (cell : α), heap.Grows (set item heap cell).1

theorem setNat_grows (heap : Heap) (abs : SliceHeader) (buf : List Byte) :
    heap.Grows (heap.setNat abs buf).1 := by
  by_cases enough : (buf.length + 7) / 8 ≤ heap.cap wordType abs
  · cases based : abs.base with
    | none =>
        simp only [Heap.setNat, if_pos enough, based]
        exact .refl heap
    | some address =>
        simp only [Heap.setNat, if_pos enough, based]
        apply Heap.grows_write
        simp only [Heap.cap, Heap.backing, based] at enough
        have words : (wordsOf ((buf.length + 7) / 8) (ofBigEndian buf) :
            List (Cell wordType)).length = (buf.length + 7) / 8 := wordsOf_length _ _
        refine List.length_append.trans ?_
        refine (congrArg (· + _) words).trans ?_
        rw [List.length_drop]
        exact Nat.add_sub_cancel' enough
  · simp only [Heap.setNat, if_neg enough]
    exact Heap.grows_alloc heap wordType _

theorem setBytesAt_grows (heap : Heap) (cell : Option Nat) (buf : List Byte) :
    heap.Grows (Bn.setBytesAt heap cell buf).1 := by
  have inPlace : ∀ (heap : Heap) (address : Nat),
      heap.Grows (Bn.setBytesAt heap (some address) buf).1 := by
    intro heap address
    cases buf with
    | nil => exact .refl heap
    | cons sign magnitude =>
        simp only [Bn.setBytesAt, Heap.setBigInt]
        split_ifs
        · exact (setNat_grows heap _ magnitude).trans (Heap.grows_write_entry _ _ _ _ _)
        · exact (setNat_grows heap _ _).trans (Heap.grows_write_entry _ _ _ _ _)
  cases cell with
  | some address => exact inPlace heap address
  | none => exact (Heap.grows_alloc heap .bigInt _).trans (inPlace _ _)

theorem setBytes_grows (content : List Byte) (heap : Heap) (header : SliceHeader) :
    heap.Grows (setBytes content heap header).1 := by
  cases content with
  | nil => exact .refl heap
  | cons byte rest => exact Heap.grows_alloc heap .byte _

theorem openIndex_grows (heap : Heap) (elem : GoType) (header : SliceHeader) (i : Nat) :
    heap.Grows (openIndex heap elem header i).1 := by
  simp only [openIndex, growSlice]
  split_ifs
  · exact Heap.grows_alloc heap elem _
  · exact Heap.grows_alloc heap elem _
  · exact .refl heap

theorem setElem_grows (heap : Heap) (elem : GoType) (header : SliceHeader) (i : Nat)
    (cell : Cell elem) : heap.Grows (setElem heap elem header i cell) := by
  cases based : header.base with
  | none =>
      simp only [setElem, based]
      exact .refl heap
  | some address =>
      simp only [setElem, based]
      exact Heap.grows_write_entry heap elem address i cell

section Inner

variable {elem : GoType} {inner : Store (Item elem) (Cell elem)}

theorem storeElems_grows (grows : Growing inner)
    (items : List (Item elem)) (i : Nat) (heap : Heap) (header : SliceHeader) :
    heap.Grows (storeElems elem inner i items heap header).1 := by
  induction items generalizing i heap header with
  | nil => exact openIndex_grows heap elem header i
  | cons item rest ih =>
      exact (((openIndex_grows heap elem header i).trans (grows _ _ _)).trans
        (setElem_grows _ _ _ _ _)).trans (ih _ _ _)

theorem storeSlice_grows (grows : Growing inner) : Growing (storeSlice elem inner) := by
  intro items heap header
  cases items with
  | nil => exact .refl heap
  | cons item rest => exact storeElems_grows grows (item :: rest) 0 heap header

theorem storeTuple_grows {inner : Store ι α}
    (grows : Growing inner)
    (items : List ι) (heap : Heap) (cells : List α) :
    heap.Grows (storeTuple inner items heap cells).1 := by
  induction items generalizing heap cells with
  | nil => cases cells <;> exact .refl heap
  | cons item items ih =>
      cases cells with
      | nil => exact .refl heap
      | cons cell cells => exact (grows item heap cell).trans (ih _ cells)

theorem ptrStore_grows (grows : Growing inner)
    (item : Option (Item elem)) (heap : Heap) (cell : Option Nat) :
    heap.Grows (ptrStore elem inner item heap cell).1 := by
  have through : Growing (storePtr elem inner) := by
    intro item heap cell
    cases item with
    | none => exact .refl heap
    | some item =>
        cases cell with
        | none => exact (grows _ _ _).trans (Heap.grows_alloc _ elem _)
        | some address => exact (grows _ _ _).trans (Heap.grows_write_entry _ _ _ _ _)
  have direct : Growing (storeAt elem inner) := by
    intro item heap cell
    cases cell with
    | none =>
        exact ((Heap.grows_alloc heap elem _).trans (grows _ _ _)).trans
          (Heap.grows_write_entry _ _ _ _ _)
    | some address => exact (grows _ _ _).trans (Heap.grows_write_entry _ _ _ _ _)
  cases elem with
  | bigInt =>
      cases item with
      | none => exact .refl heap
      | some item => exact direct item heap cell
  | number =>
      cases item with
      | none => exact .refl heap
      | some item => exact direct item heap cell
  | _ => exact through item heap cell

end Inner

theorem storeEntries_grows {key elem : GoType} {keyStore : Store (Item key) (Cell key)}
    {elemStore : Store (Item elem) (Cell elem)}
    (keys : Growing keyStore)
    (elems : Growing elemStore)
    (items : List (Item key × Item elem)) (heap : Heap) (keyCell : Cell key)
    (value : Cell elem) (entries : List (Cell key × Cell elem)) :
    heap.Grows (storeEntries key elem keyStore elemStore items heap keyCell value entries).1 := by
  induction items generalizing heap keyCell value entries with
  | nil => exact .refl heap
  | cons item rest ih => exact ((keys _ _ _).trans (elems _ _ _)).trans (ih _ _ _ _)

mutual
theorem store_grows : (type : GoType) → (item : Item type) → (heap : Heap) →
    (cell : Cell type) → heap.Grows (store type item heap cell).1
  | .uint _, _, heap, _ => .refl heap
  | .int _, _, heap, _ => .refl heap
  | .bool, _, heap, _ => .refl heap
  | .string, _, heap, _ => .refl heap
  | .bigInt, item, heap, (cell : BigIntCell) => setNat_grows heap cell.abs (bigEndian item)
  | .number, item, heap, cell => setBytesAt_grows heap cell item
  | .rawValue, item, heap, cell => setBytes_grows item heap cell
  | .slice elem, items, heap, header => by
      cases bytes : elem.isByte with
      | true =>
          obtain rfl := GoType.eq_byte_of_isByte bytes
          exact setBytes_grows items heap header
      | false =>
          rw [store, sliceStore_of_not_byte bytes]
          exact storeSlice_grows (store_grows elem) items heap header
  | .array length elem, items, heap, cells => by
      cases bytes : elem.isByte with
      | true =>
          obtain rfl := GoType.eq_byte_of_isByte bytes
          exact .refl heap
      | false =>
          rw [store, arrayStore_of_not_byte length bytes]
          exact storeTuple_grows (store_grows elem) items.1 heap cells.1
  | .struct fields, items, heap, cells => storeFields_grows fields items heap cells
  | .ptr elem, item, heap, cell => ptrStore_grows (store_grows elem) item heap cell
  | .map key elem, items, heap, _ =>
      storeEntries_grows (store_grows key) (store_grows elem) items heap (zeroCell key)
        (zeroCell elem) []

theorem storeFields_grows : (fields : Fields) → (items : FieldItems fields) →
    (heap : Heap) → (cells : FieldCells fields) →
      heap.Grows (storeFields fields items heap cells).1
  | .nil, _, heap, _ => .refl heap
  | .cons _ _ type rest, items, heap, cells =>
      (store_grows type items.1 heap cells.1).trans
        (storeFields_grows rest items.2 _ cells.2)
end

/-! Sample values of a type: one that is stored the same way again and again, and
one that differs from it. -/

mutual
def plainValue : (type : GoType) → Value type
  | .uint kind => (0 : BitVec kind.bits)
  | .int kind => (0 : BitVec kind.bits)
  | .bool => false
  | .string => ([] : List Byte)
  | .bigInt => (0 : Int)
  | .number => (some 0 : Option Int)
  | .rawValue => ([] : List Byte)
  | .slice elem => ([] : List (Value elem))
  | .array length elem => ⟨List.replicate length (plainValue elem), by simp⟩
  | .struct fields => plainFields fields
  | .ptr elem => some (plainValue elem)
  | .map key elem => ([] : List (Value key × Value elem))

def plainFields : (fields : Fields) → FieldValues fields
  | .nil => ()
  | .cons _ _ type rest => (plainValue type, plainFields rest)
end

mutual
def otherValue : (type : GoType) → Value type
  | .uint kind => (1 : BitVec kind.bits)
  | .int kind => (1 : BitVec kind.bits)
  | .bool => true
  | .string => ([0] : List Byte)
  | .bigInt => (1 : Int)
  | .number => (some 1 : Option Int)
  | .rawValue => ([0] : List Byte)
  | .slice elem => [plainValue elem]
  | .array length elem => ⟨List.replicate length (otherValue elem), by simp⟩
  | .struct fields => otherFields fields
  | .ptr elem => some (otherValue elem)
  | .map key elem => [(plainValue key, plainValue elem)]

def otherFields : (fields : Fields) → FieldValues fields
  | .nil => ()
  | .cons _ _ type rest => (otherValue type, otherFields rest)
end

mutual
/-- Two values of a type that is not reusable, the second of which is stored over
the first. -/
def clashing (second : Bool) : (type : GoType) → Value type
  | .uint kind => (0 : BitVec kind.bits)
  | .int kind => (0 : BitVec kind.bits)
  | .bool => false
  | .string => ([] : List Byte)
  | .bigInt => (if second then 2 else 1 : Int)
  | .number => (some (if second then 1 else 0) : Option Int)
  | .rawValue => ([] : List Byte)
  | .slice elem => [if second then otherValue elem else plainValue elem]
  | .array length elem => ⟨List.replicate length (clashing second elem), by simp⟩
  | .struct fields => clashingFields second fields
  | .ptr elem => some (if second then otherValue elem else plainValue elem)
  | .map key elem => ([] : List (Value key × Value elem))

def clashingFields (second : Bool) : (fields : Fields) → FieldValues fields
  | .nil => ()
  | .cons _ _ type rest =>
      (if reusable type then plainValue type else clashing second type,
        clashingFields second rest)
end

mutual
/-- The element types of all maps inside the type are reusable. -/
def separable : GoType → Bool
  | .uint _ => true
  | .int _ => true
  | .bool => true
  | .string => true
  | .bigInt => true
  | .number => true
  | .rawValue => true
  | .slice elem => separable elem
  | .array _ elem => separable elem
  | .struct fields => separableFields fields
  | .ptr elem => separable elem
  | .map _ elem => reusable elem && separable elem

def separableFields : Fields → Bool
  | .nil => true
  | .cons _ _ type rest => separable type && separableFields rest
end

mutual
/-- A value of a type that is not separable, with a map inside that does not
survive. -/
def failingValue : (type : GoType) → Value type
  | .uint kind => (0 : BitVec kind.bits)
  | .int kind => (0 : BitVec kind.bits)
  | .bool => false
  | .string => ([] : List Byte)
  | .bigInt => (0 : Int)
  | .number => (some 0 : Option Int)
  | .rawValue => ([] : List Byte)
  | .slice elem => ([] : List (Value elem))
  | .array length elem => ⟨List.replicate length (failingValue elem), by simp⟩
  | .struct fields => failingFields fields
  | .ptr elem => some (failingValue elem)
  | .map key elem =>
      if reusable elem then [(plainValue key, failingValue elem)]
      else [(plainValue key, clashing false elem), (otherValue key, clashing true elem)]

def failingFields : (fields : Fields) → FieldValues fields
  | .nil => ()
  | .cons _ _ type rest => (failingValue type, failingFields rest)
end

mutual
def arrayFree : GoType → Bool
  | .uint _ => true
  | .int _ => true
  | .bool => true
  | .string => true
  | .bigInt => true
  | .number => true
  | .rawValue => true
  | .slice elem => arrayFree elem
  | .array _ _ => false
  | .struct fields => arrayFreeFields fields
  | .ptr elem => arrayFree elem
  | .map key elem => arrayFree key && arrayFree elem

def arrayFreeFields : Fields → Bool
  | .nil => true
  | .cons _ _ type rest => arrayFree type && arrayFreeFields rest
end

def Distinct (type : GoType) (left right : Value type) : Prop :=
  ∀ value, SameValue type value left → SameValue type value right → False

def DistinctFields (fields : Fields) (left right : FieldValues fields) : Prop :=
  ∀ value, SameFields fields value left → SameFields fields value right → False

private theorem bits_distinct {width : Nat} (wide : 0 < width) :
    (0 : BitVec width) ≠ (1 : BitVec width) := by
  intro same
  have values := congrArg BitVec.toNat same
  have power : 1 < 2 ^ width := Nat.one_lt_two_pow (Nat.ne_of_gt wide)
  simp [Nat.mod_eq_of_lt power] at values

mutual
theorem plain_distinct : (type : GoType) → arrayFree type = true → dataless type = false →
    Distinct type (plainValue type) (otherValue type)
  | .uint kind, _, _ => fun _ plain other =>
      bits_distinct (by cases kind <;> decide) (plain.symm.trans other)
  | .int kind, _, _ => fun _ plain other =>
      bits_distinct (by cases kind <;> decide) (plain.symm.trans other)
  | .bool, _, _ => fun _ plain other => Bool.noConfusion (plain.symm.trans other)
  | .string, _, _ => fun _ plain other =>
      List.cons_ne_nil _ _ (other.symm.trans plain)
  | .bigInt, _, _ => fun _ plain other => by
      have same := plain.symm.trans other
      exact absurd same (by decide)
  | .number, _, _ => fun _ plain other => by
      have same := plain.symm.trans other
      exact absurd same (by decide)
  | .rawValue, _, _ => fun _ plain other =>
      List.cons_ne_nil _ _ (other.symm.trans plain)
  | .slice elem, _, _ => fun _ plain other => by
      have none := plain.length_eq
      have one := other.length_eq
      exact absurd (none.symm.trans one) (by simp [plainValue, otherValue])
  | .struct fields, noArrays, informative =>
      plainFields_distinct fields noArrays informative
  | .ptr elem, noArrays, informative => fun value plain other => by
      cases plain with
      | some plain =>
          cases other with
          | some other => exact plain_distinct elem noArrays informative _ plain other
  | .map key elem, _, _ => fun value ⟨_, perm, plain⟩ ⟨_, otherPerm, other⟩ => by
      have none := perm.length_eq.trans plain.length_eq
      have one := otherPerm.length_eq.trans other.length_eq
      exact absurd (none.symm.trans one) (by simp [plainValue, otherValue])

theorem plainFields_distinct : (fields : Fields) → arrayFreeFields fields = true →
    datalessFields fields = false →
    DistinctFields fields (plainFields fields) (otherFields fields)
  | .cons _ _ type rest, noArrays, informative => fun value plain other => by
      simp only [arrayFreeFields, Bool.and_eq_true] at noArrays
      simp only [datalessFields, Bool.and_eq_false_iff] at informative
      rcases informative with first | others
      · exact plain_distinct type noArrays.1 first value.1 plain.1 other.1
      · exact plainFields_distinct rest noArrays.2 others value.2 plain.2 other.2
end

mutual
theorem clashing_distinct : (type : GoType) → arrayFree type = true →
    reusable type = false → Distinct type (clashing false type) (clashing true type)
  | .bigInt, _, _ => fun _ first second => by
      have same := first.symm.trans second
      exact absurd same (by decide)
  | .number, _, _ => fun _ first second => by
      have same := first.symm.trans second
      exact absurd same (by decide)
  | .slice elem, noArrays, shared => fun value first second => by
      simp only [reusable, Bool.or_eq_false_iff] at shared
      obtain ⟨left, _, plain, _, rfl⟩ := List.forall₂_cons_right_iff.1 first
      obtain ⟨right, _, other, _, same⟩ := List.forall₂_cons_right_iff.1 second
      obtain ⟨rfl, _⟩ := List.cons.inj same
      exact plain_distinct elem noArrays shared.2 left plain other
  | .struct fields, noArrays, shared => clashingFields_distinct fields noArrays shared
  | .ptr elem, noArrays, shared => fun value first second => by
      cases first with
      | some first =>
          cases second with
          | some second => exact plain_distinct elem noArrays shared _ first second

theorem clashingFields_distinct : (fields : Fields) → arrayFreeFields fields = true →
    reusableFields fields = false →
    DistinctFields fields (clashingFields false fields) (clashingFields true fields)
  | .cons _ _ type rest, noArrays, shared => fun value first second => by
      simp only [arrayFreeFields, Bool.and_eq_true] at noArrays
      simp only [reusableFields, Bool.and_eq_false_iff] at shared
      by_cases free : reusable type = true
      · exact clashingFields_distinct rest noArrays.2
          (shared.resolve_left (by simp [free])) value.2 first.2 second.2
      · have firstHead := first.1
        have secondHead := second.1
        simp only [clashingFields, if_neg free] at firstHead secondHead
        exact clashing_distinct type noArrays.1 (Bool.not_eq_true _ ▸ free) value.1
          firstHead secondHead
end

def Refills (type : GoType) (first second : Item type) : Prop :=
  ∀ heap later : Heap, (store type first heap (zeroCell type)).1.Grows later →
    (store type second later (store type first heap (zeroCell type)).2).2 =
      (store type first heap (zeroCell type)).2

def RefillsFields (fields : Fields) (first second : FieldItems fields) : Prop :=
  ∀ heap later : Heap, (storeFields fields first heap (zeroFieldCells fields)).1.Grows later →
    (storeFields fields second later
        (storeFields fields first heap (zeroFieldCells fields)).2).2 =
      (storeFields fields first heap (zeroFieldCells fields)).2

theorem Refills.cons {name : String} {tags : Tags} {type : GoType} {rest : Fields}
    {first second : FieldItems (.cons name tags type rest)}
    (head : Refills type first.1 second.1) (tail : RefillsFields rest first.2 second.2) :
    RefillsFields (.cons name tags type rest) first second := by
  intro heap later grows
  have between := storeFields_grows rest first.2 (store type first.1 heap (zeroCell type)).1
    (zeroFieldCells rest)
  have same := head heap later (between.trans grows)
  have others := tail (store type first.1 heap (zeroCell type)).1 _
    (grows.trans (store_grows type second.1 later
      (store type first.1 heap (zeroCell type)).2))
  exact Prod.ext same others

private theorem ptr_refills (elem : GoType) (first second : Item elem) :
    Refills (.ptr elem) (some first : Option (Item elem)) (some second : Option (Item elem)) := by
  intro heap later _
  cases elem <;> rfl

section Slices

variable {elem : GoType} {inner : Store (Item elem) (Cell elem)}

private theorem openIndex_of_room {heap : Heap} {header : SliceHeader} {i : Nat}
    (room : i < heap.cap elem header) :
    openIndex heap elem header i =
      (heap, if header.len ≤ i then { header with len := i + 1 } else header) := by
  simp only [openIndex, growSlice, if_neg (Nat.not_le.2 room)]

variable (inner) in
private theorem storeElems_end {heap : Heap} {address len : Nat}
    (room : 2 ≤ (heap.block elem address).length) (short : len ≤ 1) :
    storeElems elem inner 1 [] heap ⟨some address, len⟩ = (heap, ⟨some address, 1⟩) := by
  have opened : openIndex heap elem ⟨some address, len⟩ 1 =
      (heap, if len ≤ 1 then ⟨some address, 2⟩ else ⟨some address, len⟩) :=
    openIndex_of_room room
  rw [if_pos short] at opened
  simp only [storeElems, opened]
  rfl

private theorem storeElems_single (grows : Growing inner) (item : Item elem) {heap : Heap}
    {address : Nat} (room : 2 ≤ (heap.block elem address).length) :
    (storeElems elem inner 0 [item] heap ⟨some address, 1⟩).2 = ⟨some address, 1⟩ := by
  have opened : openIndex heap elem ⟨some address, 1⟩ 0 = (heap, ⟨some address, 1⟩) :=
    openIndex_of_room (Nat.lt_of_lt_of_le (by decide) room)
  have inside : address < heap.size elem := by
    apply TypedHeap.lt_size_of_block_ne_nil
    intro missing
    simp [missing] at room
  have later := (grows item heap (elemAt heap elem ⟨some address, 1⟩ 0)).trans
    (setElem_grows _ elem ⟨some address, 1⟩ 0
      (inner item heap (elemAt heap elem ⟨some address, 1⟩ 0)).2)
  have still : 2 ≤ ((setElem (inner item heap (elemAt heap elem ⟨some address, 1⟩ 0)).1 elem
      ⟨some address, 1⟩ 0
      (inner item heap (elemAt heap elem ⟨some address, 1⟩ 0)).2).block elem address).length := by
    rw [later.length elem address inside]
    exact room
  simp only [storeElems, opened]
  exact congrArg Prod.snd (storeElems_end inner still (Nat.le_refl 1))

private theorem storeElems_first (grows : Growing inner) (item : Item elem) (heap : Heap) :
    (storeElems elem inner 0 [item] heap .empty).2 = ⟨some (heap.size elem), 1⟩ ∧
      2 ≤ ((storeElems elem inner 0 [item] heap .empty).1.block elem
        (heap.size elem)).length := by
  have opened : openIndex heap elem .empty 0 =
      (heap.alloc elem (List.replicate 4 (zeroCell elem)), ⟨some (heap.size elem), 1⟩) := by
    simp [openIndex, growSlice, Heap.cap, Heap.backing, Heap.elems, SliceHeader.empty]
  have block : (heap.alloc elem (List.replicate 4 (zeroCell elem))).block elem
      (heap.size elem) = List.replicate 4 (zeroCell elem) := TypedHeap.block_alloc_self
  have room : 2 ≤ ((heap.alloc elem (List.replicate 4 (zeroCell elem))).block elem
      (heap.size elem)).length := by
    rw [block, List.length_replicate]
    decide
  have again : openIndex (heap.alloc elem (List.replicate 4 (zeroCell elem))) elem
      ⟨some (heap.size elem), 1⟩ 0 =
      (heap.alloc elem (List.replicate 4 (zeroCell elem)), ⟨some (heap.size elem), 1⟩) :=
    openIndex_of_room (Nat.lt_of_lt_of_le (by decide) room)
  have same : storeElems elem inner 0 [item] heap .empty =
      storeElems elem inner 0 [item] (heap.alloc elem (List.replicate 4 (zeroCell elem)))
        ⟨some (heap.size elem), 1⟩ := by
    simp only [storeElems, opened, again]
  rw [same]
  refine ⟨storeElems_single grows item room, ?_⟩
  rw [(storeElems_grows grows [item] 0 _ _).length elem (heap.size elem) (by simp)]
  exact room

private theorem storeSlice_refills (grows : Growing inner) (first second : Item elem)
    (heap later : Heap) (grown : (storeSlice elem inner [first] heap .empty).1.Grows later) :
    (storeSlice elem inner [second] later (storeSlice elem inner [first] heap .empty).2).2 =
      (storeSlice elem inner [first] heap .empty).2 := by
  obtain ⟨header, room⟩ := storeElems_first grows first heap
  have filled : (storeSlice elem inner [first] heap .empty).2 =
      ⟨some (heap.size elem), 1⟩ := header
  rw [filled]
  refine storeElems_single grows second ?_
  rw [grown.length elem (heap.size elem)]
  · exact room
  · apply TypedHeap.lt_size_of_block_ne_nil
    intro missing
    have empty : (storeElems elem inner 0 [first] heap .empty).1.block elem
        (heap.size elem) = [] := missing
    simp [empty] at room

end Slices

mutual
theorem plain_refills : (type : GoType) → arrayFree type = true →
    Refills type (itemOf type (plainValue type)) (itemOf type (plainValue type))
  | .uint _, _ => fun _ _ _ => rfl
  | .int _, _ => fun _ _ _ => rfl
  | .bool, _ => fun _ _ _ => rfl
  | .string, _ => fun _ _ _ => rfl
  | .bigInt, _ => fun _ _ _ => rfl
  | .number, _ => fun _ _ _ => rfl
  | .rawValue, _ => fun _ _ _ => rfl
  | .slice elem, _ => fun heap later _ => by
      cases bytes : elem.isByte with
      | true =>
          obtain rfl := GoType.eq_byte_of_isByte bytes
          rfl
      | false =>
          rw [store, sliceStore_of_not_byte bytes]
          rfl
  | .struct fields, noArrays => plainFields_refills fields noArrays
  | .ptr elem, noArrays => ptr_refills elem _ _
  | .map _ _, _ => fun _ _ _ => rfl

theorem plainFields_refills : (fields : Fields) → arrayFreeFields fields = true →
    RefillsFields fields (fieldItemsOf fields (plainFields fields))
      (fieldItemsOf fields (plainFields fields))
  | .nil, _ => fun _ _ _ => rfl
  | .cons _ _ type rest, noArrays => by
      simp only [arrayFreeFields, Bool.and_eq_true] at noArrays
      exact (plain_refills type noArrays.1).cons (plainFields_refills rest noArrays.2)
end

private theorem setNat_first (heap : Heap) :
    heap.setNat .empty [1#8] =
      (heap.alloc wordType [(1#64 : Cell wordType)], ⟨some (heap.size wordType), 1⟩) := by
  have words : wordsOf 1 (ofBigEndian [1#8]) = [1#64] := by decide
  have normal : normLen [1#64] = 1 := by decide
  have count : ([1#8].length + 7) / 8 = 1 := by decide
  have cap : heap.cap wordType .empty = 0 := rfl
  simp only [Heap.setNat, count, cap, words, normal]
  rfl

private theorem setNat_second {heap : Heap} {address : Nat}
    (room : heap.cap wordType ⟨some address, 1⟩ = 1) :
    (heap.setNat ⟨some address, 1⟩ [2#8]).2 = ⟨some address, 1⟩ := by
  have words : wordsOf 1 (ofBigEndian [2#8]) = [2#64] := by decide
  have normal : normLen [2#64] = 1 := by decide
  have count : ([2#8].length + 7) / 8 = 1 := by decide
  simp only [Heap.setNat, count, room, words, normal]
  rfl

private theorem bigInt_refills :
    Refills .bigInt (itemOf .bigInt (clashing false .bigInt))
      (itemOf .bigInt (clashing true .bigInt)) := by
  intro heap later grows
  have one : bigEndian 1 = [1#8] := by decide +kernel
  have two : bigEndian 2 = [2#8] := by decide +kernel
  have first : store .bigInt (itemOf .bigInt (clashing false .bigInt)) heap
      (zeroCell .bigInt) = (heap.alloc wordType [(1#64 : Cell wordType)],
        BigIntCell.mk false ⟨some (heap.size wordType), 1⟩) := by
    have words := setNat_first heap
    rw [← one] at words
    exact congrArg (fun result => (result.1, BigIntCell.mk false result.2)) words
  rw [first] at grows ⊢
  have room : later.cap wordType ⟨some (heap.size wordType), 1⟩ = 1 := by
    refine (grows.length wordType (heap.size wordType) (by simp)).trans ?_
    rw [TypedHeap.block_alloc_self]
    rfl
  have second := setNat_second room
  rw [← two] at second
  exact congrArg (BigIntCell.mk false) second

mutual
theorem clashing_refills : (type : GoType) → arrayFree type = true →
    reusable type = false →
    Refills type (itemOf type (clashing false type)) (itemOf type (clashing true type))
  | .bigInt, _, _ => bigInt_refills
  | .number, _, _ => fun _ _ _ => rfl
  | .slice elem, _, shared => fun heap later grows => by
      simp only [reusable, Bool.or_eq_false_iff] at shared
      rw [store, sliceStore_of_not_byte shared.1] at grows ⊢
      exact storeSlice_refills (store_grows elem) _ _ heap later grows
  | .struct fields, noArrays, shared => clashingFields_refills fields noArrays
  | .ptr elem, _, _ => ptr_refills elem _ _

theorem clashingFields_refills : (fields : Fields) → arrayFreeFields fields = true →
    RefillsFields fields (fieldItemsOf fields (clashingFields false fields))
      (fieldItemsOf fields (clashingFields true fields))
  | .nil, _ => fun _ _ _ => rfl
  | .cons _ _ type rest, noArrays => by
      simp only [arrayFreeFields, Bool.and_eq_true] at noArrays
      refine Refills.cons ?_ (clashingFields_refills rest noArrays.2)
      simp only [clashingFields, fieldItemsOf]
      split_ifs with free
      · exact plain_refills type noArrays.1
      · exact clashing_refills type noArrays.1 (Bool.not_eq_true _ ▸ free)
end

/-! Values that are never read back, whatever the rest of memory is. -/

def Fails (type : GoType) (value : Value type) : Prop :=
  ∀ (heap : Heap) (cell : Cell type) (later : Heap),
    ¬SameValue type (load later type (store type (itemOf type value) heap cell).2) value

def FailsFields (fields : Fields) (value : FieldValues fields) : Prop :=
  ∀ (heap : Heap) (cells : FieldCells fields) (later : Heap),
    ¬SameFields fields
      (loadFields later fields (storeFields fields (fieldItemsOf fields value) heap cells).2)
      value

private theorem sameValue_of_shared {key elem : GoType} {later : Heap} {cell : Cell elem}
    {entries : List (Cell key × Cell elem)} (shared : ∀ entry ∈ entries, entry.2 = cell)
    {value : List (Value key × Value elem)}
    (same : SameValue (.map key elem) (load later (.map key elem) entries) value) :
    ∀ entry ∈ value, SameValue elem (load later elem cell) entry.2 := by
  obtain ⟨reordered, perm, related⟩ := same
  have read : ∀ entry ∈ reordered, entry.2 = load later elem cell := by
    intro entry member
    obtain ⟨stored, found, rfl⟩ := List.mem_map.1 (perm.mem_iff.2 member)
    exact congrArg (load later elem) (shared stored found)
  clear perm
  induction related with
  | nil => exact fun entry member => nomatch member
  | cons head _ ih =>
      rw [List.forall_mem_cons] at read ⊢
      exact ⟨read.1 ▸ head.2, ih read.2⟩

section Map

variable {key elem : GoType}

private theorem sortEntries_samples (simple : scalar key = true) (first second : α) :
    sortEntries key [(plainValue key, first), (otherValue key, second)] =
      [(plainValue key, first), (otherValue key, second)] := by
  have ordered : keyLess key (otherValue key) (plainValue key) = false := by
    cases key with
    | uint kind => cases kind <;> rfl
    | int kind => cases kind <;> rfl
    | bool => rfl
    | string => rfl
    | _ => simp [scalar] at simple
  simp [sortEntries, sortByKey, ordered]

private theorem map_fails_of_refills (simple : scalar key = true) (noMap : elem.isMap = false)
    {first second : Value elem} (distinct : Distinct elem first second)
    (refills : Refills elem (itemOf elem first) (itemOf elem second)) :
    Fails (.map key elem) [(plainValue key, first), (otherValue key, second)] := by
  intro heap cells later same
  have items : itemOf (.map key elem)
      ([(plainValue key, first), (otherValue key, second)] : List (Value key × Value elem)) =
      [(itemOf key (plainValue key), itemOf elem first),
        (itemOf key (otherValue key), itemOf elem second)] := by
    simp only [itemOf]
    rw [sortEntries_samples simple]
    rfl
  rw [items] at same
  have grows := store_grows key (itemOf key (otherValue key))
    (store elem (itemOf elem first)
      (store key (itemOf key (plainValue key)) heap (zeroCell key)).1 (zeroCell elem)).1
    (store key (itemOf key (plainValue key)) heap (zeroCell key)).2
  have shared := refills _ _ grows
  have both := sameValue_of_shared (fun entry member => by
    simp only [store, storeEntries, noMap, Bool.false_eq_true, if_false] at member
    rcases mem_assocSet member with rfl | earlier
    · exact shared
    · rcases mem_assocSet earlier with rfl | none
      · rfl
      · cases none) same
  rw [List.forall_mem_cons, List.forall_mem_singleton] at both
  exact distinct _ both.1 both.2

private theorem map_fails_of_fails (keyValue : Value key) {value : Value elem}
    (fails : Fails elem value) : Fails (.map key elem) [(keyValue, value)] := by
  intro heap cells later same
  have read := sameValue_of_shared (fun entry member => by
    simp only [itemOf, sortEntries, sortByKey, List.insertionSort_cons, List.insertionSort_nil,
      List.orderedInsert_nil, List.map_cons, List.map_nil, store, storeEntries] at member
    rcases mem_assocSet member with rfl | none
    · rfl
    · cases none) same
  exact fails _ _ later (read _ (List.mem_singleton_self _))

end Map

private theorem failingValue_reusable {key elem : GoType} (free : reusable elem = true) :
    failingValue (.map key elem) = [(plainValue key, failingValue elem)] :=
  if_pos free

private theorem failingValue_shared {key elem : GoType} (shared : reusable elem = false) :
    failingValue (.map key elem) =
      [(plainValue key, clashing false elem), (otherValue key, clashing true elem)] :=
  if_neg (by simp [shared])

mutual
theorem separable_of_dataless : (type : GoType) → dataless type = true →
    separable type = true
  | .struct fields, empty => separableFields_of_dataless fields empty
  | .ptr elem, empty => separable_of_dataless elem empty

theorem separableFields_of_dataless : (fields : Fields) → datalessFields fields = true →
    separableFields fields = true
  | .nil, _ => rfl
  | .cons _ _ type rest, empty => by
      simp only [datalessFields, Bool.and_eq_true] at empty
      simp only [separableFields, Bool.and_eq_true]
      exact ⟨separable_of_dataless type empty.1, separableFields_of_dataless rest empty.2⟩
end

private theorem isMap_of_not_reusable {type : GoType} (shared : reusable type = false) :
    type.isMap = false := by
  cases type with
  | map key elem => simp [reusable] at shared
  | _ => rfl

mutual
theorem failingValue_fails : (type : GoType) → arrayFree type = true →
    scalarKeys type = true → reusable type = true → separable type = false →
      Fails type (failingValue type)
  | .slice elem, _, _, free, mixed => by
      simp only [reusable, Bool.or_eq_true] at free
      simp only [separable] at mixed
      rcases free with bytes | empty
      · obtain rfl := GoType.eq_byte_of_isByte bytes
        simp [GoType.byte, separable] at mixed
      · simp [separable_of_dataless elem empty] at mixed
  | .struct fields, noArrays, keys, free, mixed =>
      failingFields_fails fields noArrays keys free mixed
  | .ptr elem, _, _, free, mixed => by
      simp only [separable, separable_of_dataless elem free] at mixed
      exact nomatch mixed
  | .map key elem, noArrays, keys, _, mixed => by
      simp only [arrayFree, scalarKeys, Bool.and_eq_true] at noArrays keys
      simp only [separable, Bool.and_eq_false_iff] at mixed
      cases free : reusable elem with
      | true =>
          rw [failingValue_reusable free]
          exact map_fails_of_fails _ (failingValue_fails elem noArrays.2 keys.2 free
            (mixed.resolve_left (by simp [free])))
      | false =>
          rw [failingValue_shared free]
          exact map_fails_of_refills keys.1 (isMap_of_not_reusable free)
            (clashing_distinct elem noArrays.2 free) (clashing_refills elem noArrays.2 free)

theorem failingFields_fails : (fields : Fields) → arrayFreeFields fields = true →
    scalarKeysFields fields = true → reusableFields fields = true →
    separableFields fields = false → FailsFields fields (failingFields fields)
  | .cons _ _ type rest, noArrays, keys, free, mixed => by
      simp only [arrayFreeFields, Bool.and_eq_true] at noArrays
      simp only [scalarKeysFields, Bool.and_eq_true] at keys
      simp only [reusableFields, Bool.and_eq_true] at free
      simp only [separableFields, Bool.and_eq_false_iff] at mixed
      intro heap cells later same
      rcases mixed with first | others
      · exact failingValue_fails type noArrays.1 keys.1 free.1 first heap cells.1 later same.1
      · exact failingFields_fails rest noArrays.2 keys.2 free.2 others _ cells.2 later same.2
end

mutual
theorem plainValue_solid : (type : GoType) → Solid type (plainValue type)
  | .uint _ => trivial
  | .int _ => trivial
  | .bool => trivial
  | .string => trivial
  | .bigInt => Int.le_refl 0
  | .number => rfl
  | .rawValue => trivial
  | .slice _ => fun _ member => nomatch member
  | .array _ elem => fun inner member => by
      obtain rfl := List.eq_of_mem_replicate member
      exact plainValue_solid elem
  | .struct fields => plainFields_solid fields
  | .ptr elem => ⟨_, rfl, plainValue_solid elem⟩
  | .map _ _ => ⟨List.nodup_nil, fun _ member => nomatch member⟩

theorem plainFields_solid : (fields : Fields) → FieldsSolid fields (plainFields fields)
  | .nil => trivial
  | .cons _ _ type rest => ⟨plainValue_solid type, plainFields_solid rest⟩
end

mutual
theorem otherValue_solid : (type : GoType) → Solid type (otherValue type)
  | .uint _ => trivial
  | .int _ => trivial
  | .bool => trivial
  | .string => trivial
  | .bigInt => Int.zero_le_ofNat 1
  | .number => rfl
  | .rawValue => trivial
  | .slice elem => List.forall_mem_singleton.2 (plainValue_solid elem)
  | .array _ elem => fun inner member => by
      obtain rfl := List.eq_of_mem_replicate member
      exact otherValue_solid elem
  | .struct fields => otherFields_solid fields
  | .ptr elem => ⟨_, rfl, otherValue_solid elem⟩
  | .map key elem => ⟨List.nodup_singleton _,
      List.forall_mem_singleton.2 ⟨plainValue_solid key, plainValue_solid elem⟩⟩

theorem otherFields_solid : (fields : Fields) → FieldsSolid fields (otherFields fields)
  | .nil => trivial
  | .cons _ _ type rest => ⟨otherValue_solid type, otherFields_solid rest⟩
end

private theorem either_solid {type : GoType} {left right : Value type}
    (first : Solid type left) (last : Solid type right) (second : Bool) :
    Solid type (if second = true then right else left) := by
  cases second <;> assumption

mutual
theorem clashing_solid (second : Bool) : (type : GoType) → Solid type (clashing second type)
  | .uint _ => trivial
  | .int _ => trivial
  | .bool => trivial
  | .string => trivial
  | .bigInt => by cases second <;> exact Int.zero_le_ofNat _
  | .number => rfl
  | .rawValue => trivial
  | .slice elem => List.forall_mem_singleton.2
      (either_solid (plainValue_solid elem) (otherValue_solid elem) second)
  | .array _ elem => fun inner member => by
      obtain rfl := List.eq_of_mem_replicate member
      exact clashing_solid second elem
  | .struct fields => clashingFields_solid second fields
  | .ptr elem =>
      ⟨_, rfl, either_solid (plainValue_solid elem) (otherValue_solid elem) second⟩
  | .map _ _ => ⟨List.nodup_nil, fun _ member => nomatch member⟩

theorem clashingFields_solid (second : Bool) :
    (fields : Fields) → FieldsSolid fields (clashingFields second fields)
  | .nil => trivial
  | .cons _ _ type rest =>
      ⟨either_solid (clashing_solid second type) (plainValue_solid type) (reusable type),
        clashingFields_solid second rest⟩
end

private theorem samples_ne (type : GoType) (simple : scalar type = true) :
    plainValue type ≠ otherValue type := by
  cases type with
  | uint kind => exact bits_distinct (by cases kind <;> decide)
  | int kind => exact bits_distinct (by cases kind <;> decide)
  | bool => exact Bool.false_ne_true
  | string => exact (List.cons_ne_nil _ _).symm
  | _ => simp [scalar] at simple

mutual
theorem failingValue_solid : (type : GoType) → scalarKeys type = true →
    Solid type (failingValue type)
  | .uint _, _ => trivial
  | .int _, _ => trivial
  | .bool, _ => trivial
  | .string, _ => trivial
  | .bigInt, _ => Int.le_refl 0
  | .number, _ => rfl
  | .rawValue, _ => trivial
  | .slice _, _ => fun _ member => nomatch member
  | .array _ elem, keys => fun inner member => by
      obtain rfl := List.eq_of_mem_replicate member
      exact failingValue_solid elem keys
  | .struct fields, keys => failingFields_solid fields keys
  | .ptr elem, keys => ⟨_, rfl, failingValue_solid elem keys⟩
  | .map key elem, keys => by
      simp only [scalarKeys, Bool.and_eq_true] at keys
      cases free : reusable elem with
      | true =>
          rw [failingValue_reusable free]
          exact ⟨List.nodup_singleton _, List.forall_mem_singleton.2
            ⟨plainValue_solid key, failingValue_solid elem keys.2⟩⟩
      | false =>
          rw [failingValue_shared free]
          refine ⟨?_, List.forall_mem_cons.2
            ⟨⟨plainValue_solid key, clashing_solid false elem⟩, List.forall_mem_singleton.2
              ⟨otherValue_solid key, clashing_solid true elem⟩⟩⟩
          exact List.nodup_cons.2 ⟨fun member =>
            samples_ne key keys.1 (List.mem_singleton.1 member), List.nodup_singleton _⟩

theorem failingFields_solid : (fields : Fields) → scalarKeysFields fields = true →
    FieldsSolid fields (failingFields fields)
  | .nil, _ => trivial
  | .cons _ _ type rest, keys => by
      simp only [scalarKeysFields, Bool.and_eq_true] at keys
      exact ⟨failingValue_solid type keys.1, failingFields_solid rest keys.2⟩
end

end Bclib.Rlp
