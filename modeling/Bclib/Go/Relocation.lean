import Bclib.Go.BigInt

namespace Bclib.Go

open Data

/-! The same memory at other addresses: the blocks of each type further up. -/

def SliceHeader.shift (offset : Nat) (header : SliceHeader) : SliceHeader :=
  { header with base := header.base.map (· + offset) }

@[simp] theorem SliceHeader.shift_len (offset : Nat) (header : SliceHeader) :
    (header.shift offset).len = header.len := rfl

variable {offsets : GoType → Nat}

mutual
/-- The variable, with all it refers to moved up. -/
def shift (offsets : GoType → Nat) : (type : GoType) → Cell type → Cell type
  | .uint _, cell => cell
  | .int _, cell => cell
  | .bool, cell => cell
  | .string, cell => cell
  | .bigInt, (cell : BigIntCell) =>
      ({ cell with abs := cell.abs.shift (offsets wordType) } : BigIntCell)
  | .number, (cell : Option Nat) => cell.map (· + offsets .bigInt)
  | .rawValue, (header : SliceHeader) => header.shift (offsets .byte)
  | .slice elem, (header : SliceHeader) => header.shift (offsets elem)
  | .array _ elem, cells => ⟨cells.1.map (shift offsets elem), by simp [cells.2]⟩
  | .struct fields, cells => shiftFields offsets fields cells
  | .ptr elem, (cell : Option Nat) => cell.map (· + offsets elem)
  | .map key elem, (entries : List (Cell key × Cell elem)) =>
      entries.map fun entry => (shift offsets key entry.1, shift offsets elem entry.2)

def shiftFields (offsets : GoType → Nat) : (fields : Fields) → FieldCells fields →
    FieldCells fields
  | .nil, cells => cells
  | .cons _ _ type rest, cells =>
      (shift offsets type cells.1, shiftFields offsets rest cells.2)
end

private theorem base_injective (offset : Nat) :
    Function.Injective fun base : Option Nat => base.map (· + offset) :=
  Option.map_injective fun _ _ same => Nat.add_right_cancel same

theorem SliceHeader.shift_injective (offset : Nat) :
    Function.Injective (SliceHeader.shift offset) := by
  rintro ⟨base, len⟩ ⟨other, last⟩ same
  obtain ⟨bases, rfl⟩ := SliceHeader.mk.inj same
  exact congrArg (SliceHeader.mk · len) (base_injective offset bases)

mutual
theorem shift_injective (offsets : GoType → Nat) : (type : GoType) →
    Function.Injective (shift offsets type)
  | .uint _ => fun _ _ same => same
  | .int _ => fun _ _ same => same
  | .bool => fun _ _ same => same
  | .string => fun _ _ same => same
  | .bigInt => by
      rintro ⟨neg, abs⟩ ⟨other, words⟩ same
      obtain ⟨rfl, headers⟩ := BigIntCell.mk.inj same
      exact congrArg (BigIntCell.mk neg) (SliceHeader.shift_injective _ headers)
  | .number => base_injective (offsets .bigInt)
  | .rawValue => SliceHeader.shift_injective (offsets .byte)
  | .slice elem => SliceHeader.shift_injective (offsets elem)
  | .array _ elem => fun _ _ same => Subtype.ext
      (List.map_injective_iff.2 (shift_injective offsets elem) (congrArg Subtype.val same))
  | .struct fields => shiftFields_injective offsets fields
  | .ptr elem => base_injective (offsets elem)
  | .map key elem => List.map_injective_iff.2
      (Function.Injective.prodMap (shift_injective offsets key) (shift_injective offsets elem))

theorem shiftFields_injective (offsets : GoType → Nat) : (fields : Fields) →
    Function.Injective (shiftFields offsets fields)
  | .nil => fun _ _ same => same
  | .cons _ _ type rest => fun _ _ same => Prod.ext
      (shift_injective offsets type (congrArg Prod.fst same))
      (shiftFields_injective offsets rest (congrArg Prod.snd same))
end

mutual
theorem shift_zeroCell (offsets : GoType → Nat) : (type : GoType) →
    shift offsets type (zeroCell type) = zeroCell type
  | .uint _ => rfl
  | .int _ => rfl
  | .bool => rfl
  | .string => rfl
  | .bigInt => rfl
  | .number => rfl
  | .rawValue => rfl
  | .slice _ => rfl
  | .array length elem => Subtype.ext <| by
      show (List.replicate length (zeroCell elem)).map (shift offsets elem) =
        List.replicate length (zeroCell elem)
      rw [List.map_replicate, shift_zeroCell offsets elem]
  | .struct fields => shiftFields_zero offsets fields
  | .ptr _ => rfl
  | .map _ _ => rfl

theorem shiftFields_zero (offsets : GoType → Nat) : (fields : Fields) →
    shiftFields offsets fields (zeroFieldCells fields) = zeroFieldCells fields
  | .nil => rfl
  | .cons _ _ type rest => by
      rw [shiftFields, zeroFieldCells, shift_zeroCell offsets type,
        shiftFields_zero offsets rest]
end

/-- The second heap has the first one's blocks on top of others. -/
structure Mirrors (offsets : GoType → Nat) (small big : Heap) : Prop where
  size : ∀ type, big.size type = small.size type + offsets type
  block : ∀ type address, big.block type (address + offsets type) =
    (small.block type address).map (shift offsets type)

theorem mirrors_empty (heap : Heap) : Mirrors heap.size .empty heap := by
  constructor
  · intro type
    exact (Nat.zero_add _).symm
  · intro type address
    rw [TypedHeap.block_eq_nil_of_size_le (Nat.le_add_left _ _)]
    rfl

namespace Mirrors

variable {small big : Heap} (mirrors : Mirrors offsets small big)

include mirrors

theorem alloc (type : GoType) (cells : List (Cell type)) :
    Mirrors offsets (small.alloc type cells) (big.alloc type (cells.map (shift offsets type))) := by
  have size : ∀ other, (big.alloc type (cells.map (shift offsets type))).size other =
      (small.alloc type cells).size other + offsets other := by
    intro other
    by_cases same : other = type
    · subst same
      rw [TypedHeap.size_alloc_self, TypedHeap.size_alloc_self, mirrors.size]
      exact Nat.add_right_comm _ _ _
    · rw [TypedHeap.size_alloc_of_ne same, TypedHeap.size_alloc_of_ne same, mirrors.size]
  refine ⟨size, fun other address => ?_⟩
  by_cases old : address < small.size other
  · have inside : address + offsets other < big.size other := by
      rw [mirrors.size]
      exact Nat.add_lt_add_right old _
    rw [TypedHeap.block_alloc_of_lt inside, TypedHeap.block_alloc_of_lt old, mirrors.block]
  · by_cases new : other = type ∧ address = small.size other
    · obtain ⟨rfl, rfl⟩ := new
      rw [← mirrors.size, TypedHeap.block_alloc_self, TypedHeap.block_alloc_self]
    · have beyond : (small.alloc type cells).size other ≤ address := by
        by_cases same : other = type
        · subst same
          rw [TypedHeap.size_alloc_self]
          exact Nat.lt_of_le_of_ne (Nat.le_of_not_lt old) fun equal => new ⟨rfl, equal.symm⟩
        · rw [TypedHeap.size_alloc_of_ne same]
          exact Nat.le_of_not_lt old
      rw [TypedHeap.block_eq_nil_of_size_le beyond, TypedHeap.block_eq_nil_of_size_le]
      · rfl
      · rw [size]
        exact Nat.add_le_add_right beyond _

theorem write (type : GoType) (address : Nat) (cells : List (Cell type)) :
    Mirrors offsets (small.write type address cells)
      (big.write type (address + offsets type) (cells.map (shift offsets type))) := by
  refine ⟨fun other => ?_, fun other position => ?_⟩
  · rw [TypedHeap.size_write, TypedHeap.size_write, mirrors.size]
  · by_cases here : other = type ∧ position = address
    · obtain ⟨rfl, rfl⟩ := here
      by_cases inside : position < small.size other
      · rw [TypedHeap.block_write_self inside, TypedHeap.block_write_self]
        rw [mirrors.size]
        exact Nat.add_lt_add_right inside _
      · rw [TypedHeap.block_eq_nil_of_size_le, TypedHeap.block_eq_nil_of_size_le]
        · rfl
        · rw [TypedHeap.size_write]
          exact Nat.le_of_not_lt inside
        · rw [TypedHeap.size_write, mirrors.size]
          exact Nat.add_le_add_right (Nat.le_of_not_lt inside) _
    · rw [TypedHeap.block_write_of_ne fun same equal => here ⟨same, equal⟩,
        TypedHeap.block_write_of_ne, mirrors.block]
      rintro rfl equal
      exact here ⟨rfl, Nat.add_right_cancel equal⟩

theorem backing (type : GoType) (header : SliceHeader) :
    Heap.backing big type (header.shift (offsets type)) =
      (Heap.backing small type header).map (shift offsets type) := by
  obtain ⟨base, len⟩ := header
  cases base with
  | none => rfl
  | some address => exact mirrors.block type address

theorem cap (type : GoType) (header : SliceHeader) :
    Heap.cap big type (header.shift (offsets type)) = Heap.cap small type header := by
  rw [Heap.cap, Heap.cap, mirrors.backing, List.length_map]

theorem elems (type : GoType) (header : SliceHeader) :
    Heap.elems big type (header.shift (offsets type)) =
      (Heap.elems small type header).map (shift offsets type) := by
  rw [Heap.elems, Heap.elems, mirrors.backing, List.map_take]
  rfl

theorem target (type : GoType) (address : Nat) :
    Heap.target big type (address + offsets type) =
      shift offsets type (Heap.target small type address) := by
  rw [Heap.target, Heap.target, mirrors.block]
  cases small.block type address with
  | nil => exact (shift_zeroCell offsets type).symm
  | cons cell rest => rfl

theorem write_entry (type : GoType) (address i : Nat) (cell : Cell type) :
    Mirrors offsets (small.write type address ((small.block type address).set i cell))
      (big.write type (address + offsets type)
        ((big.block type (address + offsets type)).set i (shift offsets type cell))) := by
  rw [mirrors.block, ← List.map_set]
  exact mirrors.write type address _

theorem loadBigInt_shift (cell : BigIntCell) :
    loadBigInt big ⟨cell.neg, cell.abs.shift (offsets wordType)⟩ = loadBigInt small cell := by
  have words : Heap.elems big wordType (cell.abs.shift (offsets wordType)) =
      Heap.elems small wordType cell.abs :=
    (mirrors.elems wordType cell.abs).trans (List.map_id _)
  rw [loadBigInt, loadBigInt, words]

end Mirrors

mutual
theorem load_shift {small big : Heap} (mirrors : Mirrors offsets small big) : (type : GoType) →
    (cell : Cell type) → load big type (shift offsets type cell) = load small type cell
  | .uint _, _ => rfl
  | .int _, _ => rfl
  | .bool, _ => rfl
  | .string, _ => rfl
  | .bigInt, cell => mirrors.loadBigInt_shift cell
  | .number, none => rfl
  | .number, some address => congrArg some
      ((congrArg (loadBigInt big) (mirrors.target .bigInt address)).trans
        (mirrors.loadBigInt_shift _))
  | .rawValue, header => (mirrors.elems .byte header).trans (List.map_id _)
  | .slice elem, header => by
      refine (congrArg (List.map (load big elem)) (mirrors.elems elem header)).trans ?_
      exact List.map_map.trans (List.map_congr_left fun cell _ => load_shift mirrors elem cell)
  | .array _ elem, cells => Subtype.ext
      (List.map_map.trans (List.map_congr_left fun cell _ => load_shift mirrors elem cell))
  | .struct fields, cells => loadFields_shift mirrors fields cells
  | .ptr elem, none => rfl
  | .ptr elem, some address => congrArg some
      ((congrArg (load big elem) (mirrors.target elem address)).trans
        (load_shift mirrors elem _))
  | .map key elem, entries => List.map_map.trans (List.map_congr_left fun entry _ =>
      Prod.ext (load_shift mirrors key entry.1) (load_shift mirrors elem entry.2))

theorem loadFields_shift {small big : Heap} (mirrors : Mirrors offsets small big) :
    (fields : Fields) → (cells : FieldCells fields) →
      loadFields big fields (shiftFields offsets fields cells) = loadFields small fields cells
  | .nil, _ => rfl
  | .cons _ _ type rest, cells => Prod.ext (load_shift mirrors type cells.1)
      (loadFields_shift mirrors rest cells.2)
end

end Bclib.Go
