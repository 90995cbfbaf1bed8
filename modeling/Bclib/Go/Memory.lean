import Bclib.Data.TypedHeap
import Bclib.Go.Types

namespace Bclib.Go

open Data

/-! Variables and the memory behind them.  A cell is what a variable of the type
holds itself; slices, pointers and big integers refer to blocks of a heap.  A
finished map is never written to again, so a map cell holds its entries. -/

/-- A slice: its block, if it has one, and its length.  The capacity is the
length of the block. -/
structure SliceHeader where
  base : Option Nat
  len : Nat
  deriving DecidableEq, Repr

namespace SliceHeader

def empty : SliceHeader := ⟨none, 0⟩

end SliceHeader

/-- A `big.Int`: its sign and its magnitude in words, lowest first. -/
structure BigIntCell where
  neg : Bool
  abs : SliceHeader
  deriving DecidableEq, Repr

mutual
def Cell : GoType → Type
  | .uint kind => BitVec kind.bits
  | .int kind => BitVec kind.bits
  | .bool => Bool
  | .string => List Byte
  | .bigInt => BigIntCell
  | .number => Option Nat
  | .rawValue => SliceHeader
  | .slice _ => SliceHeader
  | .array length elem => { cells : List (Cell elem) // cells.length = length }
  | .struct fields => FieldCells fields
  | .ptr _ => Option Nat
  | .map key elem => List (Cell key × Cell elem)

def FieldCells : Fields → Type
  | .nil => Unit
  | .cons _ _ type rest => Cell type × FieldCells rest
end

mutual
def zeroCell : (type : GoType) → Cell type
  | .uint kind => (0 : BitVec kind.bits)
  | .int kind => (0 : BitVec kind.bits)
  | .bool => false
  | .string => ([] : List Byte)
  | .bigInt => BigIntCell.mk false .empty
  | .number => (none : Option Nat)
  | .rawValue => SliceHeader.empty
  | .slice _ => SliceHeader.empty
  | .array length elem => ⟨List.replicate length (zeroCell elem), by simp⟩
  | .struct fields => zeroFieldCells fields
  | .ptr _ => (none : Option Nat)
  | .map key elem => ([] : List (Cell key × Cell elem))

def zeroFieldCells : (fields : Fields) → FieldCells fields
  | .nil => ()
  | .cons _ _ type rest => (zeroCell type, zeroFieldCells rest)
end

mutual
def cellDecidableEq : (type : GoType) → DecidableEq (Cell type)
  | .uint kind => inferInstanceAs (DecidableEq (BitVec kind.bits))
  | .int kind => inferInstanceAs (DecidableEq (BitVec kind.bits))
  | .bool => inferInstanceAs (DecidableEq Bool)
  | .string => inferInstanceAs (DecidableEq (List Byte))
  | .bigInt => inferInstanceAs (DecidableEq BigIntCell)
  | .number => inferInstanceAs (DecidableEq (Option Nat))
  | .rawValue => inferInstanceAs (DecidableEq SliceHeader)
  | .slice _ => inferInstanceAs (DecidableEq SliceHeader)
  | .array length elem =>
      have := cellDecidableEq elem
      inferInstanceAs
        (DecidableEq { cells : List (Cell elem) // cells.length = length })
  | .struct fields => fieldCellsDecidableEq fields
  | .ptr _ => inferInstanceAs (DecidableEq (Option Nat))
  | .map key elem =>
      have := cellDecidableEq key
      have := cellDecidableEq elem
      inferInstanceAs (DecidableEq (List (Cell key × Cell elem)))

def fieldCellsDecidableEq : (fields : Fields) → DecidableEq (FieldCells fields)
  | .nil => inferInstanceAs (DecidableEq Unit)
  | .cons _ _ type rest =>
      have := cellDecidableEq type
      have := fieldCellsDecidableEq rest
      inferInstanceAs (DecidableEq (Cell type × FieldCells rest))
end

instance : DecidableEq (Cell type) := cellDecidableEq type

abbrev Heap := TypedHeap Cell

def wordType : GoType := .uint .uint

namespace Heap

def backing (heap : Heap) (type : GoType) (header : SliceHeader) : List (Cell type) :=
  match header.base with
  | none => []
  | some address => heap.block type address

def cap (heap : Heap) (type : GoType) (header : SliceHeader) : Nat :=
  (heap.backing type header).length

def elems (heap : Heap) (type : GoType) (header : SliceHeader) : List (Cell type) :=
  (heap.backing type header).take header.len

def target (heap : Heap) (type : GoType) (address : Nat) : Cell type :=
  (heap.block type address).headD (zeroCell type)

def setTarget (heap : Heap) (type : GoType) (address : Nat) (cell : Cell type) : Heap :=
  heap.write type address ((heap.block type address).set 0 cell)

def allocCell (heap : Heap) (type : GoType) (cell : Cell type) : Heap :=
  heap.alloc type [cell]

def allocSlice (heap : Heap) (type : GoType) (cells : List (Cell type)) :
    Heap × SliceHeader :=
  if cells.isEmpty then (heap, .empty)
  else (heap.alloc type cells, ⟨some (heap.size type), cells.length⟩)

theorem backing_alloc (heap : Heap) (type : GoType) (cells : List (Cell type)) (len : Nat) :
    backing (heap.alloc type cells) type ⟨some (heap.size type), len⟩ = cells :=
  TypedHeap.block_alloc_self

theorem set_getD_self (cells : List α) (i : Nat) (default : α) :
    cells.set i ((cells[i]?).getD default) = cells := by
  by_cases inside : i < cells.length
  · rw [List.getElem?_eq_getElem inside, Option.getD_some, List.set_getElem_self]
  · exact List.set_eq_of_length_le (Nat.le_of_not_lt inside)

theorem take_set_succ (cells : List α) {i : Nat} (inside : i < cells.length)
    (cell : α) : (cells.set i cell).take (i + 1) = cells.take i ++ [cell] := by
  rw [List.take_add_one, List.take_set_of_le (Nat.le_refl i), List.getElem?_set_self inside]
  rfl

theorem setTarget_target (heap : Heap) (type : GoType) (address : Nat) :
    heap.setTarget type address (heap.target type address) = heap := by
  have head : heap.target type address =
      ((heap.block type address)[0]?).getD (zeroCell type) := by
    rw [target]
    cases heap.block type address <;> rfl
  rw [setTarget, head, set_getD_self, TypedHeap.write_block_self]

theorem target_allocCell (heap : Heap) (type : GoType) (cell : Cell type) :
    (heap.allocCell type cell).target type (heap.size type) = cell := by
  rw [target, allocCell, TypedHeap.block_alloc_self]
  rfl

theorem block_setTarget {heap : Heap} {type : GoType} {address : Nat}
    (present : heap.block type address ≠ []) (cell : Cell type) :
    (heap.setTarget type address cell).block type address =
      (heap.block type address).set 0 cell :=
  TypedHeap.block_write_self (TypedHeap.lt_size_of_block_ne_nil present)

theorem target_setTarget {heap : Heap} {type : GoType} {address : Nat}
    (present : heap.block type address ≠ []) (cell : Cell type) :
    (heap.setTarget type address cell).target type address = cell := by
  rw [target, block_setTarget present]
  cases old : heap.block type address with
  | nil => exact absurd old present
  | cons first rest => rfl

end Heap

def natOfWords : List (BitVec 64) → Nat
  | [] => 0
  | word :: rest => word.toNat + 2 ^ 64 * natOfWords rest

def wordsOf : Nat → Nat → List (BitVec 64)
  | 0, _ => []
  | count + 1, number => BitVec.ofNat 64 number :: wordsOf count (number / 2 ^ 64)

/-- The length `norm` leaves: without the zero words at the top. -/
def normLen : List (BitVec 64) → Nat
  | [] => 0
  | word :: rest =>
      if normLen rest = 0 ∧ word = 0 then 0 else normLen rest + 1

def loadBigInt (heap : Heap) (cell : BigIntCell) : Int :=
  let magnitude : Int := natOfWords (heap.elems wordType cell.abs)
  if cell.neg then -magnitude else magnitude

mutual
/-- The value a reader of the variable sees. -/
def load (heap : Heap) : (type : GoType) → Cell type → Value type
  | .uint _, cell => cell
  | .int _, cell => cell
  | .bool, cell => cell
  | .string, cell => cell
  | .bigInt, cell => loadBigInt heap cell
  | .number, (cell : Option Nat) =>
      cell.map fun address => loadBigInt heap (heap.target .bigInt address)
  | .rawValue, cell => heap.elems .byte cell
  | .slice elem, cell => (heap.elems elem cell).map (load heap elem)
  | .array _ elem, cell => ⟨cell.1.map (load heap elem), by simp [cell.2]⟩
  | .struct fields, cell => loadFields heap fields cell
  | .ptr elem, (cell : Option Nat) =>
      cell.map fun address => load heap elem (heap.target elem address)
  | .map key elem, (cell : List (Cell key × Cell elem)) =>
      cell.map fun entry => (load heap key entry.1, load heap elem entry.2)

def loadFields (heap : Heap) : (fields : Fields) → FieldCells fields → FieldValues fields
  | .nil, _ => ()
  | .cons _ _ type rest, cell => (load heap type cell.1, loadFields heap rest cell.2)
end

theorem load_number_some (heap : Heap) (address : Nat) :
    load heap .number (some address : Option Nat) =
      (some (loadBigInt heap (heap.target .bigInt address)) : Option Int) := rfl

theorem load_ptr_some (heap : Heap) (elem : GoType) (address : Nat) :
    load heap (.ptr elem) (some address : Option Nat) =
      (some (load heap elem (heap.target elem address)) : Option (Value elem)) := rfl

end Bclib.Go
