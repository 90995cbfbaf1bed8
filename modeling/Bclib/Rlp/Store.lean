import Bclib.Rlp.Decode
import Bclib.Rlp.Item

namespace Bclib.Rlp

open Data
open Go

/-! What a successful decoding does to memory, as a function of the item that was
read. -/

abbrev Store (ι α : Type) := ι → Heap → α → Heap × α

/-- Elements from index `i` on; the round after the last one still makes room. -/
def storeElems (elem : GoType) (inner : Store (Item elem) (Cell elem)) :
    Nat → Store (List (Item elem)) SliceHeader
  | i, [], heap, header =>
      let (heap, header) := openIndex heap elem header i
      (heap, if i < header.len then { header with len := i } else header)
  | i, item :: rest, heap, header =>
      let (heap, header) := openIndex heap elem header i
      let (heap, cell) := inner item heap (elemAt heap elem header i)
      storeElems elem inner (i + 1) rest (setElem heap elem header i cell) header

def storeSlice (elem : GoType) (inner : Store (Item elem) (Cell elem)) :
    Store (List (Item elem)) SliceHeader := fun items heap header =>
  if items.isEmpty then (heap, .empty) else storeElems elem inner 0 items heap header

def sliceStore :
    (elem : GoType) → Store (Item elem) (Cell elem) →
      Store (List (Item elem)) SliceHeader
  | .uint .uint8, _ => setBytes
  | elem, inner => storeSlice elem inner

def storeTuple (inner : Store ι α) :
    (items : List ι) → Heap → (cells : List α) →
      Heap × { filled : List α // filled.length = cells.length }
  | item :: items, heap, cell :: cells =>
      let (heap, cell) := inner item heap cell
      let (heap, filled) := storeTuple inner items heap cells
      (heap, ⟨cell :: filled.1, by simp [filled.2]⟩)
  | _, heap, cells => (heap, ⟨cells, rfl⟩)

def arrayStore (length : Nat) :
    (elem : GoType) → Store (Item elem) (Cell elem) →
      Store (Item (.array length elem)) (Cell (.array length elem))
  | .uint .uint8, _ => fun item heap _ => (heap, item)
  | _, inner => fun items heap cells =>
      let (heap, filled) := storeTuple inner items.1 heap cells.1
      (heap, ⟨filled.1, filled.2.trans cells.2⟩)

def storePtr (elem : GoType) (inner : Store (Item elem) (Cell elem)) :
    Store (Option (Item elem)) (Option Nat) := fun item heap cell =>
  match item, cell with
  | none, _ => (heap, none)
  | some item, none =>
      let (heap, cell) := inner item heap (zeroCell elem)
      (heap.allocCell elem cell, some (heap.size elem))
  | some item, some address =>
      let (heap, cell) := inner item heap (heap.target elem address)
      (heap.setTarget elem address cell, some address)

/-- Numbers and big integers are allocated before they are set. -/
def storeAt (elem : GoType) (inner : Store ι (Cell elem)) :
    Store ι (Option Nat) := fun item heap cell =>
  let (heap, address) :=
    match cell with
    | none => (heap.allocCell elem (zeroCell elem), heap.size elem)
    | some address => (heap, address)
  let (heap, cell) := inner item heap (heap.target elem address)
  (heap.setTarget elem address cell, some address)

def ptrStore :
    (elem : GoType) → Store (Item elem) (Cell elem) →
      Store (Option (Item elem)) (Option Nat)
  | .bigInt, inner => fun item heap cell =>
      match item with
      | none => (heap, none)
      | some item => storeAt .bigInt inner item heap cell
  | .number, inner => fun item heap cell =>
      match item with
      | none => (heap, none)
      | some item => storeAt .number inner item heap cell
  | elem, inner => storePtr elem inner

/-- The entries of a map, all through one key cell and one value cell. -/
def storeEntries (key elem : GoType) (keyStore : Store (Item key) (Cell key))
    (elemStore : Store (Item elem) (Cell elem)) :
    List (Item key × Item elem) → Heap → Cell key → Cell elem →
      List (Cell key × Cell elem) → Heap × List (Cell key × Cell elem)
  | [], heap, _, _, entries => (heap, entries)
  | item :: rest, heap, keyCell, value, entries =>
      let (heap, keyCell) := keyStore item.1 heap keyCell
      let value := if elem.isMap then zeroCell elem else value
      let (heap, value) := elemStore item.2 heap value
      storeEntries key elem keyStore elemStore rest heap keyCell value
        (assocSet entries keyCell value)

mutual
def store : (type : GoType) → Store (Item type) (Cell type)
  | .uint _ => fun item heap _ => (heap, item)
  | .int _ => fun item heap _ => (heap, item)
  | .bool => fun item heap _ => (heap, item)
  | .string => fun item heap _ => (heap, item)
  | .bigInt => fun item heap cell => heap.setBigInt cell (bigEndian item)
  | .number => fun item heap cell => Bn.setBytesAt heap cell item
  | .rawValue => setBytes
  | .slice elem => sliceStore elem (store elem)
  | .array length elem => arrayStore length elem (store elem)
  | .struct fields => storeFields fields
  | .ptr elem => ptrStore elem (store elem)
  | .map key elem => fun items heap _ =>
      storeEntries key elem (store key) (store elem) items heap (zeroCell key)
        (zeroCell elem) []

def storeFields : (fields : Fields) → Store (FieldItems fields) (FieldCells fields)
  | .nil => fun _ heap cells => (heap, cells)
  | .cons _ _ type rest => fun items heap cells =>
      let (heap, cell) := store type items.1 heap cells.1
      let (heap, cells) := storeFields rest items.2 heap cells.2
      (heap, (cell, cells))
end

theorem sliceStore_of_not_byte {elem : GoType} (other : elem.isByte = false)
    (inner : Store (Item elem) (Cell elem)) :
    sliceStore elem inner = storeSlice elem inner := by
  cases elem with
  | uint kind => cases kind <;> first | rfl | simp [GoType.isByte] at other
  | _ => rfl

theorem arrayStore_of_not_byte (length : Nat) {elem : GoType}
    (other : elem.isByte = false) (inner : Store (Item elem) (Cell elem))
    (items : Item (.array length elem)) (heap : Heap) (cells : Cell (.array length elem)) :
    arrayStore length elem inner items heap cells =
      ((storeTuple inner items.1 heap cells.1).1,
        ⟨(storeTuple inner items.1 heap cells.1).2.1,
          (storeTuple inner items.1 heap cells.1).2.2.trans cells.2⟩) := by
  cases elem with
  | uint kind => cases kind <;> first | rfl | simp [GoType.isByte] at other
  | _ => rfl

theorem openIndex_cases {heap : Heap} {elem : GoType} {header : SliceHeader} {i : Nat}
    (reached : i ≤ header.len) (bound : header.len ≤ heap.cap elem header) :
    (∃ count, 0 < count ∧ (heap.backing elem header).length = i ∧
      openIndex heap elem header i =
        (heap.alloc elem (heap.backing elem header ++ List.replicate count (zeroCell elem)),
          ⟨some (heap.size elem), i + 1⟩)) ∨
    ∃ len, i < len ∧ len ≤ heap.cap elem header ∧
      openIndex heap elem header i = (heap, ⟨header.base, len⟩) := by
  by_cases full : heap.cap elem header ≤ i
  · have last : header.len = i := Nat.le_antisymm (Nat.le_trans bound full) reached
    have length : (heap.backing elem header).length = i :=
      Nat.le_antisymm full (Nat.le_trans reached bound)
    have moved : heap.elems elem header = heap.backing elem header :=
      List.take_of_length_le (Nat.le_of_eq (length.trans last.symm))
    refine .inl ⟨(if i + i / 2 < 4 then 4 else i + i / 2) - i, ?_, length, ?_⟩
    · split_ifs <;> omega
    · simp only [openIndex, growSlice, moved, last, Nat.le_refl, if_true, Heap.cap,
        length]
  · have room := Nat.lt_of_not_le full
    simp only [openIndex, growSlice, if_neg full]
    split_ifs with short
    · exact .inr ⟨i + 1, Nat.lt_succ_self i, room, rfl⟩
    · exact .inr ⟨header.len, Nat.lt_of_not_le short, bound, rfl⟩

theorem elems_setBytes (content : List Byte) (heap : Heap) (header : SliceHeader) :
    (setBytes content heap header).1.elems .byte (setBytes content heap header).2 = content := by
  cases content with
  | nil => rfl
  | cons byte rest =>
      have block := heap.backing_alloc .byte (byte :: rest) (byte :: rest).length
      exact (congrArg (List.take (byte :: rest).length) block).trans List.take_length

end Bclib.Rlp
