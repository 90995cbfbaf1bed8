import Bclib.Go.Relocation
import Bclib.Rlp.Execute

namespace Bclib.Rlp

open Data
open Go

/-! Decoding treats addresses as names: with the same memory further up, it writes the
same, further up.  So what a map decodes to does not depend on the memory around it. -/

variable {offsets : GoType → Nat} {small big : Heap}

def Relocates (type : GoType) (set : Store ι (Cell type)) : Prop :=
  ∀ (offsets : GoType → Nat) (small big : Heap), Mirrors offsets small big →
    ∀ (item : ι) (cell : Cell type),
      Mirrors offsets (set item small cell).1 (set item big (shift offsets type cell)).1 ∧
        (set item big (shift offsets type cell)).2 = shift offsets type (set item small cell).2

-- words and bytes refer to nothing, so that they are the same further up
private theorem map_shift_plain {type : GoType} (plain : ∀ cell, shift offsets type cell = cell)
    (cells : List (Cell type)) : cells.map (shift offsets type) = cells :=
  (List.map_congr_left fun cell _ => plain cell).trans (List.map_id cells)

private theorem alloc_plain (mirrors : Mirrors offsets small big) {type : GoType}
    (plain : ∀ cell, shift offsets type cell = cell) (cells : List (Cell type)) :
    Mirrors offsets (small.alloc type cells) (big.alloc type cells) := by
  have allocated := mirrors.alloc type cells
  rwa [map_shift_plain plain] at allocated

private theorem write_plain (mirrors : Mirrors offsets small big) {type : GoType}
    (plain : ∀ cell, shift offsets type cell = cell) (address : Nat) (cells : List (Cell type)) :
    Mirrors offsets (small.write type address cells)
      (big.write type (address + offsets type) cells) := by
  have written := mirrors.write type address cells
  rwa [map_shift_plain plain] at written

theorem setNat_relocates (mirrors : Mirrors offsets small big) (abs : SliceHeader)
    (buf : List Byte) :
    Mirrors offsets (small.setNat abs buf).1 (big.setNat (abs.shift (offsets wordType)) buf).1 ∧
      (big.setNat (abs.shift (offsets wordType)) buf).2 =
        (small.setNat abs buf).2.shift (offsets wordType) := by
  obtain ⟨base, len⟩ := abs
  have cap := mirrors.cap wordType ⟨base, len⟩
  by_cases enough : (buf.length + 7) / 8 ≤ small.cap wordType ⟨base, len⟩
  · cases base with
    | none =>
        simp only [Heap.setNat, cap, if_pos enough]
        exact ⟨mirrors, rfl⟩
    | some address =>
        have unchanged : big.block wordType (address + offsets wordType) =
            small.block wordType address :=
          (mirrors.block wordType address).trans (List.map_id _)
        simp only [Heap.setNat, cap, if_pos enough]
        simp only [SliceHeader.shift, Option.map_some, unchanged]
        exact ⟨write_plain mirrors (fun _ => rfl) address _, trivial⟩
  · simp only [Heap.setNat, cap, if_neg enough]
    exact ⟨alloc_plain mirrors (fun _ => rfl) _,
      congrArg (fun address => SliceHeader.mk (some address) _) (mirrors.size wordType)⟩

theorem setBigInt_relocates (buf : ι → List Byte) :
    Relocates .bigInt (fun item heap cell => heap.setBigInt cell (buf item)) := by
  intro offsets small big mirrors item cell
  have set := setNat_relocates mirrors (BigIntCell.abs cell) (buf item)
  exact ⟨set.1, congrArg (BigIntCell.mk false) set.2⟩

theorem setTarget_relocates (mirrors : Mirrors offsets small big) (type : GoType) (address : Nat)
    (cell : Cell type) :
    Mirrors offsets (small.setTarget type address cell)
      (big.setTarget type (address + offsets type) (shift offsets type cell)) :=
  mirrors.write_entry type address 0 cell

private theorem setWords_relocates (mirrors : Mirrors offsets small big) (address : Nat)
    (abs : SliceHeader) (buf : List Byte) (make : SliceHeader → BigIntCell)
    (moves : ∀ abs : SliceHeader,
      make (abs.shift (offsets wordType)) = shift offsets .bigInt (make abs)) :
    Mirrors offsets
      ((small.setNat abs buf).1.setTarget .bigInt address (make (small.setNat abs buf).2))
      ((big.setNat (abs.shift (offsets wordType)) buf).1.setTarget .bigInt
        (address + offsets .bigInt)
        (make (big.setNat (abs.shift (offsets wordType)) buf).2)) := by
  have set := setNat_relocates mirrors abs buf
  rw [set.2, moves]
  exact setTarget_relocates set.1 .bigInt address _

private theorem setBytesAt_some_relocates (mirrors : Mirrors offsets small big) (buf : List Byte)
    (address : Nat) :
    Mirrors offsets (Bn.setBytesAt small (some address) buf).1
        (Bn.setBytesAt big (some (address + offsets .bigInt)) buf).1 ∧
      (Bn.setBytesAt big (some (address + offsets .bigInt)) buf).2 =
        (Bn.setBytesAt small (some address) buf).2.map (· + offsets .bigInt) := by
  cases buf with
  | nil => exact ⟨mirrors, rfl⟩
  | cons sign magnitude =>
      have old := mirrors.target .bigInt address
      refine ⟨?_, rfl⟩
      by_cases negative : sign = 0xFF#8
      · simp only [Bn.setBytesAt, Heap.setBigInt, if_pos negative, old]
        exact setWords_relocates mirrors address _ magnitude
          (fun abs => BigIntCell.negate ⟨false, abs⟩) fun _ => rfl
      · simp only [Bn.setBytesAt, Heap.setBigInt, if_neg negative, old]
        exact setWords_relocates mirrors address _ (sign :: magnitude) (BigIntCell.mk false)
          fun _ => rfl

theorem setBytesAt_relocates :
    Relocates .number (fun item heap cell => Bn.setBytesAt heap cell item) := by
  intro offsets small big mirrors buf cell
  cases cell with
  | some address => exact setBytesAt_some_relocates mirrors buf address
  | none =>
      have allocated := mirrors.alloc .bigInt [zeroCell .bigInt]
      rw [List.map_singleton, shift_zeroCell] at allocated
      have set := setBytesAt_some_relocates allocated buf (small.size .bigInt)
      rw [← mirrors.size] at set
      show Mirrors offsets (Bn.setBytesAt small none buf).1 (Bn.setBytesAt big none buf).1 ∧
        (Bn.setBytesAt big none buf).2 = Option.map _ (Bn.setBytesAt small none buf).2
      rw [Bn.setBytesAt_none, Bn.setBytesAt_none]
      exact set

theorem setBytes_relocates : Relocates (.slice .byte) setBytes := by
  intro offsets small big mirrors content header
  cases content with
  | nil => exact ⟨mirrors, rfl⟩
  | cons byte rest =>
      refine ⟨?_, congrArg (fun address => SliceHeader.mk (some address) _) (mirrors.size .byte)⟩
      exact alloc_plain mirrors (fun _ => rfl) _

section Inner

variable {elem : GoType} {inner : Store (Item elem) (Cell elem)}

theorem growSlice_relocates (mirrors : Mirrors offsets small big) (elem : GoType)
    (header : SliceHeader) (i : Nat) :
    Mirrors offsets (growSlice small elem header i).1
        (growSlice big elem (header.shift (offsets elem)) i).1 ∧
      (growSlice big elem (header.shift (offsets elem)) i).2 =
        (growSlice small elem header i).2.shift (offsets elem) := by
  have cap := mirrors.cap elem header
  by_cases full : small.cap elem header ≤ i
  · have moved := mirrors.elems elem header
    simp only [growSlice, cap, if_pos full, moved, List.length_map]
    refine ⟨?_, congrArg (fun address => SliceHeader.mk (some address) _) (mirrors.size elem)⟩
    have zeros : ∀ count, List.replicate count (zeroCell elem) =
        (List.replicate count (zeroCell elem)).map (shift offsets elem) := by
      intro count
      rw [List.map_replicate, shift_zeroCell]
    rw [zeros, ← List.map_append, ← zeros]
    exact mirrors.alloc elem _
  · simp only [growSlice, cap, if_neg full]
    exact ⟨mirrors, trivial⟩

theorem openIndex_relocates (mirrors : Mirrors offsets small big) (elem : GoType)
    (header : SliceHeader) (i : Nat) :
    Mirrors offsets (openIndex small elem header i).1
        (openIndex big elem (header.shift (offsets elem)) i).1 ∧
      (openIndex big elem (header.shift (offsets elem)) i).2 =
        (openIndex small elem header i).2.shift (offsets elem) := by
  have grown := growSlice_relocates mirrors elem header i
  simp only [openIndex, grown.2, SliceHeader.shift_len]
  refine ⟨grown.1, ?_⟩
  split_ifs
  · rfl
  · rfl

theorem elemAt_relocates (mirrors : Mirrors offsets small big) (header : SliceHeader) (i : Nat) :
    elemAt big elem (header.shift (offsets elem)) i =
      shift offsets elem (elemAt small elem header i) := by
  rw [elemAt, elemAt, mirrors.backing, List.getElem?_map]
  cases (small.backing elem header)[i]? with
  | none => exact (shift_zeroCell offsets elem).symm
  | some cell => rfl

theorem setElem_relocates (mirrors : Mirrors offsets small big) (header : SliceHeader) (i : Nat)
    (cell : Cell elem) :
    Mirrors offsets (setElem small elem header i cell)
      (setElem big elem (header.shift (offsets elem)) i (shift offsets elem cell)) := by
  obtain ⟨base, len⟩ := header
  cases base with
  | none => exact mirrors
  | some address => exact mirrors.write_entry elem address i cell

theorem storeElems_relocates (relocates : Relocates elem inner) (items : List (Item elem))
    (i : Nat) (mirrors : Mirrors offsets small big) (header : SliceHeader) :
    Mirrors offsets (storeElems elem inner i items small header).1
        (storeElems elem inner i items big (header.shift (offsets elem))).1 ∧
      (storeElems elem inner i items big (header.shift (offsets elem))).2 =
        (storeElems elem inner i items small header).2.shift (offsets elem) := by
  induction items generalizing i small big header with
  | nil =>
      have opened := openIndex_relocates mirrors elem header i
      simp only [storeElems, opened.2, SliceHeader.shift_len]
      refine ⟨opened.1, ?_⟩
      split_ifs
      · rfl
      · rfl
  | cons item rest ih =>
      have opened := openIndex_relocates mirrors elem header i
      have stored := relocates offsets _ _ opened.1 item
        (elemAt (openIndex small elem header i).1 elem (openIndex small elem header i).2 i)
      have written := setElem_relocates stored.1 (openIndex small elem header i).2 i
        (inner item (openIndex small elem header i).1 (elemAt (openIndex small elem header i).1
          elem (openIndex small elem header i).2 i)).2
      simp only [storeElems, opened.2, elemAt_relocates opened.1, stored.2]
      exact ih (i + 1) written _

theorem storeSlice_relocates (relocates : Relocates elem inner) :
    Relocates (.slice elem) (storeSlice elem inner) := by
  intro offsets small big mirrors items header
  cases items with
  | nil => exact ⟨mirrors, rfl⟩
  | cons item rest => exact storeElems_relocates relocates (item :: rest) 0 mirrors header

theorem taggedSliceStore_relocates (tail : Bool) (relocates : Relocates elem inner) :
    Relocates (.slice elem) (taggedSliceStore tail elem inner) := by
  cases kind : elem.isByte with
  | true =>
      obtain rfl := GoType.eq_byte_of_isByte kind
      exact setBytes_relocates
  | false =>
      rw [taggedSliceStore_of_not_byte tail kind]
      cases tail with
      | true => exact fun offsets small big mirrors items header =>
          storeElems_relocates relocates items 0 mirrors header
      | false => exact storeSlice_relocates relocates

theorem storeTuple_relocates (relocates : Relocates elem inner) (items : List (Item elem))
    (mirrors : Mirrors offsets small big) (cells : List (Cell elem)) :
    Mirrors offsets (storeTuple inner items small cells).1
        (storeTuple inner items big (cells.map (shift offsets elem))).1 ∧
      (storeTuple inner items big (cells.map (shift offsets elem))).2.1 =
        (storeTuple inner items small cells).2.1.map (shift offsets elem) := by
  induction items generalizing small big cells with
  | nil => cases cells <;> exact ⟨mirrors, rfl⟩
  | cons item items ih =>
      cases cells with
      | nil => exact ⟨mirrors, rfl⟩
      | cons cell cells =>
          have stored := relocates offsets small big mirrors item cell
          have others := ih stored.1 cells
          exact ⟨others.1, congrArg₂ List.cons stored.2 others.2⟩

theorem arrayStore_relocates (length : Nat) (relocates : Relocates elem inner) :
    Relocates (.array length elem) (arrayStore length elem inner) := by
  intro offsets small big mirrors items cells
  cases kind : elem.isByte with
  | true =>
      obtain rfl := GoType.eq_byte_of_isByte kind
      exact ⟨mirrors, Subtype.ext (List.map_id _).symm⟩
  | false =>
      rw [arrayStore_of_not_byte length kind, arrayStore_of_not_byte length kind]
      have stored := storeTuple_relocates relocates items.1 mirrors cells.1
      exact ⟨stored.1, Subtype.ext stored.2⟩

private theorem storeAt_some_relocates (relocates : Relocates elem inner)
    (mirrors : Mirrors offsets small big) (item : Item elem) (address : Nat) :
    Mirrors offsets (storeAt elem inner item small (some address)).1
      (storeAt elem inner item big (some (address + offsets elem))).1 := by
  have stored := relocates offsets small big mirrors item (small.target elem address)
  have written := setTarget_relocates stored.1 elem address
    (inner item small (small.target elem address)).2
  rw [← stored.2, ← mirrors.target] at written
  exact written

theorem storePtr_relocates (relocates : Relocates elem inner) :
    Relocates (.ptr elem) (storePtr elem inner) := by
  intro offsets small big mirrors item cell
  cases item with
  | none => exact ⟨mirrors, rfl⟩
  | some item =>
      cases cell with
      | none =>
          have stored := relocates offsets small big mirrors item (zeroCell elem)
          rw [shift_zeroCell] at stored
          have allocated := stored.1.alloc elem [(inner item small (zeroCell elem)).2]
          rw [List.map_singleton, ← stored.2] at allocated
          exact ⟨allocated, congrArg some (stored.1.size elem)⟩
      | some address => exact ⟨storeAt_some_relocates relocates mirrors item address, rfl⟩

theorem storeAt_relocates (relocates : Relocates elem inner) :
    Relocates (.ptr elem) (storeAt elem inner) := by
  intro offsets small big mirrors item cell
  cases cell with
  | some address => exact ⟨storeAt_some_relocates relocates mirrors item address, rfl⟩
  | none =>
      have allocated := mirrors.alloc elem [zeroCell elem]
      rw [List.map_singleton, shift_zeroCell] at allocated
      have stored := storeAt_some_relocates relocates allocated item (small.size elem)
      rw [← mirrors.size] at stored
      exact ⟨stored, congrArg some (mirrors.size elem)⟩

theorem ptrStore_relocates (relocates : Relocates elem inner) :
    Relocates (.ptr elem) (ptrStore elem inner) := by
  intro offsets small big mirrors item cell
  cases elem with
  | bigInt =>
      cases item with
      | none => exact ⟨mirrors, rfl⟩
      | some item => exact storeAt_relocates relocates offsets small big mirrors item cell
  | number =>
      cases item with
      | none => exact ⟨mirrors, rfl⟩
      | some item => exact storeAt_relocates relocates offsets small big mirrors item cell
  | _ => exact storePtr_relocates relocates offsets small big mirrors item cell

end Inner

private theorem shift_assocSet (offsets : GoType → Nat) (key elem : GoType)
    (entries : List (Cell key × Cell elem)) (keyCell : Cell key) (value : Cell elem) :
    shift offsets (.map key elem) (assocSet entries keyCell value) =
      (assocSet (shift offsets (.map key elem) entries : List (Cell key × Cell elem))
        (shift offsets key keyCell) (shift offsets elem value) :
          List (Cell key × Cell elem)) :=
  map_assocSet (shift offsets elem) (shift_injective offsets key) entries keyCell value

theorem storeEntries_relocates {key elem : GoType} {keyStore : Store (Item key) (Cell key)}
    {elemStore : Store (Item elem) (Cell elem)} (keys : Relocates key keyStore)
    (elems : Relocates elem elemStore) (items : List (Item key × Item elem))
    (mirrors : Mirrors offsets small big) (keyCell : Cell key) (value : Cell elem)
    (entries : List (Cell key × Cell elem)) :
    let result := storeEntries key elem keyStore elemStore items small keyCell value entries
    let moved := storeEntries key elem keyStore elemStore items big (shift offsets key keyCell)
      (shift offsets elem value) (shift offsets (.map key elem) entries)
    Mirrors offsets result.1 moved.1 ∧ moved.2 = shift offsets (.map key elem) result.2 := by
  induction items generalizing small big keyCell value entries with
  | nil => exact ⟨mirrors, rfl⟩
  | cons item rest ih =>
      have keyed := keys offsets small big mirrors item.1 keyCell
      have start : (if elem.isMap then zeroCell elem else shift offsets elem value) =
          shift offsets elem (if elem.isMap then zeroCell elem else value) := by
        split_ifs
        · exact (shift_zeroCell offsets elem).symm
        · rfl
      have stored := elems offsets _ _ keyed.1 item.2
        (if elem.isMap then zeroCell elem else value)
      simp only [storeEntries, keyed.2, start, stored.2, ← shift_assocSet]
      exact ih stored.1 _ _ _

mutual
theorem place_relocates : (type : GoType) → (tags : Tags) → Relocates type (place type tags)
  | .uint _, _ => fun _ _ _ mirrors _ _ => ⟨mirrors, rfl⟩
  | .int _, _ => fun _ _ _ mirrors _ _ => ⟨mirrors, rfl⟩
  | .bool, _ => fun _ _ _ mirrors _ _ => ⟨mirrors, rfl⟩
  | .string, _ => fun _ _ _ mirrors _ _ => ⟨mirrors, rfl⟩
  | .bigInt, _ => setBigInt_relocates bigEndian
  | .number, _ => setBytesAt_relocates
  | .rawValue, _ => setBytes_relocates
  | .slice elem, tags => taggedSliceStore_relocates tags.tail (place_relocates elem {})
  | .array length elem, _ => arrayStore_relocates length (place_relocates elem {})
  | .struct fields, _ => placeFields_relocates fields
  | .ptr elem, _ => ptrStore_relocates (place_relocates elem {})
  | .map key elem, _ => fun offsets small big mirrors items _ => by
      have stored := storeEntries_relocates (place_relocates key {}) (place_relocates elem {})
        items mirrors (zeroCell key) (zeroCell elem) []
      rw [shift_zeroCell, shift_zeroCell] at stored
      exact stored

theorem placeFields_relocates : (fields : Fields) →
    Relocates (.struct fields) (placeFields fields)
  | .nil => fun _ _ _ mirrors _ _ => ⟨mirrors, rfl⟩
  | .cons _ tags type rest => fun offsets small big mirrors items cells => by
      have stored := place_relocates type tags offsets small big mirrors items.1 cells.1
      have others := placeFields_relocates rest offsets _ _ stored.1 items.2 cells.2
      exact ⟨others.1, Prod.ext stored.2 others.2⟩
end

theorem load_place_map (key elem : GoType) (tags : Tags) (items : Item (.map key elem))
    (heap : Heap) (old : Cell (.map key elem)) :
    load (place (.map key elem) tags items heap old).1 (.map key elem)
        (place (.map key elem) tags items heap old).2 =
      load (place (.map key elem) {} items .empty (zeroCell (.map key elem))).1 (.map key elem)
        (place (.map key elem) {} items .empty (zeroCell (.map key elem))).2 := by
  have placed := place_relocates (.map key elem) {} heap.size .empty heap (mirrors_empty heap)
    items (zeroCell (.map key elem))
  have same := load_shift placed.1 (.map key elem)
    (place (.map key elem) {} items .empty (zeroCell (.map key elem))).2
  rw [← placed.2] at same
  exact same

end Bclib.Rlp
