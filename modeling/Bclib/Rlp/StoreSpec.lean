import Bclib.Go.Sharing
import Bclib.Rlp.Denote
import Bclib.Rlp.Store

namespace Bclib.Rlp

open Data
open Go

/-! What the store leaves in memory reads as the item's value, and nothing that was
readable before has changed. -/

mutual
/-- Maps with several entries have element types whose variables can be reused. -/
def Unshared : (type : GoType) → Item type → Prop
  | .uint _, _ => True
  | .int _, _ => True
  | .bool, _ => True
  | .string, _ => True
  | .bigInt, _ => True
  | .number, _ => True
  | .rawValue, _ => True
  | .slice elem, (items : List (Item elem)) => ∀ item ∈ items, Unshared elem item
  | .array _ elem, items => ∀ item ∈ items.1, Unshared elem item
  | .struct fields, items => FieldsUnshared fields items
  | .ptr elem, (item : Option (Item elem)) => ∀ inner ∈ item, Unshared elem inner
  | .map _ elem, (entries : List (Item _ × Item elem)) =>
      (entries.length ≤ 1 ∨ reusable elem = true) ∧
        ∀ entry ∈ entries, Unshared elem entry.2

def FieldsUnshared : (fields : Fields) → FieldItems fields → Prop
  | .nil, _ => True
  | .cons _ _ type rest, items => Unshared type items.1 ∧ FieldsUnshared rest items.2
end

structure Stored (heap : Heap) (type : GoType) (value : Value type)
    (result : Heap × Cell type) : Prop where
  keeps : heap.Keeps result.1
  tidy : result.1.Tidy
  settled : Settled result.1 type result.2
  loads : load result.1 type result.2 = value

/-- The item is stored through every variable that can be decoded into. -/
def Stores (type : GoType) (set : Store (Item type) (Cell type)) (item : Item type) : Prop :=
  ∀ (heap : Heap) (cell : Cell type), heap.Tidy → Clean heap type cell →
    Stored heap type (denote type item) (set item heap cell)

/-- Storing a value without data into a settled variable changes nothing. -/
def Steady (type : GoType) (set : Store (Item type) (Cell type)) (item : Item type) : Prop :=
  ∀ (heap : Heap) (cell : Cell type), Settled heap type cell →
    set item heap cell = (heap, cell)

theorem setBytes_stored (content : List Byte) (heap : Heap) (header : SliceHeader)
    (tidy : heap.Tidy) :
    heap.Keeps (setBytes content heap header).1 ∧ (setBytes content heap header).1.Tidy ∧
      (setBytes content heap header).2.len ≤
        (setBytes content heap header).1.cap .byte (setBytes content heap header).2 ∧
      (setBytes content heap header).1.elems .byte (setBytes content heap header).2 =
        content := by
  cases content with
  | nil => exact ⟨.refl heap, tidy, Nat.le_refl _, rfl⟩
  | cons byte rest =>
      have block := heap.backing_alloc .byte (byte :: rest) (byte :: rest).length
      refine ⟨Heap.keeps_alloc heap .byte _, tidy.alloc ?_,
        Nat.le_of_eq (congrArg List.length block).symm, elems_setBytes _ heap header⟩
      intro empty
      simp [GoType.byte, dataless] at empty

theorem setNat_stored (heap : Heap) (abs : SliceHeader) (buf : List Byte) (tidy : heap.Tidy)
    (unbased : abs.base = none) :
    heap.Keeps (heap.setNat abs buf).1 ∧ (heap.setNat abs buf).1.Tidy ∧
      (heap.setNat abs buf).2.len ≤
        (heap.setNat abs buf).1.cap wordType (heap.setNat abs buf).2 := by
  by_cases enough : (buf.length + 7) / 8 ≤ heap.cap wordType abs
  · have none : (buf.length + 7) / 8 = 0 := by
      simpa [Heap.cap, Heap.backing, unbased] using enough
    have set : heap.setNat abs buf = (heap, ⟨.none, 0⟩) := by
      simp only [Heap.setNat, unbased, none, wordsOf, normLen, Nat.zero_le, if_true]
    rw [set]
    exact ⟨.refl heap, tidy, Nat.zero_le _⟩
  · simp only [Heap.setNat, if_neg enough]
    refine ⟨Heap.keeps_alloc heap wordType _, tidy.alloc ?_, ?_⟩
    · intro empty
      simp [wordType, dataless] at empty
    · simp only [Heap.cap, Heap.backing, TypedHeap.block_alloc_self]
      exact Nat.le_trans (normLen_le _) (List.prefix_append _ _).length_le

theorem setBigInt_stored (heap : Heap) (cell : BigIntCell) (buf : List Byte)
    (tidy : heap.Tidy) (unbased : cell.abs.base = none) :
    Stored heap .bigInt (ofBigEndian buf : Int) (heap.setBigInt cell buf) := by
  obtain ⟨keeps, tidied, bound⟩ := setNat_stored heap cell.abs buf tidy unbased
  exact ⟨keeps, tidied, bound, loadBigInt_setBigInt heap cell buf⟩

theorem setTarget_settled {heap : Heap} {type : GoType} {address : Nat} {cell : Cell type}
    (present : heap.block type address ≠ []) (settled : Settled heap type cell) :
    (heap.setTarget type address cell).block type address ≠ [] ∧
      (heap.setTarget type address cell).target type address = cell ∧
      Settled (heap.setTarget type address cell) type cell ∧
      load (heap.setTarget type address cell) type cell = load heap type cell := by
  refine ⟨?_, Heap.target_setTarget present cell, settled.write address _⟩
  rw [Heap.block_setTarget present]
  simpa using present

theorem Stored.clean {heap : Heap} {type : GoType} {value : Value type}
    {result : Heap × Cell type} (stored : Stored heap type value result)
    (free : reusable type = true) : Clean result.1 type result.2 :=
  Settled.clean type free result.2 stored.settled

theorem Stored.allocCell {heap : Heap} {elem : GoType} {value : Value elem}
    {result : Heap × Cell elem} (stored : Stored heap elem value result) :
    Stored heap (.ptr elem) (some value : Option (Value elem))
      (result.1.allocCell elem result.2, some (result.1.size elem)) := by
  have later := Heap.keeps_alloc result.1 elem [result.2]
  have block : (result.1.allocCell elem result.2).block elem (result.1.size elem) =
      [result.2] := TypedHeap.block_alloc_self
  have target := Heap.target_allocCell result.1 elem result.2
  obtain ⟨settled, read⟩ := Settled.kept later elem result.2 stored.settled
  refine ⟨stored.keeps.trans later, stored.tidy.alloc ?_,
    ⟨result.1.size elem, rfl, ?_, ?_⟩, ?_⟩
  · intro empty cell member
    obtain rfl := List.mem_singleton.1 member
    exact stored.clean (reusable_of_dataless elem empty)
  · exact fun missing => List.cons_ne_nil _ _ (block.symm.trans missing)
  · rw [target]
    exact settled
  · rw [load_ptr_some, target]
    exact congrArg some (read.trans stored.loads)

theorem Stored.setTarget {heap next : Heap} {elem : GoType} {value : Value elem}
    {result : Heap × Cell elem} (stored : Stored next elem value result)
    (keeps : heap.Keeps (result.1.setTarget elem address result.2))
    (present : next.block elem address ≠ []) :
    Stored heap (.ptr elem) (some value : Option (Value elem))
      (result.1.setTarget elem address result.2, some address) := by
  obtain ⟨there, target, settled, read⟩ :=
    setTarget_settled (stored.keeps.grows.block_ne_nil present) stored.settled
  refine ⟨keeps, stored.tidy.write_entry address 0 ?_, ⟨address, rfl, there, ?_⟩, ?_⟩
  · exact fun empty => stored.clean (reusable_of_dataless elem empty)
  · rw [target]
    exact settled
  · rw [load_ptr_some, target]
    exact congrArg some (read.trans stored.loads)

theorem Stored.setNew {heap : Heap} {elem : GoType} {value : Value elem}
    {result : Heap × Cell elem}
    (stored : Stored (heap.allocCell elem (zeroCell elem)) elem value result) :
    Stored heap (.ptr elem) (some value : Option (Value elem))
      (result.1.setTarget elem (heap.size elem) result.2, some (heap.size elem)) := by
  have fresh := Heap.keeps_alloc heap elem [zeroCell elem]
  refine stored.setTarget ((fresh.trans stored.keeps).write_new (Nat.le_refl _) _) ?_
  rw [Heap.allocCell, TypedHeap.block_alloc_self]
  exact List.cons_ne_nil _ _

theorem tidy_allocCell_zero {heap : Heap} (tidy : heap.Tidy) (elem : GoType) :
    (heap.allocCell elem (zeroCell elem)).Tidy :=
  tidy.alloc fun _ cell member => by
    obtain rfl := List.mem_singleton.1 member
    exact clean_zeroCell heap elem

theorem negate_stored {heap next : Heap} {abs : SliceHeader} {value : Int}
    (stored : Stored heap .bigInt value (next, BigIntCell.mk false abs)) :
    Stored heap .bigInt (-value) (next, BigIntCell.negate ⟨false, abs⟩) :=
  ⟨stored.keeps, stored.tidy, stored.settled,
    (loadBigInt_negate next abs).trans (congrArg Neg.neg stored.loads)⟩

theorem setBytesAt_stored (heap : Heap) (buf : List Byte) (tidy : heap.Tidy) :
    Stored heap .number (some (Bn.setBytes none buf) : Option Int)
      (Bn.setBytesAt heap none buf) := by
  have tidied := tidy_allocCell_zero tidy .bigInt
  have target := heap.target_allocCell .bigInt (zeroCell .bigInt)
  -- a number is a pointer to its big integer
  suffices pointer : Stored heap (.ptr .bigInt) (some (Bn.setBytes none buf) : Option Int)
      (Bn.setBytesAt heap none buf) from
    ⟨pointer.keeps, pointer.tidy, pointer.settled, pointer.loads⟩
  cases buf with
  | nil =>
      have zero : Stored heap .bigInt (0 : Int) (heap, zeroCell .bigInt) :=
        ⟨.refl heap, tidy, Nat.zero_le _, rfl⟩
      exact zero.allocCell
  | cons sign magnitude =>
      by_cases negative : sign = 0xFF#8
      · have stored := negate_stored
          (setBigInt_stored _ (zeroCell .bigInt) magnitude tidied rfl)
        simp only [Bn.setBytesAt, Bn.setBytes, if_pos negative, target]
        exact stored.setNew
      · have stored := setBigInt_stored _ (zeroCell .bigInt) (sign :: magnitude) tidied rfl
        simp only [Bn.setBytesAt, Bn.setBytes, if_neg negative, target]
        exact stored.setNew

/-! Slices.  The block of a slice that is being filled is new, or holds no data. -/

structure Filling (start heap : Heap) (elem : GoType) (header : SliceHeader)
    (values : List (Value elem)) : Prop where
  keeps : start.Keeps heap
  tidy : heap.Tidy
  owned : dataless elem = true ∨
    ∀ address, header.base = some address → start.size elem ≤ address
  reached : values.length ≤ header.len
  bound : header.len ≤ heap.cap elem header
  clean : ∀ cell ∈ (heap.backing elem header).drop values.length, Clean heap elem cell
  settled : ∀ cell ∈ (heap.backing elem header).take values.length, Settled heap elem cell
  loads : ((heap.backing elem header).take values.length).map (load heap elem) = values

theorem Filling.start {heap : Heap} {elem : GoType} {header : SliceHeader}
    (tidy : heap.Tidy) (other : elem.isByte = false)
    (clean : Clean heap (.slice elem) header) : Filling heap heap elem header [] := by
  rcases clean with bytes | rfl | ⟨empty, bound⟩
  · simp [other] at bytes
  · refine ⟨.refl heap, tidy, .inr ?_, Nat.le_refl _, Nat.zero_le _, ?_, ?_, rfl⟩
    · intro address based
      cases based
    · intro cell member
      cases member
    · intro cell member
      cases member
  · refine ⟨.refl heap, tidy, .inl empty, Nat.zero_le _, bound, ?_, ?_, rfl⟩
    · intro cell member
      cases based : header.base with
      | none => simp [Heap.backing, based] at member
      | some address =>
          simp only [Heap.backing, based, List.length_nil, List.drop_zero] at member
          exact tidy elem empty address cell member
    · intro cell member
      cases member

section Filling

variable {start heap : Heap} {elem : GoType} {header : SliceHeader}
variable {values : List (Value elem)}

private theorem Filling.move (filling : Filling start heap elem header values)
    (full : (heap.backing elem header).length = values.length) {count : Nat} (more : 0 < count) :
    Filling start
      (heap.alloc elem (heap.backing elem header ++ List.replicate count (zeroCell elem)))
      elem ⟨some (heap.size elem), values.length + 1⟩ values := by
  have later := Heap.keeps_alloc heap elem
    (heap.backing elem header ++ List.replicate count (zeroCell elem))
  have block := Heap.backing_alloc heap elem
    (heap.backing elem header ++ List.replicate count (zeroCell elem)) (values.length + 1)
  have all : (heap.backing elem header).take values.length = heap.backing elem header :=
    List.take_of_length_le (Nat.le_of_eq full)
  have settled := filling.settled
  have loads := filling.loads
  rw [all] at settled loads
  refine ⟨filling.keeps.trans later, filling.tidy.alloc ?_, .inr ?_, Nat.le_succ _, ?_, ?_, ?_,
    ?_⟩
  · intro empty cell member
    rcases List.mem_append.1 member with old | new
    · exact Settled.clean elem (reusable_of_dataless elem empty) cell (settled cell old)
    · obtain rfl := List.eq_of_mem_replicate new
      exact clean_zeroCell heap elem
  · intro address based
    cases based
    exact filling.keeps.size elem
  · rw [Heap.cap, block, List.length_append, full, List.length_replicate]
    exact Nat.add_le_add_left more _
  · intro cell member
    rw [block, ← full, List.drop_left] at member
    obtain rfl := List.eq_of_mem_replicate member
    exact clean_zeroCell _ elem
  · intro cell member
    rw [block, ← full, List.take_left] at member
    exact (Settled.kept later elem cell (settled cell member)).1
  · rw [block, ← full, List.take_left]
    exact (List.map_congr_left fun cell member =>
      (Settled.kept later elem cell (settled cell member)).2).trans loads

theorem openIndex_filling (filling : Filling start heap elem header values) :
    Filling start (openIndex heap elem header values.length).1 elem
        (openIndex heap elem header values.length).2 values ∧
      values.length < (openIndex heap elem header values.length).2.len := by
  rcases openIndex_cases filling.reached filling.bound with
    ⟨count, more, full, opened⟩ | ⟨len, room, bound, opened⟩
  · rw [opened]
    exact ⟨filling.move full more, Nat.lt_succ_self _⟩
  · rw [opened]
    exact ⟨⟨filling.keeps, filling.tidy, filling.owned, Nat.le_of_lt room, bound, filling.clean,
      filling.settled, filling.loads⟩, room⟩

private theorem elemAt_clean (filling : Filling start heap elem header values)
    (room : values.length < heap.cap elem header) :
    Clean heap elem (elemAt heap elem header values.length) := by
  apply filling.clean
  have inside : values.length < (heap.backing elem header).length := room
  rw [elemAt, List.getElem?_eq_getElem inside, Option.getD_some, List.drop_eq_getElem_cons inside]
  exact List.mem_cons_self ..

private theorem setElem_keeps {inner : Store (Item elem) (Cell elem)} {item : Item elem}
    {address : Nat} (based : header.base = some address)
    (steady : dataless elem = true → Steady elem inner item)
    (filling : Filling start heap elem header values)
    (stored : heap.Keeps (inner item heap (elemAt heap elem header values.length)).1) :
    start.Keeps
      (setElem (inner item heap (elemAt heap elem header values.length)).1 elem header
        values.length (inner item heap (elemAt heap elem header values.length)).2) := by
  simp only [setElem, based]
  rcases filling.owned with empty | fresh
  · refine filling.keeps.trans (stored.write_entry values.length fun old found => ?_)
    have current : elemAt heap elem header values.length = old := by
      simp only [elemAt, Heap.backing, based, found, Option.getD_some]
    by_cases settled : Settled heap elem old
    · left
      rw [current, steady empty heap old settled]
    · exact .inr ⟨empty, settled⟩
  · exact (filling.keeps.trans stored).write_new (fresh address based) _

private theorem lt_size_of_backing {address : Nat} (based : header.base = some address)
    {index : Nat} (inside : index < (heap.backing elem header).length) :
    address < heap.size elem := by
  apply TypedHeap.lt_size_of_block_ne_nil
  intro missing
  simp [Heap.backing, based, missing] at inside

private theorem Filling.rest_clean (filling : Filling start heap elem header values)
    {address : Nat} (based : header.base = some address)
    (inside : values.length < heap.cap elem header) {next : Heap} (later : heap.Keeps next)
    (tidy : next.Tidy) :
    ∀ entry ∈ (next.backing elem header).drop values.length, Clean next elem entry := by
  intro entry member
  cases empty : dataless elem with
  | true =>
      simp only [Heap.backing, based] at member
      exact tidy elem empty address entry (List.mem_of_mem_drop member)
  | false =>
      have same : next.backing elem header = heap.backing elem header := by
        have old := lt_size_of_backing based inside
        simp only [Heap.backing, based]
        exact later.block_eq empty old
      rw [same] at member
      exact Clean.grows later.grows elem entry (filling.clean entry member)

theorem setElem_filling {inner : Store (Item elem) (Cell elem)} {item : Item elem}
    (stores : Stores elem inner item) (steady : dataless elem = true → Steady elem inner item)
    (filling : Filling start heap elem header values) (room : values.length < header.len) :
    Filling start
      (setElem (inner item heap (elemAt heap elem header values.length)).1 elem header
        values.length (inner item heap (elemAt heap elem header values.length)).2)
      elem header (values ++ [denote elem item]) := by
  have inside : values.length < heap.cap elem header := Nat.lt_of_lt_of_le room filling.bound
  obtain ⟨address, based⟩ : ∃ address, header.base = some address := by
    cases based : header.base with
    | none => simp [Heap.cap, Heap.backing, based] at inside
    | some address => exact ⟨address, rfl⟩
  have stored := stores heap _ filling.tidy (elemAt_clean filling inside)
  have keeps := setElem_keeps based steady filling stored.keeps
  rcases result : inner item heap (elemAt heap elem header values.length) with ⟨next, cell⟩
  rw [result] at stored keeps
  have later := stored.keeps
  have first : (next.backing elem header).take values.length =
      (heap.backing elem header).take values.length :=
    @Heap.Keeps.elems_eq _ _ _ { header with len := values.length } later
      (Nat.le_of_lt inside) filling.settled
  have nextInside : values.length < (next.backing elem header).length :=
    Nat.lt_of_lt_of_le inside later.grows.cap_le
  have rest := filling.rest_clean based inside later stored.tidy
  simp only [setElem, based] at keeps ⊢
  have grows := Heap.grows_write_entry next elem address values.length cell
  have block : Heap.backing (next.write elem address
        ((next.block elem address).set values.length cell)) elem header =
      (next.backing elem header).set values.length cell := by
    simp only [Heap.backing, based]
    exact TypedHeap.block_write_self (lt_size_of_backing based nextInside)
  have front := Heap.take_set_succ (next.backing elem header) nextInside cell
  rw [← block, first] at front
  have written : ∀ entry, Settled next elem entry →
      Settled (next.write elem address ((next.block elem address).set values.length cell))
        elem entry ∧ _ := fun entry settled => settled.write address _
  have earlier : ∀ entry ∈ (heap.backing elem header).take values.length,
      Settled next elem entry ∧ load next elem entry = load heap elem entry :=
    fun entry member => Settled.kept later elem entry (filling.settled entry member)
  have count : (values ++ [denote elem item]).length = values.length + 1 := by simp
  refine ⟨keeps, ?_, filling.owned, ?_, ?_, ?_, ?_, ?_⟩
  · exact stored.tidy.write_entry address values.length fun empty =>
      stored.clean (reusable_of_dataless elem empty)
  · rw [count]
    exact room
  · exact Nat.le_trans filling.bound (Nat.le_trans later.grows.cap_le grows.cap_le)
  · intro entry member
    rw [count, block, List.drop_set_of_lt (Nat.lt_succ_self _)] at member
    refine Clean.grows grows elem entry (rest entry ?_)
    rw [List.drop_eq_getElem_cons nextInside]
    exact List.mem_cons_of_mem _ member
  · intro entry member
    rw [count, front] at member
    rcases List.mem_append.1 member with old | new
    · exact (written entry (earlier entry old).1).1
    · obtain rfl := List.mem_singleton.1 new
      exact (written entry stored.settled).1
  · rw [count, front, List.map_append, List.map_singleton,
      (written cell stored.settled).2, stored.loads]
    congr 1
    refine Eq.trans (List.map_congr_left fun entry member => ?_) filling.loads
    exact (written entry (earlier entry member).1).2.trans (earlier entry member).2

theorem Filling.stored (filling : Filling start heap elem header values) :
    Stored start (.slice elem) values (heap, SliceHeader.mk header.base values.length) :=
  ⟨filling.keeps, filling.tidy,
    ⟨Nat.le_trans filling.reached filling.bound, filling.settled⟩, filling.loads⟩

theorem storeElems_stored {inner : Store (Item elem) (Cell elem)} {items : List (Item elem)}
    (stores : ∀ item ∈ items, Stores elem inner item)
    (steady : ∀ item ∈ items, dataless elem = true → Steady elem inner item)
    (filling : Filling start heap elem header values) :
    Stored start (.slice elem) (values ++ items.map (denote elem))
      (storeElems elem inner values.length items heap header) := by
  induction items generalizing heap header values with
  | nil =>
      obtain ⟨opened, room⟩ := openIndex_filling filling
      simp only [storeElems, if_pos room, List.map_nil, List.append_nil]
      exact opened.stored
  | cons item rest ih =>
      rw [List.forall_mem_cons] at stores steady
      obtain ⟨opened, room⟩ := openIndex_filling filling
      have later := ih stores.2 steady.2 (setElem_filling stores.1 steady.1 opened room)
      rw [List.length_append, List.append_assoc] at later
      exact later

end Filling

theorem storeSlice_stored {elem : GoType} (other : elem.isByte = false)
    {inner : Store (Item elem) (Cell elem)} {items : List (Item elem)}
    (stores : ∀ item ∈ items, Stores elem inner item)
    (steady : ∀ item ∈ items, dataless elem = true → Steady elem inner item)
    {heap : Heap} {header : SliceHeader} (tidy : heap.Tidy)
    (clean : Clean heap (.slice elem) header) :
    Stored heap (.slice elem) (items.map (denote elem))
      (storeSlice elem inner items heap header) := by
  cases items with
  | nil => exact ⟨.refl heap, tidy, ⟨Nat.zero_le _, fun cell member => nomatch member⟩, rfl⟩
  | cons item rest => exact storeElems_stored stores steady (.start tidy other clean)

theorem storeTuple_stored {elem : GoType} {inner : Store (Item elem) (Cell elem)}
    {items : List (Item elem)} (stores : ∀ item ∈ items, Stores elem inner item)
    {heap : Heap} {cells : List (Cell elem)} (lengths : items.length = cells.length)
    (tidy : heap.Tidy) (clean : ∀ cell ∈ cells, Clean heap elem cell) :
    heap.Keeps (storeTuple inner items heap cells).1 ∧
      (storeTuple inner items heap cells).1.Tidy ∧
      (∀ cell ∈ (storeTuple inner items heap cells).2.1,
        Settled (storeTuple inner items heap cells).1 elem cell) ∧
      (storeTuple inner items heap cells).2.1.map
          (load (storeTuple inner items heap cells).1 elem) = items.map (denote elem) := by
  induction items generalizing heap cells with
  | nil =>
      cases cells with
      | nil => exact ⟨.refl heap, tidy, (fun cell member => nomatch member), rfl⟩
      | cons cell cells => simp at lengths
  | cons item items ih =>
      cases cells with
      | nil => simp at lengths
      | cons cell cells =>
          rw [List.forall_mem_cons] at stores clean
          have first := stores.1 heap cell tidy clean.1
          rcases result : inner item heap cell with ⟨next, stored⟩
          rw [result] at first
          obtain ⟨keeps, tidied, settled, loads⟩ := ih stores.2 (Nat.succ.inj lengths)
            first.tidy (fun cell member =>
              Clean.grows first.keeps.grows elem cell (clean.2 cell member))
          obtain ⟨kept, read⟩ := Settled.kept keeps elem stored first.settled
          simp only [storeTuple, result, List.map_cons]
          refine ⟨first.keeps.trans keeps, tidied, ?_, ?_⟩
          · exact List.forall_mem_cons.2 ⟨kept, settled⟩
          · rw [read, first.loads, loads]

theorem storePtr_stored {elem : GoType} {inner : Store (Item elem) (Cell elem)}
    {item : Item elem} (stores : Stores elem inner item)
    (steady : dataless elem = true → Steady elem inner item) {heap : Heap}
    {cell : Option Nat} (tidy : heap.Tidy) (clean : Clean heap (.ptr elem) cell) :
    Stored heap (.ptr elem) (some (denote elem item) : Option (Value elem))
      (storePtr elem inner (some item) heap cell) := by
  cases cell with
  | none => exact (stores heap (zeroCell elem) tidy (clean_zeroCell heap elem)).allocCell
  | some address =>
      obtain ⟨empty, present⟩ := clean address rfl
      have member : heap.target elem address ∈ heap.block elem address := by
        rw [Heap.target]
        cases old : heap.block elem address with
        | nil => exact absurd old present
        | cons first rest => exact List.mem_cons_self ..
      have stored := stores heap (heap.target elem address) tidy
        (tidy elem empty address _ member)
      refine stored.setTarget (stored.keeps.write_entry 0 fun old found => ?_) present
      have current : heap.target elem address = old := by
        rw [Heap.target, List.headD_eq_head?_getD, List.head?_eq_getElem?, found]
        rfl
      by_cases settled : Settled heap elem old
      · left
        rw [current, steady empty heap old settled]
      · exact .inr ⟨empty, settled⟩

theorem storeAt_stored {elem : GoType} {inner : Store (Item elem) (Cell elem)}
    {item : Item elem} (stores : Stores elem inner item) {heap : Heap} (tidy : heap.Tidy) :
    Stored heap (.ptr elem) (some (denote elem item) : Option (Value elem))
      (storeAt elem inner item heap none) := by
  have target := heap.target_allocCell elem (zeroCell elem)
  have stored := stores (heap.allocCell elem (zeroCell elem)) (zeroCell elem)
    (tidy_allocCell_zero tidy elem) (clean_zeroCell _ elem)
  simp only [storeAt, target]
  exact stored.setNew

theorem ptrStore_stored {elem : GoType} {inner : Store (Item elem) (Cell elem)}
    {item : Item elem} (stores : Stores elem inner item)
    (steady : dataless elem = true → Steady elem inner item) {heap : Heap}
    {cell : Option Nat} (tidy : heap.Tidy) (clean : Clean heap (.ptr elem) cell) :
    Stored heap (.ptr elem) (some (denote elem item) : Option (Value elem))
      (ptrStore elem inner (some item) heap cell) := by
  cases elem with
  | bigInt =>
      cases cell with
      | none => exact storeAt_stored stores tidy
      | some address => exact absurd (clean address rfl).1 (by simp [dataless])
  | number =>
      cases cell with
      | none => exact storeAt_stored stores tidy
      | some address => exact absurd (clean address rfl).1 (by simp [dataless])
  | _ => exact storePtr_stored stores steady tidy clean

theorem scalar_stores : (type : GoType) → scalar type = true → (item : Item type) →
    (heap : Heap) → (cell : Cell type) →
    (store type item heap cell).1 = heap ∧
      (∀ later : Heap, Settled later type (store type item heap cell).2) ∧
      ∀ later : Heap, load later type (store type item heap cell).2 = denote type item
  | .uint _, _, _, _, _ => ⟨rfl, fun _ => trivial, fun _ => rfl⟩
  | .int _, _, _, _, _ => ⟨rfl, fun _ => trivial, fun _ => rfl⟩
  | .bool, _, _, _, _ => ⟨rfl, fun _ => trivial, fun _ => rfl⟩
  | .string, _, _, _, _ => ⟨rfl, fun _ => trivial, fun _ => rfl⟩

theorem load_scalar_injective (heap : Heap) :
    (type : GoType) → scalar type = true → Function.Injective (load heap type)
  | .uint _, _ => fun _ _ same => same
  | .int _, _ => fun _ _ same => same
  | .bool, _ => fun _ _ same => same
  | .string, _ => fun _ _ same => same

theorem storeEntries_stored {key elem : GoType} (simple : scalar key = true)
    {items : List (Item key × Item elem)}
    (stores : ∀ item ∈ items, Stores elem (store elem) item.2)
    (free : items.length ≤ 1 ∨ reusable elem = true) {start heap : Heap}
    (keyCell : Cell key) {value : Cell elem} {entries : List (Cell key × Cell elem)}
    {values : List (Value key × Value elem)}
    (stored : Stored start (.map key elem) values (heap, entries))
    (clean : items ≠ [] → Clean heap elem value) :
    Stored start (.map key elem)
      (items.foldl (fun set item => assocSet set (denote key item.1) (denote elem item.2))
        values)
      (storeEntries key elem (store key) (store elem) items heap keyCell value entries) := by
  induction items generalizing heap keyCell value entries values with
  | nil => exact stored
  | cons item rest ih =>
      rw [List.forall_mem_cons] at stores
      obtain ⟨same, settledKey, loadKey⟩ := scalar_stores key simple item.1 heap keyCell
      rcases keyed : store key item.1 heap keyCell with ⟨keyHeap, newKey⟩
      rw [keyed] at same settledKey loadKey
      obtain rfl : keyHeap = heap := same
      have usable : Clean keyHeap elem (if elem.isMap = true then zeroCell elem else value) := by
        split_ifs
        · exact clean_zeroCell keyHeap elem
        · exact clean (List.cons_ne_nil item rest)
      have first := stores.1 keyHeap _ stored.tidy usable
      rcases valued : store elem item.2 keyHeap
        (if elem.isMap = true then zeroCell elem else value) with ⟨next, newValue⟩
      rw [valued] at first
      obtain ⟨settled, read⟩ := Settled.kept first.keeps (.map key elem) entries stored.settled
      have loads : load next (.map key elem) (assocSet entries newKey newValue) =
          assocSet values (denote key item.1) (denote elem item.2) := by
        rw [← stored.loads, ← read, ← loadKey next, ← first.loads]
        exact map_assocSet (load next elem) (load_scalar_injective next key simple) _ _ _
      simp only [storeEntries, keyed, valued]
      refine ih stores.2 ?_ newKey ⟨stored.keeps.trans first.keeps, first.tidy, ?_, loads⟩ ?_
      · exact free.imp (fun few => Nat.le_trans (Nat.le_succ _) few) id
      · intro entry member
        rcases mem_assocSet member with rfl | old
        · exact ⟨settledKey next, first.settled⟩
        · exact settled entry old
      · intro more
        refine first.clean (free.resolve_left fun few => more ?_)
        exact List.eq_nil_of_length_eq_zero (Nat.le_zero.1 (Nat.le_of_succ_le_succ few))

mutual
theorem store_steady : (type : GoType) → dataless type = true → (item : Item type) →
    Present type item → Steady type (store type) item
  | .struct fields, empty, items, present => fun heap cells settled =>
      storeFields_steady fields empty items present heap cells settled
  | .ptr elem, empty, _, ⟨inner, rfl, present⟩ => by
      rintro heap _ ⟨address, rfl, _, settled⟩
      have steady := store_steady elem empty inner present heap _ settled
      have through : storePtr elem (store elem) (some inner) heap (some address) =
          (heap, some address) := by
        simp only [storePtr, steady, Heap.setTarget_target]
      cases elem with
      | bigInt => simp [dataless] at empty
      | number => simp [dataless] at empty
      | _ => exact through

theorem storeFields_steady : (fields : Fields) → datalessFields fields = true →
    (items : FieldItems fields) → FieldsPresent fields items → (heap : Heap) →
    (cells : FieldCells fields) → FieldsSettled heap fields cells →
      storeFields fields items heap cells = (heap, cells)
  | .nil, _, _, _, _, _, _ => rfl
  | .cons _ _ type rest, empty, items, present, heap, cells, settled => by
      simp only [datalessFields, Bool.and_eq_true] at empty
      have first := store_steady type empty.1 items.1 present.1 heap cells.1 settled.1
      have others := storeFields_steady rest empty.2 items.2 present.2 heap cells.2 settled.2
      simp only [storeFields, first, others]
      rfl
end

private theorem assigned_stored {type : GoType} {value : Value type} {cell : Cell type}
    (heap : Heap) (tidy : heap.Tidy) (settled : Settled heap type cell)
    (loads : load heap type cell = value) : Stored heap type value (heap, cell) :=
  ⟨.refl heap, tidy, settled, loads⟩

mutual
theorem store_stores : (type : GoType) → scalarKeys type = true → (item : Item type) →
    Present type item → Unshared type item → Stores type (store type) item
  | .uint _, _, _, _, _ => fun heap _ tidy _ => assigned_stored heap tidy trivial rfl
  | .int _, _, _, _, _ => fun heap _ tidy _ => assigned_stored heap tidy trivial rfl
  | .bool, _, _, _, _ => fun heap _ tidy _ => assigned_stored heap tidy trivial rfl
  | .string, _, _, _, _ => fun heap _ tidy _ => assigned_stored heap tidy trivial rfl
  | .bigInt, _, (item : Nat), _, _ => fun heap cell tidy clean => by
      have stored := setBigInt_stored heap cell (bigEndian item) tidy clean
      rw [ofBigEndian_bigEndian] at stored
      exact stored
  | .number, _, item, _, _ => fun heap cell tidy clean => by
      obtain rfl : cell = (none : Option Nat) := clean
      exact setBytesAt_stored heap item tidy
  | .rawValue, _, item, _, _ => fun heap cell tidy _ => by
      obtain ⟨keeps, tidied, bound, elems⟩ := setBytes_stored item heap cell tidy
      exact ⟨keeps, tidied, bound, elems⟩
  | .slice elem, keys, items, present, unshared => fun heap header tidy clean => by
      cases bytes : elem.isByte with
      | true =>
          obtain rfl := GoType.eq_byte_of_isByte bytes
          obtain ⟨keeps, tidied, bound, elems⟩ := setBytes_stored items heap header tidy
          refine ⟨keeps, tidied, ⟨bound, fun _ _ => trivial⟩, ?_⟩
          exact congrArg (List.map id) elems
      | false =>
          rw [store, sliceStore_of_not_byte bytes]
          exact storeSlice_stored bytes
            (fun item member =>
              store_stores elem keys item (present item member) (unshared item member))
            (fun item member empty => store_steady elem empty item (present item member))
            tidy clean
  | .array length elem, keys, items, present, unshared => fun heap cells tidy clean => by
      cases bytes : elem.isByte with
      | true =>
          obtain rfl := GoType.eq_byte_of_isByte bytes
          exact ⟨.refl heap, tidy, fun _ _ => trivial, rfl⟩
      | false =>
          obtain ⟨keeps, tidied, settled, loads⟩ := storeTuple_stored
            (fun item member =>
              store_stores elem keys item (present item member) (unshared item member))
            (items.2.trans cells.2.symm) tidy clean
          rw [store, arrayStore_of_not_byte length bytes]
          exact ⟨keeps, tidied, settled, Subtype.ext loads⟩
  | .struct fields, keys, items, present, unshared => fun heap cells tidy clean => by
      obtain ⟨keeps, tidied, settled, loads⟩ :=
        storeFields_stores fields keys items present unshared heap cells tidy clean
      exact ⟨keeps, tidied, settled, loads⟩
  | .ptr elem, keys, _, ⟨inner, rfl, present⟩, unshared => fun heap cell tidy clean =>
      ptrStore_stored (store_stores elem keys inner present (unshared inner rfl))
        (fun empty => store_steady elem empty inner present) tidy clean
  | .map key elem, keys, (items : List (Item key × Item elem)), present, unshared =>
      fun heap cells tidy _ => by
      simp only [scalarKeys, Bool.and_eq_true] at keys
      have empty : Stored heap (.map key elem) ([] : List (Value key × Value elem))
          (heap, ([] : List (Cell key × Cell elem))) :=
        assigned_stored heap tidy (fun entry member => nomatch member) rfl
      have stored := storeEntries_stored keys.1
        (fun item member => store_stores elem keys.2 item.2 (present item member).2
          (unshared.2 item member))
        unshared.1 (zeroCell key) empty (fun _ => clean_zeroCell heap elem)
      have entries : denote (.map key elem) items =
          items.foldl (fun set item =>
            assocSet set (denote key item.1) (denote elem item.2)) [] :=
        List.foldl_map ..
      rw [entries]
      exact stored

theorem storeFields_stores : (fields : Fields) → scalarKeysFields fields = true →
    (items : FieldItems fields) → FieldsPresent fields items → FieldsUnshared fields items →
    (heap : Heap) → (cells : FieldCells fields) → heap.Tidy → FieldsClean heap fields cells →
      heap.Keeps (storeFields fields items heap cells).1 ∧
      (storeFields fields items heap cells).1.Tidy ∧
      FieldsSettled (storeFields fields items heap cells).1 fields
        (storeFields fields items heap cells).2 ∧
      loadFields (storeFields fields items heap cells).1 fields
        (storeFields fields items heap cells).2 = denoteFields fields items
  | .nil, _, _, _, _, heap, _, tidy, _ => ⟨.refl heap, tidy, trivial, rfl⟩
  | .cons _ _ type rest, keys, items, present, unshared, heap, cells, tidy, clean => by
      simp only [scalarKeysFields, Bool.and_eq_true] at keys
      have first := store_stores type keys.1 items.1 present.1 unshared.1 heap cells.1 tidy
        clean.1
      rcases result : store type items.1 heap cells.1 with ⟨next, cell⟩
      rw [result] at first
      obtain ⟨keeps, tidied, settled, loads⟩ :=
        storeFields_stores rest keys.2 items.2 present.2 unshared.2 next cells.2 first.tidy
          (FieldsClean.grows first.keeps.grows rest cells.2 clean.2)
      obtain ⟨kept, read⟩ := Settled.kept keeps type cell first.settled
      simp only [storeFields, result]
      exact ⟨first.keeps.trans keeps, tidied, ⟨kept, settled⟩,
        Prod.ext (read.trans first.loads) loads⟩
end

end Bclib.Rlp
