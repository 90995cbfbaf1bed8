import Bclib.Go.Trees
import Bclib.Rlp.Containment
import Bclib.Rlp.Relocate

namespace Bclib.Rlp

open Data
open Go

/-! What decoding leaves in a variable with memory of its own, from the item that was
read and what the variable held. -/

/-- The items over the variables in a row; where there is none, over a zero. -/
def overlayEach (overlay : ι → α → β) (zero : α) : List ι → List α → List β
  | [], _ => []
  | item :: items, cells =>
      overlay item (cells.headD zero) :: overlayEach overlay zero items cells.tail

theorem length_overlayEach (overlay : ι → α → β) (zero : α) (items : List ι) (cells : List α) :
    (overlayEach overlay zero items cells).length = items.length := by
  induction items generalizing cells with
  | nil => rfl
  | cons item items ih => exact congrArg Nat.succ (ih cells.tail)

theorem overlayEach_items (zero : α) (items : List ι) (cells : List α) :
    overlayEach (fun item _ => item) zero items cells = items := by
  induction items generalizing cells with
  | nil => rfl
  | cons item items ih => exact congrArg (List.cons item) (ih cells.tail)

def pointee (heap : Heap) (elem : GoType) (cell : Option Nat) : Cell elem :=
  match cell with
  | none => zeroCell elem
  | some address => heap.target elem address

def mapValue (key elem : GoType) (items : Item (.map key elem)) : Value (.map key elem) :=
  let result := place (.map key elem) {} items .empty (zeroCell (.map key elem))
  load result.1 (.map key elem) result.2

mutual
/-- The value the variable has once the item was decoded into it.  Only a number looks
at what was there. -/
def overlay (heap : Heap) : (type : GoType) → Item type → Cell type → Value type
  | .uint _, item, _ => item
  | .int _, item, _ => item
  | .bool, item, _ => item
  | .string, item, _ => item
  | .bigInt, (item : Nat), _ => (item : Int)
  | .number, item, cell => some (Bn.setBytes (load heap .number cell) item)
  | .rawValue, item, _ => item
  | .slice elem, (items : List (Item elem)), header =>
      overlayEach (overlay heap elem) (zeroCell elem) items (heap.backing elem header)
  | .array _ elem, items, cells =>
      ⟨overlayEach (overlay heap elem) (zeroCell elem) items.1 cells.1,
        (length_overlayEach ..).trans items.2⟩
  | .struct fields, items, cells => overlayFields heap fields items cells
  | .ptr elem, (item : Option (Item elem)), cell =>
      item.map fun item => overlay heap elem item (pointee heap elem cell)
  | .map key elem, items, _ => mapValue key elem items

def overlayFields (heap : Heap) : (fields : Fields) → FieldItems fields → FieldCells fields →
    FieldValues fields
  | .nil, _, _ => ()
  | .cons _ _ type rest, items, cells =>
      (overlay heap type items.1 cells.1, overlayFields heap rest items.2 cells.2)
end

variable {heap later : Heap}

theorem overlayEach_congr {first second : ι → α → β} {zero : α}
    (empty : ∀ item, first item zero = second item zero) (items : List ι) (cells : List α)
    (same : ∀ item, ∀ cell ∈ cells, first item cell = second item cell) :
    overlayEach first zero items cells = overlayEach second zero items cells := by
  induction items generalizing cells with
  | nil => rfl
  | cons item items ih =>
      cases cells with
      | nil => exact congrArg₂ List.cons (empty item) (ih [] same)
      | cons cell cells =>
          obtain ⟨head, tail⟩ : (∀ item, first item cell = second item cell) ∧
              ∀ item, ∀ cell ∈ cells, first item cell = second item cell :=
            ⟨fun item => same item cell (List.mem_cons_self ..),
              fun item other member => same item other (List.mem_cons_of_mem _ member)⟩
          exact congrArg₂ List.cons (head item) (ih cells tail)

private theorem loadBigInt_untouched (cell : BigIntCell)
    (same : Untouched heap later (footprint heap .bigInt cell)) :
    loadBigInt later cell = loadBigInt heap cell := by
  obtain ⟨neg, ⟨base, len⟩⟩ := cell
  cases base with
  | none => rfl
  | some address =>
      have words : later.block wordType address = heap.block wordType address :=
        Untouched.block same
      simp only [loadBigInt, Heap.elems, Heap.backing, words]

private theorem load_number_untouched {cell : Cell .number}
    (same : Untouched heap later (footprint heap .number cell)) :
    load later .number cell = load heap .number cell := by
  cases cell with
  | none => rfl
  | some address =>
      have number : Untouched heap later
          (spotsBehind heap .bigInt (footprint heap .bigInt) (some address)) := same
      refine congrArg some ((congrArg (loadBigInt later) number.target.1).trans ?_)
      exact loadBigInt_untouched _ number.target.2

private theorem pointee_untouched {elem : GoType} {cell : Cell (.ptr elem)}
    (same : Untouched heap later (footprint heap (.ptr elem) cell)) :
    pointee later elem cell = pointee heap elem cell ∧
      Untouched heap later (footprint heap elem (pointee heap elem cell)) := by
  cases cell with
  | none => exact ⟨rfl, untouched_zeroCell heap later elem⟩
  | some address => exact Untouched.target same

mutual
theorem overlay_congr : (type : GoType) → (item : Item type) → (cell : Cell type) →
    Untouched heap later (footprint heap type cell) →
      overlay later type item cell = overlay heap type item cell
  | .uint _, _, _, _ => rfl
  | .int _, _, _, _ => rfl
  | .bool, _, _, _ => rfl
  | .string, _, _, _ => rfl
  | .bigInt, _, _, _ => rfl
  | .number, item, _, same =>
      congrArg (fun old => some (Bn.setBytes old item)) (load_number_untouched same)
  | .rawValue, _, _, _ => rfl
  | .slice elem, items, ⟨none, _⟩, _ =>
      overlayEach_congr (fun item => overlay_congr elem item _ (untouched_zeroCell heap later elem))
        items [] fun _ _ member => by cases member
  | .slice elem, items, ⟨some address, _⟩, same => by
      refine (congrArg (overlayEach _ _ items) (Untouched.block same)).trans ?_
      exact overlayEach_congr
        (fun item => overlay_congr elem item _ (untouched_zeroCell heap later elem)) items _
        fun item cell member => overlay_congr elem item cell (Untouched.behind same member)
  | .array _ elem, items, cells, same => Subtype.ext <| overlayEach_congr
      (fun item => overlay_congr elem item _ (untouched_zeroCell heap later elem)) items.1 cells.1
      fun item cell member => overlay_congr elem item cell fun spot found =>
        same spot (List.mem_flatMap.2 ⟨cell, member, found⟩)
  | .struct fields, items, cells, same => overlayFields_congr fields items cells same
  | .ptr _, none, _, _ => rfl
  | .ptr elem, some item, cell, same => by
      obtain ⟨target, behind⟩ := pointee_untouched same
      exact congrArg some ((congrArg (overlay later elem item) target).trans
        (overlay_congr elem item _ behind))
  | .map _ _, _, _, _ => rfl

theorem overlayFields_congr : (fields : Fields) → (items : FieldItems fields) →
    (cells : FieldCells fields) → Untouched heap later (fieldsFootprint heap fields cells) →
      overlayFields later fields items cells = overlayFields heap fields items cells
  | .nil, _, _, _ => rfl
  | .cons _ _ type rest, items, cells, same => Prod.ext
      (overlay_congr type items.1 cells.1 fun spot found =>
        same spot (List.mem_append_left _ found))
      (overlayFields_congr rest items.2 cells.2 fun spot found =>
        same spot (List.mem_append_right _ found))
end

theorem overlayEach_row_congr {elem : GoType} (items : List (Item elem)) {cells : List (Cell elem)}
    (same : Untouched heap later (cells.flatMap (footprint heap elem))) :
    overlayEach (overlay later elem) (zeroCell elem) items cells =
      overlayEach (overlay heap elem) (zeroCell elem) items cells :=
  overlayEach_congr (fun item => overlay_congr elem item _ (untouched_zeroCell heap later elem))
    items cells fun item cell member => overlay_congr elem item cell (same.row member)

/-- The store stayed in the footprint and in new memory, and left the value there. -/
structure Placed (heap : Heap) (spots : List Spot) (type : GoType) (value : Value type)
    (result : Heap × Cell type) : Prop where
  within : heap.Within result.1 (reach heap spots)
  renders : Renders result.1
    (fun type address => reach heap spots type address ∧ address < result.1.size type)
    type result.2 value

def Overwrites (type : GoType) (set : Store (Item type) (Cell type)) : Prop :=
  ∀ (item : Item type) (heap : Heap) (cell : Cell type), Tree heap type cell →
    load (set item heap cell).1 type (set item heap cell).2 = overlay heap type item cell

theorem Overwrites.placed {type : GoType} {set : Store (Item type) (Cell type)}
    (overwrites : Overwrites type set) (contained : ∀ region, Contained region type set)
    {cell : Cell type} (tree : Tree heap type cell) (item : Item type) :
    Placed heap (footprint heap type cell) type (overlay heap type item cell)
      (set item heap cell) := by
  obtain ⟨within, refers⟩ := contained _ item heap cell (closed_footprint tree.owns)
    (refers_footprint tree.owns)
  exact ⟨within, overwrites item heap cell tree ▸ refers.renders within.closed⟩

theorem Placed.kept {type : GoType} {value : Value type} {result : Heap × Cell type}
    {spots others : List Spot} (placed : Placed heap spots type value result)
    (owns : heap.Owns (spots ++ others)) {last : Heap}
    (within : result.1.Within last (reach result.1 others)) : load last type result.2 = value :=
  placed.renders last fun type address inside =>
    within.outside type address (owns.apart inside.1 inside.2)

theorem Placed.untouched {type : GoType} {value : Value type} {result : Heap × Cell type}
    {spots others : List Spot} (placed : Placed heap spots type value result)
    (owns : heap.Owns (spots ++ others)) : Untouched heap result.1 others :=
  placed.within.untouched owns.disjoint owns.right.allocated

theorem Placed.kept_write {type other : GoType} {value : Value type} {result : Heap × Cell type}
    {spots : List Spot} {address : Nat} (placed : Placed heap spots type value result)
    (owns : heap.Owns (spots ++ [(other, address)])) (cells : List (Cell other)) :
    load (result.1.write other address cells) type result.2 = value := by
  refine placed.renders _ fun type position inside => TypedHeap.block_write_of_ne ?_
  rintro rfl rfl
  exact owns.apart inside.1 inside.2 (.inl (List.mem_singleton_self _))

theorem Placed.kept_alloc {type other : GoType} {value : Value type} {result : Heap × Cell type}
    {spots : List Spot} (placed : Placed heap spots type value result)
    (cells : List (Cell other)) : load (result.1.alloc other cells) type result.2 = value :=
  placed.renders _ fun _ _ inside => TypedHeap.block_alloc_of_lt inside.2

private theorem setNat_block {type : GoType} (other : type ≠ wordType) (heap : Heap)
    (abs : SliceHeader) (buf : List Byte) (address : Nat) :
    (heap.setNat abs buf).1.block type address = heap.block type address := by
  by_cases enough : (buf.length + 7) / 8 ≤ heap.cap wordType abs
  · cases based : abs.base with
    | none => simp only [Heap.setNat, if_pos enough, based]
    | some words =>
        simp only [Heap.setNat, if_pos enough, based]
        exact TypedHeap.block_write_of_ne fun same => absurd same other
  · simp only [Heap.setNat, if_neg enough]
    exact TypedHeap.block_alloc_of_ne other

private theorem loadBigInt_setTarget (heap : Heap) (address : Nat) (changed cell : BigIntCell) :
    loadBigInt (heap.setTarget .bigInt address changed) cell = loadBigInt heap cell := by
  obtain ⟨neg, ⟨base, len⟩⟩ := cell
  cases base with
  | none => rfl
  | some position =>
      have words : (heap.setTarget .bigInt address changed).block wordType position =
          heap.block wordType position :=
        TypedHeap.block_write_of_ne fun same => by cases same
      simp only [loadBigInt, Heap.elems, Heap.backing, words]

private theorem load_setWords {address : Nat} (present : heap.block .bigInt address ≠ [])
    (abs : SliceHeader) (buf : List Byte) (changed : BigIntCell) :
    load ((heap.setNat abs buf).1.setTarget .bigInt address changed) .number
        (some address : Option Nat) =
      (some (loadBigInt (heap.setNat abs buf).1 changed) : Option Int) := by
  have there : (heap.setNat abs buf).1.block .bigInt address ≠ [] := by
    rw [setNat_block (by decide)]
    exact present
  refine congrArg some ((congrArg (loadBigInt _) (Heap.target_setTarget there changed)).trans ?_)
  exact loadBigInt_setTarget _ address changed changed

theorem load_setBytesAt_some {address : Nat} (present : heap.block .bigInt address ≠ [])
    (buf : List Byte) :
    load (Bn.setBytesAt heap (some address) buf).1 .number
        (Bn.setBytesAt heap (some address) buf).2 =
      (some (Bn.setBytes (load heap .number (some address : Option Nat)) buf) : Option Int) := by
  rw [Bn.setBytesAt_address]
  cases buf with
  | nil => rfl
  | cons sign magnitude =>
      by_cases negative : sign = 0xFF#8
      · simp only [Bn.setBytesAt, Bn.setBytes, if_pos negative, Heap.setBigInt]
        refine (load_setWords present _ _ _).trans (congrArg some ?_)
        exact (loadBigInt_negate _ _).trans (congrArg Neg.neg
          (loadBigInt_setBigInt heap (heap.target .bigInt address) magnitude))
      · simp only [Bn.setBytesAt, Bn.setBytes, if_neg negative, Heap.setBigInt]
        refine (load_setWords present _ _ _).trans (congrArg some ?_)
        exact loadBigInt_setBigInt heap (heap.target .bigInt address) _

private theorem load_setBytesAt_none (heap : Heap) (buf : List Byte) :
    load (Bn.setBytesAt heap none buf).1 .number (Bn.setBytesAt heap none buf).2 =
      (some (Bn.setBytes none buf) : Option Int) := by
  have present : (heap.allocCell .bigInt (zeroCell .bigInt)).block .bigInt
      (heap.size .bigInt) ≠ [] := by
    rw [Heap.allocCell, TypedHeap.block_alloc_self]
    exact List.cons_ne_nil _ _
  -- the new number is zero
  have zero : load (heap.allocCell .bigInt (zeroCell .bigInt)) .number
      (some (heap.size .bigInt) : Option Nat) = (some 0 : Option Int) :=
    congrArg (fun cell => some (loadBigInt _ cell)) (heap.target_allocCell .bigInt _)
  rw [Bn.setBytesAt_none]
  refine (load_setBytesAt_some present buf).trans (congrArg some ?_)
  rw [zero]
  cases buf <;> rfl

theorem setBytesAt_overwrites : Overwrites .number (place .number {}) := by
  intro buf heap cell tree
  cases cell with
  | some address => exact load_setBytesAt_some (tree.formed address rfl) buf
  | none => exact load_setBytesAt_none heap buf

theorem setBigInt_overwrites : Overwrites .bigInt (place .bigInt {}) :=
  fun item heap cell _ => (loadBigInt_setBigInt heap cell (bigEndian item)).trans
    (congrArg Int.ofNat (ofBigEndian_bigEndian item))

section Inner

variable {elem : GoType} {inner : Store (Item elem) (Cell elem)}
variable (contained : ∀ region, Contained region elem inner) (overwrites : Overwrites elem inner)

include contained overwrites

theorem storeTuple_overwrites (items : List (Item elem)) (cells : List (Cell elem))
    (matching : items.length = cells.length)
    (owns : heap.Owns (cells.flatMap (footprint heap elem)))
    (formed : ∀ cell ∈ cells, Formed heap elem cell) :
    (storeTuple inner items heap cells).2.1.map (load (storeTuple inner items heap cells).1 elem) =
      overlayEach (overlay heap elem) (zeroCell elem) items cells := by
  induction items generalizing heap cells with
  | nil =>
      obtain rfl := List.eq_nil_of_length_eq_zero matching.symm
      rfl
  | cons item items ih =>
      cases cells with
      | nil => cases matching
      | cons cell cells =>
          rw [List.flatMap_cons] at owns
          obtain ⟨first, others⟩ := List.forall_mem_cons.1 formed
          have placed := overwrites.placed contained ⟨owns.left, first⟩ item
          have untouched := placed.untouched owns
          have row := row_congr untouched
          have later := owns.right.after placed.within.size
          rw [← row] at later
          have rest := (storeTuple_contained (contained _) items (closed_row later) cells
            (refer_row later)).1
          rw [row] at rest
          refine congrArg₂ List.cons (placed.kept owns rest) ?_
          refine (ih cells (Nat.succ.inj matching) later fun other member =>
            formed_congr elem other (untouched.row member) (others other member)).trans ?_
          exact overlayEach_row_congr items untouched

theorem arrayStore_overwrites (length : Nat) :
    Overwrites (.array length elem) (arrayStore length elem inner) := by
  intro items heap cells tree
  cases kind : elem.isByte with
  | true =>
      obtain rfl := GoType.eq_byte_of_isByte kind
      exact Subtype.ext ((List.map_id _).trans (overlayEach_items _ items.1 cells.1).symm)
  | false =>
      rw [arrayStore_of_not_byte length kind]
      exact Subtype.ext (storeTuple_overwrites contained overwrites items.1 cells.1
        (items.2.trans cells.2.symm) tree.owns tree.formed)

theorem storeAt_some_overwrites {address : Nat} (item : Item elem)
    (tree : Tree heap (.ptr elem) (some address : Option Nat)) :
    load (storeAt elem inner item heap (some address)).1 (.ptr elem)
        (some address : Option Nat) =
      (some (overlay heap elem item (heap.target elem address)) : Option (Value elem)) := by
  obtain ⟨target, owns⟩ := tree.target
  have placed := overwrites.placed contained target item
  have there : (inner item heap (heap.target elem address)).1.block elem address ≠ [] := by
    rw [placed.untouched owns (elem, address) (List.mem_singleton_self _)]
    exact (tree.formed address rfl).1
  refine congrArg some ((congrArg (load _ elem) (Heap.target_setTarget there _)).trans ?_)
  exact placed.kept_write owns _

theorem storePtr_overwrites : Overwrites (.ptr elem) (storePtr elem inner) := by
  intro item heap cell tree
  cases item with
  | none => rfl
  | some item =>
      cases cell with
      | none =>
          have placed := overwrites.placed contained (tree_zeroCell heap elem) item
          refine congrArg some ((congrArg (load _ elem) (Heap.target_allocCell _ elem _)).trans ?_)
          exact placed.kept_alloc _
      | some address => exact storeAt_some_overwrites contained overwrites item tree

theorem storeAt_overwrites (item : Item elem) {cell : Option Nat}
    (tree : Tree heap (.ptr elem) cell) :
    load (storeAt elem inner item heap cell).1 (.ptr elem)
        (storeAt elem inner item heap cell).2 =
      (some (overlay heap elem item (pointee heap elem cell)) : Option (Value elem)) := by
  cases cell with
  | some address => exact storeAt_some_overwrites contained overwrites item tree
  | none =>
      refine (storeAt_some_overwrites contained overwrites item (tree_allocCell heap elem)).trans
        (congrArg some ?_)
      rw [Heap.target_allocCell]
      exact overlay_congr elem item _ (untouched_zeroCell heap _ elem)

theorem ptrStore_overwrites : Overwrites (.ptr elem) (ptrStore elem inner) := by
  intro item heap cell tree
  cases elem with
  | bigInt =>
      cases item with
      | none => rfl
      | some item => exact storeAt_overwrites contained overwrites item tree
  | number =>
      cases item with
      | none => rfl
      | some item => exact storeAt_overwrites contained overwrites item tree
  | _ => exact storePtr_overwrites contained overwrites item heap cell tree

end Inner

end Bclib.Rlp
