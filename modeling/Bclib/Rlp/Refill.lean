import Bclib.Rlp.Overwrite

namespace Bclib.Rlp

open Data
open Go

/-! Slices.  Elements are decoded over what stands in the block, be it beyond the length,
until the block is full; then they move. -/

variable {heap : Heap} {elem : GoType} {header : SliceHeader}

def blockSpots (elem : GoType) (header : SliceHeader) : List Spot :=
  header.base.toList.map (Prod.mk elem)

/-- The first elements of the slice read as `values`, out of the region `done`; the
others are trees still. -/
structure Refilled (heap : Heap) (elem : GoType) (header : SliceHeader) (done : Region)
    (values : List (Value elem)) : Prop where
  reached : values.length ≤ header.len
  bound : header.len ≤ heap.cap elem header
  owns : heap.Owns (blockSpots elem header ++
    ((heap.backing elem header).drop values.length).flatMap (footprint heap elem))
  formed : ∀ cell ∈ (heap.backing elem header).drop values.length, Formed heap elem cell
  allocated : ∀ type address, done type address → address < heap.size type
  apart : ∀ type address, done type address → (type, address) ∉ blockSpots elem header ++
    ((heap.backing elem header).drop values.length).flatMap (footprint heap elem)
  renders : List.Forall₂ (Renders heap done elem)
    ((heap.backing elem header).take values.length) values

theorem Refilled.start (tree : Tree heap (.slice elem) header) :
    Refilled heap elem header (fun _ _ => False) [] := by
  have owns : heap.Owns (spotsBehind heap elem (footprint heap elem) header.base) := tree.owns
  refine ⟨Nat.zero_le _, tree.formed.1, ?_, tree.formed.2, fun _ _ => False.elim,
    fun _ _ => False.elim, .nil⟩
  obtain ⟨base, len⟩ := header
  cases base with
  | none => exact .nil heap
  | some address => exact owns

section Steps

variable {done : Region} {values : List (Value elem)}

private theorem zeros_footprint (heap : Heap) (elem : GoType) (count : Nat) :
    (List.replicate count (zeroCell elem)).flatMap (footprint heap elem) = [] :=
  List.flatMap_eq_nil_iff.2 fun cell member => by
    rw [List.eq_of_mem_replicate member]
    exact footprint_zeroCell heap elem

private theorem Refilled.move (refilled : Refilled heap elem header done values)
    (full : (heap.backing elem header).length = values.length) {count : Nat} (more : 0 < count) :
    Refilled (heap.alloc elem (heap.backing elem header ++ List.replicate count (zeroCell elem)))
      elem ⟨some (heap.size elem), values.length + 1⟩ done values := by
  have block := heap.backing_alloc elem
    (heap.backing elem header ++ List.replicate count (zeroCell elem)) (values.length + 1)
  have old := refilled.renders
  rw [List.take_of_length_le (Nat.le_of_eq full)] at old
  have rest : (heap.backing elem header ++ List.replicate count (zeroCell elem)).drop
      values.length = List.replicate count (zeroCell elem) := by
    rw [← full, List.drop_left]
  constructor
  · exact Nat.le_succ _
  · rw [Heap.cap, block, List.length_append, full, List.length_replicate]
    exact Nat.add_le_add_left more _
  · rw [block, rest, zeros_footprint, List.append_nil]
    refine ⟨fun spot found => ?_, List.nodup_singleton _⟩
    rw [List.mem_singleton.1 found, TypedHeap.size_alloc_self]
    exact Nat.lt_succ_self _
  · intro cell member
    rw [block, rest] at member
    rw [List.eq_of_mem_replicate member]
    exact formed_zeroCell _ elem
  · exact fun type address inside =>
      Nat.lt_of_lt_of_le (refilled.allocated type address inside) TypedHeap.size_le_alloc
  · intro type address inside found
    rw [block, rest, zeros_footprint, List.append_nil] at found
    obtain ⟨rfl, rfl⟩ := Prod.mk.inj (List.mem_singleton.1 found)
    exact Nat.lt_irrefl _ (refilled.allocated _ _ inside)
  · rw [block, ← full, List.take_left]
    exact old.imp fun cell value renders => renders.after fun type address inside =>
      TypedHeap.block_alloc_of_lt (refilled.allocated type address inside)

private theorem overlayEach_zeros (overlay : ι → α → β) (zero : α) (items : List ι) (count : Nat) :
    overlayEach overlay zero items (List.replicate count zero) =
      overlayEach overlay zero items [] := by
  induction items generalizing count with
  | nil => rfl
  | cons item items ih =>
      cases count with
      | zero => rfl
      | succ count => exact congrArg (List.cons _) (ih count)

theorem Refilled.open (refilled : Refilled heap elem header done values) :
    let result := openIndex heap elem header values.length
    Refilled result.1 elem result.2 done values ∧ values.length < result.2.len ∧
      ∀ items, overlayEach (overlay result.1 elem) (zeroCell elem) items
          ((result.1.backing elem result.2).drop values.length) =
        overlayEach (overlay heap elem) (zeroCell elem) items
          ((heap.backing elem header).drop values.length) := by
  rcases openIndex_cases refilled.reached refilled.bound with
    ⟨count, more, full, opened⟩ | ⟨len, room, bound, opened⟩
  · rw [opened]
    refine ⟨refilled.move full more, Nat.lt_succ_self _, fun items => ?_⟩
    rw [Heap.backing_alloc, ← full, List.drop_left, List.drop_length, overlayEach_zeros]
    exact overlayEach_congr (fun item => overlay_congr elem item _ (untouched_zeroCell heap _ elem))
      items [] fun _ _ member => by cases member
  · rw [opened]
    exact ⟨⟨Nat.le_of_lt room, bound, refilled.owns, refilled.formed, refilled.allocated,
      refilled.apart, refilled.renders⟩, room, fun _ => rfl⟩

section Next

variable {address : Nat} {cell : Cell elem} {rest : List (Cell elem)} {value : Value elem}
variable {result : Heap × Cell elem}

private theorem Refilled.owns_next (refilled : Refilled heap elem header done values)
    (based : header.base = some address)
    (next : (heap.backing elem header).drop values.length = cell :: rest) :
    heap.Owns (footprint heap elem cell ++
      ([(elem, address)] ++ rest.flatMap (footprint heap elem))) := by
  have owns := refilled.owns
  rw [next, List.flatMap_cons, blockSpots, based] at owns
  exact owns.perm (List.perm_append_comm_assoc _ _ _)

private theorem Refilled.backing_next (refilled : Refilled heap elem header done values)
    (based : header.base = some address)
    (next : (heap.backing elem header).drop values.length = cell :: rest)
    (placed : Placed heap (footprint heap elem cell) elem value result) :
    Heap.backing (setElem result.1 elem header values.length result.2) elem header =
      (heap.backing elem header).set values.length result.2 := by
  have owns := refilled.owns_next based next
  have block : result.1.block elem address = heap.block elem address :=
    placed.untouched owns (elem, address) (List.mem_append_left _ (List.mem_singleton_self _))
  have allocated : address < result.1.size elem := Nat.lt_of_lt_of_le
    (owns.right.allocated (elem, address) (List.mem_append_left _ (List.mem_singleton_self _)))
    (placed.within.size elem)
  simp only [setElem, Heap.backing, based]
  rw [TypedHeap.block_write_self allocated, block]

private theorem Refilled.untouched_next (refilled : Refilled heap elem header done values)
    (based : header.base = some address)
    (next : (heap.backing elem header).drop values.length = cell :: rest)
    (placed : Placed heap (footprint heap elem cell) elem value result) :
    Untouched heap (setElem result.1 elem header values.length result.2)
      (rest.flatMap (footprint heap elem)) := by
  have owns := refilled.owns_next based next
  intro spot found
  have same := placed.untouched owns spot (List.mem_append_right _ found)
  simp only [setElem, based]
  refine (TypedHeap.block_write_of_ne ?_).trans same
  rintro rfl rfl
  exact owns.right.disjoint (List.mem_singleton_self _) found

private theorem Refilled.kept_next (refilled : Refilled heap elem header done values)
    (based : header.base = some address)
    (next : (heap.backing elem header).drop values.length = cell :: rest)
    (placed : Placed heap (footprint heap elem cell) elem value result) {type : GoType}
    {position : Nat} (inside : done type position) :
    (setElem result.1 elem header values.length result.2).block type position =
      heap.block type position := by
  have apart := refilled.apart type position inside
  rw [next, List.flatMap_cons, blockSpots, based] at apart
  have outside : ¬reach heap (footprint heap elem cell) type position := by
    rintro (found | beyond)
    · exact apart (List.mem_append_right _ (List.mem_append_left _ found))
    · exact Nat.not_lt.2 beyond (refilled.allocated type position inside)
  simp only [setElem, based]
  refine (TypedHeap.block_write_of_ne ?_).trans (placed.within.outside type position outside)
  rintro rfl rfl
  exact apart (List.mem_append_left _ (List.mem_singleton_self _))

theorem Refilled.set (refilled : Refilled heap elem header done values)
    (room : values.length < header.len) (based : header.base = some address)
    (next : (heap.backing elem header).drop values.length = cell :: rest)
    (placed : Placed heap (footprint heap elem cell) elem value result) :
    Refilled (setElem result.1 elem header values.length result.2) elem header
      (fun type address => done type address ∨
        reach heap (footprint heap elem cell) type address ∧ address < result.1.size type)
      (values ++ [value]) := by
  have owns := refilled.owns_next based next
  have backing := refilled.backing_next based next placed
  have untouched := refilled.untouched_next based next placed
  have inside : values.length < (heap.backing elem header).length :=
    Nat.lt_of_lt_of_le room refilled.bound
  have remaining : ((heap.backing elem header).set values.length result.2).drop
      (values ++ [value]).length = rest := by
    rw [List.length_append, List.length_singleton, List.drop_set_of_lt (Nat.lt_succ_self _),
      ← List.tail_drop, next, List.tail_cons]
  have size : ∀ type, (setElem result.1 elem header values.length result.2).size type =
      result.1.size type := by
    intro type
    simp only [setElem, based]
    exact TypedHeap.size_write
  have grows : ∀ type, heap.size type ≤
      (setElem result.1 elem header values.length result.2).size type :=
    fun type => Nat.le_trans (placed.within.size type) (Nat.le_of_eq (size type).symm)
  constructor
  · rw [List.length_append]
    exact room
  · rw [Heap.cap, backing, List.length_set]
    exact refilled.bound
  · rw [backing, remaining, row_congr untouched, blockSpots, based]
    exact owns.right.after grows
  · rw [backing, remaining]
    intro other member
    refine formed_congr elem other (untouched.row member) (refilled.formed other ?_)
    rw [next]
    exact List.mem_cons_of_mem _ member
  · rintro type position (before | ⟨-, new⟩)
    · exact Nat.lt_of_lt_of_le (refilled.allocated type position before) (grows type)
    · exact Nat.lt_of_lt_of_le new (Nat.le_of_eq (size type).symm)
  · rw [backing, remaining, row_congr untouched, blockSpots, based]
    rintro type position (before | ⟨within, new⟩) found
    · have apart := refilled.apart type position before
      rw [next, List.flatMap_cons, blockSpots, based] at apart
      refine apart ?_
      rcases List.mem_append.1 found with block | later
      · exact List.mem_append_left _ block
      · exact List.mem_append_right _ (List.mem_append_right _ later)
    · exact owns.apart within new (.inl found)
  · rw [backing, List.length_append, List.length_singleton, Heap.take_set_succ _ inside]
    refine List.rel_append (refilled.renders.imp fun other old renders => ?_) (.cons ?_ .nil)
    · refine (renders.after fun type position before => ?_).mono fun _ _ => Or.inl
      exact refilled.kept_next based next placed before
    · refine (placed.renders.after fun type position within => ?_).mono fun _ _ => Or.inr
      simp only [setElem, based]
      refine TypedHeap.block_write_of_ne ?_
      rintro rfl rfl
      exact owns.apart within.1 within.2
        (.inl (List.mem_append_left _ (List.mem_singleton_self _)))

private theorem Refilled.overlay_next (refilled : Refilled heap elem header done values)
    (based : header.base = some address)
    (next : (heap.backing elem header).drop values.length = cell :: rest)
    (placed : Placed heap (footprint heap elem cell) elem value result)
    (items : List (Item elem)) :
    overlayEach (overlay (setElem result.1 elem header values.length result.2) elem) (zeroCell elem)
        items ((Heap.backing (setElem result.1 elem header values.length result.2) elem
          header).drop (values.length + 1)) =
      overlayEach (overlay heap elem) (zeroCell elem) items rest := by
  have untouched := refilled.untouched_next based next placed
  rw [refilled.backing_next based next placed, List.drop_set_of_lt (Nat.lt_succ_self _),
    ← List.tail_drop, next, List.tail_cons]
  exact overlayEach_row_congr items untouched

end Next

end Steps

private theorem Refilled.next_elem {done : Region} {values : List (Value elem)}
    (refilled : Refilled heap elem header done values) (room : values.length < header.len) :
    (∃ address, header.base = some address) ∧
      (heap.backing elem header).drop values.length =
        elemAt heap elem header values.length ::
          (heap.backing elem header).drop (values.length + 1) := by
  have inside : values.length < (heap.backing elem header).length :=
    Nat.lt_of_lt_of_le room refilled.bound
  constructor
  · cases based : header.base with
    | none => simp [Heap.backing, based] at inside
    | some address => exact ⟨address, rfl⟩
  · rw [List.drop_eq_getElem_cons inside, elemAt, List.getElem?_eq_getElem inside,
      Option.getD_some]

private theorem map_load_of_renders {done : Region} {cells : List (Cell elem)}
    {values : List (Value elem)} (renders : List.Forall₂ (Renders heap done elem) cells values) :
    cells.map (load heap elem) = values := by
  induction renders with
  | nil => rfl
  | cons first _ ih => exact congrArg₂ List.cons first.load_eq ih

section Loop

variable {inner : Store (Item elem) (Cell elem)}

theorem storeElems_overwrites (contained : ∀ region, Contained region elem inner)
    (overwrites : Overwrites elem inner) (items : List (Item elem)) {done : Region}
    {values : List (Value elem)} (refilled : Refilled heap elem header done values) :
    let result := storeElems elem inner values.length items heap header
    (result.1.elems elem result.2).map (load result.1 elem) =
      values ++ overlayEach (overlay heap elem) (zeroCell elem) items
        ((heap.backing elem header).drop values.length) := by
  induction items generalizing heap header done values with
  | nil =>
      obtain ⟨opened, room, -⟩ := refilled.open
      simp only [storeElems, if_pos room, overlayEach, List.append_nil]
      exact map_load_of_renders opened.renders
  | cons item items ih =>
      obtain ⟨opened, room, same⟩ := refilled.open
      obtain ⟨⟨address, based⟩, next⟩ := opened.next_elem room
      have owns := opened.owns_next based next
      have formed := opened.formed
      rw [next] at formed
      have placed := overwrites.placed contained
        ⟨owns.left, formed _ (List.mem_cons_self ..)⟩ item
      have filled := ih (opened.set room based next placed)
      rw [List.length_append, List.length_singleton, opened.overlay_next based next placed]
        at filled
      refine filled.trans ?_
      rw [List.append_assoc, ← same, next]
      rfl

theorem storeSlice_overwrites (contained : ∀ region, Contained region elem inner)
    (overwrites : Overwrites elem inner) :
    Overwrites (.slice elem) (storeSlice elem inner) := by
  intro items heap header tree
  cases items with
  | nil => rfl
  | cons item rest =>
      exact storeElems_overwrites contained overwrites (item :: rest) (Refilled.start tree)

theorem taggedSliceStore_overwrites (tail : Bool)
    (contained : ∀ region, Contained region elem inner) (overwrites : Overwrites elem inner) :
    Overwrites (.slice elem) (taggedSliceStore tail elem inner) := by
  cases kind : elem.isByte with
  | true =>
      obtain rfl := GoType.eq_byte_of_isByte kind
      intro items heap header _
      refine (congrArg (List.map _) (elems_setBytes items heap header)).trans ?_
      exact (List.map_id _).trans (overlayEach_items _ items _).symm
  | false =>
      rw [taggedSliceStore_of_not_byte tail kind]
      cases tail with
      | true => exact fun items heap header tree =>
          storeElems_overwrites contained overwrites items (Refilled.start tree)
      | false => exact storeSlice_overwrites contained overwrites

end Loop

mutual
theorem place_overwrites : (type : GoType) → (tags : Tags) → Overwrites type (place type tags)
  | .uint _, _ => fun _ _ _ _ => rfl
  | .int _, _ => fun _ _ _ _ => rfl
  | .bool, _ => fun _ _ _ _ => rfl
  | .string, _ => fun _ _ _ _ => rfl
  | .bigInt, _ => setBigInt_overwrites
  | .number, _ => setBytesAt_overwrites
  | .rawValue, _ => fun item heap header _ => elems_setBytes item heap header
  | .slice elem, tags => taggedSliceStore_overwrites tags.tail
      (fun region => place_contained region elem {}) (place_overwrites elem {})
  | .array length elem, _ => arrayStore_overwrites
      (fun region => place_contained region elem {}) (place_overwrites elem {}) length
  | .struct fields, _ => placeFields_overwrites fields
  | .ptr elem, _ => ptrStore_overwrites (fun region => place_contained region elem {})
      (place_overwrites elem {})
  | .map key elem, tags => fun items heap cell _ => load_place_map key elem tags items heap cell

theorem placeFields_overwrites : (fields : Fields) →
    Overwrites (.struct fields) (placeFields fields)
  | .nil => fun _ _ _ _ => rfl
  | .cons _ tags type rest => fun items heap cells tree => by
      have owns : heap.Owns (footprint heap type cells.1 ++
        fieldsFootprint heap rest cells.2) := tree.owns
      have others : Tree heap (.struct rest) cells.2 := ⟨owns.right, tree.formed.2⟩
      have placed := (place_overwrites type tags).placed
        (fun region => place_contained region type tags) ⟨owns.left, tree.formed.1⟩ items.1
      have untouched := placed.untouched owns
      have later := others.after untouched placed.within.size
      have stored := placeFields_contained _ rest items.2 _ cells.2
        (closed_footprint later.owns) (refers_footprint later.owns)
      rw [footprint_congr (.struct rest) cells.2 untouched] at stored
      refine Prod.ext (placed.kept owns stored.1) ?_
      exact (placeFields_overwrites rest items.2 _ cells.2 later).trans
        (overlayFields_congr rest items.2 cells.2 untouched)
end

end Bclib.Rlp
