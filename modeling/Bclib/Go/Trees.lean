import Bclib.Go.Regions

namespace Bclib.Go

open Data

/-! Variables with memory of their own: nothing they refer to is shared, be it inside
the variable or beyond the length of a slice. -/

abbrev Spot := GoType × Nat

/-- A block and what its cells refer to in turn. -/
def spotsBehind (heap : Heap) (type : GoType) (inner : Cell type → List Spot)
    (base : Option Nat) : List Spot :=
  match base with
  | none => []
  | some address => (type, address) :: (heap.block type address).flatMap inner

mutual
/-- The blocks that can be reached from the variable, each as often as it can be. -/
def footprint (heap : Heap) : (type : GoType) → Cell type → List Spot
  | .uint _, _ => []
  | .int _, _ => []
  | .bool, _ => []
  | .string, _ => []
  | .bigInt, (cell : BigIntCell) => spotsBehind heap wordType (fun _ => []) cell.abs.base
  | .number, cell =>
      spotsBehind heap .bigInt
        (fun big : BigIntCell => spotsBehind heap wordType (fun _ => []) big.abs.base) cell
  | .rawValue, (header : SliceHeader) => spotsBehind heap .byte (fun _ => []) header.base
  | .slice elem, (header : SliceHeader) => spotsBehind heap elem (footprint heap elem) header.base
  | .array _ elem, cells => cells.1.flatMap (footprint heap elem)
  | .struct fields, cells => fieldsFootprint heap fields cells
  | .ptr elem, cell => spotsBehind heap elem (footprint heap elem) cell
  | .map key elem, (entries : List (Cell key × Cell elem)) =>
      entries.flatMap fun entry => footprint heap key entry.1 ++ footprint heap elem entry.2

def fieldsFootprint (heap : Heap) : (fields : Fields) → FieldCells fields → List Spot
  | .nil, _ => []
  | .cons _ _ type rest, cells =>
      footprint heap type cells.1 ++ fieldsFootprint heap rest cells.2
end

mutual
/-- Slices are no longer than their blocks, and pointers lead to variables. -/
def Formed (heap : Heap) : (type : GoType) → Cell type → Prop
  | .uint _, _ => True
  | .int _, _ => True
  | .bool, _ => True
  | .string, _ => True
  | .bigInt, _ => True
  | .number, (cell : Option Nat) => ∀ address, cell = some address →
      heap.block .bigInt address ≠ []
  | .rawValue, _ => True
  | .slice elem, (header : SliceHeader) => header.len ≤ heap.cap elem header ∧
      ∀ cell ∈ heap.backing elem header, Formed heap elem cell
  | .array _ elem, cells => ∀ cell ∈ cells.1, Formed heap elem cell
  | .struct fields, cells => FieldsFormed heap fields cells
  | .ptr elem, (cell : Option Nat) => ∀ address, cell = some address →
      heap.block elem address ≠ [] ∧ ∀ cell ∈ heap.block elem address, Formed heap elem cell
  | .map _ _, _ => True

def FieldsFormed (heap : Heap) : (fields : Fields) → FieldCells fields → Prop
  | .nil, _ => True
  | .cons _ _ type rest, cells =>
      Formed heap type cells.1 ∧ FieldsFormed heap rest cells.2
end

namespace Heap

/-- The blocks are allocated, and none of them comes twice. -/
structure Owns (heap : Heap) (spots : List Spot) : Prop where
  allocated : ∀ spot ∈ spots, spot.2 < heap.size spot.1
  unshared : spots.Nodup

end Heap

/-- The variable holds a value of its own. -/
structure Tree (heap : Heap) (type : GoType) (cell : Cell type) : Prop where
  owns : heap.Owns (footprint heap type cell)
  formed : Formed heap type cell

def reach (heap : Heap) (spots : List Spot) : Region := fun type address =>
  (type, address) ∈ spots ∨ heap.size type ≤ address

variable {heap later : Heap} {region : Region}

/-! The footprint is closed. -/

def Heap.HasAll (heap : Heap) (region : Region) (spots : List Spot) : Prop :=
  ∀ spot ∈ spots, region spot.1 spot.2 ∧ spot.2 < heap.size spot.1

private theorem has_of_spots {type : GoType} {inner : Cell type → List Spot} {base : Option Nat}
    (inside : heap.HasAll region (spotsBehind heap type inner base)) :
    heap.Has region type base := by
  rintro address rfl
  exact inside (type, address) (List.mem_cons_self ..)

mutual
theorem refers_of_footprint : (type : GoType) → (cell : Cell type) →
    heap.HasAll region (footprint heap type cell) → Refers heap region type cell
  | .uint _, _, _ => trivial
  | .int _, _, _ => trivial
  | .bool, _, _ => trivial
  | .string, _, _ => trivial
  | .bigInt, _, inside => has_of_spots inside
  | .number, _, inside => has_of_spots inside
  | .rawValue, _, inside => has_of_spots inside
  | .slice _, _, inside => has_of_spots inside
  | .array _ elem, _, inside => fun cell member => refers_of_footprint elem cell fun spot found =>
      inside spot (List.mem_flatMap.2 ⟨cell, member, found⟩)
  | .struct fields, cells, inside => fieldsRefer_of_footprint fields cells inside
  | .ptr _, _, inside => has_of_spots inside
  | .map key elem, _, inside => fun entry member =>
      ⟨refers_of_footprint key entry.1 fun spot found =>
          inside spot (List.mem_flatMap.2 ⟨entry, member, List.mem_append_left _ found⟩),
        refers_of_footprint elem entry.2 fun spot found =>
          inside spot (List.mem_flatMap.2 ⟨entry, member, List.mem_append_right _ found⟩)⟩

theorem fieldsRefer_of_footprint : (fields : Fields) → (cells : FieldCells fields) →
    heap.HasAll region (fieldsFootprint heap fields cells) → FieldsRefer heap region fields cells
  | .nil, _, _ => trivial
  | .cons _ _ type rest, cells, inside =>
      ⟨refers_of_footprint type cells.1 fun spot found =>
          inside spot (List.mem_append_left _ found),
        fieldsRefer_of_footprint rest cells.2 fun spot found =>
          inside spot (List.mem_append_right _ found)⟩
end

private def Confined (heap : Heap) (region : Region) (spot : Spot) : Prop :=
  ∀ cell ∈ heap.block spot.1 spot.2, Refers heap region spot.1 cell

private theorem spotsBehind_confined {type : GoType} {inner : Cell type → List Spot}
    {base : Option Nat} (inside : heap.HasAll region (spotsBehind heap type inner base))
    (direct : ∀ cell, heap.HasAll region (inner cell) → Refers heap region type cell)
    (deeper : ∀ cell, heap.HasAll region (inner cell) →
      ∀ spot ∈ inner cell, Confined heap region spot) :
    ∀ spot ∈ spotsBehind heap type inner base, Confined heap region spot := by
  cases base with
  | none =>
      intro spot found
      cases found
  | some address =>
      have part : ∀ cell ∈ heap.block type address, heap.HasAll region (inner cell) :=
        fun cell member spot found =>
          inside spot (List.mem_cons_of_mem _ (List.mem_flatMap.2 ⟨cell, member, found⟩))
      intro spot found
      rcases List.mem_cons.1 found with rfl | behind
      · exact fun cell member => direct cell (part cell member)
      · obtain ⟨cell, member, found⟩ := List.mem_flatMap.1 behind
        exact deeper cell (part cell member) spot found

private theorem words_confined {base : Option Nat}
    (inside : heap.HasAll region (spotsBehind heap wordType (fun _ => []) base)) :
    ∀ spot ∈ spotsBehind heap wordType (fun _ => []) base, Confined heap region spot :=
  spotsBehind_confined inside (fun _ _ => trivial) fun _ _ _ found => by cases found

mutual
private theorem footprint_confined : (type : GoType) → (cell : Cell type) →
    heap.HasAll region (footprint heap type cell) →
      ∀ spot ∈ footprint heap type cell, Confined heap region spot
  | .uint _, _, _ => fun _ found => by cases found
  | .int _, _, _ => fun _ found => by cases found
  | .bool, _, _ => fun _ found => by cases found
  | .string, _, _ => fun _ found => by cases found
  | .bigInt, _, inside => words_confined inside
  | .number, _, inside =>
      spotsBehind_confined inside (fun _ => has_of_spots) fun _ => words_confined
  | .rawValue, _, inside =>
      spotsBehind_confined inside (fun _ _ => trivial) fun _ _ _ found => by cases found
  | .slice elem, _, inside =>
      spotsBehind_confined inside (refers_of_footprint elem) (footprint_confined elem)
  | .array _ elem, _, inside => fun spot found => by
      obtain ⟨cell, member, found⟩ := List.mem_flatMap.1 found
      exact footprint_confined elem cell
        (fun spot found => inside spot (List.mem_flatMap.2 ⟨cell, member, found⟩)) spot found
  | .struct fields, cells, inside => fieldsFootprint_confined fields cells inside
  | .ptr elem, _, inside =>
      spotsBehind_confined inside (refers_of_footprint elem) (footprint_confined elem)
  | .map key elem, _, inside => fun spot found => by
      obtain ⟨entry, member, found⟩ := List.mem_flatMap.1 found
      have part := fun spot found => inside spot (List.mem_flatMap.2 ⟨entry, member, found⟩)
      rcases List.mem_append.1 found with first | second
      · exact footprint_confined key entry.1
          (fun spot found => part spot (List.mem_append_left _ found)) spot first
      · exact footprint_confined elem entry.2
          (fun spot found => part spot (List.mem_append_right _ found)) spot second

private theorem fieldsFootprint_confined : (fields : Fields) → (cells : FieldCells fields) →
    heap.HasAll region (fieldsFootprint heap fields cells) →
      ∀ spot ∈ fieldsFootprint heap fields cells, Confined heap region spot
  | .nil, _, _ => fun _ found => by cases found
  | .cons _ _ type rest, cells, inside => fun spot found => by
      rcases List.mem_append.1 found with first | second
      · exact footprint_confined type cells.1
          (fun spot found => inside spot (List.mem_append_left _ found)) spot first
      · exact fieldsFootprint_confined rest cells.2
          (fun spot found => inside spot (List.mem_append_right _ found)) spot second
end

theorem Heap.Owns.hasAll {spots : List Spot} (owns : heap.Owns spots) :
    heap.HasAll (reach heap spots) spots :=
  fun spot found => ⟨.inl found, owns.allocated spot found⟩

private theorem closed_of_confined {spots : List Spot}
    (confined : ∀ spot ∈ spots, Confined heap (reach heap spots) spot) :
    heap.Closed (reach heap spots) := by
  refine ⟨?_, fun type address beyond => .inr beyond⟩
  rintro type address (found | beyond) cell member
  · exact confined (type, address) found cell member
  · rw [TypedHeap.block_eq_nil_of_size_le beyond] at member
    cases member

theorem closed_footprint {type : GoType} {cell : Cell type}
    (owns : heap.Owns (footprint heap type cell)) :
    heap.Closed (reach heap (footprint heap type cell)) :=
  closed_of_confined (footprint_confined type cell owns.hasAll)

theorem refers_footprint {type : GoType} {cell : Cell type}
    (owns : heap.Owns (footprint heap type cell)) :
    Refers heap (reach heap (footprint heap type cell)) type cell :=
  refers_of_footprint type cell owns.hasAll

/-! A variable whose footprint is left alone stays as it is. -/

def Untouched (heap later : Heap) (spots : List Spot) : Prop :=
  ∀ spot ∈ spots, later.block spot.1 spot.2 = heap.block spot.1 spot.2

private theorem spotsBehind_congr {type : GoType} {before after : Cell type → List Spot}
    {base : Option Nat} (same : Untouched heap later (spotsBehind heap type before base))
    (inner : ∀ cell, Untouched heap later (before cell) → after cell = before cell) :
    spotsBehind later type after base = spotsBehind heap type before base := by
  cases base with
  | none => rfl
  | some address =>
      have block : later.block type address = heap.block type address :=
        same (type, address) (List.mem_cons_self ..)
      rw [spotsBehind, spotsBehind, block]
      refine congrArg (List.cons _) (List.flatMap_congr fun cell member => ?_)
      exact inner cell fun spot found =>
        same spot (List.mem_cons_of_mem _ (List.mem_flatMap.2 ⟨cell, member, found⟩))

mutual
theorem footprint_congr : (type : GoType) → (cell : Cell type) →
    Untouched heap later (footprint heap type cell) →
      footprint later type cell = footprint heap type cell
  | .uint _, _, _ => rfl
  | .int _, _, _ => rfl
  | .bool, _, _ => rfl
  | .string, _, _ => rfl
  | .bigInt, _, same => spotsBehind_congr same fun _ _ => rfl
  | .number, _, same => spotsBehind_congr same fun _ same =>
      spotsBehind_congr same fun _ _ => rfl
  | .rawValue, _, same => spotsBehind_congr same fun _ _ => rfl
  | .slice elem, _, same => spotsBehind_congr same (footprint_congr elem)
  | .array _ elem, _, same => List.flatMap_congr fun cell member =>
      footprint_congr elem cell fun spot found =>
        same spot (List.mem_flatMap.2 ⟨cell, member, found⟩)
  | .struct fields, cells, same => fieldsFootprint_congr fields cells same
  | .ptr elem, _, same => spotsBehind_congr same (footprint_congr elem)
  | .map key elem, _, same => List.flatMap_congr fun entry member => by
      have part := fun spot found => same spot (List.mem_flatMap.2 ⟨entry, member, found⟩)
      rw [footprint_congr key entry.1 fun spot found => part spot (List.mem_append_left _ found),
        footprint_congr elem entry.2 fun spot found => part spot (List.mem_append_right _ found)]

theorem fieldsFootprint_congr : (fields : Fields) → (cells : FieldCells fields) →
    Untouched heap later (fieldsFootprint heap fields cells) →
      fieldsFootprint later fields cells = fieldsFootprint heap fields cells
  | .nil, _, _ => rfl
  | .cons _ _ type rest, cells, same => by
      rw [fieldsFootprint, fieldsFootprint,
        footprint_congr type cells.1 fun spot found => same spot (List.mem_append_left _ found),
        fieldsFootprint_congr rest cells.2 fun spot found =>
          same spot (List.mem_append_right _ found)]
end

theorem Untouched.block {type : GoType} {inner : Cell type → List Spot} {address : Nat}
    (same : Untouched heap later (spotsBehind heap type inner (some address))) :
    later.block type address = heap.block type address :=
  same (type, address) (List.mem_cons_self ..)

theorem Untouched.behind {type : GoType} {inner : Cell type → List Spot} {address : Nat}
    (same : Untouched heap later (spotsBehind heap type inner (some address)))
    {cell : Cell type} (member : cell ∈ heap.block type address) :
    Untouched heap later (inner cell) :=
  fun spot found =>
    same spot (List.mem_cons_of_mem _ (List.mem_flatMap.2 ⟨cell, member, found⟩))

mutual
theorem formed_congr : (type : GoType) → (cell : Cell type) →
    Untouched heap later (footprint heap type cell) → Formed heap type cell →
      Formed later type cell
  | .uint _, _, _, _ => trivial
  | .int _, _, _, _ => trivial
  | .bool, _, _, _ => trivial
  | .string, _, _, _ => trivial
  | .bigInt, _, _, _ => trivial
  | .number, _, same, formed => by
      rintro address rfl
      rw [Untouched.block same]
      exact formed address rfl
  | .rawValue, _, _, _ => trivial
  | .slice _, ⟨none, _⟩, _, formed => ⟨formed.1, fun _ member => by cases member⟩
  | .slice elem, ⟨some address, len⟩, same, formed => by
      have block := Untouched.block same
      refine ⟨Nat.le_trans formed.1 (Nat.le_of_eq (congrArg List.length block).symm), ?_⟩
      intro cell member
      have old : cell ∈ heap.block elem address := block ▸ member
      exact formed_congr elem cell (Untouched.behind same old) (formed.2 cell old)
  | .array _ elem, _, same, formed => fun cell member =>
      formed_congr elem cell
        (fun spot found => same spot (List.mem_flatMap.2 ⟨cell, member, found⟩))
        (formed cell member)
  | .struct fields, cells, same, formed => fieldsFormed_congr fields cells same formed
  | .ptr elem, _, same, formed => by
      rintro address rfl
      rw [Untouched.block same]
      exact ⟨(formed address rfl).1, fun cell member =>
        formed_congr elem cell (Untouched.behind same member) ((formed address rfl).2 cell member)⟩
  | .map _ _, _, _, _ => trivial

theorem fieldsFormed_congr : (fields : Fields) → (cells : FieldCells fields) →
    Untouched heap later (fieldsFootprint heap fields cells) → FieldsFormed heap fields cells →
      FieldsFormed later fields cells
  | .nil, _, _, _ => trivial
  | .cons _ _ type rest, cells, same, formed =>
      ⟨formed_congr type cells.1 (fun spot found => same spot (List.mem_append_left _ found))
          formed.1,
        fieldsFormed_congr rest cells.2
          (fun spot found => same spot (List.mem_append_right _ found)) formed.2⟩
end

mutual
theorem footprint_zeroCell (heap : Heap) : (type : GoType) →
    footprint heap type (zeroCell type) = []
  | .uint _ => rfl
  | .int _ => rfl
  | .bool => rfl
  | .string => rfl
  | .bigInt => rfl
  | .number => rfl
  | .rawValue => rfl
  | .slice _ => rfl
  | .array length elem => List.flatMap_eq_nil_iff.2 fun cell member => by
      rw [List.eq_of_mem_replicate member]
      exact footprint_zeroCell heap elem
  | .struct fields => fieldsFootprint_zero heap fields
  | .ptr _ => rfl
  | .map _ _ => rfl

theorem fieldsFootprint_zero (heap : Heap) : (fields : Fields) →
    fieldsFootprint heap fields (zeroFieldCells fields) = []
  | .nil => rfl
  | .cons _ _ type rest => List.append_eq_nil_iff.2
      ⟨footprint_zeroCell heap type, fieldsFootprint_zero heap rest⟩
end

mutual
theorem formed_zeroCell (heap : Heap) : (type : GoType) → Formed heap type (zeroCell type)
  | .uint _ => trivial
  | .int _ => trivial
  | .bool => trivial
  | .string => trivial
  | .bigInt => trivial
  | .number => fun _ absent => by cases absent
  | .rawValue => trivial
  | .slice _ => ⟨Nat.le_refl _, fun _ member => by cases member⟩
  | .array length elem => fun cell member => by
      rw [List.eq_of_mem_replicate member]
      exact formed_zeroCell heap elem
  | .struct fields => fieldsFormed_zero heap fields
  | .ptr _ => fun _ absent => by cases absent
  | .map _ _ => trivial

theorem fieldsFormed_zero (heap : Heap) : (fields : Fields) →
    FieldsFormed heap fields (zeroFieldCells fields)
  | .nil => trivial
  | .cons _ _ type rest => ⟨formed_zeroCell heap type, fieldsFormed_zero heap rest⟩
end

theorem untouched_zeroCell (heap later : Heap) (type : GoType) :
    Untouched heap later (footprint heap type (zeroCell type)) := by
  rw [footprint_zeroCell]
  exact List.forall_mem_nil _

theorem Untouched.target {type : GoType} {address : Nat}
    (same : Untouched heap later (spotsBehind heap type (footprint heap type) (some address))) :
    later.target type address = heap.target type address ∧
      Untouched heap later (footprint heap type (heap.target type address)) := by
  refine ⟨?_, ?_⟩
  · rw [Heap.target, Heap.target, same.block]
  · rw [Heap.target]
    cases content : heap.block type address with
    | nil => exact untouched_zeroCell heap later type
    | cons cell rest => exact same.behind (by simp [content])

namespace Heap.Owns

variable {first second : List Spot}

theorem nil (heap : Heap) : heap.Owns [] :=
  ⟨List.forall_mem_nil _, List.nodup_nil⟩

theorem left (owns : heap.Owns (first ++ second)) : heap.Owns first :=
  ⟨fun spot found => owns.allocated spot (List.mem_append_left _ found),
    (List.nodup_append.1 owns.unshared).1⟩

theorem right (owns : heap.Owns (first ++ second)) : heap.Owns second :=
  ⟨fun spot found => owns.allocated spot (List.mem_append_right _ found),
    (List.nodup_append.1 owns.unshared).2.1⟩

theorem disjoint (owns : heap.Owns (first ++ second)) : first.Disjoint second :=
  List.disjoint_of_nodup_append owns.unshared

theorem after (owns : heap.Owns first) (size : ∀ type, heap.size type ≤ later.size type) :
    later.Owns first :=
  ⟨fun spot found => Nat.lt_of_lt_of_le (owns.allocated spot found) (size spot.1),
    owns.unshared⟩

theorem perm (owns : heap.Owns first) (reordered : first.Perm second) : heap.Owns second :=
  ⟨fun spot found => owns.allocated spot (reordered.symm.subset found),
    reordered.nodup_iff.1 owns.unshared⟩

theorem sublist (owns : heap.Owns second) (part : first.Sublist second) : heap.Owns first :=
  ⟨fun spot found => owns.allocated spot (part.subset found), owns.unshared.sublist part⟩

end Heap.Owns

theorem tree_zeroCell (heap : Heap) (type : GoType) : Tree heap type (zeroCell type) := by
  refine ⟨?_, formed_zeroCell heap type⟩
  rw [footprint_zeroCell]
  exact .nil heap

theorem Heap.Within.untouched {spots others : List Spot}
    (within : heap.Within later (reach heap spots)) (apart : spots.Disjoint others)
    (allocated : ∀ spot ∈ others, spot.2 < heap.size spot.1) : Untouched heap later others := by
  intro spot found
  refine within.outside spot.1 spot.2 ?_
  rintro (inside | beyond)
  · exact apart inside found
  · exact Nat.not_lt.2 beyond (allocated spot found)

theorem Tree.after {type : GoType} {cell : Cell type} (tree : Tree heap type cell)
    (same : Untouched heap later (footprint heap type cell))
    (size : ∀ type, heap.size type ≤ later.size type) : Tree later type cell := by
  refine ⟨?_, formed_congr type cell same tree.formed⟩
  rw [footprint_congr type cell same]
  exact tree.owns.after size

theorem Heap.Owns.apart {first second : List Spot} (owns : heap.Owns (first ++ second))
    {type : GoType} {address : Nat} (inside : reach heap first type address)
    (allocated : address < later.size type) : ¬reach later second type address := by
  rintro (found | beyond)
  · rcases inside with here | new
    · exact owns.disjoint here found
    · exact Nat.not_lt.2 new (owns.right.allocated _ found)
  · exact Nat.not_lt.2 beyond allocated

theorem Tree.target {elem : GoType} {address : Nat}
    (tree : Tree heap (.ptr elem) (some address : Option Nat)) :
    Tree heap elem (heap.target elem address) ∧
      heap.Owns (footprint heap elem (heap.target elem address) ++ [(elem, address)]) := by
  obtain ⟨present, formed⟩ := tree.formed address rfl
  have owns : heap.Owns ((elem, address) ::
      (heap.block elem address).flatMap (footprint heap elem)) := tree.owns
  rw [Heap.target]
  cases content : heap.block elem address with
  | nil => exact absurd content present
  | cons cell rest =>
      rw [content] at owns formed
      have part : heap.Owns ([(elem, address)] ++ footprint heap elem cell) :=
        owns.sublist (List.Sublist.cons_cons _ (List.sublist_append_left _ _))
      exact ⟨⟨part.right, formed cell (List.mem_cons_self ..)⟩, part.perm List.perm_append_comm⟩

theorem tree_allocCell (heap : Heap) (elem : GoType) :
    Tree (heap.allocCell elem (zeroCell elem)) (.ptr elem)
      (some (heap.size elem) : Option Nat) := by
  have block : (heap.allocCell elem (zeroCell elem)).block elem (heap.size elem) =
      [zeroCell elem] := TypedHeap.block_alloc_self
  constructor
  · show Heap.Owns _ ((elem, heap.size elem) :: List.flatMap _ _)
    rw [block, List.flatMap_singleton, footprint_zeroCell]
    refine ⟨fun spot found => ?_, List.nodup_singleton _⟩
    rw [List.mem_singleton.1 found, Heap.allocCell, TypedHeap.size_alloc_self]
    exact Nat.lt_succ_self _
  · rintro address ⟨rfl⟩
    rw [block]
    refine ⟨List.cons_ne_nil _ _, fun cell member => ?_⟩
    rw [List.mem_singleton.1 member]
    exact formed_zeroCell _ elem

/-! Variables in a row are those of an array. -/

section Row

variable {type : GoType} {cells : List (Cell type)}

theorem closed_row (owns : heap.Owns (cells.flatMap (footprint heap type))) :
    heap.Closed (reach heap (cells.flatMap (footprint heap type))) :=
  @closed_footprint heap (.array cells.length type) ⟨cells, rfl⟩ owns

theorem refer_row (owns : heap.Owns (cells.flatMap (footprint heap type))) :
    ∀ cell ∈ cells, Refers heap (reach heap (cells.flatMap (footprint heap type))) type cell :=
  @refers_footprint heap (.array cells.length type) ⟨cells, rfl⟩ owns

theorem row_congr (same : Untouched heap later (cells.flatMap (footprint heap type))) :
    cells.flatMap (footprint later type) = cells.flatMap (footprint heap type) :=
  footprint_congr (.array cells.length type) ⟨cells, rfl⟩ same

theorem Untouched.row (same : Untouched heap later (cells.flatMap (footprint heap type)))
    {cell : Cell type} (member : cell ∈ cells) :
    Untouched heap later (footprint heap type cell) :=
  fun spot found => same spot (List.mem_flatMap.2 ⟨cell, member, found⟩)

end Row

end Bclib.Go
