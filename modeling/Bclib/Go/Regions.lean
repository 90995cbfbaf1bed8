import Bclib.Go.BigInt

namespace Bclib.Go

open Data

/-! Parts of memory that are closed: whatever is kept there refers to nothing outside. -/

abbrev Region := GoType → Nat → Prop

def Heap.Has (heap : Heap) (region : Region) (type : GoType) (base : Option Nat) : Prop :=
  ∀ address, base = some address → region type address ∧ address < heap.size type

mutual
def Refers (heap : Heap) (region : Region) : (type : GoType) → Cell type → Prop
  | .uint _, _ => True
  | .int _, _ => True
  | .bool, _ => True
  | .string, _ => True
  | .bigInt, (cell : BigIntCell) => heap.Has region wordType cell.abs.base
  | .number, cell => heap.Has region .bigInt cell
  | .rawValue, (header : SliceHeader) => heap.Has region .byte header.base
  | .slice elem, (header : SliceHeader) => heap.Has region elem header.base
  | .array _ elem, cells => ∀ cell ∈ cells.1, Refers heap region elem cell
  | .struct fields, cells => FieldsRefer heap region fields cells
  | .ptr elem, cell => heap.Has region elem cell
  | .map key elem, (entries : List (Cell key × Cell elem)) =>
      ∀ entry ∈ entries, Refers heap region key entry.1 ∧ Refers heap region elem entry.2

def FieldsRefer (heap : Heap) (region : Region) : (fields : Fields) → FieldCells fields → Prop
  | .nil, _ => True
  | .cons _ _ type rest, cells =>
      Refers heap region type cells.1 ∧ FieldsRefer heap region rest cells.2
end

namespace Heap

/-- The region keeps to itself, and all that is not allocated belongs to it. -/
structure Closed (heap : Heap) (region : Region) : Prop where
  cells : ∀ type address, region type address → ∀ cell ∈ heap.block type address,
    Refers heap region type cell
  free : ∀ type address, heap.size type ≤ address → region type address

/-- The later heap differs in the region only, and the region is still closed. -/
structure Within (heap next : Heap) (region : Region) : Prop where
  size : ∀ type, heap.size type ≤ next.size type
  outside : ∀ type address, ¬region type address →
    next.block type address = heap.block type address
  closed : next.Closed region

end Heap

variable {heap next last : Heap} {region : Region} {type : GoType}

theorem Heap.Has.later {base : Option Nat} (has : heap.Has region type base)
    (size : ∀ type, heap.size type ≤ next.size type) : next.Has region type base := by
  intro address based
  obtain ⟨inside, allocated⟩ := has address based
  exact ⟨inside, Nat.lt_of_lt_of_le allocated (size type)⟩

theorem Heap.has_none (heap : Heap) (region : Region) (type : GoType) :
    heap.Has region type none := by
  intro address based
  cases based

mutual
theorem Refers.later (size : ∀ type, heap.size type ≤ next.size type) : (type : GoType) →
    (cell : Cell type) → Refers heap region type cell → Refers next region type cell
  | .uint _, _, _ => trivial
  | .int _, _, _ => trivial
  | .bool, _, _ => trivial
  | .string, _, _ => trivial
  | .bigInt, _, refers => Heap.Has.later refers size
  | .number, _, refers => Heap.Has.later refers size
  | .rawValue, _, refers => Heap.Has.later refers size
  | .slice _, _, refers => Heap.Has.later refers size
  | .array _ elem, _, refers => fun cell member =>
      Refers.later size elem cell (refers cell member)
  | .struct fields, cells, refers => FieldsRefer.later size fields cells refers
  | .ptr _, _, refers => Heap.Has.later refers size
  | .map key elem, _, refers => fun entry member =>
      ⟨Refers.later size key entry.1 (refers entry member).1,
        Refers.later size elem entry.2 (refers entry member).2⟩

theorem FieldsRefer.later (size : ∀ type, heap.size type ≤ next.size type) :
    (fields : Fields) → (cells : FieldCells fields) → FieldsRefer heap region fields cells →
      FieldsRefer next region fields cells
  | .nil, _, _ => trivial
  | .cons _ _ type rest, cells, refers =>
      ⟨Refers.later size type cells.1 refers.1, FieldsRefer.later size rest cells.2 refers.2⟩
end

mutual
theorem refers_zeroCell (heap : Heap) (region : Region) : (type : GoType) →
    Refers heap region type (zeroCell type)
  | .uint _ => trivial
  | .int _ => trivial
  | .bool => trivial
  | .string => trivial
  | .bigInt => heap.has_none region wordType
  | .number => heap.has_none region .bigInt
  | .rawValue => heap.has_none region .byte
  | .slice elem => heap.has_none region elem
  | .array length elem => fun cell member => by
      rw [List.eq_of_mem_replicate member]
      exact refers_zeroCell heap region elem
  | .struct fields => fieldsRefer_zero heap region fields
  | .ptr elem => heap.has_none region elem
  | .map _ _ => fun _ member => by cases member

theorem fieldsRefer_zero (heap : Heap) (region : Region) : (fields : Fields) →
    FieldsRefer heap region fields (zeroFieldCells fields)
  | .nil => trivial
  | .cons _ _ type rest => ⟨refers_zeroCell heap region type, fieldsRefer_zero heap region rest⟩
end

namespace Heap

theorem Within.refl (closed : heap.Closed region) : heap.Within heap region :=
  ⟨fun _ => Nat.le_refl _, fun _ _ _ => rfl, closed⟩

theorem Within.trans (first : heap.Within next region) (second : next.Within last region) :
    heap.Within last region :=
  ⟨fun type => Nat.le_trans (first.size type) (second.size type),
    fun type address outside => (second.outside type address outside).trans
      (first.outside type address outside), second.closed⟩

theorem Closed.refers_target (closed : heap.Closed region) {address : Nat}
    (inside : region type address) : Refers heap region type (heap.target type address) := by
  rw [target]
  cases content : heap.block type address with
  | nil => exact refers_zeroCell heap region type
  | cons cell rest => exact closed.cells type address inside cell (by simp [content])

theorem Closed.refers_backing (closed : heap.Closed region) {header : SliceHeader}
    (has : heap.Has region type header.base) :
    ∀ cell ∈ heap.backing type header, Refers heap region type cell := by
  intro cell member
  rw [backing] at member
  cases based : header.base with
  | none =>
      rw [based] at member
      cases member
  | some address =>
      rw [based] at member
      exact closed.cells type address (has address based).1 cell member

theorem Closed.alloc (closed : heap.Closed region) {cells : List (Cell type)}
    (refer : ∀ cell ∈ cells, Refers heap region type cell) :
    heap.Within (heap.alloc type cells) region := by
  have grows : ∀ other, heap.size other ≤ (heap.alloc type cells).size other :=
    fun other => TypedHeap.size_le_alloc
  refine ⟨grows, ?_, ?_, ?_⟩
  · intro other address outside
    refine TypedHeap.block_alloc_of_lt ?_
    by_contra beyond
    exact outside (closed.free other address (Nat.le_of_not_lt beyond))
  · intro other address inside cell member
    refine Refers.later grows other cell ?_
    exact TypedHeap.forall_mem_block_alloc
      (fun other address cell => region other address → Refers heap region other cell)
      (fun other address cell member inside => closed.cells other address inside cell member)
      (fun cell member _ => refer cell member) other address cell member inside
  · intro other address beyond
    exact closed.free other address (Nat.le_trans (grows other) beyond)

theorem Closed.has_alloc (closed : heap.Closed region) (cells : List (Cell type)) :
    Has (heap.alloc type cells) region type (some (heap.size type)) := by
  rintro address ⟨rfl⟩
  refine ⟨closed.free type _ (Nat.le_refl _), ?_⟩
  rw [TypedHeap.size_alloc_self]
  exact Nat.lt_succ_self _

theorem Closed.write (closed : heap.Closed region) {address : Nat}
    (inside : region type address) {cells : List (Cell type)}
    (refer : ∀ cell ∈ cells, Refers heap region type cell) :
    heap.Within (heap.write type address cells) region := by
  have grows : ∀ other, heap.size other ≤ (heap.write type address cells).size other :=
    fun other => Nat.le_of_eq TypedHeap.size_write.symm
  refine ⟨grows, ?_, ?_, ?_⟩
  · intro other position outside
    refine TypedHeap.block_write_of_ne ?_
    rintro rfl rfl
    exact outside inside
  · intro other position within cell member
    refine Refers.later grows other cell ?_
    exact TypedHeap.forall_mem_block_write
      (fun other position cell => region other position → Refers heap region other cell)
      (fun other position cell member within => closed.cells other position within cell member)
      (fun cell member _ => refer cell member) other position cell member within
  · intro other position beyond
    exact closed.free other position (Nat.le_trans (grows other) beyond)

theorem Closed.write_entry (closed : heap.Closed region) {address : Nat}
    (inside : region type address) (i : Nat) {cell : Cell type}
    (refers : Refers heap region type cell) :
    heap.Within (heap.write type address ((heap.block type address).set i cell)) region := by
  refine closed.write inside ?_
  intro entry member
  rcases List.mem_or_eq_of_mem_set member with old | rfl
  · exact closed.cells type address inside entry old
  · exact refers

end Heap

/-! What is read through a variable is decided by the region it refers to. -/

section Reading

variable {later : Heap}

private theorem backing_congr {header : SliceHeader} (has : heap.Has region type header.base)
    (same : ∀ type address, region type address → address < heap.size type →
      later.block type address = heap.block type address) :
    later.backing type header = heap.backing type header := by
  rw [Heap.backing, Heap.backing]
  cases based : header.base with
  | none => rfl
  | some address => exact same type address (has address based).1 (has address based).2

private theorem loadBigInt_congr_region {cell : BigIntCell}
    (has : heap.Has region wordType cell.abs.base)
    (same : ∀ type address, region type address → address < heap.size type →
      later.block type address = heap.block type address) :
    loadBigInt later cell = loadBigInt heap cell := by
  rw [loadBigInt, loadBigInt, Heap.elems, Heap.elems, backing_congr has same]

private theorem target_congr_region {address : Nat}
    (has : heap.Has region type (some address))
    (same : ∀ type address, region type address → address < heap.size type →
      later.block type address = heap.block type address) :
    later.target type address = heap.target type address := by
  rw [Heap.target, Heap.target, same type address (has address rfl).1 (has address rfl).2]

mutual
theorem Refers.load_eq (closed : heap.Closed region)
    (same : ∀ type address, region type address → address < heap.size type →
      later.block type address = heap.block type address) : (type : GoType) →
    (cell : Cell type) → Refers heap region type cell → load later type cell = load heap type cell
  | .uint _, _, _ => rfl
  | .int _, _, _ => rfl
  | .bool, _, _ => rfl
  | .string, _, _ => rfl
  | .bigInt, _, refers => loadBigInt_congr_region refers same
  | .number, none, _ => rfl
  | .number, some address, refers => by
      have inside := closed.refers_target (refers address rfl).1
      rw [load_number_some, load_number_some, target_congr_region refers same,
        loadBigInt_congr_region inside same]
  | .rawValue, header, refers =>
      congrArg (List.take (SliceHeader.len header)) (backing_congr refers same)
  | .slice elem, header, refers => by
      have unchanged : later.elems elem header = heap.elems elem header :=
        congrArg (List.take (SliceHeader.len header)) (backing_congr refers same)
      show (later.elems elem header).map (load later elem) =
        (heap.elems elem header).map (load heap elem)
      rw [unchanged]
      refine List.map_congr_left fun cell member => ?_
      exact Refers.load_eq closed same elem cell
        (closed.refers_backing refers cell (List.mem_of_mem_take member))
  | .array _ elem, cells, refers => by
      refine Subtype.ext (List.map_congr_left fun cell member => ?_)
      exact Refers.load_eq closed same elem cell (refers cell member)
  | .struct fields, cells, refers => FieldsRefer.load_eq closed same fields cells refers
  | .ptr elem, none, _ => rfl
  | .ptr elem, some address, refers => by
      have inside := closed.refers_target (refers address rfl).1
      rw [load_ptr_some, load_ptr_some, target_congr_region refers same,
        Refers.load_eq closed same elem _ inside]
  | .map key elem, entries, refers => by
      refine List.map_congr_left fun entry member => ?_
      rw [Refers.load_eq closed same key entry.1 (refers entry member).1,
        Refers.load_eq closed same elem entry.2 (refers entry member).2]

theorem FieldsRefer.load_eq (closed : heap.Closed region)
    (same : ∀ type address, region type address → address < heap.size type →
      later.block type address = heap.block type address) : (fields : Fields) →
    (cells : FieldCells fields) → FieldsRefer heap region fields cells →
      loadFields later fields cells = loadFields heap fields cells
  | .nil, _, _ => rfl
  | .cons _ _ type rest, cells, refers => by
      rw [loadFields, loadFields, Refers.load_eq closed same type cells.1 refers.1,
        FieldsRefer.load_eq closed same rest cells.2 refers.2]
end

end Reading

/-- Whoever leaves the region alone leaves the value of the variable. -/
def Renders (heap : Heap) (region : Region) (type : GoType) (cell : Cell type)
    (value : Value type) : Prop :=
  ∀ later : Heap, (∀ type address, region type address →
    later.block type address = heap.block type address) → load later type cell = value

theorem Refers.renders {cell : Cell type} (refers : Refers heap region type cell)
    (closed : heap.Closed region) :
    Renders heap (fun type address => region type address ∧ address < heap.size type) type cell
      (load heap type cell) :=
  fun _ same => refers.load_eq closed
    (fun type address inside allocated => same type address ⟨inside, allocated⟩) type cell

theorem Renders.mono {cell : Cell type} {value : Value type} {wider : Region}
    (renders : Renders heap region type cell value)
    (part : ∀ type address, region type address → wider type address) :
    Renders heap wider type cell value :=
  fun later same => renders later fun type address inside =>
    same type address (part type address inside)

theorem Renders.after {cell : Cell type} {value : Value type}
    (renders : Renders heap region type cell value)
    (same : ∀ type address, region type address →
      next.block type address = heap.block type address) : Renders next region type cell value :=
  fun later unchanged => renders later fun type address inside =>
    (unchanged type address inside).trans (same type address inside)

theorem Renders.load_eq {cell : Cell type} {value : Value type}
    (renders : Renders heap region type cell value) : load heap type cell = value :=
  renders heap fun _ _ _ => rfl

end Bclib.Go
