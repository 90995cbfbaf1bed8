import Mathlib.Logic.Function.Basic

namespace Bclib.Data

/-! A heap of typed blocks.  Blocks of different types live in different regions,
so an address is a type together with a position in its region. -/

structure TypedHeap {ι : Type} (C : ι → Type) where
  blocks : (type : ι) → List (List (C type))

namespace TypedHeap

variable {ι : Type} {C : ι → Type}

def empty : TypedHeap C := ⟨fun _ => []⟩

def size (heap : TypedHeap C) (type : ι) : Nat := (heap.blocks type).length

def block (heap : TypedHeap C) (type : ι) (address : Nat) : List (C type) :=
  ((heap.blocks type)[address]?).getD []

theorem lt_size_of_block_ne_nil {heap : TypedHeap C} {type : ι} {address : Nat}
    (nonempty : heap.block type address ≠ []) : address < heap.size type := by
  by_contra beyond
  apply nonempty
  have outside : (heap.blocks type).length ≤ address := Nat.le_of_not_lt beyond
  simp [block, List.getElem?_eq_none outside]

theorem block_eq_nil_of_size_le {heap : TypedHeap C} {type : ι} {address : Nat}
    (beyond : heap.size type ≤ address) : heap.block type address = [] := by
  by_contra present
  exact Nat.not_lt.2 beyond (lt_size_of_block_ne_nil present)

variable [DecidableEq ι]

def alloc (heap : TypedHeap C) (type : ι) (cells : List (C type)) : TypedHeap C :=
  ⟨Function.update heap.blocks type (heap.blocks type ++ [cells])⟩

def write (heap : TypedHeap C) (type : ι) (address : Nat) (cells : List (C type)) :
    TypedHeap C :=
  ⟨Function.update heap.blocks type ((heap.blocks type).set address cells)⟩

variable {heap : TypedHeap C} {type other : ι} {address position : Nat}
variable {cells : List (C type)}

@[simp] theorem size_alloc_self : (heap.alloc type cells).size type = heap.size type + 1 := by
  simp [size, alloc]

theorem size_alloc_of_ne (different : other ≠ type) :
    (heap.alloc type cells).size other = heap.size other := by
  simp [size, alloc, Function.update_of_ne different]

theorem size_le_alloc : heap.size other ≤ (heap.alloc type cells).size other := by
  by_cases same : other = type
  · subst same
    simp
  · exact Nat.le_of_eq (size_alloc_of_ne same).symm

@[simp] theorem size_write : (heap.write type address cells).size other = heap.size other := by
  by_cases same : other = type
  · subst same
    simp [size, write]
  · simp [size, write, Function.update_of_ne same]

@[simp] theorem block_alloc_self :
    (heap.alloc type cells).block type (heap.size type) = cells := by
  simp [block, alloc, size]

theorem block_alloc_of_lt (allocated : position < heap.size other) :
    (heap.alloc type cells).block other position = heap.block other position := by
  by_cases same : other = type
  · subst same
    simp only [block, alloc, Function.update_self]
    rw [List.getElem?_append_left allocated]
  · simp [block, alloc, Function.update_of_ne same]

theorem block_alloc_of_ne (different : other ≠ type) :
    (heap.alloc type cells).block other position = heap.block other position := by
  simp [block, alloc, Function.update_of_ne different]

theorem block_write_self (allocated : address < heap.size type) :
    (heap.write type address cells).block type address = cells := by
  have inside : address < (heap.blocks type).length := allocated
  simp [block, write, inside]

theorem block_write_of_ne (apart : other = type → position ≠ address) :
    (heap.write type address cells).block other position =
      heap.block other position := by
  by_cases same : other = type
  · subst same
    simp [block, write, List.getElem?_set_ne (Ne.symm (apart rfl))]
  · simp [block, write, Function.update_of_ne same]

omit [DecidableEq ι] in
private theorem set_block (heap : TypedHeap C) (type : ι) (address : Nat) :
    (heap.blocks type).set address (heap.block type address) = heap.blocks type := by
  by_cases inside : address < (heap.blocks type).length
  · rw [block, List.getElem?_eq_getElem inside, Option.getD_some, List.set_getElem_self]
  · exact List.set_eq_of_length_le (Nat.le_of_not_lt inside)

theorem write_block_self (heap : TypedHeap C) (type : ι) (address : Nat) :
    heap.write type address (heap.block type address) = heap := by
  rw [write, set_block, Function.update_eq_self]

theorem forall_mem_block_alloc (holds : (type : ι) → Nat → C type → Prop)
    (old : ∀ other position, ∀ cell ∈ heap.block other position, holds other position cell)
    (new : ∀ cell ∈ cells, holds type (heap.size type) cell) (other : ι) (position : Nat) :
    ∀ cell ∈ (heap.alloc type cells).block other position, holds other position cell := by
  intro cell member
  rcases Nat.lt_trichotomy position (heap.size other) with inside | rfl | beyond
  · rw [block_alloc_of_lt inside] at member
    exact old other position cell member
  · by_cases same : other = type
    · subst same
      rw [block_alloc_self] at member
      exact new cell member
    · rw [block_eq_nil_of_size_le (Nat.le_of_eq (size_alloc_of_ne same))] at member
      cases member
  · have outside : (heap.alloc type cells).size other ≤ position := by
      by_cases same : other = type
      · subst same
        rw [size_alloc_self]
        exact beyond
      · rw [size_alloc_of_ne same]
        exact Nat.le_of_lt beyond
    rw [block_eq_nil_of_size_le outside] at member
    cases member

theorem forall_mem_block_write (holds : (type : ι) → Nat → C type → Prop)
    (old : ∀ other position, ∀ cell ∈ heap.block other position, holds other position cell)
    (new : ∀ cell ∈ cells, holds type address cell) (other : ι) (position : Nat) :
    ∀ cell ∈ (heap.write type address cells).block other position,
      holds other position cell := by
  intro cell member
  by_cases here : other = type ∧ position = address
  · obtain ⟨rfl, rfl⟩ := here
    by_cases inside : position < heap.size other
    · rw [block_write_self inside] at member
      exact new cell member
    · rw [block_eq_nil_of_size_le (by simpa using inside)] at member
      cases member
  · rw [block_write_of_ne fun same => fun equal => here ⟨same, equal⟩] at member
    exact old other position cell member

end TypedHeap

end Bclib.Data
