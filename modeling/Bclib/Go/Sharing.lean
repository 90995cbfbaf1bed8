import Bclib.Go.BigInt

namespace Bclib.Go

open Data

/-! Which writes to memory go unnoticed.  A variable is settled when what it
refers to is there and no pointer is nil; heaps are ordered by what their settled
variables read. -/

mutual
/-- Nil pointers apart, the type has one value. -/
def dataless : GoType → Bool
  | .uint _ => false
  | .int _ => false
  | .bool => false
  | .string => false
  | .bigInt => false
  | .number => false
  | .rawValue => false
  | .slice _ => false
  | .array _ _ => false
  | .struct fields => datalessFields fields
  | .ptr elem => dataless elem
  | .map _ _ => false

def datalessFields : Fields → Bool
  | .nil => true
  | .cons _ _ type rest => dataless type && datalessFields rest
end

mutual
/-- A variable of the type can be decoded into again without harm to the copies
made of it: what it refers to is replaced, or has nothing to lose. -/
def reusable : GoType → Bool
  | .uint _ => true
  | .int _ => true
  | .bool => true
  | .string => true
  | .bigInt => false
  | .number => false
  | .rawValue => true
  | .slice elem => elem.isByte || dataless elem
  | .array _ elem => reusable elem
  | .struct fields => reusableFields fields
  | .ptr elem => dataless elem
  | .map _ _ => true

def reusableFields : Fields → Bool
  | .nil => true
  | .cons _ _ type rest => reusable type && reusableFields rest
end

mutual
def depth : GoType → Nat
  | .uint _ => 0
  | .int _ => 0
  | .bool => 0
  | .string => 0
  | .bigInt => 1
  | .number => 2
  | .rawValue => 1
  | .slice elem => depth elem + 1
  | .array _ elem => depth elem
  | .struct fields => fieldsDepth fields
  | .ptr elem => depth elem + 1
  | .map key elem => max (depth key) (depth elem)

def fieldsDepth : Fields → Nat
  | .nil => 0
  | .cons _ _ type rest => max (depth type) (fieldsDepth rest)
end

mutual
/-- All that the variable refers to is allocated, and no pointer is nil. -/
def Settled (heap : Heap) : (type : GoType) → Cell type → Prop
  | .uint _, _ => True
  | .int _, _ => True
  | .bool, _ => True
  | .string, _ => True
  | .bigInt, (cell : BigIntCell) => cell.abs.len ≤ heap.cap wordType cell.abs
  | .number, (cell : Option Nat) =>
      ∃ address, cell = some address ∧ heap.block .bigInt address ≠ [] ∧
        (heap.target .bigInt address : BigIntCell).abs.len ≤
          heap.cap wordType (heap.target .bigInt address : BigIntCell).abs
  | .rawValue, (header : SliceHeader) => header.len ≤ heap.cap .byte header
  | .slice elem, (header : SliceHeader) =>
      header.len ≤ heap.cap elem header ∧
        ∀ cell ∈ heap.elems elem header, Settled heap elem cell
  | .array _ elem, cells => ∀ cell ∈ cells.1, Settled heap elem cell
  | .struct fields, cells => FieldsSettled heap fields cells
  | .ptr elem, (cell : Option Nat) =>
      ∃ address, cell = some address ∧ heap.block elem address ≠ [] ∧
        Settled heap elem (heap.target elem address)
  | .map key elem, (entries : List (Cell key × Cell elem)) =>
      ∀ entry ∈ entries, Settled heap key entry.1 ∧ Settled heap elem entry.2

def FieldsSettled (heap : Heap) : (fields : Fields) → FieldCells fields → Prop
  | .nil, _ => True
  | .cons _ _ type rest, cells =>
      Settled heap type cells.1 ∧ FieldsSettled heap rest cells.2
end

mutual
/-- Decoding into the variable writes to no memory that is in use. -/
def Clean (heap : Heap) : (type : GoType) → Cell type → Prop
  | .uint _, _ => True
  | .int _, _ => True
  | .bool, _ => True
  | .string, _ => True
  | .bigInt, (cell : BigIntCell) => cell.abs.base = none
  | .number, (cell : Option Nat) => cell = none
  | .rawValue, _ => True
  | .slice elem, (header : SliceHeader) =>
      elem.isByte = true ∨ header = .empty ∨
        dataless elem = true ∧ header.len ≤ heap.cap elem header
  | .array _ elem, cells => ∀ cell ∈ cells.1, Clean heap elem cell
  | .struct fields, cells => FieldsClean heap fields cells
  | .ptr elem, (cell : Option Nat) =>
      ∀ address, cell = some address →
        dataless elem = true ∧ heap.block elem address ≠ []
  | .map _ _, _ => True

def FieldsClean (heap : Heap) : (fields : Fields) → FieldCells fields → Prop
  | .nil, _ => True
  | .cons _ _ type rest, cells => Clean heap type cells.1 ∧ FieldsClean heap rest cells.2
end

namespace Heap

/-- Blocks are added, never removed, and keep their lengths. -/
structure Grows (heap next : Heap) : Prop where
  size : ∀ type, heap.size type ≤ next.size type
  length : ∀ type address, address < heap.size type →
    (next.block type address).length = (heap.block type address).length

/-- Besides, blocks keep their content, up to unsettled entries of types that
hold no data. -/
structure Keeps (heap next : Heap) : Prop where
  size : ∀ type, heap.size type ≤ next.size type
  blocks : ∀ type address, address < heap.size type →
    List.Forall₂
      (fun old new => new = old ∨ dataless type = true ∧ ¬Settled heap type old)
      (heap.block type address) (next.block type address)

/-- Blocks of types without data can be decoded into. -/
def Tidy (heap : Heap) : Prop :=
  ∀ type, dataless type = true → ∀ address, ∀ cell ∈ heap.block type address,
    Clean heap type cell

variable {heap next last : Heap} {type : GoType} {address : Nat} {header : SliceHeader}

theorem Grows.refl (heap : Heap) : heap.Grows heap := ⟨fun _ => Nat.le_refl _, fun _ _ _ => rfl⟩

theorem Grows.trans (grows : heap.Grows next) (later : next.Grows last) : heap.Grows last :=
  ⟨fun type => Nat.le_trans (grows.size type) (later.size type), fun type address inside =>
    (later.length type address (Nat.lt_of_lt_of_le inside (grows.size type))).trans
      (grows.length type address inside)⟩

theorem Grows.block_ne_nil (grows : heap.Grows next) (present : heap.block type address ≠ []) :
    next.block type address ≠ [] := by
  have kept := grows.length type address (TypedHeap.lt_size_of_block_ne_nil present)
  rw [← List.length_pos_iff] at present ⊢
  omega

theorem Grows.cap_le (grows : heap.Grows next) : heap.cap type header ≤ next.cap type header := by
  cases based : header.base with
  | none => simp [cap, backing, based]
  | some address =>
      simp only [cap, backing, based]
      by_cases inside : address < heap.size type
      · exact Nat.le_of_eq (grows.length type address inside).symm
      · rw [TypedHeap.block_eq_nil_of_size_le (Nat.le_of_not_lt inside)]
        exact Nat.zero_le _

theorem Keeps.grows (keeps : heap.Keeps next) : heap.Grows next :=
  ⟨keeps.size, fun type address inside => (keeps.blocks type address inside).length_eq.symm⟩

theorem Keeps.refl (heap : Heap) : heap.Keeps heap :=
  ⟨fun _ => Nat.le_refl _, fun _ _ _ => List.forall₂_same.2 fun _ _ => .inl rfl⟩

theorem Keeps.block_eq (keeps : heap.Keeps next) (informative : dataless type = false)
    (inside : address < heap.size type) : next.block type address = heap.block type address := by
  have related := keeps.blocks type address inside
  have same : List.Forall₂ (fun old new => old = new) (heap.block type address)
      (next.block type address) := by
    refine related.imp ?_
    rintro old new (rfl | ⟨empty, _⟩)
    · rfl
    · simp [informative] at empty
  exact (List.forall₂_eq_eq_eq ▸ same : heap.block type address = next.block type address).symm

private theorem eq_of_forall₂ {allowed : α → Prop} {old new : List α}
    (related : List.Forall₂ (fun old new => new = old ∨ allowed old) old new)
    (strict : ∀ cell ∈ old, ¬allowed cell) : new = old := by
  induction related with
  | nil => rfl
  | cons first _ ih =>
      rw [List.forall_mem_cons] at strict
      rw [ih strict.2, first.resolve_right strict.1]

theorem Keeps.elems_eq (keeps : heap.Keeps next) (bound : header.len ≤ heap.cap type header)
    (settled : ∀ cell ∈ heap.elems type header, Settled heap type cell) :
    next.elems type header = heap.elems type header := by
  cases based : header.base with
  | none => simp [elems, backing, based]
  | some address =>
      simp only [elems, cap, backing, based] at bound settled ⊢
      by_cases inside : address < heap.size type
      · have taken := List.forall₂_take header.len (keeps.blocks type address inside)
        exact eq_of_forall₂ taken fun cell member excepted =>
          excepted.2 (settled cell member)
      · rw [TypedHeap.block_eq_nil_of_size_le (Nat.le_of_not_lt inside)] at bound
        simp [Nat.le_zero.1 bound]

theorem Keeps.target_eq (keeps : heap.Keeps next) (present : heap.block type address ≠ [])
    (settled : Settled heap type (heap.target type address)) :
    next.target type address = heap.target type address := by
  have related := keeps.blocks type address (TypedHeap.lt_size_of_block_ne_nil present)
  unfold target at settled ⊢
  cases old : heap.block type address with
  | nil => exact absurd old present
  | cons first rest =>
      rw [old] at related settled
      cases new : next.block type address with
      | nil => simp [new] at related
      | cons other others =>
          rw [new, List.forall₂_cons] at related
          exact related.1.resolve_right fun excepted => excepted.2 settled

end Heap

/-! Settled variables read the same in every later heap. -/

private theorem words_settled {heap : Heap} {header : SliceHeader} :
    ∀ cell ∈ heap.elems wordType header, Settled heap wordType cell :=
  fun _ _ => trivial

private theorem bytes_settled {heap : Heap} {header : SliceHeader} :
    ∀ cell ∈ heap.elems .byte header, Settled heap .byte cell :=
  fun _ _ => trivial

private theorem loadBigInt_kept {heap next : Heap} (keeps : heap.Keeps next) {cell : BigIntCell}
    (bound : cell.abs.len ≤ heap.cap wordType cell.abs) :
    loadBigInt next cell = loadBigInt heap cell := by
  rw [loadBigInt, loadBigInt, keeps.elems_eq bound words_settled]

mutual
theorem Settled.kept {heap next : Heap} (keeps : heap.Keeps next) :
    (type : GoType) → (cell : Cell type) → Settled heap type cell →
      Settled next type cell ∧ load next type cell = load heap type cell
  | .uint _, _, _ => ⟨trivial, rfl⟩
  | .int _, _, _ => ⟨trivial, rfl⟩
  | .bool, _, _ => ⟨trivial, rfl⟩
  | .string, _, _ => ⟨trivial, rfl⟩
  | .bigInt, _, bound =>
      ⟨Nat.le_trans bound keeps.grows.cap_le, loadBigInt_kept keeps bound⟩
  | .number, _, ⟨address, rfl, present, bound⟩ => by
      have same := keeps.target_eq present bound
      refine ⟨⟨address, rfl, keeps.grows.block_ne_nil present, ?_⟩, ?_⟩
      · rw [same]
        exact Nat.le_trans bound keeps.grows.cap_le
      · rw [load_number_some, load_number_some, same, loadBigInt_kept keeps bound]
  | .rawValue, _, bound =>
      ⟨Nat.le_trans bound keeps.grows.cap_le, keeps.elems_eq bound bytes_settled⟩
  | .slice elem, _, ⟨bound, settled⟩ => by
      have same := keeps.elems_eq bound settled
      refine ⟨⟨Nat.le_trans bound keeps.grows.cap_le, ?_⟩, ?_⟩
      · rw [same]
        exact fun cell member => (Settled.kept keeps elem cell (settled cell member)).1
      · simp only [load, same]
        exact List.map_congr_left fun cell member =>
          (Settled.kept keeps elem cell (settled cell member)).2
  | .array _ elem, cells, settled => by
      refine ⟨fun cell member => (Settled.kept keeps elem cell (settled cell member)).1, ?_⟩
      exact Subtype.ext (List.map_congr_left fun cell member =>
        (Settled.kept keeps elem cell (settled cell member)).2)
  | .struct fields, cells, settled => FieldsSettled.kept keeps fields cells settled
  | .ptr elem, _, ⟨address, rfl, present, settled⟩ => by
      have same := keeps.target_eq present settled
      obtain ⟨later, read⟩ := Settled.kept keeps elem _ settled
      refine ⟨⟨address, rfl, keeps.grows.block_ne_nil present, ?_⟩, ?_⟩
      · rw [same]
        exact later
      · rw [load_ptr_some, load_ptr_some, same, read]
  | .map key elem, entries, settled => by
      refine ⟨fun entry member =>
        ⟨(Settled.kept keeps key entry.1 (settled entry member).1).1,
          (Settled.kept keeps elem entry.2 (settled entry member).2).1⟩, ?_⟩
      refine List.map_congr_left fun entry member => ?_
      rw [(Settled.kept keeps key entry.1 (settled entry member).1).2,
        (Settled.kept keeps elem entry.2 (settled entry member).2).2]

theorem FieldsSettled.kept {heap next : Heap} (keeps : heap.Keeps next) :
    (fields : Fields) → (cells : FieldCells fields) → FieldsSettled heap fields cells →
      FieldsSettled next fields cells ∧
        loadFields next fields cells = loadFields heap fields cells
  | .nil, _, _ => ⟨trivial, rfl⟩
  | .cons _ _ type rest, cells, settled => by
      obtain ⟨first, read⟩ := Settled.kept keeps type cells.1 settled.1
      obtain ⟨others, readOthers⟩ := FieldsSettled.kept keeps rest cells.2 settled.2
      exact ⟨⟨first, others⟩, Prod.ext read readOthers⟩
end

/-! A variable does not read the blocks its own type's variables live in. -/

section Congr

variable {heap next : Heap}

private theorem elems_congr {type : GoType}
    (same : ∀ address, next.block type address = heap.block type address)
    (header : SliceHeader) :
    next.elems type header = heap.elems type header ∧
      next.cap type header = heap.cap type header := by
  cases based : header.base <;> simp [Heap.elems, Heap.cap, Heap.backing, based, same]

private theorem loadBigInt_congr
    (same : ∀ address, next.block wordType address = heap.block wordType address)
    (cell : BigIntCell) : loadBigInt next cell = loadBigInt heap cell := by
  rw [loadBigInt, loadBigInt, (elems_congr same _).1]

private theorem target_congr {type : GoType}
    (same : ∀ address, next.block type address = heap.block type address) (address : Nat) :
    next.target type address = heap.target type address := by
  rw [Heap.target, Heap.target, same]

mutual
theorem Settled.congr : (type : GoType) →
    (∀ lower, depth lower < depth type →
      ∀ address, next.block lower address = heap.block lower address) →
    (cell : Cell type) → Settled heap type cell →
      Settled next type cell ∧ load next type cell = load heap type cell
  | .uint _, _, _, _ => ⟨trivial, rfl⟩
  | .int _, _, _, _ => ⟨trivial, rfl⟩
  | .bool, _, _, _ => ⟨trivial, rfl⟩
  | .string, _, _, _ => ⟨trivial, rfl⟩
  | .bigInt, same, (cell : BigIntCell), bound => by
      have words := same wordType (by decide)
      refine ⟨?_, loadBigInt_congr words cell⟩
      rw [Settled, (elems_congr words _).2]
      exact bound
  | .number, same, _, ⟨address, rfl, present, bound⟩ => by
      have words := same wordType (by decide)
      have numbers := same .bigInt (by decide)
      refine ⟨⟨address, rfl, ?_, ?_⟩, ?_⟩
      · rw [numbers]
        exact present
      · rw [target_congr numbers, (elems_congr words _).2]
        exact bound
      · rw [load_number_some, load_number_some, target_congr numbers]
        exact congrArg some (loadBigInt_congr words _)
  | .rawValue, same, (header : SliceHeader), bound => by
      have bytes := same .byte (by decide)
      refine ⟨?_, (elems_congr bytes header).1⟩
      rw [Settled, (elems_congr bytes header).2]
      exact bound
  | .slice elem, same, (header : SliceHeader), ⟨bound, settled⟩ => by
      have inner := Settled.congr elem fun lower below =>
        same lower (Nat.lt_succ_of_lt below)
      obtain ⟨elems, cap⟩ := elems_congr (same elem (Nat.lt_succ_self _)) header
      refine ⟨⟨?_, ?_⟩, ?_⟩
      · rw [cap]
        exact bound
      · rw [elems]
        exact fun cell member => (inner cell (settled cell member)).1
      · simp only [load, elems]
        exact List.map_congr_left fun cell member => (inner cell (settled cell member)).2
  | .array _ elem, same, cells, settled => by
      have inner := Settled.congr elem same
      refine ⟨fun cell member => (inner cell (settled cell member)).1, ?_⟩
      exact Subtype.ext (List.map_congr_left fun cell member =>
        (inner cell (settled cell member)).2)
  | .struct fields, same, cells, settled => FieldsSettled.congr fields same cells settled
  | .ptr elem, same, _, ⟨address, rfl, present, settled⟩ => by
      have targets := same elem (Nat.lt_succ_self _)
      obtain ⟨later, read⟩ := Settled.congr elem
        (fun lower below => same lower (Nat.lt_succ_of_lt below)) _ settled
      refine ⟨⟨address, rfl, ?_, ?_⟩, ?_⟩
      · rw [targets]
        exact present
      · rw [target_congr targets]
        exact later
      · rw [load_ptr_some, load_ptr_some, target_congr targets, read]
  | .map key elem, same, entries, settled => by
      have keys := Settled.congr key fun lower below =>
        same lower (Nat.lt_of_lt_of_le below (Nat.le_max_left _ _))
      have values := Settled.congr elem fun lower below =>
        same lower (Nat.lt_of_lt_of_le below (Nat.le_max_right _ _))
      refine ⟨fun entry member => ⟨(keys entry.1 (settled entry member).1).1,
        (values entry.2 (settled entry member).2).1⟩, ?_⟩
      refine List.map_congr_left fun entry member => ?_
      rw [(keys entry.1 (settled entry member).1).2, (values entry.2 (settled entry member).2).2]

theorem FieldsSettled.congr : (fields : Fields) →
    (∀ lower, depth lower < fieldsDepth fields →
      ∀ address, next.block lower address = heap.block lower address) →
    (cells : FieldCells fields) → FieldsSettled heap fields cells →
      FieldsSettled next fields cells ∧
        loadFields next fields cells = loadFields heap fields cells
  | .nil, _, _, _ => ⟨trivial, rfl⟩
  | .cons _ _ type rest, same, cells, settled => by
      obtain ⟨first, read⟩ := Settled.congr type
        (fun lower below => same lower (Nat.lt_of_lt_of_le below (Nat.le_max_left _ _)))
        cells.1 settled.1
      obtain ⟨others, readOthers⟩ := FieldsSettled.congr rest
        (fun lower below => same lower (Nat.lt_of_lt_of_le below (Nat.le_max_right _ _)))
        cells.2 settled.2
      exact ⟨⟨first, others⟩, Prod.ext read readOthers⟩
end

theorem Settled.write {type : GoType} {cell : Cell type} (settled : Settled heap type cell)
    (address : Nat) (cells : List (Cell type)) :
    Settled (heap.write type address cells) type cell ∧
      load (heap.write type address cells) type cell = load heap type cell := by
  refine Settled.congr type (fun lower below position => ?_) cell settled
  apply TypedHeap.block_write_of_ne
  rintro rfl
  exact absurd below (Nat.lt_irrefl _)

end Congr

/-! The order of heaps, and the steps that respect it. -/

section Lists

variable {before : α → β → Prop} {after : β → γ → Prop} {whole : α → γ → Prop}

private theorem forall₂_comp (compose : ∀ x y z, before x y → after y z → whole x z)
    {first : List α} {second : List β} {third : List γ}
    (related : List.Forall₂ before first second) (later : List.Forall₂ after second third) :
    List.Forall₂ whole first third := by
  induction related generalizing third with
  | nil =>
      cases later
      exact .nil
  | cons head _ ih =>
      cases later with
      | cons next rest => exact .cons (compose _ _ _ head next) (ih rest)

private theorem forall₂_set {related : α → β → Prop} {old : List α} {new : List β}
    (relation : List.Forall₂ related old new) (i : Nat) {cell : β}
    (here : ∀ entry, old[i]? = some entry → related entry cell) :
    List.Forall₂ related old (new.set i cell) := by
  induction relation generalizing i with
  | nil => exact .nil
  | cons head tail ih =>
      cases i with
      | zero => exact .cons (here _ rfl) tail
      | succ i => exact .cons head (ih i fun entry found => here entry found)

end Lists

namespace Heap

variable {heap next last : Heap} {type : GoType} {address : Nat} {cell : Cell type}

theorem Keeps.trans (keeps : heap.Keeps next) (later : next.Keeps last) : heap.Keeps last where
  size type := Nat.le_trans (keeps.size type) (later.size type)
  blocks type address inside := by
    refine forall₂_comp ?_ (keeps.blocks type address inside)
      (later.blocks type address (Nat.lt_of_lt_of_le inside (keeps.size type)))
    rintro old middle new (rfl | excepted) second
    · exact second.imp id fun ⟨empty, unsettled⟩ =>
        ⟨empty, fun settled => unsettled (Settled.kept keeps type middle settled).1⟩
    · exact .inr excepted

theorem keeps_alloc (heap : Heap) (type : GoType) (cells : List (Cell type)) :
    heap.Keeps (heap.alloc type cells) where
  size _ := TypedHeap.size_le_alloc
  blocks other address inside := by
    rw [TypedHeap.block_alloc_of_lt inside]
    exact List.forall₂_same.2 fun _ _ => .inl rfl

theorem Keeps.write_new (keeps : heap.Keeps next) (fresh : heap.size type ≤ address)
    (cells : List (Cell type)) : heap.Keeps (next.write type address cells) where
  size other := by
    rw [TypedHeap.size_write]
    exact keeps.size other
  blocks other position inside := by
    rw [TypedHeap.block_write_of_ne]
    · exact keeps.blocks other position inside
    · rintro rfl rfl
      exact Nat.not_lt.2 fresh inside

theorem Keeps.write_entry (keeps : heap.Keeps next) (i : Nat)
    (allowed : ∀ old, (heap.block type address)[i]? = some old →
      cell = old ∨ dataless type = true ∧ ¬Settled heap type old) :
    heap.Keeps (next.write type address ((next.block type address).set i cell)) where
  size other := by
    rw [TypedHeap.size_write]
    exact keeps.size other
  blocks other position inside := by
    by_cases here : other = type ∧ position = address
    · obtain ⟨rfl, rfl⟩ := here
      rw [TypedHeap.block_write_self (Nat.lt_of_lt_of_le inside (keeps.size other))]
      exact forall₂_set (keeps.blocks other position inside) i allowed
    · rw [TypedHeap.block_write_of_ne fun same equal => here ⟨same, equal⟩]
      exact keeps.blocks other position inside

theorem grows_write {cells : List (Cell type)}
    (length : cells.length = (heap.block type address).length) :
    heap.Grows (heap.write type address cells) where
  size other := by rw [TypedHeap.size_write]
  length other position inside := by
    by_cases here : other = type ∧ position = address
    · obtain ⟨rfl, rfl⟩ := here
      rw [TypedHeap.block_write_self inside, length]
    · rw [TypedHeap.block_write_of_ne fun same equal => here ⟨same, equal⟩]

theorem grows_write_entry (heap : Heap) (type : GoType) (address i : Nat) (cell : Cell type) :
    heap.Grows (heap.write type address ((heap.block type address).set i cell)) :=
  grows_write List.length_set

theorem grows_alloc (heap : Heap) (type : GoType) (cells : List (Cell type)) :
    heap.Grows (heap.alloc type cells) :=
  (keeps_alloc heap type cells).grows

end Heap

mutual
theorem Clean.grows {heap next : Heap} (grows : heap.Grows next) :
    (type : GoType) → (cell : Cell type) → Clean heap type cell → Clean next type cell
  | .uint _, _, _ => trivial
  | .int _, _, _ => trivial
  | .bool, _, _ => trivial
  | .string, _, _ => trivial
  | .bigInt, _, clean => clean
  | .number, _, clean => clean
  | .rawValue, _, _ => trivial
  | .slice _, _, clean =>
      clean.imp id fun clean => clean.imp id fun ⟨empty, bound⟩ =>
        ⟨empty, Nat.le_trans bound grows.cap_le⟩
  | .array _ elem, _, clean =>
      fun cell member => Clean.grows grows elem cell (clean cell member)
  | .struct fields, cells, clean => FieldsClean.grows grows fields cells clean
  | .ptr _, _, clean => fun address found =>
      ⟨(clean address found).1, grows.block_ne_nil (clean address found).2⟩
  | .map _ _, _, _ => trivial

theorem FieldsClean.grows {heap next : Heap} (grows : heap.Grows next) :
    (fields : Fields) → (cells : FieldCells fields) → FieldsClean heap fields cells →
      FieldsClean next fields cells
  | .nil, _, _ => trivial
  | .cons _ _ type rest, cells, clean =>
      ⟨Clean.grows grows type cells.1 clean.1, FieldsClean.grows grows rest cells.2 clean.2⟩
end

mutual
theorem clean_zeroCell (heap : Heap) : (type : GoType) → Clean heap type (zeroCell type)
  | .uint _ => trivial
  | .int _ => trivial
  | .bool => trivial
  | .string => trivial
  | .bigInt => rfl
  | .number => rfl
  | .rawValue => trivial
  | .slice _ => .inr (.inl rfl)
  | .array length elem => fun cell member => by
      obtain rfl := List.eq_of_mem_replicate member
      exact clean_zeroCell heap elem
  | .struct fields => clean_zeroFieldCells heap fields
  | .ptr _ => fun _ found => nomatch found
  | .map _ _ => trivial

theorem clean_zeroFieldCells (heap : Heap) :
    (fields : Fields) → FieldsClean heap fields (zeroFieldCells fields)
  | .nil => trivial
  | .cons _ _ type rest => ⟨clean_zeroCell heap type, clean_zeroFieldCells heap rest⟩
end

mutual
theorem reusable_of_dataless : (type : GoType) → dataless type = true → reusable type = true
  | .struct fields, empty => reusableFields_of_dataless fields empty
  | .ptr _, empty => empty

theorem reusableFields_of_dataless :
    (fields : Fields) → datalessFields fields = true → reusableFields fields = true
  | .nil, _ => rfl
  | .cons _ _ type rest, empty => by
      simp only [datalessFields, Bool.and_eq_true] at empty
      simp only [reusableFields, Bool.and_eq_true]
      exact ⟨reusable_of_dataless type empty.1, reusableFields_of_dataless rest empty.2⟩
end

mutual
theorem Settled.clean {heap : Heap} : (type : GoType) → reusable type = true →
    (cell : Cell type) → Settled heap type cell → Clean heap type cell
  | .uint _, _, _, _ => trivial
  | .int _, _, _, _ => trivial
  | .bool, _, _, _ => trivial
  | .string, _, _, _ => trivial
  | .rawValue, _, _, _ => trivial
  | .slice elem, free, header, settled => by
      simp only [reusable, Bool.or_eq_true] at free
      exact free.imp id fun empty => .inr ⟨empty, settled.1⟩
  | .array _ elem, free, _, settled =>
      fun cell member => Settled.clean elem free cell (settled cell member)
  | .struct fields, free, cells, settled => FieldsSettled.clean fields free cells settled
  | .ptr _, empty, _, ⟨address, rfl, present, _⟩ => by
      rintro other found
      cases found
      exact ⟨empty, present⟩
  | .map _ _, _, _, _ => trivial

theorem FieldsSettled.clean {heap : Heap} : (fields : Fields) → reusableFields fields = true →
    (cells : FieldCells fields) → FieldsSettled heap fields cells →
      FieldsClean heap fields cells
  | .nil, _, _, _ => trivial
  | .cons _ _ type rest, free, cells, settled => by
      simp only [reusableFields, Bool.and_eq_true] at free
      exact ⟨Settled.clean type free.1 cells.1 settled.1,
        FieldsSettled.clean rest free.2 cells.2 settled.2⟩
end

namespace Heap

variable {heap : Heap} {type : GoType} {cells : List (Cell type)}

theorem tidy_empty : Tidy .empty := by
  intro type _ address cell member
  cases member

theorem Tidy.alloc (tidy : heap.Tidy)
    (clean : dataless type = true → ∀ cell ∈ cells, Clean heap type cell) :
    Tidy (heap.alloc type cells) := by
  intro other empty address cell member
  have grows := (keeps_alloc heap type cells).grows
  apply Clean.grows grows
  exact TypedHeap.forall_mem_block_alloc
    (fun other _ cell => dataless other = true → Clean heap other cell)
    (fun other address cell member empty => tidy other empty address cell member)
    (fun cell member empty => clean empty cell member) other address cell member empty

theorem Tidy.write_entry (tidy : heap.Tidy) (address i : Nat) {cell : Cell type}
    (clean : dataless type = true → Clean heap type cell) :
    Tidy (heap.write type address ((heap.block type address).set i cell)) := by
  intro other empty position entry member
  apply Clean.grows (grows_write_entry heap type address i cell)
  refine TypedHeap.forall_mem_block_write
    (fun other _ cell => dataless other = true → Clean heap other cell)
    (fun other address cell member empty => tidy other empty address cell member)
    ?_ other position entry member empty
  intro changed found empty
  rcases List.mem_or_eq_of_mem_set found with old | rfl
  · exact tidy type empty address changed old
  · exact clean empty

end Heap

end Bclib.Go
