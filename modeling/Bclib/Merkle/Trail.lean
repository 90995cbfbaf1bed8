import Bclib.Merkle.Proof
import Mathlib.Data.Nat.Log

namespace Bclib.Merkle

open Data

/-! Building the proofs of all leaves at once from nodes that point to each other. -/

/-- A node; its pointers are addresses in the heap. -/
structure SimpleProofNode where
  hash : Slice
  parent : Option Nat
  left : Option Nat
  right : Option Nat
  deriving DecidableEq, Repr

/-- The nodes allocated so far, the address of a node being its place. -/
abbrev Heap := List SimpleProofNode

/-- The loop of `FlattenAunts`; none if it takes more turns. -/
def flattenAunts (heap : Heap) :
    (turns : Nat) → (spn : Option Nat) → (innerHashes : List Slice) → Option (List Slice)
  | 0, _, _ => none
  | _ + 1, none, innerHashes => some innerHashes
  | turns + 1, some spn, innerHashes =>
      heap[spn]?.bind fun node =>
        match node.left, node.right with
        | some left, _ => heap[left]?.bind fun sibling =>
            flattenAunts heap turns node.parent (innerHashes ++ [sibling.hash])
        | none, some right => heap[right]?.bind fun sibling =>
            flattenAunts heap turns node.parent (innerHashes ++ [sibling.hash])
        | none, none => some innerHashes

namespace SimpleProofNode

def setRight (node : SimpleProofNode) (root rightRoot : Nat) : SimpleProofNode :=
  { node with parent := some root, right := some rightRoot }

def setLeft (node : SimpleProofNode) (root leftRoot : Nat) : SimpleProofNode :=
  { node with parent := some root, left := some leftRoot }

end SimpleProofNode

/-- Links the roots of two halves to a new root. -/
def linkRoots (heap : Heap) (leftRoot rightRoot : Nat) (rootHash : Slice) : Heap :=
  ((heap ++ [SimpleProofNode.mk rootHash none none none]).modify leftRoot
    (·.setRight heap.length rightRoot)).modify rightRoot (·.setLeft heap.length leftRoot)

namespace Ripemd160

variable (ripemd160 : Ripemd160)

/-- None is the panic of a `nil` dereference. -/
def trailsFromHashers (hash : α → Slice) (items : List α) (heap : Heap) :
    Option ((List Nat × Option Nat) × Heap) :=
  match items with
  | [] => some (([], none), heap)
  | [item] =>
      some (([heap.length], some heap.length), heap ++ [⟨hash item, none, none, none⟩])
  | first :: second :: rest =>
      (trailsFromHashers hash (firstHalf (first :: second :: rest)) heap).bind
        fun ((lefts, leftRoot), heap) =>
      (trailsFromHashers hash (secondHalf (first :: second :: rest)) heap).bind
        fun ((rights, rightRoot), heap) =>
      leftRoot.bind fun leftRoot => heap[leftRoot]?.bind fun leftNode =>
      rightRoot.bind fun rightRoot => heap[rightRoot]?.bind fun rightNode =>
      some ((lefts ++ rights, some heap.length), linkRoots heap leftRoot rightRoot
        (ripemd160.simpleHashFromTwoHashes leftNode.hash rightNode.hash))
termination_by items.length
decreasing_by
  · rw [length_firstHalf]
    simp only [List.length_cons]
    omega
  · rw [length_secondHalf]
    simp only [List.length_cons]
    omega

def simpleProofsFromHashers (hash : α → Slice) (items : List α) (turns : Nat) :
    Option (Slice × List SimpleProof) :=
  (ripemd160.trailsFromHashers hash items []).bind fun ((trails, rootSPN), heap) =>
  (rootSPN.bind fun root => heap[root]?).bind fun root =>
  (trails.mapM fun trail => (flattenAunts heap turns (some trail) []).map SimpleProof.mk).map
    fun proofs => (root.hash, proofs)

end Ripemd160

def SimpleProofNode.sibling (node : SimpleProofNode) : Option Nat := node.left.or node.right

def Linked (heap : Heap) (address parent : Nat) (hash : Slice) : Prop :=
  ∃ node sibling other, heap[address]? = some node ∧ node.parent = some parent ∧
    node.sibling = some sibling ∧ heap[sibling]? = some other ∧ other.hash = hash

inductive Trail (heap : Heap) (top : Nat) : Nat → List Slice → Prop
  | top : Trail heap top top []
  | next {address parent : Nat} {hash : Slice} {aunts : List Slice}
      (linked : Linked heap address parent hash) (rest : Trail heap top parent aunts) :
      Trail heap top address (hash :: aunts)

theorem Trail.snoc {heap : Heap} {middle top address : Nat} {aunts : List Slice} {hash : Slice}
    (trail : Trail heap middle address aunts) (linked : Linked heap middle top hash) :
    Trail heap top address (aunts ++ [hash]) := by
  induction trail with
  | top => exact .next linked .top
  | next first rest ih => exact .next first ih

def Kept (heap heap' : Heap) : Prop :=
  ∀ (address : Nat) (node : SimpleProofNode), heap[address]? = some node →
    ∃ node', heap'[address]? = some node' ∧ node'.hash = node.hash ∧
      (node.sibling ≠ none → node' = node)

theorem kept_of_old {heap heap' : Heap}
    (old : ∀ address < heap.length, heap'[address]? = heap[address]?) : Kept heap heap' := by
  intro address node present
  obtain ⟨inside, -⟩ := List.getElem?_eq_some_iff.1 present
  exact ⟨node, (old address inside).trans present, rfl, fun _ => rfl⟩

theorem linked_kept {heap heap' : Heap} (kept : Kept heap heap') {address parent : Nat}
    {hash : Slice} (linked : Linked heap address parent hash) :
    Linked heap' address parent hash := by
  obtain ⟨node, sibling, other, present, up, beside, there, hashed⟩ := linked
  obtain ⟨node', present', -, same⟩ := kept address node present
  obtain rfl := same (by rw [beside]; exact Option.some_ne_none _)
  obtain ⟨other', there', hash', -⟩ := kept sibling other there
  exact ⟨node', sibling, other', present', up, beside, there', hash'.trans hashed⟩

theorem Trail.kept {heap heap' : Heap} (kept : Kept heap heap') {top address : Nat}
    {aunts : List Slice} (trail : Trail heap top address aunts) :
    Trail heap' top address aunts := by
  induction trail with
  | top => exact .top
  | next linked _ ih => exact .next (linked_kept kept linked) ih

theorem flattenAunts_of_trail {heap : Heap} {top address : Nat} {aunts : List Slice}
    {hash : Slice} {parent : Option Nat} (trail : Trail heap top address aunts)
    (loose : heap[top]? = some ⟨hash, parent, none, none⟩) {turns : Nat}
    (enough : aunts.length < turns) (innerHashes : List Slice) :
    flattenAunts heap turns (some address) innerHashes = some (innerHashes ++ aunts) := by
  induction trail generalizing turns innerHashes with
  | top =>
      obtain ⟨turns, rfl⟩ := Nat.exists_eq_add_one_of_ne_zero (Nat.ne_zero_of_lt enough)
      simp [flattenAunts, loose]
  | next linked _ ih =>
      obtain ⟨turns, rfl⟩ := Nat.exists_eq_add_one_of_ne_zero (Nat.ne_zero_of_lt enough)
      obtain ⟨node, sibling, other, present, up, beside, there, rfl⟩ := linked
      have rest := ih (Nat.lt_of_succ_lt_succ enough) (innerHashes ++ [other.hash])
      rw [List.append_assoc, List.singleton_append] at rest
      rw [flattenAunts, present, Option.bind_some, up]
      cases leftward : node.left with
      | some left =>
          obtain rfl : left = sibling := by simpa [SimpleProofNode.sibling, leftward] using beside
          simpa [there] using rest
      | none =>
          have rightward : node.right = some sibling := by
            simpa [SimpleProofNode.sibling, leftward] using beside
          simpa [rightward, there] using rest

structure Built (ripemd160 : Ripemd160) (hashes : List Slice) (heap : Heap) (trails : List Nat)
    (root : Nat) (heap' : Heap) : Prop where
  old : ∀ address < heap.length, heap'[address]? = heap[address]?
  fresh : heap.length ≤ root
  loose : heap'[root]? = some ⟨ripemd160.simpleHashFromHashes hashes, none, none, none⟩
  length : trails.length = hashes.length
  trail : ∀ {index address}, trails[index]? = some address →
    Trail heap' root address ((ripemd160.pathTo hashes index).map Prod.snd).reverse

section Linking

variable {heap : Heap} {leftRoot rightRoot : Nat} {leftHash rightHash rootHash : Slice}

theorem getElem?_linkRoots_of_ne {address : Nat} (inside : address < heap.length)
    (left : leftRoot ≠ address) (right : rightRoot ≠ address) :
    (linkRoots heap leftRoot rightRoot rootHash)[address]? = heap[address]? := by
  rw [linkRoots, List.getElem?_modify_ne _ _ right, List.getElem?_modify_ne _ _ left,
    List.getElem?_append_left inside]

theorem getElem?_linkRoots_top (left : leftRoot < heap.length) (right : rightRoot < heap.length) :
    (linkRoots heap leftRoot rightRoot rootHash)[heap.length]? =
      some ⟨rootHash, none, none, none⟩ := by
  rw [linkRoots, List.getElem?_modify_ne _ _ (Nat.ne_of_lt right),
    List.getElem?_modify_ne _ _ (Nat.ne_of_lt left), List.getElem?_concat_length]

theorem getElem?_linkRoots_left
    (left : heap[leftRoot]? = some ⟨leftHash, none, none, none⟩) (apart : leftRoot ≠ rightRoot) :
    (linkRoots heap leftRoot rightRoot rootHash)[leftRoot]? =
      some ⟨leftHash, some heap.length, none, some rightRoot⟩ := by
  have inside := (List.getElem?_eq_some_iff.1 left).1
  rw [linkRoots, List.getElem?_modify_ne _ _ apart.symm, List.getElem?_modify_eq,
    List.getElem?_append_left inside, left]
  rfl

theorem getElem?_linkRoots_right
    (right : heap[rightRoot]? = some ⟨rightHash, none, none, none⟩)
    (apart : leftRoot ≠ rightRoot) :
    (linkRoots heap leftRoot rightRoot rootHash)[rightRoot]? =
      some ⟨rightHash, some heap.length, some leftRoot, none⟩ := by
  have inside := (List.getElem?_eq_some_iff.1 right).1
  rw [linkRoots, List.getElem?_modify_eq, List.getElem?_modify_ne _ _ apart,
    List.getElem?_append_left inside, right]
  rfl

variable (left : heap[leftRoot]? = some ⟨leftHash, none, none, none⟩)
variable (right : heap[rightRoot]? = some ⟨rightHash, none, none, none⟩)
variable (apart : leftRoot ≠ rightRoot)

include left right apart

theorem kept_linkRoots : Kept heap (linkRoots heap leftRoot rightRoot rootHash) := by
  intro address node present
  have inside := (List.getElem?_eq_some_iff.1 present).1
  by_cases atLeft : leftRoot = address
  · subst atLeft
    obtain rfl := Option.some.inj (left.symm.trans present)
    exact ⟨_, getElem?_linkRoots_left left apart, rfl, fun paired => absurd rfl paired⟩
  · by_cases atRight : rightRoot = address
    · subst atRight
      obtain rfl := Option.some.inj (right.symm.trans present)
      exact ⟨_, getElem?_linkRoots_right right apart, rfl, fun paired => absurd rfl paired⟩
    · exact ⟨node, (getElem?_linkRoots_of_ne inside atLeft atRight).trans present, rfl,
        fun _ => rfl⟩

theorem linked_left :
    Linked (linkRoots heap leftRoot rightRoot rootHash) leftRoot heap.length rightHash :=
  ⟨_, rightRoot, _, getElem?_linkRoots_left left apart, rfl, rfl,
    getElem?_linkRoots_right right apart, rfl⟩

theorem linked_right :
    Linked (linkRoots heap leftRoot rightRoot rootHash) rightRoot heap.length leftHash :=
  ⟨_, leftRoot, _, getElem?_linkRoots_right right apart, rfl, rfl,
    getElem?_linkRoots_left left apart, rfl⟩

end Linking

namespace Ripemd160

variable {ripemd160 : Ripemd160}

theorem built_leaf (hash : Slice) (heap : Heap) :
    Built ripemd160 [hash] heap [heap.length] heap.length
      (heap ++ [⟨hash, none, none, none⟩]) where
  old := fun address inside => List.getElem?_append_left inside
  fresh := Nat.le_refl _
  loose := by rw [List.getElem?_concat_length, simpleHashFromHashes_singleton]
  length := rfl
  trail := by
    intro index address present
    rw [List.getElem?_singleton] at present
    split at present
    · cases present
      rw [pathTo_singleton]
      exact .top
    · cases present

theorem built_halves {hashes : List Slice} (several : 2 ≤ hashes.length)
    {heap heapLeft heapRight : Heap} {lefts rights : List Nat} {leftRoot rightRoot : Nat}
    (left : Built ripemd160 (firstHalf hashes) heap lefts leftRoot heapLeft)
    (right : Built ripemd160 (secondHalf hashes) heapLeft rights rightRoot heapRight) :
    Built ripemd160 hashes heap (lefts ++ rights) heapRight.length
      (linkRoots heapRight leftRoot rightRoot (ripemd160.simpleHashFromHashes hashes)) := by
  have leftInside := (List.getElem?_eq_some_iff.1 left.loose).1
  have rightInside := (List.getElem?_eq_some_iff.1 right.loose).1
  have leftLoose := (right.old leftRoot leftInside).trans left.loose
  have apart : leftRoot ≠ rightRoot := Nat.ne_of_lt (Nat.lt_of_lt_of_le leftInside right.fresh)
  have kept : Kept heapRight
      (linkRoots heapRight leftRoot rightRoot (ripemd160.simpleHashFromHashes hashes)) :=
    kept_linkRoots leftLoose right.loose apart
  have fresh := left.fresh
  have after := right.fresh
  refine ⟨?_, ?_, ?_, ?_, ?_⟩
  · intro address inside
    rw [getElem?_linkRoots_of_ne (by omega) (by omega) (by omega),
      right.old address (by omega), left.old address inside]
  · omega
  · exact getElem?_linkRoots_top (by omega) rightInside
  · rw [List.length_append, left.length, right.length, ← List.length_append, halves_append]
  · intro index address present
    have size := left.length
    rw [length_firstHalf] at size
    rcases Nat.lt_or_ge index ((hashes.length + 1) / 2) with before | behind
    · rw [List.getElem?_append_left (size ▸ before)] at present
      rw [pathTo_left several before, List.map_cons, List.reverse_cons]
      have inner := (left.trail present).kept (kept_of_old right.old)
      exact (inner.kept kept).snoc (linked_left leftLoose right.loose apart)
    · rw [List.getElem?_append_right (size ▸ behind), size] at present
      rw [pathTo_right several behind, List.map_cons, List.reverse_cons]
      exact ((right.trail present).kept kept).snoc (linked_right leftLoose right.loose apart)

theorem trailsFromHashers_halves {hash : α → Slice} {items : List α} (several : 2 ≤ items.length)
    {heap heapLeft heapRight : Heap} {lefts rights : List Nat} {leftRoot rightRoot : Nat}
    {leftNode rightNode : SimpleProofNode}
    (left : ripemd160.trailsFromHashers hash (firstHalf items) heap =
      some ((lefts, some leftRoot), heapLeft))
    (right : ripemd160.trailsFromHashers hash (secondHalf items) heapLeft =
      some ((rights, some rightRoot), heapRight))
    (leftThere : heapRight[leftRoot]? = some leftNode)
    (rightThere : heapRight[rightRoot]? = some rightNode) :
    ripemd160.trailsFromHashers hash items heap =
      some ((lefts ++ rights, some heapRight.length), linkRoots heapRight leftRoot rightRoot
        (ripemd160.simpleHashFromTwoHashes leftNode.hash rightNode.hash)) := by
  cases items with
  | nil => cases several
  | cons first rest =>
      cases rest with
      | nil => exact absurd several (by simp)
      | cons second rest =>
          rw [trailsFromHashers]
          simp only [left, right, Option.bind_some, leftThere, rightThere]

theorem built_trails (hash : α → Slice) {items : List α} (nonempty : items ≠ []) (heap : Heap) :
    ∃ trails root heap', ripemd160.trailsFromHashers hash items heap =
        some ((trails, some root), heap') ∧
      Built ripemd160 (items.map hash) heap trails root heap' := by
  induction items using halving generalizing heap with
  | none => exact absurd rfl nonempty
  | one item => exact ⟨_, _, _, by rw [trailsFromHashers], built_leaf (hash item) heap⟩
  | halves items several left right =>
      have leftLength := length_firstHalf items
      have rightLength := length_secondHalf items
      obtain ⟨lefts, leftRoot, heapLeft, leftTrails, leftBuilt⟩ :=
        left (List.ne_nil_of_length_pos (by omega)) heap
      obtain ⟨rights, rightRoot, heapRight, rightTrails, rightBuilt⟩ :=
        right (List.ne_nil_of_length_pos (by omega)) heapLeft
      rw [map_firstHalf] at leftBuilt
      rw [map_secondHalf] at rightBuilt
      have leftInside := (List.getElem?_eq_some_iff.1 leftBuilt.loose).1
      have leftThere := (rightBuilt.old leftRoot leftInside).trans leftBuilt.loose
      have severalHashes : 2 ≤ (items.map hash).length := by rwa [List.length_map]
      have trails := trailsFromHashers_halves several leftTrails rightTrails leftThere
        rightBuilt.loose
      rw [← simpleHashFromHashes_halves _ severalHashes] at trails
      exact ⟨_, _, _, trails, built_halves severalHashes leftBuilt rightBuilt⟩

theorem length_pathTo_le (ripemd160 : Ripemd160) (hashes : List Slice) (index : Nat) :
    (ripemd160.pathTo hashes index).length ≤ Nat.clog 2 hashes.length := by
  induction hashes using halving generalizing index with
  | none => rw [pathTo_nil]; exact Nat.zero_le _
  | one hash => rw [pathTo_singleton]; exact Nat.zero_le _
  | halves hashes several left right =>
      have half : Nat.clog 2 hashes.length = Nat.clog 2 ((hashes.length + 1) / 2) + 1 :=
        Nat.clog_of_two_le (by decide) several
      rw [half]
      rcases Nat.lt_or_ge index ((hashes.length + 1) / 2) with before | behind
      · rw [pathTo_left several before, List.length_cons]
        have lower := left index
        rw [length_firstHalf] at lower
        omega
      · rw [pathTo_right several behind, List.length_cons]
        have lower := right (index - (hashes.length + 1) / 2)
        rw [length_secondHalf] at lower
        have fewer := Nat.clog_mono_right 2
          (show hashes.length - (hashes.length + 1) / 2 ≤ (hashes.length + 1) / 2 by omega)
        omega

theorem mapM_of_getElem? {f : α → Option β} {entries : List α} {g : Nat → β}
    (each : ∀ {index entry}, entries[index]? = some entry → f entry = some (g index)) :
    entries.mapM f = some ((List.range entries.length).map g) := by
  induction entries generalizing g with
  | nil => rfl
  | cons entry entries ih =>
      have first : f entry = some (g 0) := each rfl
      have rest := ih fun {index entry} present => @each (index + 1) entry present
      rw [List.mapM_cons, first, rest, List.length_cons, List.range_succ_eq_map, List.map_cons,
        List.map_map]
      rfl

theorem mapM_flattenAunts {hashes : List Slice} {trails : List Nat} {root : Nat} {heap : Heap}
    (built : Built ripemd160 hashes [] trails root heap) {turns : Nat}
    (enough : Nat.clog 2 hashes.length < turns) :
    (trails.mapM fun trail => (flattenAunts heap turns (some trail) []).map SimpleProof.mk) =
      some ((List.range hashes.length).map fun index =>
        proofAlong (ripemd160.pathTo hashes index)) := by
  rw [← built.length]
  refine mapM_of_getElem? fun {index address} present => ?_
  have short := Nat.lt_of_le_of_lt (ripemd160.length_pathTo_le hashes index) enough
  rw [← length_proofAlong] at short
  rw [flattenAunts_of_trail (built.trail present) built.loose short []]
  rfl

theorem simpleProofsFromHashers_eq (hash : α → Slice) {items : List α} (nonempty : items ≠ [])
    {turns : Nat} (enough : Nat.clog 2 items.length < turns) :
    ripemd160.simpleProofsFromHashers hash items turns =
      some (ripemd160.simpleHashFromHashers hash items, (List.range items.length).map fun index =>
        proofAlong (ripemd160.pathTo (items.map hash) index)) := by
  obtain ⟨trails, root, heap, recursion, built⟩ := @built_trails ripemd160 _ hash items nonempty []
  have length : (items.map hash).length = items.length := List.length_map hash
  have flat := mapM_flattenAunts built (length.symm ▸ enough)
  rw [length] at flat
  rw [simpleProofsFromHashers, recursion]
  simp only [Option.bind_some, built.loose, flat, Option.map_some, simpleHashFromHashers]

/-- The proofs made of all items of a tree lead to the hash of the items, are not longer than
the tree is high, and verify for their own items unless the item's hash is `nil`. -/
theorem proofs_verify (hash : α → Slice) {items : List α} (nonempty : items ≠ [])
    (small : items.length < 2 ^ 63 - 1) {turns : Nat} (enough : Nat.clog 2 items.length < turns) :
    ∃ proofs, ripemd160.simpleProofsFromHashers hash items turns =
        some (ripemd160.simpleHashFromHashers hash items, proofs) ∧
      proofs.length = items.length ∧
      ∀ {index : Nat} {item : α}, items[index]? = some item → ∃ sp, proofs[index]? = some sp ∧
        sp.aunts.length ≤ Nat.clog 2 items.length ∧
        (ripemd160.verify sp index items.length (hash item)
          (ripemd160.simpleHashFromHashers hash items) = true ↔ hash item ≠ none) := by
  refine ⟨_, simpleProofsFromHashers_eq hash nonempty enough, ?_, ?_⟩
  · rw [List.length_map, List.length_range]
  · intro index item present
    have length : (items.map hash).length = items.length := List.length_map hash
    have inside := (List.getElem?_eq_some_iff.1 present).1
    have own : (items.map hash)[index]? = some (hash item) := by
      rw [List.getElem?_map, present]
      rfl
    refine ⟨_, by rw [List.getElem?_map, List.getElem?_range inside]; rfl, ?_, ?_⟩
    · rw [length_proofAlong, ← length]
      exact length_pathTo_le _ _ _
    · rw [← length]
      exact verify_pathTo (length.symm ▸ small) own

theorem proofs_verify_sample :
    ∃ proofs, sampleDigests.simpleProofsFromHashers id [some [1], some [2], none] 3 =
        some (sampleDigests.simpleHashFromHashers id [some [1], some [2], none], proofs) ∧
      proofs.length = 3 ∧
      ∀ {index : Nat} {item : Slice}, [some [1], some [2], none][index]? = some item →
        ∃ sp, proofs[index]? = some sp ∧ sp.aunts.length ≤ Nat.clog 2 3 ∧
          (sampleDigests.verify sp index (3 : Nat) item
            (sampleDigests.simpleHashFromHashers id [some [1], some [2], none]) = true ↔
              item ≠ none) :=
  @proofs_verify sampleDigests _ id [some [1], some [2], none] (by decide) (by decide) 3
    (by decide)

end Ripemd160

end Bclib.Merkle
