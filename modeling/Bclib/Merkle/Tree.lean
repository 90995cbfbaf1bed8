import Bclib.Data.HashPath
import Bclib.Data.Varint
import Bclib.Go.Strings

namespace Bclib.Merkle

open Data
open Go

/-! The hash of a list of hashes as the root of a tree that is cut in halves, and the way from
each of its leaves to the root. -/

/-- A byte slice; none is `nil`. -/
abbrev Slice := Option (List Byte)

namespace Slice

def content (slice : Slice) : List Byte := slice.getD []

/-- `bytes.Equal`, to which `nil` is empty. -/
def equal (left right : Slice) : Bool := left.content == right.content

@[simp] theorem content_some (bytes : List Byte) : content (some bytes) = bytes := rfl

end Slice

def encodeUvarint (i : Nat) : List Byte := Varint.putUvarint 9 i

def encodeByteSlice (bz : List Byte) : List Byte := encodeUvarint bz.length ++ bz

/-- Lengths are at most the largest `int`. -/
def Sized (bz : List Byte) : Prop := bz.length < 2 ^ 63

instance (bz : List Byte) : Decidable (Sized bz) := inferInstanceAs (Decidable (_ < _))

theorem encodeByteSlice_append_injective {left left' rest rest' : List Byte} (sized : Sized left)
    (sized' : Sized left')
    (same : encodeByteSlice left ++ rest = encodeByteSlice left' ++ rest') :
    left = left' ∧ rest = rest' := by
  have read : ∀ {bz : List Byte}, Sized bz → ∀ tail,
      Varint.readUvarint 10 0 0 (encodeByteSlice bz ++ tail) = .ok (bz.length, bz ++ tail) := by
    intro bz short tail
    have small : bz.length < 2 * 128 ^ 9 := Nat.lt_trans short (by decide)
    have number := Varint.readUvarint_putUvarint small 0 0 (bz ++ tail)
    rw [Nat.pow_zero, Nat.mul_one, Nat.zero_add] at number
    rw [encodeByteSlice, encodeUvarint, List.append_assoc]
    exact number
  have first := read sized rest
  rw [same, read sized' rest'] at first
  injection first with first
  obtain ⟨lengths, tails⟩ := Prod.mk.injEq _ _ _ _ ▸ first
  exact List.append_inj tails.symm lengths.symm

structure Ripemd160 where
  sum : List Byte → List Byte
  length_sum : ∀ input, (sum input).length = 20

def halfDigest : List Byte :=
  lowBytes 20 0x788c8443569958dc906425a5a3c3d42464842774

def rootDigest : List Byte :=
  lowBytes 20 0x6eecaac14b990eae3045b9700355bbfe25c397e6

/-- RIPEMD-160 on the two texts of the tree over `01`, `02` and `nil`; nothing else is asked
for. -/
def sampleDigests : Ripemd160 where
  sum text := if text = [1, 1, 1, 2] then halfDigest else rootDigest
  length_sum := by
    intro text
    split_ifs
    · rfl
    · rfl

def twoHashes (left right : List Byte) : List Byte := encodeByteSlice left ++ encodeByteSlice right

theorem twoHashes_injective {left right left' right' : List Byte} (sized : Sized left)
    (sizedRight : Sized right) (sized' : Sized left') (sizedRight' : Sized right')
    (same : twoHashes left right = twoHashes left' right') : left = left' ∧ right = right' := by
  obtain ⟨lefts, rights⟩ := encodeByteSlice_append_injective sized sized' same
  rw [← List.append_nil (encodeByteSlice right), ← List.append_nil (encodeByteSlice right')]
    at rights
  exact ⟨lefts, (encodeByteSlice_append_injective sizedRight sizedRight' rights).1⟩

namespace Ripemd160

def scheme (ripemd160 : Ripemd160) : HashScheme (List Byte) (List Byte) where
  digest := ripemd160.sum
  input := twoHashes
  Plain := Sized
  plain_digest := fun text => by
    rw [Sized, ripemd160.length_sum]
    decide
  input_injective := twoHashes_injective

variable (ripemd160 : Ripemd160)

def simpleHashFromTwoHashes (left right : Slice) : Slice :=
  some (ripemd160.sum (twoHashes left.content right.content))

end Ripemd160

/-- `items[:(len(items)+1)/2]`. -/
def firstHalf (items : List α) : List α := items.take ((items.length + 1) / 2)

/-- `items[(len(items)+1)/2:]`. -/
def secondHalf (items : List α) : List α := items.drop ((items.length + 1) / 2)

section Halves

variable {items : List α}

theorem length_firstHalf (items : List α) : (firstHalf items).length = (items.length + 1) / 2 := by
  rw [firstHalf, List.length_take]
  omega

theorem length_secondHalf (items : List α) :
    (secondHalf items).length = items.length - (items.length + 1) / 2 := by
  rw [secondHalf, List.length_drop]

theorem halves_append (items : List α) : firstHalf items ++ secondHalf items = items :=
  List.take_append_drop _ _

theorem map_firstHalf (f : α → β) (items : List α) :
    (firstHalf items).map f = firstHalf (items.map f) := by
  rw [firstHalf, firstHalf, List.map_take, List.length_map]

theorem map_secondHalf (f : α → β) (items : List α) :
    (secondHalf items).map f = secondHalf (items.map f) := by
  rw [secondHalf, secondHalf, List.map_drop, List.length_map]

theorem getElem?_firstHalf {index : Nat} (before : index < (items.length + 1) / 2) :
    (firstHalf items)[index]? = items[index]? := by
  rw [firstHalf, List.getElem?_take_of_lt before]

theorem getElem?_secondHalf {index : Nat} (behind : (items.length + 1) / 2 ≤ index) :
    (secondHalf items)[index - (items.length + 1) / 2]? = items[index]? := by
  rw [secondHalf, List.getElem?_drop, Nat.add_sub_cancel' behind]

theorem halving {motive : List α → Prop} (none : motive []) (one : ∀ item, motive [item])
    (halves : ∀ items : List α, 2 ≤ items.length → motive (firstHalf items) →
      motive (secondHalf items) → motive items) (items : List α) : motive items := by
  induction size : items.length using Nat.strongRecOn generalizing items with
  | ind size ih =>
      cases items with
      | nil => exact none
      | cons item rest =>
          cases rest with
          | nil => exact one item
          | cons second rest =>
              have several : 2 ≤ (item :: second :: rest).length := by simp
              refine halves _ several (ih _ ?_ _ rfl) (ih _ ?_ _ rfl)
              · rw [length_firstHalf]
                omega
              · rw [length_secondHalf]
                omega

end Halves

namespace Ripemd160

variable (ripemd160 : Ripemd160)

def simpleHashFromHashes (hashes : List Slice) : Slice :=
  match hashes with
  | [] => none
  | [hash] => hash
  | first :: second :: rest =>
      ripemd160.simpleHashFromTwoHashes
        (simpleHashFromHashes (firstHalf (first :: second :: rest)))
        (simpleHashFromHashes (secondHalf (first :: second :: rest)))
termination_by hashes.length
decreasing_by
  · rw [length_firstHalf]
    simp only [List.length_cons]
    omega
  · rw [length_secondHalf]
    simp only [List.length_cons]
    omega

@[simp] theorem simpleHashFromHashes_nil : ripemd160.simpleHashFromHashes [] = none := by
  rw [simpleHashFromHashes]

@[simp] theorem simpleHashFromHashes_singleton (hash : Slice) :
    ripemd160.simpleHashFromHashes [hash] = hash := by
  rw [simpleHashFromHashes]

theorem simpleHashFromHashes_halves {hashes : List Slice} (several : 2 ≤ hashes.length) :
    ripemd160.simpleHashFromHashes hashes = ripemd160.simpleHashFromTwoHashes
      (ripemd160.simpleHashFromHashes (firstHalf hashes))
      (ripemd160.simpleHashFromHashes (secondHalf hashes)) := by
  cases hashes with
  | nil => cases several
  | cons first rest =>
      cases rest with
      | nil => exact absurd several (by simp)
      | cons second rest => rw [simpleHashFromHashes]

def simpleHashFromHashers (hash : α → Slice) (items : List α) : Slice :=
  ripemd160.simpleHashFromHashes (items.map hash)

/-- The way from the root down to a leaf: on which side it goes on, and the hash on the other
side. -/
def pathTo (hashes : List Slice) (index : Nat) : List (Side × Slice) :=
  if 2 ≤ hashes.length then
    if index < (hashes.length + 1) / 2 then
      (.left, ripemd160.simpleHashFromHashes (secondHalf hashes)) ::
        pathTo (firstHalf hashes) index
    else
      (.right, ripemd160.simpleHashFromHashes (firstHalf hashes)) ::
        pathTo (secondHalf hashes) (index - (hashes.length + 1) / 2)
  else []
termination_by hashes.length
decreasing_by
  · rw [length_firstHalf]
    omega
  · rw [length_secondHalf]
    omega

variable {ripemd160}

@[simp] theorem pathTo_nil (index : Nat) : ripemd160.pathTo [] index = [] := by
  rw [pathTo, if_neg (by simp)]

@[simp] theorem pathTo_singleton (hash : Slice) (index : Nat) :
    ripemd160.pathTo [hash] index = [] := by
  rw [pathTo, if_neg (by simp)]

theorem pathTo_left {hashes : List Slice} (several : 2 ≤ hashes.length) {index : Nat}
    (before : index < (hashes.length + 1) / 2) :
    ripemd160.pathTo hashes index =
      (.left, ripemd160.simpleHashFromHashes (secondHalf hashes)) ::
        ripemd160.pathTo (firstHalf hashes) index := by
  rw [pathTo, if_pos several, if_pos before]

theorem pathTo_right {hashes : List Slice} (several : 2 ≤ hashes.length) {index : Nat}
    (behind : (hashes.length + 1) / 2 ≤ index) :
    ripemd160.pathTo hashes index =
      (.right, ripemd160.simpleHashFromHashes (firstHalf hashes)) ::
        ripemd160.pathTo (secondHalf hashes) (index - (hashes.length + 1) / 2) := by
  rw [pathTo, if_pos several, if_neg (Nat.not_lt.2 behind)]

end Ripemd160

def contents (path : List (Side × Slice)) : List (Side × List Byte) :=
  path.map (Prod.map id Slice.content)

namespace Ripemd160

variable {ripemd160 : Ripemd160}

theorem climb_pathTo {hashes : List Slice} {index : Nat} {hash : Slice}
    (present : hashes[index]? = some hash) :
    (ripemd160.simpleHashFromHashes hashes).content =
      ripemd160.scheme.climb hash.content (contents (ripemd160.pathTo hashes index)) := by
  induction hashes using halving generalizing index with
  | none => cases present
  | one single =>
      rw [List.getElem?_singleton] at present
      split at present
      · cases present
        rw [simpleHashFromHashes_singleton, pathTo_singleton]
        rfl
      · cases present
  | halves hashes several left right =>
      rw [simpleHashFromHashes_halves _ several, simpleHashFromTwoHashes]
      by_cases before : index < (hashes.length + 1) / 2
      · rw [← getElem?_firstHalf before] at present
        rw [pathTo_left several before, left present]
        rfl
      · have behind := Nat.le_of_not_lt before
        rw [← getElem?_secondHalf behind] at present
        rw [pathTo_right several behind, right present]
        rfl

def rootText (ripemd160 : Ripemd160) (hashes : List Slice) : List Byte :=
  twoHashes (ripemd160.simpleHashFromHashes (firstHalf hashes)).content
    (ripemd160.simpleHashFromHashes (secondHalf hashes)).content

def hashedTexts (ripemd160 : Ripemd160) (hashes : List Slice) : List (List Byte) :=
  if 2 ≤ hashes.length then
    ripemd160.rootText hashes ::
      (hashedTexts ripemd160 (firstHalf hashes) ++ hashedTexts ripemd160 (secondHalf hashes))
  else []
termination_by hashes.length
decreasing_by
  · rw [length_firstHalf]
    omega
  · rw [length_secondHalf]
    omega

theorem hashedTexts_halves {hashes : List Slice} (several : 2 ≤ hashes.length) :
    ripemd160.hashedTexts hashes = ripemd160.rootText hashes ::
      (ripemd160.hashedTexts (firstHalf hashes) ++
        ripemd160.hashedTexts (secondHalf hashes)) := by
  rw [hashedTexts, if_pos several]

theorem sized_simpleHashFromHashes {hashes : List Slice}
    (sized : ∀ hash ∈ hashes, Sized hash.content) :
    Sized (ripemd160.simpleHashFromHashes hashes).content := by
  by_cases several : 2 ≤ hashes.length
  · rw [simpleHashFromHashes_halves _ several]
    exact ripemd160.scheme.plain_digest _
  · cases hashes with
    | nil =>
        rw [simpleHashFromHashes_nil]
        decide
    | cons hash rest =>
        obtain rfl : rest = [] := List.eq_nil_of_length_eq_zero (by
          rw [List.length_cons] at several
          omega)
        rw [simpleHashFromHashes_singleton]
        exact sized hash List.mem_cons_self

/-- Two lists of one length with the same root are the same, or different texts among those
hashed for the roots have one digest. -/
theorem root_binding {hashes hashes' : List Slice} (length : hashes.length = hashes'.length)
    (sized : ∀ hash ∈ hashes, Sized hash.content)
    (sized' : ∀ hash ∈ hashes', Sized hash.content)
    (root : (ripemd160.simpleHashFromHashes hashes).content =
      (ripemd160.simpleHashFromHashes hashes').content) :
    hashes.map Slice.content = hashes'.map Slice.content ∨
      ripemd160.scheme.Collide (ripemd160.hashedTexts hashes)
        (ripemd160.hashedTexts hashes') := by
  induction hashes using halving generalizing hashes' with
  | none =>
      rw [List.eq_nil_of_length_eq_zero length.symm]
      exact .inl rfl
  | one hash =>
      obtain ⟨hash', rfl⟩ := List.length_eq_one_iff.1 length.symm
      rw [simpleHashFromHashes_singleton, simpleHashFromHashes_singleton] at root
      exact .inl (by rw [List.map_singleton, List.map_singleton, root])
  | halves hashes several left right =>
      have several' : 2 ≤ hashes'.length := length ▸ several
      have firsts : ∀ {hashes : List Slice}, (∀ hash ∈ hashes, Sized hash.content) →
          ∀ hash ∈ firstHalf hashes, Sized hash.content :=
        fun all hash member => all hash (List.mem_of_mem_take member)
      have seconds : ∀ {hashes : List Slice}, (∀ hash ∈ hashes, Sized hash.content) →
          ∀ hash ∈ secondHalf hashes, Sized hash.content :=
        fun all hash member => all hash (List.mem_of_mem_drop member)
      rw [hashedTexts_halves several, hashedTexts_halves several']
      rw [simpleHashFromHashes_halves _ several, simpleHashFromHashes_halves _ several'] at root
      by_cases texts : ripemd160.rootText hashes = ripemd160.rootText hashes'
      · obtain ⟨leftRoots, rightRoots⟩ := twoHashes_injective
          (sized_simpleHashFromHashes (firsts sized)) (sized_simpleHashFromHashes (seconds sized))
          (sized_simpleHashFromHashes (firsts sized')) (sized_simpleHashFromHashes (seconds sized'))
          texts
        rcases left (by rw [length_firstHalf, length_firstHalf, length]) (firsts sized)
          (firsts sized') leftRoots with leftSame | clash
        · rcases right (by rw [length_secondHalf, length_secondHalf, length]) (seconds sized)
            (seconds sized') rightRoots with rightSame | clash
          · refine .inl ?_
            rw [← halves_append hashes, ← halves_append hashes', List.map_append,
              List.map_append, leftSame, rightSame]
          · exact .inr (clash.mono (List.subset_cons_of_subset _ (List.subset_append_right _ _))
              (List.subset_cons_of_subset _ (List.subset_append_right _ _)))
        · exact .inr (clash.mono (List.subset_cons_of_subset _ (List.subset_append_left _ _))
            (List.subset_cons_of_subset _ (List.subset_append_left _ _)))
      · exact .inr ⟨_, List.mem_cons_self, _, List.mem_cons_self, texts, root⟩

theorem root_binding_sample :
    [some [1], some [2], none].map Slice.content =
        [some [1], some [2], some []].map Slice.content ∨
      sampleDigests.scheme.Collide (sampleDigests.hashedTexts [some [1], some [2], none])
        (sampleDigests.hashedTexts [some [1], some [2], some []]) := by
  refine root_binding rfl (by decide) (by decide) ?_
  have root : ∀ first second last : Slice,
      sampleDigests.simpleHashFromHashes [first, second, last] =
        sampleDigests.simpleHashFromTwoHashes
          (sampleDigests.simpleHashFromTwoHashes first second) last := by
    intro first second last
    have three : 2 ≤ [first, second, last].length := Nat.le_succ 2
    have two : 2 ≤ [first, second].length := Nat.le_refl 2
    rw [simpleHashFromHashes_halves _ three]
    simp [firstHalf, secondHalf, simpleHashFromHashes_halves _ two]
  rw [root, root]
  rfl

end Ripemd160

end Bclib.Merkle
