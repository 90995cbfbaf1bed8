import Bclib.Merkle.Tree

namespace Bclib.Merkle

open Data

/-! Verifying that a hash is the leaf at some index of a tree of so many leaves. -/

/-- The `int` a number wraps to. -/
def int64 (number : Int) : Int := number.bmod (2 ^ 64)

theorem int64_of_small {number : Int} (low : -2 ^ 63 ≤ number) (high : number < 2 ^ 63) :
    int64 number = number := by
  rw [int64, Int.bmod_eq_of_le (by omega) (by omega)]

/-- `(total + 1) / 2`. -/
def numLeft (total : Int) : Int := (int64 (total + 1)).tdiv 2

theorem numLeft_natCast {total : Nat} (small : total < 2 ^ 63 - 1) :
    numLeft total = ((total + 1) / 2 : Nat) := by
  rw [numLeft, int64_of_small (by omega) (by omega), Int.tdiv_eq_ediv_of_nonneg (by omega)]
  omega

structure SimpleProof where
  aunts : List Slice
  deriving DecidableEq, Repr

namespace Ripemd160

variable (ripemd160 : Ripemd160)

/-- `computeHashFromAunts` on the hashes from the last one, the child of the root, to the
first. -/
def computeHashFromLast (index total : Int) (leafHash : Slice) : List Slice → Slice
  | [] =>
      if total ≤ index ∨ index < 0 ∨ total ≤ 0 then none
      else if total = 1 then leafHash
      else none
  | last :: others =>
      if total ≤ index ∨ index < 0 ∨ total ≤ 0 then none
      else if total = 1 then none
      else if index < numLeft total then
        match computeHashFromLast index (numLeft total) leafHash others with
        | none => none
        | some leftHash => ripemd160.simpleHashFromTwoHashes (some leftHash) last
      else
        match computeHashFromLast (int64 (index - numLeft total)) (int64 (total - numLeft total))
          leafHash others with
        | none => none
        | some rightHash => ripemd160.simpleHashFromTwoHashes last (some rightHash)

def computeHashFromAunts (index total : Int) (leafHash : Slice) (innerHashes : List Slice) :
    Slice :=
  ripemd160.computeHashFromLast index total leafHash innerHashes.reverse

def verify (sp : SimpleProof) (index total : Int) (leafHash rootHash : Slice) : Bool :=
  let computedHash := ripemd160.computeHashFromAunts index total leafHash sp.aunts
  computedHash ≠ none && computedHash.equal rootHash

end Ripemd160

def turns : (levels : Nat) → (index total : Int) → Option (List Side)
  | 0, index, total =>
      if total ≤ index ∨ index < 0 ∨ total ≤ 0 then none
      else if total = 1 then some []
      else none
  | levels + 1, index, total =>
      if total ≤ index ∨ index < 0 ∨ total ≤ 0 then none
      else if total = 1 then none
      else if index < numLeft total then (turns levels index (numLeft total)).map (.left :: ·)
      else (turns levels (int64 (index - numLeft total)) (int64 (total - numLeft total))).map
        (.right :: ·)

theorem length_of_turns {levels : Nat} {index total : Int} {sides : List Side}
    (way : turns levels index total = some sides) : sides.length = levels := by
  induction levels generalizing index total sides with
  | zero =>
      rw [turns] at way
      split_ifs at way
      cases way
      rfl
  | succ levels ih =>
      rw [turns] at way
      split_ifs at way
      · obtain ⟨rest, deeper, rfl⟩ := Option.map_eq_some_iff.1 way
        rw [List.length_cons, ih deeper]
      · obtain ⟨rest, deeper, rfl⟩ := Option.map_eq_some_iff.1 way
        rw [List.length_cons, ih deeper]

theorem turns_unique {levels levels' : Nat} {index total : Int} {sides sides' : List Side}
    (way : turns levels index total = some sides) (way' : turns levels' index total = some sides') :
    sides = sides' := by
  induction levels generalizing levels' index total sides sides' with
  | zero =>
      cases levels' with
      | zero => exact Option.some.inj (way.symm.trans way')
      | succ levels' =>
          simp only [turns] at way way'
          split_ifs at way way'
  | succ levels ih =>
      cases levels' with
      | zero =>
          simp only [turns] at way way'
          split_ifs at way way'
      | succ levels' =>
          simp only [turns] at way way'
          split_ifs at way way'
          · obtain ⟨rest, deeper, rfl⟩ := Option.map_eq_some_iff.1 way
            obtain ⟨rest', deeper', rfl⟩ := Option.map_eq_some_iff.1 way'
            rw [ih deeper deeper']
          · obtain ⟨rest, deeper, rfl⟩ := Option.map_eq_some_iff.1 way
            obtain ⟨rest', deeper', rfl⟩ := Option.map_eq_some_iff.1 way'
            rw [ih deeper deeper']

theorem turns_left {levels total index : Nat} (small : total < 2 ^ 63 - 1) (several : 2 ≤ total)
    (before : index < (total + 1) / 2) :
    turns (levels + 1) index total =
      (turns levels index ((total + 1) / 2 : Nat)).map (.left :: ·) := by
  rw [turns, if_neg (by omega), if_neg (by omega), numLeft_natCast small, if_pos (by omega)]

theorem turns_right {levels total index : Nat} (small : total < 2 ^ 63 - 1) (several : 2 ≤ total)
    (behind : (total + 1) / 2 ≤ index) (inside : index < total) :
    turns (levels + 1) index total =
      (turns levels (index - (total + 1) / 2 : Nat) (total - (total + 1) / 2 : Nat)).map
        (.right :: ·) := by
  rw [turns, if_neg (by omega), if_neg (by omega), numLeft_natCast small, if_neg (by omega),
    int64_of_small (by omega) (by omega), int64_of_small (by omega) (by omega),
    Int.ofNat_sub behind, Int.ofNat_sub (by omega)]

namespace Ripemd160

variable {ripemd160 : Ripemd160}

theorem turns_pathTo {hashes : List Slice} (small : hashes.length < 2 ^ 63 - 1) {index : Nat}
    (inside : index < hashes.length) :
    turns (ripemd160.pathTo hashes index).length index hashes.length =
      some ((ripemd160.pathTo hashes index).map Prod.fst) := by
  induction hashes using halving generalizing index with
  | none => cases inside
  | one hash =>
      rw [pathTo_singleton]
      obtain rfl : index = 0 := by simpa using inside
      rfl
  | halves hashes several left right =>
      rcases Nat.lt_or_ge index ((hashes.length + 1) / 2) with before | behind
      · have half := length_firstHalf hashes
        have deeper := left (by omega) (half ▸ before)
        rw [half] at deeper
        rw [pathTo_left several before, List.length_cons, turns_left small several before, deeper]
        rfl
      · have half := length_secondHalf hashes
        have deeper := @right (by omega) (index - (hashes.length + 1) / 2) (by omega)
        rw [half] at deeper
        rw [pathTo_right several behind, List.length_cons,
          turns_right small several behind inside, deeper]
        rfl

/-- What the verification computes is the climb along the sides to the leaf. -/
theorem computeHashFromLast_eq (index total : Int) (leafHash : Slice) (inner : List Slice) :
    ripemd160.computeHashFromLast index total leafHash inner =
      (turns inner.length index total).bind fun sides => leafHash.map fun leaf =>
        ripemd160.scheme.climb leaf (contents (sides.zip inner)) := by
  induction inner generalizing index total with
  | nil =>
      rw [computeHashFromLast, List.length_nil, turns]
      split_ifs with outside single
      · rfl
      · cases leafHash with
        | none => rfl
        | some leaf => rfl
      · rfl
  | cons last others ih =>
      rw [computeHashFromLast, List.length_cons, turns]
      split_ifs with outside single before
      · rfl
      · rfl
      · rw [ih]
        cases turns others.length index (numLeft total) with
        | none => rfl
        | some sides =>
            cases leafHash with
            | none => rfl
            | some leaf => rfl
      · rw [ih]
        cases turns others.length (int64 (index - numLeft total))
          (int64 (total - numLeft total)) with
        | none => rfl
        | some sides =>
            cases leafHash with
            | none => rfl
            | some leaf => rfl

def wayOf (sp : SimpleProof) (index total : Int) : List (Side × List Byte) :=
  contents (((turns sp.aunts.length index total).getD []).zip sp.aunts.reverse)

theorem verify_iff {sp : SimpleProof} {index total : Int} {leafHash rootHash : Slice} :
    ripemd160.verify sp index total leafHash rootHash = true ↔
      ∃ leaf sides, leafHash = some leaf ∧ turns sp.aunts.length index total = some sides ∧
        ripemd160.scheme.climb leaf (wayOf sp index total) = rootHash.content := by
  have computed := @computeHashFromLast_eq ripemd160 index total leafHash sp.aunts.reverse
  rw [List.length_reverse] at computed
  rw [verify, computeHashFromAunts, computed, wayOf]
  cases turns sp.aunts.length index total with
  | none => simp
  | some sides =>
      cases leafHash with
      | none => simp
      | some leaf => simp [Slice.equal]

theorem length_wayOf_sides {sp : SimpleProof} {index total : Int} {sides : List Side}
    (way : turns sp.aunts.length index total = some sides) :
    sides.length = sp.aunts.reverse.length := by
  rw [length_of_turns way, List.length_reverse]

theorem wayOf_fst {sp : SimpleProof} {index total : Int} {sides : List Side}
    (way : turns sp.aunts.length index total = some sides) :
    (wayOf sp index total).map Prod.fst = sides := by
  have fits := length_wayOf_sides way
  rw [wayOf, way, Option.getD_some, contents, List.map_map]
  exact List.map_fst_zip (Nat.le_of_eq fits)

theorem wayOf_snd {sp : SimpleProof} {index total : Int} {sides : List Side}
    (way : turns sp.aunts.length index total = some sides) :
    (wayOf sp index total).map Prod.snd = (sp.aunts.map Slice.content).reverse := by
  have fits := length_wayOf_sides way
  have snds := List.map_snd_zip (Nat.le_of_eq fits.symm)
  rw [wayOf, way, Option.getD_some, contents, List.map_map, ← List.map_reverse]
  conv_rhs => rw [← snds, List.map_map]
  rfl

def hashedBy (ripemd160 : Ripemd160) (sp : SimpleProof) (index total : Int) (leafHash : Slice) :
    List (List Byte) :=
  ripemd160.scheme.hashed leafHash.content (wayOf sp index total)

def Presentable (sp : SimpleProof) (leafHash : Slice) : Prop :=
  ∀ slice ∈ leafHash :: sp.aunts, Sized slice.content

instance (sp : SimpleProof) (leafHash : Slice) : Decidable (Presentable sp leafHash) :=
  inferInstanceAs (Decidable (∀ slice ∈ leafHash :: sp.aunts, _))

theorem plain_wayOf {sp : SimpleProof} {leafHash : Slice} (presentable : Presentable sp leafHash)
    (index total : Int) : ∀ step ∈ wayOf sp index total, ripemd160.scheme.Plain step.2 := by
  intro step member
  obtain ⟨⟨side, aunt⟩, zipped, rfl⟩ := List.mem_map.1 member
  exact presentable _ (List.mem_cons_of_mem _ (List.mem_reverse.1 (List.of_mem_zip zipped).2))

/-- Two proofs that verify at one index of one root are the same proof of the same leaf, or the
two verifications have hashed different texts to one digest. -/
theorem verify_binding {index total : Int} {sp sp' : SimpleProof}
    {leafHash leafHash' rootHash : Slice} (presentable : Presentable sp leafHash)
    (presentable' : Presentable sp' leafHash')
    (verified : ripemd160.verify sp index total leafHash rootHash = true)
    (verified' : ripemd160.verify sp' index total leafHash' rootHash = true) :
    (leafHash = leafHash' ∧ sp.aunts.map Slice.content = sp'.aunts.map Slice.content) ∨
      ripemd160.scheme.Collide (ripemd160.hashedBy sp index total leafHash)
        (ripemd160.hashedBy sp' index total leafHash') := by
  obtain ⟨leaf, sides, rfl, way, top⟩ := verify_iff.1 verified
  obtain ⟨leaf', sides', rfl, way', top'⟩ := verify_iff.1 verified'
  have same := turns_unique way way'
  have fsts : (wayOf sp index total).map Prod.fst = (wayOf sp' index total).map Prod.fst := by
    rw [wayOf_fst way, wayOf_fst way', same]
  rcases HashScheme.climb_binding (presentable _ List.mem_cons_self)
    (presentable' _ List.mem_cons_self) (plain_wayOf presentable index total)
    (plain_wayOf presentable' index total) fsts (top.trans top'.symm) with ⟨leaves, ways⟩ | clash
  · have snds := congrArg (List.map Prod.snd) ways
    rw [wayOf_snd way, wayOf_snd way', List.reverse_inj] at snds
    exact .inl ⟨congrArg some leaves, snds⟩
  · exact .inr clash

theorem verify_binding_sample :
    ((some [1] : Slice) = some [1] ∧
        [some [2], none].map Slice.content = [some [2], some []].map Slice.content) ∨
      sampleDigests.scheme.Collide (sampleDigests.hashedBy ⟨[some [2], none]⟩ 0 3 (some [1]))
        (sampleDigests.hashedBy ⟨[some [2], some []]⟩ 0 3 (some [1])) :=
  @verify_binding sampleDigests 0 3 ⟨[some [2], none]⟩ ⟨[some [2], some []]⟩ (some [1]) (some [1])
    (some rootDigest) (by decide) (by decide) (by decide) (by decide)

/-- The proof with the aunts of a way; the last aunt is the child of the root. -/
def proofAlong (path : List (Side × Slice)) : SimpleProof := ⟨(path.map Prod.snd).reverse⟩

theorem length_proofAlong (path : List (Side × Slice)) :
    (proofAlong path).aunts.length = path.length := by
  rw [proofAlong, List.length_reverse, List.length_map]

theorem verify_way {path : List (Side × Slice)} {levels : Nat} (length : path.length = levels)
    {index total : Int} (way : turns levels index total = some (path.map Prod.fst))
    {leafHash rootHash : Slice}
    (root : rootHash.content = ripemd160.scheme.climb leafHash.content (contents path)) :
    ripemd160.verify (proofAlong path) index total leafHash rootHash = true ↔
      leafHash ≠ none := by
  have aunts := (length_proofAlong path).trans length
  have steps : wayOf (proofAlong path) index total = contents path := by
    rw [wayOf, aunts, way, Option.getD_some, proofAlong, List.reverse_reverse, ← List.unzip_fst,
      ← List.unzip_snd, List.zip_unzip]
  rw [verify_iff, steps, aunts, way]
  cases leafHash with
  | none => simp
  | some leaf => simpa using root.symm

/-- The proof that the tree itself gives of a leaf verifies unless the leaf's hash is `nil`. -/
theorem verify_pathTo {hashes : List Slice} (small : hashes.length < 2 ^ 63 - 1) {index : Nat}
    {hash : Slice} (present : hashes[index]? = some hash) :
    ripemd160.verify (proofAlong (ripemd160.pathTo hashes index)) index hashes.length hash
      (ripemd160.simpleHashFromHashes hashes) = true ↔ hash ≠ none := by
  obtain ⟨inside, -⟩ := List.getElem?_eq_some_iff.1 present
  exact verify_way rfl (turns_pathTo small inside) (climb_pathTo present)

end Ripemd160

/-! A node below the root, seen as the leaf of a smaller tree. -/

/-- The part of the hashes below the node that lies so many levels down on the way to the
index. -/
def below : (levels : Nat) → (hashes : List Slice) → (index : Nat) → List Slice
  | 0, hashes, _ => hashes
  | levels + 1, hashes, index =>
      if index < (hashes.length + 1) / 2 then below levels (firstHalf hashes) index
      else below levels (secondHalf hashes) (index - (hashes.length + 1) / 2)

def position : List Side → Nat
  | [] => 0
  | .left :: sides => position sides
  | .right :: sides => 2 ^ sides.length + position sides

theorem position_lt (sides : List Side) : position sides < 2 ^ sides.length := by
  induction sides with
  | nil => exact Nat.zero_lt_one
  | cons side sides ih =>
      rw [List.length_cons, Nat.pow_succ]
      cases side with
      | left => rw [position]; omega
      | right => rw [position]; omega

theorem turns_position {sides : List Side} {levels : Nat} (length : sides.length = levels)
    (few : levels ≤ 62) : turns levels (position sides) (2 ^ levels : Nat) = some sides := by
  subst length
  induction sides with
  | nil => rfl
  | cons side sides ih =>
      rw [List.length_cons] at few
      have deeper := ih (by omega)
      have positive : 0 < 2 ^ sides.length := Nat.two_pow_pos _
      have bounded : 2 ^ sides.length ≤ 2 ^ 61 := Nat.pow_le_pow_right (by omega) (by omega)
      have half : (2 ^ sides.length * 2 + 1) / 2 = 2 ^ sides.length := by omega
      have behind := position_lt sides
      rw [List.length_cons, Nat.pow_succ]
      cases side with
      | left =>
          rw [position, turns_left (by omega) (by omega) (by omega), half, deeper]
          rfl
      | right =>
          have rest : 2 ^ sides.length * 2 - 2 ^ sides.length = 2 ^ sides.length := by omega
          rw [position, turns_right (by omega) (by omega) (by omega) (by omega), half, rest,
            Nat.add_sub_cancel_left, deeper]
          rfl

namespace Ripemd160

variable {ripemd160 : Ripemd160}

theorem several_of_pathTo {hashes : List Slice} {index : Nat}
    (further : 0 < (ripemd160.pathTo hashes index).length) : 2 ≤ hashes.length := by
  by_contra few
  rw [pathTo, if_neg few] at further
  cases further

theorem climb_below {levels : Nat} {hashes : List Slice} {index : Nat}
    (within : levels ≤ (ripemd160.pathTo hashes index).length) :
    (ripemd160.simpleHashFromHashes hashes).content = ripemd160.scheme.climb
      (ripemd160.simpleHashFromHashes (below levels hashes index)).content
      (contents ((ripemd160.pathTo hashes index).take levels)) := by
  induction levels generalizing hashes index with
  | zero => rfl
  | succ levels ih =>
      have several := several_of_pathTo (Nat.zero_lt_of_lt within)
      rw [simpleHashFromHashes_halves _ several, simpleHashFromTwoHashes, below]
      rcases Nat.lt_or_ge index ((hashes.length + 1) / 2) with before | behind
      · rw [pathTo_left several before] at within ⊢
        rw [if_pos before, ih (Nat.le_of_succ_le_succ within)]
        rfl
      · rw [pathTo_right several behind] at within ⊢
        rw [if_neg (Nat.not_lt.2 behind), ih (Nat.le_of_succ_le_succ within)]
        rfl

theorem several_below {levels : Nat} {hashes : List Slice} {index : Nat}
    (within : levels < (ripemd160.pathTo hashes index).length) :
    2 ≤ (below levels hashes index).length := by
  induction levels generalizing hashes index with
  | zero => exact several_of_pathTo within
  | succ levels ih =>
      have several := several_of_pathTo (Nat.zero_lt_of_lt within)
      rw [below]
      rcases Nat.lt_or_ge index ((hashes.length + 1) / 2) with before | behind
      · rw [pathTo_left several before] at within
        rw [if_pos before]
        exact ih (Nat.lt_of_succ_lt_succ within)
      · rw [pathTo_right several behind] at within
        rw [if_neg (Nat.not_lt.2 behind)]
        exact ih (Nat.lt_of_succ_lt_succ within)

/-- The root does not fix the number of leaves: every inner node of a tree verifies as a leaf of
the complete tree that ends at its level. -/
theorem inner_node_verifies {levels : Nat} {hashes : List Slice} {index : Nat} (few : levels ≤ 62)
    (within : levels < (ripemd160.pathTo hashes index).length) :
    ripemd160.verify (proofAlong ((ripemd160.pathTo hashes index).take levels))
      (position (((ripemd160.pathTo hashes index).take levels).map Prod.fst)) (2 ^ levels : Nat)
      (ripemd160.simpleHashFromHashes (below levels hashes index))
      (ripemd160.simpleHashFromHashes hashes) = true := by
  have length : ((ripemd160.pathTo hashes index).take levels).length = levels := by
    rw [List.length_take]
    omega
  have sides := (List.length_map Prod.fst).trans length
  have way := turns_position sides few
  refine (verify_way length way (climb_below (Nat.le_of_lt within))).2 ?_
  rw [simpleHashFromHashes_halves _ (several_below within)]
  exact Option.some_ne_none _

theorem inner_node_verifies_sample :
    sampleDigests.verify (proofAlong ((sampleDigests.pathTo [some [1], some [2], none] 0).take 1))
      (position (((sampleDigests.pathTo [some [1], some [2], none] 0).take 1).map Prod.fst))
      (2 ^ 1 : Nat) (sampleDigests.simpleHashFromHashes (below 1 [some [1], some [2], none] 0))
      (sampleDigests.simpleHashFromHashes [some [1], some [2], none]) = true :=
  inner_node_verifies (by decide) (by
    rw [pathTo_left (by decide) (by decide), pathTo_left (by decide) (by decide)]
    decide)

end Ripemd160

end Bclib.Merkle
