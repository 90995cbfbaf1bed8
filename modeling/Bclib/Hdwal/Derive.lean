import Bclib.Data.Blocks
import Bclib.Go.Strings
import Bclib.Hdwal.ExtendedKey

namespace Bclib.Hdwal

open Data
open Go

/-! Master keys and their children. -/

def hardenedKeyStart : Nat := 0x80000000

def minSeedBytes : Nat := 16

def maxSeedBytes : Nat := 64

def masterKey : List Byte := str "Bitcoin seed"

/-- What derivation takes from `btcd`, `btcutil` and the standard library. -/
structure Suite extends Btcsuite where
  hmacSHA512 : (key data : List Byte) → Block Byte 64
  hash160 : List Byte → Block Byte 20
  add : Nat × Nat → Nat × Nat → Nat × Nat
  serializeCompressed_length : ∀ scalar,
    (serializeCompressed (scalarBaseMult scalar)).length = 33

inductive DeriveError where
  | deriveHardFromPublic
  | deriveBeyondMaxDepth
  | invalidChild
  | invalidSeedLen
  | key (error : KeyError)
  deriving DecidableEq, Repr

def DeriveError.text : DeriveError → String
  | .deriveHardFromPublic => "cannot derive a hardened key from a public key"
  | .deriveBeyondMaxDepth => "cannot derive a key with more than 255 indices in its path"
  | .invalidChild => "the extended key at this index is invalid"
  | .invalidSeedLen => "seed length must be between 128 and 512 bits"
  | .key error => error.text

namespace ExtendedKey

variable (suite : Suite)

/-- The 37 bytes that are hashed for a child, and the key as it is left.  What is copied
starts at the left; the index is put over the last four bytes. -/
def childData (k : ExtendedKey) (i : BitVec 32) : List Byte × ExtendedKey :=
  if hardenedKeyStart ≤ i.toNat then (fill 33 (0 :: k.key) ++ putUint32 i, k)
  else
    let (pubKey, k) := k.pubKeyBytes suite.toBtcsuite
    (fill 33 pubKey ++ putUint32 i, k)

def childKey (k : ExtendedKey) (il : List Byte) : Except DeriveError (List Byte) :=
  if k.isPrivate then .ok (bigEndian ((ofBigEndian il + ofBigEndian k.key) % curveOrder))
  else
    let (ilx, ily) := suite.scalarBaseMult il
    if ilx = 0 ∨ ily = 0 then .error .invalidChild
    else
      match suite.parsePubKey k.key with
      | .error error => .error (.key (.pubKey error))
      | .ok pubKey => .ok (suite.serializeCompressed (suite.add (ilx, ily) pubKey))

/-- `Child`, with the key as it is left. -/
def child (k : ExtendedKey) (i : BitVec 32) : Except DeriveError ExtendedKey × ExtendedKey :=
  if k.depth = 255 then (.error .deriveBeyondMaxDepth, k)
  else if k.isPrivate = false ∧ hardenedKeyStart ≤ i.toNat then
    (.error .deriveHardFromPublic, k)
  else
    let (data, k) := k.childData suite i
    let ilr := (suite.hmacSHA512 k.chainCode data).1
    let il := ilr.take 32
    let childChainCode := ilr.drop 32
    if curveOrder ≤ ofBigEndian il ∨ ofBigEndian il = 0 then (.error .invalidChild, k)
    else
      match k.childKey suite il with
      | .error error => (.error error, k)
      | .ok childKey =>
          let (pubKey, k) := k.pubKeyBytes suite.toBtcsuite
          let parentFP := (suite.hash160 pubKey).1.take 4
          (.ok (newExtendedKey childKey childChainCode parentFP (k.depth + 1) i k.isPrivate), k)

/-- `Neuter`, with the key as it is left. -/
def neuter (k : ExtendedKey) : ExtendedKey × ExtendedKey :=
  if !k.isPrivate then (k, k)
  else
    let (pubKey, k) := k.pubKeyBytes suite.toBtcsuite
    (newExtendedKey pubKey k.chainCode k.parentFP k.depth k.childNum false, k)

/-- The child at the end of a path. -/
def derive (k : ExtendedKey) : List (BitVec 32) → Except DeriveError ExtendedKey
  | [] => .ok k
  | index :: rest =>
      match (k.child suite index).1 with
      | .error error => .error error
      | .ok childExtendedKey => childExtendedKey.derive rest

end ExtendedKey

def newMaster (suite : Suite) (seed : List Byte) : Except DeriveError ExtendedKey :=
  if seed.length < minSeedBytes ∨ maxSeedBytes < seed.length then .error .invalidSeedLen
  else
    let lr := (suite.hmacSHA512 masterKey seed).1
    let secretKey := lr.take 32
    let chainCode := lr.drop 32
    if curveOrder ≤ ofBigEndian secretKey ∨ ofBigEndian secretKey = 0 then
      .error (.key .unusableSeed)
    else .ok (newExtendedKey secretKey chainCode [0, 0, 0, 0] 0 0 true)

/-! What is left of the state: keys remember their public key and change in nothing else. -/

namespace ExtendedKey

variable {suite : Suite} {k : ExtendedKey}

theorem pubKeyBytes_private {btc : Btcsuite} (isPrivate : k.isPrivate = true) :
    (k.pubKeyBytes btc).1 =
      if k.pubKey.length = 0 then btc.serializeCompressed (btc.scalarBaseMult k.key)
      else k.pubKey := by
  simp only [pubKeyBytes, isPrivate, Bool.not_true, Bool.false_eq_true, if_false]
  split_ifs <;> rfl

def Remembers (k later : ExtendedKey) : Prop := ∃ pubKey, later = { k with pubKey }

theorem remembers_pubKeyBytes (btc : Btcsuite) (k : ExtendedKey) :
    k.Remembers (k.pubKeyBytes btc).2 := by
  rw [pubKeyBytes]
  split_ifs
  · exact ⟨k.pubKey, rfl⟩
  · exact ⟨_, rfl⟩
  · exact ⟨k.pubKey, rfl⟩

theorem remembers_childData (suite : Suite) (k : ExtendedKey) (i : BitVec 32) :
    k.Remembers (k.childData suite i).2 := by
  rw [childData]
  split_ifs
  · exact ⟨k.pubKey, rfl⟩
  · exact remembers_pubKeyBytes suite.toBtcsuite k

theorem pubKeyBytes_pubKeyBytes (btc : Btcsuite) (k : ExtendedKey) :
    ((k.pubKeyBytes btc).2.pubKeyBytes btc).1 = (k.pubKeyBytes btc).1 := by
  by_cases isPublic : (!k.isPrivate) = true
  · simp [pubKeyBytes, isPublic]
  · by_cases unset : k.pubKey.length = 0
    · simp only [pubKeyBytes, isPublic, unset, if_true, if_false, Bool.false_eq_true]
      split_ifs <;> rfl
    · simp [pubKeyBytes, isPublic, unset]

theorem pubKeyBytes_childData (suite : Suite) (k : ExtendedKey) (i : BitVec 32) :
    ((k.childData suite i).2.pubKeyBytes suite.toBtcsuite).1 =
      (k.pubKeyBytes suite.toBtcsuite).1 := by
  rw [childData]
  split_ifs
  · rfl
  · exact pubKeyBytes_pubKeyBytes suite.toBtcsuite k

def childHash (suite : Suite) (k : ExtendedKey) (i : BitVec 32) : List Byte :=
  (suite.hmacSHA512 k.chainCode (k.childData suite i).1).1

structure IsChild (suite : Suite) (k : ExtendedKey) (i : BitVec 32) (child : ExtendedKey) :
    Prop where
  shallow : k.depth ≠ 255
  allowed : ¬(k.isPrivate = false ∧ hardenedKeyStart ≤ i.toNat)
  below : ofBigEndian ((k.childHash suite i).take 32) < curveOrder
  positive : ofBigEndian ((k.childHash suite i).take 32) ≠ 0
  made : ∃ key, k.childKey suite ((k.childHash suite i).take 32) = .ok key ∧
    child = newExtendedKey key ((k.childHash suite i).drop 32)
      ((suite.hash160 (k.pubKeyBytes suite.toBtcsuite).1).1.take 4) (k.depth + 1) i k.isPrivate

theorem child_eq_ok_iff (i : BitVec 32) (made : ExtendedKey) :
    (k.child suite i).1 = .ok made ↔ IsChild suite k i made := by
  obtain ⟨pubKey, left⟩ := remembers_childData suite k i
  have hash : (suite.hmacSHA512 (k.childData suite i).2.chainCode (k.childData suite i).1).1 =
      k.childHash suite i := by rw [left]; rfl
  have key : (k.childData suite i).2.childKey suite = k.childKey suite := by rw [left]; rfl
  have asked := pubKeyBytes_childData suite k i
  obtain ⟨again, later⟩ := remembers_pubKeyBytes suite.toBtcsuite (k.childData suite i).2
  have depth : ((k.childData suite i).2.pubKeyBytes suite.toBtcsuite).2.depth = k.depth := by
    rw [later, left]
  have isPrivate : ((k.childData suite i).2.pubKeyBytes suite.toBtcsuite).2.isPrivate =
      k.isPrivate := by
    rw [later, left]
  rw [child]
  split_ifs with deep forbidden
  · exact ⟨fun absurd => (by cases absurd), fun isChild => absurd deep isChild.shallow⟩
  · exact ⟨fun absurd => (by cases absurd), fun isChild => absurd forbidden isChild.allowed⟩
  · simp only [hash, key]
    split_ifs with range
    · refine ⟨fun absurd => (by cases absurd), fun isChild => ?_⟩
      rcases range with above | zero
      · exact absurd isChild.below (Nat.not_lt.2 above)
      · exact absurd zero isChild.positive
    · rw [not_or, Nat.not_le] at range
      cases known : k.childKey suite ((k.childHash suite i).take 32) with
      | error error =>
          refine ⟨fun absurd => (by cases absurd), fun isChild => ?_⟩
          obtain ⟨key, found, -⟩ := isChild.made
          rw [known] at found
          cases found
      | ok childKey =>
          simp only [asked, depth, isPrivate]
          constructor
          · intro same
            exact ⟨deep, forbidden, range.1, range.2, childKey, known, (Except.ok.inj same).symm⟩
          · intro isChild
            obtain ⟨key, found, rfl⟩ := isChild.made
            rw [known] at found
            cases found
            rfl

end ExtendedKey

end Bclib.Hdwal
