import Bclib.Hdwal.Bip32
import Mathlib.Data.ZMod.Basic
import Mathlib.GroupTheory.OrderOfElement

namespace Bclib.Hdwal

open Data
open Go

/-! Public derivation: the public key of a child is the child of the public key. -/

/-- The points of a group under their coordinates: multiples of a base point whose order is
that of the curve, with no zero coordinates but those of the neutral point. -/
structure GroupLaw [AddCommGroup G] (suite : Suite) (base : G) (coords : G → Nat × Nat) :
    Prop where
  order : addOrderOf base = curveOrder
  scalarBaseMult : ∀ scalar, suite.scalarBaseMult scalar = coords (ofBigEndian scalar • base)
  add : ∀ left right, suite.add (coords left) (coords right) = coords (left + right)
  finite : ∀ point, point ≠ 0 → (coords point).1 ≠ 0 ∧ (coords point).2 ≠ 0
  parsePubKey : ∀ point, point ≠ 0 →
    suite.parsePubKey (suite.serializeCompressed (coords point)) = .ok (coords point)

section Law

variable [AddCommGroup G] {suite : Suite} {base : G} {coords : G → Nat × Nat}

theorem GroupLaw.nsmul_ne_zero (law : GroupLaw suite base coords) {number : Nat}
    (nonzero : number % curveOrder ≠ 0) : number • base ≠ 0 := by
  intro zero
  have divides := addOrderOf_dvd_of_nsmul_eq_zero zero
  rw [law.order] at divides
  exact nonzero (Nat.mod_eq_zero_of_dvd divides)

theorem GroupLaw.mod_nsmul (law : GroupLaw suite base coords) (number : Nat) :
    (number % curveOrder) • base = number • base := by
  rw [← law.order, mod_addOrderOf_nsmul]

end Law

namespace ExtendedKey

variable {suite : Suite} {k : ExtendedKey}

/-- Nothing is remembered, or what an earlier call left. -/
def Memoised (suite : Suite) (k : ExtendedKey) : Prop :=
  k.pubKey = [] ∨ k.pubKey = suite.serializeCompressed (suite.scalarBaseMult k.key)

theorem pubKeyBytes_memoised (isPrivate : k.isPrivate = true) (memoised : Memoised suite k) :
    (k.pubKeyBytes suite.toBtcsuite).1 =
      suite.serializeCompressed (suite.scalarBaseMult k.key) := by
  rw [pubKeyBytes_private isPrivate]
  rcases memoised with unset | set
  · rw [unset]
    rfl
  · rw [set]
    exact ite_self _

theorem neuter_private (isPrivate : k.isPrivate = true) :
    (k.neuter suite).1 = newExtendedKey (k.pubKeyBytes suite.toBtcsuite).1 k.chainCode k.parentFP
      k.depth k.childNum false := by
  obtain ⟨pubKey, left⟩ := remembers_pubKeyBytes suite.toBtcsuite k
  simp only [neuter, isPrivate, Bool.not_true, Bool.false_eq_true, if_false]
  rw [left]

theorem childHash_neuter (isPrivate : k.isPrivate = true) {i : BitVec 32}
    (normal : i.toNat < hardenedKeyStart) :
    (k.neuter suite).1.childHash suite i = k.childHash suite i := by
  rw [neuter_private isPrivate, childHash, childHash, childData, childData,
    if_neg (Nat.not_le.2 normal), if_neg (Nat.not_le.2 normal)]
  rfl

theorem childKey_neuter [AddCommGroup G] {base : G} {coords : G → Nat × Nat}
    (law : GroupLaw suite base coords) (isPrivate : k.isPrivate = true)
    (memoised : Memoised suite k) (positive : 0 < ofBigEndian k.key)
    (below : ofBigEndian k.key < curveOrder) {il : List Byte} (ilPositive : ofBigEndian il ≠ 0)
    (ilBelow : ofBigEndian il < curveOrder) :
    (k.neuter suite).1.childKey suite il = .ok (suite.serializeCompressed
      (coords ((ofBigEndian il + ofBigEndian k.key) • base))) := by
  have finite : ofBigEndian k.key • base ≠ 0 :=
    law.nsmul_ne_zero (by rw [Nat.mod_eq_of_lt below]; exact positive.ne')
  have ilFinite : ofBigEndian il • base ≠ 0 :=
    law.nsmul_ne_zero (by rw [Nat.mod_eq_of_lt ilBelow]; exact ilPositive)
  obtain ⟨ilx, ily⟩ := law.finite _ ilFinite
  have parsed := law.parsePubKey _ finite
  rw [neuter_private isPrivate, pubKeyBytes_memoised isPrivate memoised]
  simp only [childKey, newExtendedKey, Bool.false_eq_true, if_false, law.scalarBaseMult, parsed]
  rw [if_neg (not_or.2 ⟨ilx, ily⟩), law.add, add_nsmul]

/-- Deriving a child that is not hardened and leaving out its private key is the same, in
either order. -/
theorem neuter_child [AddCommGroup G] {base : G} {coords : G → Nat × Nat}
    (law : GroupLaw suite base coords) (isPrivate : k.isPrivate = true)
    (memoised : Memoised suite k) (positive : 0 < ofBigEndian k.key)
    (below : ofBigEndian k.key < curveOrder) {i : BitVec 32} (normal : i.toNat < 2 ^ 31)
    {child : ExtendedKey} (made : (k.child suite i).1 = .ok child) :
    ((k.neuter suite).1.child suite i).1 = .ok (child.neuter suite).1 := by
  have isChild := (child_eq_ok_iff i child).1 made
  have normal : i.toNat < hardenedKeyStart := normal
  have hash := @childHash_neuter suite k isPrivate i normal
  have sum := childKey_neuter law isPrivate memoised positive below isChild.positive isChild.below
  obtain ⟨key, found, shape⟩ := isChild.made
  rw [childKey, if_pos isPrivate] at found
  have childPrivate : child.isPrivate = true := by
    rw [shape]
    exact isPrivate
  have pubKey : (k.neuter suite).1.pubKeyBytes suite.toBtcsuite =
      ((k.pubKeyBytes suite.toBtcsuite).1, (k.neuter suite).1) := by
    rw [neuter_private isPrivate]
    rfl
  rw [child_eq_ok_iff]
  refine ⟨?_, ?_, ?_, ?_, _, by rw [hash]; exact sum, ?_⟩
  · rw [neuter_private isPrivate]
    exact isChild.shallow
  · exact fun forbidden => absurd forbidden.2 (Nat.not_le.2 normal)
  · rw [hash]
    exact isChild.below
  · rw [hash]
    exact isChild.positive
  · cases found
    rw [hash, pubKey, neuter_private isPrivate, neuter_private childPrivate,
      pubKeyBytes_private childPrivate, shape, ← law.mod_nsmul]
    simp only [newExtendedKey, List.length_nil, if_true, law.scalarBaseMult,
      ofBigEndian_bigEndian]

end ExtendedKey

/-! The third child of the master key of the sample seed.  The points are those of the curve
for the scalars that are asked for; the group is that of the scalars. -/

instance : NeZero curveOrder := ⟨by decide⟩

def sampleKey : ExtendedKey :=
  newExtendedKey (masterHash.take 32) (masterHash.drop 32) [0, 0, 0, 0] 0 0 true

/-- The HMAC for the child. -/
def thirdHash : List Byte :=
  lowBytes 32 0x72b78c34315e32d58f6e268c93f168e2dae272eba6361d3e9951db72e86ee2c8 ++
    lowBytes 32 0x93f198bbbd038b461f780b13e6750a1de221a326c63709335c20ef9adf203af5

def thirdTweak : Nat × Nat :=
  (0x63da98ecbc83891c0e6a95042585ae71560a5111ee3da9c30b5fe13e9dfb3562,
   0x96001c256fe703ee2f185e428896d813cdeb85192a9c2cc533a66bcbb8284c7e)

def thirdPoint : Nat × Nat :=
  (0x653dbf2b7497cb47ab07729d7419008313abdc5b66ca0479f76b2897eb0efe54,
   0x32e1d8f08ec7882671002959d1ab3912e9ea71634d570d89997c0d0590aec9c2)

def masterScalar : ZMod curveOrder := (ofBigEndian (masterHash.take 32) : Nat)

def tweakScalar : ZMod curveOrder := (ofBigEndian (thirdHash.take 32) : Nat)

def sampleCoords (scalar : ZMod curveOrder) : Nat × Nat :=
  if scalar = 0 then (0, 0)
  else if scalar = masterScalar then masterPoint
  else if scalar = tweakScalar then thirdTweak
  else if scalar = masterScalar + tweakScalar then thirdPoint
  else (scalar.val, 1)

def sampleScalar (point : Nat × Nat) : ZMod curveOrder :=
  if point = masterPoint then masterScalar
  else if point = thirdTweak then tweakScalar
  else if point = thirdPoint then masterScalar + tweakScalar
  else point.1

theorem sampleScalar_sampleCoords (scalar : ZMod curveOrder) :
    sampleScalar (sampleCoords scalar) = scalar := by
  rw [sampleCoords]
  split_ifs with zero master tweak third
  · rw [zero]
    rfl
  · exact master.symm
  · exact tweak.symm
  · exact third.symm
  · have other : ∀ point : Nat × Nat, point.2 ≠ 1 → (scalar.val, 1) ≠ point := by
      rintro point different rfl
      exact different rfl
    rw [sampleScalar, if_neg (other _ (by decide)), if_neg (other _ (by decide)),
      if_neg (other _ (by decide))]
    exact ZMod.natCast_zmod_val scalar

def sampleParsePubKey : List Byte → Except String (Nat × Nat)
  | 2 :: x =>
      if x = lowBytes 32 masterPoint.1 then .ok masterPoint
      else if x = lowBytes 32 thirdTweak.1 then .ok thirdTweak
      else if x = lowBytes 32 thirdPoint.1 then .ok thirdPoint
      else .error "invalid square root"
  | 3 :: x => .ok (ofBigEndian x, 1)
  | _ => .error "invalid pub key length"

def curveSuite : Suite :=
  { sampleSuite with
    scalarBaseMult := fun scalar => sampleCoords (ofBigEndian scalar : Nat)
    parsePubKey := sampleParsePubKey
    hmacSHA512 := fun _ _ => ⟨thirdHash, rfl⟩
    add := fun left right => sampleCoords (sampleScalar left + sampleScalar right)
    serializeCompressed_length := fun _ => congrArg (· + 1) (lowBytes_length 32 _) }

theorem groupLaw_curveSuite : GroupLaw curveSuite (1 : ZMod curveOrder) sampleCoords where
  order := ZMod.addOrderOf_one curveOrder
  scalarBaseMult scalar := congrArg sampleCoords (nsmul_one (ofBigEndian scalar)).symm
  add left right := by
    refine congrArg sampleCoords ?_
    rw [sampleScalar_sampleCoords, sampleScalar_sampleCoords]
  finite scalar finite := by
    rw [sampleCoords, if_neg finite]
    split_ifs
    · decide
    · decide
    · decide
    · exact ⟨fun zero => finite ((ZMod.val_eq_zero scalar).1 zero), Nat.one_ne_zero⟩
  parsePubKey scalar finite := by
    rw [sampleCoords, if_neg finite]
    split_ifs
    · decide +kernel
    · decide +kernel
    · decide +kernel
    · have small : scalar.val < 256 ^ 32 := Nat.lt_trans (ZMod.val_lt scalar) (by decide)
      refine congrArg (fun number => Except.ok (number, 1)) ?_
      rw [ofBigEndian_lowBytes, Nat.mod_eq_of_lt small]

theorem neuter_child_third :
    ∃ child, (sampleKey.child curveSuite 2).1 = .ok child ∧
      ((sampleKey.neuter curveSuite).1.child curveSuite 2).1 =
        .ok (child.neuter curveSuite).1 := by
  obtain ⟨child, made⟩ : ∃ child, (sampleKey.child curveSuite 2).1 = .ok child := ⟨_, rfl⟩
  exact ⟨child, made, ExtendedKey.neuter_child groupLaw_curveSuite rfl (.inl rfl)
    (by decide +kernel) (by decide +kernel) (by decide) made⟩

end Bclib.Hdwal
