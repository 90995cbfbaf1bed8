import Bclib.Data.Base58
import Bclib.Hdwal.Wallet

namespace Bclib.Hdwal

open Data
open Go

/-! Derivation of private keys as BIP-32 describes it, and when the code agrees with it. -/

namespace Bip32

structure PrivateKey where
  k : Nat
  c : List Byte
  range : 0 < k ∧ k < curveOrder

def ser256 (k : Nat) : List Byte := lowBytes 32 k

variable (suite : Suite)

def serP (k : Nat) : List Byte := suite.serializeCompressed (suite.scalarBaseMult (ser256 k))

/-- The private key of a hash, if its left half and a number have a sum in range. -/
def keyOf (hash : List Byte) (added : Nat) : Option PrivateKey :=
  let sum := (ofBigEndian (hash.take 32) + added) % curveOrder
  if valid : ofBigEndian (hash.take 32) < curveOrder ∧ sum ≠ 0 then
    some ⟨sum, hash.drop 32, Nat.pos_of_ne_zero valid.2, Nat.mod_lt _ (by decide)⟩
  else none

def master (seed : List Byte) : Option PrivateKey :=
  keyOf (suite.hmacSHA512 masterKey seed).1 0

namespace PrivateKey

/-- What is hashed for a child. -/
def hashed (parent : PrivateKey) (i : BitVec 32) : List Byte :=
  if 2 ^ 31 ≤ i.toNat then [0] ++ ser256 parent.k ++ putUint32 i
  else serP suite parent.k ++ putUint32 i

def ckdPriv (parent : PrivateKey) (i : BitVec 32) : Option PrivateKey :=
  keyOf (suite.hmacSHA512 parent.c (parent.hashed suite i)).1 parent.k

def derive (key : PrivateKey) : List (BitVec 32) → Option PrivateKey
  | [] => some key
  | i :: rest => (key.ckdPriv suite i).bind fun child => child.derive rest

end PrivateKey

def keyAt (seed : List Byte) (path : List (BitVec 32)) : Option PrivateKey :=
  (master suite seed).bind fun key => key.derive suite path

end Bip32

def keyAt (suite : Suite) (seed : List Byte) (path : List (BitVec 32)) :
    Except DeriveError ExtendedKey :=
  match newMaster suite seed with
  | .error error => .error error
  | .ok extendedKey => extendedKey.derive suite path

open Bip32 (PrivateKey ser256)

structure Matches (extendedKey : ExtendedKey) (reference : PrivateKey) : Prop where
  key : extendedKey.key = ser256 reference.k
  chainCode : extendedKey.chainCode = reference.c

/-- The keys on the way are those of the reference, so is what is hashed for the next one, and
the first half of a private key is the last of them. -/
structure Conforms (suite : Suite) (seed : List Byte) (path : List (BitVec 32)) : Prop where
  keys : ∀ past, past <+: path → ∃ key reference, keyAt suite seed past = .ok key ∧
    Bip32.keyAt suite seed past = some reference ∧ Matches key reference ∧
    ∀ i, past ++ [i] <+: path → (key.childData suite i).1 = reference.hashed suite i
  privKey : ∀ (wallet : Wallet) (hdWal : HdWal) (text possword : GoString),
    wallet.suite = suite → wallet.getHdWal possword = .ok hdWal → hdWal.seed = seed →
    parseDerivationPath text = .ok path →
    ∃ privKey reference, wallet.newPrivKey text possword = .ok privKey ∧
      Bip32.keyAt suite seed path = some reference ∧ privKey.take 32 = ser256 reference.k

variable {suite : Suite} {k child : ExtendedKey} {reference next : PrivateKey} {i : BitVec 32}

structure Follows (k : ExtendedKey) (reference : PrivateKey) : Prop extends
    Matches k reference where
  isPrivate : k.isPrivate = true
  fresh : k.pubKey = []

theorem ofBigEndian_ser256 (reference : PrivateKey) :
    ofBigEndian (ser256 reference.k) = reference.k := by
  rw [ser256, ofBigEndian_lowBytes]
  exact Nat.mod_eq_of_lt (Nat.lt_trans reference.range.2 (by decide))

theorem Follows.childData (follows : Follows k reference) (i : BitVec 32) :
    (k.childData suite i).1 = reference.hashed suite i := by
  have length : (ser256 reference.k).length = 32 := lowBytes_length 32 _
  rw [ExtendedKey.childData, PrivateKey.hashed, show hardenedKeyStart = 2 ^ 31 from rfl]
  split_ifs with hardened
  · rw [follows.key]
    exact congrArg (· ++ putUint32 i) (fill_of_length (by rw [List.length_cons, length]))
  · have pubKey : (k.pubKeyBytes suite.toBtcsuite).1 = Bip32.serP suite reference.k := by
      rw [ExtendedKey.pubKeyBytes_private follows.isPrivate, follows.fresh, follows.key]
      rfl
    exact congrArg (· ++ putUint32 i) ((congrArg (fill 33) pubKey).trans
      (fill_of_length (suite.serializeCompressed_length _)))

theorem Follows.child_eq (follows : Follows k reference)
    (isChild : ExtendedKey.IsChild suite k i child)
    (found : reference.ckdPriv suite i = some next) :
    child.key = bigEndian next.k ∧ child.chainCode = next.c ∧ child.isPrivate = true ∧
      child.pubKey = [] := by
  have hash : k.childHash suite i =
      (suite.hmacSHA512 reference.c (reference.hashed suite i)).1 := by
    rw [ExtendedKey.childHash, follows.chainCode, follows.childData]
  obtain ⟨key, made, rfl⟩ := isChild.made
  rw [ExtendedKey.childKey, if_pos follows.isPrivate, follows.key, ofBigEndian_ser256] at made
  rw [PrivateKey.ckdPriv, ← hash, Bip32.keyOf] at found
  split_ifs at found with valid
  cases found
  exact ⟨(Except.ok.inj made).symm, rfl, follows.isPrivate, rfl⟩

theorem bigEndian_eq_ser256_iff (reference : PrivateKey) :
    bigEndian reference.k = ser256 reference.k ↔ 256 ^ 31 ≤ reference.k := by
  constructor
  · intro same
    have length := congrArg List.length same
    rw [ser256, lowBytes_length] at length
    by_contra small
    have short := bigEndian_length_le_iff.2 (Nat.not_le.1 small)
    omega
  · intro large
    exact (lowBytes_eq_bigEndian large
      (Nat.lt_trans reference.range.2 (by decide))).symm

theorem Follows.matches_child_iff (follows : Follows k reference)
    (isChild : ExtendedKey.IsChild suite k i child)
    (found : reference.ckdPriv suite i = some next) :
    Matches child next ↔ 256 ^ 31 ≤ next.k := by
  obtain ⟨key, chainCode, -, -⟩ := follows.child_eq isChild found
  rw [← bigEndian_eq_ser256_iff, ← key]
  exact ⟨fun same => same.key, fun same => ⟨same, chainCode⟩⟩

theorem Follows.follows_child (follows : Follows k reference)
    (isChild : ExtendedKey.IsChild suite k i child)
    (found : reference.ckdPriv suite i = some next) (large : 256 ^ 31 ≤ next.k) :
    Follows child next := by
  obtain ⟨-, -, isPrivate, fresh⟩ := follows.child_eq isChild found
  exact ⟨(follows.matches_child_iff isChild found).2 large, isPrivate, fresh⟩

theorem follows_master {seed : List Byte} (made : newMaster suite seed = .ok k) :
    ∃ reference, Bip32.master suite seed = some reference ∧ Follows k reference := by
  simp only [newMaster] at made
  split_ifs at made with length range
  rw [not_or, Nat.not_le] at range
  have kept : (ofBigEndian ((suite.hmacSHA512 masterKey seed).1.take 32) + 0) % curveOrder =
      ofBigEndian ((suite.hmacSHA512 masterKey seed).1.take 32) := Nat.mod_eq_of_lt range.1
  cases made
  have half : ((suite.hmacSHA512 masterKey seed).1.take 32).length = 32 := by
    rw [List.length_take, (suite.hmacSHA512 masterKey seed).2]
    rfl
  exact ⟨_, dif_pos ⟨range.1, kept.symm ▸ range.2⟩,
    ⟨((congrArg (lowBytes 32) kept).trans (lowBytes_ofBigEndian half)).symm, rfl⟩, rfl, rfl⟩

/-- The keys at a path below two keys, and what is hashed for the children on a longer one. -/
def Agree (suite : Suite) (k : ExtendedKey) (reference : PrivateKey)
    (past path : List (BitVec 32)) : Prop :=
  ∃ key found, k.derive suite past = .ok key ∧ reference.derive suite past = some found ∧
    Matches key found ∧
    ∀ i, past ++ [i] <+: path → (key.childData suite i).1 = found.hashed suite i

/-- The reference accepts a path, and its key there has no zero byte in front. -/
def FullLength (found : Option PrivateKey) : Prop :=
  ∃ key, found = some key ∧ 256 ^ 31 ≤ key.k

theorem derive_cons_ok {last : ExtendedKey} {rest : List (BitVec 32)}
    (derived : k.derive suite (i :: rest) = .ok last) :
    ∃ child, (k.child suite i).1 = .ok child ∧ child.derive suite rest = .ok last := by
  rw [ExtendedKey.derive] at derived
  cases made : (k.child suite i).1 with
  | error error =>
      rw [made] at derived
      cases derived
  | ok child =>
      rw [made] at derived
      exact ⟨child, rfl, derived⟩

private theorem forall_prefix_cons {holds : List α → Prop} (first : α) (rest : List α) :
    (∀ past, past <+: first :: rest → holds past) ↔
      holds [] ∧ ∀ past, past <+: rest → holds (first :: past) := by
  constructor
  · intro all
    exact ⟨all [] List.nil_prefix, fun past inside =>
      all (first :: past) (List.cons_prefix_cons.2 ⟨rfl, inside⟩)⟩
  · rintro ⟨empty, longer⟩ past inside
    cases past with
    | nil => exact empty
    | cons other past =>
        obtain ⟨rfl, within⟩ := List.cons_prefix_cons.1 inside
        exact longer past within

theorem PrivateKey.derive_cons_none {reference : PrivateKey}
    (rejected : reference.ckdPriv suite i = none) (past : List (BitVec 32)) :
    reference.derive suite (i :: past) = none := by
  rw [PrivateKey.derive, rejected]
  rfl

theorem PrivateKey.derive_cons_some {reference next : PrivateKey}
    (found : reference.ckdPriv suite i = some next) (past : List (BitVec 32)) :
    reference.derive suite (i :: past) = next.derive suite past := by
  rw [PrivateKey.derive, found]
  rfl

theorem agree_cons_iff {child : ExtendedKey} {next : PrivateKey}
    (made : (k.child suite i).1 = .ok child) (found : reference.ckdPriv suite i = some next)
    (past rest : List (BitVec 32)) :
    Agree suite k reference (i :: past) (i :: rest) ↔ Agree suite child next past rest := by
  have below : k.derive suite (i :: past) = child.derive suite past := by
    rw [ExtendedKey.derive, made]
  simp only [Agree, below, PrivateKey.derive_cons_some found, List.cons_append,
    List.cons_prefix_cons, true_and]

theorem agree_iff {last : ExtendedKey} {path : List (BitVec 32)} (follows : Follows k reference)
    (derived : k.derive suite path = .ok last) :
    (∀ past, past <+: path → Agree suite k reference past path) ↔
      ∀ past, past <+: path → past ≠ [] → FullLength (reference.derive suite past) := by
  induction path generalizing k reference with
  | nil =>
      constructor
      · intro _ past nothing some
        exact absurd (List.prefix_nil.1 nothing) some
      · intro _ past nothing
        obtain rfl := List.prefix_nil.1 nothing
        exact ⟨k, reference, rfl, rfl, follows.toMatches, fun i more => by simp at more⟩
  | cons i rest ih =>
      obtain ⟨child, made, later⟩ := derive_cons_ok derived
      have isChild := (ExtendedKey.child_eq_ok_iff i child).1 made
      rw [forall_prefix_cons, forall_prefix_cons]
      cases found : reference.ckdPriv suite i with
      | none =>
          -- the reference rejects the child, so neither side holds of this first step
          have nowhere := PrivateKey.derive_cons_none found []
          constructor
          · rintro ⟨-, agree⟩
            obtain ⟨_, _, -, absent, -⟩ := agree [] List.nil_prefix
            rw [nowhere] at absent
            cases absent
          · rintro ⟨-, full⟩
            obtain ⟨_, absent, -⟩ := full [] List.nil_prefix (by simp)
            rw [nowhere] at absent
            cases absent
      | some next =>
          simp only [agree_cons_iff made found, PrivateKey.derive_cons_some found]
          constructor
          · rintro ⟨-, agree⟩
            obtain ⟨key, again, atChild, atNext, same, -⟩ := agree [] List.nil_prefix
            cases atChild
            cases atNext
            have large := (follows.matches_child_iff isChild found).1 same
            have full := (ih (follows.follows_child isChild found large) later).1 agree
            refine ⟨fun empty => absurd rfl empty, fun past inside _ => ?_⟩
            cases past with
            | nil => exact ⟨next, rfl, large⟩
            | cons other past => exact full (other :: past) inside (by simp)
          · rintro ⟨-, full⟩
            obtain ⟨key, reached, large⟩ := full [] List.nil_prefix (by simp)
            cases reached
            refine ⟨⟨k, reference, rfl, rfl, follows.toMatches, fun index _ =>
              follows.childData index⟩, ?_⟩
            exact (ih (follows.follows_child isChild found large) later).2
              fun past inside _ => full past inside (by simp)

theorem keyAt_of_master {seed : List Byte} (made : newMaster suite seed = .ok k)
    (path : List (BitVec 32)) : keyAt suite seed path = k.derive suite path := by
  rw [keyAt, made]

theorem exists_master {seed : List Byte} {path : List (BitVec 32)} {last : ExtendedKey}
    (derived : keyAt suite seed path = .ok last) : ∃ k, newMaster suite seed = .ok k := by
  rw [keyAt] at derived
  cases made : newMaster suite seed with
  | error error =>
      rw [made] at derived
      cases derived
  | ok k => exact ⟨k, rfl⟩

theorem newPrivKey_eq {wallet : Wallet} {hdWal : HdWal} {text possword : GoString}
    {path : List (BitVec 32)} {last : ExtendedKey} (stored : wallet.getHdWal possword = .ok hdWal)
    (parsed : parseDerivationPath text = .ok path)
    (derived : keyAt wallet.suite hdWal.seed path = .ok last) :
    wallet.newPrivKey text possword = .ok (wallet.privKey last.key) := by
  obtain ⟨k, made⟩ := exists_master derived
  rw [keyAt_of_master made] at derived
  simp only [Wallet.newPrivKey, stored, made, parsed, derived]

/-- On a path along which children are returned, the code follows BIP-32 exactly if BIP-32
accepts every child and no child has a number with a zero byte in front. -/
theorem conforms_iff {seed : List Byte} {path : List (BitVec 32)} {last : ExtendedKey}
    (derived : keyAt suite seed path = .ok last) :
    Conforms suite seed path ↔
      ∀ past, past <+: path → past ≠ [] → FullLength (Bip32.keyAt suite seed past) := by
  obtain ⟨k, made⟩ := exists_master derived
  obtain ⟨reference, found, follows⟩ := follows_master made
  have below : ∀ past, keyAt suite seed past = k.derive suite past := keyAt_of_master made
  have above : ∀ past, Bip32.keyAt suite seed past = reference.derive suite past := by
    intro past
    rw [Bip32.keyAt, found]
    rfl
  have agree := agree_iff follows (below path ▸ derived)
  simp only [above]
  rw [← agree]
  constructor
  · intro conforms past inside
    have steps := conforms.keys past inside
    rwa [below, above] at steps
  · intro steps
    refine ⟨fun past inside => ?_, ?_⟩
    · rw [below, above]
      exact steps past inside
    · rintro wallet hdWal text possword rfl stored rfl parsed
      obtain ⟨key, last, atKey, atLast, same, -⟩ := steps path (List.prefix_refl path)
      refine ⟨_, last, newPrivKey_eq stored parsed ((below path).trans atKey),
        (above path).trans atLast, ?_⟩
      have length : key.key.length = 32 := by rw [same.key, ser256, lowBytes_length]
      rw [Wallet.privKey, List.take_left' (fill_length 32 key.key), fill_of_length length,
        same.key]

/-! A seed whose first hardened child has a number of 31 bytes. -/

def sampleSeed : List Byte := List.replicate 15 0 ++ [0x51]

/-- The HMAC of the seed, which is the master key and its chain code. -/
def masterHash : List Byte :=
  lowBytes 32 0xf06baf6db4fa564753302e4ce59e4690278470f2637f47bbed3073074f411616 ++
    lowBytes 32 0x1cd5f90ff481b8bc4f2f020d36076c8115da5fa348289dc1161b8dd6e24d5a8d

/-- For the first hardened child of the master key. -/
def firstHash : List Byte :=
  lowBytes 32 0x10357fc66986dff2b721c51a63b59d80ffcc81e98088f64517aca190b6f5253e ++
    lowBytes 32 0xb1b9372341017da1f463a611bf2965860a4289c9fc398e56581ff1b4c249bc93

/-- For the second hardened child of the master key. -/
def secondHash : List Byte :=
  lowBytes 32 0xfedcf0be13457374c5e60c15c9fbfb1e72cf0e87d90d1b92585a875adf1a5779 ++
    lowBytes 32 0x9d714e60859c4eca4e862be924a0872fc1beafe9e9658cd16bea5032dfedfe8c

/-- For the first hardened child of that first child, as the code asks for it. -/
def shiftedHash : List Byte :=
  lowBytes 32 0x0421204dd17d6a8f769ad4764d3a60ade214e317800d546ec0d2775a3be6d446 ++
    lowBytes 32 0x69a18c39e3bf3399f881720941b393c945d9e9dd9ff517a87c9982eceb96ab1f

/-- For the same child, as BIP-32 asks for it. -/
def paddedHash : List Byte :=
  lowBytes 32 0xbe7d48bd6a4ecb39ff9927f8b59170cf6920df82432ec26bd5372c2cfc926c97 ++
    lowBytes 32 0x9f83e942b1498bc4f0ba0b8d76fb7bb00ea6f92bbb17f5a8453abfbba0bb6315

/-- The number of the first child. -/
def firstKey : List Byte :=
  lowBytes 31 0xa12f341e81363a0a51f3674953e4126ca215f534bf9dc5450ab60b35fffa13

def masterPoint : Nat × Nat :=
  (0xd559b387fd0ca8d5fa35b27a3c15c7342849bdf242634ce176429574556e8c4d,
   0x8ea8a464792087c5671fe599ce3721ab84f58f7754187a74eec958601d4fd21a)

def firstPoint : Nat × Nat :=
  (0xc73fcc23634de66d34774b428430775008792ff7f5b8f961843516eabad0c7ab,
   0x3ea9dd004432a9cb1b452c99c957d5e32f39dd63dbb5d3fbc9d66815e98ed7ba)

def compressed (point : Nat × Nat) : List Byte :=
  (if point.2 % 2 = 0 then 2 else 3) :: lowBytes 32 point.1

/-- The library on what is asked for on the way to these children. -/
def sampleSuite : Suite where
  base58Encode := Base58.encode
  base58Decode := Base58.decode
  base58Decode_encode := Base58.decode_encode
  doubleHashB _ := List.replicate 32 0
  doubleHashB_length _ := rfl
  scalarBaseMult scalar := if scalar = firstKey then firstPoint else masterPoint
  serializeCompressed := compressed
  parsePubKey _ := .error "invalid pub key length"
  hmacSHA512 key data :=
    if key = masterKey then ⟨masterHash, rfl⟩
    else if data = 0 :: masterHash.take 32 ++ [0x80, 0, 0, 0] then ⟨firstHash, rfl⟩
    else if data = 0 :: masterHash.take 32 ++ [0x80, 0, 0, 1] then ⟨secondHash, rfl⟩
    else if data = 0 :: firstKey ++ [0, 0x80, 0, 0, 0] then ⟨shiftedHash, rfl⟩
    else ⟨paddedHash, rfl⟩
  hash160 bytes :=
    if bytes = compressed masterPoint then
      ⟨lowBytes 20 0x2b684e1e245c309c206c5c04a784eff9f4dccc42, rfl⟩
    else
      ⟨lowBytes 20 0x81e3e89afdd91b15de01e0b54528c9a6fa648a51, rfl⟩
  add _ _ := (0, 0)
  serializeCompressed_length _ := congrArg (· + 1) (lowBytes_length 32 _)

/-- The number of the second hardened child of the master key is not short. -/
theorem conforms_iff_second :
    ∃ last, keyAt sampleSuite sampleSeed [0x80000001] = .ok last ∧
      Conforms sampleSuite sampleSeed [0x80000001] := by
  obtain ⟨last, derived⟩ : ∃ last, keyAt sampleSuite sampleSeed [0x80000001] = .ok last :=
    ⟨_, rfl⟩
  refine ⟨last, derived, (conforms_iff derived).2 fun past inside nonempty => ?_⟩
  obtain rfl : past = [0x80000001] := by
    cases past with
    | nil => exact absurd rfl nonempty
    | cons first rest =>
        obtain ⟨same, nothing⟩ := List.cons_prefix_cons.1 inside
        rw [same, List.prefix_nil.1 nothing]
  have number : (Bip32.keyAt sampleSuite sampleSeed [0x80000001]).map (·.k) =
      some 0xef48a02bc83fc9bc19163a62af9a41afdfa4a2938d43c31285b89bd55e252c4e := by
    decide +kernel
  obtain ⟨key, found, value⟩ := Option.map_eq_some_iff.1 number
  exact ⟨key, found, by rw [value]; decide⟩

/-- The first hardened child of a child with a short number is another one than that of
BIP-32. -/
theorem firstChild_diverges :
    ∃ key reference,
      keyAt sampleSuite sampleSeed [0x80000000, 0x80000000] = .ok key ∧
      Bip32.keyAt sampleSuite sampleSeed [0x80000000, 0x80000000] = some reference ∧
      ofBigEndian key.key ≠ reference.k ∧
      ¬Conforms sampleSuite sampleSeed [0x80000000, 0x80000000] := by
  have derived : (keyAt sampleSuite sampleSeed [0x80000000, 0x80000000]).toOption.map (·.key) =
      some (lowBytes 32
        0x4c24f81effea0c980ecc7dd968e44c04eb6f90cb4ccf23405dd2d6571e6ce59) := by
    decide +kernel
  have number : (Bip32.keyAt sampleSuite sampleSeed [0x80000000, 0x80000000]).map (·.k) =
      some 0xbf1e77f188d0017409eb1b5ffee554e1d5c2f57777ee60311a41e238329266aa := by
    decide +kernel
  obtain ⟨reference, found, value⟩ := Option.map_eq_some_iff.1 number
  cases atPath : keyAt sampleSuite sampleSeed [0x80000000, 0x80000000] with
  | error error =>
      rw [atPath] at derived
      cases derived
  | ok key =>
      simp only [atPath, Except.toOption, Option.map_some, Option.some.injEq] at derived
      have differ : ofBigEndian key.key ≠ reference.k := by
        rw [derived, value]
        decide +kernel
      refine ⟨key, reference, rfl, found, differ, fun conforms => ?_⟩
      obtain ⟨again, other, atAgain, atOther, same, -⟩ :=
        conforms.keys _ (List.prefix_refl _)
      rw [atPath] at atAgain
      rw [found] at atOther
      cases atAgain
      cases atOther
      exact differ (by rw [same.key, ofBigEndian_ser256])

end Bclib.Hdwal
