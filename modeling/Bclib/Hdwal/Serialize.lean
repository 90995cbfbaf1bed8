import Bclib.Data.Base58
import Bclib.Hdwal.ExtendedKey

namespace Bclib.Hdwal

open Data

/-! Writing and reading extended keys. The reader expects a version of four bytes in front,
which the writer leaves out. -/

variable {btc : Btcsuite}

theorem checkSum_length (bytes : List Byte) : (checkSum btc bytes).length = 4 := by
  rw [checkSum, List.length_take, btc.doubleHashB_length]
  rfl

theorem newKeyFromString_encodeChecked (bytes : List Byte) :
    newKeyFromString btc (encodeChecked btc bytes) =
      if bytes.length = serializedKeyLen then deserialize btc bytes
      else .error .invalidKeyLen := by
  have total : (bytes ++ checkSum btc bytes).length = bytes.length + 4 := by
    rw [List.length_append, checkSum_length]
  simp only [newKeyFromString, encodeChecked, btc.base58Decode_encode, total,
    Nat.add_sub_cancel, List.take_left, List.drop_left, ne_eq, not_true, if_false,
    Nat.add_right_cancel_iff, ite_not]

/-- The key data of a payload, private if it starts with a zero byte. -/
def readKeyData (btc : Btcsuite) (make : List Byte → Bool → ExtendedKey)
    (keyData : List Byte) : Except KeyError ExtendedKey :=
  if keyData.getD 0 0 = 0x00 then
    if curveOrder ≤ ofBigEndian (keyData.drop 1) ∨ ofBigEndian (keyData.drop 1) = 0 then
      .error .unusableSeed
    else .ok (make (keyData.drop 1) true)
  else
    match btc.parsePubKey keyData with
    | .error error => .error (.pubKey error)
    | .ok _ => .ok (make keyData false)

theorem slice_append {bytes middle : List Byte} {low high : Nat} (front back : List Byte)
    (split : bytes = front ++ (middle ++ back)) (starts : front.length = low)
    (ends : low + middle.length = high) : slice bytes low high = middle := by
  subst split starts ends
  rw [slice, ← List.append_assoc, ← List.length_append, List.take_left, List.drop_left]

theorem deserialize_fields {version parentFP childNum chainCode keyData : List Byte}
    (depth : Byte) (atVersion : version.length = 4) (atParentFP : parentFP.length = 4)
    (atChildNum : childNum.length = 4) (atChainCode : chainCode.length = 32)
    (atKeyData : keyData.length = 33) :
    deserialize btc (version ++ [depth] ++ parentFP ++ childNum ++ chainCode ++ keyData) =
      readKeyData btc (fun key isPrivate =>
        newExtendedKey key chainCode parentFP depth (uint32 childNum) isPrivate) keyData := by
  generalize whole : version ++ [depth] ++ parentFP ++ childNum ++ chainCode ++ keyData = payload
  have readDepth : payload.getD 4 0 = depth := by
    rw [← whole, ← atVersion]
    simp
  have readParentFP : slice payload 5 9 = parentFP :=
    slice_append (version ++ [depth]) (childNum ++ chainCode ++ keyData)
      (by simp [← whole]) (by simp [atVersion]) (by simp [atParentFP])
  have readChildNum : slice payload 9 13 = childNum :=
    slice_append (version ++ [depth] ++ parentFP) (chainCode ++ keyData)
      (by simp [← whole]) (by simp [atVersion, atParentFP]) (by simp [atChildNum])
  have readChainCode : slice payload 13 45 = chainCode :=
    slice_append (version ++ [depth] ++ parentFP ++ childNum) keyData
      (by simp [← whole]) (by simp [atVersion, atParentFP, atChildNum]) (by simp [atChainCode])
  have readKeyData : slice payload 45 78 = keyData :=
    slice_append (version ++ [depth] ++ parentFP ++ childNum ++ chainCode) []
      (by simp [← whole]) (by simp [atVersion, atParentFP, atChildNum, atChainCode])
      (by simp [atKeyData])
  rw [deserialize, readDepth, readParentFP, readChildNum, readChainCode, readKeyData]
  rfl

/-- The keys that can be written: private ones by their number, public ones compressed. -/
structure Serializable (btc : Btcsuite) (k : ExtendedKey) : Prop where
  parentFP : k.parentFP.length = 4
  chainCode : k.chainCode.length = 32
  privKey : k.isPrivate = true → 0 < ofBigEndian k.key ∧ ofBigEndian k.key < curveOrder
  pubKey : k.isPrivate = false → k.key.length = 33 ∧ (k.key.head? = some 2 ∨
    k.key.head? = some 3) ∧ ∃ point, btc.parsePubKey k.key = .ok point

structure Same (left right : ExtendedKey) : Prop where
  depth : left.depth = right.depth
  parentFP : left.parentFP = right.parentFP
  childNum : left.childNum = right.childNum
  chainCode : left.chainCode = right.chainCode
  isPrivate : left.isPrivate = right.isPrivate
  key : ofBigEndian left.key = ofBigEndian right.key

namespace ExtendedKey

def keyData (k : ExtendedKey) : List Byte :=
  if k.isPrivate then [0] ++ List.replicate (32 - k.key.length) 0 ++ k.key else k.key

theorem serializedBytes_eq (k : ExtendedKey) : k.serializedBytes btc =
    [k.depth] ++ k.parentFP ++ putUint32 k.childNum ++ k.chainCode ++ k.keyData := by
  cases isPrivate : k.isPrivate with
  | true => simp [serializedBytes, keyData, paddedAppend, isPrivate]
  | false => simp [serializedBytes, keyData, pubKeyBytes, isPrivate]

theorem key_length_pos {k : ExtendedKey} (valid : Serializable btc k) : k.key.length ≠ 0 := by
  intro empty
  cases isPrivate : k.isPrivate with
  | true =>
      have positive := (valid.privKey isPrivate).1
      rw [List.length_eq_zero_iff.1 empty] at positive
      exact Nat.lt_irrefl 0 positive
  | false =>
      rw [(valid.pubKey isPrivate).1] at empty
      cases empty

theorem readKeyData_keyData {k : ExtendedKey} (valid : Serializable btc k)
    (make : List Byte → Bool → ExtendedKey) :
    ∃ key, readKeyData btc make k.keyData = .ok (make key k.isPrivate) ∧
      ofBigEndian key = ofBigEndian k.key := by
  cases isPrivate : k.isPrivate with
  | true =>
      obtain ⟨positive, small⟩ := valid.privKey isPrivate
      refine ⟨List.replicate (32 - k.key.length) 0 ++ k.key, ?_,
        ofBigEndian_replicate_append _ _⟩
      have range : ¬(curveOrder ≤ ofBigEndian k.key ∨ ofBigEndian k.key = 0) := by omega
      simp [readKeyData, keyData, isPrivate, ofBigEndian_replicate_append, range]
  | false =>
      obtain ⟨-, first, point, parses⟩ := valid.pubKey isPrivate
      have nonzero : k.key.getD 0 0 ≠ 0 := by
        rw [List.getD_eq_getElem?_getD, ← List.head?_eq_getElem?]
        rcases first with two | three
        · rw [two]
          decide
        · rw [three]
          decide
      refine ⟨k.key, ?_, rfl⟩
      rw [readKeyData, keyData, isPrivate, if_neg Bool.false_ne_true, if_neg nonzero, parses]

end ExtendedKey

theorem newKeyFromString_versioned {k : ExtendedKey} (valid : Serializable btc k)
    (short : k.isPrivate = true → k.key.length ≤ 32) {version : List Byte}
    (four : version.length = 4) :
    ∃ read, newKeyFromString btc (encodeChecked btc (version ++ k.serializedBytes btc)) =
      .ok read ∧ Same read k := by
  have atKeyData : k.keyData.length = 33 := by
    cases isPrivate : k.isPrivate with
    | true =>
        have bound := short isPrivate
        simp [ExtendedKey.keyData, isPrivate]
        omega
    | false => simpa [ExtendedKey.keyData, isPrivate] using (valid.pubKey isPrivate).1
  obtain ⟨key, reads, same⟩ := k.readKeyData_keyData valid fun key isPrivate =>
    newExtendedKey key k.chainCode k.parentFP k.depth (uint32 (putUint32 k.childNum)) isPrivate
  have total : (version ++ k.serializedBytes btc).length = serializedKeyLen := by
    simp [k.serializedBytes_eq, four, valid.parentFP, valid.chainCode, atKeyData,
      serializedKeyLen]
  have fields := @deserialize_fields btc _ _ _ _ _ k.depth four valid.parentFP
    (putUint32_length k.childNum) valid.chainCode atKeyData
  rw [newKeyFromString_encodeChecked, if_pos total, k.serializedBytes_eq]
  simp only [List.append_assoc] at fields ⊢
  rw [fields, reads]
  exact ⟨_, rfl, rfl, rfl, uint32_putUint32 k.childNum, rfl, rfl, same⟩

private theorem eq_replicate_of_shift {entries : List α} {shift : Nat} {filler : α}
    (positive : 0 < shift)
    (shifted : entries.drop shift ++ List.replicate shift filler = entries) :
    entries = List.replicate entries.length filler := by
  -- An entry is the one `shift` places on, so all follow from the last.
  have fromEnd : ∀ distance index, entries.length - index ≤ distance →
      ∀ inside : index < entries.length, entries[index] = filler := by
    intro distance
    induction distance with
    | zero =>
        intro index near inside
        omega
    | succ distance ih =>
        intro index near inside
        have same := congrArg (·[index]?) shifted
        simp only [List.getElem?_append, List.length_drop, List.getElem?_drop,
          List.getElem?_replicate, List.getElem?_eq_getElem inside] at same
        split at same
        · rw [List.getElem?_eq_getElem (by omega)] at same
          rw [← Option.some.inj same]
          exact ih _ (by omega) _
        · rw [if_pos (by omega)] at same
          exact (Option.some.inj same).symm
  refine List.eq_replicate_iff.2 ⟨rfl, fun entry member => ?_⟩
  obtain ⟨index, inside, rfl⟩ := List.mem_iff_getElem.1 member
  exact fromEnd _ index (Nat.le_refl _) inside

/-- A private key with four zero bytes more than any number needs, and nothing but zeros in
the other fields. -/
structure Blank (k : ExtendedKey) : Prop where
  isPrivate : k.isPrivate = true
  key : k.key.length = 36
  depth : k.depth = 0
  parentFP : k.parentFP = List.replicate 4 0
  childNum : k.childNum = 0
  chainCode : k.chainCode = List.replicate 32 0

theorem serializedBytes_length_iff {k : ExtendedKey} (valid : Serializable btc k) :
    (k.serializedBytes btc).length = serializedKeyLen ↔
      k.isPrivate = true ∧ k.key.length = 36 := by
  cases isPrivate : k.isPrivate with
  | true =>
      simp [k.serializedBytes_eq, valid.parentFP, valid.chainCode, ExtendedKey.keyData,
        isPrivate, serializedKeyLen]
      omega
  | false =>
      simp [k.serializedBytes_eq, valid.parentFP, valid.chainCode, ExtendedKey.keyData,
        isPrivate, serializedKeyLen, (valid.pubKey isPrivate).1]

theorem newKeyFromString_string {k : ExtendedKey} (valid : Serializable btc k)
    (short : k.isPrivate = true → k.key.length ≤ 32) :
    newKeyFromString btc (k.string btc) = .error .invalidKeyLen := by
  rw [ExtendedKey.string, if_neg (k.key_length_pos valid), newKeyFromString_encodeChecked]
  apply if_neg
  intro total
  obtain ⟨isPrivate, long⟩ := (serializedBytes_length_iff valid).1 total
  have bound := short isPrivate
  omega

/-- In a key of 36 bytes every field is read four bytes after where it was
written. -/
theorem deserialize_serializedBytes {k : ExtendedKey} (valid : Serializable btc k)
    (isPrivate : k.isPrivate = true) (long : k.key.length = 36) :
    ∃ key, ofBigEndian key = ofBigEndian k.key ∧ deserialize btc (k.serializedBytes btc) =
      .ok (newExtendedKey key (k.chainCode.drop 4 ++ List.replicate 4 0)
        (putUint32 k.childNum) (k.parentFP.getD 3 0) (uint32 (k.chainCode.take 4)) true) := by
  obtain ⟨positive, small⟩ := valid.privKey isPrivate
  have below : ofBigEndian k.key < 256 ^ 32 := Nat.lt_trans small (by decide)
  have zeros : k.key.take 4 = List.replicate 4 0 := take_eq_replicate_of_lt long below
  have split : k.key = List.replicate 4 0 ++ k.key.drop 4 := by
    rw [← zeros, List.take_append_drop]
  have value : ofBigEndian (k.key.drop 4) = ofBigEndian k.key := by
    conv_rhs => rw [split]
    exact (ofBigEndian_replicate_append 4 _).symm
  obtain ⟨first, second, third, fourth, parentFP⟩ := List.length_eq_four.1 valid.parentFP
  have moved : k.serializedBytes btc = [k.depth, first, second, third] ++ [fourth] ++
      putUint32 k.childNum ++ k.chainCode.take 4 ++
        (k.chainCode.drop 4 ++ List.replicate 4 0) ++ (0 :: k.key.drop 4) := by
    have chainCode := List.take_append_drop 4 k.chainCode
    generalize k.chainCode.take 4 = front, k.chainCode.drop 4 = back at chainCode ⊢
    rw [k.serializedBytes_eq, ExtendedKey.keyData, isPrivate, if_pos rfl, long, parentFP,
      ← chainCode]
    conv_lhs => rw [split]
    simp
  have range : ¬(curveOrder ≤ ofBigEndian k.key ∨ ofBigEndian k.key = 0) := by omega
  refine ⟨k.key.drop 4, value, ?_⟩
  rw [moved, deserialize_fields fourth rfl rfl (by simp [valid.chainCode])
    (by simp [valid.chainCode]) (by simp [long]), readKeyData, parentFP]
  simp [value, range]

/-- Reading what was written gives the key back for no key but the blank ones. -/
theorem newKeyFromString_string_iff {k : ExtendedKey} (valid : Serializable btc k) :
    (∃ read, newKeyFromString btc (k.string btc) = .ok read ∧ Same read k) ↔ Blank k := by
  rw [ExtendedKey.string, if_neg (k.key_length_pos valid), newKeyFromString_encodeChecked]
  constructor
  · rintro ⟨read, reads, same⟩
    split at reads
    · rename_i total
      obtain ⟨isPrivate, long⟩ := (serializedBytes_length_iff valid).1 total
      obtain ⟨key, -, found⟩ := deserialize_serializedBytes valid isPrivate long
      rw [found] at reads
      cases reads
      obtain ⟨readDepth, readParentFP, readChildNum, readChainCode, -, -⟩ := same
      simp only [newExtendedKey] at readDepth readParentFP readChildNum readChainCode
      have chainCode : k.chainCode = List.replicate 32 0 := by
        have zeros := eq_replicate_of_shift (by decide) readChainCode
        rwa [valid.chainCode] at zeros
      have childNum : k.childNum = 0 := by rw [← readChildNum, chainCode]; decide
      have parentFP : k.parentFP = List.replicate 4 0 := by rw [← readParentFP, childNum]; decide
      have depth : k.depth = 0 := by rw [← readDepth, parentFP]; rfl
      exact ⟨isPrivate, long, depth, parentFP, childNum, chainCode⟩
    · cases reads
  · intro blank
    obtain ⟨key, value, found⟩ := deserialize_serializedBytes valid blank.isPrivate blank.key
    rw [if_pos ((serializedBytes_length_iff valid).2 ⟨blank.isPrivate, blank.key⟩), found]
    refine ⟨_, rfl, ?_, ?_, ?_, ?_, blank.isPrivate.symm, value⟩
    all_goals simp only [newExtendedKey, blank.depth, blank.parentFP, blank.childNum,
      blank.chainCode]
    all_goals decide

/-! A master key, and the blank key of the number one. -/

def sampleMaster : ExtendedKey where
  key :=
    lowBytes 32 0xe8f32e723decf4051aefac8e2c93c9c5b214313817cdb01a1494b917c8436b35
  pubKey := []
  chainCode :=
    lowBytes 32 0x873dff81c02f525623fd1fe5167eac3a55a049de3d314bb42ee227ffed37d508
  depth := 0
  parentFP := [0, 0, 0, 0]
  childNum := 0
  isPrivate := true

def blankKey : ExtendedKey where
  key := List.replicate 35 0 ++ [1]
  pubKey := []
  chainCode := List.replicate 32 0
  depth := 0
  parentFP := List.replicate 4 0
  childNum := 0
  isPrivate := true

def blankHash : List Byte :=
  lowBytes 32 0xf7719c8f4996aa6277ef6a8fdf42864294a942216146aa5544b741854e160d7d

def sampleMasterHash : List Byte :=
  lowBytes 32 0xeb5148d1af913957c49b85051856c46198ce2b9fe8490a9def13bfe1eb8c3fb7

/-- Base 58 and the hashes of the two keys; no points are asked for. -/
def sampleBtcsuite : Btcsuite where
  base58Encode := Base58.encode
  base58Decode := Base58.decode
  base58Decode_encode := Base58.decode_encode
  doubleHashB bytes := if bytes = List.replicate 77 0 ++ [1] then blankHash else sampleMasterHash
  doubleHashB_length bytes := by split <;> rfl
  scalarBaseMult _ := (0, 0)
  serializeCompressed _ := []
  parsePubKey _ := .error "invalid pub key length"

theorem serializable_sampleMaster : Serializable sampleBtcsuite sampleMaster :=
  ⟨rfl, rfl, fun _ => by decide +kernel, nofun⟩

theorem serializable_blankKey : Serializable sampleBtcsuite blankKey :=
  ⟨rfl, rfl, fun _ => by decide +kernel, nofun⟩

theorem newKeyFromString_string_iff_blankKey :
    Serializable sampleBtcsuite blankKey ∧
      ∃ read, newKeyFromString sampleBtcsuite (blankKey.string sampleBtcsuite) = .ok read ∧
        Same read blankKey :=
  ⟨serializable_blankKey, (newKeyFromString_string_iff serializable_blankKey).2
    ⟨rfl, rfl, rfl, rfl, rfl, rfl⟩⟩

/-- The string of a master key is too short for the reader. -/
theorem sampleMaster_rejected :
    Serializable sampleBtcsuite sampleMaster ∧
      newKeyFromString sampleBtcsuite (sampleMaster.string sampleBtcsuite) =
        .error .invalidKeyLen :=
  ⟨serializable_sampleMaster, newKeyFromString_string serializable_sampleMaster fun _ => by decide⟩

end Bclib.Hdwal
