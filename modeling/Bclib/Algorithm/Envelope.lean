import Bclib.Algorithm.Cipher

namespace Bclib.Algorithm

open Data
open Go

/-! What is encrypted with a password is decrypted with it, and which bytes make the
decryption panic. -/

variable {crypto : Crypto}

theorem bytesToInt_of_four {b : List Byte} (four : b.length = 4) :
    bytesToInt b = (uint32 b).toInt := by
  have whole : (List.replicate (8 - b.length) 0#8 ++ b).take 8 =
      List.replicate (8 - b.length) 0#8 ++ b := List.take_of_length_le (by simp [four])
  rw [bytesToInt, bytesToInt32, if_pos (by omega), BitVec.setWidth_ofNat_of_le (by decide), uint32]
  exact congrArg (fun bytes => (BitVec.ofNat 32 bytes).toInt)
    ((congrArg ofBigEndian whole).trans (ofBigEndian_replicate_append _ b))

theorem intToBytes_length (n : Int) : (intToBytes n).length = 4 := putUint32_length _

theorem bytesToInt_intToBytes {n : Nat} (small : n < 2 ^ 31) :
    bytesToInt (intToBytes n) = n := by
  rw [bytesToInt_of_four (intToBytes_length n), intToBytes, uint32_putUint32,
    BitVec.toInt_ofInt_eq_self (by decide) (by omega) (by omega)]

def sizeField (dat : List Byte) : Int := bytesToInt ((dat.take 8).drop 4)

def SizeFits (dat : List Byte) : Prop := 0 ≤ sizeField dat ∧ sizeField dat ≤ dat.length - 8

theorem openEnvelope_tagged {dat : List Byte} (long : 8 ≤ dat.length)
    (tagged : dat.take 4 = walTag) :
    openEnvelope dat =
      match subslice dat 8 (8 + sizeField dat) with
      | none => .panic
      | some data => .ok data := by
  rw [openEnvelope, if_neg (by omega), if_neg (not_not.2 tagged)]
  rfl

theorem openEnvelope_fits {dat : List Byte} (long : 8 ≤ dat.length)
    (tagged : dat.take 4 = walTag) (fits : SizeFits dat) :
    openEnvelope dat = .ok ((dat.take (8 + sizeField dat).toNat).drop 8) := by
  obtain ⟨low, high⟩ := fits
  rw [openEnvelope_tagged long tagged, subslice, if_pos ⟨by omega, by omega, by omega⟩]
  rfl

theorem openEnvelope_misfits {dat : List Byte} (long : 8 ≤ dat.length)
    (tagged : dat.take 4 = walTag) (misfits : ¬SizeFits dat) :
    openEnvelope dat = .panic := by
  rw [openEnvelope_tagged long tagged, subslice, if_neg]
  rintro ⟨-, low, high⟩
  exact misfits ⟨by omega, by omega⟩

theorem openEnvelope_untagged {dat : List Byte}
    (untagged : ¬(8 ≤ dat.length ∧ dat.take 4 = walTag)) :
    openEnvelope dat = .error .failed := by
  rw [openEnvelope]
  split_ifs with short other
  · rfl
  · rfl
  · exact absurd ⟨by omega, not_not.1 other⟩ untagged

theorem padBlocks_append (dat : List Byte) :
    ∃ zeros, padBlocks dat = dat ++ List.replicate zeros 0 ∧ zeros < 16 ∧
      (dat.length + zeros) % 16 = 0 := by
  rw [padBlocks, blockSize]
  split_ifs with partly
  · refine ⟨_, rfl, ?_, ?_⟩ <;> omega
  · exact ⟨0, by simp, by decide, by omega⟩

theorem envelope_eq (data : List Byte) :
    ∃ zeros, envelope data = walTag ++ intToBytes data.length ++ data ++
        List.replicate zeros 0 ∧ zeros < 16 ∧ (data.length + 8 + zeros) % 16 = 0 := by
  have front : (walTag ++ intToBytes data.length ++ data).length = data.length + 8 := by
    rw [List.length_append, List.length_append, intToBytes_length, Nat.add_comm]
    rfl
  obtain ⟨zeros, padded, few, whole⟩ :=
    padBlocks_append (walTag ++ intToBytes data.length ++ data)
  exact ⟨zeros, padded, few, by rwa [front] at whole⟩

theorem envelope_length (data : List Byte) :
    (envelope data).length % 16 = 0 ∧ data.length + 8 ≤ (envelope data).length ∧
      (envelope data).length < data.length + 8 + 16 := by
  obtain ⟨zeros, shape, few, whole⟩ := envelope_eq data
  have total : (envelope data).length = data.length + 8 + zeros := by
    rw [shape, List.length_append, List.length_append, List.length_append, intToBytes_length,
      List.length_replicate, walTag]
    simp only [List.length_cons, List.length_nil]
    omega
  omega

theorem openEnvelope_envelope {data : List Byte} (small : data.length < 2 ^ 31) :
    openEnvelope (envelope data) = .ok data := by
  obtain ⟨zeros, shape, -, -⟩ := envelope_eq data
  have long := (envelope_length data).2.1
  have four := intToBytes_length data.length
  have shifted : envelope data =
      walTag ++ (intToBytes data.length ++ (data ++ List.replicate zeros 0)) := by
    rw [shape, List.append_assoc, List.append_assoc]
  have tagged : (envelope data).take 4 = walTag := by
    rw [shifted]
    exact List.take_left' rfl
  have size : sizeField (envelope data) = data.length := by
    have field : ((envelope data).take 8).drop 4 = intToBytes data.length := by
      rw [shape, List.append_assoc, List.take_left' (by rw [List.length_append, four]; rfl)]
      exact List.drop_left' rfl
    rw [sizeField, field, bytesToInt_intToBytes small]
  rw [openEnvelope_fits (by omega) tagged ⟨by omega, by omega⟩, size]
  have front : (8 + (data.length : Int)).toNat =
      (walTag ++ intToBytes data.length ++ data).length := by
    rw [List.length_append, List.length_append, four, walTag]
    simp only [List.length_cons, List.length_nil]
    omega
  rw [shape, front, List.take_left, List.drop_left' (by rw [List.length_append, four]; rfl)]

theorem encryptWithPassword_some (data password : List Byte) (keyword : Option (List Byte)) :
    encryptWithPassword crypto (some data) password keyword =
      some (onBlocks (crypto.aes (genSymmetrickeyFromPassword crypto password keyword))
        (envelope data)) := rfl

theorem decryptWithPassword_whole {data : List Byte} (positive : data.length ≠ 0)
    (whole : data.length % 16 = 0) (password : List Byte) (keyword : Option (List Byte)) :
    decryptWithPassword crypto (some data) password keyword =
      openEnvelope (onBlocks
        (crypto.aes (genSymmetrickeyFromPassword crypto password keyword)).symm data) := by
  rw [decryptWithPassword, if_neg positive, blockSize, if_neg (not_not.2 whole)]

theorem decryptWithPassword_sealed {data : List Byte} (small : data.length < 2 ^ 31)
    (password : List Byte) (keyword : Option (List Byte)) :
    decryptWithPassword crypto (some (onBlocks
        (crypto.aes (genSymmetrickeyFromPassword crypto password keyword)) (envelope data)))
      password keyword = .ok data := by
  obtain ⟨whole, long, -⟩ := envelope_length data
  rw [decryptWithPassword_whole (by rw [onBlocks_length]; omega)
    (by rw [onBlocks_length]; exact whole), onBlocks_leftInverse (Equiv.symm_apply_apply _)]
  exact openEnvelope_envelope small

/-- What was encrypted with a password is decrypted with it, and takes the least multiple
of 16 bytes that the data need with eight more. -/
theorem decryptWithPassword_encryptWithPassword (crypto : Crypto) {data : List Byte}
    (small : data.length < 2 ^ 31) (password : List Byte) (keyword : Option (List Byte)) :
    ∃ cipher, encryptWithPassword crypto (some data) password keyword = some cipher ∧
      decryptWithPassword crypto (some cipher) password keyword = .ok data ∧
      16 ∣ cipher.length ∧ data.length + 8 ≤ cipher.length ∧
      ∀ length, 16 ∣ length → data.length + 8 ≤ length → cipher.length ≤ length := by
  obtain ⟨whole, long, least⟩ := envelope_length data
  refine ⟨_, encryptWithPassword_some data password keyword,
    decryptWithPassword_sealed small password keyword, ?_, ?_, ?_⟩
  · rw [onBlocks_length]
    exact Nat.dvd_of_mod_eq_zero whole
  · rw [onBlocks_length]
    exact long
  · intro length multiple enough
    rw [onBlocks_length]
    omega

/-- The hashes of the password `Passw0rd!`, and AES where its key takes one block to
another. -/
def sampleCrypto (plain cipher : Block Byte 16) : Crypto where
  sha3 _ :=
    ⟨lowBytes 32 0xeda9f5876f481ffcc37f6b43af83bde269648f75b411b5d4124dea837acd1b06, rfl⟩
  ripemd160 _ := Block.fill 20 0
  md5 _ :=
    ⟨lowBytes 16 0x82d613560417b084b10a94c76ad09b30, rfl⟩
  aes _ := Equiv.swap plain cipher

/-- The tag, the length three, the data `bcb` and zeros. -/
def samplePlain : Block Byte 16 :=
  ⟨lowBytes 16 0x2e77616c000000036263620000000000, rfl⟩

def sampleCipher : Block Byte 16 :=
  ⟨lowBytes 16 0xc1aaec6b226485045f9643d8b157c5b8, rfl⟩

theorem decryptWithPassword_encryptWithPassword_sample :
    encryptWithPassword (sampleCrypto samplePlain sampleCipher) (some (str "bcb"))
        (str "Passw0rd!") none = some sampleCipher.1 ∧
      ∃ cipher, encryptWithPassword (sampleCrypto samplePlain sampleCipher)
          (some (str "bcb")) (str "Passw0rd!") none = some cipher ∧
        decryptWithPassword (sampleCrypto samplePlain sampleCipher) (some cipher)
          (str "Passw0rd!") none = .ok (str "bcb") ∧
        16 ∣ cipher.length ∧ (str "bcb").length + 8 ≤ cipher.length ∧
        ∀ length, 16 ∣ length → (str "bcb").length + 8 ≤ length → cipher.length ≤ length :=
  ⟨by decide +kernel, decryptWithPassword_encryptWithPassword _ (by decide) _ _⟩

/-- What the decryption is to keep to: it does not panic, and what it returns was behind the
tag and as long as the length says. -/
structure Safe (crypto : Crypto) (data : Option (List Byte)) (password : List Byte)
    (keyword : Option (List Byte)) : Prop where
  noPanic : decryptWithPassword crypto data password keyword ≠ .panic
  returned : ∀ out, decryptWithPassword crypto data password keyword = .ok out →
    ∃ bytes dat, data = some bytes ∧
      dat = onBlocks (crypto.aes (genSymmetrickeyFromPassword crypto password keyword)).symm bytes ∧
      dat.take 4 = walTag ∧ 0 ≤ sizeField dat ∧ sizeField dat ≤ bytes.length - 8

/-- The data are some blocks encrypted that start with the tag and a length which is
negative or larger than what follows. -/
def Forged (crypto : Crypto) (data : Option (List Byte)) (password : List Byte)
    (keyword : Option (List Byte)) : Prop :=
  ∃ plain, plain.length % 16 = 0 ∧ plain.take 4 = walTag ∧ ¬SizeFits plain ∧
    data = some (onBlocks (crypto.aes (genSymmetrickeyFromPassword crypto password keyword)) plain)

/-- The decryption is safe for all data but the forged ones. -/
theorem decryptWithPassword_safe_iff (crypto : Crypto) (data : Option (List Byte))
    (password : List Byte) (keyword : Option (List Byte)) :
    Safe crypto data password keyword ↔ ¬Forged crypto data password keyword := by
  constructor
  · rintro safe ⟨plain, whole, tagged, misfits, rfl⟩
    have long : 8 ≤ plain.length := by
      have four := congrArg List.length tagged
      rw [List.length_take, walTag] at four
      simp only [List.length_cons, List.length_nil] at four
      omega
    apply safe.noPanic
    rw [decryptWithPassword_whole (by rw [onBlocks_length]; omega)
      (by rw [onBlocks_length]; exact whole),
      onBlocks_leftInverse (Equiv.symm_apply_apply _)]
    exact openEnvelope_misfits long tagged misfits
  · intro genuine
    cases data with
    | none => exact ⟨by simp [decryptWithPassword], by simp [decryptWithPassword]⟩
    | some bytes =>
        by_cases positive : bytes.length = 0
        · exact ⟨by simp [decryptWithPassword, positive], by simp [decryptWithPassword, positive]⟩
        by_cases whole : bytes.length % 16 = 0
        · have opened := @decryptWithPassword_whole crypto _ positive whole password keyword
          generalize plainText : onBlocks (crypto.aes
            (genSymmetrickeyFromPassword crypto password keyword)).symm bytes = dat at opened
          have total : dat.length = bytes.length := by rw [← plainText, onBlocks_length]
          by_cases tagged : 8 ≤ dat.length ∧ dat.take 4 = walTag
          · by_cases fits : SizeFits dat
            · rw [openEnvelope_fits tagged.1 tagged.2 fits] at opened
              refine ⟨by simp [opened], fun out _ => ⟨bytes, dat, rfl, plainText.symm, tagged.2,
                fits.1, ?_⟩⟩
              exact total ▸ fits.2
            · exact absurd ⟨dat, by rw [total]; exact whole, tagged.2, fits, congrArg some
                ((onBlocks_symm_eq_iff _ _ _).1 plainText).symm⟩ genuine
          · rw [openEnvelope_untagged tagged] at opened
            exact ⟨by simp [opened], by simp [opened]⟩
        · have rejected : decryptWithPassword crypto (some bytes) password keyword =
              .error .notBlocks := by
            rw [decryptWithPassword, if_neg positive, blockSize, if_pos whole]
          exact ⟨by simp [rejected], by simp [rejected]⟩

/-- The tag, the length minus one, and zeros. -/
def forgedPlain : Block Byte 16 :=
  ⟨lowBytes 16 0x2e77616cffffffff0000000000000000, rfl⟩

def forgedCipher : Block Byte 16 :=
  ⟨lowBytes 16 0xc58c2163a052471f6fbc1cda890c7fc2, rfl⟩

/-- A negative length is a slice bound below the one in front of it. -/
theorem forgedCipher_panics :
    decryptWithPassword (sampleCrypto forgedPlain forgedCipher) (some forgedCipher.1)
        (str "Passw0rd!") none = .panic ∧
      ¬Safe (sampleCrypto forgedPlain forgedCipher) (some forgedCipher.1)
        (str "Passw0rd!") none := by
  have panics : decryptWithPassword (sampleCrypto forgedPlain forgedCipher)
      (some forgedCipher.1) (str "Passw0rd!") none = .panic := by decide +kernel
  exact ⟨panics, fun safe => safe.noPanic panics⟩

end Bclib.Algorithm
