import Bclib.Algorithm.Cipher
import Bclib.Data.Base58

namespace Bclib.Algorithm

open Data
open Go

/-! Addresses: the hash of a public key with a checksum, behind the name of its chain. -/

/-- The text codec of `btcutil`, and what is known of it. -/
structure Base58Codec where
  encode : List Byte → GoString
  decode : GoString → List Byte
  decode_encode : ∀ bytes, decode (encode bytes) = bytes
  encode_alphabet : ∀ bytes, ∀ char ∈ encode bytes, char ∈ Base58.alphabet
  encode_decode : ∀ text, (∀ char ∈ text, char ∈ Base58.alphabet) → encode (decode text) = text
  decode_foreign : ∀ text char, char ∈ text → char ∉ Base58.alphabet → decode text = []

section Address

variable (crypto : Crypto) (codec : Base58Codec)

def checksummed (payload : List Byte) : List Byte :=
  payload ++ (crypto.ripemd160 payload).1.take 4

/-- The main chain and the name of the side chain in brackets; none where the slice bounds
are out of range. -/
def splitChainID (chainID : GoString) : Option (GoString × GoString) :=
  if 91 ∈ chainID then
    let start := indexByte chainID 91
    let ends := indexByte chainID 93
    match subslice chainID 0 start, subslice chainID (start + 1) ends with
    | some mainChainID, some chainName => some (mainChainID, chainName)
    | _, _ => none
  else some (chainID, [])

def addressText (chainID : GoString) (rpd : List Byte) : Option GoString :=
  match splitChainID chainID with
  | none => none
  | some (mainChainID, chainName) =>
      let address := mainChainID ++ codec.encode (checksummed crypto rpd)
      if chainName ≠ [] then some (address ++ str "0" ++ codec.encode chainName)
      else some address

/-- `PubKeyEd25519.Address`; none where it panics. -/
def address (pubKey : Block Byte 32) (chainID : GoString) : Option GoString :=
  if chainID = [] then none
  else
    match splitChainID chainID with
    | none => none
    | some (mainChainID, _) =>
        let rpd := crypto.ripemd160 (crypto.sha3 (mainChainID ++ pubKey.1)).1
        addressText crypto codec chainID rpd.1

def calcContractAddress (chainID ownerAddr contractName version : GoString) : GoString :=
  let sha := crypto.sha3 (chainID ++ contractName ++ version ++ ownerAddr)
  let rpd := crypto.ripemd160 sha.1
  chainID ++ codec.encode (checksummed crypto rpd.1)

inductive AddressError where
  | empty
  | chainID
  | parse
  | checksum
  deriving DecidableEq, Repr

def AddressError.text : AddressError → String
  | .empty => "Address cannot be empty!"
  | .chainID => "Address chainid is error!"
  | .parse => "Base58Addr parse error!"
  | .checksum => "Address checksum is error!"

def checkAddress (chainID addr : GoString) : Except AddressError Unit :=
  if addr = [] then .error .empty
  else if ¬chainID.isPrefixOf addr then .error .chainID
  else
    let base58Addr := removeFirst chainID addr
    let addrData := codec.decode base58Addr
    let len := addrData.length
    if len < 4 then .error .parse
    else
      let md := (crypto.ripemd160 (addrData.take (len - 4))).1
      if md.take 4 ≠ addrData.drop (len - 4) then .error .checksum else .ok ()

end Address

section Check

variable {crypto : Crypto} {codec : Base58Codec} {chainID addr : GoString}

theorem checksummed_length (payload : List Byte) :
    (checksummed crypto payload).length = payload.length + 4 := by
  rw [checksummed, List.length_append, List.length_take, (crypto.ripemd160 payload).2]
  rfl

theorem checksummed_injective : Function.Injective (checksummed crypto) := by
  intro left right same
  have lengths := congrArg List.length same
  rw [checksummed_length, checksummed_length] at lengths
  exact (List.append_inj same (by omega)).1

theorem Base58Codec.encode_injective (codec : Base58Codec) : Function.Injective codec.encode :=
  Function.LeftInverse.injective codec.decode_encode

theorem Base58Codec.encode_decode_of_ne_nil (codec : Base58Codec) {text : GoString}
    (decoded : codec.decode text ≠ []) : codec.encode (codec.decode text) = text := by
  apply codec.encode_decode
  intro char member
  by_contra foreign
  exact decoded (codec.decode_foreign text char member foreign)

theorem checkAddress_eq_ok_iff (nonempty : chainID ≠ []) :
    checkAddress crypto codec chainID addr = .ok () ↔
      ∃ payload, addr = chainID ++ codec.encode (checksummed crypto payload) := by
  constructor
  · intro accepted
    rw [checkAddress] at accepted
    split_ifs at accepted with empty begins
    obtain ⟨rest, rfl⟩ := List.isPrefixOf_iff_prefix.1 begins
    simp only [removeFirst_append] at accepted
    split_ifs at accepted with short wrong
    have decoded : codec.decode rest ≠ [] := fun nothing => short (by rw [nothing]; decide)
    have text := codec.encode_decode_of_ne_nil decoded
    refine ⟨(codec.decode rest).take ((codec.decode rest).length - 4), ?_⟩
    rw [checksummed, not_not.1 wrong, List.take_append_drop, text]
  · rintro ⟨payload, rfl⟩
    have length := @checksummed_length crypto payload
    have front : (checksummed crypto payload).take ((checksummed crypto payload).length - 4) =
        payload := by
      rw [length, Nat.add_sub_cancel, checksummed, List.take_left]
    have back : (checksummed crypto payload).drop ((checksummed crypto payload).length - 4) =
        (crypto.ripemd160 payload).1.take 4 := by
      rw [length, Nat.add_sub_cancel, checksummed, List.drop_left]
    have begins : chainID.isPrefixOf
        (chainID ++ codec.encode (checksummed crypto payload)) = true :=
      List.isPrefixOf_iff_prefix.2 (List.prefix_append _ _)
    rw [checkAddress, if_neg (by simp [nonempty]), if_neg (not_not.2 begins)]
    simp only [removeFirst_append, codec.decode_encode, front, back]
    rw [if_neg (by omega), if_neg (not_not.2 rfl)]

theorem checkAddress_calcContractAddress (nonempty : chainID ≠ [])
    (ownerAddr contractName version : GoString) :
    checkAddress crypto codec chainID
      (calcContractAddress crypto codec chainID ownerAddr contractName version) = .ok () :=
  (checkAddress_eq_ok_iff nonempty).2 ⟨_, rfl⟩

theorem addressText_plain (plain : 91 ∉ chainID) (rpd : List Byte) :
    addressText crypto codec chainID rpd =
      some (chainID ++ codec.encode (checksummed crypto rpd)) := by
  rw [addressText, splitChainID, if_neg plain]
  rfl

theorem splitChainID_bracket {mainChainID chainName : GoString} (bracket : 91 ∈ chainID)
    (split : splitChainID chainID = some (mainChainID, chainName)) :
    ∃ rest, chainID = mainChainID ++ 91 :: rest := by
  rw [splitChainID, if_pos bracket] at split
  cases found : chainID.idxOf? 91 with
  | none =>
      have index : indexByte chainID 91 = -1 := by rw [indexByte, found]
      have front : subslice chainID 0 (indexByte chainID 91) = none := by
        rw [index]
        exact if_neg (by omega)
      simp only [front] at split
      cases split
  | some start =>
      obtain ⟨inside, same, -⟩ := List.findIdx?_eq_some_iff_getElem.1 found
      have char : chainID[start] = 91 := beq_iff_eq.1 same
      have index : indexByte chainID 91 = start := by rw [indexByte, found]
      have front : subslice chainID 0 (indexByte chainID 91) = some (chainID.take start) := by
        rw [index]
        exact if_pos ⟨by omega, by omega, by omega⟩
      simp only [front] at split
      split at split
      · rename_i mainText chainText atMain atName
        cases atMain
        cases split
        refine ⟨chainID.drop (start + 1), ?_⟩
        rw [← char, List.getElem_cons_drop, List.take_append_drop]
      · cases split

/-- No address of a side chain starts with its whole chain identifier: behind the main chain
comes a character of the alphabet, a zero or nothing. -/
theorem addressText_ne_append (bracket : 91 ∈ chainID) {rpd : List Byte}
    (made : addressText crypto codec chainID rpd = some addr) (tail : GoString) :
    addr ≠ chainID ++ tail := by
  have noBracket : ∀ bytes later : List Byte, later.head? ≠ some 91 → ∀ others,
      codec.encode bytes ++ later ≠ 91 :: others := by
    intro bytes later other others same
    cases text : codec.encode bytes with
    | nil =>
        rw [text, List.nil_append] at same
        rw [same] at other
        exact other rfl
    | cons char rest =>
        rw [text, List.cons_append, List.cons.injEq] at same
        have inside := codec.encode_alphabet bytes char (by rw [text]; exact List.mem_cons_self)
        rw [same.1] at inside
        revert inside
        decide
  rw [addressText] at made
  cases split : splitChainID chainID with
  | none =>
      rw [split] at made
      cases made
  | some parts =>
      obtain ⟨mainChainID, chainName⟩ := parts
      obtain ⟨rest, whole⟩ := splitChainID_bracket bracket split
      simp only [split] at made
      split_ifs at made with side
      · have zero : (str "0" ++ codec.encode chainName).head? ≠ some 91 := fun same =>
          absurd (Option.some.inj same) (by decide)
        cases made
        rw [whole, List.append_assoc, List.append_assoc, List.append_assoc]
        intro same
        exact noBracket _ _ zero _ (List.append_cancel_left same)
      · cases made
        rw [whole, List.append_assoc]
        intro same
        exact noBracket _ [] (by decide) _
          ((List.append_nil _).trans (List.append_cancel_left same))

/-- The checker accepts a text exactly if it is the address of some hash. -/
def Agrees (crypto : Crypto) (codec : Base58Codec) (chainID addr : GoString) : Prop :=
  checkAddress crypto codec chainID addr = .ok () ↔
    ∃ hash : Block Byte 20, addressText crypto codec chainID hash.1 = some addr

/-- On a main chain, no payload of another length than a hash makes the text; on a side
chain, neither a payload behind the whole chain identifier nor a hash does. -/
def Unambiguous (crypto : Crypto) (codec : Base58Codec) (chainID addr : GoString) : Prop :=
  if 91 ∈ chainID then
    (∀ payload, addr ≠ chainID ++ codec.encode (checksummed crypto payload)) ∧
      ∀ hash : Block Byte 20, addressText crypto codec chainID hash.1 ≠ some addr
  else
    ∀ payload, addr = chainID ++ codec.encode (checksummed crypto payload) → payload.length = 20

theorem agrees_iff_unambiguous (nonempty : chainID ≠ []) :
    Agrees crypto codec chainID addr ↔ Unambiguous crypto codec chainID addr := by
  rw [Agrees, checkAddress_eq_ok_iff nonempty]
  by_cases bracket : 91 ∈ chainID
  · rw [Unambiguous, if_pos bracket]
    constructor
    · intro same
      refine ⟨fun payload accepted => ?_, fun hash made => ?_⟩
      · obtain ⟨hash, made⟩ := same.1 ⟨payload, accepted⟩
        exact addressText_ne_append bracket made _ accepted
      · obtain ⟨payload, accepted⟩ := same.2 ⟨hash, made⟩
        exact addressText_ne_append bracket made _ accepted
    · rintro ⟨rejected, none⟩
      exact ⟨fun ⟨payload, accepted⟩ => absurd accepted (rejected payload),
        fun ⟨hash, made⟩ => absurd made (none hash)⟩
  · rw [Unambiguous, if_neg bracket]
    simp only [addressText_plain bracket, Option.some.injEq]
    constructor
    · rintro same payload rfl
      obtain ⟨hash, made⟩ := same.1 ⟨payload, rfl⟩
      have payloads := checksummed_injective
        (codec.encode_injective (List.append_cancel_left made))
      rw [← payloads]
      exact hash.2
    · intro lengths
      constructor
      · rintro ⟨payload, rfl⟩
        exact ⟨⟨payload, lengths payload rfl⟩, rfl⟩
      · rintro ⟨hash, rfl⟩
        exact ⟨hash.1, rfl⟩

end Check

/-! The hash of nothing, and its hash. -/

def emptyHash : Block Byte 20 :=
  ⟨lowBytes 20 0x9c1185a5c5e9fc54612808977ee8f548b2258d31, rfl⟩

def emptyHashHash : Block Byte 20 :=
  ⟨lowBytes 20 0x38bbc57e4cbe8b6a1d2c999ef62503e0a6e58109, rfl⟩

/-- RIPEMD-160 on these two; nothing else is asked for. -/
def hashCrypto : Crypto where
  sha3 _ := Block.fill 32 0
  ripemd160 bytes := if bytes = [] then emptyHash else emptyHashHash
  md5 _ := Block.fill 16 0
  aes _ := Equiv.refl _

def base58Codec : Base58Codec where
  encode := Base58.encode
  decode := Base58.decode
  decode_encode := Base58.decode_encode
  encode_alphabet := Base58.encode_alphabet
  encode_decode _ := Base58.encode_decode
  decode_foreign _ _ := Base58.decode_foreign

theorem agrees_iff_unambiguous_main :
    str "bcb" ≠ [] ∧ Agrees hashCrypto base58Codec (str "bcb")
      (str "bcbFEDQP2D5zmpRXRG5zQn7vYVs4JVFq3YaR") := by
  refine ⟨by decide, (agrees_iff_unambiguous (by decide)).2 ?_⟩
  have made : str "bcbFEDQP2D5zmpRXRG5zQn7vYVs4JVFq3YaR" =
      str "bcb" ++ base58Codec.encode (checksummed hashCrypto emptyHash.1) := by decide +kernel
  rw [Unambiguous, if_neg (by decide)]
  intro payload same
  rw [made] at same
  rw [← checksummed_injective (base58Codec.encode_injective (List.append_cancel_left same))]
  exact emptyHash.2

/-- The checker accepts the checksum of nothing as an address, and rejects the addresses of
side chains. -/
theorem checksum_of_nothing_accepted :
    checkAddress hashCrypto base58Codec (str "bcb") (str "bcb4zNxKW") = .ok () ∧
      ¬Agrees hashCrypto base58Codec (str "bcb") (str "bcb4zNxKW") ∧
      addressText hashCrypto base58Codec (str "bcb[s1]") emptyHash.1 =
        some (str "bcbFEDQP2D5zmpRXRG5zQn7vYVs4JVFq3YaR09mS") ∧
      checkAddress hashCrypto base58Codec (str "bcb[s1]")
        (str "bcbFEDQP2D5zmpRXRG5zQn7vYVs4JVFq3YaR09mS") = .error .chainID := by
  have accepted : checkAddress hashCrypto base58Codec (str "bcb") (str "bcb4zNxKW") = .ok () := by
    decide +kernel
  have nothing : str "bcb4zNxKW" =
      str "bcb" ++ base58Codec.encode (checksummed hashCrypto []) := by decide +kernel
  refine ⟨accepted, fun same => ?_, by decide +kernel, by decide +kernel⟩
  obtain ⟨hash, made⟩ := same.1 accepted
  rw [addressText_plain (by decide), nothing] at made
  have empty := checksummed_injective
    (base58Codec.encode_injective (List.append_cancel_left (Option.some.inj made)))
  have length := hash.2
  rw [empty] at length
  cases length

end Bclib.Algorithm
