import Bclib.Rlp.OutputSpec
import Bclib.Tx.Model

namespace Bclib.Tx

open Data
open Go
open Rlp

/-! What `TxParse` accepts. -/

theorem Transaction.toValue_ofValue (value : Value transactionType) :
    (Transaction.ofValue value).toValue = value := by
  obtain ⟨nonce, gasLimit, note, (messages : List (Value messageType)), _⟩ := value
  have same : (messages.map Message.ofValue).map Message.toValue = messages := by
    rw [List.map_map]
    exact List.map_id messages
  exact congrArg (fun messages => (nonce, gasLimit, note, messages, ())) same

theorem Transaction.ofValue_toValue (tx : Transaction) :
    Transaction.ofValue tx.toValue = tx := by
  obtain ⟨nonce, gasLimit, note, messages⟩ := tx
  have same : (messages.map Message.toValue).map Message.ofValue = messages := by
    rw [List.map_map]
    exact List.map_id messages
  exact congrArg (Transaction.mk nonce gasLimit note) same

theorem Ed25519Sig.ofValue_toValue (sigInfo : Ed25519Sig) :
    Ed25519Sig.ofValue sigInfo.toValue = sigInfo := rfl

theorem Ed25519Sig.toValue_ofValue (value : Value ed25519SigType) :
    (Ed25519Sig.ofValue value).toValue = value := rfl

theorem solid_transaction (value : Value transactionType) : Solid transactionType value := by
  simp [transactionType, messageType, Solid, FieldsSolid, GoType.byte]

theorem solid_ed25519Sig (value : Value ed25519SigType) : Solid ed25519SigType value := by
  simp [ed25519SigType, Solid, FieldsSolid, GoType.byte]

def Transaction.bytes (tx : Transaction) : List Byte :=
  itemBytes transactionType (itemOf transactionType tx.toValue)

def Ed25519Sig.bytes (sigInfo : Ed25519Sig) : List Byte :=
  itemBytes ed25519SigType (itemOf ed25519SigType sigInfo.toValue)

namespace Package

variable {library : Library} {package : Package}

theorem decodeString_encodeToString
    (inverse : ∀ bytes, library.base58Decode (Base58.encode bytes) = bytes)
    (package : Package) (bytes : List Byte) :
    package.decodeString library (package.encodeToString bytes) = some bytes := by
  cases package with
  | tx2 => exact congrArg some (inverse bytes)
  | tx3 => exact Base64.decode_encode bytes

theorem dot_not_mem_encodeToString (package : Package) (bytes : List Byte) :
    46 ∉ package.encodeToString bytes := by
  intro member
  cases package with
  | tx2 => exact Base58.encode_plain bytes 46 member rfl
  | tx3 => exact (Base64.encode_plain bytes 46 member).2 rfl

theorem decodeString_short {string : Text} {bytes : List Byte} (short : string.length < maxLen)
    (decoded : package.decodeString library string = some bytes) : bytes.length < maxLen := by
  cases package with
  | tx2 => exact Option.some.inj decoded ▸ library.base58Decode_short string short
  | tx3 => exact Nat.lt_of_le_of_lt (Base64.decode_length_le decoded) short

end Package

theorem splitOn_fields {fields : List Text} (plain : ∀ field ∈ fields, 46 ∉ field)
    (some : fields ≠ []) : ([46].intercalate fields).splitOn 46 = fields :=
  List.splitOn_intercalate 46 plain some

theorem length_le_of_splitOn {string field : Text} (member : field ∈ string.splitOn 46) :
    field.length ≤ string.length := by
  have joined : [46].intercalate (string.splitOn 46) = string := List.intercalate_splitOn 46
  have inside : ∀ fields : List Text, field ∈ fields →
      field.length ≤ ([46].intercalate fields).length := by
    intro fields
    induction fields with
    | nil => exact fun absent => nomatch absent
    | cons first rest ih =>
        intro here
        cases rest with
        | nil =>
            obtain rfl := List.mem_singleton.1 here
            simp
        | cons second others =>
            rw [List.intercalate_cons_cons, List.length_append, List.length_append]
            cases here with
            | head => omega
            | tail _ later =>
                have bound := ih later
                omega
  exact joined ▸ inside _ member

section Parse

variable {library : Library} {package : Package}

structure Genuine (library : Library) (package : Package) (chainID txString : Text)
    (parsed : Parsed) (txData sigBytes : List Byte) (siginfo : Ed25519Sig) : Prop where
  fields : ∃ payload sig, txString.splitOn 46 =
      [chainID ++ str "<tx>", package.version, payload, str "<1>", sig] ∧
    package.decodeString library payload = some txData ∧
    package.decodeString library sig = some sigBytes
  sigDecoded : decode ed25519SigType sigBytes = .ok (none, siginfo.toValue)
  signer : parsed.pubKey = siginfo.pubKey
  verified : library.verify parsed.pubKey txData siginfo.sigValue = true
  txDecoded : decode transactionType txData = .ok (none, parsed.tx.toValue)
  messages : parsed.tx.messages.length = 1 ∨ parsed.tx.messages.length = 2

theorem parsePayload_spec (pubKey : PubKeyEd25519) {txData : List Byte}
    (short : txData.length < maxLen) :
    ∃ parsed, parsePayload pubKey txData = .ok parsed ∧ parsed.pubKey = pubKey ∧
      (parsed.err = none → decode transactionType txData = .ok (none, parsed.tx.toValue) ∧
        (parsed.tx.messages.length = 1 ∨ parsed.tx.messages.length = 2)) := by
  obtain ⟨err, value, decoded⟩ := @decode_total transactionType txData rfl rfl short
  simp only [parsePayload, decoded]
  split_ifs with many empty
  · exact ⟨_, rfl, rfl, (fun absent => nomatch absent)⟩
  · exact ⟨_, rfl, rfl, (fun absent => nomatch absent)⟩
  · refine ⟨_, rfl, rfl, fun fine => ⟨?_, by dsimp only; omega⟩⟩
    cases err with
    | none => rw [Transaction.toValue_ofValue]
    | some err => nomatch fine

theorem parseSigned_spec {txData sigBytes : List Byte} (txShort : txData.length < maxLen)
    (sigShort : sigBytes.length < maxLen) :
    ∃ parsed, parseSigned library txData sigBytes = .ok parsed ∧
      (parsed.err = none → ∃ siginfo : Ed25519Sig,
        decode ed25519SigType sigBytes = .ok (none, siginfo.toValue) ∧
        parsed.pubKey = siginfo.pubKey ∧
        library.verify parsed.pubKey txData siginfo.sigValue = true ∧
        decode transactionType txData = .ok (none, parsed.tx.toValue) ∧
        (parsed.tx.messages.length = 1 ∨ parsed.tx.messages.length = 2)) := by
  obtain ⟨err, value, decoded⟩ := @decode_total ed25519SigType sigBytes rfl rfl sigShort
  cases err with
  | some err =>
      simp only [parseSigned, decoded]
      exact ⟨_, rfl, (fun absent => nomatch absent)⟩
  | none =>
      simp only [parseSigned, decoded]
      split_ifs with verified
      · obtain ⟨parsed, ran, signer, accepted⟩ :=
          parsePayload_spec (Ed25519Sig.ofValue value).pubKey txShort
        refine ⟨parsed, ran, fun fine => ⟨Ed25519Sig.ofValue value, ?_, signer, ?_, accepted fine⟩⟩
        · rw [Ed25519Sig.toValue_ofValue]
        · rw [signer]
          exact verified
      · exact ⟨_, rfl, (fun absent => nomatch absent)⟩

theorem txParse_spec (chainID : Text) {txString : Text} (short : txString.length < maxLen) :
    ∃ parsed, txParse library package chainID txString = .ok parsed ∧
      (parsed.err = none → ∃ txData sigBytes siginfo,
        txData.length < maxLen ∧ sigBytes.length < maxLen ∧
        Genuine library package chainID txString parsed txData sigBytes siginfo) := by
  have small : ∀ field ∈ txString.splitOn 46, field.length < maxLen := fun field member =>
    Nat.lt_of_le_of_lt (length_le_of_splitOn member) short
  unfold txParse
  split
  · rename_i mac version payload signerNumber sig split
    rw [split] at small
    split_ifs with wrong
    · exact ⟨_, rfl, (fun absent => nomatch absent)⟩
    · simp only [not_or, ne_eq, not_not] at wrong
      obtain ⟨rfl, rfl, rfl⟩ := wrong
      cases payloadDecoded : package.decodeString library payload with
      | none => exact ⟨_, rfl, (fun absent => nomatch absent)⟩
      | some txData =>
          cases sigDecoded : package.decodeString library sig with
          | none => exact ⟨_, rfl, (fun absent => nomatch absent)⟩
          | some sigBytes =>
              have txShort := Package.decodeString_short (small payload (by simp))
                payloadDecoded
              have sigShort := Package.decodeString_short (small sig (by simp)) sigDecoded
              obtain ⟨parsed, ran, accepted⟩ := @parseSigned_spec library _ _ txShort sigShort
              refine ⟨parsed, ran, fun fine => ?_⟩
              obtain ⟨siginfo, read, signer, verified, txDecoded, messages⟩ := accepted fine
              exact ⟨txData, sigBytes, siginfo, txShort, sigShort,
                ⟨payload, sig, split, payloadDecoded, sigDecoded⟩, read, signer, verified,
                txDecoded, messages⟩
  · exact ⟨_, rfl, (fun absent => nomatch absent)⟩

end Parse

/-- Whatever the string, `TxParse` returns; without an error, the string is genuine and
the transaction is what the front of the signed data decodes to. -/
theorem txParse_sound (library : Library) (package : Package) (chainID txString : Text)
    (short : txString.length < maxLen) :
    ∃ parsed, txParse library package chainID txString = .ok parsed ∧
      (parsed.err = none → ∃ txData sigBytes siginfo,
        Genuine library package chainID txString parsed txData sigBytes siginfo ∧
        ∃ front rest, txData = front ++ rest ∧
          decodeBytes (front.length + 1) transactionType front = .ok parsed.tx.toValue) := by
  obtain ⟨parsed, ran, accepted⟩ := @txParse_spec library package chainID _ short
  refine ⟨parsed, ran, fun fine => ?_⟩
  obtain ⟨txData, sigBytes, siginfo, txShort, -, genuine⟩ := accepted fine
  obtain ⟨solid, rest, split⟩ :=
    @decode_front transactionType _ rfl rfl rfl txShort _ genuine.txDecoded
  have fits : encodedLength transactionType parsed.tx.toValue < maxLen := by
    rw [split, List.length_append] at txShort
    exact Nat.lt_of_le_of_lt (Nat.le_add_right _ _) txShort
  exact ⟨txData, sigBytes, siginfo, genuine, _, rest, split,
    decodeBytes_itemBytes rfl rfl solid fits (Nat.lt_succ_self _)⟩

/-! A signed transaction: one message, its signature under a known key. -/

def samplePayload : List Byte :=
  bigEndian 0xd8018201f4826869d0cf876c6f63616c37588444d8ca60c105

def samplePubKey : PubKeyEd25519 :=
  ⟨bigEndian 0xd75a980182b10ab7d54bfed3c964073a0ee172f3daa62325af021a68f707511a,
    by decide +kernel⟩

def sampleSignature : SignatureEd25519 :=
  ⟨bigEndian 0xc8c1f00847c1de66282bdbdca1678d20f0fe015742bd821995f0a02f27e1d6b2 ++
      bigEndian 0xefb66b5d94971d867a8baf71d00172a6c0a8c52d1702bac9468eae09f3324f08,
    by decide +kernel⟩

/-- Signing and verifying as the scheme does for the key and the payload. -/
def sampleLibrary : Library where
  makePublicKey _ := samplePubKey
  sign _ message := if message = samplePayload then sampleSignature else copied 64 []
  verify pubKey message signature :=
    pubKey = samplePubKey ∧
      signature = if message = samplePayload then sampleSignature else copied 64 []
  base58Decode := Base58.decode
  base58Decode_short string short :=
    Nat.lt_of_le_of_lt (Base58.decode_length_le string) short
  loadAccount _ _ _ := .error (str "KeyStorePath does not exist")

def sampleString : Text :=
  str "local<tx>.v3.2AGCAfSCaGnQz4dsb2NhbDdYhETYymDBBQ==.<1>." ++
    str "+GuHZWQyNTUxOaDXWpgBgrEKt9VL/tPJZAc6DuFy89qmIyWvAhpo9wdRGrhAyMHwCEfB3mYo" ++
    str "K9vcoWeNIPD+AVdCvYIZlfCgLyfh1rLvtmtdlJcdhnqLr3HQAXKmwKjFLRcCuslGjq4J8zJPCA=="

def sampleTx : Transaction :=
  ⟨1, 500, str "hi", [⟨str "local7X", 0x44d8ca60, [[5]]⟩]⟩

theorem txParse_sampleString :
    txParse sampleLibrary .tx3 (str "local") sampleString =
      .ok ⟨sampleTx, samplePubKey, none⟩ := by
  decide +kernel

theorem txParse_sound_sample :
    (txParse sampleLibrary .tx3 (str "local") sampleString).toOption.map Parsed.err =
        some none ∧
      ∃ parsed, txParse sampleLibrary .tx3 (str "local") sampleString = .ok parsed ∧
        (parsed.err = none → ∃ txData sigBytes siginfo,
          Genuine sampleLibrary .tx3 (str "local") sampleString parsed txData sigBytes
            siginfo ∧
          ∃ front rest, txData = front ++ rest ∧
            decodeBytes (front.length + 1) transactionType front =
              .ok parsed.tx.toValue) :=
  ⟨by rw [txParse_sampleString]; rfl,
    txParse_sound sampleLibrary .tx3 (str "local") sampleString (by decide +kernel)⟩

end Bclib.Tx
