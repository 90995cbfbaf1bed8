import Bclib.Tx.Parse

namespace Bclib.Tx

open Data
open Go
open Rlp

/-! A wrapped transaction is parsed back. -/

theorem copied_self (data : List Byte) : (copied data.length data).1 = data := by
  simp [copied]

section RoundTrip

variable {library : Library} {package : Package}

theorem signPayload_hex {hexData : Text} {privKeyBytes : List Byte}
    (decoded : hexDecode hexData = (privKeyBytes, none)) (payload : List Byte) :
    signPayload library payload (str "0x" ++ hexData) =
      .ok (signed library (copied 64 privKeyBytes) payload) := by
  have plain : 58 ∉ str "0x" ++ hexData := fun member =>
    (List.mem_append.1 member).elim (by decide) fun inside =>
      absurd (isHexDigit_of_hexDecode (congrArg Prod.snd decoded) 58 inside) (by decide)
  have single : (str "0x" ++ hexData).splitOn 58 = [str "0x" ++ hexData] :=
    List.splitOn_eq_singleton plain
  have leads : (str "0x").isPrefixOf (str "0x" ++ hexData) = true := by simp
  have tail : (str "0x" ++ hexData).drop 2 = hexData := rfl
  simp only [signPayload, leads, single, tail, decoded, List.length_singleton, and_self, if_true]

theorem wrapPayload_eq (tx : Transaction) (fits : tx.bytes.length < maxLen) :
    wrapPayload tx.nonce tx.gasLimit tx.note tx.messages = .ok tx.bytes := by
  have written : encodeToBytes transactionType tx.toValue = .ok tx.bytes :=
    encodeToBytes_eq (Solid.nonNegative _ _ (solid_transaction _)) fits
  rw [wrapPayload]
  split
  · rename_i err failed
    cases failed.symm.trans written
  · rename_i txRlp ran
    exact congrArg Except.ok (Except.ok.inj (ran.symm.trans written))

theorem assemble_eq (package : Package) (chainID payload : List Byte) (sigInfo : Ed25519Sig)
    (fits : sigInfo.bytes.length < maxLen) :
    assemble package chainID payload sigInfo = .ok ([46].intercalate
      [chainID ++ str "<tx>", package.version, package.encodeToString payload, str "<1>",
        package.encodeToString sigInfo.bytes]) := by
  have same : enc ed25519SigType {} sigInfo.toValue = sigInfo.bytes := enc_eq _ _ _
  obtain ⟨r, opened, ready, pending⟩ := @encodeToReader_eq ed25519SigType sigInfo.toValue
    (Solid.nonNegative _ _ (solid_ed25519Sig _)) (same ▸ fits)
  obtain ⟨after, drained, -⟩ := EncReader.read_eq ready sigInfo.bytes.length
  rw [same] at opened pending
  rw [pending, List.take_length] at drained
  simp only [assemble, opened, drained, copied_self]

theorem txParse_assembled
    (inverse : ∀ bytes, library.base58Decode (Base58.encode bytes) = bytes) {chainID : Text}
    (undotted : 46 ∉ chainID) (payload sigBytes : List Byte) :
    txParse library package chainID ([46].intercalate [chainID ++ str "<tx>", package.version,
        package.encodeToString payload, str "<1>", package.encodeToString sigBytes]) =
      parseSigned library payload sigBytes := by
  have plain : ∀ field ∈ [chainID ++ str "<tx>", package.version,
      package.encodeToString payload, str "<1>", package.encodeToString sigBytes],
      46 ∉ field := by
    have mac : 46 ∉ chainID ++ str "<tx>" := fun member =>
      (List.mem_append.1 member).elim undotted (by decide)
    have version : 46 ∉ package.version := by cases package <;> decide
    simp only [List.forall_mem_cons]
    exact ⟨mac, version, package.dot_not_mem_encodeToString payload, by decide,
      package.dot_not_mem_encodeToString sigBytes, (fun _ absent => nomatch absent)⟩
  simp only [txParse, splitOn_fields plain (List.cons_ne_nil _ _), ne_eq, not_true_eq_false,
    or_self, if_false, Package.decodeString_encodeToString inverse]

theorem Ed25519Sig.bytes_eq (sigInfo : Ed25519Sig) :
    sigInfo.bytes = wireList (wireString sigInfo.sigType ++
      (0xA0 :: sigInfo.pubKey.1 ++ 0xB8 :: 0x40 :: sigInfo.sigValue.1)) := by
  obtain ⟨sigType, ⟨pubKey, pubLength⟩, ⟨sigValue, sigLength⟩⟩ := sigInfo
  have pubWire : wireString pubKey = 0xA0 :: pubKey := by
    rw [wireString_of_not_single (by simp [IsSingle, pubLength]), pubLength]
    rfl
  have sigWire : wireString sigValue = 0xB8 :: 0x40 :: sigValue := by
    rw [wireString_of_not_single (by simp [IsSingle, sigLength]), sigLength]
    rfl
  refine (enc_eq ed25519SigType {} _).symm.trans ?_
  change wireList (wireString sigType ++ (wireString pubKey ++ (wireString sigValue ++ []))) = _
  rw [pubWire, sigWire, List.append_nil]

/-- What every signature of the scheme starts with: a list of 107 bytes, its first field
the name of the scheme. -/
def sigHeader : List Byte := 0xF8 :: 0x6B :: 0x87 :: str "ed25519"

theorem signed_bytes_eq {sigInfo : Ed25519Sig} (scheme : sigInfo.sigType = str "ed25519") :
    sigInfo.bytes =
      sigHeader ++ (0xA0 :: sigInfo.pubKey.1 ++ 0xB8 :: 0x40 :: sigInfo.sigValue.1) := by
  have content : (wireString (str "ed25519") ++
      (0xA0 :: sigInfo.pubKey.1 ++ 0xB8 :: 0x40 :: sigInfo.sigValue.1)).length = 107 := by
    simp only [List.length_append, List.length_cons, sigInfo.pubKey.2, sigInfo.sigValue.2]
    rfl
  rw [sigInfo.bytes_eq, scheme, wireList, content]
  rfl

theorem signed_bytes_length {sigInfo : Ed25519Sig} (scheme : sigInfo.sigType = str "ed25519") :
    sigInfo.bytes.length = 109 := by
  rw [signed_bytes_eq scheme]
  simp only [List.length_append, List.length_cons, sigInfo.pubKey.2, sigInfo.sigValue.2]
  rfl

theorem decode_sigBytes (sigInfo : Ed25519Sig) (fits : sigInfo.bytes.length < maxLen) :
    decode ed25519SigType sigInfo.bytes = .ok (none, sigInfo.toValue) := by
  have whole := @decode_append ed25519SigType rfl rfl _ (solid_ed25519Sig sigInfo.toValue) []
    (by rw [List.append_nil]; exact fits)
  rwa [List.append_nil] at whole

theorem decode_txBytes (tx : Transaction) (fits : tx.bytes.length < maxLen) :
    decode transactionType tx.bytes = .ok (none, tx.toValue) := by
  have whole := @decode_append transactionType rfl rfl _ (solid_transaction tx.toValue) []
    (by rw [List.append_nil]; exact fits)
  rwa [List.append_nil] at whole

theorem parsePayload_bytes (pubKey : PubKeyEd25519) {tx : Transaction}
    (count : tx.messages.length = 1 ∨ tx.messages.length = 2)
    (fits : tx.bytes.length < maxLen) :
    parsePayload pubKey tx.bytes = .ok ⟨tx, pubKey, none⟩ := by
  have atMost : ¬ 2 < tx.messages.length := by omega
  have atLeast : ¬ tx.messages.length = 0 := by omega
  simp only [parsePayload, decode_txBytes tx fits, Transaction.ofValue_toValue,
    if_neg atMost, if_neg atLeast, Option.map_none]

theorem parseSigned_bytes {sigInfo : Ed25519Sig} {tx : Transaction}
    (verified : library.verify sigInfo.pubKey tx.bytes sigInfo.sigValue = true)
    (count : tx.messages.length = 1 ∨ tx.messages.length = 2)
    (fits : tx.bytes.length < maxLen) (sigFits : sigInfo.bytes.length < maxLen) :
    parseSigned library tx.bytes sigInfo.bytes = .ok ⟨tx, sigInfo.pubKey, none⟩ := by
  simp only [parseSigned, decode_sigBytes sigInfo sigFits, Ed25519Sig.ofValue_toValue,
    if_pos verified, parsePayload_bytes sigInfo.pubKey count fits]

/-- A transaction of one or two messages, wrapped with a key whose signatures verify, is
parsed back. -/
theorem txParse_wrapTx (library : Library)
    (inverse : ∀ bytes, library.base58Decode (Base58.encode bytes) = bytes)
    (package : Package) {chainID : Text} (undotted : 46 ∉ chainID)
    (nonce gasLimit : BitVec 64) (note : Text) (messages : List Message)
    (count : messages.length = 1 ∨ messages.length = 2)
    {hexData : Text} {privKeyBytes : List Byte}
    (decoded : hexDecode hexData = (privKeyBytes, none))
    (verifies : ∀ message, library.verify (library.makePublicKey (copied 64 privKeyBytes))
      message (library.sign (copied 64 privKeyBytes) message) = true)
    (fits : (Transaction.mk nonce gasLimit note messages).bytes.length < maxLen) :
    ∃ payload string, wrapPayload nonce gasLimit note messages = .ok payload ∧
      wrapTx library package chainID payload (str "0x" ++ hexData) = .ok string ∧
      txParse library package chainID string =
        .ok ⟨⟨nonce, gasLimit, note, messages⟩,
          library.makePublicKey (copied 64 privKeyBytes), none⟩ := by
  have sigFits : (signed library (copied 64 privKeyBytes)
      (Transaction.mk nonce gasLimit note messages).bytes).bytes.length < maxLen := by
    rw [signed_bytes_length rfl]
    decide
  have wrapped := assemble_eq package chainID
    (Transaction.mk nonce gasLimit note messages).bytes _ sigFits
  refine ⟨_, _, wrapPayload_eq ⟨nonce, gasLimit, note, messages⟩ fits, ?_,
    (txParse_assembled inverse undotted _ _).trans
      (parseSigned_bytes (verifies _) count fits sigFits)⟩
  simp only [wrapTx, wrapTxEx, signPayload_hex decoded]
  exact wrapped

def sampleKey : Text :=
  str "9d61b19deffd5a60ba844af492ec2cc44449c5697b326919703bac031cae7f60" ++
    str "d75a980182b10ab7d54bfed3c964073a0ee172f3daa62325af021a68f707511a"

theorem txParse_wrapTx_sample :
    wrapPayload 1 500 (str "hi") [⟨str "local7X", 0x44d8ca60, [[5]]⟩] = .ok samplePayload ∧
      ∃ payload string,
        wrapPayload 1 500 (str "hi") [⟨str "local7X", 0x44d8ca60, [[5]]⟩] = .ok payload ∧
        wrapTx sampleLibrary .tx2 (str "local") payload (str "0x" ++ sampleKey) =
          .ok string ∧
        txParse sampleLibrary .tx2 (str "local") string =
          .ok ⟨⟨1, 500, str "hi", [⟨str "local7X", 0x44d8ca60, [[5]]⟩]⟩, samplePubKey,
            none⟩ := by
  refine ⟨by decide +kernel, ?_⟩
  exact txParse_wrapTx sampleLibrary Base58.decode_encode .tx2 (by decide) 1 500 (str "hi")
    [⟨str "local7X", 0x44d8ca60, [[5]]⟩] (Or.inl rfl) (@rfl _ (hexDecode sampleKey))
    (fun _ => decide_eq_true ⟨rfl, rfl⟩) (by decide +kernel)

end RoundTrip

end Bclib.Tx
