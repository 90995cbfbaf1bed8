import Bclib.Data.Base58
import Bclib.Data.Base64
import Bclib.Go.Hex
import Bclib.Rlp.Output
import Bclib.Rlp.Reader

namespace Bclib.Tx

open Data
open Go
open Rlp

/-! Transaction strings: how packages `tx2` and `tx3` wrap a payload with its
signature, and how `TxParse` takes one apart. -/

abbrev Text := List Byte

abbrev Octets (length : Nat) := { bytes : List Byte // bytes.length = length }

abbrev PubKeyEd25519 := Octets 32

abbrev PrivKeyEd25519 := Octets 64

abbrev SignatureEd25519 := Octets 64

/-- `copy` into a zeroed array. -/
def copied (length : Nat) (data : List Byte) : Octets length :=
  ⟨data.take length ++ List.replicate (length - data.length) 0, by simp; omega⟩

def messageType : GoType :=
  .struct (.cons "Contract" {} .string (.cons "MethodID" {} (.uint .uint32)
    (.cons "Items" {} (.slice (.slice .byte)) .nil)))

def transactionType : GoType :=
  .struct (.cons "Nonce" {} (.uint .uint64) (.cons "GasLimit" {} (.int .int64)
    (.cons "Note" {} .string (.cons "Messages" {} (.slice messageType) .nil))))

/-- The struct `WrapPayload` declares for itself. -/
def payloadType : GoType :=
  .struct (.cons "Nonce" {} (.uint .uint64) (.cons "GasLimit" {} (.int .int64)
    (.cons "Note" {} .string (.cons "Messages" {} (.slice messageType) .nil))))

def ed25519SigType : GoType :=
  .struct (.cons "SigType" {} .string (.cons "PubKey" {} (.array 32 .byte)
    (.cons "SigValue" {} (.array 64 .byte) .nil)))

structure Message where
  contract : Text
  methodID : BitVec 32
  items : List (List Byte)
  deriving DecidableEq, Repr

structure Transaction where
  nonce : BitVec 64
  gasLimit : BitVec 64
  note : Text
  messages : List Message
  deriving DecidableEq, Repr

structure Ed25519Sig where
  sigType : Text
  pubKey : PubKeyEd25519
  sigValue : SignatureEd25519
  deriving DecidableEq, Repr

def Message.toValue (message : Message) : Value messageType :=
  (message.contract, message.methodID, message.items, ())

def Message.ofValue (value : Value messageType) : Message :=
  ⟨value.1, value.2.1, value.2.2.1⟩

def Transaction.toValue (tx : Transaction) : Value transactionType :=
  (tx.nonce, tx.gasLimit, tx.note, tx.messages.map Message.toValue, ())

def Transaction.ofValue (value : Value transactionType) : Transaction :=
  ⟨value.1, value.2.1, value.2.2.1,
    (value.2.2.2.1 : List (Value messageType)).map Message.ofValue⟩

def Ed25519Sig.toValue (sigInfo : Ed25519Sig) : Value ed25519SigType :=
  (sigInfo.sigType, sigInfo.pubKey, sigInfo.sigValue, ())

def Ed25519Sig.ofValue (value : Value ed25519SigType) : Ed25519Sig :=
  ⟨value.1, value.2.1, value.2.2.1⟩

/-- The signature scheme, the `base58` decoder of another repository, which returns
a slice like any other, and the key store. -/
structure Library where
  makePublicKey : PrivKeyEd25519 → PubKeyEd25519
  sign : PrivKeyEd25519 → List Byte → SignatureEd25519
  verify : PubKeyEd25519 → List Byte → SignatureEd25519 → Bool
  base58Decode : Text → List Byte
  base58Decode_short : ∀ string : Text, string.length < maxLen →
    (base58Decode string).length < maxLen
  loadAccount : (keyStoreDir name password : Text) → Except Text PrivKeyEd25519

inductive Package where
  | tx2
  | tx3
  deriving DecidableEq, Repr

namespace Package

def version : Package → Text
  | .tx2 => str "v2"
  | .tx3 => str "v3"

def encodeToString : Package → List Byte → Text
  | .tx2 => Base58.encode
  | .tx3 => Base64.encode

/-- Only the decoder of `tx3` reports corrupt input. -/
def decodeString (library : Library) : Package → Text → Option (List Byte)
  | .tx2, string => some (library.base58Decode string)
  | .tx3, string => Base64.decode string

end Package

inductive Panic where
  | message (literal : String)
  | account (message : Text)
  | hex (err : HexError)
  | rlp (err : Err)
  deriving DecidableEq, Repr

def wrapPayload (nonce gasLimit : BitVec 64) (note : Text) (messages : List Message) :
    Except Panic (List Byte) :=
  let tx : Value payloadType := (nonce, gasLimit, note, messages.map Message.toValue, ())
  match encodeToBytes payloadType tx with
  | .error err => .error (.rlp err)
  | .ok txRlp => .ok txRlp

section Wrap

variable (library : Library) (package : Package)

def signed (privKey : PrivKeyEd25519) (payload : List Byte) : Ed25519Sig where
  sigType := str "ed25519"
  pubKey := library.makePublicKey privKey
  sigValue := library.sign privKey payload

/-- `sig.Sign`, which refuses to sign nothing. -/
def accountSign (privKey : PrivKeyEd25519) (data : List Byte) : Except String Ed25519Sig :=
  if data.length ≤ 0 then
    .error "user data which wants be signed length needs more than 0"
  else .ok (signed library privKey data)

/-- The signature `WrapTxEx` makes: with the key in the string, or with the account of
the given name and password. -/
def signPayload (payload : List Byte) (privateKey : Text) : Except Panic Ed25519Sig :=
  let isHexPrivKey := (str "0x").isPrefixOf privateKey
  let segPrivKey := privateKey.splitOn 58
  if isHexPrivKey = true ∧ segPrivKey.length = 1 then
    match hexDecode (privateKey.drop 2) with
    | (_, some err) => .error (.hex err)
    | (privKeyBytes, none) => .ok (signed library (copied 64 privKeyBytes) payload)
  else
    match segPrivKey with
    | [name, password] =>
        match library.loadAccount (str ".") name password with
        | .error message => .error (.account message)
        | .ok privKey =>
            match accountSign library privKey payload with
            | .error message => .error (.message message)
            | .ok sigInfo => .ok sigInfo
    | _ => .error (.message "Invalid private key format")

/-- The string `WrapTxEx` builds.  The encoded signature is fetched by a single `Read`
into a buffer of its size. -/
def assemble (chainID payload : List Byte) (sigInfo : Ed25519Sig) : Except Panic Text :=
  match encodeToReader ed25519SigType sigInfo.toValue with
  | .error err => .error (.rlp err)
  | .ok (size, r) =>
      match r.read size with
      | none => .error (.rlp .outOfFuel)
      | some (_, bytes, _) =>
          let sig := (copied size bytes).1
          .ok ([46].intercalate [chainID ++ str "<tx>", package.version,
            package.encodeToString payload, str "<1>", package.encodeToString sig])

def wrapTxEx (chainID payload privateKey : List Byte) : Except Panic Text :=
  match signPayload library payload privateKey with
  | .error fatal => .error fatal
  | .ok sigInfo => assemble package chainID payload sigInfo

/-- The chain is the one given to `Init`. -/
def wrapTx (gChainID payload privateKey : List Byte) : Except Panic Text :=
  wrapTxEx library package gChainID payload privateKey

end Wrap

inductive TxError where
  | message (literal : String)
  | corruptInput
  | rlp (err : Err)
  deriving DecidableEq, Repr

/-- The results of `TxParse`; what it does not reach stays zero. -/
structure Parsed where
  tx : Transaction := ⟨0, 0, [], []⟩
  pubKey : PubKeyEd25519 := ⟨List.replicate 32 0, rfl⟩
  err : Option TxError
  deriving DecidableEq, Repr

section Parse

variable (library : Library) (package : Package)

/-- The transaction of a payload whose signature is good.  The error of the decoder is
kept unless the number of messages is wrong. -/
def parsePayload (pubKey : PubKeyEd25519) (txData : List Byte) : Except Err Parsed :=
  match decode transactionType txData with
  | .error fatal => .error fatal
  | .ok (err, value) =>
      let tx := Transaction.ofValue value
      if 2 < tx.messages.length then
        .ok ⟨tx, pubKey, some (.message "Up to two messages at one time")⟩
      else if tx.messages.length = 0 then
        .ok ⟨tx, pubKey, some (.message "no message in transaction")⟩
      else .ok ⟨tx, pubKey, err.map .rlp⟩

def parseSigned (txData sigBytes : List Byte) : Except Err Parsed :=
  match decode ed25519SigType sigBytes with
  | .error fatal => .error fatal
  | .ok (some err, _) => .ok { err := some (.rlp err) }
  | .ok (none, value) =>
      let siginfo := Ed25519Sig.ofValue value
      if library.verify siginfo.pubKey txData siginfo.sigValue = true then
        parsePayload siginfo.pubKey txData
      else .ok { err := some (.message "verify sig fail") }

def txParse (gChainID txString : Text) : Except Err Parsed :=
  match txString.splitOn 46 with
  | [mac, version, payload, signerNumber, sig] =>
      if mac ≠ gChainID ++ str "<tx>" ∨ version ≠ package.version ∨
          signerNumber ≠ str "<1>" then
        .ok { err := some (.message "tx data error") }
      else
        match package.decodeString library payload with
        | none => .ok { err := some .corruptInput }
        | some txData =>
            match package.decodeString library sig with
            | none => .ok { err := some .corruptInput }
            | some sigBytes => parseSigned library txData sigBytes
  | _ => .ok { err := some (.message "tx data error") }

end Parse

end Bclib.Tx
