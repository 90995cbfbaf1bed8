import Bclib.Go.Strings

namespace Bclib.Hdwal

open Data

/-! Extended keys and their strings. -/

/-- `serializedKeyLen`: version, depth, fingerprint, child number, chain code and key data. -/
def serializedKeyLen : Nat := 4 + 1 + 4 + 4 + 32 + 33

/-- `btcec.S256().N` -/
def curveOrder : Nat := 0xfffffffffffffffffffffffffffffffebaaedce6af48a03bbfd25e8cd0364141

/-- What the package takes from `btcd` and `btcutil`. -/
structure Btcsuite where
  base58Encode : List Byte → List Byte
  base58Decode : List Byte → List Byte
  base58Decode_encode : ∀ bytes, base58Decode (base58Encode bytes) = bytes
  doubleHashB : List Byte → List Byte
  doubleHashB_length : ∀ bytes, (doubleHashB bytes).length = 32
  scalarBaseMult : List Byte → Nat × Nat
  serializeCompressed : Nat × Nat → List Byte
  parsePubKey : List Byte → Except String (Nat × Nat)

inductive KeyError where
  | badChecksum
  | invalidKeyLen
  | unusableSeed
  | pubKey (error : String)
  deriving DecidableEq, Repr

def KeyError.text : KeyError → String
  | .badChecksum => "bad extended key checksum"
  | .invalidKeyLen => "the provided serialized extended key length is invalid"
  | .unusableSeed => "unusable seed"
  | .pubKey error => error

structure ExtendedKey where
  /-- The public key, for an extended public key. -/
  key : List Byte
  /-- Set only for extended private keys, once it was asked for. -/
  pubKey : List Byte
  chainCode : List Byte
  depth : Byte
  parentFP : List Byte
  childNum : BitVec 32
  isPrivate : Bool
  deriving DecidableEq, Repr

def newExtendedKey (key chainCode parentFP : List Byte) (depth : Byte) (childNum : BitVec 32)
    (isPrivate : Bool) : ExtendedKey :=
  ⟨key, [], chainCode, depth, parentFP, childNum, isPrivate⟩

def paddedAppend (size : Nat) (dst src : List Byte) : List Byte :=
  dst ++ List.replicate (size - src.length) 0 ++ src

def slice (bytes : List Byte) (low high : Nat) : List Byte := (bytes.take high).drop low

namespace ExtendedKey

/-- The key is returned as it is left, with the public key remembered. -/
def pubKeyBytes (btc : Btcsuite) (k : ExtendedKey) : List Byte × ExtendedKey :=
  if !k.isPrivate then (k.key, k)
  else if k.pubKey.length = 0 then
    let pubKey := btc.serializeCompressed (btc.scalarBaseMult k.key)
    (pubKey, { k with pubKey })
  else (k.pubKey, k)

/-- `serializedBytes`, up to the checksum. -/
def serializedBytes (btc : Btcsuite) (k : ExtendedKey) : List Byte :=
  let bytes := [k.depth] ++ k.parentFP ++ putUint32 k.childNum ++ k.chainCode
  if k.isPrivate then paddedAppend 32 (bytes ++ [0x00]) k.key
  else bytes ++ (k.pubKeyBytes btc).1

end ExtendedKey

def checkSum (btc : Btcsuite) (bytes : List Byte) : List Byte := (btc.doubleHashB bytes).take 4

/-- `base58.Encode` of the bytes and their checksum. -/
def encodeChecked (btc : Btcsuite) (bytes : List Byte) : List Byte :=
  btc.base58Encode (bytes ++ checkSum btc bytes)

def ExtendedKey.string (btc : Btcsuite) (k : ExtendedKey) : List Byte :=
  if k.key.length = 0 then Go.str "zeroed extended key"
  else encodeChecked btc (k.serializedBytes btc)

/-- The fields of a payload whose length and checksum are right. -/
def deserialize (btc : Btcsuite) (payload : List Byte) : Except KeyError ExtendedKey :=
  let depth := payload.getD 4 0
  let parentFP := slice payload 5 9
  let childNum := uint32 (slice payload 9 13)
  let chainCode := slice payload 13 45
  let keyData := slice payload 45 78
  if keyData.getD 0 0 = 0x00 then
    let keyData := keyData.drop 1
    if curveOrder ≤ ofBigEndian keyData ∨ ofBigEndian keyData = 0 then .error .unusableSeed
    else .ok (newExtendedKey keyData chainCode parentFP depth childNum true)
  else
    match btc.parsePubKey keyData with
    | .error error => .error (.pubKey error)
    | .ok _ => .ok (newExtendedKey keyData chainCode parentFP depth childNum false)

def newKeyFromString (btc : Btcsuite) (key : List Byte) : Except KeyError ExtendedKey :=
  let decoded := btc.base58Decode key
  if decoded.length ≠ serializedKeyLen + 4 then .error .invalidKeyLen
  else
    let payload := decoded.take (decoded.length - 4)
    if decoded.drop (decoded.length - 4) ≠ checkSum btc payload then .error .badChecksum
    else deserialize btc payload

end Bclib.Hdwal
