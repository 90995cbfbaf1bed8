import Bclib.Data.Blocks
import Bclib.Go.Strings

namespace Bclib.Algorithm

open Data
open Go

/-! Encryption with a password: the data behind a tag and its length, filled up with zeros
and encrypted block by block. -/

/-- `IntToBytes`, which keeps 32 bits. -/
def intToBytes (n : Int) : List Byte := putUint32 (BitVec.ofInt 32 n)

/-- `BytesToInt32`: eight bytes are read as an `int64`, zeros in front of fewer ones, and its
lower half is kept. -/
def bytesToInt32 (b : List Byte) : BitVec 32 :=
  let buffer := if b.length < 8 then List.replicate (8 - b.length) 0 ++ b else b
  (BitVec.ofNat 64 (ofBigEndian (buffer.take 8))).setWidth 32

def bytesToInt (b : List Byte) : Int := (bytesToInt32 b).toInt

/-- What the package takes from `x/crypto` and the standard library. -/
structure Crypto where
  sha3 : List Byte → Block Byte 32
  ripemd160 : List Byte → Block Byte 20
  md5 : List Byte → Block Byte 16
  aes : Block Byte 16 → Equiv.Perm (Block Byte 16)

def blockSize : Nat := 16

def walTag : List Byte := [0x2e, 0x77, 0x61, 0x6c]

section Password

variable (crypto : Crypto)

def genSymmetrickeyFromPassword (password : List Byte) (keyword : Option (List Byte)) :
    Block Byte 16 :=
  let salted := str "7g$2HJJhh&&!^&!nNN8812MN31^%!@%*^&*&((&*152" ++ password
  let written := keyword.elim salted fun keyword => salted ++ keyword
  crypto.md5 (crypto.sha3 written).1

/-- The zeros `EncryptWithPassword` appends to whole blocks. -/
def padBlocks (dat : List Byte) : List Byte :=
  let n := dat.length % blockSize
  if n ≠ 0 then dat ++ List.replicate (blockSize - n) 0 else dat

/-- What `EncryptWithPassword` encrypts for the data. -/
def envelope (data : List Byte) : List Byte :=
  padBlocks (walTag ++ intToBytes data.length ++ data)

def encryptWithPassword (data : Option (List Byte)) (password : List Byte)
    (keyword : Option (List Byte)) : Option (List Byte) :=
  match data with
  | none => none
  | some data =>
      let key := genSymmetrickeyFromPassword crypto password keyword
      some (onBlocks (crypto.aes key) (envelope data))

inductive DecryptError where
  | empty
  | notBlocks
  | failed
  deriving DecidableEq, Repr

def DecryptError.text : DecryptError → String
  | .empty => "Cannot decrypt empty data"
  | .notBlocks => "Decrypt data is not an integral multiple of a block"
  | .failed => "Decrypt data failed!"

/-- What `DecryptWithPassword` makes of the decrypted bytes. -/
def openEnvelope (dat : List Byte) : Outcome DecryptError (List Byte) :=
  if dat.length < 8 then .error .failed
  else if dat.take 4 ≠ walTag then .error .failed
  else
    let size := bytesToInt ((dat.take 8).drop 4)
    match subslice dat 8 (8 + size) with
    | none => .panic
    | some data => .ok data

def decryptWithPassword (data : Option (List Byte)) (password : List Byte)
    (keyword : Option (List Byte)) : Outcome DecryptError (List Byte) :=
  match data with
  | none => .error .empty
  | some data =>
      if data.length = 0 then .error .empty
      else
        let key := genSymmetrickeyFromPassword crypto password keyword
        if data.length % blockSize ≠ 0 then .error .notBlocks
        else openEnvelope (onBlocks (crypto.aes key).symm data)

end Password

end Bclib.Algorithm
