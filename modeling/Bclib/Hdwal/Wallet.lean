import Bclib.Algorithm.Cipher
import Bclib.Hdwal.Derive
import Bclib.Hdwal.Path

namespace Bclib.Hdwal

open Algorithm
open Data
open Go

/-! The stored seed, and the private keys that are derived from it. -/

structure HdWal where
  mnemonic : GoString
  seed : List Byte
  hash : List Byte
  deriving DecidableEq, Repr

/-- The database, the JSON codec and the ciphers the package works with. -/
structure Wallet where
  suite : Suite
  crypto : Crypto
  get : List Byte → Except String (List Byte)
  unmarshalJSON : List Byte → Except String HdWal
  /-- The public key for the first half of a private key. -/
  makePublicKey : List Byte → Block Byte 32

inductive WalletError where
  | get (error : String)
  | noMnemonic
  | wrongPassword (error : DecryptError)
  | json (error : String)
  | derive (error : DeriveError)
  | path (error : PathError)
  deriving DecidableEq, Repr

def WalletError.text : WalletError → GoString
  | .get error => str error
  | .noMnemonic => str "Mnemonic does not exist!"
  | .wrongPassword error => str ("The password is wrong, err info : " ++ error.text)
  | .json error => str error
  | .derive error => str error.text
  | .path error => error.text

def keyOfHdWal : List Byte := str "/hdWallet/hdwal"

namespace Wallet

variable (wallet : Wallet)

def getHdWal (possword : GoString) : Outcome WalletError HdWal :=
  match wallet.get keyOfHdWal with
  | .error error => .error (.get error)
  | .ok bytes =>
      if bytes.length = 0 then .error .noMnemonic
      else
        match decryptWithPassword wallet.crypto (some bytes) possword none with
        | .panic => .panic
        | .error error => .error (.wrongPassword error)
        | .ok hdWalBytes =>
            match wallet.unmarshalJSON hdWalBytes with
            | .error error => .error (.json error)
            | .ok hdWal => .ok hdWal

def privKey (key : List Byte) : List Byte :=
  fill 32 key ++ (wallet.makePublicKey (fill 32 key)).1

def newPrivKey (path possword : GoString) : Outcome WalletError (List Byte) :=
  match wallet.getHdWal possword with
  | .panic => .panic
  | .error error => .error error
  | .ok hdWal =>
      match newMaster wallet.suite hdWal.seed with
      | .error error => .error (.derive error)
      | .ok extendedKey =>
          match parseDerivationPath path with
          | .error error => .error (.path error)
          | .ok derivationPath =>
              match extendedKey.derive wallet.suite derivationPath with
              | .error error => .error (.derive error)
              | .ok extendedKey => .ok (wallet.privKey extendedKey.key)

end Wallet

end Bclib.Hdwal
