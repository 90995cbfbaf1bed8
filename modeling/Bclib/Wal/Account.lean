import Bclib.Algorithm.Cipher
import Bclib.Go.Filepath
import Bclib.Go.Utf8

namespace Bclib.Wal

open Data
open Go
open Algorithm

/-! Wallet accounts: a name and a private key under a hash, kept encrypted in a file of the
account's own. -/

/-- `crypto.PrivKey`, with the nil interface. -/
inductive PrivKey where
  | ed25519 (key : Block Byte 64)
  | secp256k1 (key : Block Byte 32)
  | nil
  deriving DecidableEq

structure AccountData where
  name : GoString
  privateKey : PrivKey
  hash : List Byte
  deriving DecidableEq

structure Account extends AccountData where
  keyStoreFile : GoString
  deriving DecidableEq

/-- The codec of the package, on accounts; an error is its text. -/
structure Amino where
  marshalJSON : AccountData → Except String (List Byte)
  unmarshalJSON : List Byte → Except String AccountData

structure Unicode where
  isNumber : Nat → Bool
  isUpper : Nat → Bool
  isLower : Nat → Bool

structure Library where
  crypto : Crypto
  amino : Amino
  unicode : Unicode

abbrev Files := GoString → Option (List Byte)

/-- What a call is answered from outside: whether the directory is there or can be made, and
the password at the prompt. -/
structure Environment where
  makeDir : Except String Unit
  prompted : Except String (List Byte)

inductive WalError where
  | name
  | hash
  | noFile
  | exists
  | makeDir (text : String)
  | prompt (text : String)
  | password
  | marshal (text : String)
  | missing
  | decrypt (err : DecryptError)
  | unmarshal (text : String)
  deriving DecidableEq

def nameErr : String :=
  "Name contains by [letters, numbers, \"_\", \"@\", \".\" and \"-\"] and length must be [1-40] "

def passwordErr : String :=
  "Password must contains by [Uppercase and lowercase letters, numbers, ASCII 32 through 127] " ++
    "and length must be [8-20]"

def WalError.text : WalError → String
  | .name => nameErr
  | .hash => "verify hash of wallet failed"
  | .noFile => "no key store file specified in account object"
  | .exists => "key store file is already exist"
  | .makeDir text => text
  | .prompt text => text
  | .password => passwordErr
  | .marshal text => text
  | .missing => "KeyStorePath does not exist"
  | .decrypt err => "the password is wrong, err info : " ++ err.text
  | .unmarshal text => text

/-- How a call ends; the process may end with it. -/
inductive Call (α : Type) where
  | returns (value : α)
  | fails (err : WalError)
  | panics
  | exits (message : GoString)
  deriving DecidableEq

def Call.replace (call : Call α) (value : β) : Call β :=
  match call with
  | .returns _ => .returns value
  | .fails err => .fails err
  | .panics => .panics
  | .exits message => .exits message

def nameChar (char : Byte) : Bool :=
  (97 ≤ char && char ≤ 122) || (65 ≤ char && char ≤ 90) || (48 ≤ char && char ≤ 57) ||
    (str "_@.-").contains char

def checkName (name : GoString) : Bool :=
  (1 ≤ name.length && name.length ≤ 40) && name.all nameChar

/-- What counts as special; all of ASCII. -/
def ascOther : GoString := str " !\"#$%&'()*+,-/:;<=>?[]\\^\x7b|\x7d~@_." ++ [0x60]

structure Seen where
  count : Nat
  number : Bool
  upper : Bool
  lower : Bool
  special : Bool
  other : Bool

section Package

variable (library : Library)

def Seen.add (seen : Seen) (char : Nat) : Seen :=
  if library.unicode.isNumber char then { seen with number := true, count := seen.count + 1 }
  else if library.unicode.isUpper char then { seen with upper := true, count := seen.count + 1 }
  else if library.unicode.isLower char then { seen with lower := true, count := seen.count + 1 }
  else if (ascOther.map BitVec.toNat).contains char then
    { seen with special := true, count := seen.count + 1 }
  else { seen with other := false }

def checkPassword (password : List Byte) : Bool :=
  let seen := (runes password).foldl (Seen.add library) ⟨0, false, false, false, false, true⟩
  seen.number && seen.upper && seen.lower && seen.special && seen.other &&
    (8 ≤ seen.count && seen.count ≤ 20)

/-- An empty password is asked for. -/
def enteredPassword (password : List Byte) (prompted : Except String (List Byte)) :
    Except String (List Byte) :=
  if password = [] then prompted else .ok password

def walletFile (keyStoreDir name : GoString) : GoString :=
  join [keyStoreDir, name ++ str ".wal"]

def walletHash (name : GoString) (key : Block Byte 64) : List Byte :=
  (library.crypto.sha3 (name ++ key.1)).1

/-- `cmn.WriteFileAtomic`. -/
def Files.write (files : Files) (path : GoString) (content : List Byte) : Files :=
  fun other => if other = path then some content else files other

/-- The files after the call, and how it ends. -/
def Account.save (acct : Account) (password : List Byte) (notAllowExist : Bool)
    (env : Environment) (files : Files) : Files × Call Unit :=
  match acct.privateKey with
  | .ed25519 privkey =>
      if walletHash library acct.name privkey ≠ acct.hash then (files, .fails .hash)
      else if acct.keyStoreFile = [] then (files, .fails .noFile)
      else if (files acct.keyStoreFile).isSome && notAllowExist then (files, .fails .exists)
      else
        match env.makeDir with
        | .error text => (files, .fails (.makeDir text))
        | .ok _ =>
            match enteredPassword password env.prompted with
            | .error text => (files, .fails (.prompt text))
            | .ok passwordBytes =>
                if checkPassword library passwordBytes = false then (files, .fails .password)
                else
                  match library.amino.marshalJSON acct.toAccountData with
                  | .error text => (files, .fails (.marshal text))
                  | .ok jsonBytes =>
                      let walBytes :=
                        encryptWithPassword library.crypto (some jsonBytes) passwordBytes none
                      (files.write acct.keyStoreFile (walBytes.getD []), .returns ())
  -- the type assertion
  | _ => (files, .panics)

def importAccount (keyStoreDir name : GoString) (password : List Byte) (privKey : PrivKey)
    (env : Environment) (files : Files) : Files × Call Account :=
  if checkName name = false then (files, .fails .name)
  else
    match privKey with
    | .ed25519 privateKey =>
        let acct : Account :=
          { name := name
            privateKey := .ed25519 privateKey
            hash := walletHash library name privateKey
            keyStoreFile := walletFile keyStoreDir name }
        let (files, saved) := acct.save library password true env files
        (files, saved.replace acct)
    | _ => (files, .panics)

/-- A name or a password of the wrong form ends the process. -/
def loadAccount (keyStoreDir name : GoString) (password : List Byte) (env : Environment)
    (files : Files) : Call Account :=
  if checkName name = false then
    .exits (str "Load account \"" ++ name ++ str "\" failed, " ++ str nameErr)
  else
    match files (walletFile keyStoreDir name) with
    | none => .fails .missing
    | some walBytes =>
        match enteredPassword password env.prompted with
        | .error text => .fails (.prompt text)
        | .ok passwordBytes =>
            if checkPassword library passwordBytes = false then .exits (str passwordErr)
            else
              match decryptWithPassword library.crypto (some walBytes) passwordBytes none with
              | .panic => .panics
              | .error err => .fails (.decrypt err)
              | .ok jsonBytes =>
                  match library.amino.unmarshalJSON jsonBytes with
                  | .error text => .fails (.unmarshal text)
                  | .ok acct =>
                      match acct.privateKey with
                      | .ed25519 privkey =>
                          if walletHash library acct.name privkey ≠ acct.hash then .fails .hash
                          else .returns ⟨acct, walletFile keyStoreDir name⟩
                      | _ => .panics

end Package

end Bclib.Wal
