import Bclib.Algorithm.Envelope
import Bclib.Data.Runs
import Bclib.Wal.Account

namespace Bclib.Wal

open Data
open Go
open Algorithm

/-! A directory of wallet files against a map from names to accounts. -/

variable {library : Library} {dir : GoString}

theorem nameChar_plain {char : Byte} (allowed : nameChar char = true) :
    char < 0x80 ∧ char ≠ separator := by
  have all : ∀ char : Byte, nameChar char = true → char < 0x80 ∧ char ≠ separator := by
    decide +kernel
  exact all char allowed

theorem checkName_length {name : GoString} (valid : checkName name = true) :
    1 ≤ name.length := by
  simp only [checkName, Bool.and_eq_true, decide_eq_true_eq] at valid
  exact valid.1.1

theorem checkName_plain {name : GoString} (valid : checkName name = true) :
    ∀ char ∈ name, char < 0x80 ∧ char ≠ separator := by
  simp only [checkName, Bool.and_eq_true, List.all_eq_true] at valid
  intro char member
  exact nameChar_plain (valid.2 char member)

theorem validString_name {name : GoString} (valid : checkName name = true) :
    validString name = true :=
  validString_ascii fun char member => (checkName_plain valid char member).1

theorem fileName_wallet {name : GoString} (valid : checkName name = true) :
    FileName (name ++ str ".wal") := by
  have long : 5 ≤ (name ++ str ".wal").length := by
    rw [List.length_append]
    exact Nat.add_le_add_right (checkName_length valid) 4
  refine ⟨?_, ?_, ?_, ?_⟩
  · rintro empty
    rw [empty] at long
    exact absurd long (by decide)
  · intro member
    cases List.mem_append.1 member with
    | inl inName => exact (checkName_plain valid _ inName).2 rfl
    | inr inEnd => exact absurd inEnd (by decide)
  · intro same
    rw [same] at long
    exact absurd long (by decide)
  · intro same
    rw [same] at long
    exact absurd long (by decide)

theorem walletFile_eq (dir : GoString) {name : GoString} (valid : checkName name = true) :
    walletFile dir name = joinFront dir ++ (name ++ str ".wal") :=
  join_fileName dir (fileName_wallet valid)

theorem walletFile_injective {name other : GoString} (valid : checkName name = true)
    (otherValid : checkName other = true) (same : walletFile dir name = walletFile dir other) :
    name = other := by
  rw [walletFile_eq dir valid, walletFile_eq dir otherValid] at same
  exact List.append_cancel_right (List.append_cancel_left same)

theorem ne_nil_of_checkPassword {password : List Byte}
    (accepted : checkPassword library password = true) : password ≠ [] := by
  rintro rfl
  simp [checkPassword, runes, runesOf] at accepted

theorem enteredPassword_of_checkPassword {password : List Byte}
    (accepted : checkPassword library password = true) (prompted : Except String (List Byte)) :
    enteredPassword password prompted = .ok password :=
  if_neg (ne_nil_of_checkPassword accepted)

/-- The content is what is written for an account saved under a password. -/
structure Sealed (library : Library) (data : AccountData) (password content : List Byte) :
    Prop where
  genuine : ∃ key, data.privateKey = .ed25519 key ∧ walletHash library data.name key = data.hash
  accepted : checkPassword library password = true
  written : ∃ json, library.amino.marshalJSON data = .ok json ∧
    encryptWithPassword library.crypto (some json) password none = some content

theorem Sealed.hash_length {data : AccountData} {password content : List Byte}
    (closed : Sealed library data password content) : data.hash.length = 32 := by
  obtain ⟨key, -, hash⟩ := closed.genuine
  rw [← hash]
  exact (library.crypto.sha3 (data.name ++ key.1)).2

theorem save_cases (acct : Account) (password : List Byte) (notAllowExist : Bool)
    (env : Environment) (files : Files) :
    (acct.save library password notAllowExist env files).1 = files ∧
        (acct.save library password notAllowExist env files).2 ≠ .returns () ∨
      ∃ entered content, enteredPassword password env.prompted = .ok entered ∧
        Sealed library acct.toAccountData entered content ∧
        (notAllowExist = true → files acct.keyStoreFile = none) ∧
        acct.save library password notAllowExist env files =
          (files.write acct.keyStoreFile content, .returns ()) := by
  cases kind : acct.privateKey with
  | secp256k1 key => exact .inl (by simp [Account.save, kind])
  | nil => exact .inl (by simp [Account.save, kind])
  | ed25519 key =>
      simp only [Account.save, kind]
      split_ifs with forged unnamed taken
      · exact .inl ⟨rfl, by simp⟩
      · exact .inl ⟨rfl, by simp⟩
      · exact .inl ⟨rfl, by simp⟩
      cases env.makeDir with
      | error text => exact .inl ⟨rfl, by simp⟩
      | ok made =>
          cases asked : enteredPassword password env.prompted with
          | error text => exact .inl ⟨rfl, by simp⟩
          | ok entered =>
              by_cases accepted : checkPassword library entered = false
              · exact .inl (by simp [accepted])
              cases encoded : library.amino.marshalJSON acct.toAccountData with
              | error text => exact .inl (by simp [accepted])
              | ok json =>
                  refine .inr ⟨entered, _, rfl, ⟨⟨key, kind, not_not.1 forged⟩,
                    Bool.of_not_eq_false accepted, json, encoded, rfl⟩, ?_, ?_⟩
                  · intro once
                    simpa [once] using taken
                  · exact if_neg accepted

theorem replace_ne_returns {call : Call Unit} (ended : call ≠ .returns ()) (value other : α) :
    call.replace value ≠ .returns other := by
  cases call with
  | returns value => exact absurd rfl ended
  | fails err => simp [Call.replace]
  | panics => simp [Call.replace]
  | exits message => simp [Call.replace]

def imported (library : Library) (dir name : GoString) (key : Block Byte 64) : Account :=
  ⟨⟨name, .ed25519 key, walletHash library name key⟩, walletFile dir name⟩

theorem importAccount_ed25519 {name : GoString} (valid : checkName name = true)
    (password : List Byte) (key : Block Byte 64) (env : Environment) (files : Files) :
    importAccount library dir name password (.ed25519 key) env files =
      (((imported library dir name key).save library password true env files).1,
        ((imported library dir name key).save library password true env files).2.replace
          (imported library dir name key)) := by
  rw [importAccount, if_neg (by simp [valid])]
  rfl

theorem importAccount_cases (name : GoString) (password : List Byte) (privKey : PrivKey)
    (env : Environment) (files : Files) :
    (importAccount library dir name password privKey env files).1 = files ∧
        (∀ acct, (importAccount library dir name password privKey env files).2 ≠ .returns acct) ∨
      ∃ key entered content, enteredPassword password env.prompted = .ok entered ∧
        checkName name = true ∧
        Sealed library (imported library dir name key).toAccountData entered content ∧
        files (walletFile dir name) = none ∧
        importAccount library dir name password privKey env files =
          (files.write (walletFile dir name) content, .returns (imported library dir name key)) := by
  by_cases valid : checkName name = true
  · cases privKey with
    | secp256k1 key => exact .inl (by simp [importAccount, valid])
    | nil => exact .inl (by simp [importAccount, valid])
    | ed25519 key =>
        rw [importAccount_ed25519 valid]
        cases save_cases (imported library dir name key) password true env files with
        | inl unchanged =>
            exact .inl ⟨unchanged.1, fun acct => replace_ne_returns unchanged.2 _ acct⟩
        | inr saved =>
            obtain ⟨entered, content, asked, closed, fresh, written⟩ := saved
            refine .inr ⟨key, entered, content, asked, valid, closed, fresh rfl, ?_⟩
            rw [written]
            rfl
  · exact .inl (by simp [importAccount, valid])

/-- What the codec is relied on for: the account is read back from its text, names are read as
UTF-8, and the text for a name of a wallet is short. -/
structure Amino.Lawful (amino : Amino) : Prop where
  roundTrip : ∀ data json, validString data.name = true → data.hash.length = 32 →
    amino.marshalJSON data = .ok json → amino.unmarshalJSON json = .ok data
  validName : ∀ json data, amino.unmarshalJSON json = .ok data → validString data.name = true
  short : ∀ data json, checkName data.name = true → data.hash.length = 32 →
    amino.marshalJSON data = .ok json → json.length < 2 ^ 31

theorem loadAccount_cases {name : GoString} {password : List Byte} {env : Environment}
    {files : Files} {acct : Account}
    (loaded : loadAccount library dir name password env files = .returns acct) :
    checkName name = true ∧ acct.keyStoreFile = walletFile dir name ∧
      ∃ json, library.amino.unmarshalJSON json = .ok acct.toAccountData := by
  simp only [loadAccount] at loaded
  split at loaded
  · cases loaded
  rename_i valid
  split at loaded
  · cases loaded
  split at loaded
  · cases loaded
  split at loaded
  · cases loaded
  split at loaded
  · cases loaded
  · cases loaded
  rename_i json opened
  split at loaded
  · cases loaded
  rename_i data decoded
  split at loaded
  · split at loaded
    · cases loaded
    · cases loaded
      exact ⟨Bool.of_not_eq_false valid, rfl, json, decoded⟩
  · cases loaded

theorem loadAccount_sealed (lawful : library.amino.Lawful) {name : GoString}
    (valid : checkName name = true) {files : Files} {data : AccountData}
    {password content : List Byte} (file : files (walletFile dir name) = some content)
    (closed : Sealed library data password content) (text : validString data.name = true)
    (fits : ∀ json, library.amino.marshalJSON data = .ok json → json.length < 2 ^ 31)
    (env : Environment) :
    loadAccount library dir name password env files = .returns ⟨data, walletFile dir name⟩ := by
  have thirtyTwo := closed.hash_length
  obtain ⟨⟨key, kind, hash⟩, accepted, json, encoded, sealedBytes⟩ := closed
  have decoded := lawful.roundTrip data json text thirtyTwo encoded
  have opened : decryptWithPassword library.crypto (some content) password none = .ok json := by
    rw [← sealedBytes, encryptWithPassword_some]
    exact decryptWithPassword_sealed (fits json encoded) password none
  simp [loadAccount, valid, file, enteredPassword_of_checkPassword accepted, accepted,
    opened, decoded, kind, hash]

/-- An account in the client's hands, and the name it was asked for under. -/
structure Handle where
  name : GoString
  account : Account

structure Entry where
  data : AccountData
  password : List Byte
  deriving DecidableEq

/-- The files, the accounts that were returned, and the map they stand for. -/
structure Store where
  files : Files
  handles : List Handle
  entries : GoString → Option Entry

inductive Op where
  | importAccount (name : GoString) (password : List Byte) (privKey : PrivKey) (env : Environment)
  | loadAccount (name : GoString) (password : List Byte) (env : Environment)
  | save (handle : Nat) (password : List Byte) (env : Environment)

def start (files : Files) : Store := ⟨files, [], fun _ => none⟩

section Directory

variable (library : Library) (dir : GoString)

def Store.call (store : Store) : Op → Files × Call Account
  | .importAccount name password privKey env =>
      importAccount library dir name password privKey env store.files
  | .loadAccount name password env =>
      (store.files, loadAccount library dir name password env store.files)
  | .save handle password env =>
      match store.handles[handle]? with
      | some handle =>
          let (files, saved) := handle.account.save library password false env store.files
          (files, saved.replace handle.account)
      -- a nil account
      | none => (store.files, .panics)

end Directory

def enteredOf (password : List Byte) (env : Environment) : List Byte :=
  match enteredPassword password env.prompted with
  | .ok entered => entered
  | .error _ => []

def Store.enter (store : Store) (name : GoString) (entry : Entry) : Store :=
  { store with
    entries := fun other => if other = name then some entry else store.entries other }

def Store.hand (store : Store) (name : GoString) (acct : Account) : Store :=
  { store with handles := store.handles ++ [⟨name, acct⟩] }

def Store.record (store : Store) (acct : Account) : Op → Store
  | .importAccount name password _ env =>
      (store.hand name acct).enter name ⟨acct.toAccountData, enteredOf password env⟩
  | .loadAccount name _ _ => store.hand name acct
  | .save handle password env =>
      match store.handles[handle]? with
      | some handle => store.enter handle.name ⟨acct.toAccountData, enteredOf password env⟩
      | none => store

def Store.step (library : Library) (dir : GoString) (store : Store) (op : Op) : Store :=
  match store.call library dir op with
  | (files, .returns acct) => { store with files := files }.record acct op
  | (files, _) => { store with files := files }

theorem enteredOf_eq {password entered : List Byte} {env : Environment}
    (asked : enteredPassword password env.prompted = .ok entered) :
    enteredOf password env = entered := by
  rw [enteredOf, asked]

theorem call_unchanged {store : Store} {op : Op}
    (ended : ∀ acct, (store.call library dir op).2 ≠ .returns acct) :
    (store.call library dir op).1 = store.files := by
  cases op with
  | importAccount name password privKey env =>
      cases @importAccount_cases library dir name password privKey env store.files with
      | inl unchanged => exact unchanged.1
      | inr added =>
          obtain ⟨key, _, _, _, _, _, _, written⟩ := added
          exact absurd (congrArg Prod.snd written) (ended _)
  | loadAccount name password env => rfl
  | save handle password env =>
      cases found : store.handles[handle]? with
      | none => simp [Store.call, found]
      | some handle =>
          simp only [Store.call, found] at ended ⊢
          cases @save_cases library handle.account password false env store.files with
          | inl unchanged => exact unchanged.1
          | inr saved =>
              obtain ⟨_, _, _, _, _, written⟩ := saved
              exact absurd (by rw [written]; rfl) (ended handle.account)

theorem step_returns {store : Store} {op : Op} {files : Files} {acct : Account}
    (returned : store.call library dir op = (files, .returns acct)) :
    store.step library dir op = { store with files := files }.record acct op := by
  rw [Store.step, returned]

theorem step_ends {store : Store} {op : Op}
    (ended : ∀ acct, (store.call library dir op).2 ≠ .returns acct) :
    store.step library dir op = store := by
  have unchanged := call_unchanged ended
  rw [Store.step]
  split
  · exact absurd (congrArg Prod.snd ‹store.call library dir op = _›) (ended _)
  · rw [‹store.call library dir op = _›] at unchanged
    exact congrArg (fun files => { store with files := files }) unchanged

/-- Every account in a client's hands knows its file, and every entry is sealed in its own. -/
structure Sound (library : Library) (dir : GoString) (store : Store) : Prop where
  handles : ∀ handle ∈ store.handles, checkName handle.name = true ∧
    handle.account.keyStoreFile = walletFile dir handle.name ∧
    validString handle.account.name = true
  entries : ∀ name entry, store.entries name = some entry → checkName name = true ∧
    validString entry.data.name = true ∧
    ∃ content, store.files (walletFile dir name) = some content ∧
      Sealed library entry.data entry.password content

theorem sound_start (library : Library) (dir : GoString) (files : Files) :
    Sound library dir (start files) :=
  ⟨by simp [start], by simp [start]⟩

theorem Sound.hand {store : Store} (sound : Sound library dir store) {name : GoString}
    {acct : Account} (valid : checkName name = true)
    (file : acct.keyStoreFile = walletFile dir name) (text : validString acct.name = true) :
    Sound library dir (store.hand name acct) := by
  refine ⟨fun handle member => ?_, sound.entries⟩
  cases List.mem_append.1 member with
  | inl before => exact sound.handles handle before
  | inr added =>
      rw [List.mem_singleton.1 added]
      exact ⟨valid, file, text⟩

theorem Sound.enter {store : Store} (sound : Sound library dir store) {name : GoString}
    {data : AccountData} {password content : List Byte} (valid : checkName name = true)
    (text : validString data.name = true) (closed : Sealed library data password content) :
    Sound library dir
      (({ store with files := store.files.write (walletFile dir name) content } : Store).enter
        name ⟨data, password⟩) := by
  refine ⟨sound.handles, fun other entry entered => ?_⟩
  simp only [Store.enter] at entered
  by_cases same : other = name
  · rw [if_pos same, Option.some.injEq] at entered
    rw [← entered, same]
    exact ⟨valid, text, content, if_pos rfl, closed⟩
  · rw [if_neg same] at entered
    obtain ⟨otherValid, otherText, kept, file, stillClosed⟩ := sound.entries other entry entered
    refine ⟨otherValid, otherText, kept, ?_, stillClosed⟩
    have apart : walletFile dir other ≠ walletFile dir name :=
      fun equal => same (walletFile_injective otherValid valid equal)
    exact (if_neg apart).trans file

theorem Sound.step (lawful : library.amino.Lawful) {store : Store}
    (sound : Sound library dir store) (op : Op) :
    Sound library dir (store.step library dir op) := by
  by_cases ended : ∀ acct, (store.call library dir op).2 ≠ .returns acct
  · rw [step_ends ended]
    exact sound
  cases op with
  | importAccount name password privKey env =>
      cases @importAccount_cases library dir name password privKey env store.files with
      | inl unchanged => exact absurd unchanged.2 ended
      | inr added =>
          obtain ⟨key, entered, content, asked, valid, closed, -, written⟩ := added
          have returned : store.call library dir (.importAccount name password privKey env) = _ :=
            written
          rw [step_returns returned]
          simp only [Store.record, enteredOf_eq asked]
          exact (sound.hand valid rfl (validString_name valid)).enter valid
            (validString_name valid) closed
  | loadAccount name password env =>
      simp only [not_forall, not_not] at ended
      obtain ⟨acct, loaded⟩ := ended
      obtain ⟨valid, file, json, decoded⟩ := loadAccount_cases loaded
      rw [step_returns (Prod.ext rfl loaded)]
      exact sound.hand valid file (lawful.validName json _ decoded)
  | save index password env =>
      cases found : store.handles[index]? with
      | none => simp [Store.call, found] at ended
      | some handle =>
          obtain ⟨valid, file, text⟩ := sound.handles handle (List.mem_of_getElem? found)
          simp only [Store.call, found] at ended
          cases @save_cases library handle.account password false env store.files with
          | inl unchanged =>
              exact absurd (fun acct => replace_ne_returns unchanged.2 _ acct) ended
          | inr saved =>
              obtain ⟨entered, content, asked, closed, -, written⟩ := saved
              have returned : store.call library dir (.save index password env) =
                  (store.files.write handle.account.keyStoreFile content,
                    .returns handle.account) := by
                simp only [Store.call, found, written]
                rfl
              rw [step_returns returned]
              simp only [Store.record, found, enteredOf_eq asked, file]
              exact sound.enter valid text closed

theorem Sound.run (lawful : library.amino.Lawful) {store : Store}
    (sound : Sound library dir store) (ops : List Op) :
    Sound library dir (run (Store.step library dir) store ops) :=
  run_keeps (Sound library dir) (fun _ op held _ => held.step lawful op) sound
    (allSteps_of_forall (fun _ _ => trivial) store)

/-- The text of the account fits the signed length in its envelope, as every account's does
that has the name of a wallet. -/
def Fits (library : Library) (data : AccountData) : Prop :=
  checkName data.name = true ∨
    ∀ json, library.amino.marshalJSON data = .ok json → json.length < 2 ^ 31

/-- What a directory of wallet files is for. -/
structure KeepsAccounts (library : Library) (dir : GoString) (store : Store) : Prop where
  importKeeps : ∀ name password privKey env content,
    store.files (walletFile dir name) = some content →
    (store.call library dir (.importAccount name password privKey env)).1
        (walletFile dir name) = some content ∧
      (∀ acct, (store.call library dir (.importAccount name password privKey env)).2 ≠
        .returns acct) ∧
      ∀ key, privKey = .ed25519 key → ∃ err,
        (store.call library dir (.importAccount name password privKey env)).2 = .fails err
  failureKeeps : ∀ op err, (store.call library dir op).2 = .fails err →
    (store.call library dir op).1 = store.files
  ownFiles : ∀ name other, checkName name = true → checkName other = true → name ≠ other →
    walletFile dir name ≠ walletFile dir other
  loads : ∀ name entry env, store.entries name = some entry → Fits library entry.data →
    loadAccount library dir name entry.password env store.files =
      .returns ⟨entry.data, walletFile dir name⟩

theorem importAccount_exists {name : GoString} {files : Files} {content : List Byte}
    (file : files (walletFile dir name) = some content) (password : List Byte)
    (key : Block Byte 64) (env : Environment) :
    ∃ err, (importAccount library dir name password (.ed25519 key) env files).2 = .fails err := by
  by_cases valid : checkName name = true
  · have named : walletFile dir name ≠ [] := by
      rw [walletFile_eq dir valid]
      exact List.append_ne_nil_of_right_ne_nil _ (fileName_wallet valid).nonempty
    refine ⟨.exists, ?_⟩
    rw [importAccount_ed25519 valid]
    simp [imported, Account.save, named, file, Call.replace]
  · exact ⟨.name, by simp [importAccount, valid]⟩

/-- Whatever is called in a directory, and whatever it held before: its files stand for a map
from names to accounts. -/
theorem keepsAccounts_run (library : Library) (lawful : library.amino.Lawful) (dir : GoString)
    (files : Files) (ops : List Op) :
    KeepsAccounts library dir (run (Store.step library dir) (start files) ops) := by
  have sound := (sound_start library dir files).run lawful ops
  generalize run (Store.step library dir) (start files) ops = store at sound
  refine ⟨?_, ?_, ?_, ?_⟩
  · intro name password privKey env content file
    cases @importAccount_cases library dir name password privKey env store.files with
    | inl unchanged =>
        refine ⟨(congrFun unchanged.1 _).trans file, unchanged.2, ?_⟩
        rintro key rfl
        exact importAccount_exists file password key env
    | inr added =>
        obtain ⟨_, _, _, _, _, _, fresh, _⟩ := added
        rw [fresh] at file
        cases file
  · intro op err failed
    exact call_unchanged fun acct => by simp [failed]
  · intro name other valid otherValid distinct same
    exact distinct (walletFile_injective valid otherValid same)
  · intro name entry env entered fits
    obtain ⟨valid, text, content, file, closed⟩ := sound.entries name entry entered
    refine loadAccount_sealed lawful valid file closed text ?_ env
    intro json encoded
    cases fits with
    | inl named => exact lawful.short entry.data json named closed.hash_length encoded
    | inr short => exact short json encoded

/-! An account of the name `a`. -/

def sampleKey : Block Byte 64 :=
  ⟨lowBytes 64 (0x0101010101010101010101010101010101010101010101010101010101010101 * 256 ^ 32 +
    0x8a88e3dd7409f195fd52db2d3cba5d72ca6709bf1d94121bf3748801b40f6f5c), lowBytes_length 64 _⟩

def sampleHash : Block Byte 32 :=
  ⟨lowBytes 32 0x7d3cb3ef19f1027edc4b12f1f73d6c893b3c799f277c3831beef27c1ffb28134,
    lowBytes_length 32 _⟩

def sampleData : AccountData := ⟨str "a", .ed25519 sampleKey, sampleHash.1⟩

def sampleJSON : List Byte :=
  str "\x7b\"name\":\"a\",\"privateKey\":\x7b\"type\":\"954568A3288910\",\"value\":\"" ++
    str "AQEBAQEBAQEBAQEBAQEBAQEBAQEBAQEBAQEBAQEBAQGK" ++
    str "iOPddAnxlf1S2y08ul1yymcJvx2UEhvzdIgBtA9vXA==" ++
    str "\"\x7d,\"hash\":\"fTyz7xnxAn7cSxLx9z1siTs8eZ8nfDgxvu8nwf+ygTQ=\"\x7d"

def sampleAmino : Amino where
  marshalJSON data := if data = sampleData then .ok sampleJSON else .error "another account"
  unmarshalJSON json := if json = sampleJSON then .ok sampleData else .error "another text"

/-- What AES makes of the blocks of the envelope under the key of `Passw0rd!`. -/
def sampleBlocks : List (Block Byte 16) :=
  [0x4f7953dd08cc17c006ea1c91e8130382, 0xdf121bad82967bfee643cf1d00587e74,
    0x4c080a52e755b409456bbb429bfc4e57, 0x5b9b93cdb3be02518407c47eae35f6f0,
    0xb961194535c1c9ee595f6f917c05062f, 0x285cb9d55e7f0425381f34a52c2ce7d1,
    0xbfb3e8db8d831d9eae145485f514adb5, 0x4b5a11107a7d33805da43d074e331dc5,
    0xca305ddb8f20b0abab933d122c0f6c47, 0xf450d32c21c19fe56b08ee39f586bd0a,
    0x04998223f70be914eebf0f9519d29d97, 0x5d045eb0fbcf456b32071a404686b5f9,
    0xac3e6d87b13a6211623ea868e489840b, 0x72850d18d57433c434f1c4bf4240d3b7].map
    fun number => ⟨lowBytes 16 number, lowBytes_length 16 number⟩

def sampleAES : Equiv.Perm (Block Byte 16) :=
  sampleBlocks.zipIdx.foldr (fun (cipher, index) rest =>
    (Equiv.swap ⟨fill 16 ((envelope sampleJSON).drop (16 * index)), fill_length 16 _⟩
      cipher).trans rest) (Equiv.refl _)

/-- The hashes of the account and of the password. -/
def walletCrypto : Crypto where
  sha3 data :=
    if data = str "a" ++ sampleKey.1 then sampleHash
    else ⟨lowBytes 32 0xeda9f5876f481ffcc37f6b43af83bde269648f75b411b5d4124dea837acd1b06,
      lowBytes_length 32 _⟩
  ripemd160 _ := Block.fill 20 0
  md5 _ := ⟨lowBytes 16 0x82d613560417b084b10a94c76ad09b30, lowBytes_length 16 _⟩
  aes _ := sampleAES

def sampleLibrary : Library where
  crypto := walletCrypto
  amino := sampleAmino
  unicode :=
    { isNumber := fun char => 48 ≤ char && char ≤ 57
      isUpper := fun char => 65 ≤ char && char ≤ 90
      isLower := fun char => 97 ≤ char && char ≤ 122 }

theorem eq_sample_of_marshalJSON {data : AccountData} {json : List Byte}
    (encoded : sampleAmino.marshalJSON data = .ok json) : data = sampleData ∧ json = sampleJSON := by
  by_cases same : data = sampleData
  · exact ⟨same, (Except.ok.inj ((if_pos same).symm.trans encoded)).symm⟩
  · have failed : sampleAmino.marshalJSON data = .error "another account" := if_neg same
    rw [failed] at encoded
    cases encoded

theorem lawful_sampleAmino : sampleAmino.Lawful := by
  refine ⟨?_, ?_, ?_⟩
  · intro data json _ _ encoded
    obtain ⟨account, text⟩ := eq_sample_of_marshalJSON encoded
    rw [account]
    exact if_pos text
  · intro json data decoded
    by_cases same : json = sampleJSON
    · rw [← Except.ok.inj ((if_pos same).symm.trans decoded)]
      decide
    · have failed : sampleAmino.unmarshalJSON json = .error "another text" := if_neg same
      rw [failed] at decoded
      cases decoded
  · intro data json _ _ encoded
    rw [(eq_sample_of_marshalJSON encoded).2]
    decide +kernel

def quietly : Environment := ⟨.ok (), .error "EOF"⟩

theorem keepsAccounts_run_imported :
    sampleLibrary.amino.Lawful ∧
      loadAccount sampleLibrary (str "keystore") (str "a") (str "Passw0rd!") quietly
        (run (Store.step sampleLibrary (str "keystore")) (start fun _ => none)
          [.importAccount (str "a") (str "Passw0rd!") (.ed25519 sampleKey) quietly]).files =
        .returns ⟨sampleData, str "keystore/a.wal"⟩ :=
  ⟨lawful_sampleAmino,
    (keepsAccounts_run sampleLibrary lawful_sampleAmino (str "keystore") (fun _ => none)
      [.importAccount (str "a") (str "Passw0rd!") (.ed25519 sampleKey) quietly]).loads (str "a")
        ⟨sampleData, str "Passw0rd!"⟩ quietly
          (by decide +kernel) (.inl (by decide))⟩

end Bclib.Wal
