import Bclib.Algorithm.Address
import Bclib.Tx.Parse

namespace Bclib.Tx

open Algorithm
open Data
open Go
open Rlp

/-! Queries: `QueryDataParse`, which has the same text in packages `tx2` and `tx3`. -/

def queryType : GoType := .struct (.cons "QueryKey" {} .string .nil)

structure Query where
  queryKey : Text
  deriving DecidableEq, Repr

def Query.toValue (query : Query) : Value queryType := (query.queryKey, ())

def Query.ofValue (value : Value queryType) : Query := ⟨value.1⟩

inductive QueryError where
  | message (literal : String)
  | rlp (err : Err)
  deriving DecidableEq, Repr

/-- An element of a slice; out of range is a panic. -/
def element (strs : List Text) (index : Nat) (next : Text → Outcome ε α) : Outcome ε α :=
  match strs[index]? with
  | none => .panic
  | some field => next field

section Query

variable (library : Library) (crypto : Crypto) (codec : Base58Codec)

def parseQuery (chainID : Text) (txData sigBytes : List Byte) :
    Outcome QueryError (Text × Query) :=
  match decode ed25519SigType sigBytes with
  | .error _ => .panic
  | .ok (some err, _) => .error (.rlp err)
  | .ok (none, value) =>
      let siginfo := Ed25519Sig.ofValue value
      if library.verify siginfo.pubKey txData siginfo.sigValue = true then
        match address crypto codec siginfo.pubKey chainID with
        | none => .panic
        | some address =>
            match decode queryType txData with
            | .error _ => .panic
            | .ok (some err, _) => .error (.rlp err)
            | .ok (none, value) => .ok (address, Query.ofValue value)
      else .error (.message "verify sig fail")

/-- The fields are taken without a look at how many there are. -/
def queryFields (chainID : Text) (strs : List Text) : Outcome QueryError (Text × Query) :=
  element strs 0 fun mac =>
    if mac ≠ chainID ++ str "<qy>" then .error (.message "tx data error")
    else element strs 1 fun version =>
      if version ≠ str "v1" then .error (.message "tx data error")
      else element strs 3 fun signerNumber =>
        if signerNumber ≠ str "<1>" then .error (.message "tx data error")
        else element strs 2 fun payload => element strs 4 fun sig =>
          parseQuery library crypto codec chainID (library.base58Decode payload)
            (library.base58Decode sig)

def queryDataParse (chainID txString : Text) : Outcome QueryError (Text × Query) :=
  queryFields library crypto codec chainID (txString.splitOn 46)

end Query

section Parse

variable {library : Library} {crypto : Crypto} {codec : Base58Codec} {chainID txString : Text}

/-- The payload is a query, and the signature one of its bytes. -/
def Signed (library : Library) (txData sigBytes : List Byte) : Prop :=
  ∃ (siginfo : Ed25519Sig) (query : Query),
    decode ed25519SigType sigBytes = .ok (none, siginfo.toValue) ∧
    library.verify siginfo.pubKey txData siginfo.sigValue = true ∧
    decode queryType txData = .ok (none, query.toValue)

theorem address_plain (nonempty : chainID ≠ []) (plain : 91 ∉ chainID) (pubKey : PubKeyEd25519) :
    ∃ text, address crypto codec pubKey chainID = some text := by
  rw [address, if_neg nonempty, splitChainID, if_neg plain]
  exact ⟨_, addressText_plain plain _⟩

theorem signed_iff {txData sigBytes : List Byte} {sigErr txErr : Option Err}
    {sigValue : Value ed25519SigType} {txValue : Value queryType}
    (sigDecoded : decode ed25519SigType sigBytes = .ok (sigErr, sigValue))
    (txDecoded : decode queryType txData = .ok (txErr, txValue)) :
    Signed library txData sigBytes ↔
      sigErr = none ∧ txErr = none ∧
        library.verify (Ed25519Sig.ofValue sigValue).pubKey txData
          (Ed25519Sig.ofValue sigValue).sigValue = true := by
  rw [Signed, sigDecoded, txDecoded]
  constructor
  · rintro ⟨siginfo, query, sigRead, verified, txRead⟩
    cases sigRead
    cases txRead
    exact ⟨rfl, rfl, verified⟩
  · rintro ⟨rfl, rfl, verified⟩
    exact ⟨Ed25519Sig.ofValue sigValue, Query.ofValue txValue, rfl, verified, rfl⟩

theorem parseQuery_spec (nonempty : chainID ≠ []) (plain : 91 ∉ chainID)
    {txData sigBytes : List Byte} (txShort : txData.length < maxLen)
    (sigShort : sigBytes.length < maxLen) :
    parseQuery library crypto codec chainID txData sigBytes ≠ .panic ∧
      ((∃ result, parseQuery library crypto codec chainID txData sigBytes = .ok result) ↔
        Signed library txData sigBytes) := by
  obtain ⟨sigErr, sigValue, sigDecoded⟩ := @decode_total ed25519SigType sigBytes rfl rfl sigShort
  obtain ⟨txErr, txValue, txDecoded⟩ := @decode_total queryType txData rfl rfl txShort
  obtain ⟨address, made⟩ := @address_plain crypto codec chainID nonempty plain
    (Ed25519Sig.ofValue sigValue).pubKey
  rw [signed_iff sigDecoded txDecoded]
  cases sigErr with
  | some err => simp [parseQuery, sigDecoded]
  | none =>
      by_cases verified : library.verify (Ed25519Sig.ofValue sigValue).pubKey txData
          (Ed25519Sig.ofValue sigValue).sigValue = true
      · cases txErr with
        | some err => simp [parseQuery, sigDecoded, verified, made, txDecoded]
        | none => simp [parseQuery, sigDecoded, verified, made, txDecoded]
      · simp [parseQuery, sigDecoded, verified]

/-- The fields of a query, with a signature of its bytes. -/
def IsQuery (library : Library) (chainID : Text) (strs : List Text) : Prop :=
  ∃ payload sig, strs = [chainID ++ str "<qy>", str "v1", payload, str "<1>", sig] ∧
    Signed library (library.base58Decode payload) (library.base58Decode sig)

/-- The parser returns, and with a query only for the fields of one. -/
structure Checked (library : Library) (crypto : Crypto) (codec : Base58Codec)
    (chainID txString : Text) : Prop where
  returns : queryDataParse library crypto codec chainID txString ≠ .panic
  genuine : ∀ result, queryDataParse library crypto codec chainID txString = .ok result →
    IsQuery library chainID (txString.splitOn 46)

/-- The fields end only where one of them was wrong before, or after the fifth; or they go
on behind fields that are not those of a query. -/
def FieldsFit (library : Library) (chainID : Text) : List Text → Prop
  | [] => True
  | [mac] => mac ≠ chainID ++ str "<qy>"
  | [mac, version] => mac = chainID ++ str "<qy>" → version ≠ str "v1"
  | [mac, version, _] => mac = chainID ++ str "<qy>" → version ≠ str "v1"
  | [mac, version, _, signerNumber] =>
      mac = chainID ++ str "<qy>" → version = str "v1" → signerNumber ≠ str "<1>"
  | [_, _, _, _, _] => True
  | mac :: version :: payload :: signerNumber :: sig :: _ :: _ =>
      mac = chainID ++ str "<qy>" → version = str "v1" → signerNumber = str "<1>" →
        ¬Signed library (library.base58Decode payload) (library.base58Decode sig)

theorem queryFields_of_header (payload sig : Text) (rest : List Text) :
    queryFields library crypto codec chainID ((chainID ++ str "<qy>") ::
        str "v1" :: payload :: str "<1>" :: sig :: rest) =
      parseQuery library crypto codec chainID (library.base58Decode payload)
        (library.base58Decode sig) := by
  simp [queryFields, element]

theorem queryFields_of_other {mac version signerNumber : Text}
    (other : ¬(mac = chainID ++ str "<qy>" ∧ version = str "v1" ∧ signerNumber = str "<1>"))
    (payload sig : Text) (rest : List Text) :
    queryFields library crypto codec chainID
        (mac :: version :: payload :: signerNumber :: sig :: rest) =
      .error (.message "tx data error") := by
  simp only [queryFields, element, List.getElem?_cons_zero, List.getElem?_cons_succ]
  split_ifs with first second third
  · rfl
  · rfl
  · rfl
  · exact absurd ⟨not_not.1 first, not_not.1 second, not_not.1 third⟩ other

theorem queryFields_fit (nonempty : chainID ≠ []) (plain : 91 ∉ chainID) {strs : List Text}
    (present : strs ≠ []) (short : ∀ field ∈ strs, field.length < maxLen) :
    (queryFields library crypto codec chainID strs ≠ .panic ∧
      ∀ result, queryFields library crypto codec chainID strs = .ok result →
        IsQuery library chainID strs) ↔ FieldsFit library chainID strs := by
  -- The cases are the numbers of fields the function can tell apart.
  rcases strs with _ | ⟨mac, _ | ⟨version, _ | ⟨payload, _ | ⟨signerNumber, _ | ⟨sig, rest⟩⟩⟩⟩⟩
  · exact absurd rfl present
  · by_cases header : mac = chainID ++ str "<qy>" <;>
      simp [queryFields, element, FieldsFit, header]
  · by_cases header : mac = chainID ++ str "<qy>" <;> by_cases atVersion : version = str "v1" <;>
      simp [queryFields, element, FieldsFit, header, atVersion]
  · by_cases header : mac = chainID ++ str "<qy>" <;> by_cases atVersion : version = str "v1" <;>
      simp [queryFields, element, FieldsFit, header, atVersion]
  · by_cases header : mac = chainID ++ str "<qy>" <;> by_cases atVersion : version = str "v1" <;>
      by_cases signers : signerNumber = str "<1>" <;>
      simp [queryFields, element, FieldsFit, header, atVersion, signers]
  · by_cases header : mac = chainID ++ str "<qy>" ∧ version = str "v1" ∧
        signerNumber = str "<1>"
    · obtain ⟨rfl, rfl, rfl⟩ := header
      obtain ⟨returns, accepts⟩ := @parseQuery_spec library crypto codec chainID nonempty plain _ _
        (library.base58Decode_short payload (short payload (by simp)))
        (library.base58Decode_short sig (short sig (by simp)))
      rw [queryFields_of_header]
      cases rest with
      | nil =>
          refine ⟨fun _ => trivial, fun _ => ⟨returns, fun result ran => ?_⟩⟩
          exact ⟨payload, sig, rfl, accepts.1 ⟨result, ran⟩⟩
      | cons more rest =>
          constructor
          · rintro ⟨-, genuine⟩ - - - signed
            obtain ⟨result, ran⟩ := accepts.2 signed
            obtain ⟨_, _, five, -⟩ := genuine result ran
            simp at five
          · intro fit
            exact ⟨returns, fun result ran =>
              absurd (accepts.1 ⟨result, ran⟩) (fit rfl rfl rfl)⟩
    · rw [queryFields_of_other header]
      refine ⟨fun _ => ?_, fun _ => ⟨by simp, by simp⟩⟩
      cases rest with
      | nil => trivial
      | cons more rest =>
          intro first second third
          exact absurd ⟨first, second, third⟩ header

theorem fieldsFit_of_five {strs : List Text} (five : strs.length = 5) :
    FieldsFit library chainID strs := by
  rcases strs with _ | ⟨_, _ | ⟨_, _ | ⟨_, _ | ⟨_, _ | ⟨_, _ | ⟨_, _⟩⟩⟩⟩⟩⟩
  case cons.cons.cons.cons.cons.nil => trivial
  all_goals simp at five

/-- The parser keeps to what it is for exactly if the fields fit. -/
theorem checked_iff_fieldsFit (nonempty : chainID ≠ []) (plain : 91 ∉ chainID)
    (short : txString.length < maxLen) :
    Checked library crypto codec chainID txString ↔
      FieldsFit library chainID (txString.splitOn 46) := by
  rw [← @queryFields_fit library crypto codec chainID nonempty plain (txString.splitOn 46)
    (List.splitOn_ne_nil 46 txString) fun field member =>
      Nat.lt_of_le_of_lt (length_le_of_splitOn member) short]
  exact ⟨fun checked => ⟨checked.returns, checked.genuine⟩, fun checked => ⟨checked.1, checked.2⟩⟩

end Parse

/-! A signed query. -/

def queryPayload : List Byte := lowBytes 10 0xc9882f6163636f756e74

def querySignature : SignatureEd25519 :=
  ⟨lowBytes 32 0x8286853762469a8bc515c7a233dab299a42b038d2368542eb882fbe9fca341b4 ++
      lowBytes 32 0xc1fc1c9c56a5758ec675fd71b19b3ef1950a5c65757d18677b5dffb801c1f90d,
    by rw [List.length_append, lowBytes_length, lowBytes_length]⟩

/-- Verifying as the scheme does for the key and the query. -/
def queryLibrary : Library :=
  { sampleLibrary with
    verify := fun pubKey message signature =>
      pubKey = samplePubKey ∧ message = queryPayload ∧ signature = querySignature }

/-- The hashes of the key on chain `local`. -/
def queryCrypto : Crypto :=
  { hashCrypto with
    sha3 := fun _ =>
      ⟨lowBytes 32 0x15efeaf3ab8aded13ce8c729d00e40e36ac8b7ebfb26974606681a23b54ad90e, rfl⟩
    ripemd160 := fun bytes =>
      if bytes.length = 32 then
        ⟨lowBytes 20 0xb472a2169a9da9f56f7fd4ee86c04d7c94af86af, rfl⟩
      else
        ⟨lowBytes 20 0xc0271a266c42c2a1f31a140477c19b78ee87fd50, rfl⟩ }

def queryString : Text :=
  str "local<qy>.v1.CKhfPW5MKjuqSB.<1>." ++
    str "YTgiA1gdDGi2L8i8zQB2d62J9YXrCF7HmF3HrcTifKPpQWzaY3RtatFrjzzvecAatA652xTKNa1k" ++
    str "qDRivnvtPwJbCKHwj49CSjKeNYq7mJ91p2M3pSiJprPg3zNrkN7TbS9EMMtbAjZQcvxs4MGr8"

theorem checked_iff_fieldsFit_signed :
    (str "local" ≠ [] ∧ 91 ∉ str "local" ∧ queryString.length < maxLen) ∧
      Checked queryLibrary queryCrypto base58Codec (str "local") queryString := by
  have short : queryString.length < maxLen := by decide +kernel
  refine ⟨⟨by decide, by decide, short⟩, ?_⟩
  apply (checked_iff_fieldsFit (by decide) (by decide) short).2
  exact fieldsFit_of_five (by decide +kernel)

/-- A string of nothing but the right header panics, and one with a sixth field is
accepted. -/
theorem lone_header_panics :
    queryDataParse queryLibrary queryCrypto base58Codec (str "local") (str "local<qy>") =
        .panic ∧
      ¬Checked queryLibrary queryCrypto base58Codec (str "local") (str "local<qy>") ∧
      queryDataParse queryLibrary queryCrypto base58Codec (str "local")
          (queryString ++ str ".x") =
        .ok (str "localHT7xP6JLoCePXX6Vkvh4Nq6s4Km2QAy8y", ⟨str "/account"⟩) := by
  have panics : queryDataParse queryLibrary queryCrypto base58Codec (str "local")
      (str "local<qy>") = .panic := by decide +kernel
  exact ⟨panics, fun checked => checked.returns panics, by decide +kernel⟩

end Bclib.Tx
