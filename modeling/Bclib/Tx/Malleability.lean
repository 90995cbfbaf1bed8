import Bclib.Go.Strings
import Bclib.Tx.RoundTrip

namespace Bclib.Tx

open Data
open Go
open Rlp

/-! Which accepted strings are the ones `WrapTxEx` builds. -/

/-- Without line breaks, and without bits in the last quantum that belong to no byte. -/
def strictText (string : Text) : Bool :=
  string.all (fun char => !Base64.isBreak char) && Base64.zeroTail string

theorem strictText_iff {string : Text} {bytes : List Byte}
    (decoded : Base64.decode string = some bytes) :
    strictText string = true ↔ string = Base64.encode bytes := by
  constructor
  · intro strict
    rw [strictText, Bool.and_eq_true, List.all_eq_true] at strict
    have plain : ∀ char ∈ string, Base64.isBreak char = false := fun char member => by
      simpa using strict.1 char member
    rw [Base64.decode, Base64.filter_breaks plain] at decoded
    exact (Base64.eq_encode_iff string decoded).2 strict.2
  · rintro rfl
    have tail := (Base64.eq_encode_iff _ (Base64.decodeQuanta_encode bytes)).1 rfl
    rw [strictText, tail, Bool.and_true, List.all_eq_true]
    intro char member
    rw [(Base64.encode_plain bytes char member).1]
    rfl

theorem puthead_one {smalltag largetag : Byte} {size : Nat} (large : 56 ≤ size)
    (small : size < 256) : puthead smalltag largetag size = [largetag + 1, toByte size] := by
  have one : putint size = [toByte size] := if_pos small
  rw [puthead, if_neg (by omega), one]
  rfl

private theorem wireString_eight {content : List Byte}
    (eight : (wireString content).length = 8) : wireString content = 0x87 :: content := by
  have shorter : content.length ≤ 8 := eight ▸ length_le_wireString content
  rw [wireString] at eight ⊢
  split_ifs at eight ⊢ with single
  · rw [single.1] at eight
    cases eight
  · rw [puthead, if_pos (by omega), List.length_append, List.length_singleton] at eight
    rw [puthead, if_pos (by omega), show content.length = 7 by omega]
    rfl

theorem sig_of_header {sigInfo : Ed25519Sig} {tail rest : List Byte}
    (same : sigInfo.bytes ++ rest = sigHeader ++ tail)
    (total : (sigInfo.bytes ++ rest).length = 109) :
    sigInfo.sigType = str "ed25519" ∧ rest = [] := by
  rw [sigInfo.bytes_eq] at same total
  have size : (wireString sigInfo.sigType ++
      (0xA0 :: sigInfo.pubKey.1 ++ 0xB8 :: 0x40 :: sigInfo.sigValue.1)).length =
      (wireString sigInfo.sigType).length + 99 := by
    simp only [List.length_append, List.length_cons, sigInfo.pubKey.2, sigInfo.sigValue.2]
  have bound : (wireString sigInfo.sigType).length + 99 < 256 := by
    rw [wireList, List.length_append, List.length_append, size] at total
    omega
  rw [wireList, size, puthead_one (by omega) bound] at same total
  obtain ⟨second, third⟩ : toByte ((wireString sigInfo.sigType).length + 99) = 0x6B ∧
      wireString sigInfo.sigType ++ ((0xA0 :: sigInfo.pubKey.1 ++
        0xB8 :: 0x40 :: sigInfo.sigValue.1) ++ rest) = 0x87 :: (str "ed25519" ++ tail) := by
    simpa [sigHeader] using same
  have length := congrArg BitVec.toNat second
  rw [toByte, BitVec.toNat_ofNat, Nat.mod_eq_of_lt bound] at length
  have eight : (wireString sigInfo.sigType).length = 8 := Nat.add_right_cancel length
  have written := wireString_eight eight
  rw [written, List.cons_append, List.cons.injEq] at third
  have seven : sigInfo.sigType.length = (str "ed25519").length := by
    rw [written, List.length_cons] at eight
    exact Nat.succ.inj eight
  refine ⟨(List.append_inj third.2 seven).1, List.eq_nil_of_length_eq_zero ?_⟩
  simp only [List.length_append, List.length_cons, List.length_nil, eight,
    sigInfo.pubKey.2, sigInfo.sigValue.2] at total
  omega

section Accepted

variable {library : Library} {chainID string payload : List Byte} {pubKey : PubKeyEd25519}
  {sigValue : SignatureEd25519}

/-- `tx3.TxParse` accepts the string, for this payload, public key and signature. -/
def Accepts (library : Library) (chainID string payload : List Byte)
    (pubKey : PubKeyEd25519) (sigValue : SignatureEd25519) : Prop :=
  ∃ parsed sigBytes siginfo, txParse library .tx3 chainID string = .ok parsed ∧
    parsed.err = none ∧ sigBytes.length < maxLen ∧
    Genuine library .tx3 chainID string parsed payload sigBytes siginfo ∧
    siginfo.pubKey = pubKey ∧ siginfo.sigValue = sigValue

/-- The fields of the string are strict texts, and nothing but the name of the scheme, a
key and a signature is in the last. -/
def strict (string : Text) : Bool :=
  match string.splitOn 46 with
  | [_, _, payload, _, sig] =>
      strictText payload && strictText sig &&
        match Base64.decode sig with
        | some sigBytes => decide (sigBytes.length = 109) && sigHeader.isPrefixOf sigBytes
        | none => false
  | _ => false

theorem strict_iff {mac version payloadText signers sigText : Text} {payload sigBytes : List Byte}
    (fields : string.splitOn 46 = [mac, version, payloadText, signers, sigText])
    (payloadDecoded : Base64.decode payloadText = some payload)
    (sigDecoded : Base64.decode sigText = some sigBytes) :
    strict string = true ↔ payloadText = Base64.encode payload ∧
      sigText = Base64.encode sigBytes ∧ sigBytes.length = 109 ∧
      ∃ tail, sigBytes = sigHeader ++ tail := by
  simp only [strict, fields, sigDecoded, Bool.and_eq_true, strictText_iff payloadDecoded,
    strictText_iff sigDecoded, decide_eq_true_eq, List.isPrefixOf_iff_prefix, and_assoc]
  refine and_congr_right fun _ => and_congr_right fun _ => and_congr_right fun _ => ?_
  exact exists_congr fun tail => eq_comm

theorem Accepts.assembled_iff
    (accepts : Accepts library chainID string payload pubKey sigValue) :
    assemble .tx3 chainID payload ⟨str "ed25519", pubKey, sigValue⟩ = .ok string ↔
      strict string = true := by
  obtain ⟨parsed, sigBytes, siginfo, -, -, sigShort, genuine, rfl, rfl⟩ := accepts
  obtain ⟨payloadText, sigText, fields, payloadDecoded, sigDecoded⟩ := genuine.fields
  have scheme : (109 : Nat) < maxLen := by decide
  have built := assemble_eq .tx3 chainID payload
    ⟨str "ed25519", siginfo.pubKey, siginfo.sigValue⟩
    (by rw [signed_bytes_length rfl]; exact scheme)
  have joined : [46].intercalate (string.splitOn 46) = string := List.intercalate_splitOn 46
  have plain := fun field => @not_mem_of_mem_splitOn 46 string field
  rw [fields] at joined plain
  rw [strict_iff fields payloadDecoded sigDecoded, built]
  constructor
  · intro same
    have undotted : ∀ field ∈ [chainID ++ str "<tx>", Package.tx3.version,
        Package.tx3.encodeToString payload, str "<1>", Package.tx3.encodeToString
          (Ed25519Sig.mk (str "ed25519") siginfo.pubKey siginfo.sigValue).bytes],
        46 ∉ field := by
      simp only [List.forall_mem_cons] at plain ⊢
      exact ⟨plain.1, plain.2.1, Package.dot_not_mem_encodeToString _ _, plain.2.2.2.1,
        Package.dot_not_mem_encodeToString _ _, (fun _ absent => nomatch absent)⟩
    have split := splitOn_fields undotted (List.cons_ne_nil _ _)
    rw [Except.ok.inj same, fields] at split
    simp only [List.cons.injEq, true_and, and_true] at split
    obtain ⟨rfl, rfl⟩ := split
    have sameSig := sigDecoded.symm.trans (Base64.decode_encode _)
    obtain rfl := Option.some.inj sameSig
    exact ⟨rfl, rfl, signed_bytes_length rfl, _, signed_bytes_eq rfl⟩
  · rintro ⟨rfl, rfl, total, tail, header⟩
    obtain ⟨-, rest, split⟩ :=
      @decode_front ed25519SigType _ rfl rfl rfl sigShort _ genuine.sigDecoded
    have whole : sigBytes = siginfo.bytes ++ rest := split
    obtain ⟨named, rfl⟩ := sig_of_header (whole.symm.trans header) (whole ▸ total)
    have same : siginfo = ⟨str "ed25519", siginfo.pubKey, siginfo.sigValue⟩ := by
      rw [← named]
    rw [← same, ← List.append_nil siginfo.bytes, ← whole]
    exact congrArg Except.ok joined

/-- Strict strings are not malleable. -/
theorem strict_not_malleable (library : Library) (chainID string : Text)
    (payload : List Byte) (pubKey : PubKeyEd25519) (sigValue : SignatureEd25519)
    (accepts : Accepts library chainID string payload pubKey sigValue) :
    (assemble .tx3 chainID payload ⟨str "ed25519", pubKey, sigValue⟩ = .ok string ↔
        strict string = true) ∧
      (strict string = true → ∀ other, strict other = true →
        Accepts library chainID other payload pubKey sigValue → other = string) := by
  refine ⟨accepts.assembled_iff, fun strictly other otherStrictly otherAccepts => ?_⟩
  have first := accepts.assembled_iff.2 strictly
  have second := otherAccepts.assembled_iff.2 otherStrictly
  exact Except.ok.inj (second.symm.trans first)

def sampleSig : Ed25519Sig := ⟨str "ed25519", samplePubKey, sampleSignature⟩

theorem sample_accepts :
    Accepts sampleLibrary (str "local") sampleString samplePayload samplePubKey
      sampleSignature := by
  have fields : sampleString.splitOn 46 = [str "local" ++ str "<tx>", Package.tx3.version,
      Base64.encode samplePayload, str "<1>", Base64.encode sampleSig.bytes] := by
    decide +kernel
  have payload : samplePayload = sampleTx.bytes := by decide +kernel
  have sigShort : sampleSig.bytes.length < maxLen := by
    rw [signed_bytes_length rfl]
    decide
  refine ⟨⟨sampleTx, samplePubKey, none⟩, sampleSig.bytes, sampleSig, txParse_sampleString, rfl,
    sigShort, ?_, rfl, rfl⟩
  exact {
    fields := ⟨_, _, fields, Base64.decode_encode _, Base64.decode_encode _⟩
    sigDecoded := decode_sigBytes sampleSig sigShort
    signer := rfl
    verified := by decide +kernel
    txDecoded := by
      rw [payload]
      exact decode_txBytes sampleTx (by decide +kernel)
    messages := Or.inl rfl }

theorem strict_not_malleable_sample :
    strict sampleString = true ∧
      (assemble .tx3 (str "local") samplePayload
          ⟨str "ed25519", samplePubKey, sampleSignature⟩ = .ok sampleString ↔
        strict sampleString = true) ∧
      (strict sampleString = true → ∀ other, strict other = true →
        Accepts sampleLibrary (str "local") other samplePayload samplePubKey
          sampleSignature → other = sampleString) :=
  ⟨by decide +kernel, strict_not_malleable sampleLibrary (str "local") sampleString
    samplePayload samplePubKey sampleSignature sample_accepts⟩

theorem Accepts.append_break
    (accepts : Accepts library chainID string payload pubKey sigValue) :
    Accepts library chainID (string ++ [10]) payload pubKey sigValue := by
  obtain ⟨parsed, sigBytes, siginfo, ran, fine, sigShort, genuine, ofKey, ofSig⟩ := accepts
  obtain ⟨payloadText, sigText, fields, payloadDecoded, sigDecoded⟩ := genuine.fields
  have plain := fun field => @not_mem_of_mem_splitOn 46 string field
  have joined : [46].intercalate (string.splitOn 46) = string := List.intercalate_splitOn 46
  rw [fields] at joined plain
  have longer : (string ++ [10]).splitOn 46 =
      [chainID ++ str "<tx>", Package.tx3.version, payloadText, str "<1>",
        sigText ++ [10]] := by
    have undotted : ∀ field ∈ [chainID ++ str "<tx>", Package.tx3.version, payloadText,
        str "<1>", sigText ++ [10]], 46 ∉ field := by
      simp only [List.forall_mem_cons] at plain ⊢
      exact ⟨plain.1, plain.2.1, plain.2.2.1, plain.2.2.2.1,
        (fun member => (List.mem_append.1 member).elim plain.2.2.2.2.1 (by decide)),
        (fun _ absent => nomatch absent)⟩
    rw [← splitOn_fields undotted (List.cons_ne_nil _ _), ← joined]
    simp [List.intercalate]
  have sigRead : Package.tx3.decodeString library (sigText ++ [10]) = some sigBytes :=
    (Base64.decode_append_break sigText rfl).trans sigDecoded
  refine ⟨parsed, sigBytes, siginfo, ?_, fine, sigShort,
    { genuine with fields := ⟨payloadText, sigText ++ [10], longer, payloadDecoded, sigRead⟩ },
    ofKey, ofSig⟩
  rw [← ran]
  simp only [txParse, longer, fields, sigRead, sigDecoded]

theorem appended_break_accepted :
    sampleString ++ [10] ≠ sampleString ∧
      Accepts sampleLibrary (str "local") sampleString samplePayload samplePubKey
        sampleSignature ∧
      Accepts sampleLibrary (str "local") (sampleString ++ [10]) samplePayload samplePubKey
        sampleSignature ∧
      assemble .tx3 (str "local") samplePayload
        ⟨str "ed25519", samplePubKey, sampleSignature⟩ ≠ .ok (sampleString ++ [10]) :=
  ⟨by simp, sample_accepts, sample_accepts.append_break, by decide +kernel⟩

end Accepted

end Bclib.Tx
