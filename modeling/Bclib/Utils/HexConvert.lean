import Bclib.Go.Hex

namespace Bclib.Utils

open Data
open Go

/-! Hexadecimal parameters: `0x` and pairs of digits. -/

def paramError (fieldName errInfo : GoString) : GoString :=
  str "\x7b\"code\":-1, \"message\":\"Parameter '" ++ fieldName ++ str "' " ++ errInfo ++
    str "\",\"data\":\"\"\x7d"

/-- What the three parsers begin with; the error of the decoder is dropped. -/
def hexBytes (hexStr fieldName : GoString) : Except GoString (List Byte) :=
  if ¬(str "0x").isPrefixOf hexStr then .error (paramError fieldName (str "must begin with '0x'"))
  else
    let hexStr := hexStr.drop 2
    if hexStr.length % 2 ≠ 0 then
      .error (paramError fieldName (str "must be hex string with even length"))
    else .ok (hexDecode hexStr).1

/-- `ParseHexUint64` and `ParseHexUint32`, which differ in the width of the number. -/
def parseHexUint (width : Nat) (hexStr fieldName : GoString) :
    Except GoString (BitVec (8 * width)) :=
  match hexBytes hexStr fieldName with
  | .error err => .error err
  | .ok hexBytes =>
      if width < hexBytes.length then .error (paramError fieldName (str "is too large"))
      else if hexBytes.length = 0 then .error (paramError fieldName (str "must not be null"))
      else
        .ok (BitVec.ofNat _
          (ofBigEndian (List.replicate (width - hexBytes.length) 0#8 ++ hexBytes)))

def parseHexUint64 (hexStr fieldName : GoString) : Except GoString (BitVec 64) :=
  parseHexUint 8 hexStr fieldName

def parseHexUint32 (hexStr fieldName : GoString) : Except GoString (BitVec 32) :=
  parseHexUint 4 hexStr fieldName

def uint64ToHex (val : BitVec 64) : GoString := str "0x" ++ hexEncode (lowBytes 8 val.toNat)

def parseHexString (hexStr fieldName : GoString) (lenConstraint : Int) :
    Except GoString (List Byte) :=
  match hexBytes hexStr fieldName with
  | .error err => .error err
  | .ok hexBytes =>
      if 0 < lenConstraint ∧ (hexBytes.length : Int) ≠ lenConstraint then
        .error (paramError fieldName (str "must be " ++
          -- the product is an `int`
          str (toString (BitVec.ofInt 64 (lenConstraint * 2)).toInt) ++ str " hex-chars"))
      else .ok hexBytes

section Parsers

variable {hexStr : GoString} (fieldName : GoString)

theorem hexBytes_eq_ok_iff (bytes : List Byte) :
    hexBytes hexStr fieldName = .ok bytes ↔
      ∃ text, hexStr = str "0x" ++ text ∧ text.length % 2 = 0 ∧ (hexDecode text).1 = bytes := by
  constructor
  · intro ran
    simp only [hexBytes] at ran
    split_ifs at ran with marked odd
    obtain ⟨text, rfl⟩ := List.isPrefixOf_iff_prefix.1 marked
    have dropped : (str "0x" ++ text).drop 2 = text := rfl
    rw [dropped] at odd ran
    exact ⟨text, rfl, not_not.1 odd, Except.ok.inj ran⟩
  · rintro ⟨text, rfl, even, rfl⟩
    have marked : (str "0x").isPrefixOf (str "0x" ++ text) = true :=
      List.isPrefixOf_iff_prefix.2 (List.prefix_append _ _)
    have dropped : (str "0x" ++ text).drop 2 = text := rfl
    simp only [hexBytes, dropped]
    rw [if_neg (not_not.2 marked), if_neg (not_not.2 even)]

theorem ofBigEndian_lt_width {bytes : List Byte} {width : Nat} (short : bytes.length ≤ width) :
    ofBigEndian bytes < 2 ^ (8 * width) :=
  calc
    ofBigEndian bytes < 256 ^ bytes.length := ofBigEndian_lt bytes
    _ ≤ 256 ^ width := Nat.pow_le_pow_right (by decide) short
    _ = 2 ^ (8 * width) := by rw [Nat.pow_mul]

theorem parseHexUint_eq_ok_iff (width : Nat) (value : BitVec (8 * width)) :
    parseHexUint width hexStr fieldName = .ok value ↔
      ∃ text, (hexStr = str "0x" ++ text ∧ text.length % 2 = 0) ∧
        (hexDecode text).1.length ≠ 0 ∧ (hexDecode text).1.length ≤ width ∧
        value.toNat = ofBigEndian (hexDecode text).1 := by
  constructor
  · intro ran
    rw [parseHexUint] at ran
    cases found : hexBytes hexStr fieldName with
    | error err =>
        rw [found] at ran
        cases ran
    | ok bytes =>
        obtain ⟨text, marked, even, rfl⟩ := (hexBytes_eq_ok_iff fieldName bytes).1 found
        simp only [found] at ran
        split_ifs at ran with large empty
        cases ran
        have short := Nat.le_of_not_lt large
        refine ⟨text, ⟨marked, even⟩, empty, short, ?_⟩
        rw [BitVec.toNat_ofNat, ofBigEndian_replicate_append,
          Nat.mod_eq_of_lt (ofBigEndian_lt_width short)]
  · rintro ⟨text, ⟨marked, even⟩, nonempty, short, denoted⟩
    have found := (hexBytes_eq_ok_iff fieldName _).2 ⟨text, marked, even, rfl⟩
    simp only [parseHexUint, found]
    rw [if_neg (Nat.not_lt.2 short), if_neg nonempty, ofBigEndian_replicate_append, ← denoted,
      BitVec.ofNat_toNat, BitVec.setWidth_eq]

theorem parseHexString_eq_ok_iff (lenConstraint : Int) (bytes : List Byte) :
    parseHexString hexStr fieldName lenConstraint = .ok bytes ↔
      ∃ text, (hexStr = str "0x" ++ text ∧ text.length % 2 = 0) ∧
        (0 < lenConstraint → ((hexDecode text).1.length : Int) = lenConstraint) ∧
        bytes = (hexDecode text).1 := by
  constructor
  · intro ran
    rw [parseHexString] at ran
    cases found : hexBytes hexStr fieldName with
    | error err =>
        rw [found] at ran
        cases ran
    | ok decoded =>
        obtain ⟨text, marked, even, rfl⟩ := (hexBytes_eq_ok_iff fieldName decoded).1 found
        simp only [found] at ran
        split_ifs at ran with unfit
        cases ran
        refine ⟨text, ⟨marked, even⟩, fun constrained => ?_, rfl⟩
        by_contra other
        exact unfit ⟨constrained, other⟩
  · rintro ⟨text, ⟨marked, even⟩, fit, rfl⟩
    have found := (hexBytes_eq_ok_iff fieldName _).2 ⟨text, marked, even, rfl⟩
    simp only [parseHexString, found]
    rw [if_neg (fun unfit => unfit.2 (fit unfit.1))]

end Parsers

structure Spells (text digits : GoString) : Prop where
  marked : text = str "0x" ++ digits
  even : digits.length % 2 = 0
  hex : ∀ c ∈ digits, IsHexDigit c

/-- A number is parsed from the digits of at least one and at most `width` bytes. -/
def UintExact (width : Nat)
    (parse : GoString → GoString → Except GoString (BitVec (8 * width)))
    (hexStr fieldName : GoString) : Prop :=
  ∀ value, parse hexStr fieldName = .ok value ↔
    ∃ digits, Spells hexStr digits ∧ digits ≠ [] ∧ digits.length ≤ 2 * width ∧
      value.toNat = hexNumber digits

/-- Bytes are parsed from their digits, as many as the constraint asks for. -/
def StringExact (hexStr fieldName : GoString) (lenConstraint : Int) : Prop :=
  ∀ bytes, parseHexString hexStr fieldName lenConstraint = .ok bytes ↔
    ∃ digits, Spells hexStr digits ∧
      (0 < lenConstraint → (digits.length : Int) = 2 * lenConstraint) ∧
      bytes.length = digits.length / 2 ∧ ofBigEndian bytes = hexNumber digits

/-- The text has `0x` and an even length but not only digits, and so many bytes in front of
the first other character. -/
def Spoilt (hexStr : GoString) (bytes : Nat) : Prop :=
  ∃ text, (hexStr = str "0x" ++ text ∧ text.length % 2 = 0) ∧
    (∃ c ∈ text, ¬IsHexDigit c) ∧ leadingDigits text / 2 = bytes

section Exact

variable (hexStr fieldName : GoString)

theorem spells_of_not_spoilt {hexStr text : GoString}
    (marked : hexStr = str "0x" ++ text ∧ text.length % 2 = 0)
    (clean : ¬Spoilt hexStr (leadingDigits text / 2)) : Spells hexStr text := by
  refine ⟨marked.1, marked.2, ?_⟩
  by_contra other
  simp only [not_forall, exists_prop] at other
  exact clean ⟨text, marked, other, rfl⟩

theorem uintExact_iff (width : Nat) :
    UintExact width (parseHexUint width) hexStr fieldName ↔
      ∀ bytes, Spoilt hexStr bytes → bytes = 0 ∨ width < bytes := by
  constructor
  · rintro exact bytes ⟨text, marked, ⟨c, member, other⟩, rfl⟩
    by_contra taken
    obtain ⟨nonempty, short⟩ := not_or.1 taken
    have length := hexDecode_length text
    obtain ⟨digits, spells, -⟩ := (exact (BitVec.ofNat _ (ofBigEndian (hexDecode text).1))).1
      ((parseHexUint_eq_ok_iff fieldName width _).2 ⟨text, marked, by omega, by omega, by
        rw [BitVec.toNat_ofNat, Nat.mod_eq_of_lt (ofBigEndian_lt_width (by omega))]⟩)
    have same : text = digits := List.append_cancel_left (marked.1.symm.trans spells.marked)
    exact other (spells.hex c (same ▸ member))
  · intro clean value
    rw [parseHexUint_eq_ok_iff]
    constructor
    · rintro ⟨text, marked, nonempty, short, denoted⟩
      have length := hexDecode_length text
      have spells := spells_of_not_spoilt marked fun spoilt => by
        rcases clean _ spoilt with zero | large <;> omega
      obtain ⟨half, number⟩ := hexDecode_digits spells.even spells.hex
      have even := spells.even
      refine ⟨text, spells, ?_, by omega, denoted.trans number⟩
      rintro rfl
      exact nonempty rfl
    · rintro ⟨digits, spells, nonempty, short, denoted⟩
      obtain ⟨half, number⟩ := hexDecode_digits spells.even spells.hex
      have even := spells.even
      have positive := List.length_pos_iff.2 nonempty
      exact ⟨digits, ⟨spells.marked, even⟩, by omega, by omega, denoted.trans number.symm⟩

theorem stringExact_iff (lenConstraint : Int) :
    StringExact hexStr fieldName lenConstraint ↔
      ∀ bytes, Spoilt hexStr bytes → 0 < lenConstraint ∧ (bytes : Int) ≠ lenConstraint := by
  constructor
  · rintro exact bytes ⟨text, marked, ⟨c, member, other⟩, rfl⟩
    by_contra taken
    have length := hexDecode_length text
    obtain ⟨digits, spells, -⟩ := (exact (hexDecode text).1).1
      ((parseHexString_eq_ok_iff fieldName lenConstraint _).2 ⟨text, marked, fun constrained => by
        by_contra unfit
        exact taken ⟨constrained, by rwa [length] at unfit⟩, rfl⟩)
    have same : text = digits := List.append_cancel_left (marked.1.symm.trans spells.marked)
    exact other (spells.hex c (same ▸ member))
  · intro clean bytes
    rw [parseHexString_eq_ok_iff]
    constructor
    · rintro ⟨text, marked, fit, rfl⟩
      have length := hexDecode_length text
      have spells := spells_of_not_spoilt marked fun spoilt => by
        obtain ⟨constrained, unfit⟩ := clean _ spoilt
        exact unfit (by rw [← length]; exact fit constrained)
      obtain ⟨half, number⟩ := hexDecode_digits spells.even spells.hex
      have even := spells.even
      exact ⟨text, spells, fun constrained => by have := fit constrained; omega, half, number⟩
    · rintro ⟨digits, spells, fit, size, number⟩
      obtain ⟨half, decoded⟩ := hexDecode_digits spells.even spells.hex
      have even := spells.even
      refine ⟨digits, ⟨spells.marked, even⟩, fun constrained => ?_,
        eq_of_ofBigEndian_eq (size.trans half.symm) (number.trans decoded.symm)⟩
      have := fit constrained
      omega

theorem parseHexUint64_uint64ToHex (val : BitVec 64) :
    parseHexUint64 (uint64ToHex val) fieldName = .ok val := by
  refine (parseHexUint_eq_ok_iff fieldName 8 val).2
    ⟨hexEncode (lowBytes 8 val.toNat), ⟨rfl, ?_⟩, ?_⟩
  · rw [hexEncode_length]
    omega
  · rw [hexDecode_hexEncode, lowBytes_length, ofBigEndian_lowBytes,
      Nat.mod_eq_of_lt (show val.toNat < 256 ^ 8 from val.isLt)]
    exact ⟨by decide, Nat.le_refl 8, rfl⟩

end Exact

/-- The three parsers accept what they should, and numbers read back. -/
structure Exact (hexStr fieldName : GoString) (lenConstraint : Int) : Prop where
  uint64 : UintExact 8 parseHexUint64 hexStr fieldName
  uint32 : UintExact 4 parseHexUint32 hexStr fieldName
  string : StringExact hexStr fieldName lenConstraint
  readBack : ∀ val, parseHexUint64 (uint64ToHex val) fieldName = .ok val

/-- The dropped error matters for a text that is not hexadecimal to its end, unless the number
of bytes before that is wrong as well. -/
theorem exact_iff (hexStr fieldName : GoString) (lenConstraint : Int) :
    Exact hexStr fieldName lenConstraint ↔
      ∀ bytes, Spoilt hexStr bytes →
        (bytes = 0 ∨ 8 < bytes) ∧ 0 < lenConstraint ∧ (bytes : Int) ≠ lenConstraint := by
  constructor
  · rintro ⟨uint64, -, string, -⟩ bytes spoilt
    exact ⟨(uintExact_iff hexStr fieldName 8).1 uint64 bytes spoilt,
      (stringExact_iff hexStr fieldName lenConstraint).1 string bytes spoilt⟩
  · intro clean
    refine ⟨(uintExact_iff hexStr fieldName 8).2 fun bytes spoilt => (clean bytes spoilt).1,
      (uintExact_iff hexStr fieldName 4).2 fun bytes spoilt => ?_,
      (stringExact_iff hexStr fieldName lenConstraint).2 fun bytes spoilt => (clean bytes spoilt).2,
      parseHexUint64_uint64ToHex fieldName⟩
    have wrong := (clean bytes spoilt).1
    omega

theorem spoilt_accepted :
    parseHexUint64 (str "0x12zz") (str "nonce") = .ok 0x12 ∧
      ¬Exact (str "0x12zz") (str "nonce") 0 := by
  refine ⟨by decide, fun exact => ?_⟩
  have spoilt : Spoilt (str "0x12zz") 1 :=
    ⟨str "12zz", by decide, ⟨122, by decide, by decide⟩, by decide⟩
  have constrained := ((stringExact_iff _ _ 0).1 exact.string 1 spoilt).1
  exact absurd constrained (by decide)

end Bclib.Utils
