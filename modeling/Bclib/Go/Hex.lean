import Bclib.Go.Strings

namespace Bclib.Go

open Data

/-! `encoding/hex`. -/

def fromHexChar (c : Byte) : Option Byte :=
  if 48 ≤ c.toNat ∧ c.toNat ≤ 57 then some (c - 48)
  else if 97 ≤ c.toNat ∧ c.toNat ≤ 102 then some (c - 97 + 10)
  else if 65 ≤ c.toNat ∧ c.toNat ≤ 70 then some (c - 65 + 10)
  else none

inductive HexError where
  | length
  | invalidByte (c : Byte)
  deriving DecidableEq, Repr

/-- `DecodeString`: the bytes in front of the first error are returned with it. -/
def hexDecode : GoString → List Byte × Option HexError
  | [] => ([], none)
  | [last] => ([], some (if (fromHexChar last).isSome then .length else .invalidByte last))
  | first :: second :: rest =>
      match fromHexChar first, fromHexChar second with
      | some high, some low =>
          ((high <<< 4 ||| low) :: (hexDecode rest).1, (hexDecode rest).2)
      | none, _ => ([], some (.invalidByte first))
      | some _, none => ([], some (.invalidByte second))

def hextable : GoString := str "0123456789abcdef"

/-- `EncodeToString`. -/
def hexEncode (bytes : List Byte) : GoString :=
  bytes.flatMap fun (v : Byte) =>
    [hextable.getD (v >>> 4).toNat 0, hextable.getD (v &&& 0x0f).toNat 0]

def IsHexDigit (c : Byte) : Prop := (fromHexChar c).isSome = true

instance : DecidablePred IsHexDigit :=
  fun c => inferInstanceAs (Decidable ((fromHexChar c).isSome = true))

def hexNumber (digits : GoString) : Nat :=
  digits.foldl (fun number c => number * 16 + ((fromHexChar c).getD 0).toNat) 0

def leadingDigits (text : GoString) : Nat :=
  (text.takeWhile fun c => (fromHexChar c).isSome).length

theorem fromHexChar_lt {c value : Byte} (digit : fromHexChar c = some value) :
    value.toNat < 16 := by
  have all : ∀ c : Byte, (fromHexChar c).all (·.toNat < 16) = true := by decide +kernel
  have small := all c
  rw [digit] at small
  exact of_decide_eq_true small

theorem toNat_joinHex {high low : Byte} (highSmall : high.toNat < 16) (lowSmall : low.toNat < 16) :
    (high <<< 4 ||| low).toNat = high.toNat * 16 + low.toNat := by
  have shifted : (high <<< 4).toNat = high.toNat <<< 4 := by
    rw [BitVec.toNat_shiftLeft, Nat.mod_eq_of_lt]
    rw [Nat.shiftLeft_eq]
    omega
  rw [BitVec.toNat_or, shifted,
    ← Nat.shiftLeft_add_eq_or_of_lt (show low.toNat < 2 ^ 4 from lowSmall), Nat.shiftLeft_eq]

theorem hexDecode_pair {first second high low : Byte} (isHigh : fromHexChar first = some high)
    (isLow : fromHexChar second = some low) (rest : GoString) :
    hexDecode (first :: second :: rest) =
      ((high <<< 4 ||| low) :: (hexDecode rest).1, (hexDecode rest).2) := by
  simp only [hexDecode, isHigh, isLow]

theorem hexDecode_length (text : GoString) :
    (hexDecode text).1.length = leadingDigits text / 2 := by
  induction text using hexDecode.induct with
  | case1 => rfl
  | case2 last =>
      rw [hexDecode, leadingDigits, List.takeWhile_cons, List.takeWhile_nil]
      cases fromHexChar last <;> simp
  | case3 first second rest high low isLow isHigh ih =>
      rw [hexDecode_pair isHigh isLow, List.length_cons, ih]
      simp only [leadingDigits, List.takeWhile_cons, isHigh, isLow, Option.isSome_some, if_true,
        List.length_cons]
      omega
  | case4 first second rest notDigit =>
      simp [hexDecode, notDigit, leadingDigits]
  | case5 first second rest high notDigit isHigh =>
      simp [hexDecode, isHigh, notDigit, leadingDigits]

theorem isHexDigit_of_hexDecode {text : GoString} (whole : (hexDecode text).2 = none) :
    ∀ c ∈ text, IsHexDigit c := by
  induction text using hexDecode.induct with
  | case1 => exact fun _ member => absurd member List.not_mem_nil
  | case2 last => cases whole
  | case3 first second rest high low isLow isHigh ih =>
      rw [hexDecode_pair isHigh isLow] at whole
      rw [List.forall_mem_cons, List.forall_mem_cons, IsHexDigit, IsHexDigit, isHigh, isLow]
      exact ⟨rfl, rfl, ih whole⟩
  | case4 first second rest notDigit => simp [hexDecode, notDigit] at whole
  | case5 first second rest high notDigit isHigh => simp [hexDecode, isHigh, notDigit] at whole

theorem hexNumber_from (digits : GoString) (start : Nat) :
    digits.foldl (fun number c => number * 16 + ((fromHexChar c).getD 0).toNat) start =
      start * 16 ^ digits.length + hexNumber digits := by
  induction digits generalizing start with
  | nil => simp [hexNumber]
  | cons c rest ih =>
      rw [hexNumber, List.foldl_cons, List.foldl_cons, ih, ih (0 * 16 + _), List.length_cons,
        Nat.pow_succ]
      ring

theorem hexNumber_pair {first second high low : Byte} (isHigh : fromHexChar first = some high)
    (isLow : fromHexChar second = some low) (rest : GoString) :
    hexNumber (first :: second :: rest) =
      (high.toNat * 16 + low.toNat) * 16 ^ rest.length + hexNumber rest := by
  rw [hexNumber, List.foldl_cons, List.foldl_cons, isHigh, isLow, hexNumber_from, Nat.zero_mul,
    Nat.zero_add]
  rfl

theorem hexDecode_digits {digits : GoString} (even : digits.length % 2 = 0)
    (all : ∀ c ∈ digits, IsHexDigit c) :
    (hexDecode digits).1.length = digits.length / 2 ∧
      ofBigEndian (hexDecode digits).1 = hexNumber digits := by
  induction digits using hexDecode.induct with
  | case1 => exact ⟨rfl, rfl⟩
  | case2 last => simp at even
  | case3 first second rest high low isLow isHigh ih =>
      simp only [List.length_cons, List.forall_mem_cons] at even all
      obtain ⟨length, value⟩ := ih (by omega) all.2.2
      rw [hexDecode_pair isHigh isLow, List.length_cons, length, List.length_cons,
        List.length_cons]
      refine ⟨by omega, ?_⟩
      have width : 256 ^ (rest.length / 2) = 16 ^ rest.length := by
        rw [show 256 = 16 ^ 2 from rfl, ← Nat.pow_mul]
        congr 1
        omega
      rw [ofBigEndian_cons, toNat_joinHex (fromHexChar_lt isHigh) (fromHexChar_lt isLow), length,
        width, value, hexNumber_pair isHigh isLow]
  | case4 first second rest notDigit =>
      rw [List.forall_mem_cons, IsHexDigit, notDigit] at all
      cases all.1
  | case5 first second rest high notDigit isHigh =>
      rw [List.forall_mem_cons, List.forall_mem_cons, IsHexDigit, IsHexDigit, notDigit] at all
      cases all.2.1

theorem hexDecode_hexEncode (bytes : List Byte) : hexDecode (hexEncode bytes) = (bytes, none) := by
  induction bytes with
  | nil => rfl
  | cons byte rest ih =>
      have digits : fromHexChar (hextable.getD (byte >>> 4).toNat 0) = some (byte >>> 4) ∧
          fromHexChar (hextable.getD (byte &&& 0x0f).toNat 0) = some (byte &&& 0x0f) ∧
          (byte >>> 4) <<< 4 ||| (byte &&& 0x0f) = byte := by
        clear ih
        revert byte
        decide +kernel
      rw [hexEncode, List.flatMap_cons, List.cons_append, List.cons_append, List.nil_append,
        hexDecode_pair digits.1 digits.2.1, digits.2.2]
      exact congrArg (fun decoded => (byte :: decoded.1, decoded.2)) ih

theorem hexEncode_length (bytes : List Byte) : (hexEncode bytes).length = 2 * bytes.length := by
  rw [hexEncode, List.length_flatMap]
  simp [Nat.mul_comm]

end Bclib.Go
