import Bclib.Go.Decimal

namespace Bclib.Go

open Data

/-! `big.Int.SetString`.  In base 0 the base is found in the number, and underscores may stand
between digits. -/

inductive Previous where
  | digit
  | separator
  | other
  deriving DecidableEq, Repr

structure Scanned where
  value : Nat
  count : Nat
  previous : Previous
  invalSep : Bool
  rest : GoString
  deriving DecidableEq, Repr

def digitValue (ch : Byte) : Nat :=
  if 48 ≤ ch.toNat ∧ ch.toNat ≤ 57 then ch.toNat - 48
  else if 97 ≤ ch.toNat ∧ ch.toNat ≤ 122 then ch.toNat - 97 + 10
  else if 65 ≤ ch.toNat ∧ ch.toNat ≤ 90 then ch.toNat - 65 + 10
  else 63

/-- The digits and separators up to the first other character. -/
def scanDigits (base : Nat) (scanned : Scanned) : GoString → Scanned
  | [] => { scanned with rest := [] }
  | ch :: rest =>
      if ch = 95 then
        scanDigits base { scanned with
          previous := .separator
          invalSep := scanned.invalSep || scanned.previous != .digit } rest
      else if base ≤ digitValue ch then { scanned with rest := ch :: rest }
      else
        scanDigits base { scanned with
          value := scanned.value * base + digitValue ch
          count := scanned.count + 1
          previous := .digit } rest

/-- `nat.scan`: the value and what follows it.  A zero in front that is followed by
something else than a base is the octal prefix, and a number if no digit comes. -/
def scanNat (string : GoString) : Option (Nat × GoString) :=
  let start (previous : Previous) : Scanned := ⟨0, 0, previous, false, []⟩
  let (octal, scanned) :=
    match string with
    | 48 :: ch :: rest =>
        if ch = 98 ∨ ch = 66 then (false, scanDigits 2 (start .digit) rest)
        else if ch = 111 ∨ ch = 79 then (false, scanDigits 8 (start .digit) rest)
        else if ch = 120 ∨ ch = 88 then (false, scanDigits 16 (start .digit) rest)
        else (true, scanDigits 8 (start .digit) (ch :: rest))
    | _ => (false, scanDigits 10 (start .other) string)
  if scanned.invalSep = true ∨ scanned.previous = .separator then none
  else if scanned.count = 0 then if octal then some (0, scanned.rest) else none
  else some (scanned.value, scanned.rest)

def setString (string : GoString) : Option Int :=
  let (neg, digits) :=
    match string with
    | 45 :: rest => (true, rest)
    | 43 :: rest => (false, rest)
    | _ => (false, string)
  match scanNat digits with
  | some (value, []) => some (if neg then -value else value)
  | _ => none

example : setString (str "0x_2C") = some 44 ∧ setString (str "044") = some 36 ∧
    setString (str "4__4") = none ∧ setString (str "-0") = some 0 ∧
    setString (str "08") = none := by decide +kernel

theorem digitValue_of_isDecimal {c : Byte} (digit : isDecimal c = true) :
    digitValue c = c.toNat - 48 ∧ c.toNat - 48 < 10 ∧ c ≠ 95 := by
  have range : 48 ≤ c.toNat ∧ c.toNat ≤ 57 := by simpa [isDecimal] using digit
  refine ⟨if_pos range, by omega, ?_⟩
  rintro rfl
  simp at range

theorem scanDigits_decimal {digits : GoString} (all : ∀ c ∈ digits, isDecimal c = true)
    (scanned : Scanned) :
    scanDigits 10 scanned digits =
      { scanned with
        value := digits.foldl (fun number c => number * 10 + (c.toNat - 48)) scanned.value
        count := scanned.count + digits.length
        previous := if digits = [] then scanned.previous else .digit
        rest := [] } := by
  induction digits generalizing scanned with
  | nil => rfl
  | cons c rest ih =>
      rw [List.forall_mem_cons] at all
      obtain ⟨value, small, notSeparator⟩ := digitValue_of_isDecimal all.1
      rw [scanDigits, if_neg notSeparator, value, if_neg (by omega), ih all.2]
      simp only [List.foldl_cons, List.length_cons, Scanned.mk.injEq, true_and, and_true]
      refine ⟨by omega, ?_⟩
      simp

theorem scanNat_decimal {digits : GoString} (all : ∀ c ∈ digits, isDecimal c = true)
    (nonempty : digits ≠ []) (noPrefix : digits.head? = some 48 → digits.length = 1) :
    scanNat digits = some (decimalNumber digits, []) := by
  have scanned := scanDigits_decimal all ⟨0, 0, .other, false, []⟩
  have length := List.length_pos_iff.2 nonempty
  unfold scanNat
  split
  · have single := noPrefix rfl
    simp at single
  · dsimp only
    rw [scanned, if_neg nonempty, if_neg (by simp)]
    simp only [Nat.zero_add]
    rw [if_neg (by omega)]
    rfl

theorem setString_itoa (number : Nat) : setString (itoa number) = some (number : Int) := by
  have all := fun c => @isDecimal_of_mem_itoa number c
  have scanned : scanNat (itoa number) = some (number, []) := by
    rw [scanNat_decimal all (itoa_ne_nil number), decimalNumber_itoa]
    intro zero
    by_cases isZero : number = 0
    · rw [isZero]
      rfl
    · exact absurd zero (itoa_head isZero)
  have unsigned : ∀ rest, itoa number ≠ 45 :: rest ∧ itoa number ≠ 43 :: rest := by
    intro rest
    constructor <;> intro signed
    · exact absurd (all 45 (signed ▸ List.mem_cons_self)) (by decide)
    · exact absurd (all 43 (signed ▸ List.mem_cons_self)) (by decide)
  unfold setString
  split
  rename_i neg digits sign
  split at sign
  · rename_i rest signed
    exact absurd signed (unsigned rest).1
  · rename_i rest signed
    exact absurd signed (unsigned rest).2
  · cases sign
    simp only [scanned]
    rfl

/-! In base 10 a number has a sign and digits only.  A call that fails may have changed the
receiver before it does. -/

structure BigValue where
  neg : Bool
  abs : Nat
  deriving DecidableEq, Repr

def BigValue.toInt (value : BigValue) : Int := if value.neg then -value.abs else value.abs

def scanSign (string : GoString) : Bool × GoString :=
  match string with
  | [] => (false, [])
  | first :: rest =>
      if first = 45 then (true, rest) else if first = 43 then (false, rest) else (false, string)

/-- The receiver afterwards, and whether the whole string is a number. -/
def setString10 (z : BigValue) (string : GoString) : BigValue × Bool :=
  if string = [] then (z, false)
  else
    let (neg, text) := scanSign string
    let digits := text.takeWhile isDecimal
    if digits = [] then ({ z with abs := 0 }, false)
    else
      let abs := decimalNumber digits
      (⟨abs ≠ 0 && neg, abs⟩, digits.length = text.length)

end Bclib.Go
