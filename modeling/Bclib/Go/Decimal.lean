import Bclib.Go.Strings

namespace Bclib.Go

open Data

/-! Decimal text, as `fmt` and `strconv` print it. -/

def digitOf (digit : Nat) : Byte := BitVec.ofNat 8 (48 + digit)

def isDecimal (c : Byte) : Bool := 48 ≤ c.toNat && c.toNat ≤ 57

def itoa (number : Nat) : GoString :=
  if number = 0 then [48] else ((Nat.digits 10 number).map digitOf).reverse

def intText (number : Int) : GoString :=
  if number < 0 then 45 :: itoa number.natAbs else itoa number.natAbs

def decimalNumber (digits : GoString) : Nat :=
  digits.foldl (fun number c => number * 10 + (c.toNat - 48)) 0

theorem decimalNumber_from (digits : GoString) (start : Nat) :
    digits.foldl (fun number c => number * 10 + (c.toNat - 48)) start =
      start * 10 ^ digits.length + Nat.ofDigits 10 (digits.reverse.map (·.toNat - 48)) := by
  induction digits generalizing start with
  | nil => simp
  | cons c rest ih =>
      rw [List.foldl_cons, ih, List.reverse_cons, List.map_append, Nat.ofDigits_append,
        List.length_map, List.length_reverse, List.length_cons, Nat.pow_succ, List.map_singleton,
        Nat.ofDigits_singleton]
      ring

theorem decimalNumber_eq (digits : GoString) :
    decimalNumber digits = Nat.ofDigits 10 (digits.reverse.map (·.toNat - 48)) := by
  rw [decimalNumber, decimalNumber_from, Nat.zero_mul, Nat.zero_add]

theorem toNat_digitOf {digit : Nat} (small : digit < 10) : (digitOf digit).toNat = 48 + digit := by
  rw [digitOf, BitVec.toNat_ofNat]
  omega

theorem decimalNumber_itoa (number : Nat) : decimalNumber (itoa number) = number := by
  rw [itoa]
  split_ifs with zero
  · rw [zero]
    rfl
  · have digits : ((Nat.digits 10 number).map digitOf).map (·.toNat - 48) =
        Nat.digits 10 number := by
      rw [List.map_map]
      refine (List.map_congr_left fun digit member => ?_).trans (List.map_id _)
      rw [Function.comp_apply, toNat_digitOf (Nat.digits_lt_base (by decide) member)]
      exact Nat.add_sub_cancel_left 48 digit
    rw [decimalNumber_eq, List.reverse_reverse, digits, Nat.ofDigits_digits]

theorem itoa_ne_nil (number : Nat) : itoa number ≠ [] := by
  rw [itoa]
  split_ifs with zero
  · exact List.cons_ne_nil _ _
  · rw [List.reverse_ne_nil_iff, ne_eq, List.map_eq_nil_iff]
    exact Nat.digits_ne_nil_iff_ne_zero.2 zero

theorem isDecimal_of_mem_itoa {number : Nat} {c : Byte} (member : c ∈ itoa number) :
    isDecimal c = true := by
  rw [itoa] at member
  split_ifs at member with zero
  · obtain rfl := List.mem_singleton.1 member
    rfl
  · rw [List.mem_reverse, List.mem_map] at member
    obtain ⟨digit, inside, rfl⟩ := member
    have small := Nat.digits_lt_base (by decide) inside
    rw [isDecimal, toNat_digitOf small]
    simp
    omega

theorem itoa_head {number : Nat} (nonzero : number ≠ 0) : (itoa number).head? ≠ some 48 := by
  rw [itoa, if_neg nonzero, List.head?_reverse]
  have nonempty : Nat.digits 10 number ≠ [] := Nat.digits_ne_nil_iff_ne_zero.2 nonzero
  rw [List.getLast?_map, List.getLast?_eq_getLast_of_ne_nil nonempty, Option.map_some]
  intro same
  have last := Nat.getLast_digit_ne_zero 10 nonzero
  have small := Nat.digits_lt_base (by decide) (List.getLast_mem nonempty)
  have value := congrArg BitVec.toNat (Option.some.inj same)
  rw [toNat_digitOf small] at value
  exact last (Nat.add_left_cancel value)

theorem isDecimal_visible {c : Byte} (digit : isDecimal c = true) : Visible c := by
  revert c
  decide +kernel

end Bclib.Go
