import Bclib.Data.Loop
import Mathlib.Tactic.Linarith

namespace Bclib.Bn

open Data

/-! Integer square roots by Newton's method.  A number is the integer it wraps. -/

inductive Panic where
  | negative
  | divisionByZero
  deriving DecidableEq, Repr

def Panic.text : Panic → String
  | .negative => "square root of negative number"
  | .divisionByZero => "division by zero"

/-- `Div`, which is Euclidean. -/
def div (x y : Int) : Except Panic Int :=
  if y = 0 then .error .divisionByZero else .ok (x / y)

/-- One turn of the loop, with `y` and `z` as they are before it. -/
def sqrtTurn (x : Int) : Int × Int → Turn (Int × Int) (Except Panic Int)
  | (y, z) =>
      if z < y then
        match div x z with
        | .error panic => .done (.error panic)
        | .ok quotient =>
            match div (quotient + z) 2 with
            | .error panic => .done (.error panic)
            | .ok next => .again (z, next)
      else .done (.ok y)

/-- `Sqrt` of package `bignumber`, with so many turns at most. -/
def sqrtUnchecked (fuel : Nat) (x : Int) : Option (Except Panic Int) :=
  match div (x + 1) 2 with
  | .error panic => some (.error panic)
  | .ok z => loop (sqrtTurn x) fuel (x, z)

/-- `Sqrt` of package `bn`, with so many turns at most. -/
def sqrt (fuel : Nat) (x : Int) : Option (Except Panic Int) :=
  if x < 0 then some (.error .negative) else sqrtUnchecked fuel x

structure IsRoot (x y : Int) : Prop where
  nonneg : 0 ≤ y
  low : y * y ≤ x
  high : x < (y + 1) * (y + 1)

theorem IsRoot.unique {x y other : Int} (root : IsRoot x y) (too : IsRoot x other) :
    other = y := by
  have below : ∀ {low high : Int}, IsRoot x low → IsRoot x high → low ≤ high := by
    intro low high first second
    by_contra above
    have step : high + 1 ≤ low := by omega
    have squares := mul_self_le_mul_self (by have := second.nonneg; omega) step
    have := first.low
    have := second.high
    omega
  exact le_antisymm (below too root) (below root too)

structure Approximates (x : Int) (state : Int × Int) : Prop where
  positive : 0 < state.1
  high : x < (state.1 + 1) * (state.1 + 1)
  next : state.2 = (x / state.1 + state.1) / 2

theorem lt_mean_square {x y : Int} (nonneg : 0 ≤ x) (positive : 0 < y) :
    x < ((x / y + y) / 2 + 1) * ((x / y + y) / 2 + 1) := by
  have quotient : x < (x / y + 1) * y := Int.lt_mul_of_ediv_lt positive (Int.lt_succ _)
  have quotientNonneg : 0 ≤ x / y := Int.ediv_nonneg nonneg positive.le
  have mean : x / y + 1 + y ≤ 2 * ((x / y + y) / 2 + 1) := by omega
  generalize x / y = q at quotient quotientNonneg mean ⊢
  generalize (q + y) / 2 + 1 = half at mean ⊢
  have squares := mul_self_le_mul_self (by omega) mean
  nlinarith [sq_nonneg (q + 1 - y)]

theorem square_le_of_le_mean {x y : Int} (positive : 0 < y) (ends : y ≤ (x / y + y) / 2) :
    y * y ≤ x := by
  have quotient : y ≤ x / y := by omega
  exact (Int.le_ediv_iff_mul_le positive).1 quotient

theorem mean_positive {x y : Int} (one : 0 < x) (positive : 0 < y) : 0 < (x / y + y) / 2 := by
  have quotientNonneg : 0 ≤ x / y := Int.ediv_nonneg one.le positive.le
  have two : 2 ≤ x / y + y := by
    rcases lt_or_ge 1 y with larger | single
    · omega
    · obtain rfl : y = 1 := by omega
      rw [Int.ediv_one]
      omega
  omega

theorem div_of_positive (x : Int) {y : Int} (positive : 0 < y) : div x y = .ok (x / y) :=
  if_neg positive.ne'

theorem Approximates.turn {x : Int} (one : 0 < x) {state : Int × Int}
    (approximates : Approximates x state) :
    (sqrtTurn x state).Keeps (Approximates x) (fun state => state.1.toNat)
      (fun result => ∃ y, result = .ok y ∧ IsRoot x y) state.1.toNat := by
  obtain ⟨y, z⟩ := state
  obtain ⟨positive, high, next⟩ := approximates
  simp only at positive high next
  have zPositive : 0 < z := next ▸ mean_positive one positive
  rw [sqrtTurn]
  split_ifs with less
  · rw [div_of_positive x zPositive]
    simp only [div_of_positive _ (show (0 : Int) < 2 by decide)]
    refine ⟨⟨zPositive, ?_, rfl⟩, ?_⟩
    · subst next
      exact lt_mean_square one.le positive
    · simp only
      omega
  · exact ⟨y, rfl, positive.le, square_le_of_le_mean positive (by omega), high⟩

theorem sqrtUnchecked_ends {x : Int} (nonneg : 0 ≤ x) :
    ∃ y, IsRoot x y ∧ ∀ fuel, x.toNat < fuel → sqrtUnchecked fuel x = some (.ok y) := by
  have first : ∀ fuel, sqrtUnchecked fuel x = loop (sqrtTurn x) fuel (x, (x + 1) / 2) := by
    intro fuel
    simp only [sqrtUnchecked, div_of_positive _ (show (0 : Int) < 2 by decide)]
  rcases nonneg.lt_or_eq with one | rfl
  · have start : Approximates x (x, (x + 1) / 2) := by
      refine ⟨one, by nlinarith, ?_⟩
      simp only [Int.ediv_self one.ne']
      rw [Int.add_comm]
    obtain ⟨result, ⟨y, rfl, root⟩, ends⟩ :=
      loop_ends (fun _ approximates => Approximates.turn one approximates) start
    exact ⟨y, root, fun fuel enough => (first fuel).trans (ends fuel enough)⟩
  · refine ⟨0, ⟨le_refl 0, le_refl 0, by decide⟩, fun fuel enough => ?_⟩
    cases fuel with
    | zero => exact absurd enough (Nat.not_lt_zero _)
    | succ fuel => exact first (fuel + 1)

/-- For every number that is not negative both functions return, within as many turns as the
number is large, the one root of it, rounded down. -/
theorem sqrt_isRoot {x : Int} (nonneg : 0 ≤ x) :
    ∃ y, IsRoot x y ∧ (∀ other, IsRoot x other → other = y) ∧
      ∀ fuel, x.toNat < fuel →
        sqrt fuel x = some (.ok y) ∧ sqrtUnchecked fuel x = some (.ok y) := by
  obtain ⟨y, root, ends⟩ := sqrtUnchecked_ends nonneg
  refine ⟨y, root, fun other too => root.unique too, fun fuel enough => ⟨?_, ends fuel enough⟩⟩
  rw [sqrt, if_neg (not_lt.2 nonneg)]
  exact ends fuel enough

theorem sqrt_isRoot_fifteen :
    (0 : Int) ≤ 15 ∧ ∃ y, IsRoot 15 y ∧ (∀ other, IsRoot 15 other → other = y) ∧
      ∀ fuel, (15 : Int).toNat < fuel →
        sqrt fuel 15 = some (.ok y) ∧ sqrtUnchecked fuel 15 = some (.ok y) :=
  ⟨by decide, sqrt_isRoot (by decide)⟩

end Bclib.Bn
