import Bclib.Go.Decimal

namespace Bclib.Go

open Data

/-! Points in time, as the fields of a date in UTC. -/

structure Instant where
  year : Nat
  month : Nat
  day : Nat
  hour : Nat
  minute : Nat
  second : Nat
  nanosecond : Nat
  monthFits : 1 ≤ month ∧ month ≤ 12
  dayFits : 1 ≤ day ∧ day ≤ 31
  hourFits : hour < 24
  minuteFits : minute < 60
  secondFits : second < 60
  nanosecondFits : nanosecond < 10 ^ 9

def Instant.seconds (time : Instant) : Nat :=
  ((((time.year * 13 + time.month) * 32 + time.day) * 24 + time.hour) * 60 + time.minute) * 60 +
    time.second

def padded (width number : Nat) : GoString :=
  List.replicate (width - (itoa number).length) 48 ++ itoa number

/-- `Format` with the layout `20060102150405`. -/
def Instant.stamp (time : Instant) : GoString :=
  padded 4 time.year ++ padded 2 time.month ++ padded 2 time.day ++ padded 2 time.hour ++
    padded 2 time.minute ++ padded 2 time.second

theorem decimalNumber_padded (width number : Nat) :
    decimalNumber (padded width number) = number := by
  have zeros : ∀ count, decimalNumber (List.replicate count 48 ++ itoa number) = number := by
    intro count
    induction count with
    | zero => exact decimalNumber_itoa number
    | succ count ih => exact ih
  exact zeros _

theorem padded_length {number : Nat} (small : number < 100) : (padded 2 number).length = 2 := by
  revert number
  decide +kernel

theorem padded_append_inj {front other : GoString} {left right : Nat} (leftSmall : left < 100)
    (rightSmall : right < 100) (same : front ++ padded 2 left = other ++ padded 2 right) :
    front = other ∧ left = right := by
  have lengths : (padded 2 left).length = (padded 2 right).length := by
    rw [padded_length leftSmall, padded_length rightSmall]
  obtain ⟨fronts, digits⟩ := List.append_inj' same lengths
  refine ⟨fronts, ?_⟩
  rw [← decimalNumber_padded 2 left, digits, decimalNumber_padded]

theorem Instant.stamp_eq_iff (first second : Instant) :
    first.stamp = second.stamp ↔ first.seconds = second.seconds := by
  have := first.monthFits
  have := first.dayFits
  have := first.hourFits
  have := first.minuteFits
  have := first.secondFits
  have := second.monthFits
  have := second.dayFits
  have := second.hourFits
  have := second.minuteFits
  have := second.secondFits
  constructor
  · intro same
    obtain ⟨same, seconds⟩ := padded_append_inj (by omega) (by omega) same
    obtain ⟨same, minutes⟩ := padded_append_inj (by omega) (by omega) same
    obtain ⟨same, hours⟩ := padded_append_inj (by omega) (by omega) same
    obtain ⟨same, days⟩ := padded_append_inj (by omega) (by omega) same
    obtain ⟨same, months⟩ := padded_append_inj (by omega) (by omega) same
    have years : first.year = second.year := by
      rw [← decimalNumber_padded 4 first.year, same, decimalNumber_padded]
    rw [Instant.seconds, Instant.seconds, years, months, days, hours, minutes, seconds]
  · intro same
    simp only [Instant.seconds] at same
    have seconds : first.second = second.second := by omega
    have minutes : first.minute = second.minute := by omega
    have hours : first.hour = second.hour := by omega
    have days : first.day = second.day := by omega
    have months : first.month = second.month := by omega
    have years : first.year = second.year := by omega
    rw [Instant.stamp, Instant.stamp, years, months, days, hours, minutes, seconds]

end Bclib.Go
