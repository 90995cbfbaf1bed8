import Bclib.Go.BigText
import Mathlib.Data.List.TakeWhile

namespace Bclib.Bn

open Data
open Go

/-! `bn.Number` as JSON.  The wrapped `*big.Int` may be nil. -/

def marshalJSON (x : Option BigValue) : GoString :=
  match x with
  | none => str "null"
  | some value => intText value.toInt

/-- The text that is handed to `SetString`: the value of an object, or all of it. -/
def numberText (text : GoString) : Outcome GoString GoString :=
  if (str "\x7b").isPrefixOf text then
    match subslice text 1 (text.length - 1 : Int) with
    | none => .panic
    | some bare =>
        let spl := bare.splitOn 58
        if spl.length ≠ 2 ∨ trimSpace (spl.getD 0 []) ≠ str "\"v\"" then
          .error (str "wrong bn.number json format")
        else .ok (trimSpace (spl.getD 1 []))
  else .ok text

/-- The number afterwards, and how the call ends; whether `SetString` succeeded is not asked. -/
def unmarshalJSON (x : Option BigValue) (data : GoString) :
    Option BigValue × Outcome GoString Unit :=
  match numberText (trimSpace data) with
  | .panic => (x, .panic)
  | .error err => (x, .error err)
  | .ok text => (some (setString10 (x.getD ⟨false, 0⟩) text).1, .ok ())

def IsInteger (text : GoString) (number : Int) : Prop :=
  ∃ sign digits, text = sign ++ digits ∧ digits ≠ [] ∧ (∀ c ∈ digits, isDecimal c = true) ∧
    ((sign = [] ∨ sign = str "+") ∧ number = decimalNumber digits ∨
      sign = str "-" ∧ number = -(decimalNumber digits : Int))

/-- Up to white space the data are an integer or an object with an integer under `v`. -/
def Denotes (data : GoString) (number : Int) : Prop :=
  IsInteger (trimSpace data) number ∨
    ∃ key value, trimSpace data = str "\x7b" ++ (key ++ 58 :: value) ++ str "\x7d" ∧
      trimSpace key = str "\"v\"" ∧ IsInteger (trimSpace value) number

/-- An integer is read, and anything else is an error that changes nothing. -/
structure Conforms (x : Option BigValue) (data : GoString) : Prop where
  accepts : ∀ number, Denotes data number →
    ∃ value, unmarshalJSON x data = (some value, .ok ()) ∧ value.toInt = number
  rejects : (∀ number, ¬Denotes data number) → ∃ err, unmarshalJSON x data = (x, .error err)

/-- The data begin with a brace, and between it and the last byte there is not just a key `v`,
one colon and a value. -/
def Misshapen (data : GoString) : Prop :=
  ∃ bare last, trimSpace data = str "\x7b" ++ bare ++ [last] ∧
    ¬∃ key value, bare = key ++ 58 :: value ∧ 58 ∉ key ∧ 58 ∉ value ∧
      trimSpace key = str "\"v\""

theorem scanSign_of_digit {string : GoString} (digit : ∀ c ∈ string.head?, isDecimal c = true) :
    scanSign string = (false, string) := by
  cases string with
  | nil => rfl
  | cons first rest =>
      have decimal := digit first rfl
      have notMinus : first ≠ 45 := by
        rintro rfl
        exact absurd decimal (by decide)
      have notPlus : first ≠ 43 := by
        rintro rfl
        exact absurd decimal (by decide)
      rw [scanSign, if_neg notMinus, if_neg notPlus]

theorem setString10_digits (z : BigValue) {string digits : GoString} {neg : Bool}
    (sign : scanSign string = (neg, digits)) (nonempty : digits ≠ [])
    (all : ∀ c ∈ digits, isDecimal c = true) :
    setString10 z string =
      (⟨decimalNumber digits ≠ 0 && neg, decimalNumber digits⟩, true) := by
  have some : string ≠ [] := by
    rintro rfl
    cases sign
    exact nonempty rfl
  have whole : digits.takeWhile isDecimal = digits := List.takeWhile_eq_self_iff.2 all
  simp only [setString10, if_neg some, sign, whole, if_neg nonempty, decide_true]

theorem setString10_integer (z : BigValue) {text : GoString} {number : Int}
    (integer : IsInteger text number) :
    ∃ value, setString10 z text = (value, true) ∧ value.toInt = number := by
  obtain ⟨sign, digits, rfl, nonempty, all, ⟨rfl | rfl, rfl⟩ | ⟨rfl, rfl⟩⟩ := integer
  · have unsigned : scanSign ([] ++ digits) = (false, digits) :=
      scanSign_of_digit fun c first => all c (List.mem_of_mem_head? first)
    refine ⟨_, setString10_digits z unsigned nonempty all, ?_⟩
    simp [BigValue.toInt]
  · have positive : scanSign (str "+" ++ digits) = (false, digits) := rfl
    refine ⟨_, setString10_digits z positive nonempty all, ?_⟩
    simp [BigValue.toInt]
  · have negative : scanSign (str "-" ++ digits) = (true, digits) := rfl
    refine ⟨_, setString10_digits z negative nonempty all, ?_⟩
    by_cases zero : decimalNumber digits = 0 <;> simp [BigValue.toInt, zero]

theorem IsInteger.plain {text : GoString} {number : Int} (integer : IsInteger text number) :
    ¬(str "\x7b").isPrefixOf text = true ∧ 58 ∉ text := by
  obtain ⟨sign, digits, rfl, nonempty, all, signed⟩ := integer
  have noColon : 58 ∉ digits := fun member => absurd (all 58 member) (by decide)
  have noBrace : ¬(str "\x7b").isPrefixOf digits = true := by
    intro braced
    obtain ⟨rest, rfl⟩ := List.isPrefixOf_iff_prefix.1 braced
    exact absurd (all 123 List.mem_cons_self) (by decide)
  rcases signed with ⟨rfl | rfl, -⟩ | ⟨rfl, -⟩
  · exact ⟨noBrace, noColon⟩
  · exact ⟨Bool.false_ne_true, List.not_mem_cons_of_ne_of_not_mem (by decide) noColon⟩
  · exact ⟨Bool.false_ne_true, List.not_mem_cons_of_ne_of_not_mem (by decide) noColon⟩

def Shaped (bare key value : GoString) : Prop :=
  bare = key ++ 58 :: value ∧ 58 ∉ key ∧ 58 ∉ value ∧ trimSpace key = str "\"v\""

theorem numberText_object (bare : GoString) (last : Byte) :
    numberText (str "\x7b" ++ bare ++ [last]) =
      if (bare.splitOn 58).length ≠ 2 ∨ trimSpace ((bare.splitOn 58).getD 0 []) ≠ str "\"v\"" then
        .error (str "wrong bn.number json format")
      else .ok (trimSpace ((bare.splitOn 58).getD 1 [])) := by
  have braced : (str "\x7b").isPrefixOf (str "\x7b" ++ bare ++ [last]) = true := by
    rw [List.isPrefixOf_iff_prefix, List.append_assoc]
    exact List.prefix_append _ _
  have inner : subslice (str "\x7b" ++ bare ++ [last])
      1 ((str "\x7b" ++ bare ++ [last]).length - 1 : Int) = some bare := by
    have length : (str "\x7b" ++ bare ++ [last]).length = bare.length + 2 := by
      rw [List.length_append, List.length_append]
      show 1 + bare.length + 1 = bare.length + 2
      omega
    have front : (str "\x7b" ++ bare).length = bare.length + 1 := by
      rw [List.length_append]
      exact Nat.add_comm 1 bare.length
    have high : ((bare.length + 2 : Nat) - 1 : Int).toNat = (str "\x7b" ++ bare).length := by
      omega
    rw [subslice, length, if_pos (by omega), high, List.take_left]
    rfl
  rw [numberText, if_pos braced, inner]

theorem numberText_shaped {bare key value : GoString} (shaped : Shaped bare key value)
    (last : Byte) : numberText (str "\x7b" ++ bare ++ [last]) = .ok (trimSpace value) := by
  have fields := splitOn_eq_pair_iff.2 ⟨shaped.1, shaped.2.1, shaped.2.2.1⟩
  rw [numberText_object, fields]
  exact if_neg (not_or.2 ⟨not_not.2 rfl, not_not.2 shaped.2.2.2⟩)

theorem numberText_misshapen {bare : GoString} (other : ¬∃ key value, Shaped bare key value)
    (last : Byte) : ∃ err, numberText (str "\x7b" ++ bare ++ [last]) = .error err := by
  rw [numberText_object]
  refine ⟨_, if_pos ?_⟩
  by_contra shaped
  obtain ⟨two, isKey⟩ := not_or.1 shaped
  obtain ⟨key, value, fields⟩ := List.length_eq_two.1 (not_not.1 two)
  rw [fields] at isKey
  obtain ⟨whole, noKey, noValue⟩ := splitOn_eq_pair_iff.1 fields
  exact other ⟨key, value, whole, noKey, noValue, not_not.1 isKey⟩

theorem numberText_error_iff (data : GoString) :
    (∃ err, numberText (trimSpace data) = .error err) ↔ Misshapen data := by
  constructor
  · rintro ⟨err, failed⟩
    rw [numberText] at failed
    split_ifs at failed with braced
    obtain ⟨rest, whole⟩ := List.isPrefixOf_iff_prefix.1 braced
    rcases List.eq_nil_or_concat rest with rfl | ⟨bare, last, rfl⟩
    · rw [← whole] at failed
      cases failed
    · rw [List.concat_eq_append, ← List.append_assoc] at whole
      refine ⟨bare, last, whole.symm, ?_⟩
      rintro ⟨key, value, shaped⟩
      have read := numberText_shaped shaped last
      rw [whole, numberText, if_pos braced] at read
      cases failed.symm.trans read
  · rintro ⟨bare, last, whole, other⟩
    rw [whole]
    exact numberText_misshapen other last

theorem unmarshalJSON_of_denotes (x : Option BigValue) {data : GoString} {number : Int}
    (denoted : Denotes data number) :
    ∃ value, unmarshalJSON x data = (some value, .ok ()) ∧ value.toInt = number := by
  rcases denoted with integer | ⟨key, value, whole, isKey, integer⟩
  · have read : numberText (trimSpace data) = .ok (trimSpace data) := if_neg integer.plain.1
    obtain ⟨result, set, same⟩ := setString10_integer (x.getD ⟨false, 0⟩) integer
    refine ⟨result, ?_, same⟩
    simp only [unmarshalJSON, read, set]
  · have noKey : 58 ∉ key := by
      intro member
      have kept := mem_trimSpace (by decide : Visible 58) member
      rw [isKey] at kept
      exact absurd kept (by decide)
    have noValue : 58 ∉ value := fun member =>
      integer.plain.2 (mem_trimSpace (by decide : Visible 58) member)
    have read := numberText_shaped ⟨rfl, noKey, noValue, isKey⟩ 125
    obtain ⟨result, set, same⟩ := setString10_integer (x.getD ⟨false, 0⟩) integer
    refine ⟨result, ?_, same⟩
    rw [unmarshalJSON, whole, show str "\x7d" = [125] from rfl, read]
    simp only [set]

/-! Numbers that were written. -/

theorem isInteger_intText (number : Int) : IsInteger (intText number) number := by
  rw [intText]
  split_ifs with negative
  · refine ⟨str "-", itoa number.natAbs, rfl, itoa_ne_nil _, fun c => isDecimal_of_mem_itoa,
      .inr ⟨rfl, ?_⟩⟩
    rw [decimalNumber_itoa]
    omega
  · refine ⟨[], itoa number.natAbs, rfl, itoa_ne_nil _, fun c => isDecimal_of_mem_itoa,
      .inl ⟨.inl rfl, ?_⟩⟩
    rw [decimalNumber_itoa]
    omega

theorem trimSpace_intText (number : Int) : trimSpace (intText number) = intText number := by
  have all : ∀ c ∈ intText number, Visible c := by
    intro c member
    rw [intText] at member
    split_ifs at member
    · rcases List.mem_cons.1 member with rfl | digit
      · decide
      · exact isDecimal_visible (isDecimal_of_mem_itoa digit)
    · exact isDecimal_visible (isDecimal_of_mem_itoa member)
  exact trimSpace_eq_self (fun c first => all c (List.mem_of_mem_head? first))
    fun c last => all c (List.mem_of_mem_getLast? last)

/-- The form `encoding/json` gives the struct itself. -/
def structText (number : Int) : GoString :=
  str "\x7b" ++ (str "\"v\"" ++ 58 :: intText number) ++ str "\x7d"

theorem denotes_intText (number : Int) : Denotes (intText number) number := by
  left
  rw [trimSpace_intText]
  exact isInteger_intText number

theorem denotes_structText (number : Int) : Denotes (structText number) number := by
  have whole : trimSpace (structText number) = structText number := by
    apply trimSpace_eq_self
    · intro c first
      obtain rfl : (123 : Byte) = c := Option.some.inj first
      decide
    · intro c last
      rw [structText, show str "\x7d" = [125] from rfl,
        List.getLast?_append_of_ne_nil _ (List.cons_ne_nil _ _)] at last
      obtain rfl : (125 : Byte) = c := Option.some.inj last
      decide
  refine .inr ⟨str "\"v\"", intText number, whole, by decide, ?_⟩
  rw [trimSpace_intText]
  exact isInteger_intText number

def ReadsBack (x : Option BigValue) (number : BigValue) : Prop :=
  ∀ data, data = marshalJSON (some number) ∨ data = structText number.toInt →
    ∃ value, unmarshalJSON x data = (some value, .ok ()) ∧ value.toInt = number.toInt

theorem readsBack (x : Option BigValue) (number : BigValue) : ReadsBack x number := by
  rintro data (rfl | rfl)
  · exact unmarshalJSON_of_denotes x (denotes_intText number.toInt)
  · exact unmarshalJSON_of_denotes x (denotes_structText number.toInt)

/-- Apart from misshapen objects, everything that is not an integer is accepted or panics. -/
theorem unmarshalJSON_conforms_iff (x : Option BigValue) (data : GoString) :
    (Conforms x data ↔ (∃ number, Denotes data number) ∨ Misshapen data) ∧
      ∀ number, ReadsBack x number := by
  refine ⟨⟨fun conforms => ?_, fun fit => ⟨fun number denoted => ?_, fun other => ?_⟩⟩,
    readsBack x⟩
  · by_cases readable : ∃ number, Denotes data number
    · exact .inl readable
    · right
      obtain ⟨err, failed⟩ := conforms.rejects (not_exists.1 readable)
      rw [← numberText_error_iff]
      rw [unmarshalJSON] at failed
      cases found : numberText (trimSpace data) with
      | ok text => simp [found] at failed
      | error err => exact ⟨err, rfl⟩
      | panic => simp [found] at failed
  · exact unmarshalJSON_of_denotes x denoted
  · rcases fit with ⟨number, denoted⟩ | misshapen
    · exact absurd denoted (other number)
    · obtain ⟨err, failed⟩ := (numberText_error_iff data).2 misshapen
      exact ⟨err, by rw [unmarshalJSON, failed]⟩

theorem IsInteger.has_digit {text : GoString} {number : Int} (integer : IsInteger text number) :
    ∃ c ∈ text, isDecimal c = true := by
  obtain ⟨sign, digits, rfl, nonempty, all, -⟩ := integer
  obtain ⟨c, member⟩ := List.exists_mem_of_ne_nil digits nonempty
  exact ⟨c, List.mem_append_right sign member, all c member⟩

theorem null_accepted :
    unmarshalJSON (some ⟨false, 7⟩) (str "null") = (some ⟨false, 0⟩, .ok ()) ∧
      unmarshalJSON (some ⟨false, 7⟩) (str "\x7b") = (some ⟨false, 7⟩, .panic) ∧
      ¬Conforms (some ⟨false, 7⟩) (str "null") := by
  have accepted : unmarshalJSON (some ⟨false, 7⟩) (str "null") = (some ⟨false, 0⟩, .ok ()) := by
    decide +kernel
  refine ⟨accepted, by decide +kernel, fun conforms => ?_⟩
  have trimmed : trimSpace (str "null") = str "null" := by decide
  obtain ⟨err, failed⟩ := conforms.rejects fun number denoted => by
    rw [Denotes, trimmed] at denoted
    rcases denoted with integer | ⟨key, value, whole, -⟩
    · exact absurd integer.has_digit (by decide)
    · have first : some (110 : Byte) = some 123 := congrArg List.head? whole
      exact absurd first (by decide)
  cases accepted.symm.trans failed

end Bclib.Bn
