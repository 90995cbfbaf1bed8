import Bclib.Go.Strings
import Mathlib.Tactic.IntervalCases

namespace Bclib.Data.Base58

/-! Base58: the number in base 58, with one character for every leading zero byte. -/

def alphabet : List Byte :=
  Go.str "123456789ABCDEFGHJKLMNPQRSTUVWXYZabcdefghijkmnopqrstuvwxyz"

def symbol (digit : Nat) : Byte := alphabet.getD digit 0

def value? (char : Byte) : Option Nat := alphabet.idxOf? char

def leading (first : Byte) (bytes : List Byte) : Nat :=
  (bytes.takeWhile fun byte => byte = first).length

/-- `EncodeAlphabet`: digits from the lowest on, then the leading zeros, reversed. -/
def encode (bytes : List Byte) : List Byte :=
  ((Nat.digits 58 (ofBigEndian bytes)).map symbol ++
    List.replicate (leading 0 bytes) (symbol 0)).reverse

/-- The digits of a text, lowest first, if all its characters are in the alphabet. -/
def digits? (text : List Byte) : Option (List Nat) := text.reverse.mapM value?

/-- `Decode`: a text with other characters gives nothing. -/
def decode (text : List Byte) : List Byte :=
  match digits? text with
  | none => []
  | some digits =>
      List.replicate (leading (symbol 0) text) 0 ++ bigEndian (Nat.ofDigits 58 digits)

theorem value?_symbol {digit : Nat} (small : digit < 58) :
    value? (symbol digit) = some digit := by
  interval_cases digit <;> decide

theorem symbol_mem {digit : Nat} (small : digit < 58) : symbol digit ∈ alphabet := by
  interval_cases digit <;> decide

theorem symbol_ne_zero {digit : Nat} (small : digit < 58) (positive : digit ≠ 0) :
    symbol digit ≠ symbol 0 := by
  intro same
  have read := value?_symbol small
  rw [same, value?_symbol (by decide)] at read
  exact positive (Option.some.inj read).symm

theorem encode_alphabet (bytes : List Byte) : ∀ char ∈ encode bytes, char ∈ alphabet := by
  intro char member
  rw [encode, List.mem_reverse, List.mem_append] at member
  rcases member with digit | zero
  · obtain ⟨number, inside, rfl⟩ := List.mem_map.mp digit
    exact symbol_mem (Nat.digits_lt_base (by decide) inside)
  · obtain ⟨-, rfl⟩ := List.mem_replicate.mp zero
    exact symbol_mem (by decide)

theorem encode_plain (bytes : List Byte) : ∀ char ∈ encode bytes, char ≠ 46 := by
  rintro char member rfl
  have dot : 46 ∉ alphabet := by decide
  exact dot (encode_alphabet bytes 46 member)

theorem leading_split (first : Byte) (bytes : List Byte) :
    ∃ rest, bytes = List.replicate (leading first bytes) first ++ rest ∧
      rest.head? ≠ some first := by
  induction bytes with
  | nil => exact ⟨[], rfl, by simp⟩
  | cons byte rest ih =>
      by_cases same : byte = first
      · obtain ⟨left, split, other⟩ := ih
        have longer : leading first (byte :: rest) = leading first rest + 1 := by
          simp [leading, same]
        refine ⟨left, ?_, other⟩
        rw [longer, List.replicate_succ, List.cons_append, ← split, same]
      · have none : leading first (byte :: rest) = 0 := by simp [leading, same]
        exact ⟨byte :: rest, by rw [none]; rfl, by simpa using same⟩

theorem leading_replicate (first : Byte) (count : Nat) {rest : List Byte}
    (other : rest.head? ≠ some first) :
    leading first (List.replicate count first ++ rest) = count := by
  induction count with
  | zero =>
      cases rest with
      | nil => rfl
      | cons byte rest =>
          have different : byte ≠ first := by simpa using other
          simp [leading, different]
  | succ count ih =>
      rw [List.replicate_succ, List.cons_append]
      simpa [leading] using ih

theorem mapM_value?_symbol {digits : List Nat} (small : ∀ digit ∈ digits, digit < 58) :
    (digits.map symbol).mapM value? = some digits := by
  induction digits with
  | nil => rfl
  | cons digit rest ih =>
      rw [List.forall_mem_cons] at small
      simp [value?_symbol small.1, ih small.2]

theorem digits?_encode (bytes : List Byte) :
    digits? (encode bytes) =
      some (Nat.digits 58 (ofBigEndian bytes) ++ List.replicate (leading 0 bytes) 0) := by
  have zeros : List.replicate (leading 0 bytes) (symbol 0) =
      (List.replicate (leading 0 bytes) 0).map symbol := by simp
  rw [digits?, encode, List.reverse_reverse, zeros, ← List.map_append]
  apply mapM_value?_symbol
  intro digit member
  rcases List.mem_append.mp member with digit | zero
  · exact Nat.digits_lt_base (by decide) digit
  · obtain ⟨-, rfl⟩ := List.mem_replicate.mp zero
    decide

theorem leading_encode (bytes : List Byte) :
    leading (symbol 0) (encode bytes) = leading 0 bytes := by
  rw [encode, List.reverse_append, List.reverse_replicate]
  apply leading_replicate
  rw [List.head?_reverse, List.getLast?_map]
  by_cases zero : ofBigEndian bytes = 0
  · simp [zero]
  · have nonempty : Nat.digits 58 (ofBigEndian bytes) ≠ [] :=
      Nat.digits_ne_nil_iff_ne_zero.mpr zero
    rw [List.getLast?_eq_getLast_of_ne_nil nonempty]
    have small := Nat.digits_lt_base (b := 58) (by decide) (List.getLast_mem nonempty)
    intro same
    exact symbol_ne_zero small (Nat.getLast_digit_ne_zero 58 zero) (Option.some.inj same)

theorem decode_encode (bytes : List Byte) : decode (encode bytes) = bytes := by
  obtain ⟨rest, split, other⟩ := leading_split 0 bytes
  have number : Nat.ofDigits 58 (Nat.digits 58 (ofBigEndian bytes) ++
      List.replicate (leading 0 bytes) 0) = ofBigEndian rest := by
    rw [Nat.ofDigits_append, Nat.ofDigits_digits, Nat.ofDigits_replicate_zero, Nat.mul_zero,
      Nat.add_zero]
    conv_lhs => rw [split]
    exact ofBigEndian_replicate_append _ rest
  rw [decode, digits?_encode]
  simp only [leading_encode, number, bigEndian_ofBigEndian other]
  exact split.symm

theorem symbol_value? {char : Byte} {digit : Nat} (found : value? char = some digit) :
    symbol digit = char := by
  obtain ⟨inside, same, -⟩ := List.findIdx?_eq_some_iff_getElem.mp found
  rw [symbol, List.getD_eq_getElem?_getD, List.getElem?_eq_getElem inside]
  exact beq_iff_eq.mp same

theorem value?_lt {char : Byte} {digit : Nat} (found : value? char = some digit) :
    digit < 58 :=
  (List.findIdx?_eq_some_iff_getElem.mp found).1

theorem ofDigits_lt {text : List Byte} {digits : List Nat}
    (read : text.mapM value? = some digits) : Nat.ofDigits 58 digits < 58 ^ text.length := by
  induction text generalizing digits with
  | nil =>
      obtain rfl : [] = digits := by simpa using read
      decide
  | cons char rest ih =>
      obtain ⟨digit, found, others, later, rfl⟩ : ∃ digit, value? char = some digit ∧
          ∃ others, rest.mapM value? = some others ∧ digit :: others = digits := by
        simpa [List.mapM_cons, Option.bind_eq_some_iff] using read
      have small := value?_lt found
      have below := ih later
      rw [Nat.ofDigits_cons, List.length_cons, Nat.pow_succ]
      omega

theorem digits?_split {text : List Byte} {digits : List Nat} (read : digits? text = some digits) :
    ∃ rest low, text = List.replicate (leading (symbol 0) text) (symbol 0) ++ rest ∧
      rest.head? ≠ some (symbol 0) ∧ rest.reverse.mapM value? = some low ∧
      digits = low ++ List.replicate (leading (symbol 0) text) 0 := by
  obtain ⟨rest, split, other⟩ := leading_split (symbol 0) text
  have zeros : (List.replicate (leading (symbol 0) text) (symbol 0)).mapM value? =
      some (List.replicate (leading (symbol 0) text) 0) := by
    have same := @mapM_value?_symbol (List.replicate (leading (symbol 0) text) 0) (by simp)
    rwa [List.map_replicate] at same
  rw [digits?, split, List.reverse_append, List.reverse_replicate, List.mapM_append] at read
  obtain ⟨low, found, rfl⟩ : ∃ low, rest.reverse.mapM value? = some low ∧
      low ++ List.replicate (leading (symbol 0) text) 0 = digits := by
    simpa [zeros, Option.bind_eq_some_iff] using read
  exact ⟨rest, low, split, other, found, rfl⟩

theorem decode_of_digits {text : List Byte} {low : List Nat} {zeros : Nat}
    (read : digits? text = some (low ++ List.replicate zeros 0)) :
    decode text =
      List.replicate (leading (symbol 0) text) 0 ++ bigEndian (Nat.ofDigits 58 low) := by
  rw [decode, read]
  simp only [Nat.ofDigits_append, Nat.ofDigits_replicate_zero, Nat.mul_zero, Nat.add_zero]

theorem decode_length_le (text : List Byte) : (decode text).length ≤ text.length := by
  cases read : digits? text with
  | none =>
      rw [decode, read]
      exact Nat.zero_le _
  | some digits =>
      obtain ⟨rest, low, split, -, found, rfl⟩ := digits?_split read
      have total : text.length = leading (symbol 0) text + rest.length := by
        conv_lhs => rw [split]
        simp
      have bound := ofDigits_lt found
      rw [List.length_reverse] at bound
      have short : (bigEndian (Nat.ofDigits 58 low)).length ≤ rest.length :=
        bigEndian_length_le_iff.mpr
          (Nat.lt_of_lt_of_le bound (Nat.pow_le_pow_left (by decide) _))
      rw [decode_of_digits read, List.length_append, List.length_replicate]
      omega

/-! Texts over the alphabet are what their decoding is encoded to. -/

theorem mapM_value?_eq_some {text : List Byte} {digits : List Nat}
    (read : text.mapM value? = some digits) :
    digits.map symbol = text ∧ ∀ digit ∈ digits, digit < 58 := by
  induction text generalizing digits with
  | nil =>
      obtain rfl : [] = digits := by simpa using read
      simp
  | cons char rest ih =>
      obtain ⟨digit, found, others, later, rfl⟩ : ∃ digit, value? char = some digit ∧
          ∃ others, rest.mapM value? = some others ∧ digit :: others = digits := by
        simpa [List.mapM_cons, Option.bind_eq_some_iff] using read
      obtain ⟨symbols, small⟩ := ih later
      exact ⟨by rw [List.map_cons, symbols, symbol_value? found],
        List.forall_mem_cons.mpr ⟨value?_lt found, small⟩⟩

theorem decode_foreign {text : List Byte} {char : Byte} (member : char ∈ text)
    (foreign : char ∉ alphabet) : decode text = [] := by
  cases read : digits? text with
  | none => rw [decode, read]
  | some digits =>
      obtain ⟨symbols, small⟩ := mapM_value?_eq_some read
      rw [← List.mem_reverse, ← symbols] at member
      obtain ⟨digit, inside, rfl⟩ := List.mem_map.mp member
      exact absurd (symbol_mem (small digit inside)) foreign

theorem exists_digits {text : List Byte} (inside : ∀ char ∈ text, char ∈ alphabet) :
    ∃ digits, text.mapM value? = some digits := by
  induction text with
  | nil => exact ⟨[], rfl⟩
  | cons char rest ih =>
      rw [List.forall_mem_cons] at inside
      obtain ⟨others, later⟩ := ih inside.2
      obtain ⟨digit, found⟩ : ∃ digit, value? char = some digit := by
        rw [← Option.isSome_iff_exists]
        exact List.isSome_idxOf?.mpr inside.1
      exact ⟨digit :: others, by simp [found, later]⟩

theorem encode_decode {text : List Byte} (inside : ∀ char ∈ text, char ∈ alphabet) :
    encode (decode text) = text := by
  obtain ⟨digits, read⟩ : ∃ digits, digits? text = some digits :=
    exists_digits fun char member => inside char (List.mem_reverse.mp member)
  obtain ⟨rest, low, split, other, found, rfl⟩ := digits?_split read
  obtain ⟨symbols, small⟩ := mapM_value?_eq_some found
  have decoded := decode_of_digits read
  have highest : ∀ nonempty : low ≠ [], low.getLast nonempty ≠ 0 := by
    intro nonempty zero
    apply other
    rw [← List.reverse_reverse rest, ← symbols, List.head?_reverse, List.getLast?_map,
      List.getLast?_eq_getLast_of_ne_nil nonempty, zero]
    rfl
  have value : Nat.digits 58 (Nat.ofDigits 58 low) = low :=
    Nat.digits_ofDigits 58 (by decide) low small highest
  rw [decoded]
  generalize leading (symbol 0) text = zeros at split ⊢
  have number : ofBigEndian (List.replicate zeros 0 ++ bigEndian (Nat.ofDigits 58 low)) =
      Nat.ofDigits 58 low :=
    (ofBigEndian_replicate_append zeros _).trans (ofBigEndian_bigEndian _)
  have leads : leading 0 (List.replicate zeros 0 ++ bigEndian (Nat.ofDigits 58 low)) = zeros :=
    leading_replicate 0 zeros (bigEndian_noLeadingZero _)
  rw [encode, number, value, leads, symbols, List.reverse_append, List.reverse_replicate,
    List.reverse_reverse]
  exact split.symm

end Bclib.Data.Base58
