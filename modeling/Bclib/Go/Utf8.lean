import Bclib.Go.Strings

namespace Bclib.Go

open Data

/-! The characters a `range` loop over a string sees. -/

/-- How many bytes follow a first byte above ASCII, and from where to where the second of
them may be. -/
def runeHead (first : Byte) : Option (Nat × Byte × Byte) :=
  if 0xc2 ≤ first ∧ first ≤ 0xdf then some (1, 0x80, 0xbf)
  else if first = 0xe0 then some (2, 0xa0, 0xbf)
  else if first = 0xed then some (2, 0x80, 0x9f)
  else if 0xe1 ≤ first ∧ first ≤ 0xef then some (2, 0x80, 0xbf)
  else if first = 0xf0 then some (3, 0x90, 0xbf)
  else if first = 0xf4 then some (3, 0x80, 0x8f)
  else if 0xf1 ≤ first ∧ first ≤ 0xf3 then some (3, 0x80, 0xbf)
  else none

/-- The character in front of a string and its width; none if it is not encoded well. -/
def decodeRune : GoString → Option (Nat × Nat)
  | [] => none
  | first :: rest =>
      if first < 0x80 then some (first.toNat, 1)
      else
        match runeHead first with
        | none => none
        | some (further, low, high) =>
            let tail := rest.take further
            if tail.length = further ∧ tail.head?.all (fun second => low ≤ second ∧ second ≤ high) ∧
                tail.all (fun next => 0x80 ≤ next ∧ next ≤ 0xbf) then
              some (tail.foldl (fun rune next => rune * 64 + next.toNat % 64)
                (first.toNat % 2 ^ (6 - further)), further + 1)
            else none

def runeError : Nat := 0xfffd

def runesOf : Nat → GoString → List Nat
  | 0, _ => []
  | _ + 1, [] => []
  | count + 1, first :: rest =>
      match decodeRune (first :: rest) with
      | some (rune, width) => rune :: runesOf count ((first :: rest).drop width)
      | none => runeError :: runesOf count rest

def runes (string : GoString) : List Nat := runesOf string.length string

def validRunes : Nat → GoString → Bool
  | 0, _ => true
  | _ + 1, [] => true
  | count + 1, first :: rest =>
      match decodeRune (first :: rest) with
      | some (_, width) => validRunes count ((first :: rest).drop width)
      | none => false

/-- `utf8.ValidString`. -/
def validString (string : GoString) : Bool := validRunes string.length string

example : runes [0x61, 0xc3, 0xa4, 0xe2, 0x82, 0xac, 0xff] = [0x61, 0xe4, 0x20ac, 0xfffd] := by
  decide

theorem validRunes_ascii (count : Nat) {string : GoString} (ascii : ∀ char ∈ string, char < 0x80) :
    validRunes count string = true := by
  induction count generalizing string with
  | zero => rfl
  | succ count ih =>
      cases string with
      | nil => rfl
      | cons first rest =>
          rw [List.forall_mem_cons] at ascii
          have decoded : decodeRune (first :: rest) = some (first.toNat, 1) := by
            rw [decodeRune, if_pos ascii.1]
          simp only [validRunes, decoded]
          exact ih ascii.2

theorem validString_ascii {string : GoString} (ascii : ∀ char ∈ string, char < 0x80) :
    validString string = true := validRunes_ascii _ ascii

end Bclib.Go
