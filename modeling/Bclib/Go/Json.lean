import Bclib.Go.Hex
import Bclib.Go.Utf8

namespace Bclib.Go

open Data

/-! Strings as `encoding/json` writes and reads them. -/

/-- Not escaped, also not for HTML. -/
def htmlSafe (b : Byte) : Bool :=
  0x20 ≤ b.toNat && b.toNat < 0x80 && !(str "\"\\<>&").contains b

def escapeByte (b : Byte) : GoString :=
  if b = 92 ∨ b = 34 then [92, b]
  else if b = 10 then str "\\n"
  else if b = 13 then str "\\r"
  else if b = 9 then str "\\t"
  else str "\\u00" ++ hexEncode [b]

/-- The first characters of a string between the quotes, at most so many. -/
def quoteRunes : Nat → GoString → GoString
  | 0, _ => []
  | _ + 1, [] => []
  | count + 1, first :: rest =>
      if first.toNat < 0x80 then
        (if htmlSafe first then [first] else escapeByte first) ++ quoteRunes count rest
      else
        match decodeRune (first :: rest) with
        | none => str "\\ufffd" ++ quoteRunes count rest
        | some (rune, width) =>
            (if rune = 0x2028 then str "\\u2028"
              else if rune = 0x2029 then str "\\u2029"
              else (first :: rest).take width) ++
              quoteRunes count ((first :: rest).drop width)

/-- `json.Marshal`. -/
def marshalString (string : GoString) : GoString :=
  34 :: (quoteRunes string.length string ++ [34])

/-- `utf8.EncodeRune`. -/
def encodeRune (rune : Nat) : GoString :=
  if rune < 0x80 then [BitVec.ofNat 8 rune]
  else if rune < 0x800 then [BitVec.ofNat 8 (0xc0 + rune / 64), BitVec.ofNat 8 (0x80 + rune % 64)]
  else if rune < 0x10000 then
    [BitVec.ofNat 8 (0xe0 + rune / 4096), BitVec.ofNat 8 (0x80 + rune / 64 % 64),
      BitVec.ofNat 8 (0x80 + rune % 64)]
  else
    [BitVec.ofNat 8 (0xf0 + rune / 262144), BitVec.ofNat 8 (0x80 + rune / 4096 % 64),
      BitVec.ofNat 8 (0x80 + rune / 64 % 64), BitVec.ofNat 8 (0x80 + rune % 64)]

def hex4 (string : GoString) : Option (Nat × GoString) :=
  if (string.take 4).length = 4 ∧ (string.take 4).all (fun c => (fromHexChar c).isSome) then
    some (hexNumber (string.take 4), string.drop 4)
  else none

/-- The character of an escape, and what follows it.  One half of a surrogate pair without the
other stands for an error. -/
def unescape (string : GoString) : Option (GoString × GoString) :=
  match string with
  | [] => none
  | first :: rest =>
      if first = 117 then
        match hex4 rest with
        | none => none
        | some (unit, rest) =>
            if 0xd800 ≤ unit ∧ unit < 0xe000 then
              match rest with
              | 92 :: 117 :: digits =>
                  match hex4 digits with
                  | some (low, after) =>
                      if unit < 0xdc00 ∧ 0xdc00 ≤ low ∧ low < 0xe000 then
                        some (encodeRune (0x10000 + (unit - 0xd800) * 0x400 + (low - 0xdc00)), after)
                      else some (encodeRune runeError, rest)
                  | none => some (encodeRune runeError, rest)
              | _ => some (encodeRune runeError, rest)
            else some (encodeRune unit, rest)
      else if first = 98 then some ([8], rest)
      else if first = 102 then some ([12], rest)
      else if first = 110 then some ([10], rest)
      else if first = 114 then some ([13], rest)
      else if first = 116 then some ([9], rest)
      else if first = 92 ∨ first = 47 ∨ first = 34 then some ([first], rest)
      else none

/-- The string up to the closing quote, and what follows it; a round for every character. -/
def unquote : Nat → GoString → Option (GoString × GoString)
  | 0, _ => none
  | _ + 1, [] => none
  | rounds + 1, first :: rest =>
      if first = 34 then some ([], rest)
      else if first = 92 then
        match unescape rest with
        | none => none
        | some (char, rest) => (unquote rounds rest).map fun read => (char ++ read.1, read.2)
      else if first.toNat < 0x20 then none
      else if first.toNat < 0x80 then
        (unquote rounds rest).map fun read => (first :: read.1, read.2)
      else
        match decodeRune (first :: rest) with
        | none => (unquote rounds rest).map fun read => (encodeRune runeError ++ read.1, read.2)
        | some (_, width) =>
            (unquote rounds ((first :: rest).drop width)).map fun read =>
              ((first :: rest).take width ++ read.1, read.2)

def jsonSpace (c : Byte) : Bool := c = 32 || c = 9 || c = 10 || c = 13

/-- `json.Unmarshal` into an empty string: none if there is an error.  A null leaves it empty. -/
def unmarshalString (data : GoString) : Option GoString :=
  match data.dropWhile jsonSpace with
  | [] => none
  | first :: rest =>
      if first = 34 then
        match unquote rest.length rest with
        | none => none
        | some (string, after) => if after.all jsonSpace then some string else none
      else if (str "null").isPrefixOf (first :: rest) ∧
          ((first :: rest).drop 4).all jsonSpace then some []
      else none

theorem htmlSafe_spec {b : Byte} (safe : htmlSafe b = true) :
    b.toNat < 0x80 ∧ b ≠ 34 ∧ b ≠ 92 ∧ ¬b.toNat < 0x20 := by
  revert b
  decide +kernel

theorem quoteRunes_safe {string : GoString} (safe : ∀ c ∈ string, htmlSafe c = true) :
    quoteRunes string.length string = string := by
  induction string with
  | nil => rfl
  | cons first rest ih =>
      rw [List.forall_mem_cons] at safe
      rw [List.length_cons, quoteRunes, if_pos (htmlSafe_spec safe.1).1, if_pos safe.1, ih safe.2]
      rfl

theorem unquote_safe {string : GoString} (safe : ∀ c ∈ string, htmlSafe c = true)
    (after : GoString) (more : Nat) :
    unquote (string.length + more + 1) (string ++ 34 :: after) = some (string, after) := by
  induction string with
  | nil => rw [List.nil_append, unquote, if_pos rfl]
  | cons first rest ih =>
      rw [List.forall_mem_cons] at safe
      obtain ⟨ascii, notQuote, notEscape, notControl⟩ := htmlSafe_spec safe.1
      have rounds : (first :: rest).length + more + 1 = (rest.length + more + 1) + 1 := by
        rw [List.length_cons]
        omega
      rw [rounds, List.cons_append, unquote, if_neg notQuote, if_neg notEscape,
        if_neg notControl, if_pos ascii, ih safe.2]
      rfl

theorem unmarshalString_marshalString {string : GoString}
    (safe : ∀ c ∈ string, htmlSafe c = true) :
    unmarshalString (marshalString string) = some string := by
  have read := unquote_safe safe [] 0
  have quoted : (marshalString string).dropWhile jsonSpace = 34 :: (string ++ [34]) := by
    rw [marshalString, quoteRunes_safe safe]
    rfl
  have length : (string ++ [34]).length = string.length + 0 + 1 := by
    rw [List.length_append]
    rfl
  simp only [unmarshalString, quoted, if_true, length, read]
  rfl

end Bclib.Go
