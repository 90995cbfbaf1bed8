import Bclib.Go.Strings
import Bclib.Rlp.StreamValues

namespace Bclib.Rlp

open Data
open Go

/-! The functions of `raw.go`, which take the first value off a byte slice. -/

def joinSize : List Byte → Nat
  | [] => 0
  | byte :: rest => byte.toNat <<< (8 * rest.length) ||| joinSize rest

def readSize (b : List Byte) (slen : Nat) : Except Err Nat :=
  if b.length < slen then .error .unexpectedEOF
  else
    let s := joinSize (b.take slen)
    if s < 56 ∨ b.head? = some 0#8 then .error .canonSize else .ok s

/-- The last check of `readKind`: the value has to lie in the slice. -/
def inSlice (buf : List Byte) (k : Kind) (tagsize contentsize : Nat) :
    Except Err (Kind × Nat × Nat) :=
  if subUint64 buf.length tagsize < contentsize then .error .valueTooLarge
  else .ok (k, tagsize, contentsize)

def readLongKind (buf : List Byte) (k : Kind) (slen : Nat) : Except Err (Kind × Nat × Nat) :=
  match readSize buf.tail slen with
  | .error err => .error err
  | .ok contentsize => inSlice buf k (slen + 1) contentsize

/-- The kind of the first value and the sizes of its tag and its content. -/
def readKind (buf : List Byte) : Except Err (Kind × Nat × Nat) :=
  match buf with
  | [] => .error .unexpectedEOF
  | b :: rest =>
      if b.toNat < 0x80 then inSlice buf .byte 0 1
      else if b.toNat < 0xB8 then
        if b.toNat - 0x80 = 1 ∧ rest.head?.any (·.toNat < 128) then .error .canonSize
        else inSlice buf .string 1 (b.toNat - 0x80)
      else if b.toNat < 0xC0 then readLongKind buf .string (b.toNat - 0xB7)
      else if b.toNat < 0xF8 then inSlice buf .list 1 (b.toNat - 0xC0)
      else readLongKind buf .list (b.toNat - 0xF7)

/-- Kind, content and rest of the first value; `b` itself is the rest where there is an
error. -/
def split (b : List Byte) : Except Err (Kind × List Byte × List Byte) :=
  match readKind b with
  | .error err => .error err
  | .ok (k, ts, cs) =>
      match subslice b ts (addUint64 ts cs : Nat),
        subslice b (addUint64 ts cs : Nat) b.length with
      | some content, some rest => .ok (k, content, rest)
      | _, _ => .error .panic

def splitString (b : List Byte) : Except Err (List Byte × List Byte) :=
  match split b with
  | .error err => .error err
  | .ok (k, content, rest) =>
      if k = .list then .error .expectedString else .ok (content, rest)

def splitList (b : List Byte) : Except Err (List Byte × List Byte) :=
  match split b with
  | .error err => .error err
  | .ok (k, content, rest) =>
      if k ≠ .list then .error .expectedList else .ok (content, rest)

theorem joinSize_eq (bytes : List Byte) : joinSize bytes = ofBigEndian bytes := by
  induction bytes with
  | nil => rfl
  | cons byte rest ih =>
      have low : ofBigEndian rest < 2 ^ (8 * rest.length) := by
        rw [Nat.pow_mul]
        exact ofBigEndian_lt rest
      rw [joinSize, ih, ← Nat.shiftLeft_add_eq_or_of_lt low, ofBigEndian_cons,
        Nat.shiftLeft_eq, Nat.pow_mul]

theorem readSize_putint {size : Nat} (large : ¬size < 56) (fits : size < 2 ^ 64)
    (rest : List Byte) : readSize (putint size ++ rest) (putint size).length = .ok size := by
  have minimal : putint size = bigEndian size := putint_eq_bigEndian (by omega) fits
  have first : (putint size ++ rest).head? = (putint size).head? :=
    List.head?_append_of_ne_nil _ (List.length_pos_iff.1 (putint_length_pos size))
  have nonzero : (putint size).head? ≠ some 0#8 := by
    rw [minimal]
    exact bigEndian_noLeadingZero size
  have value : joinSize (putint size) = size := by
    rw [joinSize_eq, minimal, ofBigEndian_bigEndian]
  rw [readSize, if_neg (by simp), List.take_left, value, first]
  exact if_neg (not_or.2 ⟨large, nonzero⟩)

theorem readSize_sound {b : List Byte} {slen size : Nat} (positive : 0 < slen) (short : slen ≤ 8)
    (ran : readSize b slen = .ok size) :
    ¬size < 56 ∧ (putint size).length = slen ∧ ∃ rest, b = putint size ++ rest := by
  rw [readSize] at ran
  split_ifs at ran with tooShort
  dsimp only at ran
  split_ifs at ran with canonical
  obtain ⟨large, nonzero⟩ := not_or.1 canonical
  have taken : (b.take slen).length = slen := by
    rw [List.length_take]
    omega
  have minimal : NoLeadingZero (b.take slen) := by
    rw [NoLeadingZero, List.head?_take, if_neg (by omega)]
    exact nonzero
  have value : joinSize (b.take slen) = size := Except.ok.inj ran
  have written : putint size = b.take slen := by
    rw [← value, joinSize_eq]
    exact putint_ofBigEndian (by omega) (by omega) minimal
  exact ⟨value ▸ large, written ▸ taken, b.drop slen, by rw [written, List.take_append_drop]⟩

def Leads (kind : Kind) (content rest b : List Byte) : Prop :=
  match kind with
  | .byte => IsSingle content ∧ b = content ++ rest
  | .string => ¬IsSingle content ∧ b = puthead 0x80 0xB7 content.length ++ content ++ rest
  | .list => b = puthead 0xC0 0xF7 content.length ++ content ++ rest

section Slice

variable {b content rest : List Byte} {kind : Kind}

theorem split_of_readKind (short : b.length < maxLen) {tag : List Byte}
    (whole : b = tag ++ content ++ rest)
    (ran : readKind b = .ok (kind, tag.length, content.length)) :
    split b = .ok (kind, content, rest) := by
  have lengths : b.length = tag.length + content.length + rest.length := by
    rw [whole, List.length_append, List.length_append]
  have sum : addUint64 tag.length content.length = tag.length + content.length :=
    addUint64_of_lt (by unfold maxLen at short; omega)
  have front : subslice b tag.length ((tag.length + content.length : Nat) : Int) =
      some content := by
    rw [subslice, if_pos (by omega), Int.toNat_natCast, Int.toNat_natCast, whole,
      ← List.length_append, List.take_left, List.drop_left]
  have back : subslice b ((tag.length + content.length : Nat) : Int) b.length = some rest := by
    rw [subslice, if_pos (by omega), Int.toNat_natCast, Int.toNat_natCast, List.take_length,
      whole, ← List.length_append, List.drop_left]
  rw [split, ran]
  simp only [sum, front, back]

theorem inSlice_append (tag payload : List Byte) (short : (tag ++ payload).length < maxLen)
    (kind : Kind) (size : Nat) :
    inSlice (tag ++ payload) kind tag.length size =
      if payload.length < size then .error .valueTooLarge else .ok (kind, tag.length, size) := by
  have left : subUint64 (tag ++ payload).length tag.length = payload.length := by
    rw [subUint64_of_le (by unfold maxLen at short; omega) (by simp), List.length_append,
      Nat.add_sub_cancel_left]
  rw [inSlice, left]

theorem readLongKind_of_putint (tag : Byte) {payload : List Byte} {size : Nat}
    (large : ¬size < 56) (short : (tag :: putint size ++ payload).length < maxLen)
    (inside : size ≤ payload.length) (kind : Kind) :
    readLongKind (tag :: putint size ++ payload) kind (putint size).length =
      .ok (kind, (tag :: putint size).length, size) := by
  have fits : size < 2 ^ 64 := by
    rw [List.length_append] at short
    unfold maxLen at short
    omega
  have checked := inSlice_append (tag :: putint size) payload short kind size
  rw [if_neg (by omega)] at checked
  rw [readLongKind, List.cons_append, List.tail_cons, readSize_putint large fits]
  exact checked

theorem readLongKind_sound {tag : Byte} {tail : List Byte} {slen ts cs : Nat} {read : Kind}
    (positive : 0 < slen) (small : slen ≤ 8) (short : (tag :: tail).length < maxLen)
    (ran : readLongKind (tag :: tail) kind slen = .ok (read, ts, cs)) :
    read = kind ∧ ¬cs < 56 ∧ (putint cs).length = slen ∧ ts = (tag :: putint cs).length ∧
      ∃ payload, tail = putint cs ++ payload ∧ cs ≤ payload.length := by
  rw [readLongKind, List.tail_cons] at ran
  cases found : readSize tail slen with
  | error err =>
      rw [found] at ran
      cases ran
  | ok size =>
      obtain ⟨large, width, payload, rfl⟩ := readSize_sound positive small found
      have checked := inSlice_append (tag :: putint size) payload short kind size
      rw [List.length_cons, width] at checked
      rw [found] at ran
      simp only [← List.cons_append] at ran
      rw [checked] at ran
      split_ifs at ran with tooLarge
      cases ran
      exact ⟨rfl, large, width, by rw [List.length_cons, width], payload, rfl, by omega⟩

def Found (b : List Byte) (kind : Kind) (ts cs : Nat) : Prop :=
  ∃ tag content rest, b = tag ++ content ++ rest ∧ tag.length = ts ∧ content.length = cs ∧
    Leads kind content rest b

theorem found_take {head payload : List Byte} {size : Nat} (inside : size ≤ payload.length)
    (leads : Leads kind (payload.take size) (payload.drop size) (head ++ payload)) :
    Found (head ++ payload) kind head.length size := by
  refine ⟨head, payload.take size, payload.drop size, ?_, rfl, List.length_take_of_le inside,
    leads⟩
  rw [List.append_assoc, List.take_append_drop]

theorem found_string {head payload : List Byte} {size : Nat} (inside : size ≤ payload.length)
    (tag : puthead 0x80 0xB7 size = head) (canonical : ¬IsSingle (payload.take size)) :
    Found (head ++ payload) .string head.length size := by
  refine found_take inside ⟨canonical, ?_⟩
  rw [List.length_take_of_le inside, tag, List.append_assoc, List.take_append_drop]

theorem found_list {head payload : List Byte} {size : Nat} (inside : size ≤ payload.length)
    (tag : puthead 0xC0 0xF7 size = head) :
    Found (head ++ payload) .list head.length size := by
  refine found_take inside ?_
  rw [Leads, List.length_take_of_le inside, tag, List.append_assoc, List.take_append_drop]

theorem isSingle_take {payload : List Byte} {size : Nat} (inside : size ≤ payload.length) :
    IsSingle (payload.take size) ↔ size = 1 ∧ payload.head?.any (·.toNat < 128) = true := by
  rw [IsSingle, List.length_take_of_le inside]
  refine and_congr_right fun one => ?_
  subst one
  cases payload with
  | nil => simp at inside
  | cons first rest => simp

theorem readKind_sound (short : b.length < maxLen) {ts cs : Nat}
    (ran : readKind b = .ok (kind, ts, cs)) : Found b kind ts cs := by
  cases b with
  | nil => cases ran
  | cons tag tail =>
      have bound := tag.isLt
      have behind := inSlice_append [tag] tail short
      simp only [readKind] at ran
      split_ifs at ran with single shortString canonical longString shortList
      · have checked := inSlice_append [] (tag :: tail) short .byte 1
        rw [if_neg (by simp)] at checked
        cases checked.symm.trans ran
        exact ⟨[], [tag], tail, rfl, rfl, rfl, isSingle_iff.2 ⟨tag, rfl, single⟩, rfl⟩
      · have checked := (behind .string (tag.toNat - 0x80)).symm.trans ran
        split_ifs at checked with tooLarge
        cases checked
        refine found_string (by omega) (puthead_eq_of_small (by omega) ?_) ?_
        · rw [show (0x80 : Byte).toNat = 128 from rfl]
          omega
        · rw [isSingle_take (by omega)]
          exact canonical
      · obtain ⟨rfl, large, width, rfl, payload, rfl, inside⟩ :=
          readLongKind_sound (by omega) (by omega) short ran
        rw [← List.cons_append]
        refine found_string inside (puthead_eq_of_large large ?_) fun alone => ?_
        · rw [show (0xB7 : Byte).toNat = 183 from rfl]
          omega
        · have one := ((isSingle_take inside).1 alone).1
          omega
      · have checked := (behind .list (tag.toNat - 0xC0)).symm.trans ran
        split_ifs at checked with tooLarge
        cases checked
        refine found_list (by omega) (puthead_eq_of_small (by omega) ?_)
        rw [show (0xC0 : Byte).toNat = 192 from rfl]
        omega
      · obtain ⟨rfl, large, width, rfl, payload, rfl, inside⟩ :=
          readLongKind_sound (by omega) (by omega) short ran
        rw [← List.cons_append]
        refine found_list inside (puthead_eq_of_large large ?_)
        rw [show (0xF7 : Byte).toNat = 247 from rfl]
        omega

theorem readKind_byte {byte : Byte} (single : byte.toNat < 128) (rest : List Byte)
    (short : (byte :: rest).length < maxLen) : readKind (byte :: rest) = .ok (.byte, 0, 1) := by
  have checked := inSlice_append [] (byte :: rest) short .byte 1
  rw [if_neg (by simp)] at checked
  simp only [readKind, if_pos single]
  exact checked

theorem readKind_puthead {smalltag largetag : Byte}
    (short : (puthead smalltag largetag content.length ++ content ++ rest).length < maxLen)
    (small : content.length < 56 →
      readKind ([smalltag + toByte content.length] ++ (content ++ rest)) =
        inSlice ([smalltag + toByte content.length] ++ (content ++ rest)) kind 1 content.length)
    (large : ¬content.length < 56 →
      readKind ((largetag + toByte (putint content.length).length) :: putint content.length ++
          (content ++ rest)) =
        readLongKind ((largetag + toByte (putint content.length).length) ::
          putint content.length ++ (content ++ rest)) kind (putint content.length).length) :
    readKind (puthead smalltag largetag content.length ++ content ++ rest) =
      .ok (kind, (puthead smalltag largetag content.length).length, content.length) := by
  have inside : content.length ≤ (content ++ rest).length := by simp
  rw [List.append_assoc] at short ⊢
  by_cases fits : content.length < 56
  · have head : puthead smalltag largetag content.length = [smalltag + toByte content.length] :=
      if_pos fits
    rw [head] at short ⊢
    have checked := inSlice_append _ _ short kind content.length
    rw [if_neg (Nat.not_lt.2 inside)] at checked
    exact (small fits).trans checked
  · have head : puthead smalltag largetag content.length =
        (largetag + toByte (putint content.length).length) :: putint content.length := if_neg fits
    rw [head] at short ⊢
    exact (large fits).trans (readLongKind_of_putint _ fits short inside kind)

theorem readKind_string (short : (puthead 0x80 0xB7 content.length ++ content ++ rest).length <
    maxLen) (canonical : ¬IsSingle content) :
    readKind (puthead 0x80 0xB7 content.length ++ content ++ rest) =
      .ok (.string, (puthead 0x80 0xB7 content.length).length, content.length) := by
  have inside : content.length ≤ (content ++ rest).length := by simp
  have front : (content ++ rest).take content.length = content := List.take_left
  rw [← front, isSingle_take inside] at canonical
  refine readKind_puthead short (fun small => ?_) fun _ => ?_
  · have tag := toNat_tag_small 0x80 small (by decide)
    rw [show (0x80 : Byte).toNat = 128 from rfl] at tag
    simp only [readKind, List.singleton_append, tag]
    rw [if_neg (by omega), if_pos (by omega), Nat.add_sub_cancel_left, if_neg canonical]
  · have tag := toNat_tag_large 0xB7 content.length (by decide)
    have width := putint_length_le content.length
    have positive := putint_length_pos content.length
    rw [show (0xB7 : Byte).toNat = 183 from rfl] at tag
    simp only [readKind, List.cons_append, tag]
    rw [if_neg (by omega), if_neg (by omega), if_pos (by omega), Nat.add_sub_cancel_left]

theorem readKind_list (short : (puthead 0xC0 0xF7 content.length ++ content ++ rest).length <
    maxLen) : readKind (puthead 0xC0 0xF7 content.length ++ content ++ rest) =
      .ok (.list, (puthead 0xC0 0xF7 content.length).length, content.length) := by
  refine readKind_puthead short (fun small => ?_) fun _ => ?_
  · have tag := toNat_tag_small 0xC0 small (by decide)
    rw [show (0xC0 : Byte).toNat = 192 from rfl] at tag
    simp only [readKind, List.singleton_append, tag]
    rw [if_neg (by omega), if_neg (by omega), if_neg (by omega), if_pos (by omega),
      Nat.add_sub_cancel_left]
  · have tag := toNat_tag_large 0xF7 content.length (by decide)
    have width := putint_length_le content.length
    have positive := putint_length_pos content.length
    rw [show (0xF7 : Byte).toNat = 247 from rfl] at tag
    simp only [readKind, List.cons_append, tag]
    rw [if_neg (by omega), if_neg (by omega), if_neg (by omega), if_neg (by omega),
      Nat.add_sub_cancel_left]

theorem split_eq_ok_iff (short : b.length < maxLen) :
    split b = .ok (kind, content, rest) ↔ Leads kind content rest b := by
  constructor
  · intro ran
    cases found : readKind b with
    | error err =>
        rw [split, found] at ran
        cases ran
    | ok sizes =>
        obtain ⟨read, ts, cs⟩ := sizes
        obtain ⟨tag, payload, behind, whole, rfl, rfl, leads⟩ := readKind_sound short found
        cases (split_of_readKind short whole found).symm.trans ran
        exact leads
  · intro leads
    cases kind with
    | byte =>
        obtain ⟨single, rfl⟩ := leads
        obtain ⟨byte, rfl, small⟩ := isSingle_iff.1 single
        have whole : [byte] ++ rest = [] ++ [byte] ++ rest := rfl
        exact split_of_readKind short whole (readKind_byte small rest short)
    | string =>
        obtain ⟨canonical, rfl⟩ := leads
        exact split_of_readKind short rfl (readKind_string short canonical)
    | list =>
        obtain rfl : b = _ := leads
        exact split_of_readKind short rfl (readKind_list short)

theorem leads_string_iff :
    (∃ kind, kind ≠ .list ∧ Leads kind content rest b) ↔ b = wireString content ++ rest := by
  constructor
  · rintro ⟨kind, string, leads⟩
    cases kind with
    | byte => rw [leads.2, wireString, if_pos leads.1]
    | string => rw [leads.2, wireString, if_neg leads.1]
    | list => exact absurd rfl string
  · intro whole
    rw [wireString] at whole
    split_ifs at whole with single
    · exact ⟨.byte, by decide, single, whole⟩
    · exact ⟨.string, by decide, single, whole⟩

theorem splitString_eq_ok_iff (short : b.length < maxLen) :
    splitString b = .ok (content, rest) ↔ b = wireString content ++ rest := by
  rw [← leads_string_iff]
  constructor
  · intro ran
    rw [splitString] at ran
    rcases found : split b with err | ⟨kind, payload, behind⟩
    · rw [found] at ran
      cases ran
    · simp only [found] at ran
      split_ifs at ran with list
      cases ran
      exact ⟨kind, list, (split_eq_ok_iff short).1 found⟩
  · rintro ⟨kind, string, leads⟩
    rw [splitString, (split_eq_ok_iff short).2 leads]
    exact if_neg string

theorem splitList_eq_ok_iff (short : b.length < maxLen) :
    splitList b = .ok (content, rest) ↔ b = wireList content ++ rest := by
  constructor
  · intro ran
    rw [splitList] at ran
    rcases found : split b with err | ⟨kind, payload, behind⟩
    · rw [found] at ran
      cases ran
    · simp only [found] at ran
      split_ifs at ran with list
      cases ran
      obtain rfl := not_not.1 list
      exact (split_eq_ok_iff short).1 found
  · intro whole
    have leads : Leads .list content rest b := whole
    rw [splitList, (split_eq_ok_iff short).2 leads]
    rfl

theorem inSlice_error {ts cs : Nat} {err : Err} (ran : inSlice b kind ts cs = .error err) :
    err.Ordinary := by
  rw [inSlice] at ran
  split_ifs at ran
  cases ran
  decide

theorem readLongKind_error {slen : Nat} {err : Err}
    (ran : readLongKind b kind slen = .error err) : err.Ordinary := by
  rw [readLongKind] at ran
  cases found : readSize b.tail slen with
  | error sizeErr =>
      rw [found] at ran
      cases ran
      simp only [readSize] at found
      split_ifs at found <;> cases found <;> decide
  | ok size =>
      rw [found] at ran
      exact inSlice_error ran

theorem readKind_error {err : Err} (ran : readKind b = .error err) : err.Ordinary := by
  cases b with
  | nil =>
      cases ran
      decide
  | cons tag tail =>
      simp only [readKind] at ran
      split_ifs at ran
      · exact inSlice_error ran
      · cases ran
        decide
      · exact inSlice_error ran
      · exact readLongKind_error ran
      · exact inSlice_error ran
      · exact readLongKind_error ran

theorem split_error (short : b.length < maxLen) {err : Err} (ran : split b = .error err) :
    err.Ordinary := by
  cases found : readKind b with
  | error kindErr =>
      rw [split, found] at ran
      cases ran
      exact readKind_error found
  | ok sizes =>
      obtain ⟨read, ts, cs⟩ := sizes
      obtain ⟨tag, payload, behind, whole, rfl, rfl, -⟩ := readKind_sound short found
      cases (split_of_readKind short whole found).symm.trans ran

/-! The stream over the same bytes. -/

theorem newStream_bytes_iff (short : b.length < maxLen) :
    (∃ next, (newStream b 0).bytes = (.ok content, next) ∧ next.input = rest) ↔
      b = wireString content ++ rest := by
  obtain ⟨sound, -, window⟩ := newStream_ready short
  constructor
  · rintro ⟨next, ran, rfl⟩
    obtain ⟨⟨behind, whole⟩, moved⟩ := Stream.bytes_sound sound rfl ran
    have left : next.input = behind := by
      rw [moved.input, show (newStream b 0).input = b from rfl, ← window, whole, List.drop_left]
    rw [left, ← whole, window]
  · intro whole
    obtain ⟨next, ran, moved⟩ := Stream.bytes_complete sound rfl (window.trans whole)
    refine ⟨next, ran, ?_⟩
    rw [moved.input, show (newStream b 0).input = b from rfl, whole, List.drop_left]

theorem newStream_list_iff (short : b.length < maxLen) :
    (∃ next, (newStream b 0).list = (.ok content.length, next) ∧
        next.input = content ++ rest) ↔
      b = puthead 0xC0 0xF7 content.length ++ content ++ rest := by
  obtain ⟨sound, -, window⟩ := newStream_ready short
  have input : ((newStream b 0).opened content.length).input =
      b.drop (puthead 0xC0 0xF7 content.length).length := rfl
  constructor
  · rintro ⟨next, ran, unread⟩
    obtain ⟨⟨behind, whole, -⟩, rfl⟩ := (Stream.list_eq_ok_iff sound rfl).1 ran
    rw [window] at whole
    rw [input, whole, List.drop_left] at unread
    rw [whole, unread, List.append_assoc]
  · intro whole
    rw [List.append_assoc] at whole
    refine ⟨_, (Stream.list_eq_ok_iff sound rfl).2
      ⟨⟨content ++ rest, window.trans whole, by simp⟩, rfl⟩, ?_⟩
    rw [input, whole, List.drop_left]

theorem newStream_list_content (short : b.length < maxLen) {size : Nat} {next : Stream}
    (ran : (newStream b 0).list = (.ok size, next)) :
    ∃ content rest, content.length = size ∧ next.input = content ++ rest := by
  obtain ⟨sound, -, window⟩ := newStream_ready short
  obtain ⟨⟨behind, whole, inside⟩, rfl⟩ := (Stream.list_eq_ok_iff sound rfl).1 ran
  have unread : ((newStream b 0).opened size).input =
      b.drop (puthead 0xC0 0xF7 size).length := rfl
  rw [window] at whole
  refine ⟨behind.take size, behind.drop size, List.length_take_of_le inside, ?_⟩
  rw [unread, whole, List.drop_left, List.take_append_drop]

end Slice

/-- The splitter and a stream over the same bytes accept the same strings and the same lists,
and report an error on everything else. -/
structure Agrees (b : List Byte) : Prop where
  strings : ∀ content rest,
    (∃ kind, kind ≠ .list ∧ split b = .ok (kind, content, rest)) ↔
      ∃ next, (newStream b 0).bytes = (.ok content, next) ∧ next.input = rest
  lists : ∀ content rest,
    split b = .ok (.list, content, rest) ↔
      ∃ next, (newStream b 0).list = (.ok content.length, next) ∧ next.input = content ++ rest
  errors :
    (∃ err, split b = .error err ∧ err.Ordinary) ↔
      (∃ err next, (newStream b 0).bytes = (.error err, next) ∧ err.Ordinary) ∧
        ∃ err next, (newStream b 0).list = (.error err, next) ∧ err.Ordinary

theorem refused_newStream {b : List Byte} {err : Err} {next : Stream}
    (refused : (newStream b 0).Refused err next) : err.Ordinary := by
  rcases refused with ⟨-, atEnd, -⟩ | ordinary
  · exact absurd rfl atEnd.1
  · exact ordinary

theorem split_agrees {b : List Byte} (short : b.length < maxLen) : Agrees b := by
  obtain ⟨sound, -, -⟩ := newStream_ready short
  have strings : ∀ content rest,
      (∃ kind, kind ≠ .list ∧ split b = .ok (kind, content, rest)) ↔
        ∃ next, (newStream b 0).bytes = (.ok content, next) ∧ next.input = rest := by
    intro content rest
    simp only [split_eq_ok_iff short]
    rw [leads_string_iff, newStream_bytes_iff short]
  have lists : ∀ content rest, split b = .ok (.list, content, rest) ↔
      ∃ next, (newStream b 0).list = (.ok content.length, next) ∧
        next.input = content ++ rest := by
    intro content rest
    rw [split_eq_ok_iff short, newStream_list_iff short]
    rfl
  refine ⟨strings, lists, ?_, ?_⟩
  · rintro ⟨err, failed, -⟩
    constructor
    · rcases ran : (newStream b 0).bytes with ⟨streamErr | content, next⟩
      · exact ⟨streamErr, next, rfl, refused_newStream (Stream.bytes_error sound rfl ran)⟩
      · obtain ⟨kind, -, accepted⟩ := (strings content next.input).2 ⟨next, ran, rfl⟩
        cases failed.symm.trans accepted
    · rcases ran : (newStream b 0).list with ⟨streamErr | size, next⟩
      · exact ⟨streamErr, next, rfl, refused_newStream (Stream.list_error sound rfl ran)⟩
      · obtain ⟨content, rest, rfl, unread⟩ := newStream_list_content short ran
        cases failed.symm.trans ((lists content rest).2 ⟨next, ran, unread⟩)
  · rintro ⟨⟨bytesErr, bytesNext, noString, -⟩, listErr, listNext, noList, -⟩
    rcases ran : split b with err | ⟨kind, content, rest⟩
    · exact ⟨err, rfl, split_error short ran⟩
    · by_cases list : kind = .list
      · subst list
        obtain ⟨next, accepted, -⟩ := (lists content rest).1 ran
        cases noList.symm.trans accepted
      · obtain ⟨next, accepted, -⟩ := (strings content rest).1 ⟨kind, list, ran⟩
        cases noString.symm.trans accepted

theorem split_agrees_pair :
    [0xC2#8, 0x81#8, 0x80#8].length < maxLen ∧ Agrees [0xC2, 0x81, 0x80] :=
  ⟨by decide, split_agrees (by decide)⟩

example : split [0xC2, 0x81, 0x80, 0x05] = .ok (.list, [0x81, 0x80], [0x05]) := by decide

end Bclib.Rlp
