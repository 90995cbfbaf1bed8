import Bclib.Data.BigEndian

namespace Bclib.Go

open Data

/-! Strings and slices as the byte sequences they are, and how calls end. -/

abbrev GoString := List Byte

/-- The bytes of a literal in ASCII. -/
def str (literal : String) : GoString :=
  literal.toList.map fun char => BitVec.ofNat 8 char.toNat

/-- A call returns a value, returns an error, or panics. -/
inductive Outcome (ε α : Type) where
  | ok (value : α)
  | error (err : ε)
  | panic
  deriving DecidableEq, Repr

/-- `s[low:high]` of a slice without spare capacity; none if the bounds are out of range. -/
def subslice (entries : List α) (low high : Int) : Option (List α) :=
  if 0 ≤ low ∧ low ≤ high ∧ high ≤ entries.length then
    some ((entries.take high.toNat).drop low.toNat)
  else none

/-- `copy` into so many zeroed bytes. -/
def fill (size : Nat) (data : List Byte) : List Byte :=
  data.take size ++ List.replicate (size - data.length) 0

theorem fill_length (size : Nat) (data : List Byte) : (fill size data).length = size := by
  rw [fill, List.length_append, List.length_take, List.length_replicate]
  omega

theorem fill_of_length {size : Nat} {data : List Byte} (same : data.length = size) :
    fill size data = data := by
  rw [fill, same, Nat.sub_self, List.take_of_length_le (Nat.le_of_eq same)]
  exact List.append_nil data

/-- What a write at an offset leaves of a file. -/
def overwrite (content : List Byte) (offset : Nat) (data : List Byte) : List Byte :=
  fill offset content ++ data ++ content.drop (offset + data.length)

theorem overwrite_end (content data : List Byte) :
    overwrite content content.length data = content ++ data := by
  rw [overwrite, fill_of_length rfl, List.drop_of_length_le (Nat.le_add_right _ _),
    List.append_nil]

theorem overwrite_start (content data : List Byte) :
    overwrite content 0 data = data ++ content.drop data.length := by
  simp [overwrite, fill]

/-- `strings.Index` of a single byte. -/
def indexByte (string : GoString) (char : Byte) : Int :=
  match string.idxOf? char with
  | some index => index
  | none => -1

/-- `strings.Replace` of the first occurrence by nothing. -/
def removeFirst (old : GoString) : GoString → GoString
  | [] => []
  | char :: rest =>
      if old.isPrefixOf (char :: rest) then (char :: rest).drop old.length
      else char :: removeFirst old rest

/-- The rest of a text behind some bytes that are skipped, with every occurrence replaced. -/
def replaceFrom (old new : GoString) : Nat → GoString → GoString
  | _, [] => []
  | skip + 1, _ :: rest => replaceFrom old new skip rest
  | 0, char :: rest =>
      if old.isPrefixOf (char :: rest) then new ++ replaceFrom old new (old.length - 1) rest
      else char :: replaceFrom old new 0 rest

/-- `strings.Replace` of every occurrence of a text that is not empty. -/
def replaceAll (old new string : GoString) : GoString := replaceFrom old new 0 string

theorem mem_replaceFrom {old new : GoString} {skip : Nat} {string : GoString} {char : Byte}
    (member : char ∈ replaceFrom old new skip string) : char ∈ new ∨ char ∈ string := by
  induction string generalizing skip with
  | nil => cases member
  | cons first rest ih =>
      cases skip with
      | succ skip => exact (ih member).imp id (.tail _)
      | zero =>
          rw [replaceFrom] at member
          split_ifs at member
          · rcases List.mem_append.1 member with inNew | later
            · exact .inl inNew
            · exact (ih later).imp id (.tail _)
          · rcases List.mem_cons.1 member with rfl | later
            · exact .inr List.mem_cons_self
            · exact (ih later).imp id (.tail _)

theorem replaceFrom_skip (old new skipped rest : GoString) :
    replaceFrom old new skipped.length (skipped ++ rest) = replaceFrom old new 0 rest := by
  induction skipped with
  | nil => rfl
  | cons char others ih => exact ih

theorem replaceAll_append {old : GoString} (nonempty : old ≠ []) (new rest : GoString) :
    replaceAll old new (old ++ rest) = new ++ replaceAll old new rest := by
  cases old with
  | nil => exact absurd rfl nonempty
  | cons char others =>
      have front : (char :: others).isPrefixOf (char :: (others ++ rest)) = true :=
        List.isPrefixOf_iff_prefix.2 (List.prefix_append _ rest)
      rw [replaceAll, List.cons_append, replaceFrom, if_pos front]
      exact congrArg (new ++ ·) (replaceFrom_skip _ new others rest)

theorem replaceAll_absent {old string : GoString} (new : GoString) (absent : ¬old <:+: string) :
    replaceAll old new string = string := by
  rw [replaceAll]
  induction string with
  | nil => rfl
  | cons char rest ih =>
      have notHere : ¬old.isPrefixOf (char :: rest) = true := fun here =>
        absent (List.isPrefixOf_iff_prefix.1 here).isInfix
      rw [replaceFrom, if_neg notHere, ih fun later => absent (List.infix_cons later)]

theorem replaceAll_cons {old : GoString} {char : Byte} {rest : GoString} (new : GoString)
    (missed : ¬old <+: char :: rest) :
    replaceAll old new (char :: rest) = char :: replaceAll old new rest := by
  rw [replaceAll, replaceFrom, if_neg (mt List.isPrefixOf_iff_prefix.1 missed)]
  rfl

/-- A text is gone through as `strings.Replace` does it. -/
theorem replacing {old : GoString} (nonempty : old ≠ []) {motive : GoString → Prop}
    (nil : motive []) (found : ∀ rest, motive rest → motive (old ++ rest))
    (missed : ∀ char rest, ¬old <+: char :: rest → motive rest → motive (char :: rest))
    (string : GoString) : motive string := by
  induction length : string.length using Nat.strong_induction_on generalizing string with
  | _ size ih =>
      have shorter : ∀ rest : GoString, rest.length < string.length → motive rest :=
        fun rest less => ih rest.length (length ▸ less) rest rfl
      cases string with
      | nil => exact nil
      | cons char rest =>
          by_cases front : old <+: char :: rest
          · obtain ⟨later, split⟩ := front
            rw [← split]
            refine found later (shorter later ?_)
            rw [← split, List.length_append]
            have some := List.length_pos_iff.2 nonempty
            omega
          · exact missed char rest front (shorter rest (Nat.lt_succ_self _))

theorem length_replaceAll {old : GoString} (nonempty : old ≠ []) (new string : GoString) :
    ∃ count, (replaceAll old new string).length + count * old.length =
      string.length + count * new.length := by
  induction string using replacing nonempty with
  | nil => exact ⟨0, by simp [replaceAll, replaceFrom]⟩
  | found rest ih =>
      obtain ⟨count, total⟩ := ih
      refine ⟨count + 1, ?_⟩
      rw [replaceAll_append nonempty, List.length_append, List.length_append, Nat.succ_mul,
        Nat.succ_mul]
      omega
  | missed char rest misses ih =>
      obtain ⟨count, total⟩ := ih
      refine ⟨count, ?_⟩
      rw [replaceAll_cons new misses, List.length_cons, List.length_cons]
      omega

theorem eq_of_replaceAll_eq_self {old : GoString} (nonempty : old ≠ []) {new string : GoString}
    (same : replaceAll old new string = string) (inside : old <:+: string) : new = old := by
  induction string using replacing nonempty with
  | nil => exact absurd (List.infix_nil.1 inside) nonempty
  | found rest ih =>
      obtain ⟨count, total⟩ := length_replaceAll nonempty new rest
      rw [replaceAll_append nonempty] at same
      have lengths := congrArg List.length same
      rw [List.length_append, List.length_append] at lengths
      have equal : (count + 1) * new.length = (count + 1) * old.length := by
        rw [Nat.succ_mul, Nat.succ_mul]
        omega
      exact (List.append_inj same (Nat.eq_of_mul_eq_mul_left (Nat.succ_pos count) equal)).1
  | missed char rest misses ih =>
      rw [replaceAll_cons new misses, List.cons.injEq] at same
      exact ih same.2 ((List.infix_cons_iff.1 inside).resolve_left misses)

theorem removeFirst_append (old rest : GoString) : removeFirst old (old ++ rest) = rest := by
  cases whole : old ++ rest with
  | nil =>
      rw [(List.append_eq_nil_iff.1 whole).2]
      rfl
  | cons char others =>
      have front : old.isPrefixOf (char :: others) = true := by
        rw [← whole, List.isPrefixOf_iff_prefix]
        exact List.prefix_append old rest
      rw [removeFirst, if_pos front, ← whole, List.drop_left]

/-! `strings.Split` at a single byte is `List.splitOn`. -/

theorem of_mem_splitOn {separator : Byte} {string : GoString} :
    ∀ {field : GoString}, field ∈ string.splitOn separator →
      ∀ char ∈ field, char ∈ string ∧ char ≠ separator := by
  induction string with
  | nil =>
      intro field member
      rw [List.splitOn_nil, List.mem_singleton] at member
      simp [member]
  | cons first rest ih =>
      intro field member
      rw [List.splitOn_cons_eq_if_modifyHead] at member
      have later : ∀ field ∈ rest.splitOn separator, ∀ char ∈ field,
          char ∈ first :: rest ∧ char ≠ separator := fun field member char inside =>
        ⟨.tail _ (ih member char inside).1, (ih member char inside).2⟩
      cases fields : rest.splitOn separator with
      | nil => exact absurd fields (List.splitOn_ne_nil _ _)
      | cons head others =>
          rw [fields] at later member
          split_ifs at member with here
          · rcases List.mem_cons.1 member with rfl | member
            · simp
            · exact later field member
          · rw [List.modifyHead_cons, List.mem_cons] at member
            rcases member with rfl | member
            · rw [List.forall_mem_cons]
              exact ⟨⟨List.mem_cons_self, fun same => here (beq_iff_eq.2 same)⟩,
                later head List.mem_cons_self⟩
            · exact later field (.tail _ member)

theorem not_mem_of_mem_splitOn {separator : Byte} {string field : GoString}
    (member : field ∈ string.splitOn separator) : separator ∉ field :=
  fun inside => (of_mem_splitOn member separator inside).2 rfl

theorem length_splitOn_le (separator : Byte) (string : GoString) :
    (string.splitOn separator).length ≤ string.length + 1 := by
  induction string with
  | nil => exact Nat.le_refl 1
  | cons char rest ih =>
      rw [List.splitOn_cons_eq_if_modifyHead]
      split_ifs
      · exact Nat.succ_le_succ ih
      · rw [List.length_modifyHead]
        exact Nat.le_succ_of_le ih

theorem splitOn_eq_pair_iff {separator : Byte} {string left right : GoString} :
    string.splitOn separator = [left, right] ↔
      string = left ++ separator :: right ∧ separator ∉ left ∧ separator ∉ right := by
  constructor
  · intro fields
    have joined : [separator].intercalate (string.splitOn separator) = string :=
      List.intercalate_splitOn separator
    rw [fields] at joined
    refine ⟨joined.symm.trans (by simp), ?_, ?_⟩
    · exact @not_mem_of_mem_splitOn separator string left (by simp [fields])
    · exact @not_mem_of_mem_splitOn separator string right (by simp [fields])
  · rintro ⟨rfl, notLeft, notRight⟩
    rw [List.splitOn_append_cons_self, List.splitOn_eq_singleton notLeft,
      List.splitOn_eq_singleton notRight]
    rfl

/-- The characters with the property White Space, encoded. -/
def spaces : List GoString :=
  [[0x09], [0x0a], [0x0b], [0x0c], [0x0d], [0x20], [0xc2, 0x85], [0xc2, 0xa0],
   [0xe1, 0x9a, 0x80], [0xe2, 0x80, 0x80], [0xe2, 0x80, 0x81], [0xe2, 0x80, 0x82],
   [0xe2, 0x80, 0x83], [0xe2, 0x80, 0x84], [0xe2, 0x80, 0x85], [0xe2, 0x80, 0x86],
   [0xe2, 0x80, 0x87], [0xe2, 0x80, 0x88], [0xe2, 0x80, 0x89], [0xe2, 0x80, 0x8a],
   [0xe2, 0x80, 0xa8], [0xe2, 0x80, 0xa9], [0xe2, 0x80, 0xaf], [0xe2, 0x81, 0x9f],
   [0xe3, 0x80, 0x80]]

def dropFronts (fronts : List GoString) : Nat → GoString → GoString
  | 0, string => string
  | fuel + 1, string =>
      match fronts.find? (·.isPrefixOf string) with
      | none => string
      | some front => dropFronts fronts fuel (string.drop front.length)

def trimSpace (string : GoString) : GoString :=
  let started := dropFronts spaces string.length string
  (dropFronts (spaces.map List.reverse) started.length started.reverse).reverse

def Visible (char : Byte) : Prop := ∀ space ∈ spaces, char ∉ space

instance : DecidablePred Visible :=
  fun char => inferInstanceAs (Decidable (∀ space ∈ spaces, char ∉ space))

theorem dropFronts_eq_self {fronts : List GoString} {string : GoString} (fuel : Nat)
    (none : ∀ front ∈ fronts, ¬front.isPrefixOf string = true) :
    dropFronts fronts fuel string = string := by
  cases fuel with
  | zero => rfl
  | succ fuel =>
      have found : fronts.find? (·.isPrefixOf string) = Option.none :=
        List.find?_eq_none.2 none
      rw [dropFronts, found]

theorem mem_dropFronts {fronts : List GoString} {char : Byte}
    (outside : ∀ front ∈ fronts, char ∉ front) (fuel : Nat) {string : GoString}
    (member : char ∈ string) : char ∈ dropFronts fronts fuel string := by
  induction fuel generalizing string with
  | zero => exact member
  | succ fuel ih =>
      rw [dropFronts]
      split
      · exact member
      · rename_i front found
        have isFront := @List.find?_some GoString (·.isPrefixOf string) _ _ found
        obtain ⟨rest, rfl⟩ := List.isPrefixOf_iff_prefix.1 isFront
        rw [List.drop_left]
        apply ih
        rcases List.mem_append.1 member with inFront | inRest
        · exact absurd inFront (outside front (List.mem_of_find?_eq_some found))
        · exact inRest

theorem mem_trimSpace {char : Byte} (visible : Visible char) {string : GoString}
    (member : char ∈ string) : char ∈ trimSpace string := by
  rw [trimSpace, List.mem_reverse]
  apply mem_dropFronts
  · intro front inside
    obtain ⟨space, isSpace, rfl⟩ := List.mem_map.1 inside
    rw [List.mem_reverse]
    exact visible space isSpace
  · rw [List.mem_reverse]
    exact mem_dropFronts visible _ member

theorem isPrefixOf_visible {front string : GoString} (nonempty : front ≠ [])
    (outside : ∀ char ∈ string.head?, char ∉ front) : ¬front.isPrefixOf string = true := by
  intro isFront
  obtain ⟨rest, rfl⟩ := List.isPrefixOf_iff_prefix.1 isFront
  cases front with
  | nil => exact nonempty rfl
  | cons first others => exact outside first rfl List.mem_cons_self

theorem trimSpace_eq_self {string : GoString} (first : ∀ char ∈ string.head?, Visible char)
    (last : ∀ char ∈ string.getLast?, Visible char) : trimSpace string = string := by
  have someFront : ∀ space ∈ spaces, space ≠ [] := by decide
  have front : dropFronts spaces string.length string = string :=
    dropFronts_eq_self _ fun space isSpace =>
      isPrefixOf_visible (someFront space isSpace) fun char isFirst =>
        first char isFirst space isSpace
  have back : dropFronts (spaces.map List.reverse) string.length string.reverse =
      string.reverse := by
    refine dropFronts_eq_self _ fun turned inside => ?_
    obtain ⟨space, isSpace, rfl⟩ := List.mem_map.1 inside
    refine isPrefixOf_visible (fun empty => someFront space isSpace (List.reverse_eq_nil_iff.1 empty))
      fun char isLast => ?_
    rw [List.head?_reverse] at isLast
    rw [List.mem_reverse]
    exact last char isLast space isSpace
  simp only [trimSpace, front, back, List.reverse_reverse]

end Bclib.Go
