import Bclib.Go.Location
import Mathlib.Data.List.TakeWhile

namespace Bclib.Go

open Data

/-! Cutting a path at its last element with `Dir` and `Base`, and joining elements again. -/

theorem clean_congr {first second : GoString} (sameRoot : Rooted first ↔ Rooted second)
    (sameElements : cleanElements first = cleanElements second) : clean first = clean second := by
  rw [clean, clean, sameElements]
  exact if_congr sameRoot rfl rfl

theorem clean_eq_clean_iff {first second : GoString} :
    clean first = clean second ↔
      (Rooted first ↔ Rooted second) ∧ cleanElements first = cleanElements second := by
  refine ⟨fun same => ⟨?_, ?_⟩, fun same => clean_congr same.1 same.2⟩
  · rw [← rooted_clean first, same, rooted_clean]
  · rw [← cleanElements_clean first, same, cleanElements_clean]

theorem clean_eq_dot_iff {path : GoString} :
    clean path = dot ↔ ¬Rooted path ∧ cleanElements path = [] := by
  have dotRoot : ¬Rooted dot := by decide
  have dotElements : cleanElements dot = [] := by decide
  rw [show dot = clean dot by decide, clean_eq_clean_iff, iff_false_right dotRoot, dotElements]

theorem clean_eq_separator_iff {path : GoString} :
    clean path = [separator] ↔ Rooted path ∧ cleanElements path = [] := by
  have root : Rooted [separator] := rfl
  have rootElements : cleanElements [separator] = [] := by decide
  rw [show [separator] = clean [separator] by decide, clean_eq_clean_iff, iff_true_right root,
    rootElements]

theorem cleanElements_replicate {path : GoString} (nonempty : path ≠ []) (count : Nat) :
    cleanElements (path ++ List.replicate count separator) = cleanElements path := by
  induction count with
  | zero => rw [List.replicate_zero, List.append_nil]
  | succ count ih =>
      have some : path ++ List.replicate count separator ≠ [] :=
        List.append_ne_nil_of_left_ne_nil nonempty _
      rw [← ih, List.replicate_succ', ← List.append_assoc, cleanElements_eq, cleanElements_eq,
        decide_eq_decide.2 (rooted_append some _), List.splitOn_append_cons_self,
        List.foldl_append]
      rfl

theorem clean_concat_separator {path : GoString} (nonempty : path ≠ []) :
    clean (path ++ [separator]) = clean path :=
  clean_congr (rooted_append nonempty _) (cleanElements_replicate nonempty 1)

/-- A path from its last element on: `name` is the element, `front` what is before it, and
so many separators follow.  There is no element in a path of separators. -/
structure Ends (path front name : GoString) (count : Nat) : Prop where
  text : path = front ++ name ++ List.replicate count separator
  whole : separator ∉ name
  cut : front = [] ∨ ∃ rest, front = rest ++ [separator]
  alone : name = [] → front = []

theorem exists_ends (path : GoString) : ∃ front name count, Ends path front name count := by
  let back := path.reverse.dropWhile (· == separator)
  have separators : path.reverse.takeWhile (· == separator) =
      List.replicate (path.reverse.takeWhile (· == separator)).length separator :=
    List.eq_replicate_of_mem fun _ member =>
      beq_iff_eq.1 (@List.mem_takeWhile_imp _ (· == separator) _ _ member)
  have heads : ∀ {text : GoString} {holds : Byte → Bool} {char : Byte} {rest : GoString},
      text.dropWhile holds = char :: rest → holds char = false := by
    intro text holds char rest split
    have first := List.head?_dropWhile_not holds text
    rw [split] at first
    simpa using first
  refine ⟨(back.dropWhile (· != separator)).reverse, (back.takeWhile (· != separator)).reverse,
    (path.reverse.takeWhile (· == separator)).length, ?_, ?_, ?_, ?_⟩
  · rw [← List.reverse_append, List.takeWhile_append_dropWhile,
      ← List.reverse_replicate, ← separators, ← List.reverse_append,
      List.takeWhile_append_dropWhile, List.reverse_reverse]
  · intro member
    exact bne_iff_ne.1 (@List.mem_takeWhile_imp _ (· != separator) _ _
      (List.mem_reverse.1 member)) rfl
  · cases rest : back.dropWhile (· != separator) with
    | nil => exact .inl rfl
    | cons char rest' =>
        have same : char = separator := by simpa using heads rest
        exact .inr ⟨rest'.reverse, by rw [same, List.reverse_cons]⟩
  · intro none
    rw [List.reverse_eq_nil_iff] at none ⊢
    cases first : back with
    | nil => rfl
    | cons char rest =>
        have notSeparator : (char == separator) = false :=
          @heads path.reverse (· == separator) char rest first
        rw [first, List.takeWhile_cons_of_pos (by simpa using notSeparator)] at none
        cases none

theorem cleanElements_append {front name : GoString} (whole : separator ∉ name)
    (cut : front = [] ∨ ∃ rest, front = rest ++ [separator]) :
    cleanElements (front ++ name) =
      cleanElement (decide (Rooted (front ++ name))) (cleanElements front) name := by
  rcases cut with rfl | ⟨rest, rfl⟩
  · rw [List.nil_append, cleanElements_eq, List.splitOn_eq_singleton whole]
    rfl
  · have nonempty : rest ++ [separator] ≠ [] :=
      List.append_ne_nil_of_right_ne_nil _ (List.cons_ne_nil _ _)
    rw [cleanElements_eq, cleanElements_eq (rest ++ [separator]),
      decide_eq_decide.2 (rooted_append nonempty name), List.append_assoc,
      List.singleton_append, List.splitOn_append_cons_self, List.splitOn_append_cons_self,
      List.foldl_append, List.foldl_append, List.splitOn_eq_singleton whole]
    rfl

section Ends

variable {path front name : GoString} {count : Nat} (ends : Ends path front name count)

include ends

theorem Ends.base_eq (some : name ≠ []) : base path = name := by
  rw [ends.text]
  exact base_append some ends.whole ends.cut count

theorem Ends.base_none (nonempty : path ≠ []) (none : name = []) :
    base path = [separator] ∧ clean path = [separator] := by
  obtain ⟨rfl, -, -, alone⟩ := ends
  rw [alone none, none, List.append_nil, List.nil_append] at nonempty ⊢
  have some : count ≠ 0 := by
    rintro rfl
    exact nonempty rfl
  obtain ⟨less, rfl⟩ := Nat.exists_eq_succ_of_ne_zero some
  have stripped :
      (List.replicate (less + 1) separator).reverse.dropWhile (· == separator) = [] := by
    rw [List.reverse_replicate, List.dropWhile_eq_nil_iff]
    intro char member
    exact beq_iff_eq.2 (List.eq_of_mem_replicate member)
  have split : List.replicate (less + 1) separator = [separator] ++ List.replicate less separator :=
    rfl
  refine ⟨?_, clean_eq_separator_iff.2 ⟨rfl, ?_⟩⟩
  · rw [base, if_neg nonempty, stripped]
    rfl
  · rw [split, cleanElements_replicate (List.cons_ne_nil _ _)]
    decide

theorem Ends.dir_front (none : count = 0) : dir path = clean front := by
  rw [ends.text, none, List.replicate_zero, List.append_nil, dir, List.reverse_append,
    List.dropWhile_append_of_pos (bne_separator ends.whole)]
  rcases ends.cut with rfl | ⟨rest, rfl⟩
  · rfl
  · rw [List.reverse_append]
    exact congrArg clean (by simp)

theorem Ends.dir_self (some : count ≠ 0) : dir path = clean path := by
  obtain ⟨less, rfl⟩ := Nat.exists_eq_succ_of_ne_zero some
  rw [ends.text, List.replicate_succ', ← List.append_assoc, dir, List.reverse_append]
  exact congrArg clean (by simp)

theorem Ends.trails_iff (nonempty : path ≠ []) :
    path.getLast? = some separator ↔ count ≠ 0 := by
  constructor
  · rintro last rfl
    have some : name ≠ [] := by
      intro none
      apply nonempty
      rw [ends.text, none, ends.alone none]
      rfl
    rw [ends.text, List.replicate_zero, List.append_nil,
      List.getLast?_append_of_ne_nil _ some] at last
    exact ends.whole (List.mem_of_getLast? last)
  · intro some
    obtain ⟨less, rfl⟩ := Nat.exists_eq_succ_of_ne_zero some
    rw [ends.text, List.replicate_succ', ← List.append_assoc, List.getLast?_concat]

theorem Ends.elements (some : name ≠ []) :
    cleanElements path =
      cleanElement (decide (Rooted path)) (cleanElements front) name := by
  have stem : front ++ name ≠ [] := List.append_ne_nil_of_right_ne_nil _ some
  obtain ⟨rfl, whole, cut, -⟩ := ends
  have sameRoot : decide (Rooted (front ++ name ++ List.replicate count separator)) =
      decide (Rooted (front ++ name)) := decide_eq_decide.2 (rooted_append stem _)
  rw [sameRoot, cleanElements_replicate stem, cleanElements_append whole cut]

end Ends

theorem cleanElement_eq_self_iff {rooted : Bool} {kept : List GoString} {name : GoString}
    (whole : separator ∉ name) :
    cleanElement rooted kept name = kept ↔
      name = [] ∨ name = dot ∨ name = dotDot ∧ rooted = true ∧ kept = [] := by
  by_cases skipped : name = [] ∨ name = dot
  · rw [cleanElement.eq_def, if_pos skipped]
    exact ⟨fun _ => skipped.imp_right .inl, fun _ => rfl⟩
  rw [← or_assoc, or_iff_right skipped]
  by_cases parent : name = dotDot
  · rw [parent, cleanElement.eq_def, if_neg (by decide), if_pos rfl]
    cases kept with
    | nil => cases rooted <;> simp
    | cons last before =>
        have popped : before ≠ last :: before := (List.cons_ne_self last before).symm
        simp only [reduceCtorEq, and_false, iff_false]
        split_ifs
        · exact List.cons_ne_self _ _
        · exact popped
  · have named : FileName name :=
      ⟨(not_or.1 skipped).1, whole, (not_or.1 skipped).2, parent⟩
    rw [cleanElement_fileName named]
    exact ⟨fun same => absurd same (List.cons_ne_self _ _), fun both => absurd both.1 parent⟩

theorem join_clean_eq_iff {front name path : GoString} (whole : separator ∉ name) :
    join [clean front, name] = clean path ↔ (Rooted front ↔ Rooted path) ∧
      cleanElement (decide (Rooted front)) (cleanElements front) name = cleanElements path := by
  have elements := cleanElements_join (clean_ne_nil front) name
  rw [join_eq_clean (clean_ne_nil front), cleanElements_clean, List.splitOn_eq_singleton whole,
    List.foldl_cons, List.foldl_nil, decide_eq_decide.2 (rooted_clean front),
    cleanElements_clean] at elements
  rw [join_eq_clean (clean_ne_nil front), clean_eq_clean_iff, rooted_append (clean_ne_nil front),
    rooted_clean, elements]

theorem join_singleton {path : GoString} (nonempty : path ≠ []) : join [path] = clean path := by
  rw [join, List.dropWhile_cons_of_neg (by simpa using nonempty)]
  exact congrArg clean (List.intercalate_singleton ..)

theorem intercalate_concat {elements : List GoString} (nonempty : elements ≠ [])
    (last : GoString) :
    [separator].intercalate (elements ++ [last]) =
      [separator].intercalate elements ++ separator :: last := by
  obtain ⟨before, final, rfl⟩ := (List.eq_nil_or_concat elements).resolve_left nonempty
  rw [List.concat_eq_append, intercalate_last, intercalate_last, directoryText_concat]
  simp

theorem join_concat {elements : List GoString} (nonempty : join elements ≠ [])
    (last : GoString) : join (elements ++ [last]) = join [join elements, last] := by
  cases rest : elements.dropWhile (·.isEmpty) with
  | nil =>
      rw [join, rest] at nonempty
      exact absurd rfl nonempty
  | cons first others =>
      have joined : join elements = clean ([separator].intercalate (first :: others)) := by
        rw [join, rest]
      have more : join (elements ++ [last]) =
          clean ([separator].intercalate (first :: others ++ [last])) := by
        rw [join, List.dropWhile_append, rest]
        rfl
      have some : first ≠ [] := by
        have head := List.head?_dropWhile_not (·.isEmpty) elements
        rw [rest] at head
        simpa using head
      have text : [separator].intercalate (first :: others) ≠ [] := by
        intro empty
        apply some
        cases others with
        | nil => rwa [List.intercalate_singleton] at empty
        | cons second others =>
            rw [List.intercalate_cons_of_ne_nil (List.cons_ne_nil _ _)] at empty
            exact (List.append_eq_nil_iff.1 (List.append_eq_nil_iff.1 empty).1).1
      rw [more, joined, join_eq_clean (clean_ne_nil _),
        intercalate_concat (List.cons_ne_nil _ _)]
      refine clean_congr ?_ ?_
      · rw [rooted_append text, rooted_append (clean_ne_nil _), rooted_clean]
      · rw [cleanElements_eq, cleanElements_eq, List.splitOn_append_cons_self,
          List.splitOn_append_cons_self, List.foldl_append, List.foldl_append,
          decide_eq_decide.2 (rooted_append text _),
          decide_eq_decide.2 (rooted_append (clean_ne_nil _) _), ← cleanElements_eq,
          ← cleanElements_eq, cleanElements_clean, decide_eq_decide.2 (rooted_clean _)]

def cleanText (rooted : Prop) [Decidable rooted] (kept : List GoString) : GoString :=
  if kept = [] then if rooted then [separator] else dot else spell rooted kept

theorem clean_eq_cleanText (path : GoString) :
    clean path = cleanText (Rooted path) (cleanElements path) := by
  rw [cleanText]
  split_ifs with none rooted
  · rw [clean_eq_root none, if_pos rooted]
  · rw [clean_eq_root none, if_neg rooted]
  · exact clean_eq_spell none

section CleanText

variable {rooted : Prop} [Decidable rooted] {kept : List GoString} {element : GoString}

theorem cleanText_congr {other : Prop} [Decidable other] (same : rooted ↔ other)
    (kept : List GoString) : cleanText rooted kept = cleanText other kept := by
  rw [cleanText, cleanText, spell, spell, if_congr same rfl rfl, if_congr same rfl rfl]

theorem cleanText_cons (element : GoString) (kept : List GoString) :
    cleanText rooted (element :: kept) = spell rooted (element :: kept) :=
  if_neg (List.cons_ne_nil _ _)

theorem rooted_cleanText (shaped : Shaped rooted kept) :
    Rooted (cleanText rooted kept) ↔ rooted := by
  rw [cleanText]
  split_ifs with none flag
  · exact ⟨fun _ => flag, fun _ => rfl⟩
  · exact ⟨fun root => absurd root (by decide), fun root => absurd root flag⟩
  · exact rooted_spell shaped none

theorem cleanElements_cleanText (shaped : Shaped rooted kept) :
    cleanElements (cleanText rooted kept) = kept := by
  rw [cleanText]
  split_ifs with none flag
  · rw [none]
    decide
  · rw [none]
    decide
  · exact cleanElements_spell shaped none

theorem clean_cleanText (shaped : Shaped rooted kept) :
    clean (cleanText rooted kept) = cleanText rooted kept := by
  rw [clean_eq_cleanText, cleanElements_cleanText shaped]
  exact cleanText_congr (rooted_cleanText shaped) kept

theorem cleanText_ne_nil (shaped : Shaped rooted kept) : cleanText rooted kept ≠ [] := by
  rw [← clean_cleanText shaped]
  exact clean_ne_nil _

theorem ends_spell (shaped : Shaped rooted (element :: kept)) :
    Ends (spell rooted (element :: kept))
      ((if rooted then [separator] else []) ++ directoryText kept.reverse) element 0 := by
  obtain ⟨some, whole⟩ := shaped.whole element List.mem_cons_self
  refine ⟨?_, whole, ?_, fun none => absurd none some⟩
  · rw [spell, List.reverse_cons, intercalate_last, List.replicate_zero, List.append_nil,
      List.append_assoc]
  · cases kept with
    | nil =>
        split_ifs
        · exact .inr ⟨[], rfl⟩
        · exact .inl rfl
    | cons last before =>
        rw [List.reverse_cons, directoryText_concat, ← List.append_assoc, ← List.append_assoc]
        exact .inr ⟨_, rfl⟩

theorem base_spell (shaped : Shaped rooted (element :: kept)) :
    base (spell rooted (element :: kept)) = element :=
  (ends_spell shaped).base_eq (shaped.whole element List.mem_cons_self).1

theorem dir_spell (shaped : Shaped rooted (element :: kept)) :
    dir (spell rooted (element :: kept)) = cleanText rooted kept := by
  rw [(ends_spell shaped).dir_front rfl]
  have above := shaped.suffix (List.suffix_cons element kept)
  cases kept with
  | nil =>
      rw [cleanText, if_pos rfl]
      split_ifs
      · decide
      · decide
  | cons last before =>
      have front : (if rooted then [separator] else []) ++
          directoryText (last :: before).reverse =
          cleanText rooted (last :: before) ++ [separator] := by
        rw [cleanText_cons, spell, List.reverse_cons, directoryText_concat, intercalate_last]
        simp
      rw [front, clean_concat_separator (cleanText_ne_nil above), clean_cleanText above]

theorem Shaped.cleanElement_eq (shaped : Shaped rooted (element :: kept)) :
    cleanElement (decide rooted) kept element = element :: kept := by
  rcases shaped.head with named | ⟨rfl, ups⟩
  · exact cleanElement_fileName named _ _
  · have notRooted : ¬rooted := by
      intro root
      obtain ⟨names, up, split, named, atRoot⟩ := shaped
      rw [atRoot root, List.replicate_zero, List.append_nil] at split
      exact (named dotDot (split ▸ List.mem_cons_self)).notDotDot rfl
    rw [decide_eq_false notRooted, ups, cleanElement_dotDot_up]
    rfl

theorem join_cleanText (shaped : Shaped rooted (element :: kept)) :
    join [cleanText rooted kept, element] = cleanText rooted (element :: kept) := by
  have above := shaped.suffix (List.suffix_cons element kept)
  have whole := (shaped.whole element List.mem_cons_self).2
  rw [← clean_cleanText shaped, join_eq_clean (cleanText_ne_nil above)]
  have root := rooted_append (cleanText_ne_nil above) (separator :: element)
  refine clean_congr ?_ ?_
  · rw [root, rooted_cleanText above, rooted_cleanText shaped]
  · rw [cleanElements_cleanText shaped, ← shaped.cleanElement_eq, cleanElements_eq,
      decide_eq_decide.2 (root.trans (rooted_cleanText above)), List.splitOn_append_cons_self,
      List.foldl_append, List.splitOn_eq_singleton whole,
      ← decide_eq_decide.2 (rooted_cleanText above), ← cleanElements_eq,
      cleanElements_cleanText above]
    rfl

end CleanText

end Bclib.Go
