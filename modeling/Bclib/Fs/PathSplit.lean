import Bclib.Go.Dir

namespace Bclib.Fs

open Data
open Go

/-! `PathSplit`, and what its segments are joined to. -/

/-- `PathSplit`, with a bound for the depth of the recursion. -/
def pathSplit : Nat → GoString → Option (List GoString)
  | 0, _ => none
  | levels + 1, path =>
      let parentDir := dir path
      if parentDir = dot ∨ parentDir = path then some [path]
      else do
        let baseDir := base path
        let segs ← pathSplit levels parentDir
        return segs ++ [baseDir]

theorem pathSplit_mono {levels more : Nat} {path : GoString} {segs : List GoString}
    (split : pathSplit levels path = some segs) (enough : levels ≤ more) :
    pathSplit more path = some segs := by
  induction levels generalizing path segs more with
  | zero => cases split
  | succ levels ih =>
      obtain ⟨more, rfl⟩ := Nat.exists_eq_add_of_le' (Nat.one_le_of_lt enough)
      rw [pathSplit] at split ⊢
      split_ifs at split ⊢ with direct
      · exact split
      · cases above : pathSplit levels (dir path) with
        | none =>
            rw [above] at split
            cases split
        | some front =>
            rw [above] at split
            rw [ih above (Nat.le_of_succ_le_succ enough)]
            exact split

section Segments

variable {rooted : Prop} [Decidable rooted] {kept : List GoString}

def segments (rooted : Prop) [Decidable rooted] (kept : List GoString) : List GoString :=
  (if rooted then [[separator]] else []) ++ kept.reverse

theorem segments_cons (element : GoString) (kept : List GoString) :
    segments rooted (element :: kept) = segments rooted kept ++ [element] := by
  rw [segments, segments, List.reverse_cons, List.append_assoc]

theorem cleanText_single (notRooted : ¬rooted) (element : GoString) :
    cleanText rooted [element] = element := by
  rw [cleanText_cons, spell, if_neg notRooted, List.nil_append, List.reverse_singleton,
    List.intercalate_singleton]

theorem segments_single (notRooted : ¬rooted) (element : GoString) :
    segments rooted [element] = [element] := by
  rw [segments, if_neg notRooted]
  rfl

theorem cleanText_eq_dot_iff (shaped : Shaped rooted kept) :
    cleanText rooted kept = dot ↔ ¬(rooted ∨ kept ≠ []) := by
  rw [← clean_cleanText shaped, clean_eq_dot_iff, rooted_cleanText shaped,
    cleanElements_cleanText shaped, not_or, not_not]

theorem pathSplit_cleanText (shaped : Shaped rooted kept) (named : rooted ∨ kept ≠ [])
    {levels : Nat} (enough : kept.length < levels) :
    pathSplit levels (cleanText rooted kept) = some (segments rooted kept) := by
  induction kept generalizing levels with
  | nil =>
      have root := named.resolve_right (not_not.2 rfl)
      obtain ⟨levels, rfl⟩ := Nat.exists_eq_add_of_lt enough
      rw [cleanText, if_pos rfl, if_pos root, segments, if_pos root, pathSplit,
        if_pos (.inr (by decide))]
      rfl
  | cons element kept ih =>
      obtain ⟨levels, rfl⟩ := Nat.exists_eq_add_of_le' (Nat.one_le_of_lt enough)
      have above := shaped.suffix (List.suffix_cons element kept)
      have parent : dir (cleanText rooted (element :: kept)) = cleanText rooted kept := by
        rw [cleanText_cons, dir_spell shaped]
      have last : base (cleanText rooted (element :: kept)) = element := by
        rw [cleanText_cons, base_spell shaped]
      have other : cleanText rooted kept ≠ cleanText rooted (element :: kept) := by
        intro same
        have elements := congrArg cleanElements same
        rw [cleanElements_cleanText above, cleanElements_cleanText shaped] at elements
        exact List.cons_ne_self _ _ elements.symm
      have isDot := cleanText_eq_dot_iff above
      rw [pathSplit, parent, last]
      by_cases single : rooted ∨ kept ≠ []
      · have notDot := mt isDot.1 (not_not.2 single)
        rw [if_neg (not_or.2 ⟨notDot, other⟩), ih above single (Nat.lt_of_succ_lt_succ enough),
          segments_cons]
        rfl
      · obtain ⟨notRooted, none⟩ := not_or.1 single
        rw [if_pos (.inl (isDot.2 single)), not_not.1 none, cleanText_single notRooted,
          segments_single notRooted]

theorem join_segments (shaped : Shaped rooted kept) (named : rooted ∨ kept ≠ []) :
    join (segments rooted kept) = cleanText rooted kept := by
  induction kept with
  | nil =>
      have root := named.resolve_right (not_not.2 rfl)
      rw [cleanText, if_pos rfl, if_pos root, segments, if_pos root]
      decide
  | cons element kept ih =>
      have above := shaped.suffix (List.suffix_cons element kept)
      by_cases single : rooted ∨ kept ≠ []
      · have front := ih above single
        have some : join (segments rooted kept) ≠ [] := by
          rw [front]
          exact cleanText_ne_nil above
        rw [segments_cons, join_concat some, front, join_cleanText shaped]
      · obtain ⟨notRooted, none⟩ := not_or.1 single
        have text := cleanText_single notRooted element
        rw [not_not.1 none] at shaped ⊢
        have cleaned := clean_cleanText shaped
        rw [text] at cleaned
        rw [segments_single notRooted, join_singleton (shaped.whole element List.mem_cons_self).1,
          cleaned, text]

end Segments

def parts (path : GoString) : List GoString :=
  if dir path = dot ∨ dir path = path then [path]
  else segments (Rooted (dir path)) (cleanElements (dir path)) ++ [base path]

theorem dir_eq_cleanText (path : GoString) :
    dir path = cleanText (Rooted (dir path)) (cleanElements (dir path)) := by
  rw [← clean_eq_cleanText, dir, clean_clean]

theorem dir_named {path : GoString} (notDot : dir path ≠ dot) :
    Rooted (dir path) ∨ cleanElements (dir path) ≠ [] := by
  rw [dir_eq_cleanText, Ne, cleanText_eq_dot_iff (shaped_cleanElements _), not_not] at notDot
  exact notDot

theorem pathSplit_eq_parts (path : GoString) :
    ∃ levels, ∀ more, levels ≤ more → pathSplit more path = some (parts path) := by
  refine ⟨(cleanElements (dir path)).length + 2, fun more enough => ?_⟩
  obtain ⟨more, rfl⟩ := Nat.exists_eq_add_of_le' (Nat.one_le_of_lt enough)
  rw [pathSplit, parts]
  split_ifs with direct
  · rfl
  · have above := pathSplit_cleanText (shaped_cleanElements (dir path))
      (dir_named (not_or.1 direct).1) (Nat.le_of_succ_le_succ enough)
    rw [← dir_eq_cleanText] at above
    rw [above]
    rfl

/-- A path whose segments are joined to it again: there is no separator at its end, or what
stands before it is `.` or nothing. -/
def SplitFits (path : GoString) : Prop :=
  path.getLast? ≠ some separator ∨ base path = dot ∨ clean path = dot ∨ clean path = [separator]

instance : DecidablePred SplitFits := fun _ => inferInstanceAs (Decidable (_ ∨ _ ∨ _ ∨ _))

theorem splitFits_of_direct {path : GoString} (nonempty : path ≠ [])
    (direct : dir path = dot ∨ dir path = path) : SplitFits path := by
  obtain ⟨front, name, count, ends⟩ := exists_ends path
  by_cases trails : count = 0
  · exact .inl fun last => (ends.trails_iff nonempty).1 last trails
  rw [ends.dir_self trails] at direct
  rcases direct with isDot | cleaned
  · exact .inr (.inr (.inl isDot))
  · -- a cleaned path that ends in a separator is the root
    cases elements : cleanElements path with
    | nil =>
        by_cases rooted : Rooted path
        · exact .inr (.inr (.inr (clean_eq_separator_iff.2 ⟨rooted, elements⟩)))
        · exact .inr (.inr (.inl (clean_eq_dot_iff.2 ⟨rooted, elements⟩)))
    | cons element kept =>
        have shaped := shaped_cleanElements path
        rw [elements] at shaped
        rw [clean_eq_cleanText, elements, cleanText_cons] at cleaned
        have whole := ends_spell shaped
        rw [cleaned] at whole
        exact .inl fun last => (whole.trails_iff nonempty).1 last rfl

theorem join_dir_base_iff {path : GoString} (nonempty : path ≠ []) (notDot : dir path ≠ dot) :
    join [dir path, base path] = clean path ↔ SplitFits path := by
  obtain ⟨front, name, count, ends⟩ := exists_ends path
  by_cases none : name = []
  · obtain ⟨isRoot, cleaned⟩ := ends.base_none nonempty none
    have trails : count ≠ 0 := by
      rintro rfl
      apply nonempty
      rw [ends.text, ends.alone none, none]
      rfl
    rw [ends.dir_self trails, isRoot, cleaned]
    exact ⟨fun _ => .inr (.inr (.inr cleaned)), fun _ => by decide⟩
  have elements := ends.elements none
  by_cases trails : count = 0
  · have fits : SplitFits path := .inl fun last => (ends.trails_iff nonempty).1 last trails
    rw [ends.dir_front trails] at notDot ⊢
    have some : front ≠ [] := by
      rintro rfl
      exact notDot (by decide)
    have sameRoot : Rooted front ↔ Rooted path := by
      rw [ends.text, List.append_assoc, rooted_append some]
    rw [ends.base_eq none, join_clean_eq_iff ends.whole, elements]
    refine ⟨fun _ => fits, fun _ => ⟨sameRoot, ?_⟩⟩
    rw [decide_eq_decide.2 sameRoot]
  · rw [ends.dir_self trails] at notDot ⊢
    have last := (ends.trails_iff nonempty).2 trails
    rw [ends.base_eq none, join_clean_eq_iff ends.whole, cleanElement_eq_self_iff ends.whole,
      or_iff_right none, decide_eq_true_iff, SplitFits, or_iff_right (not_not.2 last),
      ends.base_eq none, or_iff_right notDot, clean_eq_separator_iff]
    refine ⟨fun same => same.2.imp_right And.right, fun fits => ⟨Iff.rfl, ?_⟩⟩
    refine or_iff_not_imp_left.2 fun notSkipped => ⟨?_, fits.resolve_left notSkipped⟩
    -- any other name would be left
    by_contra notUp
    rw [cleanElement_fileName ⟨none, ends.whole, notSkipped, notUp⟩,
      (fits.resolve_left notSkipped).2] at elements
    cases elements

theorem join_parts_iff {path : GoString} (nonempty : path ≠ []) :
    join (parts path) = clean path ↔ SplitFits path := by
  rw [parts]
  split_ifs with direct
  · rw [join_singleton nonempty]
    exact ⟨fun _ => splitFits_of_direct nonempty direct, fun _ => rfl⟩
  · obtain ⟨notDot, -⟩ := not_or.1 direct
    have front : join (segments (Rooted (dir path)) (cleanElements (dir path))) = dir path := by
      rw [join_segments (shaped_cleanElements _) (dir_named notDot), ← dir_eq_cleanText]
    have some : join (segments (Rooted (dir path)) (cleanElements (dir path))) ≠ [] := by
      rw [front]
      exact clean_ne_nil _
    rw [join_concat some, front, join_dir_base_iff nonempty notDot]

end Bclib.Fs
