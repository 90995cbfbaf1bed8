import Bclib.Fs.Copy

namespace Bclib.Fs

open Data
open Go

/-! The texts that `CopyDir` makes for a file: where they lead. -/

def Plain (text : GoString) : Prop := 92 ∉ text

instance : DecidablePred Plain := fun _ => inferInstanceAs (Decidable (¬_))

theorem slashes_append (first second : GoString) :
    slashes (first ++ second) = slashes first ++ slashes second := List.map_append

theorem plain_slashes (text : GoString) : Plain (slashes text) := by
  intro member
  obtain ⟨char, -, same⟩ := List.mem_map.1 member
  split_ifs at same with back
  · cases same
  · exact back same

theorem Plain.slashes {text : GoString} (plain : Plain text) : slashes text = text := by
  conv_rhs => rw [← List.map_id text]
  refine List.map_congr_left fun char member => if_neg ?_
  rintro rfl
  exact plain member

theorem slashes_slashes (text : GoString) : slashes (slashes text) = slashes text :=
  (plain_slashes text).slashes

theorem plain_append {first second : GoString} :
    Plain (first ++ second) ↔ Plain first ∧ Plain second := by
  rw [Plain, Plain, Plain, List.mem_append, not_or]

theorem plain_directoryText {elements : List GoString}
    (plain : ∀ element ∈ elements, Plain element) : Plain (directoryText elements) := by
  intro member
  obtain ⟨element, inside, member⟩ := List.mem_flatMap.1 member
  exact plain_append.2 ⟨plain element inside, by decide⟩ member

theorem Plain.joinFront {path : GoString} (plain : Plain path) : Plain (joinFront path) := by
  rw [Go.joinFront, plain_append]
  constructor
  · split_ifs
    · decide
    · exact List.not_mem_nil
  · refine plain_directoryText fun element member back => ?_
    rcases mem_cleanElements (List.mem_reverse.1 member) with inside | rfl
    · exact plain (of_mem_splitOn inside 92 back).1
    · revert back
      decide

section Paths

variable (srcPath destPath : GoString) (disk : Disk) (rel : Place)

def sourceOf : Place := locate disk.cwd (slashes (walked srcPath rel))

def destOf : Place :=
  locate disk.cwd (slashes (replaceAll srcPath destPath (slashes (walked srcPath rel))))

variable {srcPath destPath disk rel} (nonempty : srcPath ≠ [])
  (named : ∀ name ∈ rel, FileName name)

include nonempty named

theorem plain_walked (plainSrc : Plain srcPath) (plain : ∀ name ∈ rel, Plain name) :
    Plain (walked srcPath rel) := by
  cases rel with
  | nil => exact plainSrc
  | cons name rest =>
      rw [List.forall_mem_cons] at plain
      rw [walked_eq nonempty (List.cons_ne_nil _ _) named, List.reverse_cons, intercalate_last,
        plain_append, plain_append]
      refine ⟨plainSrc.joinFront, plain_directoryText fun element member => ?_, plain.1⟩
      exact plain.2 element (List.mem_reverse.1 member)

theorem sourceOf_eq_iff (plainSrc : Plain srcPath) :
    sourceOf srcPath disk rel = rel ++ locate disk.cwd srcPath ↔ ∀ name ∈ rel, Plain name := by
  constructor
  · intro same
    by_cases below : rel = []
    · rw [below]
      exact fun _ member => absurd member List.not_mem_nil
    rw [sourceOf, walked_eq nonempty below named, slashes_append, plainSrc.joinFront.slashes]
      at same
    obtain ⟨names, rest, place, short, from'⟩ := locate_joinFront_names nonempty disk.cwd
      (slashes ([separator].intercalate rel.reverse))
    rw [place] at same
    have front : rel <+: names := by
      rcases List.append_eq_append_iff.1 same with ⟨more, rel_eq, rest_eq⟩ | ⟨more, rfl, -⟩
      · have none : more = [] := by
          rw [rest_eq, List.length_append] at short
          exact List.eq_nil_of_length_eq_zero (by omega)
        rw [rel_eq, none, List.append_nil]
      · exact List.prefix_append _ _
    intro name member back
    exact plain_slashes _ (of_mem_splitOn (from' name (front.subset member)) 92 back).1
  · intro plain
    rw [sourceOf, (plain_walked nonempty named plainSrc plain).slashes,
      locate_walked nonempty _ named]

theorem destOf_eq (plainSrc : Plain srcPath) (plainDest : Plain destPath)
    (plain : ∀ name ∈ rel, Plain name) :
    destOf srcPath destPath disk rel =
      locate disk.cwd (replaceAll srcPath destPath (walked srcPath rel)) := by
  have walkedPlain := plain_walked nonempty named plainSrc plain
  have replaced : Plain (replaceAll srcPath destPath (walked srcPath rel)) := fun member =>
    (mem_replaceFrom member).elim plainDest walkedPlain
  rw [destOf, walkedPlain.slashes, replaced.slashes]

end Paths

section Spelling

variable (srcPath destPath : GoString) (rel : Place)

/-- The path of a file from the root of the walk on. -/
def relText : GoString := [separator].intercalate rel.reverse

/-- A path that the paths below it begin with as it is written: it is cleaned, but for a
separator behind it, and is not the root or the working directory. -/
structure Leading : Prop where
  elements : cleanElements srcPath ≠ []
  cleaned : clean srcPath = srcPath ∨ clean srcPath ++ [separator] = srcPath

def following : GoString :=
  if clean srcPath = srcPath then separator :: relText rel else relText rel

/-- The path in which the source's is replaced leads to the place under the destination. -/
def Lands (cwd : Place) : Prop :=
  locate cwd (replaceAll srcPath destPath (walked srcPath rel)) = rel ++ locate cwd destPath

instance (cwd : Place) : Decidable (Lands srcPath destPath rel cwd) :=
  inferInstanceAs (Decidable (_ = _))

/-- The source's path leads the path of a file and is not in it again, and a separator behind
it is behind the destination's, too. -/
structure Spelled : Prop where
  leading : Leading srcPath
  slash : clean srcPath = srcPath ∨ [separator] <:+ destPath
  once : ¬srcPath <:+: following srcPath rel

/-- The source's path is in the path of a file, but does not lead it, or it is in it again and
the destination's has other elements than names.  What is replaced then may lead to the right
place by chance. -/
def Chance : Prop :=
  srcPath <:+: walked srcPath rel ∧
    (Leading srcPath → srcPath <:+: following srcPath rel ∧ ¬NamesOnly destPath)

variable {srcPath destPath rel} {cwd : Place} (nonempty : srcPath ≠ [])
  (below : rel ≠ []) (named : ∀ name ∈ rel, FileName name)

include below named in
theorem splitOn_relText : (relText rel).splitOn separator = rel.reverse := by
  refine List.splitOn_intercalate _ (fun name member => ?_) (by simpa using below)
  exact (named name (List.mem_reverse.1 member)).noSeparator

include below named in
theorem namesOnly_relText : NamesOnly (relText rel) := by
  intro name member
  rw [splitOn_relText below named] at member
  exact named name (List.mem_reverse.1 member)

theorem clean_ne_of_slash {path : GoString} (slash : clean path ++ [separator] = path) :
    clean path ≠ path := by
  intro cleaned
  have length := congrArg List.length slash
  rw [cleaned, List.length_append] at length
  exact absurd length (Nat.succ_ne_self _)

include nonempty below named in
theorem walked_of_leading (leading : Leading srcPath) :
    walked srcPath rel = srcPath ++ following srcPath rel := by
  rw [walked_eq nonempty below named, following]
  obtain ⟨elements, cleaned | slash⟩ := leading
  · rw [if_pos cleaned, joinFront_of_clean cleaned elements, List.append_assoc]
    rfl
  · have front : joinFront srcPath = joinFront (clean srcPath) := by
      rw [joinFront, joinFront, cleanElements_clean]
      exact congrArg (· ++ _) (if_congr (rooted_clean srcPath).symm rfl rfl)
    rw [if_neg (clean_ne_of_slash slash), front, joinFront_of_clean (clean_clean _)
      (by rw [cleanElements_clean]; exact elements), slash]
    rfl

include below named in
theorem locate_append_slash {path : GoString} (ends : [separator] <:+ path) :
    locate cwd (path ++ relText rel) = rel ++ locate cwd path := by
  obtain ⟨dir, rfl⟩ := ends
  have start : ∀ more, Rooted (dir ++ [separator] ++ more) ↔ Rooted (dir ++ [separator]) :=
    rooted_append (List.append_ne_nil_of_right_ne_nil _ (List.cons_ne_nil _ _))
  rw [locate, if_congr (start _) rfl rfl, locate, List.append_assoc, List.singleton_append,
    List.splitOn_append_cons_self, List.splitOn_append_cons_self, List.foldl_append,
    List.foldl_append, splitOn_relText below named, foldl_follow_reverse, placeOf_names named]
  rfl

include below named in
/-- Where a text is put behind a path without a separator, the last element changes. -/
theorem slash_of_locate_append {path : GoString} (given : path ≠ [])
    (lands : locate cwd (path ++ relText rel) = rel ++ locate cwd path) :
    [separator] <:+ path := by
  obtain ⟨front, last, split, text, wholes, whole⟩ := splitOn_last path
  obtain ⟨deeper, name, rfl⟩ : ∃ deeper name, rel = deeper ++ [name] :=
    ⟨_, _, (List.dropLast_append_getLast below).symm⟩
  rw [List.forall_mem_append, List.forall_mem_singleton] at named
  have fields : (path ++ relText (deeper ++ [name])).splitOn separator =
      front ++ (last ++ name) :: deeper.reverse := by
    rw [text, List.append_assoc, splitOn_directoryText wholes, splitOn_lead whole,
      splitOn_relText below (List.forall_mem_append.2 ⟨named.1, by simpa using named.2⟩),
      List.reverse_concat, List.modifyHead_cons]
  rw [locate, locate, fields, split, if_congr (rooted_append given _) rfl rfl, List.foldl_append,
    List.foldl_cons, follow_fileName (named.2.behind whole), foldl_follow_reverse, placeOf_names named.1,
    List.append_assoc, List.singleton_append] at lands
  have same := (List.cons.inj (List.append_cancel_left lands)).1
  rw [List.append_left_eq_self] at same
  rw [same, List.append_nil] at text
  cases front using List.reverseRecOn with
  | nil => exact absurd text given
  | append_singleton front element =>
      rw [text, directoryText_concat]
      exact ⟨directoryText front ++ element, by rw [List.append_assoc]⟩

include nonempty below named in
/-- With only names in the destination's path, only names are in the path that comes out. -/
theorem replaceAll_following (leading : Leading srcPath) (names : NamesOnly destPath)
    (lands : Lands srcPath destPath rel cwd) :
    replaceAll srcPath destPath (following srcPath rel) = separator :: relText rel := by
  have later := namesOnly_relText below named
  have all : NamesOnly (destPath ++ replaceAll srcPath destPath (following srcPath rel)) := by
    refine names.append fun last isName => NamesOnly.replaceAll nonempty names isName.noSeparator ?_
    rw [following]
    split_ifs
    · exact (namesOnly_append_cons isName.noSeparator).2 ⟨isName, later⟩
    · exact later.behind isName.noSeparator
  rw [Lands, walked_of_leading nonempty below named leading, replaceAll_append nonempty,
    all.locate, names.locate, ← List.append_assoc, List.append_cancel_right_eq, List.reverse_eq_iff,
    List.reverse_append, List.reverse_reverse, ← splitOn_relText below named,
    ← List.splitOn_append_cons_self] at lands
  have texts := congrArg ([separator].intercalate ·) lands
  simp only [List.intercalate_splitOn] at texts
  exact List.append_cancel_left texts

include nonempty below named in
theorem lands_of_spelled (given : destPath ≠ []) (spelled : Spelled srcPath destPath rel) :
    Lands srcPath destPath rel cwd := by
  obtain ⟨leading, slash, once⟩ := spelled
  rw [Lands, walked_of_leading nonempty below named leading, replaceAll_append nonempty,
    replaceAll_absent _ once, following]
  split_ifs with cleaned
  · rw [locate, if_congr (rooted_append given _) rfl rfl, List.splitOn_append_cons_self,
      List.foldl_append, splitOn_relText below named, foldl_follow_reverse, placeOf_names named]
    rfl
  · exact locate_append_slash below named (slash.resolve_left cleaned)

include nonempty below named in
theorem not_namesOnly_of_again (outside : ¬locate cwd srcPath <:+ locate cwd destPath)
    (leading : Leading srcPath) (again : srcPath <:+: following srcPath rel)
    (lands : Lands srcPath destPath rel cwd) : ¬NamesOnly destPath := by
  intro names
  have replaced := replaceAll_following nonempty below named leading names lands
  rw [following] at replaced again
  split_ifs at replaced again
  · have same := eq_of_replaceAll_eq_self nonempty replaced again
    exact outside (same ▸ List.suffix_refl _)
  · have all := @NamesOnly.replaceAll [] (relText rel) _ _ nonempty names List.not_mem_nil
      (namesOnly_relText below named)
    rw [List.nil_append, replaced] at all
    exact ((@namesOnly_append_cons [] _ List.not_mem_nil).1 all).1.nonempty rfl

include nonempty below named in
theorem spelled_or_chance (given : destPath ≠ [])
    (outside : ¬locate cwd srcPath <:+ locate cwd destPath)
    (lands : Lands srcPath destPath rel cwd) :
    Spelled srcPath destPath rel ∨ Chance srcPath destPath rel := by
  by_cases found : srcPath <:+: walked srcPath rel
  · by_cases leading : Leading srcPath
    · by_cases again : srcPath <:+: following srcPath rel
      · exact .inr ⟨found, fun _ => ⟨again,
          not_namesOnly_of_again nonempty below named outside leading again lands⟩⟩
      · refine .inl ⟨leading, ?_, again⟩
        by_cases cleaned : clean srcPath = srcPath
        · exact .inl cleaned
        · rw [Lands, walked_of_leading nonempty below named leading, replaceAll_append nonempty,
            replaceAll_absent _ again, following, if_neg cleaned] at lands
          exact .inr (slash_of_locate_append below named given lands)
    · exact .inr ⟨found, fun leads => absurd leads leading⟩
  · rw [Lands, replaceAll_absent _ found, locate_walked nonempty _ named] at lands
    rw [List.append_cancel_left lands] at outside
    exact absurd (List.suffix_refl _) outside

end Spelling

end Bclib.Fs
