import Bclib.Go.Filepath

namespace Bclib.Go

open Data

/-! Where a path leads, as far as its text says.  A place in a tree of directories is the list
of the names on the way to it, the last one first. -/

abbrev Place := List GoString

def Rooted (path : GoString) : Prop := path.head? = some separator

instance : DecidablePred Rooted := fun _ => inferInstanceAs (Decidable (_ = _))

def follow (place : Place) (element : GoString) : Place :=
  if element = [] ∨ element = dot then place
  else if element = dotDot then place.tail
  else element :: place

def locate (cwd : Place) (path : GoString) : Place :=
  (path.splitOn separator).foldl follow (if Rooted path then [] else cwd)

theorem follow_fileName {name : GoString} (named : FileName name) (place : Place) :
    follow place name = name :: place := by
  rw [follow, if_neg (not_or.2 ⟨named.nonempty, named.notDot⟩), if_neg named.notDotDot]

theorem follow_dotDot (place : Place) : follow place dotDot = place.tail := by
  rw [follow, if_neg (by decide), if_pos rfl]

structure Leads (rooted : Bool) (start : Place) (kept : List GoString) (place : Place)
    (names : Place) (up : Nat) : Prop where
  kept_eq : kept = names ++ List.replicate up dotDot
  place_eq : place = names ++ start.drop up
  named : ∀ name ∈ names, FileName name
  atRoot : rooted = true → up = 0 ∧ start = []

theorem Leads.element {rooted : Bool} {start place names : Place} {kept : List GoString} {up : Nat}
    (leads : Leads rooted start kept place names up) {element : GoString}
    (whole : separator ∉ element) :
    ∃ names up, Leads rooted start (cleanElement rooted kept element) (follow place element)
      names up := by
  obtain ⟨rfl, rfl, named, atRoot⟩ := leads
  by_cases skipped : element = [] ∨ element = dot
  · refine ⟨names, up, ?_, ?_, named, atRoot⟩
    · rw [cleanElement.eq_def, if_pos skipped]
    · rw [follow, if_pos skipped]
  by_cases parent : element = dotDot
  · rw [parent, follow_dotDot, cleanElement.eq_def, if_neg (by decide), if_pos rfl]
    cases names with
    | cons name names =>
        have notUp := (named name List.mem_cons_self).notDotDot
        refine ⟨names, up, ?_, rfl, fun other member => named other (.tail _ member), atRoot⟩
        exact if_neg notUp
    | nil =>
        cases up with
        | zero =>
            cases rooted with
            | false => exact ⟨[], 1, rfl, List.drop_one.symm, named, by rintro ⟨⟩⟩
            | true =>
                obtain ⟨-, rfl⟩ := atRoot rfl
                exact ⟨[], 0, rfl, rfl, named, atRoot⟩
        | succ up =>
            refine ⟨[], up + 2, ?_, ?_, named, fun root => ?_⟩
            · exact if_pos rfl
            · exact List.tail_drop
            · exact absurd (atRoot root).1 (Nat.succ_ne_zero up)
  · rw [not_or] at skipped
    have proper : FileName element := ⟨skipped.1, whole, skipped.2, parent⟩
    rw [cleanElement_fileName proper, follow_fileName proper]
    exact ⟨element :: names, up, rfl, rfl, List.forall_mem_cons.2 ⟨proper, named⟩, atRoot⟩

theorem Leads.elements {rooted : Bool} {start place names : Place} {kept : List GoString}
    {up : Nat} (leads : Leads rooted start kept place names up) {elements : List GoString}
    (whole : ∀ element ∈ elements, separator ∉ element) :
    ∃ names up, Leads rooted start (elements.foldl (cleanElement rooted) kept)
      (elements.foldl follow place) names up := by
  induction elements generalizing kept place names up with
  | nil => exact ⟨names, up, leads⟩
  | cons element rest ih =>
      rw [List.forall_mem_cons] at whole
      obtain ⟨_, _, next⟩ := leads.element whole.1
      exact ih next whole.2

theorem cleanElements_leads (cwd : Place) (path : GoString) :
    ∃ names up, Leads (decide (Rooted path)) (if Rooted path then [] else cwd)
      (cleanElements path) (locate cwd path) names up := by
  have flag : (path.head? == some separator) = decide (Rooted path) := by
    by_cases rooted : Rooted path
    · rw [decide_eq_true rooted]
      exact beq_iff_eq.2 rooted
    · rw [decide_eq_false rooted]
      exact beq_eq_false_iff_ne.2 rooted
  have none : Leads (decide (Rooted path)) (if Rooted path then [] else cwd) []
      (if Rooted path then [] else cwd) [] 0 :=
    ⟨rfl, rfl, by simp, fun root => ⟨rfl, if_pos (of_decide_eq_true root)⟩⟩
  rw [cleanElements, flag, locate]
  exact none.elements fun element member => not_mem_of_mem_splitOn member

theorem cleanElements_eq (path : GoString) :
    cleanElements path =
      (path.splitOn separator).foldl (cleanElement (decide (Rooted path))) [] := by
  rw [cleanElements]
  by_cases rooted : Rooted path
  · rw [decide_eq_true rooted, show (path.head? == some separator) = true from
      beq_iff_eq.2 rooted]
  · rw [decide_eq_false rooted, show (path.head? == some separator) = false from
      beq_eq_false_iff_ne.2 rooted]

def Shaped (rooted : Prop) (kept : List GoString) : Prop :=
  ∃ names up, kept = names ++ List.replicate up dotDot ∧ (∀ name ∈ names, FileName name) ∧
    (rooted → up = 0)

theorem shaped_cleanElements (path : GoString) : Shaped (Rooted path) (cleanElements path) := by
  obtain ⟨names, up, leads⟩ := cleanElements_leads [] path
  exact ⟨names, up, leads.kept_eq, leads.named, fun rooted =>
    (leads.atRoot (decide_eq_true rooted)).1⟩

section Shaped

variable {rooted : Prop} {kept : List GoString}

theorem Shaped.whole (shaped : Shaped rooted kept) :
    ∀ element ∈ kept, element ≠ [] ∧ separator ∉ element := by
  obtain ⟨names, up, rfl, named, -⟩ := shaped
  intro element member
  rcases List.mem_append.1 member with member | member
  · exact ⟨(named element member).nonempty, (named element member).noSeparator⟩
  · rw [List.eq_of_mem_replicate member]
    exact ⟨by decide, by decide⟩

theorem Shaped.suffix {part : List GoString} (shaped : Shaped rooted kept)
    (isPart : part <:+ kept) : Shaped rooted part := by
  obtain ⟨names, up, rfl, named, atRoot⟩ := shaped
  obtain ⟨front, split⟩ := isPart
  rcases List.append_eq_append_iff.1 split with ⟨more, rfl, rfl⟩ | ⟨more, -, ups⟩
  · refine ⟨more, up, rfl, fun name member => ?_, atRoot⟩
    exact named name (List.mem_append_right _ member)
  · have replicated := List.append_eq_replicate_iff.1 ups.symm
    refine ⟨[], part.length, replicated.2.2, by simp, fun root => ?_⟩
    have none := atRoot root
    omega

theorem Shaped.head {element : GoString} (shaped : Shaped rooted (element :: kept)) :
    FileName element ∨
      element = dotDot ∧ kept = List.replicate kept.length dotDot := by
  obtain ⟨names, up, split, named, -⟩ := shaped
  cases names with
  | nil =>
      have all : ∀ other ∈ element :: kept, other = dotDot := by
        rw [split]
        exact fun other member => List.eq_of_mem_replicate member
      rw [List.forall_mem_cons] at all
      exact .inr ⟨all.1, List.eq_replicate_iff.2 ⟨rfl, all.2⟩⟩
  | cons name names =>
      rw [(List.cons.inj split).1]
      exact .inl (named name List.mem_cons_self)

end Shaped

def placeOf (start : Place) (kept : List GoString) : Place :=
  kept.foldr (fun element place => follow place element) start

theorem foldl_follow_reverse (start : Place) (kept : List GoString) :
    kept.reverse.foldl follow start = placeOf start kept := List.foldl_reverse

theorem placeOf_append (start : Place) (first second : List GoString) :
    placeOf start (first ++ second) = placeOf (placeOf start second) first := List.foldr_append

theorem placeOf_names {names : Place} (named : ∀ name ∈ names, FileName name) (start : Place) :
    placeOf start names = names ++ start := by
  induction names with
  | nil => rfl
  | cons name rest ih =>
      rw [List.forall_mem_cons] at named
      rw [List.cons_append, ← ih named.2]
      exact follow_fileName named.1 _

theorem placeOf_replicate (start : Place) (up : Nat) :
    placeOf start (List.replicate up dotDot) = start.drop up := by
  induction up with
  | zero => rfl
  | succ up ih =>
      rw [List.replicate_succ, ← List.tail_drop, ← ih]
      exact follow_dotDot _

theorem locate_eq_placeOf (cwd : Place) (path : GoString) :
    locate cwd path = placeOf (if Rooted path then [] else cwd) (cleanElements path) := by
  obtain ⟨names, up, leads⟩ := cleanElements_leads cwd path
  rw [leads.place_eq, leads.kept_eq, placeOf_append, placeOf_replicate,
    placeOf_names leads.named]

theorem foldl_cleanElement_names {names : Place} (named : ∀ name ∈ names, FileName name)
    (rooted : Bool) (kept : List GoString) :
    names.reverse.foldl (cleanElement rooted) kept = names ++ kept := by
  induction names with
  | nil => rfl
  | cons name rest ih =>
      rw [List.forall_mem_cons] at named
      rw [List.reverse_cons, List.foldl_append, ih named.2]
      exact cleanElement_fileName named.1 _ _

def climb (rooted : Bool) (kept : List GoString) (up : Nat) : List GoString :=
  (List.replicate up dotDot).foldl (cleanElement rooted) kept

theorem climb_succ (rooted : Bool) (kept : List GoString) (up : Nat) :
    climb rooted kept (up + 1) = cleanElement rooted (climb rooted kept up) dotDot := by
  rw [climb, climb, List.replicate_succ', List.foldl_append]
  rfl

theorem cleanElement_dotDot_name {name : GoString} (notUp : name ≠ dotDot) (rooted : Bool)
    (kept : List GoString) : cleanElement rooted (name :: kept) dotDot = kept := by
  rw [cleanElement.eq_def, if_neg (by decide), if_pos rfl]
  exact if_neg notUp

theorem cleanElement_dotDot_up (up : Nat) :
    cleanElement false (List.replicate up dotDot) dotDot = List.replicate (up + 1) dotDot := by
  cases up with
  | zero => rfl
  | succ up =>
      rw [cleanElement.eq_def, if_neg (by decide), if_pos rfl]
      exact if_pos rfl

theorem climb_names (rooted : Bool) {names : Place} (named : ∀ name ∈ names, FileName name)
    (up : Nat) {more : Nat} (few : more ≤ names.length) :
    climb rooted (names ++ List.replicate up dotDot) more =
      names.drop more ++ List.replicate up dotDot := by
  induction more with
  | zero => rfl
  | succ more ih =>
      have inside : more < names.length := few
      have next := named _ (List.getElem_mem inside)
      rw [climb_succ, ih (Nat.le_of_lt few), List.drop_eq_getElem_cons inside, List.cons_append,
        cleanElement_dotDot_name next.notDotDot]

theorem climb_root {names : Place} (named : ∀ name ∈ names, FileName name) {more : Nat}
    (many : names.length ≤ more) : climb true names more = [] := by
  induction more with
  | zero => exact List.eq_nil_of_length_eq_zero (Nat.le_zero.1 many)
  | succ more ih =>
      rcases Nat.lt_or_ge more names.length with few | many
      · have all : names.length = more + 1 := by omega
        have climbed := climb_names true named 0 (Nat.le_of_eq all.symm)
        rw [List.replicate_zero, List.append_nil, List.append_nil] at climbed
        rw [climbed, List.drop_of_length_le (Nat.le_of_eq all)]
      · rw [climb_succ, ih many]
        rfl

theorem climb_up {names : Place} (named : ∀ name ∈ names, FileName name) (up more : Nat) :
    climb false (names ++ List.replicate up dotDot) (names.length + more) =
      List.replicate (more + up) dotDot := by
  induction more with
  | zero =>
      rw [Nat.add_zero, climb_names false named up (Nat.le_refl _), List.drop_length,
        Nat.zero_add]
      rfl
  | succ more ih =>
      rw [← Nat.add_assoc, climb_succ, ih, cleanElement_dotDot_up, Nat.add_right_comm]

def spell (rooted : Prop) [Decidable rooted] (kept : List GoString) : GoString :=
  (if rooted then [separator] else []) ++ [separator].intercalate kept.reverse

section Spell

variable {rooted : Prop} {kept : List GoString} (shaped : Shaped rooted kept)
  (nonempty : kept ≠ [])

include shaped nonempty

theorem splitOn_intercalate_shaped :
    ([separator].intercalate kept.reverse).splitOn separator = kept.reverse := by
  refine List.splitOn_intercalate separator (fun element member => ?_) ?_
  · exact (shaped.whole element (List.mem_reverse.1 member)).2
  · exact fun empty => nonempty (List.reverse_eq_nil_iff.1 empty)

theorem intercalate_front {front : List GoString}
    (split : ([separator].intercalate kept.reverse).splitOn separator = [] :: front) : False := by
  rw [splitOn_intercalate_shaped shaped nonempty] at split
  have first : [] ∈ kept.reverse := by
    rw [split]
    exact List.mem_cons_self
  exact (shaped.whole [] (List.mem_reverse.1 first)).1 rfl

variable [Decidable rooted]

theorem splitOn_spell :
    (spell rooted kept).splitOn separator = (if rooted then [[]] else []) ++ kept.reverse := by
  have body := splitOn_intercalate_shaped shaped nonempty
  rw [spell]
  split_ifs
  · rw [List.singleton_append, ← List.nil_append (separator :: _),
      List.splitOn_append_cons_self, body]
    rfl
  · exact body

theorem rooted_spell : Rooted (spell rooted kept) ↔ rooted := by
  by_cases flag : rooted
  · rw [spell, if_pos flag]
    exact ⟨fun _ => flag, fun _ => rfl⟩
  · refine ⟨fun root => absurd root fun root => ?_, fun root => absurd root flag⟩
    rw [spell, if_neg flag, List.nil_append] at root
    obtain ⟨rest, text⟩ := List.head?_eq_some_iff.1 root
    have split : ([separator].intercalate kept.reverse).splitOn separator =
        [] :: rest.splitOn separator := by
      rw [text, ← List.nil_append (separator :: rest), List.splitOn_append_cons_self]
      rfl
    exact intercalate_front shaped nonempty split

theorem cleanElements_spell : cleanElements (spell rooted kept) = kept := by
  have front : ((if rooted then [[]] else []) ++ kept.reverse).foldl
      (cleanElement (decide rooted)) [] =
      kept.reverse.foldl (cleanElement (decide rooted)) [] := by
    split_ifs
    · rfl
    · rfl
  rw [cleanElements_eq, splitOn_spell shaped nonempty,
    decide_eq_decide.2 (rooted_spell shaped nonempty), front]
  obtain ⟨names, up, rfl, named, atRoot⟩ := shaped
  have climbs : climb (decide rooted) [] up = List.replicate up dotDot := by
    by_cases flag : rooted
    · rw [atRoot flag]
      rfl
    · have climbed := @climb_up [] (by simp) 0 up
      rw [decide_eq_false flag]
      rwa [List.length_nil, Nat.zero_add] at climbed
  rw [List.reverse_append, List.reverse_replicate, List.foldl_append]
  exact (foldl_cleanElement_names named _ _).trans (congrArg (names ++ ·) climbs)

theorem locate_spell (cwd : Place) :
    locate cwd (spell rooted kept) = placeOf (if rooted then [] else cwd) kept := by
  rw [locate_eq_placeOf, cleanElements_spell shaped nonempty,
    if_congr (rooted_spell shaped nonempty) rfl rfl]

end Spell

theorem clean_eq_spell {path : GoString} (nonempty : cleanElements path ≠ []) :
    clean path = spell (Rooted path) (cleanElements path) := by
  have body : [separator].intercalate (cleanElements path).reverse ≠ [] := by
    intro empty
    refine @intercalate_front _ _ (shaped_cleanElements path) nonempty [] ?_
    rw [empty]
    rfl
  rw [clean, spell]
  by_cases rooted : Rooted path
  · rw [if_pos (show path.head? = some separator from rooted), if_pos rooted]
    rfl
  · rw [if_neg (show ¬path.head? = some separator from rooted), if_neg body, if_neg rooted]
    rfl

theorem clean_eq_root {path : GoString} (none : cleanElements path = []) :
    clean path = if Rooted path then [separator] else dot := by
  rw [clean, none]
  rfl

theorem clean_ne_nil (path : GoString) : clean path ≠ [] := by
  rw [clean]
  split_ifs with rooted empty
  · exact List.cons_ne_nil _ _
  · decide
  · exact empty

theorem rooted_clean (path : GoString) : Rooted (clean path) ↔ Rooted path := by
  by_cases none : cleanElements path = []
  · rw [clean_eq_root none]
    split_ifs with rooted
    · exact ⟨fun _ => rooted, fun _ => rfl⟩
    · exact ⟨fun root => absurd root (by decide), fun root => absurd root rooted⟩
  · rw [clean_eq_spell none]
    exact rooted_spell (shaped_cleanElements path) none

theorem cleanElements_clean (path : GoString) :
    cleanElements (clean path) = cleanElements path := by
  by_cases none : cleanElements path = []
  · rw [clean_eq_root none, none]
    split_ifs
    · decide
    · decide
  · rw [clean_eq_spell none]
    exact cleanElements_spell (shaped_cleanElements path) none

theorem locate_clean (cwd : Place) (path : GoString) :
    locate cwd (clean path) = locate cwd path := by
  rw [locate_eq_placeOf, locate_eq_placeOf, cleanElements_clean,
    if_congr (rooted_clean path) rfl rfl]

theorem clean_clean (path : GoString) : clean (clean path) = clean path := by
  have body : clean path = (if Rooted path then separator ::
      [separator].intercalate (cleanElements path).reverse
      else if [separator].intercalate (cleanElements path).reverse = [] then dot
      else [separator].intercalate (cleanElements path).reverse) := rfl
  have again : clean (clean path) = (if Rooted (clean path) then separator ::
      [separator].intercalate (cleanElements (clean path)).reverse
      else if [separator].intercalate (cleanElements (clean path)).reverse = [] then dot
      else [separator].intercalate (cleanElements (clean path)).reverse) := rfl
  rw [again, cleanElements_clean, if_congr (rooted_clean path) rfl rfl, ← body]

theorem rooted_append {dir : GoString} (nonempty : dir ≠ []) (rest : GoString) :
    Rooted (dir ++ rest) ↔ Rooted dir := by
  rw [Rooted, Rooted, List.head?_append_of_ne_nil _ nonempty]

theorem cleanElements_join {dir : GoString} (nonempty : dir ≠ []) (name : GoString) :
    cleanElements (join [dir, name]) =
      (name.splitOn separator).foldl (cleanElement (decide (Rooted dir))) (cleanElements dir) := by
  rw [join_eq_clean nonempty, cleanElements_clean, cleanElements_eq,
    List.splitOn_append_cons_self, List.foldl_append,
    decide_eq_decide.2 (rooted_append nonempty _), ← cleanElements_eq]

theorem locate_join {dir : GoString} (nonempty : dir ≠ []) (cwd : Place) (name : GoString) :
    locate cwd (join [dir, name]) = (name.splitOn separator).foldl follow (locate cwd dir) := by
  rw [join_eq_clean nonempty, locate_clean, locate, List.splitOn_append_cons_self,
    List.foldl_append, if_congr (rooted_append nonempty _) rfl rfl]
  rfl

theorem clean_join {elements : List GoString} (nonempty : join elements ≠ []) :
    clean (join elements) = join elements := by
  rw [join] at nonempty ⊢
  cases rest : elements.dropWhile (·.isEmpty) with
  | nil =>
      rw [rest] at nonempty
      exact absurd rfl nonempty
  | cons first more => exact clean_clean _

theorem rooted_join {dir : GoString} (nonempty : dir ≠ []) (name : GoString) :
    Rooted (join [dir, name]) ↔ Rooted dir := by
  rw [join_eq_clean nonempty, rooted_clean, rooted_append nonempty]

theorem joinFront_join {dir : GoString} (nonempty : dir ≠ []) {name : GoString}
    (named : FileName name) :
    joinFront (join [dir, name]) = joinFront dir ++ (name ++ [separator]) := by
  rw [joinFront, joinFront, cleanElements_join nonempty,
    List.splitOn_eq_singleton named.noSeparator, List.foldl_cons, List.foldl_nil,
    cleanElement_fileName named, List.reverse_cons, directoryText_concat, ← List.append_assoc]
  exact congrArg (· ++ _ ++ _) (if_congr (rooted_join nonempty name) rfl rfl)

theorem locate_joinFront {dir front : GoString} (nonempty : dir ≠ [])
    (ends : joinFront dir = front ++ [separator]) (cwd : Place) (text : GoString) :
    locate cwd (joinFront dir ++ text) = (text.splitOn separator).foldl follow (locate cwd dir) := by
  have through : ∀ text, locate cwd (joinFront dir ++ text) =
      (text.splitOn separator).foldl follow ((front.splitOn separator).foldl follow
        (if Rooted (joinFront dir) then [] else cwd)) := by
    intro text
    have some : joinFront dir ≠ [] := by
      rw [ends]
      exact List.append_ne_nil_of_right_ne_nil _ (List.cons_ne_nil _ _)
    rw [locate, if_congr (rooted_append some text) rfl rfl, ends, List.append_assoc,
      List.singleton_append, List.splitOn_append_cons_self, List.foldl_append]
  -- a name in the place of the text says where the front leads
  have named : FileName [97] := ⟨by decide, by decide, by decide, by decide⟩
  have child := locate_join nonempty cwd [97]
  rw [join_fileName _ named, through, List.splitOn_eq_singleton named.noSeparator,
    List.foldl_cons, List.foldl_cons, follow_fileName named, follow_fileName named] at child
  rw [through, (List.cons.inj child).2]

theorem locate_of_no_front {dir : GoString} (nonempty : dir ≠ []) (none : joinFront dir = [])
    (cwd : Place) : locate cwd dir = cwd := by
  have named : FileName [97] := ⟨by decide, by decide, by decide, by decide⟩
  have child := locate_join nonempty cwd [97]
  rw [join_fileName _ named, none, List.nil_append, locate,
    if_neg (by decide), List.splitOn_eq_singleton named.noSeparator, List.foldl_cons,
    List.foldl_cons, follow_fileName named, follow_fileName named] at child
  exact (List.cons.inj child).2.symm

theorem joinFront_of_clean {path : GoString} (cleaned : clean path = path)
    (some : cleanElements path ≠ []) : joinFront path = path ++ [separator] := by
  cases elements : cleanElements path with
  | nil => exact absurd elements some
  | cons last before =>
      have text : path = (if Rooted path then [separator] else []) ++
          [separator].intercalate (cleanElements path).reverse := by
        conv_lhs => rw [← cleaned, clean_eq_spell some, spell]
      conv_rhs => rw [text]
      rw [joinFront, elements, List.reverse_cons, intercalate_last, directoryText_concat,
        List.append_assoc, List.append_assoc]
      rfl

theorem foldl_follow_eq (start : Place) (elements : List GoString) :
    ∃ names up, elements.foldl follow start = names ++ start.drop up ∧
      ∀ name ∈ names, name ∈ elements := by
  induction elements using List.reverseRecOn with
  | nil => exact ⟨[], 0, rfl, fun _ member => absurd member List.not_mem_nil⟩
  | append_singleton before element ih =>
      obtain ⟨names, up, place, from'⟩ := ih
      have kept : ∀ name ∈ names, name ∈ before ++ [element] := fun name member =>
        List.mem_append_left _ (from' name member)
      rw [List.foldl_append, List.foldl_cons, List.foldl_nil, place, follow]
      split_ifs
      · exact ⟨names, up, rfl, kept⟩
      · cases names with
        | nil => exact ⟨[], up + 1, List.tail_drop, fun _ member => absurd member List.not_mem_nil⟩
        | cons name rest => exact ⟨rest, up, rfl, fun name member => kept name (.tail _ member)⟩
      · refine ⟨element :: names, up, rfl, List.forall_mem_cons.2 ⟨?_, kept⟩⟩
        exact List.mem_append_right _ List.mem_cons_self

/-- Behind a directory a text leads to names of its own, and to no more than the directory's
elements under them. -/
theorem locate_joinFront_names {dir : GoString} (nonempty : dir ≠ []) (cwd : Place)
    (text : GoString) : ∃ names rest : Place, locate cwd (joinFront dir ++ text) = names ++ rest ∧
      rest.length ≤ (locate cwd dir).length ∧ ∀ name ∈ names, name ∈ text.splitOn separator := by
  rcases joinFront_ends dir with none | ⟨front, ends⟩
  · obtain ⟨names, up, place, from'⟩ :=
      foldl_follow_eq (if Rooted text then [] else cwd) (text.splitOn separator)
    rw [none, List.nil_append, locate_of_no_front nonempty none]
    refine ⟨names, _, place, ?_, from'⟩
    rw [List.length_drop]
    split_ifs
    · exact Nat.le_trans (Nat.sub_le _ _) (Nat.zero_le _)
    · exact Nat.sub_le _ _
  · obtain ⟨names, up, place, from'⟩ := foldl_follow_eq (locate cwd dir) (text.splitOn separator)
    rw [locate_joinFront nonempty ends]
    refine ⟨names, _, place, ?_, from'⟩
    rw [List.length_drop]
    exact Nat.sub_le _ _

theorem mem_cleanElement {rooted : Bool} {kept : List GoString} {first element : GoString}
    (member : element ∈ cleanElement rooted kept first) :
    element ∈ kept ∨ element = first ∨ element = dotDot := by
  rw [cleanElement.eq_def] at member
  by_cases skipped : first = [] ∨ first = dot
  · rw [if_pos skipped] at member
    exact .inl member
  rw [if_neg skipped] at member
  by_cases parent : first = dotDot
  · rw [if_pos parent] at member
    cases kept with
    | nil =>
        dsimp only at member
        split_ifs at member
        · cases member
        · exact .inr (.inr (List.mem_singleton.1 member))
    | cons last before =>
        dsimp only at member
        split_ifs at member
        · exact (List.mem_cons.1 member).elim (.inr ∘ .inr) .inl
        · exact .inl (.tail _ member)
  · rw [if_neg parent] at member
    exact (List.mem_cons.1 member).elim (.inr ∘ .inl) .inl

theorem mem_cleanElements {path element : GoString} (member : element ∈ cleanElements path) :
    element ∈ path.splitOn separator ∨ element = dotDot := by
  have within : ∀ {rooted : Bool} {elements kept : List GoString},
      element ∈ elements.foldl (cleanElement rooted) kept →
        element ∈ kept ∨ element ∈ elements ∨ element = dotDot := by
    intro rooted elements kept member
    induction elements generalizing kept with
    | nil => exact .inl member
    | cons first rest ih =>
        rcases ih member with earlier | later | parent
        · rcases mem_cleanElement earlier with earlier | rfl | parent
          · exact .inl earlier
          · exact .inr (.inl List.mem_cons_self)
          · exact .inr (.inr parent)
        · exact .inr (.inl (.tail _ later))
        · exact .inr (.inr parent)
  exact (within member).resolve_left List.not_mem_nil

/-! Staying inside a directory. -/

/-- A path is lexically inside a directory: the directory's elements and names below it. -/
def Inside (dir path : GoString) : Prop :=
  (Rooted path ↔ Rooted dir) ∧
    ∃ below, dotDot ∉ below ∧ cleanElements path = below ++ cleanElements dir

def relativeElements (name : GoString) : List GoString :=
  (name.splitOn separator).foldl (cleanElement false) []

def climbs (name : GoString) : Nat := (relativeElements name).count dotDot

def descends (name : GoString) : Place := (relativeElements name).filter (· ≠ dotDot)

/-- A name that is joined to a directory goes down again whatever it goes up. -/
def Stays (dir name : GoString) : Prop :=
  (dir = [] → ¬Rooted name) ∧
    (Rooted dir ∨ climbs name ≤ (cleanElements dir).length ∧
      dotDot ∉ (cleanElements dir).take (climbs name)) ∧
    (cleanElements dir).take (climbs name) <:+ descends name

instance (dir name : GoString) : Decidable (Stays dir name) :=
  inferInstanceAs (Decidable (_ ∧ _ ∧ _))

theorem foldl_cleanElement_climb {elements : List GoString}
    (whole : ∀ element ∈ elements, separator ∉ element) {names : Place} {up : Nat}
    (named : ∀ name ∈ names, FileName name) (rooted : Bool) (kept : List GoString) :
    ∃ below more, (∀ name ∈ below, FileName name) ∧
      elements.foldl (cleanElement false) (names ++ List.replicate up dotDot) =
        below ++ List.replicate more dotDot ∧
      elements.foldl (cleanElement rooted) (names ++ climb rooted kept up) =
        below ++ climb rooted kept more := by
  induction elements generalizing names up with
  | nil => exact ⟨names, up, named, rfl, rfl⟩
  | cons element rest ih =>
      rw [List.forall_mem_cons] at whole
      rw [List.foldl_cons, List.foldl_cons]
      by_cases skipped : element = [] ∨ element = dot
      · have pass : ∀ rooted kept, cleanElement rooted kept element = kept := by
          intro rooted kept
          rw [cleanElement.eq_def, if_pos skipped]
        rw [pass, pass]
        exact ih whole.2 named
      by_cases parent : element = dotDot
      · rw [parent]
        cases names with
        | cons name names =>
            have notUp := (named name List.mem_cons_self).notDotDot
            rw [List.cons_append, List.cons_append, cleanElement_dotDot_name notUp,
              cleanElement_dotDot_name notUp]
            exact ih whole.2 fun other member => named other (.tail _ member)
        | nil =>
            rw [List.nil_append, List.nil_append, cleanElement_dotDot_up, ← climb_succ]
            exact @ih whole.2 [] (up + 1) named
      · rw [not_or] at skipped
        have proper : FileName element := ⟨skipped.1, whole.1, skipped.2, parent⟩
        rw [cleanElement_fileName proper, cleanElement_fileName proper]
        exact @ih whole.2 (element :: names) up (List.forall_mem_cons.2 ⟨proper, named⟩)

theorem not_mem_of_named {names : Place} (named : ∀ name ∈ names, FileName name) :
    dotDot ∉ names := fun member => (named dotDot member).notDotDot rfl

theorem foldl_cleanElement_name (name : GoString) (rooted : Bool) (kept : List GoString) :
    (∀ element ∈ descends name, FileName element) ∧
      (name.splitOn separator).foldl (cleanElement rooted) kept =
        descends name ++ climb rooted kept (climbs name) := by
  obtain ⟨below, more, named, relative, joined⟩ := @foldl_cleanElement_climb
    (name.splitOn separator) (fun _ member => not_mem_of_mem_splitOn member) [] 0 (by simp)
    rooted kept
  have parts : relativeElements name = below ++ List.replicate more dotDot := relative
  have up : climbs name = more := by
    rw [climbs, parts, List.count_append, List.count_replicate_self,
      List.count_eq_zero_of_not_mem (not_mem_of_named named), Nat.zero_add]
  have down : descends name = below := by
    rw [descends, parts, List.filter_append, List.filter_eq_self.2, List.filter_eq_nil_iff.2,
      List.append_nil]
    · intro element member
      rw [List.eq_of_mem_replicate member]
      decide
    · exact fun element member => decide_eq_true (named element member).notDotDot
  rw [up, down]
  exact ⟨named, joined⟩

theorem count_dotDot {names : Place} (named : ∀ name ∈ names, FileName name) (up : Nat) :
    (names ++ List.replicate up dotDot).count dotDot = up := by
  rw [List.count_append, List.count_eq_zero_of_not_mem (not_mem_of_named named),
    List.count_replicate_self, Nat.zero_add]

theorem exists_below_climb_iff {rooted : Bool} {start place names : Place} {kept : List GoString}
    {up : Nat} (leads : Leads rooted start kept place names up) {down : Place}
    (named : ∀ name ∈ down, FileName name) (more : Nat) :
    (∃ below, dotDot ∉ below ∧ down ++ climb rooted kept more = below ++ kept) ↔
      (rooted = true ∨ more ≤ kept.length ∧ dotDot ∉ kept.take more) ∧
        kept.take more <:+ down := by
  have isBelow : ∀ {below back : Place}, down = below ++ back → dotDot ∉ below := by
    rintro below back rfl member
    exact not_mem_of_named named (List.mem_append_left _ member)
  rcases Nat.lt_or_ge names.length more with many | few
  · cases rooted with
    | true =>
        obtain ⟨rfl, rfl⟩ := leads.atRoot rfl
        have kept_eq : kept = names := by
          rw [leads.kept_eq]
          exact List.append_nil names
        rw [kept_eq, climb_root leads.named (Nat.le_of_lt many), List.append_nil,
          List.take_of_length_le (Nat.le_of_lt many)]
        constructor
        · rintro ⟨below, -, split⟩
          exact ⟨.inl rfl, below, split.symm⟩
        · rintro ⟨-, below, split⟩
          exact ⟨below, isBelow split.symm, split.symm⟩
    | false =>
        obtain ⟨extra, rfl⟩ := Nat.exists_eq_add_of_lt many
        rw [leads.kept_eq, Nat.add_assoc, climb_up leads.named]
        constructor
        · rintro ⟨below, noUp, split⟩
          have counts := congrArg (List.count dotDot) split
          rw [count_dotDot named, List.count_append, List.count_eq_zero_of_not_mem noUp,
            count_dotDot leads.named] at counts
          omega
        · rintro ⟨back, -⟩
          obtain ⟨fits, noUp⟩ := back.resolve_left Bool.false_ne_true
          rw [List.length_append, List.length_replicate] at fits
          refine absurd ?_ noUp
          rw [List.take_append, List.mem_append]
          refine .inr ?_
          rw [List.take_replicate, List.mem_replicate]
          exact ⟨by omega, rfl⟩
  · have taken : kept.take more = names.take more := by
      rw [leads.kept_eq, List.take_append_of_le_length few]
    have left : climb rooted kept more = kept.drop more := by
      rw [leads.kept_eq, climb_names rooted leads.named up few,
        List.drop_append_of_le_length few]
    have noUp : dotDot ∉ kept.take more := by
      rw [taken]
      exact fun member => not_mem_of_named leads.named (List.mem_of_mem_take member)
    have fits : more ≤ kept.length := by
      rw [leads.kept_eq, List.length_append]
      omega
    rw [left]
    constructor
    · rintro ⟨below, -, split⟩
      refine ⟨.inr ⟨fits, noUp⟩, below, ?_⟩
      have cut : below ++ kept = (below ++ kept.take more) ++ kept.drop more := by
        rw [List.append_assoc, List.take_append_drop]
      rw [cut] at split
      exact (List.append_cancel_right split).symm
    · rintro ⟨-, below, split⟩
      refine ⟨below, isBelow split.symm, ?_⟩
      rw [← split, List.append_assoc, List.take_append_drop]

theorem inside_join_iff (dir name : GoString) :
    Inside (clean dir) (join [dir, name]) ↔ Stays dir name := by
  obtain ⟨names, up, leads⟩ := cleanElements_leads [] dir
  obtain ⟨named, joined⟩ := foldl_cleanElement_name name (decide (Rooted dir)) (cleanElements dir)
  have below := exists_below_climb_iff leads named (climbs name)
  rw [decide_eq_true_iff] at below
  rw [Inside, Stays, rooted_clean, cleanElements_clean, ← below, ← joined]
  by_cases empty : dir = []
  · have rootless : ¬Rooted [] := by decide
    have text : Rooted (join [[], name]) ↔ Rooted name := by
      rw [join_empty]
      split_ifs with none
      · rw [none]
      · exact rooted_clean name
    have elements : ¬Rooted name → cleanElements (join [[], name]) =
        (name.splitOn separator).foldl (cleanElement (decide (Rooted []))) (cleanElements []) := by
      intro relative
      rw [join_empty]
      split_ifs with none
      · rw [none]
        rfl
      · rw [cleanElements_clean, cleanElements_eq, decide_eq_false relative]
        rfl
    rw [empty, text, iff_false_right rootless]
    constructor
    · rintro ⟨relative, below, noUp, split⟩
      rw [elements relative] at split
      exact ⟨fun _ => relative, below, noUp, split⟩
    · rintro ⟨relative, below, noUp, split⟩
      rw [← elements (relative rfl)] at split
      exact ⟨relative rfl, below, noUp, split⟩
  · rw [cleanElements_join empty, rooted_join empty]
    exact ⟨fun inside => ⟨fun none => absurd none empty, inside.2⟩, fun stays => ⟨Iff.rfl, stays.2⟩⟩

/-- A path all of whose elements are names. -/
def NamesOnly (path : GoString) : Prop := ∀ element ∈ path.splitOn separator, FileName element

section NamesOnly

variable {lead text old new : GoString}

theorem NamesOnly.behind (names : NamesOnly text) (whole : separator ∉ lead) :
    NamesOnly (lead ++ text) := by
  intro element member
  obtain ⟨head, others, fields⟩ := List.exists_cons_of_ne_nil (List.splitOn_ne_nil separator text)
  rw [NamesOnly, fields, List.forall_mem_cons] at names
  rw [splitOn_lead whole, fields, List.modifyHead_cons, List.mem_cons] at member
  rcases member with rfl | member
  · exact names.1.behind whole
  · exact names.2 element member

theorem namesOnly_append_cons (whole : separator ∉ lead) :
    NamesOnly (lead ++ separator :: text) ↔ FileName lead ∧ NamesOnly text := by
  rw [NamesOnly, List.splitOn_append_cons_self_of_not_mem whole, List.forall_mem_cons]
  rfl

/-- What follows a path of names, if it is not in the first element, is there behind others, too. -/
theorem NamesOnly.append (names : NamesOnly new)
    (more : ∀ last, FileName last → NamesOnly (last ++ text)) : NamesOnly (new ++ text) := by
  obtain ⟨front, last, split, rfl, wholes, -⟩ := splitOn_last new
  rw [NamesOnly, split, List.forall_mem_append, List.forall_mem_singleton] at names
  rw [List.append_assoc, NamesOnly, splitOn_directoryText wholes, List.forall_mem_append]
  exact ⟨names.1, more last names.2⟩

theorem NamesOnly.replaceAll (nonempty : old ≠ []) (names : NamesOnly new)
    (whole : separator ∉ lead) (before : NamesOnly (lead ++ text)) :
    NamesOnly (lead ++ replaceAll old new text) := by
  induction text using replacing nonempty generalizing lead with
  | nil => exact before
  | found rest ih =>
      rw [replaceAll_append nonempty]
      refine NamesOnly.behind (names.append fun last named => ih named.noSeparator ?_) whole
      intro element member
      obtain ⟨head, others, fields⟩ :=
        List.exists_cons_of_ne_nil (List.splitOn_ne_nil separator rest)
      rw [splitOn_lead named.noSeparator, fields, List.modifyHead_cons, List.mem_cons] at member
      rw [← List.append_assoc] at before
      rcases member with rfl | member
      · refine named.grow (List.prefix_append _ _).isInfix fun inside => ?_
        refine (List.mem_append.1 inside).elim named.noSeparator ?_
        exact not_mem_of_mem_splitOn (fields ▸ List.mem_cons_self : head ∈ rest.splitOn separator)
      · exact before element (mem_splitOn_append _ (by rw [fields]; exact member))
  | missed char rest misses ih =>
      rw [replaceAll_cons new misses]
      by_cases here : char = separator
      · rw [here, namesOnly_append_cons whole] at before ⊢
        exact ⟨before.1, @ih [] List.not_mem_nil before.2⟩
      · rw [List.append_cons] at before ⊢
        refine ih (fun member => ?_) before
        rcases List.mem_append.1 member with member | member
        · exact whole member
        · exact here (List.mem_singleton.1 member).symm

theorem NamesOnly.locate (names : NamesOnly text) (cwd : Place) :
    locate cwd text = (text.splitOn separator).reverse ++ cwd := by
  have relative : ¬Rooted text := by
    intro root
    obtain ⟨rest, rfl⟩ := List.head?_eq_some_iff.1 root
    exact ((@namesOnly_append_cons [] rest List.not_mem_nil).1 names).1.nonempty rfl
  rw [Go.locate, if_neg relative, ← placeOf_names (fun name member =>
    names name (List.mem_reverse.1 member)), ← foldl_follow_reverse, List.reverse_reverse]

end NamesOnly

end Bclib.Go
