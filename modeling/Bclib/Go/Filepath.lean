import Bclib.Go.Strings

namespace Bclib.Go

open Data

/-! Paths as `path/filepath` joins and cleans them on Unix. -/

def separator : Byte := 47

def dot : GoString := [46]

def dotDot : GoString := [46, 46]

def cleanElement (rooted : Bool) (kept : List GoString) (element : GoString) : List GoString :=
  if element = [] ∨ element = dot then kept
  else if element = dotDot then
    match kept with
    | [] => if rooted then [] else [dotDot]
    | last :: before => if last = dotDot then dotDot :: kept else before
  else element :: kept

def cleanElements (path : GoString) : List GoString :=
  (path.splitOn separator).foldl (cleanElement (path.head? == some separator)) []

def clean (path : GoString) : GoString :=
  let body := [separator].intercalate (cleanElements path).reverse
  if path.head? = some separator then separator :: body
  else if body = [] then dot
  else body

/-- `filepath.Join`: from the first element on that is not empty. -/
def join (elements : List GoString) : GoString :=
  match elements.dropWhile (·.isEmpty) with
  | [] => []
  | rest => clean ([separator].intercalate rest)

/-- `path.Base`: the last element, whatever separators follow it. -/
def base (path : GoString) : GoString :=
  if path = [] then dot
  else
    let last := ((path.reverse.dropWhile (· == separator)).takeWhile (· != separator)).reverse
    if last = [] then [separator] else last

/-- `filepath.Dir`: what is in front of the last element, cleaned. -/
def dir (path : GoString) : GoString :=
  clean (path.reverse.dropWhile (· != separator)).reverse

example : join [str "a//b/../c/.", str "../k.wal"] = str "a/k.wal" := by decide

/-- An element that names something in its directory. -/
structure FileName (base : GoString) : Prop where
  nonempty : base ≠ []
  noSeparator : separator ∉ base
  notDot : base ≠ dot
  notDotDot : base ≠ dotDot

theorem cleanElement_fileName {base : GoString} (named : FileName base) (rooted : Bool)
    (kept : List GoString) : cleanElement rooted kept base = base :: kept := by
  rw [cleanElement.eq_def, if_neg (not_or.2 ⟨named.nonempty, named.notDot⟩),
    if_neg named.notDotDot]

theorem cleanElements_fileName {base : GoString} (named : FileName base) :
    cleanElements base = [base] := by
  rw [cleanElements, List.splitOn_eq_singleton named.noSeparator]
  exact cleanElement_fileName named _ []

theorem cleanElements_child {base : GoString} (named : FileName base) {dir : GoString}
    (nonempty : dir ≠ []) :
    cleanElements (dir ++ separator :: base) = base :: cleanElements dir := by
  rw [cleanElements, List.splitOn_append_cons_self, List.splitOn_eq_singleton named.noSeparator,
    List.foldl_append, List.head?_append_of_ne_nil _ nonempty]
  exact cleanElement_fileName named _ _

def directoryText (elements : List GoString) : GoString :=
  elements.flatMap (· ++ [separator])

theorem directoryText_concat (elements : List GoString) (last : GoString) :
    directoryText (elements ++ [last]) = directoryText elements ++ (last ++ [separator]) := by
  simp [directoryText]

theorem intercalate_last (elements : List GoString) (base : GoString) :
    [separator].intercalate (elements ++ [base]) = directoryText elements ++ base := by
  induction elements with
  | nil => exact List.intercalate_singleton
  | cons element rest ih =>
      rw [List.cons_append, List.intercalate_cons_of_ne_nil (List.append_ne_nil_of_right_ne_nil _
        (List.cons_ne_nil _ _)), ih, directoryText, directoryText, List.flatMap_cons,
        List.append_assoc, List.append_assoc, List.append_assoc]

/-- What `Join` puts in front of a file's name. -/
def joinFront (dir : GoString) : GoString :=
  (if dir.head? = some separator then [separator] else []) ++
    directoryText (cleanElements dir).reverse

theorem head?_fileName {base : GoString} (named : FileName base) :
    base.head? ≠ some separator := by
  intro first
  exact named.noSeparator (List.mem_of_mem_head? first)

theorem clean_child {path base : GoString} {elements : List GoString} (named : FileName base)
    (left : cleanElements path = base :: elements) :
    clean path = (if path.head? = some separator then [separator] else []) ++
      (directoryText elements.reverse ++ base) := by
  have body : [separator].intercalate (cleanElements path).reverse =
      directoryText elements.reverse ++ base := by
    rw [left, List.reverse_cons, intercalate_last]
  have nonempty : directoryText elements.reverse ++ base ≠ [] :=
    List.append_ne_nil_of_right_ne_nil _ named.nonempty
  rw [clean, body]
  split_ifs
  · rfl
  · rfl

theorem join_eq_clean {dir : GoString} (nonempty : dir ≠ []) (name : GoString) :
    join [dir, name] = clean (dir ++ separator :: name) := by
  have some : dir.isEmpty = false := List.isEmpty_eq_false_iff.2 nonempty
  have text : [separator].intercalate [dir, name] = dir ++ separator :: name := by
    rw [show [dir, name] = [dir] ++ [name] from rfl, intercalate_last]
    simp [directoryText]
  simp only [join, List.dropWhile_cons, some]
  exact congrArg clean text

theorem join_empty (name : GoString) :
    join [[], name] = if name = [] then [] else clean name := by
  cases name with
  | nil => rfl
  | cons first rest => exact congrArg clean List.intercalate_singleton

theorem dropWhile_separator {element : GoString} (nonempty : element ≠ [])
    (whole : separator ∉ element) (front : GoString) :
    (element.reverse ++ front).dropWhile (· == separator) = element.reverse ++ front := by
  cases last : element.reverse with
  | nil => exact absurd (List.reverse_eq_nil_iff.1 last) nonempty
  | cons char rest =>
      have member : char ∈ element := by
        rw [← List.mem_reverse, last]
        exact List.mem_cons_self
      have ne : (char == separator) = false :=
        beq_eq_false_iff_ne.2 fun same => whole (same ▸ member)
      rw [List.cons_append, List.dropWhile_cons_of_neg (by rw [ne]; exact Bool.false_ne_true)]

theorem bne_separator {element : GoString} (whole : separator ∉ element) :
    ∀ char ∈ element.reverse, (char != separator) = true :=
  fun _ member => bne_iff_ne.2 fun same => whole (same ▸ List.mem_reverse.1 member)

theorem joinFront_ends (dir : GoString) :
    joinFront dir = [] ∨ ∃ rest, joinFront dir = rest ++ [separator] := by
  rw [joinFront]
  cases cleanElements dir with
  | nil =>
      split_ifs
      · exact .inr ⟨[], rfl⟩
      · exact .inl rfl
  | cons last rest =>
      refine .inr ⟨(if dir.head? = some separator then [separator] else []) ++
        (directoryText rest.reverse ++ last), ?_⟩
      rw [List.reverse_cons, directoryText_concat, List.append_assoc, List.append_assoc]

theorem base_append {name : GoString} (nonempty : name ≠ []) (whole : separator ∉ name)
    {front : GoString} (ends : front = [] ∨ ∃ rest, front = rest ++ [separator]) (count : Nat) :
    base (front ++ name ++ List.replicate count separator) = name := by
  have some : front ++ name ++ List.replicate count separator ≠ [] := by
    rw [List.append_assoc]
    exact List.append_ne_nil_of_right_ne_nil _ (List.append_ne_nil_of_left_ne_nil nonempty _)
  have last : ((front ++ name ++ List.replicate count separator).reverse.dropWhile
      (· == separator)).takeWhile (· != separator) = name.reverse := by
    rw [List.reverse_append, List.reverse_replicate,
      List.dropWhile_append_of_pos (fun char member => beq_iff_eq.2
        (List.eq_of_mem_replicate member)), List.reverse_append,
      dropWhile_separator nonempty whole, List.takeWhile_append_of_pos (bne_separator whole)]
    rcases ends with rfl | ⟨rest, rfl⟩
    · exact List.append_nil _
    · rw [List.reverse_append]
      exact List.append_nil _
  rw [base, if_neg some]
  dsimp only
  rw [last, List.reverse_reverse, if_neg nonempty]

theorem base_joinFront (dir : GoString) {name : GoString} (named : FileName name) :
    base (joinFront dir ++ name) = name := by
  have last := base_append named.nonempty named.noSeparator (joinFront_ends dir) 0
  rwa [List.replicate_zero, List.append_nil] at last

theorem join_fileName (dir : GoString) {base : GoString} (named : FileName base) :
    join [dir, base] = joinFront dir ++ base := by
  cases dir with
  | nil =>
      rw [join_empty, if_neg named.nonempty, clean_child named (cleanElements_fileName named),
        if_neg (head?_fileName named)]
      rfl
  | cons first rest =>
      rw [join_eq_clean (List.cons_ne_nil _ _),
        clean_child named (cleanElements_child named (List.cons_ne_nil _ _)),
        List.head?_append_of_ne_nil _ (List.cons_ne_nil _ _), joinFront, List.append_assoc]

theorem splitOn_lead {lead : GoString} (whole : separator ∉ lead) (more : GoString) :
    (lead ++ more).splitOn separator = (more.splitOn separator).modifyHead (lead ++ ·) := by
  induction lead with
  | nil => exact (List.modifyHead_id).symm ▸ rfl
  | cons char rest ih =>
      rw [List.mem_cons, not_or] at whole
      rw [List.cons_append, List.splitOn_cons_eq_if_modifyHead,
        if_neg (fun same => whole.1 (beq_iff_eq.1 same).symm), ih whole.2,
        List.modifyHead_modifyHead]
      rfl

theorem splitOn_directoryText {front : List GoString}
    (whole : ∀ element ∈ front, separator ∉ element)
    (more : GoString) :
    (directoryText front ++ more).splitOn separator = front ++ more.splitOn separator := by
  induction front with
  | nil => rfl
  | cons element rest ih =>
      rw [List.forall_mem_cons] at whole
      rw [directoryText, List.flatMap_cons, List.append_assoc, List.append_assoc,
        List.singleton_append, List.splitOn_append_cons_self_of_not_mem whole.1, ← directoryText,
        ih whole.2]
      rfl

theorem splitOn_last (text : GoString) : ∃ front last,
    text.splitOn separator = front ++ [last] ∧ text = directoryText front ++ last ∧
      (∀ element ∈ front, separator ∉ element) ∧ separator ∉ last := by
  obtain none | ⟨front, last, split⟩ := List.eq_nil_or_concat (text.splitOn separator)
  · exact absurd none (List.splitOn_ne_nil _ _)
  · rw [List.concat_eq_append] at split
    have whole : ∀ element ∈ front ++ [last], separator ∉ element := by
      rw [← split]
      exact fun _ member => not_mem_of_mem_splitOn member
    rw [List.forall_mem_append, List.forall_mem_singleton] at whole
    refine ⟨front, last, split, ?_, whole⟩
    rw [← intercalate_last, ← split, List.intercalate_splitOn]

theorem mem_splitOn_append {rest element : GoString} (lead : GoString)
    (member : element ∈ (rest.splitOn separator).tail) :
    element ∈ (lead ++ rest).splitOn separator := by
  obtain ⟨front, last, -, text, wholes, whole⟩ := splitOn_last lead
  rw [text, List.append_assoc, splitOn_directoryText wholes, splitOn_lead whole]
  refine List.mem_append_right _ ?_
  obtain ⟨head, others, fields⟩ := List.exists_cons_of_ne_nil (List.splitOn_ne_nil separator rest)
  rw [fields] at member ⊢
  exact .tail _ member

theorem FileName.grow {name element : GoString} (named : FileName name) (inside : name <:+: element)
    (whole : separator ∉ element) : FileName element := by
  have dots : ¬element.Sublist dotDot := by
    intro dots
    have few : ∀ part ∈ dotDot.sublists, part = [] ∨ part = dot ∨ part = dotDot := by decide
    rcases few name (List.mem_sublists.2 (inside.sublist.trans dots)) with none | one | two
    · exact named.nonempty none
    · exact named.notDot one
    · exact named.notDotDot two
  refine ⟨fun none => ?_, whole, fun one => ?_, fun two => ?_⟩
  · exact dots (none ▸ List.nil_sublist _)
  · exact dots (one ▸ by decide)
  · exact dots (two ▸ List.Sublist.refl _)

theorem FileName.behind {name lead : GoString} (named : FileName name) (whole : separator ∉ lead) :
    FileName (lead ++ name) :=
  named.grow (List.suffix_append _ _).isInfix fun inside =>
    (List.mem_append.1 inside).elim whole named.noSeparator

end Bclib.Go
