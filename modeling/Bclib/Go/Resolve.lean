import Bclib.Go.Disk

namespace Bclib.Go.Disk

open Data

/-! The way to a place: what the system calls find is at the place where the path leads, and a
cleaned path is found if what it goes through is there. -/

variable {disk : Disk}

theorem directory_of_append {names place : Place}
    (present : disk.nodes (names ++ place) ≠ none) (nonempty : names ≠ []) :
    disk.nodes place = some .directory := by
  induction names with
  | nil => exact absurd rfl nonempty
  | cons name rest ih =>
      have above := disk.inDirectory name (rest ++ place) present
      cases rest with
      | nil => exact above
      | cons next rest =>
          refine ih ?_ (List.cons_ne_nil _ _)
          rw [above]
          exact Option.some_ne_none _

theorem directory_of_suffix {place part : Place} (isDirectory : disk.nodes place = some .directory)
    (isPart : part <:+ place) : disk.nodes part = some .directory := by
  obtain ⟨names, rfl⟩ := isPart
  by_cases none : names = []
  · rwa [none] at isDirectory
  · refine directory_of_append ?_ none
    rw [isDirectory]
    exact Option.some_ne_none _

theorem named_of_present {names place : Place} (present : disk.nodes (names ++ place) ≠ none) :
    ∀ name ∈ names, FileName name := by
  induction names with
  | nil => simp
  | cons name rest ih =>
      refine List.forall_mem_cons.2 ⟨disk.named name _ present, ih ?_⟩
      rw [disk.inDirectory name (rest ++ place) present]
      exact Option.some_ne_none _

theorem directory_startOf (disk : Disk) (path : GoString) :
    disk.nodes (disk.startOf path) = some .directory := by
  rw [startOf]
  split_ifs
  · exact disk.root
  · exact disk.working

theorem enter_of_directory {place : Place} (isDirectory : disk.nodes place = some .directory)
    (element : GoString) : disk.enter place element = .ok (follow place element) := by
  rw [enter, isDirectory]

theorem enter_eq_ok_iff {place next : Place} {element : GoString} :
    disk.enter place element = .ok next ↔
      disk.nodes place = some .directory ∧ follow place element = next := by
  rw [enter]
  cases present : disk.nodes place with
  | none => simp
  | some node =>
      cases node with
      | directory => simp
      | file data => simp

theorem walkTo_cons (place : Place) (element : GoString) (rest : List GoString) :
    disk.walkTo place (element :: rest) =
      disk.enter place element >>= fun next => disk.walkTo next rest := List.foldlM_cons

theorem walkTo_concat (place : Place) (elements : List GoString) (element : GoString) :
    disk.walkTo place (elements ++ [element]) =
      disk.walkTo place elements >>= fun next => disk.enter next element := by
  rw [walkTo, List.foldlM_append]
  simp only [List.foldlM_cons, List.foldlM_nil, bind_pure]
  rfl

def Reachable (disk : Disk) (place : Place) : Prop :=
  disk.nodes place = none → ∃ name dir, place = name :: dir ∧ FileName name ∧
    disk.nodes dir = some .directory

theorem reachable_follow {place : Place} (isDirectory : disk.nodes place = some .directory)
    {element : GoString} (whole : separator ∉ element) :
    disk.Reachable (follow place element) := by
  intro missing
  rw [follow] at missing ⊢
  split_ifs at missing ⊢ with skipped parent
  · rw [isDirectory] at missing
    cases missing
  · rw [directory_of_suffix isDirectory (List.tail_suffix place)] at missing
    cases missing
  · rw [not_or] at skipped
    exact ⟨element, place, rfl, ⟨skipped.1, whole, skipped.2, parent⟩, isDirectory⟩

theorem walkTo_ok {place result : Place} {elements : List GoString}
    (reachable : disk.Reachable place) (whole : ∀ element ∈ elements, separator ∉ element)
    (found : disk.walkTo place elements = .ok result) :
    result = elements.foldl follow place ∧ disk.Reachable result := by
  induction elements generalizing place with
  | nil =>
      cases found
      exact ⟨rfl, reachable⟩
  | cons element rest ih =>
      rw [List.forall_mem_cons] at whole
      rw [walkTo_cons] at found
      cases entered : disk.enter place element with
      | error err =>
          rw [entered] at found
          cases found
      | ok next =>
          rw [entered] at found
          obtain ⟨isDirectory, rfl⟩ := enter_eq_ok_iff.1 entered
          exact ih (reachable_follow isDirectory whole.1) whole.2 found

theorem reachable_of_directory {place : Place} (isDirectory : disk.nodes place = some .directory) :
    disk.Reachable place := by
  intro missing
  rw [isDirectory] at missing
  cases missing

theorem resolve_ok {path : GoString} {place : Place} (found : disk.resolve path = .ok place) :
    place = locate disk.cwd path ∧ disk.Reachable place := by
  rw [resolve] at found
  split_ifs at found
  exact walkTo_ok (reachable_of_directory (disk.directory_startOf path))
    (fun _ member => not_mem_of_mem_splitOn member) found

theorem resolve_of_stat {path : GoString} {node : Node} (found : disk.stat path = .ok node) :
    disk.resolve path = .ok (locate disk.cwd path) ∧
      disk.nodes (locate disk.cwd path) = some node := by
  rw [stat] at found
  cases resolved : disk.resolve path with
  | error err =>
      rw [resolved] at found
      cases found
  | ok place =>
      rw [resolved] at found
      rw [← (resolve_ok resolved).1]
      refine ⟨rfl, ?_⟩
      change disk.nodeAt place = .ok node at found
      rw [nodeAt] at found
      cases present : disk.nodes place with
      | none =>
          rw [present] at found
          cases found
      | some other =>
          rw [present] at found
          cases found
          rfl

theorem stat_ok {path : GoString} {node : Node} (found : disk.stat path = .ok node) :
    disk.nodes (locate disk.cwd path) = some node := (resolve_of_stat found).2

theorem walkTo_mono {later : Disk} (keeps : ∀ place, disk.nodes place = some .directory →
      later.nodes place = some .directory) {place result : Place} {elements : List GoString}
    (found : disk.walkTo place elements = .ok result) :
    later.walkTo place elements = .ok result := by
  induction elements generalizing place with
  | nil => exact found
  | cons element rest ih =>
      rw [walkTo_cons] at found ⊢
      cases entered : disk.enter place element with
      | error err =>
          rw [entered] at found
          cases found
      | ok next =>
          rw [entered] at found
          obtain ⟨isDirectory, same⟩ := enter_eq_ok_iff.1 entered
          rw [enter_eq_ok_iff.2 ⟨keeps place isDirectory, same⟩]
          exact ih found

theorem resolve_mono {later : Disk} (keeps : ∀ place, disk.nodes place = some .directory →
      later.nodes place = some .directory) (cwd : later.cwd = disk.cwd) {path : GoString}
    {place : Place} (found : disk.resolve path = .ok place) :
    later.resolve path = .ok place := by
  rw [resolve] at found ⊢
  split_ifs at found ⊢ with empty
  rw [startOf, cwd]
  exact walkTo_mono keeps found

def Passes (disk : Disk) (place : Place) (elements : List GoString) : Prop :=
  ∀ front back, elements = front ++ back → back ≠ [] →
    disk.nodes (front.foldl follow place) = some .directory

theorem walkTo_eq_ok_iff {place result : Place} {elements : List GoString} :
    disk.walkTo place elements = .ok result ↔
      disk.Passes place elements ∧ elements.foldl follow place = result := by
  induction elements generalizing place with
  | nil =>
      constructor
      · intro found
        cases found
        exact ⟨fun front back split some =>
          absurd (List.append_eq_nil_iff.1 split.symm).2 some, rfl⟩
      · rintro ⟨-, rfl⟩
        rfl
  | cons element rest ih =>
      rw [walkTo_cons]
      constructor
      · intro found
        cases entered : disk.enter place element with
        | error err =>
            rw [entered] at found
            cases found
        | ok next =>
            rw [entered] at found
            obtain ⟨isDirectory, rfl⟩ := enter_eq_ok_iff.1 entered
            obtain ⟨passes, same⟩ := ih.1 found
            refine ⟨fun front back split some => ?_, same⟩
            cases front with
            | nil => exact isDirectory
            | cons first front =>
                obtain ⟨rfl, rest⟩ := List.cons.inj split
                exact passes front back rest some
      · rintro ⟨passes, same⟩
        have isDirectory : disk.nodes place = some .directory :=
          passes [] _ rfl (List.cons_ne_nil _ _)
        rw [enter_of_directory isDirectory]
        exact ih.2 ⟨fun front back split some =>
          passes (element :: front) back (congrArg (element :: ·) split) some, same⟩

theorem stat_isOk_iff {path : GoString} (nonempty : path ≠ []) :
    (∃ node, disk.stat path = .ok node) ↔
      disk.Passes (disk.startOf path) (path.splitOn separator) ∧
        disk.nodes (locate disk.cwd path) ≠ none := by
  constructor
  · rintro ⟨node, found⟩
    obtain ⟨resolved, present⟩ := resolve_of_stat found
    rw [resolve, if_neg nonempty] at resolved
    refine ⟨(walkTo_eq_ok_iff.1 resolved).1, ?_⟩
    rw [present]
    exact Option.some_ne_none _
  · rintro ⟨passes, present⟩
    obtain ⟨node, present⟩ := Option.ne_none_iff_exists'.1 present
    refine ⟨node, ?_⟩
    rw [stat, resolve, if_neg nonempty, walkTo_eq_ok_iff.2 ⟨passes, rfl⟩]
    change disk.nodeAt (locate disk.cwd path) = _
    rw [nodeAt, present]

theorem foldl_follow_filter (elements : List GoString) (place : Place) :
    (elements.filter (· ≠ [])).foldl follow place = elements.foldl follow place := by
  induction elements generalizing place with
  | nil => rfl
  | cons element rest ih =>
      by_cases empty : element = []
      · rw [List.filter_cons_of_neg (by simp [empty]), ih, empty]
        rfl
      · rw [List.filter_cons_of_pos (by simp [empty])]
        exact ih _

theorem mkdir_ok {path : GoString} {made : Disk} (ran : disk.mkdir path = .ok made) :
    disk.nodes (locate disk.cwd path) = none ∧
      made = disk.put (locate disk.cwd path) .directory ∧
      disk.Reachable (locate disk.cwd path) := by
  rw [mkdir] at ran
  split_ifs at ran
  cases found : disk.walkTo (disk.startOf path) ((path.splitOn separator).filter (· ≠ [])) with
  | error err =>
      rw [found] at ran
      cases ran
  | ok place =>
      rw [found] at ran
      obtain ⟨same, reachable⟩ := walkTo_ok
        (reachable_of_directory (disk.directory_startOf path))
        (fun _ member => not_mem_of_mem_splitOn (List.mem_of_mem_filter member)) found
      rw [foldl_follow_filter] at same
      have located : locate disk.cwd path = place := same.symm
      rw [located]
      cases missing : disk.nodes place with
      | some node =>
          simp only [missing] at ran
          cases ran
      | none =>
          simp only [missing] at ran
          cases ran
          exact ⟨rfl, rfl, reachable⟩

theorem admits_of_missing {place : Place} (missing : disk.nodes place = none)
    (reachable : disk.Reachable place) (node : Node) :
    ∃ name dir, place = name :: dir ∧ disk.Admits name dir node := by
  obtain ⟨name, dir, rfl, named, isDirectory⟩ := reachable missing
  refine ⟨name, dir, rfl, isDirectory, named, ?_⟩
  rw [missing]
  exact trivial

theorem admits_of_file {place : Place} {old : List Byte}
    (present : disk.nodes place = some (.file old)) (data : List Byte) :
    ∃ name dir, place = name :: dir ∧ disk.Admits name dir (.file data) := by
  have some : disk.nodes place ≠ none := by
    rw [present]
    exact Option.some_ne_none _
  cases place with
  | nil =>
      rw [disk.root] at present
      cases present
  | cons name dir =>
      refine ⟨name, dir, rfl, disk.inDirectory name dir some, disk.named name dir some, ?_⟩
      rw [present]
      exact trivial

theorem nodes_put_file {place : Place} {old : List Byte}
    (present : disk.nodes place = some (.file old)) (data : List Byte) (other : Place) :
    (disk.put place (.file data)).nodes other =
      if other = place then some (.file data) else disk.nodes other := by
  obtain ⟨name, dir, rfl, fits⟩ := admits_of_file present data
  exact nodes_put fits other

theorem nodes_put_missing {place : Place} (missing : disk.nodes place = none)
    (reachable : disk.Reachable place) (node : Node) (other : Place) :
    (disk.put place node).nodes other = if other = place then some node else disk.nodes other := by
  obtain ⟨name, dir, rfl, fits⟩ := admits_of_missing missing reachable node
  exact nodes_put fits other

structure Grown (before after : Disk) (made : Place → Prop) : Prop where
  cwd : after.cwd = before.cwd
  nodes : ∀ place, after.nodes place = before.nodes place ∨
    before.nodes place = none ∧ after.nodes place = some .directory ∧ made place

section Grown

variable {before after later : Disk} {made other : Place → Prop}

theorem Grown.refl (disk : Disk) (made : Place → Prop) : Grown disk disk made :=
  ⟨rfl, fun _ => .inl rfl⟩

theorem Grown.mono (grown : Grown before after made) (more : ∀ place, made place → other place) :
    Grown before after other :=
  ⟨grown.cwd, fun place => (grown.nodes place).imp_right fun fresh =>
    ⟨fresh.1, fresh.2.1, more place fresh.2.2⟩⟩

theorem Grown.trans (first : Grown before after made) (second : Grown after later made) :
    Grown before later made := by
  refine ⟨second.cwd.trans first.cwd, fun place => ?_⟩
  rcases second.nodes place with same | ⟨missing, fresh⟩
  · rw [same]
    exact first.nodes place
  · rcases first.nodes place with same | ⟨-, present, -⟩
    · exact .inr ⟨same ▸ missing, fresh⟩
    · rw [present] at missing
      cases missing

theorem Grown.keeps (grown : Grown before after made) {place : Place} {node : Node}
    (present : before.nodes place = some node) : after.nodes place = some node := by
  rcases grown.nodes place with same | ⟨missing, -⟩
  · rw [same, present]
  · rw [present] at missing
    cases missing

theorem Grown.fresh (grown : Grown before after made) {place : Place}
    (missing : before.nodes place = none) (present : after.nodes place ≠ none) :
    after.nodes place = some .directory ∧ made place := by
  rcases grown.nodes place with same | ⟨-, fresh⟩
  · rw [same] at present
    exact absurd missing present
  · exact fresh

theorem Grown.file_iff (grown : Grown before after made) {place : Place} {data : List Byte} :
    after.nodes place = some (.file data) ↔ before.nodes place = some (.file data) := by
  rcases grown.nodes place with same | ⟨missing, fresh, -⟩
  · rw [same]
  · rw [missing, fresh]
    simp

theorem grown_mkdir {path : GoString} (ran : before.mkdir path = .ok after) :
    Grown before after (· = locate before.cwd path) := by
  obtain ⟨missing, rfl, reachable⟩ := mkdir_ok ran
  refine ⟨cwd_put _ _ _, fun place => ?_⟩
  rw [nodes_put_missing missing reachable]
  split_ifs with same
  · exact .inr ⟨same ▸ missing, rfl, same⟩
  · exact .inl rfl

end Grown

def content (disk : Disk) (place : Place) : List Byte :=
  match disk.nodes place with
  | some (.file data) => data
  | _ => []

theorem readAt_ok {place : Place} {data : List Byte} (read : disk.readAt place = .ok data) :
    disk.nodes place = some (.file data) := by
  rw [readAt] at read
  cases present : disk.nodes place with
  | none =>
      rw [present] at read
      cases read
  | some node =>
      rw [present] at read
      cases node with
      | directory => cases read
      | file bytes =>
          cases read
          rfl

theorem openWrite_ok {truncates : Bool} {path : GoString} {opened : Disk} {place : Place}
    (ran : disk.openWrite truncates path = .ok (opened, place)) :
    place = locate disk.cwd path ∧ opened.cwd = disk.cwd ∧
      disk.nodes place ≠ some .directory ∧
      ∀ other, opened.nodes other =
        if other = place then some (.file (if truncates then [] else disk.content place))
        else disk.nodes other := by
  rw [openWrite] at ran
  cases found : disk.resolve path with
  | error err =>
      rw [found] at ran
      cases ran
  | ok resolved =>
      obtain ⟨located, reachable⟩ := resolve_ok found
      rw [found] at ran
      cases present : disk.nodes resolved with
      | none =>
          simp only [present, Except.ok.injEq, Prod.mk.injEq] at ran
          obtain ⟨rfl, rfl⟩ := ran
          refine ⟨located, cwd_put _ _ _, ?_, fun other => ?_⟩
          · rw [present]
            exact Option.some_ne_none _ |>.symm
          · have empty : disk.content resolved = [] := by rw [content, present]
            rw [nodes_put_missing present reachable, empty, ite_self]
      | some node =>
          cases node with
          | directory =>
              simp only [present] at ran
              cases ran
          | file data =>
              simp only [present, Except.ok.injEq, Prod.mk.injEq] at ran
              obtain ⟨rfl, rfl⟩ := ran
              have old : disk.content resolved = data := by rw [content, present]
              refine ⟨located, ?_, ?_, fun other => ?_⟩
              · split_ifs
                · exact cwd_put _ _ _
                · rfl
              · rw [present]
                simp
              · cases truncates with
                | true => exact nodes_put_file present [] other
                | false =>
                    rw [if_neg Bool.false_ne_true, if_neg Bool.false_ne_true, old]
                    split_ifs with same
                    · rw [same, present]
                    · rfl

def startFor (disk : Disk) (rooted : Prop) [Decidable rooted] : Place :=
  if rooted then [] else disk.cwd

theorem directory_startFor (disk : Disk) (rooted : Prop) [Decidable rooted] :
    disk.nodes (disk.startFor rooted) = some .directory := by
  rw [startFor]
  split_ifs
  · exact disk.root
  · exact disk.working

section Spelled

variable {rooted : Prop} {kept : List GoString} {element : GoString}

theorem directory_placeOf {start : Place} (isDirectory : disk.nodes start = some .directory)
    (shaped : Shaped rooted (element :: kept))
    (present : disk.nodes (placeOf start (element :: kept)) ≠ none) :
    disk.nodes (placeOf start kept) = some .directory := by
  rcases shaped.head with named | ⟨-, ups⟩
  · refine disk.inDirectory element _ ?_
    rwa [← follow_fileName named]
  · rw [ups, placeOf_replicate]
    exact directory_of_suffix isDirectory (List.drop_suffix _ _)

theorem directory_placeOf_suffix {start : Place}
    (isDirectory : disk.nodes start = some .directory) (shaped : Shaped rooted kept)
    (present : disk.nodes (placeOf start kept) = some .directory) {part : List GoString}
    (isPart : part <:+ kept) : disk.nodes (placeOf start part) = some .directory := by
  obtain ⟨front, rfl⟩ := isPart
  induction front with
  | nil => exact present
  | cons element front ih =>
      refine ih (shaped.suffix (List.suffix_cons element _)) ?_
      refine directory_placeOf isDirectory shaped ?_
      rw [show element :: (front ++ part) = element :: front ++ part from rfl, present]
      exact Option.some_ne_none _

theorem walkTo_shaped {start : Place} (isDirectory : disk.nodes start = some .directory)
    (shaped : Shaped rooted (element :: kept))
    (through : disk.nodes (placeOf start kept) = some .directory) :
    disk.walkTo start (element :: kept).reverse = .ok (placeOf start (element :: kept)) := by
  induction kept generalizing element with
  | nil =>
      rw [List.reverse_singleton, walkTo_cons, enter_of_directory isDirectory]
      rfl
  | cons next rest ih =>
      have shapedRest := shaped.suffix (List.suffix_cons element _)
      have above := directory_placeOf isDirectory shapedRest (by
        rw [through]
        exact Option.some_ne_none _)
      rw [List.reverse_cons, walkTo_concat, ih shapedRest above]
      exact enter_of_directory through element

variable [Decidable rooted]

theorem spell_ne_nil (shaped : Shaped rooted kept) (nonempty : kept ≠ []) :
    spell rooted kept ≠ [] := by
  intro empty
  have split := splitOn_spell shaped nonempty
  rw [empty, List.splitOn_nil] at split
  by_cases flag : rooted
  · rw [if_pos flag] at split
    exact nonempty (List.reverse_eq_nil_iff.1 (List.append_right_eq_self.1 split.symm))
  · rw [if_neg flag, List.nil_append] at split
    have first : [] ∈ kept.reverse := by
      rw [← split]
      exact List.mem_singleton.2 rfl
    exact (shaped.whole [] (List.mem_reverse.1 first)).1 rfl

theorem startOf_spell (shaped : Shaped rooted kept) (nonempty : kept ≠ []) :
    disk.startOf (spell rooted kept) = disk.startFor rooted := by
  rw [startOf, startFor, if_congr (rooted_spell shaped nonempty) rfl rfl]

theorem resolve_spell (shaped : Shaped rooted kept) (nonempty : kept ≠ []) :
    disk.resolve (spell rooted kept) = disk.walkTo (disk.startFor rooted) kept.reverse := by
  rw [resolve, if_neg (spell_ne_nil shaped nonempty), startOf_spell shaped nonempty,
    splitOn_spell shaped nonempty, startFor]
  by_cases flag : rooted
  · rw [if_pos flag, if_pos flag, List.singleton_append, walkTo_cons,
      enter_of_directory disk.root]
    rfl
  · rw [if_neg flag, if_neg flag, List.nil_append]

theorem locate_spell_disk (shaped : Shaped rooted kept) (nonempty : kept ≠ []) :
    locate disk.cwd (spell rooted kept) = placeOf (disk.startFor rooted) kept :=
  locate_spell shaped nonempty disk.cwd

theorem stat_spell_iff (shaped : Shaped rooted kept) (nonempty : kept ≠ []) {node : Node} :
    disk.stat (spell rooted kept) = .ok node ↔
      disk.nodes (placeOf (disk.startFor rooted) kept) = some node := by
  constructor
  · intro found
    rw [← locate_spell_disk shaped nonempty]
    exact stat_ok found
  · intro present
    cases kept with
    | nil => exact absurd rfl nonempty
    | cons element rest =>
        have through := directory_placeOf (disk.directory_startFor rooted) shaped (by
          rw [present]
          exact Option.some_ne_none _)
        rw [stat, resolve_spell shaped nonempty,
          walkTo_shaped (disk.directory_startFor rooted) shaped through]
        change disk.nodeAt _ = _
        rw [nodeAt, present]

theorem filter_splitOn_spell (shaped : Shaped rooted kept) (nonempty : kept ≠ []) :
    ((spell rooted kept).splitOn separator).filter (· ≠ []) = kept.reverse := by
  have whole : kept.reverse.filter (· ≠ []) = kept.reverse :=
    List.filter_eq_self.2 fun element member =>
      decide_eq_true (shaped.whole element (List.mem_reverse.1 member)).1
  rw [splitOn_spell shaped nonempty, List.filter_append, whole]
  split_ifs <;> rfl

theorem mkdir_spell (shaped : Shaped rooted (element :: kept))
    (through : disk.nodes (placeOf (disk.startFor rooted) kept) = some .directory)
    (missing : disk.nodes (placeOf (disk.startFor rooted) (element :: kept)) = none) :
    disk.mkdir (spell rooted (element :: kept)) =
      .ok (disk.put (placeOf (disk.startFor rooted) (element :: kept)) .directory) := by
  have nonempty := List.cons_ne_nil element kept
  rw [mkdir, if_neg (spell_ne_nil shaped nonempty), startOf_spell shaped nonempty,
    filter_splitOn_spell shaped nonempty,
    walkTo_shaped (disk.directory_startFor rooted) shaped through]
  simp only [missing]

theorem parentText_spell (shaped : Shaped rooted (element :: kept)) :
    parentText (spell rooted (element :: kept)) =
      if kept = [] then none else some (spell rooted kept) := by
  obtain ⟨some, whole⟩ := shaped.whole element List.mem_cons_self
  have text : (spell rooted (element :: kept)).reverse = element.reverse ++
      ((if rooted then [separator] else []) ++ directoryText kept.reverse).reverse := by
    rw [spell, List.reverse_cons, intercalate_last, ← List.append_assoc, List.reverse_append]
  rw [parentText, text, dropWhile_separator some whole,
    List.dropWhile_append_of_pos (bne_separator whole)]
  cases kept with
  | nil => by_cases flag : rooted <;> simp [flag, directoryText]
  | cons next rest =>
      have front : (if rooted then [separator] else []) ++ directoryText (next :: rest).reverse =
          spell rooted (next :: rest) ++ [separator] := by
        rw [spell, List.reverse_cons, intercalate_last, directoryText, directoryText,
          List.flatMap_append]
        simp
      have nonempty := spell_ne_nil (shaped.suffix (List.suffix_cons element _))
        (List.cons_ne_nil next rest)
      rw [front, List.reverse_append, List.reverse_singleton, List.singleton_append,
        List.dropWhile_cons_of_neg (by simp), if_neg (List.cons_ne_nil next rest)]
      cases back : (spell rooted (next :: rest)).reverse with
      | nil => exact absurd (List.reverse_eq_nil_iff.1 back) nonempty
      | cons first more =>
          rw [← List.reverse_reverse (spell rooted (next :: rest)), back]

theorem stat_spell_missing (shaped : Shaped rooted kept) (nonempty : kept ≠ [])
    (missing : disk.nodes (placeOf (disk.startFor rooted) kept) = none) :
    ∃ err, disk.stat (spell rooted kept) = .error err := by
  cases found : disk.stat (spell rooted kept) with
  | error err => exact ⟨err, rfl⟩
  | ok node =>
      rw [stat_spell_iff shaped nonempty, missing] at found
      cases found

theorem mkdirAllWithin_directory {path : GoString} (found : disk.stat path = .ok .directory)
    (fuel : Nat) : disk.mkdirAllWithin fuel path = ⟨disk, [], none⟩ := by
  cases fuel with
  | zero => rfl
  | succ fuel => rw [mkdirAllWithin, found]

theorem mkdirAllWithin_child (shaped : Shaped rooted (element :: kept))
    (through : disk.nodes (placeOf (disk.startFor rooted) kept) = some .directory)
    (missing : disk.nodes (placeOf (disk.startFor rooted) (element :: kept)) = none) (fuel : Nat) :
    disk.mkdirAllWithin (fuel + 1) (spell rooted (element :: kept)) =
      ⟨disk.put (placeOf (disk.startFor rooted) (element :: kept)) .directory,
        [spell rooted (element :: kept)], none⟩ := by
  obtain ⟨err, failed⟩ := stat_spell_missing shaped (List.cons_ne_nil _ _) missing
  have finished : Made.finish ⟨disk, [], none⟩ (spell rooted (element :: kept)) =
      ⟨disk.put (placeOf (disk.startFor rooted) (element :: kept)) .directory,
        [spell rooted (element :: kept)], none⟩ := by
    simp only [Made.finish, mkdir_spell shaped through missing]
    rfl
  rw [mkdirAllWithin, failed, parentText_spell shaped]
  by_cases alone : kept = []
  · rw [if_pos alone]
    exact finished
  · have there := (stat_spell_iff (shaped.suffix (List.suffix_cons element _)) alone).2 through
    rw [if_neg alone, ← finished]
    exact congrArg (Made.finish · _) (mkdirAllWithin_directory there fuel)

structure MadeWithin (disk : Disk) (rooted : Prop) [Decidable rooted] (kept : List GoString)
    (made : Made) : Prop where
  cwd : made.disk.cwd = disk.cwd
  keeps : ∀ place node, disk.nodes place = some node → made.disk.nodes place = some node
  paths : ∀ path ∈ made.paths, ∃ part, part <:+ kept ∧ part ≠ [] ∧ path = spell rooted part ∧
    disk.nodes (placeOf (disk.startFor rooted) part) = none

theorem madeWithin_nothing (err : Option Errno) : MadeWithin disk rooted kept ⟨disk, [], err⟩ :=
  ⟨rfl, fun _ _ present => present, by simp⟩

theorem MadeWithin.finish {made : Made} (within : MadeWithin disk rooted kept made)
    (shaped : Shaped rooted (element :: kept)) :
    MadeWithin disk rooted (element :: kept) (made.finish (spell rooted (element :: kept))) := by
  have nonempty := List.cons_ne_nil element kept
  have widened : ∀ err, MadeWithin disk rooted (element :: kept) { made with err := err } := by
    refine fun err => ⟨within.cwd, within.keeps, fun path member => ?_⟩
    obtain ⟨part, isPart, rest⟩ := within.paths path member
    exact ⟨part, isPart.trans (List.suffix_cons element kept), rest⟩
  cases failed : made.err with
  | some err =>
      simp only [Made.finish, failed]
      exact widened made.err
  | none =>
      cases ran : made.disk.mkdir (spell rooted (element :: kept)) with
      | error err =>
          simp only [Made.finish, failed, ran]
          split_ifs
          · exact widened made.err
          · exact widened (some err)
      | ok after =>
          obtain ⟨missing, rfl, reachable⟩ := mkdir_ok ran
          simp only [Made.finish, failed, ran]
          refine ⟨(cwd_put _ _ _).trans within.cwd, fun place node present => ?_, ?_⟩
          · have old := within.keeps place node present
            rw [nodes_put_missing missing reachable, if_neg]
            · exact old
            · rintro rfl
              rw [missing] at old
              cases old
          · intro path member
            rcases List.mem_append.1 member with member | member
            · exact (widened made.err).paths path member
            · refine ⟨element :: kept, List.suffix_refl _, nonempty, List.mem_singleton.1 member, ?_⟩
              rw [within.cwd, locate_spell_disk shaped nonempty] at missing
              cases present : disk.nodes (placeOf (disk.startFor rooted) (element :: kept)) with
              | none => rfl
              | some node =>
                  rw [within.keeps _ _ present] at missing
                  cases missing

theorem mkdirAllWithin_spec (shaped : Shaped rooted kept) (nonempty : kept ≠ []) (fuel : Nat) :
    MadeWithin disk rooted kept (disk.mkdirAllWithin fuel (spell rooted kept)) := by
  induction fuel generalizing kept with
  | zero => exact madeWithin_nothing none
  | succ fuel ih =>
      cases kept with
      | nil => exact absurd rfl nonempty
      | cons element rest =>
          rw [mkdirAllWithin]
          cases found : disk.stat (spell rooted (element :: rest)) with
          | ok node =>
              cases node with
              | directory => exact madeWithin_nothing none
              | file data => exact madeWithin_nothing (some .notDirectory)
          | error err =>
              rw [parentText_spell shaped]
              by_cases alone : rest = []
              · rw [if_pos alone]
                subst alone
                exact (madeWithin_nothing none).finish shaped
              · rw [if_neg alone]
                exact (ih (shaped.suffix (List.suffix_cons element rest)) alone).finish shaped

theorem Made.finish_paths {made : Made} (some : made.paths ≠ []) (path : GoString) :
    (made.finish path).paths ≠ [] := by
  rw [Made.finish]
  split
  · exact some
  · split
    · exact List.append_ne_nil_of_left_ne_nil some _
    · split_ifs <;> exact some

theorem stat_spell_parent (shaped : Shaped rooted (element :: kept)) (nonempty : kept ≠ [])
    {err : Errno} (failed : disk.stat (spell rooted (element :: kept)) = .error err)
    (through : disk.nodes (placeOf (disk.startFor rooted) kept) ≠ some .directory) :
    disk.stat (spell rooted kept) = .error err ∨
      err = .notDirectory ∧ ∃ data, disk.stat (spell rooted kept) = .ok (.file data) := by
  have shapedRest := shaped.suffix (List.suffix_cons element kept)
  rw [stat, resolve_spell shaped (List.cons_ne_nil _ _), List.reverse_cons, walkTo_concat,
    ← resolve_spell shapedRest nonempty] at failed
  cases resolved : disk.resolve (spell rooted kept) with
  | error other =>
      rw [resolved] at failed
      rw [stat, resolved]
      exact .inl failed
  | ok place =>
      have located := (resolve_ok resolved).1
      rw [locate_spell_disk shapedRest nonempty] at located
      rw [resolved, located] at failed
      change (disk.enter _ element >>= _) = _ at failed
      rw [enter] at failed
      cases present : disk.nodes (placeOf (disk.startFor rooted) kept) with
      | none =>
          rw [present] at failed
          cases failed
          refine .inl ?_
          rw [stat, resolved, located]
          change disk.nodeAt _ = _
          rw [nodeAt, present]
      | some node =>
          cases node with
          | directory => exact absurd present through
          | file data =>
              rw [present] at failed
              cases failed
              exact .inr ⟨rfl, data, (stat_spell_iff shapedRest nonempty).2 present⟩

theorem mkdirAllWithin_acts (shaped : Shaped rooted kept) (nonempty : kept ≠ [])
    (missing : disk.stat (spell rooted kept) = .error .notExist) {fuel : Nat}
    (enough : kept.length ≤ fuel) :
    (disk.mkdirAllWithin fuel (spell rooted kept)).paths ≠ [] := by
  induction kept generalizing fuel with
  | nil => exact absurd rfl nonempty
  | cons element rest ih =>
      obtain ⟨fuel, rfl⟩ := Nat.exists_eq_add_of_le' (Nat.le_trans (Nat.succ_pos _) enough)
      have shapedRest := shaped.suffix (List.suffix_cons element rest)
      have gone : disk.nodes (placeOf (disk.startFor rooted) (element :: rest)) = none := by
        cases present : disk.nodes (placeOf (disk.startFor rooted) (element :: rest)) with
        | none => rfl
        | some node =>
            rw [(stat_spell_iff shaped nonempty).2 present] at missing
            cases missing
      by_cases through : disk.nodes (placeOf (disk.startFor rooted) rest) = some .directory
      · rw [mkdirAllWithin_child shaped through gone]
        exact List.cons_ne_nil _ _
      · -- the parent is missing as well, and something is made for it
        have alone : rest ≠ [] := by
          rintro rfl
          exact through (disk.directory_startFor rooted)
        have parent : disk.stat (spell rooted rest) = .error .notExist := by
          rcases stat_spell_parent shaped alone missing through with parent | ⟨barred, -⟩
          · exact parent
          · cases barred
        rw [mkdirAllWithin, missing, parentText_spell shaped, if_neg alone]
        exact Made.finish_paths (ih shapedRest alone parent (Nat.le_of_succ_le_succ enough)) _

theorem mkdirAllWithin_barred (shaped : Shaped rooted kept) (nonempty : kept ≠ [])
    {err : Errno} (failed : disk.stat (spell rooted kept) = .error err) (barred : err ≠ .notExist)
    {fuel : Nat} (enough : kept.length ≤ fuel) :
    ∃ final, disk.mkdirAllWithin fuel (spell rooted kept) = ⟨disk, [], some final⟩ := by
  induction kept generalizing fuel with
  | nil => exact absurd rfl nonempty
  | cons element rest ih =>
      obtain ⟨fuel, rfl⟩ := Nat.exists_eq_add_of_le' (Nat.le_trans (Nat.succ_pos _) enough)
      have few : rest.length ≤ fuel := Nat.le_of_succ_le_succ enough
      have shapedRest := shaped.suffix (List.suffix_cons element rest)
      have through : disk.nodes (placeOf (disk.startFor rooted) rest) ≠ some .directory := by
        intro through
        have walked := walkTo_shaped (disk.directory_startFor rooted) shaped through
        rw [stat, resolve_spell shaped nonempty, walked] at failed
        change disk.nodeAt _ = _ at failed
        rw [nodeAt] at failed
        split at failed
        · cases failed
        · cases failed
          exact barred rfl
      have alone : rest ≠ [] := by
        rintro rfl
        exact through (disk.directory_startFor rooted)
      have above : ∃ final, disk.mkdirAllWithin fuel (spell rooted rest) =
          ⟨disk, [], some final⟩ := by
        rcases stat_spell_parent shaped alone failed through with parent | ⟨-, data, found⟩
        · exact ih shapedRest alone parent few
        · obtain ⟨fuel, rfl⟩ := Nat.exists_eq_add_of_le'
            (Nat.le_trans (List.length_pos_iff.2 alone) few)
          exact ⟨.notDirectory, by rw [mkdirAllWithin, found]⟩
      obtain ⟨final, above⟩ := above
      refine ⟨final, ?_⟩
      rw [mkdirAllWithin, failed, parentText_spell shaped, if_neg alone]
      simp only [above]
      rfl

theorem length_le_spell (shaped : Shaped rooted kept) (nonempty : kept ≠ []) :
    kept.length ≤ (spell rooted kept).length + 1 := by
  have few := length_splitOn_le separator (spell rooted kept)
  rw [splitOn_spell shaped nonempty, List.length_append, List.length_reverse] at few
  omega

end Spelled

theorem resolve_clean_of_no_elements {path : GoString} (none : cleanElements path = []) :
    disk.resolve (clean path) = .ok (disk.startFor (Rooted path)) := by
  have passed : ∀ {start : Place} {elements : List GoString},
      disk.nodes start = some .directory → (∀ element ∈ elements, element = [] ∨ element = dot) →
      disk.walkTo start elements = .ok start := by
    intro start elements isDirectory passes
    induction elements with
    | nil => rfl
    | cons element rest ih =>
        rw [List.forall_mem_cons] at passes
        rw [walkTo_cons, enter_of_directory isDirectory, follow, if_pos passes.1]
        exact ih passes.2
  have passes : ∀ element ∈ (clean path).splitOn separator, element = [] ∨ element = dot := by
    rw [clean_eq_root none]
    split_ifs
    · decide
    · decide
  rw [resolve, if_neg (clean_ne_nil path), passed (disk.directory_startOf _) passes, startOf,
    startFor, if_congr (rooted_clean path) rfl rfl]

theorem stat_clean_of_no_elements {path : GoString} (none : cleanElements path = []) :
    disk.stat (clean path) = .ok .directory := by
  rw [stat, resolve_clean_of_no_elements none]
  change disk.nodeAt _ = _
  rw [nodeAt, disk.directory_startFor]

theorem resolve_clean {path : GoString} (through : ∀ name dir,
      locate disk.cwd path = name :: dir → disk.nodes dir = some .directory) :
    disk.resolve (clean path) = .ok (locate disk.cwd path) := by
  have shaped := shaped_cleanElements path
  have located : locate disk.cwd path =
      placeOf (disk.startFor (Rooted path)) (cleanElements path) := locate_eq_placeOf _ _
  cases elements : cleanElements path with
  | nil =>
      rw [resolve_clean_of_no_elements elements, located, elements]
      rfl
  | cons element rest =>
      rw [elements] at located shaped
      rw [clean_eq_spell (elements ▸ List.cons_ne_nil _ _), elements,
        resolve_spell shaped (List.cons_ne_nil _ _),
        walkTo_shaped (disk.directory_startFor _) shaped, located]
      rcases shaped.head with named | ⟨-, ups⟩
      · exact through element _ (located.trans (follow_fileName named _))
      · rw [ups, placeOf_replicate]
        exact directory_of_suffix (disk.directory_startFor _) (List.drop_suffix _ _)

theorem stat_clean {path : GoString} {node : Node}
    (present : disk.nodes (locate disk.cwd path) = some node) :
    disk.stat (clean path) = .ok node := by
  have through : ∀ name dir, locate disk.cwd path = name :: dir →
      disk.nodes dir = some .directory := by
    intro name dir located
    refine disk.inDirectory name dir ?_
    rw [← located, present]
    exact Option.some_ne_none _
  rw [stat, resolve_clean through]
  change disk.nodeAt _ = _
  rw [nodeAt, present]

theorem mkdirAll_clean {path name : GoString} {dir : Place}
    (located : locate disk.cwd path = name :: dir)
    (isDirectory : disk.nodes dir = some .directory)
    (missing : disk.nodes (name :: dir) = none) :
    disk.mkdirAll (clean path) = ⟨disk.put (name :: dir) .directory, [clean path], none⟩ := by
  have shaped := shaped_cleanElements path
  have place : locate disk.cwd path =
      placeOf (disk.startFor (Rooted path)) (cleanElements path) := locate_eq_placeOf _ _
  cases elements : cleanElements path with
  | nil =>
      rw [elements] at place
      have there := disk.directory_startFor (Rooted path)
      rw [show disk.startFor (Rooted path) = name :: dir from place.symm.trans located,
        missing] at there
      cases there
  | cons element rest =>
      rw [elements] at place shaped
      have gone : disk.nodes (placeOf (disk.startFor (Rooted path)) (element :: rest)) = none := by
        rw [← place, located, missing]
      have through : disk.nodes (placeOf (disk.startFor (Rooted path)) rest) =
          some .directory := by
        rcases shaped.head with named | ⟨-, ups⟩
        · have same : element :: placeOf (disk.startFor (Rooted path)) rest = name :: dir := by
            rw [← located, place]
            exact (follow_fileName named _).symm
          rw [(List.cons.inj same).2]
          exact isDirectory
        · rw [ups, placeOf_replicate]
          exact directory_of_suffix (disk.directory_startFor _) (List.drop_suffix _ _)
      rw [clean_eq_spell (elements ▸ List.cons_ne_nil _ _), elements, mkdirAll,
        mkdirAllWithin_child shaped through gone, ← place, located]

end Bclib.Go.Disk
