import Bclib.Fs.Copy
import Bclib.Fs.PathSplit

namespace Bclib.Fs

open Data
open Go

/-! `MakeDir`: the segments of a path are joined one after the other, and a directory is made
where there is none. -/

inductive MakeFailure where
  | custom (text : GoString)
  | call (err : Errno)
  /-- The path was not split within the bound. -/
  | endless
  deriving DecidableEq, Repr

/-- The unexported `makeDir`. -/
def makeDirOnce (disk : Disk) (path : GoString) : Except Errno Disk :=
  match pathExists disk path with
  | .error err => .error err
  | .ok true => .ok disk
  | .ok false => disk.mkdir path

/-- The loop over the segments; an error comes with the disk it leaves. -/
def makeSegs : Disk → GoString → List GoString → Except (Disk × MakeFailure) Disk
  | disk, _, [] => .ok disk
  | disk, dir, seg :: rest =>
      match makeDirOnce disk (join [dir, seg]) with
      | .error err => .error (disk, .call err)
      | .ok next => makeSegs next (join [dir, seg]) rest

/-- `MakeDir`, with a bound for the depth of `PathSplit`. -/
def makeDir (levels : Nat) (disk : Disk) (path : GoString) : Except (Disk × MakeFailure) Disk :=
  if path = [] then .error (disk, .custom (str "can not make an empty dir"))
  else
    let parentDir := dir path
    if parentDir = dot ∨ parentDir = path then
      match makeDirOnce disk path with
      | .error err => .error (disk, .call err)
      | .ok next => .ok next
    else
      match pathSplit levels path with
      | none => .error (disk, .endless)
      | some segs => makeSegs disk [] segs

section MakeDir

variable {levels : Nat} {disk : Disk} {path : GoString} (nonempty : path ≠ [])

include nonempty

theorem makeDir_direct (direct : dir path = dot ∨ dir path = path) :
    makeDir levels disk path =
      match makeDirOnce disk path with
      | .error err => .error (disk, .call err)
      | .ok next => .ok next := by
  rw [makeDir, if_neg nonempty]
  exact if_pos direct

theorem makeDir_split (direct : ¬(dir path = dot ∨ dir path = path)) :
    makeDir levels disk path =
      match pathSplit levels path with
      | none => .error (disk, .endless)
      | some segs => makeSegs disk [] segs := by
  rw [makeDir, if_neg nonempty]
  exact if_neg direct

end MakeDir

theorem pathExists_iff {disk : Disk} {path : GoString} :
    pathExists disk path = .ok true ↔ ∃ node, disk.stat path = .ok node := by
  rw [pathExists]
  cases found : disk.stat path with
  | ok node => simp
  | error err => cases err <;> simp

theorem makeDirOnce_ok {disk next : Disk} {path : GoString}
    (ran : makeDirOnce disk path = .ok next) :
    Disk.Grown disk next (· = locate disk.cwd path) ∧ next.nodes (locate disk.cwd path) ≠ none := by
  rw [makeDirOnce] at ran
  cases exists' : pathExists disk path with
  | error err =>
      rw [exists'] at ran
      cases ran
  | ok there =>
      rw [exists'] at ran
      cases there with
      | true =>
          cases ran
          obtain ⟨node, found⟩ := pathExists_iff.1 exists'
          refine ⟨Disk.Grown.refl _ _, ?_⟩
          rw [Disk.stat_ok found]
          exact Option.some_ne_none _
      | false =>
          refine ⟨Disk.grown_mkdir ran, ?_⟩
          obtain ⟨missing, rfl, reachable⟩ := Disk.mkdir_ok ran
          rw [Disk.nodes_put_missing missing reachable, if_pos rfl]
          exact Option.some_ne_none _

theorem join_join (done : List GoString) (seg : GoString) :
    join [join done, seg] = join (done ++ [seg]) := by
  by_cases none : join done = []
  · have empty : done.dropWhile (·.isEmpty) = [] := by
      rw [join] at none
      split at none
      · assumption
      · exact absurd none (clean_ne_nil _)
    rw [none, join, join, List.dropWhile_append, empty]
    rfl
  · exact (join_concat none seg).symm

def Along (cwd : Place) (done segs : List GoString) (place : Place) : Prop :=
  ∃ front, front ≠ [] ∧ front <+: segs ∧ place = locate cwd (join (done ++ front))

theorem Along.step {cwd : Place} {done rest : List GoString} {seg : GoString} {place : Place}
    (along : Along cwd (done ++ [seg]) rest place) : Along cwd done (seg :: rest) place := by
  obtain ⟨front, -, isPrefix, rfl⟩ := along
  refine ⟨seg :: front, List.cons_ne_nil _ _, List.cons_prefix_cons.2 ⟨rfl, isPrefix⟩, ?_⟩
  rw [List.append_assoc, List.singleton_append]

theorem makeSegs_ok {disk final : Disk} {done segs : List GoString}
    (ran : makeSegs disk (join done) segs = .ok final) :
    Disk.Grown disk final (Along disk.cwd done segs) ∧
      (segs ≠ [] → final.nodes (locate disk.cwd (join (done ++ segs))) ≠ none) := by
  induction segs generalizing disk done with
  | nil =>
      cases ran
      exact ⟨Disk.Grown.refl _ _, fun some => absurd rfl some⟩
  | cons seg rest ih =>
      rw [makeSegs, join_join] at ran
      cases stepped : makeDirOnce disk (join (done ++ [seg])) with
      | error err =>
          rw [stepped] at ran
          cases ran
      | ok next =>
          rw [stepped] at ran
          obtain ⟨grown, present⟩ := makeDirOnce_ok stepped
          obtain ⟨later, reached⟩ := ih ran
          rw [grown.cwd] at later reached
          have here : Along disk.cwd done (seg :: rest)
              (locate disk.cwd (join (done ++ [seg]))) :=
            ⟨[seg], List.cons_ne_nil _ _, List.cons_prefix_cons.2 ⟨rfl, List.nil_prefix⟩, rfl⟩
          refine ⟨(grown.mono ?_).trans (later.mono fun _ => Along.step), fun _ => ?_⟩
          · rintro place rfl
            exact here
          · cases rest with
            | nil =>
                obtain ⟨node, there⟩ := Option.ne_none_iff_exists'.1 present
                rw [later.keeps there]
                exact Option.some_ne_none _
            | cons second rest =>
                rw [List.append_assoc, List.singleton_append] at reached
                exact reached (List.cons_ne_nil _ _)

section Segments

variable {rooted : Prop} [Decidable rooted] {kept : List GoString}

theorem segments_prefix {front : List GoString} (some : front ≠ [])
    (isPrefix : front <+: segments rooted kept) :
    ∃ part, part <:+ kept ∧ (rooted ∨ part ≠ []) ∧ front = segments rooted part := by
  induction kept with
  | nil =>
      by_cases root : rooted
      · refine ⟨[], List.suffix_rfl, .inl root, ?_⟩
        rw [segments, if_pos root] at isPrefix ⊢
        obtain ⟨first, rest, rfl⟩ := List.exists_cons_of_ne_nil some
        obtain ⟨rfl, none⟩ := List.cons_prefix_cons.1 isPrefix
        rw [List.prefix_nil.1 none]
        rfl
      · rw [segments, if_neg root] at isPrefix
        exact absurd (List.prefix_nil.1 isPrefix) some
  | cons element kept ih =>
      rw [segments_cons, List.prefix_concat_iff] at isPrefix
      rcases isPrefix with whole | isPrefix
      · exact ⟨element :: kept, List.suffix_rfl, .inr (List.cons_ne_nil _ _),
          whole.trans (segments_cons element kept).symm⟩
      · obtain ⟨part, isPart, named, same⟩ := ih isPrefix
        exact ⟨part, isPart.trans (List.suffix_cons _ _), named, same⟩

theorem locate_cleanText (shaped : Shaped rooted kept) (cwd : Place) :
    locate cwd (cleanText rooted kept) = placeOf (if rooted then [] else cwd) kept := by
  rw [locate_eq_placeOf, cleanElements_cleanText shaped,
    if_congr (rooted_cleanText shaped) rfl rfl]

omit [Decidable rooted] in
theorem placeOf_suffix (shaped : Shaped rooted kept) {part : List GoString}
    (isPart : part <:+ kept) (start : Place) :
    placeOf start part <:+ placeOf start kept ∨ placeOf start part <:+ start := by
  obtain ⟨names, up, rfl, named, -⟩ := shaped
  obtain ⟨front, split⟩ := isPart
  rcases List.append_eq_append_iff.1 split with ⟨more, rfl, rfl⟩ | ⟨more, -, ups⟩
  · refine .inl ⟨front, ?_⟩
    rw [placeOf_append, placeOf_append, placeOf_names named, placeOf_names, List.append_assoc]
    exact fun name member => named name (List.mem_append_right _ member)
  · rw [(List.append_eq_replicate_iff.1 ups.symm).2.2, placeOf_replicate]
    exact .inr (List.drop_suffix _ _)

end Segments

def MayMake (cwd : Place) (path : GoString) (place : Place) : Prop :=
  place = locate cwd (join (parts path)) ∨
    dir path ≠ dot ∧ ∃ part, part <:+ cleanElements (dir path) ∧
      place = placeOf (if Rooted (dir path) then [] else cwd) part

theorem makeDir_ok {levels : Nat} {disk final : Disk} {path : GoString} (nonempty : path ≠ [])
    (ran : makeDir levels disk path = .ok final) :
    Disk.Grown disk final (MayMake disk.cwd path) ∧
      final.nodes (locate disk.cwd (join (parts path))) ≠ none := by
  by_cases direct : dir path = dot ∨ dir path = path
  · rw [makeDir_direct nonempty direct] at ran
    have whole : locate disk.cwd (join (parts path)) = locate disk.cwd path := by
      rw [parts, if_pos direct, join_singleton nonempty, locate_clean]
    cases stepped : makeDirOnce disk path with
    | error err =>
        rw [stepped] at ran
        cases ran
    | ok next =>
        rw [stepped] at ran
        cases ran
        obtain ⟨grown, present⟩ := makeDirOnce_ok stepped
        rw [whole]
        exact ⟨grown.mono fun place same => .inl (same.trans whole.symm), present⟩
  · rw [makeDir_split nonempty direct] at ran
    obtain ⟨notDot, -⟩ := not_or.1 direct
    have split : ∀ segs, pathSplit levels path = some segs → segs = parts path := by
      intro segs split
      obtain ⟨enough, all⟩ := pathSplit_eq_parts path
      have more := pathSplit_mono split (Nat.le_max_left levels enough)
      rw [all _ (Nat.le_max_right levels enough)] at more
      exact (Option.some.inj more).symm
    cases splits : pathSplit levels path with
    | none =>
        simp only [splits] at ran
        cases ran
    | some segs =>
        simp only [splits] at ran
        rw [split segs splits] at ran
        obtain ⟨grown, reached⟩ := @makeSegs_ok disk final [] (parts path) ran
        have some : parts path ≠ [] := by
          rw [parts, if_neg direct]
          exact List.append_ne_nil_of_right_ne_nil _ (List.cons_ne_nil _ _)
        refine ⟨grown.mono ?_, reached some⟩
        rintro place ⟨front, nonempty, isPrefix, rfl⟩
        rw [List.nil_append]
        rw [parts, if_neg direct, List.prefix_concat_iff] at isPrefix
        rcases isPrefix with rfl | isPrefix
        · refine .inl ?_
          rw [parts, if_neg direct]
        · obtain ⟨part, isPart, named, rfl⟩ := segments_prefix nonempty isPrefix
          have shaped := (shaped_cleanElements (dir path)).suffix isPart
          refine .inr ⟨notDot, part, isPart, ?_⟩
          rw [join_segments shaped named, locate_cleanText shaped]

theorem makeDir_ends (path : GoString) :
    ∃ levels, ∀ more, levels ≤ more → ∀ disk after,
      makeDir more disk path ≠ .error (after, .endless) := by
  have segsEnd : ∀ segs disk dir after, makeSegs disk dir segs ≠ .error (after, .endless) := by
    intro segs
    induction segs with
    | nil =>
        rintro disk dir after ⟨⟩
    | cons seg rest ih =>
        intro disk dir after
        rw [makeSegs]
        cases makeDirOnce disk (join [dir, seg]) with
        | error err => rintro ⟨⟩
        | ok next => exact ih next _ after
  obtain ⟨levels, split⟩ := pathSplit_eq_parts path
  refine ⟨levels, fun more enough disk after => ?_⟩
  by_cases empty : path = []
  · rw [makeDir, if_pos empty]
    rintro ⟨⟩
  by_cases direct : dir path = dot ∨ dir path = path
  · rw [makeDir_direct empty direct]
    cases makeDirOnce disk path with
    | error err => rintro ⟨⟩
    | ok next => rintro ⟨⟩
  · rw [makeDir_split empty direct, split more enough]
    exact segsEnd _ _ _ _

/-- What the path goes through is a directory, or is missing on the way to where the path
leads. -/
def Goes (disk : Disk) (path : GoString) : Prop :=
  ∀ front back, path.splitOn separator = front ++ back → back ≠ [] →
    disk.nodes (front.foldl follow (disk.startOf path)) = some .directory ∨
      disk.nodes (front.foldl follow (disk.startOf path)) = none ∧
        front.foldl follow (disk.startOf path) <:+ locate disk.cwd path

/-- The path is there, and only it and what is above it is new. -/
def Leaves (disk final : Disk) (path : GoString) : Prop :=
  pathExists final path = .ok true ∧
    ∀ place, disk.nodes place = none → final.nodes place ≠ none →
      place <:+ locate disk.cwd path

theorem locate_dir {path : GoString} (notDot : dir path ≠ dot) (disk : Disk) :
    locate disk.cwd (dir path) = locate disk.cwd path ∨
      ∃ front back, path.splitOn separator = front ++ back ∧ back ≠ [] ∧
        front.foldl follow (disk.startOf path) = locate disk.cwd (dir path) := by
  obtain ⟨front, name, count, ends⟩ := exists_ends path
  by_cases trails : count = 0
  · rw [ends.dir_front trails] at notDot ⊢
    rcases ends.cut with rfl | ⟨rest, rfl⟩
    · exact absurd (by decide) notDot
    · have text : path = rest ++ [separator] ++ name := by
        rw [ends.text, trails, List.replicate_zero, List.append_nil]
      have some : rest ++ [separator] ≠ [] :=
        List.append_ne_nil_of_right_ne_nil _ (List.cons_ne_nil _ _)
      refine .inr ⟨rest.splitOn separator, [name], ?_, List.cons_ne_nil _ _, ?_⟩
      · rw [text, List.append_assoc, List.singleton_append, List.splitOn_append_cons_self,
          List.splitOn_eq_singleton ends.whole]
      · rw [locate_clean, locate, List.splitOn_append_cons_self, List.foldl_append, Disk.startOf,
          text, if_congr (rooted_append some name) rfl rfl]
        rfl
  · rw [ends.dir_self trails, locate_clean]
    exact .inl rfl

section Leaves

variable {disk final : Disk} {path : GoString}

theorem goes_of_leaves {made : Place → Prop} (nonempty : path ≠ [])
    (grown : Disk.Grown disk final made) (leaves : Leaves disk final path) : Goes disk path := by
  obtain ⟨passes, -⟩ := (Disk.stat_isOk_iff nonempty).1 (pathExists_iff.1 leaves.1)
  intro front back split some
  have passed := passes front back split some
  rw [Disk.startOf, grown.cwd] at passed
  rcases grown.nodes (front.foldl follow (disk.startOf path)) with same | ⟨missing, fresh, -⟩
  · exact .inl (same.symm.trans passed)
  · refine .inr ⟨missing, leaves.2 _ missing ?_⟩
    rw [fresh]
    exact Option.some_ne_none _

theorem exists_of_goes {made : Place → Prop} (nonempty : path ≠ [])
    (grown : Disk.Grown disk final made) (goes : Goes disk path)
    (present : final.nodes (locate disk.cwd path) ≠ none) : pathExists final path = .ok true := by
  have start : final.startOf path = disk.startOf path := by
    rw [Disk.startOf, Disk.startOf, grown.cwd]
  refine pathExists_iff.2 ((Disk.stat_isOk_iff nonempty).2 ⟨fun front back split some => ?_, ?_⟩)
  · rw [start]
    rcases goes front back split some with isDirectory | ⟨missing, names, above⟩
    · exact grown.keeps isDirectory
    · cases names with
      | nil =>
          rw [List.nil_append] at above
          rw [above] at missing ⊢
          exact (grown.fresh missing present).1
      | cons name names =>
          rw [← above] at present
          exact Disk.directory_of_append present (List.cons_ne_nil _ _)
  · rw [grown.cwd]
    exact present

theorem suffix_of_goes (notDot : dir path ≠ dot) (goes : Goes disk path) {part : List GoString}
    (isPart : part <:+ cleanElements (dir path))
    (missing : disk.nodes (placeOf (disk.startOf (dir path)) part) = none) :
    placeOf (disk.startOf (dir path)) part <:+ locate disk.cwd path := by
  have start := disk.directory_startOf (dir path)
  have shaped := shaped_cleanElements (dir path)
  have parent : locate disk.cwd (dir path) =
      placeOf (disk.startOf (dir path)) (cleanElements (dir path)) := locate_eq_placeOf _ _
  have above : placeOf (disk.startOf (dir path)) part <:+ locate disk.cwd (dir path) := by
    rcases placeOf_suffix shaped isPart (disk.startOf (dir path)) with above | above
    · rwa [parent]
    · rw [Disk.directory_of_suffix start above] at missing
      cases missing
  rcases locate_dir notDot disk with same | ⟨front, back, split, some, passed⟩
  · rwa [← same]
  · have goes := goes front back split some
    rw [passed] at goes
    rcases goes with isDirectory | ⟨-, onWay⟩
    · rw [parent] at isDirectory
      rw [Disk.directory_placeOf_suffix start shaped isDirectory isPart] at missing
      cases missing
    · exact above.trans onWay

end Leaves

/-- The segments are joined to the path again unless a separator is too many, and a run that
succeeds makes the path and nothing beside it if moreover the path goes through nothing else
that is missing. -/
theorem makeDir_leaves_iff (path : GoString) (nonempty : path ≠ []) :
    ∃ segs, (∃ levels, ∀ more, levels ≤ more → pathSplit more path = some segs) ∧
      (join segs = clean path ↔ SplitFits path) ∧
      ∀ levels disk final, makeDir levels disk path = .ok final →
        (join segs = clean path ∧ Leaves disk final path ↔ SplitFits path ∧ Goes disk path) := by
  refine ⟨parts path, pathSplit_eq_parts path, join_parts_iff nonempty, ?_⟩
  intro levels disk final ran
  obtain ⟨grown, reached⟩ := makeDir_ok nonempty ran
  rw [join_parts_iff nonempty]
  refine and_congr_right fun fits => ⟨goes_of_leaves nonempty grown, fun goes => ?_⟩
  have whole : locate disk.cwd (join (parts path)) = locate disk.cwd path := by
    rw [(join_parts_iff nonempty).2 fits, locate_clean]
  rw [whole] at reached
  refine ⟨exists_of_goes nonempty grown goes reached, fun place missing present => ?_⟩
  rcases (grown.fresh missing present).2 with last | ⟨notDot, part, isPart, rfl⟩
  · rw [last, whole]
  · exact suffix_of_goes notDot goes isPart missing

theorem makeDir_leaves_nested :
    ∃ final, makeDir 2 Disk.blank (str "x/b") = .ok final ∧
      Leaves Disk.blank final (str "x/b") := by
  have succeeds : (makeDir 2 Disk.blank (str "x/b")).isOk = true := by decide +kernel
  cases ran : makeDir 2 Disk.blank (str "x/b") with
  | error err =>
      rw [ran] at succeeds
      cases succeeds
  | ok final =>
      obtain ⟨segs, -, -, leaves⟩ := makeDir_leaves_iff (str "x/b") (by decide)
      refine ⟨final, rfl, ((leaves 2 Disk.blank final ran).2 ⟨by decide, ?_⟩).2⟩
      intro front back split some
      rw [show (str "x/b").splitOn separator = [str "x", str "b"] by decide] at split
      -- the path goes through the root and through `x`
      rcases front with _ | ⟨first, _ | ⟨second, rest⟩⟩
      · exact .inl rfl
      · obtain ⟨rfl, -⟩ := List.cons.inj split
        exact .inr (by decide)
      · obtain ⟨-, split⟩ := List.cons.inj split
        obtain ⟨-, none⟩ := List.cons.inj split
        exact absurd (List.append_eq_nil_iff.1 none.symm).2 some

/-- A separator at the end, and the last element is made a second time in itself. -/
theorem makeDir_trailing_separator :
    pathSplit 2 (str "a/") = some [str "a", str "a"] ∧
      join [str "a", str "a"] ≠ clean (str "a/") ∧
      ∃ final, makeDir 2 Disk.blank (str "a/") = .ok final ∧
        Disk.blank.nodes [str "a", str "a"] = none ∧
        final.nodes [str "a", str "a"] = some .directory ∧
        ¬[str "a", str "a"] <:+ locate Disk.blank.cwd (str "a/") := by
  have run : (makeDir 2 Disk.blank (str "a/")).toOption.map (fun final =>
      final.nodes [str "a", str "a"]) = some (some .directory) := by decide +kernel
  cases ran : makeDir 2 Disk.blank (str "a/") with
  | error err =>
      rw [ran] at run
      cases run
  | ok final =>
      rw [ran] at run
      exact ⟨by decide, by decide, final, rfl, by decide, Option.some.inj run, by decide⟩

end Bclib.Fs
