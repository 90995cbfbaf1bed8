import Bclib.Data.Runs
import Bclib.Go.Resolve

namespace Bclib.Fs

open Data
open Go

/-! `UnTarGz`: the entries of an archive are written below a directory. -/

inductive Typeflag where
  | dir
  | reg
  | other
  deriving DecidableEq, Repr

/-- An entry as `tar.Reader` gives it: the header, what can be read of its data, and whether
this is all of it. -/
structure Entry where
  name : GoString
  typeflag : Typeflag
  data : List Byte
  complete : Bool
  deriving DecidableEq, Repr

/-- What the readers give: whether `gzip` starts, the entries, and whether the last one is
followed by the end. -/
structure Archive where
  starts : Bool
  entries : List Entry
  ends : Bool
  deriving DecidableEq, Repr

inductive Failure where
  | call (err : Errno)
  | archive
  | invalidFlag
  deriving DecidableEq, Repr

/-- The loop: the disk, the directories created and the files opened for writing so far, and
the error that ended it. -/
structure Extraction where
  disk : Disk
  touched : List GoString
  failed : Option Failure

def target (dst : GoString) (entry : Entry) : GoString := join [dst, entry.name]

def Extraction.makeDir (state : Extraction) (path : GoString) : Extraction :=
  match state.disk.stat path with
  | .ok _ => state
  | .error _ =>
      let made := state.disk.mkdirAll path
      { disk := made.disk
        touched := state.touched ++ made.paths
        failed := made.err.map .call }

/-- The file is opened with `O_CREATE` and `O_RDWR`, and the data copied to its beginning. -/
def Extraction.writeFile (state : Extraction) (path : GoString) (entry : Entry) : Extraction :=
  match state.disk.openWrite false path with
  | .error err => { state with failed := some (.call err) }
  | .ok (opened, place) =>
      { disk := opened.put place (.file (overwrite (opened.content place) 0 entry.data))
        touched := state.touched ++ [path]
        failed := if entry.complete then none else some .archive }

def Extraction.step (dst : GoString) (state : Extraction) (entry : Entry) : Extraction :=
  if state.failed = none then
    match entry.typeflag with
    | .dir => state.makeDir (target dst entry)
    | .reg => state.writeFile (target dst entry) entry
    | .other => state
  else state

def Extraction.start (disk : Disk) : Extraction := ⟨disk, [], none⟩

def unTarGz (disk : Disk) (dst : GoString) (archive : Archive) : Extraction :=
  if archive.starts then
    let final := run (Extraction.step dst) (.start disk) archive.entries
    if final.failed = none ∧ ¬archive.ends then { final with failed := some .archive } else final
  else { Extraction.start disk with failed := some .archive }

namespace Extraction

variable {dst : GoString} {state : Extraction} {entry : Entry}

/-- The entry is reached, and there is something missing on the way to its directory or its
file can be opened. -/
def Acts (dst : GoString) (state : Extraction) (entry : Entry) : Prop :=
  state.failed = none ∧
    match entry.typeflag with
    | .dir => state.disk.stat (target dst entry) = .error .notExist
    | .reg => (state.disk.openWrite false (target dst entry)).isOk
    | .other => False

/-- An entry that acts has a name that stays below the destination. -/
def Behaves (dst : GoString) (state : Extraction) (entry : Entry) : Prop :=
  Acts dst state entry → Stays dst entry.name

structure Contained (dst : GoString) (state : Extraction) : Prop where
  isDirectory : state.disk.nodes (locate state.disk.cwd dst) = some .directory
  inside : ∀ path ∈ state.touched, Inside (clean dst) path

theorem inside_clean_iff {path : GoString} :
    Inside (clean dst) path ↔ (Rooted path ↔ Rooted dst) ∧
      ∃ below, dotDot ∉ below ∧ cleanElements path = below ++ cleanElements dst := by
  rw [Inside, rooted_clean, cleanElements_clean]

theorem Contained.directory_part (contained : Contained dst state) {part : List GoString}
    (isPart : part <:+ cleanElements dst) :
    state.disk.nodes (placeOf (state.disk.startFor (Rooted dst)) part) = some .directory := by
  refine Disk.directory_placeOf_suffix (state.disk.directory_startFor _)
    (shaped_cleanElements dst) ?_ isPart
  have there := contained.isDirectory
  rwa [locate_eq_placeOf] at there

theorem Contained.inside_part (contained : Contained dst state) {path : GoString}
    (inside : Inside (clean dst) path) {part : List GoString}
    (isPart : part <:+ cleanElements path) (nonempty : part ≠ [])
    (missing : state.disk.nodes (placeOf (state.disk.startFor (Rooted path)) part) = none) :
    Inside (clean dst) (spell (Rooted path) part) := by
  rw [inside_clean_iff] at inside ⊢
  obtain ⟨sameRoot, below, noUp, split⟩ := inside
  have shaped := (shaped_cleanElements path).suffix isPart
  rw [rooted_spell shaped nonempty, cleanElements_spell shaped nonempty]
  refine ⟨sameRoot, ?_⟩
  rw [split] at isPart
  obtain ⟨front, cut⟩ := isPart
  rcases List.append_eq_append_iff.1 cut with ⟨more, rfl, rfl⟩ | ⟨more, -, whole⟩
  · exact ⟨more, fun member => noUp (List.mem_append_right _ member), rfl⟩
  · have there := contained.directory_part ⟨more, whole.symm⟩
    rw [show state.disk.startFor (Rooted path) = state.disk.startFor (Rooted dst) from
      if_congr sameRoot rfl rfl, there] at missing
    cases missing

theorem no_dotDot_before {rooted : Prop} {front rest : List GoString} {element : GoString}
    (shaped : Shaped rooted (front ++ element :: rest)) (notUp : element ≠ dotDot) :
    dotDot ∉ front := by
  intro member
  obtain ⟨before, after, rfl⟩ := List.append_of_mem member
  have isPart : dotDot :: (after ++ element :: rest) <:+
      before ++ dotDot :: after ++ element :: rest := ⟨before, by simp⟩
  rcases (shaped.suffix isPart).head with named | ⟨-, ups⟩
  · exact named.notDotDot rfl
  · have later : element ∈ after ++ element :: rest :=
      List.mem_append_right _ List.mem_cons_self
    rw [ups] at later
    exact notUp (List.eq_of_mem_replicate later)

theorem Contained.not_inside_part (contained : Contained dst state) {path : GoString}
    (outside : ¬Inside (clean dst) path) {part : List GoString}
    (isPart : part <:+ cleanElements path) (nonempty : part ≠ [])
    (missing : state.disk.nodes (placeOf (state.disk.startFor (Rooted path)) part) = none) :
    ¬Inside (clean dst) (spell (Rooted path) part) := by
  have shaped := (shaped_cleanElements path).suffix isPart
  intro inside
  rw [inside_clean_iff, rooted_spell shaped nonempty, cleanElements_spell shaped nonempty]
    at inside
  obtain ⟨sameRoot, below, noUp, rfl⟩ := inside
  cases below with
  | nil =>
      have there := contained.directory_part (List.suffix_refl _)
      rw [show state.disk.startFor (Rooted path) = state.disk.startFor (Rooted dst) from
        if_congr sameRoot rfl rfl, List.nil_append, there] at missing
      cases missing
  | cons name below =>
      obtain ⟨front, split⟩ := isPart
      have notUp : name ≠ dotDot := fun same => noUp (same ▸ List.mem_cons_self)
      have noFront : dotDot ∉ front := by
        have shapedPath := shaped_cleanElements path
        rw [← split] at shapedPath
        exact no_dotDot_before shapedPath notUp
      refine outside (inside_clean_iff.2 ⟨sameRoot, front ++ name :: below, ?_, ?_⟩)
      · exact fun member => (List.mem_append.1 member).elim noFront noUp
      · rw [← split, List.append_assoc]

structure Outcome (state after : Extraction) (paths : List GoString) : Prop where
  touched : after.touched = state.touched ++ paths
  cwd : after.disk.cwd = state.disk.cwd
  keeps : ∀ place, state.disk.nodes place = some .directory →
    after.disk.nodes place = some .directory

theorem outcome_self (state : Extraction) (failed : Option Failure) :
    Outcome state { state with failed := failed } [] :=
  ⟨(List.append_nil _).symm, rfl, fun _ present => present⟩

theorem outcome_writeFile (state : Extraction) (path : GoString) (entry : Entry) :
    Outcome state (state.writeFile path entry)
      (if (state.disk.openWrite false path).isOk then [path] else []) := by
  rw [writeFile]
  cases ran : state.disk.openWrite false path with
  | error err => exact outcome_self state _
  | ok result =>
      obtain ⟨opened, place⟩ := result
      obtain ⟨-, cwd, notDirectory, nodes⟩ := Disk.openWrite_ok ran
      refine ⟨rfl, (Disk.cwd_put _ _ _).trans cwd, fun other isDirectory => ?_⟩
      have isFile := nodes place
      rw [if_pos rfl] at isFile
      have ne : other ≠ place := by
        rintro rfl
        exact notDirectory isDirectory
      rw [Disk.nodes_put_file isFile, if_neg ne, nodes, if_neg ne]
      exact isDirectory

theorem outcome_makeDir (state : Extraction) {path : GoString} (cleaned : clean path = path)
    (elements : cleanElements path ≠ []) :
    ∃ paths, Outcome state (state.makeDir path) paths ∧
      (∀ made ∈ paths, ∃ part, part <:+ cleanElements path ∧ part ≠ [] ∧
        made = spell (Rooted path) part ∧
        state.disk.nodes (placeOf (state.disk.startFor (Rooted path)) part) = none) ∧
      (paths ≠ [] ↔ state.disk.stat path = .error .notExist) := by
  have shaped := shaped_cleanElements path
  have text : spell (Rooted path) (cleanElements path) = path :=
    (clean_eq_spell elements).symm.trans cleaned
  have enough : (cleanElements path).length ≤ path.length + 1 := by
    have few := Disk.length_le_spell shaped elements
    rwa [text] at few
  rw [makeDir]
  cases failed : state.disk.stat path with
  | ok node => exact ⟨[], outcome_self state state.failed, by simp, by simp⟩
  | error err =>
      have within := state.disk.mkdirAllWithin_spec shaped elements (path.length + 1)
      rw [text] at within
      refine ⟨(state.disk.mkdirAll path).paths, ⟨rfl, within.cwd, fun place present =>
        within.keeps place _ present⟩, within.paths, ?_⟩
      rw [← text] at failed
      by_cases missing : err = .notExist
      · rw [missing] at failed ⊢
        have acts := Disk.mkdirAllWithin_acts shaped elements failed enough
        rw [text] at acts
        exact iff_of_true acts rfl
      · obtain ⟨final, barred⟩ := Disk.mkdirAllWithin_barred shaped elements failed missing enough
        rw [text] at barred
        refine iff_of_false ?_ (fun same => missing (by cases same; rfl))
        rw [Disk.mkdirAll, barred]
        exact fun some => some rfl

theorem inside_target_empty (empty : target dst entry = []) : Stays dst entry.name := by
  rw [target] at empty
  rw [← inside_join_iff, empty]
  have none : dst = [] := by
    by_contra some
    rw [join_eq_clean some] at empty
    exact clean_ne_nil _ empty
  rw [none]
  exact ⟨by decide, [], by simp, by decide⟩

theorem step_touches (dst : GoString) (state : Extraction) (entry : Entry) :
    ∃ paths, Outcome state (step dst state entry) paths ∧ (Contained dst state →
      ((∀ path ∈ paths, Inside (clean dst) path) ↔ Behaves dst state entry)) := by
  by_cases running : state.failed = none
  · rw [step, if_pos running]
    cases flag : entry.typeflag with
    | other =>
        refine ⟨[], outcome_self state state.failed, fun _ => iff_of_true (by simp) ?_⟩
        rintro ⟨-, acts⟩
        rw [flag] at acts
        exact acts.elim
    | reg =>
        refine ⟨_, outcome_writeFile state _ entry, fun _ => ?_⟩
        simp only [Behaves, Acts, flag]
        cases opens : (state.disk.openWrite false (target dst entry)).isOk with
        | false => simp
        | true =>
            rw [if_pos rfl, List.forall_mem_singleton, target, inside_join_iff]
            exact ⟨fun stays _ => stays, fun behaves => behaves ⟨running, rfl⟩⟩
    | dir =>
        simp only [Behaves, Acts, flag]
        by_cases empty : target dst entry = []
        · refine ⟨[], ?_, fun _ => iff_of_true (by simp) fun _ => inside_target_empty empty⟩
          rw [empty]
          exact ⟨rfl, rfl, fun _ present => present⟩
        have cleaned : clean (target dst entry) = target dst entry := clean_join empty
        by_cases none : cleanElements (target dst entry) = []
        · have found := state.disk.stat_clean_of_no_elements none
          rw [cleaned] at found
          refine ⟨[], ?_, fun _ => iff_of_true (by simp) ?_⟩
          · rw [makeDir, found]
            exact outcome_self state state.failed
          · rw [found]
            rintro ⟨-, ⟨⟩⟩
        · obtain ⟨paths, outcome, missing, some_iff⟩ := outcome_makeDir state cleaned none
          refine ⟨paths, outcome, fun contained => ?_⟩
          rw [← some_iff, ← inside_join_iff]
          constructor
          · rintro inside ⟨-, some⟩
            by_contra outside
            obtain ⟨path, member⟩ := List.exists_mem_of_ne_nil paths some
            obtain ⟨part, isPart, nonempty, rfl, gone⟩ := missing path member
            exact contained.not_inside_part outside isPart nonempty gone (inside _ member)
          · intro behaves path member
            obtain ⟨part, isPart, nonempty, rfl, gone⟩ := missing path member
            exact contained.inside_part (behaves ⟨running, List.ne_nil_of_mem member⟩) isPart
              nonempty gone
  · rw [step, if_neg running]
    exact ⟨[], outcome_self state state.failed, fun _ =>
      iff_of_true (by simp) fun acts => absurd acts.1 running⟩

theorem Contained.of_outcome {after : Extraction} {paths : List GoString}
    (contained : Contained dst state) (outcome : Outcome state after paths)
    (inside : ∀ path ∈ paths, Inside (clean dst) path) : Contained dst after := by
  refine ⟨?_, fun path member => ?_⟩
  · rw [outcome.cwd]
    exact outcome.keeps _ contained.isDirectory
  · rw [outcome.touched, List.mem_append] at member
    exact member.elim (contained.inside path) (inside path)

theorem touched_run (dst : GoString) (state : Extraction) (entries : List Entry)
    {path : GoString} (member : path ∈ state.touched) :
    path ∈ (run (step dst) state entries).touched := by
  induction entries generalizing state with
  | nil => exact member
  | cons entry rest ih =>
      obtain ⟨paths, outcome, -⟩ := step_touches dst state entry
      refine ih _ ?_
      rw [outcome.touched]
      exact List.mem_append_left _ member

theorem run_contained_iff {disk : Disk} (isDirectory : disk.stat (clean dst) = .ok .directory)
    (entries : List Entry) :
    (∀ path ∈ (run (step dst) (start disk) entries).touched, Inside (clean dst) path) ↔
      AllSteps (step dst) (Behaves dst) (start disk) entries := by
  have begins : Contained dst (start disk) := by
    refine ⟨?_, by simp [start]⟩
    have there := Disk.stat_ok isDirectory
    rwa [locate_clean] at there
  have all : AllSteps (step dst) (fun _ _ => True) (start disk) entries :=
    allSteps_of_forall (fun _ _ => trivial) _
  have final : (∀ path ∈ (run (step dst) (start disk) entries).touched,
      Inside (clean dst) path) ↔ ∀ past later, entries = past ++ later →
        ∀ path ∈ (run (step dst) (start disk) past).touched, Inside (clean dst) path := by
    constructor
    · rintro inside past later rfl path member
      rw [run_append] at inside
      exact inside path (touched_run dst _ later member)
    · intro inside
      exact inside entries [] (List.append_nil entries).symm
  rw [final]
  refine run_good_iff (Contained dst) (fun _ contained => contained.inside) ?_ ?_ begins all
  · intro state entry contained _ behaves
    obtain ⟨paths, outcome, inside_iff⟩ := step_touches dst state entry
    exact contained.of_outcome outcome ((inside_iff contained).2 behaves)
  · intro state entry contained _ misbehaves inside
    obtain ⟨paths, outcome, inside_iff⟩ := step_touches dst state entry
    rw [← inside_iff contained] at misbehaves
    refine misbehaves fun path member => inside path ?_
    rw [outcome.touched]
    exact List.mem_append_right _ member

end Extraction

def Archive.read (archive : Archive) : List Entry :=
  if archive.starts then archive.entries else []

/-- Every directory that is created and every file that is opened for writing is inside the
destination exactly if every entry that acts has a name that stays there. -/
theorem unTarGz_contained_iff (disk : Disk) (dst : GoString) (archive : Archive)
    (isDirectory : disk.stat (clean dst) = .ok .directory) :
    (∀ path ∈ (unTarGz disk dst archive).touched, Inside (clean dst) path) ↔
      AllSteps (Extraction.step dst) (Extraction.Behaves dst) (.start disk) archive.read := by
  have touched : (unTarGz disk dst archive).touched =
      (run (Extraction.step dst) (.start disk) archive.read).touched := by
    rw [unTarGz, Archive.read]
    by_cases starts : archive.starts = true
    · rw [if_pos starts, if_pos starts]
      dsimp only
      split_ifs <;> rfl
    · rw [if_neg starts, if_neg starts]
      rfl
  rw [touched]
  exact Extraction.run_contained_iff isDirectory archive.read

def outDisk : Disk := Disk.blank.put [str "out"] .directory

theorem unTarGz_contained_returning :
    outDisk.stat (clean (str "out")) = .ok .directory ∧
      ∀ path ∈ (unTarGz outDisk (str "out") ⟨true,
          [⟨str "a/", .dir, [], true⟩, ⟨str "a/../../out/b", .reg, [1], true⟩], true⟩).touched,
        Inside (clean (str "out")) path :=
  ⟨by decide +kernel, (unTarGz_contained_iff _ _ _ (by decide +kernel)).2
    ⟨fun _ => by decide, fun _ => by decide, trivial⟩⟩

/-- A name that goes up is not stopped. -/
theorem unTarGz_escapes :
    (unTarGz outDisk (str "out")
        ⟨true, [⟨str "../evil", .reg, [1], true⟩], true⟩).disk.nodes [str "evil"] =
        some (.file [1]) ∧
      ¬∀ path ∈ (unTarGz outDisk (str "out")
          ⟨true, [⟨str "../evil", .reg, [1], true⟩], true⟩).touched,
        Inside (clean (str "out")) path := by
  refine ⟨by decide +kernel, fun inside => ?_⟩
  have escaped := inside (join [str "out", str "../evil"]) (by decide +kernel)
  rw [inside_join_iff] at escaped
  revert escaped
  decide

end Bclib.Fs
