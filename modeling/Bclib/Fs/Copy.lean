import Bclib.Go.Walk

namespace Bclib.Fs

open Data
open Go

/-! `CopyDir` and `CopyFile`. -/

/-- `strings.Replace(path, "\\", "/", -1)` -/
def slashes (path : GoString) : GoString :=
  path.map fun char => if char = 92 then separator else char

/-- `regexp.MatchString`: a pattern is invalid or decides about names, and the empty one
matches each. -/
structure Regexps where
  compile : GoString → Option (GoString → Bool)
  empty : compile [] = some fun _ => true

inductive CopyFailure where
  | call (err : Errno)
  /-- `open path: is not a directory` -/
  | notDirectory (path : GoString)
  | pattern
  /-- The nil error of the first pattern is asked for its text. -/
  | panic
  | endless
  deriving DecidableEq, Repr

/-- A call of `CopyFile` that has come to its end: the file that was walked to, the one that
was read, and the one that was created. -/
structure Copy where
  file : Place
  source : Place
  dest : Place
  deriving DecidableEq, Repr

structure Copying where
  disk : Disk
  copies : List Copy

def pathExists (disk : Disk) (path : GoString) : Except Errno Bool :=
  match disk.stat path with
  | .ok _ => .ok true
  | .error .notExist => .ok false
  | .error err => .error err

/-- One directory on the way to the destination; an error comes with the disk it leaves. -/
def makeParent (disk : Disk) (path : GoString) : Except (Disk × CopyFailure) Disk :=
  match pathExists disk path with
  | .error err => .error (disk, .call err)
  | .ok true => .ok disk
  | .ok false =>
      match disk.mkdir path with
      | .error err => .error (disk, .call err)
      | .ok made => .ok made

/-- `destSplitPath` of each round, for all elements but the last. -/
def parentTexts (text : GoString) : List GoString → List GoString
  | [] => []
  | [_] => []
  | dir :: next :: rest =>
      (text ++ dir ++ [separator]) :: parentTexts (text ++ dir ++ [separator]) (next :: rest)

def copyFile (state : Copying) (file : Place) (src dest : GoString) :
    Except (Disk × CopyFailure) Copying :=
  match state.disk.resolve (slashes src) with
  | .error err => .error (state.disk, .call err)
  | .ok source =>
      if state.disk.nodes source = none then .error (state.disk, .call .notExist)
      else
        match (parentTexts [] ((slashes dest).splitOn separator)).foldlM makeParent state.disk with
        | .error err => .error err
        | .ok made =>
            match made.openWrite true (slashes dest) with
            | .error err => .error (made, .call err)
            | .ok (created, place) =>
                match created.readAt source with
                | .error err => .error (created, .call err)
                | .ok data =>
                    .ok ⟨created.put place (.file data), state.copies ++ [⟨file, source, place⟩]⟩

section CopyDir

variable (regexps : Regexps) (srcPath destPath matchRegexp excludeRegexp : GoString)

/-- The copy of a file that is walked to. -/
def copyWalked (state : Copying) (path : GoString) : Except (Disk × CopyFailure) Copying :=
  copyFile state (locate state.disk.cwd path) (slashes path)
    (replaceAll srcPath destPath (slashes path))

/-- The function that is given to `filepath.Walk`. -/
def visit (state : Copying) (path : GoString) (f : Node) :
    Except (Disk × CopyFailure) Copying :=
  if matchRegexp = [] ∧ excludeRegexp = [] then
    if f = .directory then .ok state else copyWalked srcPath destPath state path
  else
    match regexps.compile matchRegexp with
    | none => .error (state.disk, .pattern)
    | some included =>
        match regexps.compile excludeRegexp with
        | none => .error (state.disk, .panic)
        | some excluded =>
            if f ≠ .directory ∧ included (base path) = true ∧ excluded (base path) = false then
              copyWalked srcPath destPath state path
            else .ok state

def stopWalk (state : Copying) : Option Errno → Disk × CopyFailure
  | some err => (state.disk, .call err)
  | none => (state.disk, .endless)

/-- `CopyDir`, with a bound for the depth of the walk. -/
def copyDir (levels : Nat) (disk : Disk) : Except (Disk × CopyFailure) Copying :=
  let srcPath := slashes srcPath
  let destPath := slashes destPath
  match disk.stat srcPath with
  | .error err => .error (disk, .call err)
  | .ok (.file _) => .error (disk, .notDirectory srcPath)
  | .ok .directory =>
      match disk.stat destPath with
      | .error err => .error (disk, .call err)
      | .ok (.file _) => .error (disk, .notDirectory destPath)
      | .ok .directory =>
          walk Copying.disk (visit regexps srcPath destPath matchRegexp excludeRegexp) stopWalk
            levels ⟨disk, []⟩ srcPath .directory

end CopyDir

theorem makeParents_ok {disk made : Disk} {paths : List GoString}
    (ran : paths.foldlM makeParent disk = .ok made) :
    made.cwd = disk.cwd ∧ ∀ place data,
      made.nodes place = some (.file data) ↔ disk.nodes place = some (.file data) := by
  have grown : Disk.Grown disk made fun _ => True := by
    refine foldlM_keeps (fun made => Disk.Grown disk made fun _ => True) ?_ (.refl _ _) ran
    rintro before path next - grown stepped
    rw [makeParent] at stepped
    cases exists' : pathExists before path with
    | error err =>
        rw [exists'] at stepped
        cases stepped
    | ok there =>
        cases there with
        | true =>
            rw [exists'] at stepped
            cases stepped
            exact grown
        | false =>
            simp only [exists'] at stepped
            cases ran : before.mkdir path with
            | error err =>
                rw [ran] at stepped
                cases stepped
            | ok made =>
                rw [ran] at stepped
                cases stepped
                exact grown.trans ((Disk.grown_mkdir ran).mono fun _ _ => trivial)
  exact ⟨grown.cwd, fun _ _ => grown.file_iff⟩

theorem copyFile_ok {state next : Copying} {file : Place} {src dest : GoString}
    (ran : copyFile state file src dest = .ok next) :
    ∃ source place data, source = locate state.disk.cwd (slashes src) ∧
      place = locate state.disk.cwd (slashes dest) ∧
      next.copies = state.copies ++ [⟨file, source, place⟩] ∧
      next.disk.cwd = state.disk.cwd ∧
      next.disk.nodes place = some (.file data) ∧
      (source ≠ place → state.disk.nodes source = some (.file data)) ∧
      ∀ other, other ≠ place → ∀ bytes, next.disk.nodes other = some (.file bytes) ↔
        state.disk.nodes other = some (.file bytes) := by
  rw [copyFile] at ran
  cases found : state.disk.resolve (slashes src) with
  | error err =>
      rw [found] at ran
      cases ran
  | ok source =>
      simp only [found] at ran
      split_ifs at ran
      cases parents : (parentTexts [] ((slashes dest).splitOn separator)).foldlM makeParent
          state.disk with
      | error err =>
          rw [parents] at ran
          cases ran
      | ok made =>
          simp only [parents] at ran
          obtain ⟨cwd, files⟩ := makeParents_ok parents
          cases opened : made.openWrite true (slashes dest) with
          | error err =>
              rw [opened] at ran
              cases ran
          | ok result =>
              obtain ⟨created, place⟩ := result
              simp only [opened] at ran
              obtain ⟨located, createdCwd, -, nodes⟩ := Disk.openWrite_ok opened
              have isFile := nodes place
              rw [if_pos rfl] at isFile
              cases read : created.readAt source with
              | error err =>
                  rw [read] at ran
                  cases ran
              | ok data =>
                  rw [read] at ran
                  cases ran
                  refine ⟨source, place, data, (Disk.resolve_ok found).1, ?_, rfl, ?_, ?_, ?_, ?_⟩
                  · rw [located, cwd]
                  · exact (Disk.cwd_put _ _ _).trans (createdCwd.trans cwd)
                  · rw [Disk.nodes_put_file isFile, if_pos rfl]
                  · intro ne
                    have there := Disk.readAt_ok read
                    rw [nodes, if_neg ne] at there
                    exact (files source data).1 there
                  · intro other ne bytes
                    rw [Disk.nodes_put_file isFile, if_neg ne, nodes, if_neg ne, files]

end Bclib.Fs
