import Bclib.Go.Resolve
import Mathlib.Data.List.Sort

namespace Bclib.Go

open Data

/-! `filepath.Walk` with a function that returns the errors it is given and may write to the
disk on the way. -/

def Disk.readDirNames (disk : Disk) (path : GoString) : Except Errno (List GoString) :=
  match disk.resolve path with
  | .error err => .error err
  | .ok place =>
      match disk.nodes place with
      | some .directory =>
          .ok ((disk.listing place).insertionSort fun first second => ¬second < first)
      | some (.file _) => .error .notDirectory
      | none => .error .notExist

/-- The path of what is below the root of a walk. -/
def walked (root : GoString) (rel : Place) : GoString :=
  rel.foldr (fun name path => join [path, name]) root

section Walk

variable {σ ε : Type} (diskOf : σ → Disk) (visit : σ → GoString → Node → Except ε σ)
  (stop : σ → Option Errno → ε)

/-- The first argument bounds the depth that is walked to. -/
def walk : Nat → σ → GoString → Node → Except ε σ
  | 0, state, _, _ => .error (stop state none)
  | _ + 1, state, path, .file data => visit state path (.file data)
  | levels + 1, state, path, .directory =>
      match (diskOf state).readDirNames path with
      | .error err => .error (stop state (some err))
      | .ok names =>
          match visit state path .directory with
          | .error err => .error err
          | .ok entered =>
              names.foldlM (fun state name =>
                match (diskOf state).stat (join [path, name]) with
                | .error err => .error (stop state (some err))
                | .ok info => walk levels state (join [path, name]) info) entered

theorem foldlM_keeps {α : Type} {f : σ → α → Except ε σ} (holds : σ → Prop) {items : List α}
    (kept : ∀ state item next, item ∈ items → holds state → f state item = .ok next → holds next)
    {state final : σ} (start : holds state) (ran : items.foldlM f state = .ok final) :
    holds final := by
  induction items generalizing state with
  | nil =>
      cases ran
      exact start
  | cons item rest ih =>
      rw [List.foldlM_cons] at ran
      cases first : f state item with
      | error err =>
          rw [first] at ran
          cases ran
      | ok next =>
          rw [first] at ran
          exact ih (fun state item next member => kept state item next (.tail _ member))
            (kept state item next List.mem_cons_self start first) ran

theorem foldlM_reaches {α : Type} {f : σ → α → Except ε σ} (holds reached : σ → Prop)
    {items : List α} {goal : α} (member : goal ∈ items)
    (kept : ∀ state item next, item ∈ items → holds state → f state item = .ok next → holds next)
    (lasts : ∀ state item next, item ∈ items → holds state → reached state →
      f state item = .ok next → reached next)
    (reaches : ∀ state next, holds state → f state goal = .ok next → reached next)
    {state final : σ} (start : holds state) (ran : items.foldlM f state = .ok final) :
    reached final := by
  induction items generalizing state with
  | nil => cases member
  | cons item rest ih =>
      rw [List.foldlM_cons] at ran
      cases first : f state item with
      | error err =>
          rw [first] at ran
          cases ran
      | ok next =>
          rw [first] at ran
          have now := kept state item next List.mem_cons_self start first
          rcases List.mem_cons.1 member with rfl | later
          · refine (foldlM_keeps (fun state => holds state ∧ reached state) ?_
              ⟨now, reaches state next start first⟩ ran).2
            rintro state item next member ⟨holds, reached⟩ ran
            exact ⟨kept state item next (.tail _ member) holds ran,
              lasts state item next (.tail _ member) holds reached ran⟩
          · exact ih later (fun state item next member => kept state item next (.tail _ member))
              (fun state item next member => lasts state item next (.tail _ member)) now ran

variable {diskOf visit stop}

theorem walked_ne_nil {root : GoString} (nonempty : root ≠ []) (rel : Place) :
    walked root rel ≠ [] := by
  induction rel with
  | nil => exact nonempty
  | cons name rest ih =>
      rw [show walked root (name :: rest) = join [walked root rest, name] from rfl,
        join_eq_clean ih]
      exact clean_ne_nil _

theorem locate_walked {root : GoString} (nonempty : root ≠ []) (cwd : Place) {rel : Place}
    (named : ∀ name ∈ rel, FileName name) :
    locate cwd (walked root rel) = rel ++ locate cwd root := by
  induction rel with
  | nil => rfl
  | cons name rest ih =>
      rw [List.forall_mem_cons] at named
      rw [show walked root (name :: rest) = join [walked root rest, name] from rfl,
        locate_join (walked_ne_nil nonempty rest), ih named.2,
        List.splitOn_eq_singleton named.1.noSeparator]
      exact follow_fileName named.1 _

theorem joinFront_walked {root : GoString} (nonempty : root ≠ []) {rel : Place}
    (named : ∀ name ∈ rel, FileName name) :
    joinFront (walked root rel) = joinFront root ++ directoryText rel.reverse := by
  induction rel with
  | nil => exact (List.append_nil _).symm
  | cons name rest ih =>
      rw [List.forall_mem_cons] at named
      rw [show walked root (name :: rest) = join [walked root rest, name] from rfl,
        joinFront_join (walked_ne_nil nonempty rest) named.1, ih named.2, List.reverse_cons,
        directoryText_concat, List.append_assoc]

theorem walked_eq {root : GoString} (nonempty : root ≠ []) {rel : Place} (below : rel ≠ [])
    (named : ∀ name ∈ rel, FileName name) :
    walked root rel = joinFront root ++ [separator].intercalate rel.reverse := by
  cases rel with
  | nil => exact absurd rfl below
  | cons name rest =>
      rw [List.forall_mem_cons] at named
      rw [show walked root (name :: rest) = join [walked root rest, name] from rfl,
        join_fileName _ named.1, joinFront_walked nonempty named.2, List.reverse_cons,
        intercalate_last, List.append_assoc]

theorem mem_readDirNames {disk : Disk} {path : GoString} {names : List GoString}
    (read : disk.readDirNames path = .ok names) (name : GoString) :
    name ∈ names ↔ disk.nodes (name :: locate disk.cwd path) ≠ none := by
  rw [Disk.readDirNames] at read
  cases found : disk.resolve path with
  | error err =>
      rw [found] at read
      cases read
  | ok place =>
      rw [found] at read
      rw [← (Disk.resolve_ok found).1, ← disk.listed]
      cases present : disk.nodes place with
      | none =>
          simp only [present] at read
          cases read
      | some node =>
          cases node with
          | file data =>
              simp only [present] at read
              cases read
          | directory =>
              simp only [present, Except.ok.injEq] at read
              rw [← read]
              exact List.mem_insertionSort _

theorem mem_readDirNames_of_below {disk : Disk} {path name : GoString} {names : List GoString}
    (read : disk.readDirNames path = .ok names) (front : Place)
    (present : disk.nodes (front ++ name :: locate disk.cwd path) ≠ none) : name ∈ names := by
  rw [mem_readDirNames read]
  cases front with
  | nil => exact present
  | cons first front =>
      rw [Disk.directory_of_append present (List.cons_ne_nil first front)]
      exact Option.some_ne_none _

def walkChild (diskOf : σ → Disk) (visit : σ → GoString → Node → Except ε σ)
    (stop : σ → Option Errno → ε) (levels : Nat) (path : GoString) (state : σ)
    (name : GoString) : Except ε σ :=
  match (diskOf state).stat (join [path, name]) with
  | .error err => .error (stop state (some err))
  | .ok info => walk diskOf visit stop levels state (join [path, name]) info

theorem walk_directory {levels : Nat} {state final : σ} {path : GoString}
    (ran : walk diskOf visit stop (levels + 1) state path .directory = .ok final) :
    ∃ names entered, (diskOf state).readDirNames path = .ok names ∧
      visit state path .directory = .ok entered ∧
      names.foldlM (walkChild diskOf visit stop levels path) entered = .ok final := by
  rw [walk] at ran
  cases read : (diskOf state).readDirNames path with
  | error err =>
      rw [read] at ran
      cases ran
  | ok names =>
      simp only [read] at ran
      cases visited : visit state path .directory with
      | error err =>
          rw [visited] at ran
          cases ran
      | ok entered =>
          simp only [visited] at ran
          exact ⟨names, entered, rfl, rfl, ran⟩

theorem walkChild_walks {disk : Disk} {levels : Nat} {state next : σ} {root name : GoString}
    {rel : Place} {names : List GoString} (read : disk.readDirNames (walked root rel) = .ok names)
    (named : ∀ name ∈ rel, FileName name) (member : name ∈ names)
    (ran : walkChild diskOf visit stop levels (walked root rel) state name = .ok next) :
    (∀ other ∈ name :: rel, FileName other) ∧
      ∃ info, (diskOf state).stat (walked root (name :: rel)) = .ok info ∧
        walk diskOf visit stop levels state (walked root (name :: rel)) info = .ok next := by
  have proper := disk.named name _ ((mem_readDirNames read name).1 member)
  refine ⟨List.forall_mem_cons.2 ⟨proper, named⟩, ?_⟩
  rw [walkChild] at ran
  cases found : (diskOf state).stat (join [walked root rel, name]) with
  | error err =>
      rw [found] at ran
      cases ran
  | ok info =>
      rw [found] at ran
      exact ⟨info, found, ran⟩

theorem walk_keeps (holds : σ → Prop) {root : GoString}
    (kept : ∀ state rel node next, (∀ name ∈ rel, FileName name) → holds state →
      (diskOf state).stat (walked root rel) = .ok node →
      visit state (walked root rel) node = .ok next → holds next)
    {levels : Nat} {state final : σ} {rel : Place} {node : Node}
    (named : ∀ name ∈ rel, FileName name) (start : holds state)
    (there : (diskOf state).stat (walked root rel) = .ok node)
    (ran : walk diskOf visit stop levels state (walked root rel) node = .ok final) :
    holds final := by
  induction levels generalizing state final rel node with
  | zero => cases ran
  | succ levels ih =>
      cases node with
      | file data => exact kept state rel _ final named start there ran
      | directory =>
          obtain ⟨names, entered, read, visited, ran⟩ := walk_directory ran
          refine foldlM_keeps holds ?_ (kept state rel _ entered named start there visited) ran
          intro before name next member holds stepped
          obtain ⟨proper, info, found, stepped⟩ := walkChild_walks read named member stepped
          exact @ih before next (name :: rel) info proper holds found stepped

section Reach

variable (holds reached : σ → Prop) {root : GoString} (nonempty : root ≠ [])
  (kept : ∀ state rel node next, (∀ name ∈ rel, FileName name) → holds state →
    (diskOf state).stat (walked root rel) = .ok node →
    visit state (walked root rel) node = .ok next → holds next)
  (lasts : ∀ state rel node next, (∀ name ∈ rel, FileName name) → holds state →
    (diskOf state).stat (walked root rel) = .ok node → reached state →
    visit state (walked root rel) node = .ok next → reached next)

include kept lasts

theorem walk_lasts {levels : Nat} {state final : σ} {rel : Place} {node : Node}
    (named : ∀ name ∈ rel, FileName name) (start : holds state) (done : reached state)
    (there : (diskOf state).stat (walked root rel) = .ok node)
    (ran : walk diskOf visit stop levels state (walked root rel) node = .ok final) :
    reached final := by
  refine (walk_keeps (fun state => holds state ∧ reached state) ?_ named ⟨start, done⟩
    there ran).2
  rintro state rel node next named ⟨holding, done⟩ found visited
  exact ⟨kept state rel node next named holding found visited,
    lasts state rel node next named holding found done visited⟩

include nonempty

theorem walk_reaches {goal : Place} {data : List Byte} (goalNamed : ∀ name ∈ goal, FileName name)
    (stays : ∀ state, holds state → ¬reached state →
      (diskOf state).stat (walked root goal) = .ok (.file data))
    (reaches : ∀ state next, holds state →
      visit state (walked root goal) (.file data) = .ok next → reached next)
    {levels : Nat} {state final : σ} {rel : Place} {node : Node} {below : Place}
    (split : goal = below ++ rel) (start : holds state)
    (there : (diskOf state).stat (walked root rel) = .ok node)
    (ran : walk diskOf visit stop levels state (walked root rel) node = .ok final) :
    reached final := by
  induction levels generalizing state final rel node below with
  | zero => cases ran
  | succ levels ih =>
      have named : ∀ name ∈ rel, FileName name := fun name member =>
        goalNamed name (split ▸ List.mem_append_right _ member)
      by_cases already : reached state
      · exact walk_lasts holds reached kept lasts named start already there ran
      have atGoal := Disk.stat_ok (stays state start already)
      have here := Disk.stat_ok there
      rw [locate_walked nonempty _ goalNamed, split, List.append_assoc] at atGoal
      rw [locate_walked nonempty _ named] at here
      cases node with
      | file other =>
          -- nothing is below a file
          have none : below = [] := by
            by_contra some
            have above := Disk.directory_of_append (atGoal ▸ Option.some_ne_none _) some
            rw [here] at above
            cases above
          rw [none, List.nil_append] at split atGoal
          rw [here] at atGoal
          cases atGoal
          rw [← split] at ran
          exact reaches state final start ran
      | directory =>
          obtain ⟨names, entered, read, visited, ran⟩ := walk_directory ran
          obtain rfl | ⟨front, name, rfl⟩ := List.eq_nil_or_concat below
          · rw [List.nil_append, here] at atGoal
            cases atGoal
          rw [List.concat_eq_append, List.append_assoc, List.singleton_append] at split atGoal
          have member : name ∈ names := by
            refine mem_readDirNames_of_below read front ?_
            rw [locate_walked nonempty _ named, atGoal]
            exact Option.some_ne_none _
          -- the walk of each entry is one of its own, and that of the entry on the way arrives
          refine foldlM_reaches holds reached member ?_ ?_ ?_
            (kept state rel _ entered named start there visited) ran
          · intro before name next member holding stepped
            obtain ⟨proper, info, found, stepped⟩ := walkChild_walks read named member stepped
            exact walk_keeps holds kept proper holding found stepped
          · intro before name next member holding done stepped
            obtain ⟨proper, info, found, stepped⟩ := walkChild_walks read named member stepped
            exact walk_lasts holds reached kept lasts proper holding done found stepped
          · intro before next holding stepped
            obtain ⟨-, info, found, stepped⟩ := walkChild_walks read named member stepped
            exact @ih before next (name :: rel) info front split holding found stepped

end Reach

end Walk

end Bclib.Go
