import Bclib.Fs.TarGz
import Mathlib.Data.List.TakeWhile

namespace Bclib.Fs

open Data
open Go

/-! An archive of a directory, extracted over what is there. -/

def merge (old : List Byte) : Node → Node
  | .directory => .directory
  | .file data => .file (overwrite old 0 data)

def SameKind : Option Node → Node → Prop
  | none, _ => True
  | some .directory, .directory => True
  | some (.file _), .file _ => True
  | _, _ => False

instance (old : Option Node) (node : Node) : Decidable (SameKind old node) :=
  match old, node with
  | none, _ => .isTrue trivial
  | some .directory, .directory => .isTrue trivial
  | some (.file _), .file _ => .isTrue trivial
  | some .directory, .file _ => .isFalse id
  | some (.file _), .directory => .isFalse id

theorem overwrite_again (old data : List Byte) :
    overwrite (overwrite old 0 data) 0 data = overwrite old 0 data := by
  rw [overwrite_start, overwrite_start, List.drop_left]

theorem overwrite_eq_iff (old data : List Byte) :
    overwrite old 0 data = data ↔ old.length ≤ data.length := by
  rw [overwrite_start, List.append_right_eq_self, List.drop_eq_nil_iff]

namespace Extraction

def Open (disk : Disk) (place : Place) : Prop :=
  disk.nodes place = some .directory ∨
    ∃ name dir, place = name :: dir ∧ FileName name ∧ disk.nodes dir = some .directory

structure Wrote (state after : Extraction) (place : Place) (node : Node) : Prop where
  running : after.failed = none
  cwd : after.disk.cwd = state.disk.cwd
  nodes : ∀ other, after.disk.nodes other =
    if other = place then some node else state.disk.nodes other

variable {state : Extraction} {path : GoString} {place : Place}

theorem makeDir_wrote (running : state.failed = none) (cleaned : clean path = path)
    (located : locate state.disk.cwd path = place) (isOpen : Open state.disk place)
    (kind : SameKind (state.disk.nodes place) .directory) :
    Wrote state (state.makeDir path) place .directory := by
  cases present : state.disk.nodes place with
  | some node =>
      cases node with
      | file data =>
          rw [present] at kind
          exact kind.elim
      | directory =>
          have found : state.disk.stat path = .ok .directory := by
            rw [← cleaned]
            refine Disk.stat_clean ?_
            rw [located, present]
          rw [makeDir, found]
          refine ⟨running, rfl, fun other => ?_⟩
          split_ifs with same
          · rw [same, present]
          · rfl
  | none =>
      obtain isDirectory | ⟨name, dir, rfl, named, isDirectory⟩ := isOpen
      · rw [present] at isDirectory
        cases isDirectory
      · have fits : state.disk.Admits name dir .directory := by
          refine ⟨isDirectory, named, ?_⟩
          rw [present]
          exact trivial
        have made := Disk.mkdirAll_clean located isDirectory present
        rw [cleaned] at made
        cases found : state.disk.stat path with
        | ok node =>
            have there := Disk.stat_ok found
            rw [located, present] at there
            cases there
        | error err =>
            simp only [makeDir, found, made]
            exact ⟨rfl, Disk.cwd_put _ _ _, Disk.nodes_put fits⟩

theorem writeFile_wrote (cleaned : clean path = path)
    (located : locate state.disk.cwd path = place) (isOpen : Open state.disk place)
    (name : GoString) (data : List Byte)
    (kind : SameKind (state.disk.nodes place) (.file data)) :
    Wrote state (state.writeFile path ⟨name, .reg, data, true⟩) place
      (.file (overwrite (state.disk.content place) 0 data)) := by
  have notDirectory : state.disk.nodes place ≠ some .directory := by
    intro isDirectory
    rw [isDirectory] at kind
    exact kind
  have resolved : state.disk.resolve path = .ok place := by
    rw [← cleaned, ← located]
    refine Disk.resolve_clean fun name dir split => ?_
    obtain isDirectory | ⟨_, _, same, -, isDirectory⟩ := isOpen
    · exact absurd isDirectory notDirectory
    · rw [← located, split] at same
      cases same
      exact isDirectory
  have opens : ∃ opened, state.disk.openWrite false path = .ok (opened, place) := by
    rw [Disk.openWrite, resolved]
    cases present : state.disk.nodes place with
    | none =>
        simp only [present]
        exact ⟨_, rfl⟩
    | some node =>
        cases node with
        | directory => exact absurd present notDirectory
        | file old =>
            simp only [present]
            exact ⟨_, rfl⟩
  obtain ⟨opened, opens⟩ := opens
  obtain ⟨-, cwd, -, nodes⟩ := Disk.openWrite_ok opens
  rw [if_neg Bool.false_ne_true] at nodes
  have isFile := nodes place
  rw [if_pos rfl] at isFile
  have content : opened.content place = state.disk.content place := by
    rw [Disk.content, isFile]
  simp only [writeFile, opens]
  refine ⟨rfl, (Disk.cwd_put _ _ _).trans cwd, fun other => ?_⟩
  rw [Disk.nodes_put_file isFile, content, nodes]
  split_ifs <;> rfl

/-! The entries of a tree lead to their places below where the tree's root leads. -/

variable {dst root : GoString}

def rootPlace (cwd : Place) (dst root : GoString) : Place := locate cwd (join [dst, root])

theorem target_ne_nil (nonempty : dst ≠ []) (entry : Entry) : target dst entry ≠ [] := by
  rw [target, join_eq_clean nonempty]
  exact clean_ne_nil _

theorem locate_target (nonempty : dst ≠ []) (cwd : Place) {rel : Place}
    (named : ∀ name ∈ rel, FileName name) (node : Node) :
    locate cwd (target dst (entryOf (pathBelow root rel) node)) =
      rel ++ rootPlace cwd dst root := by
  have whole : ∀ name ∈ rel, separator ∉ name := fun name member => (named name member).noSeparator
  have down : ((pathBelow root rel).splitOn separator).foldl follow (locate cwd dst) =
      rel ++ rootPlace cwd dst root := by
    rw [splitOn_pathBelow root whole, List.foldl_append, foldl_follow_reverse,
      placeOf_names named, rootPlace, locate_join nonempty]
  rw [target, locate_join nonempty]
  cases node with
  | file data => exact down
  | directory =>
      rw [show (entryOf (pathBelow root rel) .directory).name =
        pathBelow root rel ++ separator :: [] from rfl, List.splitOn_append_cons_self,
        List.foldl_append, down]
      rfl

theorem step_wrote (running : state.failed = none) (nonempty : dst ≠ []) {rel : Place}
    (named : ∀ name ∈ rel, FileName name) {node : Node}
    (isOpen : Open state.disk (rel ++ rootPlace state.disk.cwd dst root))
    (kind : SameKind (state.disk.nodes (rel ++ rootPlace state.disk.cwd dst root)) node) :
    Wrote state (step dst state (entryOf (pathBelow root rel) node))
      (rel ++ rootPlace state.disk.cwd dst root)
      (merge (state.disk.content (rel ++ rootPlace state.disk.cwd dst root)) node) := by
  have located := @locate_target dst root nonempty state.disk.cwd rel named node
  have cleaned := clean_join (target_ne_nil nonempty (entryOf (pathBelow root rel) node))
  rw [step, if_pos running]
  cases node with
  | directory => exact makeDir_wrote running cleaned located isOpen kind
  | file data => exact writeFile_wrote cleaned located isOpen _ data kind

structure Restores (state after : Extraction) (start : Place) (items : List (Place × Node)) :
    Prop where
  running : after.failed = none
  written : ∀ item ∈ items, after.disk.nodes (item.1 ++ start) =
    some (merge (state.disk.content (item.1 ++ start)) item.2)
  kept : ∀ place, (∀ item ∈ items, place ≠ item.1 ++ start) →
    after.disk.nodes place = state.disk.nodes place

theorem content_congr {first second : Disk} {place : Place}
    (same : first.nodes place = second.nodes place) :
    first.content place = second.content place := by
  rw [Disk.content, Disk.content, same]

theorem merge_content {disk : Disk} {old : List Byte} {node : Node}
    (wrote : disk.nodes place = some (merge old node)) :
    merge (disk.content place) node = merge old node := by
  cases node with
  | directory => rfl
  | file data =>
      rw [Disk.content, wrote]
      exact congrArg Node.file (overwrite_again old data)

theorem sameKind_merge (old : List Byte) (node : Node) :
    SameKind (some (merge old node)) node := by
  cases node <;> trivial

theorem merge_of_directory {old : Option Node} {node : Node} (isDirectory : old = some .directory)
    (kind : SameKind old node) (bytes : List Byte) : merge bytes node = .directory := by
  rw [isDirectory] at kind
  cases node with
  | directory => rfl
  | file data => exact kind.elim

theorem Restores.cons {next after : Extraction} {start rel : Place} {node : Node}
    {rest : List (Place × Node)}
    (wrote : Wrote state next (rel ++ start) (merge (state.disk.content (rel ++ start)) node))
    (restores : Restores next after start rest)
    (same : ∀ item ∈ rest, item.1 = rel → item.2 = node) :
    Restores state after start ((rel, node) :: rest) := by
  have here : next.disk.nodes (rel ++ start) =
      some (merge (state.disk.content (rel ++ start)) node) := by
    rw [wrote.nodes, if_pos rfl]
  have again : ∀ item ∈ rest, item.1 = rel → after.disk.nodes (rel ++ start) =
      some (merge (state.disk.content (rel ++ start)) node) := by
    rintro ⟨_, other⟩ member rfl
    have written := restores.written _ member
    rw [same _ member rfl] at written
    rw [written, merge_content here]
  refine ⟨restores.running, List.forall_mem_cons.2 ⟨?_, fun item member => ?_⟩, ?_⟩
  · by_cases repeated : ∃ item ∈ rest, item.1 = rel
    · obtain ⟨item, member, isSame⟩ := repeated
      exact again item member isSame
    · rw [restores.kept _ fun item member equal => repeated ⟨item, member, ?_⟩, here]
      exact (List.append_cancel_right equal).symm
  · by_cases repeated : item.1 = rel
    · rw [repeated, same item member repeated]
      exact again item member repeated
    · have ne : item.1 ++ start ≠ rel ++ start := fun equal =>
        repeated (List.append_cancel_right equal)
      have unchanged : next.disk.nodes (item.1 ++ start) = state.disk.nodes (item.1 ++ start) := by
        rw [wrote.nodes, if_neg ne]
      rw [restores.written item member, content_congr unchanged]
  · intro place others
    rw [List.forall_mem_cons] at others
    rw [restores.kept place others.2, wrote.nodes, if_neg others.1]

theorem run_restores (nonempty : dst ≠ []) {items : List (Place × Node)} {start : Place}
    (running : state.failed = none) (rooted : rootPlace state.disk.cwd dst root = start)
    (grounded : Grounded (fun rel => state.disk.nodes (rel ++ start) = some .directory) items)
    (named : ∀ item ∈ items, item.1 ≠ [] ∧ ∀ name ∈ item.1, FileName name)
    (same : ∀ first ∈ items, ∀ second ∈ items, first.1 = second.1 → first.2 = second.2)
    (kinds : ∀ item ∈ items, SameKind (state.disk.nodes (item.1 ++ start)) item.2) :
    Restores state (run (step dst) state (items.map fun item =>
      entryOf (pathBelow root item.1) item.2)) start items := by
  induction items generalizing state with
  | nil => exact ⟨running, by simp, fun _ _ => rfl⟩
  | cons item rest ih =>
      obtain ⟨rel, node⟩ := item
      rw [List.forall_mem_cons] at named kinds
      obtain ⟨above, groundedRest⟩ := grounded
      have isOpen : Open state.disk (rel ++ start) := by
        cases rel with
        | nil => exact absurd rfl named.1.1
        | cons name dir =>
            exact .inr ⟨name, dir ++ start, rfl, named.1.2 name List.mem_cons_self, above⟩
      have wrote := @step_wrote state dst root running nonempty rel named.1.2 node
      rw [rooted] at wrote
      specialize wrote isOpen kinds.1
      have sameAsFirst : ∀ item ∈ rest, item.1 = rel → item.2 = node := fun item member equal =>
        same item (List.mem_cons_of_mem _ member) (rel, node) List.mem_cons_self equal
      refine Restores.cons wrote (ih wrote.running ?_ ?_ named.2 ?_ ?_) sameAsFirst
      · rw [wrote.cwd]
        exact rooted
      · refine groundedRest.mono fun other isKnown => ?_
        rw [wrote.nodes]
        split_ifs with equal
        · rcases isKnown with isDirectory | ⟨-, isDirectory⟩
          · rw [equal] at isDirectory
            rw [merge_of_directory isDirectory kinds.1]
          · rw [isDirectory]
            rfl
        · rcases isKnown with isDirectory | ⟨rfl, -⟩
          · exact isDirectory
          · exact absurd rfl equal
      · intro first member second other
        exact same first (List.mem_cons_of_mem _ member) second (List.mem_cons_of_mem _ other)
      · intro item member
        rw [wrote.nodes]
        split_ifs with equal
        · rw [sameAsFirst item member (List.append_cancel_right equal)]
          exact sameKind_merge _ _
        · exact kinds.2 item member

end Extraction

/-- The writers and readers of `tar` and `gzip`: of the entries that `tarGzFile` makes, what is
written is read again in its order. -/
structure Packing where
  pack : List Entry → Option (List Byte)
  unpack : List Byte → Archive
  reproduces : ∀ {entries bytes}, (∀ entry ∈ entries, ∃ name node, entry = entryOf name node) →
    pack entries = some bytes → unpack bytes = ⟨true, entries, true⟩

/-- A tree is there again, at a place that is not outside a directory. -/
structure Restored (disk : Disk) (src : Place) (after : Disk) (dir place : Place) : Prop where
  inside : dir <:+ place
  nodes : ∀ rel node, disk.nodes (rel ++ src) = some node → after.nodes (rel ++ place) = some node

theorem base_cases (path : GoString) : base path = [separator] ∨ separator ∉ base path := by
  rw [base]
  dsimp only
  split_ifs
  · exact .inr (by decide)
  · exact .inl rfl
  · refine .inr fun member => ?_
    rw [List.mem_reverse] at member
    have passed := List.mem_takeWhile_imp member
    rw [bne_self_eq_false] at passed
    cases passed

section Restore

open Extraction

variable {disk later : Disk} {src : Place} {dst : GoString}

theorem open_rootPlace (nonempty : dst ≠ [])
    (isDirectory : later.nodes (locate later.cwd dst) = some .directory) (path : GoString)
    (kind : SameKind (later.nodes (rootPlace later.cwd dst (base path))) .directory) :
    Open later (rootPlace later.cwd dst (base path)) := by
  have reachable : later.Reachable (rootPlace later.cwd dst (base path)) := by
    rw [rootPlace, locate_join nonempty]
    rcases base_cases path with slash | whole
    · rw [slash]
      exact Disk.reachable_of_directory isDirectory
    · rw [List.splitOn_eq_singleton whole]
      exact Disk.reachable_follow isDirectory whole
  cases present : later.nodes (rootPlace later.cwd dst (base path)) with
  | none => exact .inr (reachable present)
  | some node =>
      cases node with
      | directory => exact .inl present
      | file data =>
          rw [present] at kind
          exact kind.elim

theorem rootPlace_zero (nonempty : dst ≠ []) {flag : Int} (zero : flag = 0) (cwd : Place)
    (srcPath : GoString) : rootPlace cwd dst (archiveRoot flag srcPath) = locate cwd dst := by
  rw [archiveRoot, if_pos zero, rootPlace, locate_join nonempty]
  rfl

theorem inside_rootPlace_iff (nonempty : dst ≠ []) (cwd : Place) (flag : Int) (srcPath : GoString) :
    locate cwd dst <:+ rootPlace cwd dst (archiveRoot flag srcPath) ↔
      flag = 0 ∨ base srcPath ≠ dotDot ∨ locate cwd dst = [] := by
  by_cases zero : flag = 0
  · rw [rootPlace_zero nonempty zero]
    exact iff_of_true (List.suffix_refl _) (.inl zero)
  · rw [or_iff_right zero, archiveRoot, if_neg zero, rootPlace, locate_join nonempty]
    rcases base_cases srcPath with slash | whole
    · rw [slash]
      exact iff_of_true (List.suffix_refl _) (.inl (by decide))
    · rw [List.splitOn_eq_singleton whole, List.foldl_cons, List.foldl_nil]
      by_cases up : base srcPath = dotDot
      · rw [up, follow_dotDot, or_iff_right (not_not.2 rfl)]
        refine ⟨fun inside => ?_, fun root => root ▸ List.suffix_refl _⟩
        have short := inside.length_le
        rw [List.length_tail] at short
        exact List.eq_nil_of_length_eq_zero (by omega)
      · refine iff_of_true ?_ (.inl up)
        rw [follow, if_neg up]
        split_ifs
        · exact List.suffix_refl _
        · exact List.suffix_cons _ _

theorem of_mem_inventory {item : Place × Node}
    (member : item ∈ inventory disk.infos src (disk.depth + 1) []) :
    disk.nodes (item.1 ++ src) = some item.2 ∧ item.1 ≠ [] := by
  obtain ⟨present, below, some, split⟩ :=
    (mem_inventory_iff (fun _ _ _ => Disk.mem_infos) (by omega)).1 member
  rw [List.append_nil] at split
  exact ⟨present, split ▸ some⟩

theorem inventory_restores (nonempty : dst ≠ []) {state : Extraction} {root : GoString}
    {start : Place} (running : state.failed = none)
    (rooted : rootPlace state.disk.cwd dst root = start)
    (isDirectory : state.disk.nodes start = some .directory)
    (kinds : ∀ rel node, rel ≠ [] → disk.nodes (rel ++ src) = some node →
      SameKind (state.disk.nodes (rel ++ start)) node) :
    Restores state (run (step dst) state ((inventory disk.infos src (disk.depth + 1) []).map
      fun item => entryOf (pathBelow root item.1) item.2)) start
      (inventory disk.infos src (disk.depth + 1) []) := by
  refine run_restores nonempty running rooted (grounded_inventory isDirectory _) ?_ ?_ ?_
  · intro item member
    obtain ⟨present, some⟩ := of_mem_inventory member
    exact ⟨some, Disk.named_of_present (present ▸ Option.some_ne_none _)⟩
  · intro first member second other equal
    have left := (of_mem_inventory member).1
    rw [equal, (of_mem_inventory other).1] at left
    exact (Option.some.inj left).symm
  · intro item member
    obtain ⟨present, some⟩ := of_mem_inventory member
    exact kinds item.1 item.2 some present

theorem treeItems_restore (flag : Int) (srcPath : GoString)
    (isTree : disk.nodes src = some .directory) (nonempty : dst ≠ [])
    (isDirectory : later.nodes (locate later.cwd dst) = some .directory)
    (kinds : ∀ rel node, disk.nodes (rel ++ src) = some node → SameKind (later.nodes
      (rel ++ rootPlace later.cwd dst (archiveRoot flag srcPath))) node) :
    Restores (start later) (run (step dst) (start later) ((treeItems disk src flag).map
        fun item => entryOf (pathBelow (archiveRoot flag srcPath) item.1) item.2))
      (rootPlace later.cwd dst (archiveRoot flag srcPath)) (treeItems disk src flag) := by
  by_cases zero : flag = 0
  · rw [treeItems, if_pos zero, List.nil_append]
    refine inventory_restores nonempty rfl rfl ?_ fun rel node _ present => kinds rel node present
    rw [rootPlace_zero nonempty zero]
    exact isDirectory
  · have kind := kinds [] .directory isTree
    have isOpen := open_rootPlace nonempty isDirectory _ kind
    have wrote := @step_wrote (start later) dst (archiveRoot flag srcPath) rfl nonempty []
      (by simp) .directory isOpen kind
    rw [treeItems, if_neg zero, List.singleton_append, List.map_cons, run_cons]
    refine Restores.cons wrote (inventory_restores nonempty wrote.running ?_ ?_ ?_) ?_
    · rw [wrote.cwd]
      rfl
    · rw [wrote.nodes]
      exact if_pos rfl
    · intro rel node some present
      rw [wrote.nodes, if_neg]
      · exact kinds rel node present
      · exact fun equal => some (List.append_left_eq_self.1 equal)
    · exact fun item member equal => absurd equal (of_mem_inventory member).2

theorem created_keeps {created : Disk} {destFile : GoString} {place : Place}
    (ran : disk.openWrite true destFile = .ok (created, place))
    (outside : ¬src <:+ locate disk.cwd destFile) :
    (∀ other, disk.nodes other = some .directory → created.nodes other = some .directory) ∧
      ∀ rel, created.nodes (rel ++ src) = disk.nodes (rel ++ src) := by
  obtain ⟨located, -, notDirectory, nodes⟩ := Disk.openWrite_ok ran
  refine ⟨fun other isDirectory => ?_, fun rel => ?_⟩
  · rw [nodes, if_neg]
    · exact isDirectory
    · rintro rfl
      exact notDirectory isDirectory
  · rw [nodes, if_neg]
    intro same
    exact outside ⟨rel, same.trans located⟩

theorem unTarGz_whole (later : Disk) (dst : GoString) (entries : List Entry) :
    unTarGz later dst ⟨true, entries, true⟩ = run (step dst) (start later) entries := by
  simp [unTarGz]

theorem ne_nil_of_stat {node : Node} (found : later.stat dst = .ok node) : dst ≠ [] := by
  rintro rfl
  cases found

theorem root_restored {flag : Int} {srcPath : GoString} {after : Extraction} (nonempty : dst ≠ [])
    (isDirectory : later.nodes (locate later.cwd dst) = some .directory)
    (restores : Restores (start later) after
      (rootPlace later.cwd dst (archiveRoot flag srcPath)) (treeItems disk src flag)) :
    after.disk.nodes (rootPlace later.cwd dst (archiveRoot flag srcPath)) = some .directory := by
  by_cases zero : flag = 0
  · rw [restores.kept, rootPlace_zero nonempty zero]
    · exact isDirectory
    · intro item member equal
      rw [treeItems, if_pos zero, List.nil_append] at member
      exact (of_mem_inventory member).2 (List.append_left_eq_self.1 equal.symm)
  · refine restores.written ([], .directory) ?_
    rw [treeItems, if_neg zero]
    exact List.mem_cons_self

theorem restored_iff {flag : Int} {after : Extraction} {place : Place}
    (isTree : disk.nodes src = some .directory)
    (restores : Restores (start later) after place (treeItems disk src flag))
    (root : after.disk.nodes place = some .directory) :
    (∀ rel node, disk.nodes (rel ++ src) = some node →
        after.disk.nodes (rel ++ place) = some node) ↔
      ∀ rel data, disk.nodes (rel ++ src) = some (.file data) →
        (later.content (rel ++ place)).length ≤ data.length := by
  have written : ∀ rel node, rel ≠ [] → disk.nodes (rel ++ src) = some node →
      after.disk.nodes (rel ++ place) = some (merge (later.content (rel ++ place)) node) :=
    fun rel node nonempty present =>
      restores.written (rel, node) (treeItems_complete flag nonempty present)
  constructor
  · intro restored rel data present
    have nonempty : rel ≠ [] := by
      rintro rfl
      rw [List.nil_append, isTree] at present
      cases present
    have same := (written rel _ nonempty present).symm.trans (restored rel _ present)
    exact (overwrite_eq_iff _ _).1 (Node.file.inj (Option.some.inj same))
  · intro short rel node present
    by_cases empty : rel = []
    · rw [empty, List.nil_append, isTree] at present
      rw [empty, ← present]
      exact root
    · rw [written rel node empty present]
      cases node with
      | directory => rfl
      | file data => rw [merge, (overwrite_eq_iff _ _).2 (short rel data present)]

/-- A tree that is archived and extracted is there again, with the bytes of its files, exactly
if it does not go to the parent of the directory and no file that was there before is longer than
the one that is written over it. -/
theorem tarGz_restores_iff (packing : Packing) {disk packed : Disk} {srcPath destFile : GoString}
    {flag : Int} (isTree : disk.stat srcPath = .ok .directory)
    (outside : ¬locate disk.cwd srcPath <:+ locate disk.cwd destFile)
    (ran : tarGz packing.pack disk srcPath destFile flag = .ok packed)
    {later : Disk} {dst : GoString} (isDirectory : later.stat dst = .ok .directory)
    (kinds : ∀ rel node, disk.nodes (rel ++ locate disk.cwd srcPath) = some node →
      SameKind (later.nodes (rel ++ rootPlace later.cwd dst (archiveRoot flag srcPath))) node) :
    ∃ bytes, packed.nodes (locate disk.cwd destFile) = some (.file bytes) ∧
      (unTarGz later dst (packing.unpack bytes)).failed = none ∧
      (Restored disk (locate disk.cwd srcPath) (unTarGz later dst (packing.unpack bytes)).disk
          (locate later.cwd dst) (rootPlace later.cwd dst (archiveRoot flag srcPath)) ↔
        (flag = 0 ∨ base srcPath ≠ dotDot ∨ locate later.cwd dst = []) ∧
          ∀ rel data, disk.nodes (rel ++ locate disk.cwd srcPath) = some (.file data) →
            (later.content (rel ++ rootPlace later.cwd dst (archiveRoot flag srcPath))).length ≤
              data.length) := by
  have nonempty := ne_nil_of_stat isDirectory
  obtain ⟨found, present⟩ := Disk.resolve_of_stat isTree
  obtain ⟨created, place, entries, bytes, opened, listed, packs, rfl⟩ := tarGz_ok ran
  obtain ⟨located, cwd, -, nodes⟩ := Disk.openWrite_ok opened
  obtain ⟨keeps, same⟩ := created_keeps opened outside
  have isFile := nodes place
  rw [if_pos rfl] at isFile
  have createdTree : created.nodes (locate disk.cwd srcPath) = some .directory := keeps _ present
  have all := tarEntries_ok (Disk.resolve_mono keeps cwd found) createdTree listed
  have restores := @treeItems_restore created later _ dst flag srcPath createdTree nonempty
    (Disk.stat_ok isDirectory) fun rel node there => kinds rel node (same rel ▸ there)
  rw [← all] at restores
  have made : ∀ entry ∈ entries, ∃ name node, entry = entryOf name node := by
    rw [all, List.forall_mem_map]
    exact fun item _ => ⟨_, _, rfl⟩
  have whole := restored_iff createdTree restores
    (root_restored nonempty (Disk.stat_ok isDirectory) restores)
  simp only [same] at whole
  refine ⟨bytes, ?_, ?_⟩
  · rw [Disk.nodes_put_file isFile, if_pos located.symm]
  · rw [packing.reproduces made packs, unTarGz_whole, ← inside_rootPlace_iff nonempty, ← whole]
    exact ⟨restores.running, fun restored => ⟨restored.inside, restored.nodes⟩,
      fun restored => ⟨restored.1, restored.2⟩⟩

end Restore

def twoDisk : Disk :=
  (((Disk.blank.put [str "s"] .directory).put [str "f", str "s"] (.file [1])).put
    [str "d"] .directory).put [str "f", str "d"] (.file [2, 3])

/-- The entry for the file. -/
def fileEntry : Entry := entryOf (str "./f") (.file [1])

/-- What `tar` and `gzip` write for it, with mode 0644 and the time 1600000000. -/
def fileArchive : List Byte :=
  lowBytes 32 0x1f8b08000000000000ffd2d34f63a0353030303030333101d3060606e8b48181 ++
    lowBytes 32 0x812183a1b1b991b9892154dcdcd4d88841c180e62e636060282d2e492c6230a0 ++
    lowBytes 32 0xd82e74cf0d11c038d00e1805a360148c8251302000100000ffff2139c8ee0008 ++
    lowBytes 2 0x0000

/-- They are asked for nothing else. -/
def filePacking : Packing where
  pack entries := if entries = [fileEntry] then some fileArchive else none
  unpack bytes := if bytes = fileArchive then ⟨true, [fileEntry], true⟩ else ⟨false, [], false⟩
  reproduces := by
    intro entries bytes _ packs
    split_ifs at packs with same
    rw [← Option.some.inj packs, if_pos rfl, same]

theorem tarGz_twoDisk :
    ∃ packed, tarGz filePacking.pack twoDisk (str "s") (str "a") 0 = .ok packed ∧
    packed.nodes [str "a"] = some (.file fileArchive) := by
  have listed : tarEntries (twoDisk.put [str "a"] (.file [])) (str "s") 0 = .ok [fileEntry] := by
    decide +kernel
  have found : twoDisk.resolve (str "a") = .ok [str "a"] := by decide +kernel
  have missing : twoDisk.nodes [str "a"] = none := by decide +kernel
  have empty : (twoDisk.put [str "a"] (.file [])).nodes [str "a"] = some (.file []) := by
    decide +kernel
  refine ⟨(twoDisk.put [str "a"] (.file [])).put [str "a"] (.file fileArchive), ?_, ?_⟩
  · simp only [tarGz, Disk.openWrite, found, missing, listed, filePacking, if_true]
  · rw [Disk.nodes_put_file empty, if_pos rfl]

theorem tarGz_restores_fresh :
    ∃ packed, tarGz filePacking.pack twoDisk (str "s") (str "a") 0 = .ok packed ∧
      ∃ bytes, packed.nodes (locate twoDisk.cwd (str "a")) = some (.file bytes) ∧
        (unTarGz Disk.blank (str "/") (filePacking.unpack bytes)).failed = none ∧
        Restored twoDisk (locate twoDisk.cwd (str "s"))
          (unTarGz Disk.blank (str "/") (filePacking.unpack bytes)).disk
          (locate Disk.blank.cwd (str "/"))
          (Extraction.rootPlace Disk.blank.cwd (str "/") (archiveRoot 0 (str "s"))) := by
  obtain ⟨packed, ran, -⟩ := tarGz_twoDisk
  have root : Extraction.rootPlace Disk.blank.cwd (str "/") (archiveRoot 0 (str "s")) = [] := by
    decide +kernel
  have isTree : twoDisk.stat (str "s") = .ok .directory := by decide +kernel
  have blank : ∀ rel : Place, rel ≠ [] → Disk.blank.nodes (rel ++ []) = none := by
    intro rel some
    rw [List.append_nil]
    exact if_neg some
  obtain ⟨bytes, archived, succeeds, restored_iff⟩ := tarGz_restores_iff filePacking isTree
    (by decide +kernel) ran (by decide +kernel : Disk.blank.stat (str "/") = .ok .directory) (by
      intro rel node present
      rw [root]
      by_cases empty : rel = []
      · rw [empty, List.nil_append, Disk.stat_ok isTree] at present
        rw [empty, ← Option.some.inj present]
        exact trivial
      · rw [blank rel empty]
        exact trivial)
  refine ⟨packed, ran, bytes, archived, succeeds, restored_iff.2 ⟨.inl rfl, fun rel data _ => ?_⟩⟩
  rw [root]
  by_cases empty : rel = []
  · rw [empty]
    exact Nat.zero_le _
  · rw [Disk.content, blank rel empty]
    exact Nat.zero_le _

/-- A longer file keeps its end. -/
theorem tarGz_keeps_tail :
    ∃ packed, tarGz filePacking.pack twoDisk (str "s") (str "a") 0 = .ok packed ∧
      packed.nodes [str "a"] = some (.file fileArchive) ∧
      (unTarGz twoDisk (str "d") (filePacking.unpack fileArchive)).failed = none ∧
      twoDisk.nodes [str "f", str "s"] = some (.file [1]) ∧
      (unTarGz twoDisk (str "d") (filePacking.unpack fileArchive)).disk.nodes
        [str "f", str "d"] = some (.file [1, 3]) := by
  obtain ⟨packed, ran, archived⟩ := tarGz_twoDisk
  refine ⟨packed, ran, archived, ?_⟩
  decide +kernel

end Bclib.Fs
