import Bclib.Go.Location
import Mathlib.Data.List.Nodup

namespace Bclib.Go

open Data

/-! A tree of directories and files as the system calls of Unix see it.  There are no links,
and everything may be read and written. -/

inductive Node where
  | directory
  | file (data : List Byte)
  deriving DecidableEq, Repr

instance (name : GoString) : Decidable (FileName name) :=
  decidable_of_iff
    (name ≠ [] ∧ name.contains separator = false ∧ name ≠ dot ∧ name ≠ dotDot)
    ⟨fun ⟨nonempty, whole, notDot, notDotDot⟩ =>
      ⟨nonempty, fun inside => Bool.eq_false_iff.1 whole (List.contains_iff_mem.2 inside),
        notDot, notDotDot⟩,
     fun named => ⟨named.nonempty,
      Bool.eq_false_iff.2 fun found => named.noSeparator (List.contains_iff_mem.1 found),
      named.notDot, named.notDotDot⟩⟩

structure Disk where
  nodes : Place → Option Node
  /-- The names in a directory, in the order in which they are listed. -/
  listing : Place → List GoString
  /-- The working directory of the process. -/
  cwd : Place
  depth : Nat
  root : nodes [] = some .directory
  inDirectory : ∀ name place, nodes (name :: place) ≠ none → nodes place = some .directory
  listed : ∀ place name, name ∈ listing place ↔ nodes (name :: place) ≠ none
  listedOnce : ∀ place, (listing place).Nodup
  named : ∀ name place, nodes (name :: place) ≠ none → FileName name
  working : nodes cwd = some .directory
  shallow : ∀ place, nodes place ≠ none → place.length ≤ depth

def Replaces : Option Node → Node → Prop
  | none, _ => True
  | some (.file _), .file _ => True
  | _, _ => False

instance (old : Option Node) (node : Node) : Decidable (Replaces old node) :=
  match old, node with
  | none, _ => .isTrue trivial
  | some (.file _), .file _ => .isTrue trivial
  | some .directory, _ => .isFalse id
  | some (.file _), .directory => .isFalse id

namespace Disk

def blank : Disk where
  nodes := fun place => if place = [] then some .directory else none
  listing := fun _ => []
  cwd := []
  depth := 0
  root := rfl
  inDirectory := by simp
  listed := by simp
  listedOnce := by simp
  named := by simp
  working := rfl
  shallow := by simp

def Admits (disk : Disk) (name : GoString) (dir : Place) (node : Node) : Prop :=
  disk.nodes dir = some .directory ∧ FileName name ∧ Replaces (disk.nodes (name :: dir)) node

instance (disk : Disk) (name : GoString) (dir : Place) (node : Node) :
    Decidable (disk.Admits name dir node) :=
  inferInstanceAs (Decidable (_ ∧ _ ∧ _))

theorem not_replaces_directory (node : Node) : ¬Replaces (some .directory) node := by
  cases node <;> exact id

section Put

variable (disk : Disk) (name : GoString) (dir : Place) (node : Node)

def nodesWith (other : Place) : Option Node :=
  if other = name :: dir then some node else disk.nodes other

def listingWith (other : Place) : List GoString :=
  if other = dir ∧ disk.nodes (name :: dir) = none then disk.listing dir ++ [name]
  else disk.listing other

variable {disk name dir node}

theorem nodesWith_directory (fits : disk.Admits name dir node) {place : Place}
    (isDirectory : disk.nodes place = some .directory) :
    nodesWith disk name dir node place = some .directory := by
  have notSelf : place ≠ name :: dir := by
    intro same
    have replaces := fits.2.2
    rw [← same, isDirectory] at replaces
    exact not_replaces_directory node replaces
  rw [nodesWith, if_neg notSelf]
  exact isDirectory

theorem nodesWith_inDirectory (fits : disk.Admits name dir node) (other : GoString)
    (parent : Place) (present : nodesWith disk name dir node (other :: parent) ≠ none) :
    nodesWith disk name dir node parent = some .directory := by
  apply nodesWith_directory fits
  by_cases same : other :: parent = name :: dir
  · rw [(List.cons.inj same).2]
    exact fits.1
  · rw [nodesWith, if_neg same] at present
    exact disk.inDirectory other parent present

theorem nodesWith_listed (parent : Place) (other : GoString) :
    other ∈ listingWith disk name dir parent ↔
      nodesWith disk name dir node (other :: parent) ≠ none := by
  rw [listingWith, nodesWith]
  by_cases same : parent = dir
  · subst same
    by_cases fresh : disk.nodes (name :: parent) = none
    · rw [if_pos ⟨rfl, fresh⟩, List.mem_append, List.mem_singleton, disk.listed]
      by_cases named : other = name <;> simp [named]
    · rw [if_neg (fun both => fresh both.2), disk.listed]
      by_cases named : other = name <;> simp [named, fresh]
  · rw [if_neg (fun both => same both.1), disk.listed,
      if_neg (fun both => same (List.cons.inj both).2)]

theorem listingWith_nodup (parent : Place) : (listingWith disk name dir parent).Nodup := by
  rw [listingWith]
  split_ifs with fresh
  · refine List.Nodup.append (disk.listedOnce dir) (List.nodup_singleton name) ?_
    rw [List.disjoint_singleton, disk.listed]
    exact not_not.2 fresh.2
  · exact disk.listedOnce parent

theorem nodesWith_named (fits : disk.Admits name dir node) (other : GoString) (parent : Place)
    (present : nodesWith disk name dir node (other :: parent) ≠ none) : FileName other := by
  by_cases same : other :: parent = name :: dir
  · rw [(List.cons.inj same).1]
    exact fits.2.1
  · rw [nodesWith, if_neg same] at present
    exact disk.named other parent present

theorem nodesWith_shallow (other : Place)
    (present : nodesWith disk name dir node other ≠ none) :
    other.length ≤ max disk.depth (dir.length + 1) := by
  by_cases same : other = name :: dir
  · rw [same]
    exact Nat.le_max_right _ _
  · rw [nodesWith, if_neg same] at present
    exact Nat.le_trans (disk.shallow other present) (Nat.le_max_left _ _)

end Put

def put (disk : Disk) (place : Place) (node : Node) : Disk :=
  match place with
  | [] => disk
  | name :: dir =>
      if fits : disk.Admits name dir node then
        { nodes := disk.nodesWith name dir node
          listing := disk.listingWith name dir
          cwd := disk.cwd
          depth := max disk.depth (dir.length + 1)
          root := nodesWith_directory fits disk.root
          inDirectory := nodesWith_inDirectory fits
          listed := nodesWith_listed
          listedOnce := listingWith_nodup
          named := nodesWith_named fits
          working := nodesWith_directory fits disk.working
          shallow := nodesWith_shallow }
      else disk

theorem nodes_put {disk : Disk} {name : GoString} {dir : Place} {node : Node}
    (fits : disk.Admits name dir node) (other : Place) :
    (disk.put (name :: dir) node).nodes other =
      if other = name :: dir then some node else disk.nodes other := by
  rw [put, dif_pos fits]
  rfl

@[simp] theorem cwd_put (disk : Disk) (place : Place) (node : Node) :
    (disk.put place node).cwd = disk.cwd := by
  cases place with
  | nil => rfl
  | cons name dir =>
      rw [put]
      split_ifs <;> rfl

end Disk

inductive Errno where
  | notExist
  | notDirectory
  | isDirectory
  | exists
  deriving DecidableEq, Repr

namespace Disk

def enter (disk : Disk) (place : Place) (element : GoString) : Except Errno Place :=
  match disk.nodes place with
  | some .directory => .ok (follow place element)
  | some (.file _) => .error .notDirectory
  | none => .error .notExist

def walkTo (disk : Disk) (place : Place) (elements : List GoString) : Except Errno Place :=
  elements.foldlM disk.enter place

def startOf (disk : Disk) (path : GoString) : Place := if Rooted path then [] else disk.cwd

def resolve (disk : Disk) (path : GoString) : Except Errno Place :=
  if path = [] then .error .notExist
  else disk.walkTo (disk.startOf path) (path.splitOn separator)

def nodeAt (disk : Disk) (place : Place) : Except Errno Node :=
  match disk.nodes place with
  | some node => .ok node
  | none => .error .notExist

/-- `os.Stat` -/
def stat (disk : Disk) (path : GoString) : Except Errno Node :=
  disk.resolve path >>= disk.nodeAt

/-- `os.Mkdir`; separators at the end of a path are passed. -/
def mkdir (disk : Disk) (path : GoString) : Except Errno Disk :=
  if path = [] then .error .notExist
  else
    match disk.walkTo (disk.startOf path) ((path.splitOn separator).filter (· ≠ [])) with
    | .error err => .error err
    | .ok place =>
        match disk.nodes place with
        | some _ => .error .exists
        | none => .ok (disk.put place .directory)

/-- A file that is opened for writing is created where there is none; `truncates` is
`O_TRUNC`. -/
def openWrite (disk : Disk) (truncates : Bool) (path : GoString) :
    Except Errno (Disk × Place) :=
  match disk.resolve path with
  | .error err => .error err
  | .ok place =>
      match disk.nodes place with
      | some .directory => .error .isDirectory
      | some (.file _) => .ok (if truncates then disk.put place (.file []) else disk, place)
      | none => .ok (disk.put place (.file []), place)

def readAt (disk : Disk) (place : Place) : Except Errno (List Byte) :=
  match disk.nodes place with
  | some (.file data) => .ok data
  | some .directory => .error .isDirectory
  | none => .error .notExist

/-- `path[:j-1]` of `os.MkdirAll`: what is in front of the last element, where there is more
than a separator. -/
def parentText (path : GoString) : Option GoString :=
  match (path.reverse.dropWhile (· == separator)).dropWhile (· != separator) with
  | _ :: first :: rest => some (first :: rest).reverse
  | _ => none

/-- The outcome of `os.MkdirAll`, with the directories it has made. -/
structure Made where
  disk : Disk
  paths : List GoString
  err : Option Errno

/-- The end of `os.MkdirAll`, behind the parent. -/
def Made.finish (above : Made) (path : GoString) : Made :=
  match above.err with
  | some _ => above
  | none =>
      match above.disk.mkdir path with
      | .ok disk => ⟨disk, above.paths ++ [path], none⟩
      | .error err =>
          if above.disk.stat path = .ok .directory then above else { above with err := some err }

def mkdirAllWithin (disk : Disk) : Nat → GoString → Made
  | 0, _ => ⟨disk, [], none⟩
  | fuel + 1, path =>
      match disk.stat path with
      | .ok .directory => ⟨disk, [], none⟩
      | .ok (.file _) => ⟨disk, [], some .notDirectory⟩
      | .error _ =>
          match parentText path with
          | some parent => (disk.mkdirAllWithin fuel parent).finish path
          | none => Made.finish ⟨disk, [], none⟩ path

/-- `os.MkdirAll`; each parent is shorter than the path. -/
def mkdirAll (disk : Disk) (path : GoString) : Made := disk.mkdirAllWithin (path.length + 1) path

end Disk

end Bclib.Go
