import Bclib.Go.Resolve

namespace Bclib.Go

open Data

/-! What is below a directory, in the order in which a recursive walk finds it: each directory
in front of what is in it. -/

section Inventory

def Disk.infos (disk : Disk) (place : Place) : List (GoString × Node) :=
  (disk.listing place).filterMap fun name => (disk.nodes (name :: place)).map (Prod.mk name)

theorem Disk.mem_infos {disk : Disk} {place : Place} {name : GoString} {node : Node} :
    (name, node) ∈ disk.infos place ↔ disk.nodes (name :: place) = some node := by
  rw [infos, List.mem_filterMap]
  constructor
  · rintro ⟨other, -, found⟩
    rw [Option.map_eq_some_iff] at found
    obtain ⟨_, present, same⟩ := found
    cases same
    exact present
  · intro present
    refine ⟨name, ?_, ?_⟩
    · rw [disk.listed, present]
      exact Option.some_ne_none _
    · rw [present]
      rfl

variable (lists : Place → List (GoString × Node))

def inventory (src : Place) : Nat → Place → List (Place × Node)
  | 0, _ => []
  | fuel + 1, rel =>
      (lists (rel ++ src)).flatMap fun info =>
        (info.1 :: rel, info.2) ::
          match info.2 with
          | .directory => inventory src fuel (info.1 :: rel)
          | .file _ => []

variable {lists} {disk : Disk} {src : Place}

theorem mem_inventory_iff
    (exact : ∀ place name node, (name, node) ∈ lists place ↔ disk.nodes (name :: place) = some node)
    {fuel : Nat} {rel : Place} (enough : disk.depth < fuel + (rel ++ src).length)
    {found : Place} {node : Node} :
    (found, node) ∈ inventory lists src fuel rel ↔
      disk.nodes (found ++ src) = some node ∧ ∃ below, below ≠ [] ∧ found = below ++ rel := by
  induction fuel generalizing rel with
  | zero =>
      refine iff_of_false List.not_mem_nil ?_
      rintro ⟨present, below, nonempty, rfl⟩
      have bound := disk.shallow _ (present ▸ Option.some_ne_none node)
      have := List.length_pos_iff.2 nonempty
      simp only [List.length_append] at bound enough
      omega
  | succ fuel ih =>
      have deeper : ∀ name, disk.depth < fuel + (name :: rel ++ src).length := by
        intro name
        rw [List.cons_append, List.length_cons]
        omega
      rw [inventory, List.mem_flatMap]
      constructor
      · rintro ⟨⟨name, info⟩, listed, member⟩
        rw [exact] at listed
        rcases List.mem_cons.1 member with same | member
        · cases same
          exact ⟨listed, [name], List.cons_ne_nil _ _, rfl⟩
        · cases info with
          | file data => cases member
          | directory =>
              obtain ⟨present, below, nonempty, rfl⟩ := (ih (deeper name)).1 member
              exact ⟨present, below ++ [name], by simp, by simp⟩
      · rintro ⟨present, below, nonempty, shape⟩
        obtain ⟨front, name, rfl⟩ := (List.eq_nil_or_concat below).resolve_left nonempty
        rw [List.concat_eq_append, List.append_assoc, List.singleton_append] at shape
        cases front with
        | nil =>
            rw [shape] at present ⊢
            exact ⟨(name, node), (exact _ _ _).2 present, List.mem_cons_self⟩
        | cons first front =>
            have isDirectory : disk.nodes (name :: (rel ++ src)) = some .directory := by
              refine @Disk.directory_of_append disk (first :: front) _ ?_ (List.cons_ne_nil _ _)
              rw [shape, List.append_assoc] at present
              rw [show name :: (rel ++ src) = name :: rel ++ src from rfl, present]
              exact Option.some_ne_none _
            refine ⟨(name, .directory), (exact _ _ _).2 isDirectory, List.mem_cons_of_mem _ ?_⟩
            exact (ih (deeper name)).2 ⟨present, first :: front, List.cons_ne_nil _ _, shape⟩

def Grounded (known : Place → Prop) : List (Place × Node) → Prop
  | [] => True
  | (rel, node) :: rest =>
      known rel.tail ∧ Grounded (fun other => known other ∨ other = rel ∧ node = .directory) rest

theorem Grounded.mono {known wider : Place → Prop} {entries : List (Place × Node)}
    (wide : ∀ place, known place → wider place) (grounded : Grounded known entries) :
    Grounded wider entries := by
  induction entries generalizing known wider with
  | nil => trivial
  | cons entry rest ih =>
      refine ⟨wide _ grounded.1, ih (fun place => ?_) grounded.2⟩
      exact Or.imp_left (wide place)

theorem Grounded.append {known : Place → Prop} {first second : List (Place × Node)}
    (left : Grounded known first) (right : Grounded known second) :
    Grounded known (first ++ second) := by
  induction first generalizing known with
  | nil => exact right
  | cons entry rest ih => exact ⟨left.1, ih left.2 (right.mono fun _ => .inl)⟩

theorem grounded_inventory {known : Place → Prop} {rel : Place} (isKnown : known rel)
    (fuel : Nat) : Grounded known (inventory lists src fuel rel) := by
  induction fuel generalizing known rel with
  | zero => trivial
  | succ fuel ih =>
      rw [inventory]
      induction lists (rel ++ src) with
      | nil => trivial
      | cons info rest outer =>
          rw [List.flatMap_cons]
          refine Grounded.append ⟨isKnown, ?_⟩ outer
          obtain ⟨name, node⟩ := info
          cases node with
          | directory => exact ih (.inr ⟨rfl, rfl⟩)
          | file data => trivial

end Inventory

def pathBelow (path : GoString) (rel : Place) : GoString :=
  rel.foldr (fun name path => path ++ separator :: name) path

theorem splitOn_pathBelow (path : GoString) {rel : Place}
    (whole : ∀ name ∈ rel, separator ∉ name) :
    (pathBelow path rel).splitOn separator = path.splitOn separator ++ rel.reverse := by
  induction rel with
  | nil => exact (List.append_nil _).symm
  | cons name rest ih =>
      rw [List.forall_mem_cons] at whole
      rw [show pathBelow path (name :: rest) = pathBelow path rest ++ separator :: name from rfl,
        List.splitOn_append_cons_self, ih whole.2, List.splitOn_eq_singleton whole.1,
        List.reverse_cons, List.append_assoc]

namespace Disk

variable {disk : Disk}

theorem resolve_child {path name : GoString} {place : Place}
    (found : disk.resolve path = .ok place)
    (isDirectory : disk.nodes place = some .directory) (named : FileName name) :
    disk.resolve (path ++ separator :: name) = .ok (name :: place) := by
  rw [resolve] at found ⊢
  split_ifs at found with empty
  have some : path ++ separator :: name ≠ [] := List.append_ne_nil_of_left_ne_nil empty _
  have start : disk.startOf (path ++ separator :: name) = disk.startOf path := by
    rw [startOf, startOf, if_congr (rooted_append empty _) rfl rfl]
  rw [if_neg some, start, List.splitOn_append_cons_self,
    List.splitOn_eq_singleton named.noSeparator, walkTo_concat, found]
  exact (enter_of_directory isDirectory name).trans (congrArg _ (follow_fileName named place))

theorem resolve_pathBelow {path : GoString} {rel place : Place}
    (found : disk.resolve path = .ok place) (present : disk.nodes (rel ++ place) ≠ none) :
    disk.resolve (pathBelow path rel) = .ok (rel ++ place) := by
  induction rel with
  | nil => exact found
  | cons name rest ih =>
      have above := disk.inDirectory name (rest ++ place) present
      refine resolve_child (ih ?_) above (disk.named name _ present)
      rw [above]
      exact Option.some_ne_none _

end Disk

end Bclib.Go
