import Bclib.Fs.UnTarGz
import Bclib.Go.Inventory

namespace Bclib.Fs

open Data
open Go

/-! `TarGz`: a directory is written to an archive, each directory in front of what is in it. -/

def entryOf (name : GoString) : Node → Entry
  | .directory => ⟨name ++ [separator], .dir, [], true⟩
  | .file data => ⟨name, .reg, data, true⟩

/-- The header of a file has the size that `fi` gives, and the writer holds the data to it. -/
def tarGzFile (disk : Disk) (srcFile recPath : GoString) (fi : Node) :
    Except Failure (List Entry) :=
  match fi with
  | .directory => .ok [entryOf recPath .directory]
  | .file listed =>
      match disk.resolve srcFile >>= disk.readAt with
      | .error err => .error (.call err)
      | .ok data =>
          if data.length = listed.length then .ok [entryOf recPath (.file data)]
          else .error .archive

def collect {α β ε : Type} (f : α → Except ε (List β)) : List α → Except ε (List β)
  | [] => .ok []
  | item :: rest => do
      let first ← f item
      let more ← collect f rest
      return first ++ more

/-- `os.Open` and `Readdir` of a directory. -/
def readdir (disk : Disk) (path : GoString) : Except Errno (List (GoString × Node)) :=
  match disk.resolve path with
  | .error err => .error err
  | .ok place =>
      match disk.nodes place with
      | some .directory => .ok (disk.infos place)
      | some (.file _) => .error .notDirectory
      | none => .error .notExist

/-- The first argument bounds the depth of the tree. -/
def tarGzDir (disk : Disk) : Nat → GoString → GoString → Except Failure (List Entry)
  | 0, _, _ => .error .archive
  | fuel + 1, srcDir, recPath =>
      match readdir disk srcDir with
      | .error err => .error (.call err)
      | .ok fis =>
          collect (fun fi => do
            let curPath := srcDir ++ separator :: fi.1
            let own ← tarGzFile disk curPath (recPath ++ separator :: fi.1) fi.2
            match fi.2 with
            | .directory => do
                let more ← tarGzDir disk fuel curPath (recPath ++ separator :: fi.1)
                return own ++ more
            | .file _ => return own) fis

def tarEntries (disk : Disk) (srcPath : GoString) (flag : Int) : Except Failure (List Entry) :=
  match disk.stat srcPath with
  | .error err => .error (.call err)
  | .ok .directory =>
      if flag = 0 then tarGzDir disk (disk.depth + 1) srcPath (base [])
      else if flag = 1 then do
        let own ← tarGzFile disk srcPath (base srcPath) .directory
        let more ← tarGzDir disk (disk.depth + 1) srcPath (base srcPath)
        return own ++ more
      else .error .invalidFlag
  | .ok (.file data) =>
      if flag = 0 then tarGzFile disk srcPath (base []) (.file data)
      else if flag = 1 then tarGzFile disk srcPath (base srcPath) (.file data)
      else .error .invalidFlag

/-- `TarGz`, where it does not fail; `pack` is what the writers of `tar` and `gzip` make of
the entries, and nothing if they fail. -/
def tarGz (pack : List Entry → Option (List Byte)) (disk : Disk) (srcPath destFile : GoString)
    (flag : Int) : Except Failure Disk :=
  match disk.openWrite true destFile with
  | .error err => .error (.call err)
  | .ok (created, place) =>
      match tarEntries created srcPath flag with
      | .error err => .error err
      | .ok entries =>
          match pack entries with
          | none => .error .archive
          | some bytes => .ok (created.put place (.file bytes))

theorem tarGz_ok {pack : List Entry → Option (List Byte)} {disk packed : Disk}
    {srcPath destFile : GoString} {flag : Int}
    (ran : tarGz pack disk srcPath destFile flag = .ok packed) :
    ∃ created place entries bytes, disk.openWrite true destFile = .ok (created, place) ∧
      tarEntries created srcPath flag = .ok entries ∧ pack entries = some bytes ∧
      created.put place (.file bytes) = packed := by
  rw [tarGz] at ran
  split at ran
  · cases ran
  next created place opened =>
    split at ran
    · cases ran
    next entries listed =>
      split at ran
      · cases ran
      next bytes packs =>
        cases ran
        exact ⟨created, place, entries, bytes, opened, listed, packs, rfl⟩

theorem collect_ok {α β ε : Type} {f : α → Except ε (List β)} {g : α → List β} {items : List α}
    (each : ∀ item ∈ items, f item = .ok (g item)) : collect f items = .ok (items.flatMap g) := by
  induction items with
  | nil => rfl
  | cons item rest ih =>
      rw [List.forall_mem_cons] at each
      rw [collect, each.1, ih each.2]
      rfl

section Tree

variable {disk : Disk} {srcPath : GoString} {src : Place}

theorem readdir_ok (found : disk.resolve srcPath = .ok src)
    (isDirectory : disk.nodes src = some .directory) :
    readdir disk srcPath = .ok (disk.infos src) := by
  simp only [readdir, found, isDirectory]

theorem tarGzFile_ok {path : GoString} {place : Place} {node : Node}
    (found : disk.resolve path = .ok place) (present : disk.nodes place = some node)
    (recPath : GoString) : tarGzFile disk path recPath node = .ok [entryOf recPath node] := by
  cases node with
  | directory => rfl
  | file data =>
      have read : (disk.resolve path >>= disk.readAt) = .ok data := by
        rw [found]
        change disk.readAt place = .ok data
        rw [Disk.readAt, present]
      simp only [tarGzFile, read, if_true]

theorem tarGzDir_ok (found : disk.resolve srcPath = .ok src) (recPath : GoString) {fuel : Nat}
    {rel : Place} (isDirectory : disk.nodes (rel ++ src) = some .directory)
    (enough : disk.depth < fuel + (rel ++ src).length) :
    tarGzDir disk fuel (pathBelow srcPath rel) (pathBelow recPath rel) =
      .ok ((inventory disk.infos src fuel rel).map fun item =>
        entryOf (pathBelow recPath item.1) item.2) := by
  induction fuel generalizing rel with
  | zero =>
      have bound := disk.shallow _ (isDirectory ▸ Option.some_ne_none _)
      omega
  | succ fuel ih =>
      have here := Disk.resolve_pathBelow found (isDirectory ▸ Option.some_ne_none _)
      rw [tarGzDir, readdir_ok here isDirectory, inventory, List.map_flatMap]
      refine collect_ok fun fi member => ?_
      obtain ⟨name, node⟩ := fi
      have present : disk.nodes (name :: rel ++ src) = some node := Disk.mem_infos.1 member
      have child := Disk.resolve_pathBelow found (present ▸ Option.some_ne_none node)
      have own := tarGzFile_ok child present (pathBelow recPath (name :: rel))
      cases node with
      | file data =>
          change (tarGzFile disk (pathBelow srcPath (name :: rel))
            (pathBelow recPath (name :: rel)) (.file data) >>= fun own => pure own) = _
          rw [own]
          rfl
      | directory =>
          have more := ih present (by
            rw [List.cons_append, List.length_cons]
            omega)
          change (tarGzFile disk (pathBelow srcPath (name :: rel))
            (pathBelow recPath (name :: rel)) .directory >>= fun own =>
              tarGzDir disk fuel (pathBelow srcPath (name :: rel))
                (pathBelow recPath (name :: rel)) >>= fun more => pure (own ++ more)) = _
          rw [own, more]
          rfl

def archiveRoot (flag : Int) (srcPath : GoString) : GoString :=
  base (if flag = 0 then [] else srcPath)

def treeItems (disk : Disk) (src : Place) (flag : Int) : List (Place × Node) :=
  (if flag = 0 then [] else [([], .directory)]) ++
    inventory disk.infos src (disk.depth + 1) []

theorem treeItems_complete (flag : Int) {rel : Place} {node : Node} (nonempty : rel ≠ [])
    (present : disk.nodes (rel ++ src) = some node) : (rel, node) ∈ treeItems disk src flag := by
  rw [treeItems, List.mem_append]
  refine .inr ((mem_inventory_iff (fun _ _ _ => Disk.mem_infos) ?_).2
    ⟨present, rel, nonempty, (List.append_nil rel).symm⟩)
  omega

theorem tarEntries_ok (found : disk.resolve srcPath = .ok src)
    (isDirectory : disk.nodes src = some .directory) {flag : Int} {entries : List Entry}
    (ran : tarEntries disk srcPath flag = .ok entries) :
    entries = (treeItems disk src flag).map fun item =>
      entryOf (pathBelow (archiveRoot flag srcPath) item.1) item.2 := by
  have there : disk.stat srcPath = .ok .directory := by
    rw [Disk.stat, found]
    change disk.nodeAt src = _
    rw [Disk.nodeAt, isDirectory]
  have inner : ∀ recPath, tarGzDir disk (disk.depth + 1) srcPath recPath =
      .ok ((inventory disk.infos src (disk.depth + 1) []).map fun item =>
        entryOf (pathBelow recPath item.1) item.2) := by
    intro recPath
    refine @tarGzDir_ok disk srcPath src found recPath _ [] isDirectory ?_
    omega
  rw [tarEntries, there] at ran
  simp only [inner] at ran
  split_ifs at ran with zero one
  · cases ran
    rw [treeItems, archiveRoot, if_pos zero, if_pos zero, List.nil_append]
  · cases ran
    rw [treeItems, archiveRoot, if_neg zero, if_neg zero]
    rfl

end Tree

end Bclib.Fs
