import Bclib.Fs.CopyPaths

namespace Bclib.Fs

open Data
open Go

/-! What `CopyDir` makes of a tree. -/

def Regexps.Matches (regexps : Regexps) (pattern name : GoString) : Prop :=
  ∃ decides, regexps.compile pattern = some decides ∧ decides name = true

theorem Regexps.matches_iff {regexps : Regexps} {pattern : GoString} {decides : GoString → Bool}
    (compiled : regexps.compile pattern = some decides) (name : GoString) :
    regexps.Matches pattern name ↔ decides name = true := by
  constructor
  · rintro ⟨other, found, holds⟩
    rw [compiled] at found
    cases found
    exact holds
  · exact fun holds => ⟨decides, compiled, holds⟩

/-- A name is selected by two patterns, each of which restricts nothing where it is empty. -/
def Regexps.Selects (regexps : Regexps) (matchRegexp excludeRegexp name : GoString) : Prop :=
  (matchRegexp = [] ∨ regexps.Matches matchRegexp name) ∧
    (excludeRegexp = [] ∨ ¬regexps.Matches excludeRegexp name)

def Regexps.Passes (regexps : Regexps) (matchRegexp excludeRegexp name : GoString) : Prop :=
  matchRegexp = [] ∧ excludeRegexp = [] ∨
    regexps.Matches matchRegexp name ∧ ¬regexps.Matches excludeRegexp name

theorem Regexps.passes_iff (regexps : Regexps) (matchRegexp excludeRegexp name : GoString) :
    regexps.Passes matchRegexp excludeRegexp name ↔
      regexps.Selects matchRegexp excludeRegexp name ∧
        (matchRegexp = [] ∨ excludeRegexp ≠ []) := by
  have all : regexps.Matches [] name := ⟨_, regexps.empty, rfl⟩
  rw [Passes, Selects]
  by_cases noMatch : matchRegexp = []
  · by_cases noExclude : excludeRegexp = []
    · simp [noMatch, noExclude]
    · simp [noMatch, noExclude, all]
  · by_cases noExclude : excludeRegexp = []
    · simp [noMatch, noExclude, all]
    · simp [noMatch, noExclude]

theorem base_walked (root : GoString) {name : GoString} (named : FileName name) (rel : Place) :
    base (walked root (name :: rel)) = name := by
  rw [show walked root (name :: rel) = join [walked root rel, name] from rfl,
    join_fileName _ named, base_joinFront _ named]

section Tree

variable (regexps : Regexps) (srcPath destPath matchRegexp excludeRegexp : GoString) (disk : Disk)

/-- A file of the source that is selected by its base name. -/
def SelectedFile (rel : Place) (data : List Byte) : Prop :=
  disk.nodes (rel ++ locate disk.cwd srcPath) = some (.file data) ∧
    ∃ name dir, rel = name :: dir ∧ regexps.Selects matchRegexp excludeRegexp name

/-- The selected files, and only they, are copied to their places under the destination, and
every other file, and the source, is as it was. -/
structure Right (final : Copying) : Prop where
  copies : ∀ copy, copy ∈ final.copies ↔
    ∃ rel data, SelectedFile regexps srcPath matchRegexp excludeRegexp disk rel data ∧
      copy = ⟨rel ++ locate disk.cwd srcPath, rel ++ locate disk.cwd srcPath,
        rel ++ locate disk.cwd destPath⟩
  bytes : ∀ rel data, SelectedFile regexps srcPath matchRegexp excludeRegexp disk rel data →
    final.disk.nodes (rel ++ locate disk.cwd destPath) = some (.file data)
  others : ∀ place, (∀ rel data,
      SelectedFile regexps srcPath matchRegexp excludeRegexp disk rel data →
      place ≠ rel ++ locate disk.cwd destPath) →
    ∀ bytes, final.disk.nodes place = some (.file bytes) ↔ disk.nodes place = some (.file bytes)
  kept : ∀ rel data, final.disk.nodes (rel ++ locate disk.cwd srcPath) = some (.file data) ↔
    disk.nodes (rel ++ locate disk.cwd srcPath) = some (.file data)

/-- A file that is copied as it should be, if its path is written so: an empty pattern is not
taken for one that excludes, the names have no backslash, and the place under the destination is
not in the source, unless it is a file that is the same already. -/
structure Fits (written : Prop) (rel : Place) (data : List Byte) : Prop where
  restricts : matchRegexp = [] ∨ excludeRegexp ≠ []
  plain : ∀ name ∈ rel, Plain name
  written : written
  same : locate disk.cwd srcPath <:+ rel ++ locate disk.cwd destPath →
    disk.nodes (rel ++ locate disk.cwd destPath) = some (.file data)

def copyOf (rel : Place) : Copy :=
  ⟨rel ++ locate disk.cwd srcPath, sourceOf srcPath disk rel, destOf srcPath destPath disk rel⟩

structure SameFiles (after : Disk) : Prop where
  cwd : after.cwd = disk.cwd
  files : ∀ rel data, after.nodes (rel ++ locate disk.cwd srcPath) = some (.file data) ↔
    disk.nodes (rel ++ locate disk.cwd srcPath) = some (.file data)

variable {regexps srcPath destPath matchRegexp excludeRegexp disk} {state next final : Copying}
  {rel : Place} {data : List Byte}

theorem visit_cases {path : GoString} {f : Node}
    (ran : visit regexps srcPath destPath matchRegexp excludeRegexp state path f = .ok next) :
    (f ≠ .directory ∧ regexps.Passes matchRegexp excludeRegexp (base path)) ∧
        copyWalked srcPath destPath state path = .ok next ∨
      ¬(f ≠ .directory ∧ regexps.Passes matchRegexp excludeRegexp (base path)) ∧
        next = state := by
  rw [visit] at ran
  by_cases none : matchRegexp = [] ∧ excludeRegexp = []
  · have passes : regexps.Passes matchRegexp excludeRegexp (base path) := .inl none
    rw [if_pos none] at ran
    split_ifs at ran with isDirectory
    · cases ran
      exact .inr ⟨fun both => both.1 isDirectory, rfl⟩
    · exact .inl ⟨⟨isDirectory, passes⟩, ran⟩
  · rw [if_neg none] at ran
    cases included : regexps.compile matchRegexp with
    | none =>
        rw [included] at ran
        cases ran
    | some includes =>
        cases excluded : regexps.compile excludeRegexp with
        | none =>
            simp only [included, excluded] at ran
            cases ran
        | some excludes =>
            have passes_iff : regexps.Passes matchRegexp excludeRegexp (base path) ↔
                includes (base path) = true ∧ excludes (base path) = false := by
              rw [Regexps.Passes, Regexps.matches_iff included, Regexps.matches_iff excluded,
                or_iff_right none, Bool.not_eq_true]
            simp only [included, excluded] at ran
            rw [passes_iff]
            split_ifs at ran with copied
            · exact .inl ⟨copied, ran⟩
            · cases ran
              exact .inr ⟨copied, rfl⟩

structure Copied (srcPath destPath : GoString) (disk : Disk) (rel : Place) (written : List Byte)
    (state next : Copying) : Prop where
  copies : next.copies = state.copies ++ [copyOf srcPath destPath disk rel]
  cwd : next.disk.cwd = disk.cwd
  bytes : next.disk.nodes (destOf srcPath destPath disk rel) = some (.file written)
  read : sourceOf srcPath disk rel ≠ destOf srcPath destPath disk rel →
    state.disk.nodes (sourceOf srcPath disk rel) = some (.file written)
  others : ∀ other, other ≠ destOf srcPath destPath disk rel → ∀ bytes,
    next.disk.nodes other = some (.file bytes) ↔ state.disk.nodes other = some (.file bytes)

theorem copyWalked_ok (nonempty : srcPath ≠ []) (named : ∀ name ∈ rel, FileName name)
    (cwd : state.disk.cwd = disk.cwd)
    (ran : copyWalked srcPath destPath state (walked srcPath rel) = .ok next) :
    ∃ written, Copied srcPath destPath disk rel written state next := by
  obtain ⟨source, place, written, sourceAt, placeAt, copies, cwdNext, bytes, read, others⟩ :=
    copyFile_ok ran
  rw [slashes_slashes, cwd] at sourceAt
  rw [cwd] at placeAt cwdNext
  have sameSource : source = sourceOf srcPath disk rel := sourceAt
  have samePlace : place = destOf srcPath destPath disk rel := placeAt
  subst sameSource samePlace
  refine ⟨written, ?_, cwdNext, bytes, read, others⟩
  rw [copies, cwd, locate_walked nonempty _ named]
  rfl

theorem visit_ok (nonempty : srcPath ≠ []) {node : Node} (named : ∀ name ∈ rel, FileName name)
    (cwd : state.disk.cwd = disk.cwd)
    (ran : visit regexps srcPath destPath matchRegexp excludeRegexp state (walked srcPath rel)
      node = .ok next) :
    (∃ data written, node = .file data ∧
        regexps.Passes matchRegexp excludeRegexp (base (walked srcPath rel)) ∧
        Copied srcPath destPath disk rel written state next) ∨
      next = state ∧ ∀ data, node = .file data →
        ¬regexps.Passes matchRegexp excludeRegexp (base (walked srcPath rel)) := by
  rcases visit_cases ran with ⟨⟨isFile, passes⟩, ran⟩ | ⟨fails, unchanged⟩
  · obtain ⟨written, copied⟩ := copyWalked_ok nonempty named cwd ran
    cases node with
    | directory => exact absurd rfl isFile
    | file data => exact .inl ⟨data, written, rfl, passes, copied⟩
  · refine .inr ⟨unchanged, ?_⟩
    rintro data rfl passes
    exact fails ⟨by rintro ⟨⟩, passes⟩

structure Noted (regexps : Regexps) (srcPath destPath matchRegexp excludeRegexp : GoString)
    (disk : Disk) (state : Copying) : Prop where
  cwd : state.disk.cwd = disk.cwd
  copies : ∀ copy ∈ state.copies, ∃ rel, (∀ name ∈ rel, FileName name) ∧
    regexps.Passes matchRegexp excludeRegexp (base (walked srcPath rel)) ∧
    copy = copyOf srcPath destPath disk rel

theorem Noted.visit {node : Node} (nonempty : srcPath ≠ [])
    (noted : Noted regexps srcPath destPath matchRegexp excludeRegexp disk state)
    (named : ∀ name ∈ rel, FileName name)
    (ran : visit regexps srcPath destPath matchRegexp excludeRegexp state (walked srcPath rel)
      node = .ok next) :
    Noted regexps srcPath destPath matchRegexp excludeRegexp disk next := by
  rcases visit_ok nonempty named noted.cwd ran with ⟨_, written, -, passes, copied⟩ | ⟨rfl, -⟩
  · refine ⟨copied.cwd, ?_⟩
    rw [copied.copies]
    intro copy member
    rcases List.mem_append.1 member with earlier | now
    · exact noted.copies copy earlier
    · exact ⟨rel, named, passes, List.mem_singleton.1 now⟩
  · exact noted

structure Transferred (regexps : Regexps)
    (srcPath destPath matchRegexp excludeRegexp : GoString) (disk : Disk) (state : Copying) :
    Prop where
  same : SameFiles srcPath disk state.disk
  copies : ∀ copy ∈ state.copies, ∃ rel data,
    SelectedFile regexps srcPath matchRegexp excludeRegexp disk rel data ∧
    copy = ⟨rel ++ locate disk.cwd srcPath, rel ++ locate disk.cwd srcPath,
      rel ++ locate disk.cwd destPath⟩ ∧
    state.disk.nodes (rel ++ locate disk.cwd destPath) = some (.file data)
  others : ∀ place, (∀ copy ∈ state.copies, place ≠ copy.dest) →
    ∀ bytes, state.disk.nodes place = some (.file bytes) ↔ disk.nodes place = some (.file bytes)

structure Apart (srcPath destPath : GoString) (disk : Disk) : Prop where
  given : srcPath ≠ []
  plainSrc : Plain srcPath
  plainDest : Plain destPath
  directory : disk.nodes (locate disk.cwd srcPath) = some .directory
  outside : ¬locate disk.cwd srcPath <:+ locate disk.cwd destPath

theorem SelectedFile.named
    (selected : SelectedFile regexps srcPath matchRegexp excludeRegexp disk rel data) :
    ∀ name ∈ rel, FileName name := by
  intro name member
  have present : disk.nodes (rel ++ locate disk.cwd srcPath) ≠ none := by
    rw [selected.1]
    exact Option.some_ne_none _
  exact disk.named_of_present present name member

theorem copyOf_of_fits (apart : Apart srcPath destPath disk) (named : ∀ name ∈ rel, FileName name)
    (fits : Fits srcPath destPath matchRegexp excludeRegexp disk
      (Lands srcPath destPath rel disk.cwd) rel data) :
    copyOf srcPath destPath disk rel = ⟨rel ++ locate disk.cwd srcPath,
      rel ++ locate disk.cwd srcPath, rel ++ locate disk.cwd destPath⟩ := by
  rw [copyOf, (sourceOf_eq_iff apart.given named apart.plainSrc).2 fits.plain,
    destOf_eq apart.given named apart.plainSrc apart.plainDest fits.plain, fits.written]

theorem Transferred.copied {written : List Byte} (apart : Apart srcPath destPath disk)
    (transferred :
      Transferred regexps srcPath destPath matchRegexp excludeRegexp disk state)
    (selected : SelectedFile regexps srcPath matchRegexp excludeRegexp disk rel data)
    (fits : Fits srcPath destPath matchRegexp excludeRegexp disk
      (Lands srcPath destPath rel disk.cwd) rel data)
    (copied : Copied srcPath destPath disk rel written state next) :
    Transferred regexps srcPath destPath matchRegexp excludeRegexp disk next := by
  obtain ⟨copies, cwd, bytes, read, others⟩ := copied
  rw [copyOf_of_fits apart selected.named fits] at copies
  obtain ⟨-, source, dest⟩ := Copy.mk.inj (copyOf_of_fits apart selected.named fits)
  rw [dest] at bytes others
  rw [source, dest] at read
  have different : rel ++ locate disk.cwd srcPath ≠ rel ++ locate disk.cwd destPath := by
    intro same
    refine apart.outside ?_
    rw [List.append_cancel_left same]
  -- the bytes that are read are those of the file before the walk
  have unchanged := (transferred.same.files rel data).2 selected.1
  have sameBytes : written = data := by
    have now := read different
    rw [unchanged] at now
    cases now
    rfl
  subst sameBytes
  refine ⟨⟨cwd, fun other found => ?_⟩, fun copy member => ?_, fun place untouched found => ?_⟩
  · by_cases here : other ++ locate disk.cwd srcPath = rel ++ locate disk.cwd destPath
    · rw [here, bytes, fits.same ⟨other, here⟩]
    · exact (others _ here found).trans (transferred.same.files other found)
  · rw [copies] at member
    rcases List.mem_append.1 member with earlier | now
    · obtain ⟨other, found, chosen, copy_eq, there⟩ := transferred.copies copy earlier
      refine ⟨other, found, chosen, copy_eq, ?_⟩
      by_cases again : other = rel
      · subst again
        rw [bytes, ← selected.1, chosen.1]
      · refine (others _ (fun same => again ?_) found).2 there
        exact List.append_cancel_right same
    · exact ⟨rel, written, selected, List.mem_singleton.1 now, bytes⟩
  · rw [copies] at untouched
    refine (others place (untouched _ (List.mem_append_right _ List.mem_cons_self)) found).trans ?_
    exact transferred.others place
      (fun copy member => untouched copy (List.mem_append_left _ member)) found

theorem Transferred.selected (apart : Apart srcPath destPath disk)
    (transferred : Transferred regexps srcPath destPath matchRegexp excludeRegexp disk state)
    (named : ∀ name ∈ rel, FileName name)
    (there : state.disk.stat (walked srcPath rel) = .ok (.file data))
    (passes : regexps.Passes matchRegexp excludeRegexp (base (walked srcPath rel))) :
    SelectedFile regexps srcPath matchRegexp excludeRegexp disk rel data := by
  have present := Disk.stat_ok there
  rw [locate_walked apart.given _ named, transferred.same.cwd] at present
  have before := (transferred.same.files rel data).1 present
  cases rel with
  | nil =>
      have root := apart.directory
      rw [List.nil_append, root] at before
      cases before
  | cons name dir =>
      rw [base_walked _ (named name List.mem_cons_self), Regexps.passes_iff] at passes
      exact ⟨before, name, dir, rfl, passes.1⟩

theorem Transferred.visit {node : Node} (apart : Apart srcPath destPath disk)
    (fits : ∀ rel data, SelectedFile regexps srcPath matchRegexp excludeRegexp disk rel data →
      Fits srcPath destPath matchRegexp excludeRegexp disk
      (Lands srcPath destPath rel disk.cwd) rel data)
    (transferred : Transferred regexps srcPath destPath matchRegexp excludeRegexp disk state)
    (named : ∀ name ∈ rel, FileName name)
    (there : state.disk.stat (walked srcPath rel) = .ok node)
    (ran : visit regexps srcPath destPath matchRegexp excludeRegexp state (walked srcPath rel)
      node = .ok next) :
    Transferred regexps srcPath destPath matchRegexp excludeRegexp disk next := by
  rcases visit_ok apart.given named transferred.same.cwd ran with
    ⟨data, written, rfl, passes, copied⟩ | ⟨rfl, -⟩
  · have selected := transferred.selected apart named there passes
    exact transferred.copied apart selected (fits rel data selected) copied
  · exact transferred

theorem stat_walked (apart : Apart srcPath destPath disk)
    (transferred : Transferred regexps srcPath destPath matchRegexp excludeRegexp disk state)
    (selected : SelectedFile regexps srcPath matchRegexp excludeRegexp disk rel data) :
    state.disk.stat (walked srcPath rel) = .ok (.file data) := by
  have named := selected.named
  obtain ⟨present, name, dir, rfl, -⟩ := selected
  have cleaned : clean (walked srcPath (name :: dir)) = walked srcPath (name :: dir) :=
    clean_join (walked_ne_nil apart.given (name :: dir))
  rw [← cleaned]
  refine Disk.stat_clean ?_
  rw [locate_walked apart.given _ named, transferred.same.cwd]
  exact (transferred.same.files _ data).2 present

theorem transferred_start :
    Transferred regexps srcPath destPath matchRegexp excludeRegexp disk ⟨disk, []⟩ :=
  ⟨⟨rfl, fun _ _ => Iff.rfl⟩, fun _ member => absurd member List.not_mem_nil,
    fun _ _ _ => Iff.rfl⟩

section Whole

variable {levels : Nat} (apart : Apart srcPath destPath disk)
  (there : disk.stat srcPath = .ok .directory)
  (fits : ∀ rel data, SelectedFile regexps srcPath matchRegexp excludeRegexp disk rel data →
    Fits srcPath destPath matchRegexp excludeRegexp disk
      (Lands srcPath destPath rel disk.cwd) rel data)
  (ran : walk Copying.disk (visit regexps srcPath destPath matchRegexp excludeRegexp) stopWalk
    levels ⟨disk, []⟩ srcPath .directory = .ok final)

include apart there fits ran

theorem walk_transferred :
    Transferred regexps srcPath destPath matchRegexp excludeRegexp disk final :=
  @walk_keeps _ _ _ _ _ _ srcPath
    (fun _ _ _ _ named transferred there ran => transferred.visit apart fits named there ran)
    _ _ _ [] _ (fun _ member => absurd member List.not_mem_nil) transferred_start there ran

theorem walk_copies
    (selected : SelectedFile regexps srcPath matchRegexp excludeRegexp disk rel data) :
    ⟨rel ++ locate disk.cwd srcPath, rel ++ locate disk.cwd srcPath,
      rel ++ locate disk.cwd destPath⟩ ∈ final.copies := by
  have named := selected.named
  rw [← copyOf_of_fits apart named (fits rel data selected)]
  refine @walk_reaches _ _ _ _ _
    (Transferred regexps srcPath destPath matchRegexp excludeRegexp disk)
    (fun state => copyOf srcPath destPath disk rel ∈ state.copies) _ apart.given
    (fun _ _ _ _ named transferred there ran => transferred.visit apart fits named there ran)
    ?_ rel data named (fun _ transferred _ => stat_walked apart transferred selected) ?_
    _ _ _ [] _ rel (List.append_nil rel).symm transferred_start there ran
  · intro state other node next named transferred _ member ran
    rcases visit_ok apart.given named transferred.same.cwd ran with
      ⟨_, written, -, -, copied⟩ | ⟨rfl, -⟩
    · rw [copied.copies]
      exact List.mem_append_left _ member
    · exact member
  · intro state next transferred ran
    rcases visit_ok apart.given named transferred.same.cwd ran with
      ⟨_, written, -, -, copied⟩ | ⟨-, fails⟩
    · rw [copied.copies]
      exact List.mem_append_right _ List.mem_cons_self
    · refine absurd ?_ (fails data rfl)
      have restricts := (fits rel data selected).restricts
      obtain ⟨-, name, dir, rfl, selects⟩ := selected
      rw [base_walked _ (named name List.mem_cons_self), Regexps.passes_iff]
      exact ⟨selects, restricts⟩

theorem walk_right : Right regexps srcPath destPath matchRegexp excludeRegexp disk final := by
  have done := walk_transferred apart there fits ran
  refine ⟨fun copy => ⟨fun member => ?_, ?_⟩, fun rel data selected => ?_,
    fun place untouched => done.others place fun copy member => ?_, done.same.files⟩
  · obtain ⟨rel, data, selected, copy_eq, -⟩ := done.copies copy member
    exact ⟨rel, data, selected, copy_eq⟩
  · rintro ⟨rel, data, selected, rfl⟩
    exact walk_copies apart there fits ran selected
  · obtain ⟨other, found, chosen, copy_eq, bytes⟩ :=
      done.copies _ (walk_copies apart there fits ran selected)
    obtain ⟨file, -, -⟩ := Copy.mk.inj copy_eq
    rw [← List.append_cancel_right file] at chosen bytes
    rw [bytes, ← chosen.1, selected.1]
  · obtain ⟨rel, data, selected, rfl, -⟩ := done.copies copy member
    exact untouched rel data selected

end Whole

theorem fits_of_right (apart : Apart srcPath destPath disk)
    (noted : Noted regexps srcPath destPath matchRegexp excludeRegexp disk final)
    (right : Right regexps srcPath destPath matchRegexp excludeRegexp disk final)
    (selected : SelectedFile regexps srcPath matchRegexp excludeRegexp disk rel data) :
    Fits srcPath destPath matchRegexp excludeRegexp disk
      (Lands srcPath destPath rel disk.cwd) rel data := by
  obtain ⟨other, named, passes, copy_eq⟩ :=
    noted.copies _ ((right.copies _).2 ⟨rel, data, selected, rfl⟩)
  obtain ⟨file, source, dest⟩ := Copy.mk.inj copy_eq
  obtain rfl := List.append_cancel_right file
  have plain := (sourceOf_eq_iff apart.given named apart.plainSrc).1 source.symm
  rw [destOf_eq apart.given named apart.plainSrc apart.plainDest plain] at dest
  refine ⟨?_, plain, dest.symm, ?_⟩
  · obtain ⟨-, name, dir, rfl, -⟩ := selected
    rw [base_walked _ (named name List.mem_cons_self), Regexps.passes_iff] at passes
    exact passes.2
  · rintro ⟨inside, same⟩
    rw [← same, ← right.kept, same]
    exact right.bytes _ data selected

theorem copyDir_ok {levels : Nat}
    (ran : copyDir regexps srcPath destPath matchRegexp excludeRegexp levels disk = .ok final) :
    disk.stat (slashes srcPath) = .ok .directory ∧
      disk.stat (slashes destPath) = .ok .directory ∧
      walk Copying.disk (visit regexps (slashes srcPath) (slashes destPath) matchRegexp
        excludeRegexp) stopWalk levels ⟨disk, []⟩ (slashes srcPath) .directory = .ok final := by
  rw [copyDir] at ran
  cases source : disk.stat (slashes srcPath) with
  | error err =>
      rw [source] at ran
      cases ran
  | ok node =>
      cases node with
      | file data =>
          rw [source] at ran
          cases ran
      | directory =>
          simp only [source] at ran
          cases dest : disk.stat (slashes destPath) with
          | error err =>
              rw [dest] at ran
              cases ran
          | ok node =>
              cases node with
              | file data =>
                  rw [dest] at ran
                  cases ran
              | directory =>
                  simp only [dest] at ran
                  exact ⟨rfl, rfl, ran⟩

theorem right_iff_fits {levels : Nat} (apart : Apart srcPath destPath disk)
    (there : disk.stat srcPath = .ok .directory)
    (ran : walk Copying.disk (visit regexps srcPath destPath matchRegexp excludeRegexp) stopWalk
      levels ⟨disk, []⟩ srcPath .directory = .ok final) :
    Right regexps srcPath destPath matchRegexp excludeRegexp disk final ↔
      ∀ rel data, SelectedFile regexps srcPath matchRegexp excludeRegexp disk rel data →
        Fits srcPath destPath matchRegexp excludeRegexp disk (Lands srcPath destPath rel disk.cwd)
          rel data := by
  refine ⟨fun right rel data selected => ?_, fun fits => walk_right apart there fits ran⟩
  have noted : Noted regexps srcPath destPath matchRegexp excludeRegexp disk final := by
    refine @walk_keeps _ _ _ _ _ _ srcPath ?_ _ _ _ [] _
      (fun _ member => absurd member List.not_mem_nil)
      ⟨rfl, fun _ member => absurd member List.not_mem_nil⟩ there ran
    intro state rel node next named noted _ ran
    exact noted.visit apart.given named ran
  exact fits_of_right apart noted right selected

theorem Fits.imp {before after : Prop} (way : before → after)
    (fits : Fits srcPath destPath matchRegexp excludeRegexp disk before rel data) :
    Fits srcPath destPath matchRegexp excludeRegexp disk after rel data :=
  ⟨fits.restricts, fits.plain, way fits.written, fits.same⟩

end Tree

-- in `../x/x/../x/xq` the `..` takes back an element, and the place is the right one
example : Lands (str "x") (str "../x/x") [str "xq"] [str "w"] := by decide +kernel

def copyDisk : Disk :=
  ((Disk.blank.put [str "x"] .directory).put [str "f", str "x"] (.file [1])).put [str "d"]
    .directory

def everyName : Regexps := ⟨fun _ => some fun _ => true, rfl⟩

theorem nodes_copyDisk (place : Place) :
    copyDisk.nodes place = if place = [str "d"] then some .directory
      else if place = [str "f", str "x"] then some (.file [1])
      else if place = [str "x"] then some .directory
      else if place = [] then some .directory else none := by
  rw [copyDisk, Disk.nodes_put (by decide +kernel), Disk.nodes_put (by decide +kernel),
    Disk.nodes_put (by decide +kernel)]
  rfl

end Bclib.Fs
