import Bclib.Data.Ledger
import Bclib.Data.Runs
import Bclib.Go.Time

namespace Bclib.Log

open Data
open Go

/-! The files that `flush` writes to.  A file can always be created and written; opening one
that exists keeps its content and starts at its beginning. -/

/-- `os.File`, opened for writing. -/
structure Handle where
  name : GoString
  offset : Nat
  deriving DecidableEq, Repr

/-- The fields of `giLogger` that the output to files uses, and the world around it. -/
structure Rotation where
  path : GoString
  moduleName : GoString
  isOutputToFile : Bool
  maxFileSize : Int
  curFileSize : Int
  fileName : GoString
  logFile : Option Handle
  /-- The directory of the log. -/
  files : GoString → Option (List Byte)
  reads : Nat
  /-- The texts that `flush` was called with. -/
  flushed : List (List Byte)

/-- `NewGiLogger` and `SetOutputFileSize`, with nothing in the directory. -/
def Rotation.start (path moduleName : GoString) (maxFileSize : Int) : Rotation where
  path := path
  moduleName := moduleName
  isOutputToFile := true
  maxFileSize := maxFileSize
  curFileSize := 0
  fileName := []
  logFile := none
  files := fun _ => none
  reads := 0
  flushed := []

namespace Rotation

inductive Event where
  | flush (text : List Byte)
  /-- The process is started again with the same settings. -/
  | restart
  deriving DecidableEq, Repr

variable (clock : Nat → Instant)

def content (log : Rotation) (name : GoString) : List Byte := (log.files name).getD []

def nameAt (log : Rotation) (time : Instant) : GoString :=
  log.path ++ str "/" ++ log.moduleName ++ time.stamp ++ str ".log"

def nextName (log : Rotation) : GoString := log.nameAt (clock log.reads)

def newLogFile (log : Rotation) : Rotation :=
  let name := log.nextName clock
  { log with
    fileName := name
    logFile := some ⟨name, 0⟩
    curFileSize := 0
    files := fun other => if other = name then some (log.content name) else log.files other
    reads := log.reads + 1 }

def write (log : Rotation) (handle : Handle) (data : List Byte) : Rotation :=
  { log with
    files := fun other =>
      if other = handle.name then some (overwrite (log.content handle.name) handle.offset data)
      else log.files other
    logFile := some { handle with offset := handle.offset + data.length } }

/-- The test of the size behind a write. -/
def rotate (log : Rotation) (length : Nat) : Rotation :=
  let size := (BitVec.ofInt 64 (log.curFileSize + length)).toInt
  let log := { log with curFileSize := size }
  if log.maxFileSize ≤ size then log.newLogFile clock else log

/-- `flush`, as far as files are concerned. -/
def flush (log : Rotation) (text : List Byte) : Rotation :=
  if log.isOutputToFile then
    let log := if log.logFile = none then log.newLogFile clock else log
    let log := if log.files log.fileName = none then log.newLogFile clock else log
    match log.logFile with
    | none => log
    | some handle => (log.write handle text).rotate clock text.length
  else
    match log.logFile with
    | none => log
    | some _ => { log with logFile := none, curFileSize := 0 }

def step (log : Rotation) (event : Event) : Rotation :=
  match event with
  | .flush text => { log.flush clock text with flushed := log.flushed ++ [text] }
  | .restart => { log with logFile := none, curFileSize := 0, fileName := [] }

/-- Every text is in one of the files, and a file is its texts in the order of the calls. -/
def Kept (log : Rotation) : Prop :=
  ∃ entries : List (GoString × List Byte), entries.map Prod.snd = log.flushed ∧
    ∀ name, log.content name = share entries name

/-- A text that is written to the beginning of a file finds it empty. -/
def Fresh (log : Rotation) (event : Event) : Prop :=
  match event with
  | .flush _ =>
      match log.logFile with
      | none => log.content (log.nextName clock) = []
      | some handle => handle.offset = 0 → log.content handle.name = []
  | .restart => True

@[simp] theorem content_newLogFile (log : Rotation) (name : GoString) :
    (log.newLogFile clock).content name = log.content name := by
  by_cases same : name = log.nextName clock
  · rw [same]
    simp [newLogFile, content]
  · simp [newLogFile, content, same]

def Positioned (log : Rotation) : Prop :=
  ∀ handle, log.logFile = some handle →
    log.fileName = handle.name ∧ log.files handle.name ≠ none ∧
      (handle.offset = 0 ∨ handle.offset = (log.content handle.name).length)

theorem positioned_newLogFile (log : Rotation) : (log.newLogFile clock).Positioned := by
  rintro handle opened
  cases opened
  exact ⟨rfl, by simp [newLogFile], .inl rfl⟩

def ready (log : Rotation) : Rotation :=
  if log.logFile = none then log.newLogFile clock else log

theorem content_ready (log : Rotation) (name : GoString) :
    (log.ready clock).content name = log.content name := by
  rw [ready]
  split_ifs
  · exact content_newLogFile clock log name
  · rfl

theorem ready_handle {log : Rotation} (positioned : log.Positioned) :
    ∃ handle, (log.ready clock).logFile = some handle ∧ (log.ready clock).Positioned ∧
      ∀ text, log.Fresh clock (.flush text) ↔ (handle.offset = 0 → log.content handle.name = []) := by
  rw [ready]
  cases opened : log.logFile with
  | none =>
      rw [if_pos rfl]
      refine ⟨_, rfl, positioned_newLogFile clock log, fun text => ?_⟩
      simp only [Fresh, opened]
      exact ⟨fun empty _ => empty, fun empty => empty trivial⟩
  | some handle =>
      rw [if_neg (by simp)]
      refine ⟨handle, opened, positioned, fun text => ?_⟩
      simp only [Fresh, opened]

theorem flush_eq {log : Rotation} (toFile : log.isOutputToFile = true) {handle : Handle}
    (opened : (log.ready clock).logFile = some handle)
    (positioned : (log.ready clock).Positioned) (text : List Byte) :
    log.flush clock text = ((log.ready clock).write handle text).rotate clock text.length := by
  obtain ⟨named, present, -⟩ := positioned handle opened
  have there : ¬(log.ready clock).files (log.ready clock).fileName = none := by
    rw [named]
    exact present
  simp only [flush, toFile, if_true]
  rw [show (if log.logFile = none then log.newLogFile clock else log) = log.ready clock from rfl,
    if_neg there]
  simp only [opened]

theorem content_rotate (log : Rotation) (length : Nat) (name : GoString) :
    (log.rotate clock length).content name = log.content name := by
  simp only [rotate]
  split_ifs
  · exact content_newLogFile clock _ name
  · rfl

theorem content_write (log : Rotation) (handle : Handle) (data : List Byte) (name : GoString) :
    (log.write handle data).content name =
      if name = handle.name then overwrite (log.content handle.name) handle.offset data
      else log.content name := by
  simp only [write, content]
  split_ifs <;> rfl

structure Accounted (log : Rotation) : Prop where
  toFile : log.isOutputToFile = true
  positioned : log.Positioned
  kept : log.Kept

theorem accounted_start (path moduleName : GoString) (maxFileSize : Int) :
    (start path moduleName maxFileSize).Accounted :=
  ⟨rfl, by rintro _ ⟨⟩, [], rfl, fun _ => rfl⟩

theorem isOutputToFile_rotate (log : Rotation) (length : Nat) :
    (log.rotate clock length).isOutputToFile = log.isOutputToFile := by
  simp only [rotate]
  split_ifs <;> rfl

theorem isOutputToFile_ready (log : Rotation) :
    (log.ready clock).isOutputToFile = log.isOutputToFile := by
  rw [ready]
  split_ifs <;> rfl

theorem positioned_rotate {log : Rotation} (positioned : log.Positioned) (length : Nat) :
    (log.rotate clock length).Positioned := by
  simp only [rotate]
  split_ifs
  · exact positioned_newLogFile clock _
  · exact positioned

theorem positioned_write {log : Rotation} {handle : Handle} {data : List Byte}
    (named : log.fileName = handle.name)
    (atEnd : handle.offset = (log.content handle.name).length) :
    (log.write handle data).Positioned := by
  rintro after opened
  cases opened
  refine ⟨named, by simp [write], .inr ?_⟩
  rw [content_write, if_pos rfl, atEnd, overwrite_end, List.length_append]

theorem accounted_flush {log : Rotation} (accounted : log.Accounted) {text : List Byte}
    (fresh : log.Fresh clock (.flush text)) : (log.step clock (.flush text)).Accounted := by
  obtain ⟨entries, texts, shared⟩ := accounted.kept
  obtain ⟨handle, opened, positioned, fresh_iff⟩ := ready_handle clock accounted.positioned
  obtain ⟨named, -, place⟩ := positioned handle opened
  have atEnd : handle.offset = ((log.ready clock).content handle.name).length := by
    rcases place with atStart | atEnd
    · rw [content_ready, (fresh_iff text).1 fresh atStart, atStart]
      rfl
    · exact atEnd
  have flushed := flush_eq clock accounted.toFile opened positioned text
  have positionedAfter : (log.flush clock text).Positioned := by
    rw [flushed]
    exact positioned_rotate clock (positioned_write named atEnd) _
  refine ⟨?_, positionedAfter, entries ++ [(handle.name, text)], ?_, fun name => ?_⟩
  · show (log.flush clock text).isOutputToFile = true
    rw [flushed, isOutputToFile_rotate]
    exact (isOutputToFile_ready clock log).trans accounted.toFile
  · rw [List.map_append, texts]
    rfl
  · show (log.flush clock text).content name = _
    rw [flushed, content_rotate, content_write, atEnd, overwrite_end, content_ready, content_ready]
    split_ifs with same
    · rw [same, share_concat_self, shared]
    · rw [share_concat_of_ne entries (Ne.symm same), shared]

theorem not_kept_flush {log : Rotation} (accounted : log.Accounted) {text : List Byte}
    (nonempty : text ≠ []) (stale : ¬log.Fresh clock (.flush text)) :
    ¬(log.step clock (.flush text)).Kept := by
  obtain ⟨entries, texts, shared⟩ := accounted.kept
  obtain ⟨handle, opened, positioned, fresh_iff⟩ := ready_handle clock accounted.positioned
  rw [fresh_iff, Classical.not_imp] at stale
  have flushed := flush_eq clock accounted.toFile opened positioned text
  have after : ∀ name, (log.step clock (.flush text)).content name =
      if name = handle.name then text ++ (log.content handle.name).drop text.length
      else log.content name := by
    intro name
    show (log.flush clock text).content name = _
    rw [flushed, content_rotate, content_write, stale.1, overwrite_start, content_ready,
      content_ready]
  rintro ⟨later, laterTexts, laterShared⟩
  have others : ∀ name, name ≠ handle.name →
      (log.step clock (.flush text)).content name = log.content name := by
    intro name ne
    rw [after, if_neg ne]
  have overlap : ((log.step clock (.flush text)).content handle.name).length <
      (log.content handle.name).length + text.length := by
    have some := List.length_pos_iff.2 nonempty
    have old := List.length_pos_iff.2 stale.2
    rw [after, if_pos rfl, List.length_append, List.length_drop]
    omega
  refine not_share_of_overlap shared others overlap later ?_ laterShared
  rw [laterTexts, texts]
  rfl

theorem accounted_restart {log : Rotation} (accounted : log.Accounted) :
    (log.step clock .restart).Accounted :=
  ⟨accounted.toFile, by rintro _ ⟨⟩, accounted.kept⟩

def Speaks (event : Event) : Prop := event ≠ .flush []

/-- In every run every text is kept, and none twice, exactly as long as what is written to
the beginning of a file finds it empty: as no file is opened again in the second in which it
was created. -/
theorem rotation_kept_iff (path moduleName : GoString) (maxFileSize : Int) (events : List Event)
    (speaks : ∀ event ∈ events, Speaks event) :
    (∀ past later, events = past ++ later →
        (run (step clock) (start path moduleName maxFileSize) past).Kept) ↔
      AllSteps (step clock) (Fresh clock) (start path moduleName maxFileSize) events := by
  refine run_good_iff Accounted (fun _ accounted => accounted.kept) ?_ ?_
    (accounted_start path moduleName maxFileSize) (allSteps_of_forall speaks _)
  · intro log event accounted _ fresh
    cases event with
    | flush text => exact accounted_flush clock accounted fresh
    | restart => exact accounted_restart clock accounted
  · intro log event accounted speaks stale
    cases event with
    | flush text =>
        refine not_kept_flush clock accounted (fun empty => speaks ?_) stale
        rw [empty]
    | restart => exact absurd trivial stale

def midnight : Instant where
  year := 2020
  month := 1
  day := 1
  hour := 0
  minute := 0
  second := 0
  nanosecond := 0
  monthFits := by decide
  dayFits := by decide
  hourFits := by decide
  minuteFits := by decide
  secondFits := by decide
  nanosecondFits := by decide

theorem rotation_kept_appending :
    (∀ event ∈ [Event.flush [97], .flush [98]], Speaks event) ∧
      ∀ past later, [Event.flush [97], .flush [98]] = past ++ later →
        (run (step fun _ => midnight) (start (str "logs") (str "node") 2) past).Kept := by
  have speaks : ∀ event ∈ [Event.flush [97], .flush [98]], Speaks event := by
    simp [Speaks]
  exact ⟨speaks, (rotation_kept_iff (fun _ => midnight) (str "logs") (str "node") 2 _ speaks).2
    ⟨rfl, by rintro ⟨⟩, trivial⟩⟩

/-- The second text of a second is written over the first, where each fills a file. -/
theorem rotation_overwrites :
    (run (step fun _ => midnight) (start (str "logs") (str "node") 1)
        [.flush [97], .flush [98]]).content (str "logs/node20200101000000.log") = [98] ∧
      ¬(run (step fun _ => midnight) (start (str "logs") (str "node") 1)
        [.flush [97], .flush [98]]).Kept := by
  refine ⟨by decide +kernel, ?_⟩
  have once : (step (fun _ => midnight) (start (str "logs") (str "node") 1)
      (.flush [97])).Accounted := accounted_flush _ (accounted_start _ _ _) rfl
  exact not_kept_flush _ once (List.cons_ne_nil 98 []) fun fresh =>
    absurd (fresh rfl) (by decide +kernel)

/-! Where every file is created in a second of its own, nothing is lost. -/

theorem nameAt_eq_iff (log : Rotation) (first second : Instant) :
    log.nameAt first = log.nameAt second ↔ first.seconds = second.seconds := by
  rw [← Instant.stamp_eq_iff, nameAt, nameAt, List.append_left_inj, List.append_right_inj]

/-- What is in the directory was written to files of earlier readings of the clock. -/
structure Dated (log : Rotation) : Prop where
  written : ∀ name, log.content name ≠ [] → ∃ read < log.reads, name = log.nameAt (clock read)
  named : ∀ handle, log.logFile = some handle →
    ∃ read < log.reads, handle.name = log.nameAt (clock read)
  atStart : ∀ handle, log.logFile = some handle → handle.offset = 0 →
    log.content handle.name = []

variable {clock}

theorem Dated.next_empty {log : Rotation} (dated : log.Dated clock)
    (ticks : ∀ first second, first < second → (clock first).seconds < (clock second).seconds) :
    log.content (log.nextName clock) = [] := by
  by_contra full
  obtain ⟨read, earlier, same⟩ := dated.written _ full
  exact Nat.ne_of_gt (ticks read log.reads earlier) ((log.nameAt_eq_iff _ _).1 same)

theorem Dated.newLogFile {log : Rotation} (dated : log.Dated clock)
    (ticks : ∀ first second, first < second → (clock first).seconds < (clock second).seconds) :
    (log.newLogFile clock).Dated clock := by
  refine ⟨fun name full => ?_, ?_, ?_⟩
  · rw [content_newLogFile] at full
    obtain ⟨read, earlier, same⟩ := dated.written name full
    exact ⟨read, Nat.lt_succ_of_lt earlier, same⟩
  · rintro handle opened
    cases opened
    exact ⟨log.reads, Nat.lt_succ_self _, rfl⟩
  · rintro handle opened -
    cases opened
    rw [content_newLogFile]
    exact dated.next_empty ticks

theorem Dated.write {log : Rotation} {handle : Handle} (dated : log.Dated clock)
    (opened : log.logFile = some handle) (data : List Byte) :
    (log.write handle data).Dated clock := by
  obtain ⟨read, earlier, same⟩ := dated.named handle opened
  refine ⟨fun name full => ?_, ?_, ?_⟩
  · by_cases here : name = handle.name
    · exact ⟨read, earlier, here.trans same⟩
    · rw [content_write, if_neg here] at full
      exact dated.written name full
  · rintro after reopened
    cases reopened
    exact ⟨read, earlier, same⟩
  · rintro after reopened start
    cases reopened
    -- nothing was written
    obtain ⟨start, none⟩ := Nat.add_eq_zero_iff.1 start
    rw [content_write, if_pos rfl, start, List.length_eq_zero_iff.1 none, overwrite_start]
    exact dated.atStart handle opened start

theorem Dated.flush {log : Rotation} (accounted : log.Accounted) (dated : log.Dated clock)
    (ticks : ∀ first second, first < second → (clock first).seconds < (clock second).seconds)
    (text : List Byte) : (log.flush clock text).Dated clock := by
  obtain ⟨handle, opened, positioned, -⟩ := ready_handle clock accounted.positioned
  have ready : (log.ready clock).Dated clock := by
    rw [Rotation.ready]
    split_ifs
    · exact dated.newLogFile ticks
    · exact dated
  have written := ready.write opened text
  rw [flush_eq clock accounted.toFile opened positioned text, rotate]
  have sized : ∀ size, ({ (log.ready clock).write handle text with curFileSize := size } :
      Rotation).Dated clock := fun _ => ⟨written.written, written.named, written.atStart⟩
  split_ifs
  · exact (sized _).newLogFile ticks
  · exact sized _

theorem Dated.fresh {log : Rotation} (dated : log.Dated clock)
    (ticks : ∀ first second, first < second → (clock first).seconds < (clock second).seconds)
    (event : Event) : log.Fresh clock event := by
  cases event with
  | flush text =>
      rw [Fresh]
      cases opened : log.logFile with
      | none => exact dated.next_empty ticks
      | some handle => exact dated.atStart handle opened
  | restart => trivial

theorem fresh_of_ticks
    (ticks : ∀ first second, first < second → (clock first).seconds < (clock second).seconds)
    (path moduleName : GoString) (maxFileSize : Int) (events : List Event) :
    AllSteps (step clock) (Fresh clock) (start path moduleName maxFileSize) events := by
  refine allSteps_of_keeps (fun log => log.Accounted ∧ log.Dated clock)
    (fun log event holds _ => holds.2.fresh ticks event) ?_
    ⟨accounted_start path moduleName maxFileSize, fun _ full => absurd rfl full,
      by rintro _ ⟨⟩, by rintro _ ⟨⟩⟩
    (allSteps_of_forall (fun _ _ => trivial) _)
  rintro log event ⟨accounted, dated⟩ -
  cases event with
  | flush text =>
      have after := dated.flush accounted ticks text
      exact ⟨accounted_flush clock accounted (dated.fresh ticks _),
        after.written, after.named, after.atStart⟩
  | restart => exact ⟨accounted_restart clock accounted, dated.written,
      by rintro _ ⟨⟩, by rintro _ ⟨⟩⟩

end Rotation

end Bclib.Log
