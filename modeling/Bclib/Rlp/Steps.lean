import Bclib.Rlp.ParseSpec

namespace Bclib.Rlp

open Data
open Go

/-! The decoders that run inside open lists, one after the other. -/

/-- A decoder about to run on an element or a field of the innermost list. -/
structure Step where
  type : GoType
  tags : Tags
  stream : Stream

/-- An array of one byte in front of the byte zero.  `Uint` refuses that byte and
keeps its header; `decodeByteArray` drops the error. -/
def Step.Stuck (step : Step) : Prop :=
  step.type = .array 1 .byte ∧ step.stream.window.head? = some 0

instance (step : Step) : Decidable step.Stuck :=
  inferInstanceAs (Decidable (_ ∧ _))

def AllClear (run : List Step) : Prop := ∀ step ∈ run, ¬ step.Stuck

theorem allClear_append {first second : List Step} :
    AllClear (first ++ second) ↔ AllClear first ∧ AllClear second := by
  simp [AllClear, or_imp, forall_and]

theorem allClear_cons {step : Step} {run : List Step} :
    AllClear (step :: run) ↔ ¬ step.Stuck ∧ AllClear run := by
  simp [AllClear]

def elemSteps (elem : GoType) (inside : Stream → List Step) (parser : Parser α) :
    Nat → Stream → List Step
  | 0, _ => []
  | rounds + 1, stream =>
      ⟨elem, {}, stream⟩ :: (inside stream ++
        match parser stream with
        | (.ok _, next) => elemSteps elem inside parser rounds next
        | (.error _, _) => [])

def inListSteps (body : Stream → List Step) (stream : Stream) : List Step :=
  match stream.list with
  | (.ok _, next) => body next
  | (.error _, _) => []

def listSliceSteps (body : Stream → List Step) (stream : Stream) : List Step :=
  match stream.list with
  | (.ok size, next) => if size = 0 then [] else body next
  | (.error _, _) => []

/-- The rest of a struct, which is read element by element and has no header. -/
def isTail : GoType → Tags → Bool
  | .slice elem, tags => tags.tail && !elem.isByte
  | _, _ => false

theorem isTail_untagged (type : GoType) : isTail type {} = false := by
  cases type <;> rfl

mutual
/-- The steps inside the decoding of a type. -/
def steps (fuel : Nat) : GoType → Tags → Stream → List Step
  | .slice elem, tags, stream =>
      if elem.isByte then []
      else if tags.tail then
        elemSteps elem (steps fuel elem {}) (parse fuel elem {}) fuel stream
      else
        listSliceSteps (elemSteps elem (steps fuel elem {}) (parse fuel elem {}) fuel) stream
  | .array length elem, _, stream =>
      if elem.isByte then []
      else inListSteps (elemSteps elem (steps fuel elem {}) (parse fuel elem {}) length) stream
  | .struct fields, _, stream => inListSteps (fieldSteps fuel fields) stream
  | _, _, _ => []

def fieldSteps (fuel : Nat) : Fields → Stream → List Step
  | .nil, _ => []
  | .cons _ tags type rest, stream =>
      (if isTail type tags then [] else [⟨type, tags, stream⟩]) ++
        (steps fuel type tags stream ++
          match parse fuel type tags stream with
          | (.ok _, next) => fieldSteps fuel rest next
          | (.error _, _) => [])
end

/-- A read that gets on from where `fine` holds: what it accepts is not empty, and it
comes to an end. -/
structure Advances (fuel : Nat) (parser : Parser α) (fine : Stream → Prop) : Prop where
  accepts : ∀ {stream next : Stream} {item : α}, stream.Sound →
    stream.kindAhead = none → stream.avail ≤ fuel → fine stream →
    parser stream = (.ok item, next) → ∃ count, 0 < count ∧ stream.Advanced count next
  refuses : ∀ {stream next : Stream} {err : Err}, stream.Sound →
    stream.kindAhead = none → stream.avail ≤ fuel → fine stream →
    parser stream = (.error err, next) → stream.Refused err next

structure Passes (fuel : Nat) (body : Parser α) (fine : Stream → Prop) : Prop where
  accepts : ∀ {stream next : Stream} {items : α}, stream.Sound →
    stream.kindAhead = none → stream.stack ≠ [] → stream.avail < fuel → fine stream →
    body stream = (.ok items, next) → ∃ count, stream.Advanced count next
  refuses : ∀ {stream next : Stream} {err : Err}, stream.Sound →
    stream.kindAhead = none → stream.stack ≠ [] → stream.avail < fuel → fine stream →
    body stream = (.error err, next) → err.Ordinary

theorem Reads.advances {fuel : Nat} {parser : Parser α} {spell : α → List Byte}
    {good : α → Prop} {strict : Prop} (reads : Reads (fuel + 1) parser spell good strict)
    (fine : Stream → Prop) : Advances fuel parser fine where
  accepts sound armed enough _ ran := by
    obtain ⟨-, count, positive, moved, -⟩ :=
      reads.accepts sound armed (Nat.lt_succ_of_le enough) ran
    exact ⟨count, positive, moved⟩
  refuses sound armed enough _ ran :=
    reads.refuses sound armed (Nat.lt_succ_of_le enough) ran

theorem Advances.congr {fuel : Nat} {parser other : Parser α} {fine : Stream → Prop}
    (advances : Advances fuel parser fine) (same : other = parser)
    {fine' : Stream → Prop} (finer : ∀ stream, fine' stream → fine stream) :
    Advances fuel other fine' where
  accepts sound armed enough holds ran :=
    advances.accepts sound armed enough (finer _ holds) (same ▸ ran)
  refuses sound armed enough holds ran :=
    advances.refuses sound armed enough (finer _ holds) (same ▸ ran)

theorem byteArray_one_advances (fuel : Nat) :
    Advances fuel (parseByteArray 1) (fun stream => stream.window.head? ≠ some 0) where
  accepts {stream next item} sound armed _ nonzero ran := by
    rcases outcome : stream.kind with ⟨err | ⟨kind, size⟩, after⟩
    · simp [parseByteArray, outcome] at ran
    obtain ⟨byte, rest, content, room, valid, rfl⟩ :=
      (Stream.kind_eq_ok_iff sound armed _ _).mp outcome
    cases kind with
    | list => simp [parseByteArray, outcome] at ran
    | byte =>
        have other : byte ≠ 0 := fun zero => nonzero (by rw [content, zero]; rfl)
        have value : (stream.headed .byte size byte).byteval = byte := rfl
        have held : (stream.headed .byte size byte).kind =
            (.ok (.byte, size), stream.headed .byte size byte) := rfl
        simp only [parseByteArray, outcome, dif_pos, Stream.uint, held, value,
          if_neg other, Prod.mk.injEq] at ran
        obtain ⟨-, rfl⟩ := ran
        exact ⟨1, Nat.one_pos, Stream.advanced_of_headed sound .byte size 0 content
          (Nat.zero_le _) rfl rfl rfl (Stream.advanceTop_zero _).symm rfl⟩
    | string =>
        subst valid
        rcases @parseByteArray_string _ 1 _ _ sound content room outcome with
          ⟨err, -, failed⟩ | ⟨filled, read⟩
        · rw [failed] at ran
          simp at ran
        · obtain rfl : size = 1 := by rw [← filled, List.length_take, Nat.min_eq_left room]
          rw [read] at ran
          obtain ⟨-, rfl⟩ := Prod.mk.inj ran
          exact ⟨_, Nat.lt_of_lt_of_le Nat.one_pos (Nat.le_add_left 1 _),
            Stream.advanced_of_headed sound .string 1 1 content room rfl rfl rfl rfl rfl⟩
  refuses {stream next err} sound armed _ _ ran := by
    rcases outcome : stream.kind with ⟨kindErr | ⟨kind, size⟩, after⟩
    · simp only [parseByteArray, outcome, Prod.mk.injEq, Except.error.injEq] at ran
      obtain ⟨rfl, rfl⟩ := ran
      exact Stream.refused_of_kind sound armed outcome
    obtain ⟨byte, rest, content, room, valid, rfl⟩ :=
      (Stream.kind_eq_ok_iff sound armed _ _).mp outcome
    right
    cases kind with
    | list =>
        obtain ⟨found, ordinary, failed⟩ :=
          @parseByteArray_other _ _ _ 1 _ outcome (by decide) (by decide)
        rw [failed] at ran
        cases ran
        exact ordinary
    | byte =>
        simp only [parseByteArray, outcome, dif_pos] at ran
        rcases fetched : (stream.headed .byte size byte).uint 64 with ⟨_ | _, last⟩ <;>
          simp [fetched] at ran
    | string =>
        subst valid
        rcases @parseByteArray_string _ 1 _ _ sound content room outcome with
          ⟨found, ordinary, failed⟩ | ⟨filled, read⟩
        · rw [failed] at ran
          cases ran
          exact ordinary
        · rw [read] at ran
          split_ifs at ran
          · cases ran
            exact decode_ordinary _ _ _
          · simp at ran

section Bodies

variable {fuel : Nat} {inner : Parser α} {elem : GoType} {inside : Stream → List Step}

theorem elemSteps_split {rounds : Nat} {stream : Stream}
    (clear : AllClear (elemSteps elem inside inner (rounds + 1) stream)) :
    AllClear (⟨elem, {}, stream⟩ :: inside stream) ∧
      ∀ {item next}, inner stream = (.ok item, next) →
        AllClear (elemSteps elem inside inner rounds next) := by
  rw [elemSteps, allClear_cons, allClear_append] at clear
  refine ⟨allClear_cons.mpr ⟨clear.1, clear.2.1⟩, fun ran => ?_⟩
  have rest := clear.2.2
  rwa [ran] at rest

theorem parseElems_passes
    (advances : Advances fuel inner fun stream =>
      AllClear (⟨elem, {}, stream⟩ :: inside stream)) {rounds : Nat} (within : rounds ≤ fuel)
    (i : Nat) : Passes rounds (parseElems inner rounds i) fun stream =>
      AllClear (elemSteps elem inside inner rounds stream) := by
  induction rounds generalizing i with
  | zero => exact ⟨fun _ _ _ none => absurd none (Nat.not_lt_zero _),
      fun _ _ _ none => absurd none (Nat.not_lt_zero _)⟩
  | succ rounds ih =>
      have behind := ih (by omega) (i + 1)
      constructor
      · intro stream next items sound armed nested enough clear ran
        obtain ⟨here, rest⟩ := elemSteps_split clear
        rw [parseElems] at ran
        rcases outcome : inner stream with ⟨err | item, after⟩
        · have refused := advances.refuses sound armed (by omega) here outcome
          rw [outcome] at ran
          rcases refused with ⟨rfl, -, stayed⟩ | ordinary
          · obtain ⟨-, rfl⟩ := Prod.mk.inj ran
            exact ⟨0, stayed⟩
          · cases err <;> first | exact absurd rfl ordinary.1 | simp at ran
        · obtain ⟨count, positive, moved⟩ :=
            advances.accepts sound armed (by omega) here outcome
          have left := moved.avail
          rcases later : parseElems inner rounds (i + 1) after with ⟨err | found, last⟩
          · simp [outcome, later] at ran
          · simp only [outcome, later, Prod.mk.injEq] at ran
            obtain ⟨-, rfl⟩ := ran
            have room := moved.inside
            obtain ⟨more, further⟩ := behind.accepts (moved.sound sound) moved.armed
              (moved.stack_ne_nil nested) (by omega) (rest outcome) later
            exact ⟨count + more, moved.trans further⟩
      · intro stream next err sound armed nested enough clear ran
        obtain ⟨here, rest⟩ := elemSteps_split clear
        rw [parseElems] at ran
        rcases outcome : inner stream with ⟨innerErr | item, after⟩
        · have refused := advances.refuses sound armed (by omega) here outcome
          rw [outcome] at ran
          rcases refused with ⟨rfl, -, stayed⟩ | ordinary
          · simp at ran
          · cases innerErr <;> first
              | exact absurd rfl ordinary.1
              | exact Except.error.inj (congrArg Prod.fst ran) ▸ ordinary.addContext _
        · obtain ⟨count, positive, moved⟩ :=
            advances.accepts sound armed (by omega) here outcome
          have left := moved.avail
          rcases later : parseElems inner rounds (i + 1) after with ⟨laterErr | found, last⟩
          · simp only [outcome, later, Prod.mk.injEq, Except.error.injEq] at ran
            obtain ⟨rfl, rfl⟩ := ran
            have room := moved.inside
            exact behind.refuses (moved.sound sound) moved.armed
              (moved.stack_ne_nil nested) (by omega) (rest outcome) later
          · simp [outcome, later] at ran

/-- A read or a body that may stand in front of more in the same list. -/
structure Moves (fuel : Nat) (first : Parser α) (fine : Stream → Prop) : Prop where
  accepts : ∀ {stream next : Stream} {item : α}, stream.Sound →
    stream.kindAhead = none → stream.stack ≠ [] → stream.avail < fuel → fine stream →
    first stream = (.ok item, next) → ∃ count, stream.Advanced count next
  refuses : ∀ {stream next : Stream} {err : Err}, stream.Sound →
    stream.kindAhead = none → stream.stack ≠ [] → stream.avail < fuel → fine stream →
    first stream = (.error err, next) → err ≠ .eol → err.Ordinary

theorem Advances.moves {first : Parser α} {fine : Stream → Prop}
    (advances : Advances fuel first fine) : Moves fuel first fine where
  accepts sound armed _ enough holds ran := by
    obtain ⟨count, -, moved⟩ :=
      advances.accepts sound armed (Nat.le_of_lt enough) holds ran
    exact ⟨count, moved⟩
  refuses sound armed _ enough holds ran :=
    (advances.refuses sound armed (Nat.le_of_lt enough) holds ran).ordinary_of_ne

theorem Passes.moves {first : Parser α} {fine : Stream → Prop}
    (passes : Passes fuel first fine) : Moves fuel first fine where
  accepts := passes.accepts
  refuses sound armed nested enough holds ran _ :=
    passes.refuses sound armed nested enough holds ran

theorem Passes.cons {first : Parser α} {rest : Parser β} {body : Parser γ}
    {here fine : Stream → Prop} {behind : Stream → Prop} (moves : Moves fuel first here)
    (passes : Passes fuel rest behind) (short : Err) (shortOrdinary : short.Ordinary)
    (context : Context)
    (split : ∀ {stream}, fine stream → here stream ∧
      ∀ {item next}, first stream = (.ok item, next) → behind next)
    (ends : ∀ {stream next}, first stream = (.error .eol, next) →
      body stream = (.error short, next))
    (fails : ∀ {stream next err}, first stream = (.error err, next) → err ≠ .eol →
      body stream = (.error (addErrorContext err context), next))
    (goes : ∀ {stream next item}, first stream = (.ok item, next) →
      (∃ items last made, rest next = (.ok items, last) ∧ body stream = (.ok made, last)) ∨
      ∃ err last, rest next = (.error err, last) ∧ body stream = (.error err, last)) :
    Passes fuel body fine where
  accepts {stream next items} sound armed nested enough clear ran := by
    obtain ⟨now, later⟩ := split clear
    rcases outcome : first stream with ⟨err | item, after⟩
    · by_cases atEnd : err = .eol
      · subst atEnd
        simp [ends outcome] at ran
      · simp [fails outcome atEnd] at ran
    · obtain ⟨count, moved⟩ := moves.accepts sound armed nested enough now outcome
      have left := moved.avail
      rcases goes outcome with ⟨found, last, made, done, whole⟩ | ⟨err, last, -, whole⟩
      · obtain ⟨-, rfl⟩ := Prod.mk.inj (whole.symm.trans ran)
        obtain ⟨more, further⟩ := passes.accepts (moved.sound sound) moved.armed
          (moved.stack_ne_nil nested) (by omega) (later outcome) done
        exact ⟨count + more, moved.trans further⟩
      · simp [whole] at ran
  refuses {stream next err} sound armed nested enough clear ran := by
    obtain ⟨now, later⟩ := split clear
    rcases outcome : first stream with ⟨firstErr | item, after⟩
    · have refused := moves.refuses sound armed nested enough now outcome
      by_cases atEnd : firstErr = .eol
      · subst atEnd
        obtain ⟨same, -⟩ := Prod.mk.inj ((ends outcome).symm.trans ran)
        exact Except.error.inj same ▸ shortOrdinary
      · obtain ⟨same, -⟩ := Prod.mk.inj ((fails outcome atEnd).symm.trans ran)
        exact Except.error.inj same ▸ (refused atEnd).addContext context
    · obtain ⟨count, moved⟩ := moves.accepts sound armed nested enough now outcome
      have left := moved.avail
      rcases goes outcome with ⟨found, last, made, -, whole⟩ | ⟨restErr, last, done, whole⟩
      · simp [whole] at ran
      · obtain ⟨same, -⟩ := Prod.mk.inj (whole.symm.trans ran)
        exact Except.error.inj same ▸ passes.refuses (moved.sound sound) moved.armed
          (moved.stack_ne_nil nested) (by omega) (later outcome) done

theorem Passes.nothing (item : α) (fine : Stream → Prop) :
    Passes fuel (fun stream => (.ok item, stream)) fine where
  accepts {stream next items} _ armed _ _ _ ran := by
    obtain ⟨-, rfl⟩ := Prod.mk.inj ran
    exact ⟨0, .refl armed⟩
  refuses _ _ _ _ _ ran := by simp at ran

theorem parseTuple_passes
    (advances : Advances fuel inner fun stream =>
      AllClear (⟨elem, {}, stream⟩ :: inside stream)) (type : GoType) (count i : Nat) :
    Passes fuel (parseTuple type inner count i) fun stream =>
      AllClear (elemSteps elem inside inner count stream) := by
  induction count generalizing i with
  | zero => exact .nothing _ _
  | succ count ih =>
      refine Passes.cons advances.moves (ih (i + 1))
        (.decode "input list has too few elements" type []) (decode_ordinary _ _ _)
        (.index i) ?_ ?_ ?_ ?_
      · exact elemSteps_split
      · intro stream next ran
        simp only [parseTuple, ran]
      · intro stream next err ran other
        cases err <;> first | exact absurd rfl other | simp only [parseTuple, ran]
      · intro stream next item ran
        rcases later : parseTuple type inner count (i + 1) next with ⟨err | items, last⟩
        · exact .inr ⟨err, last, rfl, by simp only [parseTuple, ran, later]⟩
        · exact .inl ⟨items, last, ⟨item :: items.1, by simp [items.2]⟩, rfl,
            by simp only [parseTuple, ran, later]⟩

theorem Passes.inList {body : Parser α} {fine : Stream → Prop}
    (passes : Passes fuel body fine) (type : GoType) :
    Advances fuel (parseInList type body) fun stream =>
      ∀ {size next}, stream.list = (.ok size, next) → fine next where
  accepts {stream next items} sound armed enough clear ran := by
    rcases opening : stream.list with ⟨err | size, opened⟩
    · simp [parseInList, opening] at ran
    · obtain ⟨rest, opens⟩ := Stream.list_opens sound armed opening
      have room := opens.within
      rcases outcome : body opened with ⟨err | found, last⟩
      · simp [parseInList, opening, outcome] at ran
      · obtain ⟨count, moved⟩ := passes.accepts opens.sound opens.armed opens.nested
          (by rw [opens.avail]; omega) (clear opening) outcome
        rcases opens.closes moved with ⟨-, after, closing, outer⟩ | ⟨-, closing⟩
        · simp only [parseInList, opening, outcome, closing, Prod.mk.injEq] at ran
          obtain ⟨-, rfl⟩ := ran
          have header := List.length_pos_iff.mpr (puthead_ne_nil 0xC0 0xF7 size)
          exact ⟨_, by omega, outer⟩
        · simp [parseInList, opening, outcome, closing] at ran
  refuses {stream next err} sound armed enough clear ran := by
    rcases opening : stream.list with ⟨listErr | size, opened⟩
    · simp only [parseInList, opening, Prod.mk.injEq, Except.error.injEq] at ran
      obtain ⟨rfl, rfl⟩ := ran
      exact (Stream.list_error sound armed opening).wrap type
    · obtain ⟨rest, opens⟩ := Stream.list_opens sound armed opening
      have room := opens.within
      have inner := @passes.refuses opened
      right
      rcases outcome : body opened with ⟨bodyErr | found, last⟩
      · simp only [parseInList, opening, outcome, Prod.mk.injEq, Except.error.injEq] at ran
        obtain ⟨rfl, rfl⟩ := ran
        exact inner opens.sound opens.armed opens.nested (by rw [opens.avail]; omega)
          (clear opening) outcome
      · obtain ⟨count, moved⟩ := passes.accepts opens.sound opens.armed opens.nested
          (by rw [opens.avail]; omega) (clear opening) outcome
        rcases opens.closes moved with ⟨-, after, closing, -⟩ | ⟨-, closing⟩
        · simp [parseInList, opening, outcome, closing] at ran
        · simp only [parseInList, opening, outcome, closing, Prod.mk.injEq,
            Except.error.injEq] at ran
          obtain ⟨rfl, rfl⟩ := ran
          exact decode_ordinary _ _ _

theorem parseListSlice_advances {fine : Stream → Prop}
    (passes : Passes fuel (parseElems inner fuel 0) fine) (type : GoType) :
    Advances fuel (parseListSlice fuel type inner) fun stream =>
      ∀ {size next}, stream.list = (.ok size, next) → size ≠ 0 → fine next where
  accepts {stream next items} sound armed enough clear ran := by
    rcases opening : stream.list with ⟨err | size, opened⟩
    · simp [parseListSlice, opening] at ran
    · obtain ⟨rest, opens⟩ := Stream.list_opens sound armed opening
      have room := opens.within
      have header := List.length_pos_iff.mpr (puthead_ne_nil 0xC0 0xF7 size)
      -- whatever was read in the list, closing it moves past its header
      have closed : ∀ {count last after}, opened.Advanced count last →
          last.listEnd = (.ok (), after) → ∃ count, 0 < count ∧ stream.Advanced count after := by
        intro count last after moved closing
        rcases opens.closes moved with ⟨-, other, same, outer⟩ | ⟨-, failed⟩
        · obtain ⟨-, rfl⟩ := Prod.mk.inj (closing.symm.trans same)
          exact ⟨_, by omega, outer⟩
        · simp [closing] at failed
      simp only [parseListSlice, opening] at ran
      split_ifs at ran with empty
      · rcases closing : opened.listEnd with ⟨err | _, last⟩
        · simp [closing] at ran
        · simp only [closing, Prod.mk.injEq] at ran
          obtain ⟨-, rfl⟩ := ran
          exact closed (.refl opens.armed) closing
      · rcases outcome : parseElems inner fuel 0 opened with ⟨err | found, last⟩
        · simp [outcome] at ran
        · obtain ⟨count, moved⟩ := passes.accepts opens.sound opens.armed opens.nested
            (by rw [opens.avail]; omega) (clear opening empty) outcome
          rcases closing : last.listEnd with ⟨err | _, after⟩
          · simp [outcome, closing] at ran
          · simp only [outcome, closing, Prod.mk.injEq] at ran
            obtain ⟨-, rfl⟩ := ran
            exact closed moved closing
  refuses {stream next err} sound armed enough clear ran := by
    rcases opening : stream.list with ⟨listErr | size, opened⟩
    · simp only [parseListSlice, opening, Prod.mk.injEq, Except.error.injEq] at ran
      obtain ⟨rfl, rfl⟩ := ran
      exact (Stream.list_error sound armed opening).wrap type
    · obtain ⟨rest, opens⟩ := Stream.list_opens sound armed opening
      have room := opens.within
      right
      have closing : ∀ {count last after err}, opened.Advanced count last →
          last.listEnd = (.error err, after) → err.Ordinary := by
        intro count last after err moved failed
        rcases opens.closes moved with ⟨-, other, same, -⟩ | ⟨-, same⟩
        · simp [same] at failed
        · obtain ⟨reason, -⟩ := Prod.mk.inj (same.symm.trans failed)
          exact Except.error.inj reason ▸ by decide
      simp only [parseListSlice, opening] at ran
      split_ifs at ran with empty
      · rcases ended : opened.listEnd with ⟨endErr | _, last⟩
        · simp only [ended, Prod.mk.injEq, Except.error.injEq] at ran
          obtain ⟨rfl, rfl⟩ := ran
          exact closing (.refl opens.armed) ended
        · simp [ended] at ran
      · rcases outcome : parseElems inner fuel 0 opened with ⟨bodyErr | found, last⟩
        · simp only [outcome, Prod.mk.injEq, Except.error.injEq] at ran
          obtain ⟨rfl, rfl⟩ := ran
          exact passes.refuses opens.sound opens.armed opens.nested
            (by rw [opens.avail]; omega) (clear opening empty) outcome
        · obtain ⟨count, moved⟩ := passes.accepts opens.sound opens.armed opens.nested
            (by rw [opens.avail]; omega) (clear opening empty) outcome
          rcases ended : last.listEnd with ⟨endErr | _, after⟩
          · simp only [outcome, ended, Prod.mk.injEq, Except.error.injEq] at ran
            obtain ⟨rfl, rfl⟩ := ran
            exact closing moved ended
          · simp [outcome, ended] at ran

end Bodies

/-! All types built from integers, booleans, strings, bytes, big integers, numbers,
structs, arrays and slices. -/

mutual
def listed : GoType → Bool
  | .uint _ | .int _ | .bool | .string | .bigInt | .number => true
  | .ptr .bigInt | .ptr .number => true
  | .slice elem | .array _ elem => listed elem
  | .struct fields => listedFields fields
  | .rawValue | .ptr _ | .map _ _ => false

def listedFields : Fields → Bool
  | .nil => true
  | .cons _ _ type rest => listed type && listedFields rest
end

def ClearFrom (fuel : Nat) (type : GoType) (tags : Tags) (stream : Stream) : Prop :=
  AllClear (⟨type, tags, stream⟩ :: steps fuel type tags stream)

mutual
theorem parse_advances (fuel : Nat) : (type : GoType) → listed type = true →
    (tags : Tags) → isTail type tags = false →
    Advances fuel (parse fuel type tags) (ClearFrom fuel type tags)
  | .uint kind, _, _, _ => (parse_reads (fuel + 1) (.uint kind) rfl).advances _
  | .int kind, _, _, _ => (parse_reads (fuel + 1) (.int kind) rfl).advances _
  | .bool, _, _, _ => (parse_reads (fuel + 1) .bool rfl).advances _
  | .string, _, _, _ => (parse_reads (fuel + 1) .string rfl).advances _
  | .bigInt, _, _, _ => (parse_reads (fuel + 1) .bigInt rfl).advances _
  | .number, _, _, _ => (parse_reads (fuel + 1) .number rfl).advances _
  | .ptr .bigInt, _, _, _ => (parse_reads (fuel + 1) (.ptr .bigInt) rfl).advances _
  | .ptr .number, _, _, _ => (parse_reads (fuel + 1) (.ptr .number) rfl).advances _
  | .slice elem, family, tags, whole => by
      cases bytes : elem.isByte with
      | true =>
          obtain rfl := GoType.eq_byte_of_isByte bytes
          exact (parse_reads (fuel + 1) (.slice .byte) rfl).advances _
      | false =>
          have headed : tags.tail = false := by simpa [isTail, bytes] using whole
          have elems := parseElems_passes (parse_advances fuel elem family {}
            (isTail_untagged elem)) (Nat.le_refl fuel) 0
          refine (parseListSlice_advances elems (.slice elem)).congr ?_ ?_
          · rw [parse, headed, sliceParser_of_not_byte fuel false bytes, if_neg Bool.false_ne_true]
          · intro stream clear size next opening nonempty
            have inside := (allClear_cons.mp clear).2
            simpa only [steps, bytes, headed, listSliceSteps, opening, Bool.false_eq_true,
              if_false, if_neg nonempty] using inside
  | .array length elem, family, tags, _ => by
      cases bytes : elem.isByte with
      | true =>
          obtain rfl := GoType.eq_byte_of_isByte bytes
          by_cases one : length = 1
          · subst one
            refine (byteArray_one_advances fuel).congr rfl fun stream clear zero => ?_
            exact (allClear_cons.mp clear).1 ⟨rfl, zero⟩
          · exact (parse_reads (fuel + 1) (.array length .byte) (by
              simp [codable, GoType.byte, GoType.isByte, one])).advances _
      | false =>
          have elems := parseTuple_passes (parse_advances fuel elem family {}
            (isTail_untagged elem)) (.array length elem) length 0
          refine (elems.inList (.array length elem)).congr ?_ ?_
          · rw [parse, arrayParser_of_not_byte length bytes]
          · intro stream clear size next opening
            have inside := (allClear_cons.mp clear).2
            simpa only [steps, bytes, inListSteps, opening, Bool.false_eq_true,
              if_false] using inside
  | .struct fields, family, tags, _ => by
      refine ((parseFields_passes fuel (.struct fields) fields family).inList
        (.struct fields)).congr rfl ?_
      intro stream clear size next opening
      have inside := (allClear_cons.mp clear).2
      simpa only [steps, inListSteps, opening] using inside

theorem parse_tail_passes (fuel : Nat) : (type : GoType) → listed type = true →
    (tags : Tags) → isTail type tags = true →
    Passes fuel (parse fuel type tags) fun stream => AllClear (steps fuel type tags stream)
  | .slice elem, family, tags, tail => by
      obtain ⟨flag, bytes⟩ : tags.tail = true ∧ elem.isByte = false := by
        simpa [isTail] using tail
      have elems := parseElems_passes (parse_advances fuel elem family {}
        (isTail_untagged elem)) (Nat.le_refl fuel) 0
      simp only [parse, steps, flag, bytes, sliceParser_of_not_byte fuel _ bytes, Bool.false_eq_true,
        if_false, if_true]
      exact elems
  | .uint _, _, _, absent | .int _, _, _, absent | .bool, _, _, absent
  | .string, _, _, absent | .bigInt, _, _, absent | .number, _, _, absent
  | .rawValue, _, _, absent | .array _ _, _, _, absent | .struct _, _, _, absent
  | .ptr _, _, _, absent | .map _ _, _, _, absent => by simp [isTail] at absent

theorem parseFields_passes (fuel : Nat) (type : GoType) : (fields : Fields) →
    listedFields fields = true →
    Passes fuel (parseFields fuel type fields) fun stream =>
      AllClear (fieldSteps fuel fields stream)
  | .nil, _ => .nothing _ _
  | .cons name tags field rest, family => by
      rw [listedFields, Bool.and_eq_true] at family
      have behind := parseFields_passes fuel type rest family.2
      have first : Moves fuel (parse fuel field tags) fun stream =>
          AllClear ((if isTail field tags then [] else [⟨field, tags, stream⟩]) ++
            steps fuel field tags stream) := by
        cases tail : isTail field tags with
        | true => exact (parse_tail_passes fuel field family.1 tags tail).moves
        | false => exact (parse_advances fuel field family.1 tags tail).moves
      refine Passes.cons first behind (.decode "too few elements" type [])
        (decode_ordinary _ _ _) (.field name) ?_ ?_ ?_ ?_
      · intro stream clear
        rw [fieldSteps, ← List.append_assoc, allClear_append] at clear
        refine ⟨clear.1, fun ran => ?_⟩
        have later := clear.2
        rwa [ran] at later
      · intro stream next ran
        simp only [parseFields, ran]
      · intro stream next err ran other
        cases err <;> first | exact absurd rfl other | simp only [parseFields, ran]
      · intro stream next item ran
        rcases later : parseFields fuel type rest next with ⟨err | items, last⟩
        · exact .inr ⟨err, last, rfl, by simp only [parseFields, ran, later]⟩
        · exact .inl ⟨items, last, (item, items), rfl, by simp only [parseFields, ran, later]⟩
end

end Bclib.Rlp
