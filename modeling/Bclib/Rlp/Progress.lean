import Bclib.Rlp.Execute
import Bclib.Rlp.Steps

namespace Bclib.Rlp

open Data
open Go

/-! A run of steps: as long as none was stuck, the next one starts without a cached
header. -/

def Step.GetsOn (fuel : Nat) (step : Step) : Prop :=
  ∀ item next, parse fuel step.type step.tags step.stream = (.ok item, next) →
    ∃ count, 0 < count ∧ step.stream.Advanced count next

structure Step.Ready (step : Step) : Prop where
  family : listed step.type = true
  sound : step.stream.Sound
  armed : step.stream.kindAhead = none
  nested : step.stream.stack ≠ []

structure Sequenced (fuel : Nat) (run : List Step) : Prop where
  next : ∀ {before step after}, run = before ++ step :: after → AllClear before →
    step.Ready ∧ (AllClear run → step.GetsOn fuel)

namespace Sequenced

variable {fuel : Nat}

theorem nil : Sequenced fuel [] := by
  constructor
  intro before step after split
  simp at split

theorem append {first second : List Step} (early : Sequenced fuel first)
    (late : AllClear first → Sequenced fuel second) : Sequenced fuel (first ++ second) := by
  constructor
  intro before step after split clear
  rcases List.append_eq_append_iff.mp split with ⟨middle, rfl, rest⟩ | ⟨middle, rfl, rest⟩
  · rw [allClear_append] at clear
    obtain ⟨ready, getsOn⟩ := (late clear.1).next rest clear.2
    exact ⟨ready, fun all => getsOn (allClear_append.mp all).2⟩
  · cases middle with
    | nil =>
        rw [List.append_nil] at late
        obtain ⟨ready, getsOn⟩ := @(late clear).next [] step after rest.symm (by simp [AllClear])
        exact ⟨ready, fun all => getsOn (allClear_append.mp all).2⟩
    | cons head middle =>
        obtain ⟨rfl, -⟩ := List.cons.inj rest
        obtain ⟨ready, getsOn⟩ := early.next rfl clear
        exact ⟨ready, fun all => getsOn (allClear_append.mp all).1⟩

theorem block {step : Step} {inside : List Step} (ready : step.Ready)
    (getsOn : AllClear (step :: inside) → step.GetsOn fuel)
    (inner : Sequenced fuel inside) : Sequenced fuel (step :: inside) := by
  constructor
  intro before other after split clear
  cases before with
  | nil =>
      obtain ⟨rfl, -⟩ := List.cons.inj split
      exact ⟨ready, getsOn⟩
  | cons head before =>
      obtain ⟨rfl, rest⟩ := List.cons.inj split
      obtain ⟨others, theirs⟩ := inner.next rest (allClear_cons.mp clear).2
      exact ⟨others, fun all => theirs (allClear_cons.mp all).2⟩

end Sequenced

section Runs

variable {fuel : Nat} {inside : Stream → List Step} {elem : GoType}

theorem elemSteps_sequenced (family : listed elem = true)
    (advances : Advances fuel (parse fuel elem {}) fun stream =>
      AllClear (⟨elem, {}, stream⟩ :: inside stream))
    (inner : ∀ {stream : Stream}, stream.Sound → stream.kindAhead = none →
      stream.avail ≤ fuel → Sequenced fuel (inside stream))
    (rounds : Nat) {stream : Stream} (sound : stream.Sound)
    (armed : stream.kindAhead = none) (nested : stream.stack ≠ [])
    (enough : stream.avail ≤ fuel) :
    Sequenced fuel (elemSteps elem inside (parse fuel elem {}) rounds stream) := by
  induction rounds generalizing stream with
  | zero => exact .nil
  | succ rounds ih =>
      rw [elemSteps, ← List.cons_append]
      refine (Sequenced.block ⟨family, sound, armed, nested⟩ (fun clear item next ran =>
        advances.accepts sound armed enough clear ran) (inner sound armed enough)).append
          fun clear => ?_
      rcases outcome : parse fuel elem {} stream with ⟨err | item, next⟩
      · exact .nil
      · obtain ⟨count, -, moved⟩ := advances.accepts sound armed enough clear outcome
        have left := moved.avail
        exact ih (moved.sound sound) moved.armed (moved.stack_ne_nil nested) (by omega)

theorem inListSteps_sequenced {body : Stream → List Step}
    (inner : ∀ {stream : Stream}, stream.Sound → stream.kindAhead = none →
      stream.stack ≠ [] → stream.avail < fuel → Sequenced fuel (body stream))
    {stream : Stream} (sound : stream.Sound) (armed : stream.kindAhead = none)
    (enough : stream.avail ≤ fuel) :
    Sequenced fuel (inListSteps body stream) ∧
      Sequenced fuel (listSliceSteps body stream) := by
  rw [inListSteps, listSliceSteps]
  rcases opening : stream.list with ⟨err | size, opened⟩
  · exact ⟨.nil, .nil⟩
  · obtain ⟨rest, opens⟩ := Stream.list_opens sound armed opening
    have room := opens.within
    have body := inner opens.sound opens.armed opens.nested (by rw [opens.avail]; omega)
    refine ⟨body, ?_⟩
    simp only
    split_ifs
    · exact .nil
    · exact body

end Runs

mutual
theorem steps_sequenced (fuel : Nat) : (type : GoType) → listed type = true →
    (tags : Tags) → {stream : Stream} → stream.Sound → stream.kindAhead = none →
    (isTail type tags = true → stream.stack ≠ []) → stream.avail ≤ fuel →
    Sequenced fuel (steps fuel type tags stream)
  | .slice elem, family, tags, stream, sound, armed, nested, enough => by
      have elemFamily : listed elem = true := family
      have inner := fun {stream : Stream} => @elemSteps_sequenced fuel (steps fuel elem {}) elem
        elemFamily (parse_advances fuel elem elemFamily {} (isTail_untagged elem))
        (fun sound armed enough => steps_sequenced fuel elem elemFamily {} sound armed
          (by simp [isTail_untagged]) enough) fuel stream
      rw [steps]
      cases bytes : elem.isByte with
      | true => exact .nil
      | false =>
          cases tail : tags.tail with
          | true => exact inner sound armed (nested (by simp [isTail, bytes, tail])) enough
          | false =>
              exact (inListSteps_sequenced (fun sound armed nested enough =>
                inner sound armed nested (Nat.le_of_lt enough)) sound armed enough).2
  | .array length elem, family, tags, stream, sound, armed, _, enough => by
      have elemFamily : listed elem = true := family
      have inner := fun {stream : Stream} => @elemSteps_sequenced fuel (steps fuel elem {}) elem
        elemFamily (parse_advances fuel elem elemFamily {} (isTail_untagged elem))
        (fun sound armed enough => steps_sequenced fuel elem elemFamily {} sound armed
          (by simp [isTail_untagged]) enough) length stream
      rw [steps]
      cases bytes : elem.isByte with
      | true => exact .nil
      | false =>
          exact (inListSteps_sequenced (fun sound armed nested enough =>
            inner sound armed nested (Nat.le_of_lt enough)) sound armed enough).1
  | .struct fields, family, tags, stream, sound, armed, _, enough => by
      rw [steps]
      exact (inListSteps_sequenced (fun sound armed nested enough =>
        fieldSteps_sequenced fuel fields family sound armed nested enough) sound armed enough).1
  | .uint _, _, _, _, _, _, _, _ | .int _, _, _, _, _, _, _, _ | .bool, _, _, _, _, _, _, _
  | .string, _, _, _, _, _, _, _ | .bigInt, _, _, _, _, _, _, _
  | .number, _, _, _, _, _, _, _ | .rawValue, _, _, _, _, _, _, _
  | .ptr _, _, _, _, _, _, _, _ | .map _ _, _, _, _, _, _, _, _ => .nil

theorem fieldSteps_sequenced (fuel : Nat) : (fields : Fields) →
    listedFields fields = true → {stream : Stream} → stream.Sound →
    stream.kindAhead = none → stream.stack ≠ [] → stream.avail < fuel →
    Sequenced fuel (fieldSteps fuel fields stream)
  | .nil, _, _, _, _, _, _ => .nil
  | .cons _ tags field rest, family, stream, sound, armed, nested, enough => by
      rw [listedFields, Bool.and_eq_true] at family
      have inner := steps_sequenced fuel field family.1 tags sound armed (fun _ => nested)
        (Nat.le_of_lt enough)
      rw [fieldSteps, ← List.append_assoc]
      cases tail : isTail field tags with
      | true =>
          refine inner.append fun clear => ?_
          rcases outcome : parse fuel field tags stream with ⟨err | item, next⟩
          · exact .nil
          · obtain ⟨count, moved⟩ := (parse_tail_passes fuel field family.1 tags tail).accepts
              sound armed nested enough clear outcome
            have left := moved.avail
            exact fieldSteps_sequenced fuel rest family.2 (moved.sound sound) moved.armed
              (moved.stack_ne_nil nested) (by omega)
      | false =>
          have advances := parse_advances fuel field family.1 tags tail
          have block : Sequenced fuel (⟨field, tags, stream⟩ :: steps fuel field tags stream) :=
            .block ⟨family.1, sound, armed, nested⟩ (fun clear item next ran =>
              advances.accepts sound armed (Nat.le_of_lt enough) clear ran) inner
          refine block.append fun clear => ?_
          rcases outcome : parse fuel field tags stream with ⟨err | item, next⟩
          · exact .nil
          · obtain ⟨count, -, moved⟩ :=
              advances.accepts sound armed (Nat.le_of_lt enough) clear outcome
            have left := moved.avail
            exact fieldSteps_sequenced fuel rest family.2 (moved.sound sound) moved.armed
              (moved.stack_ne_nil nested) (by omega)
end

/-! Where the stream stands after a decoder does not depend on the variable it decodes
into, so what holds of the parsers holds of the decoders. -/

def failure : Except Err α → Option Err
  | .ok _ => none
  | .error err => some err

def Follows (dec : Decoder α) (parser : Parser ι) : Prop :=
  ∀ stream heap cell, (dec stream heap cell).err = failure (parser stream).1 ∧
    (dec stream heap cell).stream = (parser stream).2

theorem Executes.follows {dec : Decoder α} {parser : Parser ι} {set : Store ι α}
    (executes : Executes dec parser set) : Follows dec parser := by
  intro stream heap cell
  rcases ran : parser stream with ⟨err | item, next⟩
  · exact executes.refuses ran heap cell
  · rw [executes.accepts ran]
    exact ⟨rfl, rfl⟩

theorem makeDecoder_follows (fuel : Nat) (type : GoType) (tags : Tags) :
    Follows (makeDecoder fuel type tags) (parse fuel type tags) :=
  (makeDecoder_executes fuel type tags).follows

/-- If the decoder of the step returns nil, no header is cached and the position in the
innermost list has grown. -/
def Step.Progresses (fuel : Nat) (step : Step) : Prop :=
  ∀ heap cell, (makeDecoder fuel step.type step.tags step.stream heap cell).err = none →
    (makeDecoder fuel step.type step.tags step.stream heap cell).stream.kindAhead = none ∧
    ∃ top rest pos, step.stream.stack = top :: rest ∧
      (makeDecoder fuel step.type step.tags step.stream heap cell).stream.stack =
        { top with pos := pos } :: rest ∧
      top.pos < pos

namespace Step

variable {fuel : Nat} {step : Step}

theorem GetsOn.progresses (getsOn : step.GetsOn fuel) (ready : step.Ready) :
    step.Progresses fuel := by
  intro heap cell fine
  obtain ⟨failed, left⟩ := makeDecoder_follows fuel step.type step.tags
    step.stream heap cell
  rw [fine] at failed
  rcases ran : parse fuel step.type step.tags step.stream with ⟨err | item, next⟩
  · simp [ran, failure] at failed
  · obtain ⟨count, positive, moved⟩ := getsOn item next ran
    have nested := ready.nested
    rw [left, ran]
    cases frames : step.stream.stack with
    | nil => exact absurd frames nested
    | cons top rest =>
        refine ⟨moved.armed, top, rest, top.pos + count, rfl, ?_, by omega⟩
        rw [moved.stack, frames]
        rfl

theorem Stuck.parse {stream : Stream} (zero : stream.window.head? = some 0)
    (sound : stream.Sound) (armed : stream.kindAhead = none) :
    parseByteArray 1 stream = (.ok ⟨[0], rfl⟩, stream.headed .byte 0 0) := by
  obtain ⟨rest, content⟩ : ∃ rest, stream.window = 0 :: rest := List.head?_eq_some_iff.mp zero
  have ahead := (Stream.kind_eq_ok_iff sound armed .byte 0).mpr
    ⟨0, rest, content, Nat.zero_le _, ⟨by decide, rfl⟩, rfl⟩
  have held : (stream.headed .byte 0 0).kind = (.ok (.byte, 0), stream.headed .byte 0 0) := rfl
  have value : (stream.headed .byte 0 0).byteval = 0 := rfl
  simp only [parseByteArray, ahead, dif_pos, Stream.uint, held, value, if_pos]

theorem Stuck.not_progresses (stuck : step.Stuck) (ready : step.Ready) :
    ¬ step.Progresses fuel := by
  obtain ⟨type, tags, stream⟩ := step
  obtain ⟨rfl, zero⟩ := stuck
  intro progresses
  have ran := Stuck.parse zero ready.sound ready.armed
  obtain ⟨failed, left⟩ := (decodeByteArray_executes 1).follows stream .empty (zeroCell (.array 1 .byte))
  rw [ran] at failed left
  obtain ⟨rearmed, -⟩ := progresses .empty (zeroCell (.array 1 .byte)) failed
  rw [show (makeDecoder fuel (.array 1 .byte) tags stream .empty
    (zeroCell (.array 1 .byte))).stream = stream.headed .byte 0 0 from left] at rearmed
  simp [Stream.headed] at rearmed

end Step

theorem Sequenced.allClear {fuel : Nat} {run : List Step} (sequenced : Sequenced fuel run)
    (all : ∀ step ∈ run, step.Progresses fuel) : AllClear run := by
  suffices clear : ∀ before after, run = before ++ after → AllClear before by
    exact clear run [] (List.append_nil run).symm
  intro before
  induction before using List.reverseRecOn with
  | nil => exact fun _ _ => by simp [AllClear]
  | append_singleton before step ih =>
      intro after split
      rw [List.append_assoc, List.singleton_append] at split
      have early := ih _ split
      refine allClear_append.mpr ⟨early, ?_⟩
      intro other member
      obtain rfl := List.mem_singleton.mp member
      exact fun stuck => stuck.not_progresses (sequenced.next split early).1
        (all other (by rw [split]; simp))

/-- Decoding gets on at every element and comes to an end, with no loop going round
more often than there are bytes, exactly when no array of one byte is decoded in a
list in front of the byte zero. -/
theorem decoding_progresses_iff {type : GoType} (family : listed type = true)
    (b : List Byte) (short : b.length < maxLen) {fuel : Nat} (enough : b.length ≤ fuel) :
    ((∀ step ∈ steps fuel type {} (newStream b 0), step.Progresses fuel) ∧
      ∀ heap cell,
        (makeDecoder fuel type {} (newStream b 0) heap cell).err ≠ some .outOfFuel) ↔
      ∀ step ∈ steps fuel type {} (newStream b 0), ¬ step.Stuck := by
  have sound : (newStream b 0).Sound := newStream_limit b ▸ newStream_sound short
  have whole : (newStream b 0).avail = b.length := newStream_limit b ▸ newStream_avail b
  have sequenced := steps_sequenced fuel type family {} sound rfl
    (by simp [isTail_untagged]) (by omega)
  constructor
  · exact fun property => sequenced.allClear property.1
  · intro clear
    refine ⟨fun step member => ?_, fun heap cell => ?_⟩
    · obtain ⟨before, after, split⟩ := List.append_of_mem member
      obtain ⟨ready, getsOn⟩ := sequenced.next split
        (allClear_append.mp (split ▸ clear)).1
      exact (getsOn clear).progresses ready
    · rw [(makeDecoder_follows fuel type {} (newStream b 0) heap cell).1]
      by_cases stuck : Step.Stuck ⟨type, {}, newStream b 0⟩
      · obtain ⟨rfl, zero⟩ := stuck
        have ran : parse fuel (.array 1 .byte) {} (newStream b 0) = _ :=
          Step.Stuck.parse zero sound rfl
        rw [ran]
        simp [failure]
      · rcases ran : parse fuel type {} (newStream b 0) with ⟨err | item, next⟩
        · have refused := (parse_advances fuel type family {} (isTail_untagged type)).refuses
            sound rfl (by omega) (allClear_cons.mpr ⟨stuck, clear⟩) ran
          rcases refused with ⟨rfl, -⟩ | ordinary
          · simp [failure]
          · simpa [failure] using ordinary.2.2
        · simp [failure]

theorem decoding_progresses_single :
    listed (.slice (.array 1 .byte)) = true ∧
      ∀ heap cell, (makeDecoder 2 (.slice (.array 1 .byte)) {} (newStream [0xC1, 0x07] 0)
        heap cell).err ≠ some .outOfFuel :=
  ⟨rfl, ((@decoding_progresses_iff (.slice (.array 1 .byte)) rfl [0xC1, 0x07] (by decide) 2
    (by decide)).mpr (by decide +kernel)).2⟩

section Diverges

/-- Behind the header of the byte zero of the list `C1 00`. -/
private def heldZero : Stream where
  input := []
  remaining := 0
  limited := true
  kindAhead := some .byte
  sizeAhead := 0
  byteval := 0
  kinderr := none
  stack := [⟨1, 1⟩]

private theorem heldZero_loops (fuel i : Nat) :
    parseElems (parseByteArray 1) fuel i heldZero = (.error .outOfFuel, heldZero) := by
  induction fuel generalizing i with
  | zero => rfl
  | succ fuel ih =>
      have again : parseByteArray 1 heldZero = (.ok ⟨[0], rfl⟩, heldZero) := rfl
      rw [parseElems, again]
      simp only [ih]

/-- `[][1]byte` on `C1 00`: the element is decoded again and again. -/
theorem decoding_loops_on_zero :
    listed (.slice (.array 1 .byte)) = true ∧
      ∀ fuel heap cell, (makeDecoder fuel (.slice (.array 1 .byte)) {}
        (newStream [0xC1, 0x00] 0) heap cell).err = some .outOfFuel := by
  refine ⟨rfl, fun fuel heap cell => ?_⟩
  rw [(makeDecoder_follows fuel (.slice (.array 1 .byte)) {} _ heap cell).1]
  have opened : (newStream [0xC1, 0x00] 0).list = (.ok 1,
      ⟨[0x00], 1, true, none, 0, 0, none, [⟨0, 1⟩]⟩) := by decide +kernel
  have first : parseByteArray 1 ⟨[0x00], 1, true, none, 0, 0, none, [⟨0, 1⟩]⟩ =
      (.ok ⟨[0], rfl⟩, heldZero) := rfl
  have chosen : parse fuel (.slice (.array 1 .byte)) {} =
      parseListSlice fuel (.slice (.array 1 .byte)) (parseByteArray 1) := rfl
  rw [chosen, parseListSlice, opened]
  cases fuel with
  | zero => rfl
  | succ fuel =>
      simp only [parseElems, first, heldZero_loops]
      rfl

end Diverges

end Bclib.Rlp
