import Bclib.Rlp.Parse
import Bclib.Rlp.StreamValues

namespace Bclib.Rlp

open Data
open Go

/-! What it means for a parser to read a format, and how parsers are combined.
`spell` is the format, `good` the items that can be read, and a `strict` parser
accepts nothing but the format. -/

structure Reads (fuel : Nat) (parser : Parser α) (spell : α → List Byte)
    (good : α → Prop) (strict : Prop) : Prop where
  complete : ∀ {stream : Stream} {item : α} {rest : List Byte}, stream.Sound →
    stream.kindAhead = none → stream.avail < fuel → good item →
    stream.window = spell item ++ rest →
    ∃ next, parser stream = (.ok item, next) ∧
      stream.Advanced (spell item).length next
  accepts : ∀ {stream next : Stream} {item : α}, stream.Sound →
    stream.kindAhead = none → stream.avail < fuel →
    parser stream = (.ok item, next) →
    good item ∧ ∃ count, 0 < count ∧ stream.Advanced count next ∧
      (strict → count = (spell item).length ∧
        ∃ rest, stream.window = spell item ++ rest)
  refuses : ∀ {stream next : Stream} {err : Err}, stream.Sound →
    stream.kindAhead = none → stream.avail < fuel →
    parser stream = (.error err, next) → stream.Refused err next
  ends : ∀ {stream : Stream}, stream.Sound → stream.kindAhead = none →
    stream.AtEnd → ∃ next, parser stream = (.error .eol, next) ∧
      stream.Advanced 0 next
  nonempty : ∀ {item : α}, good item → 0 < (spell item).length

/-- The same for the content of an opened list, which is read to its end by the
items themselves or checked by `ListEnd`. -/
structure Fills (fuel : Nat) (body : Parser α) (spell : α → List Byte)
    (good : α → Prop) (strict : Prop) : Prop where
  complete : ∀ {stream : Stream} {items : α}, stream.Sound →
    stream.kindAhead = none → stream.stack ≠ [] → stream.avail < fuel → good items →
    stream.window = spell items →
    ∃ next, body stream = (.ok items, next) ∧
      stream.Advanced (spell items).length next
  accepts : ∀ {stream next : Stream} {items : α}, stream.Sound →
    stream.kindAhead = none → stream.stack ≠ [] → stream.avail < fuel →
    body stream = (.ok items, next) →
    good items ∧ ∃ count, stream.Advanced count next ∧
      (strict → count = (spell items).length ∧
        ∃ rest, stream.window = spell items ++ rest)
  refuses : ∀ {stream next : Stream} {err : Err}, stream.Sound →
    stream.kindAhead = none → stream.stack ≠ [] → stream.avail < fuel →
    body stream = (.error err, next) → err.Ordinary

theorem Err.Ordinary.wrap {err : Err} (ordinary : err.Ordinary) (type : GoType) :
    (wrapStreamError err type).Ordinary := by
  cases err <;> first | exact ordinary | (simp [wrapStreamError, Err.Ordinary])

theorem Err.Ordinary.addContext {err : Err} (ordinary : err.Ordinary)
    (context : Context) : (addErrorContext err context).Ordinary := by
  cases err <;> first | exact ordinary | (simp [addErrorContext, Err.Ordinary])

theorem Err.Ordinary.addTarget {err : Err} (ordinary : err.Ordinary) (type : GoType) :
    (addTarget err type).Ordinary := by
  cases err with
  | decode message target context =>
      simp only [Rlp.addTarget]
      split_ifs <;> simp [Err.Ordinary]
  | _ => exact ordinary

theorem decode_ordinary (message : String) (type : GoType) (context : List Context) :
    (Err.decode message type context).Ordinary := by
  simp [Err.Ordinary]

theorem Stream.Refused.wrap {stream next : Stream} {err : Err}
    (refused : stream.Refused err next) (type : GoType) :
    stream.Refused (wrapStreamError err type) next := by
  rcases refused with ⟨rfl, atEnd, stayed⟩ | ordinary
  · exact .inl ⟨rfl, atEnd, stayed⟩
  · exact .inr (ordinary.wrap type)

theorem Stream.Refused.ordinary_of_ne {stream next : Stream} {err : Err}
    (refused : stream.Refused err next) (other : err ≠ .eol) : err.Ordinary := by
  rcases refused with ⟨rfl, _⟩ | ordinary
  · exact absurd rfl other
  · exact ordinary

namespace Reads

variable {fuel : Nat} {good : α → Prop} {strict : Prop} {spell : α → List Byte}

theorem bytes : Reads fuel Stream.bytes wireString (fun _ => True) True where
  complete sound armed _ _ content := Stream.bytes_complete sound armed content
  accepts sound armed _ ran := by
    obtain ⟨content, moved⟩ := Stream.bytes_sound sound armed ran
    exact ⟨trivial, _, wireString_length_pos _, moved, fun _ => ⟨rfl, content⟩⟩
  refuses sound armed _ ran := Stream.bytes_error sound armed ran
  ends := Stream.bytes_ends
  nonempty _ := wireString_length_pos _

theorem uint {maxbits : Nat} (wide : 0 < maxbits / 8) (short : maxbits / 8 ≤ 8) :
    Reads fuel (fun stream => stream.uint maxbits) wireUint
      (fun number => number < 256 ^ (maxbits / 8)) True where
  complete sound armed _ narrow content :=
    Stream.uint_complete sound armed maxbits (bigEndian_length_le_iff.mpr narrow) short
      content
  accepts sound armed _ ran := by
    obtain ⟨content, moved, narrow⟩ := Stream.uint_sound sound armed wide short ran
    exact ⟨narrow, _, wireString_length_pos _, moved, fun _ => ⟨rfl, content⟩⟩
  refuses sound armed _ ran := Stream.uint_error sound armed short ran
  ends := Stream.uint_ends maxbits
  nonempty _ := wireString_length_pos _

theorem bool :
    Reads fuel Stream.bool (fun flag => wireUint flag.toNat) (fun _ => True) True where
  complete sound armed _ _ content := Stream.bool_complete sound armed content
  accepts sound armed _ ran := by
    obtain ⟨content, moved⟩ := Stream.bool_sound sound armed ran
    exact ⟨trivial, _, wireString_length_pos _, moved, fun _ => ⟨rfl, content⟩⟩
  refuses sound armed _ ran := Stream.bool_error sound armed ran
  ends := Stream.bool_ends
  nonempty _ := wireString_length_pos _

theorem parseFor {read : Parser α} (reads : Reads fuel read spell good strict)
    (type : GoType) {make : α → β} {content : β → α} {fine : β → Prop}
    (made : ∀ item, fine item → good (content item) ∧ make (content item) = item)
    (unmade : ∀ raw, good raw → fine (make raw) ∧ content (make raw) = raw) :
    Reads fuel (Rlp.parseFor type read make) (fun item => spell (content item)) fine
      strict where
  complete sound armed enough fits window := by
    obtain ⟨next, ran, moved⟩ :=
      reads.complete sound armed enough (made _ fits).1 window
    refine ⟨next, ?_, moved⟩
    simp only [Rlp.parseFor, parseWith, ran, (made _ fits).2]
  accepts {stream next item} sound armed enough ran := by
    rcases outcome : read stream with ⟨result, after⟩
    cases result with
    | error err => simp [Rlp.parseFor, parseWith, outcome] at ran
    | ok raw =>
        simp only [Rlp.parseFor, parseWith, outcome, Prod.mk.injEq, Except.ok.injEq] at ran
        obtain ⟨rfl, rfl⟩ := ran
        obtain ⟨fits, read⟩ := reads.accepts sound armed enough outcome
        obtain ⟨fine, back⟩ := unmade raw fits
        rw [back]
        exact ⟨fine, read⟩
  refuses {stream next err} sound armed enough ran := by
    rcases outcome : read stream with ⟨result, after⟩
    cases result with
    | error inner =>
        simp only [Rlp.parseFor, parseWith, outcome, Prod.mk.injEq,
          Except.error.injEq] at ran
        obtain ⟨rfl, rfl⟩ := ran
        exact (reads.refuses sound armed enough outcome).wrap type
    | ok raw => simp [Rlp.parseFor, parseWith, outcome] at ran
  ends sound armed atEnd := by
    obtain ⟨next, ran, stayed⟩ := reads.ends sound armed atEnd
    refine ⟨next, ?_, stayed⟩
    simp only [Rlp.parseFor, parseWith, ran]
    rfl
  nonempty fits := reads.nonempty (made _ fits).1

theorem conv {parser : Parser α} {spell' : α → List Byte} {good' : α → Prop}
    {strict' : Prop} (reads : Reads fuel parser spell good strict)
    (spelled : ∀ item, spell' item = spell item)
    (fine : ∀ item, good' item ↔ good item) (weaker : strict' → strict) :
    Reads fuel parser spell' good' strict' where
  complete sound armed enough fits content := by
    rw [spelled] at content ⊢
    exact reads.complete sound armed enough ((fine _).mp fits) content
  accepts sound armed enough ran := by
    obtain ⟨fits, count, positive, moved, exactly⟩ :=
      reads.accepts sound armed enough ran
    rw [fine, spelled]
    exact ⟨fits, count, positive, moved, fun holds => exactly (weaker holds)⟩
  refuses := reads.refuses
  ends := reads.ends
  nonempty fits := by
    rw [spelled]
    exact reads.nonempty ((fine _).mp fits)

theorem congr {parser other : Parser α} (reads : Reads fuel parser spell good strict)
    (same : ∀ {stream : Stream}, stream.Sound → stream.kindAhead = none →
      stream.avail < fuel → other stream = parser stream)
    (ends : ∀ {stream : Stream}, stream.Sound → stream.kindAhead = none →
      stream.AtEnd → other stream = parser stream) :
    Reads fuel other spell good strict where
  complete sound armed enough fits content := by
    rw [same sound armed enough]
    exact reads.complete sound armed enough fits content
  accepts sound armed enough ran := by
    rw [same sound armed enough] at ran
    exact reads.accepts sound armed enough ran
  refuses sound armed enough ran := by
    rw [same sound armed enough] at ran
    exact reads.refuses sound armed enough ran
  ends sound armed atEnd := by
    rw [ends sound armed atEnd]
    exact reads.ends sound armed atEnd
  nonempty := reads.nonempty

end Reads

theorem Stream.Opens.filled {stream inner : Stream} {size count : Nat}
    {rest payload : List Byte} (opens : stream.Opens size rest inner)
    (moved : count = payload.length) (whole : count = size)
    (found : ∃ left, inner.window = payload ++ left) :
    (puthead 0xC0 0xF7 size).length + size = (wireList payload).length ∧
      ∃ left, stream.window = wireList payload ++ left := by
  obtain ⟨left, found⟩ := found
  have room := opens.room
  rw [opens.window] at found
  have lengths := congrArg List.length found
  rw [List.length_take, List.length_append] at lengths
  have nothing : left = [] := List.length_eq_zero_iff.mp (by omega)
  have start : payload = rest.take size := by rw [found, nothing, List.append_nil]
  have sized : size = payload.length := by omega
  constructor
  · rw [wireList, List.length_append, sized]
  · refine ⟨rest.drop size, ?_⟩
    rw [wireList, ← sized, List.append_assoc, start, List.take_append_drop]
    exact opens.content

theorem Stream.list_of_wireList {stream : Stream} (sound : stream.Sound)
    (armed : stream.kindAhead = none) {payload rest : List Byte}
    (content : stream.window = wireList payload ++ rest) :
    ∃ inner, stream.list = (.ok payload.length, inner) ∧
      stream.Opens payload.length (payload ++ rest) inner ∧ inner.window = payload := by
  rw [wireList, List.append_assoc] at content
  obtain ⟨inner, ran, opens⟩ := list_complete sound armed content (by simp)
  refine ⟨inner, ran, opens, ?_⟩
  rw [opens.window, List.take_left]

namespace Fills

variable {fuel : Nat} {good : α → Prop} {strict : Prop} {spell : α → List Byte}

theorem weaken {body : Parser α} {strict' : Prop}
    (fills : Fills fuel body spell good strict) (weaker : strict' → strict) :
    Fills fuel body spell good strict' where
  complete := fills.complete
  accepts sound armed nested enough ran := by
    obtain ⟨fits, count, moved, exactly⟩ := fills.accepts sound armed nested enough ran
    exact ⟨fits, count, moved, fun holds => exactly (weaker holds)⟩
  refuses := fills.refuses

theorem inList {body : Parser α} (fills : Fills fuel body spell good strict)
    (type : GoType) :
    Reads fuel (parseInList type body) (fun items => wireList (spell items)) good
      strict where
  complete {stream items rest} sound armed enough fits content := by
    obtain ⟨inner, opening, opens, window⟩ := Stream.list_of_wireList sound armed content
    have room := opens.within
    obtain ⟨last, ran, moved⟩ := fills.complete opens.sound opens.armed opens.nested
      (by rw [opens.avail]; omega) fits window
    rcases opens.closes moved with ⟨_, next, closing, outer⟩ | ⟨unequal, _⟩
    · refine ⟨next, ?_, ?_⟩
      · simp only [parseInList, opening, ran, closing]
      · rw [wireList, List.length_append]
        exact outer
    · exact absurd rfl unequal
  accepts {stream next items} sound armed enough ran := by
    rcases opening : stream.list with ⟨result, inner⟩
    cases result with
    | error err => simp [parseInList, opening] at ran
    | ok size =>
        obtain ⟨rest, opens⟩ := Stream.list_opens sound armed opening
        have room := opens.within
        rcases outcome : body inner with ⟨result, last⟩
        cases result with
        | error err => simp [parseInList, opening, outcome] at ran
        | ok found =>
            obtain ⟨fits, count, moved, exactly⟩ := fills.accepts opens.sound
              opens.armed opens.nested (by rw [opens.avail]; omega) outcome
            rcases opens.closes moved with ⟨whole, after, closing, outer⟩ |
              ⟨_, closing⟩
            · simp only [parseInList, opening, outcome, closing, Prod.mk.injEq,
                Except.ok.injEq] at ran
              obtain ⟨rfl, rfl⟩ := ran
              have nonempty := List.length_pos_iff.mpr (puthead_ne_nil 0xC0 0xF7 size)
              refine ⟨fits, _, by omega, outer, fun holds => ?_⟩
              exact opens.filled (exactly holds).1 whole (exactly holds).2
            · simp [parseInList, opening, outcome, closing] at ran
  refuses {stream next err} sound armed enough ran := by
    rcases opening : stream.list with ⟨result, inner⟩
    cases result with
    | error listErr =>
        simp only [parseInList, opening, Prod.mk.injEq, Except.error.injEq] at ran
        obtain ⟨rfl, rfl⟩ := ran
        exact (Stream.list_error sound armed opening).wrap type
    | ok size =>
        obtain ⟨rest, opens⟩ := Stream.list_opens sound armed opening
        have room := opens.within
        rcases outcome : body inner with ⟨result, last⟩
        cases result with
        | error bodyErr =>
            simp only [parseInList, opening, outcome, Prod.mk.injEq,
              Except.error.injEq] at ran
            obtain ⟨rfl, rfl⟩ := ran
            exact .inr (fills.refuses opens.sound opens.armed opens.nested
              (by rw [opens.avail]; omega) outcome)
        | ok found =>
            obtain ⟨_, count, moved, _⟩ := fills.accepts opens.sound
              opens.armed opens.nested (by rw [opens.avail]; omega) outcome
            rcases opens.closes moved with ⟨_, after, closing, _⟩ | ⟨_, closing⟩
            · simp [parseInList, opening, outcome, closing] at ran
            · simp only [parseInList, opening, outcome, closing, Prod.mk.injEq,
                Except.error.injEq] at ran
              obtain ⟨rfl, rfl⟩ := ran
              exact .inr (decode_ordinary _ _ _)
  ends {stream} sound armed atEnd := by
    obtain ⟨next, ran, stayed⟩ := Stream.list_ends sound armed atEnd
    refine ⟨next, ?_, stayed⟩
    simp only [parseInList, ran]
    rfl
  nonempty {items} _ := Nat.zero_lt_of_lt (length_lt_wireList (spell items))

end Fills

section Elems

variable {fuel : Nat} {inner : Parser α} {spell : α → List Byte} {good : α → Prop}
variable {strict : Prop}

theorem parseElems_failed {rounds i : Nat} {stream next : Stream} {err : Err}
    (ran : inner stream = (.error err, next)) (other : err ≠ .eol) :
    parseElems inner (rounds + 1) i stream =
      (.error (addErrorContext err (.index i)), next) := by
  cases err <;> first | exact absurd rfl other | simp only [parseElems, ran]

private theorem parseElems_complete (reads : Reads fuel inner spell good strict)
    {rounds i : Nat} {stream : Stream} {items : List α} (sound : stream.Sound)
    (armed : stream.kindAhead = none) (nested : stream.stack ≠ [])
    (enough : stream.avail < fuel) (left : stream.avail < rounds)
    (fits : ∀ item ∈ items, good item) (content : stream.window = items.flatMap spell) :
    ∃ next, parseElems inner rounds i stream = (.ok items, next) ∧
      stream.Advanced (items.flatMap spell).length next := by
  have length := sound.window_length
  obtain ⟨rounds, rfl⟩ : ∃ fewer, rounds = fewer + 1 := ⟨rounds - 1, by omega⟩
  induction items generalizing rounds i stream with
  | nil =>
      rw [content] at length
      obtain ⟨next, ran, stayed⟩ := reads.ends sound armed ⟨nested, length.symm⟩
      exact ⟨next, by simp [parseElems, ran], stayed⟩
  | cons item items ih =>
      have first := fits item (by simp)
      have nonempty := reads.nonempty first
      rw [List.flatMap_cons] at content
      obtain ⟨next, ran, moved⟩ := reads.complete sound armed enough first content
      have behind := moved.avail
      have inside := moved.inside
      have window := moved.window
      rw [content, List.drop_left] at window
      obtain ⟨rounds, rfl⟩ : ∃ fewer, rounds = fewer + 1 := ⟨rounds - 1, by omega⟩
      obtain ⟨last, later, further⟩ := ih (i := i + 1) (moved.sound sound) moved.armed
        (moved.stack_ne_nil nested) (by omega)
        (fun other member => fits other (by simp [member])) window
        (moved.sound sound).window_length rounds (by omega)
      refine ⟨last, ?_, ?_⟩
      · rw [parseElems]
        simp only [ran, later]
      · rw [List.flatMap_cons, List.length_append]
        exact moved.trans further

private theorem parseElems_accepts (reads : Reads fuel inner spell good strict)
    {rounds i : Nat} {stream next : Stream} {items : List α} (sound : stream.Sound)
    (armed : stream.kindAhead = none) (enough : stream.avail < fuel)
    (ran : parseElems inner rounds i stream = (.ok items, next)) :
    (∀ item ∈ items, good item) ∧ stream.Advanced stream.avail next ∧
      (strict → stream.window = items.flatMap spell) := by
  induction rounds generalizing i stream items with
  | zero => simp [parseElems] at ran
  | succ rounds ih =>
      rcases outcome : inner stream with ⟨result, after⟩
      cases result with
      | error err =>
          have refused := reads.refuses sound armed enough outcome
          cases err with
          | eol =>
              simp only [parseElems, outcome, Prod.mk.injEq, Except.ok.injEq] at ran
              obtain ⟨rfl, rfl⟩ := ran
              rcases refused with ⟨_, atEnd, stayed⟩ | ordinary
              · have length := sound.window_length
                rw [atEnd.2] at length ⊢
                exact ⟨by simp, stayed, fun _ => List.length_eq_zero_iff.mp length⟩
              · exact absurd rfl ordinary.1
          | _ => simp [parseElems, outcome] at ran
      | ok item =>
          obtain ⟨fits, count, positive, moved, exactly⟩ :=
            reads.accepts sound armed enough outcome
          have behind := moved.avail
          have inside := moved.inside
          rcases later : parseElems inner rounds (i + 1) after with ⟨result, last⟩
          cases result with
          | error err => simp [parseElems, outcome, later] at ran
          | ok found =>
              simp only [parseElems, outcome, later, Prod.mk.injEq, Except.ok.injEq] at ran
              obtain ⟨rfl, rfl⟩ := ran
              obtain ⟨others, further, remaining⟩ :=
                ih (moved.sound sound) moved.armed (by omega) later
              refine ⟨?_, ?_, ?_⟩
              · intro other member
                rcases List.mem_cons.mp member with rfl | later
                · exact fits
                · exact others other later
              · have whole := moved.trans further
                rwa [show count + after.avail = stream.avail by omega] at whole
              · intro holds
                obtain ⟨spelled, rest, content⟩ := exactly holds
                have window := moved.window
                rw [remaining holds, content, spelled, List.drop_left] at window
                rw [content, List.flatMap_cons, window]

private theorem parseElems_refuses (reads : Reads fuel inner spell good strict)
    {rounds i : Nat} {stream next : Stream} {err : Err} (sound : stream.Sound)
    (armed : stream.kindAhead = none) (enough : stream.avail < fuel)
    (left : stream.avail < rounds)
    (ran : parseElems inner rounds i stream = (.error err, next)) : err.Ordinary := by
  induction rounds generalizing i stream with
  | zero => omega
  | succ rounds ih =>
      rcases outcome : inner stream with ⟨result, after⟩
      cases result with
      | error innerErr =>
          have refused := reads.refuses sound armed enough outcome
          by_cases ended : innerErr = .eol
          · simp [parseElems, outcome, ended] at ran
          · have ordinary := refused.ordinary_of_ne ended
            simp only [parseElems_failed outcome ended, Prod.mk.injEq,
              Except.error.injEq] at ran
            exact ran.1 ▸ ordinary.addContext _
      | ok item =>
          obtain ⟨_, count, positive, moved, _⟩ :=
            reads.accepts sound armed enough outcome
          have behind := moved.avail
          have inside := moved.inside
          rcases later : parseElems inner rounds (i + 1) after with ⟨result, last⟩
          cases result with
          | error laterErr =>
              simp only [parseElems, outcome, later, Prod.mk.injEq,
                Except.error.injEq] at ran
              obtain ⟨rfl, rfl⟩ := ran
              exact ih (moved.sound sound) moved.armed (by omega) (by omega) later
          | ok found => simp [parseElems, outcome, later] at ran

/-- What `decodeListSlice` runs inside the list: the loop, unless it is empty. -/
private def sliceBody (fuel : Nat) (inner : Parser α) : Parser (List α) := fun stream =>
  if stream.avail = 0 then (.ok [], stream) else parseElems inner fuel 0 stream

private theorem sliceBody_accepts (reads : Reads fuel inner spell good strict)
    {stream next : Stream} {items : List α} (sound : stream.Sound)
    (armed : stream.kindAhead = none) (enough : stream.avail < fuel)
    (ran : sliceBody fuel inner stream = (.ok items, next)) :
    (∀ item ∈ items, good item) ∧ stream.Advanced stream.avail next ∧
      (strict → stream.window = items.flatMap spell) := by
  rw [sliceBody] at ran
  split_ifs at ran with empty
  · simp only [Prod.mk.injEq, Except.ok.injEq] at ran
    obtain ⟨rfl, rfl⟩ := ran
    have length := sound.window_length
    rw [empty] at length ⊢
    exact ⟨by simp, Stream.Advanced.refl armed,
      fun _ => List.length_eq_zero_iff.mp length⟩
  · exact parseElems_accepts reads sound armed enough ran

private theorem sliceBody_fills (reads : Reads fuel inner spell good strict) :
    Fills fuel (sliceBody fuel inner) (fun items => items.flatMap spell)
      (fun items => ∀ item ∈ items, good item) strict where
  complete {stream items} sound armed nested enough fits content := by
    rw [sliceBody]
    split_ifs with empty
    · have length := sound.window_length
      cases items with
      | nil => exact ⟨stream, rfl, Stream.Advanced.refl armed⟩
      | cons item rest =>
          have nonempty := reads.nonempty (fits item (by simp))
          rw [content, List.flatMap_cons, List.length_append] at length
          omega
    · exact parseElems_complete reads sound armed nested enough enough fits content
  accepts {stream next items} sound armed nested enough ran := by
    obtain ⟨fits, moved, exactly⟩ := sliceBody_accepts reads sound armed enough ran
    refine ⟨fits, stream.avail, moved, fun holds => ⟨?_, [], ?_⟩⟩
    · rw [← exactly holds, sound.window_length]
    · rw [exactly holds, List.append_nil]
  refuses {stream next err} sound armed nested enough ran := by
    rw [sliceBody] at ran
    split_ifs at ran with empty
    · simp at ran
    · exact parseElems_refuses reads sound armed enough enough ran

private theorem parseListSlice_eq (reads : Reads fuel inner spell good strict)
    (type : GoType) {stream : Stream} (sound : stream.Sound)
    (armed : stream.kindAhead = none) (enough : stream.avail < fuel) :
    parseListSlice fuel type inner stream =
      parseInList type (sliceBody fuel inner) stream := by
  rcases opening : stream.list with ⟨result, inside⟩
  cases result with
  | error err => simp only [parseListSlice, parseInList, opening]
  | ok size =>
      obtain ⟨rest, opens⟩ := Stream.list_opens sound armed opening
      have room := opens.within
      have available := opens.avail
      -- whatever the loop returns, it has read the list to its end
      have closing : ∀ {items last}, sliceBody fuel inner inside = (.ok items, last) →
          ∃ next, last.listEnd = (.ok (), next) := by
        intro items last ran
        obtain ⟨_, moved, _⟩ := sliceBody_accepts reads opens.sound opens.armed
          (by omega) ran
        rcases opens.closes moved with ⟨_, next, closed, _⟩ | ⟨unequal, _⟩
        · exact ⟨next, closed⟩
        · exact absurd available unequal
      by_cases empty : size = 0
      · have body : sliceBody fuel inner inside = (.ok [], inside) := by
          rw [sliceBody, if_pos (by omega)]
        obtain ⟨next, closed⟩ := closing body
        simp only [parseListSlice, parseInList, opening, body, closed, if_pos empty]
      · have body : sliceBody fuel inner inside = parseElems inner fuel 0 inside := by
          rw [sliceBody, if_neg (by omega)]
        rcases outcome : parseElems inner fuel 0 inside with ⟨result, last⟩
        cases result with
        | error err =>
            simp only [parseListSlice, parseInList, opening, body, outcome, if_neg empty]
        | ok items =>
            obtain ⟨next, closed⟩ := closing (body.trans outcome)
            simp only [parseListSlice, parseInList, opening, body, outcome, closed,
              if_neg empty]

theorem parseListSlice_reads (reads : Reads fuel inner spell good strict)
    (type : GoType) :
    Reads fuel (parseListSlice fuel type inner)
      (fun items => wireList (items.flatMap spell))
      (fun items => ∀ item ∈ items, good item) strict := by
  refine ((sliceBody_fills reads).inList type).congr (parseListSlice_eq reads type) ?_
  intro stream sound armed atEnd
  obtain ⟨next, ran, _⟩ := Stream.list_ends sound armed atEnd
  simp only [parseListSlice, parseInList, ran]

end Elems

section Tuples

variable {fuel : Nat} {inner : Parser α} {spell : α → List Byte} {good : α → Prop}
variable {strict : Prop}

theorem Fills.cons {first : Parser α} {rest : Parser β} {spellRest : β → List Byte}
    {goodRest : β → Prop} {report : Err → Err} {whole : γ → List Byte}
    {goodWhole : γ → Prop} {body : Parser γ} (few : Err) (join : α → β → γ)
    (head : Reads fuel first spell good strict)
    (tail : Fills fuel rest spellRest goodRest strict)
    (ordinary : few.Ordinary)
    (reported : ∀ {err : Err}, err.Ordinary → (report err).Ordinary)
    (joined : ∀ items, ∃ left right, items = join left right)
    (spelled : ∀ left right, whole (join left right) = spell left ++ spellRest right)
    (fine : ∀ left right, goodWhole (join left right) ↔ good left ∧ goodRest right)
    (ended : ∀ {stream next}, first stream = (.error .eol, next) →
      body stream = (.error few, next))
    (failed : ∀ {stream next err}, first stream = (.error err, next) → err ≠ .eol →
      body stream = (.error (report err), next))
    (went : ∀ {stream next item}, first stream = (.ok item, next) →
      body stream = match rest next with
        | (.error err, last) => (.error err, last)
        | (.ok items, last) => (.ok (join item items), last)) :
    Fills fuel body whole goodWhole strict where
  complete {stream items} sound armed nested enough fits content := by
    obtain ⟨left, right, rfl⟩ := joined items
    rw [spelled] at content ⊢
    rw [fine] at fits
    obtain ⟨next, ran, moved⟩ := head.complete sound armed enough fits.1 content
    have behind := moved.avail
    have window := moved.window
    rw [content, List.drop_left] at window
    obtain ⟨last, later, further⟩ := tail.complete (moved.sound sound) moved.armed
      (moved.stack_ne_nil nested) (by omega) fits.2 window
    refine ⟨last, ?_, ?_⟩
    · rw [went ran, later]
    · rw [List.length_append]
      exact moved.trans further
  accepts {stream next items} sound armed nested enough ran := by
    rcases outcome : first stream with ⟨result, after⟩
    cases result with
    | error err =>
        by_cases stopped : err = .eol
        · subst stopped
          simp [ended outcome] at ran
        · simp [failed outcome stopped] at ran
    | ok item =>
        obtain ⟨fits, count, positive, moved, exactly⟩ :=
          head.accepts sound armed enough outcome
        have behind := moved.avail
        rw [went outcome] at ran
        rcases later : rest after with ⟨result, last⟩
        cases result with
        | error err => simp [later] at ran
        | ok others =>
            simp only [later, Prod.mk.injEq, Except.ok.injEq] at ran
            obtain ⟨rfl, rfl⟩ := ran
            obtain ⟨restFits, more, further, restExactly⟩ := tail.accepts
              (moved.sound sound) moved.armed (moved.stack_ne_nil nested) (by omega) later
            refine ⟨(fine _ _).mpr ⟨fits, restFits⟩, _, moved.trans further,
              fun holds => ?_⟩
            obtain ⟨length, left, content⟩ := exactly holds
            obtain ⟨restLength, right, restContent⟩ := restExactly holds
            have window := moved.window
            rw [content, length, List.drop_left, restContent] at window
            rw [spelled]
            refine ⟨by rw [List.length_append, length, restLength], right, ?_⟩
            rw [content, ← window, List.append_assoc]
  refuses {stream next err} sound armed nested enough ran := by
    rcases outcome : first stream with ⟨result, after⟩
    cases result with
    | error innerErr =>
        by_cases stopped : innerErr = .eol
        · subst stopped
          simp only [ended outcome, Prod.mk.injEq, Except.error.injEq] at ran
          exact ran.1 ▸ ordinary
        · have refused := head.refuses sound armed enough outcome
          simp only [failed outcome stopped, Prod.mk.injEq, Except.error.injEq] at ran
          exact ran.1 ▸ reported (refused.ordinary_of_ne stopped)
    | ok item =>
        obtain ⟨_, count, positive, moved, _⟩ := head.accepts sound armed enough outcome
        have behind := moved.avail
        rw [went outcome] at ran
        rcases later : rest after with ⟨result, last⟩
        cases result with
        | error laterErr =>
            simp only [later, Prod.mk.injEq, Except.error.injEq] at ran
            obtain ⟨rfl, rfl⟩ := ran
            exact tail.refuses (moved.sound sound) moved.armed
              (moved.stack_ne_nil nested) (by omega) later
        | ok others => simp [later] at ran

end Tuples

end Bclib.Rlp
