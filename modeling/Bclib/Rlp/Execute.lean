import Bclib.Rlp.Heads

namespace Bclib.Rlp

open Data
open Go

/-! The decoders do what the parsers do, on every stream and in every memory: what a
decoder writes is a function of the item its parser returns, of the memory and of the
variable. -/

/-- Under the tag `tail` there is no list whose emptiness could be seen beforehand. -/
def taggedSliceStore (tail : Bool) :
    (elem : GoType) → Store (Item elem) (Cell elem) → Store (List (Item elem)) SliceHeader
  | .uint .uint8, _ => setBytes
  | elem, inner => if tail then storeElems elem inner 0 else storeSlice elem inner

theorem taggedSliceStore_of_not_byte (tail : Bool) {elem : GoType}
    (other : elem.isByte = false) (inner : Store (Item elem) (Cell elem)) :
    taggedSliceStore tail elem inner =
      if tail then storeElems elem inner 0 else storeSlice elem inner := by
  cases elem with
  | uint kind => cases kind <;> first | rfl | simp [GoType.isByte] at other
  | _ => rfl

mutual
/-- What `makeDecoder` writes for the type and its tags. -/
def place : (type : GoType) → Tags → Store (Item type) (Cell type)
  | .uint kind, _ => store (.uint kind)
  | .int kind, _ => store (.int kind)
  | .bool, _ => store .bool
  | .string, _ => store .string
  | .bigInt, _ => store .bigInt
  | .number, _ => store .number
  | .rawValue, _ => store .rawValue
  | .slice elem, tags => taggedSliceStore tags.tail elem (place elem {})
  | .array length elem, _ => arrayStore length elem (place elem {})
  | .struct fields, _ => placeFields fields
  | .ptr elem, _ => ptrStore elem (place elem {})
  | .map key elem, _ => fun items heap _ =>
      storeEntries key elem (place key {}) (place elem {}) items heap (zeroCell key)
        (zeroCell elem) []

def placeFields : (fields : Fields) → Store (FieldItems fields) (FieldCells fields)
  | .nil => fun _ heap cells => (heap, cells)
  | .cons _ tags type rest => fun items heap cells =>
      let (heap, cell) := place type tags items.1 heap cells.1
      let (heap, cells) := placeFields rest items.2 heap cells.2
      (heap, (cell, cells))
end

structure Executes (dec : Decoder α) (parser : Parser ι) (set : Store ι α) : Prop where
  accepts : ∀ {stream next : Stream} {item : ι}, parser stream = (.ok item, next) →
    ∀ (heap : Heap) (cell : α),
      dec stream heap cell = ⟨none, next, (set item heap cell).1, (set item heap cell).2⟩
  refuses : ∀ {stream next : Stream} {err : Err}, parser stream = (.error err, next) →
    ∀ (heap : Heap) (cell : α),
      (dec stream heap cell).err = some err ∧ (dec stream heap cell).stream = next

def Quiet (dec : Decoder α) : Prop :=
  ∀ stream next : Stream, stream.kind = (.error .eol, next) → ∀ (heap : Heap) (cell : α),
    dec stream heap cell = ⟨some .eol, next, heap, cell⟩

theorem Executes.ends {dec : Decoder α} {parser : Parser ι} {set : Store ι α}
    (executes : Executes dec parser set) (quiet : Quiet dec) (heads : Heads parser)
    {stream next : Stream} (ended : parser stream = (.error .eol, next)) (heap : Heap)
    (cell : α) : dec stream heap cell = ⟨some .eol, next, heap, cell⟩ := by
  obtain ⟨after, header⟩ := heads stream next ended
  have unchanged := quiet stream after header heap cell
  have left := (executes.refuses ended heap cell).2
  rw [unchanged] at left ⊢
  rw [← left]

theorem decodeWith_executes {read : Parser β} {wrap : Err → Err} {make : β → ι}
    {set : β → Heap → α → Heap × α} {stored : Store ι α}
    (same : ∀ content heap cell, set content heap cell = stored (make content) heap cell) :
    Executes (decodeWith read wrap set) (parseWith read wrap make) stored := by
  constructor
  · intro stream next item ran heap cell
    rcases outcome : read stream with ⟨err | content, after⟩
    · simp [parseWith, outcome] at ran
    · simp only [parseWith, outcome, Prod.mk.injEq, Except.ok.injEq] at ran
      obtain ⟨rfl, rfl⟩ := ran
      simp only [decodeWith, outcome, same]
  · intro stream next err ran heap cell
    rcases outcome : read stream with ⟨err | content, after⟩
    · simp only [parseWith, outcome, Prod.mk.injEq, Except.error.injEq] at ran
      simp only [decodeWith, outcome, ran, and_self]
    · simp [parseWith, outcome] at ran

theorem decodeWith_quiet {read : Parser β} {wrap : Err → Err} {set : β → Heap → α → Heap × α}
    (ends : ∀ stream next : Stream, stream.kind = (.error .eol, next) →
      read stream = (.error .eol, next))
    (wrapped : wrap .eol = .eol) : Quiet (decodeWith read wrap set) := by
  intro stream next ended heap cell
  simp only [decodeWith, ends stream next ended, wrapped]

theorem assign_executes (type : GoType) (read : Parser β) (make : β → α) :
    Executes (decodeFor type read (assign make)) (parseFor type read make)
      (fun item heap _ => (heap, item)) :=
  decodeWith_executes fun _ _ _ => rfl

theorem decodeFor_quiet (type : GoType) {read : Parser β} (set : β → Heap → α → Heap × α)
    (ends : ∀ stream next : Stream, stream.kind = (.error .eol, next) →
      read stream = (.error .eol, next)) : Quiet (decodeFor type read set) :=
  decodeWith_quiet ends rfl

theorem decodeBigIntNoPtr_executes : Executes decodeBigIntNoPtr parseBigInt (store .bigInt) := by
  constructor
  · intro stream next item ran heap cell
    rcases outcome : stream.bytes with ⟨err | b, after⟩
    · simp [parseBigInt, outcome] at ran
    · simp only [parseBigInt, outcome] at ran
      split_ifs at ran with leading
      · simp at ran
      · simp only [Prod.mk.injEq, Except.ok.injEq] at ran
        obtain ⟨rfl, rfl⟩ := ran
        simp only [decodeBigIntNoPtr, outcome, if_neg leading, store,
          bigEndian_ofBigEndian leading]
  · intro stream next err ran heap cell
    rcases outcome : stream.bytes with ⟨err | b, after⟩
    · simp only [parseBigInt, outcome, Prod.mk.injEq, Except.error.injEq] at ran
      simp only [decodeBigIntNoPtr, outcome, ran, and_self]
    · simp only [parseBigInt, outcome] at ran
      split_ifs at ran with leading
      · simp only [Prod.mk.injEq, Except.error.injEq] at ran
        simp only [decodeBigIntNoPtr, outcome, if_pos leading, ran, and_self]
      · simp at ran

theorem decodeBigInt_executes :
    Executes decodeBigInt (parseWith parseBigInt id some) (ptrStore .bigInt (store .bigInt)) := by
  constructor
  · intro stream next item ran heap cell
    rcases outcome : stream.bytes with ⟨err | b, after⟩
    · simp [parseWith, parseBigInt, outcome] at ran
    · simp only [parseWith, parseBigInt, outcome] at ran
      split_ifs at ran with leading
      · simp at ran
      · simp only [Prod.mk.injEq, Except.ok.injEq] at ran
        obtain ⟨rfl, rfl⟩ := ran
        cases cell <;>
          simp only [decodeBigInt, outcome, if_neg leading, ptrStore, storeAt, store,
            bigEndian_ofBigEndian leading]
  · intro stream next err ran heap cell
    rcases outcome : stream.bytes with ⟨err | b, after⟩
    · simp only [parseWith, parseBigInt, outcome, id, Prod.mk.injEq, Except.error.injEq] at ran
      simp only [decodeBigInt, outcome, ran, and_self]
    · simp only [parseWith, parseBigInt, outcome] at ran
      split_ifs at ran with leading
      · simp only [id, Prod.mk.injEq, Except.error.injEq] at ran
        simp only [decodeBigInt, outcome, if_pos leading, ran, and_self]
      · simp at ran

theorem parseWith_parseFor (type : GoType) (read : Parser β) (make : β → ι) (after : ι → γ) :
    parseWith (parseFor type read make) id after =
      parseFor type read (fun content => after (make content)) := by
  funext stream
  simp only [parseWith, parseFor]
  rcases read stream with ⟨err | content, next⟩ <;> rfl

theorem decodeNumberPtr_executes :
    Executes decodeNumberPtr (parseWith (parseFor (.ptr .number) Stream.bytes id) id some)
      (ptrStore .number (store .number)) := by
  rw [parseWith_parseFor, decodeNumberPtr, decodeFor, parseFor]
  apply decodeWith_executes
  intro content heap cell
  cases cell <;> rfl

section Pointers

variable {elem : GoType} {elemdec : Decoder (Cell elem)} {inner : Parser (Item elem)}
variable {set : Store (Item elem) (Cell elem)}

theorem makePtrDecoder_executes (executes : Executes elemdec inner set) :
    Executes (makePtrDecoder elem elemdec) (parseWith inner id some) (storePtr elem set) := by
  constructor
  · intro stream next item ran heap cell
    rcases outcome : inner stream with ⟨err | found, after⟩
    · simp [parseWith, outcome] at ran
    · simp only [parseWith, outcome, Prod.mk.injEq, Except.ok.injEq] at ran
      obtain ⟨rfl, rfl⟩ := ran
      cases cell <;> simp only [makePtrDecoder, storePtr, executes.accepts outcome]
  · intro stream next err ran heap cell
    rcases outcome : inner stream with ⟨err | found, after⟩
    · simp only [parseWith, outcome, id, Prod.mk.injEq, Except.error.injEq] at ran
      cases cell with
      | none =>
          obtain ⟨failed, left⟩ := executes.refuses outcome heap (zeroCell elem)
          simp only [makePtrDecoder, failed, left, ran, and_self]
      | some address =>
          obtain ⟨failed, left⟩ := executes.refuses outcome heap (heap.target elem address)
          simp only [makePtrDecoder, failed, left, ran, and_self]
    · simp [parseWith, outcome] at ran

theorem makePtrDecoder_quiet (quiet : Quiet elemdec) : Quiet (makePtrDecoder elem elemdec) := by
  intro stream next ended heap cell
  cases cell with
  | none => simp only [makePtrDecoder, quiet stream next ended]
  | some address =>
      simp only [makePtrDecoder, quiet stream next ended, Heap.setTarget_target]

theorem makeOptionalPtrDecoder_executes (executes : Executes elemdec inner set) :
    Executes (makeOptionalPtrDecoder elem elemdec) (parseOptional (parseWith inner id some))
      (storePtr elem set) := by
  have through := makePtrDecoder_executes executes
  constructor
  · intro stream next item ran heap cell
    rcases header : stream.kind with ⟨err | ⟨kind, size⟩, after⟩
    · simp [parseOptional, header] at ran
    · simp only [parseOptional, header] at ran
      simp only [makeOptionalPtrDecoder, header]
      split_ifs at ran ⊢
      · simp only [Prod.mk.injEq, Except.ok.injEq] at ran
        obtain ⟨rfl, rfl⟩ := ran
        rfl
      · exact through.accepts ran heap cell
  · intro stream next err ran heap cell
    rcases header : stream.kind with ⟨err | ⟨kind, size⟩, after⟩
    · simp only [parseOptional, header, Prod.mk.injEq, Except.error.injEq] at ran
      simp only [makeOptionalPtrDecoder, header, ran, and_self]
    · simp only [parseOptional, header] at ran
      simp only [makeOptionalPtrDecoder, header]
      split_ifs at ran ⊢
      · simp at ran
      · exact through.refuses ran heap cell

end Pointers

theorem setElem_elemAt (heap : Heap) (elem : GoType) (header : SliceHeader) (i : Nat) :
    setElem heap elem header i (elemAt heap elem header i) = heap := by
  unfold setElem elemAt
  cases base : header.base with
  | none => rfl
  | some address =>
      simp only [Heap.backing, base]
      rw [Heap.set_getD_self, TypedHeap.write_block_self]

section Elems

variable {elem : GoType} {elemdec : Decoder (Cell elem)} {inner : Parser (Item elem)}
variable {set : Store (Item elem) (Cell elem)}

theorem decodeSliceElems_executes (executes : Executes elemdec inner set) (quiet : Quiet elemdec)
    (heads : Heads inner) (rounds i : Nat) :
    Executes (decodeSliceElems elem elemdec rounds i) (parseElems inner rounds i)
      (storeElems elem set i) := by
  induction rounds generalizing i with
  | zero =>
      refine ⟨fun ran => by simp [parseElems] at ran, fun ran heap cell => ?_⟩
      simp only [parseElems, Prod.mk.injEq, Except.error.injEq] at ran
      simp only [decodeSliceElems, ran, and_self]
  | succ rounds ih =>
      constructor
      · intro stream next items ran heap header
        rw [decodeSliceElems]
        rcases opened : openIndex heap elem header i with ⟨room, longer⟩
        rcases outcome : inner stream with ⟨err | item, after⟩
        · cases err with
          | eol =>
              simp only [parseElems, outcome, Prod.mk.injEq, Except.ok.injEq] at ran
              obtain ⟨rfl, rfl⟩ := ran
              simp only [executes.ends quiet heads outcome, setElem_elemAt, storeElems, opened]
          | _ => simp [parseElems, outcome] at ran
        · rcases later : parseElems inner rounds (i + 1) after with ⟨err | others, last⟩
          · simp [parseElems, outcome, later] at ran
          · simp only [parseElems, outcome, later, Prod.mk.injEq, Except.ok.injEq] at ran
            obtain ⟨rfl, rfl⟩ := ran
            simp only [executes.accepts outcome, storeElems, opened]
            exact (ih (i + 1)).accepts later _ _
      · intro stream next err ran heap header
        rw [decodeSliceElems]
        rcases opened : openIndex heap elem header i with ⟨room, longer⟩
        rcases outcome : inner stream with ⟨innerErr | item, after⟩
        · obtain ⟨failed, left⟩ :=
            executes.refuses outcome room (elemAt room elem longer i)
          cases innerErr with
          | eol => simp [parseElems, outcome] at ran
          | _ =>
              simp only [parseElems, outcome, Prod.mk.injEq, Except.error.injEq] at ran
              simp only [failed, left, ran, and_self]
        · rcases later : parseElems inner rounds (i + 1) after with ⟨laterErr | others, last⟩
          · simp only [parseElems, outcome, later, Prod.mk.injEq, Except.error.injEq] at ran
            obtain ⟨rfl, rfl⟩ := ran
            simp only [executes.accepts outcome]
            exact (ih (i + 1)).refuses later _ _
          · simp [parseElems, outcome, later] at ran

theorem parseElems_ne_nil (heads : Heads inner) {rounds i : Nat} {stream next : Stream}
    {items : List (Item elem)} (more : ∀ after, stream.kind ≠ (.error .eol, after))
    (ran : parseElems inner rounds i stream = (.ok items, next)) : items ≠ [] := by
  cases rounds with
  | zero => simp [parseElems] at ran
  | succ rounds =>
      rcases outcome : inner stream with ⟨err | item, after⟩
      · cases err with
        | eol =>
            obtain ⟨after, ended⟩ := heads stream _ outcome
            exact absurd ended (more after)
        | _ => simp [parseElems, outcome] at ran
      · rcases later : parseElems inner rounds (i + 1) after with ⟨err | others, last⟩
        · simp [parseElems, outcome, later] at ran
        · simp only [parseElems, outcome, later, Prod.mk.injEq, Except.ok.injEq] at ran
          exact ran.1 ▸ List.cons_ne_nil item others

theorem decodeListSlice_executes (executes : Executes elemdec inner set) (quiet : Quiet elemdec)
    (heads : Heads inner) (fuel : Nat) :
    Executes (decodeListSlice fuel elem elemdec) (parseListSlice fuel (.slice elem) inner)
      (storeSlice elem set) := by
  have body := decodeSliceElems_executes executes quiet heads fuel 0
  constructor
  · intro stream next items ran heap header
    rcases opened : stream.list with ⟨err | size, inside⟩
    · simp [parseListSlice, opened] at ran
    · by_cases empty : size = 0
      · simp only [parseListSlice, opened, if_pos empty] at ran
        simp only [decodeListSlice, opened, if_pos empty]
        rcases closed : inside.listEnd with ⟨_ | _, last⟩
        · simp [closed] at ran
        · simp only [closed, Prod.mk.injEq, Except.ok.injEq] at ran
          obtain ⟨rfl, rfl⟩ := ran
          rfl
      · simp only [parseListSlice, opened, if_neg empty] at ran
        rcases outcome : parseElems inner fuel 0 inside with ⟨_ | found, after⟩
        · simp [outcome] at ran
        · have some := parseElems_ne_nil heads
            (fun _ => Stream.list_kind_ne_eol opened empty) outcome
          simp only [outcome] at ran
          simp only [decodeListSlice, opened, if_neg empty, body.accepts outcome]
          rcases closed : after.listEnd with ⟨_ | _, last⟩
          · simp [closed] at ran
          · simp only [closed, Prod.mk.injEq, Except.ok.injEq] at ran
            obtain ⟨rfl, rfl⟩ := ran
            rw [storeSlice, if_neg (by rwa [List.isEmpty_iff])]
  · intro stream next err ran heap header
    rcases opened : stream.list with ⟨err | size, inside⟩
    · simp only [parseListSlice, opened, Prod.mk.injEq, Except.error.injEq] at ran
      simp only [decodeListSlice, opened, ran, and_self]
    · by_cases empty : size = 0
      · simp only [parseListSlice, opened, if_pos empty] at ran
        simp only [decodeListSlice, opened, if_pos empty]
        rcases closed : inside.listEnd with ⟨_ | _, last⟩
        · simp only [closed, Prod.mk.injEq, Except.error.injEq] at ran
          simp only [ran, and_self]
        · simp [closed] at ran
      · simp only [parseListSlice, opened, if_neg empty] at ran
        rcases outcome : parseElems inner fuel 0 inside with ⟨_ | found, after⟩
        · obtain ⟨failed, left⟩ := body.refuses outcome heap header
          simp only [outcome, Prod.mk.injEq, Except.error.injEq] at ran
          simp only [decodeListSlice, opened, if_neg empty, failed, left, ran, and_self]
        · simp only [outcome] at ran
          simp only [decodeListSlice, opened, if_neg empty, body.accepts outcome]
          rcases closed : after.listEnd with ⟨_ | _, last⟩
          · simp only [closed, Prod.mk.injEq, Except.error.injEq] at ran
            simp only [ran, and_self]
          · simp [closed] at ran

theorem decodeListSlice_quiet (fuel : Nat) : Quiet (decodeListSlice fuel elem elemdec) := by
  intro stream next ended heap header
  simp only [decodeListSlice, list_ended ended, wrapStreamError]

end Elems

theorem decodeInList_executes {dec : Decoder α} {body : Parser ι} {set : Store ι α}
    (executes : Executes dec body set) (type : GoType) :
    Executes (decodeInList type dec) (parseInList type body) set := by
  constructor
  · intro stream next item ran heap cell
    rcases opened : stream.list with ⟨_ | size, inside⟩
    · simp [parseInList, opened] at ran
    · rcases outcome : body inside with ⟨_ | found, after⟩
      · simp [parseInList, opened, outcome] at ran
      · simp only [parseInList, opened, outcome] at ran
        simp only [decodeInList, opened, executes.accepts outcome]
        rcases closed : after.listEnd with ⟨_ | _, last⟩
        · simp [closed] at ran
        · simp only [closed, Prod.mk.injEq, Except.ok.injEq] at ran
          obtain ⟨rfl, rfl⟩ := ran
          rfl
  · intro stream next err ran heap cell
    rcases opened : stream.list with ⟨_ | size, inside⟩
    · simp only [parseInList, opened, Prod.mk.injEq, Except.error.injEq] at ran
      simp only [decodeInList, opened, ran, and_self]
    · rcases outcome : body inside with ⟨_ | found, after⟩
      · obtain ⟨failed, left⟩ := executes.refuses outcome heap cell
        simp only [parseInList, opened, outcome, Prod.mk.injEq, Except.error.injEq] at ran
        simp only [decodeInList, opened, failed, left, ran, and_self]
      · simp only [parseInList, opened, outcome] at ran
        simp only [decodeInList, opened, executes.accepts outcome]
        rcases closed : after.listEnd with ⟨_ | _, last⟩
        · simp only [closed, Prod.mk.injEq, Except.error.injEq] at ran
          simp only [ran, and_self]
        · simp [closed] at ran

theorem decodeInList_quiet (type : GoType) (dec : Decoder α) : Quiet (decodeInList type dec) := by
  intro stream next ended heap cell
  simp only [decodeInList, list_ended ended, wrapStreamError]

section Tuples

variable {elemdec : Decoder α} {inner : Parser ι} {set : Store ι α}

theorem decodeArrayElems_accepts (executes : Executes elemdec inner set) (type : GoType) {i : Nat}
    {cells : List α} {stream next : Stream}
    {items : { items : List ι // items.length = cells.length }} (heap : Heap)
    (ran : parseTuple type inner cells.length i stream = (.ok items, next)) :
    decodeArrayElems type elemdec i cells stream heap =
      ⟨none, next, (storeTuple set items.1 heap cells).1,
        (storeTuple set items.1 heap cells).2⟩ := by
  induction cells generalizing i stream heap with
  | nil =>
      simp only [List.length_nil, parseTuple, Prod.mk.injEq, Except.ok.injEq] at ran
      obtain ⟨rfl, rfl⟩ := ran
      rfl
  | cons cell cells ih =>
      rcases outcome : inner stream with ⟨err | item, after⟩
      · cases err <;> simp [parseTuple, outcome] at ran
      · rcases later : parseTuple type inner cells.length (i + 1) after with
          ⟨err | found, last⟩
        · simp [parseTuple, outcome, later] at ran
        · simp only [List.length_cons, parseTuple, outcome, later, Prod.mk.injEq,
            Except.ok.injEq] at ran
          obtain ⟨rfl, rfl⟩ := ran
          simp only [decodeArrayElems, storeTuple, executes.accepts outcome,
            ih (set item heap cell).1 later]

theorem decodeArrayElems_refuses (executes : Executes elemdec inner set) (type : GoType) {i : Nat}
    {cells : List α} {stream next : Stream} {err : Err} (heap : Heap)
    (ran : parseTuple type inner cells.length i stream = (.error err, next)) :
    (decodeArrayElems type elemdec i cells stream heap).err = some err ∧
      (decodeArrayElems type elemdec i cells stream heap).stream = next := by
  induction cells generalizing i stream heap with
  | nil => simp [parseTuple] at ran
  | cons cell cells ih =>
      rcases outcome : inner stream with ⟨innerErr | item, after⟩
      · obtain ⟨failed, left⟩ := executes.refuses outcome heap cell
        cases innerErr <;>
          (simp only [List.length_cons, parseTuple, outcome, Prod.mk.injEq,
            Except.error.injEq] at ran
           simp only [decodeArrayElems, failed, left, ran, and_self])
      · rcases later : parseTuple type inner cells.length (i + 1) after with
          ⟨laterErr | found, last⟩
        · simp only [List.length_cons, parseTuple, outcome, later, Prod.mk.injEq,
            Except.error.injEq] at ran
          obtain ⟨rfl, rfl⟩ := ran
          simp only [decodeArrayElems, executes.accepts outcome,
            ih (set item heap cell).1 later, and_self]
        · simp [parseTuple, outcome, later] at ran

end Tuples

theorem decodeListArray_executes {elem : GoType} {elemdec : Decoder (Cell elem)}
    {inner : Parser (Item elem)} {set : Store (Item elem) (Cell elem)} (length : Nat)
    (other : elem.isByte = false) (executes : Executes elemdec inner set) :
    Executes (decodeListArray length elem elemdec)
      (parseInList (.array length elem) (parseTuple (.array length elem) inner length 0))
      (arrayStore length elem set) := by
  apply decodeInList_executes
  constructor
  · rintro stream next items ran heap ⟨cells, rfl⟩
    simp only [decodeArrayElems_accepts executes _ heap ran]
    rw [arrayStore_of_not_byte cells.length other set items heap ⟨cells, rfl⟩]
  · rintro stream next err ran heap ⟨cells, rfl⟩
    exact decodeArrayElems_refuses executes _ heap ran

theorem readFull_length {stream next : Stream} {count : Nat} {content : List Byte}
    (ran : stream.readFull count = (.ok content, next)) : content.length = count := by
  simp only [Stream.readFull] at ran
  rcases reading : stream.willRead count with ⟨_ | _, after⟩
  · simp [reading] at ran
  · simp only [reading] at ran
    split_ifs at ran with short
    · simp at ran
    · simp only [Prod.mk.injEq, Except.ok.injEq] at ran
      rw [← ran.1, List.length_take]
      omega

theorem decodeByteArray_executes (length : Nat) :
    Executes (decodeByteArray length) (parseByteArray length)
      (fun item heap _ => (heap, item)) := by
  constructor
  · intro stream next item ran heap cell
    rcases header : stream.kind with ⟨err | ⟨kind, size⟩, after⟩
    · simp [parseByteArray, header] at ran
    · cases kind with
      | byte =>
          simp only [parseByteArray, header] at ran
          simp only [decodeByteArray, header]
          split_ifs at ran ⊢ with one empty
          · rcases value : after.uint 64 with ⟨err | number, last⟩
            · simp only [value, Prod.mk.injEq, Except.ok.injEq] at ran
              obtain ⟨rfl, rfl⟩ := ran
              rfl
            · simp only [value, Prod.mk.injEq, Except.ok.injEq] at ran
              obtain ⟨rfl, rfl⟩ := ran
              rfl
          · simp at ran
          · simp at ran
      | list => simp [parseByteArray, header] at ran
      | string =>
          simp only [parseByteArray, header] at ran
          simp only [decodeByteArray, header]
          split_ifs at ran ⊢ with long short
          · simp at ran
          · simp at ran
          rcases filling : after.readFull length with ⟨err | content, last⟩
          · simp [filling] at ran
          · have full := readFull_length filling
            simp only [filling, dif_pos full] at ran ⊢
            split_ifs at ran ⊢
            · simp at ran
            · simp only [Prod.mk.injEq, Except.ok.injEq] at ran
              obtain ⟨rfl, rfl⟩ := ran
              rfl
  · intro stream next err ran heap cell
    rcases header : stream.kind with ⟨kindErr | ⟨kind, size⟩, after⟩
    · simp only [parseByteArray, header, Prod.mk.injEq, Except.error.injEq] at ran
      simp only [decodeByteArray, header, ran, and_self]
    · cases kind with
      | byte =>
          simp only [parseByteArray, header] at ran
          simp only [decodeByteArray, header]
          split_ifs at ran ⊢ with one empty
          · rcases value : after.uint 64 with ⟨err | number, last⟩ <;> simp [value] at ran
          · simp only [Prod.mk.injEq, Except.error.injEq] at ran
            simp only [ran, and_self]
          · simp only [Prod.mk.injEq, Except.error.injEq] at ran
            simp only [ran, and_self]
      | list =>
          simp only [parseByteArray, header, Prod.mk.injEq, Except.error.injEq] at ran
          simp only [decodeByteArray, header, ran, and_self]
      | string =>
          simp only [parseByteArray, header] at ran
          simp only [decodeByteArray, header]
          split_ifs at ran ⊢ with long short
          · simp only [Prod.mk.injEq, Except.error.injEq] at ran
            simp only [ran, and_self]
          · simp only [Prod.mk.injEq, Except.error.injEq] at ran
            simp only [ran, and_self]
          rcases filling : after.readFull length with ⟨readErr | content, last⟩
          · simp only [filling, Prod.mk.injEq, Except.error.injEq] at ran
            simp only [ran, and_self]
          · have full := readFull_length filling
            simp only [filling, dif_pos full] at ran ⊢
            split_ifs at ran ⊢
            · simp only [Prod.mk.injEq, Except.error.injEq] at ran
              simp only [ran, and_self]
            · simp at ran

theorem decodeByteArray_quiet (length : Nat) : Quiet (decodeByteArray length) := by
  intro stream next ended heap cell
  simp only [decodeByteArray, ended]

theorem fieldDecoder_executes {type : GoType} {tags : Tags} {dec : Decoder (Cell type)}
    {parser : Parser (Item type)} (executes : Executes dec parser (place type tags)) :
    Executes (fieldDecoder type dec) parser (place type tags) := by
  by_cases isMap : type.isMap = true
  · have ignores : ∀ item heap (cell other : Cell type),
        place type tags item heap cell = place type tags item heap other := by
      cases type <;> first | (intros; rfl) | simp [GoType.isMap] at isMap
    constructor
    · intro stream next item ran heap cell
      simp only [fieldDecoder, if_pos isMap, executes.accepts ran,
        ignores item heap (zeroCell type) cell]
    · intro stream next err ran heap cell
      obtain ⟨failed, left⟩ := executes.refuses ran heap (zeroCell type)
      simp only [fieldDecoder, if_pos isMap, failed, left, and_self]
  · rw [fieldDecoder, if_neg isMap]
    exact executes

section Bytes

variable {dec : Decoder α} {parser : Parser ι} {set : Store ι α} {type : GoType}
variable {b : List Byte}

theorem decodeBytesInto_ok (executes : Executes dec parser set) {item : ι}
    (ran : parseBytes type parser b = .ok item) (heap : Heap) (cell : α) :
    (decodeBytesInto type dec b heap cell).err = none ∧
      (decodeBytesInto type dec b heap cell).heap = (set item heap cell).1 ∧
      (decodeBytesInto type dec b heap cell).cell = (set item heap cell).2 := by
  rcases outcome : parser (newStream b b.length) with ⟨err | found, next⟩
  · simp [parseBytes, outcome] at ran
  · simp only [parseBytes, outcome] at ran
    split_ifs at ran with trailing
    cases ran
    simp only [decodeBytesInto, executes.accepts outcome, if_neg trailing, and_self]

theorem decodeBytesInto_error (executes : Executes dec parser set) {err : Err}
    (ran : parseBytes type parser b = .error err) (heap : Heap) (cell : α) :
    (decodeBytesInto type dec b heap cell).err = some err := by
  rcases outcome : parser (newStream b b.length) with ⟨inner | found, next⟩
  · simp only [parseBytes, outcome, Except.error.injEq] at ran
    simp only [decodeBytesInto, (executes.refuses outcome heap cell).1, ran]
  · simp only [parseBytes, outcome] at ran
    split_ifs at ran with trailing
    cases ran
    simp only [decodeBytesInto, executes.accepts outcome, if_pos trailing]

end Bytes

section Maps

variable {fuel : Nat} {key elem : GoType}
variable {keydec : Decoder (Cell key)} {elemdec : Decoder (Cell elem)}
variable {keyParser : Parser (Item key)} {elemParser : Parser (Item elem)}
variable {keyStore : Store (Item key) (Cell key)} {elemStore : Store (Item elem) (Cell elem)}

private theorem decodeEntries_other {v : List Byte} {slices : List (List Byte)}
    (found : parseByteSlices fuel v = .ok slices) (other : slices.length ≠ 2)
    (rest : List (List Byte)) (heap : Heap) (keyCell : Cell key) (value : Cell elem)
    (entries : List (Cell key × Cell elem)) :
    decodeEntries fuel key elem keydec elemdec (v :: rest) heap keyCell value entries =
      (none, heap, entries) := by
  rw [decodeEntries, found]
  rcases slices with _ | ⟨_, _ | ⟨_, _ | ⟨_, _⟩⟩⟩
  · rfl
  · rfl
  · exact absurd rfl other
  · rfl

theorem decodeEntries_executes (keyExecutes : Executes keydec keyParser keyStore)
    (elemExecutes : Executes elemdec elemParser elemStore) (bbt : List (List Byte)) (heap : Heap)
    (keyCell : Cell key) (value : Cell elem) (entries : List (Cell key × Cell elem)) :
    match parseEntries fuel (.map key elem) key elem keyParser elemParser bbt with
    | .error err =>
        (decodeEntries fuel key elem keydec elemdec bbt heap keyCell value entries).1 =
          some err
    | .ok items =>
        decodeEntries fuel key elem keydec elemdec bbt heap keyCell value entries =
          (none, storeEntries key elem keyStore elemStore items heap keyCell value
            entries) := by
  induction bbt generalizing heap keyCell value entries with
  | nil => rfl
  | cons v rest ih =>
      rcases slices : parseByteSlices fuel v with err | found
      · simp only [parseEntries_cons, parseEntry_failed slices, decodeEntries, slices]
      · by_cases pair : found.length = 2
        · obtain ⟨kb, vb, rfl⟩ := List.length_eq_two.mp pair
          rcases keyRead : parseBytes key keyParser kb with err | keyItem
          · have failed := decodeBytesInto_error keyExecutes keyRead heap keyCell
            simp only [parseEntries_cons, parseEntry_pair slices, decodeEntries, slices, keyRead,
              failed]
          · obtain ⟨keyDone, keyHeap, keyStored⟩ :=
              decodeBytesInto_ok keyExecutes keyRead heap keyCell
            rcases elemRead : parseBytes elem elemParser vb with err | elemItem
            · have failed := decodeBytesInto_error elemExecutes elemRead
                (keyStore keyItem heap keyCell).1
                (if elem.isMap then zeroCell elem else value)
              simp only [parseEntries_cons, parseEntry_pair slices, decodeEntries, slices, keyRead,
                elemRead, keyDone, keyHeap, failed]
            · obtain ⟨elemDone, elemHeap, elemStored⟩ := decodeBytesInto_ok elemExecutes
                elemRead (keyStore keyItem heap keyCell).1
                (if elem.isMap then zeroCell elem else value)
              have others := ih
                (elemStore elemItem (keyStore keyItem heap keyCell).1
                  (if elem.isMap then zeroCell elem else value)).1
                (keyStore keyItem heap keyCell).2
                (elemStore elemItem (keyStore keyItem heap keyCell).1
                  (if elem.isMap then zeroCell elem else value)).2
                (assocSet entries (keyStore keyItem heap keyCell).2
                  (elemStore elemItem (keyStore keyItem heap keyCell).1
                    (if elem.isMap then zeroCell elem else value)).2)
              simp only [parseEntries_cons, parseEntry_pair slices, decodeEntries, slices, keyRead,
                elemRead, keyDone, keyHeap, keyStored, elemDone, elemHeap, elemStored]
              rcases outcome : parseEntries fuel (.map key elem) key elem keyParser
                elemParser rest with err | items <;> rw [outcome] at others
              · exact others
              · exact others
        · rw [parseEntries_cons, parseEntry_other slices pair]
          exact decodeEntries_other slices pair rest heap keyCell value entries

theorem decodeMap_executes (keyExecutes : Executes keydec keyParser keyStore)
    (elemExecutes : Executes elemdec elemParser elemStore) :
    Executes (decodeMap fuel key elem keydec elemdec)
      (parseMap fuel key elem keyParser elemParser)
      (fun items heap _ => storeEntries key elem keyStore elemStore items heap
        (zeroCell key) (zeroCell elem) []) := by
  have loop := fun bbt heap => @decodeEntries_executes fuel key elem keydec elemdec keyParser
    elemParser keyStore elemStore keyExecutes elemExecutes bbt heap (zeroCell key)
    (zeroCell elem) []
  constructor
  · intro stream next items ran heap cell
    rcases outcome : stream.bytes with ⟨err | b, after⟩
    · simp [parseMap, outcome] at ran
    · rcases slices : parseByteSlices fuel b with err | bbt
      · simp [parseMap, outcome, slices] at ran
      · simp only [parseMap, outcome, slices, Prod.mk.injEq] at ran
        obtain ⟨read, rfl⟩ := ran
        have entries := loop bbt heap
        rw [read] at entries
        simp only [decodeMap, outcome, slices, entries]
  · intro stream next err ran heap cell
    rcases outcome : stream.bytes with ⟨bytesErr | b, after⟩
    · simp only [parseMap, outcome, Prod.mk.injEq, Except.error.injEq] at ran
      simp only [decodeMap, outcome, ran, and_self]
    · rcases slices : parseByteSlices fuel b with slicesErr | bbt
      · simp only [parseMap, outcome, slices, Prod.mk.injEq, Except.error.injEq] at ran
        simp only [decodeMap, outcome, slices, ran, and_self]
      · simp only [parseMap, outcome, slices, Prod.mk.injEq] at ran
        obtain ⟨read, rfl⟩ := ran
        have entries := loop bbt heap
        rw [read] at entries
        simp only [decodeMap, outcome, slices, entries, and_self]

theorem decodeMap_quiet : Quiet (decodeMap fuel key elem keydec elemdec) := by
  intro stream next ended heap cell
  simp only [decodeMap, bytes_ended ended, wrapStreamError]

end Maps

theorem ptrDecoder_quiet (elem : GoType) {elemdec : Decoder (Cell elem)}
    (quiet : Quiet elemdec) : Quiet (ptrDecoder false elem elemdec) := by
  obtain rfl | rfl | ⟨choice, -, -⟩ := ptr_choice elem
  · intro stream next ended heap cell
    simp only [ptrDecoder, decodeBigInt, bytes_ended ended, wrapStreamError]
  · rw [ptrDecoder, decodeNumberPtr]
    exact decodeFor_quiet _ _ fun _ _ => bytes_ended
  · rw [choice]
    exact makePtrDecoder_quiet quiet

theorem makeDecoder_quiet (fuel : Nat) : (type : GoType) → Quiet (makeDecoder fuel type {})
  | .ptr elem => ptrDecoder_quiet elem (makeDecoder_quiet fuel elem)
  | .uint kind => decodeFor_quiet (.uint kind) (assign (BitVec.ofNat kind.bits))
      fun _ _ ended => uint_ended ended kind.bits
  | .int kind => decodeFor_quiet (.int kind) (assign (BitVec.ofNat kind.bits))
      fun _ _ ended => uint_ended ended kind.bits
  | .bool => decodeFor_quiet .bool (assign id) fun _ _ => bool_ended
  | .string => decodeFor_quiet .string (assign id) fun _ _ => bytes_ended
  | .bigInt => fun stream next ended heap cell => by
      simp only [makeDecoder, decodeBigIntNoPtr, bytes_ended ended, wrapStreamError]
      rfl
  | .number => decodeFor_quiet _ _ fun _ _ => bytes_ended
  | .rawValue => decodeWith_quiet (fun _ _ => raw_ended) rfl
  | .slice elem => by
      cases bytes : elem.isByte with
      | true =>
          obtain rfl := GoType.eq_byte_of_isByte bytes
          exact decodeFor_quiet _ _ fun _ _ => bytes_ended
      | false =>
          rw [makeDecoder, sliceDecoder_of_not_byte fuel false bytes]
          exact decodeListSlice_quiet fuel
  | .array length elem => by
      cases bytes : elem.isByte with
      | true =>
          obtain rfl := GoType.eq_byte_of_isByte bytes
          exact decodeByteArray_quiet length
      | false =>
          rw [makeDecoder, arrayDecoder_of_not_byte length bytes]
          exact decodeInList_quiet _ _
  | .struct fields => decodeInList_quiet _ _
  | .map key elem => decodeMap_quiet

theorem ptrDecoder_executes (fuel : Nat) (nilOK : Bool) (elem : GoType)
    {elemdec : Decoder (Cell elem)}
    (executes : Executes elemdec (parse fuel elem {}) (place elem {})) :
    Executes (ptrDecoder nilOK elem elemdec) (ptrParser nilOK elem (parse fuel elem {}))
      (ptrStore elem (place elem {})) := by
  obtain rfl | rfl | ⟨decoder, parser, stored⟩ := ptr_choice elem
  · exact decodeBigInt_executes
  · exact decodeNumberPtr_executes
  · rw [decoder, parser, stored]
    split_ifs
    · exact makeOptionalPtrDecoder_executes executes
    · exact makePtrDecoder_executes executes

mutual
theorem makeDecoder_executes (fuel : Nat) : (type : GoType) → (tags : Tags) →
    Executes (makeDecoder fuel type tags) (parse fuel type tags) (place type tags)
  | .uint kind, _ => assign_executes (.uint kind) _ _
  | .int kind, _ => assign_executes (.int kind) _ _
  | .bool, _ => assign_executes .bool Stream.bool id
  | .string, _ => assign_executes .string Stream.bytes id
  | .bigInt, _ => decodeBigIntNoPtr_executes
  | .number, _ => decodeWith_executes fun _ _ _ => rfl
  | .rawValue, _ => decodeWith_executes fun _ _ _ => rfl
  | .slice elem, tags => by
      cases bytes : elem.isByte with
      | true =>
          obtain rfl := GoType.eq_byte_of_isByte bytes
          exact decodeWith_executes fun _ _ _ => rfl
      | false =>
          rw [makeDecoder, parse, place, sliceDecoder_of_not_byte fuel tags.tail bytes,
            sliceParser_of_not_byte fuel tags.tail bytes,
            taggedSliceStore_of_not_byte tags.tail bytes]
          have executes := makeDecoder_executes fuel elem {}
          split_ifs
          · exact decodeSliceElems_executes executes (makeDecoder_quiet fuel elem)
              (parse_heads fuel elem {}) fuel 0
          · exact decodeListSlice_executes executes (makeDecoder_quiet fuel elem)
              (parse_heads fuel elem {}) fuel
  | .array length elem, _ => by
      cases bytes : elem.isByte with
      | true =>
          obtain rfl := GoType.eq_byte_of_isByte bytes
          exact decodeByteArray_executes length
      | false =>
          rw [makeDecoder, parse, place, arrayDecoder_of_not_byte length bytes,
            arrayParser_of_not_byte length bytes]
          exact decodeListArray_executes length bytes (makeDecoder_executes fuel elem {})
  | .struct fields, _ => decodeInList_executes (decodeFields_executes fuel (.struct fields) fields) _
  | .ptr elem, tags => ptrDecoder_executes fuel tags.nilOK elem (makeDecoder_executes fuel elem {})
  | .map key elem, _ =>
      decodeMap_executes (makeDecoder_executes fuel key {}) (makeDecoder_executes fuel elem {})

theorem decodeFields_executes (fuel : Nat) (type : GoType) : (fields : Fields) →
    Executes (decodeFields fuel type fields) (parseFields fuel type fields) (placeFields fields)
  | .nil => by
      constructor
      · intro stream next item ran heap cell
        cases ran
        rfl
      · intro stream next err ran heap cell
        cases ran
  | .cons name tags field rest => by
      have head := fieldDecoder_executes (makeDecoder_executes fuel field tags)
      have tail := decodeFields_executes fuel type rest
      constructor
      · intro stream next items ran heap cells
        rcases outcome : parse fuel field tags stream with ⟨err | item, after⟩
        · cases err <;> simp [parseFields, outcome] at ran
        · rcases later : parseFields fuel type rest after with ⟨err | others, last⟩
          · simp [parseFields, outcome, later] at ran
          · simp only [parseFields, outcome, later] at ran
            cases ran
            simp only [decodeFields, placeFields, head.accepts outcome, tail.accepts later]
      · intro stream next err ran heap cells
        rcases outcome : parse fuel field tags stream with ⟨fieldErr | item, after⟩
        · obtain ⟨failed, left⟩ := head.refuses outcome heap cells.1
          cases fieldErr <;>
            (simp only [parseFields, outcome, Prod.mk.injEq, Except.error.injEq] at ran
             simp only [decodeFields, failed, left, ran, and_self])
        · rcases later : parseFields fuel type rest after with ⟨restErr | others, last⟩
          · simp only [parseFields, outcome, later, Prod.mk.injEq, Except.error.injEq] at ran
            obtain ⟨rfl, rfl⟩ := ran
            simp only [decodeFields, head.accepts outcome, tail.refuses later, and_self]
          · simp [parseFields, outcome, later] at ran
end

end Bclib.Rlp
