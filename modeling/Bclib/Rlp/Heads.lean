import Bclib.Rlp.Store

namespace Bclib.Rlp

open Data
open Go

/-! The end of a list is reported from a header and from nowhere else. -/

namespace Stream

variable {stream next : Stream}

theorem takeRemaining_ne_eol {count : Nat} : stream.takeRemaining count ≠ (.error .eol, next) := by
  simp only [takeRemaining]
  split_ifs <;> simp

theorem willRead_ne_eol {count : Nat} : stream.willRead count ≠ (.error .eol, next) := by
  simp only [willRead]
  split
  · exact takeRemaining_ne_eol
  · split_ifs
    · simp
    · exact takeRemaining_ne_eol

theorem readByte_ne_eol : stream.readByte ≠ (.error .eol, next) := by
  intro ran
  simp only [readByte] at ran
  rcases reading : stream.willRead 1 with ⟨err | done, after⟩
  · rw [reading] at ran
    cases ran
    exact willRead_ne_eol reading
  · rw [reading] at ran
    cases input : after.input with
    | nil => simp [input] at ran
    | cons byte rest => simp [input] at ran

theorem readFull_ne_eol {count : Nat} : stream.readFull count ≠ (.error .eol, next) := by
  intro ran
  simp only [readFull] at ran
  rcases reading : stream.willRead count with ⟨err | done, after⟩
  · rw [reading] at ran
    cases ran
    exact willRead_ne_eol reading
  · simp only [reading] at ran
    split_ifs at ran
    · simp at ran
    · simp at ran

theorem readUint_ne_eol {size : Nat} : stream.readUint size ≠ (.error .eol, next) := by
  intro ran
  simp only [readUint] at ran
  split_ifs at ran
  · simp at ran
  · rcases reading : stream.readByte with ⟨err | byte, after⟩
    · rw [reading] at ran
      cases ran
      exact readByte_ne_eol reading
    · simp [reading] at ran
  · simp at ran
  · rcases reading : stream.readFull size with ⟨err | bytes, after⟩
    · rw [reading] at ran
      cases ran
      exact readFull_ne_eol reading
    · simp only [reading] at ran
      split_ifs at ran
      · simp at ran
      · simp at ran

theorem readLongSize_ne_eol {kind found : Kind} {width size : Nat} :
    stream.readLongSize kind width ≠ ((found, size, some .eol), next) := by
  intro ran
  simp only [readLongSize] at ran
  rcases reading : stream.readUint width with ⟨err | number, after⟩
  · rw [reading] at ran
    cases ran
    exact readUint_ne_eol reading
  · simp only [reading] at ran
    split_ifs at ran <;> simp at ran

theorem readKind_ne_eol {kind : Kind} {size : Nat} :
    stream.readKind ≠ ((kind, size, some .eol), next) := by
  intro ran
  simp only [readKind] at ran
  rcases reading : stream.readByte with ⟨err | byte, after⟩
  · cases err with
    | eol => exact readByte_ne_eol reading
    | _ =>
        simp only [reading] at ran
        split_ifs at ran <;> simp at ran
  · simp only [reading] at ran
    split_ifs at ran
    · simp at ran
    · simp at ran
    · exact readLongSize_ne_eol ran
    · simp at ran
    · exact readLongSize_ne_eol ran

theorem sizeError_ne_eol {size : Nat} : stream.sizeError size ≠ some .eol := by
  simp only [sizeError]
  split
  · split_ifs <;> simp
  · split_ifs <;> simp

theorem atListEnd_of_kind (armed : stream.kindAhead = none)
    (ended : stream.kind = (.error .eol, next)) : stream.atListEnd = true := by
  by_contra more
  have same : stream.clearKinderr.atListEnd = stream.atListEnd := rfl
  rw [kind, armed] at ended
  simp only [same, if_neg more] at ended
  rcases reading : stream.clearKinderr.readKind with ⟨⟨kind, size, _ | err⟩, after⟩
  · simp only [reading, cacheKind] at ended
    cases failed : after.sizeError size with
    | none => simp [failed] at ended
    | some err =>
        simp only [failed, Prod.mk.injEq, Except.error.injEq] at ended
        rw [ended.1] at failed
        exact sizeError_ne_eol failed
  · simp only [reading, cacheKind, Prod.mk.injEq, Except.error.injEq] at ended
    rw [ended.1] at reading
    exact readKind_ne_eol reading

theorem newStream_kind_ne_eol {b : List Byte} {limit : Nat} :
    (newStream b limit).kind ≠ (.error .eol, next) := by
  intro ended
  have atEnd := atListEnd_of_kind rfl ended
  simp [atListEnd, newStream] at atEnd

theorem list_kind_ne_eol {size : Nat} {inside : Stream} (opened : stream.list = (.ok size, inside))
    (positive : size ≠ 0) : inside.kind ≠ (.error .eol, next) := by
  intro ended
  simp only [list] at opened
  rcases header : stream.kind with ⟨err | ⟨kind, length⟩, after⟩
  · simp [header] at opened
  · cases kind with
    | list =>
        simp only [header, Prod.mk.injEq, Except.ok.injEq] at opened
        obtain ⟨rfl, rfl⟩ := opened
        have atEnd := atListEnd_of_kind rfl ended
        simp only [atListEnd, decide_eq_true_eq] at atEnd
        exact positive atEnd.symm
    | _ => simp [header] at opened

theorem kind_kind {found : Kind × Nat} (ran : stream.kind = (.ok found, next)) :
    next.kind = (.ok found, next) := by
  rw [kind] at ran
  cases ahead : stream.kindAhead with
  | some cached =>
      rw [ahead] at ran
      cases sticky : stream.kinderr with
      | some err => simp [sticky] at ran
      | none =>
          simp only [sticky, Prod.mk.injEq, Except.ok.injEq] at ran
          obtain ⟨rfl, rfl⟩ := ran
          simp [kind, ahead, sticky]
  | none =>
      simp only [ahead] at ran
      split_ifs at ran
      · simp at ran
      · rcases reading : stream.clearKinderr.readKind with ⟨⟨kind, size, _ | err⟩, after⟩
        · simp only [reading, cacheKind] at ran
          cases failed : after.sizeError size with
          | some err => simp [failed] at ran
          | none =>
              simp only [failed, Prod.mk.injEq, Except.ok.injEq] at ran
              obtain ⟨rfl, rfl⟩ := ran
              rfl
        · simp [reading, cacheKind] at ran

end Stream

/-- The parser reports the end of a list only where a header does. -/
def Heads (parser : Parser α) : Prop :=
  ∀ stream next : Stream, parser stream = (.error .eol, next) →
    ∃ after, stream.kind = (.error .eol, after)

section Reads

variable {stream next : Stream}

theorem bytes_heads : Heads Stream.bytes := by
  intro stream next ran
  simp only [Stream.bytes] at ran
  rcases header : stream.kind with ⟨err | ⟨kind, size⟩, after⟩
  · simp only [header, Prod.mk.injEq, Except.error.injEq] at ran
    exact ⟨after, by rw [← ran.1]⟩
  · exfalso
    cases kind with
    | byte => simp [header] at ran
    | list => simp [header] at ran
    | string =>
        simp only [header] at ran
        split_ifs at ran
        · simp at ran
        · rcases reading : after.readFull size with ⟨err | content, last⟩
          · rw [reading] at ran
            cases ran
            exact Stream.readFull_ne_eol reading
          · simp only [reading] at ran
            split_ifs at ran <;> simp at ran

theorem raw_heads : Heads Stream.raw := by
  intro stream next ran
  simp only [Stream.raw] at ran
  rcases header : stream.kind with ⟨err | ⟨kind, size⟩, after⟩
  · simp only [header, Prod.mk.injEq, Except.error.injEq] at ran
    exact ⟨after, by rw [← ran.1]⟩
  · exfalso
    cases kind with
    | byte => simp [header] at ran
    | _ =>
        by_cases large : maxLen ≤ addUint64 (headsize size) size
        · simp [header, large] at ran
        · rcases reading : after.readFull size with ⟨err | content, last⟩
          · simp only [header, if_neg large, reading, Prod.mk.injEq, Except.error.injEq] at ran
            rw [ran.1] at reading
            exact Stream.readFull_ne_eol reading
          · simp [header, large, reading] at ran

theorem uint_heads (maxbits : Nat) : Heads (fun stream => stream.uint maxbits) := by
  intro stream next ran
  simp only [Stream.uint] at ran
  rcases header : stream.kind with ⟨err | ⟨kind, size⟩, after⟩
  · simp only [header, Prod.mk.injEq, Except.error.injEq] at ran
    exact ⟨after, by rw [← ran.1]⟩
  · exfalso
    cases kind with
    | byte =>
        simp only [header] at ran
        split_ifs at ran <;> simp at ran
    | list => simp [header] at ran
    | string =>
        simp only [header] at ran
        split_ifs at ran
        · simp at ran
        · split at ran
          · simp at ran
          · rename_i reading
            obtain ⟨rfl, -⟩ : _ = Err.eol ∧ _ = next := by simpa using ran
            exact Stream.readUint_ne_eol reading
          · split_ifs at ran <;> simp at ran

theorem bool_heads : Heads Stream.bool := by
  intro stream next ran
  simp only [Stream.bool] at ran
  split at ran
  · cases ran
    exact uint_heads 8 _ _ ‹_›
  · cases ran
  · cases ran
  · cases ran

theorem list_heads : Heads Stream.list := by
  intro stream next ran
  simp only [Stream.list] at ran
  rcases header : stream.kind with ⟨err | ⟨kind, size⟩, after⟩
  · simp only [header, Prod.mk.injEq, Except.error.injEq] at ran
    exact ⟨after, by rw [← ran.1]⟩
  · cases kind <;> simp [header] at ran

theorem listEnd_ne_eol : stream.listEnd ≠ (.error .eol, next) := by
  simp only [Stream.listEnd]
  split
  · simp
  · split_ifs <;> simp

theorem bytes_ended (ended : stream.kind = (.error .eol, next)) :
    stream.bytes = (.error .eol, next) := by
  rw [Stream.bytes, ended]

theorem raw_ended (ended : stream.kind = (.error .eol, next)) :
    stream.raw = (.error .eol, next) := by
  rw [Stream.raw, ended]

theorem uint_ended (ended : stream.kind = (.error .eol, next)) (maxbits : Nat) :
    stream.uint maxbits = (.error .eol, next) := by
  rw [Stream.uint, ended]

theorem bool_ended (ended : stream.kind = (.error .eol, next)) :
    stream.bool = (.error .eol, next) := by
  rw [Stream.bool, uint_ended ended]

theorem list_ended (ended : stream.kind = (.error .eol, next)) :
    stream.list = (.error .eol, next) := by
  rw [Stream.list, ended]

end Reads

theorem wrapStreamError_eq_eol {err : Err} {type : GoType}
    (ended : wrapStreamError err type = .eol) : err = .eol := by
  cases err <;> first | rfl | simp [wrapStreamError] at ended

theorem addTarget_eq_eol {err : Err} {type : GoType} (ended : addTarget err type = .eol) :
    err = .eol := by
  cases err with
  | decode message target context =>
      simp only [addTarget] at ended
      split_ifs at ended
  | _ => first | rfl | simp [addTarget] at ended

theorem parseWith_heads {read : Parser α} {wrap : Err → Err} {make : α → β} (heads : Heads read)
    (wrapped : ∀ err, wrap err = .eol → err = .eol) : Heads (parseWith read wrap make) := by
  intro stream next ran
  rcases outcome : read stream with ⟨err | content, after⟩
  · simp only [parseWith, outcome, Prod.mk.injEq, Except.error.injEq] at ran
    rw [wrapped err ran.1] at outcome
    exact heads _ _ outcome
  · simp [parseWith, outcome] at ran

theorem parseFor_heads {type : GoType} {read : Parser α} {make : α → β} (heads : Heads read) :
    Heads (parseFor type read make) :=
  parseWith_heads heads fun _ ended => wrapStreamError_eq_eol ended

theorem parseBigInt_heads : Heads parseBigInt := by
  intro stream next ran
  rcases outcome : stream.bytes with ⟨err | content, after⟩
  · simp only [parseBigInt, outcome, Prod.mk.injEq, Except.error.injEq] at ran
    rw [wrapStreamError_eq_eol ran.1] at outcome
    exact bytes_heads _ _ outcome
  · simp only [parseBigInt, outcome] at ran
    split_ifs at ran <;> simp [wrapStreamError] at ran

theorem parseElems_ne_eol {inner : Parser α} {rounds i : Nat} {stream next : Stream} :
    parseElems inner rounds i stream ≠ (.error .eol, next) := by
  induction rounds generalizing i stream next with
  | zero => simp [parseElems]
  | succ rounds ih =>
      intro ran
      rcases outcome : inner stream with ⟨err | item, after⟩
      · cases err <;> simp [parseElems, outcome, addErrorContext] at ran
      · rcases later : parseElems inner rounds (i + 1) after with ⟨err | items, last⟩
        · simp only [parseElems, outcome, later, Prod.mk.injEq, Except.error.injEq] at ran
          rw [ran.1] at later
          exact ih later
        · simp [parseElems, outcome, later] at ran

theorem parseListSlice_heads {fuel : Nat} {type : GoType} {inner : Parser α} :
    Heads (parseListSlice fuel type inner) := by
  intro stream next ran
  rcases opened : stream.list with ⟨err | size, inside⟩
  · simp only [parseListSlice, opened, Prod.mk.injEq, Except.error.injEq] at ran
    rw [wrapStreamError_eq_eol ran.1] at opened
    exact list_heads _ _ opened
  · exfalso
    simp only [parseListSlice, opened] at ran
    split_ifs at ran
    · rcases closed : inside.listEnd with ⟨err | done, last⟩
      · simp only [closed, Prod.mk.injEq, Except.error.injEq] at ran
        rw [ran.1] at closed
        exact listEnd_ne_eol closed
      · simp [closed] at ran
    · rcases outcome : parseElems inner fuel 0 inside with ⟨err | items, after⟩
      · simp only [outcome, Prod.mk.injEq, Except.error.injEq] at ran
        rw [ran.1] at outcome
        exact parseElems_ne_eol outcome
      · rcases closed : after.listEnd with ⟨err | done, last⟩
        · simp only [outcome, closed, Prod.mk.injEq, Except.error.injEq] at ran
          rw [ran.1] at closed
          exact listEnd_ne_eol closed
        · simp [outcome, closed] at ran

theorem parseTuple_ne_eol {type : GoType} {inner : Parser α} {count i : Nat}
    {stream next : Stream} : parseTuple type inner count i stream ≠ (.error .eol, next) := by
  induction count generalizing i stream next with
  | zero => simp [parseTuple]
  | succ count ih =>
      intro ran
      rcases outcome : inner stream with ⟨err | item, after⟩
      · cases err <;> simp [parseTuple, outcome, addErrorContext] at ran
      · rcases later : parseTuple type inner count (i + 1) after with ⟨err | items, last⟩
        · simp only [parseTuple, outcome, later, Prod.mk.injEq, Except.error.injEq] at ran
          rw [ran.1] at later
          exact ih later
        · simp [parseTuple, outcome, later] at ran

theorem parseInList_heads {type : GoType} {body : Parser α}
    (converted : ∀ stream next, body stream ≠ (.error .eol, next)) :
    Heads (parseInList type body) := by
  intro stream next ran
  rcases opened : stream.list with ⟨err | size, inside⟩
  · simp only [parseInList, opened, Prod.mk.injEq, Except.error.injEq] at ran
    rw [wrapStreamError_eq_eol ran.1] at opened
    exact list_heads _ _ opened
  · exfalso
    rcases outcome : body inside with ⟨err | items, after⟩
    · simp only [parseInList, opened, outcome, Prod.mk.injEq, Except.error.injEq] at ran
      rw [ran.1] at outcome
      exact converted _ _ outcome
    · rcases closed : after.listEnd with ⟨err | done, last⟩
      · simp only [parseInList, opened, outcome, closed, Prod.mk.injEq,
          Except.error.injEq] at ran
        rw [wrapStreamError_eq_eol ran.1] at closed
        exact listEnd_ne_eol closed
      · simp [parseInList, opened, outcome, closed] at ran

theorem parseByteArray_heads (length : Nat) : Heads (parseByteArray length) := by
  intro stream next ran
  simp only [parseByteArray] at ran
  rcases header : stream.kind with ⟨err | ⟨kind, size⟩, after⟩
  · simp only [header, Prod.mk.injEq, Except.error.injEq] at ran
    exact ⟨after, by rw [← ran.1]⟩
  · exfalso
    cases kind with
    | byte =>
        simp only [header] at ran
        split_ifs at ran
        · split at ran <;> simp at ran
        · simp [tooLong] at ran
        · simp [tooShort] at ran
    | list => simp [header, wrapStreamError] at ran
    | string =>
        simp only [header] at ran
        split_ifs at ran
        · simp [tooLong] at ran
        · simp [tooShort] at ran
        · rcases reading : after.readFull length with ⟨err | content, last⟩
          · simp only [reading, Prod.mk.injEq, Except.error.injEq] at ran
            rw [ran.1] at reading
            exact Stream.readFull_ne_eol reading
          · simp only [reading] at ran
            split_ifs at ran <;> simp [wrapStreamError] at ran

theorem parseBytes_ne_eol {type : GoType} {parser : Parser α} {b : List Byte}
    (heads : Heads parser) : parseBytes type parser b ≠ .error .eol := by
  intro ran
  rcases outcome : parser (newStream b b.length) with ⟨err | item, next⟩
  · simp only [parseBytes, outcome, Except.error.injEq] at ran
    rw [addTarget_eq_eol ran] at outcome
    obtain ⟨after, ended⟩ := heads _ _ outcome
    exact Stream.newStream_kind_ne_eol ended
  · simp only [parseBytes, outcome] at ran
    split_ifs at ran
    simp at ran

theorem parseByteSlices_ne_eol {fuel : Nat} {b : List Byte} :
    parseByteSlices fuel b ≠ .error .eol :=
  parseBytes_ne_eol parseListSlice_heads

section Entries

variable {fuel : Nat} {type key elem : GoType} {keyParser : Parser α} {elemParser : Parser β}
  (keyHeads : Heads keyParser) (elemHeads : Heads elemParser)

include keyHeads elemHeads

theorem parseEntry_ne_eol {v : List Byte} :
    parseEntry fuel type key elem keyParser elemParser v ≠ .error .eol := by
  intro failed
  rcases slices : parseByteSlices fuel v with err | found
  · rw [parseEntry_failed slices, Except.error.injEq] at failed
    rw [wrapStreamError_eq_eol failed] at slices
    exact parseByteSlices_ne_eol slices
  by_cases two : found.length = 2
  · obtain ⟨kb, vb, rfl⟩ := List.length_eq_two.mp two
    rw [parseEntry_pair slices] at failed
    rcases keyed : parseBytes key keyParser kb with err | keyItem
    · rw [keyed] at failed
      rw [wrapStreamError_eq_eol (Except.error.inj failed)] at keyed
      exact parseBytes_ne_eol keyHeads keyed
    rcases valued : parseBytes elem elemParser vb with err | elemItem
    · simp only [keyed, valued] at failed
      rw [wrapStreamError_eq_eol (Except.error.inj failed)] at valued
      exact parseBytes_ne_eol elemHeads valued
    simp only [keyed, valued] at failed
    cases failed
  · rw [parseEntry_other slices two] at failed
    cases failed

theorem parseEntries_ne_eol {slices : List (List Byte)} :
    parseEntries fuel type key elem keyParser elemParser slices ≠ .error .eol := by
  induction slices with
  | nil => rintro ⟨⟩
  | cons v rest ih =>
      intro ran
      rw [parseEntries_cons] at ran
      split at ran
      · rename_i err failed
        cases ran
        exact parseEntry_ne_eol keyHeads elemHeads failed
      · cases ran
      · split at ran
        · rename_i err failed
          cases ran
          exact ih failed
        · cases ran

end Entries

theorem parseMap_heads {fuel : Nat} {key elem : GoType} {keyParser : Parser α}
    {elemParser : Parser β} (keyHeads : Heads keyParser) (elemHeads : Heads elemParser) :
    Heads (parseMap fuel key elem keyParser elemParser) := by
  intro stream next ran
  rcases outcome : stream.bytes with ⟨err | b, after⟩
  · simp only [parseMap, outcome, Prod.mk.injEq, Except.error.injEq] at ran
    rw [wrapStreamError_eq_eol ran.1] at outcome
    exact bytes_heads _ _ outcome
  · exfalso
    rcases slices : parseByteSlices fuel b with err | bbt
    · simp only [parseMap, outcome, slices, Prod.mk.injEq, Except.error.injEq] at ran
      rw [wrapStreamError_eq_eol ran.1] at slices
      exact parseByteSlices_ne_eol slices
    · simp only [parseMap, outcome, slices, Prod.mk.injEq] at ran
      exact parseEntries_ne_eol keyHeads elemHeads ran.1

def parseOptional (inner : Parser (Option α)) : Parser (Option α) := fun stream =>
  match stream.kind with
  | (.error err, next) => (.error err, next.rearm)
  | (.ok (kind, size), next) =>
      if size = 0 ∧ kind ≠ .byte then (.ok none, next.rearm) else inner next

theorem parseOptional_heads {inner : Parser (Option α)} (heads : Heads inner) :
    Heads (parseOptional inner) := by
  intro stream next ran
  rcases header : stream.kind with ⟨err | ⟨kind, size⟩, after⟩
  · simp only [parseOptional, header, Prod.mk.injEq, Except.error.injEq] at ran
    exact ⟨after, by rw [← ran.1]⟩
  · simp only [parseOptional, header] at ran
    split_ifs at ran
    · simp at ran
    · obtain ⟨last, ended⟩ := heads _ _ ran
      rw [Stream.kind_kind header] at ended
      simp at ended

theorem ptr_choice (elem : GoType) :
    elem = .bigInt ∨ elem = .number ∨
      (∀ nilOK elemdec, ptrDecoder nilOK elem elemdec =
        if nilOK then makeOptionalPtrDecoder elem elemdec else makePtrDecoder elem elemdec) ∧
      (∀ nilOK inner, ptrParser nilOK elem inner =
        if nilOK then parseOptional (parseWith inner id some) else parseWith inner id some) ∧
      ∀ inner, ptrStore elem inner = storePtr elem inner := by
  cases elem with
  | bigInt => exact .inl rfl
  | number => exact .inr (.inl rfl)
  | _ => exact .inr (.inr ⟨fun _ _ => rfl, fun _ _ => rfl, fun _ => rfl⟩)

theorem ptrParser_heads (nilOK : Bool) (elem : GoType) {inner : Parser (Item elem)}
    (heads : Heads inner) : Heads (ptrParser nilOK elem inner) := by
  have direct : Heads (parseWith inner id (some : Item elem → Option (Item elem))) :=
    parseWith_heads heads fun _ ended => ended
  obtain rfl | rfl | ⟨-, choice, -⟩ := ptr_choice elem
  · exact direct
  · exact direct
  · rw [choice]
    split_ifs
    · exact parseOptional_heads direct
    · exact direct

mutual
theorem parse_heads (fuel : Nat) : (type : GoType) → (tags : Tags) → Heads (parse fuel type tags)
  | .uint kind, _ => parseFor_heads (uint_heads kind.bits)
  | .int kind, _ => parseFor_heads (uint_heads kind.bits)
  | .bool, _ => parseFor_heads bool_heads
  | .string, _ => parseFor_heads bytes_heads
  | .bigInt, _ => parseBigInt_heads
  | .number, _ => parseFor_heads bytes_heads
  | .rawValue, _ => parseWith_heads raw_heads fun _ ended => ended
  | .slice elem, tags => by
      cases bytes : elem.isByte with
      | true =>
          obtain rfl := GoType.eq_byte_of_isByte bytes
          exact parseFor_heads bytes_heads
      | false =>
          rw [parse, sliceParser_of_not_byte fuel tags.tail bytes]
          split_ifs
          · intro stream next ran
            exact absurd ran parseElems_ne_eol
          · exact parseListSlice_heads
  | .array length elem, _ => by
      cases bytes : elem.isByte with
      | true =>
          obtain rfl := GoType.eq_byte_of_isByte bytes
          exact parseByteArray_heads length
      | false =>
          rw [parse, arrayParser_of_not_byte length bytes]
          exact parseInList_heads fun _ _ => parseTuple_ne_eol
  | .struct fields, _ => parseInList_heads (parseFields_ne_eol fuel (.struct fields) fields)
  | .ptr elem, tags => ptrParser_heads tags.nilOK elem (parse_heads fuel elem {})
  | .map key elem, _ => parseMap_heads (parse_heads fuel key {}) (parse_heads fuel elem {})

theorem parseFields_ne_eol (fuel : Nat) (type : GoType) : (fields : Fields) →
    (stream next : Stream) → parseFields fuel type fields stream ≠ (.error .eol, next)
  | .nil, stream, next => by simp [parseFields]
  | .cons name tags field rest, stream, next => by
      intro ran
      rcases outcome : parse fuel field tags stream with ⟨err | item, after⟩
      · cases err <;> simp [parseFields, outcome, addErrorContext] at ran
      · rcases later : parseFields fuel type rest after with ⟨err | items, last⟩
        · simp only [parseFields, outcome, later, Prod.mk.injEq, Except.error.injEq] at ran
          rw [ran.1] at later
          exact parseFields_ne_eol fuel type rest _ _ later
        · simp [parseFields, outcome, later] at ran
end

end Bclib.Rlp
