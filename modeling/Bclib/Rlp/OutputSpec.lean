import Bclib.Rlp.Output

namespace Bclib.Rlp

open Data
open Go

/-! Whichever way the buffer leaves, its bytes are the spliced ones. -/

namespace Encbuf

def Laid (str : List Byte) : Nat → List ListHead → Prop
  | strpos, [] => strpos ≤ str.length
  | strpos, head :: heads => strpos ≤ head.offset ∧ Laid str head.offset heads

namespace Laid

theorem mono {str : List Byte} {heads : List ListHead} {early late : Nat}
    (before : early ≤ late) (laid : Laid str late heads) : Laid str early heads := by
  cases heads with
  | nil => exact Nat.le_trans before laid
  | cons head heads => exact ⟨Nat.le_trans before laid.1, laid.2⟩

theorem le_length {str : List Byte} {heads : List ListHead} {strpos : Nat}
    (laid : Laid str strpos heads) : strpos ≤ str.length := by
  induction heads generalizing strpos with
  | nil => exact laid
  | cons head heads ih => exact Nat.le_trans laid.1 (ih laid.2)

theorem of_pieces (pre : List Byte) (pieces : List Piece) :
    Laid (pre ++ strOf pieces) pre.length (headsOf pre.length pieces) := by
  induction pieces generalizing pre with
  | nil => simp [Laid, headsOf]
  | cons piece rest ih =>
      cases piece with
      | data bytes =>
          have later := ih (pre ++ bytes)
          rw [List.length_append, List.append_assoc] at later
          exact later.mono (Nat.le_add_right _ _)
      | head size => exact ⟨Nat.le_refl _, ih pre⟩

theorem reset_addAll (pieces : List Piece) :
    Laid (reset.addAll pieces).str 0 (reset.addAll pieces).lheads := by
  rw [addAll_eq]
  simpa [reset] using of_pieces [] pieces

end Laid

end Encbuf

/-- After a call that returned `err` the writer has taken a prefix of `bytes`:
all of them if there was no error. -/
structure Delivers (out : Sink σ ε) (bytes : List Byte) (before after : σ)
    (err : Option ε) : Prop where
  part : ∃ count, out.taken after = out.taken before ++ bytes.take count
  whole : err = none → out.taken after = out.taken before ++ bytes
  reliable : (∀ state chunk, (out.write state chunk).2.2 = none) → err = none

namespace Delivers

variable {out : Sink σ ε} {first second : List Byte} {before middle after : σ}

theorem write (out : Sink σ ε) (before : σ) (bytes : List Byte) :
    Delivers out bytes before (out.write before bytes).1 (out.write before bytes).2.2 := by
  refine ⟨⟨_, out.taken_write before bytes⟩, fun fine => ?_, fun always => always _ _⟩
  rw [out.taken_write, out.count_eq before bytes fine, List.take_length]

theorem nothing (out : Sink σ ε) (before : σ) : Delivers out [] before before none :=
  ⟨⟨0, by simp⟩, fun _ => by simp, fun _ => rfl⟩

theorem fail {err : ε} (failed : Delivers out first before after (some err))
    (second : List Byte) : Delivers out (first ++ second) before after (some err) := by
  obtain ⟨count, taken⟩ := failed.part
  refine ⟨⟨min count first.length, ?_⟩, (fun fine => nomatch fine), failed.reliable⟩
  rw [List.take_append_of_le_length (Nat.min_le_right _ _), taken, List.take_eq_take_min]

theorem append {err : Option ε} (done : Delivers out first before middle none)
    (rest : Delivers out second middle after err) :
    Delivers out (first ++ second) before after err := by
  obtain ⟨count, taken⟩ := rest.part
  refine ⟨⟨first.length + count, ?_⟩, fun fine => ?_, rest.reliable⟩
  · rw [List.take_length_add_append, taken, done.whole rfl, List.append_assoc]
  · rw [rest.whole fine, done.whole rfl, List.append_assoc]

end Delivers

namespace Encbuf

theorem toWriterFrom_delivers (out : Sink σ ε) (str : List Byte) {heads : List ListHead}
    {strpos : Nat} (laid : Laid str strpos heads) (state : σ) :
    Delivers out (splice str strpos heads) state
      (toWriterFrom out str strpos heads state).1
      (toWriterFrom out str strpos heads state).2 := by
  induction heads generalizing strpos state with
  | nil =>
      rw [toWriterFrom, splice]
      split_ifs with left
      · exact Delivers.write out state (str.drop strpos)
      · rw [List.drop_eq_nil_of_le (Nat.le_of_not_lt left)]
        exact Delivers.nothing out state
  | cons head heads ih =>
      have fits : head.offset ≤ str.length := laid.2.le_length
      -- the string data before the header is skipped when there is none
      have chunk : ∃ middle n err,
          (if strpos < head.offset then
            out.write state ((str.take head.offset).drop strpos)
          else (state, 0, none)) = (middle, n, err) ∧
          (err = none → strpos + n = head.offset) ∧
          Delivers out ((str.take head.offset).drop strpos) state middle err := by
        split_ifs with gap
        · refine ⟨_, _, _, rfl, fun fine => ?_, Delivers.write out state _⟩
          rw [out.count_eq _ _ fine, List.length_drop, List.length_take]
          omega
        · refine ⟨_, _, _, rfl, fun _ => Nat.le_antisymm laid.1 (Nat.le_of_not_lt gap), ?_⟩
          rw [List.drop_eq_nil_of_le (by rw [List.length_take]; omega)]
          exact Delivers.nothing out state
      obtain ⟨middle, n, err, ran, position, before⟩ := chunk
      rw [toWriterFrom, splice, List.append_assoc]
      simp only [ran]
      cases err with
      | some err => exact before.fail _
      | none =>
          refine before.append ?_
          have header := Delivers.write out middle head.encode
          cases failed : (out.write middle head.encode).2.2 with
          | some err =>
              rw [failed] at header
              exact header.fail _
          | none =>
              rw [failed] at header
              rw [position rfl]
              exact header.append (ih laid.2 _)

end Encbuf

namespace EncReader

def pending (r : EncReader) : List Byte :=
  match r.buf with
  | none => []
  | some buf =>
      r.piece.getD [] ++ Encbuf.splice buf.str r.strpos (buf.lheads.drop r.lhpos)

/-- The reader stands in front of the headers it has not given yet, and a piece
kept from an earlier call is not empty. -/
structure Ready (r : EncReader) : Prop where
  laid : ∀ buf, r.buf = some buf →
    Encbuf.Laid buf.str r.strpos (buf.lheads.drop r.lhpos)
  kept : ∀ piece, r.piece = some piece → piece ≠ []

def ahead (buf : Encbuf) (lhpos strpos : Nat) : Nat :=
  match buf.lheads[lhpos]? with
  | some head =>
      2 * (buf.lheads.length - lhpos) + (if strpos < head.offset then 1 else 0)
  | none => if strpos < buf.str.length then 1 else 0

theorem ahead_le (buf : Encbuf) (lhpos strpos : Nat) :
    ahead buf lhpos strpos ≤ 2 * (buf.lheads.length - lhpos) + 1 := by
  unfold ahead
  split <;> split_ifs <;> omega

def work (r : EncReader) : Nat :=
  match r.buf with
  | none => 0
  | some buf => r.piece.toList.length + ahead buf r.lhpos r.strpos

/-- What `next` gives: nothing at the end of the data, or a piece in front of what
is left without it. -/
inductive Gives (r : EncReader) : Option (List Byte) × EncReader → Prop
  | nothing (done : r.pending = []) : Gives r (none, r)
  | piece {piece : List Byte} {rest : EncReader} (nonempty : piece ≠ [])
      (splits : r.pending = piece ++ { rest with piece := none }.pending)
      (keeps : ∀ kept, { rest with piece := some kept }.pending =
        kept ++ { rest with piece := none }.pending)
      (ready : { rest with piece := none }.Ready)
      (less : { rest with piece := none }.work < r.work) : Gives r (some piece, rest)

private theorem pending_kept (buf : Encbuf) (lhpos strpos : Nat) (kept : List Byte) :
    pending ⟨some buf, lhpos, strpos, some kept⟩ =
      kept ++ pending ⟨some buf, lhpos, strpos, none⟩ := rfl

theorem next_gives {r : EncReader} (ready : r.Ready) : r.Gives r.next := by
  obtain ⟨buf, lhpos, strpos, piece⟩ := r
  cases buf with
  | none => exact .nothing rfl
  | some buf =>
      cases piece with
      | some piece =>
          refine .piece (ready.kept piece rfl) rfl (pending_kept buf lhpos strpos)
            ⟨ready.laid, fun _ absent => by cases absent⟩ ?_
          simp [work]
      | none =>
          have laid := ready.laid buf rfl
          simp only [next]
          cases found : buf.lheads[lhpos]? with
          | some head =>
              obtain ⟨inside, here⟩ := List.getElem?_eq_some_iff.mp found
              have front : buf.lheads.drop lhpos = head :: buf.lheads.drop (lhpos + 1) := by
                rw [List.drop_eq_getElem_cons inside, here]
              simp only [front] at laid
              have fits := laid.2.le_length
              simp only
              split_ifs with gap
              · -- the string data before the header
                refine .piece ?_ ?_ (pending_kept buf lhpos head.offset)
                  ⟨fun other same => ?_, fun _ absent => by cases absent⟩ ?_
                · rw [← List.length_pos_iff, List.length_drop, List.length_take]
                  omega
                · simp [pending, front, Encbuf.splice, List.drop_eq_nil_of_le]
                · obtain rfl := Option.some.inj same
                  simp only [front]
                  exact ⟨Nat.le_refl _, laid.2⟩
                · simp [work, ahead, found, gap]
              · -- the header itself
                have here : strpos = head.offset :=
                  Nat.le_antisymm laid.1 (Nat.le_of_not_lt gap)
                subst here
                refine .piece (puthead_ne_nil _ _ _) ?_
                  (pending_kept buf (lhpos + 1) head.offset)
                  ⟨fun other same => ?_, fun _ absent => by cases absent⟩ ?_
                · simp [pending, front, Encbuf.splice, List.drop_eq_nil_of_le]
                · obtain rfl := Option.some.inj same
                  exact laid.2
                · have later := ahead_le buf (lhpos + 1) head.offset
                  simp only [work, Option.toList_none, List.length_nil, Nat.zero_add]
                  have now : ahead buf lhpos head.offset =
                      2 * (buf.lheads.length - lhpos) := by simp [ahead, found]
                  omega
          | none =>
              have past : buf.lheads.length ≤ lhpos := List.getElem?_eq_none_iff.mp found
              simp only
              split_ifs with left
              · refine .piece ?_ ?_ (pending_kept buf lhpos buf.str.length)
                  ⟨fun other same => ?_, fun _ absent => by cases absent⟩ ?_
                · rw [← List.length_pos_iff, List.length_drop]
                  omega
                · simp [pending, List.drop_eq_nil_of_le past, Encbuf.splice]
                · obtain rfl := Option.some.inj same
                  simp [List.drop_eq_nil_of_le past, Encbuf.Laid]
                · simp [work, ahead, found, left]
              · refine .nothing ?_
                simp [pending, List.drop_eq_nil_of_le past, Encbuf.splice,
                  Nat.le_of_not_lt left]

theorem readLoop_eq {fuel : Nat} {r : EncReader} (ready : r.Ready) (enough : r.work < fuel)
    (room : Nat) :
    ∃ after, readLoop fuel r room =
        some (after, r.pending.take room, decide (r.pending.length ≤ room)) ∧
      after.Ready ∧ after.pending = r.pending.drop room := by
  induction fuel generalizing r room with
  | zero => omega
  | succ fuel ih =>
      have gives := next_gives ready
      rw [readLoop]
      cases gave : r.next with
      | mk given rest =>
          rw [gave] at gives
          cases gives with
          | nothing done =>
              refine ⟨{ r with buf := none, piece := none }, by simp [done], ?_, ?_⟩
              · exact ⟨(fun _ absent => nomatch absent), (fun _ absent => nomatch absent)⟩
              · rw [done, List.drop_nil]
                rfl
          | @piece piece _ nonempty splits keeps restReady less =>
              simp only
              split_ifs with tight
              · refine ⟨{ rest with piece := some (piece.drop room) }, ?_,
                  ⟨restReady.laid, ?_⟩, ?_⟩
                · rw [splits, List.take_append_of_le_length (Nat.le_of_lt tight),
                    decide_eq_false (by rw [List.length_append]; omega)]
                · rintro kept same
                  obtain rfl := Option.some.inj same
                  rw [← List.length_pos_iff, List.length_drop]
                  omega
                · rw [keeps, splits, List.drop_append_of_le_length (Nat.le_of_lt tight)]
              · have wide := Nat.le_of_not_lt tight
                obtain ⟨after, ran, afterReady, left⟩ :=
                  ih restReady (by omega) (room - piece.length)
                refine ⟨after, ?_, afterReady, ?_⟩
                · rw [ran, splits, List.take_append, List.take_of_length_le wide]
                  simp only [List.length_append, Option.some.injEq, Prod.mk.injEq, true_and,
                    decide_eq_decide]
                  omega
                · rw [left, splits, List.drop_append, List.drop_eq_nil_of_le wide,
                    List.nil_append]

theorem work_lt_rounds (r : EncReader) : r.work < r.rounds := by
  obtain ⟨buf, lhpos, strpos, piece⟩ := r
  cases buf with
  | none => simp [work, rounds]
  | some buf =>
      have one : piece.toList.length ≤ 1 := by cases piece <;> simp
      have rest := ahead_le buf lhpos strpos
      simp only [work, rounds]
      omega

theorem read_eq {r : EncReader} (ready : r.Ready) (size : Nat) :
    ∃ after, r.read size =
        some (after, r.pending.take size, decide (r.pending.length ≤ size)) ∧
      after.Ready ∧ after.pending = r.pending.drop size :=
  readLoop_eq ready (work_lt_rounds r) size

def slices : List Byte → List Nat → List (List Byte × Bool)
  | _, [] => []
  | bytes, size :: sizes =>
      (bytes.take size, decide (bytes.length ≤ size)) :: slices (bytes.drop size) sizes

theorem reads_eq {r : EncReader} (ready : r.Ready) (sizes : List Nat) :
    r.reads sizes = some (slices r.pending sizes) := by
  induction sizes generalizing r with
  | nil => rfl
  | cons size sizes ih =>
      obtain ⟨after, ran, afterReady, left⟩ := read_eq ready size
      rw [reads, ran]
      simp only [ih afterReady, left, slices]

theorem slices_flatten (bytes : List Byte) (sizes : List Nat) :
    ((slices bytes sizes).map Prod.fst).flatten = bytes.take sizes.sum := by
  induction sizes generalizing bytes with
  | nil => simp [slices]
  | cons size sizes ih =>
      rw [slices, List.map_cons, List.flatten_cons, ih, List.sum_cons, List.take_add]

theorem slices_eof (bytes : List Byte) {sizes : List Nat} (some : sizes ≠ []) :
    (∃ result ∈ slices bytes sizes, result.2 = true) ↔ bytes.length ≤ sizes.sum := by
  induction sizes generalizing bytes with
  | nil => exact absurd rfl some
  | cons size sizes ih =>
      simp only [slices, List.exists_mem_cons_iff, decide_eq_true_eq, List.sum_cons]
      cases sizes with
      | nil => simp [slices]
      | cons next sizes =>
          rw [ih (bytes.drop size) (List.cons_ne_nil _ _), List.length_drop]
          omega

end EncReader

/-- Bytes are one string; other elements follow each other, behind a header unless
they are the tail of a struct. -/
def encElems (tail : Bool) :
    (elem : GoType) → (Value elem → List Byte) → List (Value elem) → List Byte
  | .uint .uint8, _, content => wireString content
  | _, inner, values =>
      if tail then values.flatMap inner else wireList (values.flatMap inner)

mutual
/-- The specification: a list is the header for the length of its payload and the
encodings of its elements one after the other. -/
def enc : (type : GoType) → Tags → Value type → List Byte
  | .uint _, _, (value : BitVec _) => wireUint value.toNat
  | .int _, _, (value : BitVec _) => wireUint value.toNat
  | .bool, _, (value : Bool) => wireUint value.toNat
  | .string, _, value => wireString value
  | .bigInt, _, (value : Int) => wireUint value.natAbs
  | .number, _, value => wireString (Bn.bytes value)
  | .rawValue, _, (value : List Byte) => value
  | .slice elem, tags, value => encElems tags.tail elem (enc elem {}) value
  | .array _ elem, _, value => encElems false elem (enc elem {}) value.1
  | .struct fields, _, value => wireList (encFields fields value)
  | .ptr elem, _, (value : Option (Value elem)) =>
      match value with
      | none => render (nilPieces elem [.data (enc elem {} (zeroValue elem))])
      | some value => enc elem {} value
  | .map key elem, _, value =>
      wireString (wireList ((sortEntries key value).flatMap fun entry =>
        entryBytes (enc key {} entry.1) (enc elem {} entry.2)))

def encFields : (fields : Fields) → FieldValues fields → List Byte
  | .nil, _ => []
  | .cons _ tags type rest, value => enc type tags value.1 ++ encFields rest value.2
end

theorem encElems_eq (tail : Bool) {elem : GoType} {inner : Value elem → List Byte}
    (each : ∀ value, inner value = render (pieces elem {} (itemOf elem value)))
    (values : List (Value elem)) :
    encElems tail elem inner values =
      render (slicePieces tail elem (pieces elem {}) (values.map (itemOf elem))) := by
  cases bytes : elem.isByte with
  | true =>
      obtain rfl := GoType.eq_byte_of_isByte bytes
      have identity : values.map (itemOf GoType.byte) = values := List.map_id values
      rw [identity]
      exact (List.append_nil _).symm
  | false =>
      have chosen : encElems tail elem inner values =
          if tail then values.flatMap inner else wireList (values.flatMap inner) := by
        cases elem with
        | uint kind => cases kind <;> first | rfl | simp [GoType.isByte] at bytes
        | _ => rfl
      have joined : values.flatMap inner =
          render ((values.map (itemOf elem)).flatMap (pieces elem {})) := by
        rw [List.flatMap_map, render_flatMap]
        exact congrArg (values.flatMap ·) (funext each)
      rw [chosen, slicePieces_of_not_byte tail bytes, joined]
      cases tail <;> rfl

private theorem render_nilPieces (elem : GoType) (zero : List Piece) :
    render (nilPieces elem [.data (render zero)]) = render (nilPieces elem zero) := by
  cases elem <;> first | rfl | simp [nilPieces, Piece.bytes]

mutual
theorem enc_eq : (type : GoType) → (tags : Tags) → (value : Value type) →
    enc type tags value = render (pieces type tags (itemOf type value))
  | .uint _, _, _ => (List.append_nil _).symm
  | .int _, _, _ => (List.append_nil _).symm
  | .bool, _, _ => (List.append_nil _).symm
  | .string, _, _ => (List.append_nil _).symm
  | .bigInt, _, _ => (List.append_nil _).symm
  | .number, _, _ => (List.append_nil _).symm
  | .rawValue, _, _ => (List.append_nil _).symm
  | .slice elem, tags, value => encElems_eq tags.tail (enc_eq elem {}) value
  | .array _ elem, _, value => encElems_eq false (enc_eq elem {}) value.1
  | .struct fields, _, value =>
      (congrArg wireList (encFields_eq fields value)).trans (render_listPieces _).symm
  | .ptr elem, _, none =>
      (congrArg (fun zero => render (nilPieces elem [.data zero]))
        (enc_eq elem {} (zeroValue elem))).trans (render_nilPieces elem _)
  | .ptr elem, _, some value => enc_eq elem {} value
  | .map key elem, tags, value => by
      have entries : ((sortEntries key value).map fun entry =>
            (itemOf key entry.1, itemOf elem entry.2)).flatMap (fun entry =>
              entryBytes (render (pieces key {} entry.1))
                (render (pieces elem {} entry.2))) =
          (sortEntries key value).flatMap fun entry =>
            entryBytes (enc key {} entry.1) (enc elem {} entry.2) := by
        rw [List.flatMap_map]
        refine congrArg ((sortEntries key value).flatMap ·) (funext fun entry => ?_)
        rw [enc_eq key {} entry.1, enc_eq elem {} entry.2]
      exact (congrArg (fun payload => wireString (wireList payload)) entries.symm).trans
        (List.append_nil _).symm

theorem encFields_eq : (fields : Fields) → (value : FieldValues fields) →
    encFields fields value = render (fieldPieces fields (fieldItemsOf fields value))
  | .nil, _ => rfl
  | .cons _ tags type rest, value => by
      rw [fieldPieces_fieldItemsOf, render_append, ← enc_eq type tags value.1,
        ← encFields_eq rest value.2]
      rfl
end

mutual
/-- Nested slices, arrays and structs of integers, booleans, strings and bytes. -/
def dataOnly : GoType → Bool
  | .uint _ | .int _ | .bool | .string => true
  | .slice elem | .array _ elem => dataOnly elem
  | .struct fields => dataFields fields
  | .bigInt | .number | .rawValue | .ptr _ | .map _ _ => false

def dataFields : Fields → Bool
  | .nil => true
  | .cons _ _ type rest => dataOnly type && dataFields rest
end

mutual
theorem nonNegative_of_dataOnly : (type : GoType) → dataOnly type = true →
    (value : Value type) → NonNegative type value
  | .uint _, _, _ | .int _, _, _ | .bool, _, _ | .string, _, _ => trivial
  | .slice elem, plain, _ => fun inner _ => nonNegative_of_dataOnly elem plain inner
  | .array _ elem, plain, _ => fun inner _ => nonNegative_of_dataOnly elem plain inner
  | .struct fields, plain, value => fieldsNonNegative_of_dataFields fields plain value

theorem fieldsNonNegative_of_dataFields : (fields : Fields) → dataFields fields = true →
    (value : FieldValues fields) → FieldsNonNegative fields value
  | .nil, _, _ => trivial
  | .cons _ _ type rest, plain, value =>
      have ⟨first, others⟩ := (Bool.and_eq_true _ _).mp plain
      ⟨nonNegative_of_dataOnly type first value.1,
        fieldsNonNegative_of_dataFields rest others value.2⟩
end

section Outputs

variable {type : GoType} {value : Value type}

theorem makeWriter_reset (nonnegative : NonNegative type value)
    (fits : (enc type {} value).length < maxLen) :
    makeWriter type {} value .reset =
      .ok (Encbuf.reset.addAll (pieces type {} (itemOf type value))) :=
  (makeWriter_writes type {} value (enc_eq type {} value ▸ fits)).adds nonnegative .reset

theorem encode_delivers (nonnegative : NonNegative type value)
    (fits : (enc type {} value).length < maxLen) (out : Sink σ ε) (state : σ) :
    ∃ after err, encode out type value state = (after, Option.map .inr err) ∧
      Delivers out (enc type {} value) state after err := by
  have delivered := Encbuf.toWriterFrom_delivers out _
    (Encbuf.Laid.reset_addAll (pieces type {} (itemOf type value))) state
  rw [← Encbuf.toBytes, Encbuf.toBytes_reset_addAll, ← enc_eq] at delivered
  refine ⟨_, _, ?_, delivered⟩
  rw [encode, makeWriter_reset nonnegative fits]
  rfl

theorem encodeToReader_eq (nonnegative : NonNegative type value)
    (fits : (enc type {} value).length < maxLen) :
    ∃ r : EncReader, encodeToReader type value = .ok ((enc type {} value).length, r) ∧
      r.Ready ∧ r.pending = enc type {} value := by
  have writes := makeWriter_writes type {} value (enc_eq type {} value ▸ fits)
  refine ⟨⟨some (Encbuf.reset.addAll (pieces type {} (itemOf type value))), 0, 0, none⟩,
    ?_, ⟨fun buf same => ?_, (fun _ absent => nomatch absent)⟩, ?_⟩
  · simp only [encodeToReader, makeWriter_reset nonnegative fits,
      Encbuf.size_addAll _ writes.short, enc_eq]
    simp [Encbuf.size, Encbuf.reset]
  · obtain rfl := Option.some.inj same
    exact Encbuf.Laid.reset_addAll _
  · rw [enc_eq, ← Encbuf.toBytes_reset_addAll]
    rfl

end Outputs

/-- All output paths produce the compositional encoding: at once, through any
writer, and read back with buffers of any sizes. -/
theorem outputs_compositional {type : GoType} (plain : dataOnly type = true)
    (value : Value type) (fits : (enc type {} value).length < maxLen) :
    encodeToBytes type value = .ok (enc type {} value) ∧
    (∀ (σ ε : Type) (out : Sink σ ε) (state : σ), ∃ after err,
      encode out type value state = (after, Option.map .inr err) ∧
        Delivers out (enc type {} value) state after err) ∧
    ∃ r : EncReader, encodeToReader type value = .ok ((enc type {} value).length, r) ∧
      ∀ sizes : List Nat, ∃ results, r.reads sizes = some results ∧
        (results.map Prod.fst).flatten = (enc type {} value).take sizes.sum ∧
        (sizes ≠ [] → ((∃ result ∈ results, result.2 = true) ↔
          (enc type {} value).length ≤ sizes.sum)) := by
  have nonnegative := nonNegative_of_dataOnly type plain value
  refine ⟨?_, fun σ ε out state => encode_delivers nonnegative fits out state, ?_⟩
  · rw [enc_eq] at fits ⊢
    exact encodeToBytes_eq nonnegative fits
  · obtain ⟨r, made, ready, all⟩ := encodeToReader_eq nonnegative fits
    refine ⟨r, made, fun sizes => ⟨_, EncReader.reads_eq ready sizes, ?_, fun some => ?_⟩⟩
    · rw [EncReader.slices_flatten, all]
    · rw [EncReader.slices_eof _ some, all]

def nestedType : GoType := .slice (.slice (.uint .uint64))

def nestedValue : Value nestedType := ([[1, 1024], []] : List (List (BitVec 64)))

theorem outputs_compositional_nested :
    dataOnly nestedType = true ∧
      encodeToBytes nestedType nestedValue =
        .ok [0xC6, 0xC4, 0x01, 0x82, 0x04, 0x00, 0xC0] ∧
      encode bytesBuffer nestedType nestedValue [0xFF] =
        ([0xFF, 0xC6, 0xC4, 0x01, 0x82, 0x04, 0x00, 0xC0], none) ∧
      ∃ r, encodeToReader nestedType nestedValue = .ok (7, r) ∧
        ∃ results, r.reads [3, 0, 2] = some results ∧
          (results.map Prod.fst).flatten = [0xC6, 0xC4, 0x01, 0x82, 0x04] := by
  have bytes : enc nestedType {} nestedValue =
      [0xC6, 0xC4, 0x01, 0x82, 0x04, 0x00, 0xC0] := by decide +kernel
  obtain ⟨whole, writes, r, made, reads⟩ :=
    @outputs_compositional nestedType rfl nestedValue
      (by rw [bytes]; decide)
  obtain ⟨after, err, ran, delivered⟩ := writes _ _ bytesBuffer [0xFF]
  obtain ⟨results, read, flat, -⟩ := reads [3, 0, 2]
  rw [bytes] at whole made flat delivered
  obtain rfl : err = none := delivered.reliable fun _ _ => rfl
  refine ⟨rfl, whole, ?_, r, made, results, read, flat⟩
  rw [ran]
  exact congrArg (·, none) (delivered.whole rfl)

end Bclib.Rlp
