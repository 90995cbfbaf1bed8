import Bclib.Rlp.Reads
import Bclib.Rlp.Writers

namespace Bclib.Rlp

open Data
open Go

/-! Each decoder reads the format its writer writes. -/

theorem Fills.nothing {fuel : Nat} {strict : Prop} {spell : α → List Byte}
    {good : α → Prop} {item : α} (only : ∀ other, other = item)
    (empty : spell item = []) (fits : good item) :
    Fills fuel (fun stream => (.ok item, stream)) spell good strict where
  complete {stream items} sound armed nested enough _ content := by
    rw [only items, empty]
    exact ⟨stream, rfl, Stream.Advanced.refl armed⟩
  accepts {stream next items} sound armed nested enough ran := by
    simp only [Prod.mk.injEq, Except.ok.injEq] at ran
    obtain ⟨rfl, rfl⟩ := ran
    refine ⟨fits, 0, Stream.Advanced.refl armed, fun _ => ?_⟩
    rw [empty]
    exact ⟨rfl, _, rfl⟩
  refuses sound armed nested enough ran := by
    simp at ran

section Tuples

variable {fuel : Nat} {inner : Parser α} {spell : α → List Byte} {good : α → Prop}
variable {strict : Prop}

theorem parseTuple_fills (reads : Reads fuel inner spell good strict) (type : GoType)
    (count i : Nat) :
    Fills fuel (parseTuple type inner count i) (fun items => items.1.flatMap spell)
      (fun items => ∀ item ∈ items.1, good item) strict := by
  induction count generalizing i with
  | zero =>
      apply Fills.nothing
      · rintro ⟨other, length⟩
        simp [List.length_eq_zero_iff.mp length]
      · rfl
      · simp
  | succ count ih =>
      refine Fills.cons (.decode "input list has too few elements" type [])
        (fun item items => ⟨item :: items.1, by simp [items.2]⟩)
        reads (ih (i + 1)) (decode_ordinary _ _ _) (fun plain => plain.addContext (.index i))
        ?_ (fun _ _ => rfl) (by simp) ?_ ?_ ?_
      · rintro ⟨items, length⟩
        cases items with
        | nil => simp at length
        | cons item items => exact ⟨item, ⟨items, by simpa using length⟩, rfl⟩
      · intro stream next ran
        simp only [parseTuple, ran]
      · intro stream next err ran other
        cases err <;> first | exact absurd rfl other | simp only [parseTuple, ran]
      · intro stream next item ran
        simp only [parseTuple, ran]
        rcases parseTuple type inner count (i + 1) next with ⟨result | result, last⟩ <;> rfl

end Tuples

theorem parseByteArray_string {stream : Stream} {length size : Nat} {rest : List Byte}
    (sound : stream.Sound) (content : stream.window = Stream.headOf .string size 0 ++ rest)
    (room : size ≤ rest.length)
    (outcome : stream.kind = (.ok (.string, size), stream.headed .string size 0)) :
    (∃ err, err.Ordinary ∧
        parseByteArray length stream = (.error err, stream.headed .string size 0)) ∨
      ∃ filled : (rest.take size).length = length, parseByteArray length stream =
        (if size = 1 ∧ ((rest.take size).headD 0).toNat < 128 then
          .error (wrapStreamError .canonSize (.array length .byte))
        else .ok ⟨rest.take size, filled⟩, (stream.headed .string size 0).advance size) := by
  rcases Nat.lt_trichotomy length size with long | rfl | short
  · exact .inl ⟨tooLong (.array length .byte), decode_ordinary _ _ _, by
      simp only [parseByteArray, outcome, if_pos long]⟩
  · have filled : (rest.take length).length = length := by
      rw [List.length_take, Nat.min_eq_left room]
    refine .inr ⟨filled, ?_⟩
    simp only [parseByteArray, outcome, Nat.lt_irrefl, if_false,
      Stream.readFull_headed sound content room, dif_pos filled]
    split_ifs <;> rfl
  · exact .inl ⟨tooShort (.array length .byte), decode_ordinary _ _ _, by
      simp only [parseByteArray, outcome, if_neg (Nat.lt_asymm short), if_pos short]⟩

theorem parseByteArray_other {stream next : Stream} {kind : Kind} {length size : Nat}
    (outcome : stream.kind = (.ok (kind, size), next)) (other : kind ≠ .string)
    (several : kind = .byte → length ≠ 1) :
    ∃ err, err.Ordinary ∧ parseByteArray length stream = (.error err, next) := by
  cases kind with
  | string => exact absurd rfl other
  | list =>
      refine ⟨wrapStreamError .expectedString (.array length .byte), decode_ordinary _ _ _, ?_⟩
      simp only [parseByteArray, outcome]
  | byte =>
      simp only [parseByteArray, outcome, dif_neg (several rfl)]
      split_ifs
      · exact ⟨_, decode_ordinary _ _ _, rfl⟩
      · exact ⟨_, decode_ordinary _ _ _, rfl⟩

theorem parseByteArray_reads (fuel : Nat) {length : Nat} (several : length ≠ 1) :
    Reads fuel (parseByteArray length) (fun content => wireString content.1)
      (fun _ => True) True where
  complete {stream item rest} sound armed enough _ content := by
    obtain ⟨bytes, rfl⟩ := item
    have headed : ¬ IsSingle bytes := fun single => several single.1
    have spelled := wireString_of_not_single headed
    dsimp only at content ⊢
    rw [spelled, List.append_assoc] at content
    have ahead := (Stream.kind_eq_ok_iff sound armed .string bytes.length).mpr
      ⟨0, bytes ++ rest, content, by simp, rfl, rfl⟩
    refine ⟨(stream.headed .string bytes.length 0).advance bytes.length, ?_, ?_⟩
    · have filled := @Stream.readFull_headed stream sound .string bytes.length 0 _ content
        bytes.length (by simp)
      rw [List.take_left] at filled
      simp only [parseByteArray, ahead, Nat.lt_irrefl, if_false, filled, several, false_and,
        dif_pos]
    · rw [spelled, List.length_append]
      exact Stream.advanced_of_headed sound .string _ _ content (by simp) rfl rfl rfl
        rfl rfl
  accepts {stream next item} sound armed enough ran := by
    rcases outcome : stream.kind with ⟨err | ⟨kind, size⟩, after⟩
    · simp [parseByteArray, outcome] at ran
    obtain ⟨byte, rest, content, room, valid, rfl⟩ :=
      (Stream.kind_eq_ok_iff sound armed _ _).mp outcome
    by_cases isString : kind = .string
    · subst isString valid
      rcases @parseByteArray_string _ length _ _ sound content room outcome with
        ⟨err, -, failed⟩ | ⟨filled, read⟩
      · rw [failed] at ran
        simp at ran
      · obtain rfl : size = length := by rw [← filled, List.length_take, Nat.min_eq_left room]
        simp only [read, several, false_and, if_false, Prod.mk.injEq, Except.ok.injEq] at ran
        obtain ⟨rfl, rfl⟩ := ran
        have headed : ¬ IsSingle (rest.take size) :=
          fun single => several (filled ▸ single.1)
        have spelled := wireString_of_not_single headed
        rw [filled] at spelled
        dsimp only
        refine ⟨trivial, _, wireString_length_pos _, ?_, fun _ => ⟨rfl, ?_⟩⟩
        · rw [spelled, List.length_append, filled]
          exact Stream.advanced_of_headed sound .string _ _ content room rfl rfl rfl rfl rfl
        · refine ⟨rest.drop size, ?_⟩
          rw [spelled, List.append_assoc, List.take_append_drop]
          exact content
    · obtain ⟨err, -, failed⟩ := parseByteArray_other outcome isString fun _ => several
      rw [failed] at ran
      simp at ran
  refuses {stream next err} sound armed enough ran := by
    rcases outcome : stream.kind with ⟨kindErr | ⟨kind, size⟩, after⟩
    · simp only [parseByteArray, outcome, Prod.mk.injEq, Except.error.injEq] at ran
      obtain ⟨rfl, rfl⟩ := ran
      exact Stream.refused_of_kind sound armed outcome
    obtain ⟨byte, rest, content, room, valid, rfl⟩ :=
      (Stream.kind_eq_ok_iff sound armed _ _).mp outcome
    by_cases isString : kind = .string
    · subst isString valid
      rcases @parseByteArray_string _ length _ _ sound content room outcome with
        ⟨found, ordinary, failed⟩ | ⟨filled, read⟩
      · rw [failed] at ran
        cases ran
        exact .inr ordinary
      · obtain rfl : size = length := by rw [← filled, List.length_take, Nat.min_eq_left room]
        simp [read, several] at ran
    · obtain ⟨found, ordinary, failed⟩ := parseByteArray_other outcome isString fun _ => several
      rw [failed] at ran
      cases ran
      exact .inr ordinary
  ends {stream} sound armed atEnd := by
    obtain ⟨next, ran, stayed⟩ := Stream.kind_ends sound armed atEnd
    exact ⟨next, by simp only [parseByteArray, ran], stayed⟩
  nonempty _ := wireString_length_pos _

theorem parseBigInt_reads (fuel : Nat) :
    Reads fuel parseBigInt wireUint (fun _ => True) True where
  complete {stream item rest} sound armed enough _ content := by
    obtain ⟨next, ran, moved⟩ := Stream.bytes_complete sound armed content
    refine ⟨next, ?_, moved⟩
    simp only [parseBigInt, ran, if_neg (bigEndian_noLeadingZero item),
      ofBigEndian_bigEndian]
  accepts {stream next item} sound armed enough ran := by
    rcases outcome : stream.bytes with ⟨result, after⟩
    cases result with
    | error err => simp [parseBigInt, outcome] at ran
    | ok bytes =>
        simp only [parseBigInt, outcome] at ran
        split_ifs at ran with leading
        · simp at ran
        · simp only [Prod.mk.injEq, Except.ok.injEq] at ran
          obtain ⟨rfl, rfl⟩ := ran
          have minimal : bigEndian (ofBigEndian bytes) = bytes :=
            bigEndian_ofBigEndian leading
          obtain ⟨content, moved⟩ := Stream.bytes_sound sound armed outcome
          rw [wireUint, minimal]
          exact ⟨trivial, _, wireString_length_pos _, moved, fun _ => ⟨rfl, content⟩⟩
  refuses {stream next err} sound armed enough ran := by
    rcases outcome : stream.bytes with ⟨result, after⟩
    cases result with
    | error bytesErr =>
        simp only [parseBigInt, outcome, Prod.mk.injEq, Except.error.injEq] at ran
        obtain ⟨rfl, rfl⟩ := ran
        exact (Stream.bytes_error sound armed outcome).wrap _
    | ok bytes =>
        simp only [parseBigInt, outcome] at ran
        split_ifs at ran
        · simp only [Prod.mk.injEq, Except.error.injEq] at ran
          exact .inr (ran.1 ▸ decode_ordinary _ _ _)
        · simp at ran
  ends {stream} sound armed atEnd := by
    obtain ⟨next, ran, stayed⟩ := Stream.bytes_ends sound armed atEnd
    refine ⟨next, ?_, stayed⟩
    simp only [parseBigInt, ran]
    rfl
  nonempty _ := wireString_length_pos _

theorem Reads.pointer {fuel : Nat} {inner : Parser α} {spell : α → List Byte}
    {good : α → Prop} {strict : Prop} (reads : Reads fuel inner spell good strict)
    {spellPtr : Option α → List Byte} {goodPtr : Option α → Prop}
    (spelled : ∀ item, spellPtr (some item) = spell item)
    (present : ∀ item, goodPtr (some item) ↔ good item) (absent : ¬ goodPtr none) :
    Reads fuel (parseWith inner id some) spellPtr goodPtr strict where
  complete {stream item rest} sound armed enough fits content := by
    cases item with
    | none => exact absurd fits absent
    | some item =>
        rw [spelled] at content ⊢
        obtain ⟨next, ran, moved⟩ :=
          reads.complete sound armed enough ((present item).mp fits) content
        exact ⟨next, by simp only [parseWith, ran], moved⟩
  accepts {stream next item} sound armed enough ran := by
    rcases outcome : inner stream with ⟨result, after⟩
    cases result with
    | error err => simp [parseWith, outcome] at ran
    | ok found =>
        simp only [parseWith, outcome, Prod.mk.injEq, Except.ok.injEq] at ran
        obtain ⟨rfl, rfl⟩ := ran
        rw [present, spelled]
        exact reads.accepts sound armed enough outcome
  refuses {stream next err} sound armed enough ran := by
    rcases outcome : inner stream with ⟨result, after⟩
    cases result with
    | error innerErr =>
        simp only [parseWith, outcome, id, Prod.mk.injEq, Except.error.injEq] at ran
        obtain ⟨rfl, rfl⟩ := ran
        exact reads.refuses sound armed enough outcome
    | ok found => simp [parseWith, outcome] at ran
  ends {stream} sound armed atEnd := by
    obtain ⟨next, ran, stayed⟩ := reads.ends sound armed atEnd
    exact ⟨next, by simp only [parseWith, ran, id], stayed⟩
  nonempty {item} fits := by
    cases item with
    | none => exact absurd fits absent
    | some item =>
        rw [spelled]
        exact reads.nonempty ((present item).mp fits)

section Whole

variable {fuel : Nat} {parser : Parser α} {spell : α → List Byte} {good : α → Prop}
variable {strict : Prop}

theorem parseBytes_complete (reads : Reads fuel parser spell good strict)
    (type : GoType) {item : α} (fits : good item) (short : (spell item).length < maxLen)
    (enough : (spell item).length < fuel) :
    parseBytes type parser (spell item) = .ok item := by
  obtain ⟨next, ran, moved⟩ := reads.complete (newStream_sound short) rfl
    (by rw [newStream_avail]; exact enough) fits
    (by rw [newStream_window, List.append_nil])
  have consumed : next.input = [] := by
    rw [moved.input]
    exact List.drop_length
  simp [parseBytes, ran, consumed]

theorem parseBytes_accepts (reads : Reads fuel parser spell good strict)
    {type : GoType} {b : List Byte} {item : α} (short : b.length < maxLen)
    (enough : b.length < fuel) (ran : parseBytes type parser b = .ok item) :
    good item ∧ (strict → b = spell item) := by
  rcases outcome : parser (newStream b b.length) with ⟨result, next⟩
  cases result with
  | error err => simp [parseBytes, outcome] at ran
  | ok found =>
      simp only [parseBytes, outcome] at ran
      split_ifs at ran with trailing
      cases ran
      obtain ⟨fits, count, positive, moved, exactly⟩ :=
        reads.accepts (newStream_sound short) rfl (by rw [newStream_avail]; exact enough)
          outcome
      refine ⟨fits, fun holds => ?_⟩
      obtain ⟨spelled, rest, content⟩ := exactly holds
      rw [newStream_window] at content
      have left : next.input = rest := by
        rw [moved.input, spelled]
        change b.drop (spell item).length = rest
        rw [content, List.drop_left]
      have nothing : rest = [] := by
        rw [← left]
        exact List.length_eq_zero_iff.mp (by omega)
      rw [content, nothing, List.append_nil]

theorem parseBytes_refuses (reads : Reads fuel parser spell good strict)
    {type : GoType} {b : List Byte} {err : Err} (short : b.length < maxLen)
    (enough : b.length < fuel) (ran : parseBytes type parser b = .error err) :
    err.Ordinary := by
  rcases outcome : parser (newStream b b.length) with ⟨result, next⟩
  cases result with
  | error innerErr =>
      simp only [parseBytes, outcome, Except.error.injEq] at ran
      rcases reads.refuses (newStream_sound short) rfl
        (by rw [newStream_avail]; exact enough) outcome with ⟨_, atEnd, _⟩ | ordinary
      · exact absurd rfl atEnd.1
      · exact ran ▸ ordinary.addTarget type
  | ok found =>
      simp only [parseBytes, outcome] at ran
      split_ifs at ran
      cases ran
      decide

end Whole

theorem length_lt_of_mem_byteSlices {slices : List (List Byte)} {slice : List Byte}
    (member : slice ∈ slices) :
    slice.length < (wireList (slices.flatMap wireString)).length := by
  obtain ⟨before, after, rfl⟩ := List.append_of_mem member
  have outer := length_lt_wireList ((before ++ slice :: after).flatMap wireString)
  have inner := length_le_wireString slice
  simp only [List.flatMap_append, List.flatMap_cons, List.length_append] at outer
  simp only [List.flatMap_append, List.flatMap_cons]
  omega

theorem byteSlice_reads (fuel : Nat) :
    Reads fuel (parseFor (.slice .byte) Stream.bytes id) wireString (fun _ => True)
      True :=
  Reads.bytes.parseFor (.slice .byte) (fun _ _ => ⟨trivial, rfl⟩)
    (fun _ _ => ⟨trivial, rfl⟩)

theorem byteSlices_reads (fuel : Nat) :
    Reads fuel (parseListSlice fuel (.slice (.slice .byte))
        (parseFor (.slice .byte) Stream.bytes id))
      (fun slices => wireList (slices.flatMap wireString))
      (fun slices => ∀ slice ∈ slices, True) True :=
  parseListSlice_reads (byteSlice_reads fuel) _

theorem parseByteSlices_eq_ok_iff {fuel : Nat} {b : List Byte}
    {slices : List (List Byte)} (short : b.length < maxLen) (enough : b.length < fuel) :
    parseByteSlices fuel b = .ok slices ↔ b = wireList (slices.flatMap wireString) := by
  constructor
  · intro ran
    exact (parseBytes_accepts (byteSlices_reads fuel) short enough ran).2 trivial
  · rintro rfl
    exact parseBytes_complete (byteSlices_reads fuel) _ (fun _ _ => trivial) short enough

theorem slices_lengths {fuel : Nat} {b : List Byte} {slices : List (List Byte)}
    (short : b.length < maxLen) (enough : b.length < fuel)
    (found : parseByteSlices fuel b = .ok slices) :
    ∀ slice ∈ slices, slice.length < b.length := by
  intro slice member
  rw [(parseByteSlices_eq_ok_iff short enough).mp found]
  exact length_lt_of_mem_byteSlices member

theorem parseByteSlices_error {fuel : Nat} {b : List Byte} {err : Err}
    (short : b.length < maxLen) (enough : b.length < fuel)
    (ran : parseByteSlices fuel b = .error err) : err.Ordinary :=
  parseBytes_refuses (byteSlices_reads fuel) short enough ran

theorem entryList_eq (keyBytes elemBytes : List Byte) :
    entryList keyBytes elemBytes = wireList ([keyBytes, elemBytes].flatMap wireString) := by
  simp [entryList]

theorem bytes_lengths {stream next : Stream} {b : List Byte} (sound : stream.Sound)
    (armed : stream.kindAhead = none) (ran : stream.bytes = (.ok b, next)) :
    b.length < maxLen ∧ b.length ≤ stream.avail := by
  have bounded := sound.bounded
  have available := sound.avail_le
  have length := sound.window_length
  obtain ⟨⟨rest, content⟩, _⟩ := Stream.bytes_sound sound armed ran
  have inner := length_le_wireString b
  rw [content, List.length_append] at length
  omega

section Maps

variable {fuel : Nat} (type key elem : GoType)
variable {keyParser : Parser α} {keySpell : α → List Byte} {keyGood : α → Prop}
variable {elemParser : Parser β} {elemSpell : β → List Byte} {elemGood : β → Prop}
variable {keyStrict elemStrict : Prop}

theorem parseEntry_complete
    (keyReads : Reads fuel keyParser keySpell keyGood keyStrict)
    (elemReads : Reads fuel elemParser elemSpell elemGood elemStrict)
    {keyItem : α} {elemItem : β} (keyFits : keyGood keyItem) (elemFits : elemGood elemItem)
    (short : (entryList (keySpell keyItem) (elemSpell elemItem)).length < maxLen)
    (enough : (entryList (keySpell keyItem) (elemSpell elemItem)).length < fuel) :
    parseEntry fuel type key elem keyParser elemParser
        (entryList (keySpell keyItem) (elemSpell elemItem)) =
      .ok (some (keyItem, elemItem)) := by
  have pair := (parseByteSlices_eq_ok_iff short enough).mpr (entryList_eq _ _)
  rw [entryList_eq] at short enough
  have keyLength : (keySpell keyItem).length < _ := length_lt_of_mem_byteSlices
    (List.mem_cons_self (l := [elemSpell elemItem]))
  have elemLength : (elemSpell elemItem).length < _ := length_lt_of_mem_byteSlices
    (List.mem_cons_of_mem (keySpell keyItem) (List.mem_singleton.mpr rfl))
  have keyRead := parseBytes_complete keyReads key keyFits (by omega) (by omega)
  have elemRead := parseBytes_complete elemReads elem elemFits (by omega) (by omega)
  rw [parseEntry_pair pair, keyRead, elemRead]

theorem pair_lengths {v kb vb : List Byte} (short : v.length < maxLen)
    (enough : v.length < fuel) (pair : parseByteSlices fuel v = .ok [kb, vb]) :
    kb.length < v.length ∧ vb.length < v.length := by
  have inside := slices_lengths short enough pair
  exact ⟨inside kb (by simp), inside vb (by simp)⟩

theorem parseEntry_outcome
    (keyReads : Reads fuel keyParser keySpell keyGood keyStrict)
    (elemReads : Reads fuel elemParser elemSpell elemGood elemStrict)
    {v : List Byte} (short : v.length < maxLen) (enough : v.length < fuel) :
    match parseEntry fuel type key elem keyParser elemParser v with
    | .error err => err.Ordinary
    | .ok none =>
        ∃ slices : List (List Byte),
          v = wireList (slices.flatMap wireString) ∧ slices.length ≠ 2
    | .ok (some entry) =>
        keyGood entry.1 ∧ elemGood entry.2 ∧ ∃ kb vb, v = entryList kb vb ∧
          (keyStrict → kb = keySpell entry.1) ∧ (elemStrict → vb = elemSpell entry.2) := by
  rcases slices : parseByteSlices fuel v with err | found
  · rw [parseEntry_failed slices]
    exact (parseByteSlices_error short enough slices).wrap type
  have spelled := (parseByteSlices_eq_ok_iff short enough).mp slices
  by_cases two : found.length = 2
  · obtain ⟨kb, vb, rfl⟩ := List.length_eq_two.mp two
    obtain ⟨keyLength, elemLength⟩ := pair_lengths short enough slices
    rw [parseEntry_pair slices]
    rcases keyRead : parseBytes key keyParser kb with err | keyItem
    · exact (parseBytes_refuses keyReads (by omega) (by omega) keyRead).wrap type
    rcases elemRead : parseBytes elem elemParser vb with err | elemItem
    · exact (parseBytes_refuses elemReads (by omega) (by omega) elemRead).wrap type
    have keyAccepted := parseBytes_accepts keyReads (by omega) (by omega) keyRead
    have elemAccepted := parseBytes_accepts elemReads (by omega) (by omega) elemRead
    exact ⟨keyAccepted.1, elemAccepted.1, kb, vb, spelled.trans (entryList_eq kb vb).symm,
      keyAccepted.2, elemAccepted.2⟩
  · rw [parseEntry_other slices two]
    exact ⟨found, spelled, two⟩

theorem parseEntries_complete
    (keyReads : Reads fuel keyParser keySpell keyGood keyStrict)
    (elemReads : Reads fuel elemParser elemSpell elemGood elemStrict)
    {entries : List (α × β)}
    (fits : ∀ entry ∈ entries, keyGood entry.1 ∧ elemGood entry.2)
    (short : ∀ entry ∈ entries,
      (entryList (keySpell entry.1) (elemSpell entry.2)).length < maxLen)
    (enough : ∀ entry ∈ entries,
      (entryList (keySpell entry.1) (elemSpell entry.2)).length < fuel) :
    parseEntries fuel type key elem keyParser elemParser
        (entries.map fun entry => entryList (keySpell entry.1) (elemSpell entry.2)) =
      .ok entries := by
  induction entries with
  | nil => rfl
  | cons entry rest ih =>
      have first := parseEntry_complete type key elem keyReads elemReads
        (fits entry (by simp)).1 (fits entry (by simp)).2 (short entry (by simp)) (enough entry (by simp))
      have others := ih (fun other member => fits other (by simp [member]))
        (fun other member => short other (by simp [member]))
        (fun other member => enough other (by simp [member]))
      rw [List.map_cons, parseEntries_cons, first, others]

theorem parseEntries_outcome
    (keyReads : Reads fuel keyParser keySpell keyGood keyStrict)
    (elemReads : Reads fuel elemParser elemSpell elemGood elemStrict)
    {bbt : List (List Byte)} (short : ∀ v ∈ bbt, v.length < maxLen)
    (enough : ∀ v ∈ bbt, v.length < fuel) :
    match parseEntries fuel type key elem keyParser elemParser bbt with
    | .error err => err.Ordinary
    | .ok entries => ∀ entry ∈ entries, keyGood entry.1 ∧ elemGood entry.2 := by
  induction bbt with
  | nil => exact fun entry member => absurd member List.not_mem_nil
  | cons v rest ih =>
      have first := parseEntry_outcome type key elem keyReads elemReads
        (short v (by simp)) (enough v (by simp))
      have others := ih (fun other member => short other (by simp [member]))
        (fun other member => enough other (by simp [member]))
      rw [parseEntries_cons]
      rcases outcome : parseEntry fuel type key elem keyParser elemParser v with
        err | _ | entry
      · rw [outcome] at first
        exact first
      · simp
      · rw [outcome] at first
        rcases later : parseEntries fuel type key elem keyParser elemParser rest with
          err | found
        · rw [later] at others
          exact others
        · rw [later] at others
          intro other member
          rcases List.mem_cons.mp member with rfl | inRest
          · exact ⟨first.1, first.2.1⟩
          · exact others other inRest

theorem parseEntries_of_slices
    (keyReads : Reads fuel keyParser keySpell keyGood keyStrict)
    (elemReads : Reads fuel elemParser elemSpell elemGood elemStrict)
    {b : List Byte} {bbt : List (List Byte)} (short : b.length < maxLen)
    (enough : b.length < fuel) (slices : parseByteSlices fuel b = .ok bbt) :
    match parseEntries fuel type key elem keyParser elemParser bbt with
    | .error err => err.Ordinary
    | .ok entries => ∀ entry ∈ entries, keyGood entry.1 ∧ elemGood entry.2 := by
  have inside := slices_lengths short enough slices
  exact parseEntries_outcome type key elem keyReads elemReads
    (fun v member => Nat.lt_trans (inside v member) short)
    (fun v member => Nat.lt_trans (inside v member) enough)

theorem parseMap_reads
    (keyReads : Reads fuel keyParser keySpell keyGood keyStrict)
    (elemReads : Reads fuel elemParser elemSpell elemGood elemStrict) :
    Reads fuel (parseMap fuel key elem keyParser elemParser)
      (fun entries => wireString (wireList (entries.flatMap fun entry =>
        entryBytes (keySpell entry.1) (elemSpell entry.2))))
      (fun entries => ∀ entry ∈ entries, keyGood entry.1 ∧ elemGood entry.2)
      False where
  complete {stream entries rest} sound armed enough fits content := by
    have bounded := sound.bounded
    have available := sound.avail_le
    have length := sound.window_length
    obtain ⟨next, ran, moved⟩ := Stream.bytes_complete sound armed content
    have lists : (entries.flatMap fun entry =>
          entryBytes (keySpell entry.1) (elemSpell entry.2)) =
        (entries.map fun entry =>
          entryList (keySpell entry.1) (elemSpell entry.2)).flatMap wireString := by
      rw [List.flatMap_map]
      rfl
    have outer := length_le_wireString (wireList (entries.flatMap fun entry =>
      entryBytes (keySpell entry.1) (elemSpell entry.2)))
    rw [content, List.length_append] at length
    have slices := (@parseByteSlices_eq_ok_iff fuel _ _ (by omega) (by omega)).mpr
      (congrArg wireList lists)
    have inside : ∀ entry ∈ entries,
        (entryList (keySpell entry.1) (elemSpell entry.2)).length <
          (wireList (entries.flatMap fun entry =>
            entryBytes (keySpell entry.1) (elemSpell entry.2))).length := by
      intro entry member
      rw [lists]
      exact length_lt_of_mem_byteSlices (List.mem_map_of_mem member)
    have read := parseEntries_complete (.map key elem) key elem keyReads elemReads fits
      (fun entry member => by have := inside entry member; omega)
      (fun entry member => by have := inside entry member; omega)
    exact ⟨next, by simp only [parseMap, ran, slices, read], moved⟩
  accepts {stream next entries} sound armed enough ran := by
    rcases outcome : stream.bytes with ⟨result, after⟩
    cases result with
    | error err => simp [parseMap, outcome] at ran
    | ok b =>
        obtain ⟨short, within⟩ := bytes_lengths sound armed outcome
        obtain ⟨_, moved⟩ := Stream.bytes_sound sound armed outcome
        rcases slices : parseByteSlices fuel b with err | bbt
        · simp [parseMap, outcome, slices] at ran
        · simp only [parseMap, outcome, slices, Prod.mk.injEq] at ran
          obtain ⟨read, rfl⟩ := ran
          have found := parseEntries_of_slices (.map key elem) key elem keyReads
            elemReads short (by omega) slices
          rw [read] at found
          exact ⟨found, _, wireString_length_pos _, moved, False.elim⟩
  refuses {stream next err} sound armed enough ran := by
    rcases outcome : stream.bytes with ⟨result, after⟩
    cases result with
    | error bytesErr =>
        simp only [parseMap, outcome, Prod.mk.injEq, Except.error.injEq] at ran
        obtain ⟨rfl, rfl⟩ := ran
        exact (Stream.bytes_error sound armed outcome).wrap _
    | ok b =>
        obtain ⟨short, within⟩ := bytes_lengths sound armed outcome
        rcases slices : parseByteSlices fuel b with slicesErr | bbt
        · simp only [parseMap, outcome, slices, Prod.mk.injEq, Except.error.injEq] at ran
          exact .inr (ran.1 ▸ (parseByteSlices_error short (by omega) slices).wrap _)
        · simp only [parseMap, outcome, slices, Prod.mk.injEq] at ran
          obtain ⟨read, rfl⟩ := ran
          have found := parseEntries_of_slices (.map key elem) key elem keyReads
            elemReads short (by omega) slices
          rw [read] at found
          exact .inr found
  ends {stream} sound armed atEnd := by
    obtain ⟨next, ran, stayed⟩ := Stream.bytes_ends sound armed atEnd
    refine ⟨next, ?_, stayed⟩
    simp only [parseMap, ran]
    rfl
  nonempty _ := wireString_length_pos _

end Maps

/-! All types that are read as they are written: no raw values, no tags, and no
arrays of a single byte, whose decoder may read nothing. -/

mutual
def codable : GoType → Bool
  | .uint _ => true
  | .int _ => true
  | .bool => true
  | .string => true
  | .bigInt => true
  | .number => true
  | .rawValue => false
  | .slice elem => codable elem
  | .array length elem => codable elem && !(elem.isByte && length == 1)
  | .struct fields => codableFields fields
  | .ptr elem => codable elem
  | .map key elem => codable key && codable elem

def codableFields : Fields → Bool
  | .nil => true
  | .cons _ tags type rest => decide (tags = {}) && codable type && codableFields rest
end

mutual
def mapFree : GoType → Bool
  | .uint _ => true
  | .int _ => true
  | .bool => true
  | .string => true
  | .bigInt => true
  | .number => true
  | .rawValue => true
  | .slice elem => mapFree elem
  | .array _ elem => mapFree elem
  | .struct fields => mapFreeFields fields
  | .ptr elem => mapFree elem
  | .map _ _ => false

def mapFreeFields : Fields → Bool
  | .nil => true
  | .cons _ _ type rest => mapFree type && mapFreeFields rest
end

mutual
def Present : (type : GoType) → Item type → Prop
  | .uint _, _ => True
  | .int _, _ => True
  | .bool, _ => True
  | .string, _ => True
  | .bigInt, _ => True
  | .number, _ => True
  | .rawValue, _ => True
  | .slice elem, (items : List (Item elem)) => ∀ item ∈ items, Present elem item
  | .array _ elem, items => ∀ item ∈ items.1, Present elem item
  | .struct fields, items => FieldsPresent fields items
  | .ptr elem, (item : Option (Item elem)) => ∃ inner, item = some inner ∧ Present elem inner
  | .map key elem, (entries : List (Item key × Item elem)) =>
      ∀ entry ∈ entries, Present key entry.1 ∧ Present elem entry.2

def FieldsPresent : (fields : Fields) → FieldItems fields → Prop
  | .nil, _ => True
  | .cons _ _ type rest, items => Present type items.1 ∧ FieldsPresent rest items.2
end

theorem itemBytes_data {type : GoType} {item : Item type} {bytes : List Byte}
    (only : pieces type {} item = [.data bytes]) : itemBytes type item = bytes := by
  rw [itemBytes, only]
  simp [Piece.bytes]

theorem ptrParser_untagged (elem : GoType) (inner : Parser (Item elem)) :
    ptrParser false elem inner = parseWith inner id some := by
  cases elem <;> rfl

private theorem itemBytes_list {elem : GoType} (other : elem.isByte = false)
    (items : List (Item elem)) :
    render (slicePieces false elem (pieces elem {}) items) =
      wireList (items.flatMap (itemBytes elem)) := by
  rw [slicePieces_of_not_byte false other]
  simp only [Bool.false_eq_true, if_false, render_listPieces, render_flatMap]
  rfl

theorem uint_bits (kind : UintKind) :
    0 < kind.bits / 8 ∧ kind.bits / 8 ≤ 8 ∧ 256 ^ (kind.bits / 8) = 2 ^ kind.bits := by
  cases kind <;> decide

theorem int_bits (kind : IntKind) :
    0 < kind.bits / 8 ∧ kind.bits / 8 ≤ 8 ∧ 256 ^ (kind.bits / 8) = 2 ^ kind.bits := by
  cases kind <;> decide

private theorem parseInteger_reads (fuel : Nat) (type : GoType) {bits : Nat}
    (wide : 0 < bits / 8) (short : bits / 8 ≤ 8) (power : 256 ^ (bits / 8) = 2 ^ bits) :
    Reads fuel (parseFor type (fun stream => stream.uint bits) (BitVec.ofNat bits))
      (fun item => wireUint item.toNat) (fun _ => True) True := by
  refine (Reads.uint wide short).parseFor type ?_ ?_
  · intro item _
    exact ⟨power ▸ item.isLt, by simp⟩
  · intro number narrow
    refine ⟨trivial, ?_⟩
    rw [BitVec.toNat_ofNat, Nat.mod_eq_of_lt (power ▸ narrow)]

mutual
theorem parse_reads (fuel : Nat) : (type : GoType) → codable type = true →
    Reads fuel (parse fuel type {}) (itemBytes type) (Present type)
      (mapFree type = true)
  | .uint kind, _ => by
      obtain ⟨wide, short, power⟩ := uint_bits kind
      exact (parseInteger_reads fuel (.uint kind) wide short power).conv
        (fun _ => itemBytes_data rfl) (fun _ => Iff.rfl) (fun _ => trivial)
  | .int kind, _ => by
      obtain ⟨wide, short, power⟩ := int_bits kind
      exact (parseInteger_reads fuel (.int kind) wide short power).conv
        (fun _ => itemBytes_data rfl) (fun _ => Iff.rfl) (fun _ => trivial)
  | .bool, _ =>
      (Reads.bool.parseFor .bool (fun _ _ => ⟨trivial, rfl⟩)
        (fun _ _ => ⟨trivial, rfl⟩)).conv
        (fun _ => itemBytes_data rfl) (fun _ => Iff.rfl) (fun _ => trivial)
  | .string, _ =>
      (Reads.bytes.parseFor .string (fun _ _ => ⟨trivial, rfl⟩)
        (fun _ _ => ⟨trivial, rfl⟩)).conv
        (fun _ => itemBytes_data rfl) (fun _ => Iff.rfl) (fun _ => trivial)
  | .bigInt, _ =>
      (parseBigInt_reads fuel).conv
        (fun _ => itemBytes_data rfl) (fun _ => Iff.rfl) (fun _ => trivial)
  | .number, _ =>
      (Reads.bytes.parseFor (.ptr .number) (fun _ _ => ⟨trivial, rfl⟩)
        (fun _ _ => ⟨trivial, rfl⟩)).conv
        (fun _ => itemBytes_data rfl) (fun _ => Iff.rfl) (fun _ => trivial)
  | .slice elem, plain => by
      cases bytes : elem.isByte with
      | true =>
          obtain rfl := GoType.eq_byte_of_isByte bytes
          exact (byteSlice_reads fuel).conv (fun _ => itemBytes_data rfl)
            (fun _ => by simp [Present, GoType.byte]) (fun _ => trivial)
      | false =>
          rw [parse, sliceParser_of_not_byte fuel false bytes]
          exact (parseListSlice_reads (parse_reads fuel elem plain) _).conv
            (itemBytes_list bytes) (fun _ => Iff.rfl) id
  | .array length elem, plain => by
      rw [codable, Bool.and_eq_true] at plain
      cases bytes : elem.isByte with
      | true =>
          obtain rfl := GoType.eq_byte_of_isByte bytes
          have several : length ≠ 1 := by
            rintro rfl
            simp [GoType.isByte, GoType.byte] at plain
          exact (parseByteArray_reads fuel several).conv (fun _ => itemBytes_data rfl)
            (fun _ => by simp [Present, GoType.byte]) (fun _ => trivial)
      | false =>
          rw [parse, arrayParser_of_not_byte length bytes]
          exact ((parseTuple_fills (parse_reads fuel elem plain.1) _ length 0).inList
            _).conv (fun items => itemBytes_list bytes items.1) (fun _ => Iff.rfl) id
  | .struct fields, plain =>
      ((parseFields_fills fuel (.struct fields) fields plain).inList _).conv
        (fun _ => rfl) (fun _ => Iff.rfl) id
  | .ptr elem, plain => by
      rw [parse, ptrParser_untagged]
      exact (parse_reads fuel elem plain).pointer (fun _ => rfl)
        (fun _ => by simp [Present]) (by simp [Present])
  | .map key elem, plain => by
      rw [codable, Bool.and_eq_true] at plain
      exact (parseMap_reads key elem (parse_reads fuel key plain.1)
        (parse_reads fuel elem plain.2)).conv
        (fun _ => itemBytes_data rfl) (fun _ => Iff.rfl) (by simp [mapFree])

theorem parseFields_fills (fuel : Nat) (type : GoType) :
    (fields : Fields) → codableFields fields = true →
    Fills fuel (parseFields fuel type fields)
      (fun items => render (fieldPieces fields items)) (FieldsPresent fields)
      (mapFreeFields fields = true)
  | .nil, _ => Fills.nothing (fun _ => rfl) rfl trivial
  | .cons name tags field rest, plain => by
      simp only [codableFields, Bool.and_eq_true, decide_eq_true_eq] at plain
      obtain ⟨⟨rfl, fieldPlain⟩, restPlain⟩ := plain
      refine Fills.cons (.decode "too few elements" type []) (fun item items => (item, items))
        ((parse_reads fuel field fieldPlain).conv (fun _ => rfl) (fun _ => Iff.rfl)
          (by simp only [mapFreeFields, Bool.and_eq_true]; exact And.left))
        ((parseFields_fills fuel type rest restPlain).weaken
          (by simp only [mapFreeFields, Bool.and_eq_true]; exact And.right))
        (decode_ordinary _ _ _) (fun plain => plain.addContext (.field name))
        (fun items => ⟨items.1, items.2, rfl⟩) ?_ (fun _ _ => Iff.rfl) ?_ ?_ ?_
      · intro item items
        exact render_append _ _
      · intro stream next ran
        simp only [parseFields, ran]
      · intro stream next err ran other
        cases err <;> first | exact absurd rfl other | simp only [parseFields, ran]
      · intro stream next item ran
        simp only [parseFields, ran]
        rcases parseFields fuel type rest next with ⟨result | result, last⟩ <;> rfl
end

end Bclib.Rlp
