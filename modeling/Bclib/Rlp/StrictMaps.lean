import Bclib.Rlp.Determinism
import Bclib.Rlp.RoundTrip

namespace Bclib.Rlp

open Data
open Go

/-! What the decoder of maps accepts: entries in any order and under repeated keys,
up to the first one that is not a pair. -/

section Entries

variable {fuel : Nat} (type key elem : GoType)
variable {keyParser : Parser α} {keySpell : α → List Byte} {keyGood : α → Prop}
variable {elemParser : Parser β} {elemSpell : β → List Byte} {elemGood : β → Prop}
variable {keyStrict elemStrict : Prop}

theorem parseEntries_wire
    (keyReads : Reads fuel keyParser keySpell keyGood keyStrict)
    (elemReads : Reads fuel elemParser elemSpell elemGood elemStrict)
    (exactKey : keyStrict) (exactElem : elemStrict)
    {bbt : List (List Byte)} (short : ∀ v ∈ bbt, v.length < maxLen)
    (enough : ∀ v ∈ bbt, v.length < fuel) {entries : List (α × β)}
    (ran : parseEntries fuel type key elem keyParser elemParser bbt = .ok entries) :
    ∃ rest, bbt = (entries.map fun entry =>
        entryList (keySpell entry.1) (elemSpell entry.2)) ++ rest ∧
      ∀ v ∈ rest.head?, ∀ kb vb, v ≠ entryList kb vb := by
  induction bbt generalizing entries with
  | nil =>
      obtain rfl := Except.ok.inj ran
      exact ⟨[], rfl, fun _ found => (nomatch found)⟩
  | cons v others ih =>
      rw [List.forall_mem_cons] at short enough
      have first := parseEntry_outcome type key elem keyReads elemReads short.1 enough.1
      rw [parseEntries_cons] at ran
      cases outcome : parseEntry fuel type key elem keyParser elemParser v with
      | error err => simp [outcome] at ran
      | ok found =>
          rw [outcome] at ran first
          cases found with
          | none =>
              obtain rfl := Except.ok.inj ran
              refine ⟨v :: others, rfl, fun found member kb vb pair => ?_⟩
              obtain rfl := Option.some.inj member
              obtain ⟨slices, spelled, notTwo⟩ := first
              have both := spelled.symm.trans (pair.trans (entryList_eq kb vb))
              rw [wireStrings_injective (spelled ▸ short.1) both] at notTwo
              exact notTwo rfl
          | some entry =>
              cases later : parseEntries fuel type key elem keyParser elemParser others with
              | error err => simp [later] at ran
              | ok remaining =>
                  simp only [later, Except.ok.injEq] at ran
                  obtain ⟨rest, wire, stop⟩ := ih short.2 enough.2 later
                  obtain ⟨_, _, kb, vb, spelled, keySpelled, elemSpelled⟩ := first
                  refine ⟨rest, ?_, stop⟩
                  rw [← ran, wire, spelled, keySpelled exactKey, elemSpelled exactElem]
                  rfl

theorem parseMap_wire {b : List Byte} (short : b.length < maxLen) (enough : b.length < fuel)
    {entries : List (α × β)}
    (ran : parseBytes type (parseMap fuel key elem keyParser elemParser) b = .ok entries) :
    ∃ bbt, b = wireString (wireList (bbt.flatMap wireString)) ∧
      parseEntries fuel (.map key elem) key elem keyParser elemParser bbt = .ok entries := by
  cases outcome : (newStream b b.length).bytes with
  | mk result next =>
      cases result with
      | error err => simp [parseBytes, parseMap, outcome] at ran
      | ok content =>
          cases slices : parseByteSlices fuel content with
          | error err => simp [parseBytes, parseMap, outcome, slices] at ran
          | ok bbt =>
              cases read : parseEntries fuel (.map key elem) key elem keyParser elemParser
                  bbt with
              | error err => simp [parseBytes, parseMap, outcome, slices, read] at ran
              | ok found =>
                  simp only [parseBytes, parseMap, outcome, slices, read] at ran
                  split_ifs at ran with trailing
                  obtain rfl := Except.ok.inj ran
                  have whole : parseBytes (.slice .byte)
                      (parseFor (.slice .byte) Stream.bytes id) b = .ok content := by
                    simp [parseBytes, parseFor, parseWith, outcome, trailing]
                  have outer := (parseBytes_accepts (byteSlice_reads fuel) short enough
                    whole).2 trivial
                  have inner := length_le_wireString content
                  rw [← outer] at inner
                  have lists := (parseByteSlices_eq_ok_iff (Nat.lt_of_le_of_lt inner short)
                    (Nat.lt_of_le_of_lt inner enough)).1 slices
                  exact ⟨bbt, lists ▸ outer, read⟩

end Entries

section Scalars

variable {key : GoType} (scalarKey : scalar key = true)

include scalarKey

theorem codable_of_scalar : codable key = true := by
  cases key <;> first | rfl | simp [scalar] at scalarKey

theorem mapFree_of_scalar : mapFree key = true := by
  cases key <;> first | rfl | simp [scalar] at scalarKey

theorem numberFree_of_scalar : numberFree key = true := by
  cases key <;> first | rfl | simp [scalar] at scalarKey

theorem spelling_injective {left right : Value key}
    (fits : (spelling {} key left).length < maxLen)
    (same : spelling {} key left = spelling {} key right) : left = right := by
  have present : ∀ item : Item key, Present key item := by
    cases key <;> first | exact fun _ => trivial | simp [scalar] at scalarKey
  have reads := parse_reads ((spelling {} key left).length + 1) key
    (codable_of_scalar scalarKey)
  have first := parseBytes_complete reads key (present (itemOf key left)) fits
    (Nat.lt_succ_self _)
  have second := parseBytes_complete reads key (present (itemOf key right))
    ((congrArg List.length same).symm.trans_lt fits)
    ((congrArg List.length same).symm.trans_lt (Nat.lt_succ_self _))
  have items : itemOf key left = itemOf key right :=
    Except.ok.inj (first.symm.trans ((congrArg _ same).trans second))
  cases key <;> first | exact items | simp [scalar] at scalarKey

end Scalars

theorem keyLess_irrefl (key : GoType) (value : Value key) : keyLess key value value = false := by
  cases compared : sortable key with
  | true => exact (keyLess_order compared).irrefl value
  | false => exact keyLess_never compared value value

theorem steadfast_of_mapFree {type : GoType} (noMaps : mapFree type = true)
    (value : Value type) : Steadfast {} type value :=
  fun _ same => SameValue.eq type noMaps same ▸ rfl

private theorem keys_of_spellings {key elem : GoType} (scalarKey : scalar key = true)
    {pairs : List (Value key × List Byte)} {entries : List (Value key × Value elem)}
    (short : ∀ pair ∈ pairs, (spelling {} key pair.1).length < maxLen)
    (same : (pairs.map fun pair => (spelling {} key pair.1, pair.2)) =
      entries.map entrySpelling) :
    pairs.map Prod.fst = entries.map Prod.fst := by
  induction pairs generalizing entries with
  | nil => rw [List.map_eq_nil_iff.1 same.symm, List.map_nil, List.map_nil]
  | cons pair others ih =>
      cases entries with
      | nil => simp at same
      | cons entry remaining =>
          rw [List.forall_mem_cons] at short
          obtain ⟨head, tail⟩ := List.cons.inj same
          rw [List.map_cons, List.map_cons, ih short.2 tail,
            spelling_injective scalarKey short.1 (congrArg Prod.fst head)]

/-- The input is a list of pairs whose keys ascend strictly in the order by which
`writeMap` sorts. -/
def StrictlyOrdered (key : GoType) (b : List Byte) : Prop :=
  ∃ entries : List (Value key × List Byte),
    b = mapBytes (entries.map fun entry => (spelling {} key entry.1, entry.2)) ∧
      entries.Pairwise fun left right => keyLess key left.1 right.1 = true

section Maps

variable {key elem : GoType} {fuel : Nat} {b : List Byte}
variable {value : List (Value key × Value elem)}

/-- Of the entries on the wire the first ones are in the map, later ones in the
place of earlier ones under the same key. -/
structure Accepted (value entries : List (Value key × Value elem))
    (rest : List (List Byte)) (b : List Byte) : Prop where
  value_eq : value = assocOf entries
  solid : Solid (.map key elem) value
  wire : b = wireString (wireList ((((entries.map entrySpelling).map fun pair =>
    entryList pair.1 pair.2) ++ rest).flatMap wireString))
  stop : ∀ v ∈ rest.head?, ∀ kb vb, v ≠ entryList kb vb

theorem decodeBytes_accepted (scalarKey : scalar key = true) (plain : codable elem = true)
    (noMaps : mapFree elem = true) (noNumbers : numberFree elem = true)
    (reused : reusable elem = true) (short : b.length < maxLen) (enough : b.length < fuel)
    (decoded : decodeBytes fuel (.map key elem) b = .ok value) :
    ∃ entries rest, Accepted value entries rest b := by
  have keyPlain := codable_of_scalar scalarKey
  have mapPlain : codable (.map key elem) = true := by simp [codable, keyPlain, plain]
  have keys : scalarKeys (.map key elem) = true := by
    simp [scalarKeys, scalarKey, scalarKeys_of_mapFree elem noMaps]
  obtain ⟨(items : List (Item key × Item elem)), ran⟩ := parse_of_decodeBytes mapPlain short enough decoded
  have present := (parseBytes_accepts (parse_reads fuel _ mapPlain) short enough ran).1
  rw [decodeBytes_of_parse mapPlain keys short enough ran
    ⟨.inr reused, fun entry _ => unshared_of_mapFree elem noMaps entry.2⟩] at decoded
  obtain rfl := Except.ok.inj decoded
  obtain ⟨bbt, wire, read⟩ := parseMap_wire (.map key elem) key elem short enough ran
  have inside : ∀ v ∈ bbt, v.length < b.length := fun v member => by
    rw [wire]
    exact Nat.lt_of_lt_of_le (length_lt_of_mem_byteSlices member) (length_le_wireString _)
  obtain ⟨rest, slices, stop⟩ := parseEntries_wire (.map key elem) key elem
    (parse_reads fuel key keyPlain) (parse_reads fuel elem plain)
    (mapFree_of_scalar scalarKey) noMaps
    (fun v member => Nat.lt_trans (inside v member) short)
    (fun v member => Nat.lt_trans (inside v member) enough) read
  refine ⟨_, rest, rfl, denote_solid (.map key elem) items present, ?_, stop⟩
  have spelled : ∀ entry : Item key × Item elem,
      entrySpelling (denote key entry.1, denote elem entry.2) =
        (itemBytes key entry.1, itemBytes elem entry.2) := fun entry => by
    rw [entrySpelling, spelling, spelling,
      itemOf_denote key (mapFree_of_scalar scalarKey) (numberFree_of_scalar scalarKey),
      itemOf_denote elem noMaps noNumbers]
    rfl
  rw [wire, slices, List.map_map, List.map_map]
  simp only [Function.comp_def, spelled]

namespace Accepted

variable {entries : List (Value key × Value elem)} {rest : List (List Byte)}
variable (accepted : Accepted value entries rest b)

include accepted

theorem encodedLength_lt (short : b.length < maxLen) :
    encodedLength (.map key elem) value < maxLen := by
  have weights : ∀ pairs : List (Value key × Value elem),
      ((pairs.map entrySpelling).flatMap fun pair => entryBytes pair.1 pair.2).length =
        (pairs.map fun entry => (entryBytes (entrySpelling entry).1
          (entrySpelling entry).2).length).sum := fun pairs => by
    rw [List.length_flatMap, List.map_map]
    rfl
  have fewer : (((sortEntries key value).map entrySpelling).flatMap fun pair =>
      entryBytes pair.1 pair.2).length ≤
        ((entries.map entrySpelling).flatMap fun pair => entryBytes pair.1 pair.2).length := by
    rw [weights, weights, accepted.value_eq]
    exact Nat.le_trans (Nat.le_of_eq ((sortByKey_perm _ _).map _).sum_eq)
      (sum_assocOf_le _ entries)
  have spelled : encodedLength (.map key elem) value =
      (mapBytes ((sortEntries key value).map entrySpelling)).length :=
    congrArg List.length (spelling_map {} key elem value)
  have wire := accepted.wire
  rw [List.flatMap_append, List.flatMap_map] at wire
  refine Nat.lt_of_le_of_lt ?_ short
  rw [spelled, wire]
  refine wireString_wireList_length_mono ?_ ?_
  · rw [List.length_append]
    exact Nat.le_add_right_of_le fewer
  · have inner := length_le_wireString (wireList
      (((entries.map entrySpelling).flatMap fun pair => wireString (entryList pair.1 pair.2)) ++
        rest.flatMap wireString))
    rw [← wire] at inner
    exact Nat.lt_of_le_of_lt inner (Nat.lt_trans short (by decide))

theorem entries_of_strictlyOrdered (scalarKey : scalar key = true) (short : b.length < maxLen)
    (ordered : StrictlyOrdered key b) :
    b = mapBytes (entries.map entrySpelling) ∧
      entries.Pairwise fun left right => keyLess key left.1 right.1 = true := by
  obtain ⟨pairs, spelled, ascending⟩ := ordered
  have wire := accepted.wire
  have lists : (pairs.map fun entry => (spelling {} key entry.1, entry.2)).map
      (fun pair => entryList pair.1 pair.2) =
        (entries.map entrySpelling).map (fun pair => entryList pair.1 pair.2) ++ rest := by
    rw [spelled, mapBytes_eq] at wire
    rw [spelled, mapBytes_eq] at short
    exact wireStrings_injective (Nat.lt_of_le_of_lt (length_le_wireString _) short)
      (wireString_injective short wire)
  have nothing : rest = [] := by
    cases tail : rest with
    | nil => rfl
    | cons v others =>
        have member : v ∈ (pairs.map fun entry => (spelling {} key entry.1, entry.2)).map
            (fun pair => entryList pair.1 pair.2) := by
          rw [lists, tail]
          exact List.mem_append_right _ (List.mem_cons_self ..)
        obtain ⟨pair, _, rfl⟩ := List.mem_map.1 member
        exact absurd rfl (accepted.stop _ (by rw [tail]; rfl) pair.1 pair.2)
  have exactly : b = mapBytes (entries.map entrySpelling) := by
    rw [mapBytes_eq, wire, nothing, List.append_nil]
  refine ⟨exactly, ?_⟩
  have same := mapBytes_injective (spelled ▸ short) (spelled.symm.trans exactly)
  have keys := keys_of_spellings scalarKey (fun pair member => ?_) same
  · have sorted : (pairs.map Prod.fst).Pairwise fun left right => keyLess key left right = true :=
      List.pairwise_map.2 ascending
    rw [keys] at sorted
    exact List.pairwise_map.1 sorted
  · have inside := entryList_length_lt (List.mem_map_of_mem
      (f := fun entry : Value key × List Byte => (spelling {} key entry.1, entry.2)) member)
    have part := length_lt_of_mem_byteSlices
      (List.mem_cons_self (a := spelling {} key pair.1) (l := [pair.2]))
    rw [← entryList_eq] at part
    rw [← spelled] at inside
    exact Nat.lt_trans part (Nat.lt_trans inside short)

theorem encodeToBytes_of_same (short : b.length < maxLen) {other : Value (.map key elem)}
    (same : SameValue (.map key elem) value other) :
    encodeToBytes (.map key elem) other = .ok (spelling {} (.map key elem) other) := by
  have nonNegative := Solid.nonNegative (.map key elem) value accepted.solid
  exact encodeToBytes_eq
    ((SameValue.nonNegative_iff (.map key elem) value other same).1 nonNegative)
    ((spelling_level (.map key elem) {} value other same).1.symm.trans_lt
      (accepted.encodedLength_lt short))

end Accepted

private theorem nodup_of_ascending {entries : List (Value key × Value elem)}
    (ascending : entries.Pairwise fun left right => keyLess key left.1 right.1 = true) :
    (entries.map Prod.fst).Nodup :=
  List.pairwise_map.2 (ascending.imp fun {left right} below same => by
    rw [same, keyLess_irrefl] at below
    exact Bool.false_ne_true below)

private theorem sorted_of_ascending {entries : List (Value key × Value elem)}
    (ascending : entries.Pairwise fun left right => keyLess key left.1 right.1 = true) :
    sortEntries key entries = entries ∧ (sortable key = true ∨
      ∀ left ∈ entries, ∀ right ∈ entries, entrySpelling left = entrySpelling right) := by
  cases compared : sortable key with
  | true => exact ⟨sortByKey_of_ascending (keyLess_order compared) ascending, .inl rfl⟩
  | false =>
      refine ⟨sortByKey_of_never (keyLess_never compared) entries, .inr ?_⟩
      intro left inLeft right inRight
      match entries, ascending with
      | [entry], _ =>
          rw [List.mem_singleton.1 inLeft, List.mem_singleton.1 inRight]
      | first :: second :: _, ascending =>
          have below := List.rel_of_pairwise_cons ascending (List.mem_cons_self ..)
          rw [keyLess_never compared] at below
          exact absurd below Bool.false_ne_true

/-- What is decoded is encoded as it was, in every order of enumeration, if and
only if the input is strictly ordered. -/
theorem decodeBytes_strict_iff (scalarKey : scalar key = true) (plain : codable elem = true)
    (noMaps : mapFree elem = true) (noNumbers : numberFree elem = true)
    (reused : reusable elem = true) (short : b.length < maxLen) (enough : b.length < fuel)
    (decoded : decodeBytes fuel (.map key elem) b = .ok value) :
    (∀ other, SameValue (.map key elem) value other →
        encodeToBytes (.map key elem) other = .ok b) ↔
      StrictlyOrdered key b := by
  obtain ⟨entries, rest, accepted⟩ := decodeBytes_accepted scalarKey plain noMaps noNumbers
    reused short enough decoded
  have distinct : (value.map Prod.fst).Nodup := accepted.solid.1
  have fits := accepted.encodedLength_lt short
  have steadfast := @steadfast_map_iff key elem value {} fits fun _ => distinct
  constructor
  · intro all
    have spelled : ∀ other, SameValue (.map key elem) value other →
        spelling {} (.map key elem) other = b := fun other same =>
      Except.ok.inj ((accepted.encodeToBytes_of_same short same).symm.trans (all other same))
    have self := spelled value (SameValue.refl _ _)
    refine ⟨(sortEntries key value).map fun entry => (entry.1, spelling {} elem entry.2), ?_, ?_⟩
    · rw [← self, spelling_map, List.map_map]
      rfl
    · rw [List.pairwise_map]
      cases compared : sortable key with
      | true => exact sortByKey_ascending (keyLess_order compared) distinct
      | false =>
          -- entries in no order are all spelled alike, so that there is at most one
          have alike := (steadfast.1 fun other same =>
            (spelled other same).trans self.symm).1.resolve_left (by simp [compared])
          have apart : (sortEntries key value).Pairwise fun left right => left.1 ≠ right.1 :=
            List.pairwise_map.1 (((sortByKey_perm _ value).map Prod.fst).nodup_iff.2 distinct)
          refine apart.imp_of_mem fun {left right} inLeft inRight different => ?_
          have same := alike left (mem_sortByKey.1 inLeft) right (mem_sortByKey.1 inRight)
          exact absurd (spelling_injective scalarKey
            (entry_fits fits (mem_sortByKey.1 inLeft)).1 (congrArg Prod.fst same)) different
  · intro ordered
    obtain ⟨exactly, ascending⟩ := accepted.entries_of_strictlyOrdered scalarKey short ordered
    have whole : value = entries :=
      accepted.value_eq.trans (assocOf_of_nodup (nodup_of_ascending ascending))
    subst whole
    obtain ⟨sorted, free⟩ := sorted_of_ascending ascending
    have kept := steadfast.2 ⟨free, fun entry _ => ⟨steadfast_of_mapFree
      (mapFree_of_scalar scalarKey) entry.1, steadfast_of_mapFree noMaps entry.2⟩⟩
    intro other same
    rw [accepted.encodeToBytes_of_same short same, kept other same, spelling_map, sorted, exactly]

theorem decodeBytes_strict_strings :
    decodeBytes 16 (.map .string .string)
        [0x89, 0xC8, 0x83, 0xC2, 0x61, 0x31, 0x83, 0xC2, 0x62, 0x32] =
      .ok ([([0x61], [0x31]), ([0x62], [0x32])] : List (List Byte × List Byte)) ∧
    ∀ other, SameValue (.map .string .string)
        ([([0x61], [0x31]), ([0x62], [0x32])] : List (List Byte × List Byte)) other →
      encodeToBytes (.map .string .string) other =
        .ok [0x89, 0xC8, 0x83, 0xC2, 0x61, 0x31, 0x83, 0xC2, 0x62, 0x32] := by
  have decoded : decodeBytes 16 (.map .string .string)
        [0x89, 0xC8, 0x83, 0xC2, 0x61, 0x31, 0x83, 0xC2, 0x62, 0x32] =
      .ok ([([0x61], [0x31]), ([0x62], [0x32])] : List (List Byte × List Byte)) := by
    decide +kernel
  refine ⟨decoded, (decodeBytes_strict_iff rfl rfl rfl rfl rfl (by decide) (by decide)
    decoded).2 ⟨[([0x61], [0x31]), ([0x62], [0x32])], ?_, ?_⟩⟩
  · decide +kernel
  · decide +kernel

/-- An entry of one string ends the map, duplicate keys overwrite each other, and
keys may stand in any order: none of the three inputs is what is encoded again. -/
theorem decodeBytes_lenient :
    decodeBytes 16 (.map .string .string) [0x84, 0xC3, 0x82, 0xC1, 0x61] =
        .ok ([] : List (List Byte × List Byte)) ∧
      encodeToBytes (.map .string .string) ([] : List (List Byte × List Byte)) ≠
        .ok [0x84, 0xC3, 0x82, 0xC1, 0x61] ∧
    decodeBytes 16 (.map .string .string)
          [0x89, 0xC8, 0x83, 0xC2, 0x61, 0x31, 0x83, 0xC2, 0x61, 0x32] =
        .ok ([([0x61], [0x32])] : List (List Byte × List Byte)) ∧
      encodeToBytes (.map .string .string) ([([0x61], [0x32])] : List (List Byte × List Byte)) ≠
        .ok [0x89, 0xC8, 0x83, 0xC2, 0x61, 0x31, 0x83, 0xC2, 0x61, 0x32] ∧
    decodeBytes 16 (.map .string .string)
          [0x89, 0xC8, 0x83, 0xC2, 0x62, 0x32, 0x83, 0xC2, 0x61, 0x31] =
        .ok ([([0x62], [0x32]), ([0x61], [0x31])] : List (List Byte × List Byte)) ∧
      encodeToBytes (.map .string .string)
          ([([0x62], [0x32]), ([0x61], [0x31])] : List (List Byte × List Byte)) ≠
        .ok [0x89, 0xC8, 0x83, 0xC2, 0x62, 0x32, 0x83, 0xC2, 0x61, 0x31] := by
  decide +kernel

end Maps

end Bclib.Rlp
