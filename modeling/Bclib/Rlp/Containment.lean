import Bclib.Go.Regions
import Bclib.Rlp.Execute

namespace Bclib.Rlp

open Data
open Go

/-! Decoding stays in the part of memory it was given: it changes no block that the
variable cannot reach, and leaves no reference to one behind. -/

variable {heap : Heap} {region : Region}

def Contained (region : Region) (type : GoType) (set : Store ι (Cell type)) : Prop :=
  ∀ (item : ι) (heap : Heap) (cell : Cell type), heap.Closed region →
    Refers heap region type cell →
      heap.Within (set item heap cell).1 region ∧
        Refers (set item heap cell).1 region type (set item heap cell).2

theorem setNat_contained (closed : heap.Closed region) {abs : SliceHeader}
    (has : heap.Has region wordType abs.base) (buf : List Byte) :
    heap.Within (heap.setNat abs buf).1 region ∧
      (heap.setNat abs buf).1.Has region wordType (heap.setNat abs buf).2.base := by
  by_cases enough : (buf.length + 7) / 8 ≤ heap.cap wordType abs
  · cases based : abs.base with
    | none =>
        simp only [Heap.setNat, if_pos enough, based]
        exact ⟨.refl closed, heap.has_none region wordType⟩
    | some address =>
        rw [based] at has
        simp only [Heap.setNat, if_pos enough, based]
        refine ⟨closed.write (has address rfl).1 fun _ _ => trivial, has.later ?_⟩
        exact fun _ => Nat.le_of_eq TypedHeap.size_write.symm
  · simp only [Heap.setNat, if_neg enough]
    exact ⟨closed.alloc fun _ _ => trivial, closed.has_alloc _⟩

theorem setBigInt_contained (region : Region) (buf : ι → List Byte) :
    Contained region .bigInt (fun item heap cell => heap.setBigInt cell (buf item)) :=
  fun item _ _ closed refers => setNat_contained closed refers (buf item)

theorem setTarget_contained {type : GoType} {address : Nat} {next : Heap} {cell : Cell type}
    (within : heap.Within next region) (has : heap.Has region type (some address))
    (refers : Refers next region type cell) :
    heap.Within (next.setTarget type address cell) region ∧
      (next.setTarget type address cell).Has region type (some address) := by
  have written := within.closed.write_entry (has address rfl).1 0 refers
  exact ⟨within.trans written, has.later (within.trans written).size⟩

private theorem setBytesAt_some_contained (closed : heap.Closed region) {address : Nat}
    (has : heap.Has region .bigInt (some address)) (buf : List Byte) :
    heap.Within (Bn.setBytesAt heap (some address) buf).1 region ∧
      (Bn.setBytesAt heap (some address) buf).1.Has region .bigInt
        (Bn.setBytesAt heap (some address) buf).2 := by
  have inside := closed.refers_target (has address rfl).1
  rw [Bn.setBytesAt_address]
  cases buf with
  | nil => exact ⟨.refl closed, has⟩
  | cons sign magnitude =>
      simp only [Bn.setBytesAt, Heap.setBigInt]
      split_ifs
      · have set := setNat_contained closed inside magnitude
        exact setTarget_contained set.1 has set.2
      · have set := setNat_contained closed inside (sign :: magnitude)
        exact setTarget_contained set.1 has set.2

theorem setBytesAt_contained (region : Region) :
    Contained region .number (fun item heap cell => Bn.setBytesAt heap cell item) := by
  intro buf heap cell closed refers
  cases cell with
  | some address => exact setBytesAt_some_contained closed refers buf
  | none =>
      have allocated : heap.Within (heap.allocCell .bigInt (zeroCell .bigInt)) region :=
        closed.alloc fun cell member => by
          rw [List.mem_singleton.1 member]
          exact refers_zeroCell heap region .bigInt
      have set := setBytesAt_some_contained allocated.closed (closed.has_alloc _) buf
      rw [← Bn.setBytesAt_none] at set
      exact ⟨allocated.trans set.1, set.2⟩

theorem setBytes_contained (region : Region) : Contained region (.slice .byte) setBytes := by
  intro content heap header closed refers
  cases content with
  | nil => exact ⟨.refl closed, heap.has_none region .byte⟩
  | cons byte rest => exact ⟨closed.alloc fun _ _ => trivial, closed.has_alloc _⟩

section Inner

variable {elem : GoType} {inner : Store (Item elem) (Cell elem)} {header : SliceHeader}

theorem openIndex_contained (closed : heap.Closed region)
    (has : heap.Has region elem header.base) (i : Nat) :
    heap.Within (openIndex heap elem header i).1 region ∧
      (openIndex heap elem header i).1.Has region elem (openIndex heap elem header i).2.base := by
  have grown : heap.Within (growSlice heap elem header i).1 region ∧
      (growSlice heap elem header i).1.Has region elem (growSlice heap elem header i).2.base := by
    by_cases full : heap.cap elem header ≤ i
    · simp only [growSlice, if_pos full]
      refine ⟨closed.alloc fun cell member => ?_, closed.has_alloc _⟩
      rcases List.mem_append.1 member with old | new
      · exact closed.refers_backing has cell (List.mem_of_mem_take old)
      · rw [List.eq_of_mem_replicate new]
        exact refers_zeroCell heap region elem
    · simp only [growSlice, if_neg full]
      exact ⟨.refl closed, has⟩
  refine ⟨grown.1, ?_⟩
  simp only [openIndex]
  split_ifs
  · exact grown.2
  · exact grown.2

theorem refers_elemAt (closed : heap.Closed region) (has : heap.Has region elem header.base)
    (i : Nat) : Refers heap region elem (elemAt heap elem header i) := by
  rw [elemAt]
  cases found : (heap.backing elem header)[i]? with
  | none => exact refers_zeroCell heap region elem
  | some cell => exact closed.refers_backing has cell (List.mem_of_getElem? found)

theorem setElem_within (closed : heap.Closed region) (has : heap.Has region elem header.base)
    (i : Nat) {cell : Cell elem} (refers : Refers heap region elem cell) :
    heap.Within (setElem heap elem header i cell) region := by
  rw [setElem]
  cases based : header.base with
  | none => exact .refl closed
  | some address => exact closed.write_entry (has address based).1 i refers

theorem storeElems_contained (contained : Contained region elem inner)
    (items : List (Item elem)) (i : Nat) (closed : heap.Closed region)
    (has : heap.Has region elem header.base) :
    heap.Within (storeElems elem inner i items heap header).1 region ∧
      (storeElems elem inner i items heap header).1.Has region elem
        (storeElems elem inner i items heap header).2.base := by
  induction items generalizing i heap header with
  | nil =>
      have opened := openIndex_contained closed has i
      refine ⟨opened.1, ?_⟩
      simp only [storeElems]
      split_ifs
      · exact opened.2
      · exact opened.2
  | cons item rest ih =>
      have opened := openIndex_contained closed has i
      have stored := contained item _ _ opened.1.closed
        (refers_elemAt opened.1.closed opened.2 i)
      have has := opened.2.later stored.1.size
      have written := setElem_within stored.1.closed has i stored.2
      have others := ih (i + 1) written.closed (has.later written.size)
      exact ⟨((opened.1.trans stored.1).trans written).trans others.1, others.2⟩

theorem storeSlice_contained (contained : Contained region elem inner) :
    Contained region (.slice elem) (storeSlice elem inner) := by
  intro items heap header closed refers
  cases items with
  | nil => exact ⟨.refl closed, heap.has_none region elem⟩
  | cons item rest => exact storeElems_contained contained (item :: rest) 0 closed refers

theorem taggedSliceStore_contained (tail : Bool) (contained : Contained region elem inner) :
    Contained region (.slice elem) (taggedSliceStore tail elem inner) := by
  cases kind : elem.isByte with
  | true =>
      obtain rfl := GoType.eq_byte_of_isByte kind
      exact setBytes_contained region
  | false =>
      rw [taggedSliceStore_of_not_byte tail kind]
      cases tail with
      | true => exact fun items heap header closed refers =>
          storeElems_contained contained items 0 closed refers
      | false => exact storeSlice_contained contained

theorem storeTuple_contained (contained : Contained region elem inner)
    (items : List (Item elem)) (closed : heap.Closed region) (cells : List (Cell elem))
    (refer : ∀ cell ∈ cells, Refers heap region elem cell) :
    heap.Within (storeTuple inner items heap cells).1 region ∧
      ∀ cell ∈ (storeTuple inner items heap cells).2.1,
        Refers (storeTuple inner items heap cells).1 region elem cell := by
  induction items generalizing heap cells with
  | nil => cases cells <;> exact ⟨.refl closed, refer⟩
  | cons item items ih =>
      cases cells with
      | nil => exact ⟨.refl closed, refer⟩
      | cons cell cells =>
          obtain ⟨first, others⟩ := List.forall_mem_cons.1 refer
          have stored := contained item heap cell closed first
          have rest := ih stored.1.closed cells fun other member =>
            (others other member).later stored.1.size
          refine ⟨stored.1.trans rest.1, List.forall_mem_cons.2 ⟨?_, rest.2⟩⟩
          exact stored.2.later rest.1.size

theorem arrayStore_contained (length : Nat) (contained : Contained region elem inner) :
    Contained region (.array length elem) (arrayStore length elem inner) := by
  intro items heap cells closed refers
  cases kind : elem.isByte with
  | true =>
      obtain rfl := GoType.eq_byte_of_isByte kind
      exact ⟨.refl closed, fun _ _ => trivial⟩
  | false =>
      rw [arrayStore_of_not_byte length kind]
      exact storeTuple_contained contained items.1 closed cells.1 refers

theorem storePtr_contained (contained : Contained region elem inner) :
    Contained region (.ptr elem) (storePtr elem inner) := by
  intro item heap cell closed refers
  cases item with
  | none => exact ⟨.refl closed, heap.has_none region elem⟩
  | some item =>
      cases cell with
      | none =>
          have stored := contained item heap _ closed (refers_zeroCell heap region elem)
          refine ⟨stored.1.trans (stored.1.closed.alloc fun cell member => ?_),
            stored.1.closed.has_alloc _⟩
          rw [List.mem_singleton.1 member]
          exact stored.2
      | some address =>
          have stored := contained item heap _ closed
            (closed.refers_target (refers address rfl).1)
          exact setTarget_contained stored.1 refers stored.2

theorem storeAt_contained (contained : Contained region elem inner) :
    Contained region (.ptr elem) (storeAt elem inner) := by
  have inPlace : ∀ (item : Item elem) (heap : Heap) (address : Nat), heap.Closed region →
      heap.Has region elem (some address) →
        heap.Within (storeAt elem inner item heap (some address)).1 region ∧
          (storeAt elem inner item heap (some address)).1.Has region elem (some address) := by
    intro item heap address closed has
    have stored := contained item heap _ closed (closed.refers_target (has address rfl).1)
    exact setTarget_contained stored.1 has stored.2
  intro item heap cell closed refers
  cases cell with
  | some address => exact inPlace item heap address closed refers
  | none =>
      have allocated : heap.Within (heap.allocCell elem (zeroCell elem)) region :=
        closed.alloc fun cell member => by
          rw [List.mem_singleton.1 member]
          exact refers_zeroCell heap region elem
      have set := inPlace item _ (heap.size elem) allocated.closed (closed.has_alloc _)
      exact ⟨allocated.trans set.1, set.2⟩

theorem ptrStore_contained (contained : Contained region elem inner) :
    Contained region (.ptr elem) (ptrStore elem inner) := by
  intro item heap cell closed refers
  cases elem with
  | bigInt =>
      cases item with
      | none => exact ⟨.refl closed, heap.has_none region .bigInt⟩
      | some item => exact storeAt_contained contained item heap cell closed refers
  | number =>
      cases item with
      | none => exact ⟨.refl closed, heap.has_none region .number⟩
      | some item => exact storeAt_contained contained item heap cell closed refers
  | _ => exact storePtr_contained contained item heap cell closed refers

end Inner

theorem assocSet_refers {key elem : GoType} {entries : List (Cell key × Cell elem)}
    (refer : Refers heap region (.map key elem) entries) {keyCell : Cell key}
    {value : Cell elem} (keyRefers : Refers heap region key keyCell)
    (refers : Refers heap region elem value) :
    Refers heap region (.map key elem) (assocSet entries keyCell value) := by
  intro entry member
  rcases mem_assocSet member with rfl | old
  · exact ⟨keyRefers, refers⟩
  · exact refer entry old

theorem storeEntries_contained {key elem : GoType} {keyStore : Store (Item key) (Cell key)}
    {elemStore : Store (Item elem) (Cell elem)} (keys : Contained region key keyStore)
    (elems : Contained region elem elemStore) (items : List (Item key × Item elem))
    (closed : heap.Closed region) {keyCell : Cell key} {value : Cell elem}
    {entries : List (Cell key × Cell elem)} (keyRefers : Refers heap region key keyCell)
    (refers : Refers heap region elem value)
    (refer : Refers heap region (.map key elem) entries) :
    let result := storeEntries key elem keyStore elemStore items heap keyCell value entries
    heap.Within result.1 region ∧ Refers result.1 region (.map key elem) result.2 := by
  induction items generalizing heap keyCell value entries with
  | nil => exact ⟨.refl closed, refer⟩
  | cons item rest ih =>
      have keyed := keys item.1 heap keyCell closed keyRefers
      have start : Refers (keyStore item.1 heap keyCell).1 region elem
          (if elem.isMap then zeroCell elem else value) := by
        split_ifs
        · exact refers_zeroCell _ region elem
        · exact refers.later keyed.1.size
      have stored := elems item.2 _ _ keyed.1.closed start
      have size := (keyed.1.trans stored.1).size
      have keyLater := keyed.2.later stored.1.size
      have others := ih stored.1.closed keyLater stored.2
        (assocSet_refers (Refers.later size (.map key elem) entries refer) keyLater stored.2)
      exact ⟨(keyed.1.trans stored.1).trans others.1, others.2⟩

mutual
theorem place_contained (region : Region) : (type : GoType) → (tags : Tags) →
    Contained region type (place type tags)
  | .uint _, _ => fun _ _ _ closed _ => ⟨.refl closed, trivial⟩
  | .int _, _ => fun _ _ _ closed _ => ⟨.refl closed, trivial⟩
  | .bool, _ => fun _ _ _ closed _ => ⟨.refl closed, trivial⟩
  | .string, _ => fun _ _ _ closed _ => ⟨.refl closed, trivial⟩
  | .bigInt, _ => setBigInt_contained region bigEndian
  | .number, _ => setBytesAt_contained region
  | .rawValue, _ => setBytes_contained region
  | .slice elem, tags => taggedSliceStore_contained tags.tail (place_contained region elem {})
  | .array length elem, _ => arrayStore_contained length (place_contained region elem {})
  | .struct fields, _ => placeFields_contained region fields
  | .ptr elem, _ => ptrStore_contained (place_contained region elem {})
  | .map key elem, _ => fun items heap _ closed _ =>
      storeEntries_contained (place_contained region key {}) (place_contained region elem {})
        items closed (refers_zeroCell heap region key) (refers_zeroCell heap region elem)
        fun _ member => by cases member

theorem placeFields_contained (region : Region) : (fields : Fields) →
    Contained region (.struct fields) (placeFields fields)
  | .nil => fun _ _ _ closed _ => ⟨.refl closed, trivial⟩
  | .cons _ tags type rest => fun items heap cells closed refers => by
      have stored := place_contained region type tags items.1 heap cells.1 closed refers.1
      have others := placeFields_contained region rest items.2 _ cells.2 stored.1.closed
        (FieldsRefer.later stored.1.size rest cells.2 refers.2)
      exact ⟨stored.1.trans others.1, stored.2.later others.1.size, others.2⟩
end

end Bclib.Rlp
