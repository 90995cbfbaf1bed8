import Bclib.Rlp.Head

namespace Bclib.Rlp

open Data

/-! The wire format as an inductive reading of the header rules: a string is
its own single byte or a header and its content, a list is a header and the
concatenation of its items. -/

/-- The string is one byte below `0x80`, which stands for itself. -/
def IsSingle (content : List Byte) : Prop :=
  content.length = 1 ∧ (content.headD 0).toNat < 128

instance : DecidablePred IsSingle :=
  fun content =>
    inferInstanceAs (Decidable (content.length = 1 ∧ (content.headD 0).toNat < 128))

def wireString (content : List Byte) : List Byte :=
  if IsSingle content then content
  else puthead 0x80 0xB7 content.length ++ content

def wireList (payload : List Byte) : List Byte :=
  puthead 0xC0 0xF7 payload.length ++ payload

/-- An integer travels as the string of its minimal big-endian bytes. -/
def wireUint (number : Nat) : List Byte := wireString (bigEndian number)

theorem isSingle_iff {content : List Byte} :
    IsSingle content ↔ ∃ byte : Byte, content = [byte] ∧ byte.toNat < 128 := by
  constructor
  · rintro ⟨one, small⟩
    obtain ⟨byte, rfl⟩ := List.length_eq_one_iff.mp one
    exact ⟨byte, rfl, small⟩
  · rintro ⟨byte, rfl, small⟩
    exact ⟨rfl, small⟩

theorem wireString_of_single {byte : Byte} (small : byte.toNat < 128) :
    wireString [byte] = [byte] :=
  if_pos (isSingle_iff.mpr ⟨byte, rfl, small⟩)

theorem wireString_of_not_single {content : List Byte}
    (headed : ¬ IsSingle content) :
    wireString content = puthead 0x80 0xB7 content.length ++ content :=
  if_neg headed

theorem length_le_wireString (content : List Byte) :
    content.length ≤ (wireString content).length := by
  unfold wireString
  split_ifs
  · exact Nat.le_refl _
  · simp

theorem wireString_length_pos (content : List Byte) :
    0 < (wireString content).length := by
  unfold wireString
  split_ifs with single
  · exact single.1 ▸ Nat.one_pos
  · have nonempty := List.length_pos_iff.mpr
      (puthead_ne_nil 0x80 0xB7 content.length)
    rw [List.length_append]
    omega

theorem length_lt_wireList (payload : List Byte) :
    payload.length < (wireList payload).length := by
  have nonempty := List.length_pos_iff.mpr
    (puthead_ne_nil 0xC0 0xF7 payload.length)
  rw [wireList, List.length_append]
  omega

theorem wireString_wireList (payload : List Byte) :
    wireString (wireList payload) =
      puthead 0x80 0xB7 (wireList payload).length ++ wireList payload := by
  refine wireString_of_not_single fun single => ?_
  have shorter := length_lt_wireList payload
  have one := single.1
  obtain rfl : payload = [] := List.eq_nil_of_length_eq_zero (by omega)
  exact absurd single (by decide)

theorem wireList_length_mono {left right : List Byte} (le : left.length ≤ right.length)
    (fits : right.length < 2 ^ 64) : (wireList left).length ≤ (wireList right).length := by
  rw [wireList, wireList, List.length_append, List.length_append]
  exact Nat.add_le_add (puthead_length_mono 0xC0 0xF7 le fits) le

theorem wireString_wireList_length_mono {left right : List Byte}
    (le : left.length ≤ right.length) (fits : (wireList right).length < 2 ^ 64) :
    (wireString (wireList left)).length ≤ (wireString (wireList right)).length := by
  have lists := wireList_length_mono le (Nat.lt_trans (length_lt_wireList right) fits)
  rw [wireString_wireList, wireString_wireList, List.length_append, List.length_append]
  exact Nat.add_le_add (puthead_length_mono 0x80 0xB7 lists fits) lists

end Bclib.Rlp
