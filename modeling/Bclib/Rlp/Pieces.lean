import Bclib.Rlp.Encode
import Bclib.Rlp.Wire

namespace Bclib.Rlp

open Data

/-! What a writer adds to the buffer: string data and finished list headers in
the order of the output.  The flat buffer with its deferred headers is a
representation of such a sequence. -/

inductive Piece where
  | data (bytes : List Byte)
  | head (size : Nat)
  deriving DecidableEq, Repr

def Piece.bytes : Piece → List Byte
  | .data bytes => bytes
  | .head size => puthead 0xC0 0xF7 size

def Piece.Short : Piece → Prop
  | .data _ => True
  | .head size => size < 2 ^ 64

def render (pieces : List Piece) : List Byte := pieces.flatMap Piece.bytes

@[simp] theorem render_nil : render [] = [] := rfl

@[simp] theorem render_cons (piece : Piece) (pieces : List Piece) :
    render (piece :: pieces) = piece.bytes ++ render pieces := rfl

@[simp] theorem render_append (left right : List Piece) :
    render (left ++ right) = render left ++ render right := by
  simp [render]

theorem render_flatMap (pieces : α → List Piece) (values : List α) :
    render (values.flatMap pieces) = values.flatMap (fun value => render (pieces value)) := by
  simp [render, List.flatMap_assoc]

def listPieces (body : List Piece) : List Piece :=
  .head (render body).length :: body

theorem render_listPieces (body : List Piece) :
    render (listPieces body) = wireList (render body) := rfl

namespace Encbuf

def add (w : Encbuf) : Piece → Encbuf
  | .data bytes => w.write bytes
  | .head size =>
      { w with
        lheads := w.lheads ++ [⟨w.str.length, size⟩]
        lhsize := w.lhsize + headsize size }

def addAll (w : Encbuf) (pieces : List Piece) : Encbuf := pieces.foldl add w

@[simp] theorem addAll_nil (w : Encbuf) : w.addAll [] = w := rfl

@[simp] theorem addAll_cons (w : Encbuf) (piece : Piece) (pieces : List Piece) :
    w.addAll (piece :: pieces) = (w.add piece).addAll pieces := rfl

theorem addAll_append (w : Encbuf) (left right : List Piece) :
    w.addAll (left ++ right) = (w.addAll left).addAll right := by
  simp [addAll]

theorem addAll_data (w : Encbuf) (bytes : List Byte) :
    w.addAll [.data bytes] = w.write bytes := rfl

def strOf : List Piece → List Byte
  | [] => []
  | .data bytes :: rest => bytes ++ strOf rest
  | .head _ :: rest => strOf rest

def headsOf : Nat → List Piece → List ListHead
  | _, [] => []
  | base, .data bytes :: rest => headsOf (base + bytes.length) rest
  | base, .head size :: rest => ⟨base, size⟩ :: headsOf base rest

def headBytes : List Piece → Nat
  | [] => 0
  | .data _ :: rest => headBytes rest
  | .head size :: rest => headsize size + headBytes rest

theorem addAll_eq (w : Encbuf) (pieces : List Piece) :
    w.addAll pieces =
      ⟨w.str ++ strOf pieces, w.lheads ++ headsOf w.str.length pieces,
        w.lhsize + headBytes pieces⟩ := by
  induction pieces generalizing w with
  | nil => simp [strOf, headsOf, headBytes]
  | cons piece rest ih =>
      rw [addAll_cons, ih]
      cases piece with
      | data bytes =>
          simp [add, write, strOf, headsOf, headBytes]
      | head size =>
          simp [add, strOf, headsOf, headBytes, Nat.add_assoc]

theorem render_length {pieces : List Piece}
    (short : ∀ piece ∈ pieces, piece.Short) :
    (strOf pieces).length + headBytes pieces = (render pieces).length := by
  induction pieces with
  | nil => rfl
  | cons piece rest ih =>
      have total := ih (fun other member => short other (by simp [member]))
      cases piece with
      | data bytes =>
          simp only [strOf, headBytes, render_cons, Piece.bytes, List.length_append]
          omega
      | head size =>
          have fits : size < 2 ^ 64 := short (.head size) (by simp)
          simp only [strOf, headBytes, render_cons, Piece.bytes, List.length_append,
            puthead_length fits]
          omega

theorem size_addAll (w : Encbuf) {pieces : List Piece}
    (short : ∀ piece ∈ pieces, piece.Short) :
    (w.addAll pieces).size = w.size + (render pieces).length := by
  simp only [addAll_eq, size, ← render_length short, List.length_append]
  omega

private theorem le_offset {pieces : List Piece} {base : Nat} {head : ListHead}
    (member : head ∈ headsOf base pieces) : base ≤ head.offset := by
  induction pieces generalizing base with
  | nil => simp [headsOf] at member
  | cons piece rest ih =>
      cases piece with
      | data bytes =>
          have later : base + bytes.length ≤ head.offset := ih member
          omega
      | head size =>
          rcases List.mem_cons.mp member with rfl | later
          · exact Nat.le_refl _
          · exact ih later

private theorem splice_copy (str : List Byte) {strpos : Nat} (count : Nat)
    {heads : List ListHead} (behind : ∀ head ∈ heads, strpos + count ≤ head.offset) :
    splice str strpos heads =
      (str.drop strpos).take count ++ splice str (strpos + count) heads := by
  cases heads with
  | nil => simp [splice, ← List.drop_drop]
  | cons head rest =>
      have far := behind head (by simp)
      simp only [splice, ← List.append_assoc]
      congr 2
      rw [List.drop_take, List.drop_take, ← List.drop_drop]
      have split : head.offset - strpos = count + (head.offset - (strpos + count)) := by
        omega
      rw [split, List.take_add]

private theorem splice_pieces (pre : List Byte) (pieces : List Piece) :
    splice (pre ++ strOf pieces) pre.length (headsOf pre.length pieces) =
      render pieces := by
  induction pieces generalizing pre with
  | nil => simp [splice, strOf, headsOf]
  | cons piece rest ih =>
      cases piece with
      | data bytes =>
          have tail := ih (pre ++ bytes)
          rw [List.length_append] at tail
          rw [strOf, headsOf, splice_copy _ bytes.length
            (fun head member => le_offset member), ← List.append_assoc, tail]
          simp [Piece.bytes]
      | head size =>
          simp only [strOf, headsOf, splice, ListHead.encode, ih, render_cons,
            Piece.bytes]
          simp

theorem toBytes_reset_addAll (pieces : List Piece) :
    (reset.addAll pieces).toBytes = render pieces := by
  rw [addAll_eq, toBytes]
  simpa [reset] using splice_pieces [] pieces

theorem listEnd_list_addAll (w : Encbuf) {body : List Piece}
    (short : ∀ piece ∈ body, piece.Short) :
    (w.list.2.addAll body).listEnd w.list.1 = w.addAll (listPieces body) := by
  have length := render_length short
  have closing : (w.str ++ strOf body).length + (w.lhsize + headBytes body) -
      w.str.length - w.lhsize = (render body).length := by
    rw [List.length_append]
    omega
  rw [addAll_eq, addAll_eq, listEnd]
  simp only [list, size, List.append_assoc, List.singleton_append,
    List.getElem?_append_right (Nat.le_refl _), Nat.sub_self,
    List.getElem?_cons_zero, closing, listPieces, strOf, headsOf, headBytes, headsize]
  simp only [mk.injEq, true_and]
  constructor
  · simp
  · split_ifs <;> omega

end Encbuf

end Bclib.Rlp
