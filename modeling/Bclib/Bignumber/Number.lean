import Bclib.Bn.Number

namespace Bclib.Bignumber

open Data

/-! The byte form of the older package `bignumber_v1.0`, beside that of `bn`.  Its methods
follow the wrapped `*big.Int` without a look whether it is nil. -/

abbrev Number := Option Int

/-- The body that `Number.SetBytes` and the package function share. -/
def signedValue (buf : List Byte) : Int :=
  -- 0xFF declares a negative
  if buf.length ≤ 1 then ofBigEndian buf
  else if buf.head? = some 0xFF#8 then -(ofBigEndian buf.tail : Int)
  else ofBigEndian buf

/-- What the number holds afterwards; none if the call panics. -/
def Number.setBytes (z : Number) (buf : List Byte) : Option Int :=
  z.map fun _ => signedValue buf

/-- The package function: into a new `big.Int`. -/
def setBytes (buf : List Byte) : Int := signedValue buf

/-- None if the call panics. -/
def Number.bytes (x : Number) : Option (List Byte) :=
  x.map fun value => (if value < 0 then 0xFF#8 else 0#8) :: bigEndian value.natAbs

theorem signedValue_eq_nsBytes {buf : List Byte} (other : buf ≠ [0xFF#8]) :
    signedValue buf = Bn.nsBytes buf := by
  rcases buf with _ | ⟨sign, _ | ⟨next, rest⟩⟩
  · rfl
  · have positive : sign ≠ 0xFF#8 := fun same => other (congrArg (fun byte => [byte]) same)
    rw [signedValue, if_pos (Nat.le_of_eq List.length_singleton), Bn.nsBytes, Bn.setBytes,
      if_neg positive]
  · have long : ¬(sign :: next :: rest).length ≤ 1 := by simp
    rw [signedValue, if_neg long, Bn.nsBytes, Bn.setBytes]
    simp only [List.head?_cons, Option.some.injEq, List.tail_cons]

/-- The decoders part on one input, which one package reads as a sign and the other as a
magnitude. -/
theorem nsBytes_eq_setBytes_iff (buf : List Byte) :
    Bn.nsBytes buf = setBytes buf ↔ buf ≠ [0xFF#8] := by
  constructor
  · rintro same rfl
    exact absurd same (by decide)
  · intro other
    exact (signedValue_eq_nsBytes other).symm

theorem loneSign_diverges : Bn.nsBytes [0xFF#8] ≠ setBytes [0xFF#8] := by decide

theorem bytes_ne_loneSign (x : Int) : Bn.bytes (some x) ≠ [0xFF#8] := by
  intro same
  have read := Bn.setBytes_bytes none x
  rw [same] at read
  have zero : x = 0 := read.symm
  subst zero
  exact absurd same (by decide)

theorem signedValue_bytes (x : Int) : signedValue (Bn.bytes (some x)) = x :=
  (signedValue_eq_nsBytes (bytes_ne_loneSign x)).trans (Bn.setBytes_bytes (some 0) x)

theorem Number.bytes_some (x : Int) : Number.bytes (some x) = some (Bn.bytes (some x)) := rfl

/-- Each of the four decoders yields the number; `prior` is what the receiver of `bn` held and
`z` the receiver of the older package. -/
structure Yields (x : Int) (prior : Option Int) (z : Number) (buf : List Byte) : Prop where
  bnSetBytes : Bn.setBytes prior buf = x
  nsBytes : Bn.nsBytes buf = x
  numberSetBytes : z.setBytes buf = some x
  setBytes : setBytes buf = x

/-- Both packages write the number, and what they write is decoded. -/
def RoundTrips (x : Int) (prior : Option Int) (z : Number) : Prop :=
  Yields x prior z (Bn.bytes (some x)) ∧
    ∃ buf, Number.bytes (some x) = some buf ∧ Yields x prior z buf

theorem yields_of_some (x : Int) (prior : Option Int) (held : Int) :
    Yields x prior (some held) (Bn.bytes (some x)) where
  bnSetBytes := Bn.setBytes_bytes prior x
  nsBytes := Bn.setBytes_bytes (some 0) x
  numberSetBytes := congrArg some (signedValue_bytes x)
  setBytes := signedValue_bytes x

theorem roundTrips_iff (x : Int) (prior : Option Int) (z : Number) :
    RoundTrips x prior z ↔ z ≠ none := by
  constructor
  · rintro ⟨yields, -⟩ rfl
    cases yields.numberSetBytes
  · intro allocated
    obtain ⟨held, rfl⟩ := Option.ne_none_iff_exists'.1 allocated
    exact ⟨yields_of_some x prior held, _, Number.bytes_some x, yields_of_some x prior held⟩

theorem nilNumber_panics : ¬RoundTrips 1 none none := by
  rintro ⟨yields, -⟩
  cases yields.numberSetBytes

end Bclib.Bignumber
