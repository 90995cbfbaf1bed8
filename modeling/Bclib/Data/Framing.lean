import Mathlib.Data.List.Basic

namespace Bclib.Data

/-! Messages one after another on a stream, each in a frame of its own. -/

/-- What a reader makes of the part of a stream it has. -/
inductive Parsed (μ β : Type) where
  | message (value : μ) (rest : List β)
  /-- The first frame is not there yet. -/
  | waits
  /-- No continuation of the stream gives a message. -/
  | broken
  deriving DecidableEq, Repr

/-- Frames that a parser finds again in front of anything.  A message that does not fit is
never read. -/
structure Framing (μ β : Type) where
  frame : μ → List β
  parse : List β → Parsed μ β
  Fits : μ → Prop
  parse_nil : parse [] = .waits
  parse_frame : ∀ {value}, Fits value → ∀ rest, parse (frame value ++ rest) = .message value rest
  parse_part : ∀ {value part missing}, Fits value → frame value = part ++ missing →
    missing ≠ [] → parse part = .waits
  parse_misfit : ∀ {value rest input more found later}, ¬Fits value →
    frame value ++ rest = input ++ more → parse input ≠ .message found later

namespace Framing

variable {μ β : Type} (F : Framing μ β) {values : List μ} {value : μ}
  {input rest more : List β}

def frames (values : List μ) : List β := values.flatMap F.frame

@[simp] theorem frames_nil : F.frames [] = [] := rfl

@[simp] theorem frames_cons : F.frames (value :: values) = F.frame value ++ F.frames values := rfl

@[simp] theorem frames_append (first second : List μ) :
    F.frames (first ++ second) = F.frames first ++ F.frames second := List.flatMap_append

variable {F}

theorem parse_cases (fits : F.Fits value) (stream : F.frame value ++ rest = input ++ more) :
    (∃ later, input = F.frame value ++ later ∧ rest = later ++ more ∧
        F.parse input = .message value later) ∨
      ∃ missing, missing ≠ [] ∧ F.frame value = input ++ missing ∧ more = missing ++ rest ∧
        F.parse input = .waits := by
  rcases List.append_eq_append_iff.1 stream with ⟨later, whole, split⟩ | ⟨missing, part, split⟩
  · refine .inl ⟨later, whole, split, ?_⟩
    rw [whole]
    exact F.parse_frame fits later
  · cases missing with
    | nil =>
        rw [List.append_nil] at part
        refine .inl ⟨[], ?_, split.symm, ?_⟩
        · rw [List.append_nil, part]
        · have first := F.parse_frame fits []
          rwa [List.append_nil, part] at first
    | cons byte others =>
        exact .inr ⟨byte :: others, List.cons_ne_nil _ _, part, split,
          F.parse_part fits part (List.cons_ne_nil _ _)⟩

theorem frames_of_parse (stream : F.frames values = input ++ more)
    (read : F.parse input = .message value rest) :
    ∃ others, values = value :: others ∧ F.Fits value ∧ input = F.frame value ++ rest ∧
      F.frames others = rest ++ more := by
  cases values with
  | nil =>
      obtain ⟨rfl, rfl⟩ := List.append_eq_nil_iff.1 stream.symm
      rw [F.parse_nil] at read
      cases read
  | cons first others =>
      rw [frames_cons] at stream
      by_cases fits : F.Fits first
      · rcases parse_cases fits stream with ⟨later, whole, split, parsed⟩ | ⟨-, -, -, -, parsed⟩
        · rw [parsed] at read
          cases read
          exact ⟨others, rfl, fits, whole, split⟩
        · rw [parsed] at read
          cases read
      · exact absurd read (F.parse_misfit fits stream)

theorem parse_ne_broken (fits : ∀ value ∈ values, F.Fits value)
    (stream : F.frames values = input ++ more) : F.parse input ≠ .broken := by
  cases values with
  | nil =>
      obtain ⟨rfl, rfl⟩ := List.append_eq_nil_iff.1 stream.symm
      rw [F.parse_nil]
      intro equal
      cases equal
  | cons first others =>
      rcases parse_cases (fits first List.mem_cons_self) stream with
        ⟨later, -, -, parsed⟩ | ⟨-, -, -, -, parsed⟩
      all_goals
        rw [parsed]
        intro equal
        cases equal

end Framing

end Bclib.Data
