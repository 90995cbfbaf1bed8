namespace Bclib.Go

/-! Buffered channels. -/

/-- What a channel holds, oldest first, and whether it was closed. -/
structure Chan (α : Type) (capacity : Nat) where
  buffer : List α
  closed : Bool
  fits : buffer.length ≤ capacity
  deriving DecidableEq, Repr

namespace Chan

/-- Sending on a closed channel panics; on a full one it waits. -/
inductive Sent (α : Type) (capacity : Nat) where
  | done (chan : Chan α capacity)
  | blocks
  | panics
  deriving DecidableEq, Repr

/-- A closed channel gives zero values once it is empty. -/
inductive Received (α : Type) (capacity : Nat) where
  | value (value : α) (chan : Chan α capacity)
  | zero
  | blocks
  deriving DecidableEq, Repr

variable {α : Type} {capacity : Nat}

def make (α : Type) (capacity : Nat) : Chan α capacity := ⟨[], false, Nat.zero_le _⟩

def len (chan : Chan α capacity) : Nat := chan.buffer.length

def send (value : α) (chan : Chan α capacity) : Sent α capacity :=
  if chan.closed then .panics
  else if room : chan.buffer.length < capacity then
    .done ⟨chan.buffer ++ [value], false, by
      rw [List.length_append]
      exact room⟩
  else .blocks

def receive (chan : Chan α capacity) : Received α capacity :=
  match chan with
  | ⟨value :: rest, closed, fits⟩ =>
      .value value ⟨rest, closed, Nat.le_trans (Nat.le_succ _) fits⟩
  | ⟨[], true, _⟩ => .zero
  | ⟨[], false, _⟩ => .blocks

/-- Closing twice panics. -/
def close (chan : Chan α capacity) : Option (Chan α capacity) :=
  if chan.closed then none else some { chan with closed := true }

theorem send_done {value : α} {chan after : Chan α capacity}
    (sent : chan.send value = .done after) :
    after.buffer = chan.buffer ++ [value] ∧ chan.closed = false ∧ after.closed = false := by
  unfold send at sent
  split at sent
  · cases sent
  · rename_i opened
    split at sent
    · cases sent
      exact ⟨rfl, Bool.eq_false_iff.2 opened, rfl⟩
    · cases sent

theorem send_panics_iff {value : α} {chan : Chan α capacity} :
    chan.send value = .panics ↔ chan.closed = true := by
  unfold send
  split
  · rename_i closed
    exact ⟨fun _ => closed, fun _ => rfl⟩
  · rename_i opened
    refine ⟨fun panics => ?_, fun closed => absurd closed opened⟩
    split at panics <;> cases panics

theorem receive_value {value : α} {chan after : Chan α capacity}
    (received : chan.receive = .value value after) :
    chan.buffer = value :: after.buffer ∧ after.closed = chan.closed := by
  obtain ⟨buffer, closed, fits⟩ := chan
  cases buffer with
  | nil => cases closed <;> cases received
  | cons first rest =>
      cases received
      exact ⟨rfl, rfl⟩

theorem close_some {chan after : Chan α capacity} (ended : chan.close = some after) :
    chan.closed = false ∧ after.buffer = chan.buffer ∧ after.closed = true := by
  unfold close at ended
  split at ended
  · cases ended
  · rename_i opened
    cases ended
    exact ⟨Bool.eq_false_iff.2 opened, rfl, rfl⟩

end Chan

end Bclib.Go
