/-!
# Debouncing

Calls that come in quick succession are merged: at most one call is pending, a new one replaces it
and starts its quiet time again. Time is whatever number the caller hands in, in milliseconds.
-/

namespace Vyper

/-- A call that waits for its quiet time to pass. -/
structure Pending (α : Type) where
  deadline : Nat
  args : α

structure Debouncer (α : Type) where
  /-- How long it has to be quiet before a call fires. -/
  wait : Nat := 500
  pending : Option (Pending α) := none

namespace Debouncer

variable {α : Type}

/-- Schedules a call in place of the one that was pending. Deadlines are numbers without a bound; a
clock whose readings have one could not tell a deadline behind its last reading. -/
def call (d : Debouncer α) (args : α) (now : Nat) : Debouncer α :=
  { d with pending := some ⟨now + d.wait, args⟩ }

def deadline? (d : Debouncer α) : Option Nat := d.pending.map (·.deadline)

def isPending (d : Debouncer α) : Bool := d.pending.isSome

/-- Takes the pending call, whatever the time. -/
def flush (d : Debouncer α) : Option α × Debouncer α :=
  (d.pending.map (·.args), { d with pending := none })

/-- Takes the pending call if it is due. -/
def poll (d : Debouncer α) (now : Nat) : Option α × Debouncer α :=
  match d.pending with
  | some p => if p.deadline ≤ now then d.flush else (none, d)
  | none => (none, d)

end Debouncer

end Vyper
