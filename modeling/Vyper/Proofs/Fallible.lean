/-!
# Computations that can fail

A computation that succeeds has succeeded at every step, and one that fails has failed at a first
step.
-/

namespace Vyper

variable {ε α β : Type} {xs : List α}

theorem exists_of_bind_eq_ok {x : Except ε α} {f : α → Except ε β} {b : β}
    (h : x >>= f = .ok b) : ∃ a, x = .ok a ∧ f a = .ok b := by
  cases x with
  | error e => cases h
  | ok a => exact ⟨a, rfl, h⟩

theorem bind_of_eq_ok {x : Except ε α} {f : α → Except ε β} {a : α} (h : x = .ok a) :
    x >>= f = f a := by
  rw [h]
  rfl

theorem exists_of_bind_eq_error {x : Except ε α} {f : α → Except ε β} {e : ε}
    (h : x >>= f = .error e) : x = .error e ∨ ∃ a, x = .ok a ∧ f a = .error e := by
  cases x with
  | error e' =>
    cases h
    exact .inl rfl
  | ok a => exact .inr ⟨a, rfl, h⟩

theorem eq_ok_of_toOption {x : Except ε α} {a : α} (h : x.toOption = some a) : x = .ok a := by
  cases x with
  | error e => cases h
  | ok b =>
    cases h
    rfl

/-- What a computation fails with. -/
def failure? : Except ε α → Option ε
  | .ok _ => none
  | .error e => some e

theorem eq_error_of_failure? {x : Except ε α} {e : ε} (h : failure? x = some e) : x = .error e := by
  cases x with
  | error e' =>
    cases h
    rfl
  | ok a => cases h

theorem exists_of_forM_eq_error {f : α → Except ε PUnit} {e : ε}
    (h : xs.forM f = .error e) : ∃ x ∈ xs, f x = .error e := by
  induction xs with
  | nil => cases h
  | cons x xs ih =>
    rw [List.forM] at h
    cases hx : f x with
    | error e' =>
      rw [hx] at h
      cases h
      exact ⟨x, List.mem_cons_self, hx⟩
    | ok _ =>
      rw [hx] at h
      obtain ⟨y, hy, hfy⟩ := ih h
      exact ⟨y, List.mem_cons_of_mem x hy, hfy⟩

theorem exists_forM_eq_error {f : α → Except ε PUnit} {x : α} {e : ε}
    (hx : x ∈ xs) (h : f x = .error e) : ∃ e', xs.forM f = .error e' := by
  induction xs with
  | nil => cases hx
  | cons y ys ih =>
    rw [List.forM]
    cases hy : f y with
    | error e' => exact ⟨e', rfl⟩
    | ok _ =>
      rcases List.mem_cons.mp hx with rfl | hx
      · rw [h] at hy
        cases hy
      · exact ih hx

theorem forall_of_forM_eq_ok {f : α → Except ε PUnit} (h : xs.forM f = .ok ()) :
    ∀ x ∈ xs, f x = .ok () := by
  intro x hx
  cases hfx : f x with
  | ok _ => rfl
  | error e =>
    obtain ⟨e', he⟩ := exists_forM_eq_error hx hfx
    rw [h] at he
    cases he

theorem forM_eq_ok {f : α → Except ε PUnit} (h : ∀ x ∈ xs, f x = .ok ()) : xs.forM f = .ok () := by
  cases hforM : xs.forM f with
  | ok _ => rfl
  | error e =>
    obtain ⟨x, hx, he⟩ := exists_of_forM_eq_error hforM
    rw [h x hx] at he
    cases he

section Fold

variable {f : β → α → Except ε β} {b b' : β}

/-- What every step hands on holds at the end. -/
theorem foldlM_induction {I : List α → β → Prop}
    (step : ∀ done b x b', I done b → f b x = .ok b' → I (done ++ [x]) b') {done : List α}
    (hb : I done b) (h : xs.foldlM f b = .ok b') : I (done ++ xs) b' := by
  induction xs generalizing b done with
  | nil =>
    cases h
    rwa [List.append_nil]
  | cons x xs ih =>
    rw [List.foldlM_cons] at h
    obtain ⟨next, hx, hxs⟩ := exists_of_bind_eq_ok h
    have hall := ih (step done b x next hb hx) hxs
    rwa [List.append_assoc] at hall

/-- A fold that fails gets as far as a step that fails. -/
theorem exists_of_foldlM_eq_error {e : ε} (h : xs.foldlM f b = .error e) :
    ∃ done x rest b', xs = done ++ x :: rest ∧ done.foldlM f b = .ok b' ∧ f b' x = .error e := by
  induction xs generalizing b with
  | nil => cases h
  | cons x xs ih =>
    rw [List.foldlM_cons] at h
    cases hx : f b x with
    | error e' =>
      rw [hx] at h
      cases h
      exact ⟨[], x, xs, b, rfl, rfl, hx⟩
    | ok next =>
      rw [hx] at h
      obtain ⟨done, y, rest, b', rfl, hdone, hy⟩ := ih h
      refine ⟨x :: done, y, rest, b', rfl, ?_, hy⟩
      rw [List.foldlM_cons, hx]
      exact hdone

end Fold

end Vyper
