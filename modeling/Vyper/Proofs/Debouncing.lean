import Mathlib.Data.List.ReduceOption
import Mathlib.Data.Nat.Find
import Vyper.Editor.Debounce

/-!
# Histories of a debouncer

A history is a list of steps, each a call, a poll or a flush at a time. What a debouncer holds
behind a history is told by the history alone: the last call, if no step behind it has taken it out
(`Debouncer.pending_after_iff`). So a call fires at the first step behind it that can take it out,
unless another call comes before that (`Debouncer.coalesces`).

Two calls may have the same arguments. To tell them apart each call is given its index in the
history; a debouncer never looks at arguments, so this changes nothing else
(`Debouncer.outputs_map`).
-/

namespace Vyper.Debouncer

variable {α β : Type}

/-- What is done with a debouncer. -/
inductive Action (α : Type) where
  | call (args : α)
  | poll
  | flush

/-- What is done, and when. -/
structure Step (α : Type) where
  time : Nat
  action : Action α

namespace Step

/-- The arguments, if the step is a call. -/
def args? (e : Step α) : Option α :=
  match e.action with
  | .call args => some args
  | .poll | .flush => none

/-- Whether a step takes out a call with a deadline. -/
def releases (e : Step α) (deadline : Nat) : Bool :=
  match e.action with
  | .call _ => false
  | .poll => deadline ≤ e.time
  | .flush => true

/-- The step with other arguments. -/
def map (f : α → β) (e : Step α) : Step β :=
  ⟨e.time, match e.action with
    | .call args => .call (f args)
    | .poll => .poll
    | .flush => .flush⟩

@[simp] theorem time_map (f : α → β) (e : Step α) : (e.map f).time = e.time := rfl

@[simp] theorem args?_map (f : α → β) (e : Step α) : (e.map f).args? = e.args?.map f := by
  obtain ⟨time, action⟩ := e
  cases action <;> rfl

@[simp] theorem releases_map (f : α → β) (e : Step α) (deadline : Nat) :
    (e.map f).releases deadline = e.releases deadline := by
  obtain ⟨time, action⟩ := e
  cases action <;> rfl

theorem releases_of_args? {e : Step α} {a : α} (h : e.args? = some a) (deadline : Nat) :
    e.releases deadline = false := by
  obtain ⟨time, action⟩ := e
  cases action with
  | call args => rfl
  | poll | flush => cases h

end Step

/-- What a step takes out of a debouncer, and the debouncer behind it. -/
def step (d : Debouncer α) (e : Step α) : Option α × Debouncer α :=
  match e.action with
  | .call args => (none, d.call args e.time)
  | .poll => d.poll e.time
  | .flush => d.flush

/-- What each step of a history takes out. -/
def outputs (d : Debouncer α) : List (Step α) → List (Option α)
  | [] => []
  | e :: es => (d.step e).1 :: (d.step e).2.outputs es

/-- The debouncer behind a history. -/
def after (d : Debouncer α) (es : List (Step α)) : Debouncer α :=
  es.foldl (fun d e => (d.step e).2) d

/-! ### One step -/

theorem step_of_call (d : Debouncer α) {e : Step α} {a : α} (h : e.args? = some a) :
    d.step e = (none, { d with pending := some ⟨e.time + d.wait, a⟩ }) := by
  obtain ⟨time, action⟩ := e
  cases action with
  | call args =>
    cases h
    rfl
  | poll | flush => cases h

/-- A step that is no call takes the pending call out, or leaves everything as it is. -/
theorem step_of_no_call (d : Debouncer α) {e : Step α} (h : e.args? = none) :
    d.step e = if d.pending.any (e.releases ·.deadline)
      then (d.pending.map (·.args), { d with pending := none }) else (none, d) := by
  obtain ⟨time, action⟩ := e
  obtain ⟨wait, pending⟩ := d
  cases action with
  | call args => cases h
  | poll =>
    cases pending with
    | none => rfl
    | some p => by_cases hdue : p.deadline ≤ time <;> simp [step, poll, flush, Step.releases, hdue]
  | flush => cases pending <;> rfl

theorem wait_step (d : Debouncer α) (e : Step α) : (d.step e).2.wait = d.wait := by
  cases hargs : e.args? with
  | some a => rw [step_of_call d hargs]
  | none =>
    rw [step_of_no_call d hargs]
    split <;> rfl

theorem step_map (f : α → β) (d : Debouncer α) (e : Step α) :
    step ⟨d.wait, d.pending.map fun p => ⟨p.deadline, f p.args⟩⟩ (e.map f) =
      ((d.step e).1.map f,
        ⟨d.wait, (d.step e).2.pending.map fun p => ⟨p.deadline, f p.args⟩⟩) := by
  cases hargs : e.args? with
  | some a =>
    rw [step_of_call d hargs, step_of_call _ (by rw [Step.args?_map, hargs]; rfl)]
    rfl
  | none =>
    rw [step_of_no_call d hargs, step_of_no_call _ (by rw [Step.args?_map, hargs]; rfl)]
    cases hpending : d.pending with
    | none => simp [hpending]
    | some p => cases hdue : e.releases p.deadline <;> simp [hdue, hpending]

/-! ### A whole history -/

theorem after_take_succ (d : Debouncer α) {es : List (Step α)} {n : Nat} {e : Step α}
    (h : es[n]? = some e) : d.after (es.take (n + 1)) = ((d.after (es.take n)).step e).2 := by
  rw [List.take_add_one, h, after, List.foldl_append]
  rfl

theorem wait_after (d : Debouncer α) (es : List (Step α)) : (d.after es).wait = d.wait := by
  induction es generalizing d with
  | nil => rfl
  | cons e es ih => exact (ih (d.step e).2).trans (wait_step d e)

theorem getElem?_outputs (d : Debouncer α) (es : List (Step α)) (j : Nat) :
    (d.outputs es)[j]? = es[j]?.map fun e => ((d.after (es.take j)).step e).1 := by
  induction es generalizing d j with
  | nil => rfl
  | cons e es ih =>
    cases j with
    | zero => rfl
    | succ j => exact ih (d.step e).2 j

/-- Other arguments come out, at the same steps. -/
theorem outputs_map (f : α → β) (d : Debouncer α) (es : List (Step α)) :
    outputs ⟨d.wait, d.pending.map fun p => ⟨p.deadline, f p.args⟩⟩ (es.map (Step.map f)) =
      (d.outputs es).map (Option.map f) := by
  induction es generalizing d with
  | nil => rfl
  | cons e es ih =>
    rw [List.map_cons, outputs, outputs, step_map, List.map_cons, ← ih (d.step e).2, wait_step]

/-- What fires is the pending call and some of the calls to come, in their order. -/
theorem outputs_sublist (d : Debouncer α) (es : List (Step α)) :
    (d.outputs es).reduceOption.Sublist
      (d.pending.toList.map (·.args) ++ es.filterMap Step.args?) := by
  induction es generalizing d with
  | nil => exact List.nil_sublist _
  | cons e es ih =>
    have hrest := ih (d.step e).2
    cases hargs : e.args? with
    | some a =>
      rw [step_of_call d hargs] at hrest
      rw [outputs, step_of_call d hargs, List.reduceOption_cons_of_none,
        List.filterMap_cons_some hargs]
      exact hrest.trans (List.sublist_append_right _ _)
    | none =>
      rw [step_of_no_call d hargs] at hrest
      rw [outputs, step_of_no_call d hargs, List.filterMap_cons_none hargs]
      cases hpending : d.pending with
      | none => simpa [hpending] using hrest
      | some p => cases hdue : e.releases p.deadline <;> simpa [hdue, hpending] using hrest

/-- Call `i` of a history waits behind `n` steps: nothing since was a call or took it out. -/
structure Waits (wait : Nat) (es : List (Step α)) (n i : Nat) (p : Pending α) : Prop where
  before : i < n
  call : ∃ e, es[i]? = some e ∧ e.args? = some p.args ∧ p.deadline = e.time + wait
  quiet : ∀ k e, i < k → k < n → es[k]? = some e → e.args? = none ∧ e.releases p.deadline = false

theorem Waits.of_call (wait : Nat) {es : List (Step α)} {n : Nat} {e : Step α} {a : α}
    (he : es[n]? = some e) (ha : e.args? = some a) :
    Waits wait es (n + 1) n ⟨e.time + wait, a⟩ where
  before := by omega
  call := ⟨e, he, ha, rfl⟩
  quiet := by
    intro k e' hlt hk
    omega

theorem Waits.eq_of_call {wait : Nat} {es : List (Step α)} {n i : Nat} {p : Pending α} {e : Step α}
    {a : α} (h : Waits wait es (n + 1) i p) (he : es[n]? = some e) (ha : e.args? = some a) :
    p = ⟨e.time + wait, a⟩ := by
  have hbefore := h.before
  by_cases hi : i = n
  · subst hi
    obtain ⟨e', he', hargs, hdeadline⟩ := h.call
    obtain rfl : e = e' := Option.some.inj (he.symm.trans he')
    obtain rfl : a = p.args := Option.some.inj (ha.symm.trans hargs)
    rw [← hdeadline]
  · obtain ⟨hnone, -⟩ := h.quiet n e (by omega) (by omega) he
    rw [ha] at hnone
    cases hnone

theorem waits_succ_iff {wait : Nat} {es : List (Step α)} {n i : Nat} {p : Pending α} {e : Step α}
    (he : es[n]? = some e) (ha : e.args? = none) :
    Waits wait es (n + 1) i p ↔ Waits wait es n i p ∧ e.releases p.deadline = false := by
  constructor
  · intro h
    have hbefore := h.before
    have hne : i ≠ n := by
      intro hi
      subst hi
      obtain ⟨e', he', hargs, -⟩ := h.call
      rw [← Option.some.inj (he.symm.trans he'), ha] at hargs
      cases hargs
    refine ⟨⟨by omega, h.call, ?_⟩, (h.quiet n e (by omega) (by omega) he).2⟩
    intro k e' hlt hk
    exact h.quiet k e' hlt (by omega)
  · intro ⟨h, hreleases⟩
    have hbefore := h.before
    refine ⟨by omega, h.call, ?_⟩
    intro k e' hlt hk he'
    by_cases hkn : k = n
    · subst hkn
      rw [← Option.some.inj (he.symm.trans he')]
      exact ⟨ha, hreleases⟩
    · exact h.quiet k e' hlt (by omega) he'

/-- What is pending behind some steps is the call that waits there. -/
theorem pending_after_iff (wait : Nat) (es : List (Step α)) {n : Nat} (hn : n ≤ es.length)
    (p : Pending α) :
    (after { wait } (es.take n)).pending = some p ↔ ∃ i, Waits wait es n i p := by
  induction n generalizing p with
  | zero =>
    constructor
    · intro h
      cases h
    · intro ⟨i, h⟩
      exact absurd h.before (Nat.not_lt_zero i)
  | succ n ih =>
    have he : es[n]? = some es[n] := List.getElem?_eq_getElem hn
    rw [after_take_succ _ he]
    cases ha : es[n].args? with
    | some a =>
      rw [step_of_call _ ha, wait_after]
      constructor
      · intro h
        rw [← Option.some.inj h]
        exact ⟨n, .of_call wait he ha⟩
      · intro ⟨i, h⟩
        rw [h.eq_of_call he ha]
    | none =>
      rw [step_of_no_call _ ha]
      have hsame := ih (Nat.le_of_succ_le hn)
      constructor
      · intro h
        have hpending : (after { wait } (es.take n)).pending = some p := by
          split at h
          · cases h
          · exact h
        obtain ⟨i, hi⟩ := (hsame p).mp hpending
        refine ⟨i, (waits_succ_iff he ha).mpr ⟨hi, ?_⟩⟩
        rw [hpending, Option.any_some] at h
        cases hdue : es[n].releases p.deadline with
        | false => rfl
        | true =>
          rw [if_pos hdue] at h
          cases h
      · intro ⟨i, h⟩
        obtain ⟨hi, hdue⟩ := (waits_succ_iff he ha).mp h
        have hpending := (hsame p).mpr ⟨i, hi⟩
        rw [hpending, Option.any_some, hdue]
        exact hpending

/-- A step takes out the call that waits for it, if it takes out calls with that deadline. -/
theorem output_iff (wait : Nat) (es : List (Step α)) (j : Nat) (a : α) :
    (outputs { wait } es)[j]? = some (some a) ↔
      ∃ e, es[j]? = some e ∧ ∃ i p, Waits wait es j i p ∧ p.args = a ∧
        e.releases p.deadline = true := by
  rw [getElem?_outputs, Option.map_eq_some_iff]
  refine exists_congr fun e => and_congr_right fun he => ?_
  have hj : j ≤ es.length := Nat.le_of_lt (List.getElem?_eq_some_iff.mp he).1
  have hpending := pending_after_iff wait es hj
  cases hargs : e.args? with
  | some b =>
    rw [step_of_call _ hargs]
    constructor
    · intro h
      cases h
    · intro ⟨i, p, _, _, hdue⟩
      rw [Step.releases_of_args? hargs] at hdue
      cases hdue
  | none =>
    rw [step_of_no_call _ hargs]
    constructor
    · intro h
      cases hslot : (after { wait } (es.take j)).pending with
      | none => simp [hslot] at h
      | some p =>
        obtain ⟨i, hi⟩ := (hpending p).mp hslot
        cases hdue : e.releases p.deadline with
        | false => simp [hslot, hdue] at h
        | true => exact ⟨i, p, hi, by simpa [hslot, hdue] using h, hdue⟩
    · intro ⟨i, p, hi, hargs, hdue⟩
      have hslot := (hpending p).mpr ⟨i, hi⟩
      simp [hslot, hdue, hargs]

/-! ### Which calls fire -/

/-- Step `j` can take out call `i`: it comes behind the call with no other call in between, and is a
flush, or a poll when the quiet time of the call has passed. -/
def Due (wait : Nat) (es : List (Step α)) (i j : Nat) : Prop :=
  i < j ∧ (∀ k e, i < k → k < j → es[k]? = some e → e.args? = none) ∧
    ∃ call e, es[i]? = some call ∧ call.args?.isSome ∧ es[j]? = some e ∧
      e.releases (call.time + wait) = true

/-- The calls of a history with their indices, and all else as it was. -/
def numbered (es : List (Step α)) : List (Step (Nat × α)) := es.mapIdx fun i e => e.map (i, ·)

theorem getElem?_numbered (es : List (Step α)) (i : Nat) :
    (numbered es)[i]? = es[i]?.map (Step.map (i, ·)) := List.getElem?_mapIdx

theorem map_numbered (es : List (Step α)) : (numbered es).map (Step.map Prod.snd) = es := by
  apply List.ext_getElem?
  intro i
  rw [List.getElem?_map, getElem?_numbered, Option.map_map]
  have hid : (Step.map Prod.snd ∘ Step.map (i, ·) : Step α → Step α) = id := by
    funext ⟨time, action⟩
    cases action <;> rfl
  rw [hid, Option.map_id]
  rfl

theorem waits_numbered_iff {wait : Nat} {es : List (Step α)} {n i : Nat} {call : Step α} {a : α}
    (hcall : es[i]? = some call) (ha : call.args? = some a) :
    Waits wait (numbered es) n i ⟨call.time + wait, (i, a)⟩ ↔
      i < n ∧ ∀ k e, i < k → k < n → es[k]? = some e →
        e.args? = none ∧ e.releases (call.time + wait) = false := by
  have hstep : ∀ {k : Nat} {e : Step α}, es[k]? = some e →
      (numbered es)[k]? = some (e.map (k, ·)) := by
    intro k e he
    rw [getElem?_numbered, he, Option.map_some]
  constructor
  · intro h
    refine ⟨h.before, ?_⟩
    intro k e hlt hk he
    obtain ⟨hargs, hdue⟩ := h.quiet k _ hlt hk (hstep he)
    rw [Step.args?_map, Option.map_eq_none_iff] at hargs
    rw [Step.releases_map] at hdue
    exact ⟨hargs, hdue⟩
  · intro ⟨hbefore, hquiet⟩
    refine ⟨hbefore, ⟨_, hstep hcall, by rw [Step.args?_map, ha]; rfl, rfl⟩, ?_⟩
    intro k e hlt hk he
    rw [getElem?_numbered, Option.map_eq_some_iff] at he
    obtain ⟨e₀, he₀, rfl⟩ := he
    obtain ⟨hargs, hdue⟩ := hquiet k e₀ hlt hk he₀
    rw [Step.args?_map, Step.releases_map, hargs]
    exact ⟨rfl, hdue⟩

/-- A call that waits in a numbered history is a call of the history. -/
theorem Waits.exists_call {wait : Nat} {es : List (Step α)} {n i : Nat} {p : Pending (Nat × α)}
    (h : Waits wait (numbered es) n i p) :
    ∃ call a, es[i]? = some call ∧ call.args? = some a ∧ p = ⟨call.time + wait, (i, a)⟩ := by
  obtain ⟨e, he, hargs, hdeadline⟩ := h.call
  rw [getElem?_numbered, Option.map_eq_some_iff] at he
  obtain ⟨call, hcall, rfl⟩ := he
  rw [Step.args?_map, Option.map_eq_some_iff] at hargs
  obtain ⟨a, ha, hp⟩ := hargs
  refine ⟨call, a, hcall, ha, ?_⟩
  rw [hp, ← Step.time_map (i, ·) call, ← hdeadline]

/-- Step `j` takes out call `i` if it is the first that can. -/
theorem output_numbered_iff (wait : Nat) (es : List (Step α)) (i j : Nat) (a : α) :
    (outputs { wait } (numbered es))[j]? = some (some (i, a)) ↔
      es[i]?.bind Step.args? = some a ∧ Due wait es i j ∧ ∀ k < j, ¬ Due wait es i k := by
  rw [output_iff]
  constructor
  · intro ⟨e, he, i', p, hwaits, hp, hdue⟩
    obtain ⟨call, b, hcall, hb, rfl⟩ := hwaits.exists_call
    obtain ⟨rfl, rfl⟩ := Prod.mk.inj hp
    obtain ⟨hbefore, hquiet⟩ := (waits_numbered_iff hcall hb).mp hwaits
    rw [getElem?_numbered, Option.map_eq_some_iff] at he
    obtain ⟨e₀, he₀, rfl⟩ := he
    rw [Step.releases_map] at hdue
    refine ⟨by rw [hcall]; exact hb, ⟨hbefore, ?_, call, e₀, hcall, by rw [hb]; rfl, he₀, hdue⟩, ?_⟩
    · intro k e hlt hk he
      exact (hquiet k e hlt hk he).1
    · intro k hk ⟨hlt, _, call', e, hcall', _, he, hreleases⟩
      obtain rfl : call = call' := Option.some.inj (hcall.symm.trans hcall')
      rw [(hquiet k e hlt hk he).2] at hreleases
      cases hreleases
  · intro ⟨hargs, ⟨hbefore, halone, call, e, hcall, _, he, hdue⟩, hfirst⟩
    rw [hcall, Option.bind_some] at hargs
    refine ⟨e.map (j, ·), by rw [getElem?_numbered, he]; rfl, i,
      ⟨call.time + wait, (i, a)⟩, ?_, rfl, by rw [Step.releases_map]; exact hdue⟩
    refine (waits_numbered_iff hcall hargs).mpr ⟨hbefore, ?_⟩
    intro k e' hlt hk he'
    refine ⟨halone k e' hlt hk he', ?_⟩
    cases hearlier : e'.releases (call.time + wait) with
    | false => rfl
    | true =>
      refine absurd ?_ (hfirst k hk)
      refine ⟨hlt, ?_, call, e', hcall, by rw [hargs]; rfl, he', hearlier⟩
      intro l e'' hil hlk
      exact halone l e'' hil (by omega)

/-- Step `j` of a history takes out call `i`. -/
def Fires (wait : Nat) (es : List (Step α)) (i j : Nat) : Prop :=
  ∃ a, (outputs { wait } (numbered es))[j]? = some (some (i, a))

theorem fires_iff (wait : Nat) (es : List (Step α)) (i j : Nat) :
    Fires wait es i j ↔ Due wait es i j ∧ ∀ k < j, ¬ Due wait es i k := by
  constructor
  · intro ⟨a, h⟩
    exact ((output_numbered_iff wait es i j a).mp h).2
  · intro h
    obtain ⟨_, _, call, e, hcall, hsome, _⟩ := h.1
    obtain ⟨a, ha⟩ := Option.isSome_iff_exists.mp hsome
    exact ⟨a, (output_numbered_iff wait es i j a).mpr ⟨by rw [hcall]; exact ha, h⟩⟩

theorem exists_fires_iff (wait : Nat) (es : List (Step α)) (i : Nat) :
    (∃ j, Fires wait es i j) ↔ ∃ j, Due wait es i j := by
  classical
  constructor
  · intro ⟨j, h⟩
    exact ⟨j, ((fires_iff wait es i j).mp h).1⟩
  · intro h
    refine ⟨Nat.find h, (fires_iff wait es i _).mpr ⟨Nat.find_spec h, ?_⟩⟩
    intro k hk
    exact Nat.find_min h hk

/-- Calls fire in their order, and none of them twice. -/
theorem lt_of_fires {wait : Nat} {es : List (Step α)} {i j i' j' : Nat} (h : Fires wait es i j)
    (h' : Fires wait es i' j') (hlt : j < j') : i < i' := by
  have hdue := ((fires_iff wait es i j).mp h).1
  have ⟨hbefore, _, call, e, hcall, hsome, _⟩ := hdue
  obtain ⟨⟨hbefore', halone', _⟩, hfirst'⟩ := (fires_iff wait es i' j').mp h'
  by_contra hle
  by_cases hsame : i' = i
  · subst hsame
    exact hfirst' j hlt hdue
  · -- The earlier of two calls does not get past the later one.
    have hnone := halone' i call (by omega) (by omega) hcall
    rw [hnone] at hsome
    cases hsome

/-- A call that another one replaces in time never fires. -/
theorem not_fires_of_replaced {wait : Nat} {es : List (Step α)} {i k : Nat} {e : Step α}
    (hik : i < k) (he : es[k]? = some e) (hcall : e.args?.isSome)
    (hnot : ∀ j < k, ¬ Due wait es i j) (j : Nat) :
    ¬ Fires wait es i j := by
  intro h
  have hdue := ((fires_iff wait es i j).mp h).1
  have ⟨hbefore, halone, call, step, _, _, hstep, hreleases⟩ := hdue
  have hle : k ≤ j := by
    by_contra hlt
    exact hnot j (by omega) hdue
  obtain ⟨a, ha⟩ := Option.isSome_iff_exists.mp hcall
  by_cases hjk : j = k
  · subst hjk
    rw [Option.some.inj (hstep.symm.trans he), Step.releases_of_args? ha] at hreleases
    cases hreleases
  · rw [halone k e hik (by omega) he] at ha
    cases ha

/-- The last call of a history is pending behind it as long as it has not fired. -/
theorem pending_last_iff {wait : Nat} {es : List (Step α)} {i : Nat} {call : Step α} {a : α}
    (hcall : es[i]? = some call) (ha : call.args? = some a)
    (hlast : ∀ k e, i < k → es[k]? = some e → e.args? = none) :
    (after { wait } (numbered es)).pending = some ⟨call.time + wait, (i, a)⟩ ↔
      ∀ j, ¬ Fires wait es i j := by
  have hlength : (numbered es).length = es.length := List.length_mapIdx
  have hi : i < es.length := (List.getElem?_eq_some_iff.mp hcall).1
  have hnever : (∀ j, ¬ Fires wait es i j) ↔ ∀ j, ¬ Due wait es i j := by
    rw [← not_exists, ← not_exists, exists_fires_iff]
  have hpending := pending_after_iff wait (numbered es) (Nat.le_refl _) ⟨call.time + wait, (i, a)⟩
  rw [List.take_length] at hpending
  rw [hpending, hnever]
  constructor
  · intro ⟨i', hwaits⟩ j ⟨hlt, _, call', e, hcall', _, he, hreleases⟩
    obtain ⟨_, _, _, _, hp⟩ := hwaits.exists_call
    obtain rfl : i = i' := congrArg (·.args.1) hp
    obtain rfl : call = call' := Option.some.inj (hcall.symm.trans hcall')
    have hj : j < (numbered es).length := by
      rw [hlength]
      exact (List.getElem?_eq_some_iff.mp he).1
    rw [(((waits_numbered_iff hcall ha).mp hwaits).2 j e hlt hj he).2] at hreleases
    cases hreleases
  · intro hnot
    refine ⟨i, (waits_numbered_iff hcall ha).mpr ⟨by omega, ?_⟩⟩
    intro k e hlt _ he
    refine ⟨hlast k e hlt he, ?_⟩
    cases hreleases : e.releases (call.time + wait) with
    | false => rfl
    | true =>
      refine absurd ?_ (hnot k)
      refine ⟨hlt, ?_, call, e, hcall, by rw [ha]; rfl, he, hreleases⟩
      intro l e' hil _ hl
      exact hlast l e' hil hl

/-- Calls are merged and the last one is not lost. What fires are some of the calls in their order,
each at most once and with its own arguments. A call fires exactly if some step can take it out, and
then at the first such step. It never fires if another call comes before that. The last call either
fires or is still pending at the end. The times of the steps need not even be in order. -/
theorem coalesces (wait : Nat) (es : List (Step α)) :
    outputs { wait } es = (outputs { wait } (numbered es)).map (Option.map Prod.snd) ∧
    (outputs { wait } es).reduceOption.Sublist (es.filterMap Step.args?) ∧
    (∀ i j i' j', Fires wait es i j → Fires wait es i' j' → j < j' → i < i') ∧
    (∀ i j a, (outputs { wait } (numbered es))[j]? = some (some (i, a)) ↔
      es[i]?.bind Step.args? = some a ∧ Due wait es i j ∧ ∀ k < j, ¬ Due wait es i k) ∧
    (∀ i, (∃ j, Fires wait es i j) ↔ ∃ j, Due wait es i j) ∧
    (∀ i k e, i < k → es[k]? = some e → e.args?.isSome → (∀ j < k, ¬ Due wait es i j) →
      ∀ j, ¬ Fires wait es i j) ∧
    ∀ i call a, es[i]? = some call → call.args? = some a →
      (∀ k e, i < k → es[k]? = some e → e.args? = none) →
      ((after { wait } (numbered es)).pending = some ⟨call.time + wait, (i, a)⟩ ↔
        ∀ j, ¬ Fires wait es i j) := by
  refine ⟨?_, outputs_sublist { wait } es, ?_, output_numbered_iff wait es,
    exists_fires_iff wait es, ?_, ?_⟩
  · have hmap := outputs_map Prod.snd { wait } (numbered es)
    rwa [map_numbered] at hmap
  · intro i j i' j' h h' hlt
    exact lt_of_fires h h' hlt
  · intro i k e hik he hcall hnot j
    exact not_fires_of_replaced hik he hcall hnot j
  · intro i call a hcall ha hlast
    exact pending_last_iff hcall ha hlast

-- A poll at the deadline is not too early; the first call has been replaced by then.
example : outputs { wait := 500 } [⟨0, .call 'a'⟩, ⟨200, .call 'b'⟩, ⟨600, .poll⟩, ⟨700, .poll⟩,
    ⟨700, .flush⟩] = [none, none, none, some 'b', none] := by decide

end Vyper.Debouncer
