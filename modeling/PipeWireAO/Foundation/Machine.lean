import Mathlib.Data.List.Basic

/-!
# Labelled machines and their observers

A machine moves from state to state by labelled actions; an action emits a list of events or is not
enabled. Interleavings of several threads are runs of one machine whose labels say which thread moves
and how its environment answers. An observer is a deterministic automaton over events: it says in
which order they may occur.
-/

namespace Foundation

open List

variable {S A E Q : Type*} {es : List E}

/-- A machine: `step s a` is the state after action `a` and the events it emits, or
`none` if `a` is not enabled in `s`. -/
structure Machine (S A E : Type*) where
  step : S → A → Option (S × List E)

namespace Machine

variable (M : Machine S A E)

/-- The run of a machine over a list of actions. -/
def run : S → List A → Option (S × List E)
  | s, [] => some (s, [])
  | s, a :: as =>
    match M.step s a with
    | none => none
    | some (s', es) =>
      match run s' as with
      | none => none
      | some (s'', es') => some (s'', es ++ es')

/-- The states a machine reaches from `s₀`, each with the events emitted on the way. -/
inductive Reaches (s₀ : S) : S → List E → Prop
  | refl : Reaches s₀ s₀ []
  | snoc {s s' : S} {tr es : List E} {a : A} :
      Reaches s₀ s tr → M.step s a = some (s', es) → Reaches s₀ s' (tr ++ es)

/-- No action is enabled. -/
def Stuck (s : S) : Prop := ∀ a, M.step s a = none

/-- The machine whose actions are enabled only where `c` holds: its runs are the runs of `M` all of
whose steps meet `c`. -/
def restrict (c : S → A → Bool) : Machine S A E where
  step s a := if c s a then M.step s a else none

variable {M}

theorem restrict_step {c : S → A → Bool} {s s' : S} {a : A} :
    (M.restrict c).step s a = some (s', es) ↔ c s a = true ∧ M.step s a = some (s', es) := by
  by_cases h : c s a = true <;> simp [restrict, h]

theorem run_cons_eq_some {s t : S} {a : A} {as : List A} {tr : List E} :
    M.run s (a :: as) = some (t, tr) ↔
      ∃ s' es es', M.step s a = some (s', es) ∧ M.run s' as = some (t, es') ∧ tr = es ++ es' := by
  simp only [run]
  constructor
  · intro h
    split at h
    · cases h
    · rename_i s' es hs
      split at h
      · cases h
      · rename_i s'' es' hr
        simp only [Option.some.injEq, Prod.mk.injEq] at h
        exact ⟨s', es, es', hs, by rw [hr, h.1], h.2.symm⟩
  · rintro ⟨s', es, es', hs, hr, rfl⟩
    simp [hs, hr]

/-- **Lockstep.** If steps from related states are enabled together, emit the same and lead to
related states, then all runs emit the same. -/
theorem run_lockstep {T : Type*} {N : Machine T A E} (R : S → T → Prop)
    (hstep : ∀ {s t} a, R s t → (M.step s a = none ∧ N.step t a = none) ∨
      ∃ s' t' es, M.step s a = some (s', es) ∧ N.step t a = some (t', es) ∧ R s' t')
    {s : S} {t : T} (h : R s t) (as : List A) :
    (M.run s as).map Prod.snd = (N.run t as).map Prod.snd := by
  induction as generalizing s t with
  | nil => rfl
  | cons a as ih =>
    rcases hstep a h with ⟨hM, hN⟩ | ⟨s', t', es, hM, hN, h'⟩
    · simp [run, hM, hN]
    · have hrest := ih h'
      simp only [run, hM, hN]
      cases hs : M.run s' as <;> cases ht : N.run t' as <;> simp_all

namespace Reaches

variable {s₀ s t : S} {tr tr' : List E}

theorem trans (h : M.Reaches s₀ s tr) (h' : M.Reaches s t tr') : M.Reaches s₀ t (tr ++ tr') := by
  induction h' with
  | refl => simpa using h
  | snoc _ hs ih => rw [← append_assoc]; exact ih.snoc hs

theorem of_run (as : List A) (h : M.run s as = some (t, tr)) : M.Reaches s t tr := by
  induction as generalizing s tr with
  | nil =>
    obtain ⟨rfl, rfl⟩ := h
    exact refl
  | cons a as ih =>
    obtain ⟨s', es, es', hs, hr, rfl⟩ := run_cons_eq_some.mp h
    exact trans (snoc refl hs) (ih hr)

/-- A run of which `P` is known by evaluation, and what follows for where it ends. -/
theorem of_run_such {P Q : S → List E → Prop} (as : List A) (h : ∃ r ∈ M.run s as, P r.1 r.2)
    (hq : ∀ t tr, M.Reaches s t tr → P t tr → Q t tr) : ∃ t tr, M.Reaches s t tr ∧ Q t tr := by
  obtain ⟨⟨t, tr⟩, hr, hp⟩ := h
  exact ⟨t, tr, of_run as hr, hq t tr (of_run as hr) hp⟩

/-- **The invariant rule.** What holds at the start, with nothing emitted, and is kept by every step
along with its events, holds of every state reached. -/
theorem induct {I : S → List E → Prop} (h₀ : I s₀ [])
    (hstep : ∀ {s s' tr es a}, I s tr → M.step s a = some (s', es) → I s' (tr ++ es))
    (h : M.Reaches s₀ s tr) : I s tr := by
  induction h with
  | refl => exact h₀
  | snoc _ hs ih => exact hstep ih hs

theorem invariant {I : S → Prop} (h₀ : I s₀)
    (hstep : ∀ {s s' es a}, I s → M.step s a = some (s', es) → I s')
    (h : M.Reaches s₀ s tr) : I s :=
  h.induct (I := fun s _ => I s) h₀ fun hi hs => hstep hi hs

theorem invariant_events {I : S → Prop} {P : E → Prop} (h₀ : I s₀)
    (hstep : ∀ {s s' es a}, I s → M.step s a = some (s', es) → I s' ∧ ∀ e ∈ es, P e)
    (h : M.Reaches s₀ s tr) : I s ∧ ∀ e ∈ tr, P e := by
  refine h.induct (I := fun s tr => I s ∧ ∀ e ∈ tr, P e) ⟨h₀, by simp⟩ ?_
  rintro s s' tr es a ⟨hi, htr⟩ hs
  obtain ⟨hi', hes⟩ := hstep hi hs
  exact ⟨hi', forall_mem_append.mpr ⟨htr, hes⟩⟩

/-- **Projection to a component.** If every step leaves a component alone, or is a step of the
component's own machine with its own events, then runs of the machine project to runs of the
component. -/
theorem project {T C F : Type*} {N : Machine T C F} (π : S → T) (f : E → Option F)
    (hstep : ∀ {s s' es a}, M.step s a = some (s', es) →
      (π s' = π s ∧ es.filterMap f = []) ∨ ∃ c, N.step (π s) c = some (π s', es.filterMap f))
    (h : M.Reaches s₀ s tr) : N.Reaches (π s₀) (π s) (tr.filterMap f) := by
  induction h with
  | refl => exact refl
  | snoc _ hs ih =>
    rw [filterMap_append]
    obtain ⟨hπ, he⟩ | ⟨c, hc⟩ := hstep hs
    · rwa [hπ, he, append_nil]
    · exact ih.snoc hc

end Reaches

end Machine

/-- The part of an event of a family of components that is about component `i`. -/
def eventAt {I : Type*} [DecidableEq I] (i : I) (e : I × E) : Option E :=
  if e.1 = i then some e.2 else none

theorem filterMap_eventAt {I : Type*} [DecidableEq I] (i j : I) (es : List E) :
    (es.map fun e => (j, e)).filterMap (eventAt i) = if j = i then es else [] := by
  induction es with
  | nil => simp
  | cons e es ih => by_cases h : j = i <;> simp_all [eventAt]

/-- An observer of events: `next q e` is its state after event `e`, or `none` if `e` must
not occur in `q`. -/
structure Observer (Q E : Type*) where
  next : Q → E → Option Q

namespace Observer

variable (O : Observer Q E)

/-- The state of the observer after a trace, or `none` if it refuses one of the events. -/
def accept : Q → List E → Option Q
  | q, [] => some q
  | q, e :: es =>
    match O.next q e with
    | none => none
    | some q' => accept q' es

variable {O}

@[simp] theorem accept_nil (q : Q) : O.accept q [] = some q := rfl

theorem accept_cons_eq_some {q r : Q} {e : E} :
    O.accept q (e :: es) = some r ↔ ∃ q', O.next q e = some q' ∧ O.accept q' es = some r := by
  simp only [accept]
  cases O.next q e <;> simp

@[simp] theorem accept_singleton (q : Q) (e : E) : O.accept q [e] = O.next q e := by
  simp only [accept]
  cases O.next q e <;> rfl

theorem accept_append {q r : Q} {es' : List E} : O.accept q (es ++ es') = some r ↔
      ∃ q', O.accept q es = some q' ∧ O.accept q' es' = some r := by
  induction es generalizing q with
  | nil => simp
  | cons e es ih =>
    simp only [cons_append, accept_cons_eq_some, ih]
    constructor
    · rintro ⟨p, hp, q', hq', hr⟩
      exact ⟨q', ⟨p, hp, hq'⟩, hr⟩
    · rintro ⟨q', ⟨p, hp, hq'⟩, hr⟩
      exact ⟨p, hp, q', hq', hr⟩

theorem accept_balance (opens closes : E → Bool) (held : Q → ℕ)
    (hstep : ∀ {q q' e}, O.next q e = some q' →
      held q + [e].countP opens = held q' + [e].countP closes)
    {q r : Q} (h : O.accept q es = some r) :
    held q + es.countP opens = held r + es.countP closes := by
  induction es generalizing q with
  | nil => simp_all
  | cons e es ih =>
    obtain ⟨q', hq, hr⟩ := accept_cons_eq_some.mp h
    have h₁ := hstep hq
    have h₂ := ih hr
    rw [← singleton_append, countP_append, countP_append]
    omega

end Observer

/-- **Forward simulation.** If the observer can follow every step from related states, it accepts
every trace of the machine, and ends in a related state. -/
theorem Machine.Reaches.simulates {M : Machine S A E} {O : Observer Q E} (R : S → Q → Prop)
    {s₀ s : S} {q₀ : Q} {tr : List E} (h₀ : R s₀ q₀)
    (hstep : ∀ {s s' es a q}, R s q → M.step s a = some (s', es) →
      ∃ q', O.accept q es = some q' ∧ R s' q')
    (h : M.Reaches s₀ s tr) : ∃ q, O.accept q₀ tr = some q ∧ R s q := by
  refine h.induct (I := fun s tr => ∃ q, O.accept q₀ tr = some q ∧ R s q) ⟨q₀, rfl, h₀⟩ ?_
  rintro s s' tr es a ⟨q, hq, hR⟩ hs
  obtain ⟨q', hq', hR'⟩ := hstep hR hs
  exact ⟨q', Observer.accept_append.mpr ⟨q, hq, hq'⟩, hR'⟩

end Foundation
