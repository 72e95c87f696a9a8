import Mathlib.Data.List.Nodup
import PipeWireAO.Foundation.Machine

/-!
# Event handlers

A handler runs to its end on a state and emits events. Handlers are composed one after the other;
a triple says what holds of the state after a handler, and that all its events are allowed.
-/

namespace Foundation

open List Function

variable {S E A : Type*}

/-- A handler: the state it leaves and the events it emits. -/
abbrev Handler (S E : Type*) := S → S × List E

namespace Handler

/-- Do nothing. -/
def skip : Handler S E := fun s => (s, [])

/-- Change the state. -/
def modify (f : S → S) : Handler S E := fun s => (f s, [])

/-- Emit an event. -/
def emit (e : E) : Handler S E := fun s => (s, [e])

/-- One handler after the other. -/
def andThen (h k : Handler S E) : Handler S E := fun s =>
  ((k (h s).1).1, (h s).2 ++ (k (h s).1).2)

@[simp] theorem skip_andThen (k : Handler S E) : andThen skip k = k := rfl

@[simp] theorem andThen_skip (h : Handler S E) : andThen h skip = h := by
  funext s
  simp [andThen, skip]

/-- One handler for each input, in order. -/
def all (h : A → Handler S E) : List A → Handler S E
  | [] => skip
  | a :: as => andThen (h a) (all h as)

/-- A handler for each component of a family, one after the other: loops over independent components. -/
def family {I C : Type*} [DecidableEq I] (h : I → Handler C E) (is : List I) :
    Handler (I → C) (I × E) :=
  all (fun i f => (update f i (h i (f i)).1, (h i (f i)).2.map fun e => (i, e))) is

section Family

variable {I C : Type*} [DecidableEq I] (h : I → Handler C E) {is : List I} (f : I → C) (i : I)

theorem family_cons (j : I) (is : List I) : family h (j :: is) f =
      ((family h is (update f j (h j (f j)).1)).1, ((h j (f j)).2.map fun e => (j, e)) ++
          (family h is (update f j (h j (f j)).1)).2) := rfl

theorem family_apply (hn : is.Nodup) :
    (family h is f).1 i = if i ∈ is then (h i (f i)).1 else f i := by
  induction is generalizing f with
  | nil => simp [family, all, skip]
  | cons j is ih =>
    obtain ⟨hj, hn⟩ := nodup_cons.mp hn
    rw [family_cons, ih _ hn]
    by_cases hij : i = j
    · subst hij
      simp [hj]
    · simp [hij]

theorem family_events (hn : is.Nodup) :
    (family h is f).2.filterMap (eventAt i) = if i ∈ is then (h i (f i)).2 else [] := by
  induction is generalizing f with
  | nil => simp [family, all, skip]
  | cons j is ih =>
    obtain ⟨hj, hn⟩ := nodup_cons.mp hn
    rw [family_cons, filterMap_append, filterMap_eventAt, ih _ hn]
    by_cases hij : i = j
    · subst hij
      simp [hj]
    · simp [hij, Ne.symm hij]

end Family

end Handler

/-- From a state with `P` the handler leaves a state with `Q` and emits only events with `ok`. -/
def Triple (ok : E → Prop) (P : S → Prop) (h : Handler S E) (Q : S → Prop) : Prop :=
  ∀ s, P s → Q (h s).1 ∧ ∀ e ∈ (h s).2, ok e

namespace Triple

variable {ok : E → Prop} {P P' Q Q' R : S → Prop} {h k : Handler S E}

theorem skip : Triple ok P Handler.skip P := fun s hP => ⟨hP, by simp [Handler.skip]⟩

theorem modify {f : S → S} (hf : ∀ s, P s → Q (f s)) : Triple ok P (Handler.modify f) Q :=
  fun s hP => ⟨hf s hP, by simp [Handler.modify]⟩

theorem emit {e : E} (he : ok e) : Triple ok P (Handler.emit e) P :=
  fun s hP => ⟨hP, by simpa [Handler.emit] using he⟩

theorem andThen (hh : Triple ok P h Q) (hk : Triple ok Q k R) :
    Triple ok P (Handler.andThen h k) R := by
  intro s hP
  obtain ⟨hQ, he⟩ := hh s hP
  obtain ⟨hR, he'⟩ := hk (h s).1 hQ
  exact ⟨hR, forall_mem_append.mpr ⟨he, he'⟩⟩

theorem conseq (hP : ∀ s, P' s → P s) (hh : Triple ok P h Q) (hQ : ∀ s, Q s → Q' s) :
    Triple ok P' h Q' := fun s hs => ⟨hQ _ (hh s (hP s hs)).1, (hh s (hP s hs)).2⟩

theorem ite {c : Prop} [Decidable c] (hh : c → Triple ok P h Q) (hk : ¬ c → Triple ok P k Q) :
    Triple ok P (if c then h else k) Q := by
  split
  · exact hh ‹c›
  · exact hk ‹¬ c›

theorem all {f : A → Handler S E} (hf : ∀ a, Triple ok P (f a) P) (as : List A) :
    Triple ok P (Handler.all f as) P := by
  induction as with
  | nil => exact skip
  | cons a as ih => exact (hf a).andThen ih

end Triple

/-- The machine whose actions run handlers. -/
def Machine.ofHandlers (f : A → Handler S E) : Machine S A E where
  step s a := some (f a s)

/-- What every handler keeps holds along every run, and every event of the run is allowed. -/
theorem Triple.reaches {ok : E → Prop} {I : S → Prop} {f : A → Handler S E} {s₀ s : S}
    {tr : List E} (hf : ∀ a, Triple ok I (f a) I) (h₀ : I s₀)
    (h : (Machine.ofHandlers f).Reaches s₀ s tr) : I s ∧ ∀ e ∈ tr, ok e := by
  refine h.invariant_events h₀ ?_
  intro s s' es a hi hs
  have hs : f a s = (s', es) := Option.some.inj hs
  have hkept := hf a s hi
  rwa [hs] at hkept

end Foundation
