import PipeWireAO.Parameter.Filter.Port

/-!
# The contract of the parameter handoff
-/

namespace PipeWireAO.Parameter.Filter

open Foundation Option

variable {B : Type*} [DecidableEq B]

section Ports

variable {n p : ℕ} {g g' : State B} {ges gtr : List (ℕ × PortEvent B)}

theorem onPort_port {p' : ℕ} {a : PortAction B} (h : onPort g p' a = some (g', ges)) :
    (p' ≠ p ∧ g'.ports p = g.ports p ∧ ges.filterMap (eventAt p) = []) ∨
      (p' = p ∧ portStep (g.ports p) a = some (g'.ports p, ges.filterMap (eventAt p))) := by
  simp only [onPort, map_eq_some_iff] at h
  obtain ⟨⟨s', es⟩, hs, hg⟩ := h
  cases hg
  by_cases hp : p' = p
  · subst hp
    refine .inr ⟨rfl, ?_⟩
    rw [filterMap_eventAt, if_pos rfl]
    simpa using hs
  · refine .inl ⟨hp, Function.update_of_ne (Ne.symm hp) _ _, ?_⟩
    rw [filterMap_eventAt, if_neg hp]

/-- **A step of the filter is a step of one port, or of none.** -/
theorem step_port {a : Action B} (hc : unclaimed g a = true) (h : step n g a = some (g', ges)) :
    (g'.ports p = g.ports p ∧ ges.filterMap (eventAt p) = []) ∨
      ∃ c, (portMachine B).step (g.ports p) c = some (g'.ports p, ges.filterMap (eventAt p)) := by
  -- what a step at port `p'` is for port `p`
  have atPort : ∀ {p' c r es}, onPort g p' c = some (r, es) → portUnclaimed (g.ports p') c = true →
      r.ports = g'.ports → es = ges →
      (g'.ports p = g.ports p ∧ ges.filterMap (eventAt p) = []) ∨
        ∃ c, (portMachine B).step (g.ports p) c =
          some (g'.ports p, ges.filterMap (eventAt p)) := by
    rintro p' c r es ho hu hr rfl
    rw [← hr]
    rcases onPort_port (p := p) ho with ⟨-, hs, he⟩ | ⟨rfl, hs⟩
    · exact .inl ⟨hs, he⟩
    · exact .inr ⟨c, portMachine_step.mpr ⟨hu, hs⟩⟩
  cases a with
  | arrive p' b absent => exact atPort h rfl rfl rfl
  | enter p' =>
    simp only [step] at h
    split at h
    · obtain ⟨r, ho, hg⟩ := map_eq_some_iff.mp h
      cases hg
      exact atPort ho rfl rfl rfl
    · cases h
  | loop ok =>
    simp only [step] at h
    split at h
    · cases h
    · rename_i p' hl
      obtain ⟨r, ho, hg⟩ := map_eq_some_iff.mp h
      cases hg
      have hu : portUnclaimed (g.ports p') (.loop ok) = true := by
        simpa [unclaimed, hl] using hc
      exact atPort ho hu rfl rfl
  | wakeWorker =>
    simp only [step] at h
    split at h
    · split at h <;> cases h
      exact .inl ⟨rfl, rfl⟩
    · cases h
  | work busy =>
    simp only [step] at h
    split at h
    · cases h
    · split at h
      · cases h
        exact .inl ⟨rfl, rfl⟩
      · obtain ⟨r, ho, hg⟩ := map_eq_some_iff.mp h
        cases hg
        refine atPort ho ?_ rfl rfl
        split <;> rfl

/-- The data loop offers buffer 10 at port 0, and at port 1 it stores buffer 11 and is about to
signal the event; the worker is inside the callback for buffer 11. -/
def lateClaim : List (Action ℕ) :=
  List.flatten
    [[.arrive 0 10 false, .arrive 1 11 false], .enter 0 :: .replicate 8 (.loop true),
      .enter 1 :: .replicate 7 (.loop true), .wakeWorker :: .replicate 5 (.work false)]

end Ports

end PipeWireAO.Parameter.Filter
