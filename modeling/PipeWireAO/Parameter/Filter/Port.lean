import PipeWireAO.Parameter.Filter.Owner

/-!
# The contract of a parameter port
-/

namespace PipeWireAO.Parameter.Filter

open Foundation List Filter.Loop

variable {B : Type*} [DecidableEq B]

variable {s s' : Port B} {q : Owner B} {b : B} {ok busy : Bool} {es tr : List (PortEvent B)}
  {a : PortAction B} {e : PortEvent B}

/-! ## Buffers are conserved -/

/-- The buffers of a port that their producer does not have. -/
def Port.all (s : Port B) : List B := s.arrivals.map Prod.fst ++ s.held

/-- The handoff of one port, with the data loop undoing nothing the worker has claimed. -/
def portMachine (B : Type*) [DecidableEq B] : Machine (Port B) (PortAction B) (PortEvent B) :=
  Machine.restrict ⟨portStep⟩ portUnclaimed

theorem portMachine_step : (portMachine B).step s a = some (s', es) ↔
      portUnclaimed s a = true ∧ portStep s a = some (s', es) :=
  Machine.restrict_step

/-- The trace and the state of a port: the buffer that is out follows the protocol, and all others
are accounted for. -/
structure PortOk (s : Port B) (tr : List (PortEvent B)) : Prop where
  life : ∃ q, Parameter.life.accept .free (tr.filterMap lifeOf) = some q ∧ Owns s q
  nodup : s.all.Nodup
  balance : ∀ b, tr.count (.dequeued b) = s.held.count b + tr.count (.queued b)

/-- **What holds at a port** after the events `tr`: the buffer that is out has the life the
protocol gives it; the callback reads that buffer through its own view; and every buffer was
queued back once for each time it was dequeued, but for those the port holds. -/
structure Contract (s : Port B) (tr : List (PortEvent B)) : Prop where
  life : ∃ q, Parameter.life.accept .free (tr.filterMap lifeOf) = some q ∧ s.pending = q.buffer
  reading : ∀ b, s.worker = .calling b → s.pending = some b ∧ s.view = some b
  balance : ∀ b, tr.count (.dequeued b) = s.held.count b + tr.count (.queued b)
  nodup : s.held.Nodup

theorem PortOk.contract (hi : PortOk s tr) : Contract s tr := by
  obtain ⟨q, ha, hq⟩ := hi.life
  exact
    { life := ⟨q, ha, hq.pending_eq⟩
      reading := fun b hb => (hq.of_calling hb).2
      balance := hi.balance
      nodup := (nodup_append.mp hi.nodup).2.1 }

end PipeWireAO.Parameter.Filter
