import Mathlib.Data.List.Count
import Mathlib.Data.List.Induction
import PipeWireAO.NdarrayFilter.Fifo

/-!
# The latest sample of every input

Without `PW_NDARRAY_FILTER_FLAG_FIFO_INPUTS`, `process` drains the queue of every data input and keeps
the last buffer. With `INDEPENDENT_INPUTS` the buffers of size zero are no samples, but the loop keeps
them like any other, so a sample with a token behind it goes back unseen. `dequeue_fifo_input` and
`dequeue_parameter` hand tokens back and go on.
-/

namespace PipeWireAO.NdarrayFilter.Latest

open Foundation List
open Fifo hiding process takeBuffers runCallback runCallback_acts cycle process_port

variable {B : Type*}

/-- The loop of `process` at a data input: `held` is its `buffer`, and goes back when there is
another one. -/
def drainLoop (independent : Bool) :
    List (Buffer B) → (held : Option (Buffer B)) → (available : Bool) → Port B × List (PortEvent B)
  | [], held, available => (⟨[], held, available⟩, [])
  | next :: rest, held, _ =>
    let r := drainLoop independent rest (some next) (!next.isToken independent)
    (r.1, .dequeued next :: (held.toList.map .queued ++ r.2))

/-- A data input in the first loop of `process`. -/
def drainInput (independent : Bool) : Handler (Port B) (PortEvent B) := fun p =>
  drainLoop independent p.queue none false

/-- The buffers `process` takes before it looks whether it is ready. -/
def takeBuffers (o : Options) (x : Cycle) : Handler (State B) (Event B) :=
  .andThen (onPorts (drainInput o.independent) o)
    (.modify fun s =>
      { s with outputs := fun i => s.outputs i || (decide (i < o.outputs) && x.fresh i) })

/-- The rest of `process` when it is ready. An error ends as with FIFO inputs; there is no backlog. -/
def runCallback (o : Options) (x : Cycle) : Handler (State B) (Event B) :=
  match x.outcome with
  | .refused | .failed => Fifo.runCallback o x
  | .ok =>
    .andThen (.emit .callback) (.andThen (onPorts presentInput o)
      (.andThen (.modify fun s =>
          { s with outputs := fun i => s.outputs i && (decide (o.outputs ≤ i) || x.kept i) })
        (onPorts recycleInput o)))

/-- `process` without FIFO inputs, of a filter that is prepared and not being destroyed. A cycle
that is not ready hands the inputs back, too. -/
def process (o : Options) (x : Cycle) : Handler (State B) (Event B) :=
  .andThen (takeBuffers o x)
    (fun s => if ready o s then runCallback o x s else onPorts recycleInput o s)

/-- A cycle at one input: its callback runs or not. -/
def cycle (independent ran : Bool) : Handler (Port B) (PortEvent B) :=
  .andThen (drainInput independent)
    (.andThen (if ran then presentInput else .skip) recycleInput)

/-! ## One input -/

open PortEvent (shown)

section Port

variable (independent : Bool)

variable [DecidableEq B]

open PortEvent (presented)

end Port

/-! ## All the inputs -/

section Filter

variable {o : Options} {x : Cycle} {s : State B} {i : ℕ}

theorem runCallback_acts (hi : i < o.inputs) :
    Acts (runCallback o x : Handler (State B) (Event B)) i
      (.andThen (if x.outcome = .refused then .skip else presentInput) recycleInput) := by
  have hfail : Acts (B := B) (.modify fun s => { s with failed := true }) i .skip :=
    .modify fun _ => rfl
  have hkept : Acts (B := B) (.modify fun s =>
      { s with outputs := fun i => s.outputs i && (decide (o.outputs ≤ i) || x.kept i) })
      i .skip := .modify fun _ => rfl
  have hback : Acts (B := B) (onPorts recycleInput o) i recycleInput := .onPorts hi
  have hshow : Acts (B := B) (onPorts presentInput o) i presentInput := .onPorts hi
  unfold runCallback Fifo.runCallback
  cases x.outcome with
  | refused => exact hfail.andThen hback
  | failed => exact Acts.callback.andThen (hshow.andThen (hfail.andThen hback))
  | ok => exact Acts.callback.andThen (hshow.andThen (hkept.andThen hback))

theorem callback_notMem_onPorts (k : Handler (Port B) (PortEvent B)) :
    Event.callback ∉ (onPorts k o s).2 := by
  simp [onPorts]

theorem process_port (hi : i < o.inputs) :
    ∃ ran : Bool, (.callback ∈ (process o x s).2 → ran = true) ∧ cycle o.independent ran (s.ports i) =
      ((process o x s).1.ports i, (process o x s).2.filterMap (Event.atPort i)) := by
  have htake : Acts (B := B) (takeBuffers o x) i (drainInput o.independent) := by
    rw [← Handler.andThen_skip (drainInput o.independent)]
    exact (Acts.onPorts hi).andThen (.modify fun _ => rfl)
  have hquiet : Event.callback ∉ (takeBuffers o x s).2 := by
    simp [takeBuffers, Handler.andThen, Handler.modify, callback_notMem_onPorts]
  have hprocess : process o x s = Handler.andThen (takeBuffers o x)
      (if ready o (takeBuffers o x s).1 then runCallback o x else onPorts recycleInput o) s := by
    simp only [process, Handler.andThen]
    split <;> rfl
  rw [hprocess]
  by_cases hready : ready o (takeBuffers o x s).1
  · rw [if_pos hready]
    have hacts := htake.andThen (runCallback_acts (x := x) hi) s
    by_cases hrefused : x.outcome = .refused
    · refine ⟨false, fun h => absurd h ?_, ?_⟩
      · simp [Handler.andThen, hquiet, runCallback, Fifo.runCallback, hrefused, Handler.modify,
          callback_notMem_onPorts]
      · simpa [cycle, hrefused] using hacts
    · exact ⟨true, fun _ => rfl, by simpa [cycle, hrefused] using hacts⟩
  · rw [if_neg hready]
    refine ⟨false, fun h => absurd h ?_, htake.andThen (Acts.onPorts hi) s⟩
    simp [Handler.andThen, hquiet, callback_notMem_onPorts]

end Filter

variable [DecidableEq B]

end PipeWireAO.NdarrayFilter.Latest
