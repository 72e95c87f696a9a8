import PipeWireAO.Foundation.Machine
import PipeWireAO.Node.Activation

/-!
# Poll drivers

A poll driver has no wakeup of its own: the polling loop calls its `process` method to see whether a
quantum was published, and starts a cycle for it. One status word tells that the source may be polled
and that the cycle is complete. The node is its own driver; another `driver_node` is refused.

What the calls and the cycles must be to each other is an observer of the events. The node follows it
as long as `driving` does not change under a cycle and no row transport holds a cycle back.
-/

namespace PipeWireAO.Node.PollDriver

open Foundation

/-- Where the thread of the polling loop is: between two calls of `poll_process_node`, in it after
`driving` and after FINISHED were seen, in `node_ready`, or in `process_node` before its exchange,
after it and at its end. `recover` is set if `node_ready` called it. -/
inductive Pc
  | scan
  | driven
  | source
  | ready
  | completing (recover : Bool)
  | awake (recover : Bool)
  | processed (recover : Bool)
deriving DecidableEq

/-- `enabled` is that of the poll source. -/
structure State where
  pc : Pc
  status : ActivationStatus
  (driving prepared enabled : Bool)
deriving DecidableEq

/-- The `process` method is called by the loop, with `driving`, the status and the result, or by
`process_node`; a cycle is started, and its completion was processed. -/
inductive Event
  | polled (driving : Bool) (status : ActivationStatus) (result : Int)
  | processed
  | started
  | completed
deriving DecidableEq

/-- The steps of the loop's thread in their order, and those of others: the last follower triggers
the driver, and `driving` is switched. `held` says that the row transport holds back the cycle. -/
inductive Action
  | poll
  | look
  | process (result : Int)
  | ready (held : Bool)
  | wake
  | run
  | finish
  | trigger
  | setDriving (driving : Bool)

/-- The end of `node_ready`: the driver is one of its own targets. -/
def startCycle (s : State) : State × List Event :=
  (⟨.scan, if s.status = .inactive then .inactive else .notTriggered, s.driving, s.prepared,
    s.enabled⟩, [.started])

/-- `process_node` returns. -/
def leave (recover : Bool) (s : State) : State × List Event :=
  if recover then startCycle s else ({ s with pc := .scan }, [])

/-- The polling loop over one node, and what others do. -/
def polling : Machine State Action Event where
  step s
    | .poll =>
      if s.pc = .scan ∧ s.enabled then
        some ({ s with pc := if s.status = .triggered then .completing false
          else if s.driving then .driven else .scan }, [])
      else none
    | .look =>
      if s.pc = .driven then some ({ s with pc := if s.status = .finished then .source else .scan }, [])
      else none
    | .process r =>
      if s.pc = .source then
        some ({ s with pc := if 0 < r then .ready else .scan, enabled := !decide (r < 0) },
          [.polled s.driving s.status r])
      else none
    | .ready held =>
      if s.pc ≠ .ready then none
      else if !s.prepared || held then some ({ s with pc := .scan }, [])
      else if s.status = .finished then some (startCycle s)
      else some ({ s with pc := .completing true, status := .triggered }, [])
    | .wake =>
      match s.pc with
      | .completing recover =>
        if s.status = .triggered then some ({ s with pc := .awake recover, status := .awake }, [])
        else some (leave recover s)
      | _ => none
    | .run =>
      match s.pc with
      | .awake recover =>
        some ({ s with pc := .processed recover }, if s.prepared && !s.driving then [.processed] else [])
      | _ => none
    | .finish =>
      match s.pc with
      | .processed recover =>
        let r := leave recover { s with status := if s.status = .awake then .finished else s.status }
        some (r.1, .completed :: r.2)
      | _ => none
    | .trigger => if s.status = .notTriggered then some ({ s with status := .triggered }, []) else none
    | .setDriving driving => some ({ s with driving }, [])

/-- A node that was prepared. -/
def State.new (driving : Bool) : State := ⟨.scan, .finished, driving, true, true⟩

/-! ## Quanta and cycles -/

inductive Quantum
  | free
  | published
  | running
deriving DecidableEq

/-- The method is called by the loop of a node that drives itself and is FINISHED; a quantum that it
publishes starts one cycle, and it is called again when the cycle is complete. -/
def quanta : Observer Quantum Event where
  next
    | .free, .polled true .finished r => some (if 0 < r then .published else .free)
    | .published, .started => some .running
    | .running, .completed => some .free
    | _, _ => none

/-- `driving` is only switched between cycles, and no cycle is held back. -/
def steady (s : State) : Action → Bool
  | .setDriving _ => s.pc = .scan ∧ s.status = .finished
  | .ready held => !held
  | _ => true

/-- Where the node is with a quantum. -/
inductive Fits : State → Quantum → Prop
  | idle (driving e) : Fits ⟨.scan, .finished, driving, true, e⟩ .free
  | driven (e) : Fits ⟨.driven, .finished, true, true, e⟩ .free
  | source (e) : Fits ⟨.source, .finished, true, true, e⟩ .free
  | ready (e) : Fits ⟨.ready, .finished, true, true, e⟩ .published
  | waiting (e) : Fits ⟨.scan, .notTriggered, true, true, e⟩ .running
  | seen (e) : Fits ⟨.driven, .notTriggered, true, true, e⟩ .running
  | triggered (e) : Fits ⟨.scan, .triggered, true, true, e⟩ .running
  | missed (e) : Fits ⟨.driven, .triggered, true, true, e⟩ .running
  | completing (e) : Fits ⟨.completing false, .triggered, true, true, e⟩ .running
  | awake (e) : Fits ⟨.awake false, .awake, true, true, e⟩ .running
  | processed (e) : Fits ⟨.processed false, .awake, true, true, e⟩ .running

/-- **One step**: what it emits takes the quantum to where the node is with it afterwards. -/
theorem Fits.step {s s' : State} {q : Quantum} {a : Action} {es : List Event} (h : Fits s q)
    (hc : steady s a = true) (hs : polling.step s a = some (s', es)) :
    ∃ q', quanta.accept q es = some q' ∧ Fits s' q' := by
  cases a with
  | poll =>
    cases h <;> simp only [polling, reduceCtorEq, false_and, true_and, if_false, if_true,
      Option.ite_none_right_eq_some, Option.some.injEq, Prod.mk.injEq] at hs
    case idle driving e =>
      obtain ⟨-, rfl, rfl⟩ := hs
      cases driving with
      | true => exact ⟨_, rfl, .driven _⟩
      | false => exact ⟨_, rfl, .idle false _⟩
    all_goals obtain ⟨-, rfl, rfl⟩ := hs
    · exact ⟨_, rfl, .seen _⟩
    · exact ⟨_, rfl, .completing _⟩
  | look =>
    cases h <;> cases hs
    · exact ⟨_, rfl, .source _⟩
    · exact ⟨_, rfl, .waiting _⟩
    · exact ⟨_, rfl, .triggered _⟩
  | process r =>
    cases h <;> simp only [polling, reduceCtorEq, if_false, if_true] at hs
    cases hs
    refine ⟨_, rfl, ?_⟩
    split_ifs
    · exact .ready _
    · exact .idle true _
  | ready held =>
    cases held with
    | true => cases hc
    | false =>
      cases h <;> cases hs
      exact ⟨_, rfl, .waiting _⟩
  | wake =>
    cases h <;> cases hs
    exact ⟨_, rfl, .awake _⟩
  | run =>
    cases h <;> cases hs
    exact ⟨_, rfl, .processed _⟩
  | finish =>
    cases h <;> cases hs
    exact ⟨_, rfl, .idle true _⟩
  | trigger =>
    cases h <;> cases hs
    · exact ⟨_, rfl, .triggered _⟩
    · exact ⟨_, rfl, .missed _⟩
  | setDriving driving =>
    cases h <;> cases hc
    cases hs
    exact ⟨_, rfl, .idle driving _⟩

/-- **A poll driver starts one cycle for each quantum**, in every run without a switch under a cycle
and without a row transport that holds a cycle back. -/
theorem quanta_matched {driving : Bool} {s : State} {tr : List Event}
    (h : (polling.restrict steady).Reaches (State.new driving) s tr) :
    ∃ q, quanta.accept .free tr = some q ∧
      (q = .published → ∃ s', polling.step s (.ready false) = some (s', [.started])) := by
  obtain ⟨q, hq, hfits⟩ := h.simulates Fits (.idle driving true) fun hfits hs => by
    obtain ⟨hc, hs⟩ := Machine.restrict_step.mp hs
    exact hfits.step hc hs
  refine ⟨q, hq, fun hpublished => ?_⟩
  subst hpublished
  cases hfits
  exact ⟨_, rfl⟩

def oneCycle : List Action :=
  [.poll, .look, .process 1, .ready false, .poll, .trigger, .look, .poll, .wake, .run, .finish]

theorem quanta_matched_cycle : ∃ s tr, (polling.restrict steady).Reaches (State.new true) s tr ∧
    tr = [.polled true .finished 1, .started, .completed] ∧ ∃ q, quanta.accept .free tr = some q := by
  refine Machine.Reaches.of_run_such oneCycle (by decide) fun s tr hr htr => ⟨htr, ?_⟩
  obtain ⟨q, hq, -⟩ := quanta_matched hr
  exact ⟨q, hq⟩

/-- **The next quantum is taken by the completion.** `driving` is switched off while the cycle runs;
then `process_node` does not know that the source was polled, and calls the method. -/
theorem quantum_consumed : ∃ s tr, polling.Reaches (State.new true) s tr ∧
    tr = [.polled true .finished 1, .started, .processed] ∧ quanta.accept .free tr = none := by
  exact Machine.Reaches.of_run_such
    [.poll, .look, .process 1, .ready false, .setDriving false, .trigger, .poll, .wake, .run]
    (by decide) fun _ _ _ h => h

end PipeWireAO.Node.PollDriver
