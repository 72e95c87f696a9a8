import PipeWireAO.Parameter.Life

/-!
# The parameter handoff of the standalone filter

`pw_ndarray_filter` passes the buffers of its parameter ports from the data loop to one parameter
worker. Each port has the four atomics `pending_parameter`, `parameter_scheduled`, `retry_parameter`
and `completed_parameter`, and a view of the buffer; one event wakes the worker for all ports. If it
cannot be signalled, the data loop undoes its stores, whether the worker has taken the buffer or not.
-/

namespace PipeWireAO.Parameter.Filter

open Foundation

variable {B : Type*}

/-! ## One port -/

/-- Where the data loop stands in `dequeue_parameter`, `retry_parameter` and
`schedule_parameter` of a port. -/
inductive Loop (B : Type*)
  | idle
  /-- About to take `completed_parameter`. -/
  | start
  /-- About to take `pending_parameter`, which is completed. -/
  | takePending
  /-- About to look at `pending_parameter`. -/
  | check
  /-- A buffer is out: new ones go straight back. -/
  | drain
  /-- `retry_parameter`: about to take `retry_parameter`. -/
  | retry
  | retryStore
  | retryWake
  /-- Waking failed: about to clear `parameter_scheduled`, then to set `retry_parameter`. -/
  | retryClear
  | retryRestore
  /-- No buffer is out: keep the newest one that is present. -/
  | collect (latest : Option B)
  /-- `schedule_parameter`: about to project the buffer into the view. -/
  | project (b : B)
  | cas (b : B)
  | store (b : B)
  | wake (b : B)
  /-- Waking failed: about to clear `parameter_scheduled`, then `pending_parameter`. -/
  | undoFlag (b : B)
  | undoPending (b : B)
deriving DecidableEq

/-- Where the worker stands at a port: not there, after it took `parameter_scheduled`, or
inside the callback `update_parameter`. -/
inductive Worker (B : Type*)
  | idle
  | claimed
  | calling (b : B)
deriving DecidableEq

/-- A parameter port: its atomics, the buffer its view was made from, the buffers that have
arrived for it (with `parameter_buffer_absent`), and the two threads. -/
structure Port (B : Type*) where
  pending : Option B
  (scheduled retry completed : Bool)
  view : Option B
  arrivals : List (B × Bool)
  loop : Loop B
  worker : Worker B
deriving DecidableEq

/-- A port without buffers. -/
def Port.init : Port B := ⟨none, false, false, false, none, [], .idle, .idle⟩

/-- What is observed at a port: buffers dequeued from and queued back to their producer, the
view being written, and the life of the buffer that is out. -/
inductive PortEvent (B : Type*)
  | dequeued (b : B)
  | queued (b : B)
  | projected (b : B)
  | life (e : Event B)
deriving DecidableEq

/-- The steps at a port: a buffer arrives; the data loop enters `dequeue_parameter` or makes its
next step; the worker looks at `parameter_scheduled` or makes its next step. `ok` is the outcome of
projecting the buffer or of signalling the event, `busy` whether the callback answered `-EBUSY`. -/
inductive PortAction (B : Type*)
  | arrive (b : B) (absent : Bool)
  | enter
  | loop (ok : Bool)
  | claim
  | work (busy : Bool)
deriving DecidableEq

/-- The buffers the data loop holds between dequeuing and storing or queuing them. -/
def Loop.held : Loop B → List B
  | .collect latest => latest.toList
  | .project b => [b]
  | .cas b => [b]
  | _ => []

/-- The buffers that were dequeued and not queued back yet. -/
def Port.held (s : Port B) : List B := s.loop.held ++ s.pending.toList

def loopStep (s : Port B) (ok : Bool) : Option (Port B × List (PortEvent B)) :=
  match s.loop with
  | .idle => none
  | .start =>
    if s.completed then some ({ s with completed := false, loop := .takePending }, [])
    else some ({ s with loop := .check }, [])
  | .takePending =>
    some ({ s with pending := none, loop := .check },
      match s.pending with
      | none => []
      | some b => [.life (.returned b), .queued b])
  | .check => some ({ s with loop := if s.pending.isSome then .drain else .collect none }, [])
  | .drain =>
    match s.arrivals with
    | [] => some ({ s with loop := .retry }, [])
    | (b, _) :: rest => some ({ s with arrivals := rest }, [.dequeued b, .queued b])
  | .retry =>
    if s.retry then some ({ s with retry := false, loop := .retryStore }, [])
    else some ({ s with loop := .idle }, [])
  | .retryStore => some ({ s with scheduled := true, loop := .retryWake }, [])
  | .retryWake => some ({ s with loop := if ok then .idle else .retryClear }, [])
  | .retryClear => some ({ s with scheduled := false, loop := .retryRestore }, [])
  | .retryRestore => some ({ s with retry := true, loop := .idle }, [])
  | .collect latest =>
    match s.arrivals with
    | [] =>
      match latest with
      | none => some ({ s with loop := .idle }, [])
      | some b => some ({ s with loop := .project b }, [])
    | (b, true) :: rest => some ({ s with arrivals := rest }, [.dequeued b, .queued b])
    | (b, false) :: rest =>
      -- the newest buffer replaces the one that was kept
      some ({ s with arrivals := rest, loop := .collect (some b) },
        .dequeued b :: latest.toList.map .queued)
  | .project b =>
    -- `project_buffer` fills the view before it fails
    if ok then some ({ s with view := some b, loop := .cas b }, [.projected b])
    else some ({ s with view := some b, loop := .idle }, [.projected b, .queued b])
  | .cas b =>
    match s.pending with
    | none => some ({ s with pending := some b, loop := .store b }, [.life (.offered b)])
    | some _ => some ({ s with loop := .idle }, [.queued b])
  | .store b => some ({ s with scheduled := true, loop := .wake b }, [])
  | .wake b => some ({ s with loop := if ok then .idle else .undoFlag b }, [])
  | .undoFlag b => some ({ s with scheduled := false, loop := .undoPending b }, [])
  | .undoPending b =>
    some ({ s with pending := none, loop := .idle }, [.life (.withdrawn b), .queued b])

/-- The next step of the worker in `update_parameter` of a port. -/
def workStep (s : Port B) (busy : Bool) : Option (Port B × List (PortEvent B)) :=
  match s.worker with
  | .idle => none
  | .claimed =>
    match s.pending with
    -- the offer was undone after it was claimed
    | none => some ({ s with worker := .idle }, [])
    | some b => some ({ s with worker := .calling b }, [.life (.called b)])
  | .calling b =>
    if busy then some ({ s with retry := true, worker := .idle }, [.life (.deferred b)])
    else some ({ s with completed := true, worker := .idle }, [.life (.completed b)])

variable [DecidableEq B]

/-- The steps of the data loop and the worker at one port. A producer only delivers a buffer that
it has. -/
def portStep (s : Port B) : PortAction B → Option (Port B × List (PortEvent B))
  | .arrive b absent =>
    if b ∈ s.arrivals.map Prod.fst ∨ b ∈ s.held then none
    else some ({ s with arrivals := s.arrivals ++ [(b, absent)] }, [])
  | .enter =>
    match s.loop with
    | .idle => some ({ s with loop := .start }, [])
    | _ => none
  | .loop ok => loopStep s ok
  | .claim =>
    match s.worker, s.scheduled with
    | .idle, true =>
      some ({ s with scheduled := false, worker := .claimed },
        match s.pending with
        | none => []
        | some b => [.life (.claimed b)])
    | .idle, false => some (s, [])
    | _, _ => none
  | .work busy => workStep s busy

/-! ## All the ports -/

/-- The ports; the port of the data loop, the next one of the worker, and whether the event was
signalled. -/
structure State (B : Type*) where
  ports : ℕ → Port B
  (loop worker : Option ℕ)
  signalled : Bool

/-- The steps of the filter: a buffer arrives, the data loop enters `dequeue_parameter` of a port
or makes its next step, the worker starts `parameter_event` or makes its next step. -/
inductive Action (B : Type*)
  | arrive (p : ℕ) (b : B) (absent : Bool)
  | enter (p : ℕ)
  | loop (ok : Bool)
  | wakeWorker
  | work (busy : Bool)
deriving DecidableEq

/-- Port `p` after a step of its own. -/
def onPort (s : State B) (p : ℕ) (a : PortAction B) :
    Option (State B × List (ℕ × PortEvent B)) :=
  (portStep (s.ports p) a).map fun r =>
    ({ s with ports := Function.update s.ports p r.1 }, r.2.map fun e => (p, e))

/-- The data loop is about to signal the parameter event. -/
def Loop.signals : Loop B → Bool
  | .wake _ => true
  | .retryWake => true
  | _ => false

/-- The steps of a filter with `n` parameter ports. -/
def step (n : ℕ) (s : State B) : Action B → Option (State B × List (ℕ × PortEvent B))
  | .arrive p b absent => onPort s p (.arrive b absent)
  | .enter p =>
    match s.loop with
    | none => (onPort s p .enter).map fun r => ({ r.1 with loop := some p }, r.2)
    | some _ => none
  | .loop ok =>
    match s.loop with
    | none => none
    | some p =>
      (onPort s p (.loop ok)).map fun r =>
        ({ r.1 with
            loop := match (r.1.ports p).loop with
              | .idle => none
              | _ => some p
            signalled := s.signalled || ((s.ports p).loop.signals && ok) }, r.2)
  | .wakeWorker =>
    match s.worker with
    | none => if s.signalled then some ({ s with worker := some 0, signalled := false }, []) else none
    | some _ => none
  | .work busy =>
    match s.worker with
    | none => none
    | some p =>
      if n ≤ p then some ({ s with worker := none }, [])
      else
        -- `update_parameter` of one port after the other
        (onPort s p (match (s.ports p).worker with
          | .idle => .claim
          | _ => .work busy)).map fun r =>
          ({ r.1 with
              worker := match (r.1.ports p).worker with
                | .idle => some (p + 1)
                | _ => some p }, r.2)

/-- The parameter handoff of a filter with `n` parameter ports. -/
def machine (B : Type*) [DecidableEq B] (n : ℕ) : Machine (State B) (Action B) (ℕ × PortEvent B) where
  step := step n

/-- A filter whose ports have no buffers. -/
def init : State B := ⟨fun _ => .init, none, none, false⟩

/-- **The condition**: the data loop undoes its stores after a failed wake-up only while
`parameter_scheduled` is still set, that is, while the worker has not claimed the buffer. -/
def portUnclaimed (s : Port B) : PortAction B → Bool
  | .loop _ =>
    match s.loop with
    | .undoFlag _ => s.scheduled
    | .retryClear => s.scheduled
    | _ => true
  | _ => true

/-- The condition at the port the data loop is at. -/
def unclaimed (s : State B) : Action B → Bool
  | .loop ok =>
    match s.loop with
    | none => true
    | some p => portUnclaimed (s.ports p) (.loop ok)
  | _ => true

end PipeWireAO.Parameter.Filter
