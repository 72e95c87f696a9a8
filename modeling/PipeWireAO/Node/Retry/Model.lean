import PipeWireAO.Node.Completion
import PipeWireAO.Node.RowPort

/-!
# The row retry latch

A row-transport driver that cannot start a cycle remembers it: a request of the main thread and a
rejected `node_ready` set `reliable_retry_pending`, and a scan on the driver's data loop turns the
latch into one RequestProcess command to the source, which may call `node_ready` from inside of it.

The data loop is a stack of tasks, one shared access per step, with a nested call on top of its
caller. The main thread, the followers and the consumers of the rows take steps at any time.
-/

namespace PipeWireAO.Node.Retry

open Foundation Completion

/-! ## State -/

/-- The driver and its target list, fixed while the driver is RUNNING. -/
structure Config where
  driver : ℕ
  targets : List Target

/-- An output port of the driver. A port of a row-transport node takes at most one link
(`pw_impl_port_init_mix` answers a second one with -EBUSY). -/
structure Output where
  io : IoBuffers
  mix : Option OutputMix
  nBuffers : ℕ

/-- What the data loop does next, by its next access to shared state.

* `returns`: `flush_reliable_input_returns`
* `retryRelease` to `retryCas`: the tests of `flush_reliable_retry`, in their order
* `send k`: the source handles the `k`-th RequestProcess command
* `ready` to `start`: `node_ready`, called with or without HAVE_DATA; `checked` says that
  the tests for a driver with a cycle in flight were made -/
inductive Task
  | returns
  | retryRelease
  | retryLatch
  | retryComplete
  | retryRows
  | retryCas
  | send (k : ℕ)
  | ready (data : Bool)
  | readyComplete (data : Bool)
  | readyRelease (data : Bool)
  | readyRows (data : Bool)
  | admission (data : Bool)
  | recover
  | start (data checked : Bool)
deriving DecidableEq

/-- The driver. `release`, `pending` and `dispatched` are `reliable_release_pending`,
`reliable_retry_pending` and `reliable_retry_dispatched`; `rowReturn` holds if every active remote
target has `pipewireao.row-transport-return`. No step reads `cycleBorrowed`, whether a row was on
loan when the last cycle was admitted, or `serial`, which numbers the commands. -/
structure State where
  act : ℕ → Activation
  (prepared running rowReturn inflight release pending dispatched : Bool)
  outputs : List Output
  cycleBorrowed : Bool
  serial : ℕ
  stack : List Task

/-- `sent` carries the facts of the moment: the cycle is complete, a release is pending, a
row is borrowed, an output has a source row. `published` carries whether a row was borrowed
when the cycle was admitted, and the buffers the tees gave out. -/
inductive Event
  | request
  | called
  | rejected
  | admitted
  | published (borrowed : Bool) (ids : List (Option ℕ))
  | sent (k : ℕ) (complete release borrowed source : Bool)
  | failed (k : ℕ)
  | unprepared
deriving DecidableEq

/-- What the code outside answers in one access: the release of the driver's own inputs, the
`port_reuse_buffer` of the source, and a `process_node` of the driver (whether it has data,
and whether an input buffer is to be released). -/
structure Answers where
  inputs : Int
  reuse : ℕ → Int
  (data release : Bool)

/-- The steps. `trigger` to `finish` are the followers, `source` is the source writing its
output record, `consumer` a consumer writing the records it shares. -/
inductive Action
  | request
  | trigger (i : ℕ)
  | wake (i : ℕ)
  | release (i : ℕ)
  | finish (i : ℕ)
  | source (p : ℕ) (io : IoBuffers)
  | consumer (p : ℕ) (io : IoBuffers) (port : Option IoBuffers)
  | event
  | ready (data : Bool)
  | process (data release : Bool)
  | unprepare
  | answer (res : Int)
  | run (ans : Answers)

/-! ## The ports -/

def mixBorrowed (m : OutputMix) : Bool :=
  match m.peer with
  | some p => p.rowTransport && p.rowBorrowed
  | none => false

/-- `pw_impl_port_has_borrowed_row` -/
def Output.borrowed (o : Output) : Bool := o.mix.any mixBorrowed

/-- `driver_has_borrowed_row` -/
def hasBorrowedRow (os : List Output) : Bool := os.any Output.borrowed

/-- `driver_has_source_row` -/
def hasSourceRow (os : List Output) : Bool := os.any fun o => o.io.status == .haveData

def Output.tee (o : Output) : Output × List (Option ℕ) :=
  let r := teeProcessReliable o.io o.mix.toList
  ({ o with io := r.1, mix := r.2.1.head? }, r.2.2)

/-- The loop over the output ports that runs the tees. -/
def publish (os : List Output) : List Output × List (Option ℕ) :=
  (os.map fun o => o.tee.1, os.flatMap fun o => o.tee.2)

/-- The loop of `flush_reliable_input_returns` over the output ports; an error ends it. -/
def collect (releaseLocal : Bool) (reuse : ℕ → Int) : List Output → Bool × List Output
  | [] => (true, [])
  | o :: os =>
    let r := reuseRowOutput o.nBuffers releaseLocal reuse o.mix.toList
    let o' := { o with mix := r.2.1.head? }
    if r.1 < 0 then (false, o' :: os)
    else
      let r' := collect releaseLocal reuse os
      (r'.1, o' :: r'.2)

/-! ## The data loop -/

variable (c : Config)

/-- `pw_impl_node_reliable_cycle_complete`. A status it found FINISHED stays FINISHED until
the driver arms the node, so the walk over the targets is one access. -/
def cycleComplete (s : State) : Bool := complete c.driver s.act c.targets

/-- `flush_reliable_input_returns` -/
def flushInputReturns (ans : Answers) (s : State) : State :=
  if !cycleComplete c s then s
  else if s.release && ans.inputs < 0 then s
  else
    let r := collect s.release ans.reuse s.outputs
    { s with outputs := r.2, release := if r.1 then false else s.release }

/-- `goto retry` of `node_ready`; its wake-up of the data loop is an `event` at some time. -/
def reject (rest : List Task) (s : State) : State × List Event :=
  ({ s with dispatched := false, pending := true, stack := rest }, [.rejected])

def runTees (data : Bool) (s : State) : State × List Event :=
  if data then
    ({ s with outputs := (publish s.outputs).1 },
      [.published s.cycleBorrowed (publish s.outputs).2])
  else (s, [])

/-- `process_node` of the driver up to its own FINISHED. -/
def processDriver (data release : Bool) (s : State) : State × List Event :=
  let r := runTees data s
  ({ r.1 with
      release := r.1.release || release
      act := setStatus r.1.act c.driver .finished }, r.2)

/-- One access of the task on top of the stack; `rest` are the tasks below it. -/
def runTask (ans : Answers) (s : State) (rest : List Task) : Task → Option (State × List Event)
  | .returns => some (flushInputReturns c ans { s with stack := rest }, [])
  | .retryRelease =>
    if s.release || s.dispatched then some ({ s with stack := rest }, [])
    else some ({ s with stack := .retryLatch :: rest }, [])
  | .retryLatch =>
    some ({ s with stack := if s.pending then .retryComplete :: rest else rest }, [])
  | .retryComplete =>
    some ({ s with stack := if cycleComplete c s then .retryRows :: rest else rest }, [])
  | .retryRows =>
    if !s.running then some ({ s with pending := false, stack := rest }, [])
    else if hasBorrowedRow s.outputs && hasSourceRow s.outputs then
      some ({ s with stack := rest }, [])
    else some ({ s with stack := .retryCas :: rest }, [])
  | .retryCas =>
    if s.pending then
      some ({ s with
          pending := false
          dispatched := true
          serial := s.serial + 1
          stack := .send s.serial :: rest },
        [.sent s.serial (cycleComplete c s) s.release (hasBorrowedRow s.outputs)
          (hasSourceRow s.outputs)])
    else some ({ s with stack := rest }, [])
  -- the source runs: it returns (`answer`) or calls `node_ready` (`ready`)
  | .send _ => none
  | .ready data =>
    if !s.prepared || !s.rowReturn then some ({ s with stack := rest }, [.called])
    else if s.inflight then
      some ({ s with stack := .returns :: .readyComplete data :: rest }, [.called])
    else some ({ s with stack := .admission data :: rest }, [.called])
  | .readyComplete data =>
    if cycleComplete c s then some ({ s with stack := .readyRelease data :: rest }, [])
    else some (reject rest s)
  | .readyRelease data =>
    if s.release then some (reject rest s)
    else some ({ s with stack := .readyRows data :: rest }, [])
  | .readyRows data =>
    if hasBorrowedRow s.outputs && (!s.dispatched || hasSourceRow s.outputs) then
      some (reject rest s)
    else some ({ s with stack := .admission data :: rest }, [])
  | .admission data =>
    let start := Task.start data s.inflight :: rest
    some ({ s with
      dispatched := false
      cycleBorrowed := hasBorrowedRow s.outputs
      stack := if (s.act c.driver).status = .finished then start else .recover :: start },
      [.admitted])
  -- the driver did not finish: it is processed once, and scans when it is done
  | .recover =>
    some (processDriver c ans.data ans.release
      { s with stack := .returns :: .retryRelease :: rest })
  | .start data _ =>
    some (runTees data { s with
      act := startCycle c.driver s.act c.targets
      inflight := true
      stack := rest })

/-! ## The machine -/

/-- The compare-and-swap of the status of node `i`. -/
def casNode (s : State) (i : ℕ) (old new : ActivationStatus) : Option (State × List Event) :=
  if (s.act i).status = old then some ({ s with act := setStatus s.act i new }, []) else none

/-- The source runs on the data loop: in its own callback, or inside a command. -/
def sourceRuns (s : State) : Bool :=
  match s.stack with
  | [] | .send _ :: _ => true
  | _ => false

/-- The output after its consumer wrote the shared records; the loan is the driver's own. -/
def Output.shared (o : Output) (io : IoBuffers) (port : Option IoBuffers) : Output :=
  { o with mix := o.mix.map fun m => ⟨io, m.peer.map fun p => { p with port := port }⟩ }

def step (s : State) : Action → Option (State × List Event)
  -- `handle_request_process_command` of a RUNNING driver
  | .request => if s.running then some ({ s with pending := true }, [.request]) else some (s, [])
  | .trigger i => casNode s i .notTriggered .triggered
  | .wake i => if i ≠ c.driver then casNode s i .triggered .awake else none
  -- `process_node` of a follower leaves an input buffer to be released
  | .release i =>
    if i ≠ c.driver ∧ ⟨i, true⟩ ∈ c.targets ∧ (s.act i).status = .awake then
      some ({ s with release := true }, []) else none
  | .finish i => if i ≠ c.driver then casNode s i .awake .finished else none
  | .source p io =>
    if sourceRuns s then
      some ({ s with outputs := s.outputs.modify p fun o => { o with io := io } }, [])
    else none
  | .consumer p io port =>
    some ({ s with outputs := s.outputs.modify p fun o => o.shared io port }, [])
  -- `reliable_request_event`
  | .event => if s.stack = [] then some ({ s with stack := [.returns, .retryRelease] }, []) else none
  | .ready data => if sourceRuns s then some ({ s with stack := .ready data :: s.stack }, []) else none
  | .process data release =>
    if s.stack = [] ∧ (s.act c.driver).status = .triggered then
      some (processDriver c data release { s with stack := [.returns, .retryRelease] })
    else none
  -- `do_node_unprepare`, with the loop locked
  | .unprepare =>
    if s.stack = [] then
      some ({ s with
        act := setStatus s.act c.driver .inactive
        prepared := false
        inflight := false
        dispatched := false
        pending := false }, [.unprepared])
    else none
  -- `spa_node_send_command` returns
  | .answer res =>
    match s.stack with
    | .send k :: rest =>
      if res < 0 then
        some ({ s with dispatched := false, pending := true, stack := rest }, [.failed k])
      else some ({ s with stack := rest }, [])
    | _ => none
  | .run ans =>
    match s.stack with
    | [] => none
    | t :: rest => runTask c ans s rest t

/-- The driver with everything around it. -/
def machine : Machine State Action Event where
  step := step c

/-! ## What the events say -/

def openStep (w : Bool) : Event → Bool
  | .request | .rejected => true
  | .admitted | .unprepared => false
  | _ => w

/-- A request is open: since the last admitted cycle one arrived, or a `node_ready` was rejected. -/
def Open (tr : List Event) : Bool := tr.foldl openStep false

/-- What one event does to the outstanding commands. -/
def outStep (l : List ℕ) : Event → List ℕ
  | .called => []
  | .sent k _ _ _ _ => k :: l
  | .failed k => l.erase k
  | _ => l

/-- The commands sent since the last `node_ready` that did not fail. -/
def outstanding (tr : List Event) : List ℕ := tr.foldl outStep []

end PipeWireAO.Node.Retry
