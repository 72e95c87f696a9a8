import Mathlib.Algebra.Group.Nat.Defs
import Mathlib.Logic.Relation
import Mathlib.Tactic.Simps.Basic
import PipeWireAO.Node.Completion

/-!
# Dataflow scheduling of one graph cycle

The driver arms its nodes and triggers them; every node counts the triggers it waits for, and the one
that brings the count to zero publishes the signal time, moves the status to TRIGGERED and wakes the
node. A node that has finished triggers its targets, of which the driver is one, and finishes last.

Every node has a thread. The decrement of the count, the read and the claim of the sequence word, the
compare-and-swap of the status, the release of the word and the wake-up are separate steps.
-/

namespace PipeWireAO.Node.Dataflow

open Foundation Completion Function

/-- A driver and the synchronous nodes it drives: its targets, the driver included; every other node
has the driver among its targets (`to_driver_peer`). Target lists have no duplicates
(`pw_node_peer_ref` counts references), and without the driver there is no cycle. -/
structure Graph where
  driver : ℕ
  targets : ℕ → List ℕ
  polling : ℕ → Bool
  nodup : ∀ n, (targets n).Nodup
  driver_mem : driver ∈ targets driver
  closed : ∀ {n m}, n ∈ targets driver → m ∈ targets n → m ∈ targets driver
  to_driver : ∀ {n}, n ∈ targets driver → driver ∈ targets n
  acyclic : ∀ n, ¬ Relation.TransGen
    (fun n m => n ∈ targets driver ∧ n ≠ driver ∧ m ≠ driver ∧ m ∈ targets n) n n

namespace Graph

variable (g : Graph)

def nodes : List ℕ := g.targets g.driver

/-- The number of nodes that have `t` among their targets. -/
def inDegree (t : ℕ) : ℕ := g.nodes.countP fun n => t ∈ g.targets n

def targetList : List Target := g.nodes.map fun n => ⟨n, true⟩

end Graph

/-- Where `trigger_target_v2` stands after it decremented the count to zero: about to read the
sequence word, to claim it (with the value read), to move the status, to release the word with the
signal time, to write the eventfd; or to release the word after the status was not NOT_TRIGGERED. -/
inductive Stage
  | readSeq
  | claimSeq (seq : ℕ)
  | casStatus
  | writeTime
  | wakeUp
  | giveUp
deriving DecidableEq

/-- The thread of a node: waiting to be scheduled, inside `process_node`, in
`trigger_targets` with the targets still to trigger, inside `trigger_target_v2` for a target
whose count it brought to zero, or through with the cycle. -/
inductive Pc
  | waiting
  | processing
  | triggering (rest : List ℕ)
  | handling (stage : Stage) (t : ℕ) (rest : List ℕ)
  | done
deriving DecidableEq

/-- The activations, the sequence words `signal_time_seq`, the eventfd counters and the
threads. -/
structure State where
  act : ℕ → Activation
  seq : ℕ → ℕ
  fd : ℕ → ℕ
  pc : ℕ → Pc

/-- What is observed: node `n` decrements the count of `t`; a status moves; and the two error
exits of `trigger_target_v2`, `-EBUSY` and `-EIO`. -/
inductive Event
  | fired (n t : ℕ)
  | triggered (t : ℕ)
  | awake (t : ℕ)
  | finished (t : ℕ)
  | busy (n t : ℕ)
  | notReady (n t : ℕ)
deriving DecidableEq

/-- The data loop of a node calls `process_node`, or the thread of a node makes its next
step. -/
inductive Action
  | wake (n : ℕ)
  | advance (n : ℕ)
deriving DecidableEq

namespace State

variable (s : State)

@[simps -fullyApplied]
def setPc (n : ℕ) (p : Pc) : State := { s with pc := update s.pc n p }

@[simps -fullyApplied]
def setSeq (t : ℕ) (q : ℕ) : State := { s with seq := update s.seq t q }

@[simps -fullyApplied]
def setFd (t : ℕ) (c : ℕ) : State := { s with fd := update s.fd t c }

@[simps -fullyApplied]
def setAct (t : ℕ) (a : Activation) : State := { s with act := update s.act t a }

@[simps! -fullyApplied]
def setStatus (t : ℕ) (st : ActivationStatus) : State :=
  s.setAct t { s.act t with status := st }

end State

/-- `SPA_SEQ_WRITE`: an increment of the 32-bit sequence word. -/
def seqWrite (q : ℕ) : ℕ := (q + 1) % 2 ^ 32

/-- One step of `trigger_target_v2` for the target `t`, after its count reached zero. -/
def handle (g : Graph) (s : State) (n : ℕ) (stage : Stage) (t : ℕ) (rest : List ℕ) :
    State × List Event :=
  match stage with
  | .readSeq =>
    if s.seq t % 2 = 1 then (s.setPc n (.triggering rest), [.busy n t])
    else (s.setPc n (.handling (.claimSeq (s.seq t)) t rest), [])
  | .claimSeq q =>
    -- another writer may have taken the word since it was read
    if s.seq t = q then
      ((s.setSeq t (seqWrite q)).setPc n (.handling .casStatus t rest), [])
    else (s.setPc n (.triggering rest), [.busy n t])
  | .casStatus =>
    if (s.act t).status = .notTriggered then
      ((s.setStatus t .triggered).setPc n (.handling .writeTime t rest), [.triggered t])
    else (s.setPc n (.handling .giveUp t rest), [])
  | .writeTime =>
    ((s.setSeq t (seqWrite (s.seq t))).setPc n (.handling .wakeUp t rest), [])
  | .wakeUp =>
    -- a polling owner is not woken: it looks at the status itself
    if g.polling t then (s.setPc n (.triggering rest), [])
    else ((s.setFd t (s.fd t + 1)).setPc n (.triggering rest), [])
  | .giveUp =>
    ((s.setSeq t (seqWrite (s.seq t))).setPc n (.triggering rest), [.notReady n t])

/-- The next step of the thread of node `n`. The driver triggers its targets in
`node_ready`, before it waits for its own turn; the other nodes do it at the end of
`process_node`. -/
def advance (g : Graph) (s : State) (n : ℕ) : Option (State × List Event) :=
  match s.pc n with
  | .waiting => none
  | .done => none
  | .processing =>
    if (s.act n).status = .awake then
      if n = g.driver then
        -- the driver does not trigger: it sets its own signal time, which is two writes
        some (((s.setStatus n .finished).setSeq n (seqWrite (seqWrite (s.seq n)))).setPc n .done,
          [.finished n])
      else some ((s.setStatus n .finished).setPc n (.triggering (g.targets n)), [.finished n])
    -- the status was taken away from the node: it triggers nothing
    else some (s.setPc n .done, [])
  | .triggering [] => some (s.setPc n (if n = g.driver then .waiting else .done), [])
  | .triggering (t :: rest) =>
    -- only the trigger that brings the count to zero goes on
    let s' := s.setAct t { s.act t with pending := (s.act t).pending - 1 }
    if (s'.act t).pending = 0 then some (s'.setPc n (.handling .readSeq t rest), [.fired n t])
    else some (s'.setPc n (.triggering rest), [.fired n t])
  | .handling stage t rest => some (handle g s n stage t rest)

/-- `process_node` runs: the status moves from TRIGGERED to AWAKE if the signal time is
published. -/
def wakeNode (s : State) (n : ℕ) : State × List Event :=
  if s.seq n % 2 = 0 ∧ (s.act n).status = .triggered then
    ((s.setStatus n .awake).setPc n .processing, [.awake n])
  else (s, [])

/-- The data loop of node `n` runs it: a polling loop looks for the status TRIGGERED, the
others wait for the eventfd. -/
def wake (g : Graph) (s : State) (n : ℕ) : Option (State × List Event) :=
  if s.pc n ≠ .waiting then none
  else if g.polling n then
    if s.seq n % 2 = 0 ∧ (s.act n).status = .triggered then some (wakeNode s n) else none
  else if 0 < s.fd n then some (wakeNode (s.setFd n 0) n)
  else none

def cycle (g : Graph) : Machine State Action Event where
  step s
    | .wake n => wake g s n
    | .advance n => advance g s n

/-- The nodes are prepared for a cycle: they follow the driver, are synchronous and in the
graph, and `required` counts the targets that point at them. -/
structure Prepared (g : Graph) (act : ℕ → Activation) : Prop where
  follows : ∀ t ∈ g.nodes, (act t).activeDriverId = g.driver
  present : ∀ t ∈ g.nodes, (act t).status ≠ .inactive
  synchronous : ∀ t ∈ g.nodes, (act t).async = false
  required : ∀ t ∈ g.nodes, (act t).required = g.inDegree t

/-- The state in which `node_ready` calls `trigger_targets`. -/
def start (g : Graph) (act : ℕ → Activation) (seq : ℕ → ℕ) : State where
  act := startCycle g.driver act g.targetList
  seq := seq
  fd := fun _ => 0
  -- the driver is in `trigger_targets`, and its followers wait
  pc n := if n = g.driver then .triggering (g.targets n)
    else if n ∈ g.nodes then .waiting else .done

end PipeWireAO.Node.Dataflow
