import PipeWireAO.Errno

/-!
# Node activations

Every node of the graph has an activation record in shared memory. Its status word is
moved by the driver (arming), by the peers that trigger the node, and by the node
itself (processing, leaving the graph).
-/

namespace PipeWireAO.Node

/-- `PW_NODE_ACTIVATION_*`, the status word of `struct pw_node_activation`. -/
inductive ActivationStatus
  | notTriggered
  | triggered
  | awake
  | finished
  | inactive
deriving DecidableEq

/-- `struct pw_node_activation`: the parts the scheduler reads and writes. `driverId` is the driver
that scheduled the node last, `activeDriverId` the one its owner has switched to, `async` is
`PW_NODE_ACTIVATION_FLAG_ASYNC`, `required` and `pending` are those of `state[0]`. -/
structure Activation where
  status : ActivationStatus
  (required pending : Int)
  (driverId activeDriverId : ℕ)
  async : Bool
deriving DecidableEq

/-- `struct pw_node_target`: an edge to the node `id`, whose activation is shared by all
the targets that point at it. `active` is set while the edge takes part in scheduling. -/
structure Target where
  id : ℕ
  active : Bool
deriving DecidableEq

/-- `pw_impl_node_reliable_cycle_complete`: the driver and every target with `active` set are
FINISHED. Activations are looked up by node id, so the target by which a driver points at itself
reads its own word. -/
def reliableCycleComplete (status : ℕ → ActivationStatus) (driver : ℕ)
    (targets : List Target) : Bool :=
  status driver == .finished &&
    targets.all fun t => !t.active || status t.id == .finished

theorem reliableCycleComplete_iff {status : ℕ → ActivationStatus} {driver : ℕ}
    {targets : List Target} : reliableCycleComplete status driver targets = true ↔
      status driver = .finished ∧ ∀ t ∈ targets, t.active = true → status t.id = .finished := by
  simp only [reliableCycleComplete, Bool.and_eq_true, beq_iff_eq, List.all_eq_true,
    Bool.or_eq_true, Bool.not_eq_true', and_congr_right_iff]
  intro _
  refine forall₂_congr fun t _ => ?_
  cases t.active <;> simp

/-! ## Arming -/

/-- The activations after node `i` got the activation `a`. -/
def setActivation (act : ℕ → Activation) (i : ℕ) (a : Activation) : ℕ → Activation :=
  fun j => if j = i then a else act j

@[simp] theorem setActivation_self (act : ℕ → Activation) (i : ℕ) (a : Activation) :
    setActivation act i a i = a := if_pos rfl

@[simp] theorem setActivation_ne (act : ℕ → Activation) {i j : ℕ} (a : Activation) (h : j ≠ i) :
    setActivation act i a j = act j := if_neg h

theorem setActivation_frame {α : Type*} (f : Activation → α) {act : ℕ → Activation} {i : ℕ}
    {a : Activation} (h : f a = f (act i)) (j : ℕ) : f (setActivation act i a j) = f (act j) := by
  by_cases hj : j = i
  · rw [hj, setActivation_self, h]
  · rw [setActivation_ne act a hj]

/-- `node_ready` takes the target into the cycle of driver `d`: it follows this driver and is not
INACTIVE. -/
def joins (d : ℕ) (a : Activation) : Bool :=
  a.activeDriverId == d && a.status != .inactive

/-- The activation of a target after the loop of `node_ready` visited it: `pending` is
reset (`pw_node_activation_state_reset`), and a target that joins the cycle is
NOT_TRIGGERED. -/
def armActivation (d : ℕ) (a : Activation) : Activation :=
  { a with
    driverId := d
    pending := a.required
    status := if joins d a then .notTriggered else a.status }

/-- The loop of `node_ready` over the target list. -/
def armTargets (d : ℕ) (act : ℕ → Activation) : List Target → ℕ → Activation
  | [] => act
  | t :: ts => armTargets d (setActivation act t.id (armActivation d (act t.id))) ts

/-- How many targets the driver waits for (`pending` in `node_ready`): those that join and are not
asynchronous. -/
def armedPending (d : ℕ) (act : ℕ → Activation) (ts : List Target) : ℕ :=
  ts.countP fun t => joins d (act t.id) && !(act t.id).async

theorem joins_armActivation (d : ℕ) (a : Activation) : joins d (armActivation d a) = joins d a := by
  cases h : joins d a <;> simp_all [joins, armActivation]

@[simp] theorem armActivation_idem (d : ℕ) (a : Activation) :
    armActivation d (armActivation d a) = armActivation d a := by
  rw [armActivation, joins_armActivation]
  cases h : joins d a <;> simp [armActivation, h]

theorem armTargets_apply (d : ℕ) (act : ℕ → Activation) (ts : List Target) (i : ℕ) :
    armTargets d act ts i = if i ∈ ts.map Target.id then armActivation d (act i) else act i := by
  induction ts generalizing act with
  | nil => simp [armTargets]
  | cons t ts ih =>
    rw [armTargets, ih]
    by_cases hi : i = t.id
    · subst hi
      simp
    · simp [hi]

end PipeWireAO.Node
