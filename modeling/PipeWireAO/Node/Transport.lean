import Mathlib.Data.List.Basic
import PipeWireAO.Node.Activation

/-!
# The start of the transport

The driver keeps the state of the transport in its activation. A START command, or a new position
while it runs, makes the state STARTING until every node is ready or a number of cycles has passed:
the sync timeout divided by the duration of a cycle, counted down by `update_position` in every cycle
with a node that is not ready, the first one included.

The count is checked after it was decremented. A timeout shorter than one cycle gives the count 0,
and the first cycle takes it to `2 ^ 64 - 1`: then only the nodes can end the wait.
-/

namespace PipeWireAO.Node.Transport

open List

/-! ## The model -/

/-- `enum spa_io_position_state`. -/
inductive PositionState
  | stopped
  | starting
  | running
deriving DecidableEq

/-- `PW_NODE_ACTIVATION_COMMAND_*`. -/
inductive Command
  | none
  | start
  | stop
deriving DecidableEq

/-- `SYNC_CHECK`, `SYNC_START` and `SYNC_STOP`. -/
inductive SyncType
  | check
  | start
  | stop
deriving DecidableEq

/-- The parts of `struct spa_io_clock` that the transport reads; `denom` is that of `rate`. -/
structure Clock where
  (position duration : UInt64)
  denom : UInt32
deriving DecidableEq

/-- The transport in the driver's activation, without the segments. `elapsed` is that of the driver. -/
structure Position where
  state : PositionState
  (syncLeft syncTimeout elapsed offset : UInt64)
deriving DecidableEq

/-- A target of the driver. The id 0 is that of the core, no node has it. -/
structure SyncTarget where
  id : ℕ
  activation : Activation
  (pendingSync pendingNewPos : Bool)
  syncTimeout : UInt64
  id_pos : 0 < id

/-- What one call of `node_ready` finds: the clock, the command and the owner of a new position (0
for none) taken out of the activation, and the targets. -/
structure Cycle where
  clock : Clock
  command : Command
  repositionOwner : ℕ
  targets : List SyncTarget

/-- `DEFAULT_SYNC_TIMEOUT`, five seconds. -/
def defaultSyncTimeout : UInt64 := 5000000000

/-- The initial value of `sync_left`; there is none where the code divides by zero. -/
def syncCycles (timeout : UInt64) (clock : Clock) : Option UInt64 :=
  if clock.denom = 0 then none
  else
    let period := clock.duration * 1000000000 / clock.denom.toUInt64
    if period = 0 then none else some (timeout / period)

def checkUpdates (p : Position) (clock : Clock) : Command → Option (Position × SyncType)
  | .none => some (p, .check)
  | .stop => some ({ p with state := .stopped }, .stop)
  | .start => do
    let left ← syncCycles p.syncTimeout clock
    return ({ p with state := .starting, syncLeft := left }, .start)

/-- `do_reposition`, without the segment. -/
def doReposition (p : Position) (clock : Clock) : Option Position :=
  match p.state with
  | .running => do
    let left ← syncCycles p.syncTimeout clock
    return { p with state := .starting, syncLeft := left }
  | _ => some p

/-- The targets that take part in the cycle of driver `d`. -/
def Cycle.joined (d : ℕ) (c : Cycle) : List SyncTarget :=
  c.targets.filter fun t => joins d t.activation

/-- The loop of `node_ready` over one target that takes part, and all others. -/
def syncTarget (d : ℕ) (sync : SyncType) (t : SyncTarget) : SyncTarget :=
  if joins d t.activation && sync != .check then
    { t with pendingSync := sync == .start, pendingNewPos := sync == .start }
  else t

/-- `all_ready` after the loop. -/
def Cycle.allReady (d : ℕ) (c : Cycle) (sync : SyncType) : Bool :=
  sync == .check && (c.joined d).all fun t => !t.pendingSync

/-- `a->sync_timeout` after the loop. -/
def Cycle.minTimeout (d : ℕ) (c : Cycle) : UInt64 :=
  min (((c.joined d).map SyncTarget.syncTimeout).foldl min 0xffffffffffffffff) defaultSyncTimeout

/-- The loop has found the node with the new position. -/
def Cycle.repositions (d : ℕ) (c : Cycle) : Bool :=
  (c.joined d).any fun t => t.id == c.repositionOwner

/-- `node_ready` up to `update_position`: the transport, `all_ready` and the targets. After a new
position the loop runs once more, with the owner 0. -/
def begin (d : ℕ) (p : Position) (c : Cycle) : Option (Position × Bool × List SyncTarget) := do
  let (p, sync) ← checkUpdates p c.clock c.command
  let targets := c.targets.map (syncTarget d sync)
  let p := { p with syncTimeout := c.minTimeout d }
  if c.repositions d then
    let p ← doReposition p c.clock
    return (p, false, targets.map (syncTarget d .start))
  else return (p, c.allReady d sync, targets)

def updatePosition (p : Position) (allReady : Bool) (clock : Clock) : Position :=
  let p :=
    if p.state = .starting then
      if allReady then { p with state := .running }
      else
        let left := p.syncLeft - 1
        { p with syncLeft := left, state := if left = 0 then .running else .starting }
    else p
  let elapsed := if p.state = .running then p.elapsed + clock.duration else p.elapsed
  { p with elapsed, offset := clock.position - elapsed }

/-- The transport after one cycle. -/
def cycle (d : ℕ) (p : Position) (c : Cycle) : Option Position := do
  let (p, allReady, _) ← begin d p c
  return updatePosition p allReady c.clock

/-- The transport after the cycles `cs`. -/
def run (d : ℕ) (p : Position) (cs : List Cycle) : Option Position := cs.foldlM (cycle d) p

/-! ## Waiting -/

/-- All nodes are ready in the cycle: none waits, and none is made to wait by it. -/
def Cycle.Ready (d : ℕ) (c : Cycle) : Prop :=
  c.command = .none ∧ c.repositions d = false ∧ ∀ t ∈ c.joined d, t.pendingSync = false

/-- The cycle takes the transport to STARTING; the timeout is that of `q` cycles. -/
def Enters (d : ℕ) (p : Position) (c : Cycle) (q : UInt64) : Prop :=
  (c.command = .start ∧ syncCycles p.syncTimeout c.clock = some q) ∨
    (c.command = .none ∧ p.state = .running ∧ c.repositions d = true ∧
      syncCycles (c.minTimeout d) c.clock = some q)

/-- The cycles `pre` are spent waiting, and the cycle `last` ends it. -/
structure Waits (d : ℕ) (p : Position) (q : ℕ) (pre : List Cycle) (last : Cycle) : Prop where
  bound : pre.length < q
  unready : ∀ c ∈ pre, ¬ c.Ready d
  waiting : ∀ cs, cs <+: pre → cs ≠ [] → ∃ p', run d p cs = some p' ∧ p'.state = .starting
  reason : last.Ready d ∨ pre.length + 1 = q
  running : ∃ p', run d p (pre ++ [last]) = some p' ∧ p'.state = .running

section

variable {d : ℕ} {p p' : Position} {c : Cycle} {q : UInt64}

/-- The transport waits in the cycle `c`, with the count `q` before `update_position`. -/
def Pending (d : ℕ) (p : Position) (c : Cycle) (q : UInt64) : Prop :=
  ∃ b r ts, begin d p c = some (b, r, ts) ∧ b.state = .starting ∧ b.syncLeft = q ∧
    (r = true ↔ c.Ready d)

theorem Enters.pending (h : Enters d p c q) : Pending d p c q := by
  have hunready : ¬ c.Ready d := by
    rintro ⟨hnone, hsame, -⟩
    rcases h with ⟨hcommand, -⟩ | ⟨-, -, hrepos, -⟩
    · exact nomatch hnone.symm.trans hcommand
    · exact nomatch hsame.symm.trans hrepos
  unfold Pending
  rcases h with ⟨hcommand, hq⟩ | ⟨hcommand, hstate, hrepos, hq⟩
  · cases hrepos : c.repositions d <;>
      simp [begin, checkUpdates, hcommand, hq, hrepos, doReposition, Cycle.allReady, hunready]
  · simp [begin, checkUpdates, hcommand, hq, hrepos, doReposition, hstate, hunready]

theorem pending_of_starting (hstate : p.state = .starting) (hcommand : c.command = .none) :
    Pending d p c p.syncLeft := by
  cases hrepos : c.repositions d with
  | true =>
    simp [Pending, begin, checkUpdates, hcommand, hrepos, doReposition, hstate, Cycle.Ready]
  | false =>
    have hbegin : begin d p c = some ({ p with syncTimeout := c.minTimeout d },
        c.allReady d .check, c.targets.map (syncTarget d .check)) := by
      simp [begin, checkUpdates, hcommand, hrepos]
    refine ⟨_, _, _, hbegin, hstate, rfl, ?_⟩
    simp [Cycle.allReady, Cycle.Ready, hcommand, hrepos]

theorem Pending.cycle (h : Pending d p c q) (hq : 0 < q) : ∃ p', cycle d p c = some p' ∧
      ((p'.state = .running ∧ (c.Ready d ∨ q.toNat = 1)) ∨
        (p'.state = .starting ∧ ¬ c.Ready d ∧ 0 < p'.syncLeft ∧
          p'.syncLeft.toNat + 1 = q.toNat)) := by
  obtain ⟨b, r, ts, hbegin, hstate, rfl, hr⟩ := h
  refine ⟨_, by rw [Transport.cycle, hbegin]; rfl, ?_⟩
  have hsub : (b.syncLeft - 1).toNat = b.syncLeft.toNat - 1 :=
    UInt64.toNat_sub_of_le _ _ (Nat.succ_le_of_lt hq)
  have hpos : 0 < b.syncLeft.toNat := hq
  cases r with
  | true => exact .inl ⟨by simp [updatePosition, hstate], .inl (hr.mp rfl)⟩
  | false =>
    by_cases hzero : (b.syncLeft - 1).toNat = 0
    · have hleft : b.syncLeft - 1 = 0 := UInt64.toNat_inj.mp hzero
      exact .inl ⟨by simp [updatePosition, hstate, hleft], .inr (by omega)⟩
    · have hleft : b.syncLeft - 1 ≠ 0 := fun h => hzero (congrArg UInt64.toNat h)
      have hcount : (updatePosition b false c.clock).syncLeft = b.syncLeft - 1 := by
        simp [updatePosition, hstate]
      refine .inr ⟨by simp [updatePosition, hstate, hleft], ?_, ?_⟩
      · exact fun h => nomatch hr.mpr h
      · rw [hcount]
        exact ⟨Nat.pos_of_ne_zero hzero, by omega⟩

theorem run_cons (h : cycle d p c = some p') (cs : List Cycle) : run d p (c :: cs) = run d p' cs := by
  rw [run, foldlM_cons, h]
  rfl

theorem Waits.cons {last : Cycle} {pre : List Cycle} {n : ℕ} (h : Waits d p' n pre last)
    (hcycle : cycle d p c = some p') (hstate : p'.state = .starting) (hready : ¬ c.Ready d) :
    Waits d p (n + 1) (c :: pre) last := by
  refine ⟨Nat.succ_lt_succ h.bound, forall_mem_cons.mpr ⟨hready, h.unready⟩,
    fun cs hcs hne => ?_, h.reason.imp_right (congrArg Nat.succ), ?_⟩
  · obtain _ | ⟨c', cs⟩ := cs
    · exact absurd rfl hne
    · obtain ⟨rfl, htail⟩ := cons_prefix_cons.mp hcs
      rw [run_cons hcycle]
      by_cases hnil : cs = []
      · exact ⟨p', by rw [hnil]; rfl, hstate⟩
      · exact h.waiting cs htail hnil
  · rw [cons_append, run_cons hcycle]
    exact h.running

/-- The wait from any of its cycles on, by induction on the cycles to come. -/
theorem Pending.waits {p : Position} {c : Cycle} {q : UInt64} (cs : List Cycle)
    (h : Pending d p c q) (hq : 0 < q) (hquiet : ∀ c ∈ cs, c.command = .none)
    (hlen : q.toNat ≤ cs.length + 1) :
    ∃ pre last, pre ++ [last] <+: c :: cs ∧ Waits d p q.toNat pre last := by
  obtain ⟨p', hcycle, ⟨hrun, hreason⟩ | ⟨hwait, hready, hpos, hleft⟩⟩ := h.cycle hq
  · exact ⟨[], c, ⟨cs, rfl⟩, hq, nofun, fun cs hcs hne => absurd (prefix_nil.mp hcs) hne,
      hreason.imp_right Eq.symm, p', run_cons hcycle [], hrun⟩
  · have hpos' : 0 < p'.syncLeft.toNat := hpos
    match cs with
    | [] =>
      rw [length_nil] at hlen
      omega
    | c' :: cs =>
      rw [length_cons] at hlen
      obtain ⟨hcommand, hrest⟩ := forall_mem_cons.mp hquiet
      obtain ⟨pre, last, hpre, hwaits⟩ :=
        Pending.waits cs (pending_of_starting (d := d) hwait hcommand) hpos hrest (by omega)
      exact ⟨c :: pre, last, cons_prefix_cons.mpr ⟨rfl, hpre⟩,
        hleft ▸ hwaits.cons hcycle hwait hready⟩

/-- Once the transport is STARTING, it is RUNNING in the first cycle in which all nodes are ready,
or else in the cycle `q`, counted from the one that began the wait: `q` is the timeout in cycles, at
least one, and no other command comes in between. -/
theorem starts_in_time {cs : List Cycle} (h : Enters d p c q) (hq : 0 < q)
    (hquiet : ∀ c ∈ cs, c.command = .none) (hlen : q.toNat ≤ cs.length + 1) :
    ∃ pre last, pre ++ [last] <+: c :: cs ∧ Waits d p q.toNat pre last :=
  h.pending.waits cs hq hquiet hlen

end

/-- A cycle of `duration` frames at 48 kHz, with one node that is not ready. -/
def lateCycle (duration : UInt64) (command : Command) : Cycle :=
  ⟨⟨0, duration, 48000⟩, command, 0,
    [⟨1, ⟨.finished, 1, 0, 7, 7, false⟩, true, false, 500000000, Nat.one_pos⟩]⟩

theorem starts_in_time_late : ∃ pre last,
    pre ++ [last] <+: lateCycle 12000 .start :: [lateCycle 12000 .none] ∧
      Waits 7 ⟨.stopped, 0, 500000000, 0, 0⟩ 2 pre last :=
  starts_in_time (q := 2) (.inl ⟨rfl, rfl⟩) (by decide) (forall_mem_singleton.mpr rfl)
    (Nat.le_refl _)

/-- With cycles of one second the timeout of half a second is shorter than a cycle: the transport
still waits after the one cycle that it should, and the count is at the end of its range. -/
theorem short_timeout_missed : Enters 7 ⟨.stopped, 0, 500000000, 0, 0⟩ (lateCycle 48000 .start) 0 ∧
      (run 7 ⟨.stopped, 0, 500000000, 0, 0⟩ [lateCycle 48000 .start, lateCycle 48000 .none]).map
        (fun p => (p.state, p.syncLeft)) = some (.starting, 0xfffffffffffffffe) :=
  ⟨.inl ⟨rfl, rfl⟩, by decide⟩

end PipeWireAO.Node.Transport
