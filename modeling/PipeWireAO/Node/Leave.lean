import Mathlib.Data.List.Perm.Subperm
import PipeWireAO.Foundation.Machine
import PipeWireAO.Node.Activation

/-!
# A node leaves the graph while its driver starts a cycle

`do_node_unprepare` runs on the data loop of the node, `node_ready` on that of the driver. The node
makes itself INACTIVE, triggers its targets if it still had to, and takes itself out of their
`required` counts; the driver copies `required` to `pending` and arms the targets it visits. Nothing
but the atomic words keeps the two apart.
-/

namespace PipeWireAO.Node.Leave

open Foundation List

/-! ## The two threads -/

/-- The nodes and edges that take part. `order` is the target list of the driver, `targets`
the active targets of the leaving node, `sources t` are the other active sources of `t`. -/
structure Graph where
  (driver node : ℕ)
  (order targets : List ℕ)
  sources : ℕ → List ℕ
  order_nodup : order.Nodup
  targets_nodup : targets.Nodup
  sources_nodup : ∀ t, (sources t).Nodup
  node_not_source : ∀ t, node ∉ sources t
  driver_target : driver ∈ targets

/-- Where `node_ready` is in its loop over the targets. `armed` are those armed and counted so far. -/
inductive Scan
  | out
  | visit (armed ts : List ℕ)
  /-- `required` of the target is loaded, but not yet stored in `pending`. -/
  | store (armed : List ℕ) (t : ℕ) (ts : List ℕ) (v : Int)
  | check (armed : List ℕ) (t : ℕ) (ts : List ℕ)
  /-- The status is read, the compare-and-swap to NOT_TRIGGERED is next. -/
  | arm (armed : List ℕ) (t : ℕ) (ts : List ℕ) (old : ActivationStatus)
deriving DecidableEq

/-- Where the data loop of the leaving node is: `finish` is the end of `process_node`,
which triggers the targets; `leaving` and `decrement` are the two halves of
`deactivate_target` in the loop of `do_node_unprepare`. -/
inductive Thread
  | idle
  | finish (ts : List ℕ)
  | leaving (trigger : Bool) (ts : List ℕ)
  | decrement (trigger : Bool) (t : ℕ) (ts : List ℕ)
  | left
deriving DecidableEq

/-- The state. `owes t` records that the last copy of the count of `t` includes the leaving
node and that the node has not triggered `t` since; no step reads it. -/
structure State where
  act : ℕ → Activation
  scan : Scan
  thread : Thread
  owes : ℕ → Bool

/-- `reset t v`: the driver stored `v` in the `pending` word of `t`. `fired m t k`: the
source `m` triggered `t` and left the count at `k`. -/
inductive Event
  | reset (t : ℕ) (v : Int)
  | fired (m t : ℕ) (k : Int)
deriving DecidableEq

/-- The steps. `ready` enters the loop of `node_ready`, `again` repeats it for a
reposition, `scan` is its next access. `fire` is a trigger by another source, `status` what
the other nodes do to their own status. `wake` and `finish` are `process_node` of the node,
`leave` the exchange of its status, `node` the next access of its data loop. -/
inductive Action
  | ready
  | again
  | scan
  | fire (m t : ℕ)
  | status (i : ℕ) (st : ActivationStatus)
  | wake
  | finish
  | leave
  | node
deriving DecidableEq

/-- `PW_NODE_ACTIVATION_PENDING_TRIGGER`: the status is at most AWAKE. -/
def pendingTrigger : ActivationStatus → Bool
  | .notTriggered | .triggered | .awake => true
  | .finished | .inactive => false

/-- The trigger of a target: `pending` is decremented; at 0, NOT_TRIGGERED becomes TRIGGERED. -/
def triggerTarget (a : Activation) : Activation :=
  { a with
    pending := a.pending - 1
    status := if a.pending - 1 = 0 ∧ a.status = .notTriggered then .triggered else a.status }

variable (g : Graph)

/-- The source `m` triggers `t`. -/
def fireAt (m t : ℕ) (s : State) : State × List Event :=
  ({ s with
      act := setActivation s.act t (triggerTarget (s.act t))
      owes := fun i => if i = t ∧ m = g.node then false else s.owes i },
    [.fired m t ((s.act t).pending - 1)])

/-- The driver stores `v` in the `pending` word of `t`; `c` says whether `v` includes the
leaving node. -/
def resetTo (t : ℕ) (v : Int) (c : Bool) (s : State) : State × List Event :=
  ({ s with
      act := setActivation s.act t { s.act t with pending := v }
      owes := fun i => if i = t then c else s.owes i },
    [.reset t v])

/-- A count of `t` that includes the leaving node. -/
def counts (t : ℕ) (v : Int) : Bool := decide (v ≠ (g.sources t).length)

/-- The next access of `node_ready`. -/
def scanStep (s : State) : Option (State × List Event) :=
  match s.scan with
  | .out => none
  -- after the loop: `state->pending = pending` of the driver itself
  | .visit armed [] =>
    some ((resetTo g.driver armed.length (armed.contains g.node) { s with scan := .out }))
  -- `pw_node_activation_state_reset` is a load followed by a store
  | .visit armed (t :: ts) =>
    some ({ s with
      act := setActivation s.act t { s.act t with driverId := g.driver }
      scan := .store armed t ts (s.act t).required }, [])
  | .store armed t ts v =>
    some (resetTo t v (counts g t v) { s with scan := .check armed t ts })
  | .check armed t ts =>
    if (s.act t).activeDriverId ≠ g.driver ∨ (s.act t).status = .inactive then
      some ({ s with scan := .visit armed ts }, [])
    else some ({ s with scan := .arm armed t ts (s.act t).status }, [])
  | .arm armed t ts old =>
    if (s.act t).status = old then
      some ({ s with
        act := setActivation s.act t { s.act t with status := .notTriggered }
        scan := .visit (if (s.act t).async then armed else t :: armed) ts }, [])
    -- the node might just have stopped: `goto retry_status`
    else some ({ s with scan := .visit armed (t :: ts) }, [])

/-- The next access of the data loop of the node. -/
def nodeStep (s : State) : Option (State × List Event) :=
  match s.thread with
  | .idle | .left => none
  | .finish [] => some ({ s with thread := .idle }, [])
  | .finish (t :: ts) => some (fireAt g g.node t { s with thread := .finish ts })
  | .leaving _ [] => some ({ s with thread := .left }, [])
  | .leaving true (t :: ts) =>
    some (fireAt g g.node t { s with thread := .decrement true t ts })
  | .leaving false (t :: ts) => some ({ s with thread := .decrement false t ts }, [])
  | .decrement b t ts =>
    some ({ s with
      act := setActivation s.act t { s.act t with required := (s.act t).required - 1 }
      thread := .leaving b ts }, [])

/-- The status of node `i` becomes `st`. -/
def withStatus (i : ℕ) (st : ActivationStatus) (s : State) : State :=
  { s with act := setActivation s.act i { s.act i with status := st } }

/-- The steps of the two threads and of the other nodes. -/
def step (s : State) : Action → Option (State × List Event)
  | .ready => if s.scan = .out then some ({ s with scan := .visit [] g.order }, []) else none
  | .again =>
    match s.scan with
    | .visit _ [] => some ({ s with scan := .visit [] g.order }, [])
    | _ => none
  | .scan => scanStep g s
  | .fire m t => if m ∈ g.sources t then some (fireAt g m t s) else none
  | .status i st => if i ≠ g.node then some (withStatus i st s, []) else none
  | .wake =>
    if s.thread = .idle ∧ (s.act g.node).status = .triggered then
      some (withStatus g.node .awake s, []) else none
  | .finish =>
    if s.thread = .idle ∧ (s.act g.node).status = .awake then
      some (withStatus g.node .finished { s with thread := .finish g.targets }, []) else none
  | .leave =>
    if s.thread = .idle then
      some (withStatus g.node .inactive
        { s with thread := .leaving (pendingTrigger (s.act g.node).status) g.targets }, [])
    else none
  | .node => nodeStep g s

/-- The graph while the node leaves it. -/
def leaving : Machine State Action Event where
  step := step g

/-! ## What a target waits for -/

/-- The targets the node is still counted in. -/
def undone : Thread → List ℕ
  | .idle | .finish _ => g.targets
  | .leaving _ ts => ts
  | .decrement _ t ts => t :: ts
  | .left => []

/-- The node can still trigger `t`. -/
def toCome (th : Thread) (t : ℕ) : Bool :=
  match th with
  | .idle | .finish _ => g.targets.contains t
  | .leaving b ts | .decrement b _ ts => b && ts.contains t
  | .left => false

/-- What `window` does with one event. -/
def note (t : ℕ) (w : Option (Int × List (ℕ × Int))) : Event → Option (Int × List (ℕ × Int))
  | .reset i v => if i = t then some (v, []) else w
  | .fired m i k => if i = t then w.map fun p => (p.1, p.2 ++ [(m, k)]) else w

/-- The count copied for `t` in the last reset, and the triggers of `t` since then with what they
left. -/
def window (t : ℕ) (tr : List Event) : Option (Int × List (ℕ × Int)) := tr.foldl (note t) none

/-- The steps that do not lose the trigger of the node: it leaves with a status that makes it
trigger its targets, or when no target waits for it; and a count that includes it is stored only
while its trigger of that target is to come. -/
def calm (s : State) : Action → Bool
  | .leave => pendingTrigger (s.act g.node).status || g.targets.all fun t => !s.owes t
  | .scan =>
    match s.scan with
    | .store _ t _ v => !counts g t v || toCome g s.thread t
    | .visit armed [] => !armed.contains g.node || toCome g s.thread g.driver
    | _ => true
  | _ => true

variable {g} {s s' : State} {a : Action} {es tr : List Event} {t m : ℕ}

theorem step_effect (h : step g s a = some (s', es)) :
    (∃ m t, s'.act = (fireAt g m t s).1.act ∧ s'.owes = (fireAt g m t s).1.owes ∧
        es = (fireAt g m t s).2) ∨
      (∃ t v c, ((∃ l ts, s.scan = .store l t ts v ∧ c = counts g t v) ∨
          ∃ l, s.scan = .visit l [] ∧ t = g.driver ∧ v = (l.length : Int) ∧ c = l.contains g.node) ∧
        a = .scan ∧ s'.act = (resetTo t v c s).1.act ∧ s'.owes = (resetTo t v c s).1.owes ∧
        es = (resetTo t v c s).2) ∨
      es = [] ∧ s'.owes = s.owes ∧ ∀ i, (s'.act i).pending = (s.act i).pending := by
  cases a with
  | ready =>
    simp only [step] at h
    split_ifs at h
    cases h
    exact .inr (.inr ⟨rfl, rfl, fun _ => rfl⟩)
  | again =>
    simp only [step] at h
    split at h <;> cases h
    exact .inr (.inr ⟨rfl, rfl, fun _ => rfl⟩)
  | scan =>
    simp only [step, scanStep] at h
    split at h
    · cases h
    · rename_i l hs
      cases h
      exact .inr (.inl ⟨_, _, _, .inr ⟨l, hs, rfl, rfl, rfl⟩, rfl, rfl, rfl, rfl⟩)
    · cases h
      exact .inr (.inr ⟨rfl, rfl, setActivation_frame Activation.pending rfl⟩)
    · rename_i l t ts v hs
      cases h
      exact .inr (.inl ⟨t, v, _, .inl ⟨l, ts, hs, rfl⟩, rfl, rfl, rfl, rfl⟩)
    · split_ifs at h <;> cases h <;> exact .inr (.inr ⟨rfl, rfl, fun _ => rfl⟩)
    · split at h <;> cases h
      · exact .inr (.inr ⟨rfl, rfl, setActivation_frame Activation.pending rfl⟩)
      · exact .inr (.inr ⟨rfl, rfl, fun _ => rfl⟩)
  | fire m t =>
    simp only [step] at h
    split_ifs at h
    cases h
    exact .inl ⟨m, t, rfl, rfl, rfl⟩
  | node =>
    simp only [step, nodeStep] at h
    split at h <;> cases h
    · exact .inr (.inr ⟨rfl, rfl, fun _ => rfl⟩)
    · exact .inl ⟨_, _, rfl, rfl, rfl⟩
    · exact .inr (.inr ⟨rfl, rfl, fun _ => rfl⟩)
    · exact .inl ⟨_, _, rfl, rfl, rfl⟩
    · exact .inr (.inr ⟨rfl, rfl, fun _ => rfl⟩)
    · exact .inr (.inr ⟨rfl, rfl, setActivation_frame Activation.pending rfl⟩)
  | status | wake | finish | leave =>
    simp only [step, withStatus] at h
    split_ifs at h
    cases h
    exact .inr (.inr ⟨rfl, rfl, setActivation_frame Activation.pending rfl⟩)

/-! ## The counts of the graph -/

/-- The targets armed so far are not among those to visit, and all but the leaving node are sources
of the driver. -/
structure Armed (g : Graph) (armed ts : List ℕ) : Prop where
  nodup : (armed ++ ts).Nodup
  mem : ∀ m ∈ ts, m ∈ g.order
  sources : ∀ m ∈ armed, m ≠ g.node → m ∈ g.sources g.driver

/-- What the driver's place in the loop says. -/
def ScanOk (g : Graph) : Scan → Prop
  | .out => True
  | .visit armed ts => Armed g armed ts
  | .store armed t ts v =>
    Armed g armed (t :: ts) ∧ (v = (g.sources t).length ∨ v = (g.sources t).length + 1)
  | .check armed t ts | .arm armed t ts _ => Armed g armed (t :: ts)

/-- The `required` counts are the numbers of sources, with the leaving node until it takes itself
out. -/
structure Books (g : Graph) (s : State) : Prop where
  rest : (undone g s.thread).Nodup
  required : ∀ t, (s.act t).required =
    (g.sources t).length + if t ∈ undone g s.thread then 1 else 0
  sync : ∀ m ∈ g.order, m ≠ g.node → (s.act m).async = false → m ∈ g.sources g.driver
  scan : ScanOk g s.scan

theorem Armed.start (g : Graph) : Armed g [] g.order where
  nodup := g.order_nodup
  mem := fun _ h => h
  sources := by simp

variable {l ts : List ℕ} {v : Int} {fs : List (ℕ × Int)}

theorem Armed.skip (h : Armed g l (t :: ts)) : Armed g l ts where
  nodup := h.nodup.sublist ((sublist_cons_self t ts).append_left l)
  mem := fun m hm => h.mem m (mem_cons_of_mem t hm)
  sources := h.sources

theorem Armed.arm (h : Armed g l (t :: ts))
    (ht : t ≠ g.node → t ∈ g.sources g.driver) : Armed g (t :: l) ts where
  nodup := perm_middle.nodup_iff.mp h.nodup
  mem := h.skip.mem
  sources := by
    intro m hm
    rcases mem_cons.mp hm with rfl | hm
    · exact ht
    · exact h.sources m hm

theorem Armed.length_le (h : Armed g l []) :
    l.length ≤ (g.sources g.driver).length + if g.node ∈ l then 1 else 0 := by
  have hn : l.Nodup := by simpa using h.nodup
  have hsub : l.erase g.node ⊆ g.sources g.driver := by
    intro m hm
    obtain ⟨hne, hm⟩ := hn.mem_erase_iff.mp hm
    exact h.sources m hm hne
  have hle := ((hn.erase g.node).subperm hsub).length_le
  rw [length_erase] at hle
  split_ifs at hle ⊢ <;> omega

section Books

variable (hb : Books g s)

include hb

theorem Books.frame (hr : ∀ i, (s'.act i).required = (s.act i).required)
    (ha : ∀ i, (s'.act i).async = (s.act i).async)
    (hu : undone g s'.thread = undone g s.thread) (hs : ScanOk g s'.scan) : Books g s' where
  rest := hu ▸ hb.rest
  required := fun t => by rw [hr, hu]; exact hb.required t
  sync := fun m hm hne hasync => hb.sync m hm hne (by rw [← ha]; exact hasync)
  scan := hs

theorem Books.move {th : Thread} (hu : undone g th = undone g s.thread) :
    Books g { s with thread := th } :=
  hb.frame (fun _ => rfl) (fun _ => rfl) hu hb.scan

theorem Books.fireAt (m t : ℕ) : Books g (fireAt g m t s).1 :=
  hb.frame (setActivation_frame Activation.required (a := triggerTarget (s.act t)) rfl)
    (setActivation_frame Activation.async (a := triggerTarget (s.act t)) rfl) rfl hb.scan

theorem Books.withStatus (i : ℕ) (st : ActivationStatus) : Books g (withStatus i st s) :=
  hb.frame (setActivation_frame Activation.required rfl)
    (setActivation_frame Activation.async rfl) rfl hb.scan

theorem scanStep_books (h : scanStep g s = some (s', es)) : Books g s' := by
  have hscan := hb.scan
  rw [scanStep] at h
  split at h
  · cases h
  · cases h
    exact hb.frame (setActivation_frame Activation.required rfl)
      (setActivation_frame Activation.async rfl) rfl trivial
  · rename_i l t ts hs
    cases h
    rw [hs] at hscan
    refine hb.frame (setActivation_frame Activation.required rfl)
      (setActivation_frame Activation.async rfl) rfl ⟨hscan, ?_⟩
    have hreq := hb.required t
    split at hreq
    · exact .inr hreq
    · exact .inl (by simpa using hreq)
  · rename_i l t ts v hs
    cases h
    rw [hs] at hscan
    exact hb.frame (setActivation_frame Activation.required rfl)
      (setActivation_frame Activation.async rfl) rfl hscan.1
  · rename_i l t ts hs
    rw [hs] at hscan
    split at h <;> cases h
    · exact hb.frame (fun _ => rfl) (fun _ => rfl) rfl (Armed.skip hscan)
    · exact hb.frame (fun _ => rfl) (fun _ => rfl) rfl hscan
  · rename_i l t ts old hs
    rw [hs] at hscan
    split at h <;> cases h
    · refine hb.frame (setActivation_frame Activation.required rfl)
        (setActivation_frame Activation.async rfl) rfl ?_
      show Armed g _ ts
      split
      · exact Armed.skip hscan
      · rename_i hasync
        refine Armed.arm hscan fun hne => hb.sync t (hscan.mem t (by simp)) hne ?_
        simpa using hasync
    · exact hb.frame (fun _ => rfl) (fun _ => rfl) rfl hscan

theorem Books.decrement {b : Bool} (hth : s.thread = .decrement b t ts) : Books g { s with
      act := setActivation s.act t { s.act t with required := (s.act t).required - 1 }
      thread := .leaving b ts } := by
  have hu : undone g s.thread = t :: ts := by rw [hth]; rfl
  have hnd : (t :: ts).Nodup := hu ▸ hb.rest
  refine ⟨hnd.of_cons, fun i => ?_, fun m hm hne ha => ?_, hb.scan⟩
  · have hreq := hb.required i
    rw [hu] at hreq
    show (setActivation s.act t _ i).required = _ + if i ∈ ts then 1 else 0
    by_cases hi : i = t
    · subst hi
      rw [if_pos mem_cons_self] at hreq
      rw [setActivation_self, if_neg (nodup_cons.mp hnd).1]
      show (s.act i).required - 1 = _
      omega
    · rw [setActivation_ne _ _ hi, hreq]
      simp [hi]
  · refine hb.sync m hm hne ?_
    rw [← ha]
    exact (setActivation_frame Activation.async
      (a := { s.act t with required := (s.act t).required - 1 }) rfl m).symm

theorem nodeStep_books (h : nodeStep g s = some (s', es)) : Books g s' := by
  have move : ∀ (th' : Thread) {th}, s.thread = th → undone g th' = undone g th →
      Books g { s with thread := th' } := by
    rintro th' th rfl hu
    exact hb.move hu
  rw [nodeStep] at h
  split at h
  · cases h
  · cases h
  all_goals
    rename_i hth
    cases h
  · exact move _ hth rfl
  · rename_i t ts
    exact (move (.finish ts) hth rfl).fireAt _ t
  · exact move _ hth rfl
  · exact (move (.decrement true _ _) hth rfl).fireAt _ _
  · exact move _ hth rfl
  · exact hb.decrement hth

theorem step_books (h : step g s a = some (s', es)) : Books g s' := by
  cases a with
  | scan => exact scanStep_books hb h
  | node => exact nodeStep_books hb h
  | ready =>
    simp only [step] at h
    split_ifs at h
    cases h
    exact hb.frame (fun _ => rfl) (fun _ => rfl) rfl (Armed.start g)
  | again =>
    simp only [step] at h
    split at h <;> cases h
    exact hb.frame (fun _ => rfl) (fun _ => rfl) rfl (Armed.start g)
  | fire m t =>
    simp only [step] at h
    split_ifs at h
    cases h
    exact hb.fireAt m t
  | status | wake =>
    simp only [step] at h
    split_ifs at h
    cases h
    exact hb.withStatus _ _
  | finish | leave =>
    simp only [step] at h
    split_ifs at h with hg
    cases h
    refine Books.withStatus (hb.move ?_) _ _
    simp only [hg, undone]

end Books

/-! ## The trigger of the leaving node -/

/-- The node can still trigger every target that waits for it. -/
def Owing (g : Graph) (s : State) : Prop := ∀ t, s.owes t = true → toCome g s.thread t = true

theorem nodeStep_owing (hi : Owing g s) (h : nodeStep g s = some (s', es)) : Owing g s' := by
  intro i howes
  have hold := hi i
  rw [nodeStep] at h
  split at h
  · cases h
  · cases h
  all_goals
    rename_i hth
    cases h
    rw [hth] at hold
  · exact hold howes
  · refine hold ?_
    dsimp only at howes
    split at howes
    · cases howes
    · exact howes
  · simp [toCome] at hold
    exact absurd howes (by simp [hold])
  · simp only [and_true] at howes
    split at howes
    · cases howes
    · -- the target that was triggered owes nothing, the others are still in the list
      rename_i hne
      have hmem := hold howes
      simp only [toCome, Bool.true_and, contains_eq_mem, mem_cons, hne,
        false_or] at hmem
      simpa [fireAt, toCome] using hmem
  · simpa [toCome] using hold howes
  · exact hold howes

/-- **A calm step keeps the promise**: what a target still expects of the node is still to
come. -/
theorem step_owing (hc : calm g s a = true) (hi : Owing g s)
    (h : step g s a = some (s', es)) : Owing g s' := by
  -- the steps that leave the thread of the node alone change the debts only by a reset
  have same : s'.thread = s.thread → Owing g s' := by
    intro hth i howes
    rw [hth]
    rcases step_effect h with ⟨m, t, -, hw, -⟩ | ⟨t, v, c, hv, rfl, -, hw, -⟩ | ⟨-, hw, -⟩
    · rw [hw] at howes
      simp only [fireAt] at howes
      split at howes
      · cases howes
      · exact hi i howes
    · rw [hw] at howes
      simp only [resetTo] at howes
      split at howes
      · rename_i hit
        subst hit
        rcases hv with ⟨l, ts, hs, rfl⟩ | ⟨l, hs, rfl, rfl, rfl⟩ <;>
          simpa only [calm, hs, howes, Bool.not_true, Bool.false_or] using hc
      · exact hi i howes
    · rw [hw] at howes
      exact hi i howes
  cases a with
  | node => exact nodeStep_owing hi h
  | finish =>
    simp only [step] at h
    split_ifs at h with hg
    cases h
    intro i howes
    have := hi i howes
    rw [hg.1] at this
    exact this
  | leave =>
    simp only [step] at h
    split_ifs at h with hg
    cases h
    intro i howes
    have hmem := hi i howes
    rw [hg] at hmem
    simp only [calm, Bool.or_eq_true, all_eq_true] at hc
    rcases hc with hp | hnone
    · simpa [withStatus, toCome, hp] using hmem
    · have hfree := hnone i (by simpa [toCome] using hmem)
      rw [show s.owes i = true from howes] at hfree
      cases hfree
  | ready | fire | status | wake =>
    refine same ?_
    simp only [step] at h
    split_ifs at h
    cases h
    rfl
  | again =>
    refine same ?_
    simp only [step] at h
    split at h <;> cases h
    rfl
  | scan =>
    refine same ?_
    simp only [step, scanStep] at h
    split at h <;> (try split at h) <;> cases h <;> rfl

/-! ## The triggers since the last reset -/

/-- The count of `t` when `v` was copied to it last and `fs` are its triggers since then. -/
structure Ledger (g : Graph) (s : State) (t : ℕ) (v : Int) (fs : List (ℕ × Int)) : Prop where
  left : (s.act t).pending = v - fs.length
  nonneg : 0 ≤ v
  /-- The copied count includes the leaving node only if it triggered since or still owes. -/
  bound : v ≤ (g.sources t).length +
    if s.owes t = true ∨ g.node ∈ fs.map Prod.fst then 1 else 0
  zero : (s.act t).pending ≤ 0 → v = 0 ∨ ∃ m, (m, 0) ∈ fs

theorem Ledger.frame (hl : Ledger g s t v fs)
    (hp : (s'.act t).pending = (s.act t).pending) (ho : s'.owes t = s.owes t) :
    Ledger g s' t v fs where
  left := hp ▸ hl.left
  nonneg := hl.nonneg
  bound := ho ▸ hl.bound
  zero := hp ▸ hl.zero

theorem Ledger.fired (hl : Ledger g s t v fs) (hp : (s'.act t).pending = (s.act t).pending - 1)
    (ho : s'.owes t = if m = g.node then false else s.owes t) :
    Ledger g s' t v (fs ++ [(m, (s.act t).pending - 1)]) where
  left := by
    have := hl.left
    rw [hp, length_append, length_singleton]
    omega
  nonneg := hl.nonneg
  bound := by
    refine Int.le_trans hl.bound ?_
    have himp : s.owes t = true ∨ g.node ∈ fs.map Prod.fst → s'.owes t = true ∨
        g.node ∈ (fs ++ [(m, (s.act t).pending - 1)]).map Prod.fst := by
      rintro (howes | hmem)
      · by_cases hm : m = g.node
        · exact .inr (by simp [hm])
        · exact .inl (by rw [ho, if_neg hm, howes])
      · exact .inr (by simp only [map_append, mem_append, hmem, true_or])
    split
    · rename_i h
      simp only [if_pos (himp h), Int.le_refl]
    · split <;> omega
  zero := by
    intro hle
    by_cases h0 : (s.act t).pending - 1 = 0
    · exact .inr ⟨m, by simp [h0]⟩
    · rcases hl.zero (by omega) with hv | ⟨i, hi⟩
      · exact .inl hv
      · exact .inr ⟨i, mem_append_left _ hi⟩

theorem Ledger.reset (hp : (s'.act t).pending = v) (hv : 0 ≤ v)
    (hb : v ≤ (g.sources t).length + if s'.owes t = true then 1 else 0) : Ledger g s' t v [] where
  left := by simp [hp]
  nonneg := hv
  bound := by simpa using hb
  zero := fun h => .inl (by omega)

theorem reset_bound (hb : Books g s) {c : Bool}
    (h : (∃ l ts, s.scan = .store l t ts v ∧ c = counts g t v) ∨
      ∃ l, s.scan = .visit l [] ∧ t = g.driver ∧ v = (l.length : Int) ∧ c = l.contains g.node) :
    0 ≤ v ∧ v ≤ (g.sources t).length + if c = true then 1 else 0 := by
  have hscan := hb.scan
  rcases h with ⟨l, ts, hs, rfl⟩ | ⟨l, hs, rfl, rfl, rfl⟩
  · rw [hs] at hscan
    rcases hscan.2 with hv | hv
    · split <;> omega
    · have hcount : counts g t v = true := decide_eq_true (by omega)
      rw [if_pos hcount]
      omega
  · rw [hs] at hscan
    have hle := Armed.length_le hscan
    simp only [contains_eq_mem, decide_eq_true_eq]
    split_ifs at hle ⊢ <;> omega

/-- Every count is explained by the last copy and the triggers since. -/
def Explained (g : Graph) (s : State) (tr : List Event) : Prop :=
  ∀ t v fs, window t tr = some (v, fs) → Ledger g s t v fs

theorem step_explained (hb : Books g s) (hl : Explained g s tr)
    (h : step g s a = some (s', es)) : Explained g s' (tr ++ es) := by
  intro t v fs hw
  rw [window, foldl_append, ← window] at hw
  rcases step_effect h with ⟨m, i, hact, howes, rfl⟩ | ⟨i, w, c, hv, -, hact, howes, rfl⟩ |
    ⟨rfl, howes, hp⟩
  · have hpi : ∀ j, (s'.act j).pending =
        if j = i then (s.act j).pending - 1 else (s.act j).pending := by
      intro j
      rw [hact]
      by_cases hj : j = i
      · simp [fireAt, triggerTarget, hj]
      · simp [fireAt, hj]
    simp only [fireAt, foldl_cons, foldl_nil, note] at hw
    split at hw
    · rename_i hit
      subst hit
      obtain ⟨⟨v', fs'⟩, hw', heq⟩ := Option.map_eq_some_iff.mp hw
      cases heq
      refine (hl i v' fs' hw').fired ?_ ?_
      · rw [hpi, if_pos rfl]
      · rw [howes]
        simp [fireAt]
    · rename_i hne
      refine (hl t v fs hw).frame ?_ ?_
      · rw [hpi, if_neg (Ne.symm hne)]
      · rw [howes]
        simp [fireAt, Ne.symm hne]
  · simp only [resetTo, foldl_cons, foldl_nil, note] at hw
    split at hw
    · rename_i hit
      subst hit
      cases hw
      obtain ⟨hnonneg, hbound⟩ := reset_bound hb hv
      refine Ledger.reset ?_ hnonneg ?_
      · rw [hact]
        simp [resetTo]
      · rw [howes]
        simpa [resetTo] using hbound
    · rename_i hne
      refine (hl t v fs hw).frame ?_ ?_
      · rw [hact]
        simp [resetTo, Ne.symm hne]
      · rw [howes]
        simp [resetTo, Ne.symm hne]
  · exact (hl t v fs hw).frame (hp t) (congrFun howes t)

/-! ## Leaving does not stall the cycle -/

/-- A start: neither thread is under way, and the `required` counts are right. -/
structure Start (g : Graph) (s : State) : Prop where
  scan : s.scan = .out
  thread : s.thread = .idle
  owes : ∀ t, s.owes t = false
  required : ∀ t, (s.act t).required = (g.sources t).length + if t ∈ g.targets then 1 else 0
  sync : ∀ m ∈ g.order, m ≠ g.node → (s.act m).async = false → m ∈ g.sources g.driver

theorem Start.books (h : Start g s) : Books g s where
  rest := by rw [h.thread]; exact g.targets_nodup
  required := by rw [h.thread]; exact h.required
  sync := h.sync
  scan := by rw [h.scan]; trivial

theorem reaches_inv {s₀ : State} (h₀ : Start g s₀)
    (hr : ((leaving g).restrict (calm g)).Reaches s₀ s tr) :
    Books g s ∧ Owing g s ∧ Explained g s tr := by
  refine Machine.Reaches.induct (I := fun s tr => Books g s ∧ Owing g s ∧ Explained g s tr)
    ⟨h₀.books, ?_, ?_⟩ ?_ hr
  · intro t ht
    rw [h₀.owes] at ht
    cases ht
  · intro t v fs hw
    cases hw
  · rintro s s' tr es a ⟨hb, ho, hl⟩ hs
    obtain ⟨hc, hs⟩ := Machine.restrict_step.mp hs
    exact ⟨step_books hb hs, step_owing hc ho hs, step_explained hb hl hs⟩

theorem triggers_le (g : Graph) (hall : ∀ m ∈ g.sources t, ∃ k, (m, k) ∈ fs) :
    (g.sources t).length + (if g.node ∈ fs.map Prod.fst then 1 else 0) ≤ fs.length := by
  have hmem : ∀ m ∈ g.sources t, m ∈ fs.map Prod.fst := by
    intro m hm
    obtain ⟨k, hk⟩ := hall m hm
    exact mem_map.mpr ⟨(m, k), hk, rfl⟩
  split
  · rename_i hn
    have hnd : (g.node :: g.sources t).Nodup :=
      nodup_cons.mpr ⟨g.node_not_source t, g.sources_nodup t⟩
    have hsub : g.node :: g.sources t ⊆ fs.map Prod.fst := cons_subset.mpr ⟨hn, hmem⟩
    simpa using (hnd.subperm hsub).length_le
  · simpa using ((g.sources_nodup t).subperm hmem).length_le

/-- **Leaving the graph does not stall a cycle**, in every run whose steps are calm: once the
node has left and every other source of `t` has triggered it since its count was copied, the
count has reached 0. -/
theorem leave_no_stall {s₀ : State} (h₀ : Start g s₀)
    (hr : ((leaving g).restrict (calm g)).Reaches s₀ s tr) (hleft : s.thread = .left)
    {v : Int} {fs : List (ℕ × Int)} (hw : window t tr = some (v, fs))
    (hall : ∀ m ∈ g.sources t, ∃ k, (m, k) ∈ fs) :
    (s.act t).pending ≤ 0 ∧ (v = 0 ∨ ∃ m, (m, 0) ∈ fs) := by
  obtain ⟨-, howing, hexpl⟩ := reaches_inv h₀ hr
  have hledger := hexpl t v fs hw
  have hfree : s.owes t = false := by
    by_contra hne
    have := howing t (by simpa using hne)
    rw [hleft] at this
    cases this
  have hbound := hledger.bound
  simp only [hfree, Bool.false_eq_true, false_or] at hbound
  have hle : (s.act t).pending ≤ 0 := by
    have htrig := triggers_le g hall
    have hleft := hledger.left
    split_ifs at hbound htrig <;> omega
  exact ⟨hle, hledger.zero hle⟩

/-! ### A graph of three nodes -/

/-- The driver 0, the node 1 that leaves, and the node 2 that 0 and 1 trigger. -/
def stallGraph : Graph where
  driver := 0
  node := 1
  order := [0, 2, 1]
  targets := [2, 0]
  sources i := if i = 0 then [0, 2] else [0]
  order_nodup := by decide
  targets_nodup := by decide
  sources_nodup i := by split <;> decide
  node_not_source i := by split <;> decide
  driver_target := by decide

/-- All nodes have finished the last cycle. -/
def stallStart : State where
  act i :=
    { status := .finished
      required := if i = 0 then 3 else if i = 2 then 2 else 1
      pending := 0
      driverId := 0
      activeDriverId := 0
      async := false }
  scan := .out
  thread := .idle
  owes _ := false

theorem stallStart_start : Start stallGraph stallStart where
  scan := rfl
  thread := rfl
  owes _ := rfl
  required t := by
    by_cases h0 : t = 0
    · subst h0
      decide
    · by_cases h2 : t = 2
      · subst h2
        decide
      · simp [stallStart, stallGraph, h0, h2]
  sync := by decide

/-- Node 1 leaves after its driver has armed all nodes, and triggers its targets on the way
out. -/
theorem leave_no_stall_armed : ∃ s tr,
    ((leaving stallGraph).restrict (calm stallGraph)).Reaches stallStart s tr ∧
      s.thread = .left ∧ window 2 tr = some (2, [(1, 1), (0, 0)]) ∧ (s.act 2).pending ≤ 0 := by
  refine Machine.Reaches.of_run_such
    (P := fun s tr => s.thread = .left ∧ window 2 tr = some (2, [(1, 1), (0, 0)]))
    ([.ready] ++ List.replicate 13 .scan ++ [.leave] ++ List.replicate 5 .node ++ [.fire 0 2])
    (by decide +kernel) fun s tr hr h => ⟨h.1, h.2, (leave_no_stall stallStart_start hr h.1 h.2 ?_).1⟩
  intro m hm
  obtain rfl : m = 0 := by simpa [stallGraph] using hm
  exact ⟨0, by simp⟩

/-- **Leaving can stall a cycle.** The driver has copied the count of node 2, which includes node 1,
but not yet visited node 1. Node 1 is FINISHED from the last cycle, so it leaves without a trigger,
and the driver then skips it: node 2 stays NOT_TRIGGERED with a count of 1 after every other source
has triggered it. -/
theorem leave_stalls : ∃ s tr, (leaving stallGraph).Reaches stallStart s tr ∧
    s.thread = .left ∧ stallGraph.sources 2 = [0] ∧ window 2 tr = some (2, [(0, 1)]) ∧
      (s.act 2).pending = 1 ∧ (s.act 2).status = .notTriggered := by
  exact Machine.Reaches.of_run_such
    ([.ready] ++ List.replicate 8 .scan ++ [.leave] ++ List.replicate 5 .node ++
      List.replicate 4 .scan ++ [.fire 0 2])
    (by decide +kernel) fun _ _ _ h => h

end PipeWireAO.Node.Leave
