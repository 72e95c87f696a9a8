import PipeWireAO.Node.Retry.Model

/-!
# What the data loop knows while it decides

A test of `flush_reliable_retry` or `node_ready` is made at one moment and used at a later one. The
facts that last are collected here, one set for each task on top of the stack: nothing on the data
loop runs in between, and the other threads do not undo them, but for a follower that sets
`reliable_release_pending` after `flush_reliable_retry` has read it.
-/

namespace PipeWireAO.Node.Retry

open Foundation Completion List Option

variable {c : Config} {s s' : State} {a : Action} {es tr : List Event}

/-! ## Rows -/

variable {o : Output} {os : List Output} {i : ℕ} {ts rest : List Task} {ans : Answers} {t : Task}

theorem Output.mix_of_borrowed (h : o.borrowed = true) :
    ∃ m, o.mix = some m ∧ mixBorrowed m = true ∧ m.busy = true := by
  cases ho : o.mix with
  | none => simp [Output.borrowed, ho] at h
  | some m =>
    have hb : mixBorrowed m = true := by simpa [Output.borrowed, ho] using h
    exact ⟨m, rfl, hb, (Bool.or_eq_true _ _).mpr (.inr hb)⟩

theorem tee_of_borrowed (h : o.borrowed = true) : o.tee.2 = [] := by
  obtain ⟨m, hm, -, hbusy⟩ := Output.mix_of_borrowed h
  simp only [Output.tee, teeProcessReliable, hm, toList_some, offerRow, hbusy, if_true]
  split <;> rfl

theorem tee_of_no_row (h : (o.io.status == .haveData) = false) : o.tee.2 = [] := by
  have hne : o.io.status ≠ .haveData := by simpa using h
  simp [Output.tee, teeProcessReliable, hne]

theorem tee_borrowed (h : o.borrowed = true) : o.tee.1.borrowed = true := by
  obtain ⟨m, hm, hb, hbusy⟩ := Output.mix_of_borrowed h
  simp only [Output.tee, Output.borrowed, teeProcessReliable, hm, toList_some, offerRow,
    hbusy, if_true]
  split <;> simpa using hb

theorem publish_of_no_row (h : hasSourceRow os = false) : (publish os).2 = [] := by
  rw [publish, flatMap_eq_nil_iff]
  intro o ho
  refine tee_of_no_row ?_
  simpa using (any_eq_false.mp h) o ho

theorem publish_of_borrowed (h : hasBorrowedRow os = true)
    (hone : os.length ≤ 1) : (publish os).2 = [] := by
  rcases os with _ | ⟨o, _ | ⟨o', os⟩⟩
  · cases h
  · have ho : o.borrowed = true := by simpa [hasBorrowedRow] using h
    simp [publish, tee_of_borrowed ho]
  · simp at hone

theorem publish_hasBorrowedRow (h : hasBorrowedRow os = true) :
    hasBorrowedRow (publish os).1 = true := by
  obtain ⟨o, ho, hb⟩ := any_eq_true.mp h
  exact any_eq_true.mpr ⟨o.tee.1, mem_map_of_mem ho, tee_borrowed hb⟩

theorem any_modify {α : Type*} {f : α → Bool} {g : α → α} (hf : ∀ x, f (g x) = f x) (l : List α)
    (p : ℕ) : (l.modify p g).any f = l.any f := by
  induction l generalizing p with
  | nil => simp
  | cons x l ih =>
    cases p with
    | zero => simp [hf]
    | succ p => simp [ih]

theorem hasBorrowedRow_shared (os : List Output) (p : ℕ) (io : IoBuffers)
    (port : Option IoBuffers) :
    hasBorrowedRow (os.modify p fun o => o.shared io port) = hasBorrowedRow os := by
  refine any_modify (fun o => ?_) os p
  cases hm : o.mix with
  | none => simp [Output.borrowed, Output.shared, hm]
  | some m =>
    cases hp : m.peer <;> simp [Output.borrowed, Output.shared, hm, mixBorrowed, hp]

theorem hasSourceRow_shared (os : List Output) (p : ℕ) (io : IoBuffers) (port : Option IoBuffers) :
    hasSourceRow (os.modify p fun o => o.shared io port) = hasSourceRow os := by
  refine any_modify (fun o => ?_) os p
  rfl

/-! ## Completion -/

theorem cycleComplete_iff : cycleComplete c s = true ↔ (s.act c.driver).status = .finished ∧
    ∀ t ∈ c.targets, t.active = true → (s.act t.id).status = .finished :=
  complete_iff

theorem cycleComplete_driver (h : cycleComplete c s = true) : (s.act c.driver).status = .finished :=
  (cycleComplete_iff.mp h).1

theorem setStatus_finished {act : ℕ → Activation} {j : ℕ} {st : ActivationStatus}
    (hi : (act i).status ≠ .finished) (hj : (act j).status = .finished) :
    (setStatus act i st j).status = .finished := by
  have hne : j ≠ i := by
    rintro rfl
    exact hi hj
  rw [setStatus_ne act st hne, hj]

theorem cycleComplete_setStatus (st : ActivationStatus)
    (hi : (s.act i).status ≠ .finished) (h : cycleComplete c s = true) :
    cycleComplete c { s with act := setStatus s.act i st } = true := by
  obtain ⟨hd, ht⟩ := cycleComplete_iff.mp h
  exact cycleComplete_iff.mpr ⟨setStatus_finished hi hd,
    fun t hm ha => setStatus_finished hi (ht t hm ha)⟩

/-! ## The stack -/

/-- What lies below a `node_ready`: nothing, or the command it was called from. -/
def Base : List Task → Prop
  | [] => True
  | .send _ :: rest => rest = []
  | _ => False

/-- The stacks that occur. A scan runs at the bottom; `node_ready` runs there or inside the
command of a scan, and never inside another `node_ready`. -/
def Shape : List Task → Prop
  | [] => True
  | .returns :: .readyComplete _ :: rest => Base rest
  | .returns :: rest => rest = [.retryRelease]
  | .recover :: _ => False
  | .ready _ :: rest | .readyComplete _ :: rest | .readyRelease _ :: rest
  | .readyRows _ :: rest | .admission _ :: rest | .start _ _ :: rest => Base rest
  | _ :: rest => rest = []

/-- What the task on top of the stack can rely on. -/
def TaskOk (c : Config) (s : State) : Task → Prop
  | .retryLatch | .retryComplete => s.release = false ∧ s.dispatched = false
  | .retryRows => s.release = false ∧ s.dispatched = false ∧ cycleComplete c s = true
  | .retryCas => s.release = false ∧ s.dispatched = false ∧ cycleComplete c s = true ∧
      (hasBorrowedRow s.outputs && hasSourceRow s.outputs) = false
  | .readyRelease _ | .readyRows _ => cycleComplete c s = true
  | .admission _ => (s.act c.driver).status = .finished ∧
      (s.inflight = true → hasBorrowedRow s.outputs = true → hasSourceRow s.outputs = false)
  | .start _ checked => s.cycleBorrowed = hasBorrowedRow s.outputs ∧
      (checked = true → s.cycleBorrowed = true → hasSourceRow s.outputs = false)
  | .recover => False
  | .returns | .retryRelease | .send _ | .ready _ | .readyComplete _ => True

/-- The driver has been armed and has not run yet. -/
def Waiting (c : Config) (s : State) : Prop :=
  (s.act c.driver).status = .notTriggered ∨ (s.act c.driver).status = .triggered

/-- The invariant of the data loop. -/
structure Control (c : Config) (s : State) : Prop where
  shape : Shape s.stack
  top : ∀ t rest, s.stack = t :: rest → TaskOk c s t
  first : s.prepared = true → s.inflight = false → (s.act c.driver).status = .finished
  /-- A loan that was there when the cycle was admitted lasts until the driver has run. -/
  loan : s.cycleBorrowed = true → Waiting c s → hasBorrowedRow s.outputs = true

/-- The steps that keep the contract. -/
def calm (s : State) : Action → Bool
  | .release _ =>
    match s.stack with
    | .retryLatch :: _ | .retryComplete :: _ => false
    | _ => true
  | .process data _ => !data || !s.cycleBorrowed || s.outputs.length ≤ 1
  | .run _ =>
    match s.stack with
    | .start data checked :: _ => !data || checked || !s.cycleBorrowed || s.outputs.length ≤ 1
    | _ => true
  | _ => true

/-! ## Steps of the other threads -/

theorem Control.frame (hc : Control c s) (hstack : s'.stack = s.stack)
    (htop : ∀ t, TaskOk c s t → TaskOk c s' t)
    (hfirst : s'.prepared = s.prepared ∧ s'.inflight = s.inflight ∧
      ((s.act c.driver).status = .finished → (s'.act c.driver).status = .finished))
    (hloan : s'.cycleBorrowed = s.cycleBorrowed ∧ (Waiting c s' → Waiting c s) ∧
      hasBorrowedRow s'.outputs = hasBorrowedRow s.outputs) : Control c s' where
  shape := hstack ▸ hc.shape
  top := fun t rest h => htop t (hc.top t rest (hstack ▸ h))
  first := by
    obtain ⟨hp, hi, hd⟩ := hfirst
    rw [hp, hi]
    exact fun h h' => hd (hc.first h h')
  loan := by
    obtain ⟨hb, hw, ho⟩ := hloan
    rw [hb, ho]
    exact fun h h' => hc.loan h (hw h')

theorem Control.request (hc : Control c s) : Control c { s with pending := true } :=
  hc.frame rfl (fun t h => by cases t <;> exact h) ⟨rfl, rfl, id⟩ ⟨rfl, id, rfl⟩

theorem Control.cas (hc : Control c s) {old new : ActivationStatus}
    (hold : old ≠ .finished) (hdriver : i = c.driver → old = .notTriggered)
    (h : casNode s i old new = some (s', es)) : Control c s' := by
  simp only [casNode] at h
  split_ifs at h with hi
  cases h
  have hne : (s.act i).status ≠ .finished := by rw [hi]; exact hold
  refine hc.frame rfl ?_ ⟨rfl, rfl, setStatus_finished hne⟩ ⟨rfl, ?_, rfl⟩
  · intro t ht
    have hcomplete := cycleComplete_setStatus (c := c) new hne
    cases t with
    | retryRows => exact ⟨ht.1, ht.2.1, hcomplete ht.2.2⟩
    | retryCas => exact ⟨ht.1, ht.2.1, hcomplete ht.2.2.1, ht.2.2.2⟩
    | readyRelease | readyRows => exact hcomplete ht
    | admission => exact ⟨setStatus_finished hne ht.1, ht.2⟩
    | _ => exact ht
  · intro hw
    by_cases hid : i = c.driver
    · left
      rw [← hid, hi, hdriver hid]
    · simpa only [Waiting, setStatus_ne s.act new (Ne.symm hid)] using hw

theorem Control.release (hc : Control c s) (hcalm : calm s (.release i) = true)
    (hmem : (⟨i, true⟩ : Target) ∈ c.targets) (hawake : (s.act i).status = .awake) :
    Control c { s with release := true } := by
  -- the cycle cannot be complete
  have hnot : cycleComplete c s = false := by
    rw [Bool.eq_false_iff]
    intro h
    have := (cycleComplete_iff.mp h).2 _ hmem rfl
    rw [hawake] at this
    cases this
  refine ⟨hc.shape, fun t rest hs => ?_, hc.first, hc.loan⟩
  have ht := hc.top t rest hs
  cases t with
  | retryLatch | retryComplete =>
    simp only [calm, show s.stack = _ from hs] at hcalm
    cases hcalm
  | retryRows => exact absurd ht.2.2 (by simp [hnot])
  | retryCas => exact absurd ht.2.2.1 (by simp [hnot])
  | _ => exact ht

theorem Control.consumer (hc : Control c s) (p : ℕ) (io : IoBuffers) (port : Option IoBuffers) :
    Control c { s with outputs := s.outputs.modify p fun o => o.shared io port } := by
  refine hc.frame rfl ?_ ⟨rfl, rfl, id⟩ ⟨rfl, id, hasBorrowedRow_shared _ _ _ _⟩
  intro t ht
  cases t with
  | retryCas | admission | start =>
    simpa only [TaskOk, hasBorrowedRow_shared, hasSourceRow_shared, cycleComplete] using ht
  | _ => exact ht

/-! ## Steps of the data loop -/

theorem sourceRuns_iff : sourceRuns s = true ↔ s.stack = [] ∨ ∃ k rest, s.stack = .send k :: rest := by
  rw [sourceRuns]
  split
  · simp_all
  · rename_i k rest h
    simp [h]
  · rename_i hnil hsend
    simp only [Bool.false_eq_true, false_iff, not_or, not_exists]
    exact ⟨hnil, hsend⟩

theorem Control.base (hc : Control c s) (h : sourceRuns s = true) : Base s.stack := by
  have hshape := hc.shape
  rcases sourceRuns_iff.mp h with hs | ⟨k, rest, hs⟩
  · rw [hs]
    trivial
  · rw [hs] at hshape ⊢
    exact hshape

theorem Control.goto (hc : Control c s) (hshape : Shape ts)
    (htop : ∀ t rest, ts = t :: rest → TaskOk c { s with stack := ts } t) :
    Control c { s with stack := ts } :=
  ⟨hshape, htop, hc.first, hc.loan⟩

theorem Control.push (hc : Control c s) (hshape : Shape (t :: rest)) (ht : TaskOk c s t) :
    Control c { s with stack := t :: rest } := by
  refine hc.goto hshape fun t' rest' heq => ?_
  cases heq
  cases t <;> exact ht

theorem Base.shape (h : Base ts) : Shape ts := by
  rcases ts with _ | ⟨t, ts⟩
  · trivial
  · cases t with
    | send k => exact h
    | _ => exact absurd h (by simp [Base])

theorem Base.ok (h : Base ts) (s : State) (t : Task) (rest : List Task)
    (heq : ts = t :: rest) : TaskOk c s t := by
  subst heq
  cases t with
  | send k => trivial
  | _ => exact absurd h (by simp [Base])

theorem Control.source (hc : Control c s) (h : sourceRuns s = true) (p : ℕ) (io : IoBuffers) :
    Control c { s with outputs := s.outputs.modify p fun o => { o with io := io } } := by
  have hrow : hasBorrowedRow (s.outputs.modify p fun o => { o with io := io }) =
      hasBorrowedRow s.outputs := by
    refine any_modify (fun o => ?_) s.outputs p
    rfl
  refine ⟨hc.shape, (hc.base h).ok _, hc.first, fun hb hw => ?_⟩
  rw [hrow]
  exact hc.loan hb hw

/-- The scan changes rows and `release` only, and only when the cycle is complete. -/
theorem Control.returns (hc : Control c s) (hs : s.stack = .returns :: rest)
    (ans : Answers) : Control c (flushInputReturns c ans { s with stack := rest }) := by
  have hnext : Shape rest ∧ ∀ s' t ts, rest = t :: ts → TaskOk c s' t := by
    have hshape := hc.shape
    rw [hs] at hshape
    rcases rest with _ | ⟨t, ts⟩
    · exact absurd hshape (by simp [Shape])
    · cases t with
      | readyComplete data =>
        refine ⟨hshape, fun s' t ts heq => ?_⟩
        cases heq
        trivial
      | retryRelease =>
        obtain rfl : ts = [] := by simpa [Shape] using hshape
        refine ⟨rfl, fun s' t ts heq => ?_⟩
        cases heq
        trivial
      | _ => simp [Shape] at hshape
  simp only [flushInputReturns]
  split_ifs with hcomplete hfail
  · exact ⟨hnext.1, hnext.2 _, hc.first, hc.loan⟩
  · exact ⟨hnext.1, hnext.2 _, hc.first, hc.loan⟩
  all_goals
    refine ⟨hnext.1, hnext.2 _, hc.first, fun _ hw => ?_⟩
    -- a driver that waits has not finished
    have hd : (s.act c.driver).status = .finished :=
      cycleComplete_driver (s := { s with stack := rest }) (by simpa using hcomplete)
    simp only [Waiting] at hw
    rw [hd] at hw
    simp at hw

theorem runTees_control {data : Bool} (hshape : Shape s.stack)
    (htop : ∀ s' t rest, s.stack = t :: rest → TaskOk c s' t)
    (hfirst : s.prepared = true → s.inflight = false → (s.act c.driver).status = .finished)
    (hloan : s.cycleBorrowed = true → Waiting c s → hasBorrowedRow s.outputs = true) :
    Control c (runTees data s).1 := by
  cases data with
  | false => exact ⟨hshape, htop _, hfirst, hloan⟩
  | true => exact ⟨hshape, htop _, hfirst, fun hb hw => publish_hasBorrowedRow (hloan hb hw)⟩

theorem process_control (s : State) (data release : Bool) :
    Control c (processDriver c data release { s with stack := [.returns, .retryRelease] }).1 := by
  have hd : ((processDriver c data release { s with stack := [.returns, .retryRelease] }).1.act
      c.driver).status = .finished := by
    simp [processDriver]
  have hstack : (processDriver c data release { s with
      stack := [.returns, .retryRelease] }).1.stack = [.returns, .retryRelease] := by
    cases data <;> rfl
  refine ⟨by rw [hstack]; rfl, fun t rest heq => ?_, fun _ _ => hd, fun _ hw => ?_⟩
  · rw [hstack] at heq
    cases heq
    trivial
  · simp only [Waiting] at hw
    rw [hd] at hw
    simp at hw

theorem reject_control (hc : Control c s) (hrest : Base rest) : Control c (reject rest s).1 :=
  ⟨hrest.shape, hrest.ok _, hc.first, hc.loan⟩

theorem retry_control (hc : Control c s) (hs : s.stack = [t])
    (ht : t = .retryRelease ∨ t = .retryLatch ∨ t = .retryComplete ∨ t = .retryRows ∨ t = .retryCas)
    (h : runTask c ans s [] t = some (s', es)) : Control c s' := by
  have htop := hc.top t [] hs
  -- the scan ends
  have stop : Control c { s with stack := [] } := hc.goto trivial (fun _ _ heq => by cases heq)
  rcases ht with rfl | rfl | rfl | rfl | rfl
  · simp only [runTask] at h
    split_ifs at h with hg
    · cases h
      exact stop
    · cases h
      exact hc.push rfl (by simpa [TaskOk] using hg)
  · cases h
    split_ifs
    · exact hc.push rfl htop
    · exact stop
  · cases h
    split_ifs with hcomplete
    · exact hc.push rfl ⟨htop.1, htop.2, hcomplete⟩
    · exact stop
  · simp only [runTask] at h
    split_ifs at h with hrun hrows
    · cases h
      exact ⟨trivial, (fun _ _ heq => by cases heq), hc.first, hc.loan⟩
    · cases h
      exact stop
    · cases h
      exact hc.push rfl ⟨htop.1, htop.2.1, htop.2.2, by simpa using hrows⟩
  · simp only [runTask] at h
    split_ifs at h
    · cases h
      refine ⟨rfl, fun t rest heq => ?_, hc.first, hc.loan⟩
      cases heq
      trivial
    · cases h
      exact stop

theorem ready_control (hc : Control c s) (hs : s.stack = t :: rest) (hrest : Base rest)
    (ht : (∃ d, t = .ready d ∨ t = .readyComplete d ∨ t = .readyRelease d ∨ t = .readyRows d ∨
      t = .admission d) ∨ ∃ d f, t = .start d f)
    (h : runTask c ans s rest t = some (s', es)) : Control c s' := by
  have htop := hc.top t rest hs
  rcases ht with ⟨data, rfl | rfl | rfl | rfl | rfl⟩ | ⟨data, checked, rfl⟩
  · simp only [runTask] at h
    split_ifs at h with hg hflight
    · cases h
      exact hc.goto hrest.shape (hrest.ok _)
    · cases h
      exact hc.push hrest trivial
    · cases h
      -- the first cycle: the driver has been FINISHED since it was prepared
      have hfin := hc.first (by simp_all) (by simpa using hflight)
      exact hc.push hrest ⟨hfin, fun hin => absurd hin hflight⟩
  · simp only [runTask] at h
    split_ifs at h with hcomplete
    · cases h
      exact hc.push hrest hcomplete
    · cases h
      exact reject_control hc hrest
  · simp only [runTask] at h
    split_ifs at h
    · cases h
      exact reject_control hc hrest
    · cases h
      exact hc.push hrest htop
  · simp only [runTask] at h
    split_ifs at h with hrows
    · cases h
      exact reject_control hc hrest
    · cases h
      refine hc.push hrest ⟨cycleComplete_driver htop, fun _ hb => ?_⟩
      rw [hb] at hrows
      simp only [Bool.true_and, Bool.or_eq_true, not_or] at hrows
      simpa using hrows.2
  · simp only [runTask, htop.1, if_true] at h
    cases h
    refine ⟨hrest, fun t rest heq => ?_, hc.first, fun hb _ => hb⟩
    cases heq
    exact ⟨rfl, fun hf hb => htop.2 hf hb⟩
  · simp only [runTask, some.injEq] at h
    obtain rfl : (runTees data { s with
        act := startCycle c.driver s.act c.targets
        inflight := true
        stack := rest }).1 = s' := by rw [h]
    exact runTees_control hrest.shape hrest.ok (fun _ hin => by cases hin)
      (fun hb _ => htop.1 ▸ hb)

theorem runTask_control (hc : Control c s)
    (hs : s.stack = t :: rest) (h : runTask c ans s rest t = some (s', es)) : Control c s' := by
  have hshape := hc.shape
  rw [hs] at hshape
  cases t with
  | returns =>
    cases h
    exact hc.returns hs ans
  | retryRelease | retryLatch | retryComplete | retryRows | retryCas =>
    obtain rfl : rest = [] := hshape
    exact retry_control hc hs (by simp) h
  | send k => cases h
  | recover => exact absurd hshape (by simp [Shape])
  | ready | readyComplete | readyRelease | readyRows | admission | start =>
    exact ready_control hc hs hshape (by simp) h

/-- **A calm step keeps the invariant of the data loop.** -/
theorem step_control (hcalm : calm s a = true) (hc : Control c s)
    (h : step c s a = some (s', es)) : Control c s' := by
  cases a <;> simp only [step] at h
  case request =>
    split_ifs at h <;> cases h
    · exact hc.request
    · exact hc
  case trigger i => exact hc.cas (by simp) (fun _ => rfl) h
  case wake i =>
    split_ifs at h with hi
    exact hc.cas (by simp) (fun heq => absurd heq hi) h
  case release i =>
    split_ifs at h with hi
    cases h
    exact hc.release hcalm hi.2.1 hi.2.2
  case finish i =>
    split_ifs at h with hi
    exact hc.cas (by simp) (fun heq => absurd heq hi) h
  case source p io =>
    split_ifs at h with hg
    cases h
    exact hc.source hg p io
  case consumer p io port =>
    cases h
    exact hc.consumer p io port
  case event =>
    split_ifs at h
    cases h
    exact hc.push rfl trivial
  case ready data =>
    split_ifs at h with hg
    cases h
    exact hc.push (hc.base hg) trivial
  case process data release =>
    split_ifs at h
    obtain rfl : (processDriver c data release { s with
        stack := [.returns, .retryRelease] }).1 = s' := by rw [some.inj h]
    exact process_control s data release
  case unprepare =>
    split_ifs at h with hs
    cases h
    refine ⟨hc.shape, fun t rest heq => ?_, (fun hp => by cases hp), fun _ hw => ?_⟩
    · rw [show s.stack = t :: rest from heq] at hs
      cases hs
    · simp [Waiting] at hw
  case answer res =>
    split at h
    · rename_i k rest hs
      have hshape := hc.shape
      rw [hs] at hshape
      obtain rfl : rest = [] := hshape
      split_ifs at h <;> cases h
      · exact ⟨trivial, (fun _ _ heq => by cases heq), hc.first, hc.loan⟩
      · exact hc.goto trivial (fun _ _ heq => by cases heq)
    · cases h
  case run ans =>
    split at h
    · cases h
    · rename_i t rest hs
      exact runTask_control hc hs h

end PipeWireAO.Node.Retry
