import PipeWireAO.Node.Retry.Control

/-!
# The contract of the retry latch

No request is lost: from a request or a rejected `node_ready` to the next admitted cycle the
latch or the dispatch flag is set. No command is sent too early, no two are outstanding, and
a cycle that is admitted while a row is on loan publishes no new row.
-/

namespace PipeWireAO.Node.Retry

open Foundation Completion List

variable {c : Config} {s s' : State} {a : Action} {es tr : List Event} {ts : List Task}

/-! ## Requests and commands -/

theorem Open_append (tr es : List Event) : Open (tr ++ es) = es.foldl openStep (Open tr) :=
  foldl_append

theorem outstanding_append (tr es : List Event) :
    outstanding (tr ++ es) = es.foldl outStep (outstanding tr) :=
  foldl_append

/-- The task belongs to a `node_ready` that has begun. -/
def inReady : Task → Bool
  | .readyComplete _ | .readyRelease _ | .readyRows _ | .admission _ | .start _ _ => true
  | _ => false

/-- The flags account for the open requests and the outstanding commands. -/
structure Ledger (c : Config) (s : State) (tr : List Event) : Prop where
  latch : Open tr = true → s.pending = true ∨ s.dispatched = true
  one : (outstanding tr).length ≤ 1
  none : s.prepared = true → s.dispatched = false → outstanding tr = []
  send : ∀ k, .send k ∈ s.stack → ∀ j ∈ outstanding tr, j = k
  ready : s.stack.any inReady = true → outstanding tr = [] ∧ s.prepared = true
  gone : s.prepared = false → (s.act c.driver).status = .inactive
  running : s.running = true

section Ledger

variable (hl : Ledger c s tr)

include hl

theorem Ledger.quiet (hopen : ∀ w, es.foldl openStep w = w) (hout : ∀ l, es.foldl outStep l = l)
    (hflags : s'.pending = s.pending ∧ s'.dispatched = s.dispatched ∧
      s'.prepared = s.prepared ∧ s'.running = s.running)
    (hgone : s.prepared = false → (s.act c.driver).status = .inactive →
      (s'.act c.driver).status = .inactive) (hsend : ∀ k, .send k ∈ s'.stack → .send k ∈ s.stack)
    (hready : s'.stack.any inReady = true → s.stack.any inReady = true) :
    Ledger c s' (tr ++ es) := by
  obtain ⟨hp, hd, hprep, hrun⟩ := hflags
  have ho : outstanding (tr ++ es) = outstanding tr := by rw [outstanding_append, hout]
  refine ⟨?_, ho ▸ hl.one, ?_, ?_, ?_, ?_, hrun ▸ hl.running⟩
  · rw [Open_append, hopen, hp, hd]
    exact hl.latch
  · rw [ho, hprep, hd]
    exact hl.none
  · rw [ho]
    exact fun k hk => hl.send k (hsend k hk)
  · rw [ho, hprep]
    exact fun h => hl.ready (hready h)
  · rw [hprep]
    exact fun h => hgone h (hl.gone h)

theorem Ledger.goto (hsend : ∀ k, .send k ∈ ts → .send k ∈ s.stack)
    (hready : ts.any inReady = true → s.stack.any inReady = true) :
    Ledger c { s with stack := ts } (tr ++ []) :=
  hl.quiet (fun _ => rfl) (fun _ => rfl) ⟨rfl, rfl, rfl, rfl⟩ (fun _ h => h) hsend hready

variable {t : Task} {rest : List Task} {ans : Answers}

theorem Ledger.pop (hs : s.stack = t :: rest) : Ledger c { s with stack := rest } (tr ++ []) := by
  refine hl.goto (fun k hk => ?_) (fun h => ?_)
  · rw [hs]
    exact mem_cons_of_mem t hk
  · rw [hs, any_cons, h, Bool.or_true]

theorem Ledger.request : Ledger c { s with pending := true } (tr ++ [.request]) := by
  have ho : outstanding (tr ++ [.request]) = outstanding tr := outstanding_append _ _
  exact ⟨fun _ => .inl rfl, ho ▸ hl.one, ho ▸ hl.none, ho ▸ hl.send, ho ▸ hl.ready, hl.gone,
    hl.running⟩

theorem Ledger.called (hprep : ts.any inReady = true → s.prepared = true) :
    Ledger c { s with stack := ts } (tr ++ [.called]) := by
  have ho : outstanding (tr ++ [.called]) = [] := outstanding_append _ _
  refine ⟨?_, by simp [ho], fun _ _ => ho, by simp [ho], fun h => ⟨ho, hprep h⟩, hl.gone,
    hl.running⟩
  rw [Open_append]
  exact hl.latch

theorem Ledger.decided {e : Event} (hs : s.stack = t :: rest)
    (ht : inReady t = true) (he : e = .rejected ∨ e = .admitted) (hact : s'.act = s.act)
    (hprep : s'.prepared = s.prepared) (hrun : s'.running = s.running)
    (hlatch : e = .rejected → s'.pending = true) : Ledger c s' (tr ++ [e]) := by
  obtain ⟨hnil, hp⟩ := hl.ready (by rw [hs, any_cons, ht, Bool.true_or])
  have ho : outstanding (tr ++ [e]) = [] := by
    rw [outstanding_append, hnil]
    rcases he with rfl | rfl <;> rfl
  refine ⟨?_, by simp [ho], fun _ _ => ho, by simp [ho], fun _ => ⟨ho, hprep ▸ hp⟩, ?_,
    hrun ▸ hl.running⟩
  · rw [Open_append]
    rcases he with rfl | rfl
    · exact fun _ => .inl (hlatch rfl)
    · simp [openStep]
  · rw [hprep, hact]
    exact hl.gone

theorem Ledger.sent (hcomplete : cycleComplete c s = true)
    (hd : s.dispatched = false) (e₁ e₂ e₃ e₄ : Bool) : Ledger c { s with
      pending := false, dispatched := true, serial := s.serial + 1, stack := [.send s.serial] } (tr ++ [.sent s.serial e₁ e₂ e₃ e₄]) := by
  -- the driver of a complete cycle is FINISHED, so it is still prepared
  have hp : s.prepared = true := by
    by_contra hne
    have hgone := hl.gone (by simpa using hne)
    rw [cycleComplete_driver hcomplete] at hgone
    cases hgone
  have ho : outstanding (tr ++ [.sent s.serial e₁ e₂ e₃ e₄]) = [s.serial] := by
    rw [outstanding_append, hl.none hp hd]
    rfl
  refine ⟨fun _ => .inr rfl, by simp [ho], (fun _ h => by cases h), ?_, ?_, hl.gone,
    hl.running⟩
  · intro k hk j hj
    simp_all
  · simp [inReady]

theorem Ledger.failed {k : ℕ} (hs : s.stack = [.send k]) :
    Ledger c { s with dispatched := false, pending := true, stack := [] } (tr ++ [.failed k]) := by
  have ho : outstanding (tr ++ [.failed k]) = [] := by
    rw [outstanding_append]
    show (outstanding tr).erase k = []
    have hall := hl.send k (by simp [hs])
    have hone := hl.one
    match hout : outstanding tr with
    | [] => rfl
    | [j] =>
      rw [hout] at hall
      simp [hall j (by simp)]
    | i :: j :: l =>
      rw [hout] at hone
      simp at hone
  refine ⟨fun _ => .inl rfl, by simp [ho], fun _ _ => ho, by simp, by simp, hl.gone,
    hl.running⟩

theorem Ledger.unprepared (hs : s.stack = []) : Ledger c { s with
        act := setStatus s.act c.driver .inactive, prepared := false, inflight := false
        dispatched := false, pending := false } (tr ++ [.unprepared]) := by
  have ho : outstanding (tr ++ [.unprepared]) = outstanding tr := outstanding_append _ _
  refine ⟨?_, ho ▸ hl.one, (fun h => by cases h), ?_, ?_, fun _ => setStatus_self _ _ _,
    hl.running⟩
  · rw [Open_append]
    simp [openStep]
  · simp [hs]
  · simp [hs]

end Ledger

theorem runTask_ledger (hc : Control c s) (hl : Ledger c s tr) (hs : s.stack = t :: rest)
    (h : runTask c ans s rest t = some (s', es)) : Ledger c s' (tr ++ es) := by
  have hshape := hc.shape
  have htop := hc.top t rest hs
  rw [hs] at hshape
  -- the scan or the `node_ready` goes on with its next test
  have next : ∀ {t'}, (inReady t' = true → inReady t = true) → (∀ k, t' ≠ .send k) →
      Ledger c { s with stack := t' :: rest } (tr ++ []) := by
    intro t' hr hsend
    refine hl.goto (fun k hk => ?_) (fun h => ?_)
    · rw [hs]
      rcases mem_cons.mp hk with heq | hk
      · exact absurd heq.symm (hsend k)
      · exact mem_cons_of_mem t hk
    · rw [any_cons, Bool.or_eq_true] at h
      rw [hs, any_cons, Bool.or_eq_true]
      exact h.imp_left hr
  cases t <;> simp only [runTask] at h
  case returns =>
    cases h
    have hpop := hl.pop hs
    simp only [flushInputReturns]
    split_ifs
    · exact hpop
    · exact hpop
    all_goals exact ⟨hpop.latch, hpop.one, hpop.none, hpop.send, hpop.ready, hpop.gone,
      hpop.running⟩
  case retryRelease =>
    split_ifs at h <;> cases h
    · exact hl.pop hs
    · exact next (by simp [inReady]) (by simp)
  case retryLatch | retryComplete =>
    cases h
    split_ifs
    · exact next (by simp [inReady]) (by simp)
    · exact hl.pop hs
  case retryRows =>
    split_ifs at h with hrun <;> cases h
    · simp [hl.running] at hrun
    · exact hl.pop hs
    · exact next (by simp [inReady]) (by simp)
  case retryCas =>
    obtain rfl : rest = [] := hshape
    split_ifs at h <;> cases h
    · exact hl.sent htop.2.2.1 htop.2.1 _ _ _ _
    · exact hl.pop hs
  case send k => cases h
  case ready data =>
    split_ifs at h with hg hflight <;> cases h
    · refine hl.called (fun h => (hl.ready ?_).2)
      rw [hs, any_cons, h, Bool.or_true]
    · exact hl.called (fun _ => by simp_all)
    · exact hl.called (fun _ => by simp_all)
  case readyComplete data =>
    split_ifs at h <;> cases h
    · exact next id (by simp)
    · exact hl.decided hs rfl (.inl rfl) rfl rfl rfl (fun _ => rfl)
  case readyRelease data | readyRows data =>
    split_ifs at h <;> cases h
    · exact hl.decided hs rfl (.inl rfl) rfl rfl rfl (fun _ => rfl)
    · exact next id (by simp)
  case admission data =>
    cases h
    exact hl.decided hs rfl (.inr rfl) rfl rfl rfl (fun he => by cases he)
  case recover => exact absurd hshape (by simp [Shape])
  case start data checked =>
    have hp := (hl.ready (by rw [hs]; rfl)).2
    have hpop := hl.pop hs
    rw [append_nil] at hpop
    -- the accounts do not depend on what the tees give out
    cases data <;> cases h <;>
      exact hpop.quiet (fun _ => rfl) (fun _ => rfl) ⟨rfl, rfl, rfl, rfl⟩
        (fun h => absurd (hp.symm.trans h) (by simp)) (fun _ h => h) id

theorem casNode_ledger (hl : Ledger c s tr) {i : ℕ} {old new : ActivationStatus}
    (hold : old ≠ .inactive) (h : casNode s i old new = some (s', es)) :
    Ledger c s' (tr ++ es) := by
  simp only [casNode] at h
  split_ifs at h with hi
  cases h
  refine hl.quiet (fun _ => rfl) (fun _ => rfl) ⟨rfl, rfl, rfl, rfl⟩ (fun _ hgone => ?_)
    (fun _ hk => hk) id
  have hne : c.driver ≠ i := by
    rintro rfl
    exact hold (hi.symm.trans hgone)
  show (setStatus s.act i new c.driver).status = .inactive
  rw [setStatus_ne s.act new hne, hgone]

theorem step_ledger (hc : Control c s) (hl : Ledger c s tr) (h : step c s a = some (s', es)) :
    Ledger c s' (tr ++ es) := by
  cases a <;> simp only [step] at h
  case request =>
    rw [if_pos hl.running] at h
    cases h
    exact hl.request
  case trigger i => exact casNode_ledger hl (by simp) h
  case wake i | finish i =>
    split_ifs at h
    exact casNode_ledger hl (by simp) h
  case release i | source p io =>
    split_ifs at h
    cases h
    exact hl.quiet (fun _ => rfl) (fun _ => rfl) ⟨rfl, rfl, rfl, rfl⟩ (fun _ h => h)
      (fun _ hk => hk) id
  case consumer p io port =>
    cases h
    exact hl.quiet (fun _ => rfl) (fun _ => rfl) ⟨rfl, rfl, rfl, rfl⟩ (fun _ h => h)
      (fun _ hk => hk) id
  case event =>
    split_ifs at h
    cases h
    exact hl.goto (by simp) (by simp [inReady])
  case ready data =>
    split_ifs at h
    cases h
    refine hl.goto (fun k hk => ?_) (fun hr => ?_)
    · simpa using hk
    · simpa [inReady] using hr
  case process data release =>
    split_ifs at h with hg
    -- a driver that was triggered is not INACTIVE
    have hp : s.prepared = false → False := by
      intro hp
      have := hl.gone hp
      rw [hg.2] at this
      cases this
    cases data <;> cases h <;>
      exact hl.quiet (fun _ => rfl) (fun _ => rfl) ⟨rfl, rfl, rfl, rfl⟩
        (fun h => (hp h).elim) (by simp [runTees]) (by simp [runTees, inReady])
  case unprepare =>
    split_ifs at h with hs
    cases h
    exact hl.unprepared hs
  case answer res =>
    split at h
    · rename_i k rest hs
      have hshape := hc.shape
      rw [hs] at hshape
      obtain rfl : rest = [] := hshape
      split_ifs at h <;> cases h
      · exact hl.failed hs
      · exact hl.pop hs
    · cases h
  case run ans =>
    split at h
    · cases h
    · rename_i t rest hs
      exact runTask_ledger hc hl hs h

/-! ## Commands and rows -/

/-- A command goes out only in a complete cycle, with no release pending, and not while a
row on loan meets a new one. -/
def Event.Safe : Event → Prop
  | .sent _ complete release borrowed source =>
    complete = true ∧ release = false ∧ (borrowed && source) = false
  | .published borrowed ids => borrowed = true → ids = []
  | _ => True

theorem runTees_safe {data : Bool} (h : data = true → s.cycleBorrowed = true → (publish s.outputs).2 = []) :
    ∀ e ∈ (runTees data s).2, e.Safe := by
  intro e he
  cases data with
  | false => cases he
  | true =>
    obtain rfl : e = .published s.cycleBorrowed (publish s.outputs).2 := by
      simpa [runTees] using he
    exact h rfl

theorem runTask_safe (hcalm : calm s (.run ans) = true) (hc : Control c s)
    (hs : s.stack = t :: rest) (h : runTask c ans s rest t = some (s', es)) : ∀ e ∈ es, e.Safe := by
  have htop := hc.top t rest hs
  cases t with
  | returns | retryLatch | retryComplete =>
    cases h
    simp
  | retryRelease | retryRows =>
    simp only [runTask] at h
    split_ifs at h <;> cases h <;> simp
  | retryCas =>
    simp only [runTask] at h
    split_ifs at h <;> cases h
    · intro e he
      obtain rfl := mem_singleton.mp he
      exact ⟨htop.2.2.1, htop.1, htop.2.2.2⟩
    · simp
  | send k => cases h
  | ready | readyComplete | readyRelease | readyRows =>
    simp only [runTask, reject] at h
    split_ifs at h <;> cases h <;> simp [Event.Safe]
  | admission data =>
    cases h
    simp [Event.Safe]
  | recover => exact htop.elim
  | start data checked =>
    simp only [runTask, Option.some.injEq] at h
    obtain rfl : (runTees data { s with
        act := startCycle c.driver s.act c.targets
        inflight := true
        stack := rest }).2 = es := by rw [h]
    refine runTees_safe fun hdata hb => ?_
    simp only [calm, hs, hdata, Bool.not_true, Bool.false_or, Bool.or_eq_true, Bool.not_eq_true',
      decide_eq_true_eq] at hcalm
    rcases hcalm with (hchecked | hfree) | hone
    · exact publish_of_no_row (htop.2 hchecked hb)
    · exact absurd hb (by simp [hfree])
    · exact publish_of_borrowed (htop.1 ▸ hb) hone

theorem step_safe (hcalm : calm s a = true) (hc : Control c s)
    (h : step c s a = some (s', es)) : ∀ e ∈ es, e.Safe := by
  cases a with
  | request =>
    simp only [step] at h
    split_ifs at h <;> cases h <;> simp [Event.Safe]
  | trigger i | wake i | finish i | release i | source p io | event | ready data | unprepare =>
    simp only [step, casNode] at h
    split_ifs at h
    cases h
    simp [Event.Safe]
  | consumer p io port =>
    cases h
    simp
  | process data release =>
    simp only [step] at h
    split_ifs at h with hg
    obtain rfl : (processDriver c data release { s with
        stack := [.returns, .retryRelease] }).2 = es := by rw [Option.some.inj h]
    refine runTees_safe fun hdata hb => ?_
    simp only [calm, hdata, Bool.not_true, Bool.false_or, Bool.or_eq_true, Bool.not_eq_true',
      decide_eq_true_eq] at hcalm
    rcases hcalm with hfree | hone
    · exact absurd hb (by simp [hfree])
    · exact publish_of_borrowed (hc.loan hb (.inr hg.2)) hone
  | answer res =>
    simp only [step] at h
    split at h
    · split_ifs at h <;> cases h <;> simp [Event.Safe]
    · cases h
  | run ans =>
    simp only [step] at h
    split at h
    · cases h
    · rename_i t rest hs
      exact runTask_safe hcalm hc hs h

/-! ## The contract -/

/-- A driver that was just prepared: FINISHED, with no cycle in flight. Requests and loans may be
there already. -/
structure Start (c : Config) (s : State) : Prop where
  stack : s.stack = []
  prepared : s.prepared = true
  running : s.running = true
  inflight : s.inflight = false
  dispatched : s.dispatched = false
  driver : (s.act c.driver).status = .finished
  cycle : s.cycleBorrowed = false

/-- The contract of the latch, of a state and the events up to it. -/
structure Contract (c : Config) (s : State) (tr : List Event) : Prop where
  latched : Open tr = true → s.pending = true ∨ s.dispatched = true
  single : (outstanding tr).length ≤ 1
  /-- A command is sent only in a complete cycle, with no release pending and no row on loan that
meets a new one. -/
  safe : ∀ k complete release borrowed source,
    .sent k complete release borrowed source ∈ tr →
      complete = true ∧ release = false ∧ (borrowed && source) = false
  /-- A cycle admitted while a row is on loan publishes nothing. -/
  rows : ∀ ids, .published true ids ∈ tr → ids = []
  /-- `do_node_unprepare` clears the flags. -/
  cleared : ∀ s' es, (machine c).step s .unprepare = some (s', es) →
    s'.pending = false ∧ s'.dispatched = false ∧ s'.inflight = false

theorem Start.control {s : State} (h : Start c s) : Control c s where
  shape := by rw [h.stack]; trivial
  top := by simp [h.stack]
  first := fun _ _ => h.driver
  loan := fun hb => by simp [h.cycle] at hb

theorem Start.ledger {s : State} (h : Start c s) : Ledger c s [] where
  latch := fun ho => by cases ho
  one := by simp [outstanding]
  none := fun _ _ => rfl
  send := by simp [h.stack]
  ready := by simp [h.stack]
  gone := fun hp => by simp [h.prepared] at hp
  running := h.running

/-- **The retry latch loses no request and admits no unsafe row**, in every run whose steps
are calm. -/
theorem retry_latch {s₀ : State} (h₀ : Start c s₀)
    (hr : ((machine c).restrict calm).Reaches s₀ s tr) : Contract c s tr := by
  obtain ⟨-, hledger, hsafe⟩ := Machine.Reaches.induct
    (I := fun s tr => Control c s ∧ Ledger c s tr ∧ ∀ e ∈ tr, e.Safe)
    ⟨h₀.control, h₀.ledger, by simp⟩ (by
      rintro s s' tr es a ⟨hc, hl, hsafe⟩ hs
      obtain ⟨hcalm, hs⟩ := Machine.restrict_step.mp hs
      exact ⟨step_control hcalm hc hs, step_ledger hc hl hs,
        forall_mem_append.mpr ⟨hsafe, step_safe hcalm hc hs⟩⟩) hr
  refine ⟨hledger.latch, hledger.one, fun k _ _ _ _ he => hsafe _ he,
    fun ids he => hsafe _ he rfl, fun s' es hs => ?_⟩
  simp only [machine, step] at hs
  split_ifs at hs
  cases hs
  exact ⟨rfl, rfl, rfl⟩

/-! ### A driver with one asynchronous follower -/

/-- The driver 0 and the follower 1, which the driver does not wait for. -/
def soloConfig : Config := ⟨0, [⟨0, true⟩, ⟨1, true⟩]⟩

def soloStart : State where
  act i := ⟨.finished, 1, 0, 0, 0, i == 1⟩
  prepared := true
  running := true
  rowReturn := true
  inflight := false
  release := false
  pending := false
  dispatched := false
  outputs := []
  cycleBorrowed := false
  serial := 0
  stack := []

theorem soloStart_start : Start soloConfig soloStart := ⟨rfl, rfl, rfl, rfl, rfl, rfl, rfl⟩

/-- The next access, with nothing to release. -/
def next : Action := .run ⟨0, fun _ => 0, false, false⟩

/-- A request is turned into a command, and the source calls `node_ready` from inside it. -/
theorem retry_latch_nested : ∃ s tr, ((machine soloConfig).restrict calm).Reaches soloStart s tr ∧
    tr = [.request, .sent 0 true false false false, .called, .admitted,
      .published false []] ∧ Contract soloConfig s tr := by
  exact Machine.Reaches.of_run_such
    ([.request, .event] ++ List.replicate 6 next ++ [.ready true] ++ List.replicate 3 next ++
      [.answer 0])
    (by decide +kernel) fun s tr hr h => ⟨h, retry_latch soloStart_start hr⟩

/-- **A command is sent while a release is pending.** The driver has finished, the follower
still runs. A request starts the scan, which reads `reliable_release_pending` as 0; then the
follower leaves a buffer to be released and finishes, and the scan finds the cycle
complete. -/
theorem retry_sent_with_release : ∃ s tr, (machine soloConfig).Reaches soloStart s tr ∧
    Event.sent 0 true true false false ∈ tr ∧ s.release = true := by
  exact Machine.Reaches.of_run_such
    ([.ready true] ++ List.replicate 3 next ++ [.trigger 1, .wake 1, .trigger 0,
      .process false false] ++ List.replicate 3 next ++ [.request, .event, next, next,
      .release 1, .finish 1] ++ List.replicate 4 next)
    (by decide +kernel) fun _ _ _ h => h

end PipeWireAO.Node.Retry
