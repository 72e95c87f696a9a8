import PipeWireAO.RunControl.Request

/-!
# Run control and reset control of the standalone filter

`pw_ndarray_filter` prepares its processing when the filter starts streaming and deactivates it
when the filter pauses. With run control, it does so only as far as a controller asked for it, and
keeps the outcome in `actual_state`. A reset is admitted by looking at `actual_state`, which is
written by run control only.
-/

namespace PipeWireAO.RunControl.Filter

open Foundation

/-- A filter: its requests, the state of the `pw_filter`, and whether processing is prepared. -/
structure State extends Control where
  state : FilterState
  prepared : Bool
deriving DecidableEq

/-- A new filter. -/
def init : State := { Control.init with state := .unconnected, prepared := false }

/-- What the environment answers during one event: whether there is a data loop, the error of
`pw_loop_invoke` if it could not run the function, whether the filter is being destroyed, and the
results of the owner's callbacks, of publishing (`errorPublish` from inside the error handler) and
of `pw_filter_set_active`. A callback that the owner does not have answers zero. -/
structure Answers where
  dataLoop : Bool
  notInvoked : Option Int
  destroying : Bool
  (prepare deactivate reset publish errorPublish setActive : Int)
deriving DecidableEq

def prepareProcessThread (x : Answers) (s : State) : State × Int :=
  if x.destroying then (s, -eCanceled)
  else if s.prepared then (s, 0)
  else if checked x.prepare = 0 then ({ s with prepared := true }, 0)
  else (s, checked x.prepare)

def deactivate (x : Answers) (s : State) : State × Int :=
  if s.prepared then ({ s with prepared := false }, checked x.deactivate) else (s, 0)

/-- `update_processing_state`: the new state, the result and `*actual`. -/
def updateProcessingState (o : Options) (x : Answers) (state : FilterState) (s : State) :
    State × Int × RunState :=
  if state = .streaming ∧ (o.run = false ∨ s.requested = .running ∨ s.actual = .running) then
    let r := if x.dataLoop then
        match x.notInvoked with
        | some err => (s, err)
        | none => prepareProcessThread x s
      else (s, -eIo)
    (r.1, r.2, if 0 ≤ r.2 then .running else s.actual)
  else if state = .paused ∨ state = .unconnected then
    let r := deactivate x s
    (r.1, r.2, if 0 ≤ r.2 then .stopped else s.actual)
  else (s, 0, s.actual)

def publishRunControlStatus (token result : Int) (actual : RunState) (pub : Int) :
    Handler State Event := fun s =>
  if 0 ≤ pub then
    ({ s with actual := actual, completedToken := token, result := result },
      [.status token result actual])
  else ({ s with actual := actual }, [])

def publishRunControlStatusOrFail (fail : Handler State Event) (token result : Int)
    (actual : RunState) (pub : Int) : Handler State Event :=
  .andThen (publishRunControlStatus token result actual pub) (if pub < 0 then fail else .skip)

def publishResetControlStatusOrFail (fail : Handler State Event) (token result pub : Int) :
    Handler State Event :=
  .andThen (fun s =>
      if 0 ≤ pub then
        ({ s with completedReset := token, resetResult := result }, [.resetStatus token result])
      else (s, []))
    (if pub < 0 then fail else .skip)

def completeRunControl (fail : Handler State Event) (result : Int) (actual : RunState)
    (pub : Int) : Handler State Event := fun s =>
  Handler.andThen (publishRunControlStatusOrFail fail s.lastToken result actual pub)
    (.modify fun s => { s with requested := .unknown }) s

/-- `filter_state_changed`, with what happens on a failure. -/
def stateChangedWith (fail : Handler State Event) (o : Options) (x : Answers) (pub : Int)
    (state : FilterState) : Handler State Event := fun s =>
  let r := updateProcessingState o x state { s with state := state }
  let res := r.2.1
  let actual := r.2.2
  let answer : Handler State Event :=
    if o.run = false then .skip
    else if res < 0 ∧ r.1.requested ≠ .unknown then completeRunControl fail res actual pub
    else if 0 ≤ res ∧ actual = r.1.requested then completeRunControl fail 0 actual pub
    else if r.1.requested = .unknown ∧ actual ≠ r.1.actual then
      publishRunControlStatusOrFail fail r.1.completedToken 0 actual pub
    else .skip
  Handler.andThen answer (.andThen (if res < 0 then fail else .skip)
    (if state = .error then .modify (fun s => (deactivate x s).1) else .skip)) r.1

/-- `fail_on_main_loop`: `pw_filter_set_error` puts the filter into the error state, and
`filter_state_changed` runs inside it. -/
def failOnMainLoop (o : Options) (x : Answers) : Handler State Event := fun s =>
  if s.state = .error then (s, []) else stateChangedWith .skip o x x.errorPublish .error s

def filterStateChanged (o : Options) (x : Answers) (state : FilterState) : Handler State Event :=
  stateChangedWith (failOnMainLoop o x) o x x.publish state

/-- The part of `filter_param_changed` for reset control. -/
def resetControl (o : Options) (x : Answers) (reset : Parsed ResetRequest) :
    Handler State Event := fun s =>
  let answer := publishResetControlStatusOrFail (failOnMainLoop o x)
  if o.reset = false then (s, [])
  else
    match reset with
    | .absent => (s, [])
    | .invalid token res => if 0 < token then answer token res x.publish s else (s, [])
    | .request r =>
      if r.token ≤ s.lastReset then answer r.token (staleResult r.token s.lastReset) x.publish s
      else if s.actual ≠ .stopped ∨ s.requested ≠ .unknown then
        answer r.token (-eBusy) x.publish { s with lastReset := r.token }
      else
        Handler.andThen (.emit (.reset s.prepared s.requested))
          (answer r.token (checked x.reset) x.publish) { s with lastReset := r.token }

/-- The part of `filter_param_changed` for a valid request to run or to stop.
`pw_filter_set_active` may change the state of the filter before it returns: `nested` are the
changes, with the answers they get. -/
def runRequest (o : Options) (x : Answers) (nested : List (FilterState × Answers)) (r : RunRequest) :
    Handler State Event := fun s =>
  let fail := failOnMainLoop o x
  if s.requested ≠ .unknown then
    publishRunControlStatusOrFail fail r.token (-eBusy) s.actual x.publish s
  else if r.token ≤ s.lastToken then
    publishRunControlStatusOrFail fail r.token (staleResult r.token s.lastToken) s.actual x.publish s
  else if r.state = s.actual then
    completeRunControl fail 0 s.actual x.publish { s with lastToken := r.token }
  else
    Handler.andThen (.all (fun c => filterStateChanged o c.2 c.1) nested)
      (fun s =>
        if x.setActive < 0 then completeRunControl fail x.setActive s.actual x.publish s
        else if (r.state = .running ∧ s.state = .streaming) ∨
            (r.state = .stopped ∧ s.state = .paused) then
          let u := updateProcessingState o x s.state s
          completeRunControl fail u.2.1 u.2.2 x.publish u.1
        else (s, []))
      { s with lastToken := r.token, requested := r.state }

/-- `filter_param_changed` for a parameter of the node, as the two parsers read it. -/
def filterParamChanged (o : Options) (x : Answers) (nested : List (FilterState × Answers))
    (run : Parsed RunRequest) (reset : Parsed ResetRequest) : Handler State Event := fun s =>
  if o.run = false then resetControl o x reset s
  else
    match run with
    | .absent => resetControl o x reset s
    | .invalid token res =>
      if 0 < token then
        publishRunControlStatusOrFail (failOnMainLoop o x) token res s.actual x.publish s
      else (s, [])
    | .request r => runRequest o x nested r s

/-- What happens to a filter: its state changes, or a parameter of its node is set. -/
inductive Action
  | stateChanged (state : FilterState) (x : Answers)
  | paramChanged (run : Parsed RunRequest) (reset : Parsed ResetRequest) (x : Answers)
      (nested : List (FilterState × Answers))

def handle (o : Options) : Action → Handler State Event
  | .stateChanged state x => filterStateChanged o x state
  | .paramChanged run reset x nested => filterParamChanged o x nested run reset

/-- A filter with the options `o`. -/
def machine (o : Options) : Machine State Action Event := .ofHandlers (handle o)

/-- The part of a configuration that is about the options. -/
structure Config where
  (ownerRunControl ownerResetControl hasReset : Bool)
deriving DecidableEq

/-- The part of `copy_config` that is about the options: reset control needs the callback. -/
def copyConfig (c : Config) : Except Int Options :=
  if c.ownerResetControl ∧ c.hasReset = false then .error (-eInval)
  else .ok ⟨c.ownerRunControl, c.ownerResetControl⟩

theorem copyConfig_surjective (o : Options) : ∃ c, copyConfig c = .ok o :=
  ⟨⟨o.run, o.reset, true⟩, by simp [copyConfig]⟩

/-! ## `actual_state` knows about a prepared processor -/

/-- If resets are possible, the state `actual` says that a prepared processor runs. -/
def Knows (o : Options) (actual : RunState) (s : State) : Prop :=
  o.reset = true → s.prepared = true → actual = .running

/-- **The invariant**: `actual_state` knows about a prepared processor. -/
def Inv (o : Options) (s : State) : Prop := Knows o s.actual s

/-- The handler keeps the invariant, and its events are safe. -/
abbrev Keeps (o : Options) (h : Handler State Event) : Prop := Triple Event.Safe (Inv o) h (Inv o)

section Triples

variable {o : Options} {x : Answers} {fail : Handler State Event} {s : State} {actual : RunState}

theorem prepareProcessThread_eq (x : Answers) (s : State) :
    ∃ p, (prepareProcessThread x s).1 = { s with prepared := p } ∧
      ((prepareProcessThread x s).2 < 0 → p = s.prepared) := by
  unfold prepareProcessThread
  split_ifs
  · exact ⟨s.prepared, rfl, fun _ => rfl⟩
  · exact ⟨s.prepared, rfl, fun _ => rfl⟩
  · exact ⟨true, rfl, fun h => absurd h (by simp)⟩
  · exact ⟨s.prepared, rfl, fun _ => rfl⟩

theorem deactivate_fst (x : Answers) (s : State) :
    (deactivate x s).1 = { s with prepared := false } := by
  unfold deactivate
  split_ifs with h
  · rfl
  · obtain ⟨c, st, p⟩ := s
    simp_all

/-- **What `update_processing_state` does**: it changes nothing but `prepared`, which is false
afterwards, or reported as running, or as it was. With run control, a processor becomes prepared
only if it was to run. -/
theorem update_spec (x : Answers) (state : FilterState) (s : State) :
    ∃ p res actual, updateProcessingState o x state s = ({ s with prepared := p }, res, actual) ∧
      (p = true → (actual = .running ∧ 0 ≤ res ∧
          (o.run = true → s.requested = .running ∨ s.actual = .running)) ∨
        (s.prepared = true ∧ actual = s.actual)) := by
  unfold updateProcessingState
  split_ifs with hs hd hp
  · -- streaming, with a data loop
    cases x.notInvoked with
    | some err =>
      refine ⟨s.prepared, err, _, rfl, fun h => ?_⟩
      by_cases he : 0 ≤ err
      · exact .inl ⟨if_pos he, he, fun ho => by simpa [ho] using hs.2⟩
      · exact .inr ⟨h, if_neg he⟩
    | none =>
      obtain ⟨p, hst, hp⟩ := prepareProcessThread_eq x s
      refine ⟨p, _, _, Prod.ext hst rfl, fun h => ?_⟩
      by_cases he : 0 ≤ (prepareProcessThread x s).2
      · exact .inl ⟨if_pos he, he, fun ho => by simpa [ho] using hs.2⟩
      · exact .inr ⟨(hp (Int.not_le.mp he)).symm.trans h, if_neg he⟩
  · refine ⟨s.prepared, _, _, rfl, fun h => .inr ⟨h, ?_⟩⟩
    exact if_neg (by simp [eIo])
  · exact ⟨false, _, _, Prod.ext (deactivate_fst x s) rfl, fun h => by cases h⟩
  · exact ⟨s.prepared, 0, s.actual, rfl, fun h => .inr ⟨h, rfl⟩⟩

theorem publish_triple (token result pub : Int) :
    Triple Event.Safe (Knows o actual) (publishRunControlStatus token result actual pub) (Inv o) := by
  intro s hs
  unfold publishRunControlStatus
  split_ifs
  · exact ⟨hs, by simp [Event.Safe]⟩
  · exact ⟨hs, by simp⟩

theorem publishOrFail_triple (hf : Keeps o fail) (token result pub : Int) :
    Triple Event.Safe (Knows o actual)
      (publishRunControlStatusOrFail fail token result actual pub) (Inv o) :=
  (publish_triple token result pub).andThen (.ite (fun _ => hf) fun _ => .skip)

theorem complete_triple (hf : Keeps o fail) (result pub : Int) :
    Triple Event.Safe (Knows o actual) (completeRunControl fail result actual pub) (Inv o) := by
  intro s hs
  exact ((publishOrFail_triple hf s.lastToken result pub).andThen (.modify fun _ h => h)) s hs

section RunWithReset

variable (ho : o.reset = true → o.run = true)

include ho

/-- **A state change** keeps the invariant, if run control comes with reset control. -/
theorem stateChangedWith_triple (hf : Keeps o fail) (pub : Int) (state : FilterState) :
    Keeps o (stateChangedWith fail o x pub state) := by
  intro s hs
  obtain ⟨p, res, actual, hu, hp⟩ := update_spec (o := o) x state { s with state := state }
  simp only [stateChangedWith, hu]
  have hknows : Knows o actual { s with state := state, prepared := p } := by
    intro hr h
    rcases hp h with ⟨ha, -, -⟩ | ⟨hprep, ha⟩
    · exact ha
    · exact ha.trans (hs hr hprep)
  have htail : Triple Event.Safe (Inv o) (.andThen (if res < 0 then fail else .skip)
      (if state = .error then .modify (fun s => (deactivate x s).1) else .skip)) (Inv o) := by
    refine .andThen (.ite (fun _ => hf) fun _ => .skip) (.ite (fun _ => ?_) fun _ => .skip)
    refine .modify fun t _ hr h => ?_
    rw [deactivate_fst] at h
    cases h
  refine (Triple.andThen (P := (· = { s with state := state, prepared := p })) ?_ htail) _ rfl
  have keep : ∀ t, t = { s with state := state, prepared := p } → Knows o actual t := by
    rintro t rfl
    exact hknows
  refine .ite (fun hrun => ?_) fun hrun => .ite (fun _ => ?_) fun h₁ =>
    .ite (fun _ => ?_) fun h₂ => .ite (fun _ => ?_) fun h₃ => ?_
  · -- without run control there is no reset control
    refine .conseq (P := Inv o) ?_ .skip fun _ h => h
    rintro t rfl hr
    exact absurd (ho hr) (by simp [hrun])
  · exact (complete_triple hf res pub).conseq keep fun _ h => h
  · exact (complete_triple hf 0 pub).conseq keep fun _ h => h
  · exact (publishOrFail_triple hf _ 0 pub).conseq keep fun _ h => h
  · -- nothing is published: a processor that became prepared was prepared before
    refine .conseq (P := Inv o) ?_ .skip fun _ h => h
    rintro t rfl hr h
    rcases hp h with ⟨ha, hres, hreq⟩ | ⟨hprep, -⟩
    · rcases hreq (ho hr) with hreq | hact
      · exact absurd ⟨hres, ha.trans hreq.symm⟩ h₂
      · exact hact
    · exact hs hr hprep

theorem fail_triple : Keeps o (failOnMainLoop o x) := by
  intro s hs
  unfold failOnMainLoop
  split_ifs
  · exact ⟨hs, by simp⟩
  · exact stateChangedWith_triple ho .skip _ _ s hs

theorem stateChanged_triple (state : FilterState) : Keeps o (filterStateChanged o x state) :=
  stateChangedWith_triple ho (fail_triple ho) _ state

theorem answerReset_triple (token result pub : Int) : Triple Event.Safe (Inv o)
      (publishResetControlStatusOrFail (failOnMainLoop o x) token result pub) (Inv o) := by
  refine .andThen ?_ (.ite (fun _ => fail_triple ho) fun _ => .skip)
  intro s hs
  split_ifs
  · exact ⟨hs, by simp [Event.Safe]⟩
  · exact ⟨hs, by simp⟩

/-- **Reset control** calls the owner only when the processor is not prepared. -/
theorem resetControl_triple (reset : Parsed ResetRequest) : Keeps o (resetControl o x reset) := by
  intro s hs
  unfold resetControl
  split
  · exact ⟨hs, by simp⟩
  · rename_i hr
    have hr : o.reset = true := by simpa using hr
    cases reset with
    | absent => exact ⟨hs, by simp⟩
    | invalid token res =>
      dsimp only
      split
      · exact answerReset_triple ho _ _ _ s hs
      · exact ⟨hs, by simp⟩
    | request r =>
      have hs' : Inv o { s with lastReset := r.token } := hs
      dsimp only
      split
      · exact answerReset_triple ho _ _ _ s hs
      · split
        · exact answerReset_triple ho _ _ _ _ hs'
        · rename_i hbusy
          rw [not_or, not_not, not_not] at hbusy
          have hidle : s.prepared = false := by
            by_contra hprep
            have := hs hr (by simpa using hprep)
            simp [hbusy.1] at this
          have hreset : Event.Safe (.reset s.prepared s.requested) := ⟨hidle, hbusy.2⟩
          exact ((Triple.emit hreset).andThen (answerReset_triple ho _ _ _)) _ hs'

theorem setActive_triple (r : RunRequest) : Keeps o (fun s =>
        if x.setActive < 0 then
          completeRunControl (failOnMainLoop o x) x.setActive s.actual x.publish s
        else if (r.state = .running ∧ s.state = .streaming) ∨
            (r.state = .stopped ∧ s.state = .paused) then
          completeRunControl (failOnMainLoop o x) (updateProcessingState o x s.state s).2.1
            (updateProcessingState o x s.state s).2.2 x.publish (updateProcessingState o x s.state s).1
        else (s, [])) := by
  intro s hs
  have hf : Keeps o (failOnMainLoop o x) := fail_triple ho
  dsimp only
  split
  · exact complete_triple hf x.setActive x.publish s hs
  · split
    · obtain ⟨p, res, actual, hu, hp⟩ := update_spec (o := o) x s.state s
      rw [hu]
      refine complete_triple hf res x.publish { s with prepared := p } fun hr h => ?_
      rcases hp h with ⟨ha, -, -⟩ | ⟨hprep, ha⟩
      · exact ha
      · exact ha.trans (hs hr hprep)
    · exact ⟨hs, by simp⟩

/-- **Run control** keeps the invariant, whatever `pw_filter_set_active` does meanwhile. -/
theorem runRequest_triple (nested : List (FilterState × Answers)) (r : RunRequest) :
    Keeps o (runRequest o x nested r) := by
  intro s hs
  have hf : Keeps o (failOnMainLoop o x) := fail_triple ho
  unfold runRequest
  split
  · exact publishOrFail_triple hf r.token _ x.publish s hs
  · split
    · exact publishOrFail_triple hf r.token _ x.publish s hs
    · split
      · have hs' : Inv o { s with lastToken := r.token } := hs
        exact complete_triple hf 0 x.publish _ hs'
      · have hs' : Inv o { s with lastToken := r.token, requested := r.state } := hs
        have hchange (c : FilterState × Answers) :
            Keeps o (filterStateChanged o c.2 c.1) :=
          stateChanged_triple ho c.1
        have hnested := Triple.all hchange nested
        exact (hnested.andThen (setActive_triple ho r)) _ hs'

theorem paramChanged_triple
    (nested : List (FilterState × Answers)) (run : Parsed RunRequest) (reset : Parsed ResetRequest) :
    Keeps o (filterParamChanged o x nested run reset) := by
  intro s hs
  unfold filterParamChanged
  split
  · exact resetControl_triple ho reset s hs
  · cases run with
    | absent => exact resetControl_triple ho reset s hs
    | invalid token res =>
      dsimp only
      split
      · exact publishOrFail_triple (fail_triple ho) _ _ _ s hs
      · exact ⟨hs, by simp⟩
    | request r => exact runRequest_triple ho nested r s hs

end RunWithReset

end Triples

theorem resetSafe_of_run {o : Options} (ho : o.reset = true → o.run = true) :
    ResetSafe (machine o) init := by
  intro s tr h
  refine (Triple.reaches (I := Inv o) ?_ ?_ h).2
  · intro a
    cases a with
    | stateChanged state x => exact stateChanged_triple ho state
    | paramChanged run reset x nested => exact paramChanged_triple ho nested run reset
  · intro _ h
    cases h

/-- Everything succeeds. -/
def Answers.ok : Answers := ⟨true, none, false, 0, 0, 0, 0, 0, 0⟩

/-- Without run control: the filter starts streaming, and a reset is requested. -/
def streamingReset : List Action :=
  [.stateChanged .streaming .ok, .paramChanged .absent (.request ⟨1, Int.one_pos⟩) .ok []]

/-- **Reset control alone is not safe**: `actual_state` is still what it was at the start when the
reset reaches the prepared processor. -/
theorem streamingReset_running :
    ∃ s tr, (machine ⟨false, true⟩).Reaches init s tr ∧ s.prepared = true ∧
      .reset true .unknown ∈ tr :=
  ⟨_, _, .of_run streamingReset rfl, rfl, by decide⟩

theorem filter_resetSafe_iff (o : Options) :
    ResetSafe (machine o) init ↔ (o.reset = true → o.run = true) := by
  refine ⟨fun h hr => ?_, resetSafe_of_run⟩
  by_contra hrun
  obtain rfl : o = ⟨false, true⟩ := by
    obtain ⟨run, reset⟩ := o
    simp_all
  obtain ⟨s, tr, hs, -, he⟩ := streamingReset_running
  have := (h s tr hs _ he).1
  cases this

end PipeWireAO.RunControl.Filter
