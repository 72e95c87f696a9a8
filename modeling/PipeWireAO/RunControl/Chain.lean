import PipeWireAO.RunControl.Filter

/-!
# Run control and reset control of the filter chain

The ndarray filter chain activates its graph when its filter starts streaming and deactivates it when
the filter pauses. It follows the standalone filter, except that a status is recorded and published
later, by the main loop, that a graph whose processing failed is not activated before it is reset, and
that the graph stays active when the filter is disconnected or in error.
-/

namespace PipeWireAO.RunControl.Chain

open Foundation

/-- A filter chain: its requests, the state of the `pw_filter`, whether the graph is active, and
failed. -/
structure State extends Control where
  filterState : FilterState
  (active processFailed : Bool)
deriving DecidableEq

/-- A new filter chain. -/
def init : State :=
  { Control.init with filterState := .unconnected, active := false, processFailed := false }

/-- What the environment answers during one event: the results of activating, preparing,
deactivating and resetting the nodes, whether there is a data loop, the error of `pw_loop_invoke` if
it could not run the function, and the result of `pw_filter_set_active`. -/
structure Answers where
  activate : Int
  dataLoop : Bool
  notInvoked : Option Int
  (prepare deactivate reset setActive : Int)
deriving DecidableEq

/-- `spa_fgn_graph_activate`. -/
def graphActivate (x : Answers) (s : State) : State × Int :=
  if s.active then (s, 0)
  else if x.activate < 0 then (s, x.activate)
  else ({ s with active := true }, 0)

/-- `spa_fgn_graph_deactivate`: the graph is inactive afterwards, also if a node failed. -/
def graphDeactivate (x : Answers) (s : State) : State × Int :=
  if s.active then ({ s with active := false }, x.deactivate) else (s, 0)

/-- `update_graph_processing`: the new state, the result and `*actual`. -/
def updateGraphProcessing (o : Options) (x : Answers) (state : FilterState) (s : State) :
    State × Int × RunState :=
  if state = .streaming ∧ (o.run = false ∨ s.requested = .running ∨ s.actual = .running) then
    if s.processFailed then (s, -eIo, s.actual)
    else
      let a := graphActivate x s
      let res :=
        if a.2 < 0 then a.2
        else if x.dataLoop then x.notInvoked.getD x.prepare
        else -eIo
      if res < 0 then ((graphDeactivate x a.1).1, res, s.actual) else (a.1, res, .running)
  else if state = .paused then
    let r := graphDeactivate x s
    (r.1, r.2, if 0 ≤ r.2 then .stopped else s.actual)
  else (s, 0, s.actual)

def publishRunControlResponse (token result : Int) (actual : RunState) : Handler State Event :=
  fun s =>
    ({ s with actual := actual, completedToken := token, result := result },
      [.status token result actual])

def completeRunControl (result : Int) (actual : RunState) : Handler State Event := fun s =>
  Handler.andThen (publishRunControlResponse s.lastToken result actual)
    (.modify fun s => { s with requested := .unknown }) s

/-- `filter_state_changed`, with what happens on a failure. -/
def stateChangedWith (fail : Handler State Event) (o : Options) (x : Answers)
    (state : FilterState) : Handler State Event := fun s =>
  let r := updateGraphProcessing o x state { s with filterState := state }
  let res := r.2.1
  let actual := r.2.2
  let answer : Handler State Event :=
    if o.run = false then .skip
    else if res < 0 ∧ r.1.requested ≠ .unknown then completeRunControl res actual
    else if 0 ≤ res ∧ actual = r.1.requested then completeRunControl 0 actual
    else if r.1.requested = .unknown ∧ actual ≠ .unknown ∧ actual ≠ r.1.actual then
      publishRunControlResponse r.1.completedToken r.1.result actual
    else .skip
  Handler.andThen answer (if res < 0 then fail else .skip) r.1

/-- `pw_filter_set_error` puts the filter into the error state, and `filter_state_changed` runs
inside it. -/
def setError (o : Options) (x : Answers) : Handler State Event := fun s =>
  if s.filterState = .error then (s, []) else stateChangedWith .skip o x .error s

def filterStateChanged (o : Options) (x : Answers) (state : FilterState) : Handler State Event :=
  stateChangedWith (setError o x) o x state

/-- Answering a request to reset. -/
def resetResponse (token result : Int) : Handler State Event := fun s =>
  ({ s with completedReset := token, resetResult := result }, [.resetStatus token result])

/-- The part of `filter_param_changed` for reset control. A successful reset also clears the
failure of processing. -/
def resetControl (o : Options) (x : Answers) (reset : Parsed ResetRequest) :
    Handler State Event := fun s =>
  if o.reset = false then (s, [])
  else
    match reset with
    | .absent => (s, [])
    | .invalid token res => if 0 < token then resetResponse token res s else (s, [])
    | .request r =>
      if r.token ≤ s.lastReset then resetResponse r.token (staleResult r.token s.lastReset) s
      else if s.actual ≠ .stopped ∨ s.requested ≠ .unknown then
        resetResponse r.token (-eBusy) { s with lastReset := r.token }
      else
        Handler.andThen (.emit (.reset s.active s.requested))
          (resetResponse r.token x.reset)
          { s with lastReset := r.token, processFailed := s.processFailed && decide (x.reset < 0) }

/-- The part of `filter_param_changed` for a valid request to run or to stop. `nested` are the
state changes that `pw_filter_set_active` makes, with the answers they get. -/
def runRequest (o : Options) (x : Answers) (nested : List (FilterState × Answers)) (r : RunRequest) :
    Handler State Event := fun s =>
  if s.requested ≠ .unknown then publishRunControlResponse r.token (-eBusy) s.actual s
  else if r.token ≤ s.lastToken then
    publishRunControlResponse r.token (staleResult r.token s.lastToken) s.actual s
  else if r.state = s.actual then completeRunControl 0 s.actual { s with lastToken := r.token }
  else
    Handler.andThen (.all (fun c => filterStateChanged o c.2 c.1) nested)
      (fun s =>
        if x.setActive < 0 then completeRunControl x.setActive s.actual s
        else if (r.state = .running ∧ s.filterState = .streaming) ∨
            (r.state = .stopped ∧ s.filterState = .paused) then
          let u := updateGraphProcessing o x s.filterState s
          completeRunControl u.2.1 u.2.2 u.1
        else (s, []))
      { s with lastToken := r.token, requested := r.state }

/-- `filter_param_changed` for a parameter of the node, as the two parsers read it. -/
def filterParamChanged (o : Options) (x : Answers) (nested : List (FilterState × Answers))
    (run : Parsed RunRequest) (reset : Parsed ResetRequest) : Handler State Event := fun s =>
  if o.run = false then resetControl o x reset s
  else
    match run with
    | .absent => resetControl o x reset s
    | .invalid token res =>
      if 0 < token then publishRunControlResponse token res s.actual s else (s, [])
    | .request r => runRequest o x nested r s

/-- The state of the filter changes, a parameter of its node is set, or processing the graph fails. -/
inductive Action
  | stateChanged (state : FilterState) (x : Answers)
  | paramChanged (run : Parsed RunRequest) (reset : Parsed ResetRequest) (x : Answers)
      (nested : List (FilterState × Answers))
  | processFails

def handle (o : Options) : Action → Handler State Event
  | .stateChanged state x => filterStateChanged o x state
  | .paramChanged run reset x nested => filterParamChanged o x nested run reset
  | .processFails => .modify fun s => { s with processFailed := true }

/-- A filter chain with the options `o`. -/
def machine (o : Options) : Machine State Action Event := .ofHandlers (handle o)

/-- The part of `pipewire__module_init` that is about the options: each is on if its property is
there and true. -/
def moduleOptions (runControl resetControl : Option Bool) : Options :=
  ⟨runControl.getD false, resetControl.getD false⟩

theorem moduleOptions_surjective (o : Options) : ∃ run reset, moduleOptions run reset = o :=
  ⟨some o.run, some o.reset, rfl⟩

/-! ## `actual_state` knows about an active graph -/

/-- If resets are possible, the state `actual` says that an active graph runs. -/
def Knows (o : Options) (actual : RunState) (s : State) : Prop :=
  o.reset = true → s.active = true → actual = .running

/-- **The invariant**: `actual_state` knows about an active graph. -/
def Inv (o : Options) (s : State) : Prop := Knows o s.actual s

/-- The handler keeps the invariant, and its events are safe. -/
abbrev Keeps (o : Options) (h : Handler State Event) : Prop := Triple Event.Safe (Inv o) h (Inv o)

section Triples

variable {o : Options} {x : Answers} {fail : Handler State Event} {actual : RunState}

theorem graphDeactivate_fst (x : Answers) (s : State) :
    (graphDeactivate x s).1 = { s with active := false } := by
  unfold graphDeactivate
  split_ifs with h
  · rfl
  · obtain ⟨c, st, a, f⟩ := s
    simp_all

theorem graphActivate_fst (x : Answers) (s : State) :
    ∃ a, (graphActivate x s).1 = { s with active := a } := by
  unfold graphActivate
  split_ifs
  · exact ⟨s.active, rfl⟩
  · exact ⟨s.active, rfl⟩
  · exact ⟨true, rfl⟩

/-- **What `update_graph_processing` does**: it changes nothing but `active`, which is false
afterwards, or reported as running, or as it was. With run control, a graph becomes active only if
it was to run. -/
theorem update_spec (x : Answers) (state : FilterState) (s : State) :
    ∃ a res actual, updateGraphProcessing o x state s = ({ s with active := a }, res, actual) ∧
      (a = true → (actual = .running ∧ 0 ≤ res ∧
          (o.run = true → s.requested = .running ∨ s.actual = .running)) ∨
        (s.active = true ∧ actual = s.actual)) := by
  unfold updateGraphProcessing
  dsimp only
  split
  · rename_i hs
    split
    · exact ⟨s.active, _, _, rfl, fun h => .inr ⟨h, rfl⟩⟩
    · obtain ⟨a, ha⟩ := graphActivate_fst x s
      -- whatever the result of preparing the graph is
      generalize (if (graphActivate x s).2 < 0 then _ else _ : Int) = res
      split
      · refine ⟨false, _, _, Prod.ext ?_ rfl, fun h => by cases h⟩
        rw [graphDeactivate_fst, ha]
      · rename_i hres
        refine ⟨a, _, _, Prod.ext ha rfl, fun _ => .inl ⟨rfl, Int.not_lt.mp hres, fun ho => ?_⟩⟩
        simpa [ho] using hs.2
  · split
    · exact ⟨false, _, _, Prod.ext (graphDeactivate_fst x s) rfl, fun h => by cases h⟩
    · exact ⟨s.active, 0, s.actual, rfl, fun h => .inr ⟨h, rfl⟩⟩

theorem publish_triple (token result : Int) :
    Triple Event.Safe (Knows o actual) (publishRunControlResponse token result actual) (Inv o) :=
  fun _ hs => ⟨hs, by simp [publishRunControlResponse, Event.Safe]⟩

theorem complete_triple (result : Int) :
    Triple Event.Safe (Knows o actual) (completeRunControl result actual) (Inv o) := by
  intro s hs
  exact ((publish_triple s.lastToken result).andThen (.modify fun _ h => h)) s hs

/-- **A state change** keeps the invariant, if run control comes with reset control. -/
theorem stateChangedWith_triple (ho : o.reset = true → o.run = true)
    (hf : Keeps o fail) (state : FilterState) : Keeps o (stateChangedWith fail o x state) := by
  intro s hs
  obtain ⟨a, res, actual, hu, ha⟩ := update_spec (o := o) x state { s with filterState := state }
  simp only [stateChangedWith, hu]
  have hknows : ∀ t, t = { s with filterState := state, active := a } → Knows o actual t := by
    rintro t rfl hr h
    rcases ha h with ⟨hrun, -, -⟩ | ⟨hact, heq⟩
    · exact hrun
    · exact heq.trans (hs hr hact)
  have htail : Keeps o (if res < 0 then fail else .skip) :=
    .ite (fun _ => hf) fun _ => .skip
  refine (Triple.andThen (P := (· = { s with filterState := state, active := a })) ?_ htail) _ rfl
  refine .ite (fun hrun => ?_) fun hrun => .ite (fun _ => ?_) fun h₁ =>
    .ite (fun _ => ?_) fun h₂ => .ite (fun _ => ?_) fun h₃ => ?_
  · -- without run control there is no reset control
    refine .conseq (P := Inv o) ?_ .skip fun _ h => h
    rintro t rfl hr
    exact absurd (ho hr) (by simp [hrun])
  · exact (complete_triple res).conseq hknows fun _ h => h
  · exact (complete_triple 0).conseq hknows fun _ h => h
  · exact (publish_triple _ _).conseq hknows fun _ h => h
  · -- nothing is published: a graph that became active was active before
    refine .conseq (P := Inv o) ?_ .skip fun _ h => h
    rintro t rfl hr h
    rcases ha h with ⟨hrun, hres, hreq⟩ | ⟨hact, -⟩
    · rcases hreq (ho hr) with hreq | hact
      · exact absurd ⟨hres, hrun.trans hreq.symm⟩ h₂
      · exact hact
    · exact hs hr hact

theorem stateChanged_triple (ho : o.reset = true → o.run = true) (state : FilterState) :
    Keeps o (filterStateChanged o x state) := by
  refine stateChangedWith_triple ho ?_ state
  intro s hs
  unfold setError
  split
  · exact ⟨hs, by simp⟩
  · exact stateChangedWith_triple ho .skip _ s hs

theorem resetResponse_triple (token result : Int) : Keeps o (resetResponse token result) :=
  fun _ hs => ⟨hs, by simp [resetResponse, Event.Safe]⟩

/-- **Reset control** resets the graph only when it is not active. -/
theorem resetControl_triple (reset : Parsed ResetRequest) : Keeps o (resetControl o x reset) := by
  intro s hs
  unfold resetControl
  split
  · exact ⟨hs, by simp⟩
  · rename_i hr
    have hr : o.reset = true := by simpa using hr
    cases reset with
    | absent => exact ⟨hs, by simp⟩
    | invalid token res =>
      dsimp only
      split
      · exact resetResponse_triple _ _ s hs
      · exact ⟨hs, by simp⟩
    | request r =>
      dsimp only
      split
      · exact resetResponse_triple _ _ s hs
      · split
        · exact resetResponse_triple _ _ { s with lastReset := r.token } hs
        · rename_i hbusy
          rw [not_or, not_not, not_not] at hbusy
          have hidle : s.active = false := by
            by_contra hact
            have := hs hr (by simpa using hact)
            simp [hbusy.1] at this
          have hreset : Event.Safe (.reset s.active s.requested) := ⟨hidle, hbusy.2⟩
          exact ((Triple.emit hreset).andThen (resetResponse_triple _ _)) _ hs

theorem setActive_triple (r : RunRequest) : Keeps o (fun s =>
        if x.setActive < 0 then completeRunControl x.setActive s.actual s
        else if (r.state = .running ∧ s.filterState = .streaming) ∨
            (r.state = .stopped ∧ s.filterState = .paused) then
          completeRunControl (updateGraphProcessing o x s.filterState s).2.1
            (updateGraphProcessing o x s.filterState s).2.2
            (updateGraphProcessing o x s.filterState s).1
        else (s, [])) := by
  intro s hs
  dsimp only
  split
  · exact complete_triple x.setActive s hs
  · split
    · obtain ⟨a, res, actual, hu, ha⟩ := update_spec (o := o) x s.filterState s
      rw [hu]
      refine complete_triple res { s with active := a } fun hr h => ?_
      rcases ha h with ⟨hrun, -, -⟩ | ⟨hact, heq⟩
      · exact hrun
      · exact heq.trans (hs hr hact)
    · exact ⟨hs, by simp⟩

/-- **Run control** keeps the invariant, whatever `pw_filter_set_active` does meanwhile. -/
theorem runRequest_triple (ho : o.reset = true → o.run = true)
    (nested : List (FilterState × Answers)) (r : RunRequest) :
    Keeps o (runRequest o x nested r) := by
  intro s hs
  unfold runRequest
  split
  · exact publish_triple r.token _ s hs
  · split
    · exact publish_triple r.token _ s hs
    · split
      · have hs' : Inv o { s with lastToken := r.token } := hs
        exact complete_triple 0 _ hs'
      · have hs' : Inv o { s with lastToken := r.token, requested := r.state } := hs
        have hchange (c : FilterState × Answers) :
            Keeps o (filterStateChanged o c.2 c.1) :=
          stateChanged_triple ho c.1
        have hnested := Triple.all hchange nested
        exact (hnested.andThen (setActive_triple r)) _ hs'

theorem paramChanged_triple (ho : o.reset = true → o.run = true)
    (nested : List (FilterState × Answers)) (run : Parsed RunRequest) (reset : Parsed ResetRequest) :
    Keeps o (filterParamChanged o x nested run reset) := by
  intro s hs
  unfold filterParamChanged
  split
  · exact resetControl_triple reset s hs
  · cases run with
    | absent => exact resetControl_triple reset s hs
    | invalid token res =>
      dsimp only
      split
      · exact publish_triple _ _ s hs
      · exact ⟨hs, by simp⟩
    | request r => exact runRequest_triple ho nested r s hs

end Triples

theorem resetSafe_of_run {o : Options} (ho : o.reset = true → o.run = true) :
    ResetSafe (machine o) init := by
  intro s tr h
  refine (Triple.reaches (I := Inv o) ?_ ?_ h).2
  · intro a
    cases a with
    | stateChanged state x => exact stateChanged_triple ho state
    | paramChanged run reset x nested => exact paramChanged_triple ho nested run reset
    | processFails => exact .modify fun _ h => h
  · intro _ h
    cases h

/-- Everything succeeds. -/
def Answers.ok : Answers := ⟨0, true, none, 0, 0, 0, 0⟩

/-- Without run control: the filter starts streaming, and a reset is requested. -/
def streamingReset : List Action :=
  [.stateChanged .streaming .ok, .paramChanged .absent (.request ⟨1, Int.one_pos⟩) .ok []]

/-- **Reset control alone is not safe**: the reset reaches the active graph. -/
theorem streamingReset_active :
    ∃ s tr, (machine ⟨false, true⟩).Reaches init s tr ∧ s.active = true ∧
      .reset true .unknown ∈ tr :=
  ⟨_, _, .of_run streamingReset rfl, rfl, by decide⟩

theorem chain_resetSafe_iff (o : Options) :
    ResetSafe (machine o) init ↔ (o.reset = true → o.run = true) := by
  refine ⟨fun h hr => ?_, resetSafe_of_run⟩
  by_contra hrun
  obtain rfl : o = ⟨false, true⟩ := by
    obtain ⟨run, reset⟩ := o
    simp_all
  obtain ⟨s, tr, hs, -, he⟩ := streamingReset_active
  have := (h s tr hs _ he).1
  cases this

end PipeWireAO.RunControl.Chain

namespace PipeWireAO.RunControl

open Foundation

/-- **A reset never reaches a running processor exactly if reset control comes with run
control**, for the standalone filter and for the filter chain. Every combination of the two
options is accepted at construction. -/
theorem reset_safe_iff_run_control (o : Options) : ((∃ c, Filter.copyConfig c = .ok o) ∧
      (ResetSafe (Filter.machine o) Filter.init ↔ (o.reset = true → o.run = true))) ∧
    (∃ run reset, Chain.moduleOptions run reset = o) ∧
      (ResetSafe (Chain.machine o) Chain.init ↔ (o.reset = true → o.run = true)) :=
  ⟨⟨Filter.copyConfig_surjective o, Filter.filter_resetSafe_iff o⟩,
    Chain.moduleOptions_surjective o, Chain.chain_resetSafe_iff o⟩

/-- With reset control alone, a reset reaches a filter that streams, and an active graph. -/
theorem reset_reaches_running :
    (∃ s tr, (Filter.machine ⟨false, true⟩).Reaches Filter.init s tr ∧ s.prepared = true ∧
      .reset true .unknown ∈ tr) ∧
    ∃ s tr, (Chain.machine ⟨false, true⟩).Reaches Chain.init s tr ∧ s.active = true ∧
      .reset true .unknown ∈ tr :=
  ⟨Filter.streamingReset_running, Chain.streamingReset_active⟩

end PipeWireAO.RunControl
