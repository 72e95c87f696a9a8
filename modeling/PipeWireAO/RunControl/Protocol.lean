import PipeWireAO.RunControl.Chain

/-!
# The token protocol of run control

A request is accepted when no other one is pending and its token is new. It is answered by one status
with its own token, and by result 0 only if the processor is in the state that was asked for. Every
other request is refused without any effect on the pending one.

Statuses alone do not tell these apart: a refusal carries the token of the refused request, and a
processor that stops by itself repeats the last token. So each step is annotated with what it means
for the requests, from the control state before and after it.
-/

namespace PipeWireAO.RunControl

open Foundation

/-! ## Notes -/

/-- What a step means: a request is accepted, or completed by a status, or a status says something
else. -/
inductive Note
  | accepted (token : Int) (state : RunState)
  | completed (token result : Int) (actual : RunState)
  | answered (token result : Int) (actual : RunState)
deriving DecidableEq

def statuses (es : List Event) : List (Int × Int × RunState) :=
  es.filterMap fun
    | .status token result actual => some (token, result, actual)
    | _ => none

@[simp] theorem statuses_nil : statuses [] = [] := rfl

/-- The request `r` was accepted: only that changes the last token. -/
def acceptNotes (r : Option RunRequest) (c c' : Control) : List Note :=
  if c'.lastToken = c.lastToken then []
  else r.toList.map fun r => .accepted r.token r.state

/-- A step that begins with a request or accepts one, and ends without, completes it. -/
def closes (c c' : Control) : Bool :=
  (c.requested ≠ .unknown || c'.lastToken ≠ c.lastToken) && c'.requested = .unknown

def statusNote (closing : Bool) (p : Int × Int × RunState) : Note :=
  if closing then .completed p.1 p.2.1 p.2.2 else .answered p.1 p.2.1 p.2.2

/-- The notes of a step from `c` to `c'` with the events `es`. -/
def notes (r : Option RunRequest) (c c' : Control) (es : List Event) : List Note :=
  acceptNotes r c c' ++ (statuses es).map (statusNote (closes c c'))

/-! ## The protocol -/

/-- The last token that was accepted, and the request that is not completed yet. -/
structure Requests where
  last : Int
  pending : Option (Int × RunState)
deriving DecidableEq

/-- **The token protocol.** A request is accepted when none is pending and its token is larger
than all before. It is completed by a status with its own token, whose result is 0 only if the
actual state is the one asked for. -/
def protocol : Observer Requests Note where
  next q
    | .accepted token state =>
      if q.pending = none ∧ q.last < token then some ⟨token, some (token, state)⟩ else none
    | .completed token result actual =>
      match q.pending with
      | none => none
      | some (t, state) =>
        if token = t ∧ (result = 0 → actual = state) then some ⟨q.last, none⟩ else none
    | .answered _ _ _ => some q

/-- The requests as the control state has them. -/
def Control.requests (c : Control) : Requests :=
  ⟨c.lastToken, if c.requested = .unknown then none else some (c.lastToken, c.requested)⟩

/-- The steps that follow the protocol. `r` is the request that the step handles, if it is one. -/
inductive Transition (r : Option RunRequest) (c c' : Control) (es : List Event) : Prop
  /-- No request is accepted or completed. -/
  | answer (hlast : c'.lastToken = c.lastToken) (hreq : c'.requested = c.requested)
  | complete (result : Int) (actual : RunState) (hr : r = none) (hpending : c.requested ≠ .unknown)
      (hlast : c'.lastToken = c.lastToken) (hreq : c'.requested = .unknown)
      (hes : statuses es = [(c.lastToken, result, actual)]) (hres : result = 0 → actual = c.requested)
  | accept (q : RunRequest) (hr : r = some q) (hidle : c.requested = .unknown)
      (hnew : c.lastToken < q.token) (hlast : c'.lastToken = q.token)
      (hreq : c'.requested = q.state) (hes : statuses es = [])
  | acceptComplete (q : RunRequest) (result : Int) (actual : RunState) (hr : r = some q)
      (hidle : c.requested = .unknown) (hnew : c.lastToken < q.token)
      (hlast : c'.lastToken = q.token) (hreq : c'.requested = .unknown)
      (hes : statuses es = [(q.token, result, actual)]) (hres : result = 0 → actual = q.state)

variable {r : Option RunRequest} {c c' : Control} {es : List Event}

theorem protocol_answered (q : Requests) (ps : List (Int × Int × RunState)) :
    protocol.accept q (ps.map (statusNote false)) = some q := by
  induction ps with
  | nil => rfl
  | cons p ps ih => exact Observer.accept_cons_eq_some.mpr ⟨q, rfl, ih⟩

/-- **The protocol accepts the notes of such a step**, and agrees with the control state after
it. -/
theorem Transition.accepts (h : Transition r c c' es) :
    protocol.accept c.requests (notes r c c' es) = some c'.requests := by
  cases h with
  | answer hlast hreq =>
    have hclose : closes c c' = false := by
      simp only [closes, hlast, hreq]
      cases c.requested <;> simp
    have hsame : c'.requests = c.requests := by
      simp only [Control.requests, hlast, hreq]
    rw [notes, acceptNotes, if_pos hlast, hclose, hsame]
    exact protocol_answered _ _
  | complete result actual hr hpending hlast hreq hes hres =>
    have hclose : closes c c' = true := by simp [closes, hpending, hreq]
    rw [notes, acceptNotes, if_pos hlast, hclose, hes]
    simp [statusNote, protocol, Control.requests, hpending, hlast, hreq]
    exact hres
  | accept q hr hidle hnew hlast hreq hes =>
    have hne : c'.lastToken ≠ c.lastToken := by omega
    rw [notes, acceptNotes, if_neg hne, hes, hr]
    simp [protocol, Control.requests, hidle, hnew, hlast, hreq, q.state_known]
  | acceptComplete q result actual hr hidle hnew hlast hreq hes hres =>
    have hne : c'.lastToken ≠ c.lastToken := by omega
    have hclose : closes c c' = true := by simp [closes, hne, hreq]
    rw [notes, acceptNotes, if_neg hne, hclose, hes, hr]
    refine Observer.accept_append.mpr ⟨⟨q.token, some (q.token, q.state)⟩, ?_, ?_⟩
    · simp [protocol, Control.requests, hidle, hnew]
    · simp [protocol, statusNote, Control.requests, hlast, hreq]
      exact hres

variable {q : RunRequest} {token res : Int} {actual requested : RunState}
  {reset : Parsed ResetRequest} {state : FilterState}

theorem Transition.rejected (h : Transition (some q) c c' es)
    (hlast : c'.lastToken = c.lastToken) : c'.requested = c.requested := by
  cases h with
  | answer _ hreq => exact hreq
  | complete _ _ hr => cases hr
  | accept q' hr _ hnew hlast' | acceptComplete q' _ _ hr _ hnew hlast' => omega

/-- The actual state is known, and a pending request asks for another one. -/
structure Control.Sane (c : Control) : Prop where
  known : c.actual ≠ .unknown
  differs : c.requested ≠ c.actual

/-- The state of the filter that completes a pending request. -/
def RunState.target : RunState → Option FilterState
  | .unknown => none
  | .stopped => some .paused
  | .running => some .streaming

theorem RunState.target_eq_some (h : requested.target = some state) :
    requested ≠ .unknown ∧ (state = .streaming ∧ requested = .running ∨
      state = .paused ∧ requested = .stopped) := by
  cases requested <;> cases h <;> simp

theorem RunState.target_of_match
    (h : requested = .running ∧ state = .streaming ∨ requested = .stopped ∧ state = .paused) :
    requested.target = some state := by
  rcases h with ⟨rfl, rfl⟩ | ⟨rfl, rfl⟩ <;> rfl

/-- The steps of both implementations: they follow the protocol, and publish at most the status they
record. -/
structure Follows (r : Option RunRequest) (c c' : Control) (es : List Event) : Prop where
  transition : Transition r c c' es
  known : c'.actual ≠ .unknown
  differs : c'.requested ≠ c'.actual
  recorded : statuses es = [] ∨ statuses es = [(c'.completedToken, c'.result, c'.actual)]

theorem Follows.sane (h : Follows r c c' es) : c'.Sane := ⟨h.known, h.differs⟩

theorem Follows.quiet (hs : c.Sane) (hlast : c'.lastToken = c.lastToken)
    (hreq : c'.requested = c.requested) (hact : c'.actual = c.actual) (hes : statuses es = []) :
    Follows r c c' es :=
  ⟨.answer hlast hreq, hact ▸ hs.known, by rw [hreq, hact]; exact hs.differs, .inl hes⟩

/-! ## State changes -/

def Control.publish (token result : Int) (actual : RunState) (c : Control) : Control × List Event :=
  ({ c with actual := actual, completedToken := token, result := result },
    [.status token result actual])

/-- A status is published, and no request is pending. -/
def Control.complete (result : Int) (actual : RunState) (c : Control) : Control × List Event :=
  ({ (c.publish c.lastToken result actual).1 with requested := .unknown },
    [.status c.lastToken result actual])

/-- The answer to a state change: it completes the pending request, or publishes `result` if the
processor started or stopped by itself. -/
def Control.answer (res : Int) (actual : RunState) (result : Int) (c : Control) :
    Control × List Event :=
  if res < 0 ∧ c.requested ≠ .unknown then c.complete res actual
  else if 0 ≤ res ∧ actual = c.requested then c.complete 0 actual
  else if c.requested = .unknown ∧ actual ≠ c.actual then c.publish c.completedToken result actual
  else (c, [])

/-- The processor was updated for `state`: this succeeds only by reaching the state that was asked
for, and does not forget the actual state. -/
structure Updated (requested : RunState) (state : FilterState) (res : Int) (actual : RunState) :
    Prop where
  known : actual ≠ .unknown
  reached : 0 ≤ res → requested.target = some state → actual = requested

/-- The step from `c` to `c'` answers a change to `state`. -/
def Answered (state : FilterState) (c c' : Control) (es : List Event) : Prop :=
  ∃ res actual result, Updated c.requested state res actual ∧ c.answer res actual result = (c', es)

theorem Control.answer_follows (res result : Int) (hs : c.Sane) (hactual : actual ≠ .unknown) :
    Follows none c (c.answer res actual result).1 (c.answer res actual result).2 := by
  unfold Control.answer
  split_ifs with h₁ h₂ h₃
  · refine ⟨.complete res actual rfl h₁.2 rfl rfl rfl fun h => ?_, hactual, Ne.symm hactual, .inr rfl⟩
    omega
  · have hpending : c.requested ≠ .unknown := h₂.2 ▸ hactual
    exact ⟨.complete 0 actual rfl hpending rfl rfl rfl fun _ => h₂.2, hactual, Ne.symm hactual,
      .inr rfl⟩
  · exact ⟨.answer rfl rfl, hactual, fun h => hactual (h.symm.trans h₃.1), .inr rfl⟩
  · exact .quiet hs rfl rfl rfl rfl

theorem Answered.follows (h : Answered state c c' es) (hs : c.Sane) : Follows none c c' es := by
  obtain ⟨res, actual, result, hu, heq⟩ := h
  have := Control.answer_follows res result hs hu.known
  rwa [heq] at this

open Handler (andThen)

namespace Filter

variable {o : Options} {x : Answers} {fail : Handler State Event} {s : State}

def Action.request : Action → Option RunRequest
  | .paramChanged (.request r) _ _ _ => some r
  | _ => none

/-- Statuses can be published, and `pw_filter_set_active` only sends a message. -/
def Action.plain : Action → Bool
  | .stateChanged _ x => 0 ≤ x.publish
  | .paramChanged _ _ x nested => 0 ≤ x.publish && nested.isEmpty

theorem update_actual (state : FilterState) (hknown : s.actual ≠ .unknown) :
    Updated s.requested state (updateProcessingState o x state s).2.1
      (updateProcessingState o x state s).2.2 := by
  refine ⟨?_, fun hres ht => ?_⟩
  · unfold updateProcessingState
    split_ifs <;> dsimp only <;> (try split_ifs) <;> first | exact hknown | nofun
  · obtain ⟨-, ⟨rfl, hreq⟩ | ⟨rfl, hreq⟩⟩ := RunState.target_eq_some ht
    · simp only [updateProcessingState, hreq, true_or, or_true, and_self, if_true] at hres ⊢
      exact if_pos hres
    · simp only [updateProcessingState, hreq, reduceCtorEq, false_and, true_or, if_true, if_false]
        at hres ⊢
      exact if_pos hres

theorem publishOrFail_ok {result pub : Int} (h : 0 ≤ pub) :
    publishRunControlStatusOrFail fail token result actual pub s =
      ({ s with toControl := (s.publish token result actual).1 }, [.status token result actual]) := by
  simp [publishRunControlStatusOrFail, publishRunControlStatus, Control.publish, andThen,
    Handler.skip, h, Int.not_lt.mpr h]

theorem complete_ok {result pub : Int} (h : 0 ≤ pub) : completeRunControl fail result actual pub s =
      ({ s with toControl := (s.complete result actual).1 }, [.status s.lastToken result actual]) := by
  simp [completeRunControl, Control.complete, andThen, Handler.modify, publishOrFail_ok h]

theorem fail_quiet (hs : s.Sane) :
    (failOnMainLoop o x s).1.toControl = s.toControl ∧ (failOnMainLoop o x s).2 = [] := by
  have hne : s.actual ≠ s.requested := hs.differs.symm
  unfold failOnMainLoop
  split
  · exact ⟨rfl, rfl⟩
  · simp [stateChangedWith, updateProcessingState, andThen, Handler.skip, Handler.modify,
      deactivate_fst, hne]

theorem tail_quiet (state : FilterState) (hs : s.Sane) (res : Int) :
    ((andThen (if res < 0 then failOnMainLoop o x else .skip)
      (if state = .error then .modify (fun s => (deactivate x s).1) else .skip)) s).1.toControl =
        s.toControl ∧ ((andThen (if res < 0 then failOnMainLoop o x else .skip)
      (if state = .error then .modify (fun s => (deactivate x s).1) else .skip)) s).2 = [] := by
  have hfail := fail_quiet (o := o) (x := x) hs
  by_cases hres : res < 0 <;> by_cases hstate : state = .error <;>
    simp [andThen, Handler.modify, Handler.skip, hres, hstate, deactivate_fst, hfail]

theorem answer_ok {t : State} (fail : Handler State Event) (res : Int) (actual : RunState)
    (hpub : 0 ≤ x.publish) (ht : t.toControl = c) :
    (if res < 0 ∧ c.requested ≠ .unknown then completeRunControl fail res actual x.publish
      else if 0 ≤ res ∧ actual = c.requested then completeRunControl fail 0 actual x.publish
      else if c.requested = .unknown ∧ actual ≠ c.actual then
        publishRunControlStatusOrFail fail c.completedToken 0 actual x.publish
      else .skip) t =
      ({ t with toControl := (c.answer res actual 0).1 }, (c.answer res actual 0).2) := by
  subst ht
  unfold Control.answer
  split_ifs
  · exact complete_ok hpub
  · exact complete_ok hpub
  · exact publishOrFail_ok hpub
  · rfl

/-- **A state change** is answered. -/
theorem stateChanged_answered (state : FilterState) (ho : o.run = true) (hpub : 0 ≤ x.publish) (hs : s.Sane) :
    Answered state s.toControl (filterStateChanged o x state s).1.toControl
      (filterStateChanged o x state s).2 := by
  obtain ⟨p, res, actual, hu, -⟩ := update_spec (o := o) x state { s with state := state }
  have hact := update_actual (o := o) (x := x) (s := { s with state := state }) state hs.known
  rw [hu] at hact
  have hsane := (Control.answer_follows res 0 hs hact.known).sane
  -- the failure is reported after the answer
  obtain ⟨hctl, hnil⟩ := tail_quiet (o := o) (x := x) (s := ⟨_, state, p⟩) state hsane res
  refine ⟨res, actual, 0, hact, ?_⟩
  simp only [filterStateChanged, stateChangedWith, hu, ho, Bool.true_eq_false, if_false]
  rw [andThen, answer_ok (c := s.toControl) (t := ⟨s.toControl, state, p⟩) _ res actual hpub
    rfl, hctl, hnil, List.append_nil]

/-- **A request** follows the protocol. -/
theorem runRequest_follows (hpub : 0 ≤ x.publish) (hs : s.Sane) :
    Follows (some q) s.toControl (runRequest o x [] q s).1.toControl (runRequest o x [] q s).2 := by
  have hknown := hs.known
  simp only [runRequest, Handler.all, Handler.skip_andThen]
  split_ifs with hbusy hstale hsame hset hmatch
  · rw [publishOrFail_ok hpub]
    exact ⟨.answer rfl rfl, hs.known, hs.differs, .inr rfl⟩
  · rw [publishOrFail_ok hpub]
    exact ⟨.answer rfl rfl, hs.known, hs.differs, .inr rfl⟩
  · rw [complete_ok hpub]
    exact ⟨.acceptComplete q 0 s.actual rfl (not_not.mp hbusy) (by omega) rfl rfl rfl
      fun _ => hsame.symm, hknown, Ne.symm hknown, .inr rfl⟩
  · rw [complete_ok hpub]
    refine ⟨.acceptComplete q x.setActive s.actual rfl (not_not.mp hbusy) (by omega) rfl rfl rfl
      fun h => ?_, hknown, Ne.symm hknown, .inr rfl⟩
    omega
  · -- the filter is in the state that was asked for already
    obtain ⟨p, res, actual, hu, -⟩ := update_spec (o := o) x s.state
      { s with lastToken := q.token, requested := q.state }
    have hact := update_actual (o := o) (x := x)
      (s := { s with lastToken := q.token, requested := q.state }) s.state hknown
    rw [hu] at hact ⊢
    rw [complete_ok hpub]
    exact ⟨.acceptComplete q res actual rfl (not_not.mp hbusy) (by omega) rfl rfl rfl fun h =>
      hact.reached (Int.le_of_eq h.symm) (RunState.target_of_match hmatch), hact.known, Ne.symm hact.known, .inr rfl⟩
  · exact ⟨.accept q rfl (not_not.mp hbusy) (by omega) rfl rfl rfl, hknown, fun h => hsame h, .inl rfl⟩

theorem resetControl_follows (hpub : 0 ≤ x.publish) (hs : s.Sane) :
    Follows none s.toControl (resetControl o x reset s).1.toControl (resetControl o x reset s).2 := by
  have hneg : ¬ x.publish < 0 := Int.not_lt.mpr hpub
  unfold resetControl
  simp only [publishResetControlStatusOrFail, andThen, Handler.skip, Handler.emit, hpub,
    if_true, hneg, if_false]
  -- whatever is answered, the requests stay as they are
  cases reset <;> dsimp only <;> split_ifs <;> exact .quiet hs rfl rfl rfl rfl

/-- **Every plain step of the filter follows the protocol.** -/
theorem step_follows {a : Action} {s' : State} {es : List Event} (ho : o.run = true)
    (hplain : a.plain = true) (hs : s.Sane) (h : (machine o).step s a = some (s', es)) :
    Follows a.request s.toControl s'.toControl es := by
  obtain ⟨rfl, rfl⟩ : (handle o a s).1 = s' ∧ (handle o a s).2 = es := by
    simpa [machine, Machine.ofHandlers, Prod.ext_iff] using h
  cases a with
  | stateChanged state x =>
    exact (stateChanged_answered state ho (by simpa [Action.plain] using hplain) hs).follows hs
  | paramChanged run reset x nested =>
    simp only [Action.plain, Bool.and_eq_true, decide_eq_true_eq, List.isEmpty_iff] at hplain
    obtain ⟨hpub, rfl⟩ := hplain
    simp only [handle, filterParamChanged, ho, Bool.true_eq_false, if_false]
    cases run with
    | absent => exact resetControl_follows hpub hs
    | invalid token res =>
      dsimp only
      split
      · rw [publishOrFail_ok hpub]
        exact ⟨.answer rfl rfl, hs.known, hs.differs, .inr rfl⟩
      · exact .quiet hs rfl rfl rfl rfl
    | request q => exact runRequest_follows hpub hs

end Filter

namespace Chain

variable {o : Options} {x : Answers} {s : State}

def Action.request : Action → Option RunRequest
  | .paramChanged (.request r) _ _ _ => some r
  | _ => none

/-- `pw_filter_set_active` only sends a message. -/
def Action.plain : Action → Bool
  | .paramChanged _ _ _ nested => nested.isEmpty
  | _ => true

theorem update_actual (state : FilterState) (hknown : s.actual ≠ .unknown) :
    Updated s.requested state (updateGraphProcessing o x state s).2.1
      (updateGraphProcessing o x state s).2.2 := by
  refine ⟨?_, fun hres ht => ?_⟩
  · unfold updateGraphProcessing
    split_ifs <;> dsimp only <;> (try split_ifs) <;> first | exact hknown | nofun
  · obtain ⟨-, ⟨rfl, hreq⟩ | ⟨rfl, hreq⟩⟩ := RunState.target_eq_some ht
    · simp only [updateGraphProcessing, hreq, true_or, or_true, and_self, if_true] at hres ⊢
      split at hres
      · exact absurd hres (by simp [eIo])
      · rename_i hfailed
        -- whatever the result of preparing the graph is
        generalize (if (graphActivate x s).2 < 0 then _ else _ : Int) = res at hres ⊢
        split_ifs at hres ⊢ with hneg
        · exact absurd hres (Int.not_le.mpr hneg)
        · rfl
    · simp only [updateGraphProcessing, hreq, reduceCtorEq, false_and, if_true, if_false] at hres ⊢
      exact if_pos hres

theorem setError_quiet (hs : s.Sane) :
    (setError o x s).1.toControl = s.toControl ∧ (setError o x s).2 = [] := by
  have hne : s.actual ≠ s.requested := hs.differs.symm
  unfold setError
  split
  · exact ⟨rfl, rfl⟩
  · simp [stateChangedWith, updateGraphProcessing, andThen, Handler.skip, hne]

theorem answer_eq {t : State} (res : Int) (hactual : actual ≠ .unknown) (ht : t.toControl = c) :
    (if res < 0 ∧ c.requested ≠ .unknown then completeRunControl res actual
      else if 0 ≤ res ∧ actual = c.requested then completeRunControl 0 actual
      else if c.requested = .unknown ∧ actual ≠ .unknown ∧ actual ≠ c.actual then
        publishRunControlResponse c.completedToken c.result actual
      else .skip) t =
      ({ t with toControl := (c.answer res actual c.result).1 },
        (c.answer res actual c.result).2) := by
  subst ht
  simp only [Control.answer, ne_eq, hactual, not_false_eq_true, true_and]
  split_ifs <;> rfl

/-- **A state change** is answered. -/
theorem stateChanged_answered (state : FilterState) (ho : o.run = true) (hs : s.Sane) :
    Answered state s.toControl (filterStateChanged o x state s).1.toControl
      (filterStateChanged o x state s).2 := by
  obtain ⟨a, res, actual, hu, -⟩ := update_spec (o := o) x state { s with filterState := state }
  have hact := update_actual (o := o) (x := x) (s := { s with filterState := state }) state hs.known
  rw [hu] at hact
  have hsane := (Control.answer_follows res s.result hs hact.known).sane
  obtain ⟨hctl, hnil⟩ := setError_quiet (o := o) (x := x) (s := ⟨_, state, a, s.processFailed⟩) hsane
  refine ⟨res, actual, s.result, hact, ?_⟩
  simp only [filterStateChanged, stateChangedWith, hu, ho, Bool.true_eq_false, if_false]
  rw [andThen, answer_eq (c := s.toControl) (t := ⟨s.toControl, state, a, s.processFailed⟩) res
    hact.known rfl]
  by_cases hres : res < 0
  · rw [if_pos hres, hctl, hnil, List.append_nil]
  · rw [if_neg hres, Handler.skip, List.append_nil]

/-- **A request** follows the protocol. -/
theorem runRequest_follows (hs : s.Sane) :
    Follows (some q) s.toControl (runRequest o x [] q s).1.toControl (runRequest o x [] q s).2 := by
  have hknown := hs.known
  simp only [runRequest, Handler.all, Handler.skip_andThen]
  split_ifs with hbusy hstale hsame hset hmatch
  · exact ⟨.answer rfl rfl, hs.known, hs.differs, .inr rfl⟩
  · exact ⟨.answer rfl rfl, hs.known, hs.differs, .inr rfl⟩
  · exact ⟨.acceptComplete q 0 s.actual rfl (not_not.mp hbusy) (by omega) rfl rfl rfl
      fun _ => hsame.symm, hknown, Ne.symm hknown, .inr rfl⟩
  · refine ⟨.acceptComplete q x.setActive s.actual rfl (not_not.mp hbusy) (by omega) rfl rfl rfl
      fun h => ?_, hknown, Ne.symm hknown, .inr rfl⟩
    omega
  · -- the filter is in the state that was asked for already
    obtain ⟨a, res, actual, hu, -⟩ := update_spec (o := o) x s.filterState
      { s with lastToken := q.token, requested := q.state }
    have hact := update_actual (o := o) (x := x)
      (s := { s with lastToken := q.token, requested := q.state }) s.filterState hknown
    rw [hu] at hact ⊢
    exact ⟨.acceptComplete q res actual rfl (not_not.mp hbusy) (by omega) rfl rfl rfl fun h =>
      hact.reached (Int.le_of_eq h.symm) (RunState.target_of_match hmatch), hact.known, Ne.symm hact.known, .inr rfl⟩
  · exact ⟨.accept q rfl (not_not.mp hbusy) (by omega) rfl rfl rfl, hknown, fun h => hsame h, .inl rfl⟩

theorem resetControl_follows (hs : s.Sane) :
    Follows none s.toControl (resetControl o x reset s).1.toControl (resetControl o x reset s).2 := by
  unfold resetControl
  -- whatever is answered, the requests stay as they are
  cases reset <;> dsimp only <;> split_ifs <;> exact .quiet hs rfl rfl rfl rfl

/-- **Every plain step of the chain follows the protocol.** -/
theorem step_follows {a : Action} {s' : State} {es : List Event} (ho : o.run = true)
    (hplain : a.plain = true) (hs : s.Sane) (h : (machine o).step s a = some (s', es)) :
    Follows a.request s.toControl s'.toControl es := by
  obtain ⟨rfl, rfl⟩ : (handle o a s).1 = s' ∧ (handle o a s).2 = es := by
    simpa [machine, Machine.ofHandlers, Prod.ext_iff] using h
  cases a with
  | stateChanged state x => exact (stateChanged_answered state ho hs).follows hs
  | processFails => exact .quiet hs rfl rfl rfl rfl
  | paramChanged run reset x nested =>
    obtain rfl : nested = [] := by simpa [Action.plain] using hplain
    simp only [handle, filterParamChanged, ho, Bool.true_eq_false, if_false]
    cases run with
    | absent => exact resetControl_follows hs
    | invalid token res =>
      dsimp only
      split
      · exact ⟨.answer rfl rfl, hs.known, hs.differs, .inr rfl⟩
      · exact .quiet hs rfl rfl rfl rfl
    | request q => exact runRequest_follows hs

end Chain

end PipeWireAO.RunControl
