import PipeWireAO.Foundation.Machine
import PipeWireAO.Node.Activation

/-!
# Arming and completion of a row-transport cycle

`node_ready` starts a cycle of the driver: it arms the targets that follow this driver and are not
INACTIVE, and skips the others. A row-transport driver starts the next cycle only when
`pw_impl_node_reliable_cycle_complete` says that the last one is over. The two walks ask different
questions: arming looks at the activation of the target, completion at its `active` flag.
-/

namespace PipeWireAO.Node.Completion

open Foundation List

/-! ## Starting a cycle -/

/-- What `node_ready` reads of a row-transport driver. `rowReturn` holds if every active
remote target has `pipewireao.row-transport-return`; `borrowed` and `sourceRow` are
`driver_has_borrowed_row` and `driver_has_source_row`. -/
structure State where
  act : ℕ → Activation
  targets : List Target
  (prepared rowReturn inflight releasePending retryPending retryDispatched borrowed : Bool)
  (sourceRow : Bool)

/-- The completion test of the driver. -/
def complete (d : ℕ) (act : ℕ → Activation) (targets : List Target) : Bool :=
  reliableCycleComplete (fun i => (act i).status) d targets

/-- An unfinished driver is first run once to recover (`XRUN_RECOVER`), which leaves it FINISHED. -/
def recoverDriver (d : ℕ) (act : ℕ → Activation) : ℕ → Activation :=
  setActivation act d { act d with status := .finished }

/-- The activations after arming in `node_ready`: the targets are armed, then the driver gets its
count. -/
def startCycle (d : ℕ) (act : ℕ → Activation) (targets : List Target) : ℕ → Activation :=
  let act' := armTargets d (recoverDriver d act) targets
  setActivation act' d { act' d with pending := armedPending d (recoverDriver d act) targets }

/-- `node_ready` of a row-transport driver that is its own driver. `scan` is the outcome of
`flush_reliable_input_returns`, which only acts on a complete cycle: whether a row is still borrowed
and a release still pending. -/
def nodeReady (d : ℕ) (scan : Bool × Bool) (s : State) : Int × State :=
  if !s.prepared then (-eIo, s)
  else if !s.rowReturn then (-eNotSup, s)
  else
    let retry (s : State) : Int × State :=
      (-eBusy, { s with retryDispatched := false, retryPending := true })
    let start (s : State) : Int × State :=
      (0, { s with
        act := startCycle d s.act s.targets
        retryDispatched := false
        inflight := true })
    if s.inflight then
      let s' := if complete d s.act s.targets then
        { s with borrowed := scan.1, releasePending := scan.2 } else s
      if !complete d s'.act s'.targets || s'.releasePending then retry s'
      -- a retry may process retained input, but cannot publish over a borrowed row
      else if s'.borrowed && (!s'.retryDispatched || s'.sourceRow) then retry s'
      else start s'
    else start s

/-- Answers of a series of `node_ready` calls with nothing else happening between them. -/
def readyAnswers (d : ℕ) : State → List (Bool × Bool) → List Int
  | _, [] => []
  | s, scan :: scans => (nodeReady d scan s).1 :: readyAnswers d (nodeReady d scan s).2 scans

/-! ## The nodes during a cycle -/

/-- The steps that change the status of a node while the cycle of driver `d` runs: it is
triggered, wakes up and finishes; it leaves the graph (`do_node_unprepare`) or enters it
(`do_node_prepare`); or the driver it follows arms it for another cycle. -/
inductive NodeStep
  | trigger (i : ℕ)
  | wake (i : ℕ)
  | finish (i : ℕ)
  | leave (i : ℕ)
  | enter (i : ℕ)
  | armOther (i : ℕ)
deriving DecidableEq

/-- The activations with another status for node `i`. -/
def setStatus (act : ℕ → Activation) (i : ℕ) (st : ActivationStatus) : ℕ → Activation :=
  setActivation act i { act i with status := st }

/-- The compare-and-swap of the status of node `i`. -/
def casStatus (act : ℕ → Activation) (i : ℕ) (old new : ActivationStatus) :
    Option ((ℕ → Activation) × List Unit) :=
  if (act i).status = old then some (setStatus act i new, []) else none

def nodeStep (d : ℕ) (act : ℕ → Activation) : NodeStep → Option ((ℕ → Activation) × List Unit)
  | .trigger i => casStatus act i .notTriggered .triggered
  | .wake i => casStatus act i .triggered .awake
  | .finish i => casStatus act i .awake .finished
  | .leave i => some (setStatus act i .inactive, [])
  | .enter i => casStatus act i .inactive .finished
  | .armOther i =>
    if (act i).activeDriverId ≠ d ∧ (act i).status ≠ .inactive then
      some (setStatus act i .notTriggered, [])
    else none

/-- The cycle of driver `d`. -/
def cycle (d : ℕ) : Machine (ℕ → Activation) NodeStep Unit where
  step := nodeStep d

/-- Steps in which no node leaves the graph. -/
def stays (_ : ℕ → Activation) : NodeStep → Bool
  | .leave _ => false
  | _ => true

/-- `node_ready`, called in the state `act`, arms this target. -/
def arms (d : ℕ) (act : ℕ → Activation) (t : Target) : Bool :=
  joins d (recoverDriver d act t.id)

/-- The node has finished the cycle or left the graph. -/
def Ended (a : Activation) : Prop := a.status = .finished ∨ a.status = .inactive

instance (a : Activation) : Decidable (Ended a) := inferInstanceAs (Decidable (_ ∨ _))

/-- **The driver and the active targets it armed are done**: each has finished or left. `act₀`
are the activations at the call of `node_ready`, `act` those now. -/
def ArmedDone (d : ℕ) (act₀ : ℕ → Activation) (targets : List Target)
    (act : ℕ → Activation) : Prop :=
  Ended (act d) ∧ ∀ t ∈ targets, t.active = true → arms d act₀ t = true → Ended (act t.id)

variable {d i : ℕ} {act₀ act act' : ℕ → Activation} {targets : List Target} {es tr : List Unit}
  {s : State} {t : Target}

theorem complete_iff : complete d act targets = true ↔ (act d).status = .finished ∧
      ∀ t ∈ targets, t.active = true → (act t.id).status = .finished :=
  reliableCycleComplete_iff

@[simp] theorem setStatus_self (act : ℕ → Activation) (i : ℕ) (st : ActivationStatus) :
    (setStatus act i st i).status = st := by
  simp [setStatus]

@[simp] theorem setStatus_ne (act : ℕ → Activation) {i j : ℕ} (st : ActivationStatus)
    (h : j ≠ i) : setStatus act i st j = act j := by
  simp [setStatus, h]

@[simp] theorem recoverDriver_self (d : ℕ) (act : ℕ → Activation) :
    (recoverDriver d act d).status = .finished := by
  simp [recoverDriver]

theorem startCycle_status (d : ℕ) (act : ℕ → Activation) (targets : List Target) (i : ℕ) :
    (startCycle d act targets i).status =
      if i ∈ targets.map Target.id ∧ joins d (recoverDriver d act i) = true then .notTriggered
      else (recoverDriver d act i).status := by
  have key : (startCycle d act targets i).status =
      (armTargets d (recoverDriver d act) targets i).status := by
    by_cases h : i = d
    · subst h
      simp [startCycle]
    · simp [startCycle, h]
  rw [key, armTargets_apply]
  by_cases hi : i ∈ targets.map Target.id
  · simp [hi, armActivation]
  · simp [hi]

/-! ### A cycle in which every active target is armed -/

/-- The driver and the armed targets are not INACTIVE. -/
def Present (d : ℕ) (act₀ : ℕ → Activation) (targets : List Target) (act : ℕ → Activation) :
    Prop :=
  (act d).status ≠ .inactive ∧
    ∀ t ∈ targets, arms d act₀ t = true → (act t.id).status ≠ .inactive

theorem present_start (d : ℕ) (act₀ : ℕ → Activation) (targets : List Target) :
    Present d act₀ targets (startCycle d act₀ targets) := by
  refine ⟨?_, fun t ht ha => ?_⟩
  · rw [startCycle_status]
    split <;> simp
  · have hm : t.id ∈ targets.map Target.id := mem_map_of_mem ht
    rw [startCycle_status, if_pos ⟨hm, ha⟩]
    simp

theorem nodeStep_ne_inactive {a : NodeStep} (ha : stays act a = true)
    (h : nodeStep d act a = some (act', es)) (hi : (act i).status ≠ .inactive) :
    (act' i).status ≠ .inactive := by
  have key : ∀ j st, st ≠ .inactive → (setStatus act j st i).status ≠ .inactive := by
    intro j st hst
    by_cases hij : i = j
    · subst hij
      simpa using hst
    · simpa [hij] using hi
  cases a with
  | leave => cases ha
  | trigger | wake | finish | enter =>
    simp only [nodeStep, casStatus] at h
    split_ifs at h
    cases h
    exact key _ _ (by simp)
  | armOther =>
    simp only [nodeStep] at h
    split_ifs at h
    cases h
    exact key _ _ (by simp)

theorem present_reaches (h : ((cycle d).restrict stays).Reaches (startCycle d act₀ targets) act tr) :
    Present d act₀ targets act := by
  refine h.invariant (I := Present d act₀ targets) (present_start d act₀ targets) ?_
  rintro act act' es a ⟨hd, ht⟩ hs
  obtain ⟨ha, hs⟩ := Machine.restrict_step.mp hs
  exact ⟨nodeStep_ne_inactive ha hs hd, fun t hm harm => nodeStep_ne_inactive ha hs (ht t hm harm)⟩

theorem complete_iff_of_present (hp : Present d act₀ targets act)
    (hall : ∀ t ∈ targets, t.active = true → t.id = d ∨ arms d act₀ t = true) :
    complete d act targets = true ↔ ArmedDone d act₀ targets act := by
  rw [complete_iff]
  constructor
  · rintro ⟨hd, ht⟩
    exact ⟨.inl hd, fun t hm ha _ => .inl (ht t hm ha)⟩
  · rintro ⟨hd, ht⟩
    have hd' := hd.resolve_right hp.1
    refine ⟨hd', fun t hm ha => ?_⟩
    obtain rfl | harm := hall t hm ha
    · exact hd'
    · exact (ht t hm ha harm).resolve_right (hp.2 t hm harm)

/-! ### A cycle that skips an active target -/

theorem exists_finish (d : ℕ) (act : ℕ → Activation) (hi : (act i).status ≠ .inactive) :
    ∃ act', ((cycle d).restrict stays).Reaches act act' [] ∧ (act' i).status = .finished ∧
      ∀ j, j ≠ i → act' j = act j := by
  have step : ∀ (act : ℕ → Activation) (a : NodeStep) (act' : ℕ → Activation),
      stays act a = true → nodeStep d act a = some (act', []) →
      ((cycle d).restrict stays).Reaches act act' [] := fun act a act' ha h =>
    .snoc (a := a) .refl (Machine.restrict_step.mpr ⟨ha, h⟩)
  -- each status but INACTIVE leads to the next one
  have finish : ∀ act : ℕ → Activation, (act i).status = .awake →
      ((cycle d).restrict stays).Reaches act (setStatus act i .finished) [] := fun act h =>
    step act (.finish i) _ rfl (by simp [nodeStep, casStatus, h])
  have wake : ∀ act : ℕ → Activation, (act i).status = .triggered →
      ((cycle d).restrict stays).Reaches act (setStatus (setStatus act i .awake) i .finished) [] :=
    fun act h => (step act (.wake i) _ rfl (by simp [nodeStep, casStatus, h])).trans
      (finish _ (by simp))
  cases h : (act i).status with
  | inactive => exact absurd h hi
  | finished => exact ⟨act, .refl, h, fun _ _ => rfl⟩
  | awake => exact ⟨_, finish act h, by simp, fun j hj => by simp [hj]⟩
  | triggered => exact ⟨_, wake act h, by simp, fun j hj => by simp [hj]⟩
  | notTriggered =>
    refine ⟨_, (step act (.trigger i) (setStatus act i .triggered) rfl
      (by simp [nodeStep, casStatus, h])).trans (wake _ (by simp)), by simp, fun j hj => by simp [hj]⟩

theorem exists_finish_all (d : ℕ) (ids : List ℕ) (act : ℕ → Activation)
    (hi : ∀ i ∈ ids, (act i).status ≠ .inactive) :
    ∃ act', ((cycle d).restrict stays).Reaches act act' [] ∧
      (∀ i ∈ ids, (act' i).status = .finished) ∧ ∀ j, j ∉ ids → act' j = act j := by
  induction ids generalizing act with
  | nil => exact ⟨act, .refl, by simp, fun _ _ => rfl⟩
  | cons i ids ih =>
    obtain ⟨act₁, hr₁, hf₁, ho₁⟩ := exists_finish d act (hi i (by simp))
    obtain ⟨act₂, hr₂, hf₂, ho₂⟩ := ih act₁ fun j hj => by
      by_cases hji : j = i
      · simp [hji, hf₁]
      · rw [ho₁ j hji]
        exact hi j (by simp [hj])
    refine ⟨act₂, hr₁.trans hr₂, fun j hj => ?_, fun j hj => ?_⟩
    · by_cases hm : j ∈ ids
      · exact hf₂ j hm
      · obtain rfl | hj := mem_cons.mp hj
        · rw [ho₂ _ hm, hf₁]
        · exact absurd hj hm
    · simp only [mem_cons, not_or] at hj
      rw [ho₂ j hj.2, ho₁ j hj.1]

theorem startCycle_activeDriverId (d : ℕ) (act : ℕ → Activation) (targets : List Target) (i : ℕ) :
    (startCycle d act targets i).activeDriverId = (act i).activeDriverId := by
  have hr : (recoverDriver d act i).activeDriverId = (act i).activeDriverId := by
    by_cases h : i = d
    · subst h
      simp [recoverDriver]
    · simp [recoverDriver, h]
  have ha : (armTargets d (recoverDriver d act) targets i).activeDriverId =
      (act i).activeDriverId := by
    rw [armTargets_apply]
    split <;> simp [armActivation, hr]
  by_cases h : i = d
  · subst h
    simpa [startCycle] using ha
  · simpa [startCycle, h] using ha

theorem exists_unfinished (targets : List Target) (hd : t.id ≠ d) (ht : arms d act₀ t = false) :
    ∃ act, ((cycle d).restrict stays).Reaches (startCycle d act₀ targets) act [] ∧
      (act t.id).status ≠ .finished ∧ ∀ j, j ≠ t.id → act j = startCycle d act₀ targets j := by
  have hst : (startCycle d act₀ targets t.id).status = (act₀ t.id).status := by
    rw [startCycle_status, if_neg (by simp only [arms] at ht; simp [ht])]
    simp [recoverDriver, hd]
  by_cases hi : (act₀ t.id).status = .inactive
  · exact ⟨_, .refl, by simp [hst, hi], fun _ _ => rfl⟩
  · -- the target waits for another driver, which may arm it
    have ho : (act₀ t.id).activeDriverId ≠ d := by
      simpa [arms, joins, recoverDriver, hd, hi] using ht
    refine ⟨setStatus (startCycle d act₀ targets) t.id .notTriggered,
      .snoc (a := .armOther t.id) .refl (Machine.restrict_step.mpr ⟨rfl, ?_⟩), by simp,
      fun j hj => by simp [hj]⟩
    simp [cycle, nodeStep, startCycle_activeDriverId, hst, ho, hi]

/-- **A skipped target keeps the driver from completing**: the driver and every target it
armed can finish while the completion test still fails. -/
theorem exists_stall (hm : t ∈ targets) (ha : t.active = true) (hd : t.id ≠ d)
    (ht : arms d act₀ t = false) :
    ∃ act, ((cycle d).restrict stays).Reaches (startCycle d act₀ targets) act [] ∧
      ArmedDone d act₀ targets act ∧ complete d act targets = false := by
  obtain ⟨act₁, hr₁, hu, ho₁⟩ := exists_unfinished targets hd ht
  have hp := present_start d act₀ targets
  set ids := d :: (targets.filter (arms d act₀)).map Target.id with hids
  have harm : ∀ i ∈ ids, i = d ∨ ∃ u ∈ targets, arms d act₀ u = true ∧ u.id = i := by
    intro i hi
    simpa [hids, and_assoc] using hi
  have hne : t.id ∉ ids := by
    intro hi
    obtain h | ⟨u, -, hu, he⟩ := harm _ hi
    · exact hd h
    · simp only [arms] at ht hu
      rw [he, ht] at hu
      cases hu
  obtain ⟨act, hr, hf, ho⟩ := exists_finish_all d ids act₁ fun i hi => by
    have hit : i ≠ t.id := fun h => hne (h ▸ hi)
    rw [ho₁ i hit]
    obtain rfl | ⟨u, hum, hu, rfl⟩ := harm i hi
    · exact hp.1
    · exact hp.2 u hum hu
  refine ⟨act, hr₁.trans hr, ⟨.inl (hf d (by simp [hids])), fun u hum _ hu => .inl (hf _ ?_)⟩, ?_⟩
  · simp only [hids, mem_cons, mem_map, mem_filter]
    exact .inr ⟨u, ⟨hum, hu⟩, rfl⟩
  · refine Bool.eq_false_iff.mpr fun hc => hu ?_
    rw [← ho _ hne]
    exact (complete_iff.mp hc).2 t hm ha

/-! ## When completion agrees with arming -/

theorem nodeReady_of_complete (hp : s.prepared = true) (hr : s.rowReturn = true)
    (hc : complete d s.act s.targets = true) : (nodeReady d (false, false) s).1 = 0 := by
  unfold nodeReady
  split
  · simp_all
  split
  · simp_all
  split <;> simp [hc]

theorem nodeReady_of_not_complete (scan : Bool × Bool) (hp : s.prepared = true)
    (hr : s.rowReturn = true) (hi : s.inflight = true) (hc : complete d s.act s.targets = false) :
    nodeReady d scan s = (-eBusy, { s with retryDispatched := false, retryPending := true }) := by
  simp [nodeReady, hp, hr, hi, hc]

theorem readyAnswers_of_not_complete (hp : s.prepared = true) (hr : s.rowReturn = true)
    (hi : s.inflight = true) (hc : complete d s.act s.targets = false)
    (scans : List (Bool × Bool)) :
    readyAnswers d s scans = List.replicate scans.length (-eBusy) := by
  induction scans generalizing s with
  | nil => rfl
  | cons scan scans ih =>
    rw [readyAnswers, nodeReady_of_not_complete scan hp hr hi hc, length_cons,
      replicate_succ]
    exact congrArg _ (ih hp hr hi hc)

/-- **When completion agrees with arming.** In the runs of a cycle in which no node leaves, the
completion test says that the driver and the armed targets are done if and only if `node_ready`
skipped no active target. In any run, the two agree exactly if, once those are done, none of them is
INACTIVE and every active target skipped is FINISHED. -/
theorem complete_iff_armedDone_iff (d : ℕ) (act₀ : ℕ → Activation) (targets : List Target) :
    ((∀ {act tr}, ((cycle d).restrict stays).Reaches (startCycle d act₀ targets) act tr →
        (complete d act targets = true ↔ ArmedDone d act₀ targets act)) ↔
      ∀ t ∈ targets, t.active = true → t.id = d ∨ arms d act₀ t = true) ∧
    ((∀ t ∈ targets, t.active = true → t.id = d ∨ arms d act₀ t = true) →
      ∀ {s : State} {tr}, ((cycle d).restrict stays).Reaches (startCycle d act₀ targets) s.act tr →
        s.targets = targets → s.prepared = true → s.rowReturn = true →
        ArmedDone d act₀ targets s.act → (nodeReady d (false, false) s).1 = 0) ∧
    (∀ {act tr}, (cycle d).Reaches (startCycle d act₀ targets) act tr →
      ((complete d act targets = true ↔ ArmedDone d act₀ targets act) ↔
        (ArmedDone d act₀ targets act → (act d).status ≠ .inactive ∧
          ∀ t ∈ targets, t.active = true →
            if arms d act₀ t = true then (act t.id).status ≠ .inactive
            else (act t.id).status = .finished))) := by
  refine ⟨⟨fun h t hm ha => ?_, fun hall _ _ hr => ?_⟩, fun hall s tr hr hts hp hrr hd => ?_,
    fun {act tr} _ => ⟨fun h hd => ?_, fun h => ?_⟩⟩
  · by_contra hc
    obtain ⟨hd, ht⟩ := not_or.mp hc
    obtain ⟨act, hr, hdone, hnc⟩ := exists_stall hm ha hd (by simpa using ht)
    simp [(h hr).mpr hdone] at hnc
  · exact complete_iff_of_present (present_reaches hr) hall
  · subst hts
    exact nodeReady_of_complete hp hrr ((complete_iff_of_present (present_reaches hr) hall).mpr hd)
  · obtain ⟨hdf, ht⟩ := complete_iff.mp (h.mpr hd)
    refine ⟨by simp [hdf], fun t hm ha => ?_⟩
    split <;> simp [ht t hm ha]
  · rw [complete_iff]
    refine ⟨fun ⟨hdf, ht⟩ => ⟨.inl hdf, fun t hm ha _ => .inl (ht t hm ha)⟩, fun hd => ?_⟩
    obtain ⟨hdi, ht⟩ := h hd
    refine ⟨hd.1.resolve_right hdi, fun t hm ha => ?_⟩
    have := ht t hm ha
    split at this
    · rename_i harm
      exact (hd.2 t hm ha harm).resolve_right this
    · exact this

/-- A driver (node 0) with itself and a paused follower (node 1) in its target list. -/
def pausedFollower : State where
  act i := ⟨if i = 0 then .finished else .inactive, 1, 0, 0, 0, false⟩
  targets := [⟨0, true⟩, ⟨1, true⟩]
  prepared := true
  rowReturn := true
  inflight := false
  releasePending := false
  retryPending := false
  retryDispatched := false
  borrowed := false
  sourceRow := true

/-- **A paused follower stalls the source**: `node_ready` skips it and arms the driver, the
driver finishes, and from then on every `node_ready` answers `-EBUSY`. -/
theorem pausedFollower_stalls : (nodeReady 0 (false, false) pausedFollower).1 = 0 ∧
    ∃ act, ((cycle 0).restrict stays).Reaches
        (nodeReady 0 (false, false) pausedFollower).2.act act [] ∧
      ArmedDone 0 pausedFollower.act pausedFollower.targets act ∧
      complete 0 act pausedFollower.targets = false ∧
      ∀ scans, readyAnswers 0 { (nodeReady 0 (false, false) pausedFollower).2 with act := act } scans =
        List.replicate scans.length (-eBusy) := by
  refine ⟨rfl, _, .of_run [.trigger 0, .wake 0, .finish 0] rfl, ?_, rfl,
    readyAnswers_of_not_complete rfl rfl rfl rfl⟩
  refine ⟨.inl rfl, fun t hm _ ha => .inl ?_⟩
  simp only [pausedFollower, mem_cons, not_mem_nil, or_false] at hm
  obtain rfl | rfl := hm
  · rfl
  · cases ha

end PipeWireAO.Node.Completion
