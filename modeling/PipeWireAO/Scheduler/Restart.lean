import PipeWireAO.Scheduler.Quantum

/-!
# Restarts of a recalculation

When the rate of a driver or a forced quantum changes, the nodes are suspended and
`context_recalc_graph` starts again, with the target of this driver pending, for which it does not
start again. So a driver does this at most twice, whatever states the nodes come into.
-/

namespace PipeWireAO.Scheduler

open List

namespace Driver

variable (st : Settings) (d : Driver)

/-- The driver with its new targets. -/
def retarget : Driver :=
  let newRate : Bool := d.rate st ≠ d.targetRate.denom
  let newQuantum : Bool := d.quantum st ≠ d.targetQuantum % 2 ^ 32
  { d with
    followers := d.followers.map fun s => { s with moved := false }
    needResume := false
    targetRate := if newRate then ⟨1, d.rate st⟩ else d.targetRate
    forcedRate := if newRate then (st.forceRate d.followers).isSome else d.forcedRate
    targetQuantum := if newQuantum then d.quantum st else d.targetQuantum
    forcedQuantum := if newQuantum then (st.forceQuantum d.followers).isSome else d.forcedQuantum
    targetPending := d.targetPending || newRate || newQuantum }

/-- `do_reconfigure` -/
def reconfigures : Bool :=
  !d.targetPending &&
    (d.rate st ≠ d.targetRate.denom &&
        (if (st.forceRate d.followers).isSome then st.rateUpdateHard else 1 ≤ d.state) ||
      d.quantum st ≠ d.targetQuantum % 2 ^ 32 && (st.forceQuantum d.followers).isSome)

/-- A driver in the last loop of `context_recalc_graph`, and whether this starts again. -/
def recalc : Driver × Bool :=
  let t := d.retarget st
  if !d.driving || d.exported then (d, false)
  else if !t.targetPending then
    ({ t with targetRate := d.clockRate, targetQuantum := d.clockDuration }, false)
  else if d.reconfigures st then ({ t with needResume := 2 ≤ d.state && !d.pauseOnIdle }, true)
  else
    ({ t with clockRate := t.targetRate, clockDuration := t.targetQuantum, targetPending := false },
      false)

end Driver

/-- The loop over the drivers, up to a restart. The states of the drivers are given. -/
def pass (st : Settings) : (ℕ → Int) → List Driver → List Driver × Bool
  | _, [] => ([], false)
  | states, d :: ds =>
    match { d with state := states 0 }.recalc st with
    | (d, true) => (d :: ds, true)
    | (d, false) =>
      let (ds, again) := pass st (fun i => states (i + 1)) ds
      (d :: ds, again)

/-- `context_recalc_graph` with at most `n` passes: the drivers, and how often it was started again. -/
def recalcGraph (st : Settings) (states : ℕ → ℕ → Int) : ℕ → List Driver → Option (List Driver × ℕ)
  | 0, _ => none
  | n + 1, ds =>
    match pass st (states n) ds with
    | (ds, false) => some (ds, 0)
    | (ds, true) => (recalcGraph st states n ds).map fun r => (r.1, r.2 + 1)

/-- No target is pending any more, if the driver takes part in the loop. -/
def Driver.Applied (d : Driver) : Prop :=
  d.driving = true → d.exported = false → d.targetPending = false

/-! ## What a driver can still change -/

variable {st : Settings} {d d' : Driver} {again : Bool}

/-- Whether a target is not at its final value, as a number; `c` is the value of the clock. -/
def openTarget (final : Option ℕ) (t c : ℕ) (pending : Bool) : ℕ :=
  if ∀ x ∈ final, t = x ∧ (pending = true ∨ c = x) then 0 else 1

theorem openTarget_new {final : Option ℕ} {t r : ℕ} (c : ℕ) (p : Bool)
    (hr : r = t ∨ final = none ∨ final = some r) :
    openTarget final r c true + (if r = t ∨ final = none then 0 else 1) ≤ openTarget final t c p ∧
      openTarget final r r false ≤ openTarget final t c p := by
  cases final with
  | none => simp [openTarget]
  | some x =>
    simp only [openTarget, Option.mem_some_iff, forall_eq']
    grind

theorem openTarget_clock (final : Option ℕ) (t c : ℕ) :
    openTarget final c c false ≤ openTarget final t c false := by
  unfold openTarget
  grind

/-- A quantum that is forced does not depend on the rate. -/
def Settings.finalQuantum (st : Settings) (followers : List Follower) : Option ℕ :=
  (st.forceQuantum followers).map fun q => clamp q st.quantumFloor st.quantumLimit

namespace Driver

/-- How many targets of a driver can still start again. -/
def openTargets (st : Settings) (d : Driver) : ℕ :=
  openTarget (some (st.bestRate d.followers)) d.targetRate.denom d.clockRate.denom d.targetPending +
    openTarget (st.finalQuantum d.followers) (d.targetQuantum % 2 ^ 32) (d.clockDuration % 2 ^ 32)
      d.targetPending

theorem quantum_final (st : Settings) (d : Driver) : d.quantum st = d.targetQuantum % 2 ^ 32 ∨
    st.finalQuantum d.followers = none ∨ st.finalQuantum d.followers = some (d.quantum st) := by
  unfold quantum Settings.finalQuantum
  split_ifs
  · exact .inl rfl
  · refine .inr ?_
    have hclamp (v q : ℕ) : clamp v q q = q := by
      unfold clamp
      omega
    cases hq : st.forceQuantum d.followers with
    | none => exact .inl rfl
    | some q => simp [Settings.newQuantum, Settings.scaled, Settings.maxQuantum, hq, hclamp]

theorem flp2_lt {x : ℕ} (hx : x < 2 ^ 32) : flp2 x < 2 ^ 32 := by
  obtain rfl | hpos := Nat.eq_zero_or_pos x
  · decide
  · exact Nat.lt_of_le_of_lt (flp2_bounds hpos hx).1 hx

theorem quantum_lt (st : Settings) (d : Driver) : d.quantum st < 2 ^ 32 := by
  have hclamp v : clamp v st.quantumFloor st.quantumLimit < 2 ^ 32 :=
    Nat.lt_of_le_of_lt (Nat.min_le_right _ _) st.quantumLimit_lt
  unfold quantum Settings.newQuantum
  split_ifs
  · exact Nat.mod_lt _ (by decide)
  · exact flp2_lt (hclamp _)
  · exact hclamp _

theorem retarget_spec (st : Settings) (d : Driver) : (d.retarget st).targetRate.denom = d.rate st ∧
      (d.retarget st).targetQuantum % 2 ^ 32 = d.quantum st ∧
      st.bestRate (d.retarget st).followers = st.bestRate d.followers ∧
      st.finalQuantum (d.retarget st).followers = st.finalQuantum d.followers := by
  have hlt := d.quantum_lt st
  refine ⟨by grind [retarget], by grind [retarget], ?_⟩
  simp only [retarget, Settings.finalQuantum, Settings.bestRate, Settings.forceQuantum, Settings.forceRate,
    smallest, lastForced, foldl_map]
  exact ⟨rfl, trivial⟩

theorem reconfigures_changed (h : d.reconfigures st = true) : d.rate st ≠ d.targetRate.denom ∨
    d.quantum st ≠ d.targetQuantum % 2 ^ 32 ∧ st.finalQuantum d.followers ≠ none := by
  unfold reconfigures Settings.finalQuantum at *
  cases hq : st.forceQuantum d.followers <;> grind

theorem recalc_openTargets (h : d.recalc st = (d', again)) :
    d'.openTargets st + again.toNat ≤ d.openTargets st ∧ (again = false → d'.Applied) := by
  obtain ⟨hr, hq, hbest, hfinal⟩ := d.retarget_spec st
  have hrated : d.rate st = d.targetRate.denom ∨ some (st.bestRate d.followers) = none ∨
      some (st.bestRate d.followers) = some (d.rate st) := by grind [rate]
  obtain ⟨hrate, hrate'⟩ := openTarget_new d.clockRate.denom d.targetPending hrated
  obtain ⟨hquantum, hquantum'⟩ :=
    openTarget_new (d.clockDuration % 2 ^ 32) d.targetPending (d.quantum_final st)
  unfold recalc at h
  dsimp only at h
  split_ifs at h with hskip hpending hagain <;> obtain ⟨rfl, rfl⟩ := Prod.mk.inj h
  · refine ⟨Nat.le_refl _, fun _ hdriving hexported => ?_⟩
    simp [hdriving, hexported] at hskip
  · -- nothing has changed
    have hnot : (d.retarget st).targetPending = false := by simpa using hpending
    have hold : d.targetPending = false := by
      simp only [retarget, Bool.or_eq_false_iff] at hnot
      exact hnot.1.1
    simp only [openTargets, hbest, hfinal, hnot, hold, Bool.toNat_false, Nat.add_zero]
    exact ⟨Nat.add_le_add (openTarget_clock _ _ _) (openTarget_clock _ _ _), fun _ _ _ => rfl⟩
  · have hnew : (d.retarget st).targetPending = true := by simpa using hpending
    simp only [openTargets, hbest, hfinal, hnew, hr, hq]
    refine ⟨?_, nofun⟩
    change openTarget _ _ d.clockRate.denom true + openTarget _ _ (d.clockDuration % 2 ^ 32) true + 1 ≤ _
    have hchanged := reconfigures_changed hagain
    grind
  · simp only [openTargets, hbest, hfinal, hr, hq, Bool.toNat_false, Nat.add_zero]
    exact ⟨Nat.add_le_add hrate' hquantum', fun _ _ _ => rfl⟩

end Driver

/-! ## The whole recalculation -/

/-- The targets of all drivers that can still start again. -/
def openTotal (st : Settings) (ds : List Driver) : ℕ := (ds.map (Driver.openTargets st)).sum

theorem pass_openTotal {ds ds' : List Driver} {states : ℕ → Int} {again : Bool}
    (h : pass st states ds = (ds', again)) : openTotal st ds' + again.toNat ≤ openTotal st ds ∧
      (again = false → ∀ d ∈ ds', d.Applied) := by
  induction ds generalizing ds' states again with
  | nil =>
    cases h
    exact ⟨Nat.le_refl _, nofun⟩
  | cons d ds ih =>
    rw [pass] at h
    rcases hd : { d with state := states 0 }.recalc st with ⟨d', _ | _⟩
    · rcases hds : pass st (fun i => states (i + 1)) ds with ⟨ds₁, again₁⟩
      rw [hd, hds] at h
      cases h
      obtain ⟨hopen, hdone⟩ := Driver.recalc_openTargets hd
      obtain ⟨hrest, hall⟩ := ih hds
      refine ⟨?_, fun hagain => forall_mem_cons.mpr ⟨hdone rfl, hall hagain⟩⟩
      change d'.openTargets st ≤ d.openTargets st at hopen
      simp only [openTotal, map_cons, sum_cons] at hrest ⊢
      omega
    · rw [hd] at h
      cases h
      have hopen : d'.openTargets st + 1 ≤ d.openTargets st := (Driver.recalc_openTargets hd).1
      refine ⟨?_, nofun⟩
      simp only [openTotal, map_cons, sum_cons, Bool.toNat_true]
      omega

theorem recalcGraph_spec (states : ℕ → ℕ → Int) {n : ℕ} {ds : List Driver}
    (hn : openTotal st ds < n) : ∃ ds' k, recalcGraph st states n ds = some (ds', k) ∧
      k ≤ openTotal st ds ∧ ∀ d ∈ ds', d.Applied := by
  induction n generalizing ds with
  | zero => omega
  | succ n ih =>
    rcases hp : pass st (states n) ds with ⟨ds₁, _ | _⟩
    · rw [recalcGraph, hp]
      exact ⟨ds₁, 0, rfl, Nat.zero_le _, (pass_openTotal hp).2 rfl⟩
    · have hless := (pass_openTotal hp).1
      rw [Bool.toNat_true] at hless
      obtain ⟨ds', k, hrun, hk, hdone⟩ := @ih ds₁ (by omega)
      rw [recalcGraph, hp]
      dsimp only
      rw [hrun]
      exact ⟨ds', k + 1, rfl, by omega, hdone⟩

theorem openTotal_le (st : Settings) (ds : List Driver) : openTotal st ds ≤ 2 * ds.length := by
  induction ds with
  | nil => exact Nat.le_refl 0
  | cons d ds ih =>
    have hle : d.openTargets st ≤ 2 := by
      unfold Driver.openTargets openTarget
      grind
    simp only [openTotal, map_cons, sum_cons, length_cons] at ih ⊢
    omega

/-- **A recalculation ends.** Whatever states the nodes come into, it is started again at most twice
for each driver, and then no driver that takes part has a pending target. -/
theorem recalculation_ends (st : Settings) (states : ℕ → ℕ → Int) (ds : List Driver) :
    ∃ ds' k, recalcGraph st states (2 * ds.length + 1) ds = some (ds', k) ∧ k ≤ 2 * ds.length ∧
      ∀ d ∈ ds', d.driving = true → d.exported = false → d.targetPending = false := by
  have htotal := openTotal_le st ds
  obtain ⟨ds', k, hrun, hk, hdone⟩ := recalcGraph_spec states (Nat.lt_succ_of_le htotal)
  exact ⟨ds', k, hrun, by omega, hdone⟩

theorem pending_kept : recalcGraph (standard false) (fun _ _ => 3) 3
    [{ shortLatency 48000 with driving := false, targetPending := true }] =
      some ([{ shortLatency 48000 with driving := false, targetPending := true }], 0) := rfl

end PipeWireAO.Scheduler
