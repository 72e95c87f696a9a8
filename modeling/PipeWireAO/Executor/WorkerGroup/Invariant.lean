import Mathlib.Data.Nat.Basic
import Mathlib.Order.Basic
import PipeWireAO.Executor.WorkerGroup.Slot

/-!
# The worker group follows its contract

The place of the coordinator says in which phase every slot is, and how far the call that is going
on has come. This invariant relates the group to the contract of a fork-join executor; there is one
lemma for each place of the coordinator, and one for the helpers.
-/

namespace PipeWireAO.Executor.WorkerGroup

open Foundation List Function

variable {T D : Type*} {slots : ℕ → Slot T D} {d : ℕ → Option Int}

/-- The phase of slot `i` while the command `c` is published, in slot `j` with store `k` next:
the command is `sent` in the slots before. -/
def publishing (created : ℕ) (sent : Phase T D) (c : Command T D) (j : ℕ) (k : Store) (i : ℕ) :
    Phase T D :=
  if i < j then sent else if i = j ∧ i < created then .writing c k
  else if i < created then .ready else .absent

/-- The phase of slot `i` when `created` helpers were created. -/
def phase (created : ℕ) (coord : Coord T D) (i : ℕ) : Phase T D :=
  -- a slot that has nothing to do with what is going on
  let rest : Phase T D := if i < created then .ready else .absent
  match coord with
  | .idle => rest
  | .create _ => if i < created then .starting else .absent
  | .await j | .stopAwait _ j =>
    if i < j then .ready else if i < created then .starting else .absent
  | .stopPublish _ j k => publishing created .stopping stopCommand j k i
  | .stopJoin _ j _ => if j ≤ i ∧ i < created then .stopping else .absent
  | .publish c j k => publishing created (.out c) c j k i
  | .lane0 c => if i + 1 < c.lanes then .out c else rest
  | .collect c j _ => if i < j then .collected else if i + 1 < c.lanes then .out c else rest
  | .readStatus c j _ =>
    if i < j then .collected else if i = j then .completed
    else if i + 1 < c.lanes then .out c else rest

/-- The status with which a lane has executed the call that is going on. -/
def doneOn (lane : ℕ) : Group T D → Option Int
  | .running _ done => done lane
  | _ => none

/-- `c` is the command of the last call, and its lanes have helpers. -/
structure IsCall (n created : ℕ) (active : Bool) (calls : ℕ) (c : Command T D) : Prop where
  task : c.task.isSome = true
  pos : 0 < c.lanes
  le : c.lanes ≤ n + 1
  call : c.call + 1 = calls
  active : active = true
  created : created = n

/-- The status of the lanes before lane `j`. -/
def resultBefore (done : ℕ → Option Int) (j : ℕ) : Int :=
  firstNonzero ((List.range j).map fun lane => (done lane).getD 0)

/-- What the coordinator knows, and its caller's view of the group. -/
def CoordOk (n created : ℕ) (active : Bool) (calls : ℕ) (q : Group T D) : Coord T D → Prop
  | .idle => q = .idle calls ∧ created = if active then n else 0
  | .create j => q = .idle calls ∧ active = false ∧ created = j ∧ j ≤ n
  | .await j => q = .idle calls ∧ active = false ∧ created = n ∧ j ≤ n
  | .stopAwait _ j => q = .stopping calls ∧ active = false ∧ j ≤ created ∧ created ≤ n
  | .stopPublish _ j k =>
    q = .stopping calls ∧ active = false ∧ j ≤ created ∧ created ≤ n ∧ (j = created → k = .rearm)
  | .stopJoin _ j _ => q = .stopping calls ∧ active = false ∧ j ≤ created ∧ created ≤ n
  | .publish c j k =>
    ∃ done, q = .running c done ∧ IsCall n created active calls c ∧ done 0 = none ∧
      j + 1 ≤ c.lanes ∧ (j + 1 = c.lanes → k = .rearm)
  | .lane0 c => ∃ done, q = .running c done ∧ IsCall n created active calls c ∧ done 0 = none
  | .collect c j result =>
    ∃ done, q = .running c done ∧ IsCall n created active calls c ∧ (done 0).isSome = true ∧
      j + 1 ≤ c.lanes ∧ result = resultBefore done (j + 1)
  | .readStatus c j result =>
    ∃ done, q = .running c done ∧ IsCall n created active calls c ∧ (done 0).isSome = true ∧
      j + 1 < c.lanes ∧ result = resultBefore done (j + 1)

/-- **The invariant**: every slot is in its phase, and the coordinator agrees with the caller's
view of the group. -/
structure Inv (n : ℕ) (s : State T D) (q : Group T D) : Prop where
  slots : ∀ i, SlotOk (s.slots i) (doneOn (i + 1) q) (phase s.created s.coord i)
  coord : CoordOk n s.created s.active s.calls q s.coord

theorem Inv.when {n : ℕ} {s : State T D} {q : Group T D} {c : Coord T D} (hi : Inv n s q)
    (hc : s.coord = c) : (∀ i, SlotOk (s.slots i) (doneOn (i + 1) q) (phase s.created c i)) ∧
      CoordOk n s.created s.active s.calls q c :=
  hc ▸ ⟨hi.slots, hi.coord⟩

theorem inv_init (n : ℕ) : Inv n (init : State T D) (.idle 0) where
  slots _ := ⟨rfl, rfl⟩
  coord := ⟨rfl, rfl⟩

theorem slotOk_update {j : ℕ} {slot : Slot T D} {p : ℕ → Phase T D} (hj : SlotOk slot (d j) (p j))
    (h : ∀ i, i ≠ j → SlotOk (slots i) (d i) (p i)) (i : ℕ) :
    SlotOk (update slots j slot i) (d i) (p i) := by
  by_cases hi : i = j
  · subst hi
    rwa [update_self]
  · rw [update_of_ne hi]
    exact h i hi

variable {failed st : Option Int} {k : Store} {result : Int} {c : Command T D}
  {done : ℕ → Option Int}

section Step

variable {n j created : ℕ} {s s' : State T D} {q : Group T D} {es : List (Event T D)} {res : Int}

theorem awaited {slots : ℕ → Slot T D} {created : ℕ}
    (hslots : ∀ i, SlotOk (slots i) none (phase created (.await j : Coord T D) i))
    (hj : j < created) (hs : (slots j).started = true) (i : ℕ) :
    SlotOk (slots i) none (phase created (.await (j + 1) : Coord T D) i) := by
  have hi := hslots i
  simp only [phase] at hi ⊢
  -- the slots before `j` were awaited earlier, and those after it keep their phase
  rcases lt_trichotomy i j with hlt | rfl | hgt
  · rw [if_pos hlt] at hi
    rwa [if_pos (by omega)]
  · rw [if_neg (lt_irrefl i), if_pos hj] at hi
    rw [if_pos (Nat.lt_succ_self i)]
    exact hi.ready_of_starting hs rfl
  · rw [if_neg (by omega)] at hi
    rwa [if_neg (by omega)]

theorem publishing_store {sent : Phase T D}
    (hslots : ∀ i, SlotOk (slots i) (d i) (publishing created sent c j k i)) (hj : j < created)
    (hsent : ∀ {s : Slot T D} {d}, SlotOk s d (.writing c .commit) →
      SlotOk (s.publish c .commit) d sent) (i : ℕ) :
    SlotOk (update slots j ((slots j).publish c k) i) (d i) (match k.succ with
      | some k' => publishing created sent c j k' i
      | none => publishing created sent c (j + 1) .rearm i) := by
  have hwrite : SlotOk (slots j) (d j) (.writing c k) := by
    simpa [publishing, hj] using hslots j
  cases hk : k.succ with
  | some k' =>
    refine slotOk_update (p := publishing created sent c j k') ?_ ?_ i
    · simpa [publishing, hj] using hwrite.publish hk
    · intro i hi
      simpa [publishing, hi] using hslots i
  | none =>
    obtain rfl : k = .commit := by cases k <;> simp_all [Store.succ]
    refine slotOk_update (p := publishing created sent c (j + 1) .rearm) ?_ ?_ i
    · simpa [publishing] using hsent hwrite
    · intro i hi
      have hi' := hslots i
      -- a slot that is ready may be written
      simp only [publishing] at hi' ⊢
      split_ifs at hi' ⊢ <;> first | omega | exact hi'

theorem doneOn_update {lane l : ℕ} (h : l ≠ lane) :
    doneOn l (.running c (update done lane st)) = doneOn l (.running c done) :=
  update_of_ne h _ _

theorem resultBefore_succ (done : ℕ → Option Int) (j : ℕ) : resultBefore done (j + 1) =
      if resultBefore done j = 0 then (done j).getD 0 else resultBefore done j := by
  simp only [resultBefore, range_succ, map_append, map_singleton]
  exact firstNonzero_concat _ _

theorem resultBefore_update {lane : ℕ} (h : j ≤ lane) :
    resultBefore (update done lane st) j = resultBefore done j := by
  unfold resultBefore
  congr 1
  apply map_congr_left
  intro l hl
  have hl : l < j := mem_range.mp hl
  rw [update_of_ne (by omega)]

theorem coordOk_out {calls i : ℕ} {active : Bool} {coord : Coord T D} (st : Int)
    (h : CoordOk n created active calls q coord) (hph : phase created coord i = .out c) :
    ∃ done, q = .running c done ∧ i + 1 < c.lanes ∧
      CoordOk n created active calls (.running c (update done (i + 1) (some st))) coord := by
  have rest : (if i < created then (.ready : Phase T D) else .absent) ≠ .out c := by
    split_ifs <;> simp
  -- lane 0 is the coordinator's
  have keep : ∀ done : ℕ → Option Int, update done (i + 1) (some st) 0 = done 0 :=
    fun done => update_of_ne (Nat.succ_ne_zero i).symm _ _
  cases coord with
  | publish c' j k =>
    obtain ⟨done, rfl, hcall, hd, hj, hk⟩ := h
    simp only [phase, publishing] at hph
    split_ifs at hph with hij
    cases hph
    exact ⟨done, rfl, by omega, _, rfl, hcall, (keep done).trans hd, hj, hk⟩
  | lane0 c' =>
    obtain ⟨done, rfl, hcall, hd⟩ := h
    simp only [phase] at hph
    split_ifs at hph with hil
    cases hph
    exact ⟨done, rfl, hil, _, rfl, hcall, (keep done).trans hd⟩
  | collect c' j result =>
    obtain ⟨done, rfl, hcall, hd, hj, rfl⟩ := h
    simp only [phase] at hph
    split_ifs at hph with hij hil
    cases hph
    refine ⟨done, rfl, hil, _, rfl, hcall, by rwa [keep], hj, ?_⟩
    rw [resultBefore_update (by omega)]
  | readStatus c' j result =>
    obtain ⟨done, rfl, hcall, hd, hj, rfl⟩ := h
    simp only [phase] at hph
    split_ifs at hph with hij heq hil
    cases hph
    refine ⟨done, rfl, hil, _, rfl, hcall, by rwa [keep], hj, ?_⟩
    rw [resultBefore_update (by omega)]
  -- no command is out anywhere else
  | idle => exact absurd hph rest
  | create | await | stopAwait | stopPublish | stopJoin =>
    simp only [phase, publishing] at hph
    split_ifs at hph

variable [DecidableEq T] [DecidableEq D]

/-- The step does what the contract says, and keeps the invariant. -/
def Follows (n : ℕ) (q : Group T D) (s' : State T D) (es : List (Event T D)) : Prop :=
  ∃ q', forkJoin.accept q es = some q' ∧ Inv n s' q'

theorem Follows.silent (h : Inv n s' q) : Follows n q s' [] := ⟨q, rfl, h⟩

section Coordinator

variable (hi : Inv n s q) (h : coordStep n s res = some (s', es))

include hi h

theorem create_follows (hc : s.coord = .create j) : Follows n q s' es := by
  obtain ⟨hslots, rfl, ha, rfl, hj⟩ := hi.when hc
  simp only [coordStep, hc] at h
  split at h
  · rename_i hlt
    -- there is no thread on the slot whose helper is created next
    have habs := hslots s.created
    simp only [phase, lt_self_iff_false, if_false] at habs
    split at h
    · cases h
      refine .silent ⟨slotOk_update ?_ ?_, rfl, ha, rfl, hlt⟩
      · simp only [phase, Nat.lt_succ_self, if_true]
        exact ⟨habs.1, .inr ⟨rfl, .inl rfl⟩⟩
      · intro i hi
        have hlt : i < s.created + 1 ↔ i < s.created := by omega
        simpa only [phase, hlt] using hslots i
    · -- the helper was not created: the others are stopped
      cases h
      refine ⟨.stopping s.calls, rfl, slotOk_update ?_ ?_, rfl, ha, Nat.zero_le _, hj⟩
      · simp only [phase, Nat.not_lt_zero, lt_self_iff_false, if_false]
        exact habs
      · intro i hi
        exact hslots i
  · cases h
    have hjn : s.created = n := by omega
    refine .silent ⟨?_, rfl, ha, hjn, Nat.zero_le _⟩
    intro i
    simpa only [phase, Nat.not_lt_zero, if_false] using hslots i

theorem await_follows (hc : s.coord = .await j) : Follows n q s' es := by
  obtain ⟨hslots, rfl, ha, hcr, hj⟩ := hi.when hc
  simp only [coordStep, hc] at h
  split at h
  · rename_i hlt
    split_ifs at h with hs
    cases h
    exact .silent ⟨awaited hslots (hcr ▸ hlt) hs, rfl, ha, hcr, hlt⟩
  · cases h
    obtain rfl : j = s.created := by omega
    refine .silent ⟨?_, rfl, by simpa using hcr⟩
    intro i
    have hi := hslots i
    simp only [phase] at hi ⊢
    split_ifs at hi ⊢ <;> exact hi

theorem stopAwait_follows (hc : s.coord = .stopAwait failed j) : Follows n q s' es := by
  obtain ⟨hslots, rfl, ha, hj, hcr⟩ := hi.when hc
  simp only [coordStep, hc] at h
  split at h
  · rename_i hlt
    split_ifs at h with hs
    cases h
    exact .silent ⟨awaited hslots hlt hs, rfl, ha, hlt, hcr⟩
  · cases h
    refine .silent ⟨?_, rfl, ha, Nat.zero_le _, hcr, fun _ => rfl⟩
    intro i
    have hi := hslots i
    simp only [phase, publishing] at hi ⊢
    split_ifs at hi ⊢ <;> first | omega | exact hi

theorem stopPublish_follows (hc : s.coord = .stopPublish failed j k) : Follows n q s' es := by
  obtain ⟨hslots, rfl, ha, hj, hcr, hk⟩ := hi.when hc
  simp only [coordStep, hc] at h
  split at h
  · rename_i hlt
    cases h
    have hnext := publishing_store hslots hlt SlotOk.commit_stopping
    -- after the last store the next slot is taken
    cases hsucc : k.succ with
    | some k' =>
      simp only [hsucc] at hnext
      exact .silent ⟨hnext, rfl, ha, hj, hcr, fun h => absurd h hlt.ne⟩
    | none =>
      simp only [hsucc] at hnext
      exact .silent ⟨hnext, rfl, ha, hlt, hcr, fun _ => rfl⟩
  · cases h
    refine .silent ⟨?_, rfl, ha, Nat.zero_le _, hcr⟩
    intro i
    have hi := hslots i
    simp only [phase, publishing] at hi ⊢
    split_ifs at hi ⊢ <;> omega

theorem stopJoin_follows (hc : s.coord = .stopJoin failed j result) : Follows n q s' es := by
  obtain ⟨hslots, rfl, ha, hj, hcr⟩ := hi.when hc
  simp only [coordStep, hc] at h
  split at h
  · rename_i hlt
    have hstop := hslots j
    simp only [phase, le_refl, hlt, and_self, if_true] at hstop
    split at h
    · cases h
      refine .silent ⟨slotOk_update ?_ ?_, rfl, ha, hlt, hcr⟩
      · simp only [phase, Nat.not_succ_le_self, false_and, if_false]
        exact ⟨hstop.1, rfl⟩
      · intro i hi
        have hi' := hslots i
        simp only [phase] at hi' ⊢
        split_ifs at hi' ⊢ <;> omega
    · cases h
  · cases h
    refine ⟨.idle s.calls, rfl, ?_, rfl, by simp [ha]⟩
    intro i
    have hi := hslots i
    simp only [phase, Nat.not_lt_zero, if_false] at hi ⊢
    rwa [if_neg (by omega)] at hi

theorem publish_follows (hc : s.coord = .publish c j k) : Follows n q s' es := by
  obtain ⟨hslots, done, rfl, hcall, hd, hj, hk⟩ := hi.when hc
  simp only [coordStep, hc] at h
  split at h
  · rename_i hlt
    cases h
    have hjc : j < s.created := by
      have := hcall.le
      have := hcall.created
      omega
    have hnext := publishing_store hslots hjc fun h => h.commit_out hcall.task
    -- after the last store the next slot is taken
    cases hsucc : k.succ with
    | some k' =>
      simp only [hsucc] at hnext
      exact .silent ⟨hnext, done, rfl, hcall, hd, hj, fun h => absurd h hlt.ne⟩
    | none =>
      simp only [hsucc] at hnext
      exact .silent ⟨hnext, done, rfl, hcall, hd, hlt, fun _ => rfl⟩
  · cases h
    -- the command is out in the slots of all its lanes
    have hlast : j + 1 = c.lanes := by omega
    obtain rfl := hk hlast
    refine .silent ⟨?_, done, rfl, hcall, hd⟩
    intro i
    have hi := hslots i
    simp only [phase, publishing] at hi ⊢
    split_ifs at hi ⊢ <;> first | omega | exact hi

theorem lane0_follows (hc : s.coord = .lane0 c) : Follows n q s' es := by
  obtain ⟨hslots, done, rfl, hcall, hd⟩ := hi.when hc
  simp only [coordStep, hc] at h
  cases h
  refine ⟨.running c (update done 0 (some res)), ?_, ?_, _, rfl, hcall, ?_, hcall.pos, ?_⟩
  · rw [Observer.accept_singleton]
    exact if_pos ⟨rfl, hcall.pos, hd⟩
  · intro i
    rw [doneOn_update (Nat.succ_ne_zero i)]
    simpa only [phase, Nat.not_lt_zero, if_false] using hslots i
  · rfl
  · simp [resultBefore]

theorem collect_follows (hc : s.coord = .collect c j result) : Follows n q s' es := by
  obtain ⟨hslots, done, rfl, hcall, hd, hj, rfl⟩ := hi.when hc
  simp only [coordStep, hc] at h
  split at h
  · rename_i hlt
    have hout := hslots j
    simp only [phase, lt_self_iff_false, if_false, hlt, if_true] at hout
    split_ifs at h with hcomp
    cases h
    refine .silent ⟨?_, done, rfl, hcall, hd, hlt, rfl⟩
    intro i
    by_cases hij : i = j
    · subst hij
      simp only [phase, lt_self_iff_false, if_false, if_true]
      exact hout.completed_of_out hcomp
    · have hi := hslots i
      simp only [phase, hij, if_false] at hi ⊢
      exact hi
  · cases h
    -- every lane has executed, and the result is the status of them all
    have hlast : j + 1 = c.lanes := by omega
    refine ⟨.idle (c.call + 1), ?_, ?_, ?_, ?_⟩
    · rw [Observer.accept_singleton]
      refine if_pos ⟨?_, ?_⟩
      · intro lane hl
        cases lane with
        | zero => exact hd
        | succ i =>
          have hi := hslots i
          simp only [phase] at hi
          rw [if_pos (by omega)] at hi
          exact hi.2.2
      · rw [← hlast]
        rfl
    · intro i
      have hi := hslots i
      by_cases hij : i < j
      · have hcr : i < s.created := by
          have := hcall.created
          have := hcall.le
          omega
        simp only [phase, hij, if_true] at hi
        simp only [phase, hcr, if_true]
        exact hi.ready_of_collected
      · have hskip : ¬ i + 1 < c.lanes := by omega
        simp only [phase, hij, hskip, if_false] at hi ⊢
        split_ifs at hi ⊢
        · exact ⟨hi.1, hi.2.1, rfl⟩
        · exact hi
    · rw [hcall.call]
    · simp [hcall.active, hcall.created]

theorem readStatus_follows (hc : s.coord = .readStatus c j result) : Follows n q s' es := by
  obtain ⟨hslots, done, rfl, hcall, hd, hj, rfl⟩ := hi.when hc
  simp only [coordStep, hc] at h
  cases h
  have hcomp := hslots j
  simp only [phase, lt_self_iff_false, if_false, if_true] at hcomp
  refine .silent ⟨?_, done, rfl, hcall, hd, hj, ?_⟩
  · intro i
    rcases lt_trichotomy i j with hlt | rfl | hgt
    · have hi := hslots i
      simp only [phase, hlt, if_true] at hi
      simp only [phase, Nat.lt_succ_of_lt hlt, if_true]
      exact hi
    · simp only [phase, Nat.lt_succ_self, if_true]
      exact hcomp.collected_of_completed
    · have hi := hslots i
      simp only [phase, hgt.not_gt, hgt.ne', if_false] at hi
      simp only [phase, (show ¬ i < j + 1 by omega), if_false]
      exact hi
  · -- the status that is read is the one the lane has executed the call with
    have hst : done (j + 1) = some (s.slots j).status := hcomp.2.2
    rw [resultBefore_succ done (j + 1), hst]
    by_cases hr : resultBefore done (j + 1) = 0 <;>
      by_cases hs : (s.slots j).status = 0 <;> simp [hr, hs]

/-- **A step of the coordinator.** -/
theorem coord_follows : Follows n q s' es := by
  cases hc : s.coord with
  | idle => simp [coordStep, hc] at h
  | create j => exact create_follows hi h hc
  | await j => exact await_follows hi h hc
  | stopAwait failed j => exact stopAwait_follows hi h hc
  | stopPublish failed j k => exact stopPublish_follows hi h hc
  | stopJoin failed j result => exact stopJoin_follows hi h hc
  | publish c j k => exact publish_follows hi h hc
  | lane0 c => exact lane0_follows hi h hc
  | collect c j result => exact collect_follows hi h hc
  | readStatus c j result => exact readStatus_follows hi h hc

end Coordinator

/-- **A step of a helper.** -/
theorem helper_follows {i : ℕ} (hi : Inv n s q) (h : step n s (.helper i res) = some (s', es)) :
    Follows n q s' es := by
  simp only [step] at h
  split_ifs at h
  obtain ⟨⟨slot, es'⟩, hs, hs'⟩ := Option.map_eq_some_iff.mp h
  cases hs'
  rcases (hi.slots i).helper hs with ⟨rfl, hslot⟩ | ⟨c, hph, rfl, hd, hslot⟩
  · exact .silent ⟨slotOk_update hslot fun j _ => hi.slots j, hi.coord⟩
  · -- the helper executes its lane of the call that is going on
    obtain ⟨done, rfl, hl, hcoord⟩ := coordOk_out res hi.coord hph
    refine ⟨_, ?_, slotOk_update ?_ ?_, hcoord⟩
    · rw [Observer.accept_singleton]
      exact if_pos ⟨rfl, hl, hd⟩
    · rw [hph]
      simpa [doneOn] using hslot
    · intro j hj
      rw [doneOn_update (by omega)]
      exact hi.slots j

/-- **Every step does what the contract of a worker group says.** -/
theorem step_follows {a : Action T D} (hi : Inv n s q) (h : step n s a = some (s', es)) :
    Follows n q s' es := by
  cases a with
  | coord res => exact coord_follows hi h
  | helper i res => exact helper_follows hi h
  | activate =>
    simp only [step] at h
    split at h
    · rename_i hc
      obtain ⟨hslots, rfl, hcr⟩ := hi.when hc
      cases h
      refine .silent ?_
      -- activating an active group does nothing
      split_ifs with ha
      · exact ⟨by rwa [hc], by rw [hc]; exact ⟨rfl, hcr⟩⟩
      · rw [if_neg ha] at hcr
        refine ⟨?_, rfl, by simpa using ha, hcr, Nat.zero_le _⟩
        intro i
        have hi := hslots i
        simp only [phase, hcr, Nat.not_lt_zero, if_false] at hi ⊢
        exact hi
    · cases h
  | deactivate =>
    simp only [step] at h
    split at h
    · rename_i hc
      split at h
      · rename_i ha
        obtain ⟨hslots, rfl, hcr⟩ := hi.when hc
        rw [if_pos ha] at hcr
        cases h
        refine ⟨.stopping s.calls, rfl, ?_, rfl, rfl, Nat.zero_le _, hcr.le⟩
        intro i
        have hi := hslots i
        simp only [phase, Nat.not_lt_zero, if_false] at hi ⊢
        split_ifs at hi ⊢
        · exact hi.starting_of_ready
        · exact hi
      · cases h
        exact .silent hi
    · cases h
  | runTask task data lanes =>
    simp only [step] at h
    split at h
    · rename_i hc
      split at h
      · -- the call is refused
        cases h
        refine ⟨q, ?_, hi⟩
        rw [(hi.when hc).2.1]
        rfl
      · rename_i hok
        simp only [not_or, Bool.not_eq_false, Nat.not_lt] at hok
        obtain ⟨ht, ha, hl, hle⟩ := hok
        obtain ⟨hslots, rfl, hcr⟩ := hi.when hc
        rw [if_pos ha] at hcr
        cases h
        refine ⟨.running ⟨task, data, lanes, s.calls⟩ fun _ => none, ?_, ?_, _, rfl, ?_, rfl, ?_, ?_⟩
        · rw [Observer.accept_singleton]
          exact if_pos rfl
        · intro i
          have hi := hslots i
          simp only [phase, publishing] at hi ⊢
          split_ifs at hi ⊢ <;> first | omega | exact hi
        · exact ⟨Option.isSome_iff_ne_none.mpr ht, Nat.pos_of_ne_zero hl, hle, rfl, ha, hcr⟩
        · exact Nat.pos_of_ne_zero hl
        · exact fun _ => rfl
    · cases h

end Step

end PipeWireAO.Executor.WorkerGroup
