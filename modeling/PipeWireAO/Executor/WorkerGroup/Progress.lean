import Mathlib.Algebra.BigOperators.Group.Finset.Piecewise
import Mathlib.Algebra.Order.BigOperators.Group.Finset
import PipeWireAO.Executor.WorkerGroup.Invariant

/-!
# Every call of the worker group returns

The coordinator and the helpers share a bound on the steps they still make: a store that wakes a
helper pays for what the helper does then. And while the coordinator waits, the helper it waits for
can make a step.
-/

namespace PipeWireAO.Executor.WorkerGroup

open Foundation Function Option Finset

variable {T D : Type*} {slot : Slot T D} {done : Option Int}

/-- The steps a helper still makes if nothing new is published. -/
def Slot.work (s : Slot T D) : ℕ :=
  -- a round of `worker_main` for a generation that was not observed yet
  let more (observed : Gen) : ℕ := if s.generation = observed then 0 else 7
  match s.helper with
  | .absent => 0
  | .boot => 9
  | .booted observed => 8 + more observed
  | .poll observed => more observed
  | .readTask observed => 6 + more observed
  | .readData observed _ => 5 + more observed
  | .readLanes observed _ _ => 4 + more observed
  | .execute observed _ => 3 + more observed
  | .setStatus observed _ => 2 + more observed
  | .setDone observed => 1 + more observed
  | .exited => 0

/-- The stores of `publish_command` that are left. -/
def Store.left : Store → ℕ
  | .rearm => 5
  | .task => 4
  | .data => 3
  | .lanes => 2
  | .commit => 1

/-- The steps the coordinator still makes, and the steps of the helpers that it causes. -/
def Coord.work (n created : ℕ) : Coord T D → ℕ
  | .idle => 0
  -- a helper that is created makes nine steps, and may have to be stopped again
  | .create j => 10 * (n - j) + 15 * n + 9
  | .await j => n - j + 1
  | .stopAwait _ j => created - j + 14 * created + 8
  | .stopPublish _ j k => 13 * (created - j) + k.left + created + 2
  | .stopJoin _ j _ => created - j + 1
  -- five stores, seven steps of the helper, and one step for the loop
  | .publish c j k => 13 * (c.lanes - 1 - j) + k.left + 2 * (c.lanes - 1) + 3
  | .lane0 c => 2 * (c.lanes - 1) + 2
  | .collect c j _ => 2 * (c.lanes - 1 - j) + 1
  | .readStatus c j _ => 2 * (c.lanes - 2 - j) + 2

/-- A bound on the steps until every thread waits. -/
def State.work (n : ℕ) (s : State T D) : ℕ :=
  s.coord.work n s.created + ∑ i ∈ range n, (s.slots i).work

section Work

variable {n j i : ℕ} {s s' : State T D} {es : List (Event T D)} {res : Int}

theorem helper_work {slot' : Slot T D} (h : helperStep i slot res = some (slot', es)) :
    slot'.work < slot.work := by
  unfold helperStep at h
  split at h
  case h_4 observed hh =>
    split at h
    · cases h
    · rename_i hg
      cases h
      simp [Slot.work, hh, hg]
  case h_5 observed hh =>
    split at h <;> cases h <;> simp [Slot.work, hh]
  all_goals cases h <;> simp_all [Slot.work]

theorem publish_work (slot : Slot T D) (c : Command T D) (k : Store) :
    (slot.publish c k).work ≤ slot.work + if k = .commit then 7 else 0 := by
  by_cases hk : k = .commit
  · subst hk
    simp only [Slot.work, Slot.publish, if_true]
    cases slot.helper <;> grind
  · have hw : (slot.publish c k).work = slot.work := by
      cases k <;> first | rfl | exact absurd rfl hk
    omega

theorem sum_work_update_le (slots : ℕ → Slot T D) (slot : Slot T D) {d : ℕ}
    (h : slot.work ≤ (slots j).work + d) : ∑ i ∈ range n, (update slots j slot i).work ≤
      ∑ i ∈ range n, (slots i).work + d := by
  calc ∑ i ∈ range n, (update slots j slot i).work
      ≤ ∑ i ∈ range n, ((slots i).work + if i = j then d else 0) := by
        refine sum_le_sum fun i _ => ?_
        by_cases hi : i = j
        · subst hi
          simpa using h
        · simp [update_of_ne hi]
    _ ≤ ∑ i ∈ range n, (slots i).work + d := by
        rw [sum_add_distrib, sum_ite_eq']
        split_ifs <;> omega

theorem sum_work_update_lt {slots : ℕ → Slot T D} (hj : j < n) (h : slot.work < (slots j).work) :
    ∑ i ∈ range n, (update slots j slot i).work < ∑ i ∈ range n, (slots i).work := by
  refine sum_lt_sum (fun i _ => ?_) ⟨j, mem_range.mpr hj, by simpa using h⟩
  by_cases hi : i = j
  · subst hi
    simpa using h.le
  · rw [update_of_ne hi]

theorem store_work (slots : ℕ → Slot T D) (c : Command T D) (k : Store) :
    ∑ i ∈ range n, (update slots j ((slots j).publish c k) i).work + (match k.succ with
        | some k' => k'.left + 13
        | none => Store.rearm.left) <
      ∑ i ∈ range n, (slots i).work + k.left + 13 := by
  have h := sum_work_update_le (n := n) slots _ (publish_work (slots j) c k)
  cases k <;> simp only [Store.succ, Store.left, reduceCtorEq, if_false, if_true] at h ⊢ <;> omega

open Coord (work)

/-- **Every step of the coordinator uses up work.** -/
theorem coord_work (h : coordStep n s res = some (s', es)) : s'.work n < s.work n := by
  unfold coordStep at h
  split at h
  case h_1 => cases h
  case h_2 j hc =>
    split at h
    · split at h
      · cases h
        have hs := sum_work_update_le (n := n) (j := j) (d := 9) s.slots
          { s.slots j with started := false, helper := .boot } (by simp [Slot.work])
        simp only [State.work, hc, work] at hs ⊢
        omega
      · cases h
        have hs := sum_work_update_le (n := n) (j := j) (d := 0) s.slots
          { s.slots j with started := false } le_rfl
        simp only [State.work, hc, work] at hs ⊢
        omega
    · cases h
      simp only [State.work, hc, work]
      omega
  case h_3 | h_4 | h_9 =>
    rename_i hc
    split at h
    · split at h <;> cases h
      simp only [State.work, hc, work]
      omega
    · cases h
      simp only [State.work, hc, work, Store.left]
      omega
  case h_5 failed j k hc =>
    split at h
    · cases h
      have hs := store_work (n := n) (j := j) s.slots stopCommand k
      simp only [State.work, hc]
      cases hk : k.succ <;> simp only [hk, work] at hs ⊢ <;> omega
    · cases h
      simp only [State.work, hc, work]
      omega
  case h_6 failed j result hc =>
    split at h
    · split at h
      · cases h
        have hs := sum_work_update_le (n := n) (j := j) (d := 0) s.slots
          { s.slots j with helper := .absent } (by simp [Slot.work])
        simp only [State.work, hc, work] at hs ⊢
        omega
      · cases h
    · cases h
      simp only [State.work, hc, work]
      omega
  case h_7 c j k hc =>
    split at h
    · cases h
      have hs := store_work (n := n) (j := j) s.slots c k
      simp only [State.work, hc]
      cases hk : k.succ <;> simp only [hk, work] at hs ⊢ <;> omega
    · cases h
      simp only [State.work, hc, work]
      omega
  case h_8 | h_10 =>
    rename_i hc
    cases h
    simp only [State.work, hc, work]
    omega

/-- The action is a step of a thread, not a new call. -/
def Action.ofThread : Action T D → Bool
  | .coord _ => true
  | .helper _ _ => true
  | _ => false

/-- **Every step of a thread uses up work.** -/
theorem step_work {a : Action T D} (ha : a.ofThread = true) (h : step n s a = some (s', es)) :
    s'.work n < s.work n := by
  cases a with
  | coord res => exact coord_work h
  | helper i res =>
    simp only [step] at h
    split_ifs at h with hi
    obtain ⟨⟨slot, es'⟩, hs, hs'⟩ := map_eq_some_iff.mp h
    cases hs'
    exact Nat.add_lt_add_left (sum_work_update_lt hi (helper_work hs)) _
  | _ => cases ha

def Slot.Steps (s : Slot T D) : Prop := ∀ i res, (helperStep i s res).isSome = true

theorem SlotOk.starting_steps (h : SlotOk slot done .starting) (hs : slot.started = false) :
    slot.Steps := by
  intro i res
  obtain ⟨-, hp | ⟨-, hh | hh⟩⟩ := h
  · rw [hp.2] at hs
    cases hs
  · simp [helperStep, hh]
  · simp [helperStep, hh]

theorem SlotOk.out_steps {c : Command T D} (h : SlotOk slot done (.out c))
    (hc : slot.completion ≠ slot.next) : slot.Steps := by
  intro i res
  obtain ⟨hg, rfl, ht, -, hh⟩ := h
  unfold Slot.Has at hh
  split at hh
  case h_1 observed hpoll =>
    rcases hh with ⟨ho, -, -⟩ | ⟨-, hcomp, -⟩
    · simp [helperStep, hpoll, Ne.symm ho]
    · exact absurd (hcomp.trans hg) hc
  case h_2 observed hread =>
    obtain ⟨task, htask⟩ := isSome_iff_exists.mp ht
    simp [helperStep, hread, htask]
  case h_8 => exact hh.elim
  all_goals simp_all [helperStep]

theorem SlotOk.stopping_steps (h : SlotOk slot done .stopping) (hs : slot.helper ≠ .exited) :
    slot.Steps := by
  intro i res
  obtain ⟨-, ht, ⟨o, ho, hh⟩ | hh | hh⟩ := h
  · simp [helperStep, hh, Ne.symm ho]
  · simp [helperStep, hh, ht]
  · exact absurd hh hs

/-- A thread of the group can make a step. -/
def Progress (n : ℕ) (s : State T D) : Prop :=
  ∃ a s' es, Action.ofThread a = true ∧ step n s a = some (s', es)

theorem Progress.helper (hi : i < n) (h : (s.slots i).Steps) : Progress n s := by
  obtain ⟨r, hr⟩ := isSome_iff_exists.mp (h i 0)
  have hs : step n s (.helper i 0) =
      some ({ s with slots := update s.slots i r.1 }, r.2) := by
    simp only [step, if_pos hi, hr, map_some]
  exact ⟨.helper i 0, _, _, rfl, hs⟩

theorem Progress.coord (h : (coordStep n s 0).isSome = true) : Progress n s := by
  obtain ⟨r, hr⟩ := isSome_iff_exists.mp h
  exact ⟨.coord 0, r.1, r.2, rfl, hr⟩

/-- **A call never gets stuck**: if the coordinator has to wait, the helper it waits for can make
a step. -/
theorem progress {q : Group T D} (hi : Inv n s q) (hc : s.coord ≠ .idle) : Progress n s := by
  -- the coordinator waits for a start, for a completion or for an exit, and is free to go on
  -- everywhere else
  cases h : s.coord with
  | idle => exact absurd h hc
  | create | stopPublish | publish =>
    refine .coord ?_
    simp only [coordStep, h]
    split_ifs <;> rfl
  | await j =>
    obtain ⟨hslots, -, -, hcr, hj⟩ := hi.when h
    by_cases hlt : j < n
    · have hj := hslots j
      simp only [phase, lt_self_iff_false, if_false, hcr, hlt, if_true] at hj
      by_cases hs : (s.slots j).started = true
      · exact .coord (by simp [coordStep, h, hlt, hs])
      · exact .helper hlt (hj.starting_steps (by simpa using hs))
    · exact .coord (by simp [coordStep, h, hlt])
  | stopAwait failed j =>
    obtain ⟨hslots, -, -, hj, hcr⟩ := hi.when h
    by_cases hlt : j < s.created
    · have hj := hslots j
      simp only [phase, lt_self_iff_false, if_false, hlt, if_true] at hj
      by_cases hs : (s.slots j).started = true
      · exact .coord (by simp [coordStep, h, hlt, hs])
      · exact .helper (by omega) (hj.starting_steps (by simpa using hs))
    · exact .coord (by simp [coordStep, h, hlt])
  | stopJoin failed j result =>
    obtain ⟨hslots, -, -, hj, hcr⟩ := hi.when h
    by_cases hlt : j < s.created
    · have hj := hslots j
      simp only [phase, le_refl, hlt, and_self, if_true] at hj
      by_cases hs : (s.slots j).helper = .exited
      · exact .coord (by simp [coordStep, h, hlt, hs])
      · exact .helper (by omega) (hj.stopping_steps hs)
    · exact .coord (by simp [coordStep, h, hlt])
  | lane0 | readStatus => exact .coord (by simp [coordStep, h])
  | collect c j result =>
    obtain ⟨hslots, done, -, hcall, -, hj, -⟩ := hi.when h
    by_cases hlt : j + 1 < c.lanes
    · have hout := hslots j
      simp only [phase, lt_self_iff_false, if_false, hlt, if_true] at hout
      by_cases hs : (s.slots j).completion = (s.slots j).next
      · exact .coord (by simp [coordStep, h, hlt, hs])
      · have hle := hcall.le
        exact .helper (by omega) (hout.out_steps hs)
    · exact .coord (by simp [coordStep, h, hlt])

end Work

end PipeWireAO.Executor.WorkerGroup
