import PipeWireAO.Executor.WorkerGroup.Progress

/-!
# The contract of the worker group
-/

namespace PipeWireAO.Executor.WorkerGroup

open Foundation

variable {T D : Type*}

variable [DecidableEq T] [DecidableEq D] {n : ℕ} {s s' : State T D} {tr es : List (Event T D)}

omit [DecidableEq T] [DecidableEq D] in
theorem coord_stopped {res r : Int} (h : coordStep n s res = some (s', es)) (hr : .stopped r ∈ es) :
    s'.created = 0 ∧ s'.coord = .idle := by
  unfold coordStep at h
  split at h
  case h_6 failed j result hc =>
    split at h
    · split at h <;> cases h
      cases hr
    · cases h
      exact ⟨rfl, rfl⟩
  case h_1 => cases h
  all_goals
    repeat' split at h
    all_goals
      cases h
      try simp at hr

omit [DecidableEq T] [DecidableEq D] in
theorem helper_stopped {i : ℕ} {slot slot' : Slot T D} {res r : Int}
    (h : helperStep i slot res = some (slot', es)) : .stopped r ∉ es := by
  unfold helperStep at h
  repeat' split at h
  all_goals
    cases h
    try simp

theorem stopped_absent {q : Group T D} {a : Action T D} {r : Int} (hi : Inv n s q)
    (h : step n s a = some (s', es)) (hr : .stopped r ∈ es) (i : ℕ) :
    (s'.slots i).helper = .absent := by
  have hend : s'.created = 0 ∧ s'.coord = .idle := by
    cases a with
    | coord res => exact coord_stopped h hr
    | helper i res =>
      simp only [step] at h
      split_ifs at h
      obtain ⟨⟨slot, es'⟩, hs, hs'⟩ := Option.map_eq_some_iff.mp h
      cases hs'
      exact absurd hr (helper_stopped hs)
    | activate | deactivate | runTask =>
      simp only [step] at h
      repeat' split at h
      all_goals
        cases h
        try simp at hr
  -- with no helpers and an idle coordinator, the invariant leaves only absent threads
  obtain ⟨q', -, hi'⟩ := step_follows hi h
  have habs := hi'.slots i
  simp only [hend.1, hend.2, phase, Nat.not_lt_zero, if_false] at habs
  exact habs.2

/-- **The contract of a worker group**, in every interleaving of the threads and for all answers of
the environment: during a call every lane executes its command once, and nothing else happens; the
result is the first nonzero status in lane order; when `stop_created_workers` returns, every helper
has returned; and every call returns. -/
theorem worker_group_fork_join (h : (machine T D n).Reaches init s tr) :
    (∀ pre c mid res post, tr = pre ++ .called c :: (mid ++ .returned res :: post) →
      (∀ res, .returned res ∉ mid) →
      (∀ e ∈ mid, ∃ lane status, e = .executed lane c status ∧ lane < c.lanes) ∧ ∃ status : ℕ → Int,
          (∀ lane < c.lanes, mid.filterMap (Event.statusOn lane) = [status lane]) ∧
          res = firstNonzero ((List.range c.lanes).map status)) ∧
    (∀ pre lane c status post, tr = pre ++ .executed lane c status :: post →
      ∃ pre' mid, pre = pre' ++ .called c :: mid ∧
        ∀ e ∈ mid, ∃ lane status, e = .executed lane c status) ∧
    (∀ pre c post, tr = pre ++ .called c :: post → c.call = pre.countP Event.isCall) ∧
    (∀ a s' es res, step n s a = some (s', es) → .stopped res ∈ es →
      ∀ i, (s'.slots i).helper = .absent) ∧ (s.coord ≠ .idle → Progress n s) ∧
    (∀ a s' es, Action.ofThread a = true → step n s a = some (s', es) → s'.work n < s.work n) := by
  obtain ⟨q, hq, hi⟩ := h.simulates (O := forkJoin) (Inv n) (inv_init n) fun hi hs =>
    step_follows hi hs
  refine ⟨?_, ?_, ?_, ?_, progress hi, ?_⟩
  · rintro pre c mid res post rfl hr
    exact forkJoin_window hq hr
  · rintro pre lane c status post rfl
    exact forkJoin_executed hq
  · rintro pre c post rfl
    exact forkJoin_call hq
  · intro a s' es res hs hr i
    exact stopped_absent hi hs hr i
  · intro a s' es ha hs
    exact step_work ha hs

/-- Two lanes: the helper is created, executes lane 1 with status 7, and is stopped. -/
def oneCall : List (Action ℕ ℕ) :=
  List.flatten
    [[.activate, .coord 0, .coord 0, .helper 0 0, .helper 0 0, .coord 0, .coord 0],
      [.runTask (some 1) none 2], .replicate 7 (.coord 0), .replicate 4 (.helper 0 0),
      .replicate 3 (.helper 0 7), .replicate 3 (.coord 0),
      [.deactivate], .replicate 8 (.coord 0), .replicate 2 (.helper 0 0), .replicate 2 (.coord 0)]

/-- What the caller of `oneCall` observes. -/
def oneCallEvents : List (Event ℕ ℕ) :=
  let c := ⟨some 1, none, 2, 0⟩
  [.called c, .executed 0 c 0, .executed 1 c 7, .returned 7, .stopping, .stopped 0]

theorem worker_group_fork_join_oneCall :
    ∃ s c mid post, (machine ℕ ℕ 1).Reaches init s (.called c :: (mid ++ .returned 7 :: post)) ∧
      c.lanes = 2 ∧
      ∃ status : ℕ → Int, (∀ lane < 2, mid.filterMap (Event.statusOn lane) = [status lane]) ∧
        7 = firstNonzero ((List.range 2).map status) := by
  obtain ⟨s, tr, h, rfl⟩ : ∃ s tr, (machine ℕ ℕ 1).Reaches init s tr ∧ tr = oneCallEvents :=
    Machine.Reaches.of_run_such oneCall (by decide +kernel) fun _ _ _ h => h
  let c : Command ℕ ℕ := ⟨some 1, none, 2, 0⟩
  refine ⟨s, c, [.executed 0 c 0, .executed 1 c 7], [.stopping, .stopped 0], h, rfl, ?_⟩
  exact ((worker_group_fork_join h).1 [] c _ 7 _ rfl (by simp)).2

end PipeWireAO.Executor.WorkerGroup
