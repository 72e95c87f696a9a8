import Mathlib.Data.List.Induction
import PipeWireAO.Foundation.Machine
import PipeWireAO.Foundation.Except

/-!
# What a worker group is for

A call of a worker group runs one task on a number of lanes: lane 0 in the calling thread and
every other lane in a helper. This module states the contract by itself, as an observer of calls,
executions and returns; `Executor.WorkerGroup` relates the code to it.
-/

namespace PipeWireAO.Executor

open Foundation List Function Option Observer

variable {T D : Type*}

/-- A command: the task (`none` for `NULL`, to stop), its data and the number of lanes. `call` is
the number of its call, which is not in the code. -/
structure Command (T D : Type*) where
  task : Option T
  data : Option D
  (lanes call : ℕ)
deriving DecidableEq

/-- What is observed: `run_task` was called or refused, a lane executed a command, `run_task`
returned; `stop_created_workers` was called, and returned. -/
inductive Event (T D : Type*)
  | called (c : Command T D)
  | rejected (res : Int)
  | executed (lane : ℕ) (c : Command T D) (status : Int)
  | returned (res : Int)
  | stopping
  | stopped (res : Int)
deriving DecidableEq

def firstNonzero : List Int → Int
  | [] => 0
  | x :: xs => if x = 0 then firstNonzero xs else x

@[simp] theorem firstNonzero_singleton (x : Int) : firstNonzero [x] = x := by
  by_cases h : x = 0 <;> simp [firstNonzero, h]

theorem firstNonzero_concat (xs : List Int) (x : Int) :
    firstNonzero (xs ++ [x]) = if firstNonzero xs = 0 then x else firstNonzero xs := by
  induction xs with
  | nil => simp [firstNonzero]
  | cons y xs ih =>
    by_cases hy : y = 0 <;> simp [firstNonzero, hy, ih]

/-- A worker group as its caller sees it: after `calls` calls it is idle or the helpers are being
stopped; or a call is going on, and some lanes have executed it. -/
inductive Group (T D : Type*)
  | idle (calls : ℕ)
  | stopping (calls : ℕ)
  | running (c : Command T D) (done : ℕ → Option Int)

section Observer

variable [DecidableEq T] [DecidableEq D]

/-- What may happen next. A lane executes the command of the current call, only once; the call
returns when all its lanes have, with the first status that is not zero. -/
def groupNext : Group T D → Event T D → Option (Group T D)
  | .idle k, .called c => if c.call = k then some (.running c fun _ => none) else none
  | .idle k, .rejected _ => some (.idle k)
  | .idle k, .stopping => some (.stopping k)
  | .stopping k, .stopped _ => some (.idle k)
  | .running c done, .executed lane c' status =>
    if c' = c ∧ lane < c.lanes ∧ done lane = none then
      some (.running c (update done lane (some status)))
    else none
  | .running c done, .returned res =>
    if (∀ lane < c.lanes, (done lane).isSome) ∧
        res = firstNonzero ((List.range c.lanes).map fun lane => (done lane).getD 0) then
      some (.idle (c.call + 1))
    else none
  | _, _ => none

/-- **The contract of a worker group.** -/
def forkJoin : Observer (Group T D) (Event T D) where
  next := groupNext

variable {c : Command T D} {done : ℕ → Option Int} {q q' : Group T D} {e : Event T D}

theorem next_running (h : forkJoin.next (.running c done) e = some q) :
    (∃ lane status, e = .executed lane c status ∧ lane < c.lanes ∧ done lane = none ∧
      q = .running c (update done lane (some status))) ∨
    (∃ res, e = .returned res ∧ (∀ lane < c.lanes, (done lane).isSome) ∧
      res = firstNonzero ((List.range c.lanes).map fun lane => (done lane).getD 0) ∧
      q = .idle (c.call + 1)) := by
  cases e with
  | executed lane c' status =>
    simp only [forkJoin, groupNext] at h
    split_ifs at h with hc
    obtain ⟨rfl, hl, hd⟩ := hc
    exact .inl ⟨lane, status, rfl, hl, hd, (some.inj h).symm⟩
  | returned res =>
    simp only [forkJoin, groupNext] at h
    split_ifs at h with hc
    exact .inr ⟨res, rfl, hc.1, hc.2, (some.inj h).symm⟩
  | _ => cases h

/-- The status of an execution on `lane`. -/
def Event.statusOn (lane : ℕ) : Event T D → Option Int
  | .executed lane' _ status => if lane' = lane then some status else none
  | _ => none

theorem accept_running {mid : List (Event T D)} (hr : ∀ res, .returned res ∉ mid)
    (h : forkJoin.accept (.running c done) mid = some q) : ∃ done', q = .running c done' ∧
      (∀ e ∈ mid, ∃ lane status, e = .executed lane c status ∧ lane < c.lanes) ∧
      ∀ lane, (done lane).toList ++ mid.filterMap (Event.statusOn lane) = (done' lane).toList := by
  induction mid generalizing done with
  | nil =>
    cases h
    exact ⟨done, rfl, by simp, by simp⟩
  | cons e mid ih =>
    obtain ⟨q', he, hq⟩ := accept_cons_eq_some.mp h
    rcases next_running he with ⟨l, status, rfl, hl, hd, rfl⟩ | ⟨res, rfl, -, -, -⟩
    · obtain ⟨done', rfl, hmid, hdone⟩ := ih (fun res hm => hr res (mem_cons_of_mem _ hm)) hq
      refine ⟨done', rfl, ?_, ?_⟩
      · intro e he
        rcases mem_cons.mp he with rfl | he
        · exact ⟨l, status, rfl, hl⟩
        · exact hmid e he
      · intro lane
        rw [← hdone lane]
        by_cases hlane : l = lane
        · subst hlane
          simp [Event.statusOn, hd]
        · simp [Event.statusOn, hlane, update_of_ne (Ne.symm hlane)]
    · exact absurd (mem_cons_self) (hr res)

/-- **Exactly once.** Between a call and its return, every lane of the call executes its command
exactly once, nothing else happens, and the result is the first status in lane order that is not
zero. -/
theorem forkJoin_window {pre mid post : List (Event T D)} {res : Int} {q₀ : Group T D}
    (h : forkJoin.accept q₀ (pre ++ .called c :: (mid ++ .returned res :: post)) = some q)
    (hr : ∀ res, .returned res ∉ mid) :
    (∀ e ∈ mid, ∃ lane status, e = .executed lane c status ∧ lane < c.lanes) ∧ ∃ status : ℕ → Int,
        (∀ lane < c.lanes, mid.filterMap (Event.statusOn lane) = [status lane]) ∧
        res = firstNonzero ((List.range c.lanes).map status) := by
  obtain ⟨q₁, -, h⟩ := accept_append.mp h
  obtain ⟨q₂, hcall, h⟩ := accept_cons_eq_some.mp h
  obtain ⟨q₃, hmid, h⟩ := accept_append.mp h
  obtain ⟨q₄, hret, -⟩ := accept_cons_eq_some.mp h
  -- the call was accepted with no lane executed
  obtain rfl : q₂ = .running c fun _ => none := by
    cases q₁ with
    | idle k =>
      simp only [forkJoin, groupNext] at hcall
      split at hcall
      · exact (some.inj hcall).symm
      · cases hcall
    | stopping k | running c done => cases hcall
  obtain ⟨done, rfl, hexec, hdone⟩ := accept_running hr hmid
  rcases next_running hret with ⟨_, _, he, _⟩ | ⟨_, he, hall, hres, -⟩ <;> cases he
  refine ⟨hexec, fun lane => (done lane).getD 0, ?_, hres⟩
  intro lane hl
  obtain ⟨st, hst⟩ := isSome_iff_exists.mp (hall lane hl)
  simpa [hst] using hdone lane

/-- **Nothing is executed outside a call**: what a lane executes is the command of the last call,
which has not returned. -/
theorem forkJoin_executed {pre post : List (Event T D)} {lane : ℕ} {status : Int} {k : ℕ}
    (h : forkJoin.accept (.idle k) (pre ++ .executed lane c status :: post) = some q) :
    ∃ pre' mid, pre = pre' ++ .called c :: mid ∧
      ∀ e ∈ mid, ∃ lane status, e = .executed lane c status := by
  obtain ⟨q₁, hpre, h⟩ := accept_append.mp h
  obtain ⟨q₂, hexec, -⟩ := accept_cons_eq_some.mp h
  -- an observer in the middle of a call has seen the call, and since then only executions
  have running : ∀ {tr : List (Event T D)} {c done},
      forkJoin.accept (.idle k) tr = some (.running c done) →
      ∃ pre' mid, tr = pre' ++ .called c :: mid ∧
        ∀ e ∈ mid, ∃ lane status, e = .executed lane c status := by
    intro tr
    induction tr using List.reverseRecOn with
    | nil =>
      intro c done h
      cases h
    | append_singleton tr e ih =>
      intro c done h
      obtain ⟨q', h₁, h₂⟩ := accept_append.mp h
      rw [accept_singleton] at h₂
      cases q' with
      | idle j =>
        refine ⟨tr, [], ?_, by simp⟩
        cases e <;> simp only [forkJoin, groupNext, some.injEq, reduceCtorEq] at h₂
        split at h₂ <;> cases h₂
        rfl
      | stopping j => cases e <;> cases h₂
      | running c' done' =>
        rcases next_running h₂ with ⟨l, st, rfl, -, -, hq⟩ | ⟨_, -, -, -, hq⟩ <;> cases hq
        obtain ⟨pre', mid, rfl, hmid⟩ := ih h₁
        exact ⟨pre', mid ++ [.executed l c st], by simp, forall_mem_concat hmid ⟨l, st, rfl⟩⟩
  cases q₁ with
  | idle j | stopping j => cases hexec
  | running c' done =>
    rcases next_running hexec with ⟨_, _, he, -⟩ | ⟨_, he, -⟩ <;> cases he
    exact running hpre

def Group.calls : Group T D → ℕ
  | .idle k => k
  | .stopping k => k
  | .running c _ => c.call + 1

def Event.isCall : Event T D → Bool
  | .called _ => true
  | _ => false

theorem accept_calls {tr : List (Event T D)} (h : forkJoin.accept (.idle 0) tr = some q) :
    q.calls = tr.countP Event.isCall := by
  have key := accept_balance (O := forkJoin) Event.isCall (fun _ => false) Group.calls ?_ h
  · simpa [Group.calls] using key.symm
  · intro q q' e he
    cases q with
    | idle k =>
      cases e <;> simp only [forkJoin, groupNext, some.injEq, reduceCtorEq] at he
      case called c =>
        split at he <;> cases he
        rename_i hc
        simp [Group.calls, Event.isCall, hc]
      all_goals
        subst he
        simp [Group.calls, Event.isCall]
    | stopping k =>
      cases e <;> cases he
      simp [Group.calls, Event.isCall]
    | running c done =>
      rcases next_running he with ⟨_, _, rfl, -, -, rfl⟩ | ⟨_, rfl, -, -, rfl⟩ <;>
        simp [Group.calls, Event.isCall]

/-- **Every call has a number of its own**: the number of calls before it. -/
theorem forkJoin_call {pre post : List (Event T D)}
    (h : forkJoin.accept (.idle 0) (pre ++ .called c :: post) = some q) :
    c.call = pre.countP Event.isCall := by
  obtain ⟨q₁, hpre, h⟩ := accept_append.mp h
  obtain ⟨q₂, hcall, -⟩ := accept_cons_eq_some.mp h
  rw [← accept_calls hpre]
  cases q₁ with
  | idle k =>
    simp only [forkJoin, groupNext] at hcall
    split at hcall
    · assumption
    · cases hcall
  | stopping k | running c done => cases hcall

end Observer

end PipeWireAO.Executor
