import PipeWireAO.Foundation.Machine

/-!
# The life of a parameter buffer

A parameter buffer travels from the data loop, which dequeued it from its producer, to the worker
that applies it, and back. At any time one side owns it. This module states the protocol by itself:
who owns the buffer, and which event passes it on. Both handoffs are related to it.
-/

namespace PipeWireAO.Parameter

open Foundation

variable {B : Type*} {b : B}

/-- Who has the buffer of a parameter port. -/
inductive Owner (B : Type*)
  /-- No buffer is out. -/
  | free
  /-- The data loop offers it; no worker claimed it yet. -/
  | offered (b : B)
  | claimed (b : B)
  | worker (b : B)
  /-- The worker was busy; it waits for another attempt. -/
  | parked (b : B)
  | done (b : B)
deriving DecidableEq

def Owner.buffer : Owner B → Option B
  | .free => none
  | .offered b => some b
  | .claimed b => some b
  | .worker b => some b
  | .parked b => some b
  | .done b => some b

@[simp] theorem Owner.buffer_free : (Owner.free : Owner B).buffer = none := rfl

/-- How a buffer changes hands: the data loop offers it or takes the offer back; the worker
claims it, applies it, and puts it off after `-EBUSY` or completes it; the data loop takes it back
to queue it to its producer. -/
inductive Event (B : Type*)
  | offered (b : B)
  | withdrawn (b : B)
  | claimed (b : B)
  | called (b : B)
  | deferred (b : B)
  | completed (b : B)
  | returned (b : B)
deriving DecidableEq

section Life

variable [DecidableEq B] {tr : List (Event B)} {q : Owner B}

/-- The protocol of a port: every event is about the buffer that is out, and finds it with the
owner that may pass it on. -/
def lifeNext : Owner B → Event B → Option (Owner B)
  | .free, .offered b => some (.offered b)
  | .offered b, .withdrawn b' => if b = b' then some .free else none
  | .offered b, .claimed b' => if b = b' then some (.claimed b) else none
  | .parked b, .claimed b' => if b = b' then some (.claimed b) else none
  | .claimed b, .called b' => if b = b' then some (.worker b) else none
  | .worker b, .deferred b' => if b = b' then some (.parked b) else none
  | .worker b, .completed b' => if b = b' then some (.done b) else none
  | .done b, .returned b' => if b = b' then some .free else none
  | _, _ => none

/-- **The life of a parameter buffer.** -/
def life : Observer (Owner B) (Event B) where
  next := lifeNext

theorem lifeNext_cases {q' : Owner B} {e : Event B} (h : lifeNext q e = some q') :
    ∃ b, (q = .free ∧ e = .offered b ∧ q' = .offered b) ∨
      (q = .offered b ∧ e = .withdrawn b ∧ q' = .free) ∨
      ((q = .offered b ∨ q = .parked b) ∧ e = .claimed b ∧ q' = .claimed b) ∨
      (q = .claimed b ∧ e = .called b ∧ q' = .worker b) ∨
      (q = .worker b ∧ e = .deferred b ∧ q' = .parked b) ∨
      (q = .worker b ∧ e = .completed b ∧ q' = .done b) ∨
      (q = .done b ∧ e = .returned b ∧ q' = .free) := by
  cases q <;> cases e <;> simp only [lifeNext, reduceCtorEq, Option.some.injEq] at h
  case free.offered b => exact ⟨b, .inl ⟨rfl, rfl, h.symm⟩⟩
  all_goals
    rename_i b b'
    split_ifs at h with hb
    subst hb
    cases h
    exact ⟨b, by simp⟩

def Event.takesBack (b : B) : Event B → Bool
  | .withdrawn b' => decide (b' = b)
  | .returned b' => decide (b' = b)
  | _ => false

/-- **A buffer is handed back once for each time it was offered**, but for the one that is
out. -/
theorem life_balance (b : B) (h : life.accept .free tr = some q) :
    tr.count (.offered b) = tr.countP (Event.takesBack b) + if q.buffer = some b then 1 else 0 := by
  have key := Observer.accept_balance (O := life) (· == .offered b) (Event.takesBack b)
    (fun q => if q.buffer = some b then 1 else 0) ?_ h
  · simp only [Owner.buffer_free, reduceCtorEq, if_false, Nat.zero_add] at key
    rw [List.count, key, Nat.add_comm]
  · intro q q' e he
    obtain ⟨b', h⟩ := lifeNext_cases he
    rcases h with ⟨rfl, rfl, rfl⟩ | ⟨rfl, rfl, rfl⟩ | ⟨rfl | rfl, rfl, rfl⟩ | ⟨rfl, rfl, rfl⟩ |
      ⟨rfl, rfl, rfl⟩ | ⟨rfl, rfl, rfl⟩ | ⟨rfl, rfl, rfl⟩ <;>
    by_cases hb : b' = b <;> simp [Owner.buffer, Event.takesBack, hb]

theorem life_last (h : life.accept .free tr = some q) (hq : q ≠ .free) :
    ∃ tr' q' e, tr = tr' ++ [e] ∧ life.accept .free tr' = some q' ∧ lifeNext q' e = some q := by
  rcases List.eq_nil_or_concat tr with rfl | ⟨tr', e, rfl⟩
  · cases h
    exact absurd rfl hq
  · rw [List.concat_eq_append] at h ⊢
    obtain ⟨q', h₁, h₂⟩ := Observer.accept_append.mp h
    exact ⟨tr', q', e, rfl, h₁, by simpa [life] using h₂⟩

theorem life_completed (h : life.accept .free (tr ++ [.completed b]) = some q) : q = .done b := by
  obtain ⟨q', -, h⟩ := Observer.accept_append.mp h
  obtain ⟨b', h⟩ := lifeNext_cases (q := q') (e := .completed b) (by simpa [life] using h)
  simp_all

theorem life_offered (h : life.accept .free tr = some (.offered b)) :
    ∃ tr', tr = tr' ++ [.offered b] := by
  obtain ⟨tr', q', e, rfl, -, he⟩ := life_last h (by simp)
  obtain ⟨b', h⟩ := lifeNext_cases he
  exact ⟨tr', by simp_all⟩

theorem life_done (h : life.accept .free tr = some (.done b)) :
    ∃ tr', tr = tr' ++ [.called b, .completed b] := by
  obtain ⟨tr', q', e, rfl, h', he⟩ := life_last h (by simp)
  obtain ⟨b', hc⟩ := lifeNext_cases he
  obtain ⟨rfl, rfl, rfl⟩ : q' = .worker b' ∧ e = .completed b' ∧ b = b' := by simp_all
  obtain ⟨tr'', q'', e', rfl, -, he'⟩ := life_last h' (by simp)
  obtain ⟨b', hc'⟩ := lifeNext_cases he'
  exact ⟨tr'', by simp_all⟩

end Life

end PipeWireAO.Parameter
