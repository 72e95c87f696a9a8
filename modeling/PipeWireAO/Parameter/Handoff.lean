import PipeWireAO.Parameter.Life

/-!
# The parameter handoff of the filter chain

`struct ndarray_parameter_handoff` passes one buffer at a time from the data loop to the parameter
worker and back, with four atomics and no lock. The data loop schedules a buffer and wakes the worker;
if this fails it cancels, unless the worker, woken for another port, has claimed the buffer already.
The worker completes the buffer or marks it for a retry, which the data loop rearms after a cycle.

Each access to an atomic is a step of its own. The worker may look for work at any time.
-/

namespace PipeWireAO.Parameter.Handoff

open Foundation

variable {B : Type*}

/-! ## The model -/

/-- Where the data loop stands. After `ndarray_parameter_handoff_schedule` stored `pending` it
stores `scheduled` and wakes the worker; a failed wake-up leads to `cancel_schedule`. After
`rearm_retry` took `retry` it stores `scheduled` and wakes the worker; a failed wake-up leads to
`restore_retry`. After `take_completed` took `completed` it takes `pending`. -/
inductive Producer (B : Type*)
  | idle
  | storeScheduled (b : B)
  | wake (b : B)
  | cancel (b : B)
  | clearPending (b : B)
  | rearm
  | rearmWake
  | restore
  | storeRetry
  | takePending
deriving DecidableEq

/-- Where the worker stands: between `claim` and the load of `pending`, or applying the buffer
(`spa_fgn_graph_update_parameter`). -/
inductive Worker (B : Type*)
  | idle
  | claimed
  | applying (b : B)
deriving DecidableEq

/-- `struct ndarray_parameter_handoff`, and the two threads. -/
structure State (B : Type*) where
  pending : Option B
  (scheduled retry completed : Bool)
  producer : Producer B
  worker : Worker B
deriving DecidableEq

/-- `ndarray_parameter_handoff_init` -/
def init : State B := ⟨none, false, false, false, .idle, .idle⟩

/-- The operations of the two threads. `produce` is the next step inside an operation of the
data loop; `signalled` is the outcome of `pw_loop_signal_event` where it is called. `work` is
the next step of the worker; `busy` says whether the graph answered `-EBUSY`. -/
inductive Action (B : Type*)
  | schedule (b : B)
  | takeCompleted
  | rearmRetry
  | produce (signalled : Bool)
  | claim
  | work (busy : Bool)
deriving DecidableEq

/-- The next step of the data loop inside an operation. -/
def produce (s : State B) (signalled : Bool) : Option (State B × List (Event B)) :=
  match s.producer with
  | .idle => none
  | .storeScheduled b => some ({ s with scheduled := true, producer := .wake b }, [])
  | .wake b => some ({ s with producer := if signalled then .idle else .cancel b }, [])
  | .cancel b =>
    -- `cancel_schedule`: only if the worker has not claimed the buffer
    if s.scheduled then some ({ s with scheduled := false, producer := .clearPending b }, [])
    else some ({ s with producer := .idle }, [])
  | .clearPending b => some ({ s with pending := none, producer := .idle }, [.withdrawn b])
  | .rearm => some ({ s with scheduled := true, producer := .rearmWake }, [])
  | .rearmWake => some ({ s with producer := if signalled then .idle else .restore }, [])
  | .restore =>
    -- `restore_retry`: likewise
    if s.scheduled then some ({ s with scheduled := false, producer := .storeRetry }, [])
    else some ({ s with producer := .idle }, [])
  | .storeRetry => some ({ s with retry := true, producer := .idle }, [])
  | .takePending =>
    some ({ s with pending := none, producer := .idle },
      match s.pending with
      | none => []
      | some b => [.returned b])

/-- The next step of the worker in `update_parameter`. -/
def work (s : State B) (busy : Bool) : Option (State B × List (Event B)) :=
  match s.worker with
  | .idle => none
  | .claimed =>
    match s.pending with
    | none => some ({ s with worker := .idle }, [])
    | some b => some ({ s with worker := .applying b }, [.called b])
  | .applying b =>
    if busy then some ({ s with retry := true, worker := .idle }, [.deferred b])
    else some ({ s with completed := true, worker := .idle }, [.completed b])

/-- The steps of the two threads. -/
def step (s : State B) : Action B → Option (State B × List (Event B))
  | .schedule b =>
    match s.producer, s.pending with
    | .idle, none => some ({ s with pending := some b, producer := .storeScheduled b }, [.offered b])
    -- the last buffer is still out: the new one goes straight back to its producer
    | .idle, some _ => some (s, [])
    | _, _ => none
  | .takeCompleted =>
    match s.producer, s.completed with
    | .idle, true => some ({ s with completed := false, producer := .takePending }, [])
    | .idle, false => some (s, [])
    | _, _ => none
  | .rearmRetry =>
    match s.producer, s.retry with
    | .idle, true => some ({ s with retry := false, producer := .rearm }, [])
    | .idle, false => some (s, [])
    | _, _ => none
  | .produce signalled => produce s signalled
  | .claim =>
    match s.worker, s.scheduled with
    | .idle, true =>
      some ({ s with scheduled := false, worker := .claimed },
        match s.pending with
        | none => []
        | some b => [.claimed b])
    | .idle, false => some (s, [])
    | _, _ => none
  | .work busy => work s busy

/-- The handoff of one port. -/
def machine (B : Type*) : Machine (State B) (Action B) (Event B) where
  step := step

/-! ## Who owns the buffer -/

/-- The data loop is between two operations on the flags, with no claim on the buffer `b`: a
schedule or a rearm of `b` may still wait for its wake-up or find that it cannot be undone. -/
def Passive (b : B) : Producer B → Prop
  | .idle => True
  | .wake b' => b' = b
  | .cancel b' => b' = b
  | .rearmWake => True
  | .restore => True
  | _ => False

/-- **Who owns the buffer**, read off the atomics and the program counters. -/
inductive Owns : State B → Owner B → Prop
  | free : Owns ⟨none, false, false, false, .idle, .idle⟩ .free
  | storing (b : B) : Owns ⟨some b, false, false, false, .storeScheduled b, .idle⟩ (.offered b)
  | offered {b : B} {p : Producer B} (h : p = .idle ∨ p = .wake b ∨ p = .cancel b) :
      Owns ⟨some b, true, false, false, p, .idle⟩ (.offered b)
  | cancelled (b : B) : Owns ⟨some b, false, false, false, .clearPending b, .idle⟩ (.offered b)
  | claimed {b : B} {p : Producer B} (h : Passive b p) :
      Owns ⟨some b, false, false, false, p, .claimed⟩ (.claimed b)
  | worker {b : B} {p : Producer B} (h : Passive b p) :
      Owns ⟨some b, false, false, false, p, .applying b⟩ (.worker b)
  | parked {b : B} {p : Producer B} (h : Passive b p) :
      Owns ⟨some b, false, true, false, p, .idle⟩ (.parked b)
  | rearming (b : B) : Owns ⟨some b, false, false, false, .rearm, .idle⟩ (.parked b)
  | rearmed {b : B} {p : Producer B} (h : p = .idle ∨ p = .rearmWake ∨ p = .restore) :
      Owns ⟨some b, true, false, false, p, .idle⟩ (.parked b)
  | restoring (b : B) : Owns ⟨some b, false, false, false, .storeRetry, .idle⟩ (.parked b)
  | done {b : B} {p : Producer B} (h : Passive b p) :
      Owns ⟨some b, false, false, true, p, .idle⟩ (.done b)
  | taking (b : B) : Owns ⟨some b, false, false, false, .takePending, .idle⟩ (.done b)

variable {s s' : State B} {q : Owner B} {es tr : List (Event B)} {signalled : Bool}

theorem produce_passive {b : B} {p : Producer B} (hp : Passive b p) (hs : s.producer = p)
    (hsch : s.scheduled = false) (h : produce s signalled = some (s', es)) :
    es = [] ∧ ∃ p', Passive b p' ∧ s' = { s with producer := p' } := by
  subst hs
  unfold produce at h
  split at h <;> rename_i hpc <;> rw [hpc] at hp
  · cases h
  · exact hp.elim
  · cases h
    refine ⟨rfl, _, ?_, rfl⟩
    split
    · trivial
    · exact hp
  · rw [if_neg (by simp [hsch])] at h
    cases h
    exact ⟨rfl, .idle, trivial, rfl⟩
  · exact hp.elim
  · exact hp.elim
  · cases h
    refine ⟨rfl, _, ?_, rfl⟩
    split <;> trivial
  · rw [if_neg (by simp [hsch])] at h
    cases h
    exact ⟨rfl, .idle, trivial, rfl⟩
  · exact hp.elim
  · exact hp.elim

theorem Owns.of_scheduled (hq : Owns s q) (h : s.scheduled = true) :
    ∃ b p, s = ⟨some b, true, false, false, p, .idle⟩ ∧ (q = .offered b ∨ q = .parked b) ∧
      Passive b p := by
  cases hq with
  | @offered b p hp =>
    refine ⟨b, p, rfl, .inl rfl, ?_⟩
    rcases hp with rfl | rfl | rfl <;> simp [Passive]
  | @rearmed b p hp =>
    refine ⟨b, p, rfl, .inr rfl, ?_⟩
    rcases hp with rfl | rfl | rfl <;> simp [Passive]
  | _ => cases h

theorem Owns.pending_eq (hq : Owns s q) : s.pending = q.buffer := by
  cases hq <;> rfl

theorem Owns.of_worker (hq : Owns s q) (h : s.worker ≠ .idle) :
    ∃ b, (q = .claimed b ∧ s.worker = .claimed) ∨ (q = .worker b ∧ s.worker = .applying b) := by
  cases hq with
  | claimed _ => exact ⟨_, .inl ⟨rfl, rfl⟩⟩
  | worker _ => exact ⟨_, .inr ⟨rfl, rfl⟩⟩
  | _ => exact absurd rfl h

theorem Owns.flags (hq : Owns s q) :
    ¬ (s.scheduled = true ∧ s.completed = true) ∧ ¬ (s.retry = true ∧ s.completed = true) := by
  cases hq <;> simp

variable [DecidableEq B] {a : Action B}

/-- The step passes the buffer on as the protocol says: not at all, or by one event. -/
inductive Follows (q : Owner B) (s' : State B) : List (Event B) → Prop
  | silent (h : Owns s' q) : Follows q s' []
  | event {e : Event B} {q' : Owner B} (he : lifeNext q e = some q') (h : Owns s' q') :
      Follows q s' [e]

theorem Follows.accept (h : Follows q s' es) : ∃ q', life.accept q es = some q' ∧ Owns s' q' := by
  cases h with
  | silent h => exact ⟨q, rfl, h⟩
  | event he h => exact ⟨_, by simpa [life] using he, h⟩

section Steps

variable (hq : Owns s q)

include hq

theorem schedule_owns {b : B} (h : step s (.schedule b) = some (s', es)) : Follows q s' es := by
  simp only [step] at h
  split at h
  · -- nothing is out, so the data loop may offer `b`
    rename_i hp
    cases h
    cases hq <;> cases hp
    exact .event rfl (.storing b)
  · cases h
    exact .silent hq
  · cases h

theorem takeCompleted_owns (h : step s .takeCompleted = some (s', es)) : Follows q s' es := by
  simp only [step] at h
  split at h
  · -- `completed` is only set once the worker is through
    rename_i hc
    cases h
    cases hq <;> cases hc
    exact .silent (.taking _)
  · cases h
    exact .silent hq
  · cases h

theorem rearmRetry_owns (h : step s .rearmRetry = some (s', es)) : Follows q s' es := by
  simp only [step] at h
  split at h
  · rename_i hc
    cases h
    cases hq <;> cases hc
    exact .silent (.rearming _)
  · cases h
    exact .silent hq
  · cases h

theorem claim_owns (h : step s .claim = some (s', es)) : Follows q s' es := by
  simp only [step] at h
  split at h
  · rename_i hc
    obtain ⟨b, p, rfl, hq, hp⟩ := hq.of_scheduled hc
    cases h
    have he : lifeNext q (.claimed b) = some (.claimed b) := by
      rcases hq with rfl | rfl <;> simp [lifeNext]
    exact .event he (.claimed hp)
  · cases h
    exact .silent hq
  · cases h

theorem work_owns {busy : Bool} (h : step s (.work busy) = some (s', es)) : Follows q s' es := by
  cases hq with
  | claimed hp =>
    cases h
    exact .event (by simp [lifeNext]) (.worker hp)
  | worker hp =>
    cases busy
    · cases h
      exact .event (by simp [lifeNext]) (.done hp)
    · cases h
      exact .event (by simp [lifeNext]) (.parked hp)
  | _ => cases h

theorem produce_owns (h : step s (.produce signalled) = some (s', es)) : Follows q s' es := by
  have h : produce s signalled = some (s', es) := h
  cases hq with
  | free => cases h
  | storing b =>
    cases h
    exact .silent (.offered (.inr (.inl rfl)))
  | @offered b p hp =>
    rcases hp with rfl | rfl | rfl
    · cases h
    · cases signalled <;> cases h
      · exact .silent (.offered (.inr (.inr rfl)))
      · exact .silent (.offered (.inl rfl))
    · -- the worker has not claimed the buffer: the offer is taken back
      cases h
      exact .silent (.cancelled b)
  | cancelled b =>
    cases h
    exact .event (by simp [lifeNext]) .free
  | claimed hp =>
    obtain ⟨rfl, p', hp', rfl⟩ := produce_passive hp rfl rfl h
    exact .silent (.claimed hp')
  | worker hp =>
    obtain ⟨rfl, p', hp', rfl⟩ := produce_passive hp rfl rfl h
    exact .silent (.worker hp')
  | parked hp =>
    obtain ⟨rfl, p', hp', rfl⟩ := produce_passive hp rfl rfl h
    exact .silent (.parked hp')
  | rearming b =>
    cases h
    exact .silent (.rearmed (.inr (.inl rfl)))
  | @rearmed b p hp =>
    rcases hp with rfl | rfl | rfl
    · cases h
    · cases signalled <;> cases h
      · exact .silent (.rearmed (.inr (.inr rfl)))
      · exact .silent (.rearmed (.inl rfl))
    · cases h
      exact .silent (.restoring b)
  | restoring b =>
    cases h
    exact .silent (.parked trivial)
  | done hp =>
    obtain ⟨rfl, p', hp', rfl⟩ := produce_passive hp rfl rfl h
    exact .silent (.done hp')
  | taking b =>
    cases h
    exact .event (by simp [lifeNext]) .free

/-- **Every step passes the buffer on as the protocol says.** -/
theorem step_owns (h : step s a = some (s', es)) : Follows q s' es := by
  cases a with
  | schedule b => exact schedule_owns hq h
  | takeCompleted => exact takeCompleted_owns hq h
  | rearmRetry => exact rearmRetry_owns hq h
  | produce signalled => exact produce_owns hq h
  | claim => exact claim_owns hq h
  | work busy => exact work_owns hq h

/-! ## The contract -/

theorem pending_of_worker (hw : s.worker ≠ .idle) (h : step s a = some (s', es)) :
    s'.pending = s.pending := by
  obtain ⟨b, hb⟩ := hq.of_worker hw
  rw [hq.pending_eq]
  cases step_owns hq h with
  | silent hq' => rw [hq'.pending_eq]
  | event he hq' =>
    rw [hq'.pending_eq]
    obtain ⟨b', h⟩ := lifeNext_cases he
    rcases hb with ⟨rfl, -⟩ | ⟨rfl, -⟩ <;>
      rcases h with ⟨h, -⟩ | ⟨h, -⟩ | ⟨h | h, -⟩ | ⟨h, -, rfl⟩ | ⟨h, -, rfl⟩ | ⟨h, -, rfl⟩ | ⟨h, -⟩ <;>
      cases h <;> rfl

end Steps

/-- **The contract of the handoff**, in every interleaving: each buffer is given back once for each
time it was scheduled, but for the one that is out; `cancel_schedule` gives it back only if it was
never claimed, and `take_completed` only right after it was completed; once it is completed,
`take_completed` does give it back; while the worker is at it, `pending` does not change; and
`completed` is never set together with `scheduled` or `retry`. -/
theorem handoff_safe (h : (machine B).Reaches init s tr) :
    (∃ q, life.accept .free tr = some q ∧ s.pending = q.buffer) ∧
    (∀ b, tr.count (.offered b) = tr.countP (Event.takesBack b) +
      if s.pending = some b then 1 else 0) ∧ (∀ a s' es b, step s a = some (s', es) →
      (.withdrawn b ∈ es → ∃ tr', tr = tr' ++ [.offered b]) ∧
      (.returned b ∈ es → ∃ tr', tr = tr' ++ [.called b, .completed b])) ∧
    (∀ tr' b, tr = tr' ++ [.completed b] →
      s.completed = true ∧ (s.producer = .idle → ∃ s', step s .takeCompleted = some (s', []) ∧
        ∀ w, ∃ s'', step s' (.produce w) = some (s'', [.returned b])) ∨
      s.producer = .takePending ∧ ∀ w, ∃ s', step s (.produce w) = some (s', [.returned b])) ∧
    (s.worker ≠ .idle → ∃ b, s.pending = some b ∧ (s.worker = .claimed ∨ s.worker = .applying b) ∧
      ∀ a s' es, step s a = some (s', es) → s'.pending = s.pending) ∧
    ¬ (s.scheduled = true ∧ s.completed = true) ∧ ¬ (s.retry = true ∧ s.completed = true) := by
  obtain ⟨q, ha, hq⟩ := h.simulates (O := life) Owns Owns.free fun hq hs => (step_owns hq hs).accept
  refine ⟨⟨q, ha, hq.pending_eq⟩, fun b => ?_, fun a s' es b hs => ⟨fun hb => ?_, fun hb => ?_⟩,
    fun tr' b htr => ?_, fun hw => ?_, hq.flags⟩
  · rw [hq.pending_eq]
    exact life_balance b ha
  · cases step_owns hq hs with
    | silent => cases hb
    | event he =>
      obtain rfl := List.mem_singleton.mp hb
      obtain ⟨b', h⟩ := lifeNext_cases he
      obtain ⟨rfl, rfl⟩ : q = .offered b' ∧ b = b' := by simp_all
      exact life_offered ha
  · cases step_owns hq hs with
    | silent => cases hb
    | event he =>
      obtain rfl := List.mem_singleton.mp hb
      obtain ⟨b', h⟩ := lifeNext_cases he
      obtain ⟨rfl, rfl⟩ : q = .done b' ∧ b = b' := by simp_all
      exact life_done ha
  · subst htr
    obtain rfl := life_completed ha
    cases hq with
    | done =>
      refine .inl ⟨rfl, fun hidle => ?_⟩
      cases hidle
      exact ⟨_, rfl, fun _ => ⟨_, rfl⟩⟩
    | taking => exact .inr ⟨rfl, fun _ => ⟨_, rfl⟩⟩
  · obtain ⟨b, hb⟩ := hq.of_worker hw
    refine ⟨b, ?_, ?_, fun a s' es hs => pending_of_worker hq hw hs⟩
    · rcases hb with ⟨rfl, -⟩ | ⟨rfl, -⟩ <;> exact hq.pending_eq
    · exact hb.imp And.right And.right

/-- A wake-up fails, but the worker, woken for another port, claims the buffer before the data
loop can cancel; the buffer is deferred once and completed after a retry. -/
def lateClaim : List (Event ℕ) :=
  [.offered 7, .claimed 7, .called 7, .deferred 7, .claimed 7, .called 7, .completed 7, .returned 7]

theorem handoff_safe_lateClaim : ∃ s : State ℕ, (machine ℕ).Reaches init s lateClaim ∧
    ∀ b, lateClaim.count (.offered b) =
      lateClaim.countP (Event.takesBack b) + if s.pending = some b then 1 else 0 :=
  have h : (machine ℕ).Reaches init _ lateClaim :=
    .of_run [.schedule 7, .produce false, .produce false, .claim, .produce false, .work false,
      .work true, .rearmRetry, .produce false, .produce true, .claim, .work false, .work false,
      .takeCompleted, .produce false] rfl
  ⟨_, h, (handoff_safe h).2.1⟩

end PipeWireAO.Parameter.Handoff
