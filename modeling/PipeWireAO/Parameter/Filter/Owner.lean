import PipeWireAO.Parameter.Filter.Model

/-!
# Who owns the buffer of a parameter port

The atomics of a port and the places of the two threads say who owns the buffer that is out. As long
as the data loop undoes nothing the worker has claimed, every step passes the buffer on as the
protocol says.
-/

namespace PipeWireAO.Parameter.Filter

open Foundation

variable {B : Type*} [DecidableEq B] {l : Loop B}

section Owns

omit [DecidableEq B]

/-- The data loop is at the port without touching the buffer that is out. -/
def Waiting : Loop B → Prop
  | .idle => True
  | .start => True
  | .check => True
  | .drain => True
  | .retry => True
  | _ => False

/-- The data loop offered `b` and may still have to find out that waking failed. -/
def Offering (b : B) : Loop B → Prop
  | .wake b' => b' = b
  | .undoFlag b' => b' = b
  | l => Waiting l

/-- The data loop offered the buffer again and may still have to find out that waking
failed. -/
def Rearming : Loop B → Prop
  | .retryWake => True
  | .retryClear => True
  | l => Waiting l

/-- The data loop has no claim on the buffer `b`, which is out. -/
def Passive (b : B) (l : Loop B) : Prop := Offering b l ∨ Rearming l

/-- The data loop may make a new offer; once the view is written, it is the view of the buffer
to be offered. -/
def Vacant (view : Option B) : Loop B → Prop
  | .idle => True
  | .start => True
  | .check => True
  | .collect _ => True
  | .project _ => True
  | .cas b => view = some b
  | _ => False

/-- **Who owns the buffer of a port**, read off the atomics and the two threads. From the offer
on, the view is the view of the buffer that is out. -/
inductive Owns : Port B → Owner B → Prop
  | free {v : Option B} {arr : List (B × Bool)} {l : Loop B} (h : Vacant v l) :
      Owns ⟨none, false, false, false, v, arr, l, .idle⟩ .free
  | storing {arr : List (B × Bool)} (b : B) :
      Owns ⟨some b, false, false, false, some b, arr, .store b, .idle⟩ (.offered b)
  | offered {b : B} {arr : List (B × Bool)} {l : Loop B} (h : Offering b l) :
      Owns ⟨some b, true, false, false, some b, arr, l, .idle⟩ (.offered b)
  | undoing {arr : List (B × Bool)} (b : B) :
      Owns ⟨some b, false, false, false, some b, arr, .undoPending b, .idle⟩ (.offered b)
  | claimed {b : B} {arr : List (B × Bool)} {l : Loop B} (h : Passive b l) :
      Owns ⟨some b, false, false, false, some b, arr, l, .claimed⟩ (.claimed b)
  | worker {b : B} {arr : List (B × Bool)} {l : Loop B} (h : Passive b l) :
      Owns ⟨some b, false, false, false, some b, arr, l, .calling b⟩ (.worker b)
  | parked {b : B} {arr : List (B × Bool)} {l : Loop B} (h : Passive b l) :
      Owns ⟨some b, false, true, false, some b, arr, l, .idle⟩ (.parked b)
  | retrying {arr : List (B × Bool)} (b : B) :
      Owns ⟨some b, false, false, false, some b, arr, .retryStore, .idle⟩ (.parked b)
  | rearmed {b : B} {arr : List (B × Bool)} {l : Loop B} (h : Rearming l) :
      Owns ⟨some b, true, false, false, some b, arr, l, .idle⟩ (.parked b)
  | restoring {arr : List (B × Bool)} (b : B) :
      Owns ⟨some b, false, false, false, some b, arr, .retryRestore, .idle⟩ (.parked b)
  | done {b : B} {arr : List (B × Bool)} {l : Loop B} (h : Passive b l) :
      Owns ⟨some b, false, false, true, some b, arr, l, .idle⟩ (.done b)
  | taking {arr : List (B × Bool)} (b : B) :
      Owns ⟨some b, false, false, false, some b, arr, .takePending, .idle⟩ (.done b)

variable {s s' : Port B} {q : Owner B} {b : B} {ok busy : Bool} {es tr : List (PortEvent B)}

theorem Owns.pending_eq (hq : Owns s q) : s.pending = q.buffer := by
  cases hq <;> rfl

theorem Owns.of_calling (hq : Owns s q) (h : s.worker = .calling b) :
    q = .worker b ∧ s.pending = some b ∧ s.view = some b := by
  cases hq <;> cases h
  exact ⟨rfl, rfl, rfl⟩

theorem Owns.of_scheduled (hq : Owns s q) (h : s.scheduled = true) :
    ∃ b arr l, s = ⟨some b, true, false, false, some b, arr, l, .idle⟩ ∧
      (q = .offered b ∨ q = .parked b) ∧ Passive b l := by
  cases hq with
  | offered hl => exact ⟨_, _, _, rfl, .inl rfl, .inl hl⟩
  | rearmed hl => exact ⟨_, _, _, rfl, .inr rfl, .inr hl⟩
  | _ => cases h

/-- The part of an event that is about the buffer that is out. -/
def lifeOf : PortEvent B → Option (Event B)
  | .life e => some e
  | _ => none

theorem loop_waiting (hl : Waiting s.loop) (hp : s.pending.isSome = true)
    (hstart : s.loop = .start → s.completed = false) (hretry : s.loop = .retry → s.retry = false)
    (h : loopStep s ok = some (s', es)) : es.filterMap lifeOf = [] ∧
      ∃ arr l, Waiting l ∧ s' = { s with arrivals := arr, loop := l } := by
  -- the places at which the data loop touches the buffer are not places to wait
  unfold loopStep at h
  split at h <;> rename_i hloop <;> rw [hloop] at hl
  · cases h
  · rw [if_neg (by simp [hstart hloop])] at h
    cases h
    exact ⟨rfl, _, .check, trivial, rfl⟩
  · exact hl.elim
  · cases h
    exact ⟨rfl, s.arrivals, .drain, trivial, by simp [hp]⟩
  · split at h
    · cases h
      exact ⟨rfl, _, .retry, trivial, rfl⟩
    · cases h
      exact ⟨rfl, _, s.loop, hloop ▸ hl, rfl⟩
  · rw [if_neg (by simp [hretry hloop])] at h
    cases h
    exact ⟨rfl, _, .idle, trivial, rfl⟩
  all_goals exact hl.elim

theorem loop_wake (h : loopStep s ok = some (s', es)) (hl : s.loop = .wake b) :
    es = [] ∧ ∃ l, Offering b l ∧ s' = { s with loop := l } := by
  simp only [loopStep, hl, Option.some.injEq, Prod.mk.injEq] at h
  obtain ⟨rfl, rfl⟩ := h
  refine ⟨rfl, _, ?_, rfl⟩
  split
  · trivial
  · rfl

theorem loop_retryWake (h : loopStep s ok = some (s', es)) (hl : s.loop = .retryWake) :
    es = [] ∧ ∃ l, Rearming l ∧ s' = { s with loop := l } := by
  simp only [loopStep, hl, Option.some.injEq, Prod.mk.injEq] at h
  obtain ⟨rfl, rfl⟩ := h
  refine ⟨rfl, _, ?_, rfl⟩
  split <;> trivial

theorem offering_of_waiting (h : Waiting l) : Offering b l := by
  cases l <;> simp_all [Waiting, Offering]

theorem rearming_of_waiting (h : Waiting l) : Rearming l := by
  cases l <;> simp_all [Waiting, Rearming]

theorem offering_cases (h : Offering b l) : Waiting l ∨ l = .wake b ∨ l = .undoFlag b := by
  cases l <;> simp_all [Waiting, Offering]

theorem rearming_cases (h : Rearming l) : Waiting l ∨ l = .retryWake ∨ l = .retryClear := by
  cases l <;> simp_all [Waiting, Rearming]

/-- **A data loop without a claim on the buffer leaves it alone**, given that it undoes nothing
the worker has claimed. -/
theorem loop_passive (hl : Passive b s.loop) (hp : s.pending.isSome = true)
    (hsch : s.scheduled = false) (hc : portUnclaimed s (.loop ok) = true)
    (hstart : s.loop = .start → s.completed = false) (hretry : s.loop = .retry → s.retry = false)
    (h : loopStep s ok = some (s', es)) : es.filterMap lifeOf = [] ∧
      ∃ arr l, Passive b l ∧ s' = { s with arrivals := arr, loop := l } := by
  have waiting : Waiting s.loop → es.filterMap lifeOf = [] ∧
      ∃ arr l, Passive b l ∧ s' = { s with arrivals := arr, loop := l } := by
    intro hw
    obtain ⟨he, arr, l, hl', hs⟩ := loop_waiting hw hp hstart hretry h
    exact ⟨he, arr, l, .inl (offering_of_waiting hl'), hs⟩
  rcases hl with hl | hl
  · rcases offering_cases hl with hw | hw | hw
    · exact waiting hw
    · obtain ⟨rfl, l, hl', rfl⟩ := loop_wake h hw
      exact ⟨rfl, s.arrivals, l, .inl hl', rfl⟩
    · -- the data loop would undo an offer that was claimed
      simp [portUnclaimed, hw, hsch] at hc
  · rcases rearming_cases hl with hw | hw | hw
    · exact waiting hw
    · obtain ⟨rfl, l, hl', rfl⟩ := loop_retryWake h hw
      exact ⟨rfl, s.arrivals, l, .inr hl', rfl⟩
    · simp [portUnclaimed, hw, hsch] at hc

end Owns

variable {s s' : Port B} {q : Owner B} {b : B} {ok busy : Bool} {es tr : List (PortEvent B)}

/-- The step passes the buffer on as the protocol says: not at all, or by one event. -/
inductive Follows (q : Owner B) (s' : Port B) (es : List (PortEvent B)) : Prop
  | silent (h : es.filterMap lifeOf = []) (hq : Owns s' q) : Follows q s' es
  | event {e : Event B} {q' : Owner B} (h : es.filterMap lifeOf = [e])
      (he : lifeNext q e = some q') (hq : Owns s' q') : Follows q s' es

theorem Follows.accept (h : Follows q s' es) :
    ∃ q', life.accept q (es.filterMap lifeOf) = some q' ∧ Owns s' q' := by
  cases h with
  | silent h hq => exact ⟨q, by rw [h]; rfl, hq⟩
  | event h he hq => exact ⟨_, by rw [h]; simpa [life] using he, hq⟩

theorem vacant_follows {v : Option B} {arr : List (B × Bool)} (hl : Vacant v l)
    (h : loopStep ⟨none, false, false, false, v, arr, l, .idle⟩ ok = some (s', es)) :
    Follows .free s' es := by
  cases l <;> try exact hl.elim
  case idle => cases h
  case start | check =>
    cases h
    exact .silent rfl (.free trivial)
  case collect latest =>
    rcases arr with _ | ⟨⟨b, _ | _⟩, rest⟩
    · cases latest <;> cases h <;> exact .silent rfl (.free trivial)
    · cases h
      refine .silent ?_ (.free trivial)
      cases latest <;> rfl
    · cases h
      exact .silent rfl (.free trivial)
  case project b =>
    cases ok <;> cases h
    · exact .silent rfl (.free trivial)
    · exact .silent rfl (.free rfl)
  case cas b =>
    obtain rfl : v = some b := hl
    cases h
    exact .event rfl rfl (.storing b)

/-- **A step of the data loop** passes the buffer on as the protocol says, unless it undoes what
the worker has claimed. -/
theorem loop_follows (hq : Owns s q) (hc : portUnclaimed s (.loop ok) = true)
    (h : loopStep s ok = some (s', es)) : Follows q s' es := by
  cases hq with
  | free hl => exact vacant_follows hl h
  | storing b =>
    cases h
    exact .silent rfl (.offered rfl)
  | @offered b arr l hl =>
    rcases offering_cases hl with hw | rfl | rfl
    · obtain ⟨he, arr', l', hl', rfl⟩ := loop_waiting hw rfl (fun _ => rfl) (fun _ => rfl) h
      exact .silent he (.offered (offering_of_waiting hl'))
    · obtain ⟨rfl, l', hl', rfl⟩ := loop_wake h rfl
      exact .silent rfl (.offered hl')
    · cases h
      exact .silent rfl (.undoing b)
  | undoing b =>
    cases h
    exact .event rfl (by simp [lifeNext]) (.free trivial)
  | claimed hl =>
    obtain ⟨he, arr, l, hl', rfl⟩ := loop_passive hl rfl rfl hc (fun _ => rfl) (fun _ => rfl) h
    exact .silent he (.claimed hl')
  | worker hl =>
    obtain ⟨he, arr, l, hl', rfl⟩ := loop_passive hl rfl rfl hc (fun _ => rfl) (fun _ => rfl) h
    exact .silent he (.worker hl')
  | @parked b arr l hl =>
    -- a parked buffer is offered again from `retry_parameter` only
    by_cases hr : l = .retry
    · subst hr
      cases h
      exact .silent rfl (.retrying b)
    · obtain ⟨he, arr, l, hl', rfl⟩ :=
        loop_passive hl rfl rfl hc (fun _ => rfl) (fun h => absurd h hr) h
      exact .silent he (.parked hl')
  | retrying b =>
    cases h
    exact .silent rfl (.rearmed trivial)
  | @rearmed b arr l hl =>
    rcases rearming_cases hl with hw | rfl | rfl
    · obtain ⟨he, arr', l', hl', rfl⟩ := loop_waiting hw rfl (fun _ => rfl) (fun _ => rfl) h
      exact .silent he (.rearmed (rearming_of_waiting hl'))
    · obtain ⟨rfl, l', hl', rfl⟩ := loop_retryWake h rfl
      exact .silent rfl (.rearmed hl')
    · cases h
      exact .silent rfl (.restoring b)
  | restoring b =>
    cases h
    exact .silent rfl (.parked (.inl trivial))
  | @done b arr l hl =>
    -- a completed buffer is taken at the start of `dequeue_parameter` only
    by_cases hr : l = .start
    · subst hr
      cases h
      exact .silent rfl (.taking b)
    · obtain ⟨he, arr, l, hl', rfl⟩ :=
        loop_passive hl rfl rfl hc (fun h => absurd h hr) (fun _ => rfl) h
      exact .silent he (.done hl')
  | taking b =>
    cases h
    exact .event rfl (by simp [lifeNext]) (.free trivial)

theorem enter_follows (hq : Owns s q) (h : portStep s .enter = some (s', es)) :
    Follows q s' es := by
  simp only [portStep] at h
  split at h
  · rename_i hl
    cases h
    refine .silent rfl ?_
    -- entering changes nothing but the position of the data loop
    cases hq <;> cases hl
    · exact .free trivial
    · exact .offered trivial
    · exact .claimed (.inl trivial)
    · exact .worker (.inl trivial)
    · exact .parked (.inl trivial)
    · exact .rearmed trivial
    · exact .done (.inl trivial)
  · cases h

end PipeWireAO.Parameter.Filter
