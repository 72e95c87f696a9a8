import PipeWireAO.Node.Dataflow.Model

/-!
# The signal time

A trigger publishes the time at which it was made. Since version 2 a sequence word guards the time: a
writer makes it odd and even again, a trigger only takes an even word, and a reader tries again while
the word is odd or has changed. `process_node` looks at the word before it moves the status.

These are two steps, so a trigger can come in between; and `pw_node_activation_set_signal_time` takes
no notice of the word. Where neither happens, the time that a node finds is that of its trigger.
-/

namespace PipeWireAO.Node.SignalTime

open Foundation Function Option
open Dataflow (seqWrite)

abbrev Time := BitVec 64

/-- Where a thread is: in `trigger_target_v2` before and after it read the word, after it claimed it,
and after it moved the status; in `pw_node_activation_set_signal_time` before the store; in either
before the second increment; in `pw_node_activation_get_signal_time` before the load and the second
read; or in `process_node` before the exchange. -/
inductive Pc
  | idle
  | read (nsec : Time)
  | claim (nsec : Time) (seq : ℕ)
  | exchange (nsec : Time)
  | store (nsec : Time)
  | set (time : Time)
  | close (time : Time)
  | release
  | load (seq : ℕ)
  | second (seq : ℕ) (time : Time)
  | ready
deriving DecidableEq

/-- Between the two increments of the sequence word. -/
def Pc.Inside : Pc → Bool
  | .exchange _ | .store _ | .set _ | .close _ | .release => true
  | _ => false

/-- An activation with version 2 and the threads that use it. -/
structure State (n : ℕ) where
  seq : ℕ
  time : Time
  status : ActivationStatus
  pending : Int
  pc : Fin n → Pc

/-- A trigger moved the status; `process_node` did, with the time at that moment; a writer of a time is
through; and a time was returned. -/
inductive Event
  | exchanged (nsec : Time)
  | awake (time : Time)
  | wrote (time : Time)
  | got (time : Time)
deriving DecidableEq

/-- A thread calls a function or takes its next step; a reader that has to try again is back before its
call. The count is set, and the status is moved by the
driver, by the rest of `process_node` and when the node is started or stopped: never to TRIGGERED. -/
inductive Action
  | trigger (nsec : Time)
  | setTime (time : Time)
  | getTime
  | process
  | next
  | reset (required : Int)
  | status (status : ActivationStatus)

variable {n : ℕ}

def State.goto (s : State n) (i : Fin n) (p : Pc) : State n := { s with pc := update s.pc i p }

/-- The next step of the thread `i`. -/
def next (s : State n) (i : Fin n) : Pc → State n × List Event
  | .idle => (s, [])
  -- the way out of `trigger_target_v2` from here is `-EBUSY`
  | .read t => (s.goto i (if s.seq % 2 = 0 then .claim t s.seq else .idle), [])
  | .claim t q =>
    if s.seq = q then ({ s with seq := seqWrite q }.goto i (.exchange t), []) else (s.goto i .idle, [])
  | .exchange t =>
    if s.status = .notTriggered then
      ({ s with status := .triggered }.goto i (.store t), [.exchanged t])
    else (s.goto i .release, [])
  | .store t | .set t => ({ s with time := t }.goto i (.close t), [])
  | .close t => ({ s with seq := seqWrite s.seq }.goto i .idle, [.wrote t])
  -- the result is `-EIO`
  | .release => ({ s with seq := seqWrite s.seq }.goto i .idle, [])
  | .load q => (s.goto i (.second q s.time), [])
  | .second q t => (s.goto i .idle, if q = s.seq ∧ s.seq % 2 = 0 then [.got t] else [])
  | .ready =>
    if s.status = .triggered then ({ s with status := .awake }.goto i .idle, [.awake s.time])
    else (s.goto i .idle, [])

def activation (n : ℕ) : Machine (State n) (Fin n × Action) Event where
  step s
    | (i, .trigger t) =>
      if s.pc i = .idle then
        some ({ s with pending := s.pending - 1 }.goto i (if s.pending - 1 = 0 then .read t else .idle), [])
      else none
    | (i, .setTime t) =>
      if s.pc i = .idle then some ({ s with seq := seqWrite s.seq }.goto i (.set t), []) else none
    | (i, .getTime) =>
      if s.pc i = .idle then some (s.goto i (if s.seq % 2 = 0 then .load s.seq else .idle), []) else none
    | (i, .process) =>
      if s.pc i = .idle then some (s.goto i (if s.seq % 2 = 0 then .ready else .idle), []) else none
    | (i, .next) => some (next s i (s.pc i))
    | (_, .reset required) => some ({ s with pending := required }, [])
    | (_, .status status) => if status = .triggered then none else some ({ s with status }, [])

/-- The time of the last trigger that moved the status, and the times that are complete. -/
structure Seen where
  trigger : Option Time
  complete : List Time

/-- **What the times are**: a node runs with the time of its trigger, and only a complete time is
returned. -/
def times : Observer Seen Event where
  next q
    | .exchanged t => some { q with trigger := some t }
    | .awake t => if q.trigger = some t then some q else none
    | .wrote t => some { q with complete := t :: q.complete }
    | .got t => if t ∈ q.complete then some q else none

/-- No trigger moves the status while `process_node` is about to, and the time is set while no writer is
inside and the node is not triggered. -/
def orderly (s : State n) : Fin n × Action → Bool
  | (i, .next) => match s.pc i with
    | .exchange _ => ∀ j, s.pc j ≠ .ready
    | _ => true
  | (_, .setTime _) => s.seq % 2 = 0 ∧ s.status ≠ .triggered
  | _ => true

/-! ## The writer -/

/-- What a thread has read, while the writer is at `w`. -/
def Reads (q : Seen) (w : Pc) : Pc → Prop
  | .claim _ seq | .load seq => seq % 2 = 0
  | .second _ t => t ∈ q.complete ∨ w = .close t
  | _ => True

/-- The time and the status, while the writer is at `w`. -/
def Phase (time : Time) (status : ActivationStatus) (q : Seen) : Pc → Prop
  | .store t => q.trigger = some t ∧ time ∈ q.complete
  | .set _ => status ≠ .triggered ∧ time ∈ q.complete
  | .close t => time = t ∧ (status = .triggered → q.trigger = some t)
  | _ => (status = .triggered → q.trigger = some time) ∧ time ∈ q.complete

def State.writer (s : State n) (h : Option (Fin n)) : Pc := h.elim .idle s.pc

/-- **The invariant**: the word is odd while the thread `h` is inside, and no other thread is. -/
structure Inv (s : State n) (q : Seen) (h : Option (Fin n)) : Prop where
  seq : s.seq % 2 = 0 ↔ h = none
  inside : ∀ i, (s.pc i).Inside = true ↔ h = some i
  reads : ∀ i, Reads q (s.writer h) (s.pc i)
  apart : ∀ i j t, s.pc i = .store t → s.pc j ≠ .ready
  phase : Phase s.time s.status q (s.writer h)

variable {s s' : State n} {q q' : Seen} {h h' : Option (Fin n)} {i : Fin n} {p : Pc}

theorem seqWrite_even (seq : ℕ) : seqWrite seq % 2 = 0 ↔ ¬ seq % 2 = 0 := by
  unfold seqWrite
  omega

/-- **A thread moves**, and the writer is `h'` afterwards. -/
theorem Inv.move (hi : Inv s q h) (hpc : s'.pc = update s.pc i p)
    (hseq : s'.seq % 2 = 0 ↔ h' = none) (hself : p.Inside = true ↔ h' = some i)
    (hother : ∀ j, j ≠ i → (h' = some j ↔ h = some j)) (hreads : Reads q' (s'.writer h') p)
    (hcomplete : ∀ t, t ∈ q.complete ∨ s.writer h = .close t → t ∈ q'.complete ∨ s'.writer h' = .close t)
    (hready : p = .ready → h' = none) (hstore : ∀ t, p = .store t → ∀ j, s.pc j ≠ .ready)
    (hphase : Phase s'.time s'.status q' (s'.writer h')) : Inv s' q' h' := by
  have hi' : s'.pc i = p := (congrFun hpc i).trans (update_self ..)
  have hj : ∀ j, j ≠ i → s'.pc j = s.pc j := fun j hj =>
    (congrFun hpc j).trans (update_of_ne hj ..)
  have hinside : ∀ j, (s'.pc j).Inside = true ↔ h' = some j := fun j => by
    by_cases hji : j = i
    · rw [hji, hi', hself]
    · rw [hj j hji, hi.inside, hother j hji]
  refine ⟨hseq, hinside, fun j => ?_, fun j k t hs hr => ?_, hphase⟩
  · by_cases hji : j = i
    · rw [hji, hi']
      exact hreads
    · have hread := hi.reads j
      rw [hj j hji]
      cases hp : s.pc j <;> rw [hp] at hread
      case second => exact hcomplete _ hread
      all_goals exact hread
  · by_cases hki : k = i
    · have hin := (hinside j).mp (by rw [hs]; rfl)
      rw [hready (hi' ▸ hki ▸ hr)] at hin
      cases hin
    · rw [hj k hki] at hr
      by_cases hji : j = i
      · exact hstore t (hi' ▸ hji ▸ hs) k hr
      · exact hi.apart j k t (hj j hji ▸ hs) hr

theorem Inv.goto (hi : Inv s q h) (hout : (s.pc i).Inside = false) (hp : p.Inside = false)
    (hready : p = .ready → h = none) (hreads : Reads q (s.writer h) p) : Inv (s.goto i p) q h := by
  have hne : h ≠ some i := fun heq => by simp [(hi.inside i).mpr heq] at hout
  have hw : (s.goto i p).writer h = s.writer h := by
    cases h with
    | none => rfl
    | some j => exact update_of_ne (fun heq => hne (congrArg some heq)) _ _
  refine hi.move rfl hi.seq (by simp [hp, hne]) (fun _ _ => Iff.rfl) (hw ▸ hreads) (by simp [hw]) hready
    (fun t ht => by rw [ht] at hp; cases hp) (hw ▸ hi.phase)

theorem Inv.hold (hi : Inv s q (some i)) (hpc : s'.pc = update s.pc i p)
    (hp : p.Inside = true) (hseq : s'.seq = s.seq) (hcomplete : q'.complete = q.complete)
    (hw : ∀ t, s.pc i ≠ .close t) (hstore : ∀ t, p = .store t → ∀ j, s.pc j ≠ .ready)
    (hphase : Phase s'.time s'.status q' p) : Inv s' q' (some i) := by
  have hw' : s'.writer (some i) = p := (congrFun hpc i).trans (update_self ..)
  refine hi.move hpc (hseq ▸ hi.seq) (by simp [hp]) (fun _ _ => Iff.rfl) ?_
    (fun t ht => .inl (hcomplete ▸ ht.resolve_right (hw t))) (by rintro rfl; cases hp) hstore
    (hw' ▸ hphase)
  cases p <;> trivial

theorem Inv.leave (hi : Inv s q (some i)) (hseq : s'.seq = seqWrite s.seq)
    (hpc : s'.pc = update s.pc i .idle)
    (hcomplete : ∀ t, t ∈ q.complete ∨ s.pc i = .close t → t ∈ q'.complete)
    (hphase : Phase s'.time s'.status q' .idle) : Inv s' q' none :=
  hi.move hpc (by simp [hseq, seqWrite_even, hi.seq]) ⟨nofun, nofun⟩ (fun j hj => by simp [Ne.symm hj])
    trivial (fun t ht => .inl (hcomplete t ht)) nofun nofun hphase

theorem Inv.enter (hi : Inv s q none) (hseq : s'.seq = seqWrite s.seq)
    (hpc : s'.pc = update s.pc i p) (hp : p.Inside = true) (hstore : ∀ t, p ≠ .store t)
    (hphase : Phase s'.time s'.status q p) : Inv s' q (some i) := by
  have hw : s'.writer (some i) = p := (congrFun hpc i).trans (update_self ..)
  refine hi.move hpc (by simp [hseq, seqWrite_even, hi.seq]) (by simp [hp])
    (fun j hj => by simp [Ne.symm hj]) ?_ (fun t ht => .inl (ht.resolve_right nofun))
    (by rintro rfl; cases hp) (fun t ht => absurd ht (hstore t)) (hw ▸ hphase)
  cases p <;> trivial

section

variable {time : Time} {status : ActivationStatus} {w : Pc}

theorem Phase.stored (hp : Phase time status q w) : time ∈ q.complete ∨ w = .close time := by
  cases w with
  | close t => exact .inr (congrArg _ hp.1.symm)
  | _ => exact .inl hp.2

theorem Phase.trigger (hp : Phase time .triggered q w) (hw : ∀ t, w ≠ .store t) :
    q.trigger = some time := by
  cases w with
  | store t => exact absurd rfl (hw t)
  | set t => exact absurd rfl hp.1
  | close t => exact hp.1 ▸ hp.2 rfl
  | _ => exact hp.1 rfl

end

theorem Inv.setStatus (hi : Inv s q h) {status : ActivationStatus} (hne : status ≠ .triggered) :
    Inv { s with status } q h := by
  refine ⟨hi.seq, hi.inside, hi.reads, hi.apart, ?_⟩
  have hp := hi.phase
  show Phase s.time status q (s.writer h)
  cases hw : s.writer h <;> rw [hw] at hp
  case store => exact hp
  case set => exact ⟨hne, hp.2⟩
  case close => exact ⟨hp.1, fun h => absurd h hne⟩
  all_goals exact ⟨fun h => absurd h hne, hp.2⟩

/-- **The next step** of a thread. -/
theorem Inv.next (hi : Inv s q h) (ho : orderly s (i, .next) = true) :
    ∃ q', times.accept q (next s i (s.pc i)).2 = some q' ∧ ∃ h', Inv (next s i (s.pc i)).1 q' h' := by
  have hreads := hi.reads i
  have hself := hi.inside i
  have hphase : h = some i → Phase s.time s.status q (s.pc i) := by
    rintro rfl
    exact hi.phase
  simp only [orderly] at ho
  rcases hpc : s.pc i <;> rw [hpc] at hreads hself hphase ho
  case idle => exact ⟨q, rfl, h, hi⟩
  case read t =>
    refine ⟨q, rfl, h, ?_⟩
    simp only [SignalTime.next]
    split_ifs with heven
    · exact hi.goto (hpc ▸ rfl) rfl nofun heven
    · exact hi.goto (hpc ▸ rfl) rfl nofun trivial
  case claim t seq =>
    by_cases heq : s.seq = seq
    · obtain rfl : h = none := hi.seq.mp (heq ▸ hreads)
      simp only [SignalTime.next, heq, if_true]
      exact ⟨q, rfl, some i, hi.enter (congrArg seqWrite heq.symm) rfl rfl nofun hi.phase⟩
    · simp only [SignalTime.next, heq, if_false]
      exact ⟨q, rfl, h, hi.goto (hpc ▸ rfl) rfl nofun trivial⟩
  case load seq => exact ⟨q, rfl, h, hi.goto (hpc ▸ rfl) rfl nofun hi.phase.stored⟩
  case second seq t =>
    refine ⟨q, ?_, h, hi.goto (hpc ▸ rfl) rfl nofun trivial⟩
    simp only [SignalTime.next]
    split_ifs with heven
    · obtain rfl : h = none := hi.seq.mp heven.2
      simp [times, show t ∈ q.complete from hreads.resolve_right nofun]
    · rfl
  case ready =>
    by_cases hst : s.status = .triggered
    · have htrigger : q.trigger = some s.time := by
        refine (hst ▸ hi.phase).trigger fun t ht => ?_
        -- no trigger is between the exchange and the store
        cases h with
        | none => cases ht
        | some j => exact hi.apart j i t ht hpc
      simp only [SignalTime.next, hst, if_true]
      have hi' : Inv { s with status := .awake } q h := hi.setStatus nofun
      exact ⟨q, by simp [times, htrigger], h, hi'.goto (hpc ▸ rfl) rfl nofun trivial⟩
    · simp only [SignalTime.next, hst, if_false]
      exact ⟨q, rfl, h, hi.goto (hpc ▸ rfl) rfl nofun trivial⟩
  -- the writer
  all_goals
    obtain rfl := hself.mp rfl
    replace hphase := hphase rfl
  case exchange t =>
    by_cases hst : s.status = .notTriggered
    · simp only [SignalTime.next, hst, if_true]
      exact ⟨{ q with trigger := some t }, rfl, some i, hi.hold rfl rfl rfl rfl (by simp [hpc])
        (fun _ _ => of_decide_eq_true ho) ⟨rfl, hphase.2⟩⟩
    · simp only [SignalTime.next, hst, if_false]
      exact ⟨q, rfl, some i, hi.hold rfl rfl rfl rfl (by simp [hpc]) nofun hphase⟩
  case store t =>
    exact ⟨q, rfl, some i, hi.hold rfl rfl rfl rfl (by simp [hpc]) nofun ⟨rfl, fun _ => hphase.1⟩⟩
  case set t =>
    exact ⟨q, rfl, some i, hi.hold rfl rfl rfl rfl (by simp [hpc]) nofun
      ⟨rfl, fun hst => absurd hst hphase.1⟩⟩
  case close t =>
    obtain ⟨rfl, htrigger⟩ := hphase
    exact ⟨{ q with complete := s.time :: q.complete }, rfl, none, hi.leave rfl rfl
      (by simp [hpc, eq_comm, or_comm]) ⟨htrigger, List.mem_cons_self⟩⟩
  case release => exact ⟨q, rfl, none, hi.leave rfl rfl (by simp [hpc]) hphase⟩

/-- **Every step** keeps the invariant, and its events are as they should be. -/
theorem Inv.step {a : Fin n × Action} {es : List Event} (hi : Inv s q h) (ho : orderly s a = true)
    (hs : (activation n).step s a = some (s', es)) :
    ∃ q', times.accept q es = some q' ∧ ∃ h', Inv s' q' h' := by
  obtain ⟨i, a⟩ := a
  -- the count is of no concern
  have hi' : ∀ pending, Inv { s with pending } q h := fun _ =>
    ⟨hi.seq, hi.inside, hi.reads, hi.apart, hi.phase⟩
  cases a with
  | next =>
    obtain ⟨rfl, rfl⟩ := Prod.ext_iff.mp (some.inj hs)
    exact hi.next ho
  | reset required =>
    cases hs
    exact ⟨q, rfl, h, hi' required⟩
  | status st =>
    obtain ⟨hne, hs⟩ := ite_none_left_eq_some.mp hs
    cases hs
    exact ⟨q, rfl, h, hi.setStatus hne⟩
  | setTime t =>
    obtain ⟨hpc, hs⟩ := ite_none_right_eq_some.mp hs
    cases hs
    obtain ⟨heven, hst⟩ := of_decide_eq_true ho
    obtain rfl : h = none := hi.seq.mp heven
    exact ⟨q, rfl, some i, hi.enter rfl rfl rfl nofun ⟨hst, hi.phase.2⟩⟩
  | trigger t =>
    obtain ⟨hpc, hs⟩ := ite_none_right_eq_some.mp hs
    cases hs
    refine ⟨q, rfl, h, ?_⟩
    split_ifs <;> exact (hi' _).goto (hpc ▸ rfl) rfl nofun trivial
  | getTime | process =>
    obtain ⟨hpc, hs⟩ := ite_none_right_eq_some.mp hs
    cases hs
    refine ⟨q, rfl, h, ?_⟩
    split_ifs with heven
    · exact hi.goto (hpc ▸ rfl) rfl (fun _ => hi.seq.mp heven) (by first | exact heven | trivial)
    · exact hi.goto (hpc ▸ rfl) rfl nofun trivial

/-- An activation that is not in use yet. -/
def State.new (n : ℕ) (time : Time) : State n := ⟨0, time, .inactive, 0, fun _ => .idle⟩

/-- **The signal time belongs to the trigger.** In every orderly run a node runs with the time of
the trigger that moved its status, and only times of writers that are through are returned. -/
theorem signal_time_matched {time : Time} {tr : List Event}
    (hr : ((activation n).restrict orderly).Reaches (State.new n time) s tr) :
    (∃ q, times.accept ⟨none, [time]⟩ tr = some q) ∧
    ((∀ i, (s.pc i).Inside = false) → s.seq % 2 = 0) ∧
    ∀ i, (∃ t, s.pc i = .exchange t ∧ s.status ≠ .notTriggered) ∨ s.pc i = .release →
      (next s i (s.pc i)).1.time = s.time := by
  have hnew : Inv (State.new n time) ⟨none, [time]⟩ none :=
    ⟨by simp [State.new], fun _ => ⟨nofun, nofun⟩, fun _ => trivial, nofun, nofun, List.mem_cons_self⟩
  obtain ⟨q, hq, h, hi⟩ := hr.simulates (fun s q => ∃ h, Inv s q h) ⟨none, hnew⟩ fun ⟨h, hi⟩ hs => by
    obtain ⟨ho, hs⟩ := Machine.restrict_step.mp hs
    exact hi.step ho hs
  refine ⟨⟨q, hq⟩, fun hnone => hi.seq.mpr ?_, ?_⟩
  · cases h with
    | none => rfl
    | some i => exact absurd ((hi.inside i).mpr rfl) (by simp [hnone i])
  · rintro i (⟨t, hpc, hst⟩ | hpc)
    · rw [hpc, next, if_neg hst]
      rfl
    · rw [hpc]
      rfl

/-- A trigger and its node, whose time is read. -/
def triggered : List (Fin 2 × Action) :=
  [(0, .reset 1), (0, .status .notTriggered), (0, .trigger 7), (0, .next), (0, .next), (0, .next),
    (0, .next), (0, .next), (1, .process), (1, .next), (0, .getTime), (0, .next), (0, .next)]

theorem signal_time_matched_triggered : ∃ s tr,
    ((activation 2).restrict orderly).Reaches (State.new 2 0) s tr ∧
    tr = [.exchanged 7, .wrote 7, .awake 7, .got 7] ∧
    ∃ q, times.accept ⟨none, [0]⟩ tr = some q := by
  exact Machine.Reaches.of_run_such triggered (by decide)
    fun s tr hr htr => ⟨htr, (signal_time_matched hr).1⟩

/-- **A node runs without its time.** `process_node` finds the word even; then a trigger claims it and
moves the status, and the node runs before the time is stored. -/
theorem awake_before_stored : ∃ s tr, (activation 2).Reaches (State.new 2 0) s tr ∧
    tr = [.exchanged 7, .awake 0] ∧ times.accept ⟨none, [0]⟩ tr = none := by
  exact Machine.Reaches.of_run_such
    [(0, .reset 1), (0, .status .notTriggered), (1, .process), (0, .trigger 7), (0, .next), (0, .next),
      (0, .next), (1, .next)] (by decide) fun _ _ _ h => h

end PipeWireAO.Node.SignalTime
