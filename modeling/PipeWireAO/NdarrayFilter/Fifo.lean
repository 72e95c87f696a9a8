import PipeWireAO.Foundation.Handler

/-!
# FIFO admission of frame inputs

With `PW_NDARRAY_FILTER_FLAG_FIFO_INPUTS`, `process` takes one buffer from the queue of every data
input and retains it until the callback has seen it. Inputs that wait for their peers or for an
output buffer stay retained over any number of cycles. After a callback the next buffers are taken
at once, and if there is enough input for another callback, a further cycle is requested.
-/

namespace PipeWireAO.NdarrayFilter.Fifo

open Foundation List Option

variable {B : Type*}

/-! ## One data input -/

/-- A buffer of a data input: a sample, or a token of size zero. -/
structure Buffer (B : Type*) where
  id : B
  absent : Bool
deriving DecidableEq

/-- With `INDEPENDENT_INPUTS` a buffer of size zero says that there is no sample. -/
def Buffer.isToken (independent : Bool) (b : Buffer B) : Bool := independent && b.absent

/-- A data input: its queue, and its `input_buffers` and `input_available`. -/
structure Port (B : Type*) where
  queue : List (Buffer B)
  retained : Option (Buffer B)
  available : Bool
deriving DecidableEq

/-- What is observed at a data input: a buffer arrives in its queue; it is dequeued, presented to
the callback, and queued back to its producer. -/
inductive PortEvent (B : Type*)
  | arrived (b : Buffer B)
  | dequeued (b : Buffer B)
  | presented (b : Buffer B)
  | queued (b : Buffer B)
deriving DecidableEq

/-- The loop of `dequeue_fifo_input`: tokens go back, up to the first sample. -/
def dequeueLoop (independent : Bool) :
    List (Buffer B) → List (Buffer B) × Option (Buffer B) × List (PortEvent B)
  | [] => ([], none, [])
  | b :: rest =>
    if b.isToken independent then
      let r := dequeueLoop independent rest
      (r.1, r.2.1, .dequeued b :: .queued b :: r.2.2)
    else (rest, some b, [.dequeued b])

def dequeueFifoInput (independent : Bool) : Handler (Port B) (PortEvent B) := fun p =>
  match p.retained with
  | some _ => (p, [])
  | none =>
    let r := dequeueLoop independent p.queue
    (⟨r.1, r.2.1, r.2.1.isSome⟩, r.2.2)

/-- What the callback sees of an input. -/
def presentInput : Handler (Port B) (PortEvent B) := fun p =>
  (p, if p.available then p.retained.toList.map .presented else [])

/-- `recycle_inputs`, for one input. -/
def recycleInput : Handler (Port B) (PortEvent B) := fun p =>
  match p.retained with
  | none => (p, [])
  | some b => ({ p with retained := none, available := false }, [.queued b])

/-! ## The filter -/

/-- The options of a filter with FIFO inputs: `INDEPENDENT_INPUTS`, and how many data inputs and
outputs. -/
structure Options where
  independent : Bool
  (inputs outputs : ℕ)
deriving DecidableEq

/-- The data inputs; which outputs hold a buffer; `fifo_process_scheduled`; and whether an error
was signalled. -/
structure State (B : Type*) where
  ports : ℕ → Port B
  outputs : ℕ → Bool
  (scheduled failed : Bool)

/-- What is observed of a filter: its callback, and what happens at its data inputs. -/
inductive Event (B : Type*)
  | callback
  | port (i : ℕ) (e : PortEvent B)
deriving DecidableEq

/-- How a cycle ends once it is ready: a buffer is refused before the callback, the callback or one
of its outputs is wrong, or it succeeds. -/
inductive Outcome
  | refused
  | failed
  | ok
deriving DecidableEq

/-- The environment of a cycle: for which outputs a buffer can be dequeued, how it ends, which
outputs the callback keeps unpublished, and whether the main loop can be signalled. -/
structure Cycle where
  fresh : ℕ → Bool
  outcome : Outcome
  kept : ℕ → Bool
  signalled : Bool

/-- A step at all the data inputs. -/
def onPorts (h : Handler (Port B) (PortEvent B)) (o : Options) : Handler (State B) (Event B) :=
  fun s =>
    let r := Handler.family (fun _ => h) (List.range o.inputs) s.ports
    ({ s with ports := r.1 }, r.2.map fun e => .port e.1 e.2)

/-- There is enough input for a callback: from every data input, or with `INDEPENDENT_INPUTS` from
one of them. -/
def enough (o : Options) (s : State B) : Bool :=
  if o.independent then (List.range o.inputs).any fun i => (s.ports i).available
  else (List.range o.inputs).all fun i => (s.ports i).available

/-- The cycle can run the callback. Without data inputs, `INDEPENDENT_INPUTS` waits for none. -/
def ready (o : Options) (s : State B) : Bool :=
  ((List.range o.outputs).all fun i => s.outputs i) &&
    (enough o s || o.independent && o.inputs == 0)

def scheduleFifoProcess (x : Cycle) (s : State B) : State B :=
  if s.scheduled then s
  else if x.signalled then { s with scheduled := true }
  else { s with failed := true }

def scheduleFifoBacklog (o : Options) (x : Cycle) : Handler (State B) (Event B) :=
  .andThen (onPorts (dequeueFifoInput o.independent) o)
    (.modify fun s =>
      if o.inputs = 0 ∨ enough o s = false then s else scheduleFifoProcess x s)

/-- The rest of `process` when it is ready. An error takes the inputs back, too. -/
def runCallback (o : Options) (x : Cycle) : Handler (State B) (Event B) :=
  match x.outcome with
  | .refused => .andThen (.modify fun s => { s with failed := true }) (onPorts recycleInput o)
  | .failed =>
    .andThen (.emit .callback) (.andThen (onPorts presentInput o)
      (.andThen (.modify fun s => { s with failed := true }) (onPorts recycleInput o)))
  | .ok =>
    .andThen (.emit .callback) (.andThen (onPorts presentInput o)
      (.andThen (.modify fun s =>
          { s with outputs := fun i => s.outputs i && (decide (o.outputs ≤ i) || x.kept i) })
        (.andThen (onPorts recycleInput o) (scheduleFifoBacklog o x))))

/-- The buffers `process` takes before it looks whether it is ready. -/
def takeBuffers (o : Options) (x : Cycle) : Handler (State B) (Event B) :=
  .andThen (onPorts (dequeueFifoInput o.independent) o)
    (.modify fun s =>
      { s with outputs := fun i => s.outputs i || (decide (i < o.outputs) && x.fresh i) })

/-- `process` with FIFO inputs. -/
def process (o : Options) (x : Cycle) : Handler (State B) (Event B) :=
  .andThen (takeBuffers o x) (fun s => if ready o s then runCallback o x s else (s, []))

/-- A buffer arrives at a data input, a cycle is processed, or the main loop runs
`fifo_process_event`. -/
inductive Action (B : Type*)
  | arrive (i : ℕ) (b : Buffer B)
  | process (x : Cycle)
  | event (triggered : Bool)

/-- The steps of a filter. Tokens arrive with `INDEPENDENT_INPUTS` only. -/
def step (o : Options) (s : State B) : Action B → Option (State B × List (Event B))
  | .arrive i b =>
    if i < o.inputs ∧ (b.absent = true → o.independent = true) then
      some ({ s with ports := Function.update s.ports i
                        { s.ports i with queue := (s.ports i).queue ++ [b] } },
        [.port i (.arrived b)])
    else none
  | .process x => some (process o x s)
  | .event triggered => some ({ s with scheduled := false, failed := s.failed || !triggered }, [])

/-- A filter with FIFO inputs. -/
def machine (B : Type*) (o : Options) : Machine (State B) (Action B) (Event B) where
  step := step o

/-- The step signals no error. -/
def clean (o : Options) (s : State B) (a : Action B) : Bool :=
  match step o s a with
  | some (s', _) => !s'.failed
  | none => true

/-- A filter before its first cycle. -/
def init : State B := ⟨fun _ => ⟨[], none, false⟩, fun _ => false, false, false⟩

/-! ## The life of a buffer at an input -/

/-- Where the buffer that was dequeued is. -/
inductive Life (B : Type*)
  | idle
  | held (b : Buffer B)
  | seen (b : Buffer B)
deriving DecidableEq

section Ingress

variable [DecidableEq B]

/-- A sample is dequeued, presented once and queued back, before the next one; a token goes back at
once. -/
def ingressNext (independent : Bool) : Life B → PortEvent B → Option (Life B)
  | q, .arrived _ => some q
  | .idle, .dequeued b => some (.held b)
  | .held b, .presented b' =>
    if b = b' ∧ b.isToken independent = false then some (.seen b) else none
  | .held b, .queued b' => if b = b' ∧ b.isToken independent = true then some .idle else none
  | .seen b, .queued b' => if b = b' then some .idle else none
  | _, _ => none

/-- **The life of a buffer at an input.** -/
def ingress (independent : Bool) : Observer (Life B) (PortEvent B) where
  next := ingressNext independent

end Ingress

def PortEvent.sample (independent : Bool) : PortEvent B → Option (Buffer B)
  | .arrived b => if b.isToken independent then none else some b
  | _ => none

/-- The sample that is presented by an event. -/
def PortEvent.shown : PortEvent B → Option (Buffer B)
  | .presented b => some b
  | _ => none

/-- The life of the buffer an input retains between cycles. -/
def lifeOf : Option (Buffer B) → Life B
  | none => .idle
  | some b => .held b

variable [DecidableEq B] {a : Action B}

/-- The number of times `b` is out of the queue of its producer. -/
def Life.count (b : Buffer B) : Life B → ℕ
  | .idle => 0
  | .held b' => if b' = b then 1 else 0
  | .seen b' => if b' = b then 1 else 0

theorem ingress_balance {independent : Bool} {q : Life B} {tr : List (PortEvent B)} (b : Buffer B)
    (h : (ingress independent).accept .idle tr = some q) :
    tr.count (.dequeued b) = q.count b + tr.count (.queued b) := by
  have hstep : ∀ {q q' : Life B} {e : PortEvent B}, (ingress independent).next q e = some q' →
      q.count b + [e].countP (· == .dequeued b) = q'.count b + [e].countP (· == .queued b) := by
    intro q q' e hq
    simp only [ingress] at hq
    cases q <;> cases e <;> simp only [ingressNext] at hq <;>
      grind [Life.count, countP_singleton]
  have := Observer.accept_balance (· == .dequeued b) (· == .queued b) (Life.count b) hstep h
  simpa [List.count, Life.count] using this

open PortEvent (shown)

/-- **Where the samples of an input are**: those that arrived are the ones that were presented, the
one that is retained, and those in the queue, in this order. -/
structure PortInv (independent : Bool) (p : Port B) (tr : List (PortEvent B)) : Prop where
  life : (ingress independent).accept .idle tr = some (lifeOf p.retained)
  available : p.available = p.retained.isSome
  sample : ∀ b ∈ p.retained, b.isToken independent = false
  order : tr.filterMap (PortEvent.sample independent) =
    tr.filterMap shown ++ p.retained.toList ++
      p.queue.filter fun b => !b.isToken independent

section Port

variable {independent : Bool} {p : Port B} {tr : List (PortEvent B)}

theorem dequeueLoop_spec (independent : Bool) (queue : List (Buffer B)) :
    (ingress independent).accept .idle (dequeueLoop independent queue).2.2 =
        some (lifeOf (dequeueLoop independent queue).2.1) ∧
      (∀ b ∈ (dequeueLoop independent queue).2.1, b.isToken independent = false) ∧
      (dequeueLoop independent queue).2.2.filterMap (PortEvent.sample independent) = [] ∧
      (dequeueLoop independent queue).2.2.filterMap shown = [] ∧
      (queue.filter fun b => !b.isToken independent) = (dequeueLoop independent queue).2.1.toList ++
          (dequeueLoop independent queue).1.filter fun b => !b.isToken independent := by
  induction queue with
  | nil => simp [dequeueLoop, lifeOf]
  | cons b rest ih =>
    obtain ⟨hlife, hsample, harr, hshown, horder⟩ := ih
    by_cases hb : b.isToken independent = true
    · simp only [dequeueLoop, hb, if_true]
      refine ⟨?_, hsample, ?_, ?_, ?_⟩
      · -- the token is held and goes back
        have hheld : (ingress independent).next .idle (.dequeued b) = some (.held b) := rfl
        have hback : (ingress independent).next (.held b) (.queued b) = some .idle :=
          if_pos ⟨rfl, hb⟩
        exact Observer.accept_cons_eq_some.mpr
          ⟨_, hheld, Observer.accept_cons_eq_some.mpr ⟨_, hback, hlife⟩⟩
      · simpa [PortEvent.sample] using harr
      · simpa [shown] using hshown
      · simpa [hb] using horder
    · simp only [dequeueLoop, hb]
      refine ⟨rfl, ?_, rfl, rfl, ?_⟩
      · simpa using hb
      · simp [hb]

theorem dequeue_inv (h : PortInv independent p tr) :
    PortInv independent (dequeueFifoInput independent p).1
      (tr ++ (dequeueFifoInput independent p).2) := by
  cases hr : p.retained with
  | some b =>
    simp only [dequeueFifoInput, hr, append_nil]
    exact h
  | none =>
    obtain ⟨hlife, hsample, harr, hshown, horder⟩ := dequeueLoop_spec independent p.queue
    simp only [dequeueFifoInput, hr]
    refine ⟨?_, rfl, hsample, ?_⟩
    · refine Observer.accept_append.mpr ⟨.idle, ?_, hlife⟩
      simpa [hr, lifeOf] using h.life
    · have := h.order
      simp only [hr, toList_none, append_nil] at this
      simp only [filterMap_append, harr, hshown, append_nil, this, horder,
        append_assoc]

theorem present_recycle_inv (h : PortInv independent p tr) : PortInv independent (recycleInput p).1
      (tr ++ ((presentInput p).2 ++ (recycleInput p).2)) := by
  cases hr : p.retained with
  | none =>
    have ha : p.available = false := by simp [h.available, hr]
    simpa [presentInput, recycleInput, hr, ha] using h
  | some b =>
    have ha : p.available = true := by simp [h.available, hr]
    have hb : b.isToken independent = false := h.sample b (by simp [hr])
    simp only [presentInput, recycleInput, hr, ha, if_true, toList_some, map_singleton,
      singleton_append]
    refine ⟨?_, rfl, by simp, ?_⟩
    · refine Observer.accept_append.mpr ⟨.held b, ?_, ?_⟩
      · simpa [hr, lifeOf] using h.life
      · have hshow : (ingress independent).next (.held b) (.presented b) = some (.seen b) :=
          if_pos ⟨rfl, hb⟩
        have hback : (ingress independent).next (.seen b) (.queued b) = some .idle := if_pos rfl
        exact Observer.accept_cons_eq_some.mpr
          ⟨_, hshow, Observer.accept_cons_eq_some.mpr ⟨_, hback, rfl⟩⟩
    · have := h.order
      simp only [hr, toList_some] at this
      have hnew : [PortEvent.presented b, .queued b].filterMap (PortEvent.sample independent) = [] :=
        rfl
      have hshown : [PortEvent.presented b, .queued b].filterMap shown = [b] := rfl
      simp only [filterMap_append, hnew, hshown, this, append_nil, toList_none]

/-- A cycle at one input: its callback runs or not. -/
def cycle (independent ran : Bool) : Handler (Port B) (PortEvent B) :=
  .andThen (dequeueFifoInput independent)
    (if ran then
      .andThen presentInput (.andThen recycleInput (dequeueFifoInput independent))
    else .skip)

/-- **A cycle keeps the order of the samples.** -/
theorem cycle_inv (ran : Bool) (h : PortInv independent p tr) :
    PortInv independent (cycle independent ran p).1 (tr ++ (cycle independent ran p).2) := by
  have h₁ := dequeue_inv h
  cases ran with
  | false => simpa [cycle, Handler.andThen, Handler.skip] using h₁
  | true =>
    have h₂ := dequeue_inv (present_recycle_inv h₁)
    have hp : ∀ p : Port B, (presentInput p).1 = p := fun _ => rfl
    simpa [cycle, Handler.andThen, hp, append_assoc] using h₂

/-- The steps at one input. -/
inductive PortAction (B : Type*)
  | arrive (b : Buffer B)
  | cycle (ran : Bool)

/-- One data input of a filter. -/
def portMachine (B : Type*) (independent : Bool) :
    Machine (Port B) (PortAction B) (PortEvent B) :=
  .ofHandlers fun
    | .arrive b => fun p => ({ p with queue := p.queue ++ [b] }, [.arrived b])
    | .cycle ran => cycle independent ran

theorem arrive_inv (b : Buffer B) (h : PortInv independent p tr) :
    PortInv independent { p with queue := p.queue ++ [b] } (tr ++ [.arrived b]) := by
  refine ⟨?_, h.available, h.sample, ?_⟩
  · exact Observer.accept_append.mpr ⟨_, h.life, rfl⟩
  · have hshown : [PortEvent.arrived b].filterMap shown = [] := rfl
    simp only [filterMap_append, filter_append, hshown, append_nil, h.order,
      append_assoc]
    by_cases hb : b.isToken independent <;> simp [PortEvent.sample, hb]

theorem port_inv (h : (portMachine B independent).Reaches ⟨[], none, false⟩ p tr) :
    PortInv independent p tr := by
  refine h.induct (I := PortInv independent) ⟨rfl, rfl, by simp, rfl⟩ ?_
  intro p p' tr es a hi hs
  cases a with
  | arrive b =>
    cases hs
    exact arrive_inv b hi
  | cycle ran =>
    have hs : cycle independent ran p = (p', es) := some.inj hs
    have := cycle_inv ran hi
    rwa [hs] at this

end Port

/-! ## All the inputs -/

section Filter

omit [DecidableEq B]

variable {o : Options} {x : Cycle} {s s' : State B} {es tr : List (Event B)} {i : ℕ}

/-- The part of an event that is about data input `i`. -/
def Event.atPort (i : ℕ) : Event B → Option (PortEvent B)
  | .callback => none
  | .port j e => if j = i then some e else none

/-- The handler `h` does to input `i` what `k` does. -/
def Acts (h : Handler (State B) (Event B)) (i : ℕ) (k : Handler (Port B) (PortEvent B)) : Prop :=
  ∀ s, k (s.ports i) = ((h s).1.ports i, (h s).2.filterMap (Event.atPort i))

section Acts

variable {h h' : Handler (State B) (Event B)} {k k' : Handler (Port B) (PortEvent B)}

theorem Acts.modify {f : State B → State B} (hf : ∀ s, (f s).ports = s.ports) :
    Acts (.modify f) i .skip := by
  intro s
  simp [Handler.modify, Handler.skip, hf]

theorem Acts.callback : Acts (.emit .callback : Handler (State B) (Event B)) i .skip :=
  fun _ => rfl

theorem Acts.andThen (hk : Acts h i k) (hk' : Acts h' i k') :
    Acts (.andThen h h') i (.andThen k k') := by
  intro s
  have h₁ := hk s
  have h₂ := hk' (h s).1
  simp only [Handler.andThen, filterMap_append, h₁, h₂]

theorem filterMap_atPort (es : List (ℕ × PortEvent B)) :
    (es.map fun e => Event.port e.1 e.2).filterMap (Event.atPort i) = es.filterMap (eventAt i) := by
  rw [filterMap_map]
  rfl

theorem Acts.onPorts (hi : i < o.inputs) : Acts (onPorts k o) i k := by
  intro s
  have hmem : i ∈ List.range o.inputs := mem_range.mpr hi
  simp only [Fifo.onPorts, filterMap_atPort, Handler.family_apply _ _ _ nodup_range,
    Handler.family_events _ _ _ nodup_range, hmem, if_true]

end Acts

theorem runCallback_acts (hi : i < o.inputs) (hok : x.outcome = .ok) :
    Acts (runCallback o x : Handler (State B) (Event B)) i
      (.andThen presentInput (.andThen recycleInput (dequeueFifoInput o.independent))) := by
  have hsched : ∀ s : State B, (if o.inputs = 0 ∨ enough o s = false then s
      else scheduleFifoProcess x s).ports = s.ports := by
    intro s
    unfold scheduleFifoProcess
    split_ifs <;> rfl
  have hback := (Acts.onPorts (k := dequeueFifoInput o.independent) hi).andThen (.modify hsched)
  have hkept : Acts (B := B) (.modify fun s =>
      { s with outputs := fun i => s.outputs i && (decide (o.outputs ≤ i) || x.kept i) })
      i .skip := .modify fun _ => rfl
  have := Acts.callback.andThen ((Acts.onPorts (k := presentInput) hi).andThen
    (hkept.andThen ((Acts.onPorts (k := recycleInput) hi).andThen hback)))
  simpa [runCallback, hok, scheduleFifoBacklog] using this

theorem runCallback_failed (hok : x.outcome ≠ .ok) : (runCallback o x s).1.failed = true := by
  unfold runCallback
  cases hx : x.outcome with
  | refused | failed => rfl
  | ok => exact absurd hx hok

theorem process_eq (o : Options) (x : Cycle) (s : State B) :
    process o x s = Handler.andThen (takeBuffers o x)
      (if ready o (takeBuffers o x s).1 then runCallback o x else .skip) s := by
  simp only [process, Handler.andThen]
  split <;> rfl

theorem process_cases (hf : (process o x s).1.failed = false) : process o x s = takeBuffers o x s ∨
      x.outcome = .ok ∧ process o x s = Handler.andThen (takeBuffers o x) (runCallback o x) s := by
  rw [process_eq] at hf ⊢
  by_cases hr : ready o (takeBuffers o x s).1
  · rw [if_pos hr] at hf ⊢
    refine .inr ⟨?_, rfl⟩
    by_contra hne
    have := runCallback_failed (o := o) (s := (takeBuffers o x s).1) hne
    simp [Handler.andThen, this] at hf
  · rw [if_neg hr, Handler.andThen_skip]
    exact .inl rfl

/-- **A cycle at one of the inputs**, if no error is signalled. -/
theorem process_port (hi : i < o.inputs) (hf : (process o x s).1.failed = false) :
    ∃ ran, cycle o.independent ran (s.ports i) =
      ((process o x s).1.ports i, (process o x s).2.filterMap (Event.atPort i)) := by
  have htake : Acts (takeBuffers o x : Handler (State B) (Event B)) i
      (.andThen (dequeueFifoInput o.independent) .skip) :=
    (Acts.onPorts hi).andThen (.modify fun _ => rfl)
  rcases process_cases hf with h | ⟨hok, h⟩
  · rw [h]
    exact ⟨false, htake s⟩
  · rw [h]
    rw [Handler.andThen_skip] at htake
    exact ⟨true, htake.andThen (runCallback_acts hi hok) s⟩

theorem runCallback_scheduled (hok : x.outcome = .ok) (hf : (runCallback o x s).1.failed = false) :
    (runCallback o x s).1.scheduled = true ↔
      s.scheduled = true ∨ 0 < o.inputs ∧ enough o (runCallback o x s).1 = true := by
  -- `t` is the state in which `schedule_fifo_backlog` has taken the next buffers
  obtain ⟨t, ht, hsched⟩ : ∃ t, (runCallback o x s).1 =
      (if o.inputs = 0 ∨ enough o t = false then t else scheduleFifoProcess x t) ∧
        t.scheduled = s.scheduled := by
    simp only [runCallback, hok]
    exact ⟨_, rfl, rfl⟩
  rw [ht] at hf ⊢
  rw [← hsched]
  by_cases hn : o.inputs = 0 ∨ enough o t = false
  · rcases hn with hn | hn
    · simp [hn]
    · simp [hn]
  · rw [if_neg hn] at hf ⊢
    have hports : (scheduleFifoProcess x t).ports = t.ports := by
      unfold scheduleFifoProcess
      split_ifs <;> rfl
    rw [enough, hports, ← enough]
    have hin : 0 < o.inputs := Nat.pos_of_ne_zero (not_or.mp hn).1
    have he : enough o t = true := Bool.of_not_eq_false (not_or.mp hn).2
    simp only [scheduleFifoProcess] at hf ⊢
    split_ifs at hf ⊢ with h₁ h₂
    · simp [h₁]
    · simp [hin, he]

/-- **When a cycle is requested.** -/
theorem process_scheduled (hf : (process o x s).1.failed = false) :
    (process o x s).1.scheduled = true ↔ s.scheduled = true ∨
      .callback ∈ (process o x s).2 ∧ 0 < o.inputs ∧ enough o (process o x s).1 = true := by
  have hno : Event.callback ∉ (takeBuffers o x s).2 := by
    simp [takeBuffers, Handler.andThen, Handler.modify, onPorts]
  rcases process_cases hf with h | ⟨hok, h⟩
  · rw [h]
    simp only [hno, false_and, or_false]
    exact Iff.rfl
  · have hrun : Event.callback ∈ (runCallback o x (takeBuffers o x s).1).2 := by
      simp [runCallback, hok, Handler.andThen, Handler.emit]
    rw [h] at hf ⊢
    have := runCallback_scheduled hok hf
    simp only [Handler.andThen, mem_append, hrun, or_true, true_and]
    exact this

theorem clean_step (h : ((machine B o).restrict (clean o)).step s a = some (s', es)) :
    step o s a = some (s', es) ∧ s'.failed = false := by
  obtain ⟨hc, hs⟩ := Machine.restrict_step.mp h
  have hs : step o s a = some (s', es) := hs
  refine ⟨hs, ?_⟩
  simpa [clean, hs] using hc

theorem step_port (hi : i < o.inputs)
    (h : ((machine B o).restrict (clean o)).step s a = some (s', es)) :
    (s'.ports i = s.ports i ∧ es.filterMap (Event.atPort i) = []) ∨
      ∃ c, (portMachine B o.independent).step (s.ports i) c =
        some (s'.ports i, es.filterMap (Event.atPort i)) := by
  obtain ⟨hs, hf⟩ := clean_step h
  cases a with
  | arrive j b =>
    simp only [step] at hs
    split at hs
    · cases hs
      by_cases hij : j = i
      · subst hij
        exact .inr ⟨.arrive b, by simp [portMachine, Machine.ofHandlers, Event.atPort]⟩
      · exact .inl (by simp [Event.atPort, hij, Ne.symm hij])
    · cases hs
  | process x =>
    have hs : process o x s = (s', es) := some.inj hs
    obtain ⟨ran, hr⟩ := process_port (x := x) (s := s) hi (by rw [hs]; exact hf)
    rw [hs] at hr
    exact .inr ⟨.cycle ran, congrArg some hr⟩
  | event triggered =>
    cases hs
    exact .inl ⟨rfl, rfl⟩

end Filter

/-- **FIFO admission.** In every run without a signalled error, at every data input: a buffer that
was dequeued is presented once if it is a sample, is then queued back once, and only then is the
next one dequeued; samples are presented in their order. A cycle that ran the callback requests
another if there is enough input for it. -/
theorem fifo_exactly_once {o : Options} {s : State B} {tr : List (Event B)}
    (h : ((machine B o).restrict (clean o)).Reaches init s tr) : (∀ i < o.inputs,
      (ingress o.independent).accept .idle (tr.filterMap (Event.atPort i)) =
          some (lifeOf (s.ports i).retained) ∧
        (∀ b, (tr.filterMap (Event.atPort i)).count (.dequeued b) =
          (lifeOf (s.ports i).retained).count b +
            (tr.filterMap (Event.atPort i)).count (.queued b)) ∧
        (tr.filterMap (Event.atPort i)).filterMap shown <+:
          (tr.filterMap (Event.atPort i)).filterMap (PortEvent.sample o.independent)) ∧
    ∀ x s' es, ((machine B o).restrict (clean o)).step s (.process x) = some (s', es) →
      (s'.scheduled = true ↔
        s.scheduled = true ∨ .callback ∈ es ∧ 0 < o.inputs ∧ enough o s' = true) := by
  constructor
  · intro i hi
    have hport : (portMachine B o.independent).Reaches ⟨[], none, false⟩ (s.ports i)
        (tr.filterMap (Event.atPort i)) :=
      h.project (fun s => s.ports i) (Event.atPort i) (step_port hi)
    have hinv := port_inv hport
    refine ⟨hinv.life, fun b => ingress_balance b hinv.life, ?_⟩
    rw [hinv.order, append_assoc]
    exact prefix_append _ _
  · intro x s' es hs
    obtain ⟨hs, hf⟩ := clean_step hs
    have hs : process o x s = (s', es) := some.inj hs
    have := process_scheduled (o := o) (x := x) (s := s) (by rw [hs]; exact hf)
    rwa [hs] at this

/-- Two samples arrive at the only input, with a token before each of them. -/
def twoSamples : List (Action ℕ) :=
  [.arrive 0 ⟨1, true⟩, .arrive 0 ⟨2, false⟩, .arrive 0 ⟨3, true⟩, .arrive 0 ⟨4, false⟩]

/-- The first sample was presented; the second one is retained, and a cycle is requested for
it. -/
theorem fifo_exactly_once_twoSamples :
    ∃ s tr, ((machine ℕ ⟨true, 1, 1⟩).restrict (clean ⟨true, 1, 1⟩)).Reaches init s tr ∧
      (s.ports 0).retained = some ⟨4, false⟩ ∧ s.scheduled = true ∧
      (ingress true).accept .idle (tr.filterMap (Event.atPort 0)) = some (.held ⟨4, false⟩) := by
  refine Machine.Reaches.of_run_such
    (P := fun s _ => (s.ports 0).retained = some ⟨4, false⟩ ∧ s.scheduled = true)
    (twoSamples ++ [.process ⟨fun _ => true, .ok, fun _ => false, true⟩]) (by decide +kernel) ?_
  intro s tr h ⟨hr, hsched⟩
  have hlife := ((fifo_exactly_once h).1 0 Nat.one_pos).1
  rw [hr] at hlife
  exact ⟨hr, hsched, hlife⟩

/-- **A cycle that does not run the callback requests nothing**: with a sample retained and no
output buffer, the filter waits for its next activation. Nor is one requested for a filter without
data inputs. -/
theorem starved_not_scheduled :
    (∃ s tr, ((machine ℕ ⟨false, 1, 1⟩).restrict (clean ⟨false, 1, 1⟩)).Reaches init s tr ∧
      (s.ports 0).retained = some ⟨7, false⟩ ∧ enough ⟨false, 1, 1⟩ s = true ∧
      s.scheduled = false) ∧
    ∃ s tr, ((machine ℕ ⟨false, 0, 1⟩).restrict (clean ⟨false, 0, 1⟩)).Reaches init s tr ∧
      .callback ∈ tr ∧ enough ⟨false, 0, 1⟩ s = true ∧ s.scheduled = false := by
  constructor
  · exact Machine.Reaches.of_run_such
      [.arrive 0 ⟨7, false⟩, .process ⟨fun _ => false, .ok, fun _ => false, true⟩]
      (by decide +kernel) fun _ _ _ h => h
  · exact Machine.Reaches.of_run_such [.process ⟨fun _ => true, .ok, fun _ => false, true⟩]
      (by decide +kernel) fun _ _ _ h => h

end PipeWireAO.NdarrayFilter.Fifo
