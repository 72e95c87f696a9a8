import PipeWireAO.Foundation.Machine
import PipeWireAO.Node.Activation
import PipeWireAO.Node.RowPort

/-!
# Row transport over one link

A row-transport driver with one output port and one link to a consumer in another process. A row is
lent when the tee puts its buffer id in the link's shared record; the consumer moves the id through
its port and its filter queues and back to the record; the driver's scan hands it back to the source.

The machine interleaves the functions of both processes in any order, with any statuses and target
lists. `Action.foreignStore` is any other store of the consumer's process to the record: stale,
invalid and out-of-range ids, and what the record holds inside of the consumer's functions.
-/

namespace PipeWireAO.Node.RowTransport

open Foundation List Option

/-- Where the consumer's thread stands in `process_node` and the `impl_node_process` of
its filter. -/
inductive ClientPc
  | idle
  | mix
  | node
  | app
  | back
deriving DecidableEq

/-- The consumer: the IO record of its input port, which is also the record of the
filter's port, and the buffers of the filter: ready for the application, held by the
application, and queued by it for return. -/
structure Client where
  io : IoBuffers
  pc : ClientPc
  (dequeued held queued : List ℕ)
deriving DecidableEq

/-- `impl_node_process` up to the application's callback, for the input port. -/
def Client.filterInput (nBuffers : ℕ) (c : Client) : Client :=
  match c.io.bufferId with
  | none => c
  | some id =>
    if id < nBuffers ∧ c.io.status = .haveData then { c with dequeued := c.dequeued ++ [id] } else c

/-- `impl_node_process` after the application's callback, for the input port: an id that
could not be returned yet is kept, otherwise the next queued buffer is returned. -/
def Client.filterOutput (c : Client) : Client :=
  if c.io.status ≠ .haveData ∧ c.io.bufferId ≠ none then c
  else
    match c.queued with
    | [] => { c with io := ⟨.needData, none⟩ }
    | id :: ids => { c with io := ⟨.needData, some id⟩, queued := ids }

/-- The state of the row transport: the source's IO record, the link, the consumer, and what the
scan reads. -/
structure State where
  source : IoBuffers
  link : RowLink
  client : Client
  status : ℕ → ActivationStatus
  targets : List Target
  releasePending : Bool

/-- Before the first row. -/
def init (status : ℕ → ActivationStatus) (targets : List Target) : State where
  source := .init
  link := ⟨.init, .init, false, none⟩
  client := ⟨.init, .idle, [], [], []⟩
  status := status
  targets := targets
  releasePending := false

/-- What is observed: the tee publishing an id, and `port_reuse_buffer` for an id, with the answer. -/
inductive Event
  | published (id : Option ℕ)
  | reuse (id : ℕ) (res : Int)
deriving DecidableEq

/-- The steps of the two processes. `scan` carries the result of the driver's own input
ports and the source's answers; `setStatus` and `setTargets` stand for all scheduling. -/
inductive Action
  | ready (id : Option ℕ)
  | tee
  | scan (inputs : Int) (reuse : ℕ → Int)
  | requestRelease
  | setStatus (node : ℕ) (status : ActivationStatus)
  | setTargets (targets : List Target)
  | enter
  | mix
  | filterInput
  | appDequeue
  | appQueue (id : ℕ)
  | filterOutput
  | back
  | foreignStore (io : IoBuffers)

/-- `flush_reliable_input_returns` of the driver. `inputs` is the result of the loop over
the driver's own input ports, which runs only if a release is pending. -/
def flushReliableInputReturns (nBuffers driver : ℕ) (inputs : Int) (reuse : ℕ → Int)
    (s : State) : State × List Event :=
  if !reliableCycleComplete s.status driver s.targets then (s, [])
  else if s.releasePending && inputs < 0 then (s, [])
  else
    let r := reuseRowOutput nBuffers s.releasePending reuse [s.link.mix]
    ({ s with
        link := s.link.ofMix r.2.1
        releasePending := if r.1 < 0 then s.releasePending else false },
      r.2.2.map fun c => .reuse c.1 c.2)

/-- `pw_impl_port_publish_row_return` of the consumer's port. -/
def publishReturn (s : State) : Int × State :=
  let r := publishRowReturn s.client.io [s.link.clientMix]
  (r.1, { s with link := s.link.ofClientMix r.2.2, client := { s.client with io := r.2.1 } })

/-- `schedule_mix_input` of the consumer's port. -/
def mixInput (s : State) : State :=
  let r := scheduleMixInput false s.client.io [s.link.clientMix]
  { s with link := s.link.ofClientMix r.2, client := { s.client with io := r.1 } }

/-- The steps of the row transport. The consumer's are those of `process_node` in their order. -/
def step (nBuffers driver : ℕ) (s : State) : Action → Option (State × List Event)
  | .ready id => some ({ s with source := ⟨.haveData, id⟩ }, [])
  | .tee =>
    let r := teeProcessReliable s.source [s.link.mix]
    some ({ s with source := r.1, link := s.link.ofMix r.2.1 }, r.2.2.map .published)
  | .scan inputs reuse => some (flushReliableInputReturns nBuffers driver inputs reuse s)
  | .requestRelease => some ({ s with releasePending := true }, [])
  | .setStatus i st => some ({ s with status := fun j => if j = i then st else s.status j }, [])
  | .setTargets ts => some ({ s with targets := ts }, [])
  | .enter =>
    if s.client.pc = .idle then
      let r := publishReturn s
      -- an id that cannot be returned skips the mixers and the node
      if r.1 < 0 then some (r.2, [])
      else some ({ r.2 with client := { r.2.client with pc := .mix } }, [])
    else none
  | .mix =>
    if s.client.pc = .mix then
      let t := mixInput s
      some ({ t with client := { t.client with pc := .node } }, [])
    else none
  | .filterInput =>
    if s.client.pc = .node then
      some ({ s with client := { s.client.filterInput nBuffers with pc := .app } }, [])
    else none
  | .appDequeue =>
    match s.client.dequeued with
    | [] => none
    | id :: ids =>
      some ({ s with client := { s.client with dequeued := ids, held := s.client.held ++ [id] } }, [])
  | .appQueue id =>
    if id ∈ s.client.held then
      some ({ s with client := { s.client with
        held := s.client.held.erase id, queued := s.client.queued ++ [id] } }, [])
    else none
  | .filterOutput =>
    if s.client.pc = .app then
      some ({ s with client := { s.client.filterOutput with pc := .back } }, [])
    else none
  | .back =>
    if s.client.pc = .back then
      let t := (publishReturn s).2
      some ({ t with client := { t.client with pc := .idle } }, [])
    else none
  | .foreignStore io => some ({ s with link := { s.link with io := io } }, [])

/-- The row transport with `nBuffers` buffers, driven by node `driver`. -/
def machine (nBuffers driver : ℕ) : Machine State Action Event where
  step := step nBuffers driver

variable {n driver : ℕ} {s s' : State} {es tr : List Event} {reuse : ℕ → Int} {inputs : Int}

/-! ## What each step does -/

theorem step_tee (h : step n driver s .tee = some (s', es)) : (s' = s ∧ es = []) ∨
      (s.source.status = .haveData ∧ s.link.io.status ≠ .haveData ∧ s.link.loan = none ∧
        s' = { s with source := ⟨.needData, s.link.io.bufferId⟩
                      link := s.link.lend s.source.bufferId } ∧
        es = [.published s.source.bufferId]) := by
  simp only [step, teeProcessReliable_link, some.injEq, Prod.mk.injEq] at h
  obtain ⟨rfl, rfl⟩ := h
  split
  · rename_i hc
    exact .inr ⟨hc.1, hc.2.1, RowLink.loan_eq_none.mpr hc.2.2, rfl, rfl⟩
  · exact .inl ⟨rfl, rfl⟩

theorem step_scan (h : step n driver s (.scan inputs reuse) = some (s', es)) :
    (s'.source = s.source ∧ s'.link = s.link ∧ s'.client = s.client ∧ es = []) ∨
      ∃ id, reliableCycleComplete s.status driver s.targets = true ∧
        s.link.io = ⟨.needData, some id⟩ ∧ s.link.loan = some (some id) ∧ id < n ∧
        es = [.reuse id (reuse id)] ∧ ((reuse id < 0 ∧ s' = s) ∨
          (0 ≤ reuse id ∧ s' = { s with link := s.link.collect, releasePending := false })) := by
  simp only [step, some.injEq] at h
  unfold flushReliableInputReturns at h
  split at h
  · cases h
    exact .inl ⟨rfl, rfl, rfl, rfl⟩
  rename_i hc
  split at h
  · cases h
    exact .inl ⟨rfl, rfl, rfl, rfl⟩
  rw [reuseRowOutput_link] at h
  split at h
  · cases h
    exact .inl ⟨rfl, rfl, rfl, rfl⟩
  rename_i hs
  split at h
  · cases h
    exact .inl ⟨rfl, rfl, rfl, rfl⟩
  rename_i id hi
  split at h
  · cases h
    exact .inl ⟨rfl, rfl, rfl, rfl⟩
  rename_i hl
  obtain ⟨hl, hn⟩ := not_or.mp hl
  have hio : s.link.io = ⟨.needData, some id⟩ := by
    rw [← hi, ← not_not.mp hs]
  refine .inr ⟨id, by simpa using hc, hio, not_not.mp hl, Nat.lt_of_not_le hn, ?_⟩
  split at h
  · rename_i hr
    cases h
    exact ⟨rfl, .inl ⟨hr, by simp [hr]⟩⟩
  · rename_i hr
    cases h
    exact ⟨rfl, .inr ⟨Int.not_lt.mp hr, by simp⟩⟩

/-- The steps that touch the loan. -/
def Action.isServer : Action → Bool
  | .tee => true
  | .scan _ _ => true
  | _ => false

open RowLink (clientMix)

theorem publishReturn_cases (s : State) :
    ((s.client.io.status = .haveData ∨ s.client.io.bufferId = none) ∧ publishReturn s = (0, s)) ∨
      (s.client.io.status ≠ .haveData ∧ s.link.io ≠ ⟨.needData, none⟩ ∧
        publishReturn s = (-eBusy, s)) ∨
      ∃ id, s.client.io.status ≠ .haveData ∧ s.client.io.bufferId = some id ∧
        s.link.io = ⟨.needData, none⟩ ∧ publishReturn s = (1, { s with
          link := { s.link with io := ⟨.needData, some id⟩ }
          client := { s.client with io := { s.client.io with bufferId := none } } }) := by
  by_cases hs : s.client.io.status = .haveData
  · exact .inl ⟨.inl hs, by simp [publishReturn, publishRowReturn, hs, clientMix]⟩
  cases hi : s.client.io.bufferId with
  | none =>
    exact .inl ⟨.inr rfl, by simp [publishReturn, publishRowReturn, hs, hi, clientMix]⟩
  | some id =>
    by_cases hl : s.link.io = ⟨.needData, none⟩
    · refine .inr (.inr ⟨id, hs, rfl, hl, ?_⟩)
      simp [publishReturn, publishRowReturn, returnRow, hs, hi, hl, clientMix]
    · refine .inr (.inl ⟨hs, hl, ?_⟩)
      have hl' : ¬ s.link.io.status = .needData ∨ ¬ s.link.io.bufferId = none := by
        by_contra h
        obtain ⟨h₁, h₂⟩ := not_or.mp h
        exact hl (by rw [← not_not.mp h₁, ← not_not.mp h₂])
      simp [publishReturn, publishRowReturn, returnRow, hs, hi, hl', clientMix, eBusy]

theorem publishReturn_loan (s : State) : (publishReturn s).2.link.loan = s.link.loan := by
  obtain ⟨-, h⟩ | ⟨-, -, h⟩ | ⟨id, -, -, -, h⟩ := publishReturn_cases s <;>
    simp [h, RowLink.loan]

variable {a : Action} {id : ℕ}

theorem step_other (ha : a.isServer = false)
    (h : step n driver s a = some (s', es)) : es = [] ∧ s'.link.loan = s.link.loan := by
  cases a with
  | tee | scan => cases ha
  | ready | requestRelease | setStatus | setTargets | foreignStore =>
    cases h
    exact ⟨rfl, rfl⟩
  | enter =>
    simp only [step] at h
    split at h
    · split at h <;> (cases h; exact ⟨rfl, publishReturn_loan s⟩)
    · cases h
  | back =>
    simp only [step] at h
    split_ifs at h
    cases h
    exact ⟨rfl, publishReturn_loan s⟩
  | mix | filterInput | filterOutput | appQueue =>
    simp only [step] at h
    split_ifs at h
    cases h
    exact ⟨rfl, rfl⟩
  | appDequeue =>
    simp only [step] at h
    split at h
    · cases h
    · cases h
      exact ⟨rfl, rfl⟩

/-! ## One loan at a time -/

/-- **The loan protocol**: a row is published only while none is on loan; the source is
called only for the row on loan, as often as it refuses, and once it accepts the loan is
closed. -/
def loanObserver : Observer (Option (Option ℕ)) Event where
  next
    | none, .published id => some (some id)
    | some id, .reuse b res => if id = some b then (if res < 0 then some (some id) else some none) else none
    | _, _ => none

theorem step_accepts (h : step n driver s a = some (s', es)) :
    loanObserver.accept s.link.loan es = some s'.link.loan := by
  cases a with
  | tee =>
    obtain ⟨rfl, rfl⟩ | ⟨-, -, hl, rfl, rfl⟩ := step_tee h
    · rfl
    · simp [hl, loanObserver]
  | scan inputs reuse =>
    obtain ⟨-, hl, -, rfl⟩ | ⟨id, -, -, hl, -, rfl, ⟨hr, rfl⟩ | ⟨hr, rfl⟩⟩ := step_scan h
    · simp [hl]
    · simp [hl, loanObserver, hr]
    · simp [hl, loanObserver, hr]
  | _ =>
    obtain ⟨rfl, hl⟩ := step_other rfl h
    simp [hl]

/-- The source accepts the return of `id`. -/
def Event.accepts (id : Option ℕ) : Event → Bool
  | .published _ => false
  | .reuse b res => decide (id = some b ∧ 0 ≤ res)

theorem loanObserver_balance (id : Option ℕ) {q : Option (Option ℕ)}
    (h : loanObserver.accept none tr = some q) :
    tr.count (.published id) = tr.countP (Event.accepts id) + if q = some id then 1 else 0 := by
  have := Observer.accept_balance (O := loanObserver) (· == .published id) (Event.accepts id)
    (fun q => if q = some id then 1 else 0) ?_ h
  · simp only [List.count, reduceCtorEq, if_false] at this ⊢
    omega
  · intro q q' e he
    rcases q with _ | i <;> rcases e with j | ⟨b, res⟩
    · cases he
      by_cases hj : j = id <;> simp [Event.accepts, hj]
    · cases he
    · cases he
    · simp only [loanObserver] at he
      split at he
      · subst i
        by_cases hr : res < 0
        · simp_all [Event.accepts]
        · simp only [hr, if_false, some.injEq] at he
          subst he
          by_cases hb : some b = id
          · subst hb
            simp [Event.accepts, Int.not_lt.mp hr]
          · simp [Event.accepts, hb, Ne.symm hb]
      · cases he

/-! ## Where the lent row is -/

/-- The ids the consumer has. While the application runs, a descriptor with data was
already moved to the filter's queue. -/
def Client.rows (c : Client) : List ℕ :=
  (if c.pc = .app ∧ c.io.status = .haveData then [] else c.io.bufferId.toList) ++
    c.dequeued ++ c.held ++ c.queued

/-- The ids in the shared record and at the consumer. -/
def State.rows (s : State) : List ℕ := s.link.io.bufferId.toList ++ s.client.rows

/-- The source publishes its own buffers, and the consumer stores only through the port functions. -/
def follows (nBuffers : ℕ) (_ : State) : Action → Bool
  | .ready (some id) => decide (id < nBuffers)
  | .ready none => false
  | .foreignStore _ => false
  | _ => true

/-- **Where the lent row is**: the ids in the shared record and at the consumer are the id
on loan, once. The other fields say which descriptors can hold it. -/
structure Located (n : ℕ) (s : State) : Prop where
  rows : ∀ id, s.rows.count id = s.link.lent.count id
  lent : ∀ id, s.link.loan = some id → ∃ b, id = some b ∧ b < n
  source : s.source.status = .haveData → ∃ b, s.source.bufferId = some b ∧ b < n
  link : s.link.io.status = .haveData → s.link.io.bufferId ≠ none
  mix : s.client.pc = .mix → s.client.io.bufferId = none
  client : s.client.io.status = .haveData →
    (s.client.pc = .node ∧ s.client.io.bufferId ≠ none) ∨ s.client.pc = .app

theorem located_init (status : ℕ → ActivationStatus) (targets : List Target) :
    Located n (init status targets) := by
  constructor <;> simp [init, IoBuffers.init, State.rows, Client.rows, RowLink.lent, RowLink.loan]

namespace Located

variable (h : Located n s)
include h

theorem rows_eq_nil (hl : s.link.loan = none) : s.rows = [] := by
  refine eq_nil_iff_forall_not_mem.mpr fun id hid => ?_
  have := h.rows id
  rw [RowLink.lent, RowLink.loan_eq_none.mp hl] at this
  exact absurd (count_pos_iff.mpr hid) (by simp [this])

theorem loan_of_mem (hid : id ∈ s.rows) : s.link.loan = some (some id) := by
  have := h.rows id
  have hpos := count_pos_iff.mpr hid
  rw [this, RowLink.lent] at hpos
  split at hpos
  · rename_i hb
    rw [count_pos_iff, mem_toList] at hpos
    exact RowLink.loan_eq_some.mpr ⟨hb, hpos⟩
  · simp at hpos

theorem lt_of_mem (hid : id ∈ s.rows) : id < n := by
  obtain ⟨b, hb, hn⟩ := h.lent _ (h.loan_of_mem hid)
  cases hb
  exact hn

/-- **The row on loan is in exactly one place.** -/
theorem perm : s.rows.Perm s.link.lent := perm_iff_count.mpr h.rows

end Located

section Located

variable (hi : Located n s)

include hi

theorem step_located_tee (h : step n driver s .tee = some (s', es)) : Located n s' := by
  obtain ⟨rfl, rfl⟩ | ⟨hs, -, hl, rfl, rfl⟩ := step_tee h
  · exact hi
  obtain ⟨b, hb, hn⟩ := hi.source hs
  have hr := hi.rows_eq_nil hl
  simp only [State.rows, append_eq_nil_iff] at hr
  refine ⟨fun id => ?_, ?_, ?_, ?_, hi.mix, hi.client⟩
  · simp [State.rows, RowLink.lent, RowLink.lend, hb, hr.2]
  · simp [hb, hn]
  · simp
  · simp [RowLink.lend, hb]

theorem step_located_scan
    (h : step n driver s (.scan inputs reuse) = some (s', es)) : Located n s' := by
  obtain ⟨hs, hl, hc, -⟩ | ⟨id, -, hio, hl, -, -, ⟨-, rfl⟩ | ⟨-, rfl⟩⟩ := step_scan h
  · obtain ⟨h₁, h₂, h₃, h₄, h₅, h₆⟩ := hi
    constructor <;> simp_all [State.rows]
  · exact hi
  · refine ⟨fun b => ?_, ?_, hi.source, ?_, hi.mix, hi.client⟩
    · have := hi.rows b
      obtain ⟨h₁, h₂⟩ := RowLink.loan_eq_some.mp hl
      simp only [State.rows, hio, h₁, h₂, RowLink.lent, toList_some, if_true,
        count_append] at this
      simp only [State.rows, RowLink.collect, RowLink.lent, toList_none, nil_append,
        Bool.false_eq_true, if_false, count_nil]
      omega
    · simp
    · simp [RowLink.collect, hio]

theorem located_publishReturn (hp : s.client.pc = .idle ∨ s.client.pc = .back) :
    Located n (publishReturn s).2 ∧ (publishReturn s).2.client.pc = s.client.pc ∧
      (publishReturn s).2.client.io.status ≠ .haveData ∧
      (0 ≤ (publishReturn s).1 → (publishReturn s).2.client.io.bufferId = none) := by
  have hs : s.client.io.status ≠ .haveData := by
    intro hs
    obtain ⟨h, -⟩ | h := hi.client hs <;> simp [h] at hp
  have hpc : s.client.pc ≠ .mix ∧ s.client.pc ≠ .app := by
    obtain h | h := hp <;> simp [h]
  obtain ⟨hio | hio, h⟩ | ⟨-, -, h⟩ | ⟨id, -, hid, hio, h⟩ := publishReturn_cases s
  · exact absurd hio hs
  · simp only [h]
    exact ⟨hi, trivial, hs, fun _ => hio⟩
  · simp only [h]
    exact ⟨hi, trivial, hs, by simp [eBusy]⟩
  · simp only [h]
    refine ⟨⟨fun b => ?_, hi.lent, hi.source, by simp, by simp, fun hd => absurd hd hs⟩, trivial, hs,
      by simp⟩
    have := hi.rows b
    simp only [State.rows, Client.rows, hio, hid, hpc.2, false_and, if_false, toList_none,
      toList_some, count_append, count_nil, RowLink.lent] at this ⊢
    omega

theorem located_mixInput (hp : s.client.pc = .mix) :
    Located n { mixInput s with client := { (mixInput s).client with pc := .node } } := by
  have hn := hi.mix hp
  refine ⟨fun b => ?_, hi.lent, hi.source, ?_, ?_, ?_⟩
  · have := hi.rows b
    simp only [State.rows, Client.rows, hn, hp, reduceCtorEq, false_and, if_false,
      toList_none, count_append, count_nil, RowLink.lent] at this
    simp only [State.rows, Client.rows, mixInput, scheduleMixInput, clientMix,
      RowLink.ofClientMix_singleton, Bool.or_true, if_true, reduceCtorEq, false_and, if_false,
      toList_none, count_append, count_nil, RowLink.lent]
    omega
  · simp [mixInput, scheduleMixInput, clientMix]
  · simp
  · simp only [mixInput, scheduleMixInput, clientMix, true_and, reduceCtorEq, or_false]
    exact hi.link

theorem located_filterInput (hp : s.client.pc = .node) :
    Located n { s with client := { s.client.filterInput n with pc := .app } } := by
  refine ⟨fun b => ?_, hi.lent, hi.source, hi.link, by simp, by simp⟩
  have := hi.rows b
  by_cases hs : s.client.io.status = .haveData
  · obtain ⟨-, hid⟩ | h := hi.client hs
    · obtain ⟨id, hid⟩ := ne_none_iff_exists'.mp hid
      have hn : id < n := hi.lt_of_mem (by simp [State.rows, Client.rows, hp, hid])
      simp only [State.rows, Client.rows, Client.filterInput, hid, hn, hs, hp, count_append,
        toList_some, reduceCtorEq, false_and, if_false, and_self, if_true,
        count_nil] at this ⊢
      omega
    · simp [h] at hp
  · have hf : s.client.filterInput n = s.client := by
      unfold Client.filterInput
      split <;> simp [hs]
    simpa [State.rows, Client.rows, hf, hp, hs] using this

theorem located_filterOutput (hp : s.client.pc = .app) :
    Located n { s with client := { s.client.filterOutput with pc := .back } } := by
  have hs : s.client.filterOutput.io.status ≠ .haveData := by
    unfold Client.filterOutput
    split
    · rename_i h
      exact h.1
    · split <;> simp
  refine ⟨fun b => ?_, hi.lent, hi.source, hi.link, by simp, fun h => absurd h hs⟩
  have := hi.rows b
  unfold Client.filterOutput
  split
  · rename_i h
    simpa [State.rows, Client.rows, h.1] using this
  · rename_i h
    -- the port's own descriptor holds no row: it is in the queues, or there is none
    have hio : (if s.client.pc = .app ∧ s.client.io.status = .haveData then []
        else s.client.io.bufferId.toList) = [] := by
      split
      · rfl
      · rename_i h'
        simp_all
    simp only [State.rows, Client.rows, hio, count_append, count_nil] at this
    split
    · rename_i hq
      simpa [State.rows, Client.rows, hq] using this
    · rename_i id ids hq
      have hq' : s.client.queued = [id] ++ ids := hq
      simp only [hq', count_append] at this
      simp only [State.rows, Client.rows, reduceCtorEq, false_and, if_false, toList_some,
        count_append]
      omega

theorem located_appDequeue {ids : List ℕ} (hd : s.client.dequeued = id :: ids) :
    Located n { s with client := { s.client with
      dequeued := ids, held := s.client.held ++ [id] } } := by
  refine ⟨fun b => ?_, hi.lent, hi.source, hi.link, hi.mix, hi.client⟩
  have := hi.rows b
  have hd' : s.client.dequeued = [id] ++ ids := hd
  simp only [State.rows, Client.rows, hd', count_append] at this ⊢
  omega

theorem located_appQueue (hd : id ∈ s.client.held) : Located n { s with client := { s.client with
      held := s.client.held.erase id, queued := s.client.queued ++ [id] } } := by
  refine ⟨fun b => ?_, hi.lent, hi.source, hi.link, hi.mix, hi.client⟩
  have := hi.rows b
  have he := (perm_cons_erase hd).count_eq b
  rw [← singleton_append, count_append] at he
  simp only [State.rows, Client.rows, count_append] at this ⊢
  omega

/-- **A consumer that follows the protocol never loses a row**: every step keeps the row on
loan in exactly one place. -/
theorem step_located (ha : follows n s a = true)
    (h : step n driver s a = some (s', es)) : Located n s' := by
  cases a with
  | tee => exact step_located_tee hi h
  | scan => exact step_located_scan hi h
  | foreignStore => cases ha
  | ready id =>
    cases h
    refine ⟨hi.rows, hi.lent, fun _ => ?_, hi.link, hi.mix, hi.client⟩
    cases id with
    | none => cases ha
    | some id => exact ⟨id, rfl, by simpa [follows] using ha⟩
  | requestRelease | setStatus | setTargets =>
    cases h
    exact ⟨hi.rows, hi.lent, hi.source, hi.link, hi.mix, hi.client⟩
  | enter =>
    obtain ⟨hp, h⟩ := ite_none_right_eq_some.mp h
    obtain ⟨hr, hpc, hs, hn⟩ := located_publishReturn hi (.inl hp)
    split at h
    · cases h
      exact hr
    · rename_i hneg
      cases h
      refine ⟨fun b => ?_, hr.lent, hr.source, hr.link, fun _ => hn (Int.not_lt.mp hneg),
        fun hd => absurd hd hs⟩
      have := hr.rows b
      simpa [State.rows, Client.rows, hpc, hp] using this
  | mix =>
    simp only [step] at h
    split_ifs at h with hp
    cases h
    exact located_mixInput hi hp
  | filterInput =>
    simp only [step] at h
    split_ifs at h with hp
    cases h
    exact located_filterInput hi hp
  | filterOutput =>
    simp only [step] at h
    split_ifs at h with hp
    cases h
    exact located_filterOutput hi hp
  | appDequeue =>
    simp only [step] at h
    split at h
    · cases h
    · rename_i hd
      cases h
      exact located_appDequeue hi hd
  | appQueue =>
    simp only [step] at h
    split_ifs at h with hd
    cases h
    exact located_appQueue hi hd
  | back =>
    simp only [step] at h
    split_ifs at h with hp
    obtain ⟨hr, hpc, hs, -⟩ := located_publishReturn hi (.inr hp)
    cases h
    refine ⟨fun b => ?_, hr.lent, hr.source, hr.link, by simp, fun hd => absurd hd hs⟩
    have := hr.rows b
    simpa [State.rows, Client.rows, hpc, hp] using this

end Located

/-! ## The contract -/

/-- What the steps from a state may do to the loan. -/
structure LoanSafe (n driver : ℕ) (s : State) : Prop where
  /-- A row is published only while none is on loan, and is then on loan. -/
  publish : ∀ {a s' es id}, step n driver s a = some (s', es) → .published id ∈ es →
    s.link.loan = none ∧ s'.link.loan = some id
  /-- The tee does not touch a descriptor whose loan is open. -/
  tee : ∀ {s' es}, step n driver s .tee = some (s', es) → s.link.loan ≠ none → s' = s ∧ es = []
  /-- The source is called once, for the id on loan, after the driver and every active target
  finished. If it refuses, nothing changes; if it accepts, the loan is closed. -/
  reuse : ∀ {a s' es id res}, step n driver s a = some (s', es) → .reuse id res ∈ es →
    es = [.reuse id res] ∧ s.link.loan = some (some id) ∧ s.link.io = ⟨.needData, some id⟩ ∧
      s.status driver = .finished ∧
      (∀ t ∈ s.targets, t.active = true → s.status t.id = .finished) ∧
      (res < 0 → s' = s) ∧ (0 ≤ res → s'.link.loan = none)
  /-- While the returned id waits, a scan after the end of a cycle calls the source for it. -/
  retry : ∀ {id reuse}, s.link.io = ⟨.needData, some id⟩ → s.link.loan = some (some id) → id < n →
    reliableCycleComplete s.status driver s.targets = true →
    ∃ s', step n driver s (.scan 0 reuse) = some (s', [.reuse id (reuse id)]) ∧
      (0 ≤ reuse id → s'.link.loan = none)

/-- Every state is safe: the loan is guarded by the server's own record of it. -/
theorem loanSafe (n driver : ℕ) (s : State) : LoanSafe n driver s where
  publish {a s' es id} h he := by
    cases a with
    | tee =>
      obtain ⟨-, rfl⟩ | ⟨-, -, hl, rfl, rfl⟩ := step_tee h
      · cases he
      · simp only [mem_singleton, Event.published.injEq] at he
        exact ⟨hl, by simp [he]⟩
    | scan =>
      obtain ⟨-, -, -, rfl⟩ | ⟨id, -, -, -, -, rfl, -⟩ := step_scan h <;> simp at he
    | _ =>
      obtain ⟨rfl, -⟩ := step_other rfl h
      cases he
  tee h hl := by
    obtain h | ⟨-, -, hn, -⟩ := step_tee h
    · exact h
    · exact absurd hn hl
  reuse {a s' es id res} h he := by
    cases a with
    | tee =>
      obtain ⟨-, rfl⟩ | ⟨-, -, -, -, rfl⟩ := step_tee h <;> simp at he
    | scan =>
      obtain ⟨-, -, -, rfl⟩ | ⟨id', hc, hio, hl, -, rfl, hr⟩ := step_scan h
      · cases he
      simp only [mem_singleton, Event.reuse.injEq] at he
      obtain ⟨rfl, rfl⟩ := he
      obtain ⟨hd, ht⟩ := reliableCycleComplete_iff.mp hc
      refine ⟨rfl, hl, hio, hd, ht, fun hneg => ?_, fun hpos => ?_⟩
      · obtain ⟨-, rfl⟩ | ⟨hpos, -⟩ := hr
        · rfl
        · omega
      · obtain ⟨hneg, -⟩ | ⟨-, rfl⟩ := hr
        · omega
        · exact RowLink.loan_collect _
    | _ =>
      obtain ⟨rfl, -⟩ := step_other rfl h
      cases he
  retry {id reuse} hio hl hn hc := by
    have hn' := Nat.not_le.mpr hn
    by_cases hr : reuse id < 0
    · simp [step, flushReliableInputReturns, reuseRowOutput_link, hc, hio, hl, hn', hr]
    · simp [step, flushReliableInputReturns, reuseRowOutput_link, hc, hio, hl, hn', hr]

/-- **The row-transport contract**, with any consumer: rows are lent one at a time, every call of
the source is for the row on loan after the cycle finished, a refusal leaves everything for a later
scan, and each row was accepted back once for each time it was published, but for the one on loan.
If the consumer follows the protocol, that row is in exactly one place. -/
theorem row_transport_linear (n driver : ℕ) (status : ℕ → ActivationStatus)
    (targets : List Target) : (∀ {s tr}, (machine n driver).Reaches (init status targets) s tr →
      loanObserver.accept none tr = some s.link.loan ∧ (∀ id, tr.count (.published id) =
        tr.countP (Event.accepts id) + if s.link.loan = some id then 1 else 0) ∧
      LoanSafe n driver s) ∧
    (∀ {s tr}, ((machine n driver).restrict (follows n)).Reaches (init status targets) s tr →
      s.rows.Perm s.link.lent) := by
  refine ⟨fun {s tr} h => ?_, fun {s tr} h => ?_⟩
  · have h₀ : (init status targets).link.loan = none := rfl
    obtain ⟨q, hq, rfl⟩ := h.simulates (O := loanObserver) (fun s q => s.link.loan = q) h₀
      fun hq hs => ⟨_, hq ▸ step_accepts hs, rfl⟩
    exact ⟨hq, fun id => loanObserver_balance id hq, loanSafe n driver s⟩
  · refine Located.perm (h.invariant (I := Located n) (located_init status targets) ?_)
    intro s s' es a hi hs
    obtain ⟨ha, hs⟩ := Machine.restrict_step.mp hs
    exact step_located hi ha hs

/-- A row is lent, taken and returned, refused once and then accepted; meanwhile the next row has to
wait. It is the one on loan in the end. -/
theorem row_transport_refused : ∃ s tr, ((machine 4 0).restrict (follows 4)).Reaches
      (init (fun _ => .finished) [⟨0, true⟩, ⟨1, true⟩]) s tr ∧
    tr = [.published (some 2), .reuse 2 (-5), .reuse 2 0, .published (some 3)] ∧
    s.rows = [3] ∧ s.rows.Perm s.link.lent :=
  Machine.Reaches.of_run_such
    (P := fun s tr =>
      tr = [.published (some 2), .reuse 2 (-5), .reuse 2 0, .published (some 3)] ∧ s.rows = [3])
    [.ready (some 2), .tee, .enter, .mix, .filterInput, .appDequeue, .appQueue 2,
      .ready (some 3), .tee, .filterOutput, .back, .scan 0 (fun _ => -5), .tee, .scan 0 (fun _ => 0),
      .tee] (by decide +kernel)
    fun _ _ hr h => ⟨h.1, h.2, (row_transport_linear 4 0 _ _).2 hr⟩

end PipeWireAO.Node.RowTransport
