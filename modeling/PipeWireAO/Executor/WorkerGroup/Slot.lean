import PipeWireAO.Executor.WorkerGroup.Model

/-!
# A slot of the worker group

What the coordinator knows about a slot, from its own place in the code: whether the helper waits,
how much of a command was written, and whether the command is with the helper. The helper keeps
what the coordinator knows, whatever step it makes.
-/

namespace PipeWireAO.Executor.WorkerGroup

open Foundation

variable {T D : Type*}

/-- The phases of a slot. -/
inductive Phase (T D : Type*)
  | absent
  | starting
  /-- The helper waits for a command and has not executed the call that is going on. -/
  | ready
  /-- The coordinator writes the command `c`, and is about to do store `k`. -/
  | writing (c : Command T D) (k : Store)
  /-- The command `c` is with the helper, or completed. -/
  | out (c : Command T D)
  /-- The coordinator has seen the completion, but has not read the status. -/
  | completed
  | collected
  | stopping

/-- The completion word is armed for the next generation. -/
def Slot.Armed (s : Slot T D) : Prop := s.next = s.generation + 1 ∧ s.completion = s.generation

/-- What is written before store `k` of `publish_command`. -/
def Slot.Written (s : Slot T D) (c : Command T D) : Store → Prop
  | .rearm => s.generation = s.next
  | .task => s.Armed
  | .data => s.Armed ∧ s.command.task = c.task
  | .lanes => s.Armed ∧ s.command.task = c.task ∧ s.command.data = c.data
  | .commit => s.Armed ∧ s.command = c

/-- The helper waits for the generation after `s.generation`. -/
def Slot.Polls (s : Slot T D) : Prop := s.helper = .poll s.generation ∧ s.started = true

/-- The helper has the command of the slot: `done` is its status, once it was executed. -/
def Slot.Has (s : Slot T D) (done : Option Int) : Prop :=
  match s.helper with
  | .poll observed =>
    (observed ≠ s.generation ∧ s.completion ≠ s.generation ∧ done = none) ∨
      (observed = s.generation ∧ s.completion = s.generation ∧ done = some s.status)
  | .readTask observed => observed = s.generation ∧ s.completion ≠ s.generation ∧ done = none
  | .readData observed task =>
    observed = s.generation ∧ s.completion ≠ s.generation ∧ done = none ∧ s.command.task = some task
  | .readLanes observed task data =>
    observed = s.generation ∧ s.completion ≠ s.generation ∧ done = none ∧
      s.command.task = some task ∧ s.command.data = data
  | .execute observed c =>
    observed = s.generation ∧ s.completion ≠ s.generation ∧ done = none ∧ c = s.command
  | .setStatus observed status =>
    observed = s.generation ∧ s.completion ≠ s.generation ∧ done = some status
  | .setDone observed =>
    observed = s.generation ∧ s.completion ≠ s.generation ∧ done = some s.status
  | _ => False

/-- **What holds of a slot in each phase**; `done` is the status with which its lane has executed
the call that is going on. -/
def SlotOk (s : Slot T D) (done : Option Int) : Phase T D → Prop
  | .absent => s.generation = s.next ∧ s.helper = .absent
  | .starting =>
    s.generation = s.next ∧
      (s.Polls ∨ (s.started = false ∧ (s.helper = .boot ∨ s.helper = .booted s.generation)))
  | .ready => s.generation = s.next ∧ s.Polls ∧ done = none
  | .writing c k => s.Written c k ∧ s.Polls ∧ done = none
  | .out c =>
    s.generation = s.next ∧ s.command = c ∧ c.task.isSome = true ∧ s.started = true ∧ s.Has done
  | .completed => s.generation = s.next ∧ s.Polls ∧ done = some s.status
  | .collected => s.generation = s.next ∧ s.Polls ∧ done.isSome = true
  | .stopping =>
    s.generation = s.next ∧ s.command.task = none ∧
      ((∃ observed, observed ≠ s.generation ∧ s.helper = .poll observed) ∨
        s.helper = .readTask s.generation ∨ s.helper = .exited)

section Slot

variable {s s' : Slot T D} {done : Option Int} {c : Command T D} {i : ℕ} {res : Int}
  {es : List (Event T D)}

theorem SlotOk.starting_of_ready (h : SlotOk s done .ready) : SlotOk s done .starting :=
  ⟨h.1, .inl h.2.1⟩

theorem SlotOk.ready_of_starting (h : SlotOk s done .starting) (hs : s.started = true)
    (hd : done = none) : SlotOk s done .ready := by
  obtain ⟨hg, hp | ⟨hf, -⟩⟩ := h
  · exact ⟨hg, hp, hd⟩
  · rw [hs] at hf
    cases hf

theorem SlotOk.ready_of_collected (h : SlotOk s done .collected) : SlotOk s none .ready :=
  ⟨h.1, h.2.1, rfl⟩

theorem SlotOk.completed_of_out (h : SlotOk s done (.out c)) (hc : s.completion = s.next) :
    SlotOk s done .completed := by
  obtain ⟨hg, rfl, ht, hs, hh⟩ := h
  rw [← hg] at hc
  -- until the helper has stored the generation, the completion word is an older one
  unfold Slot.Has at hh
  split at hh <;> simp only [hc, ne_eq, not_true_eq_false, false_and, and_false, false_or,
    true_and] at hh
  rename_i hpoll
  obtain ⟨rfl, hd⟩ := hh
  exact ⟨hg, ⟨hpoll, hs⟩, hd⟩

theorem SlotOk.collected_of_completed (h : SlotOk s done .completed) : SlotOk s done .collected := by
  obtain ⟨hg, hp, rfl⟩ := h
  exact ⟨hg, hp, rfl⟩

/-- **A new generation differs from the last one**, also when it wraps. -/
theorem gen_succ_ne (g : Gen) : g + 1 ≠ g := by
  intro h
  bv_omega

theorem SlotOk.publish {k k' : Store} (h : SlotOk s done (.writing c k)) (hk : k.succ = some k') :
    SlotOk (s.publish c k) done (.writing c k') := by
  obtain ⟨hw, hp, hd⟩ := h
  refine ⟨?_, ?_, hd⟩
  · cases k <;> cases hk
    -- the first store takes a generation and arms the completion word with the one before it
    · have hw : s.generation = s.next := hw
      constructor
      · simp [Slot.publish, hw]
      · show s.next + 1 - 1 = s.generation
        rw [BitVec.add_sub_cancel, hw]
    · exact ⟨hw, rfl⟩
    · exact ⟨hw.1, hw.2, rfl⟩
    · refine ⟨hw.1, ?_⟩
      simp [Slot.publish, hw.2.1, hw.2.2]
  · cases k <;> cases hk <;> exact hp

theorem SlotOk.commit (h : SlotOk s done (.writing c .commit)) :
    (s.publish c .commit).generation = (s.publish c .commit).next ∧
      (s.publish c .commit).command = c ∧
      (s.publish c .commit).completion ≠ (s.publish c .commit).generation ∧
      done = none ∧ (s.publish c .commit).started = true ∧
      ∃ observed, observed ≠ (s.publish c .commit).generation ∧
        (s.publish c .commit).helper = .poll observed := by
  obtain ⟨⟨⟨hn, hc⟩, hcmd⟩, ⟨hh, hs⟩, hd⟩ := h
  refine ⟨rfl, hcmd, ?_, hd, hs, s.generation, ?_, hh⟩
  · show s.completion ≠ s.next
    rw [hn, hc]
    exact (gen_succ_ne s.generation).symm
  · show s.generation ≠ s.next
    rw [hn]
    exact (gen_succ_ne s.generation).symm

theorem SlotOk.commit_out (h : SlotOk s done (.writing c .commit)) (ht : c.task.isSome = true) :
    SlotOk (s.publish c .commit) done (.out c) := by
  obtain ⟨hg, hc, hcomp, hd, hs, o, ho, hh⟩ := h.commit
  refine ⟨hg, hc, ht, hs, ?_⟩
  unfold Slot.Has
  rw [hh]
  exact .inl ⟨ho, hcomp, hd⟩

theorem SlotOk.commit_stopping (h : SlotOk s done (.writing stopCommand .commit)) :
    SlotOk (s.publish stopCommand .commit) done .stopping := by
  obtain ⟨hg, hc, -, -, -, o, ho, hh⟩ := h.commit
  exact ⟨hg, by rw [hc]; rfl, .inl ⟨o, ho, hh⟩⟩

theorem Slot.Polls.helperStep (h : s.Polls) : helperStep i s res = none := by
  simp [WorkerGroup.helperStep, h.1]

/-- **A helper with a command** goes on towards its completion; it executes the command once. -/
theorem Slot.Has.step (h : s.Has done) (hg : s.generation = s.next)
    (ht : s.command.task.isSome = true) (hs : helperStep i s res = some (s', es)) :
    (es = [] ∧ s'.Has done ∨
      es = [.executed (i + 1) s.command res] ∧ done = none ∧ s'.Has (some res)) ∧
      s'.generation = s'.next ∧ s'.command = s.command ∧ s'.started = s.started := by
  -- one case for each place of the helper in `worker_main`
  unfold Slot.Has at h
  split at h
  case h_1 observed hh =>
    simp only [WorkerGroup.helperStep, hh] at hs
    rcases h with ⟨ho, hc, hd⟩ | ⟨ho, hc, hd⟩
    · rw [if_neg (Ne.symm ho)] at hs
      cases hs
      exact ⟨.inl ⟨rfl, rfl, hc, hd⟩, hg, rfl, rfl⟩
    · rw [if_pos ho.symm] at hs
      cases hs
  case h_2 observed hh =>
    obtain ⟨task, htask⟩ := Option.isSome_iff_exists.mp ht
    simp only [WorkerGroup.helperStep, hh, htask] at hs
    cases hs
    exact ⟨.inl ⟨rfl, h.1, h.2.1, h.2.2, htask⟩, hg, rfl, rfl⟩
  case h_3 observed task hh =>
    simp only [WorkerGroup.helperStep, hh] at hs
    cases hs
    exact ⟨.inl ⟨rfl, h.1, h.2.1, h.2.2.1, h.2.2.2, rfl⟩, hg, rfl, rfl⟩
  case h_4 observed task data hh =>
    simp only [WorkerGroup.helperStep, hh] at hs
    cases hs
    obtain ⟨ho, hc, hd, htask, hdata⟩ := h
    refine ⟨.inl ⟨rfl, ho, hc, hd, ?_⟩, hg, rfl, rfl⟩
    -- what was read one by one is the command of the slot
    rw [← htask, ← hdata]
  case h_5 observed c hh =>
    simp only [WorkerGroup.helperStep, hh] at hs
    cases hs
    obtain ⟨ho, hc, hd, rfl⟩ := h
    exact ⟨.inr ⟨rfl, hd, ho, hc, rfl⟩, hg, rfl, rfl⟩
  case h_6 observed status hh =>
    simp only [WorkerGroup.helperStep, hh] at hs
    cases hs
    exact ⟨.inl ⟨rfl, h⟩, hg, rfl, rfl⟩
  case h_7 observed hh =>
    simp only [WorkerGroup.helperStep, hh] at hs
    cases hs
    obtain ⟨ho, hc, hd⟩ := h
    exact ⟨.inl ⟨rfl, .inr ⟨ho, ho, hd⟩⟩, hg, rfl, rfl⟩
  case h_8 => exact h.elim

/-- **A step of a helper** keeps the phase of its slot; it is silent, or executes the command
that is out. -/
theorem SlotOk.helper {ph : Phase T D} (h : SlotOk s done ph)
    (hs : helperStep i s res = some (s', es)) : (es = [] ∧ SlotOk s' done ph) ∨
      ∃ c, ph = .out c ∧ es = [.executed (i + 1) c res] ∧ done = none ∧
        SlotOk s' (some res) (.out c) := by
  cases ph with
  | absent => simp [helperStep, h.2] at hs
  | starting =>
    left
    obtain ⟨hg, hp | ⟨hf, hh | hh⟩⟩ := h
    · rw [hp.helperStep] at hs
      cases hs
    · simp only [helperStep, hh] at hs
      cases hs
      exact ⟨rfl, hg, .inr ⟨hf, .inr rfl⟩⟩
    · simp only [helperStep, hh] at hs
      cases hs
      exact ⟨rfl, hg, .inl ⟨rfl, rfl⟩⟩
  -- while the helper polls in vain it makes no step
  | ready | writing c k | completed | collected =>
    rw [h.2.1.helperStep] at hs
    cases hs
  | out c =>
    obtain ⟨hg, rfl, ht, hst, hh⟩ := h
    obtain ⟨hcase, hg', hc', hst'⟩ := hh.step hg ht hs
    rcases hcase with ⟨rfl, hh'⟩ | ⟨rfl, hd, hh'⟩
    · exact .inl ⟨rfl, hg', hc', ht, hst'.trans hst, hh'⟩
    · exact .inr ⟨_, rfl, rfl, hd, hg', hc', ht, hst'.trans hst, hh'⟩
  | stopping =>
    left
    -- a command without a task sends the helper home
    obtain ⟨hg, ht, ⟨o, ho, hh⟩ | hh | hh⟩ := h
    · simp only [helperStep, hh] at hs
      rw [if_neg (Ne.symm ho)] at hs
      cases hs
      exact ⟨rfl, hg, ht, .inr (.inl rfl)⟩
    · simp only [helperStep, hh, ht] at hs
      cases hs
      exact ⟨rfl, hg, ht, .inr (.inr rfl)⟩
    · simp [helperStep, hh] at hs

end Slot

end PipeWireAO.Executor.WorkerGroup
