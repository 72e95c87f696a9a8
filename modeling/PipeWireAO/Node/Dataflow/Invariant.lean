import PipeWireAO.Node.Dataflow.Model

/-!
# The invariant of a cycle

The count of a node is the number of threads that have not triggered it yet. Until it is zero
the node is untouched; the thread that brings it to zero is the only one to handle the trigger;
and after that the node is started.
-/

namespace PipeWireAO.Node.Dataflow

open Foundation Completion Function

variable {g : Graph} {s s' : State} {n m t : ℕ} {es tr : List Event}

/-- The targets the thread of `n` has not triggered yet. -/
def unfired (g : Graph) (n : ℕ) : Pc → List ℕ
  -- the driver has triggered its targets before it waits
  | .waiting => if n = g.driver then [] else g.targets n
  | .processing => if n = g.driver then [] else g.targets n
  | .triggering rest => rest
  | .handling _ _ rest => rest
  | .done => []

/-- The thread of `n` is inside `trigger_target_v2` for `t`. -/
def Handles (s : State) (n : ℕ) (stage : Stage) (t : ℕ) : Prop :=
  ∃ rest, s.pc n = .handling stage t rest

/-- Node `t` has not been triggered. -/
structure Unstarted (s : State) (t : ℕ) : Prop where
  status : (s.act t).status = .notTriggered
  seq : s.seq t % 2 = 0
  fd : s.fd t = 0

/-- Node `t` has been triggered and will be woken if it still has to run. -/
structure Started (g : Graph) (s : State) (t : ℕ) : Prop where
  status : (s.act t).status ≠ .notTriggered
  seq : s.seq t % 2 = 0
  woken : (s.act t).status = .triggered → g.polling t = true ∨ 0 < s.fd t

/-- What holds of node `t` while a thread handles its trigger. -/
def StageOk (s : State) (t : ℕ) : Stage → Prop
  | .readSeq => Unstarted s t
  | .claimSeq q => Unstarted s t ∧ s.seq t = q
  -- the sequence word is odd while its claim is held
  | .casStatus => (s.act t).status = .notTriggered ∧ s.seq t % 2 = 1 ∧ s.fd t = 0
  | .writeTime => (s.act t).status = .triggered ∧ s.seq t % 2 = 1 ∧ s.fd t = 0
  | .wakeUp => (s.act t).status ≠ .notTriggered ∧ s.seq t % 2 = 0 ∧ s.fd t = 0
  -- the `-EIO` exit is never taken
  | .giveUp => False

/-- The trigger of node `t`: nobody handles it before the count is zero, then one thread does, and
then the node is started. -/
structure TargetOk (g : Graph) (s : State) (t : ℕ) : Prop where
  counting : (s.act t).pending ≠ 0 → Unstarted s t ∧ ∀ n stage, ¬ Handles s n stage t
  handled : ∀ {n stage}, Handles s n stage t →
    StageOk s t stage ∧ ∀ n' stage', Handles s n' stage' t → n' = n
  settled : (s.act t).pending = 0 → (∀ n stage, ¬ Handles s n stage t) → Started g s t

/-- The thread of `n` agrees with the status of `n`. -/
def ThreadOk (g : Graph) (n : ℕ) (st : ActivationStatus) : Pc → Prop
  | .waiting => st = .notTriggered ∨ st = .triggered
  | .processing => st = .awake
  | .triggering _ => if n = g.driver then st = .notTriggered ∨ st = .triggered else st = .finished
  | .handling _ _ _ => if n = g.driver then st = .notTriggered ∨ st = .triggered else st = .finished
  | .done => st = .finished

/-- **The invariant of a cycle.** -/
structure Inv (g : Graph) (s : State) : Prop where
  pending : ∀ t ∈ g.nodes, (s.act t).pending = g.nodes.countP fun n => t ∈ unfired g n (s.pc n)
  target : ∀ t ∈ g.nodes, TargetOk g s t
  thread : ∀ n ∈ g.nodes, ThreadOk g n (s.act n).status (s.pc n)
  suffix : ∀ n ∈ g.nodes, unfired g n (s.pc n) <:+ g.targets n
  outside : ∀ n, n ∉ g.nodes → s.pc n = .done
  handled_mem : ∀ {n stage t}, Handles s n stage t → t ∈ g.nodes

theorem TargetOk.congr (h : TargetOk g s t) (hact : s'.act t = s.act t)
    (hseq : s'.seq t = s.seq t) (hfd : s'.fd t = s.fd t)
    (hh : ∀ n stage, Handles s' n stage t ↔ Handles s n stage t) : TargetOk g s' t := by
  have hu : Unstarted s' t ↔ Unstarted s t := by
    constructor <;> rintro ⟨h₁, h₂, h₃⟩ <;> constructor <;> simp_all
  refine ⟨fun hp => ?_, fun {n stage} hn => ?_, fun hp hn => ?_⟩
  · rw [hact] at hp
    obtain ⟨h₁, h₂⟩ := h.counting hp
    exact ⟨hu.mpr h₁, fun n stage => mt (hh n stage).mp (h₂ n stage)⟩
  · obtain ⟨h₁, h₂⟩ := h.handled ((hh n stage).mp hn)
    refine ⟨?_, fun n' stage' hn' => h₂ n' stage' ((hh _ _).mp hn')⟩
    cases stage <;> simp only [StageOk, hu, hact, hseq, hfd] at h₁ ⊢ <;> exact h₁
  · rw [hact] at hp
    obtain ⟨h₁, h₂, h₃⟩ := h.settled hp fun n stage => mt (hh n stage).mpr (hn n stage)
    exact ⟨by rwa [hact], by rwa [hseq], by rwa [hact, hfd]⟩
/-! ## Frames -/

variable {p : Pc} {stage : Stage} {rest : List ℕ}

theorem handles_of_pc_eq (hpc : s'.pc = update s.pc n p) : Handles s' m stage t ↔
      (m = n ∧ ∃ rest, p = .handling stage t rest) ∨ (m ≠ n ∧ Handles s m stage t) := by
  by_cases h : m = n
  · subst h
    simp [Handles, hpc]
  · simp [Handles, hpc, h]

theorem handles_iff_of_pc_eq (hpc : s'.pc = update s.pc n p)
    (hold : ∀ stage rest, s.pc n ≠ .handling stage t rest)
    (hnew : ∀ stage rest, p ≠ .handling stage t rest) (m : ℕ) (stage : Stage) :
    Handles s' m stage t ↔ Handles s m stage t := by
  rw [handles_of_pc_eq hpc]
  by_cases h : m = n
  · subst h
    simp [Handles, hold, hnew]
  · simp [h]

theorem Inv.of_step (h : Inv g s) (hn : n ∈ g.nodes) (hpc : s'.pc = update s.pc n p)
    (hpend : ∀ t ∈ g.nodes, (s'.act t).pending = g.nodes.countP fun m => t ∈ unfired g m (s'.pc m))
    (htarget : ∀ t ∈ g.nodes, TargetOk g s' t)
    (hstatus : ∀ m ∈ g.nodes, m ≠ n → ThreadOk g m (s'.act m).status (s.pc m))
    (hthread : ThreadOk g n (s'.act n).status p) (hsuffix : unfired g n p <:+ g.targets n)
    (hmem : ∀ stage t rest, p = .handling stage t rest → t ∈ g.nodes) : Inv g s' := by
  refine ⟨hpend, htarget, fun m hm => ?_, fun m hm => ?_, fun m hm => ?_, fun {m stage t} hh => ?_⟩
  · by_cases hmn : m = n
    · subst hmn
      simpa [hpc] using hthread
    · simpa [hpc, hmn] using hstatus m hm hmn
  · by_cases hmn : m = n
    · subst hmn
      simpa [hpc] using hsuffix
    · simpa [hpc, hmn] using h.suffix m hm
  · have hmn : m ≠ n := fun he => hm (he ▸ hn)
    simpa [hpc, hmn] using h.outside m hm
  · obtain ⟨-, rest, hp⟩ | ⟨-, hh⟩ := (handles_of_pc_eq hpc).mp hh
    · exact hmem stage t rest hp
    · exact h.handled_mem hh

theorem unfired_of_pc_eq (hpc : s'.pc = update s.pc n p)
    (hu : unfired g n p = unfired g n (s.pc n)) (m : ℕ) :
    unfired g m (s'.pc m) = unfired g m (s.pc m) := by
  by_cases hm : m = n
  · subst hm
    simpa [hpc] using hu
  · simp [hpc, hm]

theorem pending_of_unfired_eq (h : Inv g s) (hpc : s'.pc = update s.pc n p)
    (hact : ∀ t, (s'.act t).pending = (s.act t).pending)
    (hu : unfired g n p = unfired g n (s.pc n)) (ht : t ∈ g.nodes) :
    (s'.act t).pending = g.nodes.countP fun m => t ∈ unfired g m (s'.pc m) := by
  rw [hact, h.pending t ht]
  simp only [unfired_of_pc_eq hpc hu]

theorem Inv.mem_of_pc_ne (h : Inv g s) (hpc : s.pc n ≠ .done) : n ∈ g.nodes := by
  by_contra hn
  exact hpc (h.outside n hn)

theorem TargetOk.pending_eq_zero (h : TargetOk g s t) (hh : Handles s n stage t) :
    (s.act t).pending = 0 := by
  by_contra hp
  exact (h.counting hp).2 n stage hh

theorem TargetOk.advance {stage' : Stage} (h : TargetOk g s t)
    (hh : Handles s n stage t) (hpc : s'.pc = update s.pc n (.handling stage' t rest))
    (hpend : (s'.act t).pending = (s.act t).pending) (hok : StageOk s' t stage') :
    TargetOk g s' t := by
  have huniq := (h.handled hh).2
  -- a second handler after the step was a second handler before it
  have only : ∀ {m st}, Handles s' m st t → m = n ∧ st = stage' := by
    intro m st hm
    obtain ⟨rfl, r, he⟩ | ⟨hmn, hm⟩ := (handles_of_pc_eq hpc).mp hm
    · simp only [Pc.handling.injEq] at he
      exact ⟨rfl, he.1.symm⟩
    · exact absurd (huniq m st hm) hmn
  refine ⟨fun hp => absurd (hpend.trans (h.pending_eq_zero hh)) hp, fun {m st} hm => ?_,
    fun _ hno => ?_⟩
  · obtain ⟨rfl, rfl⟩ := only hm
    exact ⟨hok, fun _ _ hm' => (only hm').1⟩
  · exact absurd ⟨rest, by simp [hpc]⟩ (hno n stage')

theorem TargetOk.leave (h : TargetOk g s t)
    (hh : Handles s n stage t) (hpc : s'.pc = update s.pc n (.triggering rest))
    (hpend : (s'.act t).pending = (s.act t).pending) (hok : Started g s' t) : TargetOk g s' t := by
  have huniq := (h.handled hh).2
  have none : ∀ {m st}, ¬ Handles s' m st t := by
    intro m st hm
    obtain ⟨rfl, r, he⟩ | ⟨hmn, hm⟩ := (handles_of_pc_eq hpc).mp hm
    · cases he
    · exact hmn (huniq m st hm)
  exact ⟨fun hp => absurd (hpend.trans (h.pending_eq_zero hh)) hp, fun hm => absurd hm none,
    fun _ _ => hok⟩

theorem ThreadOk.triggered (h : ThreadOk g m .notTriggered p) : ThreadOk g m .triggered p := by
  cases p <;> simp_all [ThreadOk]

theorem Inv.of_handle (h : Inv g s)
    (hpcn : s.pc n = .handling stage t rest) (hpc : s'.pc = update s.pc n p)
    (hp : p = .triggering rest ∨ ∃ stage', p = .handling stage' t rest)
    (hact : ∀ u, u ≠ t → s'.act u = s.act u) (hstatus : (s'.act t).status = (s.act t).status ∨
      ((s.act t).status = .notTriggered ∧ (s'.act t).status = .triggered))
    (hpend : (s'.act t).pending = (s.act t).pending)
    (hseq : ∀ u, u ≠ t → s'.seq u = s.seq u) (hfd : ∀ u, u ≠ t → s'.fd u = s.fd u)
    (htarget : TargetOk g s' t) : Inv g s' := by
  have hn : n ∈ g.nodes := h.mem_of_pc_ne (by simp [hpcn])
  have ht : t ∈ g.nodes := h.handled_mem ⟨rest, hpcn⟩
  have hpend' : ∀ u, (s'.act u).pending = (s.act u).pending := by
    intro u
    by_cases hu : u = t
    · rw [hu, hpend]
    · rw [hact u hu]
  -- the edge was fired when the count reached zero
  have hu : unfired g n p = unfired g n (s.pc n) := by
    obtain rfl | ⟨stage', rfl⟩ := hp <;> simp [unfired, hpcn]
  have hthread : ∀ m ∈ g.nodes, ThreadOk g m (s'.act m).status (s.pc m) := by
    intro m hm
    have := h.thread m hm
    -- the thread of `t` itself waits: it does not mind being TRIGGERED
    by_cases hmt : m = t
    · subst hmt
      obtain he | ⟨he, he'⟩ := hstatus
      · rwa [he]
      · rw [he] at this
        rw [he']
        exact this.triggered
    · rwa [hact m hmt]
  refine h.of_step hn hpc (fun u hu' => pending_of_unfired_eq h hpc hpend' hu hu') (fun u hu' => ?_)
    (fun m hm _ => hthread m hm) ?_ (hu ▸ h.suffix n hn) ?_
  · by_cases hut : u = t
    · exact hut ▸ htarget
    · refine (h.target u hu').congr (hact u hut) (hseq u hut) (hfd u hut)
        (handles_iff_of_pc_eq hpc (fun st r he => ?_) fun st r he => ?_)
      · rw [hpcn] at he
        exact hut (Pc.handling.inj he).2.1.symm
      · obtain rfl | ⟨stage', rfl⟩ := hp
        · cases he
        · exact hut (Pc.handling.inj he).2.1.symm
  · have := hthread n hn
    rw [hpcn] at this
    obtain rfl | ⟨stage', rfl⟩ := hp <;> simpa [ThreadOk] using this
  · intro stage' u r he
    obtain rfl | ⟨stage'', rfl⟩ := hp
    · cases he
    · rw [← (Pc.handling.inj he).2.1]
      exact ht

end PipeWireAO.Node.Dataflow
