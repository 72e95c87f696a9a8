import PipeWireAO.Node.Dataflow.Invariant

/-!
# Every step of a cycle keeps the invariant
-/

namespace PipeWireAO.Node.Dataflow

open Foundation Completion List Function

variable {g : Graph} {s s' : State} {n m t q : ℕ} {es tr : List Event} {rest : List ℕ} {p : Pc}

/-! ## Triggering -/

theorem seqWrite_odd (h : q % 2 = 0) : seqWrite q % 2 = 1 := by
  simp only [seqWrite]
  omega

theorem seqWrite_even (h : q % 2 = 1) : seqWrite q % 2 = 0 := by
  simp only [seqWrite]
  omega

/-- **The trigger of a node goes through**: its handler finds the sequence word free and the
node NOT_TRIGGERED, so neither error exit is taken. -/
theorem inv_handle {stage : Stage} (h : Inv g s) (hpcn : s.pc n = .handling stage t rest) :
    Inv g (handle g s n stage t rest).1 ∧
      (handle g s n stage t rest).2 = if stage = .casStatus then [.triggered t] else [] := by
  have ht : t ∈ g.nodes := h.handled_mem ⟨rest, hpcn⟩
  have hh : Handles s n stage t := ⟨rest, hpcn⟩
  have hok := ((h.target t ht).handled hh).1
  -- what holds at each stage selects the branch that goes on
  cases stage with
  | readSeq =>
    have he : handle g s n .readSeq t rest =
        (s.setPc n (.handling (.claimSeq (s.seq t)) t rest), []) := by
      simp [handle, hok.seq]
    rw [he]
    refine ⟨h.of_handle hpcn rfl (.inr ⟨_, rfl⟩) (fun _ _ => rfl) (.inl rfl) rfl (fun _ _ => rfl)
      (fun _ _ => rfl) ((h.target t ht).advance hh rfl rfl ?_), rfl⟩
    exact ⟨⟨hok.status, hok.seq, hok.fd⟩, rfl⟩
  | claimSeq q =>
    obtain ⟨hu, hq⟩ := hok
    have he : handle g s n (.claimSeq q) t rest =
        ((s.setSeq t (seqWrite q)).setPc n (.handling .casStatus t rest), []) := by
      simp [handle, hq]
    rw [he]
    refine ⟨h.of_handle hpcn rfl (.inr ⟨_, rfl⟩) (fun _ _ => rfl) (.inl rfl) rfl
      (fun u hu => by simp [hu]) (fun _ _ => rfl) ((h.target t ht).advance hh rfl rfl ?_), rfl⟩
    exact ⟨hu.status, by simpa using seqWrite_odd (hq ▸ hu.seq), hu.fd⟩
  | casStatus =>
    obtain ⟨hst, hseq, hfd⟩ := hok
    have he : handle g s n .casStatus t rest =
        ((s.setStatus t .triggered).setPc n (.handling .writeTime t rest), [.triggered t]) := by
      simp [handle, hst]
    rw [he]
    refine ⟨h.of_handle hpcn rfl (.inr ⟨_, rfl⟩) (fun u hu => by simp [hu]) (.inr ⟨hst, by simp⟩)
      (by simp) (fun _ _ => rfl) (fun _ _ => rfl) ((h.target t ht).advance hh rfl (by simp) ?_), rfl⟩
    exact ⟨by simp, hseq, hfd⟩
  | writeTime =>
    obtain ⟨hst, hseq, hfd⟩ := hok
    refine ⟨h.of_handle hpcn rfl (.inr ⟨_, rfl⟩) (fun _ _ => rfl) (.inl rfl) rfl
      (fun u hu => by simp [handle, hu]) (fun _ _ => rfl)
      ((h.target t ht).advance hh rfl rfl ?_), rfl⟩
    exact ⟨by simp [handle, hst], by simpa [handle] using seqWrite_even hseq, hfd⟩
  | wakeUp =>
    obtain ⟨hst, hseq, hfd⟩ := hok
    by_cases hp : g.polling t = true
    · have he : handle g s n .wakeUp t rest = (s.setPc n (.triggering rest), []) := by
        simp [handle, hp]
      rw [he]
      exact ⟨h.of_handle hpcn rfl (.inl rfl) (fun _ _ => rfl) (.inl rfl) rfl (fun _ _ => rfl)
        (fun _ _ => rfl) ((h.target t ht).leave hh rfl rfl ⟨hst, hseq, fun _ => .inl hp⟩), rfl⟩
    · have he : handle g s n .wakeUp t rest =
          ((s.setFd t (s.fd t + 1)).setPc n (.triggering rest), []) := by
        simp [handle, hp]
      rw [he]
      exact ⟨h.of_handle hpcn rfl (.inl rfl) (fun _ _ => rfl) (.inl rfl) rfl (fun _ _ => rfl)
        (fun u hu => by simp [hu])
        ((h.target t ht).leave hh rfl rfl ⟨hst, hseq, fun _ => .inr (by simp)⟩), rfl⟩
  | giveUp => exact hok.elim

theorem countP_eq_succ {l : List ℕ} {p q : ℕ → Bool} (hl : l.Nodup) (hn : n ∈ l) (hp : p n = true)
    (hq : q n = false) (h : ∀ m, m ≠ n → p m = q m) : l.countP p = l.countP q + 1 := by
  obtain ⟨l₁, l₂, rfl⟩ := append_of_mem hn
  obtain ⟨-, h₂, h₃⟩ := nodup_append.mp hl
  have hne₁ : ∀ m ∈ l₁, m ≠ n := fun m hm => h₃ m hm n (by simp)
  have hne₂ : ∀ m ∈ l₂, m ≠ n := fun m hm he => (nodup_cons.mp h₂).1 (he ▸ hm)
  have e₁ : l₁.countP p = l₁.countP q := countP_congr fun m hm => by rw [h m (hne₁ m hm)]
  have e₂ : l₂.countP p = l₂.countP q := countP_congr fun m hm => by rw [h m (hne₂ m hm)]
  simp only [countP_append, countP_cons, hp, hq, e₁, e₂]
  simp
  omega

theorem Inv.pending_pos (h : Inv g s) (hn : n ∈ g.nodes) (ht : t ∈ g.nodes)
    (hu : t ∈ unfired g n (s.pc n)) : 0 < (s.act t).pending := by
  have : 0 < g.nodes.countP fun m => decide (t ∈ unfired g m (s.pc m)) :=
    countP_pos_iff.mpr ⟨n, hn, by simpa using hu⟩
  rw [h.pending t ht]
  exact_mod_cast this

theorem status_decrement (u m : ℕ) : ((s.setAct u { s.act u with pending := (s.act u).pending - 1 }).act
    m).status = (s.act m).status := by
  by_cases hmu : m = u
  · subst hmu
    simp
  · simp [hmu]

/-- **A thread decrements the count of its next target**, and handles it if it was the last. -/
theorem inv_fire {u : ℕ} (h : Inv g s) (hpcn : s.pc n = .triggering (u :: rest))
    (hs' : s' = (s.setAct u { s.act u with pending := (s.act u).pending - 1 }).setPc n p)
    (hp : p = if (s.act u).pending - 1 = 0 then .handling .readSeq u rest else .triggering rest) :
    Inv g s' := by
  have hn : n ∈ g.nodes := h.mem_of_pc_ne (by simp [hpcn])
  have hold : unfired g n (s.pc n) = u :: rest := by simp [unfired, hpcn]
  have hsuf : (u :: rest) <:+ g.targets n := hold ▸ h.suffix n hn
  have hu : u ∈ g.nodes := g.closed hn (hsuf.subset (by simp))
  have hnd : u ∉ rest := (nodup_cons.mp (hsuf.sublist.nodup (g.nodup n))).1
  -- the thread itself is counted, so the target is untouched and has no handler
  have hpos := h.pending_pos hn hu (by simp [hold])
  obtain ⟨hun, hno⟩ := (h.target u hu).counting (by omega)
  have hpc : s'.pc = update s.pc n p := by simp [hs']
  have hup : unfired g n p = rest := by
    rw [hp]
    split <;> rfl
  have hst : ∀ m, (s'.act m).status = (s.act m).status := hs' ▸ status_decrement u
  have hun' : Unstarted s' u := ⟨by rw [hst, hun.status], by simp [hs', hun.seq], by simp [hs', hun.fd]⟩
  have hpend : (s'.act u).pending = (s.act u).pending - 1 := by simp [hs']
  refine h.of_step hn hpc (fun t ht => ?_) (fun t ht => ?_) (fun m hm _ => by rw [hst]; exact h.thread m hm)
    ?_ (hup ▸ (suffix_cons u rest).trans hsuf) ?_
  · by_cases htu : t = u
    · subst htu
      have hc := countP_eq_succ (p := fun m => decide (t ∈ unfired g m (s.pc m)))
        (q := fun m => decide (t ∈ unfired g m (s'.pc m))) (g.nodup g.driver) hn
        (by simp [hold]) (by simp [hpc, hup, hnd])
        fun m hm => by simp [hpc, hm]
      rw [hpend, h.pending t ht, Graph.nodes, hc]
      simp
    · have hact : s'.act t = s.act t := by simp [hs', htu]
      rw [hact, h.pending t ht]
      congr 1
      refine countP_congr fun m _ => ?_
      by_cases hmn : m = n
      · subst hmn
        simp [hpc, hup, hold, htu]
      · simp [hpc, hmn]
  · by_cases htu : t = u
    · subst htu
      by_cases hz : (s.act t).pending - 1 = 0
      · -- the count reached zero: the thread becomes the handler
        rw [if_pos hz] at hp
        have only : ∀ {m st}, Handles s' m st t → m = n ∧ st = .readSeq := by
          intro m st hm
          obtain ⟨rfl, r, he⟩ | ⟨-, hm⟩ := (handles_of_pc_eq hpc).mp hm
          · rw [hp] at he
            exact ⟨rfl, (Pc.handling.inj he).1.symm⟩
          · exact absurd hm (hno m st)
        refine ⟨fun hne => absurd (hpend.trans hz) hne, fun {m st} hm => ?_, fun _ hno' => ?_⟩
        · obtain ⟨rfl, rfl⟩ := only hm
          exact ⟨hun', fun _ _ hm' => (only hm').1⟩
        · exact absurd ⟨rest, by simp [hpc, hp]⟩ (hno' n .readSeq)
      · -- others still have to trigger the target
        rw [if_neg hz] at hp
        have none : ∀ m st, ¬ Handles s' m st t := by
          intro m st hm
          obtain ⟨rfl, r, he⟩ | ⟨-, hm⟩ := (handles_of_pc_eq hpc).mp hm
          · rw [hp] at he
            cases he
          · exact hno m st hm
        exact ⟨fun _ => ⟨hun', none⟩, fun {m st} hm => absurd hm (none m st),
          fun he => absurd (hpend.symm.trans he) hz⟩
    · refine (h.target t ht).congr (by simp [hs', htu]) (by simp [hs']) (by simp [hs'])
        (handles_iff_of_pc_eq hpc (fun st r he => ?_) fun st r he => ?_)
      · rw [hpcn] at he
        cases he
      · rw [hp] at he
        split at he
        · exact htu (Pc.handling.inj he).2.1.symm
        · cases he
  · have := h.thread n hn
    rw [hpcn] at this
    rw [hst, hp]
    split <;> simpa [ThreadOk] using this
  · intro stage t r he
    rw [hp] at he
    split at he
    · rw [← (Pc.handling.inj he).2.1]
      exact hu
    · cases he

/-! ## Processing -/

theorem TargetOk.of_running (h : TargetOk g s n) (hpc : s'.pc = update s.pc n p)
    (hold : ∀ stage t rest, s.pc n ≠ .handling stage t rest)
    (hnew : ∀ stage t rest, p ≠ .handling stage t rest) (hst : (s.act n).status ≠ .notTriggered)
    (hseq : s.seq n % 2 = 0) (hst' : (s'.act n).status ≠ .notTriggered)
    (hst'' : (s'.act n).status ≠ .triggered) (hseq' : s'.seq n % 2 = 0)
    (hfd' : s'.fd n = s.fd n ∨ s'.fd n = 0) (hpend : (s'.act n).pending = (s.act n).pending) :
    TargetOk g s' n := by
  have hh := handles_iff_of_pc_eq (t := n) hpc (fun st r => hold st n r) fun st r => hnew st n r
  refine ⟨fun hp => ?_, fun {m st} hm => ?_, fun _ _ => ⟨hst', hseq', fun he => absurd he hst''⟩⟩
  · exact absurd (h.counting (hpend ▸ hp)).1.status hst
  · obtain ⟨h₁, h₂⟩ := h.handled ((hh m st).mp hm)
    refine ⟨?_, fun m' st' hm' => h₂ m' st' ((hh m' st').mp hm')⟩
    -- the only stage a started node can be in is the last one
    cases st with
    | readSeq => exact absurd h₁.status hst
    | claimSeq q => exact absurd h₁.1.status hst
    | casStatus => exact absurd h₁.1 hst
    | writeTime => simp [h₁.2.1] at hseq
    | wakeUp => exact ⟨hst', hseq', by obtain h | h := hfd' <;> simp [h, h₁.2.2]⟩
    | giveUp => exact h₁

theorem Inv.seq_even (h : Inv g s) (hn : n ∈ g.nodes) (hst : (s.act n).status = .awake) :
    s.seq n % 2 = 0 := by
  by_cases hp : (s.act n).pending = 0
  · by_cases hh : ∃ m stage, Handles s m stage n
    · -- the handler may be about to write the eventfd of a node that already runs
      obtain ⟨m, stage, hm⟩ := hh
      have hok := ((h.target n hn).handled hm).1
      cases stage with
      | readSeq => exact hok.seq
      | claimSeq q => exact hok.1.seq
      | casStatus | writeTime => simp [StageOk, hst] at hok
      | wakeUp => exact hok.2.1
      | giveUp => exact hok.elim
    · exact ((h.target n hn).settled hp fun m stage hm => hh ⟨m, stage, hm⟩).seq
  · exact ((h.target n hn).counting hp).1.seq

theorem Inv.of_own (h : Inv g s) (hn : n ∈ g.nodes) (hpc : s'.pc = update s.pc n p)
    (hold : ∀ stage t rest, s.pc n ≠ .handling stage t rest)
    (hnew : ∀ stage t rest, p ≠ .handling stage t rest) (hu : unfired g n p = unfired g n (s.pc n))
    (hact : ∀ m, m ≠ n → s'.act m = s.act m) (hpend : (s'.act n).pending = (s.act n).pending)
    (hseq : ∀ m, m ≠ n → s'.seq m = s.seq m) (hfd : ∀ m, m ≠ n → s'.fd m = s.fd m)
    (htarget : TargetOk g s' n) (hthread : ThreadOk g n (s'.act n).status p) : Inv g s' := by
  have hpend' : ∀ m, (s'.act m).pending = (s.act m).pending := by
    intro m
    by_cases hm : m = n
    · rw [hm, hpend]
    · rw [hact m hm]
  refine h.of_step hn hpc (fun t ht => pending_of_unfired_eq h hpc hpend' hu ht) (fun t ht => ?_)
    (fun m hm hmn => by rw [hact m hmn]; exact h.thread m hm) hthread (hu ▸ h.suffix n hn)
    fun stage t rest he => absurd he (hnew stage t rest)
  by_cases htn : t = n
  · exact htn ▸ htarget
  · exact (h.target t ht).congr (hact t htn) (hseq t htn) (hfd t htn)
      (handles_iff_of_pc_eq hpc (fun st r => hold st t r) fun st r => hnew st t r)

theorem inv_finish (h : Inv g s) (hpcn : s.pc n = .processing) (hd : n ≠ g.driver) :
    Inv g ((s.setStatus n .finished).setPc n (.triggering (g.targets n))) := by
  have hn : n ∈ g.nodes := h.mem_of_pc_ne (by simp [hpcn])
  have hst : (s.act n).status = .awake := by simpa [ThreadOk, hpcn] using h.thread n hn
  have hseq := h.seq_even hn hst
  refine h.of_own hn rfl (by simp [hpcn]) (by simp) (by simp [unfired, hpcn, hd])
    (fun m hm => by simp [hm]) (by simp) (fun _ _ => rfl) (fun _ _ => rfl) ?_ (by simp [ThreadOk, hd])
  exact (h.target n hn).of_running rfl (by simp [hpcn]) (by simp) (by simp [hst]) hseq (by simp)
    (by simp) hseq (.inl rfl) (by simp)

theorem inv_finish_driver (h : Inv g s) (hpcn : s.pc g.driver = .processing) :
    Inv g (((s.setStatus g.driver .finished).setSeq g.driver
      (seqWrite (seqWrite (s.seq g.driver)))).setPc g.driver .done) := by
  have hn : g.driver ∈ g.nodes := g.driver_mem
  have hst : (s.act g.driver).status = .awake := by simpa [ThreadOk, hpcn] using h.thread _ hn
  have hseq := h.seq_even hn hst
  have hseq' := seqWrite_even (seqWrite_odd hseq)
  refine h.of_own hn rfl (by simp [hpcn]) (by simp) (by simp [unfired, hpcn])
    (fun m hm => by simp [hm]) (by simp) (fun m hm => by simp [hm]) (fun _ _ => rfl) ?_
    (by simp [ThreadOk])
  exact (h.target _ hn).of_running rfl (by simp [hpcn]) (by simp) (by simp [hst]) hseq (by simp)
    (by simp) (by simpa using hseq') (.inl rfl) (by simp)

theorem inv_triggered_all (h : Inv g s) (hpcn : s.pc n = .triggering []) :
    Inv g (s.setPc n (if n = g.driver then .waiting else .done)) := by
  have hn : n ∈ g.nodes := h.mem_of_pc_ne (by simp [hpcn])
  have hth := h.thread n hn
  have hh : ∀ m stage, Handles (s.setPc n (if n = g.driver then .waiting else .done)) m stage n ↔
      Handles s m stage n :=
    handles_iff_of_pc_eq rfl (by simp [hpcn]) (by split <;> simp)
  refine h.of_own hn rfl (by simp [hpcn]) (by split <;> simp) (by split <;> simp_all [unfired])
    (fun _ _ => rfl) rfl (fun _ _ => rfl) (fun _ _ => rfl) ((h.target n hn).congr rfl rfl rfl hh) ?_
  split <;> simp_all [ThreadOk]

theorem inv_awake (h : Inv g s) (hpcn : s.pc n = .waiting) (hseq : s.seq n % 2 = 0)
    (hst : (s.act n).status = .triggered) {c : ℕ} (hc : c = s.fd n ∨ c = 0) :
    Inv g (((s.setFd n c).setStatus n .awake).setPc n .processing) := by
  have hn : n ∈ g.nodes := h.mem_of_pc_ne (by simp [hpcn])
  refine h.of_own hn rfl (by simp [hpcn]) (by simp) (by simp [unfired, hpcn])
    (fun m hm => by simp [hm, State.setFd]) (by simp) (fun _ _ => rfl)
    (fun m hm => by simp [hm]) ?_ (by simp [ThreadOk])
  exact (h.target n hn).of_running rfl (by simp [hpcn]) (by simp) (by simp [hst]) hseq (by simp)
    (by simp) hseq (by simpa using hc) (by simp)

theorem Inv.triggered_of_fd (h : Inv g s) (hpcn : s.pc n = .waiting) (hfd : 0 < s.fd n) :
    s.seq n % 2 = 0 ∧ (s.act n).status = .triggered := by
  have hn : n ∈ g.nodes := h.mem_of_pc_ne (by simp [hpcn])
  have hth : (s.act n).status = .notTriggered ∨ (s.act n).status = .triggered := by
    simpa [ThreadOk, hpcn] using h.thread n hn
  by_cases hp : (s.act n).pending = 0
  · by_cases hh : ∃ m stage, Handles s m stage n
    · -- no handler has written the eventfd yet
      obtain ⟨m, stage, hm⟩ := hh
      have hok := ((h.target n hn).handled hm).1
      cases stage with
      | readSeq => simp [hok.fd] at hfd
      | claimSeq q => simp [hok.1.fd] at hfd
      | casStatus | writeTime | wakeUp => simp [hok.2.2] at hfd
      | giveUp => exact hok.elim
    · have hs := (h.target n hn).settled hp fun m stage hm => hh ⟨m, stage, hm⟩
      exact ⟨hs.seq, hth.resolve_left hs.status⟩
  · simp [((h.target n hn).counting hp).1.fd] at hfd

/-! ## What a step does -/

/-- What a step does to statuses and edges: nothing; it fires one edge, out of the driver or
out of a finished node; or it moves one status to the next one. -/
inductive Effect (g : Graph) (s s' : State) : List Event → Prop
  | silent (status : ∀ m, (s'.act m).status = (s.act m).status)
      (edges : ∀ m, unfired g m (s'.pc m) = unfired g m (s.pc m)) : Effect g s s' []
  | fired {n t : ℕ} (status : ∀ m, (s'.act m).status = (s.act m).status)
      (source : n ∈ g.nodes ∧ (n ≠ g.driver → (s.act n).status = .finished))
      (edge : unfired g n (s.pc n) = t :: unfired g n (s'.pc n))
      (edges : ∀ m, m ≠ n → unfired g m (s'.pc m) = unfired g m (s.pc m)) :
      Effect g s s' [.fired n t]
  | triggered {t : ℕ} (count : (s.act t).pending = 0) (mem : t ∈ g.nodes)
      (old : (s.act t).status = .notTriggered) (new : (s'.act t).status = .triggered)
      (status : ∀ m, m ≠ t → (s'.act m).status = (s.act m).status)
      (edges : ∀ m, unfired g m (s'.pc m) = unfired g m (s.pc m)) : Effect g s s' [.triggered t]
  | awake {t : ℕ} (mem : t ∈ g.nodes)
      (old : (s.act t).status = .triggered) (new : (s'.act t).status = .awake)
      (status : ∀ m, m ≠ t → (s'.act m).status = (s.act m).status)
      (edges : ∀ m, unfired g m (s'.pc m) = unfired g m (s.pc m)) : Effect g s s' [.awake t]
  | finished {t : ℕ} (mem : t ∈ g.nodes)
      (old : (s.act t).status = .awake) (new : (s'.act t).status = .finished)
      (status : ∀ m, m ≠ t → (s'.act m).status = (s.act m).status)
      (edges : ∀ m, unfired g m (s'.pc m) = unfired g m (s.pc m)) : Effect g s s' [.finished t]

theorem handle_effect {stage : Stage} (h : Inv g s) (hpcn : s.pc n = .handling stage t rest) :
    Effect g s (handle g s n stage t rest).1 (handle g s n stage t rest).2 := by
  have ht : t ∈ g.nodes := h.handled_mem ⟨rest, hpcn⟩
  have hh : Handles s n stage t := ⟨rest, hpcn⟩
  have hok := ((h.target t ht).handled hh).1
  cases stage with
  | casStatus =>
    have hst : (s.act t).status = .notTriggered := hok.1
    simp only [if_true, handle, hst]
    exact .triggered ((h.target t ht).pending_eq_zero hh) ht hst (by simp) (fun m hm => by simp [hm])
      (unfired_of_pc_eq rfl (by simp [unfired, hpcn]))
  | readSeq =>
    simp only [handle, reduceCtorEq, if_false, hok.seq]
    exact .silent (fun _ => rfl) (unfired_of_pc_eq rfl (by simp [unfired, hpcn]))
  | claimSeq q =>
    simp only [handle, hok.2, if_true]
    exact .silent (fun _ => rfl) (unfired_of_pc_eq rfl (by simp [unfired, hpcn]))
  | writeTime =>
    exact .silent (fun _ => rfl) (unfired_of_pc_eq rfl (by simp [unfired, hpcn]))
  | wakeUp =>
    simp only [handle]
    split <;> exact .silent (fun _ => rfl) (unfired_of_pc_eq rfl (by simp [unfired, hpcn]))
  | giveUp => exact hok.elim

/-- **Every step of a thread keeps the invariant.** -/
theorem advance_inv (h : Inv g s) (hs : advance g s n = some (s', es)) :
    Inv g s' ∧ Effect g s s' es := by
  unfold advance at hs
  split at hs
  · cases hs
  · cases hs
  · rename_i hpcn
    have hn : n ∈ g.nodes := h.mem_of_pc_ne (by simp [hpcn])
    have hst : (s.act n).status = .awake := by simpa [ThreadOk, hpcn] using h.thread n hn
    rw [if_pos hst] at hs
    split at hs
    · rename_i hd
      subst hd
      cases hs
      exact ⟨inv_finish_driver h hpcn, .finished hn hst (by simp) (fun m hm => by simp [hm])
        (unfired_of_pc_eq rfl (by simp [unfired, hpcn]))⟩
    · rename_i hd
      cases hs
      exact ⟨inv_finish h hpcn hd, .finished hn hst (by simp) (fun m hm => by simp [hm])
        (unfired_of_pc_eq rfl (by simp [unfired, hpcn, hd]))⟩
  · rename_i hpcn
    cases hs
    refine ⟨inv_triggered_all h hpcn, .silent (fun _ => rfl) (unfired_of_pc_eq rfl ?_)⟩
    split <;> simp_all [unfired]
  · rename_i u rest hpcn
    have hn : n ∈ g.nodes := h.mem_of_pc_ne (by simp [hpcn])
    -- a follower triggers its targets after it has finished
    have hsrc : n ≠ g.driver → (s.act n).status = .finished := by
      intro hd
      simpa [ThreadOk, hpcn, hd] using h.thread n hn
    simp only [State.setAct_act, update_self] at hs
    split at hs
    · rename_i hz
      cases hs
      exact ⟨inv_fire h hpcn rfl (by rw [if_pos hz]), .fired (status_decrement u) ⟨hn, hsrc⟩
        (by simp [unfired, hpcn]) fun m hm => by simp [hm]⟩
    · rename_i hz
      cases hs
      exact ⟨inv_fire h hpcn rfl (by rw [if_neg hz]), .fired (status_decrement u) ⟨hn, hsrc⟩
        (by simp [unfired, hpcn]) fun m hm => by simp [hm]⟩
  · rename_i hpcn
    have hi := (inv_handle h hpcn).1
    have he := handle_effect h hpcn
    rw [Option.some.inj hs] at hi he
    exact ⟨hi, he⟩

theorem wakeNode_eq (hseq : s.seq n % 2 = 0) (hst : (s.act n).status = .triggered) :
    wakeNode s n = ((s.setStatus n .awake).setPc n .processing, [.awake n]) := by
  simp [wakeNode, hseq, hst]

/-- **A wake-up keeps the invariant.** -/
theorem wake_inv (h : Inv g s) (hs : wake g s n = some (s', es)) : Inv g s' ∧ Effect g s s' es := by
  unfold wake at hs
  split at hs
  · cases hs
  rename_i hpcn
  have hpcn := not_not.mp hpcn
  have hn : n ∈ g.nodes := h.mem_of_pc_ne (by simp [hpcn])
  have hu : ∀ s' : State, s'.pc = update s.pc n .processing → ∀ m,
      unfired g m (s'.pc m) = unfired g m (s.pc m) := fun s' hpc =>
    unfired_of_pc_eq hpc (by simp [unfired, hpcn])
  split at hs
  · split at hs
    · rename_i hc
      rw [wakeNode_eq hc.1 hc.2] at hs
      cases hs
      refine ⟨?_, .awake hn hc.2 (by simp) (fun m hm => by simp [hm]) (hu _ rfl)⟩
      have := inv_awake h hpcn hc.1 hc.2 (c := s.fd n) (.inl rfl)
      simpa [State.setFd] using this
    · cases hs
  · split at hs
    · rename_i hfd
      obtain ⟨hseq, hst⟩ := h.triggered_of_fd hpcn hfd
      rw [wakeNode_eq (s := s.setFd n 0) hseq hst] at hs
      cases hs
      exact ⟨inv_awake h hpcn hseq hst (.inr rfl),
        .awake hn hst (by simp) (fun m hm => by simp [hm]) (hu _ rfl)⟩
    · cases hs

/-- **Every step keeps the invariant.** -/
theorem step_inv {a : Action} (h : Inv g s) (hs : (cycle g).step s a = some (s', es)) :
    Inv g s' ∧ Effect g s s' es := by
  cases a with
  | wake n => exact wake_inv h hs
  | advance n => exact advance_inv h hs

end PipeWireAO.Node.Dataflow
