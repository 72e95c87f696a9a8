import PipeWireAO.Node.Dataflow.Step

/-!
# The trace of a cycle

`node_ready` establishes the invariant, with as many triggers to wait for as there are edges into a
node. From then on the trace of the cycle agrees with its state: every edge that is not waiting any
more was fired once, and every status was entered once.
-/

namespace PipeWireAO.Node.Dataflow

open Foundation Completion List

variable {g : Graph} {s s' : State} {n m t : ℕ} {es tr : List Event}

/-! ## The start of a cycle -/

section Start

variable {act : ℕ → Activation} {seq : ℕ → ℕ}

theorem mem_map_targetList : t ∈ g.targetList.map Target.id ↔ t ∈ g.nodes := by
  simp [Graph.targetList]

theorem Prepared.joins (h : Prepared g act) (ht : t ∈ g.nodes) :
    joins g.driver (recoverDriver g.driver act t) = true := by
  by_cases hd : t = g.driver
  · subst hd
    simp [Node.joins, recoverDriver, h.follows _ ht]
  · simp [Node.joins, recoverDriver, hd, h.follows t ht, h.present t ht]

theorem Prepared.start_status (h : Prepared g act) (ht : t ∈ g.nodes) :
    ((start g act seq).act t).status = .notTriggered := by
  simp only [start]
  rw [startCycle_status, if_pos ⟨mem_map_targetList.mpr ht, h.joins ht⟩]

theorem Prepared.armedPending_eq (h : Prepared g act) :
    armedPending g.driver (recoverDriver g.driver act) g.targetList = g.inDegree g.driver := by
  have h₁ : armedPending g.driver (recoverDriver g.driver act) g.targetList = g.nodes.length := by
    rw [armedPending, Graph.targetList, countP_map, countP_eq_length]
    intro t ht
    have hs : (recoverDriver g.driver act t).async = false := by
      by_cases hd : t = g.driver
      · subst hd
        simpa [recoverDriver] using h.synchronous _ ht
      · simpa [recoverDriver, hd] using h.synchronous t ht
    simp [h.joins ht, hs]
  rw [h₁, Graph.inDegree, eq_comm, countP_eq_length]
  intro n hn
  simpa using g.to_driver hn

theorem Prepared.start_pending (h : Prepared g act) (ht : t ∈ g.nodes) :
    ((start g act seq).act t).pending = g.inDegree t := by
  by_cases hd : t = g.driver
  · subst hd
    simp [start, startCycle, h.armedPending_eq]
  · simp only [start, startCycle, setActivation_ne _ _ hd]
    rw [armTargets_apply, if_pos (mem_map_targetList.mpr ht)]
    simp [armActivation, recoverDriver, hd, h.required t ht]

theorem unfired_start (hn : n ∈ g.nodes) : unfired g n ((start g act seq).pc n) = g.targets n := by
  by_cases hd : n = g.driver
  · simp [start, unfired, hd]
  · simp [start, unfired, hd, hn]

theorem inDegree_pos (ht : t ∈ g.nodes) : 0 < g.inDegree t :=
  countP_pos_iff.mpr ⟨g.driver, g.driver_mem, by simpa [Graph.nodes] using ht⟩

/-- **`node_ready` establishes the invariant.** -/
theorem inv_start (h : Prepared g act) (hseq : ∀ t ∈ g.nodes, seq t % 2 = 0) :
    Inv g (start g act seq) := by
  have hno : ∀ n stage t, ¬ Handles (start g act seq) n stage t := by
    rintro n stage t ⟨rest, hpc⟩
    simp only [start] at hpc
    split at hpc
    · cases hpc
    · split at hpc <;> cases hpc
  refine ⟨fun t ht => ?_, fun t ht => ?_, fun n hn => ?_, fun n hn => ?_, fun n hn => ?_,
    fun {n stage t} hh => absurd hh (hno n stage t)⟩
  -- no edge was fired yet
  · rw [h.start_pending ht, Graph.inDegree]
    congr 1
    refine countP_congr fun n hn => ?_
    rw [unfired_start hn]
  · refine ⟨fun _ => ⟨⟨h.start_status ht, hseq t ht, rfl⟩, fun n stage => hno n stage t⟩,
      fun hh => absurd hh (hno _ _ t), fun hp => ?_⟩
    rw [h.start_pending ht] at hp
    have := inDegree_pos ht
    omega
  · rw [h.start_status hn]
    by_cases hd : n = g.driver
    · simp [start, ThreadOk, hd]
    · simp [start, ThreadOk, hd, hn]
  · simp only [unfired_start hn, suffix_rfl]
  · have hd : n ≠ g.driver := fun he => hn (he ▸ g.driver_mem)
    simp [start, hd, hn]

end Start

/-! ## The trace of a cycle -/

/-- The trace agrees with the statuses and the edges. -/
structure TraceOk (g : Graph) (s : State) (tr : List Event) : Prop where
  triggered : ∀ t ∈ g.nodes,
    tr.count (.triggered t) = if (s.act t).status = .notTriggered then 0 else 1
  awake : ∀ t ∈ g.nodes,
    tr.count (.awake t) = if (s.act t).status = .notTriggered ∨ (s.act t).status = .triggered
      then 0 else 1
  finished : ∀ t ∈ g.nodes, tr.count (.finished t) = if (s.act t).status = .finished then 1 else 0
  fired : ∀ n ∈ g.nodes, ∀ t ∈ g.targets n,
    tr.count (.fired n t) = if t ∈ unfired g n (s.pc n) then 0 else 1
  clean : ∀ n t, .busy n t ∉ tr ∧ .notReady n t ∉ tr

theorem TraceOk.of_moved {u : ℕ} {e : Event} (ht : TraceOk g s tr)
    (hst : ∀ t, t ≠ u → (s'.act t).status = (s.act t).status)
    (hu : ∀ m, unfired g m (s'.pc m) = unfired g m (s.pc m))
    (he : (e = .triggered u ∧ (s.act u).status = .notTriggered ∧ (s'.act u).status = .triggered) ∨
      (e = .awake u ∧ (s.act u).status = .triggered ∧ (s'.act u).status = .awake) ∨
      (e = .finished u ∧ (s.act u).status = .awake ∧ (s'.act u).status = .finished)) :
    TraceOk g s' (tr ++ [e]) := by
  refine ⟨fun t hm => ?triggered, fun t hm => ?awake, fun t hm => ?finished, fun n hn t hm => ?_,
    fun n t => ?_⟩
  case' triggered => have := ht.triggered t hm
  case' awake => have := ht.awake t hm
  case' finished => have := ht.finished t hm
  case triggered | awake | finished =>
    by_cases htu : t = u
    · subst htu
      obtain ⟨rfl, h₁, h₂⟩ | ⟨rfl, h₁, h₂⟩ | ⟨rfl, h₁, h₂⟩ := he <;>
        simp [count_append, this, h₁, h₂]
    · obtain ⟨rfl, -⟩ | ⟨rfl, -⟩ | ⟨rfl, -⟩ := he <;>
        simp [count_append, this, hst t htu, Ne.symm htu]
  · rw [hu, count_append, ht.fired n hn t hm]
    obtain ⟨rfl, -⟩ | ⟨rfl, -⟩ | ⟨rfl, -⟩ := he <;> simp
  · obtain ⟨h₁, h₂⟩ := ht.clean n t
    obtain ⟨rfl, -⟩ | ⟨rfl, -⟩ | ⟨rfl, -⟩ := he <;> simp [h₁, h₂]

theorem TraceOk.of_fired {m u : ℕ} (h : Inv g s) (ht : TraceOk g s tr)
    (hst : ∀ t, (s'.act t).status = (s.act t).status) (hm : m ∈ g.nodes)
    (hedge : unfired g m (s.pc m) = u :: unfired g m (s'.pc m))
    (hu : ∀ n, n ≠ m → unfired g n (s'.pc n) = unfired g n (s.pc n)) :
    TraceOk g s' (tr ++ [.fired m u]) := by
  refine ⟨fun t hm => ?_, fun t hm => ?_, fun t hm => ?_, fun n hn t htm => ?_, fun n t => ?_⟩
  · simp [count_append, hst, ht.triggered t hm]
  · simp [count_append, hst, ht.awake t hm]
  · simp [count_append, hst, ht.finished t hm]
  · rw [count_append, ht.fired n hn t htm]
    by_cases hnm : n = m
    · subst hnm
      -- a target stands once in its list, so the edge is not fired again
      have hnd : u ∉ unfired g n (s'.pc n) :=
        (nodup_cons.mp (hedge ▸ (h.suffix n hn).sublist.nodup (g.nodup n))).1
      by_cases htu : t = u
      · subst htu
        simp [hedge, hnd]
      · simp [hedge, htu, Ne.symm htu]
    · simp [hu n hnm, Ne.symm hnm]
  · simpa using ht.clean n t

theorem step_traceOk {a : Action} (h : Inv g s) (ht : TraceOk g s tr)
    (hs : (cycle g).step s a = some (s', es)) : TraceOk g s' (tr ++ es) := by
  obtain ⟨-, he⟩ := step_inv h hs
  cases he with
  | silent hst hu =>
    rw [append_nil]
    refine ⟨fun t => ?_, fun t => ?_, fun t => ?_, fun n => ?_, ht.clean⟩
    · rw [hst]
      exact ht.triggered t
    · rw [hst]
      exact ht.awake t
    · rw [hst]
      exact ht.finished t
    · rw [hu]
      exact ht.fired n
  | fired hst hsrc hedge hu => exact ht.of_fired h hst hsrc.1 hedge hu
  | triggered _ _ hold hnew hst hu => exact ht.of_moved hst hu (.inl ⟨rfl, hold, hnew⟩)
  | awake _ hold hnew hst hu => exact ht.of_moved hst hu (.inr (.inl ⟨rfl, hold, hnew⟩))
  | finished _ hold hnew hst hu => exact ht.of_moved hst hu (.inr (.inr ⟨rfl, hold, hnew⟩))

theorem traceOk_start {act : ℕ → Activation} {seq : ℕ → ℕ} (h : Prepared g act) :
    TraceOk g (start g act seq) [] := by
  refine ⟨fun t ht => ?_, fun t ht => ?_, fun t ht => ?_, fun n hn t ht => ?_, by simp⟩
  · simp [h.start_status ht]
  · simp [h.start_status ht]
  · simp [h.start_status ht]
  · rw [unfired_start hn, if_pos ht, count_nil]

end PipeWireAO.Node.Dataflow
