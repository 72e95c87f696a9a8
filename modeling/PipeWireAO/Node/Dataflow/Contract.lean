import PipeWireAO.Node.Dataflow.Progress
import PipeWireAO.Node.Dataflow.Trace

/-!
# The contract of a cycle
-/

namespace PipeWireAO.Node.Dataflow

open Foundation Completion

variable {g : Graph} {s s' : State} {n m t : ℕ} {es tr : List Event}

/-- The order in which the status of an armed node moves. -/
inductive Moves : ActivationStatus → ActivationStatus → Prop
  | trigger : Moves .notTriggered .triggered
  | wake : Moves .triggered .awake
  | finish : Moves .awake .finished

theorem Effect.moves (h : Effect g s s' es) (t : ℕ) :
    (s'.act t).status = (s.act t).status ∨ Moves (s.act t).status (s'.act t).status := by
  cases h with
  | silent hst | fired hst => exact .inl (hst t)
  | @triggered u _ _ hold hnew hst =>
    by_cases htu : t = u
    · subst htu
      rw [hold, hnew]
      exact .inr .trigger
    · exact .inl (hst t htu)
  | @awake u _ hold hnew hst =>
    by_cases htu : t = u
    · subst htu
      rw [hold, hnew]
      exact .inr .wake
    · exact .inl (hst t htu)
  | @finished u _ hold hnew hst =>
    by_cases htu : t = u
    · subst htu
      rw [hold, hnew]
      exact .inr .finish
    · exact .inl (hst t htu)

theorem TraceOk.finished_mem (h : TraceOk g s tr) (hn : n ∈ g.nodes)
    (hf : (s.act n).status = .finished) : .finished n ∈ tr :=
  List.count_pos_iff.mp (by simp [h.finished n hn, hf])

theorem fired_of_not_mem_unfired (h : Inv g s) (ht : TraceOk g s tr) (hn : n ∈ g.nodes)
    (htn : t ∈ g.targets n) (hu : t ∉ unfired g n (s.pc n)) :
    .fired n t ∈ tr ∧ (n ≠ g.driver → .finished n ∈ tr) := by
  refine ⟨List.count_pos_iff.mp (by simp [ht.fired n hn t htn, hu]), fun hd => ?_⟩
  refine ht.finished_mem hn ?_
  have hth := h.thread n hn
  cases hpc : s.pc n <;> rw [hpc] at hu hth <;> simp_all [unfired, ThreadOk]

/-- What the next step may do: statuses move in order, a node is triggered only after every
edge into it was fired, and edges are fired only by the driver and by finished nodes. -/
structure StepOk (g : Graph) (s s' : State) (tr es : List Event) : Prop where
  moves : ∀ t, (s'.act t).status = (s.act t).status ∨ Moves (s.act t).status (s'.act t).status
  triggered : ∀ t, .triggered t ∈ es → ∀ n ∈ g.nodes, t ∈ g.targets n →
    .fired n t ∈ tr ∧ (n ≠ g.driver → .finished n ∈ tr)
  fired : ∀ n t, .fired n t ∈ es → n ≠ g.driver → .finished n ∈ tr
  progress : cost g s' < cost g s

theorem stepOk {a : Action} (h : Inv g s) (ht : TraceOk g s tr)
    (hs : (cycle g).step s a = some (s', es)) : StepOk g s s' tr es := by
  obtain ⟨-, he⟩ := step_inv h hs
  refine ⟨he.moves, fun t hm n hn htn => ?_, fun n t hm hd => ?_, step_cost h hs⟩
  · cases he with
    | triggered hc hmem =>
      obtain rfl : t = _ := by simpa using hm
      refine fired_of_not_mem_unfired h ht hn htn fun hu => ?_
      have := h.pending_pos hn hmem hu
      omega
    | _ => simp at hm
  · cases he with
    | fired _ hsrc =>
      obtain ⟨rfl, -⟩ : n = _ ∧ t = _ := by simpa using hm
      exact ht.finished_mem hsrc.1 (hsrc.2 hd)
    | _ => simp at hm

/-- **Dataflow scheduling of one cycle.** In every interleaving from `node_ready`, each node is
triggered, wakes and finishes at most once, in this order, after every edge into it was fired by a
source that had finished. Every step brings the cycle closer to its end, where every node finished
exactly once. -/
theorem cycle_dataflow (g : Graph) {act : ℕ → Activation} {seq : ℕ → ℕ} (hp : Prepared g act)
    (hseq : ∀ t ∈ g.nodes, seq t % 2 = 0) {s : State} {tr : List Event}
    (h : (cycle g).Reaches (start g act seq) s tr) :
    (∀ t ∈ g.nodes, tr.count (.triggered t) ≤ 1 ∧ tr.count (.awake t) ≤ 1 ∧
      tr.count (.finished t) ≤ 1 ∧ 0 ≤ (s.act t).pending) ∧
    (∀ n t, .busy n t ∉ tr ∧ .notReady n t ∉ tr) ∧
    (∀ a s' es, (cycle g).step s a = some (s', es) → StepOk g s s' tr es) ∧
    ((cycle g).Stuck s → ∀ t ∈ g.nodes, (s.act t).status = .finished ∧
      tr.count (.finished t) = 1) := by
  obtain ⟨hi, ht⟩ := h.induct (I := fun s tr => Inv g s ∧ TraceOk g s tr)
    ⟨inv_start hp hseq, traceOk_start hp⟩
    fun hi hs => ⟨(step_inv hi.1 hs).1, step_traceOk hi.1 hi.2 hs⟩
  refine ⟨fun t hm => ⟨?_, ?_, ?_, ?_⟩, ht.clean, fun a s' es hs => stepOk hi ht hs,
    fun hst t hm => ?_⟩
  · rw [ht.triggered t hm]
    split <;> omega
  · rw [ht.awake t hm]
    split <;> omega
  · rw [ht.finished t hm]
    split <;> omega
  · rw [hi.pending t hm]
    exact Int.natCast_nonneg _
  · have hf := finished_of_stuck hi hst hm
    exact ⟨hf, by rw [ht.finished t hm, if_pos hf]⟩

/-- A driver (node 0) with one follower (node 1). -/
def pair : Graph where
  driver := 0
  targets n := if n = 0 then [0, 1] else if n = 1 then [0] else []
  polling _ := false
  nodup n := by
    split
    · decide
    · split <;> decide
  driver_mem := by decide
  closed {n m} hn hm := by
    obtain rfl | rfl : n = 0 ∨ n = 1 := by simpa using hn
    · exact hm
    · have : m = 0 := by simpa using hm
      simp [this]
  to_driver {n} hn := by
    obtain rfl | rfl : n = 0 ∨ n = 1 := by simpa using hn
    · decide
    · decide
  acyclic n h := by
    -- the follower's only edge leads to the driver
    obtain ⟨m, ⟨hn, hnd, hmd, hm⟩, -⟩ := Relation.TransGen.head'_iff.mp h
    obtain rfl : n = 1 := by simpa [hnd] using hn
    exact hmd (by simpa using hm)

/-- The driver and its follower at the call of `node_ready`. -/
def pairAct (n : ℕ) : Activation := ⟨.finished, if n = 0 then 2 else 1, 0, 0, 0, false⟩

theorem pair_prepared : Prepared pair pairAct where
  follows _ _ := rfl
  present _ _ := by simp [pairAct]
  synchronous _ _ := rfl
  required t ht := by
    obtain rfl | rfl : t = 0 ∨ t = 1 := by simpa [Graph.nodes, pair] using ht
    · rfl
    · rfl

/-- A whole cycle of the driver and its follower. -/
def pairRun : List Action :=
  List.replicate 8 (.advance 0) ++ .wake 1 :: List.replicate 8 (.advance 1) ++
    [.wake 0, .advance 0]

theorem pair_dataflow : ∃ s, (cycle pair).Reaches (start pair pairAct fun _ => 0) s
      [.fired 0 0, .fired 0 1, .triggered 1, .awake 1, .finished 1, .fired 1 0, .triggered 0,
        .awake 0, .finished 0] ∧ ∀ t ∈ pair.nodes, 0 ≤ (s.act t).pending :=
  have h : (cycle pair).Reaches (start pair pairAct fun _ => 0) _
      [.fired 0 0, .fired 0 1, .triggered 1, .awake 1, .finished 1, .fired 1 0, .triggered 0,
        .awake 0, .finished 0] := .of_run pairRun rfl
  ⟨_, h, fun t ht => ((cycle_dataflow pair pair_prepared (fun _ _ => rfl) h).1 t ht).2.2.2⟩

end PipeWireAO.Node.Dataflow
