import Mathlib.Algebra.Order.BigOperators.Group.List
import Mathlib.Algebra.GroupWithZero.Nat
import Mathlib.Algebra.Order.Group.Nat
import Mathlib.Data.Fintype.Order
import PipeWireAO.Node.Dataflow.Step

/-!
# A cycle stops when every node is finished
-/

namespace PipeWireAO.Node.Dataflow

open Foundation Completion

variable {g : Graph} {s s' : State} {n m t : ℕ} {es tr : List Event}

/-! ## A cycle only stops when every node is finished -/

/-- The edges between the nodes other than the driver, as a relation on the nodes. -/
def Graph.Edge (g : Graph) (n m : ℕ) : Prop :=
  n ∈ g.targets g.driver ∧ n ≠ g.driver ∧ m ≠ g.driver ∧ m ∈ g.targets n

theorem Graph.edge_wf (g : Graph) : WellFounded fun a b : { n // n ∈ g.nodes } => g.Edge a b := by
  let r : { n // n ∈ g.nodes } → { n // n ∈ g.nodes } → Prop := fun a b => g.Edge a.1 b.1
  have : Std.Irrefl (Relation.TransGen r) :=
    ⟨fun a ha => g.acyclic a.1 (ha.lift Subtype.val fun _ _ h => h)⟩
  have hsub : Subrelation r (Relation.TransGen r) := fun h => .single h
  exact hsub.wf (Finite.wellFounded_of_trans_of_irrefl _)

theorem pc_of_stuck (hst : (cycle g).Stuck s) (n : ℕ) : s.pc n = .waiting ∨ s.pc n = .done := by
  have h : advance g s n = none := hst (.advance n)
  unfold advance at h
  split at h
  · exact .inl ‹_›
  · exact .inr ‹_›
  · split at h
    · split at h <;> cases h
    · cases h
  · cases h
  · simp only at h
    split at h <;> cases h
  · cases h

theorem not_handles_of_stuck (hst : (cycle g).Stuck s) (n : ℕ) (stage : Stage) (t : ℕ) :
    ¬ Handles s n stage t := by
  rintro ⟨rest, hpc⟩
  obtain h | h := pc_of_stuck hst n <;> simp [h] at hpc

theorem finished_of_pending (h : Inv g s) (hst : (cycle g).Stuck s) (ht : t ∈ g.nodes)
    (hp : (s.act t).pending = 0) : (s.act t).status = .finished := by
  have hs := (h.target t ht).settled hp fun n stage => not_handles_of_stuck hst n stage t
  have hth := h.thread t ht
  obtain hpc | hpc := pc_of_stuck hst t
  · rw [hpc] at hth
    have htr : (s.act t).status = .triggered := hth.resolve_left hs.status
    -- a triggered node that waits can be woken
    have hw : wake g s t = none := hst (.wake t)
    unfold wake at hw
    by_cases hpoll : g.polling t = true
    · simp [hpc, hpoll, hs.seq, htr] at hw
    · have hfd := (hs.woken htr).resolve_left hpoll
      simp [hpc, hpoll, hfd] at hw
  · rw [hpc] at hth
    exact hth

theorem unfired_of_stuck (h : Inv g s) (hst : (cycle g).Stuck s) (hn : n ∈ g.nodes)
    (hf : n = g.driver ∨ (s.act n).status = .finished) : unfired g n (s.pc n) = [] := by
  obtain hpc | hpc := pc_of_stuck hst n
  · obtain rfl | hf := hf
    · simp [hpc, unfired]
    · have := h.thread n hn
      simp [hpc, ThreadOk, hf] at this
  · simp [hpc, unfired]

/-- **A cycle only stops when every node is finished.** -/
theorem finished_of_stuck (h : Inv g s) (hst : (cycle g).Stuck s) (ht : t ∈ g.nodes) :
    (s.act t).status = .finished := by
  -- a count is zero once all the sources are finished
  have key : ∀ {t}, t ∈ g.nodes →
      (∀ n ∈ g.nodes, n ≠ g.driver → t ∈ g.targets n → (s.act n).status = .finished) →
      (s.act t).status = .finished := by
    intro t ht hsrc
    refine finished_of_pending h hst ht ?_
    rw [h.pending t ht, Int.natCast_eq_zero, List.countP_eq_zero]
    intro n hn
    simp only [decide_eq_true_eq]
    intro hu
    have hnt : t ∈ g.targets n := (h.suffix n hn).subset hu
    by_cases hd : n = g.driver
    · simp [unfired_of_stuck h hst hn (.inl hd)] at hu
    · simp [unfired_of_stuck h hst hn (.inr (hsrc n hn hd hnt))] at hu
  -- the followers along the edges, then the driver
  have follower : ∀ t : { n // n ∈ g.nodes }, t.1 ≠ g.driver → (s.act t).status = .finished := by
    intro t
    induction t using g.edge_wf.induction with
    | _ t ih =>
      intro hd
      exact key t.2 fun n hn hnd hnt => ih ⟨n, hn⟩ ⟨hn, hnd, hd, hnt⟩ hnd
  by_cases hd : t = g.driver
  · exact key ht fun n hn hnd _ => follower ⟨n, hn⟩ hnd
  · exact follower ⟨t, ht⟩ hd

/-! ## A cycle stops -/

/-- The steps left in `trigger_target_v2`. -/
def Stage.cost : Stage → ℕ
  | .readSeq => 5
  | .claimSeq _ => 4
  | .casStatus => 3
  | .writeTime => 2
  | .wakeUp => 1
  | .giveUp => 1

/-- A bound on the steps left for the thread of `n`. -/
def Pc.cost (g : Graph) (n : ℕ) : Pc → ℕ
  | .waiting => 6 * (unfired g n .waiting).length + 3
  | .processing => 6 * (unfired g n .processing).length + 2
  -- a decrement and the five steps of its trigger for each target; the driver then has its turn
  | .triggering rest => 6 * rest.length + if n = g.driver then 4 else 1
  | .handling stage _ rest => 6 * rest.length + stage.cost + if n = g.driver then 4 else 1
  | .done => 0

/-- A bound on the steps left in the cycle. -/
def cost (g : Graph) (s : State) : ℕ := (g.nodes.map fun n => (s.pc n).cost g n).sum

theorem cost_lt_of_pc_eq {p : Pc} (hn : n ∈ g.nodes) (hpc : s'.pc = Function.update s.pc n p)
    (hp : p.cost g n < (s.pc n).cost g n) : cost g s' < cost g s := by
  refine List.sum_lt_sum _ _ (fun m _ => ?_) ⟨n, hn, by simpa [hpc] using hp⟩
  by_cases hm : m = n
  · subst hm
    simpa [hpc] using hp.le
  · simp [hpc, hm]

theorem handle_pc {stage : Stage} {rest : List ℕ} :
    ∃ p, (handle g s n stage t rest).1.pc = Function.update s.pc n p ∧
      p.cost g n < (Pc.handling stage t rest).cost g n := by
  cases stage <;> simp only [handle]
  case writeTime => exact ⟨_, rfl, by simp [Pc.cost, Stage.cost]⟩
  case giveUp => exact ⟨_, rfl, by simp [Pc.cost, Stage.cost]⟩
  all_goals
    split <;> exact ⟨_, rfl, by simp [Pc.cost, Stage.cost]⟩

/-- **Every step brings the cycle closer to its end.** -/
theorem step_cost {a : Action} (h : Inv g s) (hs : (cycle g).step s a = some (s', es)) :
    cost g s' < cost g s := by
  cases a with
  | wake n =>
    have hs : wake g s n = some (s', es) := hs
    unfold wake at hs
    split at hs
    · cases hs
    rename_i hpcn
    have hpcn := not_not.mp hpcn
    have hn : n ∈ g.nodes := h.mem_of_pc_ne (by simp [hpcn])
    have hlt : Pc.processing.cost g n < (s.pc n).cost g n := by
      simp [hpcn, Pc.cost, unfired]
    split at hs
    · split at hs
      · rename_i hc
        rw [wakeNode_eq hc.1 hc.2] at hs
        cases hs
        exact cost_lt_of_pc_eq hn rfl hlt
      · cases hs
    · split at hs
      · rename_i hfd
        obtain ⟨hseq, hst⟩ := h.triggered_of_fd hpcn hfd
        rw [wakeNode_eq (s := s.setFd n 0) hseq hst] at hs
        cases hs
        exact cost_lt_of_pc_eq hn rfl hlt
      · cases hs
  | advance n =>
    have hs : advance g s n = some (s', es) := hs
    have hn : n ∈ g.nodes := h.mem_of_pc_ne fun hpc => by simp [advance, hpc] at hs
    unfold advance at hs
    split at hs
    · cases hs
    · cases hs
    · rename_i hpcn
      split at hs
      · split at hs
        · cases hs
          exact cost_lt_of_pc_eq hn rfl (by simp [hpcn, Pc.cost])
        · rename_i hd
          cases hs
          exact cost_lt_of_pc_eq hn rfl (by simp [hpcn, Pc.cost, unfired, hd])
      · cases hs
        exact cost_lt_of_pc_eq hn rfl (by simp [hpcn, Pc.cost])
    · rename_i hpcn
      cases hs
      refine cost_lt_of_pc_eq hn rfl ?_
      split <;> simp_all [Pc.cost, unfired]
    · rename_i hpcn
      simp only at hs
      split at hs <;> cases hs <;>
        exact cost_lt_of_pc_eq hn rfl (by simp [hpcn, Pc.cost, Stage.cost]; try omega)
    · rename_i hpcn
      obtain ⟨p, hpc, hlt⟩ := handle_pc (g := g) (s := s)
      rw [← hpcn] at hlt
      rw [Option.some.inj hs] at hpc
      exact cost_lt_of_pc_eq hn hpc hlt

end PipeWireAO.Node.Dataflow
