import Mathlib.Order.WellFoundedSet
import PipeWireAO.Errno

/-!
# The order of the nodes

`sort_graph` sweeps over the nodes again and again. A node is taken when all its links come from
nodes taken before, as a counter tells that starts at the number of its links; taking a node counts
down the counters of its consumers, once for every link. The sweeps end when all nodes were taken, or
when a sweep takes none.
-/

namespace PipeWireAO.FilterGraph

open List Function

/-- The links between nodes: from the first to the second. -/
abbrev Edges := List (ℕ × ℕ)

/-- The counters, and the nodes that were taken. -/
structure Sorting where
  indegree : ℕ → ℕ
  order : List ℕ

/-- The loop over the links of a node that was taken. -/
def countDown (edges : Edges) (i : ℕ) (indegree : ℕ → ℕ) : ℕ → ℕ :=
  edges.foldl (fun d e => if e.1 = i then update d e.2 (d e.2 - 1) else d) indegree

/-- A round of a sweep. -/
def visit (edges : Edges) (s : Sorting) (i : ℕ) : Sorting :=
  if s.indegree i ≠ 0 ∨ i ∈ s.order then s
  else ⟨countDown edges i s.indegree, s.order ++ [i]⟩

/-- A sweep over the nodes. -/
def sweep (n : ℕ) (edges : Edges) (s : Sorting) : Sorting := (List.range n).foldl (visit edges) s

/-- The sweeps, as long as there is progress and nodes are left. -/
def sortLoop (n : ℕ) (edges : Edges) (s : Sorting) : Sorting :=
  if s.order.length < (sweep n edges s).order.length ∧ (sweep n edges s).order.length < n then
    sortLoop n edges (sweep n edges s)
  else sweep n edges s
termination_by n - s.order.length

/-- `indegree` of the nodes, as `load_link` counts it. -/
def indegrees (edges : Edges) (k : ℕ) : ℕ := edges.countP fun e => e.2 = k

def sortGraph (n : ℕ) (edges : Edges) : Except Int (List ℕ) :=
  if (sortLoop n edges ⟨indegrees edges, []⟩).order.length = n then
    .ok (sortLoop n edges ⟨indegrees edges, []⟩).order
  else .error (-eLoop)

/-- Every one of the `n` nodes once, after the sources of its links. -/
structure IsTopological (n : ℕ) (edges : Edges) (order : List ℕ) : Prop where
  nodup : order.Nodup
  mem_iff : ∀ v, v ∈ order ↔ v < n
  before : ∀ pre v post, order = pre ++ v :: post → ∀ u, (u, v) ∈ edges → u ∈ pre

/-- **What a sweep keeps**: the counter of a node is the number of its links from nodes not taken;
and the nodes taken came after their sources. -/
structure SortInv (n : ℕ) (edges : Edges) (s : Sorting) : Prop where
  counts : ∀ k, s.indegree k = edges.countP fun e => e.2 = k ∧ e.1 ∉ s.order
  nodup : s.order.Nodup
  bound : ∀ v ∈ s.order, v < n
  before : ∀ pre v post, s.order = pre ++ v :: post → ∀ u, (u, v) ∈ edges → u ∈ pre

variable {n : ℕ} {edges : Edges} {s : Sorting} {i : ℕ}

theorem countDown_apply (edges : Edges) (i : ℕ) (d : ℕ → ℕ) (k : ℕ) :
    countDown edges i d k = d k - edges.countP fun e => e.1 = i ∧ e.2 = k := by
  induction edges generalizing d with
  | nil => rfl
  | cons e edges ih =>
    rw [countDown, foldl_cons, ← countDown, ih, countP_cons]
    by_cases he : e.1 = i
    · by_cases hk : e.2 = k
      · subst hk
        simp only [he, if_true, update_self, and_self, decide_true]
        omega
      · simp [he, hk, update_of_ne (Ne.symm hk)]
    · simp [he]

variable {order : List ℕ}

theorem countP_taken (edges : Edges) (hi : i ∉ order) (k : ℕ) :
    (edges.countP fun e => e.2 = k ∧ e.1 ∉ order ++ [i]) +
        (edges.countP fun e => e.1 = i ∧ e.2 = k) =
      edges.countP fun e => e.2 = k ∧ e.1 ∉ order := by
  induction edges with
  | nil => rfl
  | cons e edges ih =>
    have hhead : ((if e.2 = k ∧ e.1 ∉ order ++ [i] then 1 else 0) +
        if e.1 = i ∧ e.2 = k then 1 else 0) = if e.2 = k ∧ e.1 ∉ order then 1 else 0 := by
      by_cases he : e.1 = i
      · simp [he, hi]
      · simp [he]
    simp only [countP_cons, decide_eq_true_eq]
    omega

theorem visit_inv (hi : i < n) (h : SortInv n edges s) : SortInv n edges (visit edges s i) := by
  unfold visit
  split_ifs with hs
  · exact h
  · obtain ⟨hzero, hnew⟩ := not_or.mp hs
    refine ⟨?_, ?_, ?_, ?_⟩
    · intro k
      have hcount := countP_taken edges hnew k
      show countDown edges i s.indegree k = _
      rw [countDown_apply, h.counts k]
      exact Nat.sub_eq_of_eq_add hcount.symm
    · rw [← concat_eq_append]
      exact h.nodup.concat hnew
    · exact forall_mem_append.mpr ⟨h.bound, forall_mem_singleton.mpr hi⟩
    · intro pre v post hsplit u hu
      rcases eq_nil_or_concat post with rfl | ⟨post, w, rfl⟩
      · -- the node that is taken: its counter is zero
        obtain ⟨rfl, hv⟩ := append_inj' hsplit rfl
        obtain rfl : i = v := by simpa using hv
        by_contra hpre
        have hpos : 0 < edges.countP fun e => e.2 = i ∧ e.1 ∉ s.order :=
          countP_pos_iff.mpr ⟨(u, i), hu, by simpa using hpre⟩
        rw [← h.counts i] at hpos
        omega
      · rw [concat_eq_append, ← cons_append, ← append_assoc] at hsplit
        obtain ⟨hs, -⟩ := append_inj' hsplit rfl
        exact h.before pre v post hs u hu

theorem sweep_inv (h : SortInv n edges s) : SortInv n edges (sweep n edges s) := by
  have hbound : ∀ i ∈ List.range n, i < n := fun i => mem_range.mp
  unfold sweep
  generalize List.range n = is at hbound
  induction is generalizing s with
  | nil => exact h
  | cons i is ih =>
    apply ih
    · exact visit_inv (hbound i mem_cons_self) h
    · exact fun j hj => hbound j (mem_cons_of_mem i hj)

theorem sortLoop_inv (h : SortInv n edges s) : SortInv n edges (sortLoop n edges s) := by
  induction s using sortLoop.induct n edges with
  | case1 s hmore ih =>
    rw [sortLoop, if_pos hmore]
    exact ih (sweep_inv h)
  | case2 s hdone =>
    rw [sortLoop, if_neg hdone]
    exact sweep_inv h

theorem sortLoop_init (n : ℕ) (edges : Edges) :
    SortInv n edges (sortLoop n edges ⟨indegrees edges, []⟩) := by
  apply sortLoop_inv
  refine ⟨?_, nodup_nil, by simp, by simp⟩
  intro k
  simp [indegrees]

theorem SortInv.subset (h : SortInv n edges s) : s.order.toFinset ⊆ Finset.range n := by
  intro v hv
  exact Finset.mem_range.mpr (h.bound v (mem_toFinset.mp hv))

theorem SortInv.length_le (h : SortInv n edges s) : s.order.length ≤ n := by
  have := Finset.card_le_card h.subset
  rwa [toFinset_card_of_nodup h.nodup, Finset.card_range] at this

theorem SortInv.exists_left (h : SortInv n edges s) (hlt : s.order.length < n) :
    ∃ v < n, v ∉ s.order := by
  have hcard : s.order.toFinset.card < (Finset.range n).card := by
    rwa [toFinset_card_of_nodup h.nodup, Finset.card_range]
  obtain ⟨v, hv, hnot⟩ := Finset.exists_mem_notMem_of_card_lt_card hcard
  exact ⟨v, Finset.mem_range.mp hv, fun hmem => hnot (mem_toFinset.mpr hmem)⟩

/-- **The order `sort_graph` returns is topological.** -/
theorem sortGraph_topological (h : sortGraph n edges = .ok order) :
    IsTopological n edges order := by
  have hinv := sortLoop_init n edges
  unfold sortGraph at h
  split_ifs at h with hlen
  cases h
  refine ⟨hinv.nodup, ?_, hinv.before⟩
  intro v
  constructor
  · exact hinv.bound v
  · intro hv
    -- as many distinct nodes as there are
    have hcard : (Finset.range n).card ≤
        (sortLoop n edges ⟨indegrees edges, []⟩).order.toFinset.card := by
      rw [toFinset_card_of_nodup hinv.nodup, hlen, Finset.card_range]
    rw [← mem_toFinset, Finset.eq_of_subset_of_card_le hinv.subset hcard]
    exact Finset.mem_range.mpr hv

theorem mem_iff_idxOf_lt {pre post : List ℕ} {v : ℕ} (hn : order.Nodup)
    (h : order = pre ++ v :: post) (u : ℕ) : u ∈ pre ↔ order.idxOf u < order.idxOf v := by
  subst h
  have hv : v ∉ pre := fun hv => (nodup_append.mp hn).2.2 v hv v mem_cons_self rfl
  rw [(prefix_append pre (v :: post)).mem_iff_idxOf_lt_length u,
    idxOf_append_of_notMem hv, idxOf_cons_self, Nat.add_zero]

theorem isTopological_iff :
    IsTopological n edges order ↔ order.Nodup ∧ (∀ v ∈ order, v < n) ∧ (∀ v < n, v ∈ order) ∧
      ∀ e ∈ edges, e.2 ∈ order → order.idxOf e.1 < order.idxOf e.2 := by
  constructor
  · intro h
    refine ⟨h.nodup, fun v => (h.mem_iff v).mp, fun v => (h.mem_iff v).mpr, ?_⟩
    rintro ⟨u, v⟩ he hv
    obtain ⟨pre, post, hsplit⟩ := append_of_mem hv
    exact (mem_iff_idxOf_lt h.nodup hsplit u).mp (h.before pre v post hsplit u he)
  · rintro ⟨hnodup, hlt, hmem, hbefore⟩
    refine ⟨hnodup, fun v => ⟨hlt v, hmem v⟩, ?_⟩
    intro pre v post hsplit u he
    have hv : v ∈ order := by simp [hsplit]
    exact (mem_iff_idxOf_lt hnodup hsplit u).mpr (hbefore (u, v) he hv)

/-! ## Cycles -/

/-- No way along the links leads back to where it began. -/
def Acyclic (edges : Edges) : Prop :=
  ∀ v, ¬ Relation.TransGen (fun u v => (u, v) ∈ edges) v v

theorem idxOf_lt_of_transGen (h : IsTopological n edges order)
    (hbound : ∀ e ∈ edges, e.2 < n) {u v : ℕ}
    (hpath : Relation.TransGen (fun u v => (u, v) ∈ edges) u v) :
    order.idxOf u < order.idxOf v := by
  obtain ⟨-, -, hmem, hbefore⟩ := isTopological_iff.mp h
  induction hpath with
  | single he => exact hbefore _ he (hmem _ (hbound _ he))
  | tail _ he ih => exact lt_trans ih (hbefore _ he (hmem _ (hbound _ he)))

theorem IsTopological.acyclic (h : IsTopological n edges order)
    (hbound : ∀ e ∈ edges, e.2 < n) : Acyclic edges :=
  fun _ hcycle => lt_irrefl _ (idxOf_lt_of_transGen h hbound hcycle)

theorem foldl_visit_length (edges : Edges) (is : List ℕ) (s : Sorting) :
    s.order.length ≤ (is.foldl (visit edges) s).order.length := by
  induction is generalizing s with
  | nil => exact le_rfl
  | cons i is ih =>
    refine le_trans ?_ (ih (visit edges s i))
    unfold visit
    split_ifs <;> simp

/-- A sweep without progress has changed nothing: every node was taken before, or waits. -/
theorem foldl_visit_stuck {is : List ℕ}
    (h : (is.foldl (visit edges) s).order.length ≤ s.order.length) :
    is.foldl (visit edges) s = s ∧ ∀ i ∈ is, s.indegree i ≠ 0 ∨ i ∈ s.order := by
  induction is with
  | nil => exact ⟨rfl, by simp⟩
  | cons i is ih =>
    rw [foldl_cons] at h ⊢
    by_cases hi : s.indegree i ≠ 0 ∨ i ∈ s.order
    · have hvisit : visit edges s i = s := if_pos hi
      rw [hvisit] at h ⊢
      obtain ⟨hsame, hrest⟩ := ih h
      exact ⟨hsame, forall_mem_cons.mpr ⟨hi, hrest⟩⟩
    · -- a node that is taken is progress
      have hvisit : (visit edges s i).order.length = s.order.length + 1 := by
        rw [visit, if_neg hi, length_append, length_singleton]
      have := foldl_visit_length edges is (visit edges s i)
      omega

/-- Where the sweeps end: all nodes were taken, or every other node waits for one that was not. -/
theorem sortLoop_end (s : Sorting) : n ≤ (sortLoop n edges s).order.length ∨
    ∀ i < n, (sortLoop n edges s).indegree i ≠ 0 ∨ i ∈ (sortLoop n edges s).order := by
  induction s using sortLoop.induct n edges with
  | case1 s hmore ih =>
    rw [sortLoop, if_pos hmore]
    exact ih
  | case2 s hdone =>
    rw [sortLoop, if_neg hdone]
    rcases not_and_or.mp hdone with hstuck | hall
    · obtain ⟨hsame, hwait⟩ := foldl_visit_stuck (not_lt.mp hstuck)
      right
      intro i hi
      rw [sweep, hsame]
      exact hwait i (mem_range.mpr hi)
    · exact .inl (not_lt.mp hall)

/-- Without cycles, a set of nodes that is not empty has one with no source in the set. -/
theorem Acyclic.exists_source (h : Acyclic edges) {waits : Set ℕ} (hfin : waits.Finite)
    (hne : waits.Nonempty) : ∃ v ∈ waits, ∀ u ∈ waits, (u, v) ∉ edges := by
  let before := Relation.TransGen fun u v => (u, v) ∈ edges
  have hstrict : IsStrictOrder ℕ before :=
    { irrefl := h, trans := fun _ _ _ => Relation.TransGen.trans }
  have hwf : waits.WellFoundedOn before := hfin.wellFoundedOn
  obtain ⟨w, hw⟩ := hne
  obtain ⟨⟨v, hv⟩, -, hmin⟩ := WellFounded.has_min hwf Set.univ ⟨⟨w, hw⟩, Set.mem_univ _⟩
  exact ⟨v, hv, fun u hu he => hmin ⟨u, hu⟩ (Set.mem_univ _) (.single he)⟩

/-- **An order is returned exactly when there is no cycle.** -/
theorem sortGraph_acyclic (hbound : ∀ e ∈ edges, e.1 < n ∧ e.2 < n) :
    (∃ order, sortGraph n edges = .ok order) ↔ Acyclic edges := by
  constructor
  · rintro ⟨order, h⟩
    exact (sortGraph_topological h).acyclic fun e he => (hbound e he).2
  · intro hacyclic
    have hinv := sortLoop_init n edges
    have hlen : (sortLoop n edges ⟨indegrees edges, []⟩).order.length = n := by
      apply le_antisymm hinv.length_le
      rcases sortLoop_end ⟨indegrees edges, []⟩ with hall | hwait
      · exact hall
      · by_contra hlt
        obtain ⟨w, hw, hnot⟩ := hinv.exists_left (not_le.mp hlt)
        -- the nodes that are left all have a source among them
        let left := {v | v < n ∧ v ∉ (sortLoop n edges ⟨indegrees edges, []⟩).order}
        have hfin : left.Finite := (Set.finite_lt_nat n).subset fun v hv => hv.1
        obtain ⟨v, ⟨hv, hleft⟩, hmin⟩ := hacyclic.exists_source hfin ⟨w, hw, hnot⟩
        have hpos := (hwait v hv).resolve_right hleft
        rw [hinv.counts, ← Nat.pos_iff_ne_zero, countP_pos_iff] at hpos
        obtain ⟨⟨u, v'⟩, he, hwaits⟩ := hpos
        obtain ⟨rfl, hu⟩ := of_decide_eq_true hwaits
        exact hmin u ⟨(hbound _ he).1, hu⟩ he
    exact ⟨_, if_pos hlen⟩

instance (order : List ℕ) : Decidable (IsTopological n edges order) :=
  decidable_of_iff _ isTopological_iff.symm

end PipeWireAO.FilterGraph
