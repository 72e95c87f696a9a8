import PipeWireAO.FilterGraph.Admission
import PipeWireAO.FilterGraph.Process
import PipeWireAO.Foundation.Machine
import PipeWireAO.Foundation.Network

/-!
# What a cycle of a filter graph means

The nodes of a graph are a dataflow network: a node computes its state, its outputs and its calls from
its own state and the buffers of the nodes it is linked to. The loop over the nodes evaluates this
network, so a cycle without an error finds the one solution of the dataflow equations, in whichever
topological order. Whether there is an error does not depend on the order either; but which nodes
were called before it, and which error it is, do.
-/

namespace PipeWireAO.FilterGraph

open Foundation List Function

variable {P S : Type*} {p : PortId × Port}

/-! ## A node reads its sources -/

section Congr

variable {g : Graph} {plugin : ℕ → Plugin P S} {x : List (Option (Buffer P))}
  {offset : PortId → ℕ} {n : ℕ} {value value' : PortId → Buffer P}

theorem fst_of_mem_inputsOf {nodes : List Node} (h : p ∈ inputsOf nodes n) : p.1.1 = n := by
  unfold inputsOf at h
  split at h
  · cases h
  · obtain ⟨j, -, rfl⟩ := mem_mapIdx.mp h
    rfl

theorem edge_of_sourceOf {links : List Link} {p q : PortId} (h : sourceOf links p = some q) :
    (q.1, p.1) ∈ edgesOf links := by
  obtain ⟨l, hl, rfl⟩ := Option.map_eq_some_iff.mp h
  have hin : l.input = p := by simpa using find?_some hl
  rw [← hin]
  exact mem_map.mpr ⟨l, mem_of_find?_eq_some hl, rfl⟩

section Congruence

variable (hsrc : ∀ u, (u, n) ∈ edgesOf g.links → ∀ j, value (u, j) = value' (u, j))

include hsrc

theorem seen_congr (hp : p ∈ inputsOf g.nodes n) : seen g x value p.1 = seen g x value' p.1 := by
  unfold seen
  cases hq : sourceOf g.links p.1 with
  | none => rfl
  | some q =>
    have hedge := edge_of_sourceOf hq
    rw [fst_of_mem_inputsOf hp] at hedge
    have hval : value q = value' q := hsrc q.1 hedge q.2
    simp only [hval]

theorem nodeInputs_congr : nodeInputs g x value n = nodeInputs g x value' n :=
  map_congr_left fun _ hp => seen_congr hsrc hp

theorem nodeReady_congr : nodeReady g x value n = nodeReady g x value' n := by
  unfold nodeReady
  rw [Bool.eq_iff_iff, all_eq_true, all_eq_true]
  constructor
  · intro h p hp
    rw [← seen_congr hsrc hp]
    exact h p hp
  · intro h p hp
    rw [seen_congr hsrc hp]
    exact h p hp

theorem checkNodeInputs_congr : checkNodeInputs g x value n = checkNodeInputs g x value' n := by
  unfold checkNodeInputs
  congr 2
  · apply map_congr_left
    intro p hp
    rw [seen_congr hsrc hp]
  · apply map_congr_left
    intro p hp
    rw [seen_congr hsrc hp]

/-- **What becomes of a node** depends on its sources and on its own outputs. -/
theorem runNode_congr (hown : ∀ j, value (n, j) = value' (n, j)) (s : S) :
    runNode g plugin x offset n value s = runNode g plugin x offset n value' s := by
  have houts : nodeOutputs g value n = nodeOutputs g value' n :=
    map_congr_left fun j _ => hown j
  unfold runNode
  rw [nodeReady_congr hsrc, checkNodeInputs_congr hsrc, nodeInputs_congr hsrc, houts]

end Congruence

end Congr

/-! ## The graph as a network -/

/-- What a node holds: its state, its outputs, whether its properties changed, and the inputs of its
calls. -/
structure Cell (P S : Type*) where
  inst : S
  buffer : ℕ → Buffer P
  changed : Bool
  calls : List (List (Option (Buffer P)))

def valueOf (f : ℕ → Cell P S) (p : PortId) : Buffer P := (f p.1).buffer p.2

/-- What a node holds after it was taken. -/
def computeCell (g : Graph) (plugin : ℕ → Plugin P S) (x : List (Option (Buffer P)))
    (offset : PortId → ℕ) (n : ℕ) (f : ℕ → Cell P S) : Option (Cell P S) :=
  match runNode g plugin x offset n (valueOf f) (f n).inst with
  | .skipped => some (f n)
  | .refused _ => none
  | .failed _ _ _ => none
  | .done s outs changed =>
    some ⟨s, fun j => if j < (outputsOf g n).length then outs j else (f n).buffer j,
      (f n).changed || changed, (f n).calls ++ [nodeInputs g x (valueOf f) n]⟩

/-- **The graph as a network.** -/
def network (g : Graph) (plugin : ℕ → Plugin P S) (x : List (Option (Buffer P)))
    (offset : PortId → ℕ) : Network ℕ (Cell P S) where
  reads u n := (u, n) ∈ edgesOf g.links
  compute := computeCell g plugin x offset
  compute_congr := by
    intro n f f' hown hsrc
    have hval : ∀ u, (u, n) ∈ edgesOf g.links → ∀ j, valueOf f (u, j) = valueOf f' (u, j) := by
      intro u hu j
      simp only [valueOf, hsrc u hu]
    have hval' : ∀ j, valueOf f (n, j) = valueOf f' (n, j) := by
      intro j
      simp only [valueOf, hown]
    unfold computeCell
    rw [runNode_congr hval hval', nodeInputs_congr hval, hown]

/-- **A cycle and the values of its network**, for `N` nodes. `base` says whether properties had
changed before the first node was taken. -/
structure Cells (base : Bool) (N : ℕ) (c : Cycle P S) (f : ℕ → Cell P S) : Prop where
  inst : ∀ n, (f n).inst = c.inst n
  buffer : valueOf f = c.buffer
  calls : ∀ n, (f n).calls = c.calls.filterMap (eventAt n)
  changed : c.changed = (base || (List.range N).any fun n => (f n).changed)

section Run

variable {g : Graph} {plugin : ℕ → Plugin P S} {x : List (Option (Buffer P))}
  {offset : PortId → ℕ} {base : Bool} {N n : ℕ} {c c' : Cycle P S} {f : ℕ → Cell P S}

theorem any_update (hn : n < N) (v : Cell P S) (b : Bool) (hv : v.changed = ((f n).changed || b)) :
    ((List.range N).any fun m => (update f n v m).changed) =
      (((List.range N).any fun m => (f m).changed) || b) := by
  rw [Bool.eq_iff_iff]
  simp only [any_eq_true, mem_range, Bool.or_eq_true]
  constructor
  · rintro ⟨m, hm, h⟩
    by_cases hmn : m = n
    · subst hmn
      rw [update_self, hv, Bool.or_eq_true] at h
      rcases h with h | h
      · exact .inl ⟨m, hm, h⟩
      · exact .inr h
    · rw [update_of_ne hmn] at h
      exact .inl ⟨m, hm, h⟩
  · rintro (⟨m, hm, h⟩ | h)
    · by_cases hmn : m = n
      · subst hmn
        exact ⟨m, hm, by rw [update_self, hv, h, Bool.true_or]⟩
      · exact ⟨m, hm, by rw [update_of_ne hmn]; exact h⟩
    · exact ⟨n, hn, by rw [update_self, hv, h, Bool.or_true]⟩

variable (g plugin x offset) {order : List ℕ}

theorem nodeStep_compute (hn : n < N) (h : Cells base N c f) :
    (∀ c', nodeStep g plugin x offset c n = .ok c' →
      ∃ v, computeCell g plugin x offset n f = some v ∧ Cells base N c' (update f n v)) ∧
    (∀ e, nodeStep g plugin x offset c n = .error e → computeCell g plugin x offset n f = none) := by
  have hrun : runNode g plugin x offset n (valueOf f) (f n).inst =
      runNode g plugin x offset n c.buffer (c.inst n) := by
    rw [h.buffer, h.inst]
  unfold nodeStep computeCell
  rw [hrun]
  cases runNode g plugin x offset n c.buffer (c.inst n) with
  | skipped =>
    refine ⟨?_, by rintro _ ⟨⟩⟩
    rintro _ ⟨⟩
    exact ⟨f n, rfl, by rwa [update_eq_self]⟩
  | refused res | failed res s outs => exact ⟨by rintro _ ⟨⟩, fun _ _ => rfl⟩
  | done s outs changed =>
    refine ⟨?_, by rintro _ ⟨⟩⟩
    rintro _ ⟨⟩
    refine ⟨_, rfl, ⟨?_, ?_, ?_, ?_⟩⟩
    · intro m
      by_cases hm : m = n
      · subst hm
        simp [Cycle.called]
      · simp [Cycle.called, hm, h.inst]
    · funext p
      have hp : valueOf f p = c.buffer p := congrFun h.buffer p
      by_cases hm : p.1 = n
      · have hown : (f n).buffer p.2 = c.buffer p := by rw [← hp, valueOf, hm]
        simp [valueOf, Cycle.called, hm, hown]
      · simp only [valueOf] at hp
        simp [valueOf, Cycle.called, hm, hp]
    · intro m
      by_cases hm : m = n
      · subst hm
        simp [Cycle.called, eventAt, h.calls, h.buffer]
      · simp [Cycle.called, eventAt, hm, Ne.symm hm, h.calls]
    · rw [any_update hn _ changed rfl, h.changed, Bool.or_assoc]

/-- **The loop over the nodes evaluates the network.** -/
theorem runNodes_eval (hN : ∀ n ∈ order, n < N) (h : Cells base N c f) :
    (∀ c', runNodes g plugin x offset order c = .ok c' →
      ∃ f', (network g plugin x offset).eval order f = some f' ∧ Cells base N c' f') ∧
    (∀ e, runNodes g plugin x offset order c = .error e →
      (network g plugin x offset).eval order f = none) := by
  induction order generalizing c f with
  | nil =>
    refine ⟨?_, by rintro _ ⟨⟩⟩
    rintro _ ⟨⟩
    exact ⟨f, rfl, h⟩
  | cons n order ih =>
    obtain ⟨hok, herr⟩ := nodeStep_compute g plugin x offset (hN n mem_cons_self) h
    have hrest : ∀ m ∈ order, m < N := fun m hm => hN m (mem_cons_of_mem n hm)
    cases hs : nodeStep g plugin x offset c n with
    | error e =>
      have hrun : runNodes g plugin x offset (n :: order) c = .error e := by
        rw [runNodes, foldlM_cons, hs]
        rfl
      have hnone : (network g plugin x offset).eval (n :: order) f = none := by
        simp only [Network.eval, network, herr e hs]
      rw [hrun]
      exact ⟨by rintro _ ⟨⟩, fun _ _ => hnone⟩
    | ok c₁ =>
      obtain ⟨v, hv, hcells⟩ := hok c₁ hs
      have hrun : runNodes g plugin x offset (n :: order) c =
          runNodes g plugin x offset order c₁ := by
        rw [runNodes, foldlM_cons, hs]
        rfl
      have heval : (network g plugin x offset).eval (n :: order) f =
          (network g plugin x offset).eval order (update f n v) := by
        simp only [Network.eval, network, hv]
      rw [hrun, heval]
      exact ih hrest hcells

variable {g plugin x offset} {c₀ : Cycle P S}

theorem network_topological (h : IsTopological N (edgesOf g.links) order) :
    (network g plugin x offset).Topological order :=
  ⟨h.nodup, fun pre v post hsplit u _ hr => h.before pre v post hsplit u hr⟩

/-- What the nodes hold when a cycle starts. -/
def startCells (c : Cycle P S) (n : ℕ) : Cell P S :=
  ⟨c.inst n, fun j => c.buffer (n, j), false, []⟩

theorem startCells_cells (hcalls : c.calls = []) : Cells c.changed N c (startCells c) := by
  refine ⟨fun _ => rfl, rfl, ?_, ?_⟩
  · intro n
    rw [hcalls]
    rfl
  · simp [startCells]

theorem Cells.unique (h : Cells base N c f) (h' : Cells base N c' f) :
    c.inst = c'.inst ∧ c.buffer = c'.buffer ∧ c.changed = c'.changed ∧
      ∀ n, c.calls.filterMap (eventAt n) = c'.calls.filterMap (eventAt n) := by
  refine ⟨?_, ?_, ?_, ?_⟩
  · funext n
    rw [← h.inst, h'.inst]
  · rw [← h.buffer, h'.buffer]
  · rw [h.changed, h'.changed]
  · intro n
    rw [← h.calls, h'.calls]

/-- **The meaning of a graph.** A cycle from `c₀` to `c` solves the dataflow equations: with the
buffers that its sources hold at the end, a node that is ready was called once, and its state and
outputs are what its callback made of them; any other node was not called, and its state and outputs
are as they were. -/
structure IsDataflow (g : Graph) (plugin : ℕ → Plugin P S) (x : List (Option (Buffer P)))
    (c₀ c : Cycle P S) : Prop where
  called : ∀ n < g.nodes.length, nodeReady g x c.buffer n = true →
    c.calls.filterMap (eventAt n) = [nodeInputs g x c.buffer n] ∧
      ∃ res outs, (plugin n).process (c₀.inst n) (nodeInputs g x c.buffer n)
          (nodeOutputs g c₀.buffer n) = (res, c.inst n, outs) ∧
        0 ≤ res ∧ ∀ j < (outputsOf g n).length, c.buffer (n, j) = outs j
  idle : ∀ n < g.nodes.length, nodeReady g x c.buffer n = false →
    c.calls.filterMap (eventAt n) = [] ∧ c.inst n = c₀.inst n ∧
      ∀ j, c.buffer (n, j) = c₀.buffer (n, j)

theorem computeCell_eq_some {v : Cell P S} (h : computeCell g plugin x offset n f = some v) :
    (nodeReady g x (valueOf f) n = false ∧ v = f n) ∨
      (nodeReady g x (valueOf f) n = true ∧ ∃ res outs changed,
        (plugin n).process (f n).inst (nodeInputs g x (valueOf f) n)
          (nodeOutputs g (valueOf f) n) = (res, v.inst, outs) ∧ 0 ≤ res ∧
        v = ⟨v.inst, fun j => if j < (outputsOf g n).length then outs j else (f n).buffer j,
          (f n).changed || changed, (f n).calls ++ [nodeInputs g x (valueOf f) n]⟩) := by
  unfold computeCell runNode at h
  by_cases hready : nodeReady g x (valueOf f) n = false
  · rw [if_pos hready] at h
    cases h
    exact .inl ⟨hready, rfl⟩
  · rw [if_neg hready] at h
    by_cases hin : checkNodeInputs g x (valueOf f) n < 0
    · rw [if_pos hin] at h
      cases h
    · rw [if_neg hin] at h
      generalize (plugin n).process (f n).inst (nodeInputs g x (valueOf f) n)
        (nodeOutputs g (valueOf f) n) = r at h ⊢
      obtain ⟨res, s, outs⟩ := r
      by_cases hres : res < 0
      · rw [if_pos hres] at h
        cases h
      · rw [if_neg hres] at h
        by_cases hout : checkNodeOutputs g offset n outs < 0
        · rw [if_pos hout] at h
          cases h
        · rw [if_neg hout] at h
          cases h
          exact .inr ⟨by simpa using hready, res, outs, _, rfl, Int.not_lt.mp hres, rfl⟩

theorem IsTopological.ne_of_edge {edges : Edges} {u : ℕ} (h : IsTopological N edges order)
    (hn : n < N) (he : (u, n) ∈ edges) : u ≠ n := by
  rintro rfl
  obtain ⟨pre, post, hsplit⟩ := append_of_mem ((h.mem_iff u).mpr hn)
  have hpre := h.before pre u post hsplit u he
  have hnodup := h.nodup
  rw [hsplit, nodup_append] at hnodup
  exact hnodup.2.2 u hpre u mem_cons_self rfl

/-- **A cycle without an error solves the dataflow equations.** -/
theorem isDataflow_of_runNodes (ho : IsTopological g.nodes.length (edgesOf g.links) order)
    (hcalls : c₀.calls = []) (h : runNodes g plugin x offset order c₀ = .ok c) :
    IsDataflow g plugin x c₀ c := by
  have hlt : ∀ n ∈ order, n < g.nodes.length := fun n => (ho.mem_iff n).mp
  obtain ⟨f, heval, hcells⟩ :=
    (runNodes_eval g plugin x offset hlt (startCells_cells hcalls)).1 c h
  have hsolves := (Network.eval_eq_some_iff (network_topological ho)).mp heval
  -- what a node was called with is what its sources hold at the end
  have hnode : ∀ n < g.nodes.length, ∃ f₁ : ℕ → Cell P S, f₁ n = startCells c₀ n ∧
      computeCell g plugin x offset n f₁ = some (f n) ∧
      nodeReady g x (valueOf f₁) n = nodeReady g x c.buffer n ∧
      nodeInputs g x (valueOf f₁) n = nodeInputs g x c.buffer n ∧
      nodeOutputs g (valueOf f₁) n = nodeOutputs g c₀.buffer n := by
    intro n hn
    have hsrc : ∀ u, (u, n) ∈ edgesOf g.links → ∀ j,
        valueOf (update f n (startCells c₀ n)) (u, j) = c.buffer (u, j) := by
      intro u hu j
      rw [← hcells.buffer, valueOf, valueOf, update_of_ne (ho.ne_of_edge hn hu)]
    refine ⟨update f n (startCells c₀ n), update_self _ _ _,
      hsolves.inside n ((ho.mem_iff n).mpr hn), nodeReady_congr hsrc, nodeInputs_congr hsrc, ?_⟩
    apply map_congr_left
    intro j _
    rw [valueOf, update_self]
    rfl
  constructor
  · intro n hn hready
    obtain ⟨f₁, hstart, hcompute, hr, hin, hout⟩ := hnode n hn
    rcases computeCell_eq_some hcompute with ⟨hskip, -⟩ | ⟨-, res, outs, changed, hproc, hres, hv⟩
    · rw [hr, hready] at hskip
      cases hskip
    · rw [hstart, hin, hout, hcells.inst] at hproc
      rw [hstart, hin] at hv
      refine ⟨?_, res, outs, hproc, hres, ?_⟩
      · rw [← hcells.calls, hv]
        rfl
      · intro j hj
        rw [← hcells.buffer, valueOf, hv]
        exact if_pos hj
  · intro n hn hready
    obtain ⟨f₁, hstart, hcompute, hr, -, -⟩ := hnode n hn
    rcases computeCell_eq_some hcompute with ⟨-, hv⟩ | ⟨hrun, -⟩
    · rw [hstart] at hv
      refine ⟨?_, ?_, ?_⟩
      · rw [← hcells.calls, hv]
        rfl
      · rw [← hcells.inst, hv]
        rfl
      · intro j
        rw [← hcells.buffer, valueOf, hv]
        rfl
    · rw [hr, hready] at hrun
      cases hrun

/-- **The order does not matter** to a cycle without an error, nor to whether there is one. -/
theorem runNodes_congr_order {order' : List ℕ}
    (ho : IsTopological g.nodes.length (edgesOf g.links) order)
    (ho' : IsTopological g.nodes.length (edgesOf g.links) order') (hcalls : c₀.calls = [])
    (h : runNodes g plugin x offset order c₀ = .ok c) :
    ∃ c', runNodes g plugin x offset order' c₀ = .ok c' ∧ c.inst = c'.inst ∧
      c.buffer = c'.buffer ∧ c.changed = c'.changed ∧
      ∀ n, c.calls.filterMap (eventAt n) = c'.calls.filterMap (eventAt n) := by
  have hlt : ∀ n ∈ order, n < g.nodes.length := fun n => (ho.mem_iff n).mp
  have hlt' : ∀ n ∈ order', n < g.nodes.length := fun n => (ho'.mem_iff n).mp
  have hstart := startCells_cells (N := g.nodes.length) hcalls
  obtain ⟨f, heval, hcells⟩ := (runNodes_eval g plugin x offset hlt hstart).1 c h
  have hmem : ∀ v, v ∈ order ↔ v ∈ order' := by
    intro v
    rw [ho.mem_iff, ho'.mem_iff]
  rw [Network.eval_congr_order (network_topological ho) (network_topological ho') hmem] at heval
  obtain ⟨hok, herr⟩ := runNodes_eval g plugin x offset hlt' hstart
  cases hrun : runNodes g plugin x offset order' c₀ with
  | error e =>
    rw [herr e hrun] at heval
    cases heval
  | ok c' =>
    obtain ⟨f', heval', hcells'⟩ := hok c' hrun
    rw [heval] at heval'
    cases heval'
    exact ⟨c', rfl, hcells.unique hcells'⟩

end Run

/-! ## A call -/

/-- Two calls that differ at most in how the callbacks of different nodes are interleaved. -/
structure Result.Agree (r r' : Result P S) : Prop where
  state : r.state = r'.state
  outputs : r.outputs = r'.outputs
  res : r.res = r'.res
  calls : ∀ n, r.calls.filterMap (eventAt n) = r'.calls.filterMap (eventAt n)

section Call

variable {g : Graph} {a : Aliasing P} {plugin : ℕ → Plugin P S} {order order' : List ℕ}
  {st : State P S} {x y : List (Option (Buffer P))} {c₀ c c' : Cycle P S}

theorem process_ok (h : 0 ≤ (process g a plugin order st x y).res) :
    ∃ c₀ c, startCycle g a st x y = .ok c₀ ∧
      runNodes g plugin x (fun p => (c₀.buffer p).offset) order c₀ = .ok c := by
  unfold process at h
  cases hstart : startCycle g a st x y with
  | error r =>
    rw [hstart] at h
    exact absurd (startCycle_error_neg hstart) (Int.not_lt.mpr h)
  | ok c₀ =>
    cases hrun : runNodes g plugin x (fun p => (c₀.buffer p).offset) order c₀ with
    | error e =>
      simp only [hstart, hrun] at h
      exact absurd (runNodes_error_neg hrun) (Int.not_lt.mpr h)
    | ok c => exact ⟨c₀, c, rfl, hrun⟩

theorem process_congr_order (hnodup : g.outputs.Nodup)
    (ho : IsTopological g.nodes.length (edgesOf g.links) order)
    (ho' : IsTopological g.nodes.length (edgesOf g.links) order')
    (h : 0 ≤ (process g a plugin order st x y).res) :
    (process g a plugin order st x y).Agree (process g a plugin order' st x y) := by
  obtain ⟨c₀, c, hstart, hrun⟩ := process_ok h
  obtain ⟨hcalls, -, -⟩ := startCycle_spec hnodup hstart
  obtain ⟨c', hrun', hinst, hbuffer, hchanged, hsame⟩ := runNodes_congr_order ho ho' hcalls hrun
  rw [process_eq hstart hrun, process_eq hstart hrun']
  refine ⟨?_, ?_, ?_, hsame⟩
  · simp only [afterCycle, hinst, hbuffer]
  · simp only [externalOutputs, hbuffer]
  · simp only [statusOf, hchanged]

theorem IsDataflow.seen_eq_none (h : IsDataflow g plugin x c₀ c)
    (hempty : ∀ p, (c₀.buffer p).size = 0) {p q : PortId} (hq : sourceOf g.links p = some q)
    (hlt : q.1 < g.nodes.length) (hidle : nodeReady g x c.buffer q.1 = false) :
    seen g x c.buffer p = none := by
  obtain ⟨-, -, hbuffer⟩ := h.idle q.1 hlt hidle
  have hsize : (c.buffer q).size = 0 := by
    rw [hbuffer q.2]
    exact hempty q
  simp only [seen, hq, hsize, if_true]

end Call

/-- **A call computes the meaning of the graph.** Whether it fails does not depend on the
topological order in which the nodes are taken, nor does what it leaves and returns otherwise; and
this is the meaning of the graph for the buffers of the cycle, all empty at its start. -/
theorem process_dataflow {cfg : Config} {g : Graph} (hg : graphNew cfg = .ok g) {order : List ℕ}
    (ho : IsTopological g.nodes.length (edgesOf g.links) order) (a : Aliasing P)
    (plugin : ℕ → Plugin P S) (st : State P S) (x y : List (Option (Buffer P))) :
    ((process g a plugin order st x y).res < 0 ↔ (process g a plugin g.order st x y).res < 0) ∧
      (0 ≤ (process g a plugin order st x y).res →
        (process g a plugin order st x y).Agree (process g a plugin g.order st x y) ∧
        ∃ c₀ c, startCycle g a st x y = .ok c₀ ∧ process g a plugin order st x y =
            ⟨afterCycle g st c, externalOutputs g c, statusOf c, c.calls⟩ ∧
          IsDataflow g plugin x c₀ c ∧ (∀ p, (c₀.buffer p).size = 0) ∧
          (∀ (i : ℕ) p b, g.outputs[i]? = some p → y[i]? = some (some b) →
            c₀.buffer p = (initOutput b).1) ∧
          ∀ p q, sourceOf g.links p = some q → q.1 < g.nodes.length →
            nodeReady g x c.buffer q.1 = false → seen g x c.buffer p = none) := by
  have hnodup := graphNew_outputs_nodup hg
  have hsort := sortGraph_topological (graphNew_spec hg).order
  refine ⟨?_, ?_⟩
  · rw [← not_iff_not, Int.not_lt, Int.not_lt]
    constructor
    · intro h
      rw [← (process_congr_order hnodup ho hsort h).res]
      exact h
    · intro h
      rw [← (process_congr_order hnodup hsort ho h).res]
      exact h
  · intro h
    obtain ⟨c₀, c, hstart, hrun⟩ := process_ok h
    obtain ⟨hcalls, hempty, hexternal⟩ := startCycle_spec hnodup hstart
    have hflow := isDataflow_of_runNodes ho hcalls hrun
    exact ⟨process_congr_order hnodup ho hsort h, c₀, c, hstart, process_eq hstart hrun, hflow,
      hempty, hexternal, fun p q hq hlt => hflow.seen_eq_none hempty hq hlt⟩

/-- A required port without metadata. -/
def plainPort : Port := ⟨false, false, false, ⟨1, 1, 0, 1, [1], none⟩, 8, 8, []⟩

/-- An empty buffer with a header. -/
def plainBuffer : Buffer ℕ where
  nDatas := 1
  datas := 8
  metasAt := 64
  metas := [⟨metaHeader, 32, 128, List.replicate 32 0⟩]
  data := 1024
  chunk := 16
  maxsize := 8
  offset := 0
  size := 0
  flags := 0
  payload := 0

/-- A graph whose instances count, ready to run. -/
def plainState : State ℕ ℕ := ⟨true, true, fun _ => 0, fun _ => plainBuffer, none, none⟩

/-- Buffers that lie apart. -/
def plainAliasing : Aliasing ℕ := ⟨fun _ _ => 0, fun _ _ => 0⟩

/-- Node 0 feeds the nodes 1 and 2, and node 1 feeds node 3 when it has something. -/
def fork : Config where
  nodes := [⟨[], [plainPort]⟩, ⟨[plainPort], [{ plainPort with conditional := true }]⟩,
    ⟨[plainPort], []⟩, ⟨[plainPort], []⟩]
  links := [⟨(0, 0), (1, 0)⟩, ⟨(0, 0), (2, 0)⟩, ⟨(1, 0), (3, 0)⟩]
  inputs := some []
  outputs := some [(0, 0)]

/-- The graph of `fork`. -/
def forkGraph : Graph := ⟨fork.nodes, fork.links, [], [(0, 0)], [0, 1, 2, 3]⟩

/-- Node 0 produces a 5, and node 1 nothing. -/
def forkPlugin (n : ℕ) : Plugin ℕ ℕ where
  process s _ outs :=
    (0, s + 1, fun j =>
      let b := outs.getD j plainBuffer
      if n = 0 then { b with size := 8, payload := 5 } else b)
  revision := some (2 * ·)

/-- Nodes 1 and 2 see the 5 of node 0 in either order, and node 3 is not called. -/
theorem process_dataflow_fork :
    graphNew fork = .ok forkGraph ∧ IsTopological 4 (edgesOf forkGraph.links) [0, 2, 1, 3] ∧
      (process forkGraph plainAliasing forkPlugin [0, 2, 1, 3] plainState []
        [some plainBuffer]).calls =
        [(0, []), (2, [some { plainBuffer with size := 8, payload := 5 }]),
          (1, [some { plainBuffer with size := 8, payload := 5 }])] ∧
      (process forkGraph plainAliasing forkPlugin [0, 2, 1, 3] plainState []
          [some plainBuffer]).Agree
        (process forkGraph plainAliasing forkPlugin [0, 1, 2, 3] plainState []
          [some plainBuffer]) := by
  have hnew : graphNew fork = .ok forkGraph := by decide +kernel
  have htop : IsTopological 4 (edgesOf forkGraph.links) [0, 2, 1, 3] := by decide +kernel
  have hres : 0 ≤ (process forkGraph plainAliasing forkPlugin [0, 2, 1, 3] plainState []
      [some plainBuffer]).res := by decide +kernel
  refine ⟨hnew, htop, by decide +kernel, ?_⟩
  exact ((process_dataflow hnew htop plainAliasing forkPlugin plainState []
    [some plainBuffer]).2 hres).1

/-- Two nodes that have nothing to do with each other. -/
def pair : Config where
  nodes := [⟨[{ plainPort with optional := true }], []⟩, ⟨[], []⟩]
  links := []
  inputs := none
  outputs := some []

/-- The graph of `pair`. -/
def pairGraph : Graph := ⟨pair.nodes, [], [(0, 0)], [], [0, 1]⟩

/-- Both callbacks count, and fail. -/
def pairPlugin (n : ℕ) : Plugin ℕ ℕ where
  process s _ _ := (if n = 0 then -eIo else -eNoMem, s + 1, fun _ => plainBuffer)
  revision := none

/-- **What an error leaves depends on the order**: both nodes are ready and both orders topological,
but only the first node of the order is called, and its error returned. -/
theorem error_depends_on_order :
    graphNew pair = .ok pairGraph ∧ IsTopological 2 (edgesOf pairGraph.links) [0, 1] ∧
      IsTopological 2 (edgesOf pairGraph.links) [1, 0] ∧
      (∀ (value : PortId → Buffer ℕ) n, n < 2 → nodeReady pairGraph [none] value n = true) ∧
      let r := process pairGraph plainAliasing pairPlugin [0, 1] plainState [none] []
      let r' := process pairGraph plainAliasing pairPlugin [1, 0] plainState [none] []
      r.calls = [(0, [none])] ∧ r.res = -eIo ∧ r.state.inst 0 = 1 ∧ r.state.inst 1 = 0 ∧
        r'.calls = [(1, [])] ∧ r'.res = -eNoMem ∧ r'.state.inst 0 = 0 ∧ r'.state.inst 1 = 1 := by
  refine ⟨by decide +kernel, by decide +kernel, by decide +kernel, ?_, by decide +kernel⟩
  intro value n hn
  have hn : n = 0 ∨ n = 1 := by omega
  rcases hn with rfl | rfl
  · rfl
  · rfl

/-! ## From the text of a configuration -/

/-- **A graph loaded from a text** is that of a resolved configuration, and every call that does not
fail computes its meaning. -/
theorem text_dataflow {env : Environment} {config : Json.Text} {g : Graph}
    (h : graphNewText env config = .ok g) : (∃ cfg, graphNew cfg = .ok g) ∧
      IsTopological g.nodes.length (edgesOf g.links) g.order ∧
      ∀ (a : Aliasing P) (plugin : ℕ → Plugin P S) (st : State P S) (x y : List (Option (Buffer P))),
        0 ≤ (process g a plugin g.order st x y).res →
          ∃ c₀ c, startCycle g a st x y = .ok c₀ ∧ process g a plugin g.order st x y =
            ⟨afterCycle g st c, externalOutputs g c, statusOf c, c.calls⟩ ∧
            IsDataflow g plugin x c₀ c := by
  obtain ⟨cfg, hg⟩ := graphNewText_graphNew h
  have hsort := sortGraph_topological (graphNew_spec hg).order
  refine ⟨⟨cfg, hg⟩, hsort, fun a plugin st x y hres => ?_⟩
  obtain ⟨c₀, c, hstart, hrun⟩ := process_ok hres
  have hcalls := (startCycle_spec (graphNew_outputs_nodup hg) hstart).1
  exact ⟨c₀, c, hstart, process_eq hstart hrun, isDataflow_of_runNodes hsort hcalls hrun⟩

theorem text_dataflow_scale : ∃ g, graphNewText scaleEnvironment scaleConfig = .ok g ∧
    g.nodes.length = 2 ∧ IsTopological 2 (edgesOf g.links) g.order := by
  obtain ⟨g, hg, hnodes⟩ : ∃ g, graphNewText scaleEnvironment scaleConfig = .ok g ∧
    g.nodes.length = 2 := exists_ok_such (by decide +kernel)
  exact ⟨g, hg, hnodes, hnodes ▸ (text_dataflow (P := ℕ) (S := ℕ) hg).2.1⟩

end PipeWireAO.FilterGraph
