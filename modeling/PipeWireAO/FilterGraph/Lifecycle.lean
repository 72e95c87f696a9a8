import Mathlib.Data.List.Nodup
import PipeWireAO.Errno
import PipeWireAO.Foundation.Machine

/-!
# The activation of a graph

The nodes of a graph are activated in the order of processing, and those before a node that fails are
deactivated again, in reverse order. What is prepared for the processing thread is kept twice, for
each node and for the graph. The life of a node is an observer of the calls of its callbacks, which
the graph follows whatever the callbacks answer.
-/

namespace PipeWireAO.FilterGraph.Lifecycle

open Foundation List Function Option

/-- The nodes in the order of processing, and which of them have `prepare_process_thread`. -/
structure Graph where
  order : List ℕ
  nodup : order.Nodup
  hasPrepare : ℕ → Bool

/-- A graph: `active`, whether its worker group is active, and `process_thread_prepared` of the graph
and of its nodes. -/
structure State where
  (active workers prepared : Bool)
  nodes : ℕ → Bool

/-- The results of one call: of the worker group and of the nodes. A callback that is not there
answers 0. -/
structure Answers where
  workers : Int
  node : ℕ → Int

/-- The calls of a node's callbacks, and whether they succeed. -/
inductive Call
  | activate (ok : Bool)
  | prepare (ok : Bool)
  | process
  | deactivate
  | reset
deriving DecidableEq

/-- The loop of `spa_fgn_graph_activate`, after the nodes `done`, the last one first: the result,
`process_thread_prepared` of the nodes and the calls. -/
def activateNodes (g : Graph) (x : Answers) :
    List ℕ → List ℕ → (ℕ → Bool) → Int × (ℕ → Bool) × List (ℕ × Call)
  | _, [], flags => (0, flags, [])
  | done, i :: is, flags =>
    let flags := update flags i (!g.hasPrepare i)
    if x.node i < 0 then
      (x.node i, flags, (i, .activate false) :: done.map (·, .deactivate))
    else
      let r := activateNodes g x (i :: done) is flags
      (r.1, r.2.1, (i, .activate true) :: r.2.2)

/-- `spa_fgn_graph_activate`. -/
def activate (g : Graph) (x : Answers) (s : State) : Int × State × List (ℕ × Call) :=
  if s.active then (0, s, [])
  else if x.workers < 0 then (x.workers, s, [])
  else
    let r := activateNodes g x [] g.order s.nodes
    if r.1 < 0 then (r.1, ⟨false, false, false, r.2.1⟩, r.2.2)
    else (0, ⟨true, true, g.order.all r.2.1, r.2.1⟩, r.2.2)

/-- The loop of `spa_fgn_graph_prepare_process_thread`. -/
def prepareNodes (g : Graph) (x : Answers) :
    List ℕ → (ℕ → Bool) → Int × (ℕ → Bool) × List (ℕ × Call)
  | [], flags => (0, flags, [])
  | i :: is, flags =>
    if flags i then prepareNodes g x is flags
    else if !g.hasPrepare i then (-eFault, flags, [])
    else if x.node i < 0 then (x.node i, flags, [(i, .prepare false)])
    else
      let r := prepareNodes g x is (update flags i true)
      (r.1, r.2.1, (i, .prepare true) :: r.2.2)

/-- `spa_fgn_graph_prepare_process_thread`. -/
def prepareProcessThread (g : Graph) (x : Answers) (s : State) : Int × State × List (ℕ × Call) :=
  if !s.active then (-eInval, s, [])
  else if s.prepared then (0, s, [])
  else
    let r := prepareNodes g x g.order s.nodes
    (r.1, { s with nodes := r.2.1, prepared := !decide (r.1 < 0) }, r.2.2)

/-- `spa_fgn_graph_deactivate`: all nodes are deactivated, and the first error is the result. -/
def deactivate (g : Graph) (x : Answers) (s : State) : Int × State × List (ℕ × Call) :=
  if !s.active then (0, s, [])
  else
    let results := g.order.reverse.map x.node ++ [x.workers]
    ((results.find? fun r => r < 0).getD 0, ⟨false, false, false, fun _ => false⟩,
      g.order.reverse.map (·, .deactivate))

/-- `spa_fgn_graph_reset`. -/
def reset (x : Answers) : List ℕ → Int × List (ℕ × Call)
  | [] => (0, [])
  | i :: is =>
    if x.node i < 0 then (x.node i, [(i, .reset)])
    else ((reset x is).1, (i, .reset) :: (reset x is).2)

/-- `spa_fgn_graph_process`, of which only the nodes count whose callback it reaches: those with
their inputs, up to the first error. -/
def process (g : Graph) (reached : ℕ → Bool) (s : State) : List (ℕ × Call) :=
  if s.active && s.prepared then (g.order.filter reached).map (·, .process) else []

inductive Action
  | activate (x : Answers)
  | prepareProcessThread (x : Answers)
  | process (reached : ℕ → Bool)
  | deactivate (x : Answers)
  | reset (x : Answers)

def lifecycle (g : Graph) : Machine State Action (ℕ × Call) where
  step s
    | .activate x => some (activate g x s).2
    | .prepareProcessThread x => some (prepareProcessThread g x s).2
    | .process reached => some (s, process g reached s)
    | .deactivate x => some (deactivate g x s).2
    | .reset x => some (s, (reset x g.order).2)

def State.new : State := ⟨false, false, false, fun _ => false⟩

/-! ## The life of a node -/

inductive Phase
  | idle
  | active (prepared : Bool)
deriving DecidableEq

/-- The calls that a node may see: it is activated when idle, prepared once, and processes only when
prepared, until it is deactivated. -/
def life (hasPrepare : Bool) : Observer Phase Call where
  next
    | .idle, .activate ok => some (if ok then .active (!hasPrepare) else .idle)
    | .active _, .deactivate => some .idle
    | .active false, .prepare ok => some (.active ok)
    | .active true, .process => some (.active true)
    | q, .reset => some q
    | _, _ => none

def State.phase (s : State) (i : ℕ) : Phase := if s.active then .active (s.nodes i) else .idle

/-- The workers are active with the graph, and a prepared graph has prepared nodes only. -/
structure Sound (g : Graph) (s : State) : Prop where
  workers : s.workers = s.active
  prepared : s.prepared = true → ∀ i ∈ g.order, s.nodes i = true

section

variable {g : Graph} {x : Answers} {i : ℕ} {is done : List ℕ} {flags : ℕ → Bool}

def seen (i : ℕ) (es : List (ℕ × Call)) : List Call := es.filterMap (eventAt i)

theorem seen_self (c : Call) (es : List (ℕ × Call)) : seen i ((i, c) :: es) = c :: seen i es :=
  filterMap_cons_some (if_pos rfl)

theorem seen_other {j : ℕ} (h : j ≠ i) (c : Call) (es : List (ℕ × Call)) :
    seen i ((j, c) :: es) = seen i es := filterMap_cons_none (if_neg h)

theorem seen_map (h : is.Nodup) (c : Call) : seen i (is.map (·, c)) = if i ∈ is then [c] else [] := by
  induction is with
  | nil => rfl
  | cons j is ih =>
    obtain ⟨hj, hnodup⟩ := nodup_cons.mp h
    rw [map_cons]
    by_cases hij : j = i
    · subst hij
      rw [seen_self, ih hnodup, if_neg hj, if_pos mem_cons_self]
    · rw [seen_other hij, ih hnodup]
      simp [Ne.symm hij]

/-- What the loop of `activate` leaves of a node in the phase `q`. -/
def outcome (r : Int) (q : Phase) : Phase := if r < 0 then .idle else q

theorem activateNodes_spec (h : (done ++ is).Nodup) :
    let r := activateNodes g x done is flags
    (i ∉ is → r.2.1 i = flags i) ∧
      (i ∈ is → (life (g.hasPrepare i)).accept .idle (seen i r.2.2) =
        some (outcome r.1 (.active (r.2.1 i)))) ∧
      (i ∈ done → ∀ p, (life (g.hasPrepare i)).accept (.active p) (seen i r.2.2) =
        some (outcome r.1 (.active p))) := by
  induction is generalizing done flags with
  | nil => exact ⟨fun _ => rfl, nofun, fun _ _ => rfl⟩
  | cons j is ih =>
    have hperm : (j :: (done ++ is)).Nodup := (perm_middle.nodup_iff).mp h
    obtain ⟨hj, hrest⟩ := nodup_cons.mp hperm
    obtain ⟨hjdone, hjis⟩ := not_or.mp (fun hmem => hj (mem_append.mpr hmem))
    have hdone : done.Nodup := hrest.sublist (sublist_append_left done is)
    have hdisj : i ∈ done → i ∉ is := fun hd hi => (nodup_append.mp hrest).2.2 i hd i hi rfl
    simp only [activateNodes]
    split_ifs with hneg
    · refine ⟨fun hi => update_of_ne (ne_of_not_mem_cons hi) _ _, fun hi => ?_,
        fun hi p => ?_⟩
      · rcases mem_cons.mp hi with rfl | hi
        · rw [seen_self, seen_map hdone, if_neg hjdone]
          simp [Observer.accept, life, outcome, hneg]
        · have hij : j ≠ i := fun h => hjis (h ▸ hi)
          rw [seen_other hij, seen_map hdone, if_neg fun hd => hdisj hd hi]
          simp [outcome, hneg]
      · have hij : j ≠ i := fun h => hjdone (h ▸ hi)
        rw [seen_other hij, seen_map hdone, if_pos hi]
        simp [life, outcome, hneg]
    · obtain ⟨hflags, his, hin⟩ := @ih (j :: done)
        (update flags j (!g.hasPrepare j)) hperm
      refine ⟨fun hi => ?_, fun hi => ?_, fun hi p => ?_⟩
      · rw [hflags fun h => hi (mem_cons_of_mem j h),
          update_of_ne (ne_of_not_mem_cons hi)]
      · rcases mem_cons.mp hi with rfl | hi
        · rw [seen_self, hflags hjis, update_self]
          exact hin mem_cons_self _
        · have hij : j ≠ i := fun h => hjis (h ▸ hi)
          rw [seen_other hij]
          exact his hi
      · have hij : j ≠ i := fun h => hjdone (h ▸ hi)
        rw [seen_other hij]
        exact hin (mem_cons_of_mem j hi) p

theorem prepareNodes_spec (h : is.Nodup) :
    let r := prepareNodes g x is flags
    (i ∉ is → r.2.1 i = flags i ∧ seen i r.2.2 = []) ∧
      (i ∈ is → (life (g.hasPrepare i)).accept (.active (flags i)) (seen i r.2.2) =
        some (.active (r.2.1 i))) ∧
      (i ∈ is → 0 ≤ r.1 → r.2.1 i = true) := by
  induction is generalizing flags with
  | nil => exact ⟨fun _ => ⟨rfl, rfl⟩, nofun, nofun⟩
  | cons j is ih =>
    obtain ⟨hj, hnodup⟩ := nodup_cons.mp h
    simp only [prepareNodes]
    split_ifs with hflag hhas hneg
    · obtain ⟨hout, hin, hdone⟩ := @ih flags hnodup
      refine ⟨fun hi => hout (not_mem_of_not_mem_cons hi), fun hi => ?_, fun hi hres => ?_⟩
      · rcases mem_cons.mp hi with rfl | hi
        · rw [(hout hj).1, (hout hj).2]
          rfl
        · exact hin hi
      · rcases mem_cons.mp hi with rfl | hi
        · rw [(hout hj).1, hflag]
        · exact hdone hi hres
    · exact ⟨fun _ => ⟨rfl, rfl⟩, fun _ => rfl, fun _ hres =>
        absurd (show (0 : Int) ≤ -eFault from hres) (by decide)⟩
    · refine ⟨fun hi => ⟨rfl, seen_other (ne_of_not_mem_cons hi).symm _ _⟩, fun hi => ?_,
        fun _ hres => absurd hneg (Int.not_lt.mpr hres)⟩
      by_cases hij : j = i
      · subst hij
        rw [seen_self, show seen j [] = [] from rfl]
        simp [life, hflag]
      · rw [seen_other hij]
        rfl
    · obtain ⟨hout, hin, hdone⟩ := @ih (update flags j true) hnodup
      by_cases hij : j = i
      · subst hij
        refine ⟨fun hi => absurd mem_cons_self hi, fun _ => ?_, fun _ _ => ?_⟩
        · rw [seen_self, (hout hj).1, (hout hj).2, update_self]
          simp [Observer.accept, life, hflag]
        · rw [(hout hj).1, update_self]
      · rw [seen_other hij]
        rw [update_of_ne (Ne.symm hij)] at hout hin
        refine ⟨fun hi => hout (not_mem_of_not_mem_cons hi), fun hi => hin ?_,
          fun hi => hdone ?_⟩ <;> exact (mem_cons.mp hi).resolve_left (Ne.symm hij)

end

section

variable {g : Graph} {s : State} {es : List (ℕ × Call)}

/-- What the nodes see of a call leads them to where they stand behind it. -/
def Lives (g : Graph) (s : State) (r : State × List (ℕ × Call)) : Prop :=
  Sound g r.1 ∧ ∀ i ∈ g.order,
    (life (g.hasPrepare i)).accept (s.phase i) (seen i r.2) = some (r.1.phase i)

theorem activate_failed (hs : Sound g s) {x : Answers} (h : (activate g x s).1 < 0) :
    (activate g x s).2.1.active = false ∧ (activate g x s).2.1.workers = false := by
  unfold activate at h ⊢
  dsimp only at h ⊢
  split_ifs at h ⊢ with hactive hworkers hneg
  · exact absurd h (Int.lt_irrefl 0)
  · have hidle : s.active = false := by simpa using hactive
    exact ⟨hidle, hs.workers.trans hidle⟩
  · exact ⟨rfl, rfl⟩
  · exact absurd h (Int.lt_irrefl 0)

theorem reset_lives (x : Answers) (is : List ℕ) (b : Bool) (q : Phase) (i : ℕ) :
    (life b).accept q (seen i (reset x is).2) = some q := by
  have hnext : (life b).next q .reset = some q := by
    rcases q with _ | _ | _ <;> rfl
  have hcons (j : ℕ) (es : List (ℕ × Call)) (h : (life b).accept q (seen i es) = some q) :
      (life b).accept q (seen i ((j, .reset) :: es)) = some q := by
    by_cases hij : j = i
    · subst hij
      rw [seen_self]
      exact Observer.accept_cons_eq_some.mpr ⟨q, hnext, h⟩
    · rw [seen_other hij]
      exact h
  induction is with
  | nil => rfl
  | cons j is ih =>
    rw [reset]
    split_ifs
    · exact hcons j [] rfl
    · exact hcons j _ ih

theorem activate_lives (hs : Sound g s) (x : Answers) : Lives g s (activate g x s).2 := by
  unfold activate
  dsimp only
  split_ifs with hactive hworkers hneg
  · exact ⟨hs, fun i _ => rfl⟩
  · exact ⟨hs, fun i _ => rfl⟩
  all_goals
    have hidle (i : ℕ) : s.phase i = .idle := if_neg hactive
    have hspec (i : ℕ) := @activateNodes_spec g x i g.order [] s.nodes g.nodup
  · refine ⟨⟨rfl, nofun⟩, fun i hi => ?_⟩
    rw [hidle, (hspec i).2.1 hi, outcome, if_pos hneg]
    rfl
  · refine ⟨⟨rfl, fun h => all_eq_true.mp h⟩, fun i hi => ?_⟩
    rw [hidle, (hspec i).2.1 hi, outcome, if_neg hneg]
    rfl

theorem prepareProcessThread_lives (hs : Sound g s) (x : Answers) :
    Lives g s (prepareProcessThread g x s).2 := by
  unfold prepareProcessThread
  split_ifs with hidle hprepared
  · exact ⟨hs, fun i _ => rfl⟩
  · exact ⟨hs, fun i _ => rfl⟩
  · have hactive : s.active = true := by simpa using hidle
    have hspec (i : ℕ) := @prepareNodes_spec g x i g.order s.nodes g.nodup
    refine ⟨⟨hs.workers, fun h i hi => (hspec i).2.2 hi (by simpa using h)⟩, fun i hi => ?_⟩
    simp only [State.phase, hactive, if_true]
    exact (hspec i).2.1 hi

theorem deactivate_lives (hs : Sound g s) (x : Answers) : Lives g s (deactivate g x s).2 := by
  unfold deactivate
  split_ifs with hidle
  · exact ⟨hs, fun i _ => rfl⟩
  · refine ⟨⟨rfl, nofun⟩, fun i hi => ?_⟩
    have hactive : s.active = true := by simpa using hidle
    rw [seen_map (nodup_reverse.mpr g.nodup), if_pos (mem_reverse.mpr hi), State.phase,
      if_pos hactive]
    rfl

theorem process_lives (hs : Sound g s) (reached : ℕ → Bool) :
    Lives g s (s, process g reached s) := by
  refine ⟨hs, fun i hi => ?_⟩
  unfold process
  split_ifs with hready
  · obtain ⟨hactive, hprepared⟩ := (Bool.and_eq_true _ _).mp hready
    have hphase : s.phase i = .active true := by
      rw [State.phase, if_pos hactive, hs.prepared hprepared i hi]
    rw [seen_map (g.nodup.filter _), hphase]
    split_ifs <;> rfl
  · rfl

theorem step_lives {a : Action} {r : State × List (ℕ × Call)} (hs : Sound g s)
    (h : (lifecycle g).step s a = some r) : Lives g s r := by
  cases a with
  | activate x => exact some.inj h ▸ activate_lives hs x
  | prepareProcessThread x => exact some.inj h ▸ prepareProcessThread_lives hs x
  | process reached => exact some.inj h ▸ process_lives hs reached
  | deactivate x => exact some.inj h ▸ deactivate_lives hs x
  | reset x => exact some.inj h ▸ ⟨hs, fun i _ => reset_lives x g.order _ _ i⟩

/-- **Activation is balanced.** In every run each node sees the calls of a life, and an activation
that fails leaves no active node and no active worker. -/
theorem lives_balanced (h : (lifecycle g).Reaches State.new s es) : s.workers = s.active ∧
    (∀ i ∈ g.order, (life (g.hasPrepare i)).accept .idle (seen i es) = some (s.phase i)) ∧
    ∀ x, (activate g x s).1 < 0 → (activate g x s).2.1.workers = false ∧
      ∀ i, (activate g x s).2.1.phase i = .idle := by
  have hinv : Sound g s ∧ ∀ i ∈ g.order,
      (life (g.hasPrepare i)).accept .idle (seen i es) = some (s.phase i) := by
    refine h.induct (I := fun s es => Sound g s ∧ ∀ i ∈ g.order,
      (life (g.hasPrepare i)).accept .idle (seen i es) = some (s.phase i))
      ⟨⟨rfl, fun h => absurd h Bool.false_ne_true⟩, fun i _ => rfl⟩ ?_
    rintro s s' tr es a ⟨hs, hlives⟩ hstep
    obtain ⟨hs', hmore⟩ := step_lives hs hstep
    refine ⟨hs', fun i hi => ?_⟩
    rw [seen, filterMap_append]
    exact Observer.accept_append.mpr ⟨s.phase i, hlives i hi, hmore i hi⟩
  refine ⟨hinv.1.workers, hinv.2, fun x hx => ?_⟩
  obtain ⟨hactive, hworkers⟩ := activate_failed hinv.1 hx
  exact ⟨hworkers, fun i => if_neg (by rw [hactive]; exact Bool.false_ne_true)⟩

/-- Two nodes, of which the second one has a preparation. -/
def pair : Graph := ⟨[0, 1], by decide, fun i => i == 1⟩

/-- The second node is not activated at first, then prepared at the second attempt. -/
def attempts : List Action :=
  let ok : Answers := ⟨0, fun _ => 0⟩
  let refused : Answers := ⟨0, fun i => if i = 1 then -eInval else 0⟩
  [.activate refused, .activate ok, .prepareProcessThread refused, .process fun _ => true,
    .prepareProcessThread ok, .process fun _ => true, .deactivate refused]

theorem lives_balanced_pair : ∃ s es, (lifecycle pair).Reaches State.new s es ∧
    seen 1 es = [.activate false, .activate true, .prepare false, .prepare true, .process,
      .deactivate] ∧ s.workers = s.active := by
  exact Machine.Reaches.of_run_such attempts (by decide)
    fun s es hreaches hseen => ⟨hseen, (lives_balanced hreaches).1⟩

end

end PipeWireAO.FilterGraph.Lifecycle
