import Mathlib.Data.List.Induction
import Mathlib.Data.List.Nodup
import PipeWireAO.Scheduler.Grouping

/-!
# Nodes that are connected share a driver

Without sync groups, the traversal of the scheduler follows a fixed relation: the links of a node, and
the nodes of its groups. Each traversal takes a whole component of the nodes that are not exported.
The driver of a component is the first of its drivers; a component without one is given the common
target if one of its nodes needs a driver.
-/

namespace PipeWireAO.Scheduler

open List Function
open Foundation (mark Traversed traverse_traversed Sweep)
open Relation (ReflTransGen)

variable {N : Type*} {c : Context N}

/-! ## The traversal without sync groups -/

/-- The nodes that a traversal looks at from `n`. -/
def Context.next (c : Context N) (n : N) : List N :=
  c.inputPeers n ++ c.outputPeers n ++ c.nodes.filter fun t => !c.exported t && c.sameGroup [] n t

theorem syncAfter_nil (h : ∀ n, c.syncGroups n = []) (n : N) : c.syncAfter [] n = [] := by
  unfold Context.syncAfter
  rw [h n]
  split_ifs <;> rfl

theorem next_inside {a b : N} (hb : b ∈ c.next a) : b ∈ c.nodes := by
  rcases mem_append.mp hb with hb | hb
  · rcases mem_append.mp hb with hb | hb
    · exact (c.inside b a ((c.linked b a).mpr hb)).1
    · exact (c.inside a b hb).2
  · exact mem_of_mem_filter hb

variable [DecidableEq N] {p q : List N × Option N}

theorem scanGroups_nil (n : N) (w : (N → Bool) × List N) : c.scanGroups [] n w =
    (c.nodes.filter fun t => !c.exported t && c.sameGroup [] n t).foldl mark w := by
  unfold Context.scanGroups
  rw [foldl_filter]
  split_ifs with hgroups
  · rfl
  · -- Nothing is in a group with a node that has none.
    simp only [ne_eq, not_true_eq_false, or_false, not_or, not_not] at hgroups
    have hnone (t : N) : c.sameGroup [] n t = false := by
      simp [Context.sameGroup, findCommon, hgroups]
    simp [hnone]

theorem collectLoop_eq (h : ∀ n, c.syncGroups n = []) (fuel : ℕ) (visited : N → Bool)
    (queue collect : List N) :
    c.collectLoop fuel [] visited queue collect = Foundation.traverse c.next fuel visited queue collect := by
  induction fuel generalizing visited queue collect with
  | zero => rfl
  | succ fuel ih =>
    cases queue with
    | nil => rfl
    | cons n queue =>
      rw [Context.collectLoop, Foundation.traverse]
      simp only [syncAfter_nil h, scanGroups_nil, Context.next, foldl_append]
      exact ih ..

/-- **A call of `collect_nodes`** from a node that was not visited. -/
theorem collectNodes_traversed (h : ∀ n, c.syncGroups n = []) {visited : N → Bool} {n : N}
    (hn : n ∈ c.nodes) (hv : visited n = false) :
    Traversed c.next visited n (c.collectNodes visited n).1 (c.collectNodes visited n).2 := by
  unfold Context.collectNodes
  rw [collectLoop_eq h]
  exact traverse_traversed (fun _ _ _ hb => next_inside hb) hn hv

/-! ## Giving nodes a driver -/

def Accepts (c : Context N) (n : N) (driver : Option N) : Prop :=
  c.pollDriver n = false ∨ driver = none ∨ driver = some n

instance (n : N) (driver : Option N) : Decidable (Accepts c n driver) :=
  inferInstanceAs (Decidable (_ ∨ _ ∨ _))

section Assign

variable {s : State N} {n x : N} {driver : Option N}

theorem setDriver_driver :
    (setDriver c s n driver).driver x = if x = n ∧ Accepts c n driver then driver else s.driver x := by
  unfold setDriver Accepts
  by_cases hpoll : c.pollDriver n ∧ driver ≠ none ∧ driver ≠ some n
  · rw [if_pos hpoll, if_neg]
    rintro ⟨-, h | h | h⟩
    · rw [h] at hpoll
      exact absurd hpoll.1 Bool.false_ne_true
    · exact hpoll.2.1 h
    · exact hpoll.2.2 h
  · rw [if_neg hpoll]
    have haccepts : c.pollDriver n = false ∨ driver = none ∨ driver = some n := by
      by_contra hnot
      simp only [not_or, Bool.not_eq_false] at hnot
      exact hpoll hnot
    by_cases hx : x = n
    · subst hx
      show update s.driver x driver x = _
      rw [update_self, if_pos ⟨rfl, haccepts⟩]
    · show update s.driver n driver x = _
      rw [update_of_ne hx, if_neg fun h => hx h.1]

theorem setDriver_frame : (setDriver c s n driver).visited = s.visited ∧
    (setDriver c s n driver).log = s.log ∧ (setDriver c s n driver).runnable = s.runnable := by
  unfold setDriver
  split_ifs <;> exact ⟨rfl, rfl, rfl⟩

/-- What a loop over the nodes of a collection does, one node at a time. -/
structure Moved (c : Context N) (s s' : State N) (collect : List N) (d : Option N) : Prop where
  driver : ∀ x, s'.driver x = if x ∈ collect ∧ Accepts c x d then d else s.driver x
  visited : s'.visited = s.visited
  log : s'.log = s.log
  runnable : ∀ x, d ≠ some x → s'.runnable x = s.runnable x

theorem Moved.cons {s' s'' : State N} {collect : List N} (h : Moved c s s' [n] driver)
    (h' : Moved c s' s'' collect driver) : Moved c s s'' (n :: collect) driver where
  driver x := by
    rw [h'.driver, h.driver]
    by_cases hx : x ∈ collect <;> by_cases ha : Accepts c x driver <;> simp [hx, ha]
  visited := h'.visited.trans h.visited
  log := h'.log.trans h.log
  runnable x hx := (h'.runnable x hx).trans (h.runnable x hx)

theorem setDriver_moved : Moved c s (setDriver c s n driver) [n] driver where
  driver x := by
    rw [setDriver_driver]
    by_cases hx : x = n <;> simp [hx]
  visited := setDriver_frame.1
  log := setDriver_frame.2.1
  runnable x _ := by rw [setDriver_frame.2.2]

theorem moveNode_moved {d : N} : Moved c s (moveNode c d s n) [n] (some d) := by
  let r := update s.runnable d (s.runnable d || s.runnable n)
  have h : Moved c { s with runnable := r } (moveNode c d s n) [n] (some d) := setDriver_moved
  refine ⟨h.driver, h.visited, h.log, fun x hx => ?_⟩
  rw [h.runnable x hx]
  exact update_of_ne (fun heq => hx (by rw [heq])) ..

theorem moveToDriver_moved {d : N} (collect : List N) :
    Moved c s (moveToDriver c s collect d) collect (some d) := by
  induction collect generalizing s with
  | nil => exact ⟨fun x => by simp [moveToDriver], rfl, rfl, fun _ _ => rfl⟩
  | cons n collect ih => exact moveNode_moved.cons ih

theorem removeFromDriver_moved (collect : List N) :
    Moved c s (removeFromDriver c s collect) collect none := by
  induction collect generalizing s with
  | nil => exact ⟨fun x => by simp [removeFromDriver], rfl, rfl, fun _ _ => rfl⟩
  | cons n collect ih => exact setDriver_moved.cons ih

/-- **What was collected is given a driver.** -/
theorem assign_moved (visited : N → Bool) (collect : List N) (driver : Option N) :
    Moved c { s with visited := visited, log := s.log ++ [(collect, driver)] }
      (assign c s visited collect driver) collect driver := by
  cases driver with
  | some d => exact moveToDriver_moved collect
  | none => exact removeFromDriver_moved collect

end Assign

/-! ## The invariant of the phases -/

/-- What the traversals so far have collected, and which drivers were given: the driver of a
collection is the driver of its nodes; a collection without drivers was given the target `t` if one
of its nodes needed a driver, with the runnable nodes `r₀` of the start. -/
structure GroupInv (c : Context N) (r₀ : N → Bool) (t : Option N) (s : State N) : Prop where
  sweep : Sweep c.next s.visited (s.log.map Prod.fst)
  moved : ∀ p ∈ s.log, ∀ x ∈ p.1, Accepts c x p.2 → s.driver x = p.2
  runnable : ∀ x ∉ c.drivers, s.runnable x = r₀ x
  reach : ∀ p ∈ s.log, ∃ n ∈ c.nodes, ∀ x ∈ p.1, ReflTransGen (fun a b => b ∈ c.next a) n x
  entries : ∀ p ∈ s.log, (∃ e ∈ c.drivers, e ∈ p.1) ∨
    p.2 = if p.1.any (needsDriver c r₀) then t else none

section Inv

variable {r₀ : N → Bool} {t : Option N} {s : State N} {n : N} {v : N → Bool} {collect pre : List N}
  {d : Option N}

theorem mem_assign_log : p ∈ (assign c s v collect d).log ↔ p ∈ s.log ∨ p = (collect, d) := by
  rw [(assign_moved v collect d).log, mem_append, mem_singleton]

/-- **One more collection** is given a driver. -/
theorem assign_inv (h : GroupInv c r₀ t s) (hn : n ∈ c.nodes)
    (ht : Traversed c.next s.visited n v collect) (hd : ∀ e, d = some e → e ∈ c.drivers)
    (hentry : (∃ e ∈ c.drivers, e ∈ collect) ∨
      d = if collect.any (needsDriver c r₀) then t else none) :
    GroupInv c r₀ t (assign c s v collect d) := by
  obtain ⟨hdriver, hvisited, hlog, hrunnable⟩ := assign_moved (c := c) (s := s) v collect d
  constructor
  · rw [hvisited, hlog, map_append]
    exact h.sweep.snoc ht
  · intro p hp x hx haccepts
    rw [hdriver]
    rcases mem_assign_log.mp hp with hp | rfl
    · -- What was collected before is not collected again.
      rw [if_neg]
      · exact h.moved p hp x hx haccepts
      · rintro ⟨hnew, -⟩
        have hfalse := ht.new x hnew
        rw [(h.sweep.marks x).mpr (mem_flatten.mpr ⟨p.1, mem_map_of_mem hp, hx⟩)] at hfalse
        cases hfalse
    · rw [if_pos ⟨hx, haccepts⟩]
  · intro x hx
    rw [hrunnable x fun heq => hx (hd x heq)]
    exact h.runnable x hx
  · intro p hp
    rcases mem_assign_log.mp hp with hp | rfl
    · exact h.reach p hp
    · exact ⟨n, hn, ht.reach⟩
  · intro p hp
    rcases mem_assign_log.mp hp with hp | rfl
    · exact h.entries p hp
    · exact hentry

theorem assign_visited : (assign c s v collect d).visited = v := (assign_moved v collect d).visited

theorem GroupInv.update_runnable (h : GroupInv c r₀ t s) {e : N} (he : e ∈ c.drivers) :
    GroupInv c r₀ t { s with runnable := update s.runnable e true } where
  sweep := h.sweep
  moved := h.moved
  runnable x hx := by
    have hne : x ≠ e := by
      rintro rfl
      exact hx he
    show update s.runnable e true x = r₀ x
    rw [update_of_ne hne]
    exact h.runnable x hx
  reach := h.reach
  entries := h.entries

/-! ### The first phase -/

theorem collectDriver_inv (hsync : ∀ n, c.syncGroups n = []) (h : GroupInv c r₀ t s)
    (hn : n ∈ c.drivers) : GroupInv c r₀ t (collectDriver c s n) := by
  unfold collectDriver
  split_ifs with hvisited
  · exact h
  · have ht := collectNodes_traversed hsync (c.drivers_sub n hn) (Bool.eq_false_iff.mpr hvisited)
    refine assign_inv h (c.drivers_sub n hn) ht (fun e he => ?_) (.inl ⟨n, hn, ht.start⟩)
    cases he
    exact hn

theorem collectDriver_log (hp : p ∈ s.log) : p ∈ (collectDriver c s n).log := by
  unfold collectDriver
  split_ifs
  · exact hp
  · exact mem_assign_log.mpr (.inl hp)

theorem groupDriver_state (p : Targets N) (n : N) :
    (groupDriver c p n).state = if c.exported n then p.state else collectDriver c p.state n := by
  simp only [groupDriver]
  split_ifs <;> rfl

theorem groupDriver_targets (p : Targets N) (n e : N) :
    ((groupDriver c p n).target = some e → p.target = some e ∨ e = n) ∧
      ((groupDriver c p n).fallback = some e → p.fallback = some e ∨ e = n) := by
  have hor (o : Option N) : (o <|> some n) = some e → o = some e ∨ e = n := by
    cases o with
    | none =>
      intro h
      cases h
      exact .inr rfl
    | some o => exact .inl
  simp only [groupDriver]
  split_ifs
  · exact ⟨.inl, .inl⟩
  · exact ⟨.inl, .inl⟩
  · exact ⟨hor _, hor _⟩
  · exact ⟨.inl, hor _⟩

/-- The first phase after the drivers `pre`. -/
structure FirstInv (c : Context N) (r₀ : N → Bool) (t : Option N) (pre : List N) (p : Targets N) :
    Prop where
  inv : GroupInv c r₀ t p.state
  seeds : ∀ q ∈ p.state.log, ∃ e ∈ pre, q.2 = some e ∧ e ∈ q.1
  target : ∀ e, p.target = some e → e ∈ c.drivers
  fallback : ∀ e, p.fallback = some e → e ∈ c.drivers

theorem groupDriver_first (hsync : ∀ n, c.syncGroups n = []) {p : Targets N}
    (h : FirstInv c r₀ t pre p) (hn : n ∈ c.drivers) :
    FirstInv c r₀ t (pre ++ [n]) (groupDriver c p n) := by
  have hseeds : ∀ q ∈ p.state.log, ∃ e ∈ pre ++ [n], q.2 = some e ∧ e ∈ q.1 := by
    intro q hq
    obtain ⟨e, he, hqe⟩ := h.seeds q hq
    exact ⟨e, mem_append_left _ he, hqe⟩
  constructor
  · rw [groupDriver_state]
    split_ifs
    · exact h.inv
    · exact collectDriver_inv hsync h.inv hn
  · rw [groupDriver_state]
    split_ifs
    · exact hseeds
    · unfold collectDriver
      split_ifs with hvisited
      · exact hseeds
      · have ht := collectNodes_traversed hsync (c.drivers_sub n hn) (Bool.eq_false_iff.mpr hvisited)
        intro q hq
        rcases mem_assign_log.mp hq with hq | rfl
        · exact hseeds q hq
        · exact ⟨n, mem_append_right _ (mem_singleton_self n), rfl, ht.start⟩
  · intro e he
    rcases (groupDriver_targets p n e).1 he with he | rfl
    · exact h.target e he
    · exact hn
  · intro e he
    rcases (groupDriver_targets p n e).2 he with he | rfl
    · exact h.fallback e he
    · exact hn

/-- The state before the phases. -/
def Targets.start (s : State N) : Targets N :=
  ⟨{ s with visited := fun _ => false, log := [] }, none, none⟩

theorem foldl_first (hsync : ∀ n, c.syncGroups n = []) (s : State N)
    (hpre : ∀ e ∈ pre, e ∈ c.drivers) :
    FirstInv c s.runnable t pre (pre.foldl (groupDriver c) (Targets.start s)) := by
  induction pre using List.reverseRecOn with
  | nil => exact ⟨⟨Sweep.empty _, nofun, fun _ _ => rfl, nofun, nofun⟩, nofun, nofun, nofun⟩
  | append_singleton pre n ih =>
    rw [foldl_append]
    refine groupDriver_first hsync (ih fun e he => hpre e (mem_append_left _ he)) ?_
    exact hpre n (mem_append_right _ (mem_singleton_self n))

theorem foldl_groupDriver_log (ds : List N) (p : Targets N) (hq : q ∈ p.state.log) :
    q ∈ (ds.foldl (groupDriver c) p).state.log := by
  induction ds generalizing p with
  | nil => exact hq
  | cons n ds ih =>
    refine ih _ ?_
    rw [groupDriver_state]
    split_ifs
    · exact hq
    · exact collectDriver_log hq

/-! ### The second phase -/

omit [DecidableEq N] in
theorem any_needsDriver (h : GroupInv c r₀ t s) (hfree : ¬ ∃ e ∈ c.drivers, e ∈ collect) :
    collect.any (needsDriver c s.runnable) = collect.any (needsDriver c r₀) := by
  rw [Bool.eq_iff_iff, any_eq_true, any_eq_true]
  refine exists_congr fun x => and_congr_right fun hx => ?_
  rw [needsDriver, needsDriver, h.runnable x fun hmem => hfree ⟨x, hmem, hx⟩]

theorem groupRest_inv (hsync : ∀ n, c.syncGroups n = []) (h : GroupInv c r₀ t s)
    (ht : ∀ e, t = some e → e ∈ c.drivers) (hn : n ∈ c.nodes) :
    GroupInv c r₀ t (groupRest c t s n) := by
  unfold groupRest
  split_ifs with hskip
  · exact h
  · have htrav : Traversed c.next s.visited n _ _ := collectNodes_traversed hsync hn (by simp_all)
    -- The driver that is chosen: the target, which is a driver of the graph, or none.
    have hentry (d : Option N)
        (hd : (if (c.collectNodes s.visited n).2.any (needsDriver c s.runnable) then t else none) = d) :
        (∃ e ∈ c.drivers, e ∈ (c.collectNodes s.visited n).2) ∨
          d = if (c.collectNodes s.visited n).2.any (needsDriver c r₀) then t else none := by
      by_cases hfree : ∃ e ∈ c.drivers, e ∈ (c.collectNodes s.visited n).2
      · exact .inl hfree
      · exact .inr (by rw [← hd, any_needsDriver h hfree])
    simp only
    split
    · rename_i d hd
      have hdriver : d ∈ c.drivers := by
        split_ifs at hd
        exact ht d hd
      rw [hd]
      refine assign_inv (h.update_runnable hdriver) hn htrav (fun e he => ?_) (hentry _ hd)
      cases he
      exact hdriver
    · rename_i hd
      rw [hd]
      exact assign_inv h hn htrav nofun (hentry _ hd)

theorem groupRest_log (hq : q ∈ s.log) : q ∈ (groupRest c t s n).log := by
  unfold groupRest
  split_ifs
  · exact hq
  · simp only
    split <;> exact mem_assign_log.mpr (.inl hq)

section NoSync

variable (hsync : ∀ n, c.syncGroups n = [])

include hsync

theorem groupRest_visited (hn : n ∈ c.nodes) {x : N}
    (hx : s.visited x = true ∨ (x = n ∧ c.exported n = false)) :
    (groupRest c t s n).visited x = true := by
  unfold groupRest
  split_ifs with hskip
  · rcases hx with hx | ⟨rfl, hexported⟩
    · exact hx
    · simpa [hexported] using hskip
  · have htrav : Traversed c.next s.visited n _ _ := collectNodes_traversed hsync hn (by simp_all)
    have hmarked : (c.collectNodes s.visited n).1 x = true := by
      rcases hx with hx | ⟨rfl, -⟩
      · exact (htrav.marks x).mpr (.inl hx)
      · exact (htrav.marks x).mpr (.inr htrav.start)
    simp only
    split
    all_goals
      rw [assign_visited]
      exact hmarked

theorem foldl_groupRest (ht : ∀ e, t = some e → e ∈ c.drivers)
    (ns : List N) (hns : ∀ n ∈ ns, n ∈ c.nodes) (h : GroupInv c r₀ t s) :
    GroupInv c r₀ t (ns.foldl (groupRest c t) s) ∧
      (∀ q ∈ s.log, q ∈ (ns.foldl (groupRest c t) s).log) ∧
      (∀ x, s.visited x = true ∨ (x ∈ ns ∧ c.exported x = false) →
        (ns.foldl (groupRest c t) s).visited x = true) := by
  induction ns generalizing s with
  | nil => exact ⟨h, fun q hq => hq, fun x hx => hx.elim id fun hx => nomatch hx.1⟩
  | cons n ns ih =>
    have hn := hns n mem_cons_self
    obtain ⟨hinv, hlog, hvisited⟩ :=
      ih (fun m hm => hns m (mem_cons_of_mem n hm)) (groupRest_inv hsync h ht hn)
    refine ⟨hinv, fun q hq => hlog q (groupRest_log hq), fun x hx => hvisited x ?_⟩
    rcases hx with hx | ⟨hx, hexported⟩
    · exact .inl (groupRest_visited hsync hn (.inl hx))
    · rcases mem_cons.mp hx with rfl | hx
      · exact .inl (groupRest_visited hsync hn (.inr ⟨rfl, hexported⟩))
      · exact .inr ⟨hx, hexported⟩

theorem target_mem (s : State N) {e : N} (he : target c s = some e) : e ∈ c.drivers := by
  have h : FirstInv c s.runnable none c.drivers (firstPhase c s) :=
    foldl_first hsync s fun _ hmem => hmem
  unfold target at he
  cases htarget : (firstPhase c s).target with
  | none =>
    rw [htarget] at he
    exact h.fallback e he
  | some e' =>
    rw [htarget] at he
    cases he
    exact h.target e htarget

/-- **The phases keep the invariant**, lose nothing of the log of the first phase, and visit every
node that is not exported. -/
theorem regroup_inv (s : State N) : GroupInv c s.runnable (target c s) (regroup c s) ∧
      (∀ q ∈ (firstPhase c s).state.log, q ∈ (regroup c s).log) ∧
      ∀ x ∈ c.nodes, c.exported x = false → (regroup c s).visited x = true := by
  have hfirst : FirstInv c s.runnable (target c s) c.drivers (firstPhase c s) :=
    foldl_first hsync s fun _ hmem => hmem
  obtain ⟨hinv, hlog, hvisited⟩ := foldl_groupRest hsync (fun _ => target_mem hsync s) c.nodes
    (fun _ hmem => hmem) hfirst.inv
  exact ⟨hinv, hlog, fun x hx hexported => hvisited x (.inr ⟨hx, hexported⟩)⟩

end NoSync

end Inv

/-! ## Components -/

/-- Two nodes of the graph are joined by a link, or by a common group or link group. -/
def Joined (c : Context N) (a b : N) : Prop :=
  a ∈ c.nodes ∧ b ∈ c.nodes ∧ (b ∈ c.inputPeers a ∨ b ∈ c.outputPeers a ∨
    (∃ g ∈ c.groups a, g ∈ c.groups b) ∨ ∃ g ∈ c.linkGroups a, g ∈ c.linkGroups b)

/-- Two nodes of the graph are connected. -/
def Connected (c : Context N) : N → N → Prop := ReflTransGen (Joined c)

section Components

omit [DecidableEq N]

theorem findCommon_iff {a b : List String} : findCommon a b = true ↔ ∃ g ∈ a, g ∈ b := by
  simp [findCommon, any_eq_true]

theorem Joined.symm {a b : N} (h : Joined c a b) : Joined c b a := by
  obtain ⟨ha, hb, h⟩ := h
  refine ⟨hb, ha, ?_⟩
  rcases h with h | h | ⟨g, hga, hgb⟩ | ⟨g, hga, hgb⟩
  · exact .inr (.inl ((c.linked b a).mpr h))
  · exact .inl ((c.linked a b).mp h)
  · exact .inr (.inr (.inl ⟨g, hgb, hga⟩))
  · exact .inr (.inr (.inr ⟨g, hgb, hga⟩))

theorem Joined.mem_next {a b : N} (h : Joined c a b) (hb : c.exported b = false) : b ∈ c.next a := by
  obtain ⟨-, hmem, h⟩ := h
  rcases h with h | h | ⟨g, hga, hgb⟩ | ⟨g, hga, hgb⟩
  · exact mem_append_left _ (mem_append_left _ h)
  · exact mem_append_left _ (mem_append_right _ h)
  · refine mem_append_right _ (mem_filter.mpr ⟨hmem, ?_⟩)
    have := findCommon_iff.mpr ⟨g, hgb, hga⟩
    simp [hb, Context.sameGroup, this]
  · refine mem_append_right _ (mem_filter.mpr ⟨hmem, ?_⟩)
    have := findCommon_iff.mpr ⟨g, hgb, hga⟩
    simp [hb, Context.sameGroup, this]

theorem joined_of_mem_next {a b : N} (ha : a ∈ c.nodes) (hb : b ∈ c.next a) : Joined c a b := by
  refine ⟨ha, next_inside hb, ?_⟩
  rcases mem_append.mp hb with hb | hb
  · rcases mem_append.mp hb with hb | hb
    · exact .inl hb
    · exact .inr (.inl hb)
  · obtain ⟨-, hb⟩ := mem_filter.mp hb
    have hgroup := (Bool.and_eq_true_iff.mp hb).2
    simp only [Context.sameGroup, Bool.or_eq_true, findCommon_iff, not_mem_nil, and_false,
      exists_false, or_false] at hgroup
    rcases hgroup with ⟨g, hgb, hga⟩ | ⟨g, hgb, hga⟩
    · exact .inr (.inr (.inl ⟨g, hga, hgb⟩))
    · exact .inr (.inr (.inr ⟨g, hga, hgb⟩))

theorem Connected.symm {a b : N} (h : Connected c a b) : Connected c b a := by
  induction h with
  | refl => exact .refl
  | tail _ hj ih => exact ReflTransGen.head hj.symm ih

theorem connected_of_reach {a b : N} (ha : a ∈ c.nodes)
    (h : ReflTransGen (fun a b => b ∈ c.next a) a b) : Connected c a b ∧ b ∈ c.nodes := by
  induction h with
  | refl => exact ⟨.refl, ha⟩
  | tail _ hb ih => exact ⟨ih.1.tail (joined_of_mem_next ih.2 hb), next_inside hb⟩

end Components

section Result

variable {r₀ : N → Bool} {t : Option N} {s : State N}

omit [DecidableEq N] in
theorem GroupInv.mem_iff_connected (h : GroupInv c r₀ t s)
    (hexported : ∀ n ∈ c.nodes, c.exported n = false) (hp : p ∈ s.log) {a b : N} (ha : a ∈ p.1) :
    b ∈ p.1 ↔ Connected c a b := by
  constructor
  · intro hb
    obtain ⟨n, hn, hreach⟩ := h.reach p hp
    exact (connected_of_reach hn (hreach a ha)).1.symm.trans (connected_of_reach hn (hreach b hb)).1
  · intro hab
    induction hab with
    | refl => exact ha
    | tail _ hj ih =>
      exact h.sweep.together (hj.mem_next (hexported _ hj.2.1))
        (hj.symm.mem_next (hexported _ hj.1)) (mem_map_of_mem hp) ih

omit [DecidableEq N] in
theorem GroupInv.exists_collection (h : GroupInv c r₀ t s) {a : N} (ha : s.visited a = true) :
    ∃ p ∈ s.log, a ∈ p.1 := by
  obtain ⟨collect, hmem, ha⟩ := h.sweep.exists_collection ha
  obtain ⟨p, hp, rfl⟩ := mem_map.mp hmem
  exact ⟨p, hp, ha⟩

theorem first_collects (hsync : ∀ n, c.syncGroups n = [])
    (hexported : ∀ n ∈ c.nodes, c.exported n = false) (s : State N) {pre post : List N} {d : N}
    (hdrivers : c.drivers = pre ++ d :: post) (hfirst : ∀ e ∈ pre, ¬ Connected c d e) :
    ∃ collect, (collect, some d) ∈ (regroup c s).log ∧ d ∈ collect := by
  have hd : d ∈ c.drivers := by simp [hdrivers]
  have hpre : ∀ e ∈ pre, e ∈ c.drivers := by
    intro e he
    rw [hdrivers]
    exact mem_append_left _ he
  have hbefore : FirstInv c s.runnable (target c s) pre
      (pre.foldl (groupDriver c) (Targets.start s)) := foldl_first hsync s hpre
  generalize hp : pre.foldl (groupDriver c) (Targets.start s) = p at hbefore
  -- The driver was not visited from an earlier one, which would be connected to it.
  have hvisited : p.state.visited d = false := by
    by_contra hvisited
    obtain ⟨q, hq, hdq⟩ := hbefore.inv.exists_collection (by simpa using hvisited)
    obtain ⟨e, he, -, heq⟩ := hbefore.seeds q hq
    exact hfirst e he ((hbefore.inv.mem_iff_connected hexported hq hdq).mp heq)
  have htrav := collectNodes_traversed hsync (c.drivers_sub d hd) hvisited
  refine ⟨(c.collectNodes p.state.visited d).2, (regroup_inv hsync s).2.1 _ ?_, htrav.start⟩
  show _ ∈ (c.drivers.foldl (groupDriver c) (Targets.start s)).state.log
  rw [hdrivers, foldl_append, foldl_cons, hp]
  apply foldl_groupDriver_log
  rw [groupDriver_state, hexported d (c.drivers_sub d hd), if_neg Bool.false_ne_true, collectDriver,
    if_neg (by simp [hvisited])]
  exact mem_assign_log.mpr (.inr rfl)

/-- **Connected nodes share one driver.** Every node that is not exported is collected once, and two
such nodes that are joined, and do not poll, have the same driver, or none. If no node is exported,
it is the first driver of the component, or else the target if a node needs a driver. -/
theorem connected_share_driver (c : Context N) (hsync : ∀ n, c.syncGroups n = []) (s : State N) :
    (∀ n ∈ c.nodes, c.exported n = false → ((regroup c s).log.map Prod.fst).flatten.count n = 1) ∧
    (∀ a b, Joined c a b → c.exported a = false → c.exported b = false →
      c.pollDriver a = false → c.pollDriver b = false →
      (regroup c s).driver a = (regroup c s).driver b) ∧
    ((∀ n ∈ c.nodes, c.exported n = false) → ∀ a ∈ c.nodes,
      (∀ pre d post, c.drivers = pre ++ d :: post → Connected c a d →
        (∀ e ∈ pre, ¬ Connected c a e) → c.pollDriver a = false ∨ a = d →
        (regroup c s).driver a = some d) ∧
      ((∀ d ∈ c.drivers, ¬ Connected c a d) → c.pollDriver a = false →
        ((∃ b, Connected c a b ∧ needsDriver c s.runnable b = true) →
          (regroup c s).driver a = target c s) ∧
        ((¬ ∃ b, Connected c a b ∧ needsDriver c s.runnable b = true) →
          (regroup c s).driver a = none))) := by
  obtain ⟨hinv, -, hvisited⟩ := regroup_inv hsync s
  refine ⟨fun n hn hexp => ?_, fun a b hj ha hb hpa hpb => ?_, fun hexported a ha => ?_⟩
  · apply count_eq_one_of_mem hinv.sweep.nodup
    exact (hinv.sweep.marks n).mp (hvisited n hn hexp)
  · obtain ⟨p, hp, hap⟩ := hinv.exists_collection (hvisited a hj.1 ha)
    have hbp : b ∈ p.1 := hinv.sweep.together (hj.mem_next hb) (hj.symm.mem_next ha)
      (mem_map_of_mem hp) hap
    rw [hinv.moved p hp a hap (.inl hpa), hinv.moved p hp b hbp (.inl hpb)]
  · constructor
    · intro pre d post hdrivers had hfirst hpoll
      have hfirst' : ∀ e ∈ pre, ¬ Connected c d e := fun e he hde => hfirst e he (had.trans hde)
      obtain ⟨collect, hp, hd⟩ := first_collects hsync hexported s hdrivers hfirst'
      have hacollect := (hinv.mem_iff_connected hexported hp hd).mpr had.symm
      refine hinv.moved _ hp a hacollect ?_
      rcases hpoll with hpoll | rfl
      · exact .inl hpoll
      · exact .inr (.inr rfl)
    · intro hnone hpoll
      obtain ⟨p, hp, hap⟩ := hinv.exists_collection (hvisited a ha (hexported a ha))
      have hcomponent (b : N) : b ∈ p.1 ↔ Connected c a b := hinv.mem_iff_connected hexported hp hap
      have hchosen : p.2 = if p.1.any (needsDriver c s.runnable) then target c s else none := by
        rcases hinv.entries p hp with ⟨e, he, hep⟩ | h
        · exact absurd ((hcomponent e).mp hep) (hnone e he)
        · exact h
      have hany : p.1.any (needsDriver c s.runnable) = true ↔
          ∃ b, Connected c a b ∧ needsDriver c s.runnable b = true := by
        rw [any_eq_true]
        exact exists_congr fun b => and_congr_left' (hcomponent b)
      rw [hinv.moved p hp a hap (.inl hpoll), hchosen]
      constructor
      · intro hneeds
        rw [if_pos (hany.mpr hneeds)]
      · intro hneeds
        rw [if_neg fun h => hneeds (hany.mp h)]

end Result

/-- A driver `false` with a link to a second driver `true`, which polls for its cycles or not. -/
def twoDrivers (poll : Bool) : Context Bool where
  nodes := [false, true]
  drivers := [false, true]
  exported _ := false
  active _ := true
  alwaysProcess _ := false
  wantDriver _ := true
  pollDriver n := n && poll
  clock _ := true
  priorityDriver _ := 1
  sync _ := false
  groups _ := []
  linkGroups _ := []
  syncGroups _ := []
  inputPeers n := if n then [false] else []
  outputPeers n := if n then [] else [true]
  drivers_sub := by decide
  linked := by decide
  inside := by decide

/-- Both drive themselves, before the phases. -/
def ownDrivers : State Bool where
  visited _ := false
  runnable _ := true
  driver n := some n
  driving _ := true
  log := []

/-- The second driver follows the first one. -/
theorem connected_share_driver_two : (regroup (twoDrivers false) ownDrivers).driver true = some false := by
  have h := connected_share_driver (twoDrivers false) (fun _ => rfl) ownDrivers
  refine (h.2.2 (fun _ _ => rfl) true (by decide)).1 [] false [true] rfl ?_ nofun (.inl rfl)
  exact .single ⟨by decide, by decide, .inl (by decide)⟩

/-- A node that polls keeps its own driver, although it is linked to another. -/
theorem pollDriver_apart : Joined (twoDrivers true) false true ∧
    (regroup (twoDrivers true) ownDrivers).driver false = some false ∧
    (regroup (twoDrivers true) ownDrivers).driver true = some true :=
  ⟨⟨by decide, by decide, .inr (.inl (by decide))⟩, by decide, by decide⟩

end PipeWireAO.Scheduler
