import Mathlib.Data.List.Perm.Subperm

/-!
# Traversals with shared marks

A work-list traversal starts from one node, and takes the successors of every node that it has not
marked. Several traversals, one after the other, share the marks; each collects what is new. When two
nodes are successors of each other, they are collected together.
-/

namespace Foundation

open List Function
open Relation (ReflTransGen)

variable {N : Type*}

section Marks

variable [DecidableEq N]

/-- A node that is not marked is marked and queued. -/
def mark (w : (N → Bool) × List N) (t : N) : (N → Bool) × List N :=
  if w.1 t then w else (update w.1 t true, w.2 ++ [t])

/-- Nodes are taken from the queue and collected, and their successors queued, `fuel` times. -/
def traverse (next : N → List N) : ℕ → (N → Bool) → List N → List N → (N → Bool) × List N
  | fuel + 1, visited, n :: queue, collected =>
    let w := (next n).foldl mark (visited, queue)
    traverse next fuel w.1 w.2 (collected ++ [n])
  | 0, visited, _, collected => (visited, collected)
  | _ + 1, visited, [], collected => (visited, collected)

/-! ## One traversal -/

/-- The marks and the queue after the nodes `ts` were marked, by the ones before. -/
structure Marked (w w' : (N → Bool) × List N) (ts : List N) : Prop where
  new : ∃ added, w'.2 = w.2 ++ added ∧ added.Nodup ∧
    (∀ x ∈ added, x ∈ ts ∧ w.1 x = false) ∧ ∀ x, w'.1 x = true ↔ w.1 x = true ∨ x ∈ added
  all : ∀ t ∈ ts, w'.1 t = true

theorem mark_marked (w : (N → Bool) × List N) (t : N) : Marked w (mark w t) [t] := by
  unfold mark
  split_ifs with h
  · refine ⟨⟨[], by simp, .nil, nofun, fun x => by simp⟩, fun x hx => ?_⟩
    rw [mem_singleton.mp hx, h]
  · refine ⟨⟨[t], rfl, by simp, fun x hx => ?_, fun x => ?_⟩, fun x hx => ?_⟩
    · rw [mem_singleton.mp hx]
      exact ⟨mem_singleton_self t, by simpa using h⟩
    · by_cases hx : x = t <;> simp [update, hx]
    · rw [mem_singleton.mp hx]
      simp

theorem foldl_mark_marked (w : (N → Bool) × List N) (ts : List N) :
    Marked w (ts.foldl mark w) ts := by
  induction ts generalizing w with
  | nil => exact ⟨⟨[], by simp, .nil, nofun, fun x => by simp⟩, nofun⟩
  | cons t ts ih =>
    obtain ⟨⟨a, ha, hand, hnew, hvis⟩, hall⟩ := mark_marked w t
    obtain ⟨⟨b, hb, hbnd, hnew', hvis'⟩, hall'⟩ := ih (mark w t)
    refine ⟨⟨a ++ b, ?_, ?_, fun x hx => ?_, fun x => ?_⟩, fun x hx => ?_⟩
    · rw [foldl_cons, hb, ha, append_assoc]
    · refine nodup_append.mpr ⟨hand, hbnd, ?_⟩
      rintro x hxa _ hxb rfl
      have := (hnew' x hxb).2
      rw [(hvis x).mpr (.inr hxa)] at this
      cases this
    · rcases mem_append.mp hx with hx | hx
      · exact ⟨mem_cons.mpr (.inl (mem_singleton.mp (hnew x hx).1)), (hnew x hx).2⟩
      · obtain ⟨hmem, hfalse⟩ := hnew' x hx
        refine ⟨mem_cons_of_mem t hmem, ?_⟩
        by_contra htrue
        rw [(hvis x).mpr (.inl (by simpa using htrue))] at hfalse
        cases hfalse
    · rw [foldl_cons, hvis', hvis, mem_append, or_assoc]
    · rcases mem_cons.mp hx with rfl | hx
      · exact (hvis' x).mpr (.inl (hall x (mem_singleton_self x)))
      · exact hall' x hx

end Marks

section Traverse

variable {next : N → List N} {nodes : List N} {v₀ v : N → Bool} {n₀ : N} {queue collected : List N}

/-- What a traversal from `n₀`, with the marks `v₀` before it and `v` after it, has collected: nodes
that are new, and can be reached from `n₀`, and whose successors are all marked. -/
structure Traversed (next : N → List N) (v₀ : N → Bool) (n₀ : N) (v : N → Bool)
    (collected : List N) : Prop where
  nodup : collected.Nodup
  new : ∀ x ∈ collected, v₀ x = false
  marks : ∀ x, v x = true ↔ v₀ x = true ∨ x ∈ collected
  start : n₀ ∈ collected
  reach : ∀ x ∈ collected, ReflTransGen (fun a b => b ∈ next a) n₀ x
  closed : ∀ x ∈ collected, ∀ y ∈ next x, v y = true

/-- The invariant of the loop: the same, of the nodes collected or queued; the successors of those
that are collected are marked. -/
structure TraverseInv (next : N → List N) (nodes : List N) (v₀ : N → Bool) (n₀ : N) (v : N → Bool)
    (queue collected : List N) : Prop where
  nodup : (collected ++ queue).Nodup
  inside : ∀ x ∈ collected ++ queue, x ∈ nodes
  new : ∀ x ∈ collected ++ queue, v₀ x = false
  marks : ∀ x, v x = true ↔ v₀ x = true ∨ x ∈ collected ++ queue
  start : n₀ ∈ collected ++ queue
  reach : ∀ x ∈ collected ++ queue, ReflTransGen (fun a b => b ∈ next a) n₀ x
  closed : ∀ x ∈ collected, ∀ y ∈ next x, v y = true

theorem TraverseInv.done (h : TraverseInv next nodes v₀ n₀ v [] collected) :
    Traversed next v₀ n₀ v collected := by
  obtain ⟨hnodup, -, hnew, hmarks, hstart, hreach, hclosed⟩ := h
  rw [append_nil] at *
  exact ⟨hnodup, hnew, hmarks, hstart, hreach, hclosed⟩

variable [DecidableEq N]

section Closed

variable (hnext : ∀ x ∈ nodes, ∀ y ∈ next x, y ∈ nodes)

include hnext

theorem TraverseInv.step {n : N} (h : TraverseInv next nodes v₀ n₀ v (n :: queue) collected) :
    TraverseInv next nodes v₀ n₀ ((next n).foldl mark (v, queue)).1
      ((next n).foldl mark (v, queue)).2 (collected ++ [n]) := by
  obtain ⟨⟨added, hqueue, hnodup, hnew, hmarks⟩, hall⟩ := foldl_mark_marked (v, queue) (next n)
  generalize (next n).foldl mark (v, queue) = w at hqueue hmarks hall
  have hn : n ∈ collected ++ n :: queue := by simp
  have hlist : collected ++ [n] ++ w.2 = collected ++ n :: queue ++ added := by
    rw [hqueue]
    simp
  -- What is added was not marked, so it is new.
  have hfresh : ∀ x ∈ added, x ∉ collected ++ n :: queue ∧ v₀ x = false := by
    intro x hx
    have hfalse : v x ≠ true := Bool.eq_false_iff.mp (hnew x hx).2
    rw [ne_eq, h.marks x, not_or] at hfalse
    exact ⟨hfalse.2, Bool.eq_false_iff.mpr hfalse.1⟩
  constructor
  · rw [hlist]
    refine nodup_append.mpr ⟨h.nodup, hnodup, ?_⟩
    rintro x hx _ hx' rfl
    exact (hfresh x hx').1 hx
  · rw [hlist]
    exact forall_mem_append.mpr ⟨h.inside, fun x hx => hnext n (h.inside n hn) x (hnew x hx).1⟩
  · rw [hlist]
    exact forall_mem_append.mpr ⟨h.new, fun x hx => (hfresh x hx).2⟩
  · intro x
    rw [hlist, hmarks, mem_append, ← or_assoc, ← h.marks]
  · rw [hlist]
    exact mem_append_left _ h.start
  · rw [hlist]
    exact forall_mem_append.mpr ⟨h.reach, fun x hx => (h.reach n hn).tail (hnew x hx).1⟩
  · refine forall_mem_append.mpr ⟨fun x hx y hy => ?_, forall_mem_singleton.mpr hall⟩
    exact (hmarks y).mpr (.inl (h.closed x hx y hy))

/-- A loop that has a step for every node that is not collected ends with an empty queue. -/
theorem TraverseInv.loop (fuel : ℕ) (h : TraverseInv next nodes v₀ n₀ v queue collected)
    (hfuel : nodes.length ≤ fuel + collected.length) :
    Traversed next v₀ n₀ (traverse next fuel v queue collected).1
      (traverse next fuel v queue collected).2 := by
  induction fuel generalizing v queue collected with
  | zero =>
    have hempty : queue = [] := by
      have hlen := (h.nodup.subperm h.inside).length_le
      rw [length_append] at hlen
      exact length_eq_zero_iff.mp (by omega)
    subst hempty
    exact h.done
  | succ fuel ih =>
    cases queue with
    | nil => exact h.done
    | cons n queue =>
      refine ih (h.step hnext) ?_
      rw [length_append, length_singleton]
      omega

/-- **A traversal** from a node that is not marked, with as many steps as there are nodes. -/
theorem traverse_traversed (hn : n₀ ∈ nodes) (hv : v₀ n₀ = false) :
    Traversed next v₀ n₀ (traverse next nodes.length (update v₀ n₀ true) [n₀] []).1
      (traverse next nodes.length (update v₀ n₀ true) [n₀] []).2 := by
  refine TraverseInv.loop hnext nodes.length ?_ (by simp)
  constructor
  · simp
  · simpa using hn
  · simpa using hv
  · intro x
    by_cases hx : x = n₀ <;> simp [update, hx]
  · simp
  · intro x hx
    cases mem_singleton.mp hx
    exact .refl
  · nofun

end Closed

end Traverse

/-! ## A series of traversals -/

/-- What a series of traversals has collected: every node at most once, exactly the nodes that are
marked, and the successors of a node no later than the node. -/
structure Sweep (next : N → List N) (v : N → Bool) (collections : List (List N)) : Prop where
  nodup : collections.flatten.Nodup
  marks : ∀ x, v x = true ↔ x ∈ collections.flatten
  closed : ∀ pre c post, collections = pre ++ c :: post → ∀ x ∈ c, ∀ y ∈ next x,
    y ∈ pre.flatten ∨ y ∈ c

namespace Sweep

variable {next : N → List N} {v v' : N → Bool} {cs : List (List N)} {n₀ : N} {c : List N}

theorem empty (next : N → List N) : Sweep next (fun _ => false) [] :=
  ⟨.nil, fun x => by simp, by simp⟩

/-- **One more traversal.** -/
theorem snoc (h : Sweep next v cs) (ht : Traversed next v n₀ v' c) : Sweep next v' (cs ++ [c]) := by
  constructor
  · rw [flatten_append, flatten_singleton]
    refine nodup_append.mpr ⟨h.nodup, ht.nodup, ?_⟩
    rintro x hx _ hx' rfl
    have hfalse := ht.new x hx'
    rw [(h.marks x).mpr hx] at hfalse
    cases hfalse
  · intro x
    rw [ht.marks, h.marks, flatten_append, flatten_singleton, mem_append]
  · intro pre d post heq x hx y hy
    rcases eq_nil_or_concat post with rfl | ⟨post', e, rfl⟩
    · -- The new collection is the last one.
      obtain ⟨rfl, hd⟩ := append_inj' heq rfl
      cases singleton_inj.mp hd
      exact (ht.marks y).mp (ht.closed x hx y hy) |>.imp_left (h.marks y).mp
    · refine h.closed pre d post' ?_ x hx y hy
      have heq' : cs ++ [c] = (pre ++ d :: post') ++ [e] := by simpa using heq
      exact (append_inj' heq' rfl).1

theorem together (h : Sweep next v cs) {x y : N} (hxy : y ∈ next x) (hyx : x ∈ next y)
    (hc : c ∈ cs) (hx : x ∈ c) : y ∈ c := by
  obtain ⟨pre, post, rfl⟩ := append_of_mem hc
  rcases h.closed pre c post rfl x hx y hxy with hy | hy
  · -- Otherwise the other one was collected first, and this one no later.
    obtain ⟨d, hd, hyd⟩ := mem_flatten.mp hy
    obtain ⟨pre', post', rfl⟩ := append_of_mem hd
    have hnodup := h.nodup
    rw [flatten_append, flatten_cons] at hnodup
    have hdisj := (nodup_append.mp hnodup).2.2
    have hclosed := h.closed pre' d (post' ++ c :: post) (by simp) y hyd x hyx
    refine absurd rfl (hdisj x ?_ x (mem_append_left _ hx))
    rcases hclosed with hx' | hx'
    · rw [flatten_append]
      exact mem_append_left _ hx'
    · rw [flatten_append, flatten_cons]
      exact mem_append_right _ (mem_append_left _ hx')
  · exact hy

theorem exists_collection (h : Sweep next v cs) {x : N} (hx : v x = true) : ∃ c ∈ cs, x ∈ c :=
  mem_flatten.mp ((h.marks x).mp hx)

end Sweep

end Foundation
