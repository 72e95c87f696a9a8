import Mathlib.Data.List.Nodup

/-!
# Dataflow networks

A node of a network computes its value from what it held before and from the values of the nodes it
reads, or it fails. A network without cycles has at most one assignment of values in which every node
holds what it computes, and evaluating the nodes one after the other finds it, in whichever order, as
long as each comes after those it reads.
-/

namespace Foundation

open List Function

variable {N V : Type*}

/-- A network: `compute v f` is the value of node `v` if the nodes hold `f`, or `none` if it fails.
It depends on what `v` itself holds and on the nodes it reads. -/
structure Network (N V : Type*) where
  reads : N → N → Prop
  compute : N → (N → V) → Option V
  compute_congr : ∀ {v : N} {f f' : N → V}, f v = f' v → (∀ u, reads u v → f u = f' u) →
    compute v f = compute v f'

namespace Network

variable (W : Network N V)

/-- No node occurs twice, and each one comes after those it reads. -/
structure Topological (vs : List N) : Prop where
  nodup : vs.Nodup
  before : ∀ pre v post, vs = pre ++ v :: post → ∀ u ∈ vs, W.reads u v → u ∈ pre

section Topological

variable {W} {vs : List N} {v : N}

theorem Topological.tail (h : W.Topological (v :: vs)) : W.Topological vs := by
  obtain ⟨hv, hn⟩ := nodup_cons.mp h.nodup
  refine ⟨hn, ?_⟩
  rintro pre w post rfl u hu hr
  have hmem := h.before (v :: pre) w post rfl u (mem_cons_of_mem v hu) hr
  rcases mem_cons.mp hmem with rfl | hmem
  · exact absurd hu hv
  · exact hmem

theorem Topological.not_mem_of_reads (h : W.Topological (v :: vs)) {u : N} (hr : W.reads u v) :
    u ∉ v :: vs := by
  intro hu
  have := h.before [] v vs rfl u hu hr
  simp at this

end Topological

variable [DecidableEq N]

/-- Evaluate the nodes of a list, one after the other. -/
def eval : List N → (N → V) → Option (N → V)
  | [], f => some f
  | v :: vs, f =>
    match W.compute v f with
    | none => none
    | some x => eval vs (update f v x)

/-- The values `f'` solve the network over `vs`: each of its nodes holds what it computes from its
old value, and the others hold their old values. -/
structure Solves (vs : List N) (f f' : N → V) : Prop where
  inside : ∀ v ∈ vs, W.compute v (update f' v (f v)) = some (f' v)
  outside : ∀ v, v ∉ vs → f' v = f v

variable {W} {vs ws : List N} {v : N} {f f' : N → V}

theorem eval_cons_eq_some : W.eval (v :: vs) f = some f' ↔
      ∃ x, W.compute v f = some x ∧ W.eval vs (update f v x) = some f' := by
  simp only [eval]
  cases W.compute v f <;> simp

theorem Topological.compute_head (h : W.Topological (v :: vs))
    (hout : ∀ u, u ∉ v :: vs → f' u = f u) : W.compute v (update f' v (f v)) = W.compute v f := by
  apply W.compute_congr
  · simp
  · intro u hr
    have hu := h.not_mem_of_reads hr
    have hne : u ≠ v := by
      rintro rfl
      exact hu mem_cons_self
    rw [update_of_ne hne, hout u hu]

/-- **Evaluation finds the solution**, if there is one. -/
theorem eval_eq_some_iff (h : W.Topological vs) : W.eval vs f = some f' ↔ W.Solves vs f f' := by
  induction vs generalizing f with
  | nil =>
    constructor
    · intro hf
      cases hf
      exact ⟨by simp, fun _ _ => rfl⟩
    · intro hs
      have : f = f' := funext fun v => (hs.outside v (by simp)).symm
      rw [this]
      rfl
  | cons v vs ih =>
    obtain ⟨hv, -⟩ := nodup_cons.mp h.nodup
    -- the old values of the other nodes are those before `v` was evaluated
    have hold : ∀ x, ∀ w ∈ vs, update f v x w = f w := by
      intro x w hw
      apply update_of_ne
      rintro rfl
      exact hv hw
    rw [eval_cons_eq_some]
    constructor
    · rintro ⟨x, hx, hrest⟩
      obtain ⟨hin, hout⟩ := (ih h.tail).mp hrest
      have hfv : f' v = x := by simpa using hout v hv
      have houtside : ∀ u, u ∉ v :: vs → f' u = f u := by
        intro u hu
        obtain ⟨hne, hu⟩ := not_or.mp (mt mem_cons.mpr hu)
        rw [hout u hu, update_of_ne hne]
      refine ⟨?_, houtside⟩
      intro w hw
      rcases mem_cons.mp hw with rfl | hw
      · rw [h.compute_head houtside, hx, hfv]
      · have := hin w hw
        rwa [hold x w hw] at this
    · rintro ⟨hin, hout⟩
      have hx := hin v mem_cons_self
      rw [h.compute_head hout] at hx
      refine ⟨f' v, hx, (ih h.tail).mpr ⟨?_, ?_⟩⟩
      · intro w hw
        rw [hold _ w hw]
        exact hin w (mem_cons_of_mem v hw)
      · intro u hu
        by_cases hne : u = v
        · rw [hne, update_self]
        · rw [update_of_ne hne]
          exact hout u (by simp [hne, hu])

/-- **The order does not matter**: two topological orders of the same nodes give the same values, or
fail. -/
theorem eval_congr_order (hv : W.Topological vs) (hw : W.Topological ws)
    (hmem : ∀ v, v ∈ vs ↔ v ∈ ws) : W.eval vs f = W.eval ws f := by
  have hsolves : ∀ f', W.Solves vs f f' ↔ W.Solves ws f f' := by
    intro f'
    constructor
    · rintro ⟨hin, hout⟩
      exact ⟨fun v h => hin v ((hmem v).mpr h), fun v h => hout v (mt (hmem v).mp h)⟩
    · rintro ⟨hin, hout⟩
      exact ⟨fun v h => hin v ((hmem v).mp h), fun v h => hout v (mt (hmem v).mpr h)⟩
  apply Option.ext
  intro f'
  rw [eval_eq_some_iff hv, eval_eq_some_iff hw, hsolves]

end Network

end Foundation
