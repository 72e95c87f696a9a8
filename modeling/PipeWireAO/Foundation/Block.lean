import Mathlib.Data.Set.Basic

/-!
# Blocks of memory

A block of memory is an address and a length. Two blocks share a byte when neither is empty and each
one begins before the other one ends.
-/

namespace Foundation

open List

/-- A block of memory. -/
structure Block where
  (start length : ℕ)
  deriving DecidableEq

/-- The addresses of the bytes of a block. -/
def Block.bytes (b : Block) : Set ℕ := {a | b.start ≤ a ∧ a < b.start + b.length}

/-- **Two blocks share a byte** when neither is empty and each begins before the other ends. -/
theorem Block.exists_byte_iff {b c : Block} : (∃ a, a ∈ b.bytes ∧ a ∈ c.bytes) ↔
    b.length ≠ 0 ∧ c.length ≠ 0 ∧ b.start < c.start + c.length ∧ c.start < b.start + b.length := by
  constructor
  · rintro ⟨a, ⟨hb, hb'⟩, hc, hc'⟩
    omega
  · rintro ⟨hb, hc, hbc, hcb⟩
    refine ⟨max b.start c.start, ⟨le_max_left _ _, ?_⟩, le_max_right _ _, ?_⟩
    · exact max_lt (by omega) hcb
    · exact max_lt hbc (by omega)

/-- A byte of a block of the one list is a byte of a block of the other. -/
def SharedWith (xs ys : List Block) : Prop := ∃ a, (∃ x ∈ xs, a ∈ x.bytes) ∧ ∃ y ∈ ys, a ∈ y.bytes

theorem sharedWith_iff {xs ys : List Block} :
    SharedWith xs ys ↔ ∃ x ∈ xs, ∃ y ∈ ys, ∃ a, a ∈ x.bytes ∧ a ∈ y.bytes := by
  constructor
  · rintro ⟨a, ⟨x, hx, hax⟩, y, hy, hay⟩
    exact ⟨x, hx, y, hy, a, hax, hay⟩
  · rintro ⟨x, hx, y, hy, a, hax, hay⟩
    exact ⟨a, ⟨x, hx, hax⟩, y, hy, hay⟩

instance (xs ys : List Block) : Decidable (SharedWith xs ys) :=
  decidable_of_iff (∃ x ∈ xs, ∃ y ∈ ys, x.length ≠ 0 ∧ y.length ≠ 0 ∧
      x.start < y.start + y.length ∧ y.start < x.start + x.length) <| by
    simp only [sharedWith_iff, Block.exists_byte_iff]

theorem sharedWith_comm {xs ys : List Block} : SharedWith xs ys ↔ SharedWith ys xs := by
  constructor <;> rintro ⟨a, hx, hy⟩ <;> exact ⟨a, hy, hx⟩

theorem SharedWith.mono {xs xs' ys ys' : List Block} (h : SharedWith xs ys)
    (hx : ∀ x ∈ xs, ∃ x' ∈ xs', x.bytes ⊆ x'.bytes) (hy : ∀ y ∈ ys, ∃ y' ∈ ys', y.bytes ⊆ y'.bytes) :
    SharedWith xs' ys' := by
  obtain ⟨a, ⟨x, hxs, hax⟩, y, hys, hay⟩ := h
  obtain ⟨x', hx', hsub⟩ := hx x hxs
  obtain ⟨y', hy', hsub'⟩ := hy y hys
  exact ⟨a, ⟨x', hx', hsub hax⟩, y', hy', hsub' hay⟩

/-- A byte is in two blocks of the list. -/
def SharedWithin (xs : List Block) : Prop :=
  ∃ i j : ℕ, i ≠ j ∧ ∃ x y : Block, xs[i]? = some x ∧ xs[j]? = some y ∧
    ∃ a, a ∈ x.bytes ∧ a ∈ y.bytes

theorem exists_lt_of_mem_take {α : Type*} {l : List α} {i : ℕ} {a : α} (h : a ∈ l.take i) :
    ∃ j < i, l[j]? = some a := by
  obtain ⟨j, hj⟩ := mem_iff_getElem?.mp h
  have hlt : j < i := by
    have := (List.getElem?_eq_some_iff.mp hj).1
    rw [length_take] at this
    omega
  rw [getElem?_take_of_lt hlt] at hj
  exact ⟨j, hlt, hj⟩

theorem mem_take_of_lt {α : Type*} {l : List α} {i j : ℕ} {a : α} (hlt : j < i)
    (h : l[j]? = some a) : a ∈ l.take i :=
  mem_of_getElem? (i := j) (by rw [getElem?_take_of_lt hlt, h])

theorem sharedWithin_iff {xs : List Block} : SharedWithin xs ↔
    ∃ (i : ℕ) (x : Block), xs[i]? = some x ∧ ∃ y ∈ xs.take i, ∃ a, a ∈ x.bytes ∧ a ∈ y.bytes := by
  constructor
  · rintro ⟨i, j, hne, x, y, hx, hy, a, hax, hay⟩
    rcases Nat.lt_or_gt_of_ne hne with hlt | hlt
    · exact ⟨j, y, hy, x, mem_take_of_lt hlt hx, a, hay, hax⟩
    · exact ⟨i, x, hx, y, mem_take_of_lt hlt hy, a, hax, hay⟩
  · rintro ⟨i, x, hx, y, hy, a, hax, hay⟩
    obtain ⟨j, hlt, hj⟩ := exists_lt_of_mem_take hy
    exact ⟨i, j, by omega, x, y, hx, hj, a, hax, hay⟩

instance (xs : List Block) : Decidable (SharedWithin xs) :=
  decidable_of_iff (∃ p ∈ xs.zipIdx, SharedWith [p.1] (xs.take p.2)) <| by
    simp only [sharedWithin_iff, sharedWith_iff, mem_singleton, exists_eq_left, Prod.exists,
      mem_zipIdx_iff_getElem?]
    exact exists_comm

end Foundation
