import PipeWireAO.Foundation.Block

/-!
# Flat memory

Memory is a byte for each address. A load reads a block, and a store changes the bytes of one block and
no others, so that what several stores to blocks without a common byte have left behind can be read
off each of them.
-/

namespace Foundation

open List

/-! ## Blocks -/

/-- No byte is in both blocks. -/
def Block.Apart (b c : Block) : Prop := ∀ a ∈ b.bytes, a ∉ c.bytes

variable {b c : Block} {a n x : ℕ} {ws : List (ℕ × List UInt8)}

theorem Block.Apart.symm (h : b.Apart c) : c.Apart b := fun a hc hb => h a hb hc

theorem Block.apart_iff : b.Apart c ↔ ¬ (b.length ≠ 0 ∧ c.length ≠ 0 ∧
    b.start < c.start + c.length ∧ c.start < b.start + b.length) := by
  rw [← Block.exists_byte_iff, not_exists]
  exact forall_congr' fun a => not_and.symm

theorem Block.Apart.part (h : b.Apart c) (hle : c.start ≤ a)
    (hend : a + n ≤ c.start + c.length) : b.Apart ⟨a, n⟩ := by
  rintro x hx ⟨h₁, h₂⟩
  refine h x hx ⟨?_, ?_⟩
  · exact Nat.le_trans hle h₁
  · exact Nat.lt_of_lt_of_le h₂ hend

theorem not_sharedWithin {xs : List Block} (h : xs.Pairwise Block.Apart) : ¬ SharedWithin xs := by
  rintro ⟨i, j, hne, x, y, hx, hy, a, hax, hay⟩
  have hapart : ∀ {i j : ℕ} {x y : Block}, i < j → xs[i]? = some x → xs[j]? = some y → x.Apart y := by
    intro i j x y hlt hx hy
    obtain ⟨hi, rfl⟩ := List.getElem?_eq_some_iff.mp hx
    obtain ⟨hj, rfl⟩ := List.getElem?_eq_some_iff.mp hy
    exact pairwise_iff_getElem.mp h i j hi hj hlt
  rcases Nat.lt_or_gt_of_ne hne with hlt | hlt
  · exact hapart hlt hx hy a hax hay
  · exact hapart hlt hy hx a hay hax

/-! ## Memory -/

/-- A byte for each address. -/
abbrev Heap := ℕ → UInt8

namespace Heap

variable (h : Heap)

/-- The `n` bytes at `a`. -/
def load (a n : ℕ) : List UInt8 := (List.range n).map fun i => h (a + i)

/-- The memory with the bytes `bs` at `a`. -/
def store (a : ℕ) (bs : List UInt8) : Heap := fun x =>
  if a ≤ x ∧ x < a + bs.length then bs.getD (x - a) 0 else h x

/-- Several stores, one after the other. -/
def stores (ws : List (ℕ × List UInt8)) : Heap := ws.foldl (fun h w => h.store w.1 w.2) h

/-- The block that a store writes. -/
def block (w : ℕ × List UInt8) : Block := ⟨w.1, w.2.length⟩

@[simp] theorem length_load (a n : ℕ) : (h.load a n).length = n := by
  rw [load, length_map, length_range]

variable {h}

theorem load_congr {h' : Heap} (heq : Set.EqOn h h' (Block.mk a n).bytes) :
    h.load a n = h'.load a n := by
  refine map_congr_left fun i hi => heq ⟨Nat.le_add_right a i, ?_⟩
  exact Nat.add_lt_add_left (mem_range.mp hi) a

theorem store_apply_of_notMem {bs : List UInt8} (hx : x ∉ (block (a, bs)).bytes) :
    h.store a bs x = h x :=
  if_neg hx

theorem load_store (a : ℕ) (bs : List UInt8) : (h.store a bs).load a bs.length = bs := by
  refine ext_getElem (length_load _ _ _) fun i hi hi' => ?_
  simp only [load, getElem_map, getElem_range]
  rw [store, if_pos ⟨Nat.le_add_right a i, Nat.add_lt_add_left hi' a⟩, Nat.add_sub_cancel_left,
    getD_eq_getElem?_getD, getElem?_eq_getElem hi', Option.getD_some]

/-- **Several stores leave the other bytes.** -/
theorem stores_apply_of_notMem (hx : ∀ w ∈ ws, x ∉ (block w).bytes) : h.stores ws x = h x := by
  induction ws generalizing h with
  | nil => rfl
  | cons w ws ih =>
    rw [stores, foldl_cons, ← stores, ih fun w' hw' => hx w' (mem_cons_of_mem w hw')]
    exact store_apply_of_notMem (hx w mem_cons_self)

theorem load_stores_of_apart
    (hapart : ∀ w ∈ ws, (Block.mk a n).Apart (block w)) : (h.stores ws).load a n = h.load a n :=
  load_congr fun x hx => stores_apply_of_notMem fun w hw => hapart w hw x hx

/-- **What was stored is loaded**, after stores to blocks without a common byte. -/
theorem load_stores
    (hapart : ws.Pairwise fun w w' => (block w).Apart (block w')) {w : ℕ × List UInt8}
    (hw : w ∈ ws) : (h.stores ws).load w.1 w.2.length = w.2 := by
  induction ws generalizing h with
  | nil => cases hw
  | cons w' ws ih =>
    obtain ⟨hfirst, hrest⟩ := pairwise_cons.mp hapart
    rw [stores, foldl_cons, ← stores]
    rcases mem_cons.mp hw with rfl | hw
    · rw [load_stores_of_apart hfirst, load_store]
    · exact ih hrest hw

end Heap

end Foundation
