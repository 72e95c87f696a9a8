import Mathlib.Algebra.Order.Field.Basic
import Mathlib.Algebra.Order.Field.Rat
import Mathlib.Data.Prod.Lex
import PipeWireAO.Pod.Meet

/-!
# The sets of choices

A choice stands for a set of values: one value, the listed ones, those between two bounds, those of
them that are multiples of a step, or the parts of a set of bits. The comparisons of the values of a
type are an order of it, in which fractions and rectangles share places.
-/

namespace PipeWireAO.Pod

open List
open Foundation (toLe length_toLe)

/-! ## The order of values -/

variable {v w : Scalar}

namespace Scalar

/-- A value of a type with an order and with numbers. -/
def Ordered : Scalar → Prop
  | .int _ | .long _ | .id _ | .rectangle _ _ => True
  | .fraction _ d => d ≠ 0
  | _ => False

/-- The place of a value in the order of its type. -/
def key : Scalar → ℚ ×ₗ ℕ
  | .int a => toLex (a.toInt, 0)
  | .long a => toLex (a.toInt, 0)
  | .id a => toLex (a.toNat, 0)
  | .fraction n d => toLex (n.toNat / d.toNat, 0)
  | .rectangle w h => toLex (w.toNat * h.toNat, w.toNat)
  | _ => toLex (0, 0)

theorem cmp_key {a b : ℤ} {x y : ℚ} (hxy : (a < b ↔ x < y) ∧ (b < a ↔ y < x)) :
    (cmp a b < 0 ↔ toLex (x, 0) < toLex (y, (0 : ℕ))) ∧
      (0 < cmp a b ↔ toLex (y, 0) < toLex (x, (0 : ℕ))) := by
  rw [cmp_neg, cmp_pos, hxy.1, hxy.2, Prod.Lex.toLex_lt_toLex, Prod.Lex.toLex_lt_toLex]
  simp

theorem toNat_pos_of_ne_zero {d : BitVec 32} (h : d ≠ 0) : 0 < d.toNat :=
  Nat.pos_of_ne_zero fun h0 => h (BitVec.eq_of_toNat_eq h0)

/-- **The comparison of values is their order.** -/
theorem compare_key (hv : v.Ordered) (hw : w.Ordered) (hkind : v.kind = w.kind) :
    (v.compare w < 0 ↔ v.key < w.key) ∧ (0 < v.compare w ↔ w.key < v.key) := by
  cases v with
  | int a | long a =>
    cases w <;> cases hkind
    simp only [compare_int, compare_long]
    exact cmp_key ⟨Int.cast_lt.symm, Int.cast_lt.symm⟩
  | id a =>
    cases w <;> cases hkind
    rw [compare_id]
    exact cmp_key ⟨by rw [Int.ofNat_lt, Nat.cast_lt], by rw [Int.ofNat_lt, Nat.cast_lt]⟩
  | fraction n d =>
    cases w <;> cases hkind
    next n' d' =>
    have hd : (0 : ℚ) < d.toNat := Nat.cast_pos.mpr (toNat_pos_of_ne_zero hv)
    have hd' : (0 : ℚ) < d'.toNat := Nat.cast_pos.mpr (toNat_pos_of_ne_zero hw)
    rw [compare_fraction]
    refine cmp_key ⟨?_, ?_⟩
    · rw [Int.ofNat_lt, div_lt_div_iff₀ hd hd', ← Nat.cast_mul, ← Nat.cast_mul, Nat.cast_lt]
    · rw [Int.ofNat_lt, div_lt_div_iff₀ hd' hd, ← Nat.cast_mul, ← Nat.cast_mul, Nat.cast_lt]
  | rectangle a b =>
    cases w <;> cases hkind
    next a' b' =>
    rw [compare_rectangle]
    unfold compareRectangle key
    simp only [Prod.Lex.toLex_lt_toLex, ← Nat.cast_mul, Nat.cast_lt, Nat.cast_inj]
    split_ifs with hlt hgt
    · omega
    · omega
    · rw [cmp_neg, cmp_pos, Int.ofNat_lt, Int.ofNat_lt]
      omega
  | bool _ | float _ | double _ | string _ | bytes _ | fd _ => exact hv.elim

theorem compare_key_eq (hv : v.Ordered) (hw : w.Ordered) (hkind : v.kind = w.kind) :
    v.compare w = 0 ↔ v.key = w.key := by
  obtain ⟨hlt, hgt⟩ := compare_key hv hw hkind
  rcases lt_trichotomy v.key w.key with h | h | h
  · have := hlt.mpr h
    exact ⟨fun h0 => by omega, fun heq => absurd h (heq ▸ lt_irrefl _)⟩
  · have h₁ : ¬ v.compare w < 0 := fun hneg => absurd (hlt.mp hneg) (h ▸ lt_irrefl _)
    have h₂ : ¬ 0 < v.compare w := fun hpos => absurd (hgt.mp hpos) (h ▸ lt_irrefl _)
    exact ⟨fun _ => h, fun _ => by omega⟩
  · have := hgt.mpr h
    exact ⟨fun h0 => by omega, fun heq => absurd h (heq ▸ lt_irrefl _)⟩

theorem Same.key_eq (h : v.Same w) (hv : v.Ordered) (hw : w.Ordered) :
    v.kind = w.kind ∧ v.key = w.key := by
  cases v with
  | fraction n d =>
    cases w with
    | fraction n' d' =>
      have hd : (0 : ℚ) < d.toNat := Nat.cast_pos.mpr (toNat_pos_of_ne_zero hv)
      have hd' : (0 : ℚ) < d'.toNat := Nat.cast_pos.mpr (toNat_pos_of_ne_zero hw)
      have hmul : n.toNat * d'.toNat = n'.toNat * d.toNat := h
      refine ⟨rfl, ?_⟩
      rw [key, key, (div_eq_div_iff hd.ne' hd'.ne').mpr (by rw [← Nat.cast_mul, ← Nat.cast_mul, hmul])]
    | _ => cases h
  | int _ | long _ | id _ | rectangle _ _ =>
    cases w <;> cases h
    exact ⟨rfl, rfl⟩
  | bool _ | float _ | double _ | string _ | bytes _ | fd _ => exact hv.elim

theorem header_eq (hv : v.Ordered) (hkind : v.kind = w.kind) : v.header = w.header := by
  cases v with
  | int _ | long _ | id _ | rectangle _ _ | fraction _ _ =>
    cases w <;> cases hkind
    simp only [header, body, length_append, length_toLe, kind]
  | bool _ | float _ | double _ | string _ | bytes _ | fd _ => exact hv.elim

theorem Same.symm (h : v.Same w) : w.Same v := by
  cases v with
  | fraction n d =>
    cases w with
    | fraction n' d' => exact Eq.symm h
    | _ => cases h
  | _ =>
    cases w <;> cases h
    rfl

/-- Between two bounds. -/
def Between (x min max : Scalar) : Prop := x.kind = min.kind ∧ min.key ≤ x.key ∧ x.key ≤ max.key

/-- A whole number of times the step. -/
def MultipleOf : Scalar → Scalar → Prop
  | .int x, .int step => step.toInt ∣ x.toInt
  | .long x, .long step => step.toInt ∣ x.toInt
  | .id x, .id step => step.toNat ∣ x.toNat
  | .rectangle w h, .rectangle w' h' => w'.toNat ∣ w.toNat ∧ h'.toNat ∣ h.toNat
  | .fraction n d, .fraction n' d' => ∃ k : ℕ, n.toNat * d'.toNat = k * n'.toNat * d.toNat
  | _, _ => False

/-- Some of the bits of a mask. -/
def BitsOf : Scalar → Scalar → Prop
  | .int x, .int mask => x ≠ 0 ∧ x &&& mask = x
  | .long x, .long mask => x ≠ 0 ∧ x &&& mask = x
  | .id x, .id mask => x ≠ 0 ∧ x &&& mask = x
  | _, _ => False

end Scalar

/-! ## Choices -/

/-- A choice, with its default. -/
inductive Choice
  | none (v : Scalar)
  | enum (default : Scalar) (vs : List Scalar)
  | range (default min max : Scalar)
  | step (default min max step : Scalar)
  | flags (v : Scalar)

namespace Choice

/-- The values, as they are written. -/
def vals : Choice → List Scalar
  | .none v => [v]
  | .enum d vs => d :: vs
  | .range d min max => [d, min, max]
  | .step d min max s => [d, min, max, s]
  | .flags v => [v]

def default : Choice → Scalar
  | .none v => v
  | .enum d _ => d
  | .range d _ _ => d
  | .step d _ _ _ => d
  | .flags v => v

/-- The kind. -/
def type : Choice → ChoiceType
  | .none _ => .none
  | .enum _ _ => .enum
  | .range _ _ _ => .range
  | .step _ _ _ _ => .step
  | .flags _ => .flags

/-- **The set of values that the choice stands for.** -/
def Admits : Choice → Scalar → Prop
  | .none v, x => x.Same v
  | .enum _ vs, x => ∃ v ∈ vs, x.Same v
  | .range _ min max, x => x.Between min max
  | .step _ min max s, x => x.Between min max ∧ x.MultipleOf s
  | .flags v, x => x.BitsOf v

/-- Values of one type that has an order, and a default that is one of the values. -/
structure Valid (c : Choice) : Prop where
  ordered : ∀ v ∈ c.vals, v.Ordered
  kind : ∀ v ∈ c.vals, v.kind = c.default.kind
  default : c.Admits c.default

/-- One value, or some that are listed. -/
abbrev Listed (c : Choice) : Prop := c.type = .none ∨ c.type = .enum

/-- All values between two bounds, or the multiples of a step. -/
abbrev Ranged (c : Choice) : Prop := c.type = .range ∨ c.type = .step

/-- The choice with all values between the bounds. -/
def withoutStep : Choice → Choice
  | .step d min max _ => .range d min max
  | c => c

def tree (c : Choice) : Tree := .choice (BitVec.ofNat 32 c.type.number) 0 c.vals

/-- The values as the filter sees them. -/
def alternatives (c : Choice) : Alternatives := ⟨c.type.number, c.vals.map Scalar.body⟩

/-- The bytes of a property whose value is the choice. -/
def property (c : Choice) (key flags : BitVec 32) : List UInt8 :=
  toLe 4 key.toNat ++ toLe 4 flags.toNat ++ c.tree.bytes

/-- **The pairs for which the filter of `c₁` by `c₂` is the intersection**, together with the exchanged
pair. -/
structure Meets (c₁ c₂ : Choice) : Prop where
  /-- A listed value that is compared equal to one of the other list is in that list. -/
  lists : c₁.Listed → c₂.Listed → ∀ v ∈ c₁.vals, ∀ w ∈ c₂.vals, v.compare w = 0 → c₂.Admits v
  /-- The first listed value that is compared equal to the default of a range is in the range, if
  another one is and the step can be checked. -/
  default : c₁.Listed → c₂.Ranged →
    (∀ v ∈ c₁.vals, ¬ rangeRes v.kind.number c₂.alternatives v.body < 0) →
    (∃ v ∈ c₁.vals, c₂.Admits v) →
    ∀ a, (c₁.vals.find? fun v => v.compare c₂.default = 0) = some a → c₂.Admits a
  /-- Between the inner bounds there are only multiples of the steps. -/
  ranges : c₁.Ranged → c₂.Ranged → ∀ x : Scalar, x.Ordered → c₁.withoutStep.Admits x →
    c₂.withoutStep.Admits x → c₁.Admits x ∧ c₂.Admits x
  /-- If a number and a mask have bits in common, the number is one of them alone. -/
  bits : ∀ v w, c₁ = .none v → c₂ = .flags w → v.kind ≠ .id → ∀ x : Scalar, x.Ordered →
    x.BitsOf v → x.BitsOf w → x.Same v

theorem default_mem (c : Choice) : c.default ∈ c.vals := by
  cases c <;> exact mem_cons_self

end Choice

/-! ## Sets of values -/

namespace Scalar

theorem cross_mul {a b c d e f : ℕ} (hb : 0 < b) (h₁ : a * b = c * d) (h₂ : c * e = f * b) :
    a * e = f * d := by
  refine Nat.eq_of_mul_eq_mul_left hb ?_
  calc b * (a * e) = a * b * e := by rw [Nat.mul_comm a b, Nat.mul_assoc]
    _ = c * e * d := by rw [h₁, Nat.mul_right_comm]
    _ = b * (f * d) := by rw [h₂, Nat.mul_comm f, Nat.mul_assoc]

theorem Same.trans {u : Scalar} (h : u.Same v) (h' : v.Same w) (hv : v.Ordered) : u.Same w := by
  cases u with
  | fraction n d =>
    cases v with
    | fraction n' d' =>
      cases w with
      | fraction n'' d'' => exact cross_mul (toNat_pos_of_ne_zero hv) h h'
      | _ => cases h'
    | _ => cases h
  | _ =>
    cases v <;> cases h
    exact h'

theorem Between.congr {min max : Scalar} (h : v.Same w) (hv : v.Ordered) (hw : w.Ordered)
    (hbetween : w.Between min max) : v.Between min max := by
  obtain ⟨hkind, hkey⟩ := h.key_eq hv hw
  obtain ⟨hmin, hlow, hhigh⟩ := hbetween
  exact ⟨hkind.trans hmin, hkey ▸ hlow, hkey ▸ hhigh⟩

theorem MultipleOf.congr {step : Scalar} (h : v.Same w) (hw : w.Ordered)
    (hmultiple : w.MultipleOf step) : v.MultipleOf step := by
  cases v with
  | fraction n d =>
    cases w with
    | fraction n' d' =>
      cases step with
      | fraction n'' d'' =>
        obtain ⟨k, hk⟩ := hmultiple
        exact ⟨k, cross_mul (toNat_pos_of_ne_zero hw) h hk⟩
      | _ => cases hmultiple
    | _ => cases h
  | _ =>
    cases w <;> cases h
    exact hmultiple

end Scalar

namespace Choice

variable {c : Choice}

theorem Valid.admits_enum {d : Scalar} {vs : List Scalar} (h : Valid (.enum d vs)) (x : Scalar) :
    Admits (.enum d vs) x ↔ ∃ v ∈ d :: vs, x.Same v := by
  constructor
  · rintro ⟨v, hv, hsame⟩
    exact ⟨v, mem_cons_of_mem d hv, hsame⟩
  · rintro ⟨v, hv, hsame⟩
    rcases mem_cons.mp hv with rfl | hv
    · obtain ⟨w, hw, hdefault⟩ := h.default
      exact ⟨w, hw, hsame.trans hdefault (h.ordered _ mem_cons_self)⟩
    · exact ⟨v, hv, hsame⟩

theorem Valid.admits_kind (h : c.Valid) {x : Scalar} (hx : x.Ordered) (hadmits : c.Admits x) :
    x.kind = c.default.kind := by
  cases c with
  | none v => exact (Scalar.Same.key_eq hadmits hx (h.ordered v mem_cons_self)).1
  | enum d vs =>
    obtain ⟨v, hv, hsame⟩ := hadmits
    have hmem : v ∈ (Choice.enum d vs).vals := mem_cons_of_mem d hv
    exact (hsame.key_eq hx (h.ordered v hmem)).1.trans (h.kind v hmem)
  | range d min max => exact hadmits.1.trans (h.kind min (by simp [vals]))
  | step d min max s => exact hadmits.1.1.trans (h.kind min (by simp [vals]))
  | flags v =>
    cases x with
    | int _ | long _ | id _ =>
      cases v <;> first | exact hadmits.elim | rfl
    | _ => exact hadmits.elim

theorem Admits.congr_range (h : v.Same w) (hv : v.Ordered) (hw : w.Ordered)
    (hc : c.Ranged) (hadmits : c.Admits w) : c.Admits v := by
  cases c with
  | range d min max => exact Scalar.Between.congr h hv hw hadmits
  | step d min max s => exact ⟨hadmits.1.congr h hv hw, hadmits.2.congr h hw⟩
  | none _ | enum _ _ | flags _ => rcases hc with hc | hc <;> cases hc

end Choice

end PipeWireAO.Pod
