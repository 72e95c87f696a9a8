import PipeWireAO.Pod.Compare
import PipeWireAO.Pod.Reading

/-!
# The order of values

What `spa_pod_compare_value` says of the bytes of two values of one type, in terms of the values.
Fractions with the same ratio are one value. Rectangles are ordered by area and width, so that two of
width zero are not told apart.
-/

namespace PipeWireAO.Pod

open List
open Foundation (toLe ofLe length_toLe ofLe_toLe)

/-! ## Integers and bytes -/

theorem cmp_eq_zero {a b : Int} : cmp a b = 0 ↔ a = b := by
  unfold cmp
  constructor
  · intro h
    split_ifs at h with hlt heq
    · exact absurd h (by decide)
    · exact heq
  · intro h
    rw [if_neg (by omega), if_pos h]

theorem cmp_neg {a b : Int} : cmp a b < 0 ↔ a < b := by
  unfold cmp
  split_ifs <;> omega

theorem cmp_pos {a b : Int} : 0 < cmp a b ↔ b < a := by
  unfold cmp
  split_ifs <;> omega

theorem memcmp_eq_zero {xs ys : List UInt8} (hlen : xs.length = ys.length) :
    memcmp xs ys = 0 ↔ xs = ys := by
  induction xs generalizing ys with
  | nil =>
    rw [length_nil] at hlen
    rw [eq_nil_of_length_eq_zero hlen.symm]
    exact ⟨fun _ => rfl, fun _ => rfl⟩
  | cons x xs ih =>
    cases ys with
    | nil => cases hlen
    | cons y ys =>
      rw [memcmp]
      split_ifs with hxy
      · rw [ih (Nat.succ.inj hlen), hxy, List.cons.injEq]
        exact ⟨fun h => ⟨rfl, h⟩, fun h => h.2⟩
      · rw [cmp_eq_zero]
        constructor
        · intro h
          exact absurd (UInt8.toNat_inj.mp (Int.ofNat_inj.mp h)) hxy
        · intro h
          exact absurd (List.cons.inj h).1 hxy

theorem strncmp_eq_zero {xs ys : List UInt8} (hxs : 0 ∉ xs) (hys : 0 ∉ ys) :
    strncmp (xs ++ [0]) (ys ++ [0]) = 0 ↔ xs = ys := by
  have hcmp : ∀ x y : UInt8, x ≠ y → cmp x.toNat y.toNat ≠ 0 := fun x y hne h =>
    hne (UInt8.toNat_inj.mp (Int.ofNat_inj.mp (cmp_eq_zero.mp h)))
  induction xs generalizing ys with
  | nil =>
    cases ys with
    | nil => exact ⟨fun _ => rfl, fun _ => rfl⟩
    | cons y ys =>
      have hne : (0 : UInt8) ≠ y := fun h => hys (h ▸ mem_cons_self)
      rw [nil_append, cons_append, strncmp, if_pos hne]
      exact ⟨fun h => absurd h (hcmp 0 y hne), fun h => by cases h⟩
  | cons x xs ih =>
    have hx : x ≠ 0 := fun h => hxs (h ▸ mem_cons_self)
    cases ys with
    | nil =>
      rw [nil_append, cons_append, strncmp, if_pos hx]
      exact ⟨fun h => absurd h (hcmp x 0 hx), fun h => by cases h⟩
    | cons y ys =>
      rw [cons_append, cons_append, strncmp]
      split_ifs with hxy
      · exact ⟨fun h => absurd h (hcmp x y hxy), fun h => absurd (List.cons.inj h).1 hxy⟩
      · have hrest : strncmp (xs ++ [0]) (ys ++ [0]) = 0 ↔ xs = ys :=
          ih (fun h => hxs (mem_cons_of_mem x h)) fun h => hys (mem_cons_of_mem y h)
        rw [hrest, List.cons.injEq]
        exact ⟨fun h => ⟨not_not.mp hxy, h⟩, fun h => h.2⟩

/-! ## Values by their bytes -/

namespace Scalar

/-- `spa_pod_compare_value`, of two values of the type of the first. -/
def compare (v w : Scalar) : Int := compareValue v.kind.number v.body w.body

theorem take_toLe (k n : ℕ) : (toLe k n).take k = toLe k n :=
  take_of_length_le (length_toLe k n).le

theorem take_pair (x y : BitVec 32) :
    (toLe 4 x.toNat ++ toLe 4 y.toNat).take 8 = toLe 4 x.toNat ++ toLe 4 y.toNat :=
  take_of_length_le (by simp)

theorem truth_inj {a b : Bool} (h : a.toInt = b.toInt) : a = b := by
  cases a <;> cases b <;> first | rfl | exact absurd h (by decide)

theorem compare_bool (a b : Bool) : compare (.bool a) (.bool b) = cmp a.toInt b.toInt := by
  cases a <;> cases b <;> rfl

theorem compare_id (a b : BitVec 32) : compare (.id a) (.id b) = cmp a.toNat b.toNat := by
  simp only [compare, kind, Kind.number, compareValue]
  rw [body, body, take_toLe, take_toLe, ofLe_toLe a.isLt, ofLe_toLe b.isLt]

theorem compare_int (a b : BitVec 32) : compare (.int a) (.int b) = cmp a.toInt b.toInt := by
  simp only [compare, kind, Kind.number, compareValue]
  rw [body, body, take_toLe, take_toLe, word_toLe a (by decide), word_toLe b (by decide)]

theorem compare_long (a b : BitVec 64) : compare (.long a) (.long b) = cmp a.toInt b.toInt := by
  simp only [compare, kind, Kind.number, compareValue]
  rw [body, body, take_toLe, take_toLe, word_toLe a (by decide), word_toLe b (by decide)]

theorem compare_string (s r : List UInt8) :
    compare (.string s) (.string r) = strncmp (s ++ [0]) (r ++ [0]) := rfl

theorem compare_bytes (s r : List UInt8) : compare (.bytes s) (.bytes r) = memcmp s r := rfl

theorem compare_rectangle (w h w' h' : BitVec 32) :
    compare (.rectangle w h) (.rectangle w' h') = compareRectangle (w, h) (w', h') := by
  simp only [compare, kind, Kind.number, compareValue]
  rw [body, body, take_pair, take_pair, wordPair_toLe, wordPair_toLe]

theorem compare_fraction (n d n' d' : BitVec 32) :
    compare (.fraction n d) (.fraction n' d') = compareFraction (n, d) (n', d') := by
  simp only [compare, kind, Kind.number, compareValue]
  rw [body, body, take_pair, take_pair, wordPair_toLe, wordPair_toLe]

/-! ## Equality -/

/-- Two values are the same: fractions by their ratio. -/
def Same : Scalar → Scalar → Prop
  | .fraction n d, .fraction n' d' => n.toNat * d'.toNat = n'.toNat * d.toNat
  | v, w => v = w

theorem Same.refl (v : Scalar) : v.Same v := by cases v <;> rfl

/-- A value whose type has a comparison here; a fraction has a denominator. -/
def Comparable : Scalar → Prop
  | .float _ | .double _ | .fd _ => False
  | .fraction _ d => d ≠ 0
  | _ => True

/-- Rectangles without a width have the same height, which is not compared. -/
def SameHeight : Scalar → Scalar → Prop
  | .rectangle w h, .rectangle w' h' => w = 0 → w' = 0 → h = h'
  | _, _ => True

/-- Two values of one type and one size that are compared equal. -/
def Matches (v w : Scalar) : Prop := v.header = w.header ∧ v.compare w = 0

theorem compareRectangle_eq_zero {w h w' h' : BitVec 32} : compareRectangle (w, h) (w', h') = 0 ↔
      w.toNat * h.toNat = w'.toNat * h'.toNat ∧ w = w' := by
  have hcmp : cmp w.toNat w'.toNat = 0 ↔ w = w' := by
    rw [cmp_eq_zero, Int.ofNat_inj, BitVec.toNat_inj]
  unfold compareRectangle
  dsimp only
  split_ifs with hlt hgt
  · exact ⟨fun heq => absurd heq (by decide), fun heq => absurd heq.1 (Nat.ne_of_lt hlt)⟩
  · exact ⟨fun heq => absurd heq (by decide), fun heq => absurd heq.1.symm (Nat.ne_of_lt hgt)⟩
  · rw [hcmp]
    exact ⟨fun heq => ⟨by omega, heq⟩, fun heq => heq.2⟩

theorem compareFraction_eq_zero {n d n' d' : BitVec 32} :
    compareFraction (n, d) (n', d') = 0 ↔ n.toNat * d'.toNat = n'.toNat * d.toNat := by
  rw [compareFraction, cmp_eq_zero, Int.ofNat_inj]

/-- **A value is compared equal to itself.** -/
theorem compare_self {v : Scalar} (hv : v.Comparable) (hok : v.Ok) : v.compare v = 0 := by
  cases v with
  | bool a => rw [compare_bool, cmp_eq_zero]
  | id a => rw [compare_id, cmp_eq_zero]
  | int a => rw [compare_int, cmp_eq_zero]
  | long a => rw [compare_long, cmp_eq_zero]
  | string s => rw [compare_string, strncmp_eq_zero hok hok]
  | bytes s => rw [compare_bytes, memcmp_eq_zero rfl]
  | rectangle w h =>
    rw [compare_rectangle, compareRectangle_eq_zero]
    exact ⟨rfl, rfl⟩
  | fraction n d => rw [compare_fraction, compareFraction_eq_zero]
  | float a | double a | fd a => exact hv.elim

theorem Kind.number_inj {k k' : Kind} (h : k.number = k'.number) : k = k' := by
  cases k <;> cases k' <;> first | rfl | exact absurd h (by decide)

theorem Same.sameHeight {v w : Scalar} (h : v.Same w) : v.SameHeight w := by
  cases v with
  | rectangle _ _ =>
    cases h
    exact fun _ _ => rfl
  | _ => trivial

/-- **Values that are compared equal are the same**, but for the height of rectangles without a
width. -/
theorem Matches.same {v w : Scalar} (h : v.Matches w) (hv : v.Comparable) (hheight : v.SameHeight w)
    (hok : v.Ok) (hok' : w.Ok) : v.Same w := by
  obtain ⟨hheader, hzero⟩ := h
  have hkind : v.kind = w.kind := Kind.number_inj (congrArg Header.type hheader)
  cases v with
  | bool a =>
    cases w <;> cases hkind
    rw [compare_bool, cmp_eq_zero] at hzero
    exact congrArg _ (truth_inj hzero)
  | id a =>
    cases w <;> cases hkind
    rw [compare_id, cmp_eq_zero, Int.ofNat_inj, BitVec.toNat_inj] at hzero
    exact congrArg _ hzero
  | int a =>
    cases w <;> cases hkind
    rw [compare_int, cmp_eq_zero, BitVec.toInt_inj] at hzero
    exact congrArg _ hzero
  | long a =>
    cases w <;> cases hkind
    rw [compare_long, cmp_eq_zero, BitVec.toInt_inj] at hzero
    exact congrArg _ hzero
  | string s =>
    cases w <;> cases hkind
    rw [compare_string, strncmp_eq_zero hok hok'] at hzero
    exact congrArg _ hzero
  | bytes s =>
    cases w <;> cases hkind
    exact congrArg _ ((memcmp_eq_zero (congrArg Header.size hheader)).mp hzero)
  | rectangle a b =>
    cases w <;> cases hkind
    rw [compare_rectangle, compareRectangle_eq_zero] at hzero
    obtain ⟨harea, rfl⟩ := hzero
    by_cases ha : a = 0
    · exact congrArg _ (hheight ha ha)
    · have hpos : 0 < a.toNat := Nat.pos_of_ne_zero fun h0 => ha (BitVec.eq_of_toNat_eq h0)
      exact congrArg _ (BitVec.eq_of_toNat_eq (Nat.eq_of_mul_eq_mul_left hpos harea))
  | fraction n d =>
    cases w <;> cases hkind
    rw [compare_fraction, compareFraction_eq_zero] at hzero
    exact hzero
  | float a | double a | fd a => exact hv.elim

end Scalar

end PipeWireAO.Pod
