import Mathlib.Data.Nat.Bitwise
import Mathlib.Tactic.Ring

/-!
# Words in memory

A word of `w` bytes, least significant byte first, and the rounding of a word to a multiple of a
power of two by masks, at the width of the word.
-/

namespace Foundation

/-- The `w` bytes of `n`, least significant first. -/
def toLe : ℕ → ℕ → List UInt8
  | 0, _ => []
  | w + 1, n => UInt8.ofNat (n % 256) :: toLe w (n / 256)

/-- The number with the given bytes, least significant first. -/
def ofLe : List UInt8 → ℕ
  | [] => 0
  | b :: bs => b.toNat + 256 * ofLe bs

@[simp] theorem length_toLe (w n : ℕ) : (toLe w n).length = w := by
  induction w generalizing n with
  | zero => rfl
  | succ w ih => rw [toLe, List.length_cons, ih]

theorem ofLe_toLe {w n : ℕ} (h : n < 256 ^ w) : ofLe (toLe w n) = n := by
  induction w generalizing n with
  | zero =>
    rw [pow_zero, Nat.lt_one_iff] at h
    subst h
    rfl
  | succ w ih =>
    have hbyte : (UInt8.ofNat (n % 256)).toNat = n % 256 := by
      exact Nat.mod_mod n 256
    have hrest : n / 256 < 256 ^ w := by
      rw [Nat.div_lt_iff_lt_mul (by decide)]
      rwa [pow_succ] at h
    rw [toLe, ofLe, hbyte, ih hrest]
    exact Nat.mod_add_div n 256

theorem toLe_ofLe (bs : List UInt8) : toLe bs.length (ofLe bs) = bs := by
  induction bs with
  | nil => rfl
  | cons b bs ih =>
    have hb : b.toNat < 256 := b.toNat_lt
    have hmod : (b.toNat + 256 * ofLe bs) % 256 = b.toNat := by omega
    have hdiv : (b.toNat + 256 * ofLe bs) / 256 = ofLe bs := by omega
    rw [ofLe, List.length_cons, toLe, hmod, hdiv, ih, UInt8.ofNat_toNat]

theorem ofLe_lt (bs : List UInt8) : ofLe bs < 256 ^ bs.length := by
  induction bs with
  | nil => exact Nat.one_pos
  | cons b bs ih =>
    have hb : b.toNat < 256 := b.toNat_lt
    rw [ofLe, List.length_cons, pow_succ]
    omega

/-- Rounding up to a multiple of `2 ^ k`, in a word of `w` bits: `((n - 1) | (2 ^ k - 1)) + 1`. -/
def roundUp (w k n : ℕ) : ℕ :=
  (((if n = 0 then 2 ^ w - 1 else n - 1) ||| (2 ^ k - 1)) + 1) % 2 ^ w

theorem or_mask (k n : ℕ) : n ||| (2 ^ k - 1) = 2 ^ k * (n / 2 ^ k) + (2 ^ k - 1) := by
  have hmask : 2 ^ k - 1 < 2 ^ k := Nat.sub_lt (Nat.two_pow_pos k) Nat.one_pos
  -- the low bits of `n` are absorbed by the mask, the others are not touched by it
  have hlow : n % 2 ^ k ||| (2 ^ k - 1) = 2 ^ k - 1 := by
    apply Nat.eq_of_testBit_eq
    intro i
    by_cases hi : i < k <;> simp [hi]
  conv_lhs => rw [← Nat.div_add_mod n (2 ^ k)]
  rw [Nat.two_pow_add_eq_or_of_lt (Nat.mod_lt _ (Nat.two_pow_pos k)), Nat.or_assoc, hlow,
    ← Nat.two_pow_add_eq_or_of_lt hmask]

/-- **Rounding up** by masks is rounding up, unless it leaves the word. -/
theorem roundUp_eq {w k n : ℕ} (hk : k ≤ w) (h : n + 2 ^ k ≤ 2 ^ w) :
    roundUp w k n = 2 ^ k * ((n + (2 ^ k - 1)) / 2 ^ k) := by
  have hpos : 0 < 2 ^ k := Nat.two_pow_pos k
  rcases Nat.eq_zero_or_pos n with rfl | hn
  · -- `0 - 1` is the largest word, all of whose bits are set
    have hdvd : 2 ^ k ∣ 2 ^ w := pow_dvd_pow 2 hk
    obtain ⟨q, hq⟩ := hdvd
    have hqpos : 0 < q := by
      rcases Nat.eq_zero_or_pos q with rfl | hq'
      · omega
      · exact hq'
    have hlast : (2 ^ w - 1) / 2 ^ k = q - 1 := by
      have : 2 ^ w - 1 = 2 ^ k * (q - 1) + (2 ^ k - 1) := by
        rw [hq, Nat.mul_sub, Nat.mul_one]
        omega
      rw [this, Nat.mul_add_div hpos, Nat.div_eq_of_lt (Nat.sub_lt hpos Nat.one_pos), Nat.add_zero]
    rw [roundUp, if_pos rfl, or_mask, hlast,
      Nat.zero_add, Nat.div_eq_of_lt (Nat.sub_lt hpos Nat.one_pos), Nat.mul_zero, Nat.add_assoc,
      Nat.sub_add_cancel hpos, ← Nat.mul_succ, Nat.succ_eq_add_one, Nat.sub_add_cancel hqpos, ← hq,
      Nat.mod_self]
  · have hdiv : (n + (2 ^ k - 1)) / 2 ^ k = (n - 1) / 2 ^ k + 1 := by
      rw [show n + (2 ^ k - 1) = n - 1 + 2 ^ k by omega, Nat.add_div_right _ hpos]
    have hle : 2 ^ k * ((n - 1) / 2 ^ k) ≤ n - 1 := Nat.mul_div_le _ _
    rw [roundUp, if_neg (by omega), or_mask, hdiv, Nat.add_assoc, Nat.sub_add_cancel hpos, Nat.mul_add,
      Nat.mul_one, Nat.mod_eq_of_lt]
    omega

end Foundation
