import Mathlib.Data.List.Induction
import Mathlib.Data.Nat.GCD.Basic

/-!
# The best rate

`find_best_rate` chooses one of the allowed rates for a desired one. It prefers a rate that is not
below the desired one, and, up to a limit, one that has a large common divisor with it. The limit is
computed with 32 bits: for a rate above a third of that range it is smaller than the rate, and the
common divisors are not looked at.
-/

namespace PipeWireAO.Scheduler

open List

/-! ## The passes over the allowed rates -/

/-- `struct rate_info` -/
structure RateInfo where
  (rate gcd diff : ℕ)

def calcGcd (a b : ℕ) : ℕ := if b = 0 then a else calcGcd b (a % b)
termination_by b
decreasing_by exact Nat.mod_lt a (by omega)

theorem calcGcd_eq (a b : ℕ) : calcGcd a b = a.gcd b := by
  induction a, b using calcGcd.induct with
  | case1 a => rw [calcGcd, if_pos rfl, Nat.gcd_zero_right]
  | case2 a b hb ih => rw [calcGcd, if_neg hb, ih, Nat.gcd_comm, ← Nat.gcd_rec, Nat.gcd_comm]

/-- What `find_best_rate` notes about a rate. Below `2 ^ 31`, the signed difference is exact. -/
def rateInfo (rate r : ℕ) : RateInfo := ⟨r, calcGcd rate r, ((rate : Int) - r).natAbs⟩

/-- A pass: the rates that it looks at, and when it replaces the best one by another. -/
structure Pass where
  allowed : RateInfo → Bool
  worse : RateInfo → RateInfo → Bool

/-- `update_nearest_gcd` -/
def nearestGcd (best i : RateInfo) : Bool :=
  best.gcd < i.gcd || best.gcd = i.gcd && i.diff < best.diff

/-- `update_nearest_rate` -/
def nearestRate (best i : RateInfo) : Bool := i.diff < best.diff

/-- `update_highest_rate` -/
def highestRate (best i : RateInfo) : Bool := best.rate < i.rate

/-- The best one of the rates of a pass, or 0. -/
def update (worse : RateInfo → RateInfo → Bool) (info : List RateInfo) : RateInfo :=
  info.foldl (fun best i => if best.rate = 0 || worse best i then i else best) ⟨0, 0, 0⟩

/-- The limit of upsampling, before it is cut to 32 bits. -/
def upsampling (rate default : ℕ) : ℕ :=
  if rate < default / 2 then default else if rate < default then default * 2 else rate * 3

/-- The passes of `find_best_rate`. -/
def passes (rate default : ℕ) : List Pass :=
  [⟨fun i => rate ≤ i.rate && i.rate ≤ upsampling rate default % 2 ^ 32, nearestGcd⟩,
    ⟨fun i => rate ≤ i.rate, nearestRate⟩, ⟨fun i => 44100 ≤ i.rate, nearestGcd⟩,
    ⟨fun _ => true, highestRate⟩]

/-- The first pass that finds a rate. -/
def firstRate (info : List RateInfo) (default : ℕ) : List Pass → ℕ
  | [] => default
  | p :: ps =>
    let best := update p.worse (info.filter p.allowed)
    if best.rate ≠ 0 then best.rate else firstRate info default ps

def findBestRate (rates : List ℕ) (rate default : ℕ) : ℕ :=
  firstRate (rates.map (rateInfo rate)) default (passes rate default)

/-! ## What a pass finds -/

/-- The comparison of a pass is a strict order. -/
structure Strict (worse : RateInfo → RateInfo → Bool) : Prop where
  irrefl : ∀ i, worse i i = false
  trans : ∀ {i j k}, worse i j = true → worse j k = true → worse i k = true

theorem update_spec {worse : RateInfo → RateInfo → Bool} {info : List RateInfo}
    (hworse : Strict worse) (hpos : ∀ i ∈ info, i.rate ≠ 0) (hne : info ≠ []) :
    update worse info ∈ info ∧ ∀ i ∈ info, worse (update worse info) i = false := by
  induction info using List.reverseRecOn with
  | nil => exact absurd rfl hne
  | append_singleton info i ih =>
    have hupdate : update worse (info ++ [i]) = if (update worse info).rate = 0 ||
        worse (update worse info) i then i else update worse info := by
      rw [update, foldl_append]
      rfl
    rw [hupdate]
    by_cases hnil : info = []
    · subst hnil
      exact ⟨mem_cons_self, fun j hj => mem_singleton.mp hj ▸ hworse.irrefl i⟩
    obtain ⟨hmem, hbest⟩ := ih (fun j hj => hpos j (mem_append_left _ hj)) hnil
    have hzero := hpos _ (mem_append_left [i] hmem)
    cases hnew : worse (update worse info) i with
    | false =>
      rw [if_neg (by simp [hzero])]
      exact ⟨mem_append_left _ hmem, forall_mem_append.mpr ⟨hbest, forall_mem_singleton.mpr hnew⟩⟩
    | true =>
      rw [if_pos (by simp)]
      refine ⟨mem_append_right _ mem_cons_self, fun j hj => ?_⟩
      obtain hj | hj := mem_append.mp hj
      · -- a rate that is better than the new one was better than the old one
        by_contra h
        exact absurd (hworse.trans hnew (eq_true_of_ne_false h)) (by simp [hbest j hj])
      · exact mem_singleton.mp hj ▸ hworse.irrefl i

/-- The rate that the passes choose: the best one for the first pass that looks at any. -/
inductive Chosen (info : List RateInfo) (b : RateInfo) : List Pass → Prop
  | here {p ps} (hmem : b ∈ info) (hallowed : p.allowed b = true)
      (hbest : ∀ i ∈ info, p.allowed i = true → p.worse b i = false) : Chosen info b (p :: ps)
  | later {p ps} (hnone : ∀ i ∈ info, p.allowed i = false) (h : Chosen info b ps) :
      Chosen info b (p :: ps)

variable {info info' : List RateInfo} {ps : List Pass} {rates : List ℕ} {rate default : ℕ}

theorem firstRate_chosen (hps : ∀ p ∈ ps, Strict p.worse) (hpos : ∀ i ∈ info, i.rate ≠ 0) :
    (∃ b, Chosen info b ps ∧ firstRate info default ps = b.rate) ∨
      ∀ p ∈ ps, ∀ i ∈ info, p.allowed i = false := by
  induction ps with
  | nil => exact .inr nofun
  | cons p ps ih =>
    obtain ⟨hp, hps⟩ := forall_mem_cons.mp hps
    rw [firstRate]
    by_cases hnil : info.filter p.allowed = []
    · rw [hnil, if_neg (by simp [update])]
      have hnone : ∀ i ∈ info, p.allowed i = false := by simpa using filter_eq_nil_iff.mp hnil
      obtain ⟨b, hb, heq⟩ | hall := ih hps
      · exact .inl ⟨b, .later hnone hb, heq⟩
      · exact .inr (forall_mem_cons.mpr ⟨hnone, hall⟩)
    · obtain ⟨hmem, hbest⟩ := update_spec hp (fun i hi => hpos i (mem_filter.mp hi).1) hnil
      obtain ⟨hmem, hallowed⟩ := mem_filter.mp hmem
      refine .inl ⟨_, .here hmem hallowed fun i hi h => hbest i (mem_filter.mpr ⟨hi, h⟩), ?_⟩
      exact if_pos (hpos _ hmem)

/-- The comparisons leave one rate only. -/
def Determined (info : List RateInfo) : List Pass → Prop
  | [] => True
  | p :: ps => (∀ i ∈ info, ∀ j ∈ info, p.allowed i = true → p.allowed j = true →
      p.worse i j = false → p.worse j i = false → i.rate = j.rate) ∧
    ((∀ i ∈ info, p.allowed i = false) → Determined info ps)

theorem Chosen.unique {b b' : RateInfo} (hsame : ∀ i, i ∈ info' ↔ i ∈ info) (hd : Determined info ps)
    (h : Chosen info b ps) (h' : Chosen info' b' ps) : b.rate = b'.rate := by
  induction ps with
  | nil => cases h
  | cons p ps ih =>
    cases h with
    | here hmem hallowed hbest =>
      cases h' with
      | here hmem' hallowed' hbest' =>
        exact hd.1 b hmem b' ((hsame b').mp hmem') hallowed hallowed'
          (hbest b' ((hsame b').mp hmem') hallowed') (hbest' b ((hsame b).mpr hmem) hallowed)
      | later hnone => exact absurd hallowed (by simp [hnone b ((hsame b).mpr hmem)])
    | later hnone h =>
      cases h' with
      | here hmem' hallowed' => exact absurd hallowed' (by simp [hnone b' ((hsame b').mp hmem')])
      | later _ h' => exact ih (hd.2 hnone) h h'

theorem mem_info {i : RateInfo} (h : i ∈ rates.map (rateInfo rate)) :
    i.rate ∈ rates ∧ i = rateInfo rate i.rate := by
  obtain ⟨r, hr, rfl⟩ := mem_map.mp h
  exact ⟨hr, rfl⟩

theorem passes_determined : Determined (rates.map (rateInfo rate)) (passes rate default) := by
  have hdiff : ∀ i ∈ rates.map (rateInfo rate), i.diff = ((rate : Int) - i.rate).natAbs :=
    fun i hi => congrArg RateInfo.diff (mem_info hi).2
  refine ⟨fun i hi j hj => ?_, fun _ => ⟨fun i hi j hj => ?_, fun hbelow => ⟨fun i hi j hj => ?_,
    fun _ => ⟨fun i hi j hj => ?_, fun _ => trivial⟩⟩⟩⟩
  all_goals
    have hi' := hdiff i hi
    have hj' := hdiff j hj
    simp only [nearestGcd, nearestRate, highestRate, Bool.or_eq_false_iff, Bool.and_eq_false_iff,
      decide_eq_false_iff_not, Bool.and_eq_true, decide_eq_true_eq]
  · omega
  · omega
  · -- nothing is above the rate here
    have hi := hbelow i hi
    have hj := hbelow j hj
    simp only [decide_eq_false_iff_not] at hi hj
    omega
  · omega

theorem passes_strict : ∀ p ∈ passes rate default, Strict p.worse := by
  simp only [passes, forall_mem_cons, not_mem_nil, false_imp_iff, implies_true, and_true]
  refine ⟨?_, ?_, ?_, ?_⟩
  all_goals
    refine ⟨fun i => by simp [nearestGcd, nearestRate, highestRate], fun h h' => ?_⟩
    simp only [nearestGcd, nearestRate, highestRate, Bool.or_eq_true, Bool.and_eq_true,
      decide_eq_true_eq] at h h' ⊢
    omega

theorem findBestRate_chosen (rate default : ℕ) (hne : rates ≠ []) (hpos : ∀ r ∈ rates, 0 < r) :
    ∃ b, Chosen (rates.map (rateInfo rate)) b (passes rate default) ∧
      findBestRate rates rate default = b.rate := by
  refine (firstRate_chosen passes_strict fun i hi => ?_).resolve_right fun hnone => ?_
  · exact Nat.ne_of_gt (hpos _ (mem_info hi).1)
  · obtain ⟨r, hr⟩ := exists_mem_of_ne_nil rates hne
    have hlast := hnone ⟨fun _ => true, highestRate⟩ (by simp [passes]) _ (mem_map_of_mem hr)
    cases hlast

theorem Chosen.mem {b : RateInfo} (h : Chosen info b ps) : b ∈ info := by
  induction h with
  | here hmem => exact hmem
  | later _ _ ih => exact ih

theorem Chosen.above {b : RateInfo} (h : Chosen (rates.map (rateInfo rate)) b (passes rate default))
    {r : ℕ} (hr : r ∈ rates) (hle : rate ≤ r) : rate ≤ b.rate ∧
      (r ≤ upsampling rate default % 2 ^ 32 → b.rate ≤ upsampling rate default % 2 ^ 32 ∧
        nearestGcd b (rateInfo rate r) = false) ∧
      (upsampling rate default % 2 ^ 32 < rate → nearestRate b (rateInfo rate r) = false) := by
  have hmem : rateInfo rate r ∈ rates.map (rateInfo rate) := mem_map_of_mem hr
  cases h with
  | here _ hallowed hbest =>
    simp only [Bool.and_eq_true, decide_eq_true_eq] at hallowed hbest
    exact ⟨hallowed.1, fun hlim => ⟨hallowed.2, hbest _ hmem ⟨hle, hlim⟩⟩, fun hlim => by omega⟩
  | later hnone h =>
    have hallowed : (decide (rate ≤ r) && decide (r ≤ upsampling rate default % 2 ^ 32)) = false :=
      hnone _ hmem
    rw [decide_eq_true hle, Bool.true_and] at hallowed
    have hlim := of_decide_eq_false hallowed
    cases h with
    | here _ hallowed hbest =>
      simp only [decide_eq_true_eq] at hallowed hbest
      exact ⟨hallowed, fun h => absurd h hlim, fun _ => hbest _ hmem hle⟩
    | later hnone h => exact absurd hle (of_decide_eq_false (hnone _ hmem))

/-- The nearest allowed rate that is not below the desired one has the largest common divisor with it
among those. -/
def NearestDivides (rates : List ℕ) (rate : ℕ) : Prop :=
  ∀ near ∈ rates, rate ≤ near → (∀ r ∈ rates, rate ≤ r → near ≤ r) →
    ∀ r ∈ rates, rate ≤ r → rate.gcd r ≤ rate.gcd near

/-- **The best rate.** It is an allowed rate, the desired one if allowed. Up to the limit of
upsampling it has the largest common divisor with the desired rate, and is the nearest of those,
exactly if the limit fits in 32 bits or the nearest rate has the largest common divisor anyway. The
order of the allowed rates does not matter. -/
theorem best_rate (rates : List ℕ) (rate default : ℕ) (hne : rates ≠ [])
    (hrates : ∀ r ∈ rates, 0 < r ∧ r < 2 ^ 31) (hrate : 0 < rate ∧ rate < 2 ^ 31)
    (hdefault : 0 < default ∧ default < 2 ^ 31) :
    ∃ best ∈ rates, (∀ rates', rates'.Perm rates → findBestRate rates' rate default = best) ∧
      (rate ∈ rates → best = rate) ∧ (∀ r ∈ rates, rate ≤ r → rate ≤ best) ∧
      ((∀ r ∈ rates, rate ≤ r → r ≤ upsampling rate default →
        best ≤ upsampling rate default ∧ rate.gcd r ≤ rate.gcd best ∧
        (rate.gcd r = rate.gcd best → best ≤ r)) ↔
      rate < default ∨ 3 * rate < 2 ^ 32 ∨ NearestDivides rates rate) := by
  have hpos : ∀ r ∈ rates, 0 < r := fun r hr => (hrates r hr).1
  obtain ⟨b, hb, -⟩ := findBestRate_chosen rate default hne hpos
  obtain ⟨hmem, hinfo⟩ := mem_info hb.mem
  have hgcd : b.gcd = rate.gcd b.rate := (congrArg RateInfo.gcd hinfo).trans (calcGcd_eq _ _)
  have hdiff : b.diff = ((rate : Int) - b.rate).natAbs := congrArg RateInfo.diff hinfo
  refine ⟨b.rate, hmem, fun rates' hperm => ?_, fun hr => ?_, fun r hr hle => (hb.above hr hle).1, ?_⟩
  · have hne' : rates' ≠ [] := by
      rintro rfl
      exact hne (nil_perm.mp hperm)
    obtain ⟨b', hb', heq'⟩ := findBestRate_chosen rate default hne'
      fun r hr => hpos r (hperm.mem_iff.mp hr)
    rw [heq']
    exact (hb.unique (fun i => (hperm.map (rateInfo rate)).mem_iff) passes_determined hb').symm
  · obtain ⟨-, hnear, hfar⟩ := hb.above hr (Nat.le_refl rate)
    have hdvd : rate.gcd b.rate ≤ rate := Nat.gcd_le_left _ hrate.1
    simp only [nearestGcd, nearestRate, rateInfo, calcGcd_eq, Nat.gcd_self, hgcd, hdiff,
      Bool.or_eq_false_iff, Bool.and_eq_false_iff, decide_eq_false_iff_not] at hnear hfar
    omega
  by_cases hfits : rate < default ∨ 3 * rate < 2 ^ 32
  · refine iff_of_true (fun r hr hle hlim => ?_) (or_assoc.mp (.inl hfits))
    have hlt : upsampling rate default < 2 ^ 32 := by
      unfold upsampling
      split_ifs <;> omega
    rw [← Nat.mod_eq_of_lt hlt] at hlim
    obtain ⟨habove, hnear, -⟩ := hb.above hr hle
    obtain ⟨hle', hnear⟩ := hnear hlim
    rw [Nat.mod_eq_of_lt hlt] at hle'
    simp only [nearestGcd, rateInfo, calcGcd_eq, hgcd, hdiff, Bool.or_eq_false_iff,
      Bool.and_eq_false_iff, decide_eq_false_iff_not] at hnear
    omega
  · rw [← or_assoc, or_iff_right hfits]
    have hlimit : upsampling rate default = rate * 3 := by
      unfold upsampling
      split_ifs <;> omega
    -- the limit is cut to a number below the rate, so the nearest rate is taken
    have hnearest : ∀ r ∈ rates, rate ≤ r → rate ≤ b.rate ∧ b.rate ≤ r := by
      intro r hr hle
      obtain ⟨habove, -, hfar⟩ := hb.above hr hle
      have hcut : rate * 3 / 2 ^ 32 = 1 := by omega
      have hfar := hfar (by rw [hlimit]; omega)
      simp only [nearestRate, rateInfo, hdiff, decide_eq_false_iff_not] at hfar
      omega
    constructor
    · intro h near hnear hle hleast r hr hler
      have heq : near = b.rate := le_antisymm (hleast _ hmem (hnearest near hnear hle).1)
        (hnearest near hnear hle).2
      have := hrates r hr
      exact heq ▸ (h r hr hler (by omega)).2.1
    · intro h r hr hle _
      obtain ⟨habove, hler⟩ := hnearest r hr hle
      have := hrates b.rate hmem
      exact ⟨by omega, h b.rate hmem habove (fun r hr hle => (hnearest r hr hle).2) r hr hle,
        fun _ => hler⟩

/-- 1500000000 is an allowed rate, though three times that rate does not fit in 32 bits. -/
theorem best_rate_exact : NearestDivides [2000000000, 1500000000] 1500000000 ∧
    ∃ best, findBestRate [1500000000, 2000000000] 1500000000 48000 = best ∧ best = 1500000000 ∧
      Nat.gcd 1500000000 2000000000 ≤ Nat.gcd 1500000000 best := by
  have hdivides : NearestDivides [2000000000, 1500000000] 1500000000 := by
    intro near hnear hle hleast r hr _
    have := hleast 1500000000 (by simp) le_rfl
    obtain rfl : near = 1500000000 := by omega
    rw [Nat.gcd_self]
    exact Nat.gcd_le_left r (by decide)
  obtain ⟨best, -, hperm, hexact, -, hgcd⟩ := best_rate [2000000000, 1500000000] 1500000000 48000
    nofun (by decide) (by decide) (by decide)
  refine ⟨hdivides, best, hperm _ (.swap ..), hexact (by simp), ?_⟩
  exact (hgcd.mpr (.inr (.inr hdivides)) 2000000000 (by simp) (by decide) (by decide)).2.1

/-- Three times the rate does not fit in 32 bits: the nearest rate is chosen, not that with the
largest common divisor. -/
theorem limit_wraps : 2000000000 ≤ upsampling 1500000000 48000 ∧
    findBestRate [1500000001, 2000000000] 1500000000 48000 = 1500000001 ∧
    Nat.gcd 1500000000 1500000001 < Nat.gcd 1500000000 2000000000 := by
  simp [findBestRate, firstRate, passes, update, rateInfo, calcGcd_eq, upsampling, nearestRate]

end PipeWireAO.Scheduler
