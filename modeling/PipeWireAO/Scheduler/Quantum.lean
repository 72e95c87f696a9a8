import Mathlib.Tactic.Ring
import PipeWireAO.Scheduler.Rate

/-!
# The quantum of a driver

The last part of `context_recalc_graph` computes the rate and the quantum of each driver from what its
followers ask for. The limits of the quantum are scaled with the rate, the smallest latencies of the
followers applied, and the outcome is clamped and rounded down to a power of two.
-/

namespace PipeWireAO.Scheduler

open List

/-- `struct spa_fraction` -/
structure Fraction where
  (num denom : ℕ)

/-- What a follower asks for. -/
structure Follower where
  (moved active lockQuantum lockRate : Bool)
  (forceQuantum forceRate stamp : ℕ)
  (latency maxLatency rate : Fraction)

/-- `struct settings`. A clock rate of 0 is replaced by the default. -/
structure Settings where
  clockRate : ℕ
  clockRates : List ℕ
  (clockQuantum clockMinQuantum clockMaxQuantum clockForceRate clockForceQuantum : ℕ)
  (quantumFloor quantumLimit : ℕ)
  (powerOfTwoQuantum rateUpdateHard : Bool)
  clockRate_pos : 0 < clockRate
  quantumLimit_lt : quantumLimit < 2 ^ 32

/-- A driver and its clock. The states of a node are the numbers from -1 to 3. -/
structure Driver where
  (driving exported runnable pauseOnIdle : Bool)
  followers : List Follower
  state : Int
  targetRate : Fraction
  targetQuantum : ℕ
  (forcedRate forcedQuantum targetPending needResume : Bool)
  clockRate : Fraction
  clockDuration : ℕ

/-! ## What the followers ask for -/

/-- The smaller one of two fractions, if both are given; `fraction_compare` does not overflow. -/
def smaller (best f : Fraction) : Fraction :=
  if best.denom = 0 ∨ 0 < f.denom ∧ f.num * best.denom < best.num * f.denom then f else best

def smallest (f : Follower → Fraction) (followers : List Follower) : Fraction :=
  followers.foldl (fun best s => smaller best (f s)) ⟨0, 0⟩

/-- The value of the last follower that forces one. -/
def lastForced (force : Follower → ℕ) (followers : List Follower) : Option ℕ :=
  (followers.foldl (fun (best : ℕ × Option ℕ) s =>
    if 0 < force s && best.1 < s.stamp then (s.stamp, some (force s)) else best) (0, none)).2

/-- `SPA_SCALE32` -/
def scale32 (val num denom : ℕ) : ℕ := val * num / denom % 2 ^ 32

/-- `SPA_CLAMP` -/
def clamp (v low high : ℕ) : ℕ := min (max v low) high

def flp2 (x : ℕ) : ℕ :=
  let x := x ||| x >>> 1
  let x := x ||| x >>> 2
  let x := x ||| x >>> 4
  let x := x ||| x >>> 8
  let x := x ||| x >>> 16
  x - x >>> 1

namespace Settings

variable (st : Settings) (followers : List Follower) (rate : ℕ)

def forceQuantum : Option ℕ :=
  if st.clockForceQuantum ≠ 0 then some st.clockForceQuantum
  else lastForced Follower.forceQuantum followers

def forceRate : Option ℕ :=
  if st.clockForceRate ≠ 0 then some st.clockForceRate
  else lastForced Follower.forceRate followers

/-- The rate of a driver that is allowed to change it. -/
def bestRate : ℕ :=
  let wanted := smallest Follower.rate followers
  let default := (st.forceRate followers).getD st.clockRate
  let rates := ((st.forceRate followers).map fun r => [r]).getD st.clockRates
  findBestRate rates (if wanted.denom ≠ 0 ∧ wanted.num = 1 then wanted.denom else default) default

/-- One of the quantum values of a driver that has this rate. -/
def scaled (val : ℕ) : ℕ :=
  match st.forceQuantum followers with
  | some q => q
  | none => if rate = st.clockRate then val else scale32 val rate st.clockRate

def maxQuantum : ℕ :=
  let latency := smallest Follower.maxLatency followers
  let high := st.scaled followers rate st.clockMaxQuantum
  if latency.denom ≠ 0 ∧ st.forceQuantum followers = none ∧ st.forceRate followers = none then
    min (scale32 latency.num rate latency.denom) high
  else high

/-- The quantum that the followers, or else the settings, ask for. -/
def wantedQuantum : ℕ :=
  let latency := smallest Follower.latency followers
  if latency.denom ≠ 0 then scale32 latency.num rate latency.denom
  else st.scaled followers rate st.clockQuantum

/-- The quantum of a driver that is allowed to change it. -/
def newQuantum : ℕ :=
  let quantum := clamp (clamp (st.wantedQuantum followers rate)
    (st.scaled followers rate st.clockMinQuantum) (st.maxQuantum followers rate))
    st.quantumFloor st.quantumLimit
  if st.powerOfTwoQuantum && (st.forceQuantum followers).isNone then flp2 quantum else quantum

end Settings

/-! ## What is computed for a driver -/

namespace Driver

variable (st : Settings) (d : Driver)

def running : Bool := d.needResume || (d.runnable && d.followers.any Follower.active)

def locked (lock : Follower → Bool) : Bool := d.followers.any fun s => !s.moved && lock s

def keepsRate : Bool :=
  let forced := (st.forceRate d.followers).isSome
  !(d.forcedRate && !forced && d.runnable) &&
    (!forced && d.locked Follower.lockRate || d.needResume || !d.running || !forced && 2 < d.state)

/-- `target_rate` -/
def rate : ℕ := if d.keepsRate st then d.targetRate.denom else st.bestRate d.followers

def keepsQuantum : Bool :=
  let forced := (st.forceQuantum d.followers).isSome
  !(d.forcedQuantum && !forced && d.runnable) &&
    (!forced && d.locked Follower.lockQuantum || d.needResume || !d.running)

/-- `target_quantum`, which has 32 bits here and 64 bits in the driver. -/
def quantum : ℕ :=
  if d.keepsQuantum st then d.targetQuantum % 2 ^ 32 else st.newQuantum d.followers (d.rate st)

end Driver

/-! ## Powers of two -/

/-- The bits of `x` from `n` on downwards: `n` is the last one, and the first `k` of them are set. -/
def TopBits (n k x : ℕ) : Prop := x < 2 ^ (n + 1) ∧ ∀ i ≤ n, n < i + k → x.testBit i = true

theorem TopBits.spread {n k x : ℕ} (h : TopBits n k x) : TopBits n (2 * k) (x ||| x >>> k) := by
  have hshift : x >>> k < 2 ^ (n + 1) := Nat.lt_of_le_of_lt (Nat.shiftRight_le x k) h.1
  refine ⟨Nat.or_lt_two_pow h.1 hshift, fun i hi hk => ?_⟩
  rw [Nat.testBit_or, Nat.testBit_shiftRight, Bool.or_eq_true]
  by_cases hlast : n < i + k
  · exact .inl (h.2 i hi hlast)
  · exact .inr (h.2 (k + i) (by omega) (by omega))

theorem TopBits.eq {n k x : ℕ} (h : TopBits n k x) (hk : n < k) : x = 2 ^ (n + 1) - 1 := by
  refine Nat.eq_of_testBit_eq fun i => ?_
  rw [Nat.testBit_two_pow_sub_one]
  by_cases hi : i ≤ n
  · rw [h.2 i hi (by omega), decide_eq_true (by omega)]
  · rw [decide_eq_false (by omega)]
    exact Nat.testBit_lt_two_pow (Nat.lt_of_lt_of_le h.1 (Nat.pow_le_pow_right (by omega) (by omega)))

theorem flp2_eq {x : ℕ} (hx : 0 < x) (hlt : x < 2 ^ 32) :
    ∃ n, flp2 x = 2 ^ n ∧ 2 ^ n ≤ x ∧ x < 2 ^ (n + 1) := by
  have hne := Nat.ne_of_gt hx
  have hlog := (Nat.log2_eq_iff hne).mp rfl
  have hn : x.log2 < 32 := (Nat.log2_lt hne).mpr hlt
  refine ⟨x.log2, ?_, hlog⟩
  have h₁ : TopBits x.log2 1 x := by
    refine ⟨hlog.2, fun i hi hk => ?_⟩
    obtain rfl : i = x.log2 := by omega
    exact Nat.testBit_log2 hne
  have hall := h₁.spread.spread.spread.spread.spread.eq hn
  simp only [flp2, hall]
  omega

/-! ## The limits -/

/-- `a` is at most `b`. -/
def Fraction.Le (a b : Fraction) : Prop := a.num * b.denom ≤ b.num * a.denom

theorem Fraction.Le.trans {a b c : Fraction} (hb : 0 < b.denom) (h : a.Le b) (h' : b.Le c) :
    a.Le c := by
  refine Nat.le_of_mul_le_mul_left ?_ hb
  calc b.denom * (a.num * c.denom) = a.num * b.denom * c.denom := by ring
    _ ≤ b.num * a.denom * c.denom := Nat.mul_le_mul_right _ h
    _ = b.num * c.denom * a.denom := by ring
    _ ≤ c.num * b.denom * a.denom := Nat.mul_le_mul_right _ h'
    _ = b.denom * (c.num * a.denom) := by ring

theorem flp2_bounds {x : ℕ} (hx : 0 < x) (hlt : x < 2 ^ 32) : flp2 x ≤ x ∧
    (∃ n, flp2 x = 2 ^ n) ∧ ∀ k, 2 ^ k ≤ x → 2 ^ k ≤ flp2 x := by
  obtain ⟨n, heq, hle, hlt⟩ := flp2_eq hx hlt
  rw [heq]
  refine ⟨hle, ⟨n, rfl⟩, fun k hk => Nat.pow_le_pow_right (by omega) ?_⟩
  exact Nat.le_of_lt_succ ((Nat.pow_lt_pow_iff_right (by omega)).mp (Nat.lt_of_le_of_lt hk hlt))

namespace Driver

variable {st : Settings} {d : Driver}

/-- A value of the settings, for the rate of the driver. -/
def scaled (st : Settings) (d : Driver) (val : ℕ) : ℕ := val * d.rate st / st.clockRate

end Driver

/-- The usual settings, with a small range of the quantum. -/
def standard (powerOfTwo : Bool) : Settings :=
  ⟨48000, [48000], 1024, 32, 2048, 0, 0, 4, 8192, powerOfTwo, false, by decide, by decide⟩

/-- A driver that runs with this rate, and a follower that asks for a short latency. -/
def shortLatency (rate : ℕ) : Driver :=
  ⟨true, false, true, false, [⟨false, true, false, false, 0, 0, 0, ⟨1, 48000⟩, ⟨0, 0⟩, ⟨0, 0⟩⟩], 3,
    ⟨1, rate⟩, 1024, false, false, false, false, ⟨1, rate⟩, 1024⟩

end PipeWireAO.Scheduler
