import Mathlib.Algebra.BigOperators.Ring.List
import Mathlib.Algebra.GroupWithZero.Nat
import Mathlib.Data.List.GetD
import PipeWireAO.FilterChain.Feedback

/-!
# The sizes of ndarrays

The bytes of an ndarray are computed by the host of the graph, by the two adapters, and by the helpers
for formats. Each multiplies the dimensions in machine words and checks for overflow in its own way.
None of the products wraps around, and a format that an adapter accepts has one size for all of them.
-/

namespace PipeWireAO.Ndarray

open List
open FilterGraph (elementTypeSize)
open Foundation (bind_eq_ok ite_error_eq_ok)

/-- The description of an array: `struct spa_fgn_format`, `struct pw_ndarray_filter_format` or
`struct spa_ndarray_info`. Its rank is the length of the shape. -/
structure Format where
  (elementType layout rateNum rateDenom : BitVec 32)
  shape : List (BitVec 32)
  deriving DecidableEq

/-- `spa_element_type_size`. -/
def Format.elementSize (f : Format) : ℕ := elementTypeSize f.elementType.toNat

/-- `SPA_NDARRAY_MAX_DIMENSIONS`. -/
def maxDimensions : ℕ := 64

def int32Max : ℕ := 2 ^ 31 - 1

def uint32Max : ℕ := 2 ^ 32 - 1

/-- A dimension that none of the loops takes. -/
def badDimension (d : BitVec 32) : Bool := d = 0 ∨ int32Max < d.toNat

/-! ## The source -/

/-- `spa_overflow_mul`: whether the product is too large, and what is stored. -/
def overflowMul (a b : BitVec 64) : Bool × BitVec 64 := (a.umulOverflow b, a * b)

/-- The loop of `format_size`. -/
def hostElements (elements : BitVec 64) : List (BitVec 32) → Except Int (BitVec 64)
  | [] => .ok elements
  | d :: shape =>
    if badDimension d then .error (-eInval)
    else
      let (overflow, product) := overflowMul elements (d.setWidth 64)
      if overflow then .error (-eOverflow) else hostElements product shape

/-- The loop of the other computations. -/
def dividedElements (elements : BitVec 64) : List (BitVec 32) → Except Int (BitVec 64)
  | [] => .ok elements
  | d :: shape =>
    if badDimension d then .error (-eInval)
    else if BitVec.allOnes 64 / d.setWidth 64 < elements then .error (-eOverflow)
    else dividedElements (elements * d.setWidth 64) shape

/-- A layout that is neither row major nor column major. -/
def Format.badLayout (f : Format) : Bool := f.layout ≠ 1 ∧ f.layout ≠ 2

/-- A rate of which one part is zero. -/
def Format.badRate (f : Format) : Bool := ¬ (f.rateNum = 0 ↔ f.rateDenom = 0)

def formatSize (f : Format) : Except Int (BitVec 64) :=
  if f.shape = [] ∨ maxDimensions < f.shape.length then .error (-eInval)
  else if f.badLayout then .error (-eInval)
  else if f.badRate then .error (-eInval)
  else if f.elementSize = 0 then .error (-eInval)
  else do
    let elements ← hostElements 1 f.shape
    let (overflow, bytes) := overflowMul elements (BitVec.ofNat 64 f.elementSize)
    if overflow ∨ uint32Max < bytes.toNat then .error (-eOverflow) else .ok bytes

/-- The elements and the bytes, as the adapters and the helpers compute them. -/
def counts (f : Format) : Except Int (BitVec 64 × BitVec 64) := do
  let elements ← dividedElements 1 f.shape
  if BitVec.allOnes 64 / BitVec.ofNat 64 f.elementSize < elements then .error (-eOverflow)
  else .ok (elements, elements * BitVec.ofNat 64 f.elementSize)

/-- The bytes of an element along the axis that is contiguous. -/
def Format.contiguous (f : Format) : BitVec 64 :=
  let axis := if f.layout = 1 then f.shape.length - 1 else 0
  (f.shape.getD axis 0).setWidth 64 * BitVec.ofNat 64 f.elementSize

/-- The size and the stride, as both adapters compute them. -/
def adapterFormatSize (f : Format) : Except Int (BitVec 64 × BitVec 32) :=
  if f.shape = [] ∨ maxDimensions < f.shape.length ∨ f.badLayout ∨ f.badRate ∨ f.elementSize = 0 then
    .error (-eInval)
  else do
    let (_, bytes) ← counts f
    if int32Max < bytes.toNat ∨ int32Max < f.contiguous.toNat then .error (-eOverflow)
    else .ok (bytes, f.contiguous.setWidth 32)

/-- `checked_format_size` of `pw_ndarray_filter`. -/
def checkedFormatSize (f : Format) : Except Int (BitVec 64 × BitVec 32) := adapterFormatSize f

/-- `fgn_format_size` of the filter chain. -/
def fgnFormatSize (f : Format) : Except Int (BitVec 64 × BitVec 32) := adapterFormatSize f

/-- `offsetof(struct spa_ndarray_info, shape)`. -/
def shapeOffset : BitVec 64 := 20

/-- `SPA_NDARRAY_INFO_MAX_DIMENSIONS`, in 32 bits. -/
def infoMaxDimensions (size : BitVec 64) : BitVec 32 := ((size - shapeOffset) / 4).setWidth 32

/-- `spa_ndarray_info_ext_counts`, for a record of `size` bytes: the elements and the bytes. -/
def infoExtCounts (f : Format) (size : BitVec 64) : Except Int (BitVec 64 × BitVec 64) :=
  if size < shapeOffset then .error (-eInval)
  else if f.shape = [] ∨ (infoMaxDimensions size).toNat < f.shape.length then .error (-eInval)
  else if f.elementSize = 0 then .error (-eInval)
  else if f.badLayout then .error (-eInval)
  else if f.badRate then .error (-eInval)
  else counts f

/-! ## The products -/

/-- A valid element type, layout and rate, and dimensions that can be. -/
structure Format.Valid (f : Format) : Prop where
  element : f.elementSize ≠ 0
  layout : f.layout = 1 ∨ f.layout = 2
  rate : f.rateNum = 0 ↔ f.rateDenom = 0
  dimension : ∀ d ∈ f.shape, 1 ≤ d.toNat ∧ d.toNat ≤ 2 ^ 31 - 1

def Format.elements (f : Format) : ℕ := (f.shape.map BitVec.toNat).prod

def Format.bytes (f : Format) : ℕ := f.elements * f.elementSize

theorem badDimension_eq_false {d : BitVec 32} :
    badDimension d = false ↔ 1 ≤ d.toNat ∧ d.toNat ≤ 2 ^ 31 - 1 := by
  rw [badDimension, decide_eq_false_iff_not, not_or, Nat.not_lt, ← BitVec.toNat_inj, ← ne_eq,
    Nat.one_le_iff_ne_zero]
  exact Iff.rfl

theorem toNat_dimension (d : BitVec 32) : (d.setWidth 64).toNat = d.toNat :=
  BitVec.toNat_setWidth_of_le (by decide)

variable {e d n : BitVec 64} {shape : List (BitVec 32)}

theorem div_lt_iff (hd : d ≠ 0) : BitVec.allOnes 64 / d < e ↔ 2 ^ 64 ≤ e.toNat * d.toNat := by
  have hpos : 0 < d.toNat := Nat.pos_of_ne_zero fun h => hd (BitVec.eq_of_toNat_eq h)
  rw [BitVec.lt_def, BitVec.toNat_udiv, BitVec.toNat_allOnes, Nat.div_lt_iff_lt_mul hpos]
  omega

theorem umulOverflow_iff : e.umulOverflow d = true ↔ 2 ^ 64 ≤ e.toNat * d.toNat := by
  rw [BitVec.umulOverflow, decide_eq_true_eq]

theorem toNat_mul_of_lt (h : e.toNat * d.toNat < 2 ^ 64) : (e * d).toNat = e.toNat * d.toNat := by
  rw [BitVec.toNat_mul, Nat.mod_eq_of_lt h]

/-- **The two loops compute the same.** -/
theorem dividedElements_eq (e : BitVec 64) (shape : List (BitVec 32)) :
    dividedElements e shape = hostElements e shape := by
  induction shape generalizing e with
  | nil => rfl
  | cons d shape ih =>
    rw [dividedElements, hostElements]
    cases hbad : badDimension d with
    | true => rfl
    | false =>
      have hd : d.setWidth 64 ≠ 0 := fun h => by
        have hzero := congrArg BitVec.toNat h
        have := (badDimension_eq_false.mp hbad).1
        exact absurd hzero (Nat.ne_of_gt this)
      rw [if_neg Bool.false_ne_true, if_neg Bool.false_ne_true, ih]
      refine if_congr ?_ rfl rfl
      rw [div_lt_iff hd]
      exact umulOverflow_iff.symm

theorem prod_pos (h : ∀ d ∈ shape, 1 ≤ d.toNat ∧ d.toNat ≤ 2 ^ 31 - 1) :
    0 < (shape.map BitVec.toNat).prod := by
  refine Nat.pos_of_ne_zero (prod_ne_zero fun hzero => ?_)
  obtain ⟨d, hd, hd0⟩ := mem_map.mp hzero
  exact absurd hd0 (Nat.ne_of_gt (h d hd).1)

/-- **The loop computes the product of the dimensions**, or fails. -/
theorem hostElements_eq_ok :
    hostElements e shape = .ok n ↔ (∀ d ∈ shape, 1 ≤ d.toNat ∧ d.toNat ≤ 2 ^ 31 - 1) ∧
      e.toNat * (shape.map BitVec.toNat).prod < 2 ^ 64 ∧
      n.toNat = e.toNat * (shape.map BitVec.toNat).prod := by
  induction shape generalizing e with
  | nil =>
    rw [hostElements, map_nil, prod_nil, Nat.mul_one]
    constructor
    · intro h
      exact ⟨nofun, e.isLt, congrArg BitVec.toNat (Except.ok.inj h).symm⟩
    · rintro ⟨-, -, hn⟩
      rw [BitVec.eq_of_toNat_eq hn]
  | cons d shape ih =>
    rw [hostElements, map_cons, prod_cons, forall_mem_cons, ← badDimension_eq_false,
      ← Nat.mul_assoc]
    cases hbad : badDimension d with
    | true => exact ⟨nofun, fun h => nomatch h.1.1⟩
    | false =>
      show (if e.umulOverflow (d.setWidth 64) = true then _ else
        hostElements (e * d.setWidth 64) shape) = _ ↔ _
      by_cases hover : 2 ^ 64 ≤ e.toNat * d.toNat
      · rw [if_pos (umulOverflow_iff.mpr (by rwa [toNat_dimension]))]
        -- the dimensions behind do not make the product smaller
        refine ⟨nofun, fun ⟨⟨_, hshape⟩, hlt, _⟩ => absurd hlt (Nat.not_lt.mpr ?_)⟩
        exact Nat.le_trans hover (Nat.le_mul_of_pos_right _ (prod_pos hshape))
      · have hmul : (e * d.setWidth 64).toNat = e.toNat * d.toNat := by
          rw [toNat_mul_of_lt (by rw [toNat_dimension]; omega), toNat_dimension]
        rw [if_neg (fun h => hover (by rw [← toNat_dimension]; exact umulOverflow_iff.mp h)), ih,
          hmul]
        simp only [true_and]

/-! ## The sizes -/

section

variable {f : Format}

theorem Format.elementSize_le (f : Format) : f.elementSize ≤ 32 := by
  unfold elementSize elementTypeSize
  split_ifs <;> decide

theorem Format.toNat_elementSize (f : Format) :
    (BitVec.ofNat 64 f.elementSize).toNat = f.elementSize :=
  Nat.mod_eq_of_lt (Nat.lt_of_le_of_lt f.elementSize_le (by decide))

theorem Format.badLayout_eq_false : f.badLayout = false ↔ f.layout = 1 ∨ f.layout = 2 := by
  rw [badLayout, decide_eq_false_iff_not, ne_eq, ne_eq, ← not_or, not_not]

theorem Format.badRate_eq_false : f.badRate = false ↔ (f.rateNum = 0 ↔ f.rateDenom = 0) := by
  rw [badRate, decide_eq_false_iff_not, not_not]

theorem elements_eq_ok :
    hostElements 1 f.shape = .ok e ↔ (∀ d ∈ f.shape, 1 ≤ d.toNat ∧ d.toNat ≤ 2 ^ 31 - 1) ∧
      f.elements < 2 ^ 64 ∧ e.toNat = f.elements := by
  rw [hostElements_eq_ok, show (1 : BitVec 64).toNat = 1 from rfl, Nat.one_mul]
  exact Iff.rfl

theorem bytes_overflow (he : e.toNat = f.elements) :
    2 ^ 64 ≤ e.toNat * (BitVec.ofNat 64 f.elementSize).toNat ↔ 2 ^ 64 ≤ f.bytes := by
  rw [f.toNat_elementSize, he]
  exact Iff.rfl

theorem toNat_bytes (he : e.toNat = f.elements) (h : f.bytes < 2 ^ 64) :
    (e * BitVec.ofNat 64 f.elementSize).toNat = f.bytes := by
  rw [toNat_mul_of_lt (Nat.lt_of_not_le fun hle => Nat.not_lt.mpr ((bytes_overflow he).mp hle) h),
    f.toNat_elementSize, he]
  rfl

theorem elements_lt (hsize : f.elementSize ≠ 0) (h : f.bytes < 2 ^ 64) : f.elements < 2 ^ 64 :=
  Nat.lt_of_le_of_lt (Nat.le_mul_of_pos_right _ (Nat.pos_of_ne_zero hsize)) h

/-- **The elements and the bytes are exact.** -/
theorem counts_eq_ok (hsize : f.elementSize ≠ 0) :
    counts f = .ok (e, n) ↔ (∀ d ∈ f.shape, 1 ≤ d.toNat ∧ d.toNat ≤ 2 ^ 31 - 1) ∧
      f.bytes < 2 ^ 64 ∧ e.toNat = f.elements ∧ n.toNat = f.bytes := by
  have hne : BitVec.ofNat 64 f.elementSize ≠ 0 := fun h => hsize (by
    rw [← f.toNat_elementSize, h]
    rfl)
  rw [counts, bind_eq_ok, dividedElements_eq]
  constructor
  · rintro ⟨e', he, h⟩
    obtain ⟨hdims, -, hval⟩ := elements_eq_ok.mp he
    obtain ⟨hover, h⟩ := ite_error_eq_ok.mp h
    rw [div_lt_iff hne, bytes_overflow hval, Nat.not_le] at hover
    cases h
    exact ⟨hdims, hover, hval, toNat_bytes hval hover⟩
  · rintro ⟨hdims, hlt, he, hn⟩
    refine ⟨e, elements_eq_ok.mpr ⟨hdims, elements_lt hsize hlt, he⟩, ite_error_eq_ok.mpr ⟨?_, ?_⟩⟩
    · rwa [div_lt_iff hne, bytes_overflow he, Nat.not_le]
    · rw [BitVec.eq_of_toNat_eq (hn.trans (toNat_bytes he hlt).symm)]

/-- **The host of the graph** is exact. -/
theorem formatSize_eq_ok :
    formatSize f = .ok n ↔ f.Valid ∧ (1 ≤ f.shape.length ∧ f.shape.length ≤ maxDimensions) ∧
      f.bytes ≤ uint32Max ∧ n.toNat = f.bytes := by
  simp only [formatSize, ite_error_eq_ok, bind_eq_ok, elements_eq_ok, not_or, Nat.not_lt,
    Bool.not_eq_true, Format.badLayout_eq_false, Format.badRate_eq_false]
  constructor
  · rintro ⟨⟨hne, hrank⟩, hlayout, hrate, hsize, e, ⟨hdims, -, he⟩, ⟨hover, hlimit⟩, h⟩
    have hlt : f.bytes < 2 ^ 64 := Nat.lt_of_not_le fun hle =>
      Bool.false_ne_true (hover.symm.trans (umulOverflow_iff.mpr ((bytes_overflow he).mpr hle)))
    cases h
    change (e * BitVec.ofNat 64 f.elementSize).toNat ≤ _ at hlimit
    rw [toNat_bytes he hlt] at hlimit
    exact ⟨⟨hsize, hlayout, hrate, hdims⟩, ⟨length_pos_iff.mpr hne, hrank⟩, hlimit, toNat_bytes he hlt⟩
  · rintro ⟨hvalid, ⟨hpos, hrank⟩, hlimit, hn⟩
    have hlt : f.bytes < 2 ^ 64 := Nat.lt_of_le_of_lt hlimit (by decide)
    have hlt' := elements_lt hvalid.element hlt
    have he : (BitVec.ofNat 64 f.elements).toNat = f.elements := Nat.mod_eq_of_lt hlt'
    refine ⟨⟨length_pos_iff.mp hpos, hrank⟩, hvalid.layout, hvalid.rate, hvalid.element, _,
      ⟨hvalid.dimension, hlt', he⟩, ⟨?_, ?_⟩, ?_⟩
    · exact Bool.eq_false_of_not_eq_true fun hover =>
        absurd ((bytes_overflow he).mp (umulOverflow_iff.mp hover)) (Nat.not_le.mpr hlt)
    · show (BitVec.ofNat 64 f.elements * BitVec.ofNat 64 f.elementSize).toNat ≤ _
      rwa [toNat_bytes he hlt]
    · rw [BitVec.eq_of_toNat_eq (hn.trans (toNat_bytes he hlt).symm)]
      rfl

theorem Format.Valid.contiguous_eq (hvalid : f.Valid) (hne : f.shape ≠ []) :
    f.contiguous.toNat = (f.shape.getD (if f.layout = 1 then f.shape.length - 1 else 0) 0).toNat *
      f.elementSize ∧ f.contiguous.toNat ≤ f.bytes := by
  generalize haxis : (if f.layout = 1 then f.shape.length - 1 else 0) = axis
  have hlt : axis < f.shape.length := by
    have hpos := length_pos_iff.mpr hne
    rw [← haxis]
    split_ifs
    · exact Nat.sub_lt hpos Nat.one_pos
    · exact hpos
  have hmem : f.shape.getD axis 0 ∈ f.shape := by
    rw [getD_eq_getElem _ _ hlt]
    exact getElem_mem hlt
  have heq : f.contiguous.toNat = (f.shape.getD axis 0).toNat * f.elementSize := by
    have hbound := Nat.mul_le_mul (hvalid.dimension _ hmem).2 f.elementSize_le
    rw [contiguous, haxis, toNat_mul_of_lt, toNat_dimension, f.toNat_elementSize]
    rw [toNat_dimension, f.toNat_elementSize]
    exact Nat.lt_of_le_of_lt hbound (by decide)
  refine ⟨heq, ?_⟩
  rw [heq]
  exact Nat.mul_le_mul_right _ (Nat.le_of_dvd (prod_pos hvalid.dimension)
    (dvd_prod (mem_map_of_mem hmem)))

/-- **The adapters** are exact, with the stride. -/
theorem adapterFormatSize_eq_ok {stride : BitVec 32} :
    adapterFormatSize f = .ok (n, stride) ↔ f.Valid ∧
      (1 ≤ f.shape.length ∧ f.shape.length ≤ maxDimensions) ∧ f.bytes ≤ int32Max ∧
      n.toNat = f.bytes ∧ stride = f.contiguous.setWidth 32 := by
  simp only [adapterFormatSize, ite_error_eq_ok, bind_eq_ok, not_or, Nat.not_lt, Bool.not_eq_true,
    Format.badLayout_eq_false, Format.badRate_eq_false]
  constructor
  · rintro ⟨⟨hne, hrank, hlayout, hrate, hsize⟩, ⟨e, bytes⟩, hcounts, hlimit, h⟩
    obtain ⟨hdims, -, -, hbytes⟩ := (counts_eq_ok hsize).mp hcounts
    rw [hbytes] at hlimit
    cases h
    exact ⟨⟨hsize, hlayout, hrate, hdims⟩, ⟨length_pos_iff.mpr hne, hrank⟩, hlimit.1, hbytes,
      rfl⟩
  · rintro ⟨hvalid, ⟨hpos, hrank⟩, hlimit, hn, rfl⟩
    have hne := length_pos_iff.mp hpos
    have hlt : f.bytes < 2 ^ 64 := Nat.lt_of_le_of_lt hlimit (by decide)
    have he : (BitVec.ofNat 64 f.elements).toNat = f.elements :=
      Nat.mod_eq_of_lt (elements_lt hvalid.element hlt)
    refine ⟨⟨hne, hrank, hvalid.layout, hvalid.rate, hvalid.element⟩, (_, n),
      (counts_eq_ok hvalid.element).mpr ⟨hvalid.dimension, hlt, he, hn⟩, ⟨?_, ?_⟩, rfl⟩
    · rwa [hn]
    · exact Nat.le_trans (hvalid.contiguous_eq hne).2 hlimit

/-- **The helpers for formats** are exact. -/
theorem infoExtCounts_eq_ok {size : BitVec 64} :
    infoExtCounts f size = .ok (e, n) ↔ f.Valid ∧ shapeOffset ≤ size ∧
      (1 ≤ f.shape.length ∧ f.shape.length ≤ (infoMaxDimensions size).toNat) ∧
      f.bytes ≤ 2 ^ 64 - 1 ∧ e.toNat = f.elements ∧ n.toNat = f.bytes := by
  simp only [infoExtCounts, ite_error_eq_ok, not_or, Nat.not_lt, BitVec.not_lt, Bool.not_eq_true,
    Format.badLayout_eq_false, Format.badRate_eq_false]
  constructor
  · rintro ⟨hoffset, ⟨hne, hrank⟩, hsize, hlayout, hrate, hcounts⟩
    obtain ⟨hdims, hlt, he, hn⟩ := (counts_eq_ok hsize).mp hcounts
    exact ⟨⟨hsize, hlayout, hrate, hdims⟩, hoffset, ⟨length_pos_iff.mpr hne, hrank⟩,
      Nat.le_sub_one_of_lt hlt, he, hn⟩
  · rintro ⟨hvalid, hoffset, ⟨hpos, hrank⟩, hlimit, he, hn⟩
    exact ⟨hoffset, ⟨length_pos_iff.mp hpos, hrank⟩, hvalid.element, hvalid.layout, hvalid.rate,
      (counts_eq_ok hvalid.element).mpr ⟨hvalid.dimension, by omega, he, hn⟩⟩

end

/-- `sizeof(struct spa_ndarray_info)`. -/
def infoSize : BitVec 64 := 276

/-- **Sizes are exact and agree.** Each computation succeeds for the valid formats whose bytes are
within its limit, with the exact product. What an adapter accepts, the host of the graph and the
helpers for formats accept too, with the same size. -/
theorem sizes_exact (f : Format) :
    (∀ n, formatSize f = .ok n ↔ f.Valid ∧ (1 ≤ f.shape.length ∧ f.shape.length ≤ 64) ∧
      f.bytes ≤ 2 ^ 32 - 1 ∧ n.toNat = f.bytes) ∧
    (∀ n, (∃ stride, checkedFormatSize f = .ok (n, stride)) ↔ f.Valid ∧
      (1 ≤ f.shape.length ∧ f.shape.length ≤ 64) ∧ f.bytes ≤ 2 ^ 31 - 1 ∧ n.toNat = f.bytes) ∧
    (∀ n, (∃ stride, fgnFormatSize f = .ok (n, stride)) ↔ f.Valid ∧
      (1 ≤ f.shape.length ∧ f.shape.length ≤ 64) ∧ f.bytes ≤ 2 ^ 31 - 1 ∧ n.toNat = f.bytes) ∧
    (∀ size n, (∃ e, infoExtCounts f size = .ok (e, n)) ↔ f.Valid ∧ 20 ≤ size.toNat ∧
      (1 ≤ f.shape.length ∧ f.shape.length ≤ (size.toNat - 20) / 4 % 2 ^ 32) ∧
      f.bytes ≤ 2 ^ 64 - 1 ∧ n.toNat = f.bytes) ∧
    ∀ n stride, checkedFormatSize f = .ok (n, stride) ∨ fgnFormatSize f = .ok (n, stride) →
      formatSize f = .ok n ∧ ∃ e, infoExtCounts f infoSize = .ok (e, n) := by
  have hadapter : ∀ n, (∃ stride, adapterFormatSize f = .ok (n, stride)) ↔ f.Valid ∧
      (1 ≤ f.shape.length ∧ f.shape.length ≤ 64) ∧ f.bytes ≤ 2 ^ 31 - 1 ∧ n.toNat = f.bytes := by
    intro n
    constructor
    · rintro ⟨stride, h⟩
      obtain ⟨hvalid, hrank, hlimit, hn, -⟩ := adapterFormatSize_eq_ok.mp h
      exact ⟨hvalid, hrank, hlimit, hn⟩
    · rintro ⟨hvalid, hrank, hlimit, hn⟩
      exact ⟨_, adapterFormatSize_eq_ok.mpr ⟨hvalid, hrank, hlimit, hn, rfl⟩⟩
  refine ⟨fun n => formatSize_eq_ok, hadapter, hadapter, fun size n => ?_, fun n stride h => ?_⟩
  · have hsub : 20 ≤ size.toNat → (infoMaxDimensions size).toNat = (size.toNat - 20) / 4 % 2 ^ 32 := by
      intro hle
      rw [infoMaxDimensions, BitVec.toNat_setWidth, BitVec.toNat_udiv, BitVec.toNat_sub_of_le hle]
      rfl
    constructor
    · rintro ⟨e, h⟩
      obtain ⟨hvalid, hoffset, hrank, hlimit, -, hn⟩ := infoExtCounts_eq_ok.mp h
      exact ⟨hvalid, hoffset, hsub hoffset ▸ hrank, hlimit, hn⟩
    · rintro ⟨hvalid, hoffset, hrank, hlimit, hn⟩
      refine ⟨BitVec.ofNat 64 f.elements, infoExtCounts_eq_ok.mpr ⟨hvalid, hoffset,
        (hsub hoffset).symm ▸ hrank, hlimit, ?_, hn⟩⟩
      exact Nat.mod_eq_of_lt (elements_lt hvalid.element (by omega))
  · obtain ⟨hvalid, hrank, hlimit, hn⟩ := (hadapter n).mp ⟨stride, h.elim id id⟩
    have hlt : f.bytes < 2 ^ 64 := by omega
    refine ⟨formatSize_eq_ok.mpr ⟨hvalid, hrank, Nat.le_trans hlimit (by decide), hn⟩,
      BitVec.ofNat 64 f.elements, infoExtCounts_eq_ok.mpr ⟨hvalid, by decide, hrank, by omega, ?_, hn⟩⟩
    exact Nat.mod_eq_of_lt (elements_lt hvalid.element hlt)

/-- A scalar of four bytes. -/
def scalarFormat : Format := ⟨18, 1, 0, 0, []⟩

/-- **An array without dimensions has no size** for any of the computations, although nothing else is
wrong with it. -/
theorem sizes_rank :
    scalarFormat.Valid ∧ scalarFormat.bytes = 4 ∧ formatSize scalarFormat = .error (-eInval) ∧
      checkedFormatSize scalarFormat = .error (-eInval) ∧
      fgnFormatSize scalarFormat = .error (-eInval) ∧
      infoExtCounts scalarFormat infoSize = .error (-eInval) := by
  refine ⟨⟨?_, .inl rfl, Iff.rfl, nofun⟩, ?_⟩
  · decide
  · decide

end PipeWireAO.Ndarray
