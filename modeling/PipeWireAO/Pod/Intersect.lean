import Mathlib.Data.List.Find
import PipeWireAO.Pod.Choice

/-!
# Filtering is intersection

For two properties with one key, `spa_pod_filter_prop` writes a choice for the values that are in both
of their sets, or fails. It does not matter which of them is the filter, but for the default.

This is so for just the pairs that `Choice.Meets` describes. It leaves out a step against a range or
another step, where the step is lost and matters, a number with several bits against flags, and
rectangles of width zero with different heights, which are compared equal.
-/

namespace PipeWireAO.Pod

open List
open Foundation (toLe ofLe length_toLe ofLe_toLe)

/-- What a result of `meet` says of the set `S`: an error, or the bytes of a choice that stands for the
set. -/
def Stands (S : Scalar → Prop) : Except Int (ℕ × List (List UInt8)) → Prop
  | .error _ => True
  | .ok (kind, vals) => ∃ c : Choice, c.Valid ∧ toLe 4 c.type.number = toLe 4 kind ∧
      c.vals.flatMap Scalar.body = vals.flatten ∧ ∀ x : Scalar, x.Ordered → (c.Admits x ↔ S x)

variable {S S' : Scalar → Prop} {v w d₁ min₁ max₁ d₂ min₂ max₂ : Scalar} {c : Choice} {n : ℕ}
  {default : Option Scalar}

theorem Stands.congr {r : Except Int (ℕ × List (List UInt8))} (h : Stands S r)
    (hS : ∀ x : Scalar, x.Ordered → (S x ↔ S' x)) : Stands S' r := by
  cases r with
  | error res => trivial
  | ok result =>
    obtain ⟨c, hc, hkind, hvals, hset⟩ := h
    exact ⟨c, hc, hkind, hvals, fun x hx => (hset x hx).trans (hS x hx)⟩

section

variable {K : Kind} {vs vs₁ vs₂ l : List Scalar}

/-- A value of the kind `K`, which has an order. -/
def Scalar.Of (v : Scalar) (K : Kind) : Prop := v.Ordered ∧ v.kind = K

theorem Choice.valid_of_all (hall : ∀ v ∈ c.vals, v.Of K) (h : c.Admits c.default) : c.Valid :=
  ⟨fun v hv => (hall v hv).1, fun v hv => (hall v hv).2.trans (hall _ c.default_mem).2.symm, h⟩

theorem getD_body (a : Scalar) :
    (default.map Scalar.body).getD a.body = (default.getD a).body := by
  cases default <;> rfl

/-- **A listing** stands for its values. -/
theorem listing_stands (hS : ∀ x : Scalar, x.Ordered → (S x ↔ ∃ v ∈ l, x.Same v))
    (hl : ∀ v ∈ l, v.Of K) (hdefault : ∀ a, default = some a → l ≠ [] → a ∈ l) :
    Stands S (listing (default.map Scalar.body) (l.map Scalar.body)) := by
  -- the default is one of the values
  have hfirst : ∀ a ∈ l, default.getD a ∈ l := fun a ha => by
    cases default with
    | none => exact ha
    | some d => exact hdefault d rfl (ne_nil_of_mem ha)
  match l with
  | [] => trivial
  | [a] =>
    have ha := mem_singleton.mp (hfirst a mem_cons_self)
    rw [map_singleton, listing, getD_body, ha]
    refine ⟨.none a, Choice.valid_of_all hl (Scalar.Same.refl a), rfl, rfl, fun x hx => ?_⟩
    rw [hS x hx]
    exact ⟨fun h => ⟨a, mem_cons_self, h⟩, fun ⟨v, hv, h⟩ => by
      rwa [mem_singleton.mp hv] at h⟩
  | a :: b :: l =>
    rw [map_cons, map_cons, listing, getD_body]
    have hfirst := hfirst a mem_cons_self
    exact ⟨.enum (default.getD a) (a :: b :: l), Choice.valid_of_all (forall_mem_cons.mpr
      ⟨hl _ hfirst, hl⟩) ⟨_, hfirst, Scalar.Same.refl _⟩, rfl, rfl, fun x hx => (hS x hx).symm⟩

theorem Scalar.Of.compare (hv : v.Of K) (hw : w.Of K) :
    (v.compare w < 0 ↔ v.key < w.key) ∧ (0 < v.compare w ↔ w.key < v.key) :=
  Scalar.compare_key hv.1 hw.1 (hv.2.trans hw.2.symm)

theorem Scalar.Of.compare_eq (hv : v.Of K) (hw : w.Of K) : v.compare w = 0 ↔ v.key = w.key :=
  Scalar.compare_key_eq hv.1 hw.1 (hv.2.trans hw.2.symm)

theorem Scalar.Of.body_inj (hv : v.Of K) (hw : w.Of K) (h : v.body = w.body) : v = w := by
  obtain ⟨hv, rfl⟩ := hv
  cases v with
  | int a | long a | id a =>
    cases w <;> cases hw.2
    next b =>
    have hword := congrArg ofLe h
    rw [Scalar.body, Scalar.body, ofLe_toLe a.isLt, ofLe_toLe b.isLt] at hword
    rw [BitVec.eq_of_toNat_eq hword]
  | rectangle a b | fraction a b =>
    cases w <;> cases hw.2
    next a' b' =>
    have hpair := congrArg wordPair h
    rw [Scalar.body, Scalar.body, wordPair_toLe, wordPair_toLe] at hpair
    rw [(Prod.mk.inj hpair).1, (Prod.mk.inj hpair).2]
  | bool _ | float _ | double _ | string _ | bytes _ | fd _ => exact hv.elim

theorem Scalar.Of.body_ne_nil (hv : v.Of K) : v.body ≠ [] := by
  obtain ⟨hv, -⟩ := hv
  cases v with
  | int _ | long _ | id _ | rectangle _ _ | fraction _ _ => nofun
  | bool _ | float _ | double _ | string _ | bytes _ | fd _ => exact hv.elim

/-- Values of one kind, with bodies of one size, are told by their bytes. -/
theorem eq_of_flatMap_body (hvs₁ : ∀ v ∈ vs₁, v.Of K) (hvs₂ : ∀ v ∈ vs₂, v.Of K)
    (h : vs₁.flatMap Scalar.body = vs₂.flatMap Scalar.body) : vs₁ = vs₂ := by
  induction vs₁ generalizing vs₂ with
  | nil =>
    cases vs₂ with
    | nil => rfl
    | cons w ws => exact absurd (append_eq_nil_iff.mp h.symm).1 (hvs₂ w mem_cons_self).body_ne_nil
  | cons v vs ih =>
    cases vs₂ with
    | nil => exact absurd (append_eq_nil_iff.mp h).1 (hvs₁ v mem_cons_self).body_ne_nil
    | cons w ws =>
      obtain ⟨hv, hvs⟩ := forall_mem_cons.mp hvs₁
      obtain ⟨hw, hws⟩ := forall_mem_cons.mp hvs₂
      have hlen : v.body.length = w.body.length :=
        congrArg Header.size (Scalar.header_eq hv.1 (hv.2.trans hw.2.symm))
      obtain ⟨hbody, hrest⟩ := append_inj h hlen
      rw [hv.body_inj hw hbody, ih hvs hws hrest]

theorem compareValue_body (hv : v.kind = K) (w : Scalar) :
    compareValue K.number v.body w.body = v.compare w := by
  rw [← hv]
  rfl

theorem equalValues_map (hvs : ∀ v ∈ vs₁, v.kind = K) :
    equalValues K.number (vs₁.map Scalar.body) (vs₂.map Scalar.body) =
      (vs₂.flatMap fun w => vs₁.filter fun v => v.compare w = 0).map Scalar.body := by
  rw [equalValues, flatMap_map, map_flatMap]
  congr 1
  funext w
  rw [filter_map]
  congr 1
  refine filter_congr fun v hv => ?_
  rw [Function.comp_apply, compareValue_body (hvs v hv)]

theorem mem_equal : v ∈ (vs₂.flatMap fun w => vs₁.filter fun v => v.compare w = 0) ↔
    v ∈ vs₁ ∧ ∃ w ∈ vs₂, v.compare w = 0 := by
  simp only [mem_flatMap, mem_filter, decide_eq_true_eq]
  exact ⟨fun ⟨w, hw, hv, h⟩ => ⟨hv, w, hw, h⟩, fun ⟨hv, w, hw, h⟩ => ⟨w, hw, hv, h⟩⟩

/-- **Two lists** have the values in common that are in both, if those that are compared equal are. -/
theorem equalValues_stands (hvs₁ : ∀ v ∈ vs₁, v.Of K) (hvs₂ : ∀ v ∈ vs₂, v.Of K)
    (hmeets : ∀ v ∈ vs₁, ∀ w ∈ vs₂, v.compare w = 0 → ∃ w ∈ vs₂, v.Same w) :
    Stands (fun x => (∃ v ∈ vs₁, x.Same v) ∧ ∃ v ∈ vs₂, x.Same v) (listing none
      ((vs₂.flatMap fun w => vs₁.filter fun v => v.compare w = 0).map Scalar.body)) := by
  show Stands _ (listing ((none : Option Scalar).map Scalar.body) _)
  refine listing_stands (fun x hx => ⟨?_, ?_⟩)
    (fun v hv => hvs₁ v (mem_equal.mp hv).1) nofun
  · rintro ⟨⟨v, hv, hxv⟩, w, hw, hxw⟩
    have hv₁ := hvs₁ v hv
    have hw₂ := hvs₂ w hw
    have hkey : v.key = w.key := (hxv.key_eq hx hv₁.1).2.symm.trans (hxw.key_eq hx hw₂.1).2
    exact ⟨v, mem_equal.mpr ⟨hv, w, hw, (hv₁.compare_eq hw₂).mpr hkey⟩, hxv⟩
  · rintro ⟨v, hv, hxv⟩
    obtain ⟨hv, w, hw, hzero⟩ := mem_equal.mp hv
    obtain ⟨w, hw, hsame⟩ := hmeets v hv w hw hzero
    exact ⟨⟨v, hv, hxv⟩, w, hw, hxv.trans hsame (hvs₁ v hv).1⟩

/-! ## Values in ranges -/

theorem isInRange_bounds {min max : Scalar} (hv : v.Of K) (hmin : min.Of K) (hmax : max.Of K)
    (step : Option (List UInt8)) :
    (v.Between min max ∧ isInRange K.number v.body min.body max.body step =
      match step with
      | some step => isStepOf K.number v.body step
      | none => 1) ∨
    (¬ v.Between min max ∧ isInRange K.number v.body min.body max.body step = 0) := by
  have hlow := (hv.compare hmin).1
  have hhigh := (hv.compare hmax).2
  unfold isInRange
  rw [compareValue_body hv.2, compareValue_body hv.2]
  by_cases hout : v.compare min < 0 ∨ 0 < v.compare max
  · rw [if_pos hout]
    refine .inr ⟨fun hbetween => ?_, rfl⟩
    rcases hout with h | h
    · exact absurd hbetween.2.1 (not_le_of_gt (hlow.mp h))
    · exact absurd hbetween.2.2 (not_le_of_gt (hhigh.mp h))
  · rw [if_neg hout]
    obtain ⟨h₁, h₂⟩ := not_or.mp hout
    exact .inl ⟨⟨hv.2.trans hmin.2.symm, le_of_not_gt fun h => h₁ (hlow.mpr h),
      le_of_not_gt fun h => h₂ (hhigh.mpr h)⟩, rfl⟩

theorem isMultiple_eq {v step : Int} (h : ¬ isMultiple v step < 0) :
    isMultiple v step ≠ 0 ↔ step ∣ v := by
  unfold isMultiple at h ⊢
  split_ifs at h ⊢ with hstep hzero
  · exact absurd (show -eInval < 0 by decide) h
  · exact ⟨fun _ => Int.dvd_of_tmod_eq_zero hzero, fun _ => by decide⟩
  · exact ⟨fun h0 => absurd rfl h0, fun hdvd => absurd (Int.tmod_eq_zero_of_dvd hdvd) hzero⟩

theorem isStepOf_eq {step : Scalar} (hv : v.Of K) (hstep : step.kind = K)
    (h : ¬ isStepOf K.number v.body step.body < 0) :
    isStepOf K.number v.body step.body ≠ 0 ↔ v.MultipleOf step := by
  obtain ⟨hv, rfl⟩ := hv
  cases v with
  | int a | long a =>
    cases step <;> cases hstep
    next b =>
    simp only [isStepOf, Scalar.kind, Kind.number, Scalar.body, Scalar.take_toLe] at h ⊢
    rw [word_toLe a (by decide), word_toLe b (by decide)] at h ⊢
    exact isMultiple_eq h
  | rectangle w x =>
    cases step <;> cases hstep
    next w' x' =>
    have heq : isStepOf (Scalar.rectangle w x).kind.number (Scalar.rectangle w x).body
        (Scalar.rectangle w' x').body =
        if w'.toNat < 1 ∨ x'.toNat < 1 then -eInval
        else if w.toNat % w'.toNat = 0 ∧ x.toNat % x'.toNat = 0 then 1 else 0 := by
      simp only [isStepOf, Scalar.kind, Kind.number, Scalar.body, Scalar.take_pair, wordPair_toLe]
    rw [heq] at h ⊢
    split_ifs at h ⊢ with hzero hmod
    · exact absurd (show -eInval < 0 by decide) h
    · exact ⟨fun _ => ⟨Nat.dvd_of_mod_eq_zero hmod.1, Nat.dvd_of_mod_eq_zero hmod.2⟩,
        fun _ => by decide⟩
    · refine ⟨fun h0 => absurd rfl h0, fun hdvd => absurd ⟨?_, ?_⟩ hmod⟩
      · exact Nat.mod_eq_zero_of_dvd hdvd.1
      · exact Nat.mod_eq_zero_of_dvd hdvd.2
  | id a | fraction n d => exact absurd (show -eNotSup < 0 by decide) h
  | bool _ | float _ | double _ | string _ | bytes _ | fd _ => exact hv.elim

theorem Choice.Valid.all (hc : c.Valid) (hkind : c.default.kind = K) : ∀ v ∈ c.vals, v.Of K :=
  fun v hv => ⟨hc.ordered v hv, (hc.kind v hv).trans hkind⟩

/-- **The check of a range tells its values**, where it has an answer. -/
theorem rangeRes_eq (hc : c.Valid) (hranged : c.Ranged) (hkind : c.default.kind = K) (hv : v.Of K)
    (h : ¬ rangeRes K.number c.alternatives v.body < 0) :
    rangeRes K.number c.alternatives v.body ≠ 0 ↔ c.Admits v := by
  have hall := hc.all hkind
  cases c with
  | range d min max =>
    simp only [Choice.vals, forall_mem_cons] at hall
    obtain ⟨-, hmin, hmax, -⟩ := hall
    show isInRange K.number v.body min.body max.body none ≠ 0 ↔ _
    rcases isInRange_bounds hv hmin hmax none with ⟨hin, hres⟩ | ⟨hout, hres⟩
    · rw [hres]
      exact ⟨fun _ => hin, fun _ => Int.one_ne_zero⟩
    · rw [hres]
      exact ⟨fun h0 => absurd rfl h0, fun hin => absurd hin hout⟩
  | step d min max s =>
    simp only [Choice.vals, forall_mem_cons] at hall
    obtain ⟨-, hmin, hmax, hs, -⟩ := hall
    have heq : rangeRes K.number (Choice.step d min max s).alternatives v.body =
        isInRange K.number v.body min.body max.body (some s.body) := rfl
    rw [heq] at h ⊢
    rcases isInRange_bounds hv hmin hmax (some s.body) with ⟨hin, hres⟩ | ⟨hout, hres⟩
    · rw [hres] at h ⊢
      exact (isStepOf_eq hv hs.2 h).trans ⟨fun hm => ⟨hin, hm⟩, fun hm => hm.2⟩
    · rw [hres]
      exact ⟨fun h0 => absurd rfl h0, fun hin => absurd hin.1 hout⟩
  | none _ | enum _ _ | flags _ => rcases hranged with h | h <;> cases h

/-- **The listed values in a range**, unless a check fails. -/
theorem valuesInRange_map (hc : c.Valid) (hranged : c.Ranged) (hkind : c.default.kind = K)
    (hvs : ∀ v ∈ vs, v.Of K) :
    (∃ res, valuesInRange K.number c.alternatives (vs.map Scalar.body) = .error res) ∧
      (∃ v ∈ vs, rangeRes K.number c.alternatives v.body < 0) ∨
    (∀ v ∈ vs, ¬ rangeRes K.number c.alternatives v.body < 0) ∧
      ∃ l : List Scalar, valuesInRange K.number c.alternatives (vs.map Scalar.body) =
        .ok (l.map Scalar.body) ∧ ∀ v, v ∈ l ↔ v ∈ vs ∧ c.Admits v := by
  rcases valuesInRange_spec K.number c.alternatives (vs.map Scalar.body) with
    ⟨hl, hall⟩ | ⟨⟨res, hres, -⟩, a, ha, hneg⟩
  · rw [forall_mem_map] at hall
    have hres : ∀ v ∈ vs, rangeRes K.number c.alternatives v.body ≠ 0 ↔ c.Admits v := fun v hv =>
      rangeRes_eq hc hranged hkind (hvs v hv) (hall v hv)
    refine .inr ⟨hall, vs.filter fun v => rangeRes K.number c.alternatives v.body ≠ 0, ?_, fun v => ?_⟩
    · rw [hl, filter_map]
      rfl
    · rw [mem_filter, decide_eq_true_eq]
      exact ⟨fun h => ⟨h.1, (hres v h.1).mp h.2⟩, fun h => ⟨h.1, (hres v h.1).mpr h.2⟩⟩
  · obtain ⟨v, hv, rfl⟩ := mem_map.mp ha
    exact .inl ⟨⟨res, hres⟩, v, hv, hneg⟩

/-- **A list and a range** have the listed values in common that are in the range. -/
theorem valuesInRange_stands (hc : c.Valid) (hranged : c.Ranged) (hkind : c.default.kind = K)
    (hvs : ∀ v ∈ vs, v.Of K) (hdefault : ∀ a, default = some a → a ∈ vs ∧
      ((∀ v ∈ vs, ¬ rangeRes K.number c.alternatives v.body < 0) → (∃ v ∈ vs, c.Admits v) →
        c.Admits a)) :
    Stands (fun x => (∃ v ∈ vs, x.Same v) ∧ c.Admits x)
      (valuesInRange K.number c.alternatives (vs.map Scalar.body) >>=
        listing (default.map Scalar.body)) := by
  rcases valuesInRange_map hc hranged hkind hvs with ⟨⟨res, hres⟩, -⟩ | ⟨hall, l, hl, hmem⟩
  · rw [hres]
    trivial
  · rw [hl]
    refine listing_stands (fun x hx => ⟨?_, ?_⟩) (fun v hv => hvs v ((hmem v).mp hv).1)
      fun a ha hne => ?_
    · rintro ⟨⟨v, hv, hxv⟩, hadmits⟩
      exact ⟨v, (hmem v).mpr ⟨hv, hadmits.congr_range hxv.symm (hvs v hv).1 hx hranged⟩, hxv⟩
    · rintro ⟨v, hv, hxv⟩
      obtain ⟨hv, hadmits⟩ := (hmem v).mp hv
      exact ⟨⟨v, hv, hxv⟩, hadmits.congr_range hxv hx (hvs v hv).1 hranged⟩
    · obtain ⟨v, hv⟩ := exists_mem_of_ne_nil l hne
      exact (hmem a).mpr ⟨(hdefault a ha).1, (hdefault a ha).2 hall ⟨v, (hmem v).mp hv⟩⟩

/-- **The default of the range** is looked up in the list. -/
theorem findDefault_map (hc : c.Valid) (hranged : c.Ranged) (hkind : c.default.kind = K)
    (hvs : ∀ v ∈ vs, v.Of K) : findDefault K.number (vs.map Scalar.body) c.alternatives =
      (vs.find? fun v => v.compare c.default = 0).map Scalar.body := by
  have hspan : 0 ≤ compareValue K.number c.default.body (alternative c.alternatives.vals 1) ∧
      compareValue K.number c.default.body (alternative c.alternatives.vals 2) ≤ 0 := by
    have hbounds : ∀ d min max : Scalar, d.Of K → min.Of K → max.Of K → d.Between min max →
        0 ≤ compareValue K.number d.body min.body ∧ compareValue K.number d.body max.body ≤ 0 := by
      intro d min max hd hmin hmax hin
      rw [compareValue_body hd.2, compareValue_body hd.2, ← not_lt, ← not_lt, (hd.compare hmin).1,
        (hd.compare hmax).2, not_lt, not_lt]
      exact hin.2
    have hall := hc.all hkind
    have hin := hc.default
    cases c with
    | range d min max | step d min max s =>
      simp only [Choice.vals, forall_mem_cons] at hall
      first
      | exact hbounds d min max hall.1 hall.2.1 hall.2.2.1 hin
      | exact hbounds d min max hall.1 hall.2.1 hall.2.2.1 hin.1
    | none _ | enum _ _ | flags _ => rcases hranged with h | h <;> cases h
  have hd : alternative c.alternatives.vals 0 = c.default.body := by cases c <;> rfl
  unfold findDefault
  dsimp only
  rw [hd, if_pos hspan, find?_map]
  congr 1
  refine find?_congr fun v hv => ?_
  rw [Function.comp_apply, compareValue_body (hvs v hv).2]

/-! ## Ranges and ranges -/

/-- The value of two that is further up. -/
def Scalar.higher (v w : Scalar) : Scalar := if v.compare w < 0 then w else v

/-- The value of two that is further down. -/
def Scalar.lower (v w : Scalar) : Scalar := if w.compare v < 0 then w else v

theorem Scalar.higher_spec (hv : v.Of K) (hw : w.Of K) :
    (v.higher w).Of K ∧ (v.higher w).key = max v.key w.key := by
  have hkey := (hv.compare hw).1
  unfold Scalar.higher
  split_ifs with h
  · exact ⟨hw, (max_eq_right_of_lt (hkey.mp h)).symm⟩
  · exact ⟨hv, (max_eq_left (le_of_not_gt fun hlt => h (hkey.mpr hlt))).symm⟩

theorem Scalar.lower_spec (hv : v.Of K) (hw : w.Of K) :
    (v.lower w).Of K ∧ (v.lower w).key = min v.key w.key := by
  have hkey := (hw.compare hv).1
  unfold Scalar.lower
  split_ifs with h
  · exact ⟨hw, (min_eq_right_of_lt (hkey.mp h)).symm⟩
  · exact ⟨hv, (min_eq_left (le_of_not_gt fun hlt => h (hkey.mpr hlt))).symm⟩

/-- The default of the common part of two ranges. -/
def middle (K : Kind) (d₁ d₂ low high : Scalar) : Scalar :=
  if isInRange K.number d₂.body low.body high.body none ≠ 0 then d₂
  else if isInRange K.number d₁.body low.body high.body none ≠ 0 then d₁
  else low

theorem meetRanges_map (hmin : min₁.kind = K) (hmax : max₁.kind = K) (hmax₂ : max₂.kind = K) :
    meetRanges K.number (Choice.range d₁ min₁ max₁).alternatives
        (Choice.range d₂ min₂ max₂).alternatives =
      if (max₁.lower max₂).compare (min₁.higher min₂) < 0 then .error (-eInval)
      else .ok (ChoiceType.range.number,
        (Choice.range (middle K d₁ d₂ (min₁.higher min₂) (max₁.lower max₂)) (min₁.higher min₂)
          (max₁.lower max₂)).vals.map Scalar.body) := by
  have hlow : (if compareValue K.number min₁.body min₂.body < 0 then min₂.body else min₁.body) =
      (min₁.higher min₂).body := by
    rw [compareValue_body hmin, Scalar.higher, apply_ite Scalar.body]
  have hhigh : (if compareValue K.number max₂.body max₁.body < 0 then max₂.body else max₁.body) =
      (max₁.lower max₂).body := by
    rw [compareValue_body hmax₂, Scalar.lower, apply_ite Scalar.body]
  have hkind : (max₁.lower max₂).kind = K := by
    unfold Scalar.lower
    split_ifs
    · exact hmax₂
    · exact hmax
  have halt : ∀ d min max : Scalar, alternative (Choice.range d min max).alternatives.vals 0 = d.body ∧
      alternative (Choice.range d min max).alternatives.vals 1 = min.body ∧
      alternative (Choice.range d min max).alternatives.vals 2 = max.body := fun _ _ _ => ⟨rfl, rfl, rfl⟩
  unfold meetRanges
  simp only [halt, hlow, hhigh, compareValue_body hkind]
  refine if_congr Iff.rfl rfl (congrArg _ (congrArg _ ?_))
  show [_, _, _] = [_, _, _]
  rw [middle, apply_ite Scalar.body, apply_ite Scalar.body]

/-- **Two ranges** have the values between the inner bounds in common. -/
theorem meetRanges_spec (h₁ : ∀ v ∈ [d₁, min₁, max₁], v.Of K)
    (h₂ : ∀ v ∈ [d₂, min₂, max₂], v.Of K) :
    (meetRanges K.number (Choice.range d₁ min₁ max₁).alternatives
        (Choice.range d₂ min₂ max₂).alternatives = .error (-eInval) ∧
      ∀ x : Scalar, ¬ (x.Between min₁ max₁ ∧ x.Between min₂ max₂)) ∨
    ∃ c : Choice, meetRanges K.number (Choice.range d₁ min₁ max₁).alternatives
        (Choice.range d₂ min₂ max₂).alternatives = .ok (c.type.number, c.vals.map Scalar.body) ∧
      (∀ v ∈ c.vals, v.Of K) ∧ c.Admits c.default ∧
      ∀ x, c.Admits x ↔ x.Between min₁ max₁ ∧ x.Between min₂ max₂ := by
  simp only [forall_mem_cons] at h₁ h₂
  obtain ⟨hd₁, hmin₁, hmax₁, -⟩ := h₁
  obtain ⟨hd₂, hmin₂, hmax₂, -⟩ := h₂
  obtain ⟨hlow, hlowkey⟩ := Scalar.higher_spec hmin₁ hmin₂
  obtain ⟨hhigh, hhighkey⟩ := Scalar.lower_spec hmax₁ hmax₂
  rw [meetRanges_map hmin₁.2 hmax₁.2 hmax₂.2]
  generalize hlo : min₁.higher min₂ = low at hlow hlowkey
  generalize hhi : max₁.lower max₂ = high at hhigh hhighkey
  have hinner : ∀ x : Scalar, x.Between low high ↔ x.Between min₁ max₁ ∧ x.Between min₂ max₂ := by
    intro x
    unfold Scalar.Between
    rw [hlowkey, hhighkey, max_le_iff, le_min_iff, hlow.2, hmin₁.2, hmin₂.2]
    tauto
  have horder := (hhigh.compare hlow).1
  split_ifs with hempty
  · refine .inl ⟨rfl, fun x hx => ?_⟩
    obtain ⟨-, hle, hge⟩ := (hinner x).mpr hx
    exact absurd (hle.trans hge) (not_le_of_gt (horder.mp hempty))
  · have hle : low.key ≤ high.key := le_of_not_gt fun h => hempty (horder.mpr h)
    -- whichever default is taken is between the bounds
    have hmiddle : (middle K d₁ d₂ low high).Of K ∧
        (middle K d₁ d₂ low high).Between low high := by
      unfold middle
      rcases isInRange_bounds hd₂ hlow hhigh none with ⟨hin, hres⟩ | ⟨-, hres⟩
      · rw [hres, if_pos Int.one_ne_zero]
        exact ⟨hd₂, hin⟩
      · rw [hres, if_neg fun h => h rfl]
        rcases isInRange_bounds hd₁ hlow hhigh none with ⟨hin, hres⟩ | ⟨-, hres⟩
        · rw [hres, if_pos Int.one_ne_zero]
          exact ⟨hd₁, hin⟩
        · rw [hres, if_neg fun h => h rfl]
          exact ⟨hlow, rfl, le_rfl, hle⟩
    have hall : ∀ v ∈ [middle K d₁ d₂ low high, low, high], v.Of K := by
      simp only [forall_mem_cons]
      exact ⟨hmiddle.1, hlow, hhigh, nofun⟩
    exact .inr ⟨.range _ low high, rfl, hall, hmiddle.2, hinner⟩

/-! ## Flags -/

theorem bits_common (x v w : BitVec n) :
    x ≠ 0 ∧ x &&& (v &&& w) = x ↔ (x ≠ 0 ∧ x &&& v = x) ∧ x ≠ 0 ∧ x &&& w = x := by
  constructor
  · rintro ⟨hx, h⟩
    refine ⟨⟨hx, ?_⟩, hx, ?_⟩
    · rw [← h, BitVec.and_assoc, BitVec.and_assoc, BitVec.and_comm w v, ← BitVec.and_assoc v,
        BitVec.and_self]
    · rw [← h, BitVec.and_assoc, BitVec.and_assoc, BitVec.and_self]
  · rintro ⟨⟨hx, hv⟩, -, hw⟩
    rw [← BitVec.and_assoc, hv]
    exact ⟨hx, hw⟩

theorem Scalar.BitsOf.of_same {x : Scalar} (hx : x.BitsOf w) (h : x.Same v) : x.BitsOf v := by
  cases x with
  | int a | long a | id a =>
    cases h
    cases w <;> first | exact hx.elim | exact ⟨hx.1, BitVec.and_self⟩
  | bool _ | float _ | double _ | string _ | bytes _ | rectangle _ _ | fraction _ _ | fd _ =>
    exact hx.elim

theorem commonBits_some (hv : v.kind = K) (hw : w.kind = K) {bits : List UInt8}
    (h : commonBits K.number v.body w.body = some bits) :
    ∃ u : Scalar, u.body = bits ∧ u.Of K ∧ u.BitsOf u ∧
      ∀ x : Scalar, x.BitsOf u ↔ x.BitsOf v ∧ x.BitsOf w := by
  subst hv
  cases v with
  | int a | long a =>
    cases w <;> cases hw
    next b =>
    simp only [commonBits, Scalar.kind, Kind.number, Scalar.body, Scalar.take_toLe] at h
    rw [word_toLe a (by decide), word_toLe b (by decide)] at h
    split_ifs at h with hzero
    have hcommon := Option.some.inj h
    first | refine ⟨.int (a &&& b), hcommon, ?_⟩ | refine ⟨.long (a &&& b), hcommon, ?_⟩
    refine ⟨⟨trivial, rfl⟩, ⟨hzero, BitVec.and_self⟩, fun x => ?_⟩
    cases x <;> first | exact bits_common _ a b | exact ⟨False.elim, fun h => h.1⟩
  | bool _ | id _ | float _ | double _ | string _ | bytes _ | rectangle _ _ | fraction _ _ | fd _ =>
    cases h

theorem commonBits_none (hv : v.kind = K) (hw : w.kind = K) (hid : v.kind ≠ .id)
    (h : commonBits K.number v.body w.body = none) (x : Scalar) : ¬ (x.BitsOf v ∧ x.BitsOf w) := by
  subst hv
  cases v with
  | int a | long a =>
    cases w <;> cases hw
    next b =>
    simp only [commonBits, Scalar.kind, Kind.number, Scalar.body, Scalar.take_toLe] at h
    rw [word_toLe a (by decide), word_toLe b (by decide)] at h
    split_ifs at h with hzero
    cases x <;> first | exact fun hx => hx.1.elim | skip
    rintro hx
    obtain ⟨hne, hand⟩ := (bits_common _ a b).mpr hx
    rw [hzero] at hand
    exact hne (hand.symm.trans BitVec.and_zero)
  | id a => exact absurd rfl hid
  | bool _ | float _ | double _ | string _ | bytes _ | rectangle _ _ | fraction _ _ | fd _ =>
    cases x <;> exact fun hx => hx.1.elim

theorem commonBits_comm (type : ℕ) (r₁ r₂ : List UInt8) :
    commonBits type r₁ r₂ = commonBits type r₂ r₁ := by
  unfold commonBits
  rw [BitVec.and_comm (word 32 (r₁.take 4)), BitVec.and_comm (word 64 (r₁.take 8))]

/-- The result of the filter for common bits. -/
def bitsChoice : Option (List UInt8) → Except Int (ℕ × List (List UInt8))
  | some bits => .ok (ChoiceType.flags.number, [bits])
  | none => .error (-eInval)

/-- **Common bits** stand for the values that have only them. -/
theorem bitsChoice_stands {bits : Option (List UInt8)}
    (h : ∀ r, bits = some r → ∃ v : Scalar, v.body = r ∧ v.Of K ∧ v.BitsOf v ∧
      ∀ x : Scalar, x.BitsOf v ↔ S x) : Stands S (bitsChoice bits) := by
  cases bits with
  | none => trivial
  | some r =>
    obtain ⟨v, rfl, hv, hself, hS⟩ := h r rfl
    exact ⟨.flags v, Choice.valid_of_all (forall_mem_singleton.mpr hv) hself, rfl, rfl,
      fun x _ => hS x⟩

theorem none_flags (hv : v.kind = K) (hw : w.kind = K) (hbits : v.kind ≠ .id → ∀ x : Scalar,
      x.Ordered → x.BitsOf v → x.BitsOf w → x.Same v) :
    Stands (fun x => x.Same v ∧ x.BitsOf w) (bitsChoice (commonBits K.number v.body w.body)) := by
  by_cases hid : v.kind = .id
  · have herror : commonBits K.number v.body w.body = none := by
      rw [← hv, hid]
      rfl
    rw [herror]
    trivial
  · have hboth : Stands (fun x => x.BitsOf v ∧ x.BitsOf w)
        (bitsChoice (commonBits K.number v.body w.body)) :=
      bitsChoice_stands fun _ hr => commonBits_some hv hw hr
    exact hboth.congr fun x hx => and_congr_left fun hw =>
      ⟨fun hv => hbits hid x hx hv hw, fun hsame => hw.of_same hsame⟩

/-! ## All choices -/

theorem Choice.Valid.isValidChoice_ne (hc : c.Valid) (hkind : c.default.kind = K) :
    isValidChoice K.number (alternative c.alternatives.vals 0) c.alternatives.vals
      c.alternatives.choice ≠ 0 := by
  have hordered := hc.ordered _ c.default_mem
  have hranged : c.Ranged → rangeRes K.number c.alternatives c.default.body ≠ 0 := fun h hzero =>
    (rangeRes_eq hc h hkind ⟨hordered, hkind⟩ (by rw [hzero]; decide)).mpr hc.default hzero
  cases c with
  | none v =>
    have hzero : v.compare v = 0 := (Scalar.compare_key_eq hordered hordered rfl).mpr rfl
    show (if compareValue K.number v.body v.body = 0 then (1 : Int) else 0) ≠ 0
    rw [compareValue_body (v := v) hkind, if_pos hzero]
    decide
  | enum d vs =>
    obtain ⟨v, hv, hsame⟩ := hc.default
    have hv' := hc.ordered v (mem_cons_of_mem _ hv)
    obtain ⟨hkinds, hkey⟩ := hsame.key_eq hordered hv'
    have hany : ((vs.map Scalar.body).any fun next =>
        compareValue K.number d.body next = 0) = true := by
      rw [any_eq_true]
      refine ⟨v.body, mem_map_of_mem hv, ?_⟩
      rw [compareValue_body (v := d) hkind, decide_eq_true_eq]
      exact (Scalar.compare_key_eq hordered hv' hkinds).mpr hkey
    show (if (vs.map Scalar.body).any fun next => compareValue K.number d.body next = 0
      then (1 : Int) else 0) ≠ 0
    rw [if_pos hany]
    decide
  | range d min max => exact hranged (.inl rfl)
  | step d min max s => exact hranged (.inr rfl)
  | flags v => exact Int.one_ne_zero

theorem Choice.sorts (c : Choice) : c.Listed ∨ c.Ranged ∨ ∃ v, c = .flags v := by
  cases c with
  | none v => exact .inl (.inl rfl)
  | enum d vs => exact .inl (.inr rfl)
  | range d min max => exact .inr (.inl (.inl rfl))
  | step d min max s => exact .inr (.inl (.inr rfl))
  | flags v => exact .inr (.inr ⟨v, rfl⟩)

theorem Choice.Listed.alternatives (h : c.Listed) :
    c.alternatives.listed = true ∧ c.alternatives.ranged = false := by
  cases c <;> first | exact ⟨rfl, rfl⟩ | rcases h with h | h <;> cases h

theorem Choice.Ranged.alternatives (h : c.Ranged) :
    c.alternatives.listed = false ∧ c.alternatives.ranged = true := by
  cases c <;> first | exact ⟨rfl, rfl⟩ | rcases h with h | h <;> cases h

theorem Choice.Valid.admits_listed (hc : c.Valid) (h : c.Listed) (x : Scalar) :
    c.Admits x ↔ ∃ v ∈ c.vals, x.Same v := by
  cases c with
  | none v =>
    exact ⟨fun hx => ⟨v, mem_cons_self, hx⟩, fun ⟨w, hw, hx⟩ => by
      rwa [mem_singleton.mp hw] at hx⟩
  | enum d vs => exact hc.admits_enum x
  | range _ _ _ | step _ _ _ _ | flags _ => rcases h with h | h <;> cases h

/-- A choice with bounds is a range, as far as its step is left out. -/
theorem Choice.Ranged.bounds (h : c.Ranged) (hall : ∀ v ∈ c.vals, v.Of K) : ∃ d min max,
    c.withoutStep = .range d min max ∧ (∀ v ∈ [d, min, max], v.Of K) ∧
      ∀ x, c.Admits x → x.Between min max := by
  cases c with
  | range d min max => exact ⟨d, min, max, rfl, hall, fun _ hx => hx⟩
  | step d min max s =>
    refine ⟨d, min, max, rfl, fun v hv => hall v ?_, fun _ hx => hx.1⟩
    exact (mem_append_left [s] hv :)
  | none _ | enum _ _ | flags _ => rcases h with h | h <;> cases h

theorem meetBranch_flags (c : Choice) (type : ℕ) (v : Scalar) :
    (meetBranch type c.alternatives (Choice.flags v).alternatives).isOk =
      (meetBranch type (Choice.flags v).alternatives c.alternatives).isOk := by
  cases c with
  | none w | flags w =>
    show (bitsChoice (commonBits type w.body v.body)).isOk =
      (bitsChoice (commonBits type v.body w.body)).isOk
    rw [commonBits_comm]
  | enum _ _ | range _ _ _ | step _ _ _ _ => exact (rfl : _ = false).trans rfl

section

variable {c₁ c₂ : Choice} (hc₁ : c₁.Valid) (hc₂ : c₂.Valid) (hkind₁ : c₁.default.kind = K)
  (hkind₂ : c₂.default.kind = K)

include hc₂ hkind₂ in
theorem meet_valid (c₁ : Choice) : meet K.number c₁.alternatives c₂.alternatives =
    meetBranch K.number c₁.alternatives c₂.alternatives :=
  if_neg (hc₂.isValidChoice_ne hkind₂)

include hc₂ hkind₂ in
theorem meet_range_list (h₁ : c₁.Ranged) (h₂ : c₂.Listed) :
    meet K.number c₁.alternatives c₂.alternatives =
      valuesInRange K.number c₁.alternatives (c₂.vals.map Scalar.body) >>= listing none := by
  rw [meet_valid hc₂ hkind₂]
  simp only [meetBranch, h₁.alternatives, h₂.alternatives, Bool.and_self, Bool.and_false,
    Bool.false_and, if_true]
  rfl

section

include hc₁ hc₂ hkind₁ hkind₂

theorem meet_lists (h₁ : c₁.Listed) (h₂ : c₂.Listed) :
    meet K.number c₁.alternatives c₂.alternatives = listing none
      ((c₂.vals.flatMap fun w => c₁.vals.filter fun v => v.compare w = 0).map Scalar.body) := by
  rw [meet_valid hc₂ hkind₂, ← equalValues_map fun v hv => (hc₁.all hkind₁ v hv).2]
  simp only [meetBranch, h₁.alternatives, h₂.alternatives, Bool.and_self, if_true]
  rfl

theorem meet_list_range (h₁ : c₁.Listed) (h₂ : c₂.Ranged) :
    meet K.number c₁.alternatives c₂.alternatives =
      valuesInRange K.number c₂.alternatives (c₁.vals.map Scalar.body) >>=
        listing ((c₁.vals.find? fun v => v.compare c₂.default = 0).map Scalar.body) := by
  rw [meet_valid hc₂ hkind₂, ← findDefault_map hc₂ h₂ hkind₂ (hc₁.all hkind₁)]
  simp only [meetBranch, h₁.alternatives, h₂.alternatives, Bool.and_self, Bool.and_false, if_true]
  rfl

theorem meet_ranges (h₁ : c₁.Ranged) (h₂ : c₂.Ranged) :
    meet K.number c₁.alternatives c₂.alternatives =
      meetRanges K.number c₁.withoutStep.alternatives c₂.withoutStep.alternatives := by
  rw [meet_valid hc₂ hkind₂]
  simp only [meetBranch, h₁.alternatives, h₂.alternatives, Bool.and_self, Bool.and_false,
    Bool.false_and, if_true]
  cases c₁ <;> cases c₂ <;> rfl

end

include hc₁ hc₂ hkind₁ hkind₂ in
/-- **What two choices have in common is the intersection of their sets.** -/
theorem meet_common (hmeets₁ : c₁.Meets c₂) (hmeets₂ : c₂.Meets c₁) :
    Stands (fun x => c₁.Admits x ∧ c₂.Admits x)
      (meet K.number c₁.alternatives c₂.alternatives) := by
  have hall₁ := hc₁.all hkind₁
  have hall₂ := hc₂.all hkind₂
  rcases c₁.sorts with h₁ | h₁ | ⟨v, rfl⟩
  · rcases c₂.sorts with h₂ | h₂ | ⟨w, rfl⟩
    · rw [meet_lists hc₁ hc₂ hkind₁ hkind₂ h₁ h₂]
      refine (equalValues_stands hall₁ hall₂ fun v hv w hw hzero => ?_).congr fun x hx => ?_
      · exact (hc₂.admits_listed h₂ v).mp (hmeets₁.lists h₁ h₂ v hv w hw hzero)
      · rw [hc₁.admits_listed h₁, hc₂.admits_listed h₂]
    · rw [meet_list_range hc₁ hc₂ hkind₁ hkind₂ h₁ h₂]
      refine (valuesInRange_stands hc₂ h₂ hkind₂ hall₁ fun a ha => ?_).congr fun x hx => ?_
      · refine ⟨mem_of_find?_eq_some ha, fun hchecked hsome => ?_⟩
        refine hmeets₁.default h₁ h₂ (fun v hv => ?_) hsome a ha
        rw [(hall₁ v hv).2]
        exact hchecked v hv
      · rw [hc₁.admits_listed h₁]
    · -- a value and a mask
      cases c₁ with
      | none v =>
        rw [meet_valid hc₂ hkind₂]
        exact none_flags hkind₁ hkind₂ (hmeets₁.bits v w rfl rfl)
      | enum d vs =>
        rw [meet_valid hc₂ hkind₂]
        trivial
      | range _ _ _ | step _ _ _ _ | flags _ => rcases h₁ with h | h <;> cases h
  · rcases c₂.sorts with h₂ | h₂ | ⟨w, rfl⟩
    · rw [meet_range_list hc₂ hkind₂ h₁ h₂]
      refine (valuesInRange_stands hc₁ h₁ hkind₁ hall₂ fun a (h : none = some a) => nomatch h).congr
        fun x hx => ?_
      rw [hc₂.admits_listed h₂, and_comm]
    · obtain ⟨d₁, min₁, max₁, heq₁, hbounds₁, hin₁⟩ := h₁.bounds hall₁
      obtain ⟨d₂, min₂, max₂, heq₂, hbounds₂, hin₂⟩ := h₂.bounds hall₂
      rw [meet_ranges hc₁ hc₂ hkind₁ hkind₂ h₁ h₂, heq₁, heq₂]
      rcases meetRanges_spec hbounds₁ hbounds₂ with ⟨herror, -⟩ | ⟨c, hok, hall, hdefault, hset⟩
      · rw [herror]
        trivial
      · rw [hok]
        refine ⟨c, Choice.valid_of_all hall hdefault, rfl, rfl, fun x hx => (hset x).trans ⟨?_, ?_⟩⟩
        · rintro ⟨hx₁, hx₂⟩
          exact hmeets₁.ranges h₁ h₂ x hx (heq₁ ▸ hx₁) (heq₂ ▸ hx₂)
        · rintro ⟨hx₁, hx₂⟩
          exact ⟨hin₁ x hx₁, hin₂ x hx₂⟩
    · -- a range and a mask
      cases c₁ with
      | range _ _ _ | step _ _ _ _ =>
        rw [meet_valid hc₂ hkind₂]
        trivial
      | none _ | enum _ _ | flags _ => rcases h₁ with h | h <;> cases h
  · rw [meet_valid hc₂ hkind₂]
    cases c₂ with
    | none w =>
      have hstands := none_flags hkind₂ hkind₁ (hmeets₂.bits w v rfl rfl)
      rw [commonBits_comm] at hstands
      exact hstands.congr fun x hx => and_comm
    | flags w => exact bitsChoice_stands fun _ hr => commonBits_some hkind₁ hkind₂ hr
    | enum _ _ | range _ _ _ | step _ _ _ _ => trivial

/-! ### Other pairs -/

omit K in
theorem Choice.eq_of_vals {c' : Choice} (htype : toLe 4 c.type.number = toLe 4 c'.type.number)
    (hvals : c.vals = c'.vals) : c = c' := by
  have hsmall : ∀ c : Choice, c.type.number < 2 ^ (8 * 4) := fun c => by
    cases c <;> exact Nat.le_of_ble_eq_true rfl
  have htype := congrArg ofLe htype
  rw [ofLe_toLe (hsmall c), ofLe_toLe (hsmall c')] at htype
  cases c <;> cases c' <;> simp_all [Choice.type, ChoiceType.number, Choice.vals]

/-- **The bytes of a choice tell it**, and so its set. -/
theorem Stands.admits (h : Stands S (.ok (c.type.number, c.vals.map Scalar.body)))
    (hall : ∀ v ∈ c.vals, v.Of K) (hS : ∀ x : Scalar, x.Ordered → S x → x.kind = K) :
    c.Admits c.default ∧ ∀ x : Scalar, x.Ordered → (c.Admits x ↔ S x) := by
  obtain ⟨c', hc', htype, hvals, hset⟩ := h
  have hdefault := hc'.ordered _ c'.default_mem
  have hkind := hS _ hdefault ((hset _ hdefault).mp hc'.default)
  obtain rfl := Choice.eq_of_vals htype (eq_of_flatMap_body (hc'.all hkind) hall
    (hvals.trans (flatMap_def ..).symm))
  exact ⟨hc'.default, hset⟩

/-- A listing that stands for a set has only values of the set, and so has its default. -/
theorem listing_mem (h : Stands S (listing (default.map Scalar.body) (l.map Scalar.body)))
    (hl : ∀ v ∈ l, v.Of K) (hdefault : ∀ a, default = some a → a.Of K)
    (hS : ∀ x : Scalar, x.Ordered → S x → x.kind = K) :
    (∀ a, default = some a → l ≠ [] → S a) ∧ (default = none → ∀ v ∈ l, S v) := by
  have hfirst : ∀ a ∈ l, (default.getD a).Of K := fun a ha => by
    cases default with
    | none => exact hl a ha
    | some d => exact hdefault d rfl
  match l with
  | [] => exact ⟨fun _ _ hne => absurd rfl hne, fun _ => nofun⟩
  | [a] =>
    have hfirst := hfirst a mem_cons_self
    rw [map_singleton, listing, getD_body] at h
    obtain ⟨hadmits, hset⟩ := Stands.admits (c := .none (default.getD a)) h
      (forall_mem_singleton.mpr hfirst) hS
    have hmem := (hset _ hfirst.1).mp hadmits
    refine ⟨fun d hd _ => ?_, fun hnone => forall_mem_singleton.mpr ?_⟩
    · rwa [hd] at hmem
    · rwa [hnone] at hmem
  | a :: b :: l =>
    have hfirst := hfirst a mem_cons_self
    rw [map_cons, map_cons, listing, getD_body] at h
    obtain ⟨hadmits, hset⟩ := Stands.admits (c := .enum (default.getD a) (a :: b :: l)) h
      (forall_mem_cons.mpr ⟨hfirst, hl⟩) hS
    refine ⟨fun d hd _ => ?_, fun _ v hv => ?_⟩
    · have hmem := (hset _ hfirst.1).mp hadmits
      rwa [hd] at hmem
    · exact (hset v (hl v hv).1).mp ⟨v, hv, Scalar.Same.refl v⟩

include hc₁ hc₂ hkind₁ hkind₂ in
/-- **For other pairs it is not.** -/
theorem meets_of_stands (h : Stands (fun x => c₁.Admits x ∧ c₂.Admits x)
    (meet K.number c₁.alternatives c₂.alternatives)) : c₁.Meets c₂ := by
  have hall₁ := hc₁.all hkind₁
  have hall₂ := hc₂.all hkind₂
  have hS : ∀ x : Scalar, x.Ordered → c₁.Admits x ∧ c₂.Admits x → x.kind = K := fun x hx hadmits =>
    (hc₁.admits_kind hx hadmits.1).trans hkind₁
  refine ⟨fun h₁ h₂ v hv w hw hzero => ?_, fun h₁ h₂ hchecked ⟨v, hv, hadmits⟩ a ha => ?_,
    fun h₁ h₂ x hx hx₁ hx₂ => ?_, fun v w h₁ h₂ hid x hx hxv hxw => ?_⟩
  · rw [meet_lists hc₁ hc₂ hkind₁ hkind₂ h₁ h₂] at h
    obtain ⟨-, hmem⟩ := listing_mem h (fun v hv => hall₁ v (mem_equal.mp hv).1)
      (fun a (h : none = some a) => nomatch h) hS
    exact (hmem rfl v (mem_equal.mpr ⟨hv, w, hw, hzero⟩)).2
  · rw [meet_list_range hc₁ hc₂ hkind₁ hkind₂ h₁ h₂] at h
    rcases valuesInRange_map hc₂ h₂ hkind₂ hall₁ with ⟨-, v', hv', hneg⟩ | ⟨-, l, hl, hmem⟩
    · have hkind := (hall₁ v' hv').2
      exact absurd (hkind ▸ hneg) (hchecked v' hv')
    · rw [hl] at h
      exact ((listing_mem h (fun v hv => hall₁ v ((hmem v).mp hv).1)
        (fun a ha => hall₁ a (mem_of_find?_eq_some ha)) hS).1 a ha
        (ne_nil_of_mem ((hmem v).mpr ⟨hv, hadmits⟩))).2
  · obtain ⟨d₁, min₁, max₁, heq₁, hbounds₁, -⟩ := h₁.bounds hall₁
    obtain ⟨d₂, min₂, max₂, heq₂, hbounds₂, -⟩ := h₂.bounds hall₂
    rw [meet_ranges hc₁ hc₂ hkind₁ hkind₂ h₁ h₂, heq₁, heq₂] at h
    rw [heq₁] at hx₁
    rw [heq₂] at hx₂
    rcases meetRanges_spec hbounds₁ hbounds₂ with ⟨-, hnone⟩ | ⟨c, hok, hall, -, hset⟩
    · exact absurd ⟨hx₁, hx₂⟩ (hnone x)
    · rw [hok] at h
      exact ((h.admits hall hS).2 x hx).mp ((hset x).mpr ⟨hx₁, hx₂⟩)
  · subst h₁ h₂
    have hbits : Stands (fun x => x.Same v ∧ x.BitsOf w)
        (bitsChoice (commonBits K.number v.body w.body)) := by
      rwa [meet_valid hc₂ hkind₂] at h
    cases hcommon : commonBits K.number v.body w.body with
    | none => exact absurd ⟨hxv, hxw⟩ (commonBits_none hkind₁ hkind₂ hid hcommon x)
    | some r =>
      obtain ⟨u, rfl, hu, -, hset⟩ := commonBits_some hkind₁ hkind₂ hcommon
      rw [hcommon] at hbits
      exact (((Stands.admits (c := .flags u) hbits (forall_mem_singleton.mpr hu) hS).2 x hx).mp
        ((hset x).mpr ⟨hxv, hxw⟩)).1

/-! ### Errors and the order of the arguments -/

omit K in
theorem listing_error {default : Option (List UInt8)} {l : List (List UInt8)} {res : Int}
    (h : listing default l = .error res) : res < 0 := by
  match l with
  | [] =>
    cases h
    decide
  | [_] | _ :: _ :: _ => cases h

omit K in
theorem valuesInRange_listing_error {type : ℕ} {c : Alternatives} {as : List (List UInt8)}
    {default : Option (List UInt8)} {res : Int}
    (h : (valuesInRange type c as >>= listing default) = .error res) : res < 0 := by
  rcases valuesInRange_spec type c as with ⟨hl, -⟩ | ⟨⟨res, hres, hlt⟩, -⟩
  · rw [hl] at h
    exact listing_error h
  · rw [hres] at h
    cases h
    exact hlt

omit K in
/-- **Without a common choice there is an error number.** -/
theorem meetBranch_error {type : ℕ} {c₁ c₂ : Alternatives} {res : Int}
    (h : meetBranch type c₁ c₂ = .error res) : res < 0 := by
  unfold meetBranch at h
  split_ifs at h
  · exact listing_error h
  · exact valuesInRange_listing_error h
  · exact valuesInRange_listing_error h
  · unfold meetRanges at h
    dsimp only at h
    split_ifs at h <;> cases h <;> decide
  · split at h <;> cases h
    decide
  · cases h
    decide
  · cases h
    decide

omit K in
theorem isOk_listing (default : Option (List UInt8)) (l : List (List UInt8)) :
    (listing default l).isOk = !l.isEmpty := by
  match l with
  | [] | [_] | _ :: _ :: _ => rfl

omit K in
theorem isOk_listing_bind (r : Except Int (List (List UInt8))) (default : Option (List UInt8)) :
    (r >>= listing default).isOk = (r >>= listing none).isOk := by
  cases r with
  | error res => rfl
  | ok l =>
    show (listing default l).isOk = (listing none l).isOk
    rw [isOk_listing, isOk_listing]

theorem equalValues_comm (hvs₁ : ∀ v ∈ vs₁, v.Of K) (hvs₂ : ∀ v ∈ vs₂, v.Of K) :
    ((vs₂.flatMap fun w => vs₁.filter fun v => v.compare w = 0).map Scalar.body).isEmpty =
      ((vs₁.flatMap fun w => vs₂.filter fun v => v.compare w = 0).map Scalar.body).isEmpty := by
  rw [Bool.eq_iff_iff]
  simp only [List.isEmpty_iff, map_eq_nil_iff, flatMap_eq_nil_iff, filter_eq_nil_iff,
    decide_eq_true_eq]
  have hsymm : ∀ v ∈ vs₁, ∀ w ∈ vs₂, v.compare w = 0 ↔ w.compare v = 0 := fun v hv w hw => by
    rw [(hvs₁ v hv).compare_eq (hvs₂ w hw), (hvs₂ w hw).compare_eq (hvs₁ v hv)]
    exact eq_comm
  exact ⟨fun h v hv w hw hzero => h w hw v hv ((hsymm v hv w hw).mpr hzero),
    fun h w hw v hv hzero => h v hv w hw ((hsymm v hv w hw).mp hzero)⟩

theorem meetRanges_comm (h₁ : ∀ v ∈ [d₁, min₁, max₁], v.Of K)
    (h₂ : ∀ v ∈ [d₂, min₂, max₂], v.Of K) :
    (meetRanges K.number (Choice.range d₁ min₁ max₁).alternatives
        (Choice.range d₂ min₂ max₂).alternatives).isOk =
      (meetRanges K.number (Choice.range d₂ min₂ max₂).alternatives
        (Choice.range d₁ min₁ max₁).alternatives).isOk := by
  rcases meetRanges_spec h₁ h₂ with ⟨herror, hnone⟩ | ⟨c, hok, -, hdefault, hset⟩
  · rcases meetRanges_spec h₂ h₁ with ⟨herror', -⟩ | ⟨c', -, -, hdefault', hset'⟩
    · rw [herror, herror']
    · exact absurd ((hset' _).mp hdefault').symm (hnone _)
  · rcases meetRanges_spec h₂ h₁ with ⟨-, hnone'⟩ | ⟨c', hok', -⟩
    · exact absurd ((hset _).mp hdefault).symm (hnone' _)
    · rw [hok, hok']
      rfl

include hc₁ hc₂ hkind₁ hkind₂ in
/-- **It does not matter which choice is the filter**, for the success. -/
theorem meet_isOk_comm : (meet K.number c₁.alternatives c₂.alternatives).isOk =
    (meet K.number c₂.alternatives c₁.alternatives).isOk := by
  have hall₁ := hc₁.all hkind₁
  have hall₂ := hc₂.all hkind₂
  rcases c₁.sorts with h₁ | h₁ | ⟨v, rfl⟩
  · rcases c₂.sorts with h₂ | h₂ | ⟨w, rfl⟩
    · rw [meet_lists hc₁ hc₂ hkind₁ hkind₂ h₁ h₂, meet_lists hc₂ hc₁ hkind₂ hkind₁ h₂ h₁, isOk_listing,
        isOk_listing, equalValues_comm hall₁ hall₂]
    · rw [meet_list_range hc₁ hc₂ hkind₁ hkind₂ h₁ h₂, meet_range_list hc₁ hkind₁ h₂ h₁]
      exact isOk_listing_bind _ _
    · rw [meet_valid hc₂ hkind₂, meet_valid hc₁ hkind₁]
      exact meetBranch_flags c₁ K.number w
  · rcases c₂.sorts with h₂ | h₂ | ⟨w, rfl⟩
    · rw [meet_range_list hc₂ hkind₂ h₁ h₂, meet_list_range hc₂ hc₁ hkind₂ hkind₁ h₂ h₁]
      exact (isOk_listing_bind _ _).symm
    · obtain ⟨_, _, _, heq₁, hbounds₁, -⟩ := h₁.bounds hall₁
      obtain ⟨_, _, _, heq₂, hbounds₂, -⟩ := h₂.bounds hall₂
      rw [meet_ranges hc₁ hc₂ hkind₁ hkind₂ h₁ h₂, meet_ranges hc₂ hc₁ hkind₂ hkind₁ h₂ h₁, heq₁, heq₂]
      exact meetRanges_comm hbounds₁ hbounds₂
    · rw [meet_valid hc₂ hkind₂, meet_valid hc₁ hkind₁]
      exact meetBranch_flags c₁ K.number w
  · rw [meet_valid hc₂ hkind₂, meet_valid hc₁ hkind₁]
    exact (meetBranch_flags c₂ K.number v).symm

end

end

/-! ## Properties -/

/-- What `spa_pod_filter_prop` leaves: an error, or behind the text a property with a choice that
stands for the set `S`. -/
def Filters (capacity : ℕ) (t : Text) (key flags : BitVec 32) (S : Scalar → Prop)
    (r : Int × Builder) : Prop :=
  r.1 < 0 ∨ r.1 = 0 ∧ ∃ c : Choice, c.Valid ∧ Kept capacity r.2 (t.put (c.property key flags)) ∧
    ∀ x : Scalar, x.Ordered → (c.Admits x ↔ S x)

theorem podBytes_inj {kind : Kind} {xs ys : List UInt8} (h : podBytes kind xs = podBytes kind ys)
    (hlen : (podBytes kind xs).length < 2 ^ 32) : xs = ys := by
  have hlen' := h ▸ hlen
  rw [length_podBytes] at hlen hlen'
  have hxs : xs.length < 2 ^ (8 * 4) := by omega
  have hys : ys.length < 2 ^ (8 * 4) := by omega
  rw [podBytes, podBytes, append_assoc, append_assoc] at h
  obtain ⟨hheader, hrest⟩ := append_inj h (by simp [Header.bytes])
  have hsize := congrArg ofLe (append_inj hheader (by simp)).1
  rw [ofLe_toLe hxs, ofLe_toLe hys] at hsize
  exact (append_inj hrest hsize).1

/-- The bytes of a property tell the kind and the values of its choice. -/
theorem propBytes_eq_iff {key flags : BitVec 32} {kind kind' : ℕ} {child : Header}
    {vals vals' : List (List UInt8)} (hlen : (propBytes key flags kind child vals).length < 2 ^ 32) :
    propBytes key flags kind child vals = propBytes key flags kind' child vals' ↔
      toLe 4 kind = toLe 4 kind' ∧ vals.flatten = vals'.flatten := by
  constructor
  · intro h
    have hpod := podBytes_inj (append_cancel_left h) (by
      rw [propBytes, length_append] at hlen
      omega)
    obtain ⟨hkind, hrest⟩ := append_inj hpod (by simp)
    exact ⟨hkind, append_cancel_left (append_cancel_left hrest)⟩
  · rintro ⟨hkind, hvals⟩
    rw [propBytes, propBytes, hkind, hvals]

theorem Kept.put_inj {capacity : ℕ} {b : Builder} {t : Text} {xs ys : List UInt8}
    (h : Kept capacity b (t.put xs)) (h' : Kept capacity b (t.put ys)) : xs = ys := by
  have hle : b.offset ≤ b.data.length := by
    rw [h.follows.offset, h.length]
    exact h.fits
  exact append_cancel_left ((h.follows.bytes hle).symm.trans (h'.follows.bytes hle))

theorem Choice.propBytes_eq (c : Choice) (key flags : BitVec 32) {child : Header}
    (h : c.default.header = child) :
    propBytes key flags c.type.number child (c.vals.map Scalar.body) = c.property key flags := by
  have hchild : childHeader c.vals = child := by
    rw [← h]
    cases c <;> rfl
  have htype : (BitVec.ofNat 32 c.type.number).toNat = c.type.number := by cases c <;> rfl
  rw [propBytes, property, Tree.bytes, tree, Tree.body, valuesBytes, hchild, htype,
    ← flatMap_def, append_assoc (toLe 4 c.type.number)]
  rfl

theorem Choice.vals_cons (c : Choice) : ∃ vs, c.vals = c.default :: vs := by
  cases c <;> exact ⟨_, rfl⟩

theorem Choice.offered_eq (c : Choice) :
    offered (BitVec.ofNat 32 c.type.number) c.vals = c.alternatives := by
  have htype : (BitVec.ofNat 32 c.type.number).toNat = c.type.number := by cases c <;> rfl
  rw [offered, htype, alternatives]

theorem Choice.length_alternatives (c : Choice) : c.alternatives.vals.length = c.vals.length :=
  length_map _

section

variable {c₁ c₂ : Choice} {m₁ m₂ : Memory} {p₁ p₂ : ℕ} {e₁ e₂ : Entry} {capacity : ℕ} {b : Builder}
  {t : Text}

theorem Scalar.Ordered.header_size (hv : v.Ordered) :
    (v.header.type = 4 → v.header.size = 4) ∧ (v.header.type = 5 → v.header.size = 8) := by
  cases v with
  | int _ | long _ | id _ | rectangle _ _ | fraction _ _ =>
    constructor
    · intro h
      first | exact length_toLe _ _ | cases h
    · intro h
      first | exact length_toLe _ _ | cases h
  | bool _ | float _ | double _ | string _ | bytes _ | fd _ => exact hv.elim

/-- **A property is filtered** as its choices are. -/
theorem filterProp_filters (hc₁ : c₁.Valid) (hc₂ : c₂.Valid)
    (h₁ : Offer m₁ p₁ e₁ (BitVec.ofNat 32 c₁.type.number) c₁.vals)
    (h₂ : Offer m₂ p₂ e₂ (BitVec.ofNat 32 c₂.type.number) c₂.vals) (hkey : e₁.key = e₂.key)
    (h : Kept capacity b t) (hcap : capacity < 2 ^ 32) (hflags : t.flags = ⟨false, false⟩)
    (halign : t.bytes.length % 8 = 0) (hfits : t.bytes.length + (40 + c₁.default.header.size *
      ((c₁.vals.length + 1) * (c₂.vals.length + 1))) ≤ capacity) :
    ∃ r, filterProp m₁ m₂ b p₁ p₂ = .ok r ∧
      (Filters capacity t e₁.key (e₁.flags &&& e₂.flags) (fun x => c₁.Admits x ∧ c₂.Admits x) r ↔
        (c₁.default.kind = c₂.default.kind → Stands (fun x => c₁.Admits x ∧ c₂.Admits x)
          (meet c₁.default.kind.number c₁.alternatives c₂.alternatives))) ∧
      (0 ≤ r.1 ↔ c₁.default.kind = c₂.default.kind ∧
        (meet c₁.default.kind.number c₁.alternatives c₂.alternatives).isOk = true) := by
  obtain ⟨vs₁, hvs₁⟩ := c₁.vals_cons
  obtain ⟨vs₂, hvs₂⟩ := c₂.vals_cons
  have hordered := hc₁.ordered _ c₁.default_mem
  have hoffer₁ := hvs₁ ▸ h₁
  have hoffer₂ := hvs₂ ▸ h₂
  by_cases hkind : c₁.default.kind = c₂.default.kind
  · have hheader := Scalar.header_eq hordered hkind
    have hsizes : ∀ c : Choice, c.Valid → c.default.kind = c₁.default.kind →
        ∀ a ∈ c.alternatives.vals, a.length = c₁.default.header.size := by
      intro c hc hkinds a ha
      obtain ⟨v, hv, rfl⟩ := mem_map.mp ha
      exact congrArg Header.size (Scalar.header_eq (hc.ordered v hv) ((hc.kind v hv).trans hkinds))
    have hne : ∀ c : Choice, c.alternatives.vals ≠ [] := fun c => by cases c <;> nofun
    have hwrites : Writes capacity t e₁.key (e₁.flags &&& e₂.flags) c₁.default.header
        (filterValues b e₁.key (e₁.flags &&& e₂.flags) c₁.default.header c₁.alternatives
          c₂.alternatives) (meet c₁.default.kind.number c₁.alternatives c₂.alternatives) :=
      filterValues_eq hcap hflags halign h.follows.inside (hsizes c₁ hc₁ rfl)
        (hsizes c₂ hc₂ hkind.symm) (hne c₁) (hne c₂) hordered.header_size.1 hordered.header_size.2
        (by rw [Choice.length_alternatives, Choice.length_alternatives]; exact hfits) h
    refine ⟨_, filterProp_eq b hoffer₁ hoffer₂ hkey hheader, ?_⟩
    rw [← hvs₁, ← hvs₂, c₁.offered_eq, c₂.offered_eq]
    cases hmeet : meet c₁.default.kind.number c₁.alternatives c₂.alternatives with
    | error res =>
      rw [hmeet] at hwrites
      rw [meet_valid hc₂ hkind.symm] at hmeet
      have hneg : (filterValues b e₁.key (e₁.flags &&& e₂.flags) c₁.default.header c₁.alternatives
          c₂.alternatives).1 < 0 := lt_of_eq_of_lt hwrites (meetBranch_error hmeet)
      exact ⟨iff_of_true (.inl hneg) fun _ => trivial,
        fun hle => absurd hle (not_le_of_gt hneg), fun hok => nomatch hok.2⟩
    | ok result =>
      rw [hmeet] at hwrites
      obtain ⟨hzero, hkept⟩ := hwrites
      have hlen : (propBytes e₁.key (e₁.flags &&& e₂.flags) result.1 c₁.default.header
          result.2).length < 2 ^ 32 := by
        have := hkept.fits
        rw [Text.length_put] at this
        omega
      -- the choice that is written has values of the type of both
      have hproperty : ∀ c : Choice, c.Valid →
          (∀ x : Scalar, x.Ordered → (c.Admits x ↔ c₁.Admits x ∧ c₂.Admits x)) →
          propBytes e₁.key (e₁.flags &&& e₂.flags) c.type.number c₁.default.header
            (c.vals.map Scalar.body) = c.property e₁.key (e₁.flags &&& e₂.flags) := by
        intro c hc hset
        have hdefault := hc.ordered _ c.default_mem
        have hadmits := ((hset _ hdefault).mp hc.default).1
        exact c.propBytes_eq _ _ (Scalar.header_eq hdefault (hc₁.admits_kind hdefault hadmits))
      refine ⟨⟨fun hfilters _ => ?_, fun hstands => ?_⟩, fun _ => ⟨hkind, rfl⟩,
        fun _ => le_of_eq hzero.symm⟩
      · rcases hfilters with hneg | ⟨-, c, hc, hkept', hset⟩
        · exact absurd hzero (ne_of_lt hneg)
        · rw [← hproperty c hc hset] at hkept'
          obtain ⟨htype, hvals⟩ := (propBytes_eq_iff hlen).mp (hkept.put_inj hkept')
          exact ⟨c, hc, htype.symm, hvals.symm, hset⟩
      · obtain ⟨c, hc, htype, hvals, hset⟩ := hstands hkind
        refine .inr ⟨hzero, c, hc, ?_, hset⟩
        rwa [← hproperty c hc hset, ← (propBytes_eq_iff hlen).mpr ⟨htype.symm, hvals.symm⟩]
  · -- the headers have the types
    have hheader : c₁.default.header ≠ c₂.default.header := fun heq =>
      hkind (Scalar.Kind.number_inj (congrArg Header.type heq))
    have hneg : -eInval < 0 := by decide
    exact ⟨_, filterProp_differ b hoffer₁ hoffer₂ (.inr hheader),
      iff_of_true (.inl hneg) fun hk => absurd hk hkind,
      fun hle => absurd hle (not_le_of_gt hneg), fun hk => absurd hk.1 hkind⟩

/-- **Filtering is intersection**, for the pairs that `Choice.Meets` describes and for no others: it
fails if no value is in both sets, it succeeds in one order of the properties if it does in the other,
and if it succeeds, it writes a choice that admits the values of both sets and no others, and its
default. -/
theorem filterProp_intersection (hc₁ : c₁.Valid) (hc₂ : c₂.Valid)
    (h₁ : Offer m₁ p₁ e₁ (BitVec.ofNat 32 c₁.type.number) c₁.vals)
    (h₂ : Offer m₂ p₂ e₂ (BitVec.ofNat 32 c₂.type.number) c₂.vals) (hkey : e₁.key = e₂.key)
    (h : Kept capacity b t) (hcap : capacity < 2 ^ 32) (hflags : t.flags = ⟨false, false⟩)
    (halign : t.bytes.length % 8 = 0) (hfits₁ : t.bytes.length + (40 + c₁.default.header.size *
      ((c₁.vals.length + 1) * (c₂.vals.length + 1))) ≤ capacity)
    (hfits₂ : t.bytes.length + (40 + c₂.default.header.size *
      ((c₂.vals.length + 1) * (c₁.vals.length + 1))) ≤ capacity) :
    ∃ r s, filterProp m₁ m₂ b p₁ p₂ = .ok r ∧ filterProp m₂ m₁ b p₂ p₁ = .ok s ∧
      (((∀ x : Scalar, x.Ordered → ¬ (c₁.Admits x ∧ c₂.Admits x)) → r.1 < 0) ∧ (0 ≤ r.1 ↔ 0 ≤ s.1) ∧
        Filters capacity t e₁.key (e₁.flags &&& e₂.flags) (fun x => c₁.Admits x ∧ c₂.Admits x) r ∧
        Filters capacity t e₁.key (e₁.flags &&& e₂.flags) (fun x => c₁.Admits x ∧ c₂.Admits x) s ↔
      (c₁.default.kind = c₂.default.kind → c₁.Meets c₂ ∧ c₂.Meets c₁)) := by
  obtain ⟨r, hr, hfilters₁, hok₁⟩ := filterProp_filters hc₁ hc₂ h₁ h₂ hkey h hcap hflags halign hfits₁
  obtain ⟨s, hs, hfilters₂, hok₂⟩ := filterProp_filters hc₂ hc₁ h₂ h₁ hkey.symm h hcap hflags halign
    hfits₂
  have hswap : (fun x => c₂.Admits x ∧ c₁.Admits x) = fun x => c₁.Admits x ∧ c₂.Admits x :=
    funext fun _ => propext and_comm
  rw [← hkey, BitVec.and_comm, hswap] at hfilters₂
  refine ⟨r, s, hr, hs, ?_, fun hmeets => ?_⟩
  · rintro ⟨-, -, hr, hs⟩ hkind
    exact ⟨meets_of_stands hc₁ hc₂ rfl hkind.symm (hfilters₁.mp hr hkind),
      meets_of_stands hc₂ hc₁ rfl hkind (hswap ▸ hfilters₂.mp hs hkind.symm)⟩
  have hr' := hfilters₁.mpr fun hkind =>
    meet_common hc₁ hc₂ rfl hkind.symm (hmeets hkind).1 (hmeets hkind).2
  have hs' := hfilters₂.mpr fun hkind =>
    hswap ▸ meet_common hc₂ hc₁ rfl hkind.symm (hmeets hkind.symm).2 (hmeets hkind.symm).1
  refine ⟨fun hempty => ?_, ?_, hr', hs'⟩
  · rcases hr' with hneg | ⟨-, c, hc, -, hset⟩
    · exact hneg
    · have hdefault := hc.ordered _ c.default_mem
      exact absurd ((hset _ hdefault).mp hc.default) (hempty _ hdefault)
  · rw [hok₁, hok₂]
    constructor
    · rintro ⟨hkind, hok⟩
      exact ⟨hkind.symm, by rw [← meet_isOk_comm hc₁ hc₂ hkind rfl, ← hkind]; exact hok⟩
    · rintro ⟨hkind, hok⟩
      exact ⟨hkind.symm, by rw [meet_isOk_comm hc₁ hc₂ rfl hkind, ← hkind]; exact hok⟩

end

def Choice.memory (c : Choice) (key : BitVec 32) (h : (c.property key 0).length < 2 ^ 32) : Memory :=
  ⟨0, c.property key 0, h, by omega⟩

theorem Choice.offer (c : Choice) (key : BitVec 32) (h : (c.property key 0).length < 2 ^ 32)
    (hsmall : c.tree.body.length < maxSize) (hok : c.tree.Ok) :
    Offer (c.memory key h) 0 ⟨0, key, 0, c.tree⟩ (BitVec.ofNat 32 c.type.number) c.vals := by
  have hat : (c.memory key h).At 0 (c.property key 0) := by
    refine ⟨⟨le_rfl, le_rfl⟩, ?_⟩
    show ((c.property key 0).drop 0).take (c.property key 0).length = c.property key 0
    rw [drop_zero, take_length]
  have hvalue := hat.right
  exact ⟨⟨rfl, rfl, hat, hsmall⟩, ⟨hvalue, rfl, hsmall, hok, trivial⟩, rfl⟩

/-- The numbers from 0 to `max`. -/
def upTo (default max : BitVec 32) : Choice := .range (.int default) (.int 0) (.int max)

def evens : Choice := .step (.int 4) (.int 0) (.int 8) (.int 2)

theorem forall_int (l : List (BitVec 32)) :
    ∀ v ∈ l.map Scalar.int, v.Of .int ∧ v.Ok ∧ v.header = (Scalar.int 0).header ∧ v.body ≠ [] := by
  intro v hv
  obtain ⟨a, -, rfl⟩ := mem_map.mp hv
  exact ⟨⟨trivial, rfl⟩, trivial, rfl, cons_ne_nil _ _⟩

theorem upTo_valid (default max : BitVec 32) (h : 0 ≤ default.toInt ∧ default.toInt ≤ max.toInt) :
    (upTo default max).Valid := by
  have hle : ∀ {a b : BitVec 32}, a.toInt ≤ b.toInt → (Scalar.int a).key ≤ (Scalar.int b).key := by
    intro a b hab
    rw [Scalar.key, Scalar.key, Prod.Lex.toLex_le_toLex]
    rcases lt_or_eq_of_le hab with hlt | heq
    · exact .inl (Int.cast_lt.mpr hlt)
    · exact .inr ⟨congrArg (Int.cast : ℤ → ℚ) heq, le_rfl⟩
  have hints := forall_int [default, 0, max]
  exact ⟨fun v hv => (hints v hv).1.1, fun v hv => (hints v hv).1.2, rfl, hle h.1, hle h.2⟩

theorem upTo_ok (default max : BitVec 32) : (upTo default max).tree.Ok :=
  ⟨fun v hv => (forall_int [default, 0, max] v hv).2,
    .inr ⟨Nat.le_of_ble_eq_true rfl, Nat.le_of_ble_eq_true rfl⟩⟩

theorem evens_valid : evens.Valid := by
  have hints := forall_int [4, 0, 8, 2]
  refine ⟨fun v hv => (hints v hv).1.1, fun v hv => (hints v hv).1.2,
    (upTo_valid 4 8 (by decide)).default, ?_⟩
  show (2 : BitVec 32).toInt ∣ (4 : BitVec 32).toInt
  decide

theorem evens_ok : evens.tree.Ok :=
  ⟨fun v hv => (forall_int [4, 0, 8, 2] v hv).2,
    .inr ⟨Nat.le_of_ble_eq_true rfl, Nat.le_of_ble_eq_true rfl⟩⟩

theorem upTo_meets (default max default' max' : BitVec 32) :
    (upTo default max).Meets (upTo default' max') := by
  have hlisted : ¬ (upTo default max).Listed := fun h => by rcases h with h | h <;> cases h
  exact ⟨fun h => absurd h hlisted, fun h => absurd h hlisted, fun _ _ _ _ h h' => ⟨h, h'⟩, nofun⟩

/-- The numbers to 9 and to 6 have the numbers to 6 in common. -/
theorem filterProp_intersection_upTo :
    ∃ r s, filterProp ((upTo 5 9).memory 1 (by decide)) ((upTo 2 6).memory 1 (by decide))
        (builderInit (List.replicate 128 0)) 0 0 = .ok r ∧
      filterProp ((upTo 2 6).memory 1 (by decide)) ((upTo 5 9).memory 1 (by decide))
        (builderInit (List.replicate 128 0)) 0 0 = .ok s ∧
      Filters 128 .empty 1 0 (fun x => (upTo 5 9).Admits x ∧ (upTo 2 6).Admits x) r ∧
      Filters 128 .empty 1 0 (fun x => (upTo 5 9).Admits x ∧ (upTo 2 6).Admits x) s := by
  obtain ⟨r, s, hr, hs, hfilters⟩ := filterProp_intersection
    (upTo_valid 5 9 (by decide)) (upTo_valid 2 6 (by decide))
    ((upTo 5 9).offer 1 (by decide) (by decide) (upTo_ok 5 9))
    ((upTo 2 6).offer 1 (by decide) (by decide) (upTo_ok 2 6)) rfl
    (t := .empty) ⟨follows_init _, length_replicate, Nat.zero_le 128⟩ (by decide) rfl rfl
    (by decide) (by decide)
  exact ⟨r, s, hr, hs, (hfilters.mpr fun _ => ⟨upTo_meets 5 9 2 6, upTo_meets 2 6 5 9⟩).2.2⟩

/-- **A step is lost.** The numbers to 9 and the even numbers to 8 are filtered to all numbers to 8: 3 is
admitted, which is not even. -/
theorem filterProp_step : (upTo 4 9).Valid ∧ evens.Valid ∧
      ∃ m₁ m₂ e₁ e₂, Offer m₁ 0 e₁ 1 (upTo 4 9).vals ∧ Offer m₂ 0 e₂ 2 evens.vals ∧ e₁.key = e₂.key ∧
        (filterProp m₁ m₂ (builderInit (List.replicate 128 0)) 0 0).map
          (fun r => (r.1, r.2.data.take 48)) = .ok (0, (upTo 4 8).property 1 0) ∧
        (upTo 4 8).Admits (.int 3) ∧ ¬ evens.Admits (.int 3) := by
  refine ⟨upTo_valid 4 9 (by decide), evens_valid,
    (upTo 4 9).memory 1 (by decide), evens.memory 1 (by decide), _, _,
    (upTo 4 9).offer 1 (by decide) (by decide) (upTo_ok 4 9),
    evens.offer 1 (by decide) (by decide) evens_ok, rfl, by decide +kernel,
    (upTo_valid 3 8 (by decide)).default, fun hadmits => ?_⟩
  have hdvd : (2 : BitVec 32).toInt ∣ (3 : BitVec 32).toInt := hadmits.2
  exact absurd hdvd (by decide)

end PipeWireAO.Pod
