import PipeWireAO.Errno
import Mathlib.Algebra.Order.BigOperators.Group.List
import Mathlib.Algebra.GroupWithZero.Nat
import Mathlib.Algebra.Order.Group.Nat

/-!
# The format of a link

When both ports of a link need a format, `link_find_format` takes the formats of the first port one
after the other and asks the second port for one that fits. The first time, the choices of a format
are replaced by their defaults; if nothing was found and something was replaced, the formats are
taken again as they are.
-/

namespace PipeWireAO.Link

open List

variable {α : Type*} [DecidableEq α]

/-! ## Formats -/

/-- A property of a format: its flags, whether it is a choice, the values that it admits (also of a
range), and its first value. A choice without values has none. -/
structure Property (α : Type*) where
  key : ℕ
  (mandatory dontFixate choice : Bool)
  values : List α
  default : Option α

/-- A part of `spa_pod_filter_object_make`: a valid default replaces a choice, and this is counted. -/
def Property.make (p : Property α) : Property α × ℕ :=
  match p.default with
  | none => (p, 0)
  | some v =>
    if p.choice && !p.dontFixate && decide (v ∈ p.values) then ({ p with values := [v] }, 1) else (p, 0)

abbrev Format (α : Type*) := List (Property α)

namespace Format

/-- `spa_pod_filter_make` -/
def make (f : Format α) : Format α × ℕ :=
  (f.map fun p => p.make.1, (f.map fun p => p.make.2).sum)

/-- Whether all properties that are mandatory are in the other format. -/
def covers (f g : Format α) : Bool := f.all fun p => !p.mandatory || g.any fun q => p.key = q.key

/-- Whether properties with one key have a common value, and no mandatory one is missing. -/
def intersects (f g : Format α) : Bool :=
  (f.all fun p => g.all fun q => p.key ≠ q.key || p.values.any fun v => v ∈ q.values) &&
    f.covers g && covers g f

end Format

/-! ## The search -/

/-- `spa_node_port_enum_params_sync` with a filter: the first format from `idx` on that it intersects. -/
def enumFormat (gs : List (Format α)) (filter : Format α) (idx : ℕ) : Option (Format α) :=
  (gs.drop idx).find? filter.intersects

/-- `link_find_format` for two ports that need a format, with at most `n` rounds, from the formats
`rest` of the first port on: the filter, and the format of the second port found for it. -/
def linkFindFormat (fs gs : List (Format α)) :
    ℕ → Bool → ℕ → List (Format α) → ℕ → Option (Except Int (Format α × Format α))
  | 0, _, _, _, _ => none
  | n + 1, doFilter, count, [], idx₁ =>
    if doFilter && decide (0 < count) then linkFindFormat fs gs n false count fs idx₁
    else some (.error (-eInval))
  | n + 1, doFilter, count, f :: rest, idx₁ =>
    let filter := if doFilter then f.make.1 else f
    let count := if doFilter then count + f.make.2 else count
    match enumFormat gs filter idx₁ with
    | some g => some (.ok (filter, g))
    | none => linkFindFormat fs gs n doFilter count rest 0

/-! ## What it finds -/

variable {f g : Format α} {fs gs : List (Format α)}

/-- The first one of the formats that `filter` makes something of that intersects a format. -/
def firstMatch (filter : Format α → Format α) (fs gs : List (Format α)) :
    Option (Format α × Format α) :=
  fs.findSome? fun f => (enumFormat gs (filter f) 0).map fun g => (filter f, g)

/-- A property with its default fixed, which is to say that no other value is left, if it is a choice
that may be fixed and the default is one of its values. -/
def Property.fixed (p : Property α) : Property α :=
  if p.choice = true ∧ p.dontFixate = false ∧ ∃ v ∈ p.values, p.default = some v then
    { p with values := p.default.toList }
  else p

/-- A format with all its valid defaults fixed. -/
def Format.fixed (f : Format α) : Format α := f.map Property.fixed

/-- The first match with the defaults fixed, or else the first one. -/
def bestMatch (fs gs : List (Format α)) : Except Int (Format α × Format α) :=
  match (firstMatch Format.fixed fs gs).or (firstMatch (fun f => f) fs gs) with
  | some r => .ok r
  | none => .error (-eInval)

/-- **`make` fixes exactly the valid defaults**, and counts them. -/
theorem Property.make_spec (p : Property α) : p.make.1 = p.fixed ∧ (p.make.2 = 0 → p.fixed = p) := by
  unfold make fixed
  cases hdefault : p.default with
  | none => simp
  | some v =>
    by_cases hvalid : p.choice = true ∧ p.dontFixate = false ∧ v ∈ p.values
    · simp [hvalid]
    · dsimp only
      rw [if_neg (by simpa [and_assoc] using hvalid), if_neg (by simpa using hvalid)]
      exact ⟨rfl, fun _ => rfl⟩

theorem Property.fixed_spec (p : Property α) : p.fixed.key = p.key ∧
    p.fixed.mandatory = p.mandatory ∧ ∀ v ∈ p.fixed.values, v ∈ p.values := by
  unfold fixed
  split_ifs with hvalid
  · obtain ⟨-, -, v, hv, hdefault⟩ := hvalid
    refine ⟨rfl, rfl, fun w hw => ?_⟩
    rw [hdefault] at hw
    rwa [mem_singleton.mp hw]
  · exact ⟨rfl, rfl, fun _ h => h⟩

theorem Format.make_fixed (f : Format α) : f.make.1 = f.fixed :=
  map_congr_left fun p _ => p.make_spec.1

theorem Format.intersects_of_fixed (h : f.fixed.intersects g = true) : f.intersects g = true := by
  simp only [intersects, covers, fixed, all_map, any_map, Bool.and_eq_true, all_eq_true, any_eq_true,
    Bool.or_eq_true, Function.comp_apply, decide_eq_true_eq, (Property.fixed_spec _).1,
    (Property.fixed_spec _).2.1] at h ⊢
  refine ⟨⟨fun p hp q hq => (h.1.1 p hp q hq).imp_right ?_, h.1.2⟩, h.2⟩
  rintro ⟨v, hv, hq⟩
  exact ⟨v, p.fixed_spec.2.2 v hv, hq⟩

theorem Format.fixed_eq_self (h : f.make.2 = 0) : f.fixed = f := by
  refine (map_congr_left fun p hp => p.make_spec.2 ?_).trans (map_id f)
  exact (sum_eq_zero_iff (M := ℕ)).mp h _ (mem_map_of_mem hp)

theorem firstMatch_isSome (filter : Format α → Format α) :
    (firstMatch filter fs gs).isSome = true ↔ ∃ f ∈ fs, ∃ g ∈ gs, (filter f).intersects g = true := by
  simp [firstMatch, enumFormat, findSome?_isSome_iff, find?_isSome]

/-- **A pass** over the formats that are left: the first match, or what comes after the last format. -/
theorem linkFindFormat_pass (doFilter : Bool) (n count : ℕ) (rest : List (Format α)) :
    linkFindFormat fs gs (n + 1 + rest.length) doFilter count rest 0 =
      match firstMatch (fun f => if doFilter then f.fixed else f) rest gs with
      | some r => some (.ok r)
      | none => linkFindFormat fs gs (n + 1) doFilter
          (if doFilter then count + (rest.map fun f => f.make.2).sum else count) [] 0 := by
  induction rest generalizing count with
  | nil => simp [firstMatch]
  | cons f rest ih =>
    rw [length_cons, ← Nat.add_assoc, firstMatch, findSome?_cons]
    conv_lhs => rw [linkFindFormat]
    simp only [f.make_fixed]
    cases henum : enumFormat gs (if doFilter then f.fixed else f) 0 with
    | some g => simp
    | none =>
      rw [ih, map_cons, sum_cons]
      cases doFilter <;> simp [firstMatch, Nat.add_assoc]

theorem linkFindFormat_eq (fs gs : List (Format α)) :
    linkFindFormat fs gs (2 * fs.length + 2) true 0 fs 0 = some (bestMatch fs gs) := by
  rw [show 2 * fs.length + 2 = fs.length + 1 + 1 + fs.length by omega, linkFindFormat_pass]
  unfold bestMatch
  cases hfixed : firstMatch Format.fixed fs gs with
  | some r => simp [hfixed]
  | none =>
    simp only [if_true, Nat.zero_add, hfixed, Option.none_or]
    rw [linkFindFormat]
    by_cases hcount : 0 < (fs.map fun f => f.make.2).sum
    · rw [if_pos (by simpa using hcount), Nat.add_comm, ← Nat.zero_add (1 + _), ← Nat.add_assoc,
        linkFindFormat_pass]
      simp only [Bool.false_eq_true, if_false, linkFindFormat, Bool.false_and]
      cases firstMatch (fun f => f) fs gs <;> rfl
    · -- nothing was replaced, so that the second pass would be the first one again
      rw [if_neg (by simpa using hcount)]
      have hnone : firstMatch (fun f => f) fs gs = none := by
        by_contra hsome
        obtain ⟨f, hf, g, hg, hmeet⟩ := (firstMatch_isSome _).mp (Option.isSome_iff_ne_none.mpr hsome)
        have hzero := (sum_eq_zero_iff (M := ℕ)).mp (Nat.eq_zero_of_not_pos hcount) _ (mem_map_of_mem hf)
        have hfound := (firstMatch_isSome Format.fixed).mpr
          ⟨f, hf, g, hg, by rwa [f.fixed_eq_self hzero]⟩
        simp [hfixed] at hfound
      rw [hnone]

/-- **The search is complete and keeps to the order.** It ends with the first format that intersects
one of the other port with its defaults fixed, or else with the first that intersects one at all,
and succeeds exactly if there is one. -/
theorem format_found (fs gs : List (Format α)) :
    linkFindFormat fs gs (2 * fs.length + 2) true 0 fs 0 = some (bestMatch fs gs) ∧
    ((∃ r, linkFindFormat fs gs (2 * fs.length + 2) true 0 fs 0 = some (.ok r)) ↔
      ∃ f ∈ fs, ∃ g ∈ gs, f.intersects g = true) := by
  refine ⟨linkFindFormat_eq fs gs, ?_⟩
  have hmeets : ((firstMatch Format.fixed fs gs).or (firstMatch (fun f => f) fs gs)).isSome =
      true ↔ ∃ f ∈ fs, ∃ g ∈ gs, f.intersects g = true := by
    rw [Option.isSome_or, Bool.or_eq_true, firstMatch_isSome, firstMatch_isSome, or_iff_right_iff_imp]
    rintro ⟨f, hf, g, hg, hmeet⟩
    exact ⟨f, hf, g, hg, Format.intersects_of_fixed hmeet⟩
  rw [linkFindFormat_eq, bestMatch, ← hmeets]
  cases (firstMatch Format.fixed fs gs).or (firstMatch (fun f => f) fs gs) <;> simp

end PipeWireAO.Link
