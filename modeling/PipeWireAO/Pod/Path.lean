import PipeWireAO.Pod.Iter

/-!
# The way of an iterator

The pods that an iterator goes over inside of a block form a path: each one lies inside, with the
body that it declares, and the next one begins where it ends with its padding. A path goes on by a
header or more with each pod, so it ends; an address that wraps around is not inside.
-/

namespace PipeWireAO.Pod

open List

variable {m : Memory} {shape : Shape} {p size a b o n : ℕ} {l : List ℕ} {start : Option ℕ}

/-- The size that the header at `a` declares. -/
def Shape.sizeAt (shape : Shape) (m : Memory) (a : ℕ) : ℕ := shape.size (m.slice a shape.header)

/-- What is at `a` lies inside of `size` bytes at `p`. -/
def Within (m : Memory) (shape : Shape) (p size a : ℕ) : Prop :=
  p ≤ a ∧ a + (shape.header + shape.sizeAt m a) ≤ p + size

def Shape.next (shape : Shape) (m : Memory) (a : ℕ) : ℕ :=
  ptroff a (align (shape.header + shape.sizeAt m a))

theorem ptrInsideAligned_eq_some {r : ℕ} (h : ptrInsideAligned p size a n = some r) :
    p ≤ a ∧ a + n + r = p + size := by
  unfold ptrInsideAligned ptrInside at h
  split_ifs at h with halign hin
  cases h
  omega

theorem bodySize_eq (h : m.Holds a shape.header) : bodySize m shape a = .ok (shape.sizeAt m a) := by
  rw [bodySize, Memory.load_eq h]
  rfl

theorem Within.holds (hm : m.Holds p size) (h : Within m shape p size a) :
    m.Holds a (shape.header + shape.sizeAt m a) :=
  hm.mono h.1 h.2

theorem Within.holds_header (hm : m.Holds p size) (h : Within m shape p size a) :
    m.Holds a shape.header :=
  (h.holds hm).mono le_rfl (by omega)

theorem Within.iterNext_eq (hm : m.Holds p size) (h : Within m shape p size a) :
    iterNext m shape a = .ok (shape.next m a) := by
  rw [iterNext, bodySize_eq (h.holds_header hm)]
  rfl

theorem isInside_spec (hm : m.Holds p size) (shape : Shape) (a : ℕ) :
    isInside m shape p size a = .ok false ∨
      isInside m shape p size a = .ok true ∧ Within m shape p size a := by
  unfold isInside
  cases hin : ptrInsideAligned p size a shape.header with
  | none => exact .inl rfl
  | some r =>
    obtain ⟨hle, hr⟩ := ptrInsideAligned_eq_some hin
    have hholds : m.Holds a shape.header := hm.mono hle (by omega)
    dsimp only
    rw [bodySize_eq hholds, Except.map]
    by_cases hs : shape.sizeAt m a ≤ r
    · exact .inr ⟨by rw [decide_eq_true hs], hle, by omega⟩
    · exact .inl (by rw [decide_eq_false hs])

/-- **Going on**: the next one, if it is inside as well, is a header or more further on. -/
theorem Within.next_le (hm : m.Holds p size) (h : Within m shape p size a)
    (hnext : Within m shape p size (shape.next m a)) : a + shape.header ≤ shape.next m a := by
  obtain ⟨hle, hend⟩ := h
  obtain ⟨hle', hend'⟩ := hnext
  have hsize : shape.sizeAt m a < 2 ^ 32 := shape.size_lt _
  have hheader := shape.header_le
  have halign := align_eq (n := shape.header + shape.sizeAt m a) (by omega)
  unfold Shape.next ptroff at hle' ⊢
  -- an address that wraps around is below the block
  rcases Nat.lt_or_ge (a + align (shape.header + shape.sizeAt m a)) (2 ^ 64) with hfit | hwrap
  · omega
  · have hsmall := m.small
    obtain ⟨hbase, htop⟩ := hm
    omega

/-- The way from `a` to `b`, over pods inside of a block. -/
inductive Path (m : Memory) (shape : Shape) (p size : ℕ) : ℕ → List ℕ → ℕ → Prop
  | nil (a : ℕ) : Path m shape p size a [] a
  | cons {a b : ℕ} {l : List ℕ} : Within m shape p size a → Path m shape p size (shape.next m a) l b →
      Path m shape p size a (a :: l) b

namespace Path

theorem within (h : Path m shape p size a l b) : ∀ x ∈ l, Within m shape p size x := by
  induction h with
  | nil => simp
  | cons hw _ ih =>
    intro x hx
    rcases mem_cons.mp hx with rfl | hx
    · exact hw
    · exact ih x hx

theorem length_le (hm : m.Holds p size) (h : Path m shape p size a l b)
    (hb : Within m shape p size b) : a + shape.header * l.length ≤ b := by
  induction h with
  | nil => simp
  | @cons a b l hw hpath ih =>
    have hrest := ih hb
    have hnext : Within m shape p size (shape.next m a) := by
      cases hpath with
      | nil => exact hb
      | cons hw' _ => exact hw'
    have hstep := hw.next_le hm hnext
    rw [length_cons, Nat.mul_succ]
    omega

theorem length_le_size (hm : m.Holds p size) (h : Path m shape p size a l b) (hl : l ≠ []) :
    a + shape.header * l.length ≤ p + size := by
  induction h with
  | nil => exact absurd rfl hl
  | @cons a b l hw hpath ih =>
    rw [length_cons, Nat.mul_succ]
    cases hpath with
    | nil =>
      have := hw.2
      simp only [length_nil, Nat.mul_zero]
      omega
    | cons hw' hpath' =>
      have hrest := ih (by simp)
      have hstep := hw.next_le hm hw'
      omega

theorem trans {c : ℕ} {l' : List ℕ} (h : Path m shape p size a l b)
    (h' : Path m shape p size b l' c) : ∃ l'', Path m shape p size a l'' c := by
  induction h with
  | nil => exact ⟨l', h'⟩
  | cons hw _ ih =>
    obtain ⟨l'', hpath⟩ := ih h'
    exact ⟨_, .cons hw hpath⟩

theorem reach (h : Path m shape p size a l b) {x : ℕ} (hx : x ∈ l) :
    ∃ l', Path m shape p size a l' x := by
  induction h with
  | nil => cases hx
  | cons hw _ ih =>
    rcases mem_cons.mp hx with rfl | hx
    · exact ⟨[], .nil _⟩
    · obtain ⟨l', hpath⟩ := ih hx
      exact ⟨_, .cons hw hpath⟩

theorem snoc (h : Path m shape p size a l b) (hb : Within m shape p size b) :
    Path m shape p size a (l ++ [b]) (shape.next m b) := by
  induction h with
  | nil => exact .cons hb (.nil _)
  | cons hw _ ih => exact .cons hw (ih hb)

end Path

/-- **An iteration ends**, in a number of rounds whose headers would not fit in the block. -/
theorem foreachLoop_spec (shape : Shape) (hm : m.Holds p size) (hpos : 0 < n)
    (hn : Within m shape p size a → p + size < a + shape.header * n) :
    ∃ l b, foreachLoop m shape p size n a = .ok l ∧ Path m shape p size a l b := by
  induction n generalizing a with
  | zero => omega
  | succ n ih =>
    rw [foreachLoop]
    rcases isInside_spec hm shape a with hin | ⟨hin, hw⟩
    · rw [hin]
      exact ⟨[], a, rfl, .nil a⟩
    · have hfuel := hn hw
      have hend := hw.2
      rw [Nat.mul_succ] at hfuel
      obtain ⟨l, b, hl, hpath⟩ := ih (a := shape.next m a) (by
        rcases Nat.eq_zero_or_pos n with rfl | hpos'
        · omega
        · exact hpos') (fun hw' => by
        have := hw.next_le hm hw'
        omega)
      refine ⟨a :: l, b, ?_, .cons hw hpath⟩
      rw [hin]
      rw [hw.iterNext_eq hm]
      dsimp only
      rw [hl]
      rfl

/-! ## The search for a property -/

theorem Within.property_eq (hm : m.Holds p size) (h : Within m propShape p size a) :
    m.property a = .ok (Property.ofBytes (m.slice a 16)) :=
  Memory.property_eq (h.holds_header hm)

theorem findAfter_spec (hm : m.Holds p size) (key : ℕ) (hpos : 0 < n)
    (hn : Within m propShape p size a → (p + size - a) / 16 < n) :
    ∃ r k, findAfter m p size key n a = .ok (r, k) ∧
      (∀ x, r = some x → Within m propShape p size x ∧ ∃ l, Path m propShape p size a l x) ∧
      (Within m propShape p size a → n ≤ k + (p + size - a) / 16 + 1) ∧
      (¬ Within m propShape p size a → n = k + 1) := by
  induction n generalizing a with
  | zero => omega
  | succ n ih =>
    rw [findAfter]
    rcases isInside_spec hm propShape a with hin | ⟨hin, hw⟩
    · rw [propIsInside, hin]
      exact ⟨none, n, rfl, by simp, fun _ => by omega, fun _ => rfl⟩
    · rw [propIsInside, hin]
      rw [hw.property_eq hm]
      dsimp only
      have hend : a + (16 + propShape.sizeAt m a) ≤ p + size := hw.2
      have hfuel := hn hw
      split_ifs with hkey
      · refine ⟨some a, n, rfl, fun x hx => ?_, fun _ => by omega, fun h => absurd hw h⟩
        cases hx
        exact ⟨hw, [], .nil a⟩
      · rw [propNext, hw.iterNext_eq hm]
        obtain ⟨r, k, hr, hfound, hin', hout⟩ := ih (a := propShape.next m a) (by omega) (fun hw' => by
          have hstep : a + 16 ≤ propShape.next m a := hw.next_le hm hw'
          omega)
        refine ⟨r, k, hr, fun x hx => ?_, fun _ => ?_, fun h => absurd hw h⟩
        · obtain ⟨hx, l, hpath⟩ := hfound x hx
          exact ⟨hx, a :: l, .cons hw hpath⟩
        · by_cases hw' : Within m propShape p size (propShape.next m a)
          · have hstep : a + 16 ≤ propShape.next m a := hw.next_le hm hw'
            have := hin' hw'
            omega
          · have := hout hw'
            omega

theorem findBefore_spec (hm : m.Holds p size) (key : ℕ) {start : ℕ}
    (h : Path m propShape p size a l start) (hn : l.length < n) :
    ∃ r, findBefore m start key n a = .ok r ∧
      ∀ x, r = some x → ∃ l', Path m propShape p size a l' x ∧ Within m propShape p size x := by
  induction h generalizing n with
  | nil =>
    obtain ⟨n, rfl⟩ := exists_succ hn
    rw [findBefore, if_pos rfl]
    exact ⟨none, rfl, by simp⟩
  | @cons a start l hw hpath ih =>
    obtain ⟨n, rfl⟩ := exists_succ hn
    rw [findBefore]
    split_ifs with hstart
    · exact ⟨none, rfl, by simp⟩
    · rw [hw.property_eq hm]
      dsimp only
      split_ifs with hkey
      · refine ⟨some a, rfl, fun x hx => ?_⟩
        cases hx
        exact ⟨[], .nil a, hw⟩
      · rw [propNext, hw.iterNext_eq hm]
        obtain ⟨r, hr, hfound⟩ := ih (n := n) (by simp at hn; omega)
        refine ⟨r, hr, fun x hx => ?_⟩
        obtain ⟨l', hpath', hwx⟩ := hfound x hx
        exact ⟨a :: l', .cons hw hpath', hwx⟩

/-- The header and the declared body of a pod are in memory. -/
def IsPod (m : Memory) (o : ℕ) : Prop := m.Holds o (8 + podShape.sizeAt m o)

/-- `a` is a property of the object at `o`, on the path from the first one. -/
def PropOf (m : Memory) (o a : ℕ) : Prop :=
  ∃ l, Path m propShape (o + 8) (podShape.sizeAt m o) (propFirst (o + 8)) l a ∧
    Within m propShape (o + 8) (podShape.sizeAt m o) a

theorem IsPod.header_eq (ho : IsPod m o) : m.header o = .ok (Header.ofBytes (m.slice o 8)) :=
  Memory.header_eq (Memory.Holds.mono ho le_rfl (by omega))

theorem IsPod.body (ho : IsPod m o) : ptroff o 8 = o + 8 ∧ m.Holds (o + 8) (podShape.sizeAt m o) :=
  ⟨Memory.Holds.ptroff_eq ho (by omega), Memory.Holds.mono ho (by omega) (by omega)⟩

theorem Within.value (hm : m.Holds p size) (h : Within m propShape p size a) :
    podShape.sizeAt m (a + 8) = propShape.sizeAt m a ∧ IsPod m (a + 8) := by
  have hsize : podShape.sizeAt m (a + 8) = propShape.sizeAt m a := by
    show (Header.ofBytes (m.slice (a + 8) 8)).size =
      (Header.ofBytes ((m.slice a (8 + 8)).drop 8)).size
    rw [Memory.slice_drop (h.holds hm).1]
  refine ⟨hsize, ?_⟩
  have hheader : propShape.header = 16 := rfl
  exact (h.holds hm).mono (by omega) (by omega)

theorem findStart_path (ho : IsPod m o) (hstart : ∀ x, start = some x → PropOf m o x) :
    ∃ b l, findStart m (propFirst (o + 8)) start = .ok b ∧
      Path m propShape (o + 8) (podShape.sizeAt m o) (propFirst (o + 8)) l b := by
  cases start with
  | none => exact ⟨_, [], rfl, .nil _⟩
  | some x =>
    obtain ⟨l, hpath, hx⟩ := hstart x rfl
    exact ⟨propShape.next m x, l ++ [x], hx.iterNext_eq ho.body.2, hpath.snoc hx⟩

/-- **The search for a property ends**, and what it finds is a property of the object. -/
theorem findProp_spec (key : ℕ) (ho : IsPod m o) (hstart : ∀ x, start = some x → PropOf m o x) :
    ∃ r, findProp m o start key (rounds (podShape.sizeAt m o)) = .ok r ∧
      ∀ x, r = some x → PropOf m o x := by
  obtain ⟨hbody, hm⟩ := ho.body
  obtain ⟨b, l, hb, hpath⟩ := findStart_path ho hstart
  generalize hs : podShape.sizeAt m o = s at hm hpath
  have hsize : (Header.ofBytes (m.slice o 8)).size = s := hs
  have hfirst : 8 ≤ s → propFirst (o + 8) = o + 16 := fun h => hm.ptroff_eq h
  have hfuel : Within m propShape (o + 8) s b → (o + 8 + s - b) / 16 < rounds s := fun hw => by
    have := hw.1
    unfold rounds
    omega
  obtain ⟨r, k, hr, hfound, hin, hout⟩ :=
    findAfter_spec hm key (n := rounds s) (by unfold rounds; omega) hfuel
  unfold findProp
  simp only [hbody, hb, ho.header_eq, hsize, hr]
  cases r with
  | some res =>
    refine ⟨some res, rfl, fun x hx => ?_⟩
    cases hx
    obtain ⟨hw, l', hpath'⟩ := hfound res rfl
    have hjoin : ∃ l'', Path m propShape (o + 8) s (propFirst (o + 8)) l'' res := hpath.trans hpath'
    obtain ⟨l'', hpath''⟩ := hjoin
    rw [PropOf, hs]
    exact ⟨l'', hpath'', hw⟩
  | none =>
    -- the rounds that are left are enough for the properties before
    have hlen : l.length < k := by
      by_cases hw : Within m propShape (o + 8) s b
      · have hk := hin hw
        have hend : b + (16 + propShape.sizeAt m b) ≤ o + 8 + s := hw.2
        have hle : propFirst (o + 8) + 16 * l.length ≤ b := hpath.length_le hm hw
        have hlo := hw.1
        unfold rounds at hk
        omega
      · have hk := hout hw
        unfold rounds at hk
        rcases eq_or_ne l [] with rfl | hl
        · simp only [length_nil]
          omega
        · have hle : propFirst (o + 8) + 16 * l.length ≤ o + 8 + s := hpath.length_le_size hm hl
          obtain ⟨hlo, hhi⟩ := hpath.within _ (head_mem hl)
          have hheader : propShape.header = 16 := rfl
          omega
    obtain ⟨r, hr', hfound'⟩ := findBefore_spec hm key hpath hlen
    refine ⟨r, hr', fun x hx => ?_⟩
    rw [PropOf, hs]
    exact hfound' x hx

end PipeWireAO.Pod
