import PipeWireAO.Pod.Capacity
import PipeWireAO.Pod.Equality

/-!
# What a filtered property has

`meet` says which kind and which values `spa_pod_filter_prop` writes for two choices, without the
builder: the copied values with the default in front of them, or an error number. The builder, as
long as it has room, writes just that.
-/

namespace PipeWireAO.Pod

open List Option
open Foundation (toLe length_toLe)

/-! ## Without a builder -/

/-- The copied values: none, one of kind None, or more with a default. -/
def listing (default : Option (List UInt8)) : List (List UInt8) → Except Int (ℕ × List (List UInt8))
  | [] => .error (-eInval)
  | [a] => .ok (ChoiceType.none.number, [default.getD a])
  | a :: b :: l => .ok (ChoiceType.enum.number, default.getD a :: a :: b :: l)

def equalValues (type : ℕ) (alt₁ alt₂ : List (List UInt8)) : List (List UInt8) :=
  alt₂.flatMap fun a₂ => alt₁.filter fun a₁ => compareValue type a₁ a₂ = 0

/-- The result of `spa_pod_compare_is_in_range` for the range of `c`. -/
def rangeRes (type : ℕ) (c : Alternatives) (a : List UInt8) : Int :=
  isInRange type a (alternative c.vals 1) (alternative c.vals 2) (stepOf c.choice c.vals)

/-- The values inside of the range of `c`. -/
def valuesInRange (type : ℕ) (c : Alternatives) : List (List UInt8) → Except Int (List (List UInt8))
  | [] => .ok []
  | a :: as =>
    if rangeRes type c a < 0 then .error (rangeRes type c a)
    else (valuesInRange type c as).map fun l => if rangeRes type c a = 0 then l else a :: l

/-- The common part of two ranges. -/
def meetRanges (type : ℕ) (c₁ c₂ : Alternatives) : Except Int (ℕ × List (List UInt8)) :=
  let min₁ := alternative c₁.vals 1
  let max₁ := alternative c₁.vals 2
  let min₂ := alternative c₂.vals 1
  let max₂ := alternative c₂.vals 2
  let min := if compareValue type min₁ min₂ < 0 then min₂ else min₁
  let max := if compareValue type max₂ max₁ < 0 then max₂ else max₁
  if compareValue type max min < 0 then .error (-eInval)
  else
    let a := if isInRange type (alternative c₂.vals 0) min max none ≠ 0 then alternative c₂.vals 0
      else if isInRange type (alternative c₁.vals 0) min max none ≠ 0 then alternative c₁.vals 0
      else min
    .ok (ChoiceType.range.number, [a, min, max])

def commonBits (type : ℕ) (r₁ r₂ : List UInt8) : Option (List UInt8) :=
  match type with
  | 4 =>
    let val := word 32 (r₁.take 4) &&& word 32 (r₂.take 4)
    if val = 0 then none else some (toLe 4 val.toNat)
  | 5 =>
    let val := word 64 (r₁.take 8) &&& word 64 (r₂.take 8)
    if val = 0 then none else some (toLe 8 val.toNat)
  | _ => none

/-- The choice that two choices have in common, for the kinds of the branches. -/
def meetBranch (type : ℕ) (c₁ c₂ : Alternatives) : Except Int (ℕ × List (List UInt8)) :=
  if c₁.listed && c₂.listed then listing none (equalValues type c₁.vals c₂.vals)
  else if c₁.listed && c₂.ranged then do
    listing (findDefault type c₁.vals c₂) (← valuesInRange type c₂ c₁.vals)
  else if c₁.ranged && c₂.listed then do listing none (← valuesInRange type c₁ c₂.vals)
  else if c₁.ranged && c₂.ranged then meetRanges type c₁ c₂
  else if c₁.choice = ChoiceType.none.number ∧ c₂.flags ∨
      c₁.flags ∧ c₂.choice = ChoiceType.none.number ∨ c₁.flags ∧ c₂.flags then
    match commonBits type (alternative c₁.vals 0) (alternative c₂.vals 0) with
    | some bits => .ok (ChoiceType.flags.number, [bits])
    | none => .error (-eInval)
  else if (c₁.ranged || c₁.choice == ChoiceType.enum.number) && c₂.flags ||
      c₁.flags && (c₂.ranged || c₂.choice == ChoiceType.enum.number) then .error (-eNotSup)
  else .error (-eInval)

/-- The choice that two choices have in common. -/
def meet (type : ℕ) (c₁ c₂ : Alternatives) : Except Int (ℕ × List (List UInt8)) :=
  if isValidChoice type (alternative c₂.vals 0) c₂.vals c₂.choice = 0 then meetBranch type c₂ c₁
  else meetBranch type c₁ c₂

/-! ## The builder -/

/-- A property whose value is a choice. -/
def propBytes (key flags : BitVec 32) (kind : ℕ) (child : Header) (vals : List (List UInt8)) :
    List UInt8 :=
  toLe 4 key.toNat ++ toLe 4 flags.toNat ++
    podBytes .choice (toLe 4 kind ++ (toLe 4 0 ++ (child.bytes ++ vals.flatten)))

section

variable {capacity : ℕ} {t : Text} {key flags : BitVec 32} {child : Header}

/-- A choice of kind None that is open, with the values written so far. -/
def Opened (capacity : ℕ) (t : Text) (key flags : BitVec 32) (child : Header) (b : Builder)
    (kind : ℕ) (vals : List (List UInt8)) : Prop :=
  Kept capacity b (choiceText t key flags kind child vals.flatten)

variable {b : Builder} {kind : ℕ} {vals : List (List UInt8)}

theorem Opened.raw (h : Opened capacity t key flags child b kind vals) (hcap : capacity < 2 ^ 32)
    (a : List UInt8) (hfits : t.bytes.length + 32 + (vals ++ [a]).flatten.length ≤ capacity) :
    Opened capacity t key flags child (Pod.raw b a).2 kind (vals ++ [a]) := by
  have hflat : vals.flatten ++ a = (vals ++ [a]).flatten := by
    rw [flatten_append, flatten_singleton]
  have hput : Kept capacity (Pod.raw b a).2
      ((choiceText t key flags kind child vals.flatten).put a) := Kept.raw h hcap (by
    rw [choiceText_put, hflat, length_choiceText]
    exact hfits)
  rw [choiceText_put, hflat] at hput
  exact hput

theorem Opened.copyRest (h : Opened capacity t key flags child b kind vals)
    (hcap : capacity < 2 ^ 32) (l : List (List UInt8)) {n : ℕ} (found : Bool)
    (hn : ¬ (n = 0 ∧ found = false))
    (hfits : t.bytes.length + 32 + (vals ++ l).flatten.length ≤ capacity) :
    (l.foldl (copyValue found) (n, b)).1 = n + l.length ∧
      Opened capacity t key flags child (l.foldl (copyValue found) (n, b)).2 kind (vals ++ l) := by
  induction l generalizing b n vals with
  | nil =>
    rw [append_nil]
    exact ⟨rfl, h⟩
  | cons a l ih =>
    have hstep : copyValue found (n, b) a = (n + 1, (Pod.raw b a).2) := by
      rw [copyValue, if_neg hn]
    have hsplit : vals ++ a :: l = vals ++ [a] ++ l := by rw [append_assoc]; rfl
    rw [hsplit] at hfits ⊢
    have hfits' := hfits
    rw [flatten_append, length_append] at hfits'
    obtain ⟨hcount, hopen⟩ := ih (h.raw hcap a (by omega)) (n := n + 1) (fun h0 => by omega) hfits
    rw [foldl_cons, hstep]
    exact ⟨by rw [hcount, length_cons]; omega, hopen⟩

/-- What is in the choice after values were copied: a default, if there is one, and the values. -/
def writtenValues (default : Option (List UInt8)) : List (List UInt8) → List (List UInt8)
  | [] => default.toList
  | a :: l => default.getD a :: a :: l

/-- **All values are copied**, behind the default that was found or the first of them. -/
theorem Opened.copyAll (default : Option (List UInt8)) (l : List (List UInt8))
    (h : Opened capacity t key flags child b kind default.toList) (hcap : capacity < 2 ^ 32)
    (hfits : t.bytes.length + 32 + (writtenValues default l).flatten.length ≤ capacity) :
    (l.foldl (copyValue default.isSome) (0, b)).1 = l.length ∧
      Opened capacity t key flags child (l.foldl (copyValue default.isSome) (0, b)).2 kind
        (writtenValues default l) := by
  cases l with
  | nil => exact ⟨rfl, h⟩
  | cons a l =>
    cases default with
    | some d =>
      obtain ⟨hcount, hopen⟩ := h.copyRest hcap (a :: l) (n := 0) true
        (fun h0 => Bool.noConfusion h0.2) hfits
      exact ⟨by rw [isSome_some, hcount, Nat.zero_add], hopen⟩
    | none =>
      have hstep : copyValue false (0, b) a = (1, (Pod.raw (Pod.raw b a).2 a).2) := by
        rw [copyValue, if_pos ⟨rfl, rfl⟩]
      have hfits' : t.bytes.length + 32 + ([a] ++ [a] ++ l).flatten.length ≤ capacity := hfits
      have hlen := hfits'
      rw [flatten_append, flatten_append, length_append, length_append,
        flatten_singleton] at hlen
      have hfirst := h.raw hcap a (by
        rw [toList_none, nil_append, flatten_singleton]
        omega)
      have hsecond := hfirst.raw hcap a (by
        rw [toList_none, nil_append, flatten_append, flatten_singleton,
          length_append]
        omega)
      obtain ⟨hcount, hopen⟩ := hsecond.copyRest hcap l (n := 1) false
        (fun h0 => Nat.one_ne_zero h0.1) hfits'
      rw [isSome_none, foldl_cons, hstep]
      exact ⟨by rw [hcount, length_cons]; omega, hopen⟩

/-- What `spa_pod_filter_prop` leaves behind, for the choice that the two have in common. -/
def Writes (capacity : ℕ) (t : Text) (key flags : BitVec 32) (child : Header) (r : Int × Builder) :
    Except Int (ℕ × List (List UInt8)) → Prop
  | .error res => r.1 = res
  | .ok (kind, vals) => r.1 = 0 ∧ Kept capacity r.2 (t.put (propBytes key flags kind child vals))

theorem copyInRange_eq (type : ℕ) (c : Alternatives) (found : Bool) (as : List (List UInt8))
    (s : ℕ × Builder) : (∀ res, valuesInRange type c as = .error res →
      ∃ b, copyInRange type c found as s = .error (res, b)) ∧ ∀ l, valuesInRange type c as = .ok l →
      copyInRange type c found as s = .ok (l.foldl (copyValue found) s) := by
  induction as generalizing s with
  | nil =>
    refine ⟨nofun, fun l hl => ?_⟩
    cases hl
    rfl
  | cons a as ih =>
    have hcopy : copyInRange type c found (a :: as) s = if rangeRes type c a < 0 then
        .error (rangeRes type c a, s.2)
      else copyInRange type c found as
        (if rangeRes type c a = 0 then s else copyValue found s a) := rfl
    rw [hcopy, valuesInRange]
    by_cases hneg : rangeRes type c a < 0
    · rw [if_pos hneg, if_pos hneg]
      refine ⟨fun res hres => ⟨s.2, ?_⟩, nofun⟩
      cases hres
      rfl
    · rw [if_neg hneg, if_neg hneg]
      obtain ⟨herror, hok⟩ := ih (if rangeRes type c a = 0 then s else copyValue found s a)
      cases hrest : valuesInRange type c as with
      | error res' =>
        refine ⟨fun res hres => ?_, nofun⟩
        cases hres
        exact herror res' hrest
      | ok l' =>
        refine ⟨nofun, fun l hl => ?_⟩
        cases hl
        rw [hok l' hrest]
        split_ifs <;> rfl

theorem copyEqual_eq (type : ℕ) (alt₁ alt₂ : List (List UInt8)) (b : Builder) :
    copyEqual type alt₁ alt₂ b = (equalValues type alt₁ alt₂).foldl (copyValue false) (0, b) := by
  rw [copyEqual, equalValues, foldl_flatMap]
  congr 1
  funext s a₂
  rw [foldl_filter]
  congr 1
  funext s a₁
  simp only [decide_eq_true_eq]

theorem flatten_le {l : List (List UInt8)} (h : ∀ a ∈ l, a.length ≤ size) :
    l.flatten.length ≤ size * l.length := by
  induction l with
  | nil => exact Nat.zero_le _
  | cons a l ih =>
    have ha := h a mem_cons_self
    have hl := ih fun x hx => h x (mem_cons_of_mem a hx)
    rw [flatten_cons, length_append, length_cons, Nat.mul_succ]
    omega

theorem alternative_le {vals : List (List UInt8)} (h : ∀ a ∈ vals, a.length = size) (i : ℕ) :
    (alternative vals i).length ≤ size := by
  rw [alternative, getD_eq_getElem?_getD]
  rcases hi : vals[i]? with _ | a
  · exact Nat.zero_le _
  · exact le_of_eq (h a (mem_of_getElem? hi))

/-- **The values in a range**, or the error of the first check that has no answer. -/
theorem valuesInRange_spec (type : ℕ) (c : Alternatives) (as : List (List UInt8)) :
    valuesInRange type c as = .ok (as.filter fun a => rangeRes type c a ≠ 0) ∧
        (∀ a ∈ as, ¬ rangeRes type c a < 0) ∨
      (∃ res, valuesInRange type c as = .error res ∧ res < 0) ∧ ∃ a ∈ as, rangeRes type c a < 0 := by
  induction as with
  | nil => exact .inl ⟨rfl, nofun⟩
  | cons a as ih =>
    rw [valuesInRange]
    by_cases hneg : rangeRes type c a < 0
    · rw [if_pos hneg]
      exact .inr ⟨⟨_, rfl, hneg⟩, a, mem_cons_self, hneg⟩
    · rw [if_neg hneg]
      rcases ih with ⟨hl, hall⟩ | ⟨⟨res, hres, hlt⟩, a', ha', hneg'⟩
      · rw [hl, Except.map]
        refine .inl ⟨?_, forall_mem_cons.mpr ⟨hneg, hall⟩⟩
        by_cases hzero : rangeRes type c a = 0
        · rw [if_pos hzero, filter_cons_of_neg (by simpa using hzero)]
        · rw [if_neg hzero, filter_cons_of_pos (by simpa using hzero)]
      · rw [hres]
        exact .inr ⟨⟨res, rfl, hlt⟩, a', mem_cons_of_mem a ha', hneg'⟩

theorem length_equalValues (type : ℕ) (alt₁ alt₂ : List (List UInt8)) :
    (equalValues type alt₁ alt₂).length ≤ alt₁.length * alt₂.length := by
  unfold equalValues
  induction alt₂ with
  | nil => exact Nat.zero_le _
  | cons a₂ alt₂ ih =>
    have hfilter := length_filter_le (fun a₁ => decide (compareValue type a₁ a₂ = 0)) alt₁
    rw [flatMap_cons, length_append, length_cons, Nat.mul_succ]
    omega

theorem length_written (default : Option (List UInt8)) (l : List (List UInt8))
    (hdefault : ∀ a, default = some a → a.length ≤ size) (hl : ∀ a ∈ l, a.length ≤ size) :
    (writtenValues default l).flatten.length ≤ size * (l.length + 1) := by
  cases l with
  | nil =>
    cases default with
    | none => exact Nat.zero_le _
    | some d =>
      have hd := hdefault d rfl
      simpa [writtenValues] using hd
  | cons a l =>
    have hfirst : (default.getD a).length ≤ size := by
      cases default with
      | none => exact hl a mem_cons_self
      | some d => exact hdefault d rfl
    show (default.getD a :: a :: l).flatten.length ≤ size * (default.getD a :: a :: l).length
    refine flatten_le fun x hx => ?_
    rcases mem_cons.mp hx with rfl | hx
    · exact hfirst
    · exact hl x hx

theorem filterFlagsValue_eq (b : Builder) (r₁ r₂ : List UInt8) (hint : type = 4 → size = 4)
    (hlong : type = 5 → size = 8) :
    (∀ bits, commonBits type r₁ r₂ = some bits → ∃ header, filterFlagsValue b type r₁ r₂ size =
      (1, (primitiveBody b header bits []).2) ∧ bits.length = size) ∧
    (commonBits type r₁ r₂ = none → (filterFlagsValue b type r₁ r₂ size).1 ≠ 1) := by
  rcases eq_or_ne type 4 with rfl | hfour
  · obtain rfl := hint rfl
    by_cases hzero : word 32 (r₁.take 4) &&& word 32 (r₂.take 4) = 0
    · simp [filterFlagsValue, commonBits, hzero]
    · simp only [filterFlagsValue, commonBits, hzero, if_false]
      exact ⟨fun bits hsome => by cases hsome; exact ⟨_, rfl, length_toLe _ _⟩, fun he => by cases he⟩
  rcases eq_or_ne type 5 with rfl | hfive
  · obtain rfl := hlong rfl
    by_cases hzero : word 64 (r₁.take 8) &&& word 64 (r₂.take 8) = 0
    · simp [filterFlagsValue, commonBits, hzero]
    · simp only [filterFlagsValue, commonBits, hzero, if_false]
      exact ⟨fun bits hsome => by cases hsome; exact ⟨_, rfl, length_toLe _ _⟩, fun he => by cases he⟩
  · simp [filterFlagsValue, commonBits, eNotSup]

variable (hcap : capacity < 2 ^ 32) (hflags : t.flags = ⟨false, false⟩)
  (halign : t.bytes.length % 8 = 0) (hin : t.Inside) {size type : ℕ}

include hcap hflags halign

theorem Opened.pop (h : Opened capacity t key flags child b kind vals)
    (hfits : t.bytes.length + (40 + vals.flatten.length) ≤ capacity) :
    Kept capacity (builderPop b) (t.put (propBytes key flags kind child vals)) :=
  Kept.popChoice h hcap hflags halign hfits

include hin

/-- **The end**, for values that were copied. -/
theorem Opened.close (default : Option (List UInt8)) (l : List (List UInt8))
    (h : Opened capacity t key flags child b 0 (writtenValues default l))
    (hsize : ∀ a ∈ l, a.length = child.size)
    (hfits : t.bytes.length + (40 + (writtenValues default l).flatten.length) ≤ capacity) :
    Writes capacity t key flags child
      (filterClose child.size (t.bytes.length + 8) ⟨l.length, ChoiceType.none.number, b⟩)
      (listing default l) := by
  match l with
  | [] => exact rfl
  | [a] =>
    -- the default was written in front of the only value, which is taken back
    have ha : a.length = child.size := hsize a mem_cons_self
    have htext : (choiceText t key flags 0 child [default.getD a].flatten).put a =
        choiceText t key flags 0 child (writtenValues default [a]).flatten := by
      rw [choiceText_put, flatten_singleton]
      simp only [writtenValues, flatten_cons, flatten_nil, append_nil]
    have hremove : Opened capacity t key flags child (builderRemove b child.size) 0
        [default.getD a] := by
      rw [Opened, ← htext] at h
      rw [← ha]
      exact Kept.remove h (choiceText_inside hin _ _ _ _ _)
    have hlen : [default.getD a].flatten.length ≤ (writtenValues default [a]).flatten.length := by
      simp only [writtenValues, flatten_cons, length_append]
      omega
    exact ⟨rfl, hremove.pop hcap hflags halign (by omega)⟩
  | a :: a' :: l =>
    have hset : Opened capacity t key flags child
        (setChoice b (t.bytes.length + 8) ChoiceType.enum.number) ChoiceType.enum.number
        (writtenValues default (a :: a' :: l)) := Kept.setChoice h _
    exact ⟨rfl, hset.pop hcap hflags halign hfits⟩

omit hflags halign hin in
theorem Opened.number (h : Opened capacity t key flags child b kind [])
    (header body : List UInt8) (hfits : t.bytes.length + 32 + body.length ≤ capacity) :
    Opened capacity t key flags child (primitiveBody b header body []).2 kind [body] := by
  have htext : (choiceText t key flags kind child []).step (.value header body []) =
      choiceText t key flags kind child [body].flatten := by
    have hput : ((choiceText t key flags kind child []).put body).put [] =
        choiceText t key flags kind child [body].flatten := by
      rw [choiceText_put, choiceText_put, nil_append, append_nil, flatten_singleton]
    show Text.fill (((choiceText t key flags kind child []).put body).put []) _ = _
    rw [hput]
    rfl
  have hlast : ((choiceText t key flags kind child []).step (.value header body [])).bytes.length ≤
      capacity := by
    rw [htext, length_choiceText, flatten_singleton]
    exact hfits
  have htells : Tells b.data.length (primitiveBody b header body [])
      ((choiceText t key flags kind child []).step (.value header body [])) :=
    Follows.primitiveBody (Kept.follows h) (Nat.lt_of_le_of_lt hlast hcap)
  rw [htext] at htells hlast
  exact ⟨htells.follows, htells.length.trans (Kept.length h), hlast⟩

/-- The rest of `spa_pod_filter_prop`, behind the branches. -/
def filterEnd (size nc : ℕ) : Except (Int × Builder) Filtered → Int × Builder
  | .error r => r
  | .ok f => filterClose size nc f

theorem Opened.listed (default : Option (List UInt8)) (l : List (List UInt8))
    (h : Opened capacity t key flags child b 0 default.toList)
    (hdefault : ∀ a, default = some a → a.length ≤ child.size) (hl : ∀ a ∈ l, a.length = child.size)
    (hfits : t.bytes.length + (40 + child.size * (l.length + 1)) ≤ capacity) :
    Writes capacity t key flags child
      (filterClose child.size (t.bytes.length + 8) ⟨(l.foldl (copyValue default.isSome) (0, b)).1,
        ChoiceType.none.number, (l.foldl (copyValue default.isSome) (0, b)).2⟩)
      (listing default l) := by
  have hwritten := length_written default l hdefault fun a ha => le_of_eq (hl a ha)
  obtain ⟨hcount, hcopied⟩ := h.copyAll default l hcap (by omega)
  rw [hcount]
  exact hcopied.close hcap hflags halign hin default l hl (by omega)

/-- **Values inside of a range** are copied, behind a default. -/
theorem Opened.inRange (c : Alternatives) (default : Option (List UInt8)) (as : List (List UInt8))
    (h : Opened capacity t key flags child b 0 default.toList)
    (hdefault : ∀ a, default = some a → a.length ≤ child.size)
    (has : ∀ a ∈ as, a.length = child.size)
    (hfits : t.bytes.length + (40 + child.size * (as.length + 1)) ≤ capacity) :
    Writes capacity t key flags child (filterEnd child.size (t.bytes.length + 8)
        ((copyInRange child.type c default.isSome as (0, b)).map fun s =>
          ⟨s.1, ChoiceType.none.number, s.2⟩))
      (valuesInRange child.type c as >>= listing default) := by
  obtain ⟨herror, hok⟩ := copyInRange_eq child.type c default.isSome as (0, b)
  rcases valuesInRange_spec child.type c as with ⟨hrange, -⟩ | ⟨⟨res, hrange, -⟩, -⟩
  · have hle := length_filter_le (fun a => decide (rangeRes child.type c a ≠ 0)) as
    have hmul := Nat.mul_le_mul_left child.size (Nat.add_le_add_right hle 1)
    rw [hok _ hrange, hrange]
    exact Opened.listed hcap hflags halign hin default _ h hdefault
      (fun a ha => has a (mem_filter.mp ha).1) (by omega)
  · obtain ⟨b', hb'⟩ := herror res hrange
    rw [hb', hrange]
    exact rfl

omit hin in
/-- **Two ranges** have a range in common, or nothing. -/
theorem Opened.ranges (c₁ c₂ : Alternatives) (h : Opened capacity t key flags child b 0 [])
    (hvals₁ : ∀ a ∈ c₁.vals, a.length = child.size) (hvals₂ : ∀ a ∈ c₂.vals, a.length = child.size)
    (hfits : t.bytes.length + (40 + child.size * 3) ≤ capacity) : Writes capacity t key flags child
      (filterEnd child.size (t.bytes.length + 8)
        ((filterRanges child.type c₁ c₂ b).map fun s => ⟨s.1, ChoiceType.range.number,
          setChoice s.2 (t.bytes.length + 8) ChoiceType.range.number⟩))
      (meetRanges child.type c₁ c₂) := by
  have halt₁ := alternative_le hvals₁
  have halt₂ := alternative_le hvals₂
  -- three values are written
  have hthree : ∀ a min max : List UInt8, a.length ≤ child.size → min.length ≤ child.size →
      max.length ≤ child.size → Writes capacity t key flags child
        (filterClose child.size (t.bytes.length + 8) ⟨0, ChoiceType.range.number, setChoice
          (Pod.raw (Pod.raw (Pod.raw b a).2 min).2 max).2 (t.bytes.length + 8)
          ChoiceType.range.number⟩) (.ok (ChoiceType.range.number, [a, min, max])) := by
    intro a min max ha hmin hmax
    have hone := h.raw hcap a (by simp; omega)
    have htwo := hone.raw hcap min (by simp; omega)
    have hall := htwo.raw hcap max (by simp; omega)
    have hset : Opened capacity t key flags child _ ChoiceType.range.number [a, min, max] :=
      Kept.setChoice hall ChoiceType.range.number
    exact ⟨rfl, hset.pop hcap hflags halign (by simp; omega)⟩
  unfold filterRanges meetRanges
  dsimp only
  have hif : ∀ {p : Prop} [Decidable p] {x y : List UInt8}, x.length ≤ child.size →
      y.length ≤ child.size → (if p then x else y).length ≤ child.size := by
    intro p _ x y hx hy
    split_ifs <;> assumption
  generalize hmin : (if compareValue child.type (alternative c₁.vals 1) (alternative c₂.vals 1) < 0
    then alternative c₂.vals 1 else alternative c₁.vals 1) = min
  generalize hmax : (if compareValue child.type (alternative c₂.vals 2) (alternative c₁.vals 2) < 0
    then alternative c₂.vals 2 else alternative c₁.vals 2) = max
  have hminlen : min.length ≤ child.size := hmin ▸ hif (halt₂ 1) (halt₁ 1)
  have hmaxlen : max.length ≤ child.size := hmax ▸ hif (halt₂ 2) (halt₁ 2)
  by_cases hempty : compareValue child.type max min < 0
  · rw [if_pos hempty, if_pos hempty]
    exact rfl
  · -- the checks of the defaults have no errors
    have hres : ∀ v, ¬ isInRange child.type v min max none < 0 := fun v => by
      unfold isInRange
      split_ifs
      · exact Int.lt_irrefl 0
      · exact (by decide : ¬ (1 : Int) < 0)
    rw [if_neg hempty, if_neg hempty, if_neg (hres _), if_neg fun hand => hres _ hand.2]
    exact hthree _ _ _ (hif (halt₂ 0) (hif (halt₁ 0) hminlen)) hminlen hmaxlen

omit hin in
/-- **Flags** have their bits in common. -/
theorem Opened.bits (r₁ r₂ : List UInt8) (h : Opened capacity t key flags child b 0 [])
    (hint : child.type = 4 → child.size = 4) (hlong : child.type = 5 → child.size = 8)
    (hfits : t.bytes.length + (40 + child.size * 1) ≤ capacity) : Writes capacity t key flags child
      (filterEnd child.size (t.bytes.length + 8)
        (if (filterFlagsValue b child.type r₁ r₂ child.size).1 ≠ 1 then
          .error (-eInval, (filterFlagsValue b child.type r₁ r₂ child.size).2)
        else .ok ⟨0, ChoiceType.flags.number, setChoice
          (filterFlagsValue b child.type r₁ r₂ child.size).2 (t.bytes.length + 8)
          ChoiceType.flags.number⟩))
      (match commonBits child.type r₁ r₂ with
        | some bits => .ok (ChoiceType.flags.number, [bits])
        | none => .error (-eInval)) := by
  -- the number that is written
  have hnumber : ∀ header body : List UInt8, body.length ≤ child.size →
      Writes capacity t key flags child
        (filterClose child.size (t.bytes.length + 8) ⟨0, ChoiceType.flags.number,
          setChoice (primitiveBody b header body []).2 (t.bytes.length + 8) ChoiceType.flags.number⟩)
        (.ok (ChoiceType.flags.number, [body])) := by
    intro header body hbody
    have hset : Opened capacity t key flags child _ ChoiceType.flags.number [body] :=
      Kept.setChoice (h.number hcap header body (by omega)) ChoiceType.flags.number
    exact ⟨rfl, hset.pop hcap hflags halign (by rw [flatten_singleton]; omega)⟩
  obtain ⟨hsome, hnone⟩ := filterFlagsValue_eq b r₁ r₂ hint hlong
  cases hbits : commonBits child.type r₁ r₂ with
  | none =>
    rw [if_pos (hnone hbits)]
    exact rfl
  | some bits =>
    obtain ⟨header, hvalue, hlen⟩ := hsome bits hbits
    rw [hvalue, if_neg (not_not_intro rfl)]
    exact hnumber header bits (le_of_eq hlen)

variable {c₁ c₂ : Alternatives} (hvals₁ : ∀ a ∈ c₁.vals, a.length = child.size)
  (hvals₂ : ∀ a ∈ c₂.vals, a.length = child.size) (hne₁ : c₁.vals ≠ []) (hne₂ : c₂.vals ≠ [])
  (hint : child.type = 4 → child.size = 4) (hlong : child.type = 5 → child.size = 8)
  (hfits : t.bytes.length + (40 + child.size * ((c₁.vals.length + 1) * (c₂.vals.length + 1))) ≤
    capacity)

include hvals₁ hvals₂ hne₁ hne₂ hint hlong hfits

/-- **The branches** write what the two choices have in common. -/
theorem Opened.branch (h : Opened capacity t key flags child b 0 []) :
    Writes capacity t key flags child (filterEnd child.size (t.bytes.length + 8)
        (filterBranch child.type child.size (t.bytes.length + 8) c₁ c₂ b))
      (meetBranch child.type c₁ c₂) := by
  have hpos₁ := length_pos_iff.mpr hne₁
  have hpos₂ := length_pos_iff.mpr hne₂
  have hroom : ∀ k : ℕ, k ≤ (c₁.vals.length + 1) * (c₂.vals.length + 1) →
      t.bytes.length + (40 + child.size * k) ≤ capacity := fun k hk => by
    have := Nat.mul_le_mul_left child.size hk
    omega
  have hprod : c₁.vals.length * c₂.vals.length + c₁.vals.length + c₂.vals.length + 1 =
      (c₁.vals.length + 1) * (c₂.vals.length + 1) := by
    rw [Nat.add_mul, Nat.mul_add]
    omega
  unfold filterBranch meetBranch
  split_ifs with hll hlr hrl hrr hbits hunsup
  · rw [copyEqual_eq]
    have hlen := length_equalValues child.type c₁.vals c₂.vals
    refine Opened.listed hcap hflags halign hin none _ h nofun (fun a ha => ?_) (hroom _ (by omega))
    obtain ⟨a₂, -, ha⟩ := mem_flatMap.mp ha
    exact hvals₁ a (mem_filter.mp ha).1
  · -- the default of the range goes first, if it is among the values
    have hdefault : ∀ a, findDefault child.type c₁.vals c₂ = some a → a.length = child.size := by
      intro a ha
      unfold findDefault at ha
      dsimp only at ha
      split_ifs at ha
      exact hvals₁ a (mem_of_find?_eq_some ha)
    cases hfound : findDefault child.type c₁.vals c₂ with
    | none => exact Opened.inRange hcap hflags halign hin c₂ none c₁.vals h nofun hvals₁ (hroom _ (by omega))
    | some d =>
      have hd := hdefault d hfound
      have hone := hroom 1 (by omega)
      have hopen := h.raw hcap d (by rw [nil_append, flatten_singleton]; omega)
      exact Opened.inRange hcap hflags halign hin c₂ (some d) c₁.vals hopen
        (fun a ha => by cases ha; exact le_of_eq hd) hvals₁ (hroom _ (by omega))
  · exact Opened.inRange hcap hflags halign hin c₁ none c₂.vals h nofun hvals₂ (hroom _ (by omega))
  · exact Opened.ranges hcap hflags halign c₁ c₂ h hvals₁ hvals₂ (hroom _ (by omega))
  · exact Opened.bits hcap hflags halign _ _ h hint hlong (hroom _ (by omega))
  · exact rfl
  · exact rfl

/-- **`spa_pod_filter_prop` writes what the two choices have in common.** -/
theorem filterValues_eq (h : Kept capacity b t) :
    Writes capacity t key flags child (filterValues b key flags child c₁ c₂)
      (meet child.type c₁ c₂) := by
  have hprop : Kept capacity (builderProp b key flags).2
      (t.put (toLe 4 key.toNat ++ toLe 4 flags.toNat)) := h.raw hcap (by
    simp only [Text.put, length_append, length_toLe]
    omega)
  have hnc : (builderProp b key flags).2.offset = t.bytes.length + 8 := by
    rw [hprop.follows.offset]
    simp only [Text.put, length_append, length_toLe]
  have hopen : Opened capacity t key flags child
      (builderChild (builderPushChoice (builderProp b key flags).2 0 0) child).2 0 [] :=
    h.openChoice hcap (by omega)
  have hvalues : filterValues b key flags child c₁ c₂ =
      filterEnd child.size (builderProp b key flags).2.offset
        (if isValidChoice child.type (alternative c₂.vals 0) c₂.vals c₂.choice = 0 then
          filterBranch child.type child.size (builderProp b key flags).2.offset c₂ c₁
            (builderChild (builderPushChoice (builderProp b key flags).2 0 0) child).2
        else filterBranch child.type child.size (builderProp b key flags).2.offset c₁ c₂
            (builderChild (builderPushChoice (builderProp b key flags).2 0 0) child).2) := by
    unfold filterValues filterEnd
    dsimp only
    split_ifs <;> rfl
  rw [hvalues, hnc, meet]
  split_ifs
  · refine hopen.branch hcap hflags halign hin hvals₂ hvals₁ hne₂ hne₁ hint hlong ?_
    rw [Nat.mul_comm (c₂.vals.length + 1)]
    exact hfits
  · exact hopen.branch hcap hflags halign hin hvals₁ hvals₂ hne₁ hne₂ hint hlong hfits

end

/-! ## Properties in memory -/

theorem loadValues_eq {m : Memory} {size p : ℕ} {vs : List Scalar}
    (hvs : ∀ v ∈ vs, v.body.length = size) (hat : m.At p (vs.flatMap Scalar.body)) :
    loadValues m size vs.length p = .ok (vs.map Scalar.body) := by
  induction vs generalizing p with
  | nil => rfl
  | cons v vs ih =>
    have hv := hvs v mem_cons_self
    have hoff : ptroff p size = p + v.body.length := by
      rw [← hv]
      exact hat.left.1.ptroff_eq le_rfl
    simp only [length_cons, loadValues, hat.left.load hv, hoff, bind, Except.bind,
      ih (fun w hw => hvs w (mem_cons_of_mem v hw)) hat.right]
    rfl

/-- A property in memory whose value is a value or a choice with values of one type. -/
structure Offer (m : Memory) (p : ℕ) (e : Entry) (type : BitVec 32) (vs : List Scalar) : Prop where
  lies : e.Lies m p
  written : Written m (p + 8) e.value
  values : e.value.alternatives = some (type, vs)

/-- The values of a property as the filter sees them. -/
def offered (type : BitVec 32) (vs : List Scalar) : Alternatives :=
  ⟨type.toNat, vs.map Scalar.body⟩

section

variable {m₁ m₂ m : Memory} {p₁ p₂ p : ℕ} {e₁ e₂ e : Entry} {type₁ type₂ type : BitVec 32}
  {v₁ v₂ v : Scalar} {vs₁ vs₂ vs : List Scalar}

theorem Offer.size (h : Offer m p e type (v :: vs)) : ∀ w ∈ v :: vs, w.header = v.header := by
  have hok := h.written.ok
  obtain ⟨u, -, -, hvs⟩ | ⟨flags, hvalue⟩ := Tree.scalar_or_choice h.values
  · cases hvs
    intro w hw
    rw [mem_singleton.mp hw]
  · rw [hvalue] at hok
    exact fun w hw => (hok.1 w hw).2.1

theorem Offer.read (h : Offer m p e type (v :: vs)) :
    m.property p = .ok ⟨e.key.toNat, e.flags.toNat, e.value.header⟩ ∧
      ∃ s, getValues m (ptroff p 8) = .ok s ∧ s.count = vs.length + 1 ∧ s.choice = type.toNat ∧
        m.header s.at_ = .ok v.header ∧
        loadValues m v.header.size (vs.length + 1) (ptroff s.at_ 8) =
          .ok ((v :: vs).map Scalar.body) := by
  have hoff : ptroff p 8 = p + 8 :=
    h.lies.bytes.1.ptroff_eq (by rw [Entry.length_bytes]; omega)
  obtain ⟨s, hs, hseen, -⟩ := h.written.getValues_eq
  have hat : ptroff s.at_ 8 = s.at_ + 8 := hseen.holds.ptroff_eq le_rfl
  have hchoice : e.value.choiceType = type ∧ e.value.valueBody = (v :: vs).flatMap Scalar.body := by
    obtain ⟨u, hvalue, rfl, hvs⟩ | ⟨flags, hvalue⟩ := Tree.scalar_or_choice h.values
    · cases hvs
      rw [hvalue]
      exact ⟨rfl, (append_nil _).symm⟩
    · rw [hvalue]
      exact ⟨rfl, rfl⟩
  refine ⟨h.lies.property_eq, s, by rw [hoff]; exact hs, ?_, ?_, ?_, ?_⟩
  · rw [hseen.count, Tree.count_eq h.values, length_cons]
  · rw [hseen.choice, hchoice.1]
  · rw [hseen.header, Tree.valueHeader_eq h.values]
  · have hbody := hseen.body
    rw [hchoice.2] at hbody
    rw [hat]
    exact loadValues_eq (fun w hw => congrArg Header.size (h.size w hw)) hbody

theorem filterProp_differ (b : Builder) (h₁ : Offer m₁ p₁ e₁ type₁ (v₁ :: vs₁))
    (h₂ : Offer m₂ p₂ e₂ type₂ (v₂ :: vs₂)) (h : e₁.key ≠ e₂.key ∨ v₁.header ≠ v₂.header) :
    filterProp m₁ m₂ b p₁ p₂ = .ok (-eInval, b) := by
  obtain ⟨hprop₁, s₁, hs₁, hcount₁, -, hheader₁, -⟩ := h₁.read
  obtain ⟨hprop₂, s₂, hs₂, hcount₂, -, hheader₂, -⟩ := h₂.read
  have hdiffer : v₁.header.type ≠ v₂.header.type ∨ v₁.header.size ≠ v₂.header.size ∨
      e₁.key.toNat ≠ e₂.key.toNat := by
    by_contra hno
    push Not at hno
    obtain ⟨htype, hsize, hkey⟩ := hno
    rcases h with h | h
    · exact h (BitVec.eq_of_toNat_eq hkey)
    · exact h (congrArg₂ Header.mk hsize htype)
  simp only [filterProp, hprop₁, hprop₂, hs₁, hs₂, bind, Except.bind, hcount₁, hcount₂, hheader₁,
    hheader₂]
  rw [if_neg (by omega), if_pos hdiffer]
  rfl

theorem filterProp_eq (b : Builder) (h₁ : Offer m₁ p₁ e₁ type₁ (v₁ :: vs₁))
    (h₂ : Offer m₂ p₂ e₂ type₂ (v₂ :: vs₂)) (hkey : e₁.key = e₂.key)
    (hheader : v₁.header = v₂.header) :
    filterProp m₁ m₂ b p₁ p₂ = .ok (filterValues b e₁.key (e₁.flags &&& e₂.flags) v₁.header
      (offered type₁ (v₁ :: vs₁)) (offered type₂ (v₂ :: vs₂))) := by
  obtain ⟨hprop₁, s₁, hs₁, hcount₁, hchoice₁, hheader₁, hload₁⟩ := h₁.read
  obtain ⟨hprop₂, s₂, hs₂, hcount₂, hchoice₂, hheader₂, hload₂⟩ := h₂.read
  rw [← hheader] at hload₂ hheader₂
  simp only [filterProp, hprop₁, hprop₂, hs₁, hs₂, bind, Except.bind, hcount₁, hcount₂, hheader₁,
    hheader₂, hload₁, hload₂, hchoice₁, hchoice₂]
  rw [if_neg (by omega), if_neg (by rw [hkey]; simp)]
  have hflags : BitVec.ofNat 32 (e₁.flags.toNat &&& e₂.flags.toNat) = e₁.flags &&& e₂.flags := by
    rw [← BitVec.toNat_and, BitVec.ofNat_toNat, BitVec.setWidth_eq]
  rw [hflags, BitVec.ofNat_toNat, BitVec.setWidth_eq]
  rfl

end

end PipeWireAO.Pod
