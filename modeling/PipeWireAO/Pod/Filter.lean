import PipeWireAO.Pod.Builder
import PipeWireAO.Pod.Compare

/-!
# Filtering of pods

`spa/pod/filter.h`. The values that two properties have in common are written with a builder: as a
choice of kind None, which becomes another kind when it is known what there is in common.
-/

namespace PipeWireAO.Pod

open Foundation (toLe)

/-- The values of a property: the kind of the choice and the bytes of each value. -/
structure Alternatives where
  choice : ℕ
  vals : List (List UInt8)
  deriving DecidableEq

/-- The bytes of `n` values, one behind the other. -/
def loadValues (m : Memory) (size : ℕ) : ℕ → ℕ → Except Error (List (List UInt8))
  | 0, _ => return []
  | n + 1, p => do
    let a ← m.load p size
    let as ← loadValues m size n (ptroff p size)
    return a :: as

/-- `SPA_CHOICE_None` or `SPA_CHOICE_Enum`. -/
def Alternatives.listed (c : Alternatives) : Bool :=
  c.choice == ChoiceType.none.number || c.choice == ChoiceType.enum.number

/-- `SPA_CHOICE_Range` or `SPA_CHOICE_Step`. -/
def Alternatives.ranged (c : Alternatives) : Bool :=
  c.choice == ChoiceType.range.number || c.choice == ChoiceType.step.number

/-- `SPA_CHOICE_Flags`. -/
def Alternatives.flags (c : Alternatives) : Bool := c.choice == ChoiceType.flags.number

/-- `nc->body.type = kind`, for a choice at `nc` that is in the buffer. -/
def setChoice (b : Builder) (nc kind : ℕ) : Builder :=
  let pod := Header.ofBytes (b.data.drop nc)
  if nc + 8 ≤ b.data.length ∧ nc + (8 + pod.size) ≤ b.data.length ∧ pod.size < maxSize then
    { b with data := write b.data (nc + 8) (toLe 4 kind) }
  else b

/-- `spa_pod_filter_flags_value`. -/
def filterFlagsValue (b : Builder) (type : ℕ) (r₁ r₂ : List UInt8) (size : ℕ) : Int × Builder :=
  match type with
  | 4 =>
    if size < 4 then (-eInval, b)
    else
      let val := word 32 (r₁.take 4) &&& word 32 (r₂.take 4)
      if val = 0 then (0, b) else (1, (builderInt b val).2)
  | 5 =>
    if size < 8 then (-eInval, b)
    else
      let val := word 64 (r₁.take 8) &&& word 64 (r₂.take 8)
      if val = 0 then (0, b) else (1, (builderLong b val).2)
  | _ => (-eNotSup, b)

/-- A value is copied, the first one twice: it is the default as well, if there is none yet. -/
def copyValue (found : Bool) (s : ℕ × Builder) (a : List UInt8) : ℕ × Builder :=
  (s.1 + 1, (raw (if s.1 = 0 ∧ found = false then (raw s.2 a).2 else s.2) a).2)

def copyEqual (type : ℕ) (alt₁ alt₂ : List (List UInt8)) (b : Builder) : ℕ × Builder :=
  alt₂.foldl (fun s a₂ => alt₁.foldl (fun s a₁ =>
    if compareValue type a₁ a₂ = 0 then copyValue false s a₁ else s) s) (0, b)

/-- The loop that copies all values inside of the range of `c`. -/
def copyInRange (type : ℕ) (c : Alternatives) (found : Bool) :
    List (List UInt8) → ℕ × Builder → Except (Int × Builder) (ℕ × Builder)
  | [], s => .ok s
  | a :: as, s =>
    let res := isInRange type a (alternative c.vals 1) (alternative c.vals 2) (stepOf c.choice c.vals)
    if res < 0 then .error (res, s.2)
    else copyInRange type c found as (if res = 0 then s else copyValue found s a)

/-- The default of the range `c` is preferred, if it is inside and among the values. -/
def findDefault (type : ℕ) (alt₁ : List (List UInt8)) (c : Alternatives) : Option (List UInt8) :=
  let default := alternative c.vals 0
  if 0 ≤ compareValue type default (alternative c.vals 1) ∧
      compareValue type default (alternative c.vals 2) ≤ 0 then
    alt₁.find? fun a => compareValue type a default = 0
  else none

/-- The branch for two ranges: the greater minimum and the smaller maximum. -/
def filterRanges (type : ℕ) (c₁ c₂ : Alternatives) (b : Builder) :
    Except (Int × Builder) (ℕ × Builder) :=
  let min₁ := alternative c₁.vals 1
  let max₁ := alternative c₁.vals 2
  let min₂ := alternative c₂.vals 1
  let max₂ := alternative c₂.vals 2
  let min := if compareValue type min₁ min₂ < 0 then min₂ else min₁
  let max := if compareValue type max₂ max₁ < 0 then max₂ else max₁
  if compareValue type max min < 0 then .error (-eInval, b)
  else
    let res₂ := isInRange type (alternative c₂.vals 0) min max none
    let res₁ := isInRange type (alternative c₁.vals 0) min max none
    if res₂ < 0 then .error (res₂, b)
    else if res₂ = 0 ∧ res₁ < 0 then .error (res₁, b)
    else
      let a := if res₂ ≠ 0 then alternative c₂.vals 0 else
        if res₁ ≠ 0 then alternative c₁.vals 0 else min
      .ok (0, (raw (raw (raw b a).2 min).2 max).2)

/-- What a branch of `spa_pod_filter_prop` leaves behind: how many values were copied, the kind of
the choice and the builder. -/
structure Filtered where
  (copied kind : ℕ)
  b : Builder

/-- The branches of `spa_pod_filter_prop`, by the kinds of the two choices. -/
def filterBranch (type size nc : ℕ) (c₁ c₂ : Alternatives) (b : Builder) :
    Except (Int × Builder) Filtered :=
  if c₁.listed && c₂.listed then
    let (copied, b) := copyEqual type c₁.vals c₂.vals b
    .ok ⟨copied, ChoiceType.none.number, b⟩
  else if c₁.listed && c₂.ranged then
    let (found, b) := match findDefault type c₁.vals c₂ with
      | some a => (true, (raw b a).2)
      | none => (false, b)
    (copyInRange type c₂ found c₁.vals (0, b)).map fun s => ⟨s.1, ChoiceType.none.number, s.2⟩
  else if c₁.ranged && c₂.listed then
    (copyInRange type c₁ false c₂.vals (0, b)).map fun s => ⟨s.1, ChoiceType.none.number, s.2⟩
  else if c₁.ranged && c₂.ranged then
    (filterRanges type c₁ c₂ b).map fun s =>
      ⟨s.1, ChoiceType.range.number, setChoice s.2 nc ChoiceType.range.number⟩
  else if c₁.choice = ChoiceType.none.number ∧ c₂.flags ∨
      c₁.flags ∧ c₂.choice = ChoiceType.none.number ∨ c₁.flags ∧ c₂.flags then
    let (res, b) := filterFlagsValue b type (alternative c₁.vals 0) (alternative c₂.vals 0) size
    if res ≠ 1 then .error (-eInval, b)
    else .ok ⟨0, ChoiceType.flags.number, setChoice b nc ChoiceType.flags.number⟩
  else if (c₁.ranged || c₁.choice == ChoiceType.enum.number) && c₂.flags ||
      c₁.flags && (c₂.ranged || c₂.choice == ChoiceType.enum.number) then .error (-eNotSup, b)
  else .ok ⟨0, ChoiceType.none.number, b⟩

/-- The end of `spa_pod_filter_prop`: without a kind, the number of values tells it. -/
def filterClose (size nc : ℕ) (f : Filtered) : Int × Builder :=
  if f.kind = ChoiceType.none.number then
    if f.copied = 0 then (-eInval, f.b)
    else if f.copied = 1 then (0, builderPop (builderRemove f.b size))
    else (0, builderPop (setChoice f.b nc ChoiceType.enum.number))
  else (0, builderPop f.b)

/-- `spa_pod_filter_prop`, from where the property is copied: for values with the header `child`. -/
def filterValues (b : Builder) (key flags : BitVec 32) (child : Header) (c₁ c₂ : Alternatives) :
    Int × Builder :=
  let b := (builderProp b key flags).2
  let nc := b.offset
  let b := (builderChild (builderPushChoice b 0 0) child).2
  -- the second choice is preferred, if its default is one of its values
  let swap := isValidChoice child.type (alternative c₂.vals 0) c₂.vals c₂.choice = 0
  let c := if swap then (c₂, c₁) else (c₁, c₂)
  match filterBranch child.type child.size nc c.1 c.2 b with
  | .error r => r
  | .ok f => filterClose child.size nc f

/-- `spa_pod_filter_prop`. -/
def filterProp (m₁ m₂ : Memory) (b : Builder) (p₁ p₂ : ℕ) : Except Error (Int × Builder) := do
  let prop₁ ← m₁.property p₁
  let prop₂ ← m₂.property p₂
  let v₁ ← getValues m₁ (ptroff p₁ 8)
  let v₂ ← getValues m₂ (ptroff p₂ 8)
  if v₁.count < 1 ∨ v₂.count < 1 then return (-eInval, b)
  else
    let h₁ ← m₁.header v₁.at_
    let h₂ ← m₂.header v₂.at_
    if h₁.type ≠ h₂.type ∨ h₁.size ≠ h₂.size ∨ prop₁.key ≠ prop₂.key then return (-eInval, b)
    else
      let alt₁ ← loadValues m₁ h₁.size v₁.count (ptroff v₁.at_ 8)
      let alt₂ ← loadValues m₂ h₁.size v₂.count (ptroff v₂.at_ 8)
      return filterValues b (BitVec.ofNat 32 prop₁.key) (BitVec.ofNat 32 (prop₁.flags &&& prop₂.flags))
        h₁ ⟨v₁.choice, alt₁⟩ ⟨v₂.choice, alt₂⟩

end PipeWireAO.Pod
