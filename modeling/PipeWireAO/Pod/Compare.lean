import PipeWireAO.Pod.Iter

/-!
# Comparison of pods

`spa/pod/compare.h`. A value is compared by the order of its type, a choice by the number of its
values and the first of them, a struct and an object part by part. The functions on values take the
bytes of the values, as many as the header of the pod says.

The two pods may be in two buffers, each of them in a memory of its own.
-/

namespace PipeWireAO.Pod

open Foundation (ofLe)

/-! ## Values -/

/-- `SPA_CMP`, of integers. -/
def cmp (a b : Int) : Int := if b < a then 1 else if a = b then 0 else -1

/-- The number that the bits of a float stand for, up to scale: `e` bits of exponent and `f` bits of
fraction behind a sign. `none` is NaN. -/
def floatKey (e f bits : ℕ) : Option Int :=
  let magnitude := bits % 2 ^ (e + f)
  if (2 ^ e - 1) * 2 ^ f < magnitude then none
  else some (if bits < 2 ^ (e + f) then magnitude else -magnitude)

/-- `SPA_CMP`, of floats: NaN is above all. -/
def floatCmp (a b : Option Int) : Int :=
  match a, b with
  | some a, some b => cmp a b
  | some _, none => -1
  | none, _ => 1

/-- `memcmp`. Only the sign of its result is known. -/
def memcmp : List UInt8 → List UInt8 → Int
  | x :: xs, y :: ys => if x = y then memcmp xs ys else cmp x.toNat y.toNat
  | _, _ => 0

/-- `strncmp`, up to the length of the lists. Only the sign of its result is known. -/
def strncmp : List UInt8 → List UInt8 → Int
  | x :: xs, y :: ys =>
    if x ≠ y then cmp x.toNat y.toNat else if x = 0 then 0 else strncmp xs ys
  | _, _ => 0

/-- Rectangles are compared by their areas, then by their widths. The areas fit in 64 bits. -/
def compareRectangle (r₁ r₂ : BitVec 32 × BitVec 32) : Int :=
  let a₁ := r₁.1.toNat * r₁.2.toNat
  let a₂ := r₂.1.toNat * r₂.2.toNat
  if a₁ < a₂ then -1 else if a₂ < a₁ then 1 else cmp r₁.1.toNat r₂.1.toNat

/-- Fractions are compared by products, which fit in 64 bits. -/
def compareFraction (f₁ f₂ : BitVec 32 × BitVec 32) : Int :=
  cmp (f₁.1.toNat * f₂.2.toNat : ℕ) (f₂.1.toNat * f₁.2.toNat : ℕ)

/-- `!!*(int32_t *)r`. -/
def truth (r : List UInt8) : Int := if ofLe (r.take 4) = 0 then 0 else 1

/-- `spa_pod_compare_value`. -/
def compareValue (type : ℕ) (r₁ r₂ : List UInt8) : Int :=
  match type with
  | 1 => 0
  | 2 => cmp (truth r₁) (truth r₂)
  | 3 => cmp (ofLe (r₁.take 4)) (ofLe (r₂.take 4))
  | 4 => cmp (word 32 (r₁.take 4)).toInt (word 32 (r₂.take 4)).toInt
  | 5 => cmp (word 64 (r₁.take 8)).toInt (word 64 (r₂.take 8)).toInt
  | 6 => floatCmp (floatKey 8 23 (ofLe (r₁.take 4))) (floatKey 8 23 (ofLe (r₂.take 4)))
  | 7 => floatCmp (floatKey 11 52 (ofLe (r₁.take 8))) (floatKey 11 52 (ofLe (r₂.take 8)))
  | 8 => strncmp r₁ r₂
  | 10 => compareRectangle (wordPair (r₁.take 8)) (wordPair (r₂.take 8))
  | 11 => compareFraction (wordPair (r₁.take 8)) (wordPair (r₂.take 8))
  | _ => memcmp r₁ r₂

/-! ## Choices -/

/-- A remainder of two signed numbers that is to be zero, for a step of one or more. -/
def isMultiple (v step : Int) : Int :=
  if step < 1 then -eInval else if v.tmod step = 0 then 1 else 0

/-- `spa_pod_compare_is_step_of`. -/
def isStepOf (type : ℕ) (r₁ r₂ : List UInt8) : Int :=
  match type with
  | 4 => isMultiple (word 32 (r₁.take 4)).toInt (word 32 (r₂.take 4)).toInt
  | 5 => isMultiple (word 64 (r₁.take 8)).toInt (word 64 (r₂.take 8)).toInt
  | 10 =>
    let (width, height) := wordPair (r₁.take 8)
    let (width', height') := wordPair (r₂.take 8)
    if width'.toNat < 1 ∨ height'.toNat < 1 then -eInval
    else if width.toNat % width'.toNat = 0 ∧ height.toNat % height'.toNat = 0 then 1 else 0
  | _ => -eNotSup

/-- `spa_pod_compare_is_in_range`. -/
def isInRange (type : ℕ) (v min max : List UInt8) (step : Option (List UInt8)) : Int :=
  if compareValue type v min < 0 ∨ 0 < compareValue type v max then 0
  else
    match step with
    | some step => isStepOf type v step
    | none => 1

/-- The alternative with the given index. -/
def alternative (vals : List (List UInt8)) (i : ℕ) : List UInt8 := vals.getD i []

def stepOf (choice : ℕ) (vals : List (List UInt8)) : Option (List UInt8) :=
  if choice = ChoiceType.step.number then some (alternative vals 3) else none

/-- `spa_pod_compare_is_valid_choice`. -/
def isValidChoice (type : ℕ) (val : List UInt8) (vals : List (List UInt8)) (choice : ℕ) : Int :=
  match choice with
  | 0 => if compareValue type val (alternative vals 0) = 0 then 1 else 0
  | 3 => if vals.tail.any fun next => compareValue type val next = 0 then 1 else 0
  | 1 | 2 => isInRange type val (alternative vals 1) (alternative vals 2) (stepOf choice vals)
  | 4 => 1
  | _ => 0

/-! ## Pods -/

/-- What `spa_pod_get_values` gives: the pod that has the header of the values, their number and the
type of the choice. -/
structure PodValues where
  (at_ count choice : ℕ)
  deriving DecidableEq

/-- `spa_pod_get_values`. -/
def getValues (m : Memory) (pod : ℕ) : Except Error PodValues := do
  let h ← m.header pod
  if h.check .choice 16 then
    let (choice, first) ← bodyGetChoice m h (ptroff pod 8)
    return ⟨ptroff pod 16, (choiceValues h choice first).count, choice.type⟩
  else
    return ⟨pod, if h.size < typeSize h.type then 0 else 1, ChoiceType.none.number⟩

section

variable (m₁ m₂ : Memory)

/-- `spa_pod_memcmp`. -/
def podMemcmp (a b : ℕ) : Except Error Int := do
  let h₁ ← m₁.header a
  let h₂ ← m₂.header b
  if h₁.size = h₂.size then
    let bs₁ ← m₁.load a (8 + h₁.size)
    let bs₂ ← m₂.load b (8 + h₂.size)
    return if memcmp bs₁ bs₂ = 0 then 0 else 1
  else return 1

/-- The loop over the pods of two structs. It has no end but an error: where one of the structs has
no more pods, its result is `-EINVAL`. -/
def structLoop (compare : ℕ → ℕ → Except Error Int) (pod₁ size₁ pod₂ size₂ : ℕ) :
    ℕ → ℕ → ℕ → Except Error Int
  | 0, _, _ => .error .fuel
  | n + 1, p₁, p₂ => do
    if ← podIsInside m₁ pod₁ size₁ p₁ then
      if ← podIsInside m₂ pod₂ size₂ p₂ then
        let res ← compare p₁ p₂
        if res ≠ 0 then return res
        else structLoop compare pod₁ size₁ pod₂ size₂ n (← podNext m₁ p₁) (← podNext m₂ p₂)
      else return -eInval
    else return -eInval

/-- The first loop over the properties of an object: each of them is in the other object as well,
with the same value. -/
def propsLoop (compare : ℕ → ℕ → Except Error Int) (o₂ fuel : ℕ) :
    Option ℕ → List ℕ → Except Error Int
  | _, [] => return 0
  | start, p₁ :: ps => do
    let prop ← m₁.property p₁
    match ← findProp m₂ o₂ start prop.key fuel with
    | none => return 1
    | some p₂ =>
      let res ← compare (ptroff p₁ 8) (ptroff p₂ 8)
      if res ≠ 0 then return res else propsLoop compare o₂ fuel (some p₂) ps

/-- The second loop over the properties of an object: each of them is in the object at `o`. -/
def propsFound (m m' : Memory) (o fuel : ℕ) : Option ℕ → List ℕ → Except Error Bool
  | _, [] => return true
  | start, p :: ps => do
    let prop ← m'.property p
    match ← findProp m o start prop.key fuel with
    | none => return false
    | some found => propsFound m m' o fuel (some found) ps

/-- The `switch` of `spa_pod_compare`, over the type of the values. -/
def compareSwitch (compare : ℕ → ℕ → Except Error Int) (pod₁ pod₂ : ℕ) (h₁ h₂ : Header) :
    Except Error Int :=
  if h₁.type = Kind.struct.number then
    structLoop m₁ m₂ compare pod₁ h₁.size pod₂ h₂.size (rounds h₁.size) (ptroff pod₁ 8)
      (ptroff pod₂ 8)
  else if h₁.type = Kind.object.number then do
    let ps₁ ← objectForeach m₁ pod₁ (rounds h₁.size)
    let res ← propsLoop m₁ m₂ compare pod₂ (rounds h₂.size) none ps₁
    if res ≠ 0 then return res
    else
      let ps₂ ← objectForeach m₂ pod₂ (rounds h₂.size)
      return if ← propsFound m₁ m₂ pod₁ (rounds h₁.size) none ps₂ then 0 else -1
  else if h₁.type = Kind.array.number then podMemcmp m₁ m₂ pod₁ pod₂
  else if h₁.size ≠ h₂.size then return -eInval
  else if h₁.size < typeSize h₁.type then return -eInval
  else do
    let r₁ ← m₁.load (ptroff pod₁ 8) h₁.size
    let r₂ ← m₂.load (ptroff pod₂ 8) h₁.size
    return compareValue h₁.type r₁ r₂

/-- `spa_pod_compare`. -/
def compare : ℕ → ℕ → ℕ → Except Error Int
  | 0, _, _ => .error .fuel
  | n + 1, pod₁, pod₂ => do
    let v₁ ← getValues m₁ pod₁
    let v₂ ← getValues m₂ pod₂
    let h₁ ← m₁.header v₁.at_
    let h₂ ← m₂.header v₂.at_
    if v₁.count ≠ v₂.count then return -eInval
    else if h₁.type ≠ h₂.type then return -eInval
    else if v₁.count < 1 then return -eInval
    else compareSwitch m₁ m₂ (compare n) v₁.at_ v₂.at_ h₁ h₂

/-- `spa_pod_compare`, with as many calls inside of each other as there are bytes. -/
def podCompare (pod₁ pod₂ : ℕ) : Except Error Int := compare m₁ m₂ (m₁.bytes.length + 1) pod₁ pod₂

end

end PipeWireAO.Pod
