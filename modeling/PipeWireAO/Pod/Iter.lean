import PipeWireAO.Pod.Parser

/-!
# Iterators over pods

`spa/pod/iter.h`: pods and properties by their addresses. The loop of a macro
`SPA_POD_*_FOREACH` whose body does nothing but look is the list of the pointers it goes over.
-/

namespace PipeWireAO.Pod

variable (m : Memory)

/-- `spa_ptrinside`: the bytes that remain after `s₂` bytes at `p₂`, if they are inside of `s₁`
bytes at `p₁`. -/
def ptrInside (p₁ s₁ p₂ s₂ : ℕ) : Option ℕ :=
  if p₁ ≤ p₂ ∧ s₂ ≤ s₁ ∧ p₂ - p₁ ≤ s₁ - s₂ then some (p₁ + s₁ - (p₂ + s₂)) else none

/-- `spa_ptr_inside_and_aligned`, for a type that is aligned to four bytes. -/
def ptrInsideAligned (p₁ s₁ p₂ s₂ : ℕ) : Option ℕ :=
  if p₂ &&& 3 = 0 then ptrInside p₁ s₁ p₂ s₂ else none

/-- The shape of an iteration: the size of a header, and the size of the body that it declares. -/
structure Shape where
  header : ℕ
  size : List UInt8 → ℕ
  header_pos : 8 ≤ header
  header_le : header ≤ 16
  size_lt : ∀ bs, size bs < 2 ^ 32

/-- `struct spa_pod`. -/
def podShape : Shape := ⟨8, fun bs => (Header.ofBytes bs).size, by decide, by decide, Header.size_lt⟩

/-- `struct spa_pod_prop`. -/
def propShape : Shape :=
  ⟨16, fun bs => (Property.ofBytes bs).value.size, by decide, by decide, fun _ => Header.size_lt _⟩

/-- The size of the body that the header at `iter` declares. -/
def bodySize (shape : Shape) (iter : ℕ) : Except Error ℕ := (m.load iter shape.header).map shape.size

/-- The common form of `spa_pod_is_inside` and `spa_pod_prop_is_inside`. -/
def isInside (shape : Shape) (p size iter : ℕ) : Except Error Bool :=
  match ptrInsideAligned p size iter shape.header with
  | none => .ok false
  | some remaining => (bodySize m shape iter).map fun s => decide (s ≤ remaining)

/-- `spa_pod_is_inside`. -/
def podIsInside := isInside m podShape

/-- `spa_pod_prop_is_inside`. -/
def propIsInside := isInside m propShape

/-- The common form of `spa_pod_next` and `spa_pod_prop_next`. -/
def iterNext (shape : Shape) (iter : ℕ) : Except Error ℕ :=
  (bodySize m shape iter).map fun s => ptroff iter (align (shape.header + s))

/-- `spa_pod_next`. -/
def podNext := iterNext m podShape

/-- `spa_pod_prop_next`. -/
def propNext := iterNext m propShape

/-- `spa_pod_prop_first`, of the body of an object. -/
def propFirst (body : ℕ) : ℕ := ptroff body 8

/-- The loop of a `FOREACH` macro over `size` bytes at `p`. -/
def foreachLoop (shape : Shape) (p size : ℕ) : ℕ → ℕ → Except Error (List ℕ)
  | 0, _ => .error .fuel
  | n + 1, iter =>
    match isInside m shape p size iter with
    | .error e => .error e
    | .ok false => .ok []
    | .ok true =>
      match iterNext m shape iter with
      | .error e => .error e
      | .ok next => (foreachLoop shape p size n next).map (iter :: ·)

/-- `SPA_POD_FOREACH`. -/
def podForeach (pod size fuel : ℕ) : Except Error (List ℕ) := foreachLoop m podShape pod size fuel pod

/-- `SPA_POD_OBJECT_FOREACH`. -/
def objectForeach (object fuel : ℕ) : Except Error (List ℕ) :=
  match m.header object with
  | .error e => .error e
  | .ok pod => foreachLoop m propShape (ptroff object 8) pod.size fuel (propFirst (ptroff object 8))

/-- The first loop of `spa_pod_object_find_prop`, with the rounds that are left. -/
def findAfter (body size key : ℕ) : ℕ → ℕ → Except Error (Option ℕ × ℕ)
  | 0, _ => .error .fuel
  | n + 1, res =>
    match propIsInside m body size res with
    | .error e => .error e
    | .ok false => .ok (none, n)
    | .ok true =>
      match m.property res with
      | .error e => .error e
      | .ok prop =>
        if prop.key = key then .ok (some res, n)
        else
          match propNext m res with
          | .error e => .error e
          | .ok next => findAfter body size key n next

/-- The second loop, which goes up to `start` and checks nothing else. -/
def findBefore (start key : ℕ) : ℕ → ℕ → Except Error (Option ℕ)
  | 0, _ => .error .fuel
  | n + 1, res =>
    if res = start then .ok none
    else
      match m.property res with
      | .error e => .error e
      | .ok prop =>
        if prop.key = key then .ok (some res)
        else
          match propNext m res with
          | .error e => .error e
          | .ok next => findBefore start key n next

/-- Where the search for a property begins. -/
def findStart (first : ℕ) : Option ℕ → Except Error ℕ
  | none => .ok first
  | some start => propNext m start

/-- `spa_pod_object_find_prop`. -/
def findProp (object : ℕ) (start : Option ℕ) (key fuel : ℕ) : Except Error (Option ℕ) :=
  let body := ptroff object 8
  let first := propFirst body
  match findStart m first start, m.header object with
  | .error e, _ | _, .error e => .error e
  | .ok start, .ok pod =>
    match findAfter m body pod.size key fuel start with
    | .error e => .error e
    | .ok (some res, _) => .ok (some res)
    | .ok (none, n) => findBefore m start key n first

end PipeWireAO.Pod
