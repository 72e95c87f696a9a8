import PipeWireAO.Errno
import Mathlib.Algebra.Group.Nat.Defs

/-!
# The queues of a loop

`loop_invoke` takes a queue from the free list, or makes one, and puts an item into its ring. A ring
without room has an overflow queue, which is made when it is needed first.
-/

namespace PipeWireAO.Loop

open Function

def datasSize : ℕ := 4096 * 8

/-- `SPA_ROUND_UP_N(n, ITEM_ALIGN)` of a `size_t` -/
def roundUp (n : ℕ) : ℕ := (n % 2 ^ 64 + 7) / 8 * 8 % 2 ^ 64

/-- The ring of a queue: the bytes that are not read yet, and the index for writing. -/
structure Ring where
  (filled idx : ℕ)
  filled_le : filled ≤ datasSize

def Ring.empty : Ring := ⟨0, 0, Nat.zero_le _⟩

/-- What a call has done: the rings of its queue, how many overflow queues it has made, and its error. -/
structure Invoked where
  rings : List Ring
  created : ℕ
  error : Option Int

/-- The loop: the free list, and the rings of all queues. -/
structure State where
  free : List ℕ
  queues : ℕ → List Ring

/-- What a call depends on: whether the thread of the loop yields, the retry timeout, the queue that
is made if none is free, the outcomes for overflow queues, and the item's result. -/
structure Call where
  (yielding retry : Bool)
  made : Except Int ℕ
  create : ℕ → Option Int
  res : Int

/-- The end of `loop_queue_invoke` for the queue `i`. -/
def finish (x : Call) (s : State) (i : ℕ) (free : List ℕ) (o : Invoked) : Int × State :=
  match o.error with
  | none => (x.res, ⟨i :: free, update s.queues i o.rings⟩)
  -- there is no `put_queue` before this return
  | some errno => (-errno, ⟨free, update s.queues i o.rings⟩)

section Ends

variable {size n k : ℕ} {create : ℕ → Option Int} {rings : List Ring} {o : Invoked}

end Ends

end PipeWireAO.Loop
