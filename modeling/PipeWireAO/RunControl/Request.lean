import PipeWireAO.Errno
import PipeWireAO.Foundation.Handler

/-!
# Run control and reset control

A controller asks the owner of a processor to run or to stop it, and to reset it while it is stopped.
Requests carry tokens and come as parameters of the node; each is answered by a status with its token.
This module has what the standalone filter and the filter chain share: the states, the requests that
are accepted, and the property that a reset never reaches a running processor.
-/

namespace PipeWireAO.RunControl

open Foundation

/-- `enum pw_ao_run_control_state`. -/
inductive RunState
  | unknown
  | stopped
  | running
deriving DecidableEq

/-- `enum pw_filter_state`. -/
inductive FilterState
  | error
  | unconnected
  | connecting
  | paused
  | streaming
deriving DecidableEq

/-- A valid request to run or to stop: its token is positive and its state is known. -/
structure RunRequest where
  token : Int
  state : RunState
  token_pos : 0 < token
  state_known : state ≠ .unknown
deriving DecidableEq

/-- A valid request to reset. -/
structure ResetRequest where
  token : Int
  token_pos : 0 < token
deriving DecidableEq

/-- The outcome of parsing a parameter: `-ENOENT` (it is about something else), another error with
the token read so far, or a request. -/
inductive Parsed (R : Type*)
  | absent
  | invalid (token res : Int)
  | request (r : R)
deriving DecidableEq

/-- Whether the two controls are enabled. -/
structure Options where
  (run reset : Bool)
deriving DecidableEq

/-- What both implementations keep about requests. -/
structure Control where
  (requested actual : RunState)
  (lastToken completedToken result lastReset completedReset resetResult : Int)
deriving DecidableEq

/-- No request so far, and the processor is stopped. -/
def Control.init : Control := ⟨.unknown, .stopped, 0, 0, 0, 0, 0, 0⟩

/-- What is observed: published statuses, and calls of the owner's reset with whether the
processor was running and the transition that was pending. -/
inductive Event
  | status (token result : Int) (actual : RunState)
  | resetStatus (token result : Int)
  | reset (processing : Bool) (requested : RunState)
deriving DecidableEq

/-- The event is no reset of a running processor, nor one during a transition. -/
def Event.Safe : Event → Prop
  | .reset processing requested => processing = false ∧ requested = .unknown
  | _ => True

/-- **A reset never reaches a running processor.** -/
def ResetSafe {S A : Type*} (M : Machine S A Event) (s₀ : S) : Prop :=
  ∀ s tr, M.Reaches s₀ s tr → ∀ e ∈ tr, e.Safe

/-- A callback that answers a positive number breaks its contract. -/
def checked (res : Int) : Int := if 0 < res then -eProto else res

/-- The refusal of a token that is not new. -/
def staleResult (token last : Int) : Int := if token = last then -eAlready else -eStale

end PipeWireAO.RunControl
