import PipeWireAO.RunControl.Protocol

/-!
# The published statuses of the two implementations

The standalone filter publishes a status when it answers. The filter chain records the status and
signals an event of its main loop, whose handler publishes what is recorded by then. So two answers
that are given before the handler runs are published as one.
-/

namespace PipeWireAO.RunControl

open Foundation List Control

/-! ## The standalone filter -/

namespace Filter

variable {o : Options} {s : State} {ns : List Note}

def plain (_ : State) (a : Action) : Bool := a.plain

end Filter

/-! ## The filter chain -/

namespace Chain

/-- The chain with `publish_after_process`. No step reads `closing`: whether the last status
completes a request. -/
structure Publisher where
  chain : State
  (publish closing : Bool)

/-- The chain handles an event, or its main loop runs the handler `main_event`, where
`publish_graph_props` has the result `res`. If processing has failed, the handler only puts the filter
into the error state, which is an event of the chain. -/
inductive PubAction
  | act (a : Action)
  | mainEvent (res : Int)

/-- The steps: an answer is recorded and its publication is scheduled; the handler publishes what
is recorded, or tries again later. -/
def pubStep (o : Options) (p : Publisher) : PubAction → Option (Publisher × List Note)
  | .act a =>
    ((machine o).step p.chain a).map fun r =>
      let scheduled := !(statuses r.2).isEmpty
      (⟨r.1, p.publish || scheduled,
          if scheduled then closes p.chain.toControl r.1.toControl else p.closing⟩,
        acceptNotes a.request p.chain.toControl r.1.toControl)
  | .mainEvent res =>
    if p.publish = false ∨ res = -eAgain then some (p, [])
    else if res < 0 then some ({ p with publish := false }, [])
    else
      some ({ p with publish := false },
        [statusNote p.closing (p.chain.completedToken, p.chain.result, p.chain.actual)])

def publishing (o : Options) : Machine Publisher PubAction Note where
  step := pubStep o

def Publisher.init : Publisher := ⟨Chain.init, false, false⟩

variable {o : Options} {p p' : Publisher} {ns es : List Note} {r : Option RunRequest}
  {evs : List Event} {q : Requests}

end Chain

/-! ## The same events for both -/

/-- The results of one event: of activating and of deactivating the processor, which are zero or
an error, and of `pw_filter_set_active`. -/
structure Results where
  (activate deactivate setActive : Int)
  activate_le : activate ≤ 0
  deactivate_le : deactivate ≤ 0

def Results.filter (x : Results) : Filter.Answers :=
  ⟨true, none, false, x.activate, x.deactivate, 0, 0, 0, x.setActive⟩

def Results.chain (x : Results) : Chain.Answers :=
  ⟨x.activate, true, none, 0, x.deactivate, 0, x.setActive⟩

/-- What happens to both: the state of the filter changes, or a run-control parameter is set. -/
inductive Input
  | state (state : FilterState) (x : Results)
  | param (run : Parsed RunRequest) (x : Results)

def Input.filter : Input → Filter.Action
  | .state st x => .stateChanged st x.filter
  | .param run x => .paramChanged run .absent x.filter []

def Input.chain : Input → Chain.Action
  | .state st x => .stateChanged st x.chain
  | .param run x => .paramChanged run .absent x.chain []

def Note.status : Note → Option (Int × Int × RunState)
  | .accepted _ _ => none
  | .completed token result actual | .answered token result actual => some (token, result, actual)

def mirror (f : Filter.State) : Chain.State := ⟨f.toControl, f.state, f.prepared, false⟩

variable {a : Input} {res : Int}

section Mirror

variable {o : Options} {f : Filter.State} {p : Chain.Publisher} {x : Results} {state : FilterState}

end Mirror

/-- The publisher has nothing to publish, and its chain corresponds to the filter. -/
structure Agree (s : Filter.State × Chain.Publisher) : Prop where
  sane : s.1.Sane
  prepared : s.1.prepared = true → s.1.actual = .running
  chain : s.2.chain = mirror s.1
  idle : s.2.publish = false

namespace Filter

variable {o : Options} {s : State} {ns : List Note}

end Filter

namespace Chain

variable {o : Options} {p : Publisher} {ns : List Note}

end Chain

/-- Everything succeeds. -/
def Results.ok : Results := ⟨0, 0, 0, Int.le_refl 0, Int.le_refl 0⟩

end PipeWireAO.RunControl
