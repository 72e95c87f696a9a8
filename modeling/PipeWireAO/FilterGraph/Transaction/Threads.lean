import PipeWireAO.FilterGraph.Transaction.Ledger

/-!
# Prepared transactions of a filter graph

A control call prepares one token at each node it assigns to, stores the tokens in the slot of its
kind, and sets the slot's state word to `PENDING`. The next process call that passes its validation
takes the word to `PROCESSING`, commits the tokens and leaves it `RETIRED`; the next control call of
this kind reclaims the slot. The two threads share words and entries and take no lock.

The actions of the machine say which thread makes its next step, and what a plugin answers.
-/

namespace PipeWireAO.FilterGraph.Transaction

open Foundation Function

variable {T : Type*}

/-! ## The graph and its two threads -/

/-- `enum fgn_transaction_state`. -/
inductive Word
  | empty
  | pending
  | processing
  | retired
deriving DecidableEq

/-- An entry of a transaction: its node, and the token if there is one. -/
structure Entry (T : Type*) where
  node : ℕ
  prepared : Option T
deriving DecidableEq

def tokens (es : List (Entry T)) : List T := es.filterMap Entry.prepared

/-- `property_transaction_state` with `property_transactions`, or the same for parameters. -/
structure Slot (T : Type*) where
  word : Word
  entries : List (Entry T)
deriving DecidableEq

/-- What a prepare callback answers. -/
structure Answer (T : Type*) where
  res : Int
  token : Option T
deriving DecidableEq

/-- Where the control thread is. -/
inductive Control (T : Type*)
  | idle
  /-- About to look whether the slot is retired. -/
  | reclaim (c : Call)
  | clear (c : Call)
  /-- About to look whether the slot is empty. -/
  | check (c : Call)
  /-- `done` was prepared, and `todo` is to be. -/
  | prepare (k : Kind) (done : List (Entry T)) (todo : Groups) (res : Int)
  /-- About to call `prepare_parameter`, and then `commit_parameter`. -/
  | single (n : ℕ)
  | commitSingle (e : Entry T)
  /-- `clear_property_transactions` or `clear_parameter_transactions`, at an error. -/
  | discard (k : Kind) (todo : List (Entry T)) (res : Int)
  | leave (res : Int)
  | freed
deriving DecidableEq

/-- Where the data loop is in `spa_fgn_graph_process`. -/
inductive DataLoop
  | idle
  /-- About to exchange `PENDING` for `PROCESSING`. -/
  | publish (k : Kind)
  | commit (k : Kind) (i : ℕ)
  | adopt (i : ℕ)
  | retire (k : Kind)
  | nodes (rest : List ℕ)
deriving DecidableEq

/-- What becomes of a node in a cycle: it is not ready, one of its buffers is refused, or it
processes. -/
inductive Outcome
  | skipped
  | refused
  | processed (res : Int)
deriving DecidableEq

/-- The slots and the two threads. -/
structure State (T : Type*) where
  slot : Kind → Slot T
  control : Control T
  loop : DataLoop

/-! ## The control thread -/

/-- The callbacks a transaction needs before it is prepared at a node. -/
def Graph.prepares (g : Graph) (k : Kind) (n : ℕ) : Bool :=
  match k with
  | .props => (g.descriptor n).prepareProps && (g.descriptor n).commitProps
  | .parameters =>
    (g.descriptor n).prepareParameters && (g.descriptor n).adoptParameters &&
      (g.descriptor n).commitParameter && (g.descriptor n).discardParameter

/-- The discard callback is not `NULL`. -/
def Graph.discards (g : Graph) (k : Kind) (n : ℕ) : Bool :=
  match k with
  | .props => (g.descriptor n).discardProps
  | .parameters => (g.descriptor n).discardParameter

/-- A round of `clear_property_transactions` or `clear_parameter_transactions`. -/
def clearEntry (g : Graph) (k : Kind) (e : Entry T) : List (Event T) :=
  match e.prepared with
  | some t => if g.discards k e.node then [.discarded t] else []
  | none => []

def enter (g : Graph) (r : Request) (s : State T) : Option (State T × List (Event T)) :=
  match s.control with
  | .idle =>
    let c := r.resolve g
    some ({ s with control := match c.refusal with
      | some res => .leave res
      | none => .reclaim c }, [.called c.kind])
  | _ => none

/-- A prepare callback answers at node `n`: it returned an error, or it returned no token where one
is needed, or the loop goes on. -/
def prepareStep (g : Graph) (k : Kind) (done : List (Entry T)) (n : ℕ) (todo : Groups)
    (a : Answer T) : Control T × List (Event T) :=
  if !g.prepares k n then (.discard k done (-eNotSup), [.failed])
  else if a.res < 0 then
    (.discard k (done ++ [⟨n, a.token⟩]) a.res, a.token.toList.map .prepared ++ [.failed])
  else if k = .parameters ∧ a.token = none then
    (.discard k (done ++ [⟨n, a.token⟩]) (-eFault), a.token.toList.map .prepared ++ [.failed])
  else (.prepare k (done ++ [⟨n, a.token⟩]) todo a.res, a.token.toList.map .prepared)

/-- The next step of the control thread. A transaction without entries is not published. -/
def controlStep (g : Graph) (a : Answer T) (s : State T) : Option (State T × List (Event T)) :=
  match s.control with
  | .idle => none
  | .reclaim c =>
    some ({ s with control := if (s.slot c.kind).word = .retired then .clear c else .check c },
      [.looked c.kind])
  | .clear c =>
    some ({ s with slot := update s.slot c.kind ⟨.empty, []⟩, control := .check c },
      (s.slot c.kind).entries.flatMap (clearEntry g c.kind))
  | .check c =>
    if (s.slot c.kind).word = .empty then
      match c.plan with
      | .error res =>
        some ({ s with control := .discard c.kind [] res }, [.admitted c.kind, .failed])
      | .ok (.transaction gs) =>
        some ({ s with control := .prepare c.kind [] gs 0 }, [.admitted c.kind])
      | .ok (.single n) => some ({ s with control := .single n }, [.admitted c.kind])
    else some ({ s with control := .leave (-eBusy) }, [.busy c.kind])
  | .prepare k done ((n, _) :: todo) _ =>
    let r := prepareStep g k done n todo a
    some ({ s with control := r.1 }, r.2)
  | .prepare k done [] res =>
    if done = [] then some ({ s with control := .leave res }, [])
    else
      some ({ s with slot := update s.slot k ⟨.pending, done⟩, control := .leave res },
        [.accepted k])
  | .single n =>
    if a.res < 0 then
      some ({ s with control := .discard .parameters [⟨n, a.token⟩] a.res },
        a.token.toList.map .prepared ++ [.failed])
    else some ({ s with control := .commitSingle ⟨n, a.token⟩ }, a.token.toList.map .prepared)
  | .commitSingle e => some ({ s with control := .leave 0 }, e.prepared.toList.map .committedNow)
  | .discard k (e :: es) res => some ({ s with control := .discard k es res }, clearEntry g k e)
  | .discard _ [] res => some ({ s with control := .idle }, [.returned res])
  | .leave res => some ({ s with control := .idle }, [.returned res])
  | .freed => none

/-- `spa_fgn_graph_free`, after the last call and the last cycle. -/
def free (g : Graph) (s : State T) : Option (State T × List (Event T)) :=
  match s.control, s.loop with
  | .idle, .idle =>
    some ({ s with slot := fun _ => ⟨.empty, []⟩, control := .freed },
      .freeing :: ((s.slot .props).entries.flatMap (clearEntry g .props) ++
        ((s.slot .parameters).entries.flatMap (clearEntry g .parameters) ++ [.freed])))
  | _, _ => none

/-! ## The data loop -/

/-- After `publish_graph_property_transaction` comes `publish_graph_parameter_transaction`, and then
the nodes. -/
def afterPublish (g : Graph) : Kind → DataLoop
  | .props => .publish .parameters
  | .parameters => .nodes g.order

/-- `spa_fgn_graph_process` is entered; `valid` says whether it gets to the transactions. -/
def cycle (valid : Bool) (s : State T) : Option (State T × List (Event T)) :=
  match s.control, s.loop with
  | .freed, _ => none
  | _, .idle =>
    if valid then some ({ s with loop := .publish .props }, [.began])
    else some (s, [.began, .ended])
  | _, _ => none

def loopStep (g : Graph) (x : Outcome) (s : State T) : Option (State T × List (Event T)) :=
  match s.loop with
  | .idle => none
  | .publish k =>
    if (s.slot k).word = .pending then
      some ({ s with slot := update s.slot k { s.slot k with word := .processing },
                     loop := .commit k 0 }, [.claimed k])
    else some ({ s with loop := afterPublish g k }, [])
  | .commit k i =>
    match (s.slot k).entries[i]? with
    | some e =>
      some ({ s with slot := update s.slot k
                      { s.slot k with entries := (s.slot k).entries.set i ⟨e.node, none⟩ },
                     loop := .commit k (i + 1) }, e.prepared.toList.map (.committed k))
    | none =>
      some ({ s with loop := match k with
        | .props => .retire .props
        | .parameters => .adopt 0 }, [])
  | .adopt i =>
    match (s.slot .parameters).entries[i]? with
    | some e => some ({ s with loop := .adopt (i + 1) }, [.adopted e.node])
    | none => some ({ s with loop := .retire .parameters }, [])
  | .retire k =>
    some ({ s with slot := update s.slot k { s.slot k with word := .retired },
                   loop := afterPublish g k }, [.retired k])
  | .nodes [] => some ({ s with loop := .idle }, [.ended])
  | .nodes (n :: rest) =>
    match x with
    | .skipped => some ({ s with loop := .nodes rest }, [])
    | .refused => some ({ s with loop := .idle }, [.ended])
    | .processed res =>
      if res < 0 then some ({ s with loop := .idle }, [.processed n, .ended])
      else some ({ s with loop := .nodes rest }, [.processed n])

/-! ## Runs -/

/-- Who moves next. -/
inductive Action (T : Type*)
  | request (r : Request)
  | control (a : Answer T)
  | cycle (valid : Bool)
  | loop (x : Outcome)
  | free
deriving DecidableEq

/-- The graph with its two threads. -/
def machine (T : Type*) (g : Graph) : Machine (State T) (Action T) (Event T) where
  step s
    | .request r => enter g r s
    | .control a => controlStep g a s
    | .cycle valid => Transaction.cycle valid s
    | .loop x => loopStep g x s
    | .free => Transaction.free g s

/-- `initial_prepared` of a node, if its plugin returned a token for its configured
properties. -/
def initialPrepared (g : Graph) (answer : ℕ → Option T) (n : ℕ) : Option T :=
  if g.prepares .props n then answer n else none

/-- The entries of `queue_initial_property_transaction`. -/
def initialEntries (g : Graph) (answer : ℕ → Option T) : List (Entry T) :=
  g.nodes.filterMap fun n => (initialPrepared g answer n).map fun t => ⟨n, some t⟩

def queueInitialPropertyTransaction (g : Graph) (answer : ℕ → Option T) : Slot T :=
  match initialEntries g answer with
  | [] => ⟨.empty, []⟩
  | es => ⟨.pending, es⟩

/-- A graph as `spa_fgn_graph_new` leaves it. -/
def init (g : Graph) (answer : ℕ → Option T) : State T where
  slot
    | .props => queueInitialPropertyTransaction g answer
    | .parameters => ⟨.empty, []⟩
  control := .idle
  loop := .idle

end PipeWireAO.FilterGraph.Transaction
