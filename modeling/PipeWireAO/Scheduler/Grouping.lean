import PipeWireAO.Foundation.Traversal

/-!
# Grouping nodes under drivers

When the graph changes, the scheduler looks for the nodes that run together. From each driver, and
then from each node that is still left, it follows links in both directions and the names of groups,
and gives everything it has collected the same driver: the one it started from, or a common target.
A node that polls for its own cycles refuses any other driver.
-/

namespace PipeWireAO.Scheduler

open Function

variable {N : Type*}

/-! ## The graph -/

/-- The nodes of the context, in the order of `node_list`, with the order of `driver_list`, the
nodes at the other end of each node's links, and what the phases read of a node. A link is known at
both of its ends. -/
structure Context (N : Type*) where
  (nodes drivers : List N)
  exported : N → Bool
  active : N → Bool
  alwaysProcess : N → Bool
  wantDriver : N → Bool
  pollDriver : N → Bool
  clock : N → Bool
  priorityDriver : N → Int
  sync : N → Bool
  groups : N → List String
  linkGroups : N → List String
  syncGroups : N → List String
  inputPeers : N → List N
  outputPeers : N → List N
  drivers_sub : ∀ n ∈ drivers, n ∈ nodes
  linked : ∀ a b, b ∈ outputPeers a ↔ a ∈ inputPeers b
  inside : ∀ a b, b ∈ outputPeers a → a ∈ nodes ∧ b ∈ nodes

/-- `pw_strv_find_common` finds a name. -/
def findCommon (a b : List String) : Bool := a.any (b.contains ·)

def maxSync : ℕ := 4

/-- A sync group is noted, unless there are too many. -/
def addSync (sync : List String) (group : String) : List String :=
  if maxSync ≤ sync.length then sync else if sync.contains group then sync else sync ++ [group]

/-! ## The traversal -/

section Collect

variable [DecidableEq N]

open Foundation (mark)

/-- The sync groups that are known after the node `n`. -/
def Context.syncAfter (c : Context N) (sync : List String) (n : N) : List String :=
  if c.sync n then (c.syncGroups n).foldl addSync sync else sync

/-- The node `t` is in a group with `n`, or in one of the sync groups. -/
def Context.sameGroup (c : Context N) (sync : List String) (n t : N) : Bool :=
  findCommon (c.groups t) (c.groups n) || findCommon (c.linkGroups t) (c.linkGroups n) ||
    findCommon (c.syncGroups t) sync

/-- The scan of all nodes for the groups of `n`. -/
def Context.scanGroups (c : Context N) (sync : List String) (n : N)
    (w : (N → Bool) × List N) : (N → Bool) × List N :=
  if c.groups n ≠ [] ∨ c.linkGroups n ≠ [] ∨ sync ≠ [] then
    c.nodes.foldl (fun w t => if !c.exported t && c.sameGroup sync n t then mark w t else w) w
  else w

/-- The loop of `collect_nodes`. -/
def Context.collectLoop (c : Context N) :
    ℕ → List String → (N → Bool) → List N → List N → (N → Bool) × List N
  | fuel + 1, sync, visited, n :: queue, collect =>
    let sync := c.syncAfter sync n
    let w := (c.inputPeers n).foldl mark (visited, queue)
    let w := (c.outputPeers n).foldl mark w
    let w := c.scanGroups sync n w
    c.collectLoop fuel sync w.1 w.2 (collect ++ [n])
  | 0, _, visited, _, collect => (visited, collect)
  | _ + 1, _, visited, [], collect => (visited, collect)

/-- `collect_nodes`: every node is taken from the queue at most once. -/
def Context.collectNodes (c : Context N) (visited : N → Bool) (n : N) : (N → Bool) × List N :=
  c.collectLoop c.nodes.length [] (update visited n true) [n] []

end Collect

/-! ## The phases -/

/-- The nodes: the marks, which are runnable, the driver given to each, if any, which drivers drive,
and what each traversal has collected, with the driver it was given. -/
structure State (N : Type*) where
  visited : N → Bool
  runnable : N → Bool
  driver : N → Option N
  driving : N → Bool
  log : List (List N × Option N)

/-- `driver_node`: a node without a driver is its own. -/
def State.driverNode (s : State N) (n : N) : N := (s.driver n).getD n

section Phases

variable [DecidableEq N] (c : Context N)

/-- `pw_impl_node_set_driver`, as far as the driver is concerned: a poll driver accepts no other. -/
def setDriver (s : State N) (n : N) (driver : Option N) : State N :=
  if c.pollDriver n ∧ driver ≠ none ∧ driver ≠ some n then s
  else
    { s with
      driver := update s.driver n driver
      driving := if s.driverNode n = driver.getD n then s.driving
        else update s.driving n
          (decide (n ∈ c.drivers) && c.clock n && decide (driver.getD n = n)) }

/-- One node of `move_to_driver`. -/
def moveNode (driver : N) (s : State N) (n : N) : State N :=
  let runnable := update s.runnable driver (s.runnable driver || s.runnable n)
  setDriver c { s with runnable := runnable } n (some driver)

def moveToDriver (s : State N) (nodes : List N) (driver : N) : State N :=
  nodes.foldl (moveNode c driver) s

def removeFromDriver (s : State N) (nodes : List N) : State N :=
  nodes.foldl (fun s n => setDriver c s n none) s

/-- The nodes that were collected are given a driver, or none. -/
def assign (s : State N) (visited : N → Bool) (collect : List N) (driver : Option N) : State N :=
  let s := { s with visited := visited, log := s.log ++ [(collect, driver)] }
  match driver with
  | some d => moveToDriver c s collect d
  | none => removeFromDriver c s collect

/-- The nodes around a driver. -/
def collectDriver (s : State N) (n : N) : State N :=
  if s.visited n then s
  else
    let w := c.collectNodes s.visited n
    assign c s w.1 w.2 (some n)

/-- The driver has an active follower. -/
def hasFollower (s : State N) (n : N) : Bool :=
  c.nodes.any fun t => s.driverNode t = n && t ≠ n && c.active t

/-- The state with the target and the fallback for nodes that are left. -/
structure Targets (N : Type*) where
  state : State N
  (target fallback : Option N)

/-- The first phase, at one driver. -/
def groupDriver (p : Targets N) (n : N) : Targets N :=
  if c.exported n then p
  else
    let s := collectDriver c p.state n
    if !s.driving n || !c.active n || c.priorityDriver n ≤ 0 then { p with state := s }
    else
      let fallback := p.fallback <|> some n
      if s.runnable n && hasFollower c s n then ⟨s, p.target <|> some n, fallback⟩
      else ⟨s, p.target, fallback⟩

def needsDriver (runnable : N → Bool) (t : N) : Bool :=
  (c.wantDriver t && c.active t && runnable t) || c.alwaysProcess t

/-- The second phase, at one node. -/
def groupRest (target : Option N) (s : State N) (n : N) : State N :=
  if c.exported n || s.visited n then s
  else
    let w := c.collectNodes s.visited n
    let driver := if w.2.any (needsDriver c s.runnable) then target else none
    match driver with
    | some d => assign c { s with runnable := update s.runnable d true } w.1 w.2 driver
    | none => assign c s w.1 w.2 driver

def firstPhase (s : State N) : Targets N :=
  c.drivers.foldl (groupDriver c) ⟨{ s with visited := fun _ => false, log := [] }, none, none⟩

/-- The target for the nodes that are left. -/
def target (s : State N) : Option N := (firstPhase c s).target <|> (firstPhase c s).fallback

/-- The grouping phases of `context_recalc_graph`, after the nodes that are runnable were found. -/
def regroup (s : State N) : State N :=
  c.nodes.foldl (groupRest c (target c s)) (firstPhase c s).state

end Phases

end PipeWireAO.Scheduler
