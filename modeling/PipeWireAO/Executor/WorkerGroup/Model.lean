import PipeWireAO.Errno
import PipeWireAO.Executor.ForkJoin

/-!
# The worker group

A worker group has one slot for each helper thread. The coordinator writes a command to a slot and
then stores a new generation; the helper polls the generation, executes the command and stores the
generation in the completion word, which the coordinator polls. Equality of 32-bit generations is the
only synchronisation. A command without a task stops a helper, and it is started again on whatever
generation its slot has.

Every access to a slot is a step. A poll that finds the old value changes nothing, and is no step.
-/

namespace PipeWireAO.Executor.WorkerGroup

open Foundation Function

variable {T D : Type*}

/-- Generations are 32-bit words. -/
abbrev Gen := BitVec 32

/-- Where a helper stands in `worker_main`. -/
inductive Helper (T D : Type*)
  | absent
  /-- About to read the generation it starts from. -/
  | boot
  /-- About to set `started`. -/
  | booted (observed : Gen)
  | poll (observed : Gen)
  /-- About to read `task`, then `data`, then `n_lanes`. -/
  | readTask (observed : Gen)
  | readData (observed : Gen) (task : T)
  | readLanes (observed : Gen) (task : T) (data : Option D)
  | execute (observed : Gen) (c : Command T D)
  /-- About to store the status, then the generation. -/
  | setStatus (observed : Gen) (status : Int)
  | setDone (observed : Gen)
  /-- Returned from `worker_main`, not joined yet. -/
  | exited
deriving DecidableEq

/-- A slot: its command line, its completion line and `started`; and the helper's thread. -/
structure Slot (T D : Type*) where
  (generation next : Gen)
  command : Command T D
  completion : Gen
  status : Int
  started : Bool
  helper : Helper T D
deriving DecidableEq

/-- The stores of `publish_command`, in order. -/
inductive Store
  | rearm
  | task
  | data
  | lanes
  | commit
deriving DecidableEq

def Store.succ : Store → Option Store
  | .rearm => some .task
  | .task => some .data
  | .data => some .lanes
  | .lanes => some .commit
  | .commit => none

/-- One store of `publish_command`. The first one also takes the next generation. -/
def Slot.publish (s : Slot T D) (c : Command T D) : Store → Slot T D
  | .rearm => { s with next := s.next + 1, completion := s.next + 1 - 1 }
  | .task => { s with command := { s.command with task := c.task } }
  | .data => { s with command := { s.command with data := c.data } }
  | .lanes => { s with command := { s.command with lanes := c.lanes, call := c.call } }
  | .commit => { s with generation := s.next }

/-- The next step of the helper of slot `i`, whose lane is `i + 1`; `status` is the answer of the
task. -/
def helperStep (i : ℕ) (s : Slot T D) (status : Int) : Option (Slot T D × List (Event T D)) :=
  match s.helper with
  | .absent => none
  | .boot => some ({ s with helper := .booted s.generation }, [])
  | .booted observed => some ({ s with started := true, helper := .poll observed }, [])
  | .poll observed =>
    if s.generation = observed then none
    else some ({ s with helper := .readTask s.generation }, [])
  | .readTask observed =>
    match s.command.task with
    | none => some ({ s with helper := .exited }, [])
    | some task => some ({ s with helper := .readData observed task }, [])
  | .readData observed task =>
    some ({ s with helper := .readLanes observed task s.command.data }, [])
  | .readLanes observed task data =>
    let c := ⟨some task, data, s.command.lanes, s.command.call⟩
    some ({ s with helper := .execute observed c }, [])
  | .execute observed c =>
    some ({ s with helper := .setStatus observed status }, [.executed (i + 1) c status])
  | .setStatus observed status => some ({ s with status := status, helper := .setDone observed }, [])
  | .setDone observed =>
    some ({ s with completion := observed, helper := .poll observed }, [])
  | .exited => none

/-- Where the coordinator stands. `failed` is the error of `pthread_create` that makes
`spa_fgn_worker_group_activate` stop the helpers it created. -/
inductive Coord (T D : Type*)
  | idle
  /-- `activate`: about to create helper `i`, or to wait for helper `i`. -/
  | create (i : ℕ)
  | await (i : ℕ)
  /-- `stop_created_workers`: waiting for helper `i` to start, publishing the command to stop, or
  joining helper `i`. -/
  | stopAwait (failed : Option Int) (i : ℕ)
  | stopPublish (failed : Option Int) (i : ℕ) (k : Store)
  | stopJoin (failed : Option Int) (i : ℕ) (result : Int)
  /-- `run_task`: publishing the command in slot `i`, about to execute lane 0, waiting for the
  completion of slot `i`, or about to read its status. -/
  | publish (c : Command T D) (i : ℕ) (k : Store)
  | lane0 (c : Command T D)
  | collect (c : Command T D) (i : ℕ) (result : Int)
  | readStatus (c : Command T D) (i : ℕ) (result : Int)
deriving DecidableEq

/-- A worker group with its threads; `calls` counts the calls of `run_task` that were not
refused. -/
structure State (T D : Type*) where
  slots : ℕ → Slot T D
  created : ℕ
  active : Bool
  calls : ℕ
  coord : Coord T D

/-- The calls of the owner, and the steps of the threads. `res` is the answer of `pthread_create`,
of `pthread_join` or of the task. -/
inductive Action (T D : Type*)
  | activate
  | deactivate
  | runTask (task : Option T) (data : Option D) (lanes : ℕ)
  | coord (res : Int)
  | helper (i : ℕ) (res : Int)
deriving DecidableEq

def stopCommand : Command T D := ⟨none, none, 0, 0⟩

/-- The next step of the coordinator of a group with `n` helpers. -/
def coordStep (n : ℕ) (s : State T D) (res : Int) : Option (State T D × List (Event T D)) :=
  match s.coord with
  | .idle => none
  | .create i =>
    if i < n then
      if res = 0 then
        let slot := { s.slots i with started := false, helper := .boot }
        some ({ s with slots := update s.slots i slot, created := i + 1,
                       coord := .create (i + 1) }, [])
      else
        let slot := { s.slots i with started := false }
        some ({ s with slots := update s.slots i slot, created := i,
                       coord := .stopAwait (some res) 0 }, [.stopping])
    else some ({ s with coord := .await 0 }, [])
  | .await i =>
    if i < n then
      if (s.slots i).started then some ({ s with coord := .await (i + 1) }, []) else none
    else some ({ s with active := true, coord := .idle }, [])
  | .stopAwait failed i =>
    if i < s.created then
      if (s.slots i).started then some ({ s with coord := .stopAwait failed (i + 1) }, [])
      else none
    else some ({ s with coord := .stopPublish failed 0 .rearm }, [])
  | .stopPublish failed i k =>
    if i < s.created then
      let next := match k.succ with
        | some k' => .stopPublish failed i k'
        | none => .stopPublish failed (i + 1) .rearm
      let slot := (s.slots i).publish stopCommand k
      some ({ s with slots := update s.slots i slot, coord := next }, [])
    else some ({ s with coord := .stopJoin failed 0 0 }, [])
  | .stopJoin failed i result =>
    if i < s.created then
      match (s.slots i).helper with
      | .exited =>
        let slot := { s.slots i with helper := .absent }
        let result := if result = 0 ∧ res ≠ 0 then -res else result
        some ({ s with slots := update s.slots i slot,
                       coord := .stopJoin failed (i + 1) result }, [])
      | _ => none
    else
      some ({ s with created := 0, coord := .idle },
        [.stopped (match failed with
          | none => result
          | some err => if result < 0 then result else -err)])
  | .publish c i k =>
    if i + 1 < c.lanes then
      let next := match k.succ with
        | some k' => .publish c i k'
        | none => .publish c (i + 1) .rearm
      let slot := (s.slots i).publish c k
      some ({ s with slots := update s.slots i slot, coord := next }, [])
    else some ({ s with coord := .lane0 c }, [])
  | .lane0 c => some ({ s with coord := .collect c 0 res }, [.executed 0 c res])
  | .collect c i result =>
    if i + 1 < c.lanes then
      if (s.slots i).completion = (s.slots i).next then
        some ({ s with coord := .readStatus c i result }, [])
      else none
    else some ({ s with coord := .idle }, [.returned result])
  | .readStatus c i result =>
    let status := (s.slots i).status
    let result := if result = 0 ∧ status ≠ 0 then status else result
    some ({ s with coord := .collect c (i + 1) result }, [])

/-- The steps of a worker group with `n` helpers. Its owner makes one call after the other. -/
def step (n : ℕ) (s : State T D) : Action T D → Option (State T D × List (Event T D))
  | .activate =>
    match s.coord with
    | .idle => some (if s.active then s else { s with coord := .create 0 }, [])
    | _ => none
  | .deactivate =>
    match s.coord with
    | .idle =>
      if s.active then
        some ({ s with active := false, coord := .stopAwait none 0 }, [.stopping])
      else some (s, [])
    | _ => none
  | .runTask task data lanes =>
    match s.coord with
    | .idle =>
      if task = none ∨ s.active = false ∨ lanes = 0 ∨ n + 1 < lanes then
        some (s, [.rejected (-eInval)])
      else
        some ({ s with calls := s.calls + 1, coord := .publish ⟨task, data, lanes, s.calls⟩ 0 .rearm },
          [.called ⟨task, data, lanes, s.calls⟩])
    | _ => none
  | .coord res => coordStep n s res
  | .helper i res =>
    if i < n then
      (helperStep i (s.slots i) res).map fun r =>
        ({ s with slots := update s.slots i r.1 }, r.2)
    else none

/-- A worker group with `n` helpers. -/
def machine (T D : Type*) (n : ℕ) : Machine (State T D) (Action T D) (Event T D) where
  step := step n

/-- A new worker group: no threads, and all words zero. -/
def init : State T D :=
  ⟨fun _ => ⟨0, 0, ⟨none, none, 0, 0⟩, 0, 0, false, .absent⟩, 0, false, 0, .idle⟩

end PipeWireAO.Executor.WorkerGroup
