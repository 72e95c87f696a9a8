import PipeWireAO.FilterGraph.Graph

/-!
# A cycle of a filter graph

`spa_fgn_graph_process` empties the output buffers, checks what it is given, commits the pending
transactions, and takes the nodes in the order of the graph. A node with all its required inputs is
called; an output that stays empty is absent for its consumers. An error ends the cycle at once and
empties the external outputs.

A buffer of the graph, be it storage or external, is reached through one output port only, so the
model keeps the buffers by port while the nodes run.
-/

namespace PipeWireAO.FilterGraph

open List

variable {P S : Type*} {order : List ℕ}

/-! ## One node -/

/-- The instance of a node: what `process` answers, the state it leaves, and what it writes, from
its state, its inputs and the outputs it is given; and `get_prop_revision`. -/
structure Plugin (P S : Type*) where
  process : S → List (Option (Buffer P)) → List (Buffer P) → Int × S × (ℕ → Buffer P)
  revision : Option (S → ℕ)

/-- What is found on an input: the buffer of its source unless that is empty, or the buffer that
was given to the graph. -/
def seen (g : Graph) (x : List (Option (Buffer P))) (value : PortId → Buffer P) (p : PortId) :
    Option (Buffer P) :=
  match sourceOf g.links p with
  | some q => if (value q).size = 0 then none else some (value q)
  | none => if p ∈ g.inputs then x[g.inputs.idxOf p]?.join else none

/-- `process_inputs` of a node. -/
def nodeInputs (g : Graph) (x : List (Option (Buffer P))) (value : PortId → Buffer P) (n : ℕ) :
    List (Option (Buffer P)) :=
  (inputsOf g.nodes n).map fun p => seen g x value p.1

/-- Every input that is not optional is present. -/
def nodeReady (g : Graph) (x : List (Option (Buffer P))) (value : PortId → Buffer P) (n : ℕ) :
    Bool :=
  (inputsOf g.nodes n).all fun p => p.2.optional || (seen g x value p.1).isSome

def outputsOf (g : Graph) (n : ℕ) : List Port := (g.nodes[n]?.map Node.outputs).getD []

/-- `process_outputs` of a node. -/
def nodeOutputs (g : Graph) (value : PortId → Buffer P) (n : ℕ) : List (Buffer P) :=
  (List.range (outputsOf g n).length).map fun j => value (n, j)

/-- The first error among several answers. -/
def firstError : List Int → Int
  | [] => 0
  | r :: rs => if r < 0 then r else firstError rs

/-- The checks on the inputs of a node: all the buffers first, then all the metadata. -/
def checkNodeInputs (g : Graph) (x : List (Option (Buffer P))) (value : PortId → Buffer P)
    (n : ℕ) : Int :=
  firstError
    ((inputsOf g.nodes n).map (fun p =>
        match seen g x value p.1 with
        | none => 0
        | some b => validateBuffer p.2.payloadSize p.2.elementSize false (some b)) ++
      (inputsOf g.nodes n).map fun p =>
        match seen g x value p.1 with
        | none => 0
        | some b => if recordsValidate b.metasAt b.metas p.2.metas then 0 else -eInval)

/-- The checks on an output after the callback. -/
def checkOutput (port : Port) (offset : ℕ) (b : Buffer P) : Int :=
  if b.size ≠ 0 ∧ recordsValidate b.metasAt b.metas port.metas = false then -eInval
  else validateCompletedOutput port.payloadSize offset port.conditional b

def checkNodeOutputs (g : Graph) (offset : PortId → ℕ) (n : ℕ) (outs : ℕ → Buffer P) : Int :=
  firstError ((outputsOf g n).mapIdx fun j port => checkOutput port (offset (n, j)) (outs j))

/-- The revision of the properties was odd, is odd, or changed. -/
def revisionChanged (plugin : Plugin P S) (s s' : S) : Bool :=
  match plugin.revision with
  | none => false
  | some rev => rev s % 2 = 1 || rev s' ≠ rev s || rev s' % 2 = 1

/-- What becomes of a node in a cycle: it is not ready; an input is refused; the callback, or what
it wrote, is wrong; or it is done. -/
inductive NodeRun (P S : Type*)
  | skipped
  | refused (res : Int)
  | failed (res : Int) (s : S) (outs : ℕ → Buffer P)
  | done (s : S) (outs : ℕ → Buffer P) (changed : Bool)

/-- A round of the loop over the nodes, as far as it concerns the node alone. -/
def runNode (g : Graph) (plugin : ℕ → Plugin P S) (x : List (Option (Buffer P)))
    (offset : PortId → ℕ) (n : ℕ) (value : PortId → Buffer P) (s : S) : NodeRun P S :=
  if nodeReady g x value n = false then .skipped
  else if checkNodeInputs g x value n < 0 then .refused (checkNodeInputs g x value n)
  else
    let r := (plugin n).process s (nodeInputs g x value n) (nodeOutputs g value n)
    if r.1 < 0 then .failed r.1 r.2.1 r.2.2
    else if checkNodeOutputs g offset n r.2.2 < 0 then
      .failed (checkNodeOutputs g offset n r.2.2) r.2.1 r.2.2
    else .done r.2.1 r.2.2 (revisionChanged (plugin n) s r.2.1)

/-! ## All the nodes -/

/-- The state of a cycle: the instances, the buffers of the output ports, whether properties
changed, and which callbacks were called with which inputs. -/
structure Cycle (P S : Type*) where
  inst : ℕ → S
  buffer : PortId → Buffer P
  changed : Bool
  calls : List (ℕ × List (Option (Buffer P)))

/-- The callback of node `n` was called with the inputs `ins`. -/
def Cycle.called (g : Graph) (c : Cycle P S) (n : ℕ) (ins : List (Option (Buffer P))) (s : S)
    (outs : ℕ → Buffer P) : Cycle P S where
  inst := Function.update c.inst n s
  buffer p := if p.1 = n ∧ p.2 < (outputsOf g n).length then outs p.2 else c.buffer p
  changed := c.changed
  calls := c.calls ++ [(n, ins)]

/-- A round of the loop over the nodes. An error leaves the loop. -/
def nodeStep (g : Graph) (plugin : ℕ → Plugin P S) (x : List (Option (Buffer P)))
    (offset : PortId → ℕ) (c : Cycle P S) (n : ℕ) : Except (Int × Cycle P S) (Cycle P S) :=
  match runNode g plugin x offset n c.buffer (c.inst n) with
  | .skipped => .ok c
  | .refused res => .error (res, c)
  | .failed res s outs => .error (res, c.called g n (nodeInputs g x c.buffer n) s outs)
  | .done s outs changed =>
    .ok { c.called g n (nodeInputs g x c.buffer n) s outs with changed := c.changed || changed }

/-- The loop over the nodes. -/
def runNodes (g : Graph) (plugin : ℕ → Plugin P S) (x : List (Option (Buffer P)))
    (offset : PortId → ℕ) (order : List ℕ) (c : Cycle P S) :
    Except (Int × Cycle P S) (Cycle P S) :=
  order.foldlM (nodeStep g plugin x offset) c

/-! ## The call -/

/-- What `validate_buffer_nonalias` and `validate_output_ownership` answer. -/
structure Aliasing (P : Type*) where
  nonalias : Buffer P → ℕ → Int
  ownership : List (Option (Buffer P)) → List (Option (Buffer P)) → Int

/-- A graph between cycles: `active` and `process_thread_prepared`, the instances, the storage of
the output ports, and the pending transactions: what committing and adopting their tokens does to
the instances. -/
structure State (P S : Type*) where
  (active prepared : Bool)
  inst : ℕ → S
  storage : PortId → Buffer P
  properties : Option (List (ℕ × (S → S)))
  parameters : Option (List (ℕ × (S → S)))

/-- What a call leaves: the graph, the external outputs, the value that is returned, and the
callbacks that were called. -/
structure Result (P S : Type*) where
  state : State P S
  outputs : List (Option (Buffer P))
  res : Int
  calls : List (ℕ × List (Option (Buffer P)))

/-- The storage of an output port at the start of a cycle. -/
def resetStorage (b : Buffer P) : Buffer P :=
  { b with offset := 0, size := 0, metas := b.metas.map fun m => (recordInit m).getD m }

def checkInput (a : Aliasing P) (port : Port) (b : Option (Buffer P)) : Int :=
  if port.parameter then if b.isSome then -eInval else 0
  else
    match b with
    | none => if port.optional then 0 else validateBuffer port.payloadSize port.elementSize false b
    | some b' =>
      firstError [validateBuffer port.payloadSize port.elementSize false b,
        a.nonalias b' port.payloadSize]

def portsOf (port : PortId → Option Port) (ps : List PortId) : List Port := ps.filterMap port

def checkExternal (g : Graph) (a : Aliasing P) (x y : List (Option (Buffer P))) : Int :=
  firstError
    (List.zipWith (checkInput a) (portsOf (inputPort g.nodes) g.inputs) x ++
      List.zipWith (fun port b => validateBuffer port.payloadSize port.elementSize true b)
        (portsOf (outputPort g.nodes) g.outputs) y ++
      [a.ownership x y])

/-- The records of an output, up to the first that cannot be initialised. -/
def initRecords : List Meta → List Meta × Bool
  | [] => ([], true)
  | m :: ms =>
    match recordInit m with
    | none => (m :: ms, false)
    | some m' => (m' :: (initRecords ms).1, (initRecords ms).2)

/-- An external output at the start of a cycle. -/
def initOutput (b : Buffer P) : Buffer P × Bool :=
  ({ b with size := 0, flags := 0, metas := (initRecords b.metas).1 }, (initRecords b.metas).2)

/-- The external outputs at the start of a cycle, up to the first that cannot be initialised. -/
def initOutputs : List (Option (Buffer P)) → List (Option (Buffer P)) × Bool
  | [] => ([], true)
  | none :: bs => (none :: (initOutputs bs).1, (initOutputs bs).2)
  | some b :: bs =>
    if (initOutput b).2 then (some (initOutput b).1 :: (initOutputs bs).1, (initOutputs bs).2)
    else (some (initOutput b).1 :: bs, false)

/-- The metadata of the external inputs. -/
def inputRecordsValid (g : Graph) (x : List (Option (Buffer P))) : Bool :=
  (List.zipWith (fun (port : Port) b =>
    match b with
    | none => true
    | some b => recordsValidate b.metasAt b.metas port.metas)
    (portsOf (inputPort g.nodes) g.inputs) x).all id

/-- `clear_external_output_sizes`. -/
def clearSizes (y : List (Option (Buffer P))) : List (Option (Buffer P)) :=
  y.map (Option.map fun b => { b with size := 0 })

/-- `publish_graph_property_transaction` or `publish_graph_parameter_transaction`. -/
def publish (t : Option (List (ℕ × (S → S)))) (inst : ℕ → S) : ℕ → S :=
  (t.getD []).foldl (fun f c => Function.update f c.1 (c.2 (f c.1))) inst

/-- The buffer of an output port: the external one it was given, or its storage. A missing external
buffer was refused before. -/
def cycleBuffer (g : Graph) (storage : PortId → Buffer P) (y : List (Option (Buffer P)))
    (p : PortId) : Buffer P :=
  if p ∈ g.outputs then y[g.outputs.idxOf p]?.join.getD (storage p) else storage p

/-- What comes before the loop over the nodes: the call returns early, or a cycle starts. -/
def startCycle (g : Graph) (a : Aliasing P) (st : State P S) (x y : List (Option (Buffer P))) :
    Except (Result P S) (Cycle P S) :=
  if st.active = false ∨ x.length ≠ g.inputs.length ∨ y.length ≠ g.outputs.length then
    .error ⟨st, y, -eInval, []⟩
  else if st.prepared = false then .error ⟨st, y, -eAgain, []⟩
  else
    let st := { st with storage := fun p => resetStorage (st.storage p) }
    if checkExternal g a x y < 0 then .error ⟨st, y, checkExternal g a x y, []⟩
    else
      let outs := initOutputs y
      if outs.2 = false then .error ⟨st, outs.1, -eInval, []⟩
      else if inputRecordsValid g x = false then .error ⟨st, clearSizes outs.1, -eInval, []⟩
      else
        .ok
          { inst := publish st.parameters (publish st.properties st.inst)
            buffer := cycleBuffer g st.storage outs.1
            changed := st.properties.isSome || st.parameters.isSome
            calls := [] }

/-- The graph after a cycle: the storage of an external port was not used. -/
def afterCycle (g : Graph) (st : State P S) (c : Cycle P S) : State P S :=
  { st with
    inst := c.inst
    storage := fun p => if p ∈ g.outputs then resetStorage (st.storage p) else c.buffer p
    properties := none
    parameters := none }

/-- What a call returns after a cycle without an error. -/
def statusOf (c : Cycle P S) : Int := if c.changed then 1 else 0

def externalOutputs (g : Graph) (c : Cycle P S) : List (Option (Buffer P)) :=
  g.outputs.map fun p => some (c.buffer p)

/-- `spa_fgn_graph_process`, with the nodes in the order `order`. -/
def process (g : Graph) (a : Aliasing P) (plugin : ℕ → Plugin P S) (order : List ℕ)
    (st : State P S) (x y : List (Option (Buffer P))) : Result P S :=
  match startCycle g a st x y with
  | .error r => r
  | .ok c₀ =>
    match runNodes g plugin x (fun p => (c₀.buffer p).offset) order c₀ with
    | .error (res, c) =>
      ⟨afterCycle g st c, clearSizes (externalOutputs g c), res, c.calls⟩
    | .ok c => ⟨afterCycle g st c, externalOutputs g c, statusOf c, c.calls⟩

/-! ## How a cycle starts and ends -/

section

variable {g : Graph} {a : Aliasing P} {plugin : ℕ → Plugin P S} {st : State P S}
  {x y : List (Option (Buffer P))} {offset : PortId → ℕ} {c c₀ : Cycle P S} {e : Int × Cycle P S}
  {r : Result P S}

theorem initOutputs_size (h : (initOutputs y).2 = true) :
    ∀ b, some b ∈ (initOutputs y).1 → b.size = 0 := by
  induction y with
  | nil => simp [initOutputs]
  | cons o y ih =>
    cases o with
    | none =>
      intro b hb
      rcases mem_cons.mp hb with hb | hb
      · cases hb
      · exact ih h b hb
    | some b' =>
      rw [initOutputs] at h ⊢
      split_ifs at h ⊢
      intro b hb
      rcases mem_cons.mp hb with hb | hb
      · cases hb
        rfl
      · exact ih h b hb

theorem initOutputs_getElem {i : ℕ} {b : Buffer P} (h : (initOutputs y).2 = true)
    (hi : y[i]? = some (some b)) : (initOutputs y).1[i]? = some (some (initOutput b).1) := by
  induction y generalizing i with
  | nil => cases hi
  | cons o y ih =>
    cases o with
    | none =>
      cases i with
      | zero => cases hi
      | succ i => exact ih h hi
    | some b' =>
      rw [initOutputs] at h ⊢
      split_ifs at h ⊢
      cases i with
      | zero =>
        cases hi
        rfl
      | succ i => exact ih h hi

/-- **How a cycle starts**: all the buffers are empty, an external output is the buffer of its port,
and no callback was called. -/
theorem startCycle_spec (hnodup : g.outputs.Nodup) (h : startCycle g a st x y = .ok c) :
    c.calls = [] ∧ (∀ p, (c.buffer p).size = 0) ∧
      ∀ (i : ℕ) p b, g.outputs[i]? = some p → y[i]? = some (some b) →
        c.buffer p = (initOutput b).1 := by
  unfold startCycle at h
  dsimp only at h
  split_ifs at h with _ _ _ hinit
  cases h
  have hinit : (initOutputs y).2 = true := by simpa using hinit
  refine ⟨rfl, ?_, ?_⟩
  · intro p
    simp only [cycleBuffer]
    split
    · cases hb : (initOutputs y).1[g.outputs.idxOf p]?.join with
      | none => rfl
      | some b =>
        exact initOutputs_size hinit b (mem_of_getElem? (Option.join_eq_some_iff.mp hb))
    · rfl
  · intro i p b hp hb
    obtain ⟨hi, rfl⟩ := List.getElem?_eq_some_iff.mp hp
    simp only [cycleBuffer, getElem_mem, if_true, hnodup.idxOf_getElem,
      initOutputs_getElem hinit hb, Option.join_some, Option.getD_some]

theorem startCycle_error_neg (h : startCycle g a st x y = .error r) : r.res < 0 := by
  unfold startCycle at h
  dsimp only at h
  split_ifs at h with _ _ hcheck
  · cases h
    exact (by decide : -eInval < 0)
  · cases h
    exact (by decide : -eAgain < 0)
  · cases h
    exact hcheck
  · cases h
    exact (by decide : -eInval < 0)
  · cases h
    exact (by decide : -eInval < 0)

theorem nodeStep_error_neg {n : ℕ} (h : nodeStep g plugin x offset c n = .error e) : e.1 < 0 := by
  unfold nodeStep runNode at h
  dsimp only at h
  split_ifs at h with _ hcheck hres houts
  · cases h
    exact hcheck
  · cases h
    exact hres
  · cases h
    exact houts

theorem runNodes_error_neg (h : runNodes g plugin x offset order c = .error e) : e.1 < 0 := by
  obtain ⟨c, n, -, -, h⟩ := Foundation.foldlM_error (I := fun _ => True) (fun _ _ _ => trivial)
    trivial h
  exact nodeStep_error_neg h

/-! The three ways a call ends. -/

theorem process_early (h : startCycle g a st x y = .error r) :
    process g a plugin order st x y = r := by
  simp only [process, h]

theorem process_eq (hstart : startCycle g a st x y = .ok c₀)
    (hrun : runNodes g plugin x (fun p => (c₀.buffer p).offset) order c₀ = .ok c) :
    process g a plugin order st x y =
      ⟨afterCycle g st c, externalOutputs g c, statusOf c, c.calls⟩ := by
  simp only [process, hstart, hrun]

end

end PipeWireAO.FilterGraph
