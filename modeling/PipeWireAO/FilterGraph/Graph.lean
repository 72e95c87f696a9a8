import PipeWireAO.FilterGraph.Buffer
import PipeWireAO.FilterGraph.Sort
import PipeWireAO.Foundation.Except

/-!
# Filter graphs

`spa_fgn_graph_new` loads the nodes, links output ports to input ports, and makes ports external:
those that the configuration lists, or else the free inputs of the first node and the outputs of the
last one. Then it checks rates and connections, and sorts the nodes. This module has what comes
after the configuration was parsed and its names were resolved.
-/

namespace PipeWireAO.FilterGraph

open List Function Option
open Foundation (bind_eq_ok foldlM_ok forall_mem_concat)

/-- `struct spa_fgn_format`. -/
structure Format where
  (elementType layout rateNum rateDenom : ℕ)
  shape : List ℕ
  schema : Option String
deriving DecidableEq

/-- A port: its flags, its format with the sizes computed from it, and its metadata. -/
structure Port where
  (optional parameter conditional : Bool)
  format : Format
  (payloadSize elementSize : ℕ)
  metas : List Requirement
deriving DecidableEq

/-- The ports of a node. -/
structure Node where
  (inputs outputs : List Port)
deriving DecidableEq

/-- A port of a graph: its node, and its index among the inputs or among the outputs of the node. -/
abbrev PortId := ℕ × ℕ

instance : LawfulBEq PortId := inferInstance

/-- `struct fgn_link`. -/
structure Link where
  (output input : PortId)
deriving DecidableEq

/-- A graph: `inputs` and `outputs` are its external ports. -/
structure Graph where
  nodes : List Node
  links : List Link
  (inputs outputs : List PortId)
  order : List ℕ
deriving DecidableEq

def inputPort (nodes : List Node) (p : PortId) : Option Port :=
  nodes[p.1]?.bind (·.inputs[p.2]?)

def outputPort (nodes : List Node) (p : PortId) : Option Port :=
  nodes[p.1]?.bind (·.outputs[p.2]?)

/-- `source` of an input port. -/
def sourceOf (links : List Link) (p : PortId) : Option PortId :=
  (links.find? (·.input = p)).map Link.output

/-- The links between nodes, as `sort_graph` follows them. -/
def edgesOf (links : List Link) : Edges := links.map fun l => (l.output.1, l.input.1)

/-! ## Links and external ports -/

/-- `FGN_MAX_LINKS`. -/
def maxLinks : ℕ := 4096

/-- `FGN_MAX_EXTERNAL_PORTS`. -/
def maxExternalPorts : ℕ := 1024

/-- Every record the input requires is one of the output's. -/
def metasOffered (output input : Port) : Bool :=
  input.metas.all fun r =>
    !r.required || output.metas.any fun m => m.type = r.type && m.size = r.size

def loadLink (nodes : List Node) (links : List Link) (l : Link) : Except Int (List Link) :=
  match outputPort nodes l.output, inputPort nodes l.input with
  | some output, some input =>
    if input.parameter then .error (-eNotSup)
    else if (sourceOf links l.input).isSome then .error (-eBusy)
    else if output.format ≠ input.format then .error (-eInval)
    else if !metasOffered output input then .error (-eNotSup)
    else if maxLinks ≤ links.length then .error (-eTooBig)
    else .ok (links ++ [l])
  | _, _ => .error (-eNoEnt)

/-- A round of `load_external_ports`: `known` says whether there is such a port, and `linked` whether
it is an input with a source. -/
def loadExternalPort (known linked : PortId → Bool) (ports : List PortId) (p : PortId) :
    Except Int (List PortId) :=
  if !known p ∨ p ∈ ports ∨ linked p then .error (-eInval)
  else if maxExternalPorts ≤ ports.length then .error (-eTooBig)
  else .ok (ports ++ [p])

/-- `load_default_ports`, for inputs. -/
def defaultInputs (nodes : List Node) (links : List Link) : List PortId :=
  match nodes with
  | [] => []
  | node :: _ =>
    ((List.range node.inputs.length).map fun j => (0, j)).filter fun p =>
      (sourceOf links p).isNone

/-- `load_default_ports`, for outputs. -/
def defaultOutputs (nodes : List Node) : List PortId :=
  match nodes.getLast? with
  | none => []
  | some node => (List.range node.outputs.length).map fun j => (nodes.length - 1, j)

/-- `load_default_ports` stores no more than `FGN_MAX_EXTERNAL_PORTS`. -/
def checkDefault (ports : List PortId) : Except Int (List PortId) :=
  if maxExternalPorts < ports.length then .error (-eTooBig) else .ok ports

/-! ## Rates and connections -/

/-- `format_has_rate`. -/
def Format.hasRate (f : Format) : Bool := f.rateNum ≠ 0

/-- `format_rate_equal`. -/
def Format.rateEqual (f f' : Format) : Bool := f.rateNum = f'.rateNum && f.rateDenom = f'.rateDenom

/-- The inputs of node `n` with their ports. -/
def inputsOf (nodes : List Node) (n : ℕ) : List (PortId × Port) :=
  match nodes[n]? with
  | none => []
  | some node => node.inputs.mapIdx fun j port => ((n, j), port)

/-- `input_gated_by_conditional_output`. -/
def gatedByConditional (nodes : List Node) (links : List Link) (p : PortId) (port : Port) : Bool :=
  (inputsOf nodes p.1).any fun (p', input) =>
    match (sourceOf links p').bind (outputPort nodes) with
    | none => false
    | some source =>
      !input.optional && source.conditional && source.format.rateEqual port.format

/-- The rate of the first format is the rate of the others. -/
def ratesAgree : List Format → Bool
  | [] => true
  | f :: fs => fs.all f.rateEqual

/-- The first loop of `validate_graph`: the inputs that activate the graph have one rate. -/
def activationRates (nodes : List Node) (links : List Link) (inputs : List PortId) : List Format :=
  inputs.filterMap fun p =>
    (inputPort nodes p).bind fun port =>
      if port.parameter || !port.format.hasRate || gatedByConditional nodes links p port then none
      else some port.format

/-- The loop over the inputs of a node in `validate_graph`; it returns the rate of the inputs. -/
def checkInputs (connected : PortId → Bool) :
    Option Format → List (PortId × Port) → Except Int (Option Format)
  | rate, [] => .ok rate
  | rate, (p, port) :: rest =>
    if !connected p && !port.optional then .error (-eNotConn)
    else if port.parameter || !port.format.hasRate then checkInputs connected rate rest
    else
      match rate with
      | none => checkInputs connected (some port.format) rest
      | some f => if f.rateEqual port.format then checkInputs connected rate rest else .error (-eInval)

/-- The loop over the outputs of a node in `validate_graph`. -/
def outputRatesOk (rate : Option Format) (outputs : List Port) : Bool :=
  match rate with
  | none => true
  | some f =>
    outputs.all fun port => !port.format.hasRate || f.rateEqual port.format || port.conditional

/-- A round of the second loop of `validate_graph`. -/
def validateNode (nodes : List Node) (connected : PortId → Bool) (n : ℕ) : Except Int Unit :=
  match checkInputs connected none (inputsOf nodes n) with
  | .error res => .error res
  | .ok rate =>
    if outputRatesOk rate ((nodes[n]?.map Node.outputs).getD []) then .ok () else .error (-eInval)

def validateGraph (nodes : List Node) (links : List Link) (inputs outputs : List PortId) :
    Except Int Unit :=
  if inputs = [] ∧ outputs = [] then .error (-eInval)
  else if !ratesAgree (activationRates nodes links inputs) then .error (-eInval)
  else
    (List.range nodes.length).forM
      (validateNode nodes fun p => (sourceOf links p).isSome || inputs.contains p)

/-! ## The graph of a configuration -/

/-- A configuration, after its nodes were loaded. -/
structure Config where
  nodes : List Node
  links : List Link
  (inputs outputs : Option (List PortId))
deriving DecidableEq

def loadInputs (nodes : List Node) (links : List Link) : Option (List PortId) →
    Except Int (List PortId)
  | some ps =>
    ps.foldlM (loadExternalPort (fun p => (inputPort nodes p).isSome)
      fun p => (sourceOf links p).isSome) []
  | none => checkDefault (defaultInputs nodes links)

def loadOutputs (nodes : List Node) : Option (List PortId) → Except Int (List PortId)
  | some ps =>
    ps.foldlM (loadExternalPort (fun p => (outputPort nodes p).isSome) fun _ => false) []
  | none => checkDefault (defaultOutputs nodes)

/-- `spa_fgn_graph_new`, of resolved names. Default inputs are looked for here before the listed outputs
are loaded, in the source after that; only which error is returned depends on it. -/
def graphNew (c : Config) : Except Int Graph := do
  if c.nodes = [] then throw (-eInval)
  let links ← c.links.foldlM (loadLink c.nodes) []
  let inputs ← loadInputs c.nodes links c.inputs
  let outputs ← loadOutputs c.nodes c.outputs
  validateGraph c.nodes links inputs outputs
  let order ← sortGraph c.nodes.length (edgesOf links)
  return ⟨c.nodes, links, inputs, outputs, order⟩

/-! ## Accepted graphs -/

variable {ports ports' : List PortId} {nodes : List Node} {links ls : List Link} {c : Config}
  {g : Graph}

theorem loadExternalPorts_spec {known linked : PortId → Bool} {ps : List PortId} (hn : ports.Nodup)
    (hk : ∀ p ∈ ports, known p = true)
    (h : ps.foldlM (loadExternalPort known linked) ports = .ok ports') :
    ports'.Nodup ∧ ∀ p ∈ ports', known p = true := by
  refine foldlM_ok (I := fun ps : List PortId => ps.Nodup ∧ ∀ p ∈ ps, known p = true) ?_
    ⟨hn, hk⟩ h
  rintro ports p ports' - ⟨hn, hk⟩ hp
  unfold loadExternalPort at hp
  split_ifs at hp with hbad
  cases hp
  obtain ⟨hknown, hbad⟩ := not_or.mp hbad
  refine ⟨?_, forall_mem_concat hk (by simpa using hknown)⟩
  rw [← concat_eq_append]
  exact hn.concat fun hmem => hbad (.inl hmem)

theorem checkDefault_eq_ok (h : checkDefault ports = .ok ports') : ports' = ports := by
  unfold checkDefault at h
  split_ifs at h
  cases h
  rfl

theorem loadOutputs_spec {c : Option (List PortId)} (h : loadOutputs nodes c = .ok ports) :
    ports.Nodup ∧ ∀ p ∈ ports, (outputPort nodes p).isSome = true := by
  cases c with
  | some ps => exact loadExternalPorts_spec nodup_nil (by simp) h
  | none =>
    rw [checkDefault_eq_ok h]
    unfold defaultOutputs
    split
    · exact ⟨nodup_nil, by simp⟩
    · rename_i node hlast
      constructor
      · refine nodup_range.map ?_
        intro i j hij
        exact (Prod.mk.inj hij).2
      · intro p hp
        obtain ⟨j, hj, rfl⟩ := mem_map.mp hp
        rw [getLast?_eq_getElem?] at hlast
        simp only [outputPort, hlast, bind_some]
        exact isSome_iff_exists.mpr ⟨_, getElem?_eq_getElem (mem_range.mp hj)⟩

theorem loadInputs_spec {c : Option (List PortId)} (h : loadInputs nodes links c = .ok ports) :
    ∀ p ∈ ports, (inputPort nodes p).isSome = true := by
  cases c with
  | some ps => exact (loadExternalPorts_spec nodup_nil (by simp) h).2
  | none =>
    rw [checkDefault_eq_ok h]
    unfold defaultInputs
    split
    · simp
    · intro p hp
      obtain ⟨j, hj, rfl⟩ := mem_map.mp (mem_of_mem_filter hp)
      exact isSome_iff_exists.mpr ⟨_, getElem?_eq_getElem (mem_range.mp hj)⟩

/-- What a graph that was accepted passed. -/
structure Accepted (c : Config) (g : Graph) : Prop where
  nodes : g.nodes = c.nodes
  inputs : loadInputs c.nodes g.links c.inputs = .ok g.inputs
  outputs : loadOutputs c.nodes c.outputs = .ok g.outputs
  order : sortGraph g.nodes.length (edgesOf g.links) = .ok g.order

theorem graphNew_spec (h : graphNew c = .ok g) : Accepted c g := by
  unfold graphNew at h
  split_ifs at h with hnil
  · cases h
  simp only [bind, Except.bind, pure, Except.pure] at h
  split at h
  · cases h
  split at h
  · cases h
  rename_i inputs hinputs
  split at h
  · cases h
  rename_i outputs houtputs
  split at h
  · cases h
  split at h
  · cases h
  rename_i order horder
  cases h
  exact ⟨rfl, hinputs, houtputs, horder⟩

theorem graphNew_links (h : graphNew c = .ok g) :
    c.links.foldlM (loadLink c.nodes) [] = .ok g.links := by
  unfold graphNew at h
  split_ifs at h with hnil
  · cases h
  obtain ⟨-, -, h⟩ := bind_eq_ok.mp h
  obtain ⟨links, hlinks, h⟩ := bind_eq_ok.mp h
  obtain ⟨inputs, -, h⟩ := bind_eq_ok.mp h
  obtain ⟨outputs, -, h⟩ := bind_eq_ok.mp h
  obtain ⟨-, -, h⟩ := bind_eq_ok.mp h
  obtain ⟨order, -, h⟩ := bind_eq_ok.mp h
  cases h
  exact hlinks

theorem loadLinks_format (h : ls.foldlM (loadLink nodes) [] = .ok links) :
    ∀ l ∈ links, ∃ output input,
      outputPort nodes l.output = some output ∧ inputPort nodes l.input = some input ∧
        output.format = input.format := by
  refine foldlM_ok (I := fun links : List Link => ∀ l ∈ links, ∃ output input,
    outputPort nodes l.output = some output ∧ inputPort nodes l.input = some input ∧
      output.format = input.format) ?_ (by simp) h
  rintro links l links' - hlinks hl
  unfold loadLink at hl
  split at hl
  · rename_i output input houtput hinput
    split_ifs at hl with _ _ hformat
    cases hl
    exact forall_mem_concat hlinks ⟨output, input, houtput, hinput, not_not.mp hformat⟩
  · cases hl

theorem graphNew_outputs_nodup (h : graphNew c = .ok g) :
    g.outputs.Nodup := (loadOutputs_spec (graphNew_spec h).outputs).1

theorem graphNew_ports (h : graphNew c = .ok g) :
    (∀ p ∈ g.inputs, (inputPort g.nodes p).isSome = true) ∧
      ∀ p ∈ g.outputs, (outputPort g.nodes p).isSome = true := by
  have hg := graphNew_spec h
  rw [hg.nodes]
  exact ⟨loadInputs_spec hg.inputs, (loadOutputs_spec hg.outputs).2⟩

/-! ## Sorting the links that were loaded -/

/-- `in_port->node->indegree++` of `load_link`. -/
def countLink (indegree : ℕ → ℕ) (l : Link) : ℕ → ℕ :=
  update indegree l.input.1 (indegree l.input.1 + 1)

theorem foldl_countLink (links : List Link) (d : ℕ → ℕ) (k : ℕ) :
    links.foldl countLink d k = d k + indegrees (edgesOf links) k := by
  induction links generalizing d with
  | nil => rfl
  | cons l links ih =>
    have hcons : indegrees (edgesOf (l :: links)) k =
        indegrees (edgesOf links) k + if l.input.1 = k then 1 else 0 := by
      simp [indegrees, edgesOf, countP_cons]
    rw [foldl_cons, ih, hcons]
    by_cases hk : l.input.1 = k
    · subst hk
      rw [countLink, update_self, if_pos rfl]
      omega
    · rw [countLink, update_of_ne (Ne.symm hk), if_neg hk, Nat.add_zero]

theorem loadLinks_bound (h : ls.foldlM (loadLink nodes) [] = .ok links) :
    ∀ e ∈ edgesOf links, e.1 < nodes.length ∧ e.2 < nodes.length := by
  intro e he
  obtain ⟨l, hmem, rfl⟩ := mem_map.mp he
  obtain ⟨output, input, houtput, hinput, -⟩ := loadLinks_format h l hmem
  obtain ⟨_, hnode, -⟩ := bind_eq_some_iff.mp houtput
  obtain ⟨_, hnode', -⟩ := bind_eq_some_iff.mp hinput
  exact ⟨(List.getElem?_eq_some_iff.mp hnode).1, (List.getElem?_eq_some_iff.mp hnode').1⟩

/-- **The order of the nodes is correct and complete.** The sweeps return an order exactly when the
links have no cycle, and `-ELOOP` otherwise; every node is in it once, and the source of every link
before its destination. -/
theorem sort_links {nodes : List Node} {ls links : List Link}
    (h : ls.foldlM (loadLink nodes) [] = .ok links) :
    (links.foldl countLink fun _ => 0) = indegrees (edgesOf links) ∧
    ((∃ order, sortGraph nodes.length (edgesOf links) = .ok order) ↔ Acyclic (edgesOf links)) ∧
    (¬ Acyclic (edgesOf links) → sortGraph nodes.length (edgesOf links) = .error (-eLoop)) ∧
    ∀ order, sortGraph nodes.length (edgesOf links) = .ok order →
      order.Nodup ∧ (∀ v, v ∈ order ↔ v < nodes.length) ∧
        ∀ l ∈ links, order.idxOf l.output.1 < order.idxOf l.input.1 := by
  have hbound := loadLinks_bound h
  have hiff := sortGraph_acyclic hbound
  refine ⟨?_, hiff, ?_, ?_⟩
  · funext k
    rw [foldl_countLink, Nat.zero_add]
  · intro hcycle
    unfold sortGraph
    rw [if_neg]
    intro hlen
    exact hcycle (hiff.mp ⟨_, if_pos hlen⟩)
  · intro order horder
    have htop := sortGraph_topological horder
    refine ⟨htop.nodup, htop.mem_iff, fun l hl => ?_⟩
    have he : (l.output.1, l.input.1) ∈ edgesOf links := mem_map.mpr ⟨l, hl, rfl⟩
    exact (isTopological_iff.mp htop).2.2.2 _ he ((htop.mem_iff _).mpr (hbound _ he).2)

/-- Two nodes with two inputs and an output each. -/
def twoNodes : List Node :=
  let port : Port := ⟨false, false, false, ⟨0, 0, 0, 1, [1], none⟩, 8, 8, []⟩
  List.replicate 2 ⟨[port, port], [port]⟩

theorem sort_links_parallel :
    [Link.mk (1, 0) (0, 0), Link.mk (1, 0) (0, 1)].foldlM (loadLink twoNodes) [] =
        .ok [Link.mk (1, 0) (0, 0), Link.mk (1, 0) (0, 1)] ∧
      ∃ order, sortGraph 2 [(1, 0), (1, 0)] = .ok order ∧ order.idxOf 1 < order.idxOf 0 := by
  have hlinks : [Link.mk (1, 0) (0, 0), Link.mk (1, 0) (0, 1)].foldlM (loadLink twoNodes) [] =
      .ok [Link.mk (1, 0) (0, 0), Link.mk (1, 0) (0, 1)] := by decide +kernel
  obtain ⟨-, -, -, horder⟩ := sort_links hlinks
  have hok : sortGraph 2 [(1, 0), (1, 0)] = .ok [1, 0] := by decide +kernel
  exact ⟨hlinks, [1, 0], hok, (horder _ hok).2.2 _ mem_cons_self⟩

end PipeWireAO.FilterGraph
