import PipeWireAO.FilterGraph.Ports
import PipeWireAO.Json.Tokenizer

/-!
# Loading a filter graph

`spa_fgn_graph_new` takes the text of a configuration apart with the tokenizer of relaxed JSON. One
loop goes over the members and remembers where the arrays begin. Then a loop over each array loads the
nodes, the links and the external ports. Every loop goes on while the tokenizer returns something
positive.
-/

namespace PipeWireAO.FilterGraph

open Json (Text Iter Outcome Member)

def str (s : String) : Text := s.toUTF8.toList

/-! ## The environment -/

/-- A property of an instance; `parse` is `value_from_json`. -/
structure Property where
  name : Text
  id : ℕ
  runtime : Bool
  parse : Text → Except Int Unit

/-- What `load_node` gets from an instance: the ports, whether there is a `prepare_parameter`, the
properties that `enum_prop_info` lists, and the answer of `prepare_props`. -/
structure Instance where
  preparesParameter : Bool
  infos : List PortInfo
  properties : Except Int (List Property)
  prepareProps : List (ℕ × Text) → Except Int Unit

/-- What the loader does not do itself. `instantiate` gets the path of a plugin, a label and a
configuration; it loads the plugin and calls `instantiate` of the descriptor, which may answer
success without an instance. `reformat` is `spa_json_builder_reformat`; `strtol` and `atou32` read
numbers, which no bracket begins. -/
structure Environment where
  instantiate : Text → Text → Option Text → Except Int (Option Instance)
  reformat : Text → Option Text
  workerGroupNew : ℕ → Except Int Unit
  strtol : Text → Int × ℕ
  atou32 : Text → Option ℕ
  strtol_bracket : ∀ text b, Json.container text = some b → (strtol text).2 = 0

/-! ## Members of an object -/

section Members

variable {σ : Type}

/-- A loop over the members of an object. The body gets the key, the value and the iterator after
it, which it may change. The loop ends with what ended the search for a member. -/
def foldMembers (body : σ → Text → Text → ℕ → Iter → Except Int (σ × Iter)) :
    ℕ → σ → Iter → Except Int (σ × Outcome × Iter)
  | 0, s, it => .ok (s, .finish, it)
  | n + 1, s, it =>
    match Json.objectNext 256 (it.cur.length + 1) it with
    | (.stop o, it') => .ok (s, o, it')
    | (.member key value len, it') =>
      match body s key value len it' with
      | .error e => .error e
      | .ok (s', it'') => foldMembers body n s' it''

/-- A member whose value is a string of less than `maxlen` bytes. -/
def stringMember (maxlen : ℕ) (value : Text) (len : ℕ) : Except Int Text :=
  match Json.parseStringn value len maxlen with
  | some text => .ok text
  | none => .error (-eInval)

end Members

/-! ## Nodes -/

/-- The members of a node; `props` is the iterator of the initial properties. -/
structure NodeConfig where
  (name plugin label : Text)
  config : Option Text
  props : Option Iter

/-- `spa_json_container_len`, as the text after the container. -/
def containerEnd : ℕ → Iter → Option Text
  | 0, _ => none
  | n + 1, it =>
    match Json.next it with
    | (.token _ _, it') => containerEnd n it'
    | (.error _, _) => none
    | (_, it') => some (it'.cur.drop 1)

/-- `canonicalize_json_object`. -/
def canonicalizeObject (env : Environment) (value : Text) : Option Text :=
  if Json.container value ≠ some false then none
  else
    match Json.next (Json.init value) with
    | (.token _ _, it) =>
      (containerEnd (value.length + 1) (Json.enter it)).bind fun rest =>
        env.reformat (Json.cString (value.take (value.length - rest.length)))
    | _ => none

/-- The body of the loop of `load_node`. -/
def nodeMember (env : Environment) (c : NodeConfig) (key value : Text) (len : ℕ) (it : Iter) :
    Except Int (NodeConfig × Iter) := do
  if key = str "name" then
    let name ← stringMember 256 value len
    return ({ c with name := name }, it)
  else if key = str "plugin" then
    let plugin ← stringMember 1024 value len
    return ({ c with plugin := plugin }, it)
  else if key = str "label" then
    let label ← stringMember 256 value len
    return ({ c with label := label }, it)
  else if key = str "type" then
    let type ← stringMember 64 value len
    if type = str "ndarray" then return (c, it) else throw (-eInval)
  else if key = str "config" then
    match c.config, canonicalizeObject env value with
    | none, some config => return ({ c with config := some config }, it)
    | _, _ => throw (-eInval)
  else if key = str "props" then
    if Json.container value = some false then return ({ c with props := some (Json.enter it) }, it)
    else throw (-eInval)
  else throw (-eInval)

/-- `FGN_MAX_PROPERTIES_PER_NODE`. -/
def maxProperties : ℕ := 4096

/-- The body of the loop of `node_prepare_initial_props`. -/
def propMember (properties : List Property) (done : List (ℕ × Text)) (key value : Text) (len : ℕ)
    (it : Iter) : Except Int (List (ℕ × Text) × Iter) :=
  match properties.find? (·.name = key) with
  | none => .error (-eNoEnt)
  | some info =>
    if !info.runtime then .error (-ePerm)
    else if done.any (·.1 = info.id) then .error (-eExist)
    else if maxProperties ≤ done.length then .error (-eTooBig)
    else
      match info.parse (Json.tokenBytes value len) with
      | .error res => .error res
      | .ok () => .ok (done ++ [(info.id, Json.tokenBytes value len)], it)

/-- `node_prepare_initial_props`, if there are initial properties. -/
def prepareInitialProps (inst : Instance) (properties : List Property) :
    Option Iter → Except Int Unit
  | none => .ok ()
  | some props =>
    match foldMembers (propMember properties) (props.cur.length + 1) [] props with
    | .error res => .error res
    | .ok (_, .error _, _) => .error (-eInval)
    | .ok (done, _, _) => if done = [] then .ok () else inst.prepareProps done

/-- A round of the loop over the properties in `load_node`, after the properties `ps`. The other
checks of `validate_property_info` are in what the instance answers. -/
def loadProperty (ps : List Property) (p : Property) : Except Int (List Property) :=
  if p.name = [] ∨ localNameMax < p.name.length then .error (-eInval)
  else if ps.any (fun q => q.id = p.id ∨ q.name = p.name) then .error (-eExist)
  else if maxProperties ≤ ps.length then .error (-eTooBig)
  else .ok (ps ++ [p])

/-- A node of the graph with its name, the descriptions of its ports, and its properties. -/
structure Loaded where
  name : Text
  infos : List PortInfo
  properties : List Property
  node : Node

/-- `FGN_MAX_NODES`. -/
def maxNodes : ℕ := 1024

/-- The part of `load_node` after `instantiate`. -/
def addInstance (nodes : List Loaded) (c : NodeConfig) (inst : Instance) :
    Except Int (List Loaded) := do
  let node ← loadPorts inst.preparesParameter inst.infos
  let listed ← inst.properties
  let properties ← listed.foldlM loadProperty []
  prepareInitialProps inst properties c.props
  if maxNodes ≤ nodes.length then .error (-eTooBig)
  else .ok (nodes ++ [⟨c.name, inst.infos, properties, node⟩])

/-- `load_node` after its loop: the nodes with the new one. Without an instance, it leaves through
its error path, but returns the success of the descriptor. -/
def addNode (env : Environment) (nodes : List Loaded) (c : NodeConfig) : Except Int (List Loaded) :=
  if c.name = [] ∨ c.plugin = [] ∨ c.label = [] ∨ nodes.any (·.name = c.name) then .error (-eInval)
  else
    match env.instantiate c.plugin c.label c.config with
    | .error res => .error res
    | .ok none => .ok nodes
    | .ok (some inst) => addInstance nodes c inst

/-- `load_node`, with how its loop ended. -/
def loadNode (env : Environment) (nodes : List Loaded) (json : Iter) :
    Except Int (List Loaded × Outcome × Iter) := do
  let (c, o, json') ← foldMembers (nodeMember env) (json.cur.length + 1) ⟨[], [], [], none, none⟩ json
  let nodes' ← addNode env nodes c
  return (nodes', o, json')

/-! ## Links and external ports -/

/-- `find_port`, as the index of the port among those of its direction. -/
def findPort (env : Environment) (infos : List PortInfo) (name : Text) (direction : ℕ) : Option ℕ :=
  let id := (env.atou32 name).getD (2 ^ 32 - 1)
  (infos.filter (·.direction = direction)).findIdx? fun i => str i.name = name ∨ i.index = id

def resolvePort (env : Environment) (nodes : List Loaded) (reference : Text) (direction : ℕ) :
    Option PortId :=
  if 58 ∈ reference then
    let nodeName := reference.takeWhile (· ≠ 58)
    let portName := (reference.dropWhile (· ≠ 58)).drop 1
    if nodeName = [] ∨ 256 ≤ nodeName.length ∨ 256 ≤ portName.length then none
    else
      (nodes.findIdx? (·.name = nodeName)).bind fun n =>
        (nodes[n]?.bind fun node => findPort env node.infos portName direction).map fun j => (n, j)
  else none

/-- The body of the loop of `load_link`: the references of the output and of the input. -/
def linkMember (refs : Text × Text) (key value : Text) (len : ℕ) (it : Iter) :
    Except Int ((Text × Text) × Iter) := do
  if key = str "output" then
    let output ← stringMember 512 value len
    return ((output, refs.2), it)
  else if key = str "input" then
    let input ← stringMember 512 value len
    return ((refs.1, input), it)
  else throw (-eInval)

/-- `load_link`, with how its loop ended. -/
def loadLinkText (env : Environment) (nodes : List Loaded) (links : List Link) (json : Iter) :
    Except Int (List Link × Outcome × Iter) := do
  let (refs, o, json') ← foldMembers linkMember (json.cur.length + 1) ([], []) json
  match resolvePort env nodes refs.1 directionOutput, resolvePort env nodes refs.2 directionInput with
  | some output, some input =>
    let links' ← loadLink (nodes.map Loaded.node) links ⟨output, input⟩
    return (links', o, json')
  | _, _ => throw (-eNoEnt)

/-- A loop over the objects of an array. -/
def foldObjects {σ : Type} (load : σ → Iter → Except Int (σ × Outcome × Iter)) :
    ℕ → σ → Iter → Except Int σ
  | 0, s, _ => .ok s
  | n + 1, s, it =>
    match Json.enterContainer it false with
    | (none, _) => .ok s
    | (some child, it') =>
      match load s child with
      | .error e => .error e
      | .ok (s', o, child') => foldObjects load n s' (Json.leave o child' it')

/-- `load_external_ports`; `resolve` finds a port, and `linked` says whether it is an input with a
source. -/
def loadExternalPorts (resolve : Text → Option PortId) (linked : PortId → Bool) :
    ℕ → List PortId → Iter → Except Int (List PortId)
  | 0, ports, _ => .ok ports
  | n + 1, ports, it =>
    match Json.next it with
    | (.token value len, it') =>
      match Json.parseStringn value len 512 with
      | none => .ok ports
      | some reference =>
        match resolve reference with
        | none => .error (-eInval)
        | some p =>
          match loadExternalPort (fun _ => true) linked ports p with
          | .error e => .error e
          | .ok ports' => loadExternalPorts resolve linked n ports' it'
    | _ => .ok ports

/-! ## The configuration -/

/-- The arrays of a configuration. -/
inductive Section
  | nodes
  | links
  | inputs
  | outputs
deriving DecidableEq

def Section.key : Section → Text
  | .nodes => str "nodes"
  | .links => str "links"
  | .inputs => str "inputs"
  | .outputs => str "outputs"

def sectionOf (key : Text) : Option Section :=
  [.nodes, .links, .inputs, .outputs].find? (Section.key · = key)

/-- What the loop over the configuration has found: the iterators of the arrays, and the number of
helpers. -/
structure Found where
  sections : Section → Option Iter
  helpers : Option ℕ

/-- `SPA_FGN_EXECUTOR_MAX_HELPERS`. -/
def maxHelpers : Int := 63

/-- The body of the loop of `parse_workers`. -/
def workersMember (env : Environment) (helpers : Option ℕ) (key value : Text) (len : ℕ) (it : Iter) :
    Except Int (Option ℕ × Iter) :=
  if key ≠ str "helpers" ∨ helpers.isSome then .error (-eInval)
  else
    match Json.parseInt env.strtol value len with
    | none => .error (-eInval)
    | some n => if n < 0 ∨ maxHelpers < n then .error (-eInval) else .ok (some n.toNat, it)

/-- `parse_workers`: the number of helpers, and the parent afterwards. -/
def parseWorkers (env : Environment) (parent : Iter) (value : Text) : Except Int (ℕ × Iter) :=
  if Json.container value ≠ some false then .error (-eInval)
  else
    match foldMembers (workersMember env) (parent.cur.length + 1) none (Json.enter parent) with
    | .error e => .error e
    | .ok (none, _, _) => .error (-eInval)
    | .ok (some n, o, object) => .ok (n, Json.leave o object parent)

/-- The body of the loop over the configuration. -/
def configMember (env : Environment) (f : Found) (key value : Text) (_ : ℕ) (it : Iter) :
    Except Int (Found × Iter) :=
  if key = str "workers" then
    if f.helpers.isSome then .error (-eInval)
    else
      match parseWorkers env it value with
      | .error e => .error e
      | .ok (n, it') => .ok ({ f with helpers := some n }, it')
  else
    match sectionOf key with
    | none => .error (-eInval)
    | some s =>
      if (f.sections s).isSome ∨ Json.container value ≠ some true then .error (-eInval)
      else .ok ({ f with sections := Function.update f.sections s (some (Json.enter it)) }, it)

/-- The links, if the configuration has any. -/
def loadLinks (env : Environment) (nodes : List Loaded) : Option Iter → Except Int (List Link)
  | none => .ok []
  | some array => foldObjects (loadLinkText env nodes) (array.cur.length + 1) [] array

/-- The external ports, if the configuration lists them. -/
def listedPorts (resolve : Text → Option PortId) (linked : PortId → Bool) :
    Option Iter → Except Int (Option (List PortId))
  | none => .ok none
  | some array => (loadExternalPorts resolve linked (array.cur.length + 1) [] array).map some

def orDefault (default : List PortId) : Option (List PortId) → Except Int (List PortId)
  | some ports => .ok ports
  | none => checkDefault default

/-- What must be there. -/
def orInval {α : Type} : Option α → Except Int α
  | some a => .ok a
  | none => .error (-eInval)

/-- `spa_fgn_graph_new`, for the text `config`. -/
def graphNewText (env : Environment) (config : Text) : Except Int Graph := do
  let top ← orInval (Json.beginObject config)
  let (f, _, _) ← foldMembers (configMember env) (config.length + 1) ⟨fun _ => none, none⟩ top
  let array ← orInval (f.sections .nodes)
  env.workerGroupNew (f.helpers.getD 0)
  let loaded ← foldObjects (loadNode env) (array.cur.length + 1) [] array
  let _ ← orInval loaded.head?
  let nodes := loaded.map Loaded.node
  let links ← loadLinks env loaded (f.sections .links)
  let inputs ← listedPorts (resolvePort env loaded · directionInput)
    (fun p => (sourceOf links p).isSome) (f.sections .inputs)
  let outputs ← listedPorts (resolvePort env loaded · directionOutput) (fun _ => false)
    (f.sections .outputs)
  let inputs ← orDefault (defaultInputs nodes links) inputs
  let outputs ← orDefault (defaultOutputs nodes) outputs
  validateGraph nodes links inputs outputs
  let order ← sortGraph nodes.length (edgesOf links)
  return ⟨nodes, links, inputs, outputs, order⟩

end PipeWireAO.FilterGraph
