import PipeWireAO.FilterGraph.Ports
import PipeWireAO.Foundation.Machine

/-!
# Feedback bridges of the filter chain

A feedback bridge connects an output of the graph to one of its inputs. It has a buffer of its own
for each: a cycle reads the first and writes the second, and when it was successful, the second is
copied to the first. So the graph sees the output of a cycle in a later one.
-/

namespace PipeWireAO.FilterChain

open FilterGraph (Format Port formatElements elementTypeSize maxDimensions)
open Foundation (bind_eq_ok refuse refuse_eq_ok)

/-! ## Bridges -/

/-- `struct spa_meta_header`. -/
structure MetaHeader where
  (flags offset : BitVec 32)
  (pts dtsOffset : Int)
  seq : ℕ
  deriving DecidableEq

/-- The header of a buffer that was cleared: `pts` is `SPA_TIME_INVALID`. -/
def MetaHeader.cleared : MetaHeader := ⟨0, 0, -2 ^ 63, 0, 0⟩

/-- `struct feedback_buffer`, for `n` bytes: the memory, the size of the chunk and the header. -/
structure FeedbackBuffer (n : ℕ) where
  memory : Vector UInt8 n
  chunkSize : ℕ
  header : MetaHeader
  deriving DecidableEq

/-- `struct feedback_bridge`. Its two buffers have one size. -/
structure Bridge where
  (inputPort outputPort size : ℕ)
  (input output : FeedbackBuffer size)

def initFeedbackBuffer (size : ℕ) (input : Bool) : FeedbackBuffer size :=
  ⟨Vector.replicate size 0, if input then size else 0, .cleared⟩

def initBridge (inputPort outputPort size : ℕ) : Bridge :=
  ⟨inputPort, outputPort, size, initFeedbackBuffer size true, initFeedbackBuffer size false⟩

/-! ## Configuration -/

open List Function

/-- A port of the graph with the names under which `find_graph_port` looks for it. -/
structure GraphPort where
  (node name : String)
  port : Port

/-- `find_graph_port`, from port `i` on. -/
def findGraphPort (name : String) : ℕ → List GraphPort → Except Int (ℕ × Port)
  | _, [] => .error (-eNoEnt)
  | i, p :: ps =>
    if 512 ≤ (p.node ++ ":" ++ p.name).utf8ByteSize then .error (-eNoSpc)
    else if p.node ++ ":" ++ p.name = name then .ok (i, p.port)
    else findGraphPort name (i + 1) ps

/-- `SPA_ELEMENT_TYPE_F32_LE`. -/
def elementTypeF32 : ℕ := 18

/-- `SPA_NDARRAY_LAYOUT_ROW_MAJOR`. -/
def layoutRowMajor : ℕ := 1

/-- `fgn_format_size`: the size and the stride. -/
def fgnFormatSize (f : Format) : Except Int (ℕ × ℕ) :=
  if f.shape = [] ∨ maxDimensions < f.shape.length ∨ (f.layout ≠ 1 ∧ f.layout ≠ 2) ∨
      ¬ (f.rateNum = 0 ↔ f.rateDenom = 0) ∨ elementTypeSize f.elementType = 0 then
    .error (-eInval)
  else
    match formatElements 1 f.shape with
    | .error res => .error res
    | .ok elements =>
      let bytes := elements * elementTypeSize f.elementType
      let axis := if f.layout = layoutRowMajor then f.shape.length - 1 else 0
      let contiguous := f.shape.getD axis 0 * elementTypeSize f.elementType
      if 2 ^ 64 ≤ bytes ∨ 2 ^ 31 - 1 < bytes ∨ 2 ^ 31 - 1 < contiguous then .error (-eOverflow)
      else .ok (bytes, contiguous)

def feedbackFormatEqual (input output : Format) : Bool :=
  input.elementType = elementTypeF32 ∧ output.elementType = elementTypeF32 ∧
    input.layout = layoutRowMajor ∧ output.layout = input.layout ∧
    output.rateNum = input.rateNum ∧ output.rateDenom = input.rateDenom ∧
    output.shape.length = input.shape.length ∧ input.schema ≠ none ∧
    output.schema = input.schema ∧ input.shape = output.shape

section

variable (inputs outputs : List GraphPort)

/-- A round of `configure_feedback_bridges`: `item` has the name of the input and the value. -/
def configureBridge (bridges : List Bridge) (item : String × String) :
    Except Int (List Bridge) := do
  refuse (item.1 = "" ∨ item.2 = "") (-eInval)
  let (i, input) ← findGraphPort item.1 0 inputs
  let (o, output) ← findGraphPort item.2 0 outputs
  refuse (input.parameter ∨ output.conditional) (-eInval)
  refuse (bridges.any fun b => b.inputPort = i ∨ b.outputPort = o) (-eExist)
  let (inputSize, inputStride) ← fgnFormatSize input.format
  let (outputSize, outputStride) ← fgnFormatSize output.format
  refuse (!feedbackFormatEqual input.format output.format ∨ inputSize ≠ outputSize ∨
    inputStride ≠ outputStride) (-eInval)
  return bridges ++ [initBridge i o inputSize]

/-- `configure_feedback_bridges`, for the properties with the prefix of a bridge. -/
def configureFeedbackBridges (items : List (String × String)) : Except Int (List Bridge) :=
  if inputs.length < items.length ∨ outputs.length < items.length then .error (-eTooBig)
  else items.foldlM (configureBridge inputs outputs) []

end

/-! ## Cycles -/

/-- The first loop of `commit_feedback_bridges` for one bridge: an output is absent, present, or
neither. -/
def Bridge.outputPresent (b : Bridge) : Option Bool :=
  if b.output.chunkSize = 0 then some false
  else if b.output.chunkSize = b.size then some true
  else none

/-- The second loop of `commit_feedback_bridges`, for one bridge. -/
def Bridge.commit (b : Bridge) : Bridge :=
  { b with input := { b.input with memory := b.output.memory, header := b.output.header } }

def commitFeedbackBridges (bridges : List Bridge) : Except Int (List Bridge) :=
  if bridges.any fun b => b.outputPresent = none then .error (-eNoData)
  else if (bridges.any fun b => b.outputPresent = some false) ∧
      (bridges.any fun b => b.outputPresent = some true) then .error (-eNoData)
  else if bridges.any fun b => b.outputPresent = some false then .ok bridges
  else .ok (bridges.map Bridge.commit)

/-- `reset_feedback_bridges`, for one bridge. -/
def Bridge.reset (b : Bridge) : Bridge :=
  { b with
    input := ⟨.replicate b.size 0, b.size, .cleared⟩
    output := { b.output with chunkSize := 0 } }

def resetFeedbackBridges (bridges : List Bridge) : List Bridge := bridges.map Bridge.reset

/-- The filter chain: `inputs` and `outputs` are its ports without those of bridges. An input is
optional, or a parameter. -/
structure Chain where
  inputs : List (Option (Bool × Bool))
  outputs : List (Option Unit)
  bridges : List Bridge
  failed : Bool

/-- What is in the memory of a buffer: the bytes and the header. -/
structure Contents where
  bytes : List UInt8
  header : MetaHeader
  deriving DecidableEq

def FeedbackBuffer.contents {n : ℕ} (b : FeedbackBuffer n) : Contents := ⟨b.memory.toList, b.header⟩

def Contents.zero (n : ℕ) : Contents := ⟨List.replicate n 0, .cleared⟩

variable {β : Type} {b : Bridge} {items : List (String × String)} {i : ℕ} {item : String × String}

/-- An input of the graph in a cycle: a buffer of a port, or the input of a bridge with its chunk's
size. -/
inductive Input (β : Type)
  | external (b : β)
  | feedback (c : Contents) (chunkSize : ℕ)

/-- What a cycle meets: the buffers of its ports, the result of `spa_fgn_graph_process`, and what
this call leaves in the output of each bridge. -/
structure Cycle (β : Type) where
  input : ℕ → Option β
  output : ℕ → Option β
  result : Int
  leaves : (i n : ℕ) → FeedbackBuffer n

/-- `ready`, after the loops over the ports. -/
def Chain.ready (c : Chain) (x : Cycle β) : Bool :=
  ((c.inputs.zipIdx).all fun (port, i) =>
    match port with
    | none => true
    | some (optional, parameter) => parameter || (x.input i).isSome || optional) &&
  (c.outputs.zipIdx).all fun (port, i) => port.isNone || (x.output i).isSome

/-- `process_inputs`, with the buffers of the ports. -/
def Chain.externalInputs (c : Chain) (x : Cycle β) (i : ℕ) : Option (Input β) :=
  match c.inputs[i]? with
  | some (some (_, false)) => (x.input i).map .external
  | _ => none

/-- The loop of `process` over the bridges. -/
def present (bridges : List Bridge) (v : ℕ → Option (Input β)) : ℕ → Option (Input β) :=
  bridges.foldl (fun v b => update v b.inputPort
    (some (.feedback b.input.contents b.input.chunkSize))) v

/-- `process_inputs`, with the inputs of the bridges. -/
def Chain.processInputs (c : Chain) (x : Cycle β) : ℕ → Option (Input β) :=
  present c.bridges (c.externalInputs x)

/-- The outputs of the bridges after the call of the graph. -/
def Chain.called (c : Chain) (x : Cycle β) : List Bridge :=
  c.bridges.mapIdx fun i b => { b with output := x.leaves i b.size }

/-- The outputs that a call of the graph published. -/
def published (bridges : List Bridge) : List (Option Contents) :=
  bridges.map fun b => if b.outputPresent = some true then some b.output.contents else none

/-- What is seen of an event: a cycle without a call of the graph, a cycle with the inputs it
presented, its success and what was published, or a reset. -/
inductive Outcome (β : Type)
  | skipped
  | cycle (inputs : ℕ → Option (Input β)) (ok : Bool) (published : List (Option Contents))
  | reset
  | refused

/-- `res` of `process`: the bridges are committed if the call was successful. -/
def Chain.committed (c : Chain) (x : Cycle β) : Except Int (List Bridge) :=
  if x.result < 0 then .error x.result else commitFeedbackBridges (c.called x)

def Bridge.withdraw (b : Bridge) : Bridge := { b with output := { b.output with chunkSize := 0 } }

/-- `process`. After an error the outputs are withdrawn, and nothing is processed until a reset. -/
def Chain.process (c : Chain) (x : Cycle β) : Chain × Outcome β :=
  if c.failed || !c.ready x then (c, .skipped)
  else
    match c.committed x with
    | .ok committed =>
      ({ c with bridges := committed }, .cycle (c.processInputs x) true (published (c.called x)))
    | .error _ =>
      ({ c with bridges := (c.called x).map Bridge.withdraw, failed := true },
        .cycle (c.processInputs x) false (published (c.called x)))

/-- The end of a reset request in `filter_param_changed`; `res` is the result of checks and reset. -/
def Chain.reset (c : Chain) (res : Int) : Chain × Outcome β :=
  if 0 ≤ res then ({ c with bridges := resetFeedbackBridges c.bridges, failed := false }, .reset)
  else (c, .refused)

/-- What happens to a filter chain. -/
inductive Action (β : Type)
  | process (x : Cycle β)
  | reset (res : Int)

def chain : Foundation.Machine Chain (Action β) (Outcome β) where
  step c
    | .process x => some ((c.process x).1, [(c.process x).2])
    | .reset res => some ((c.reset (β := β) res).1, [(c.reset res).2])

/-! ## The delay -/

/-- The last output of bridge `i`, after one more event. -/
def noteOutput (i : ℕ) (last : Option Contents) : Outcome β → Option Contents
  | .cycle _ true published => (published.getD i none).or last
  | .reset => none
  | _ => last

/-- The output of bridge `i` in the last successful cycle that published it since the last reset. -/
def lastPublished (i : ℕ) (tr : List (Outcome β)) : Option Contents :=
  tr.foldl (noteOutput i) none

variable {bridges : List Bridge}

/-- **Either all bridges are committed or none**, and they are committed when all outputs are
present. -/
theorem commitFeedbackBridges_spec {committed : List Bridge}
    (h : commitFeedbackBridges bridges = .ok committed) :
    (committed = bridges ∧ ∀ b ∈ bridges, b.outputPresent = some false) ∨
      (committed = bridges.map Bridge.commit ∧ ∀ b ∈ bridges, b.outputPresent = some true) := by
  unfold commitFeedbackBridges at h
  split_ifs at h with hodd hmixed habsent
  · cases h
    left
    refine ⟨rfl, fun b hb => ?_⟩
    simp only [any_eq_true, decide_eq_true_eq, not_exists, not_and] at hodd hmixed habsent
    have hpresent := hmixed habsent b hb
    rcases hb' : b.outputPresent with - | - | -
    · exact absurd hb' (hodd b hb)
    · rfl
    · exact absurd hb' hpresent
  · cases h
    right
    refine ⟨rfl, fun b hb => ?_⟩
    simp only [any_eq_true, decide_eq_true_eq, not_exists, not_and] at hodd habsent
    rcases hb' : b.outputPresent with - | - | -
    · exact absurd hb' (hodd b hb)
    · exact absurd hb' (habsent b hb)
    · rfl

/-- What the input of every bridge is, by index. -/
def inputsOf (bridges : List Bridge) : List (ℕ × ℕ × Contents × ℕ) :=
  bridges.map fun b => (b.inputPort, b.size, b.input.contents, b.input.chunkSize)

theorem inputsOf_called (c : Chain) (x : Cycle β) : inputsOf (c.called x) = inputsOf c.bridges := by
  apply ext_getElem?
  intro i
  simp only [inputsOf, Chain.called, getElem?_map, getElem?_mapIdx]
  cases c.bridges[i]? <;> rfl

theorem called_getElem {c : Chain} {x : Cycle β} (hb : c.bridges[i]? = some b) :
    (c.called x)[i]? = some { b with output := x.leaves i b.size } := by
  rw [Chain.called, getElem?_mapIdx, hb]
  rfl

/-- What a cycle does in which the graph is called. -/
structure Called (c : Chain) (x : Cycle β) (c' : Chain) (ok : Bool) : Prop where
  /-- A cycle that is not successful changes no input. -/
  failed : ok = false → inputsOf c'.bridges = inputsOf c.bridges
  /-- A successful cycle changes all inputs to the outputs, or none. -/
  committed : ok = true →
    (inputsOf c'.bridges = inputsOf c.bridges ∧ ∀ b ∈ c.called x, b.outputPresent = some false) ∨
      (c'.bridges = (c.called x).map Bridge.commit ∧ ∀ b ∈ c.called x, b.outputPresent = some true)

theorem process_cases (c : Chain) (x : Cycle β) : c.process x = (c, .skipped) ∨
    ∃ c' ok, c.process x = (c', .cycle (c.processInputs x) ok (published (c.called x))) ∧
      Called c x c' ok := by
  unfold Chain.process
  split_ifs
  · exact .inl rfl
  right
  cases hcommit : c.committed x with
  | ok committed =>
    refine ⟨_, _, rfl, ⟨by simp, fun _ => ?_⟩⟩
    unfold Chain.committed at hcommit
    split_ifs at hcommit
    rcases commitFeedbackBridges_spec hcommit with ⟨rfl, habsent⟩ | ⟨rfl, hpresent⟩
    · exact .inl ⟨inputsOf_called c x, habsent⟩
    · exact .inr ⟨rfl, hpresent⟩
  | error res =>
    refine ⟨_, _, rfl, ⟨fun _ => ?_, by simp⟩⟩
    rw [← inputsOf_called c x, inputsOf, map_map]
    rfl

/-! ## Every run -/

theorem lastPublished_snoc (i : ℕ) (tr : List (Outcome β)) (o : Outcome β) :
    lastPublished i (tr ++ [o]) = noteOutput i (lastPublished i tr) o := by
  rw [lastPublished, foldl_append]
  rfl

def Bridge.shape (b : Bridge) : ℕ × ℕ := (b.inputPort, b.size)

/-- **The invariant**: the bridges are the ones that were configured, and the input of each has what
was published last. -/
structure Delayed (bridges : List Bridge) (c : Chain) (tr : List (Outcome β)) : Prop where
  shape : c.bridges.map Bridge.shape = bridges.map Bridge.shape
  inputs : ∀ i b, c.bridges[i]? = some b →
    b.input.contents = (lastPublished i tr).getD (.zero b.size) ∧ b.input.chunkSize = b.size

theorem present_of_notMem {k : ℕ} (hk : k ∉ bridges.map Bridge.inputPort) (v : ℕ → Option (Input β)) :
    present bridges v k = v k := by
  induction bridges generalizing v with
  | nil => rfl
  | cons b bridges ih =>
    rw [map_cons, mem_cons, not_or] at hk
    rw [present, foldl_cons, ← present, ih hk.2, update_of_ne hk.1]

theorem present_mem (hports : (bridges.map Bridge.inputPort).Nodup) (hb : b ∈ bridges)
    (v : ℕ → Option (Input β)) :
    present bridges v b.inputPort = some (.feedback b.input.contents b.input.chunkSize) := by
  induction bridges generalizing v with
  | nil => cases hb
  | cons b' bridges ih =>
    rw [map_cons, nodup_cons] at hports
    rw [present, foldl_cons, ← present]
    rcases mem_cons.mp hb with rfl | hb
    · rw [present_of_notMem hports.1, update_self]
    · exact ih hports.2 hb _

section

variable {bridges : List Bridge} {c c' : Chain} {x : Cycle β} {tr : List (Outcome β)}

theorem delayed_iff : Delayed bridges c tr ↔
    (inputsOf c.bridges).map (fun r => (r.1, r.2.1)) = bridges.map Bridge.shape ∧
      ∀ i r, (inputsOf c.bridges)[i]? = some r →
        r.2.2.1 = (lastPublished i tr).getD (.zero r.2.1) ∧ r.2.2.2 = r.2.1 := by
  have hshape : (inputsOf c.bridges).map (fun r => (r.1, r.2.1)) = c.bridges.map Bridge.shape := by
    rw [inputsOf, map_map]
    rfl
  have hget (i : ℕ) : (inputsOf c.bridges)[i]? = c.bridges[i]?.map fun b =>
      (b.inputPort, b.size, b.input.contents, b.input.chunkSize) := getElem?_map ..
  constructor
  · intro h
    refine ⟨hshape.trans h.shape, fun i r hr => ?_⟩
    rw [hget] at hr
    obtain ⟨b, hb, rfl⟩ := Option.map_eq_some_iff.mp hr
    exact h.inputs i b hb
  · rintro ⟨hs, h⟩
    exact ⟨hshape.symm.trans hs, fun i b hb => h i _ (by rw [hget, hb]; rfl)⟩

theorem Delayed.congr {o : Outcome β} (h : Delayed bridges c tr)
    (hc : inputsOf c'.bridges = inputsOf c.bridges)
    (ho : ∀ (i : ℕ) (b : Bridge), c.bridges[i]? = some b → ∀ last, noteOutput i last o = last) :
    Delayed bridges c' (tr ++ [o]) := by
  have h' := delayed_iff.mp h
  rw [← hc] at h'
  refine delayed_iff.mpr ⟨h'.1, fun i r hr => ?_⟩
  have hlen : i < c.bridges.length := by
    have := (List.getElem?_eq_some_iff.mp hr).1
    rwa [hc, inputsOf, length_map] at this
  rw [lastPublished_snoc, ho i _ (getElem?_eq_getElem hlen)]
  exact h'.2 i r hr

theorem published_getD (hb : c.bridges[i]? = some b) : (published (c.called x)).getD i none =
      if ({ b with output := x.leaves i b.size } : Bridge).outputPresent = some true
      then some (x.leaves i b.size).contents else none := by
  rw [published, getD_eq_getElem?_getD, getElem?_map, called_getElem hb]
  rfl

theorem commit_getElem {b' : Bridge} (hc : c'.bridges = (c.called x).map Bridge.commit)
    (hb' : c'.bridges[i]? = some b') : ∃ b, c.bridges[i]? = some b ∧
      b' = ({ b with output := x.leaves i b.size } : Bridge).commit := by
  rw [hc, getElem?_map, Option.map_eq_some_iff] at hb'
  obtain ⟨b₁, hb₁, rfl⟩ := hb'
  have hlen : i < c.bridges.length := by
    have := (List.getElem?_eq_some_iff.mp hb₁).1
    rwa [Chain.called, length_mapIdx] at this
  have hb := getElem?_eq_getElem hlen
  rw [called_getElem hb, Option.some.injEq] at hb₁
  exact ⟨_, hb, by rw [hb₁]⟩

section Delayed

variable (h : Delayed bridges c tr)

include h

theorem Delayed.called {ok : Bool} {inputs : ℕ → Option (Input β)} (hc : Called c x c' ok) :
    Delayed bridges c' (tr ++ [.cycle inputs ok (published (c.called x))]) := by
  cases ok with
  | false => exact h.congr (hc.failed rfl) fun _ _ _ _ => rfl
  | true =>
    rcases hc.committed rfl with ⟨hsame, habsent⟩ | ⟨hcommit, hpresent⟩
    · refine h.congr hsame fun i b hb last => ?_
      have := habsent _ (mem_of_getElem? (called_getElem hb))
      rw [noteOutput, published_getD hb, this]
      rfl
    · constructor
      · have hshape := congrArg (List.map fun r => (r.1, r.2.1)) (inputsOf_called c x)
        simp only [inputsOf, map_map] at hshape
        rw [hcommit, map_map, ← h.shape]
        exact hshape
      · intro i b' hb'
        obtain ⟨b, hb, rfl⟩ := commit_getElem hcommit hb'
        have hpres := hpresent _ (mem_of_getElem? (called_getElem hb))
        refine ⟨?_, (h.inputs i b hb).2⟩
        rw [lastPublished_snoc, noteOutput, published_getD hb, if_pos hpres]
        rfl

theorem Delayed.reset (res : Int) :
    Delayed bridges (c.reset (β := β) res).1 (tr ++ [(c.reset res).2]) := by
  unfold Chain.reset
  split_ifs
  · constructor
    · rw [← h.shape]
      exact map_map
    · intro i b' hb'
      rw [resetFeedbackBridges, getElem?_map, Option.map_eq_some_iff] at hb'
      obtain ⟨b, -, rfl⟩ := hb'
      rw [lastPublished_snoc]
      refine ⟨?_, rfl⟩
      simp [Bridge.reset, FeedbackBuffer.contents, noteOutput, Contents.zero]
  · exact h.congr rfl fun _ _ _ _ => rfl

theorem Delayed.exists_bridge (hb : bridges[i]? = some b) :
    ∃ b', c.bridges[i]? = some b' ∧ b'.inputPort = b.inputPort ∧ b'.size = b.size := by
  have hget := congrArg (·[i]?) h.shape
  simp only [getElem?_map, hb, Option.map_some] at hget
  obtain ⟨b', hb', hshape⟩ := Option.map_eq_some_iff.mp hget
  obtain ⟨hport, hsize⟩ := Prod.mk.inj hshape
  exact ⟨b', hb', hport, hsize⟩

theorem Delayed.ports (hn : (bridges.map Bridge.inputPort).Nodup) :
    (c.bridges.map Bridge.inputPort).Nodup := by
  have hports := congrArg (List.map (·.1)) h.shape
  simp only [map_map] at hports
  have hports' : c.bridges.map Bridge.inputPort = bridges.map Bridge.inputPort := hports
  rwa [hports']

/-- **Every event keeps the invariant.** -/
theorem Delayed.step {es : List (Outcome β)} {a : Action β}
    (hs : chain.step c a = some (c', es)) : Delayed bridges c' (tr ++ es) := by
  cases a with
  | reset res =>
    cases hs
    exact h.reset res
  | process x =>
    cases hs
    rcases process_cases c x with hskip | ⟨c', ok, hcycle, hc⟩
    · rw [hskip]
      exact h.congr rfl fun _ _ _ _ => rfl
    · rw [hcycle]
      exact h.called hc

end Delayed

end

/-! ## The bridges of a configuration -/

/-- A configuration gives new bridges, no two of which have one input. -/
structure Configured (bridges : List Bridge) : Prop where
  ports : (bridges.map Bridge.inputPort).Nodup
  new : ∀ b ∈ bridges, b = initBridge b.inputPort b.outputPort b.size

theorem configureBridge_spec {inputs outputs : List GraphPort} {bridges' : List Bridge}
    (h : configureBridge inputs outputs bridges item = .ok bridges') :
    ∃ i o n, (∀ b ∈ bridges, b.inputPort ≠ i) ∧ bridges' = bridges ++ [initBridge i o n] := by
  obtain ⟨-, -, h⟩ := bind_eq_ok.mp h
  obtain ⟨⟨i, input⟩, -, h⟩ := bind_eq_ok.mp h
  obtain ⟨⟨o, output⟩, -, h⟩ := bind_eq_ok.mp h
  obtain ⟨-, -, h⟩ := bind_eq_ok.mp h
  obtain ⟨_, hdup, h⟩ := bind_eq_ok.mp h
  obtain ⟨⟨inputSize, inputStride⟩, -, h⟩ := bind_eq_ok.mp h
  obtain ⟨⟨outputSize, outputStride⟩, -, h⟩ := bind_eq_ok.mp h
  obtain ⟨-, -, h⟩ := bind_eq_ok.mp h
  cases h
  refine ⟨i, o, inputSize, fun b hb hport => refuse_eq_ok.mp hdup ?_, rfl⟩
  exact any_eq_true.mpr ⟨b, hb, decide_eq_true (.inl hport)⟩

theorem configureBridge_ok {inputs outputs : List GraphPort} {bridges' : List Bridge}
    (hb : Configured bridges) (h : configureBridge inputs outputs bridges item = .ok bridges') :
    Configured bridges' := by
  obtain ⟨i, o, n, hnew, rfl⟩ := configureBridge_spec h
  exact ⟨Foundation.nodup_concat hb.ports hnew, Foundation.forall_mem_concat hb.new rfl⟩

theorem configureFeedbackBridges_ok {inputs outputs : List GraphPort}
    (h : configureFeedbackBridges inputs outputs items = .ok bridges) : Configured bridges := by
  unfold configureFeedbackBridges at h
  split_ifs at h
  refine Foundation.foldlM_ok (I := Configured) (fun _ hb => configureBridge_ok hb) ?_ h
  exact ⟨nodup_nil, by simp⟩

theorem delayed_of_reaches {inputs outputs : List GraphPort}
    (hconf : configureFeedbackBridges inputs outputs items = .ok bridges)
    {ins : List (Option (Bool × Bool))} {outs : List (Option Unit)} {c : Chain}
    {tr : List (Outcome β)} (h : chain.Reaches ⟨ins, outs, bridges, false⟩ c tr) :
    Delayed bridges c tr := by
  refine h.induct ⟨rfl, ?_⟩ fun hi hs => hi.step hs
  intro i b hb
  rw [(configureFeedbackBridges_ok hconf).new b (mem_of_getElem? hb)]
  simp [initBridge, initFeedbackBuffer, FeedbackBuffer.contents, lastPublished, Contents.zero]

/-- **Feedback bridges are delays.** Whenever the graph is called, each bridge presents its output
of the last successful cycle that published it since the last reset, or zeros; a cycle that fails
changes no input, and a cycle changes all inputs or none. -/
theorem feedback_delay {inputs outputs : List GraphPort} {items : List (String × String)}
    {bridges : List Bridge} (hconf : configureFeedbackBridges inputs outputs items = .ok bridges)
    (ins : List (Option (Bool × Bool))) (outs : List (Option Unit)) {c : Chain}
    {tr : List (Outcome β)} (h : chain.Reaches ⟨ins, outs, bridges, false⟩ c tr) {x : Cycle β}
    {c' : Chain} {presented : ℕ → Option (Input β)} {ok : Bool} {pub : List (Option Contents)}
    (hs : chain.step c (.process x) = some (c', [.cycle presented ok pub])) :
    (∀ i b, bridges[i]? = some b → presented b.inputPort =
        some (.feedback ((lastPublished i tr).getD (.zero b.size)) b.size)) ∧
    (ok = false → inputsOf c'.bridges = inputsOf c.bridges) ∧
    (inputsOf c'.bridges = inputsOf c.bridges ∨ ∀ (i : ℕ) (b' : Bridge), c'.bridges[i]? = some b' →
        pub[i]? = some (some b'.input.contents)) := by
  have hbridges := configureFeedbackBridges_ok hconf
  have hinv := delayed_of_reaches hconf h
  obtain ⟨rfl, hevent⟩ := Prod.mk.inj (Option.some.inj hs)
  rcases process_cases c x with hskip | ⟨c', ok', hcycle, hc⟩
  · rw [hskip] at hevent
    cases hevent
  rw [hcycle] at hevent ⊢
  cases hevent
  refine ⟨?_, hc.failed, ?_⟩
  · intro i b hb
    obtain ⟨b', hb', hport, hsize⟩ := hinv.exists_bridge hb
    rw [← hport, Chain.processInputs,
      present_mem (hinv.ports hbridges.ports) (mem_of_getElem? hb')]
    obtain ⟨hcontents, hchunk⟩ := hinv.inputs i b' hb'
    rw [hcontents, hchunk, hsize]
  · cases ok with
    | false => exact .inl (hc.failed rfl)
    | true =>
      rcases hc.committed rfl with ⟨hsame, -⟩ | ⟨hcommit, hpresent⟩
      · exact .inl hsame
      · right
        intro i b' hb'
        obtain ⟨b, hb, rfl⟩ := commit_getElem hcommit hb'
        have hpres := hpresent _ (mem_of_getElem? (called_getElem hb))
        rw [published, getElem?_map, called_getElem hb, Option.map_some, if_pos hpres]
        rfl

/-- A port with four bytes. -/
def wordPort : Port := ⟨false, false, false, ⟨18, 1, 0, 0, [1], some "s"⟩, 4, 4, []⟩

/-- A cycle that leaves the byte `v` four times in every output. -/
def wordCycle (v : UInt8) : Cycle Unit where
  input _ := none
  output _ := none
  result := 0
  leaves _ n := ⟨.replicate n v, n, .cleared⟩

/-- The second cycle presents what the first one left. -/
theorem feedback_delay_second :
    configureFeedbackBridges [⟨"n", "in", wordPort⟩] [⟨"n", "out", wordPort⟩] [("n:in", "n:out")] =
      .ok [initBridge 0 0 4] ∧ ∃ c, ∃ tr : List (Outcome Unit),
      chain.Reaches ⟨[none], [none], [initBridge 0 0 4], false⟩ c tr ∧
      (lastPublished 0 tr).map Contents.bytes = some [7, 7, 7, 7] ∧ ∃ c' presented ok pub,
        chain.step c (.process (wordCycle 9)) = some (c', [.cycle presented ok pub]) ∧
        presented 0 = some (.feedback ((lastPublished 0 tr).getD (.zero 4)) 4) := by
  have hconf : configureFeedbackBridges [⟨"n", "in", wordPort⟩] [⟨"n", "out", wordPort⟩]
      [("n:in", "n:out")] = .ok [initBridge 0 0 4] := rfl
  have hreach := Foundation.Machine.Reaches.of_run (M := chain)
    (s := ⟨[none], [none], [initBridge 0 0 4], false⟩) [.process (wordCycle 7)] rfl
  exact ⟨hconf, _, _, hreach, rfl, _, _, _, _, rfl,
    (feedback_delay hconf [none] [none] hreach (x := wordCycle 9) rfl).1 0 _ rfl⟩

end PipeWireAO.FilterChain
