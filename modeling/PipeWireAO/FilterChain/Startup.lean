import PipeWireAO.FilterChain.Private
import PipeWireAO.FilterGraph.Transaction.Threads

/-!
# Startup parameters

`configure_startup_parameters` maps a file for each startup parameter, builds a buffer around the
mapping and hands all of them to `spa_fgn_graph_set_parameters`. A value has to match the format of its
port. The buffers have no metadata, and the graph demands a header of every buffer, so the call is
refused as soon as there is a value. With a header, the buffers would be accepted.
-/

namespace PipeWireAO.FilterChain

open FilterGraph List Transaction
open Foundation (bind_eq_ok refuse refuse_eq_ok Block SharedWithin)

/-! ## The values -/

/-- `find_startup_parameter_port`, from port `i` on. -/
def findStartupParameterPort (name : String) : ℕ → List GraphPort → Except Int (ℕ × Port)
  | _, [] => .error (-eNoEnt)
  | i, p :: ps =>
    if 512 ≤ (p.node ++ ":" ++ p.name).utf8ByteSize then .error (-eNoSpc)
    else if p.node ++ ":" ++ p.name = name then
      if p.port.parameter then .ok (i, p.port) else .error (-eInval)
    else findStartupParameterPort name (i + 1) ps

/-- What the system answers for a file: `open`, `fstat` (a regular file, and its size) and `mmap`. -/
structure File where
  opened : Except Int PUnit
  status : Except Int (Bool × Int)
  mapped : Except Int ℕ

/-- `struct startup_parameter`, with the port it is for. -/
structure StartupParameter where
  (inputPort size mapping : ℕ)
  deriving DecidableEq

/-- A round of `configure_startup_parameters` after the parameters `ps`: `item` is the name of the
port and the path of the file, and `answers` what the system answers in each round. -/
def startupRound (inputs : List GraphPort) (answers : ℕ → String → File) (ps : List StartupParameter)
    (item : String × String) : Except Int (List StartupParameter) := do
  refuse (item.1 = "" ∨ item.2 = "") (-eInval)
  let (i, port) ← findStartupParameterPort item.1 0 inputs
  refuse (ps.any fun p => p.inputPort = i) (-eExist)
  let (size, _) ← fgnFormatSize port.format
  refuse (port.format.elementType ≠ elementTypeF32 ∨ port.format.layout ≠ layoutRowMajor ∨
    size % 4 ≠ 0) (-eInval)
  let file := answers ps.length item.2
  file.opened
  let (regular, length) ← file.status
  refuse (regular = false ∨ length ≠ size) (-eMsgSize)
  let mapping ← file.mapped
  return ps ++ [⟨i, size, mapping⟩]

/-! ## The buffers -/

/-- `sizeof (struct startup_parameter)`. -/
def startupParameterSize : ℕ := 96

/-- The metadata of a buffer: where the descriptors lie, and the records. -/
abbrev Metadata := ℕ × List Meta

/-- The buffer of a parameter whose structure is at `a`, with metadata `r`. -/
def StartupParameter.buffer (p : StartupParameter) (a : ℕ) (r : Metadata) : FilterGraph.Buffer Unit where
  nDatas := 1
  datas := a + 32
  metasAt := r.1
  metas := r.2
  data := p.mapping
  chunk := a + 16
  maxsize := p.size
  offset := 0
  size := p.size
  flags := 0
  payload := ()

def StartupParameter.placed (p : StartupParameter) (a : ℕ) (r : Metadata) : PlacedBuffer Unit :=
  ⟨a + 72, p.buffer a r, p.size⟩

/-- The checks of `spa_fgn_graph_set_parameters` on a buffer for a port. -/
def checkParameter (port : Port) (b : PlacedBuffer Unit) : Int :=
  if validateBuffer port.payloadSize port.elementSize false (some b.buffer) < 0 then
    validateBuffer port.payloadSize port.elementSize false (some b.buffer)
  else
    match validateBufferNonalias { b with payloadSize := port.payloadSize } with
    | .error res => res
    | .ok _ => 0

/-- The updates for the parameters `ps`, with structures in an array: `records` is the metadata of
their buffers, and `grow` says whether there is memory for each update. -/
def updates (inputs : List GraphPort) (array : ℕ) (records : ℕ → Metadata) (grow : ℕ → Bool)
    (ps : List StartupParameter) : List Transaction.Update :=
  ps.mapIdx fun k p =>
    { clean := true
      inputPort := p.inputPort
      buffer := true
      valid := (inputs[p.inputPort]?.map fun q =>
        checkParameter q.port (p.placed (array + startupParameterSize * k) (records k))).getD 0
      grow := grow k }

/-- `configure_startup_parameters` up to the callbacks of the plugins: it returns early, or calls
`spa_fgn_graph_set_parameters`. The structures are at `array` if there is memory for them; `alloc`
says whether there is memory for the transaction. -/
def configureStartupParameters (g : Transaction.Graph) (inputs : List GraphPort)
    (answers : ℕ → String → File) (array : Option ℕ) (grow : ℕ → Bool) (alloc : Bool)
    (items : List (String × String)) : Except Int (Option Transaction.Call) :=
  if items = [] then .ok none
  else if maxAssignments < items.length then .error (-eTooBig)
  else
    match array with
    | none => .error (-eNoMem)
    | some array => do
      let ps ← items.foldlM (startupRound inputs answers) []
      return some (setParameters g (updates inputs array (fun _ => (0, [])) grow ps) alloc)

/-! ## Values that match their ports -/

/-- A parameter that was taken for the port `q`: it has the size of the port. -/
structure Matched (inputs : List GraphPort) (p : StartupParameter) (q : Port) : Prop where
  port : inputs[p.inputPort]?.map GraphPort.port = some q
  parameter : q.parameter = true
  size : ∃ stride, fgnFormatSize q.format = .ok (p.size, stride)
  element : q.format.elementType = elementTypeF32
variable {q : Port}

theorem findStartupParameterPort_spec {name : String} {ps : List GraphPort} {k i : ℕ}
    (h : findStartupParameterPort name k ps = .ok (i, q)) :
    k ≤ i ∧ ps[i - k]?.map GraphPort.port = some q ∧ q.parameter = true := by
  induction ps generalizing k with
  | nil => cases h
  | cons p ps ih =>
    rw [findStartupParameterPort] at h
    split_ifs at h with _ _ hparameter
    · cases h
      simpa using hparameter
    · obtain ⟨hle, hget, hparameter⟩ := ih h
      refine ⟨by omega, ?_, hparameter⟩
      rwa [show i - k = (i - (k + 1)) + 1 by omega, getElem?_cons_succ]

section Rounds

variable {inputs : List GraphPort} {answers : ℕ → String → File} {items : List (String × String)}

theorem startupRound_spec {ps ps' : List StartupParameter} {item : String × String}
    (h : startupRound inputs answers ps item = .ok ps') : ∃ p q, Matched inputs p q ∧
      (∀ p' ∈ ps, p'.inputPort ≠ p.inputPort) ∧ ps' = ps ++ [p] := by
  obtain ⟨-, -, h⟩ := bind_eq_ok.mp h
  obtain ⟨⟨i, port⟩, hfind, h⟩ := bind_eq_ok.mp h
  obtain ⟨_, hdup, h⟩ := bind_eq_ok.mp h
  obtain ⟨⟨size, stride⟩, hsize, h⟩ := bind_eq_ok.mp h
  obtain ⟨_, hformat, h⟩ := bind_eq_ok.mp h
  obtain ⟨-, -, h⟩ := bind_eq_ok.mp h
  obtain ⟨⟨regular, length⟩, -, h⟩ := bind_eq_ok.mp h
  obtain ⟨-, -, h⟩ := bind_eq_ok.mp h
  obtain ⟨mapping, -, h⟩ := bind_eq_ok.mp h
  cases h
  obtain ⟨-, hport, hparameter⟩ := findStartupParameterPort_spec hfind
  have hformat := (not_or.mp (refuse_eq_ok.mp hformat)).1
  refine ⟨_, port, ⟨hport, hparameter, ⟨stride, hsize⟩, not_not.mp hformat⟩, fun p hp heq => ?_, rfl⟩
  exact refuse_eq_ok.mp hdup (any_eq_true.mpr ⟨p, hp, decide_eq_true heq⟩)

/-- What the rounds collect: parameters that match different ports. -/
structure Collected (inputs : List GraphPort) (ps : List StartupParameter) : Prop where
  ports : (ps.map StartupParameter.inputPort).Nodup
  matched : ∀ p ∈ ps, ∃ q, Matched inputs p q

theorem startupRounds_collected {ps : List StartupParameter}
    (h : items.foldlM (startupRound inputs answers) [] = .ok ps) : Collected inputs ps := by
  have hnil : Collected inputs [] := ⟨nodup_nil, by simp⟩
  refine Foundation.foldlM_ok (I := Collected inputs) ?_ hnil h
  rintro ps item ps' - hps hround
  obtain ⟨p, q, hp, hnew, rfl⟩ := startupRound_spec hround
  exact ⟨Foundation.nodup_concat hps.ports hnew, Foundation.forall_mem_concat hps.matched ⟨q, hp⟩⟩

theorem startupRounds_length {ps ps' : List StartupParameter}
    (h : items.foldlM (startupRound inputs answers) ps = .ok ps') :
    ps'.length = ps.length + items.length := by
  induction items generalizing ps with
  | nil =>
    cases h
    rfl
  | cons item items ih =>
    obtain ⟨ps₁, hround, h⟩ := bind_eq_ok.mp h
    obtain ⟨p, -, -, -, rfl⟩ := startupRound_spec hround
    rw [ih h, length_append, length_singleton, length_cons]
    omega

end Rounds

/-! ## The checks on a buffer -/

/-- **What the allocator and `mmap` promise**: structures and mappings are aligned, in the address
space. -/
structure Mapped (start : ℕ) (ps : List StartupParameter) : Prop where
  array : start ≠ 0 ∧ start % 16 = 0 ∧ start + startupParameterSize * ps.length < 2 ^ 64
  mapping : ∀ p ∈ ps, p.mapping ≠ 0 ∧ p.mapping % 4096 = 0 ∧ p.mapping + p.size < 2 ^ 64

/-- A buffer with a header: the layout is valid, and its parts are in the address space and apart. -/
structure Headed (b : PlacedBuffer Unit) : Prop where
  layout : recordsLayoutValidate b.buffer.metasAt b.buffer.metas = true
  header : ∃ m ∈ b.buffer.metas, m.type = metaHeader
  range : ∀ x ∈ b.blocks, x.length ≠ 0 → x.start ≠ 0 ∧ x.start + x.length < 2 ^ 64
  apart : ¬ SharedWithin b.blocks

section Checks

variable {p : StartupParameter} {port : Port} {a : ℕ} {r : Metadata}

open StartupParameter (buffer)

theorem validateBuffer_startup (haligned : a % 8 = 0) (hmapping : p.mapping ≠ 0)
    (hmapping' : p.mapping % 4096 = 0) (hend : p.mapping + p.size < 2 ^ 64) (hsize : 0 < p.size)
    (hlayout : recordsLayoutValidate r.1 r.2 = true) :
    validateBuffer p.size 4 false (some (p.buffer a r)) =
      if r.2.all (·.type ≠ metaHeader) = true then -eInval else 0 := by
  have hlayout' := hlayout
  simp only [recordsLayoutValidate, Bool.and_eq_true, Bool.or_eq_true, decide_eq_true_eq,
    List.isEmpty_iff] at hlayout'
  obtain ⟨⟨hcount, hmetas⟩, hloop⟩ := hlayout'
  have hvalid : recordsLayoutValidate (p.buffer a r).metasAt (p.buffer a r).metas = true := hlayout
  unfold validateBuffer
  dsimp only
  rw [if_neg, if_neg, if_neg, if_neg, if_neg, if_neg, if_neg]
  · by_cases hall : r.2.all (·.type ≠ metaHeader) = true
    · rw [if_pos hall]
      exact if_pos (.inr hall)
    · rw [if_neg hall]
      refine if_neg ?_
      rintro (h | h)
      · rw [hvalid] at h
        cases h
      · exact hall h
  · exact not_not.mpr (layoutLoop_types hloop).1
  · simp only [buffer]
    omega
  · simp only [buffer]
    omega
  · simp only [buffer, uintptrMax]
    omega
  · simp only [buffer]
    omega
  · simp only [buffer]
    omega
  · simp only [buffer, not_or]
    refine ⟨by decide, by omega, by omega, by omega, ?_⟩
    rintro ⟨hne, hbad⟩
    rcases hmetas with hnil | ⟨hat, hat'⟩
    · exact hne hnil
    · rcases hbad with hbad | hbad
      · exact hat hbad
      · exact hbad hat'

variable {start : ℕ} {ps : List StartupParameter} {k : ℕ}

theorem Mapped.validateBuffer (h : Mapped start ps) (hk : ps[k]? = some p) (hsize : 0 < p.size)
    (hlayout : recordsLayoutValidate r.1 r.2 = true) : FilterGraph.validateBuffer p.size 4 false
        (some (p.buffer (start + startupParameterSize * k) r)) =
      if r.2.all (·.type ≠ metaHeader) = true then -eInval else 0 := by
  obtain ⟨hstart, haligned, -⟩ := h.array
  obtain ⟨hmapping, hmapping', hend⟩ := h.mapping p (mem_of_getElem? hk)
  refine validateBuffer_startup ?_ hmapping hmapping' hend hsize hlayout
  unfold startupParameterSize
  omega

/-- **A buffer without metadata is refused.** -/
theorem checkParameter_bare (h : Mapped start ps) (hk : ps[k]? = some p) (hsize : 0 < p.size)
    (hport : port.payloadSize = p.size ∧ port.elementSize = 4) :
    checkParameter port (p.placed (start + startupParameterSize * k) (0, [])) = -eInval := by
  have hvalid := h.validateBuffer hk hsize (r := (0, [])) rfl
  rw [if_pos (show [].all (fun m : Meta => m.type ≠ metaHeader) = true from rfl)] at hvalid
  unfold checkParameter
  rw [hport.1, hport.2, StartupParameter.placed, hvalid, if_pos (by decide)]

/-- **A buffer with a header is accepted.** -/
theorem checkParameter_headed (h : Mapped start ps) (hk : ps[k]? = some p) (hsize : 0 < p.size)
    (hport : port.payloadSize = p.size ∧ port.elementSize = 4)
    (hr : Headed (p.placed (start + startupParameterSize * k) r)) :
    checkParameter port (p.placed (start + startupParameterSize * k) r) = 0 := by
  have hvalid := h.validateBuffer hk hsize (r := r) hr.layout
  rw [if_neg] at hvalid
  · have hchecked : (p.placed (start + startupParameterSize * k) r).Checked := ⟨4, false, hvalid⟩
    have hnonalias := validateBufferNonalias_ok hchecked (exists_regions hchecked hr.range) hr.apart
    unfold checkParameter
    rw [hport.1, hport.2, show (p.placed (start + startupParameterSize * k) r).buffer =
      p.buffer (start + startupParameterSize * k) r from rfl, hvalid, if_neg (by decide)]
    change (match validateBufferNonalias (p.placed (start + startupParameterSize * k) r) with
      | .error res => res
      | .ok _ => 0) = 0
    rw [hnonalias]
  · rw [all_eq_true]
    intro hall
    obtain ⟨m, hm, htype⟩ := hr.header
    exact of_decide_eq_true (hall m hm) htype

end Checks

/-! ## The call -/

section Call

variable {infos : List (Bool × List PortInfo)} {cfg : Config} {g : FilterGraph.Graph}
  {tg : Transaction.Graph} {inputs : List GraphPort} {ps : List StartupParameter} {start : ℕ}
  {p : StartupParameter}

theorem Matched.sized (hnodes : infos.mapM (fun i => loadPorts i.1 i.2) = .ok cfg.nodes)
    (hg : graphNew cfg = .ok g)
    (hinputs : inputs.map GraphPort.port = portsOf (FilterGraph.inputPort g.nodes) g.inputs)
    (h : Matched inputs p q) : 0 < p.size ∧ q.payloadSize = p.size ∧ q.elementSize = 4 := by
  obtain ⟨i, -, hi⟩ := exists_portId hinputs (graphNew_ports hg).1 h.port
  obtain ⟨stride, hsize⟩ := h.size
  obtain ⟨hpos, hpayload, helement, -⟩ := admitted_port hnodes hg (.inl hi) hsize h.element
  exact ⟨hpos, hpayload, helement⟩

theorem updates_getElem (start : ℕ) (records : ℕ → Metadata) (grow : ℕ → Bool) {k : ℕ}
    (hk : ps[k]? = some p) (hp : Matched inputs p q) :
    (updates inputs start records grow ps)[k]? = some ⟨true, p.inputPort, true,
      checkParameter q (p.placed (start + startupParameterSize * k) (records k)), grow k⟩ := by
  obtain ⟨gp, hgp, rfl⟩ := Option.map_eq_some_iff.mp hp.port
  rw [updates, getElem?_mapIdx, hk, Option.map_some, hgp]
  rfl

theorem Matched.input (htg : tg.inputs.map Transaction.Input.parameter =
      inputs.map fun q => q.port.parameter)
    (h : Matched inputs p q) : ∃ i, tg.inputs[p.inputPort]? = some i ∧ i.parameter = true := by
  have hget := congrArg (·[p.inputPort]?) htg
  obtain ⟨gp, hgp, rfl⟩ := Option.map_eq_some_iff.mp h.port
  simp only [getElem?_map, hgp, Option.map_some, h.parameter] at hget
  exact Option.map_eq_some_iff.mp hget

theorem updates_ports (inputs : List GraphPort) (start : ℕ) (records : ℕ → Metadata) (grow : ℕ → Bool)
    (ps : List StartupParameter) : (updates inputs start records grow ps).map
      Transaction.Update.inputPort = ps.map StartupParameter.inputPort := by
  apply ext_getElem?
  intro k
  simp only [updates, getElem?_map, getElem?_mapIdx]
  cases ps[k]? <;> rfl

theorem prepares_of_hasParameter (hdescriptor : ∀ i ∈ tg.inputs, i.parameter = true →
      (tg.descriptor i.node).prepareParameters = true) {n : ℕ} (hn : tg.HasParameter n) :
    tg.prepares .parameters n = true := by
  obtain ⟨i, hi, hparameter, rfl⟩ := hn
  have hwhole := tg.whole i.node
  have hprepare := hdescriptor i hi hparameter
  simp only [Transaction.Descriptor.whole, hprepare] at hwhole
  rw [Transaction.Graph.prepares, hprepare]
  revert hwhole
  cases (tg.descriptor i.node).adoptParameters <;> cases (tg.descriptor i.node).commitParameter <;>
    cases (tg.descriptor i.node).discardParameter <;> simp

section Plan

variable (hnodes : infos.mapM (fun i => loadPorts i.1 i.2) = .ok cfg.nodes) (hg : graphNew cfg = .ok g)
  (hinputs : inputs.map GraphPort.port = portsOf (FilterGraph.inputPort g.nodes) g.inputs)
  (htg : tg.inputs.map Transaction.Input.parameter = inputs.map fun q => q.port.parameter)
  (hcollected : Collected inputs ps) (hmapped : Mapped start ps) (grow : ℕ → Bool)
include hnodes hg hinputs htg hcollected hmapped

theorem plan_bare (hne : ps ≠ []) : planParameters tg [] []
    (updates inputs start (fun _ => (0, [])) grow ps) = .error (-eInval) := by
  obtain ⟨p, ps', rfl⟩ := exists_cons_of_ne_nil hne
  obtain ⟨q, hq⟩ := hcollected.matched p mem_cons_self
  obtain ⟨hpos, hsized⟩ := hq.sized hnodes hg hinputs
  have hbare := checkParameter_bare (k := 0) hmapped rfl hpos hsized
  obtain ⟨i, hi, hparameter⟩ := hq.input htg
  have hfirst := updates_getElem start (fun _ => (0, [])) grow
    (show (p :: ps')[0]? = some p from rfl) hq
  rw [hbare] at hfirst
  cases hupdates : updates inputs start (fun _ => (0, [])) grow (p :: ps') with
  | nil =>
    rw [hupdates] at hfirst
    cases hfirst
  | cons u us =>
    rw [hupdates, getElem?_cons_zero, Option.some.injEq] at hfirst
    subst hfirst
    simp only [planParameters, assignParameter, hi, hparameter]
    rfl

theorem plan_headed (hcount : ps.length ≤ maxAssignments) {records : ℕ → Metadata}
    (hheaded : ∀ (k : ℕ) (p : StartupParameter), ps[k]? = some p →
      Headed (p.placed (start + startupParameterSize * k) (records k))) :
    (∃ gs, planParameters tg [] [] (updates inputs start records grow ps) = .ok gs ∧
      ∀ n ∈ gs.map Prod.fst, tg.HasParameter n) ∨
    (planParameters tg [] [] (updates inputs start records grow ps) = .error (-eNoMem) ∧
      ∃ k, grow k = false) := by
  have hfaultless : ∀ u ∈ updates inputs start records grow ps, u.Faultless tg ∧
      ∃ k, u.grow = grow k := by
    intro u hu
    obtain ⟨k, hk⟩ := mem_iff_getElem?.mp hu
    have hlt : k < ps.length := by
      have := (List.getElem?_eq_some_iff.mp hk).1
      rwa [updates, length_mapIdx] at this
    have hp := getElem?_eq_getElem hlt
    obtain ⟨q, hq⟩ := hcollected.matched _ (mem_of_getElem? hp)
    obtain ⟨hpos, hsized⟩ := hq.sized hnodes hg hinputs
    rw [updates_getElem start records grow hp hq, Option.some.injEq] at hk
    subst hk
    refine ⟨⟨hq.input htg, rfl, rfl, ?_⟩, k, rfl⟩
    exact Int.le_of_eq (checkParameter_headed hmapped hp hpos hsized (hheaded k _ hp)).symm
  have hports := hcollected.ports
  rw [← updates_ports inputs start records grow ps] at hports
  have hmax : ([] : List ℕ).length + (updates inputs start records grow ps).length ≤
      maxAssignments := by
    rw [updates, length_mapIdx, length_nil, Nat.zero_add]
    exact hcount
  have hseen : ∀ u ∈ updates inputs start records grow ps, u.inputPort ∉ ([] : List ℕ) := by simp
  have hempty : ∀ n, (assigned [] n).length ≤ ([] : List ℕ).length := fun _ => le_rfl
  rcases planParameters_faultless (fun u hu => (hfaultless u hu).1) hports hseen hempty hmax
    (by simp) with hok | ⟨herr, u, hu, hgrow⟩
  · exact .inl hok
  · obtain ⟨k, hk⟩ := (hfaultless u hu).2
    exact .inr ⟨herr, k, hk ▸ hgrow⟩

end Plan

/-- **Startup parameters** that match their ports are refused by `spa_fgn_graph_set_parameters`. If
the buffers had headers, they would come to the plugins, unless memory is short. -/
theorem startup_parameters (hnodes : infos.mapM (fun i => loadPorts i.1 i.2) = .ok cfg.nodes)
    (hg : graphNew cfg = .ok g)
    (hinputs : inputs.map GraphPort.port = portsOf (FilterGraph.inputPort g.nodes) g.inputs)
    (htg : tg.inputs.map Transaction.Input.parameter = inputs.map fun q => q.port.parameter)
    {answers : ℕ → String → File} {items : List (String × String)}
    (hcount : items.length ≤ maxAssignments)
    (hps : items.foldlM (startupRound inputs answers) [] = .ok ps) (hmapped : Mapped start ps)
    (grow : ℕ → Bool) : (items = [] →
      configureStartupParameters tg inputs answers (some start) grow true items = .ok none) ∧
    (items ≠ [] → configureStartupParameters tg inputs answers (some start) grow true items =
        .ok (some ⟨.parameters, none, .error (-eInval)⟩)) ∧
    ∀ records : ℕ → Metadata, (∀ (k : ℕ) (p : StartupParameter), ps[k]? = some p →
        Headed (p.placed (start + startupParameterSize * k) (records k))) →
      (∃ gs, (setParameters tg (updates inputs start records grow ps) true).plan =
          .ok (.transaction gs) ∧
        ((∀ i ∈ tg.inputs, i.parameter = true → (tg.descriptor i.node).prepareParameters = true) →
          ∀ n ∈ gs.map Prod.fst, tg.prepares .parameters n = true)) ∨
      ((setParameters tg (updates inputs start records grow ps) true).plan =
          .error (-eNoMem) ∧ ∃ k, grow k = false) := by
  have hcollected := startupRounds_collected hps
  have hlength : ps.length = items.length := by
    rw [startupRounds_length hps, length_nil, Nat.zero_add]
  refine ⟨fun hnil => if_pos hnil, fun hne => ?_, fun records hheaded => ?_⟩
  · have hne' : ps ≠ [] := by
      rintro rfl
      exact hne (eq_nil_of_length_eq_zero hlength.symm)
    have hupdates : (updates inputs start (fun _ => (0, [])) grow ps).length = ps.length :=
      length_mapIdx
    have hnil : updates inputs start (fun _ => (0, [])) grow ps ≠ [] := by
      rw [← length_pos_iff, hupdates]
      exact length_pos_iff.mpr hne'
    have hplan := plan_bare hnodes hg hinputs htg hcollected hmapped grow hne'
    unfold configureStartupParameters
    rw [if_neg hne, if_neg (Nat.not_lt.mpr hcount)]
    dsimp only
    rw [hps]
    change Except.ok (some (setParameters tg _ true)) = _
    rw [setParameters, hplan, if_neg hnil, hupdates, hlength,
      if_neg (Nat.not_lt.mpr hcount)]
    rfl
  · unfold setParameters
    dsimp only
    rw [if_pos rfl]
    rcases plan_headed hnodes hg hinputs htg hcollected hmapped grow (hlength ▸ hcount) hheaded with
      ⟨gs, hok, hhas⟩ | ⟨herr, hgrow⟩
    · left
      rw [hok]
      exact ⟨gs, rfl, fun hdescriptor n hn => prepares_of_hasParameter hdescriptor (hhas n hn)⟩
    · right
      rw [herr]
      exact ⟨rfl, hgrow⟩

end Call

/-! ### A graph with one parameter -/

/-- A parameter with four bytes. -/
def wordParameter : Port := { wordPort with optional := true, parameter := true }

/-- A node with this parameter and one output. -/
def parameterInfos : List PortInfo :=
  [⟨portInfoSize, 0, directionInput, 3, "in", [], 0, .ok wordPort.format, none⟩,
    ⟨portInfoSize, 1, directionOutput, 0, "out", [], 0, .ok wordPort.format, none⟩]

/-- A graph of this node alone. -/
def parameterConfig : Config := ⟨[⟨[wordParameter], [wordPort]⟩], [], none, none⟩

/-- The graph of `parameterConfig`. -/
def parameterGraph : FilterGraph.Graph := ⟨parameterConfig.nodes, [], [(0, 0)], [(0, 0)], [0]⟩

/-- The same graph, as transactions see it. The descriptor has every callback. -/
def parameterNodes : Transaction.Graph where
  nodes := [0]
  order := [0]
  descriptor _ := ⟨true, true, true, true, true, true, true, true⟩
  inputs := [⟨0, true, 0⟩]
  whole _ := rfl
  parameter_able _ _ _ := rfl

/-- A file of four bytes. -/
def wordFile : File := ⟨.ok ⟨⟩, .ok (true, 4), .ok 8192⟩

theorem word_mapped : Mapped 4096 [⟨0, 4, 8192⟩] := by
  refine ⟨by decide, fun p hp => ?_⟩
  rw [mem_singleton.mp hp]
  decide

/-- **A value that matches its port is refused.** -/
theorem startup_parameter_refused :
    [(true, parameterInfos)].mapM (fun i => loadPorts i.1 i.2) = .ok parameterConfig.nodes ∧
    graphNew parameterConfig = .ok parameterGraph ∧
    [("n:in", "f")].foldlM (startupRound [⟨"n", "in", wordParameter⟩] fun _ _ => wordFile) [] =
      .ok [⟨0, 4, 8192⟩] ∧ Mapped 4096 [⟨0, 4, 8192⟩] ∧
    configureStartupParameters parameterNodes [⟨"n", "in", wordParameter⟩] (fun _ _ => wordFile)
      (some 4096) (fun _ => true) true [("n:in", "f")] =
      .ok (some ⟨.parameters, none, .error (-eInval)⟩) := by
  exact ⟨by decide +kernel, by decide +kernel, rfl, word_mapped, rfl⟩

/-- A header in memory of its own. -/
def separateHeader : Metadata := (16384, [⟨metaHeader, 32, 16448, List.replicate 32 0⟩])

/-- With a header the value comes to its plugin. -/
theorem startup_parameters_headed :
    Headed ((⟨0, 4, 8192⟩ : StartupParameter).placed 4096 separateHeader) ∧
    ∃ gs, (setParameters parameterNodes
        (updates [⟨"n", "in", wordParameter⟩] 4096 (fun _ => separateHeader) (fun _ => true)
          [⟨0, 4, 8192⟩]) true).plan = .ok (.transaction gs) ∧
      ∀ n ∈ gs.map Prod.fst, parameterNodes.prepares .parameters n = true := by
  have hheaded : Headed ((⟨0, 4, 8192⟩ : StartupParameter).placed 4096 separateHeader) := by
    constructor
    · decide
    · exact ⟨_, mem_singleton_self _, rfl⟩
    · decide
    · decide
  refine ⟨hheaded, ?_⟩
  have hnodes : [(true, parameterInfos)].mapM (fun i => loadPorts i.1 i.2) =
      .ok parameterConfig.nodes := by decide +kernel
  have hg : graphNew parameterConfig = .ok parameterGraph := by decide +kernel
  have hps : [("n:in", "f")].foldlM
      (startupRound [⟨"n", "in", wordParameter⟩] fun _ _ => wordFile) [] = .ok [⟨0, 4, 8192⟩] := rfl
  have hall : ∀ (k : ℕ) (p : StartupParameter), [⟨0, 4, 8192⟩][k]? = some p →
      Headed (p.placed (4096 + startupParameterSize * k) separateHeader) := by
    intro k p hp
    cases k with
    | zero =>
      cases hp
      exact hheaded
    | succ k => cases hp
  have htg : parameterNodes.inputs.map Transaction.Input.parameter =
      [⟨"n", "in", wordParameter⟩].map fun q : GraphPort => q.port.parameter := rfl
  rcases (startup_parameters hnodes hg rfl htg (by decide) hps word_mapped fun _ => true).2.2
    (fun _ => separateHeader) hall with ⟨gs, hplan, hprepares⟩ | ⟨-, k, hk⟩
  · exact ⟨gs, hplan, hprepares fun _ _ _ => rfl⟩
  · cases hk

end PipeWireAO.FilterChain
