import PipeWireAO.FilterGraph.Graph

/-!
# The ports of a node

`load_node` takes the ports of a node from the descriptor of its plugin, asks the instance for the
format and the metadata of each one, and computes the sizes of the buffers. A port is refused if
its description is not complete, clashes with an earlier one, or has no size.
-/

namespace PipeWireAO.FilterGraph

open List

/-! ## Sizes -/

/-- `spa_element_type_size`. -/
def elementTypeSize (type : ℕ) : ℕ :=
  if type ∈ [1, 2, 3, 12, 13, 14, 15] then 1
  else if type ∈ [4, 5, 16, 17] then 2
  else if type ∈ [6, 7, 18, 21, 22] then 4
  else if type ∈ [8, 9, 19, 23] then 8
  else if type ∈ [10, 11, 20, 24] then 16
  else if type = 25 then 32
  else 0

/-- `SPA_NDARRAY_MAX_DIMENSIONS`. -/
def maxDimensions : ℕ := 64

/-- The loop of `format_size`, after `elements` elements. -/
def formatElements (elements : ℕ) : List ℕ → Except Int ℕ
  | [] => .ok elements
  | d :: shape =>
    if d = 0 ∨ 2 ^ 31 - 1 < d then .error (-eInval)
    else if 2 ^ 64 ≤ elements * d then .error (-eOverflow)
    else formatElements (elements * d) shape

def formatSize (f : Format) : Except Int ℕ :=
  if f.shape = [] ∨ maxDimensions < f.shape.length then .error (-eInval)
  else if f.layout ≠ 1 ∧ f.layout ≠ 2 then .error (-eInval)
  else if ¬ (f.rateNum = 0 ↔ f.rateDenom = 0) then .error (-eInval)
  else if elementTypeSize f.elementType = 0 then .error (-eInval)
  else
    match formatElements 1 f.shape with
    | .error res => .error res
    | .ok elements =>
      let bytes := elements * elementTypeSize f.elementType
      if 2 ^ 32 - 1 < bytes then .error (-eOverflow) else .ok bytes

theorem formatElements_pos {shape : List ℕ} {e n : ℕ} (he : 0 < e)
    (h : formatElements e shape = .ok n) : 0 < n := by
  induction shape generalizing e with
  | nil =>
    cases h
    exact he
  | cons d shape ih =>
    rw [formatElements] at h
    split_ifs at h with hd _
    apply ih _ h
    apply Nat.mul_pos he
    exact Nat.pos_of_ne_zero fun h => hd (.inl h)

/-- **An array has bytes.** -/
theorem formatSize_pos {f : Format} {n : ℕ} (h : formatSize f = .ok n) : 0 < n := by
  unfold formatSize at h
  split_ifs at h with _ _ _ hsize
  split at h
  · cases h
  · rename_i elements helements
    dsimp only at h
    split_ifs at h
    cases h
    apply Nat.mul_pos (formatElements_pos Nat.one_pos helements)
    exact Nat.pos_of_ne_zero hsize

/-! ## Loading -/

/-- `struct spa_fgn_port_info`, with the answers of the instance: `format` is what
`get_port_format` answers, and `metadata` what `get_port_metadata` does, if there is one. -/
structure PortInfo where
  (structSize index direction flags : ℕ)
  name : String
  metas : List Requirement
  propagation : ℕ
  format : Except Int Format
  metadata : Option (Except Int (List Requirement))

/-- `sizeof (struct spa_fgn_port_info)`. -/
def portInfoSize : ℕ := 40

/-- `SPA_FGN_LOCAL_NAME_MAX`. -/
def localNameMax : ℕ := 255

/-- `SPA_DIRECTION_INPUT`. -/
def directionInput : ℕ := 0

/-- `SPA_DIRECTION_OUTPUT`. -/
def directionOutput : ℕ := 1

/-- `SPA_FGN_PORT_FLAG_OPTIONAL`. -/
def PortInfo.optional (i : PortInfo) : Bool := i.flags.testBit 0

/-- `SPA_FGN_PORT_FLAG_PARAMETER`. -/
def PortInfo.parameter (i : PortInfo) : Bool := i.flags.testBit 1

/-- `SPA_FGN_PORT_FLAG_CONDITIONAL`. -/
def PortInfo.conditional (i : PortInfo) : Bool := i.flags.testBit 2

/-- The description of a port is complete; `preparesParameter` says whether the descriptor has
`prepare_parameter`. -/
def PortInfo.complete (preparesParameter : Bool) (i : PortInfo) : Bool :=
  portInfoSize ≤ i.structSize && i.name ≠ "" && i.name.utf8ByteSize ≤ localNameMax &&
    i.flags < 8 && (!i.conditional || i.direction = directionOutput) &&
    (!i.parameter || (i.direction = directionInput && i.optional && preparesParameter)) &&
    (i.direction = directionInput || i.direction = directionOutput)

/-- The loop over the metadata of a port, after the records `earlier` of `bytes` bytes. -/
def checkRequirements (earlier : List Requirement) (bytes : ℕ) :
    List Requirement → Except Int Unit
  | [] => .ok ()
  | r :: rest =>
    if r.type = metaHeader ∨ r.reserved ≠ 0 ∨ 1 < r.flags ∨
        recordLayoutValidate r.type r.size maxBytes = false ∨
        maxBytes - bytes < roundUp8 r.size then .error (-eInval)
    else if earlier.any (·.type = r.type) then .error (-eExist)
    else checkRequirements (r :: earlier) (bytes + roundUp8 r.size) rest

/-- The loop of `prepare_port_metadata`, after the records `earlier`. -/
def checkMetadata (declared : List Requirement) (earlier : List Requirement) :
    List Requirement → Except Int Unit
  | [] => .ok ()
  | r :: rest =>
    if earlier.any (·.type = r.type) then .error (-eExist)
    else
      match declared.reverse.find? (·.type = r.type) with
      | none => .error (-eInval)
      | some d =>
        if r.size ≠ d.size ∨ r.reserved ≠ 0 ∨ 1 < r.flags ∨ r.flags &&& d.flags ≠ d.flags then
          .error (-eInval)
        else checkMetadata declared (r :: earlier) rest

/-- `prepare_port_metadata`: the metadata of the instance, or of the descriptor. -/
def preparePortMetadata (i : PortInfo) : Except Int (List Requirement) :=
  match i.metadata with
  | none => .ok i.metas
  | some (.error res) => .error res
  | some (.ok metas) =>
    if maxRecords ≤ metas.length ∨ metas.length ≠ i.metas.length then .error (-eInval)
    else (checkMetadata i.metas [] metas).map fun _ => metas

/-- A round of the loop over the ports in `load_node`, after the ports `earlier`. -/
def loadPort (preparesParameter : Bool) (earlier : List PortInfo) (i : PortInfo) :
    Except Int Port := do
  if !i.complete preparesParameter then throw (-eInval)
  if earlier.any (fun e => e.index = i.index || e.name = i.name) then throw (-eExist)
  if maxRecords ≤ i.metas.length ∨ 3 < i.propagation then throw (-eInval)
  checkRequirements [] 32 i.metas
  let metas ← preparePortMetadata i
  let format ← i.format
  let payloadSize ← formatSize format
  return ⟨i.optional, i.parameter, i.conditional, format, payloadSize,
    elementTypeSize format.elementType, metas⟩

/-- The loop over the ports in `load_node`: the ports with their descriptions. -/
def loadPortList (preparesParameter : Bool) (earlier : List PortInfo) :
    List PortInfo → Except Int (List (PortInfo × Port))
  | [] => .ok []
  | i :: rest => do
    let port ← loadPort preparesParameter earlier i
    let ports ← loadPortList preparesParameter (i :: earlier) rest
    return (i, port) :: ports

/-- An output that preserves metadata (`SPA_META_PROPAGATION_PRESERVE`) has every record of the
inputs that the transport does not own. -/
def preserves (ports : List (PortInfo × Port)) : Bool :=
  ports.all fun (o, output) =>
    o.direction ≠ directionOutput || o.propagation ≠ 1 ||
      ports.all fun (i, input) =>
        i.direction ≠ directionInput || input.parameter ||
          input.metas.all fun r =>
            transportOwned r.type || output.metas.any fun d => d.type = r.type && d.size = r.size

/-- The bytes of a row fit the stride of a chunk, as `storage_init` demands. -/
def strideFits (f : Format) : Bool :=
  (if f.layout = 1 then f.shape.getLast?.getD 0 else f.shape.head?.getD 0) *
    elementTypeSize f.elementType ≤ 2 ^ 31 - 1

/-- The ports of a node in `load_node`. -/
def loadPorts (preparesParameter : Bool) (infos : List PortInfo) : Except Int Node := do
  let ports ← loadPortList preparesParameter [] infos
  if !preserves ports then throw (-eNotSup)
  let node : Node :=
    { inputs := (ports.filter (·.1.direction = directionInput)).map Prod.snd
      outputs := (ports.filter (·.1.direction ≠ directionInput)).map Prod.snd }
  if !node.outputs.all (strideFits ·.format) then throw (-eOverflow)
  return node

/-! ## The sizes of a port -/

/-- The sizes of a port are those of its format. -/
def Port.Sized (p : Port) : Prop :=
  formatSize p.format = .ok p.payloadSize ∧ p.elementSize = elementTypeSize p.format.elementType

variable {b : Bool} {earlier : List PortInfo} {i : PortInfo} {metas : List Requirement}

/-- What a round of the loop has checked. -/
structure PortChecked (b : Bool) (earlier : List PortInfo) (i : PortInfo) (p : Port) : Prop where
  complete : i.complete b = true
  fresh : earlier.any (fun e => e.index = i.index || e.name = i.name) = false
  count : i.metas.length < maxRecords
  requirements : checkRequirements [] 32 i.metas = .ok ()
  metas : preparePortMetadata i = .ok p.metas
  sized : p.Sized

theorem loadPort_ok {p : Port} (h : loadPort b earlier i = .ok p) : PortChecked b earlier i p := by
  unfold loadPort at h
  simp only [bind, Except.bind, pure, Except.pure, throw, throwThe, MonadExceptOf.throw] at h
  repeat' split at h
  all_goals cases h
  rename_i hcomplete hfresh hcount _ _ hcheck _ _ hmetas _ _ _ _ _ hsize
  exact ⟨by simpa using hcomplete, by simpa using hfresh,
    Nat.lt_of_not_le fun hle => hcount (.inl hle), hcheck, hmetas, hsize, rfl⟩

theorem loadPortList_mem {infos : List PortInfo}
    {ports : List (PortInfo × Port)} (h : loadPortList b earlier infos = .ok ports) :
    ∀ p ∈ ports, ∃ earlier, loadPort b earlier p.1 = .ok p.2 := by
  induction infos generalizing earlier ports with
  | nil =>
    cases h
    simp
  | cons i infos ih =>
    rw [loadPortList] at h
    cases hport : loadPort b earlier i with
    | error res =>
      rw [hport] at h
      cases h
    | ok port =>
      cases hrest : loadPortList b (i :: earlier) infos with
      | error res =>
        rw [hport, hrest] at h
        cases h
      | ok rest =>
        rw [hport, hrest] at h
        cases h
        intro p hp
        rcases mem_cons.mp hp with rfl | hp
        · exact ⟨earlier, hport⟩
        · exact ih hrest p hp

theorem loadPorts_mem {infos : List PortInfo} {node : Node} (h : loadPorts b infos = .ok node) :
    ∀ p ∈ node.inputs ++ node.outputs, ∃ earlier i, loadPort b earlier i = .ok p := by
  unfold loadPorts at h
  cases hports : loadPortList b [] infos with
  | error res =>
    rw [hports] at h
    cases h
  | ok ports =>
    rw [hports] at h
    simp only [bind, Except.bind, pure, Except.pure] at h
    split_ifs at h
    cases h
    intro p hp
    rw [← map_append] at hp
    obtain ⟨q, hq, rfl⟩ := mem_map.mp hp
    have hq' : q ∈ ports := by
      rcases mem_append.mp hq with hq | hq
      · exact mem_of_mem_filter hq
      · exact mem_of_mem_filter hq
    obtain ⟨earlier, hload⟩ := loadPortList_mem hports q hq'
    exact ⟨earlier, q.1, hload⟩

/-! ## The metadata of a port -/

/-- The metadata of a port: few records of different types, none of which is a header, each with a
layout. -/
structure Declared (metas : List Requirement) : Prop where
  count : metas.length < maxRecords
  requirement : ∀ r ∈ metas, r.type ≠ metaHeader ∧ r.reserved = 0 ∧ r.flags ≤ 1 ∧
    recordLayoutValidate r.type r.size maxBytes = true
  distinct : metas.Pairwise fun r r' => r.type ≠ r'.type

theorem distinct_cons {P : Requirement → Prop} {r : Requirement} {earlier : List Requirement}
    (hr : P r) (hdup : ¬ (earlier.any fun e => e.type = r.type) = true)
    (h : (∀ r' ∈ metas, P r' ∧ ∀ e ∈ r :: earlier, e.type ≠ r'.type) ∧
      metas.Pairwise fun r r' => r.type ≠ r'.type) :
    (∀ r' ∈ r :: metas, P r' ∧ ∀ e ∈ earlier, e.type ≠ r'.type) ∧
      (r :: metas).Pairwise fun r r' => r.type ≠ r'.type := by
  obtain ⟨hall, hpairs⟩ := h
  refine ⟨fun r' hr' => ?_, pairwise_cons.mpr ⟨fun r' hr' => ?_, hpairs⟩⟩
  · rcases mem_cons.mp hr' with rfl | hr'
    · exact ⟨hr, fun e he heq => hdup (any_eq_true.mpr ⟨e, he, decide_eq_true heq⟩)⟩
    · exact ⟨(hall r' hr').1, fun e he => (hall r' hr').2 e (mem_cons_of_mem r he)⟩
  · exact (hall r' hr').2 r mem_cons_self

theorem checkRequirements_ok {bytes : ℕ} (earlier : List Requirement)
    (h : checkRequirements earlier bytes metas = .ok ()) :
    (∀ r ∈ metas, (r.type ≠ metaHeader ∧ r.reserved = 0 ∧ r.flags ≤ 1 ∧
      recordLayoutValidate r.type r.size maxBytes = true) ∧ ∀ e ∈ earlier, e.type ≠ r.type) ∧
    metas.Pairwise fun r r' => r.type ≠ r'.type := by
  induction metas generalizing earlier bytes with
  | nil => exact ⟨nofun, List.Pairwise.nil⟩
  | cons r metas ih =>
    rw [checkRequirements] at h
    split_ifs at h with hbad hdup
    simp only [not_or, Bool.not_eq_false, not_not, Nat.not_lt] at hbad
    obtain ⟨hheader, hreserved, hflags, hlayout, -⟩ := hbad
    exact distinct_cons ⟨hheader, hreserved, hflags, hlayout⟩ hdup (ih (r :: earlier) h)

theorem checkMetadata_ok {declared : List Requirement} (earlier : List Requirement)
    (h : checkMetadata declared earlier metas = .ok ()) :
    (∀ r ∈ metas, (∃ d ∈ declared, d.type = r.type ∧ r.size = d.size ∧ r.reserved = 0 ∧ r.flags ≤ 1) ∧
      ∀ e ∈ earlier, e.type ≠ r.type) ∧ metas.Pairwise fun r r' => r.type ≠ r'.type := by
  induction metas generalizing earlier with
  | nil => exact ⟨nofun, List.Pairwise.nil⟩
  | cons r metas ih =>
    rw [checkMetadata] at h
    split_ifs at h with hdup
    cases hfind : declared.reverse.find? (·.type = r.type) with
    | none =>
      rw [hfind] at h
      cases h
    | some d =>
      rw [hfind] at h
      dsimp only at h
      split_ifs at h with hbad
      simp only [not_or, not_not, Nat.not_lt] at hbad
      have hd : d ∈ declared := mem_reverse.mp (mem_of_find?_eq_some hfind)
      have htype : d.type = r.type := by simpa using find?_some hfind
      exact distinct_cons ⟨d, hd, htype, hbad.1, hbad.2.1, hbad.2.2.1⟩ hdup (ih (r :: earlier) h)

theorem preparePortMetadata_ok (h : preparePortMetadata i = .ok metas) :
    metas = i.metas ∨ metas.length < maxRecords ∧ metas.length = i.metas.length ∧
      checkMetadata i.metas [] metas = .ok () := by
  unfold preparePortMetadata at h
  split at h
  · cases h
    exact .inl rfl
  · cases h
  · rename_i metas' _
    split_ifs at h with hcount
    rw [not_or, Nat.not_le, not_not] at hcount
    cases hcheck : checkMetadata i.metas [] metas' with
    | error res =>
      rw [hcheck] at h
      cases h
    | ok _ =>
      rw [hcheck] at h
      cases h
      exact .inr ⟨hcount.1, hcount.2, hcheck⟩

/-- **The metadata of a port that was loaded** can be checked. -/
theorem loadPort_declared {p : Port} (h : loadPort b earlier i = .ok p) : Declared p.metas := by
  have hchecked := loadPort_ok h
  obtain ⟨hall, hpairs⟩ := checkRequirements_ok [] hchecked.requirements
  rcases preparePortMetadata_ok hchecked.metas with heq | ⟨hcount, -, hcheck'⟩
  · rw [heq]
    exact ⟨hchecked.count, fun r hr => (hall r hr).1, hpairs⟩
  · obtain ⟨hall', hpairs'⟩ := checkMetadata_ok [] hcheck'
    refine ⟨hcount, fun r hr => ?_, hpairs'⟩
    obtain ⟨d, hd, htype, hsize, hreserved, hflags⟩ := (hall' r hr).1
    obtain ⟨hheader, -, -, hlayout⟩ := (hall d hd).1
    exact ⟨htype ▸ hheader, hreserved, hflags, htype ▸ hsize ▸ hlayout⟩

theorem requirementsLoop_of_met {metas : List Meta} {requirements earlier : List Requirement}
    (hall : ∀ r ∈ requirements, (r.reserved = 0 ∧ r.flags ≤ 1 ∧
      recordLayoutValidate r.type r.size maxBytes = true) ∧ requirementMet metas r = true)
    (hpairs : requirements.Pairwise fun r r' => r.type ≠ r'.type)
    (hearlier : ∀ e ∈ earlier, ∀ r ∈ requirements, e.type ≠ r.type) :
    requirementsLoop metas earlier requirements = true := by
  induction requirements generalizing earlier with
  | nil => rfl
  | cons r requirements ih =>
    obtain ⟨hfirst, hpairs⟩ := pairwise_cons.mp hpairs
    obtain ⟨⟨hreserved, hflags, hlayout⟩, hmet⟩ := hall r mem_cons_self
    have hdistinct : earlier.all (·.type ≠ r.type) = true :=
      all_eq_true.mpr fun e he => decide_eq_true (hearlier e he r mem_cons_self)
    have hrest : requirementsLoop metas (r :: earlier) requirements = true := by
      apply ih (fun r' hr' => hall r' (mem_cons_of_mem r hr')) hpairs
      intro e he r' hr'
      rcases mem_cons.mp he with rfl | he
      · exact hfirst r' hr'
      · exact hearlier e he r' (mem_cons_of_mem r hr')
    rw [requirementsLoop, hdistinct, hlayout, hmet, hrest, decide_eq_true hreserved,
      decide_eq_true hflags]
    rfl

/-! ## The ports of a graph -/

section Graph

variable {infos : List (Bool × List PortInfo)} {cfg : Config} {g : Graph} {p : PortId} {port : Port}

theorem port_loaded (hnodes : infos.mapM (fun i => loadPorts i.1 i.2) = .ok cfg.nodes)
    (hg : graphNew cfg = .ok g)
    (hp : inputPort g.nodes p = some port ∨ outputPort g.nodes p = some port) :
    ∃ b earlier i, loadPort b earlier i = .ok port := by
  have hloaded : ∃ node ∈ cfg.nodes, port ∈ node.inputs ++ node.outputs := by
    rw [← (graphNew_spec hg).nodes]
    rcases hp with hp | hp
    · obtain ⟨node, hnode, hport⟩ := Option.bind_eq_some_iff.mp hp
      exact ⟨node, mem_of_getElem? hnode, mem_append_left _ (mem_of_getElem? hport)⟩
    · obtain ⟨node, hnode, hport⟩ := Option.bind_eq_some_iff.mp hp
      exact ⟨node, mem_of_getElem? hnode, mem_append_right _ (mem_of_getElem? hport)⟩
  obtain ⟨node, hnode, hport⟩ := hloaded
  obtain ⟨i, -, hi⟩ := Foundation.mem_of_mapM_ok hnodes hnode
  exact ⟨i.1, loadPorts_mem hi port hport⟩

end Graph

end PipeWireAO.FilterGraph
