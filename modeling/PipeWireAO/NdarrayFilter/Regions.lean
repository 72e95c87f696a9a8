import PipeWireAO.FilterGraph.Ownership

/-!
# The memory of an ndarray filter

The filter of the client library makes the same check as the graph before it calls the owner, with
more to compare: a buffer of the filter also has a `struct pw_buffer`, and inputs are compared with
each other and with themselves, not only with the outputs.
-/

namespace PipeWireAO.NdarrayFilter

open FilterGraph List
open Foundation (Block SharedWith SharedWithin sharedWith_iff sharedWith_comm Detects refuse
  bind_eq_ok forall₂_of_mapM_ok exists_lt_of_mem_take mem_take_of_lt)

variable {P : Type*}

/-! ## The buffers of a cycle -/

/-- A buffer at a port: the address of its `struct pw_buffer`, the size of an element of the port,
and the buffer it points to. The size of the payload is the one of the port. -/
structure PortBuffer (P : Type*) where
  (address elementSize : ℕ)
  content : PlacedBuffer P

def PortBuffer.payload (b : PortBuffer P) : ℕ := b.content.buffer.data + b.content.buffer.offset

/-- The blocks of memory of a buffer: the `struct pw_buffer`, and those of the buffer. -/
def PortBuffer.blocks (b : PortBuffer P) : List Block := ⟨b.address, 40⟩ :: b.content.blocks

/-- The buffers of `process`: an input may be unavailable. The views for the owner are in two arrays. -/
structure Cycle (P : Type*) where
  (processInputs processOutputs : ℕ)
  inputs : List (Option (PortBuffer P))
  outputs : List (PortBuffer P)

/-- The two arrays, with 40 bytes for each `struct pw_ndarray_filter_buffer`. -/
def Cycle.inputViews (c : Cycle P) : Block := ⟨c.processInputs, c.inputs.length * 40⟩

@[inherit_doc Cycle.inputViews]
def Cycle.outputViews (c : Cycle P) : Block := ⟨c.processOutputs, c.outputs.length * 40⟩

/-- The ports, in the order of their regions. -/
def Cycle.ports (c : Cycle P) : List (Option (PortBuffer P)) := c.inputs ++ c.outputs.map some

/-- The blocks of a port, which has none when it has no buffer. -/
def portBlocks : Option (PortBuffer P) → List Block
  | none => []
  | some b => b.blocks

/-! ## The regions of a buffer -/

/-- The loop over the records in `collect_buffer_regions`, after the records `earlier` of `bytes`
bytes. -/
def metasLoop : List Meta → ℕ → List Meta → Except Int PUnit
  | _, _, [] => .ok ⟨⟩
  | earlier, bytes, m :: rest => do
    refuse ((m.size ≠ 0 ∧ m.data = 0) ∨ maxBytes < m.size ∨ maxBytes - m.size < bytes) (-eInval)
    refuse (earlier.any (·.type = m.type) = true) (-eExist)
    refuse (m.type = metaHeader ∧ (m.size < 32 ∨ m.data % 8 ≠ 0)) (-eInval)
    refuse (m.type = 11 ∨ m.type = 12 ∨ m.type = 13 ∨
      (recordSize m.type ≠ 0 ∧ m.size ≠ recordSize m.type) ∨ (m.size ≠ 0 ∧ m.data % 8 ≠ 0))
      (-eNotSup)
    metasLoop (m :: earlier) (bytes + m.size) rest

/-- The checks of `collect_buffer_regions`. -/
def checkPortBuffer (output : Bool) (p : PortBuffer P) : Except Int PUnit := do
  let b := p.content.buffer
  refuse (p.address = 0 ∨ p.content.address = 0 ∨ b.nDatas ≠ 1 ∨ b.datas = 0 ∨ b.datas % 8 ≠ 0 ∨
    maxRecords < b.metas.length ∨ (b.metas ≠ [] ∧ (b.metasAt = 0 ∨ b.metasAt % 8 ≠ 0))) (-eInval)
  refuse (b.data = 0 ∨ b.chunk = 0 ∨ b.chunk % 4 ≠ 0 ∨ b.maxsize ≤ b.offset ∨
    b.maxsize - b.offset < p.content.payloadSize ∨ uintptrMax - b.offset < b.data) (-eNoSpc)
  refuse (p.payload % p.elementSize ≠ 0) (-eInval)
  refuse (output = false ∧ (b.size < p.content.payloadSize ∨ b.maxsize - b.offset < b.size))
    (-eMsgSize)
  metasLoop [] 0 b.metas
  refuse (recordsLayoutValidate b.metasAt b.metas = false) (-eInval)

/-- `collect_buffer_regions`. -/
def collectPortRegions (output : Bool) (p : PortBuffer P) : Except Int (List Region) := do
  checkPortBuffer output p
  p.blocks.mapM memoryRegionInit

/-- The regions of an input, which has none when it is unavailable. -/
def collectInput : Option (PortBuffer P) → Except Int (List Region)
  | none => .ok []
  | some p => collectPortRegions false p

/-- The two loops of `process` that fill the table of regions. -/
def Cycle.collect (c : Cycle P) : Except Int (List (List Region)) := do
  let inputs ← c.inputs.mapM collectInput
  let outputs ← c.outputs.mapM (collectPortRegions true)
  return inputs ++ outputs

/-- The first loop of `validate_regions`, over the regions of one port. -/
def validateRegion (views rs : List Region) (r : Region) (first : ℕ) : Except Int PUnit := do
  refuse (views.any (memoryRegionsOverlap r) = true) (-eInval)
  refuse ((rs.take first).any (memoryRegionsOverlap r) = true) (-eInval)

/-- The checks of the port with the number `i`. -/
def validatePort (views : List Region) (table : List (List Region)) (rs : List Region) (i : ℕ) :
    Except Int PUnit := do
  rs.zipIdx.forM fun (r, first) => validateRegion views rs r first
  refuse ((table.take i).any (regionsOverlap rs) = true) (-eInval)

def validateRegions (c : Cycle P) (table : List (List Region)) : Except Int PUnit := do
  let inputViews ← memoryRegionInit c.inputViews
  let outputViews ← memoryRegionInit c.outputViews
  table.zipIdx.forM fun (rs, i) => validatePort [inputViews, outputViews] table rs i

/-! ## The check detects shared bytes -/

/-- The table has the regions of every port. -/
abbrev TableOf (c : Cycle P) (table : List (List Region)) : Prop :=
  List.Forall₂ (fun p rs => RegionsOf (portBlocks p) rs) c.ports table

variable {rs views : List Region} {table : List (List Region)} {c : Cycle P}
  {p : Option (PortBuffer P)}

theorem collectPortRegions_ok {output : Bool} {p : PortBuffer P}
    (h : collectPortRegions output p = .ok rs) : RegionsOf p.blocks rs := by
  obtain ⟨_, _, h⟩ := bind_eq_ok.mp h
  exact forall₂_of_mapM_ok h

theorem collectInput_ok (h : collectInput p = .ok rs) : RegionsOf (portBlocks p) rs := by
  cases p with
  | none =>
    cases h
    exact .nil
  | some p => exact collectPortRegions_ok h

theorem Cycle.collect_ok (h : c.collect = .ok table) : TableOf c table := by
  obtain ⟨ins, hins, h⟩ := bind_eq_ok.mp h
  obtain ⟨outs, houts, h⟩ := bind_eq_ok.mp h
  cases h
  apply rel_append
  · have hall := forall₂_of_mapM_ok hins
    exact hall.imp fun _ _ => collectInput_ok
  · have hall := forall₂_of_mapM_ok houts
    rw [forall₂_map_left_iff]
    exact hall.imp fun _ _ => collectPortRegions_ok

/-- **Two things of a cycle share a byte**: a byte of the buffer of a port is also one of another
part of it, of one of the arrays of views, or of the buffer of another port. -/
def RegionShared (c : Cycle P) : Prop :=
  ∃ (i : ℕ) (b : PortBuffer P), c.ports[i]? = some (some b) ∧
    (SharedWithin b.blocks ∨ SharedWith b.blocks [c.inputViews, c.outputViews] ∨
      ∃ (j : ℕ) (b' : PortBuffer P), j ≠ i ∧ c.ports[j]? = some (some b') ∧
        SharedWith b.blocks b'.blocks)

theorem validateLoop_detects {bs vs : List Block} (h : RegionsOf bs rs) (hv : RegionsOf vs views) :
    Detects (-eInval) (rs.zipIdx.forM fun (r, first) => validateRegion views rs r first)
      (SharedWith bs vs ∨ SharedWithin bs) := by
  refine Detects.congr (Detects.forM fun p _ => (Detects.refuse _).seq (Detects.refuse _)) ?_
  rw [← regions_overlap_iff h hv, ← regions_selfOverlap_iff h]
  simp only [and_or_left, exists_or]
  apply or_congr
  · rw [regionsOverlap, any_eq_true]
    constructor
    · rintro ⟨⟨r, i⟩, hmem, hany⟩
      exact ⟨r, mem_of_getElem? (mem_zipIdx_iff_getElem?.mp hmem), hany⟩
    · rintro ⟨r, hr, hany⟩
      obtain ⟨i, hi⟩ := mem_iff_getElem?.mp hr
      exact ⟨(r, i), mem_zipIdx_iff_getElem?.mpr hi, hany⟩
  · rw [regionsSelfOverlap, any_eq_true]

/-- What the checks of one port look for. -/
def SharedBefore (c : Cycle P) (p : Option (PortBuffer P)) (i : ℕ) : Prop :=
  (SharedWith (portBlocks p) [c.inputViews, c.outputViews] ∨ SharedWithin (portBlocks p)) ∨
    ∃ q ∈ c.ports.take i, SharedWith (portBlocks p) (portBlocks q)

theorem TableOf.any_take (ht : TableOf c table) {bs : List Block} (h : RegionsOf bs rs) (i : ℕ) :
    (table.take i).any (regionsOverlap rs) = true ↔
      ∃ q ∈ c.ports.take i, SharedWith bs (portBlocks q) := by
  have htake := forall₂_take i ht
  rw [any_eq_true]
  generalize table.take i = qs, c.ports.take i = ps at htake
  induction htake with
  | nil => simp
  | cons hq _ ih =>
    simp only [mem_cons, exists_eq_or_imp]
    exact or_congr (regions_overlap_iff h hq) ih

theorem validatePort_detects (ht : TableOf c table)
    (hv : RegionsOf [c.inputViews, c.outputViews] views) (h : RegionsOf (portBlocks p) rs) (i : ℕ) :
    Detects (-eInval) (validatePort views table rs i) (SharedBefore c p i) :=
  (validateLoop_detects h hv).seq ((Detects.refuse _).congr (ht.any_take h i))

theorem sharedBefore_iff :
    (∃ (i : ℕ) (p : Option (PortBuffer P)), c.ports[i]? = some p ∧ SharedBefore c p i) ↔
      RegionShared c := by
  constructor
  · rintro ⟨i, p, hp, hshared⟩
    cases p with
    | none => simp [SharedBefore, portBlocks, SharedWith, SharedWithin] at hshared
    | some b =>
      refine ⟨i, b, hp, ?_⟩
      rcases hshared with (hviews | hself) | ⟨q, hq, hshared⟩
      · exact .inr (.inl hviews)
      · exact .inl hself
      · obtain ⟨j, hlt, hj⟩ := exists_lt_of_mem_take hq
        cases q with
        | none => simp [portBlocks, SharedWith] at hshared
        | some b' => exact .inr (.inr ⟨j, b', by omega, hj, hshared⟩)
  · rintro ⟨i, b, hb, hself | hviews | ⟨j, b', hne, hb', hshared⟩⟩
    · exact ⟨i, some b, hb, .inl (.inr hself)⟩
    · exact ⟨i, some b, hb, .inl (.inl hviews)⟩
    · rcases Nat.lt_or_gt_of_ne hne with hlt | hlt
      · exact ⟨i, some b, hb, .inr ⟨some b', mem_take_of_lt hlt hb', hshared⟩⟩
      · exact ⟨j, some b', hb',
          .inr ⟨some b, mem_take_of_lt hlt hb, sharedWith_comm.mp hshared⟩⟩

/-- **The check detects shared bytes, and nothing else.** -/
theorem validateRegions_detects (h : c.collect = .ok table) :
    Detects (-eInval) (validateRegions c table) (RegionShared c) := by
  have ht := Cycle.collect_ok h
  apply Detects.bind memoryRegionInit_ne
  intro iv hiv
  apply Detects.bind memoryRegionInit_ne
  intro ov hov
  have hv : RegionsOf [c.inputViews, c.outputViews] [iv, ov] := .cons hiv (.cons hov .nil)
  have hport (i : ℕ) {p : Option (PortBuffer P)} {rs : List Region} (hp : c.ports[i]? = some p)
      (hrs : table[i]? = some rs) : RegionsOf (portBlocks p) rs := by
    obtain ⟨hi, rfl⟩ := List.getElem?_eq_some_iff.mp hp
    obtain ⟨hi', rfl⟩ := List.getElem?_eq_some_iff.mp hrs
    exact (forall₂_iff_get.mp ht).2 i hi hi'
  have hlen := ht.length_eq
  have hall : ∀ q ∈ table.zipIdx, Detects (-eInval) (validatePort [iv, ov] table q.1 q.2)
      (∃ p, c.ports[q.2]? = some p ∧ SharedBefore c p q.2) := by
    rintro ⟨rs, i⟩ hmem
    have hrs : table[i]? = some rs := mem_zipIdx_iff_getElem?.mp hmem
    obtain ⟨p, hp⟩ : ∃ p, c.ports[i]? = some p := by
      obtain ⟨hi, -⟩ := List.getElem?_eq_some_iff.mp hrs
      exact ⟨_, getElem?_eq_getElem (hlen ▸ hi)⟩
    refine (validatePort_detects ht hv (hport i hp hrs) i).congr ?_
    constructor
    · exact fun hs => ⟨p, hp, hs⟩
    · rintro ⟨p', hp', hs⟩
      cases hp.symm.trans hp'
      exact hs
  refine (Detects.forM hall).congr (Iff.trans ?_ sharedBefore_iff)
  constructor
  · rintro ⟨⟨rs, i⟩, -, p, hp, hs⟩
    exact ⟨i, p, hp, hs⟩
  · rintro ⟨i, p, hp, hs⟩
    obtain ⟨hi, -⟩ := List.getElem?_eq_some_iff.mp hp
    have hrs : table[i]? = some table[i] := getElem?_eq_getElem (hlen ▸ hi)
    exact ⟨(table[i], i), mem_zipIdx_iff_getElem?.mpr hrs, p, hp, hs⟩

/-! ## Both checks -/

/-- **The checks of ownership are sound and exact**: the graph, for buffers that passed
`validate_buffer`, and the filter, for buffers whose regions could be collected, accept only what
shares no byte, and refuse only what shares one. -/
theorem ownership_exact (o : Ownership P) (ho : o.Checked) (c : Cycle P)
    (table : List (List Region)) (hc : c.collect = .ok table) :
    ((validateOutputOwnership o = .ok ⟨⟩ → ¬ OutputShared o) ∧
      (validateOutputOwnership o = .error (-eInval) → OutputShared o)) ∧
      (validateRegions c table = .ok ⟨⟩ → ¬ RegionShared c) ∧
      (validateRegions c table = .error (-eInval) → RegionShared c) := by
  have hgraph := validateOutputOwnership_detects ho
  have hfilter := validateRegions_detects hc
  exact ⟨⟨hgraph.sound, hgraph.exact⟩, hfilter.sound, hfilter.exact⟩

/-- A buffer of four bytes, with its parts from `address` on. -/
def smallBuffer (address payload : ℕ) : PlacedBuffer Unit where
  address := address
  payloadSize := 4
  buffer :=
    { nDatas := 1, datas := address + 0x18, metasAt := address + 0x50
      metas := [⟨metaHeader, 32, address + 0x60, []⟩]
      data := payload, chunk := address + 0x40, maxsize := 4, offset := 0, size := 4, flags := 0
      payload := () }

theorem smallBuffer_checked : (smallBuffer 0x1000 0x2000).Checked ∧
    (smallBuffer 0x3000 0x4000).Checked :=
  ⟨⟨1, false, by decide +kernel⟩, ⟨1, true, by decide +kernel⟩⟩

/-- Two inputs with the same payload, and an output apart from them. -/
def sharedInputs : Cycle Unit where
  processInputs := 0x8000
  processOutputs := 0x9000
  inputs := [some ⟨0x100, 1, smallBuffer 0x1000 0x2000⟩,
    some ⟨0x200, 1, smallBuffer 0x3000 0x2000⟩]
  outputs := [⟨0x300, 1, smallBuffer 0x5000 0x6000⟩]

/-- A byte of an output of the cycle is also a byte of something else. -/
def OutputRegionShared (c : Cycle P) : Prop :=
  ∃ (i : ℕ) (b : PortBuffer P), c.outputs[i]? = some b ∧
    (SharedWithin b.blocks ∨ SharedWith b.blocks [c.inputViews, c.outputViews] ∨
      ∃ (j : ℕ) (b' : PortBuffer P), j ≠ c.inputs.length + i ∧ c.ports[j]? = some (some b') ∧
        SharedWith b.blocks b'.blocks)

/-- The filter also rejects inputs that share a byte, when no byte of an output is shared. -/
theorem sharedInputs_rejected : ∃ table, sharedInputs.collect = .ok table ∧
    validateRegions sharedInputs table = .error (-eInval) ∧ ¬ OutputRegionShared sharedInputs := by
  refine ⟨_, rfl, rfl, ?_⟩
  rintro ⟨i, b, hb, hshared⟩
  match i, hb with
  | 0, hb =>
    cases hb
    rcases hshared with hself | hviews | ⟨j, b', hne, hb', hshared⟩
    · exact absurd hself (by decide +kernel)
    · exact absurd hviews (by decide +kernel)
    · match j, hb' with
      | 0, hb' | 1, hb' =>
        cases hb'
        exact absurd hshared (by decide +kernel)
      | 2, _ => exact hne rfl

/-- A graph with an input and an output that lie apart. -/
def apartGraph : Ownership Unit where
  inputsAt := 0x8000
  inputs := [some (smallBuffer 0x1000 0x2000), none]
  outputsAt := 0x9000
  outputs := [smallBuffer 0x3000 0x4000]
  nodes := [⟨0xa000, 1, 0xb000, 1⟩]

/-- A filter with the same buffers. -/
def apartCycle : Cycle Unit where
  processInputs := 0x8000
  processOutputs := 0x9000
  inputs := [some ⟨0x100, 1, smallBuffer 0x1000 0x2000⟩, none]
  outputs := [⟨0x200, 1, smallBuffer 0x3000 0x4000⟩]

theorem apartGraph_checked : apartGraph.Checked where
  inputs b hb := by
    cases mem_singleton.mp (hb : b ∈ [smallBuffer 0x1000 0x2000])
    exact smallBuffer_checked.1
  outputs b hb := by
    cases mem_singleton.mp hb
    exact smallBuffer_checked.2

theorem ownership_exact_apart : ∃ table, apartGraph.Checked ∧ apartCycle.collect = .ok table ∧
    validateOutputOwnership apartGraph = .ok ⟨⟩ ∧ ¬ OutputShared apartGraph ∧
      validateRegions apartCycle table = .ok ⟨⟩ ∧ ¬ RegionShared apartCycle := by
  refine ⟨_, apartGraph_checked, rfl, rfl, ?_, rfl, ?_⟩
  · exact (ownership_exact apartGraph apartGraph_checked apartCycle _ rfl).1.1 rfl
  · exact (ownership_exact apartGraph apartGraph_checked apartCycle _ rfl).2.1 rfl

end PipeWireAO.NdarrayFilter
