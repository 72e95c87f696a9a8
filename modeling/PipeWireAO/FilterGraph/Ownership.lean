import Mathlib.Data.List.Forall2
import PipeWireAO.FilterGraph.Buffer
import PipeWireAO.Foundation.Block
import PipeWireAO.Foundation.Except

/-!
# Who owns the memory of an output

A plugin writes to the buffers of its outputs. Before a cycle, the graph checks that nothing else is
in their memory: no other part of the same buffer, no other output, no input, and no array that a
cycle reads. It compares address ranges; an address that would leave the word is an error of its own.
-/

namespace PipeWireAO.FilterGraph

open List
open Foundation (Block SharedWith SharedWithin sharedWith_iff sharedWith_comm sharedWithin_iff
  Detects refuse forall₂_of_mapM_ok mapM_error exists_lt_of_mem_take mem_take_of_lt)

/-! ## Regions -/

/-- `struct memory_region`. -/
structure Region where
  (start stop : ℕ)
  deriving DecidableEq

def memoryRegionInit (b : Block) : Except Int Region :=
  if b.length = 0 then .ok ⟨0, 0⟩
  else if b.start = 0 ∨ uintptrMax - b.length < b.start then .error (-eOverflow)
  else .ok ⟨b.start, b.start + b.length⟩

def memoryRegionsOverlap (r q : Region) : Bool :=
  r.start ≠ r.stop && q.start ≠ q.stop && r.start < q.stop && q.start < r.stop

/-- The two loops that compare the regions of two buffers. -/
def regionsOverlap (rs qs : List Region) : Bool :=
  rs.any fun r => qs.any (memoryRegionsOverlap r)

/-- The two loops that compare each region of a buffer with the earlier ones. -/
def regionsSelfOverlap (rs : List Region) : Bool :=
  rs.zipIdx.any fun (r, i) => (rs.take i).any (memoryRegionsOverlap r)

theorem memoryRegionsOverlap_iff {b c : Block} {r q : Region} (hr : memoryRegionInit b = .ok r)
    (hq : memoryRegionInit c = .ok q) :
    memoryRegionsOverlap r q = true ↔ ∃ a, a ∈ b.bytes ∧ a ∈ c.bytes := by
  rw [Block.exists_byte_iff]
  unfold memoryRegionInit at hr hq
  split_ifs at hr with hb
  · cases hr
    simp [memoryRegionsOverlap, hb]
  · cases hr
    split_ifs at hq with hc
    · cases hq
      simp [memoryRegionsOverlap, hc]
    · cases hq
      simp [memoryRegionsOverlap, hb, hc]

abbrev RegionsOf (bs : List Block) (rs : List Region) : Prop :=
  List.Forall₂ (fun b r => memoryRegionInit b = .ok r) bs rs

variable {bs : List Block} {rs : List Region}

theorem RegionsOf.mem (h : RegionsOf bs rs) {r : Region}
    (hr : r ∈ rs) : ∃ b ∈ bs, memoryRegionInit b = .ok r := by
  obtain ⟨i, hi, rfl⟩ := mem_iff_getElem.mp hr
  have hlen := h.length_eq
  exact ⟨bs[i], getElem_mem _, (forall₂_iff_get.mp h).2 i (by omega) hi⟩

theorem RegionsOf.exists_region (h : RegionsOf bs rs)
    {b : Block} (hb : b ∈ bs) : ∃ r ∈ rs, memoryRegionInit b = .ok r := by
  obtain ⟨i, hi, rfl⟩ := mem_iff_getElem.mp hb
  have hlen := h.length_eq
  exact ⟨rs[i], getElem_mem _, (forall₂_iff_get.mp h).2 i hi (by omega)⟩

/-- **Regions of two lists overlap exactly when the blocks share a byte.** -/
theorem regions_overlap_iff {cs : List Block} {qs : List Region} (hr : RegionsOf bs rs)
    (hq : RegionsOf cs qs) : regionsOverlap rs qs = true ↔ SharedWith bs cs := by
  rw [sharedWith_iff, regionsOverlap, any_eq_true]
  constructor
  · rintro ⟨r, hr', hany⟩
    obtain ⟨q, hq', hover⟩ := any_eq_true.mp hany
    obtain ⟨b, hb, hbr⟩ := hr.mem hr'
    obtain ⟨c, hc, hcq⟩ := hq.mem hq'
    exact ⟨b, hb, c, hc, (memoryRegionsOverlap_iff hbr hcq).mp hover⟩
  · rintro ⟨b, hb, c, hc, hbyte⟩
    obtain ⟨r, hr', hbr⟩ := hr.exists_region hb
    obtain ⟨q, hq', hcq⟩ := hq.exists_region hc
    exact ⟨r, hr', any_eq_true.mpr ⟨q, hq', (memoryRegionsOverlap_iff hbr hcq).mpr hbyte⟩⟩

/-- **Regions of one list overlap exactly when two of its blocks share a byte.** -/
theorem regions_selfOverlap_iff (h : RegionsOf bs rs) :
    regionsSelfOverlap rs = true ↔ SharedWithin bs := by
  have htake (i : ℕ) : RegionsOf (bs.take i) (rs.take i) := forall₂_take i h
  rw [sharedWithin_iff, regionsSelfOverlap, any_eq_true]
  constructor
  · rintro ⟨⟨r, i⟩, hmem, hany⟩
    have hr : rs[i]? = some r := mem_zipIdx_iff_getElem?.mp hmem
    obtain ⟨hi, rfl⟩ := List.getElem?_eq_some_iff.mp hr
    have hlen := h.length_eq
    obtain ⟨q, hq, hover⟩ := any_eq_true.mp hany
    obtain ⟨c, hc, hcq⟩ := (htake i).mem hq
    have hbr := (forall₂_iff_get.mp h).2 i (by omega) hi
    exact ⟨i, bs[i], getElem?_eq_getElem _, c, hc, (memoryRegionsOverlap_iff hbr hcq).mp hover⟩
  · rintro ⟨i, b, hb, c, hc, hbyte⟩
    obtain ⟨hi, rfl⟩ := List.getElem?_eq_some_iff.mp hb
    have hlen := h.length_eq
    have hbr := (forall₂_iff_get.mp h).2 i hi (by omega)
    obtain ⟨q, hq, hcq⟩ := (htake i).exists_region hc
    refine ⟨(rs[i], i), mem_zipIdx_iff_getElem?.mpr (getElem?_eq_getElem _), ?_⟩
    exact any_eq_true.mpr ⟨q, hq, (memoryRegionsOverlap_iff hbr hcq).mpr hbyte⟩

/-! ## The parts of a buffer -/

section Parts

variable {P : Type*}

/-- A buffer, where its descriptor lies, and the size that its port gives the payload. -/
structure PlacedBuffer (P : Type*) where
  address : ℕ
  buffer : Buffer P
  payloadSize : ℕ

/-- The blocks of a buffer whose payload starts at `payload`: the descriptor, the array of data, the
chunk, the array of records, the payload, and the data of each record. -/
def PlacedBuffer.blocksAt (b : PlacedBuffer P) (payload : ℕ) : List Block :=
  [⟨b.address, 24⟩, ⟨b.buffer.datas, 40⟩, ⟨b.buffer.chunk, 16⟩,
    ⟨b.buffer.metasAt, b.buffer.metas.length * 16⟩, ⟨payload, b.payloadSize⟩] ++
    b.buffer.metas.map fun m => ⟨m.data, m.size⟩

def PlacedBuffer.blocks (b : PlacedBuffer P) : List Block :=
  b.blocksAt (b.buffer.data + b.buffer.offset)

/-- `collect_buffer_regions`: the address of the payload is computed in a word. -/
def collectBufferRegions (b : PlacedBuffer P) : Except Int (List Region) :=
  (b.blocksAt ((b.buffer.data + b.buffer.offset) % 2 ^ 64)).mapM memoryRegionInit

def validateBufferNonalias (b : PlacedBuffer P) : Except Int PUnit := do
  let rs ← collectBufferRegions b
  refuse (regionsSelfOverlap rs = true) (-eInval)

/-- `buffers_overlap`, and the `-EINVAL` of its callers. -/
def buffersOverlap (b c : PlacedBuffer P) : Except Int PUnit := do
  let rs ← collectBufferRegions b
  let qs ← collectBufferRegions c
  refuse (regionsOverlap rs qs = true) (-eInval)

/-- `buffer_overlaps_region`, and the `-EINVAL` of its callers. -/
def bufferOverlapsRegion (b : PlacedBuffer P) (area : Block) : Except Int PUnit := do
  let rs ← collectBufferRegions b
  let q ← memoryRegionInit area
  refuse (regionsOverlap rs [q] = true) (-eInval)

/-- The arrays of the descriptors that a node hands to its plugin. -/
structure ProcessArrays where
  (inputs nInputs outputs nOutputs : ℕ)

/-- The two arrays, with 16 bytes for each `struct spa_fgn_buffer`. -/
def ProcessArrays.blocks (n : ProcessArrays) : List Block :=
  [⟨n.inputs, n.nInputs * 16⟩, ⟨n.outputs, n.nOutputs * 16⟩]

/-- What `validate_output_ownership` is given: the pointer arrays with their buffers, where an input
may be absent, and the nodes. -/
structure Ownership (P : Type*) where
  inputsAt : ℕ
  inputs : List (Option (PlacedBuffer P))
  outputsAt : ℕ
  outputs : List (PlacedBuffer P)
  nodes : List ProcessArrays

/-- The arrays that an output is compared with. -/
def Ownership.arrays (o : Ownership P) : List Block :=
  [⟨o.inputsAt, o.inputs.length * 8⟩, ⟨o.outputsAt, o.outputs.length * 8⟩] ++
    o.nodes.flatMap ProcessArrays.blocks

def Ownership.present (o : Ownership P) : List (PlacedBuffer P) := o.inputs.filterMap id

/-- The checks of the output `b` with the number `i`. -/
def validateOutput (o : Ownership P) (b : PlacedBuffer P) (i : ℕ) : Except Int PUnit := do
  validateBufferNonalias b
  o.arrays.forM (bufferOverlapsRegion b)
  o.present.forM (buffersOverlap b)
  (o.outputs.take i).forM (buffersOverlap b)

def validateOutputOwnership (o : Ownership P) : Except Int PUnit :=
  o.outputs.zipIdx.forM fun (b, i) => validateOutput o b i

/-! ### Each check detects a shared byte -/

/-- The end of the payload of a buffer that passed `validate_buffer` is an address. -/
def PlacedBuffer.Checked (b : PlacedBuffer P) : Prop :=
  ∃ elementSize output, validateBuffer b.payloadSize elementSize output (some b.buffer) = 0

variable {b : PlacedBuffer P}

theorem PlacedBuffer.Checked.payload (h : b.Checked) :
    b.buffer.data + b.buffer.offset < 2 ^ 64 := by
  obtain ⟨elementSize, output, h⟩ := h
  simp only [validateBuffer] at h
  by_cases hover : uintptrMax - b.buffer.offset < b.buffer.data
  · split_ifs at h <;> exact absurd h (by decide)
  · have hdata : b.buffer.data ≠ 0 := by
      intro hdata
      rw [if_pos (.inl hdata : b.buffer.data = 0 ∨ _)] at h
      split_ifs at h <;> exact absurd h (by decide)
    unfold uintptrMax at hover
    omega

theorem memoryRegionInit_ne {b : Block} : memoryRegionInit b ≠ .error (-eInval) := by
  unfold memoryRegionInit
  split_ifs <;> simp [eOverflow, eInval]

theorem collectBufferRegions_ne (b : PlacedBuffer P) :
    collectBufferRegions b ≠ .error (-eInval) := by
  intro h
  obtain ⟨c, _, hc⟩ := mapM_error h
  exact memoryRegionInit_ne hc

theorem collectBufferRegions_ok (hb : b.Checked) (h : collectBufferRegions b = .ok rs) :
    RegionsOf b.blocks rs := by
  unfold collectBufferRegions at h
  rw [Nat.mod_eq_of_lt hb.payload] at h
  exact forall₂_of_mapM_ok h

theorem validateBufferNonalias_detects (hb : b.Checked) :
    Detects (-eInval) (validateBufferNonalias b) (SharedWithin b.blocks) := by
  apply Detects.bind (collectBufferRegions_ne b)
  intro rs hrs
  exact (Detects.refuse _).congr (regions_selfOverlap_iff (collectBufferRegions_ok hb hrs))

theorem buffersOverlap_detects {c : PlacedBuffer P} (hb : b.Checked) (hc : c.Checked) :
    Detects (-eInval) (buffersOverlap b c) (SharedWith b.blocks c.blocks) := by
  apply Detects.bind (collectBufferRegions_ne b)
  intro rs hrs
  apply Detects.bind (collectBufferRegions_ne c)
  intro qs hqs
  exact (Detects.refuse _).congr
    (regions_overlap_iff (collectBufferRegions_ok hb hrs) (collectBufferRegions_ok hc hqs))

theorem bufferOverlapsRegion_detects (hb : b.Checked) (area : Block) :
    Detects (-eInval) (bufferOverlapsRegion b area) (SharedWith b.blocks [area]) := by
  apply Detects.bind (collectBufferRegions_ne b)
  intro rs hrs
  apply Detects.bind memoryRegionInit_ne
  intro q hq
  exact (Detects.refuse _).congr
    (regions_overlap_iff (collectBufferRegions_ok hb hrs) (.cons hq .nil))

/-! ### Checks that succeed -/

theorem exists_region {b : Block} (h : b.length ≠ 0 → b.start ≠ 0 ∧ b.start + b.length < 2 ^ 64) :
    ∃ r, memoryRegionInit b = .ok r := by
  unfold memoryRegionInit
  split_ifs with hlength hover
  · exact ⟨_, rfl⟩
  · unfold uintptrMax at hover
    omega
  · exact ⟨_, rfl⟩

theorem exists_regions (hb : b.Checked)
    (hblocks : ∀ x ∈ b.blocks, x.length ≠ 0 → x.start ≠ 0 ∧ x.start + x.length < 2 ^ 64) :
    ∃ rs, collectBufferRegions b = .ok rs := by
  unfold collectBufferRegions
  rw [Nat.mod_eq_of_lt hb.payload]
  exact Foundation.exists_mapM_ok fun x hx => exists_region (hblocks x hx)

variable {b c : PlacedBuffer P} {o : Ownership P}

theorem validateBufferNonalias_ok (hb : b.Checked) (hrs : ∃ rs, collectBufferRegions b = .ok rs)
    (h : ¬ SharedWithin b.blocks) : validateBufferNonalias b = .ok ⟨⟩ := by
  obtain ⟨rs, hrs⟩ := hrs
  rw [validateBufferNonalias, hrs]
  exact Foundation.refuse_eq_ok.mpr
    ((regions_selfOverlap_iff (collectBufferRegions_ok hb hrs)).not.mpr h)

theorem buffersOverlap_ok (hb : b.Checked) (hc : c.Checked)
    (hrs : ∃ rs, collectBufferRegions b = .ok rs) (hqs : ∃ qs, collectBufferRegions c = .ok qs)
    (h : ¬ SharedWith b.blocks c.blocks) : buffersOverlap b c = .ok ⟨⟩ := by
  obtain ⟨rs, hrs⟩ := hrs
  obtain ⟨qs, hqs⟩ := hqs
  rw [buffersOverlap, hrs, hqs]
  exact Foundation.refuse_eq_ok.mpr
    ((regions_overlap_iff (collectBufferRegions_ok hb hrs) (collectBufferRegions_ok hc hqs)).not.mpr h)

theorem bufferOverlapsRegion_ok {area : Block} (hb : b.Checked)
    (hrs : ∃ rs, collectBufferRegions b = .ok rs) (hq : ∃ q, memoryRegionInit area = .ok q)
    (h : ¬ SharedWith b.blocks [area]) : bufferOverlapsRegion b area = .ok ⟨⟩ := by
  obtain ⟨rs, hrs⟩ := hrs
  obtain ⟨q, hq⟩ := hq
  rw [bufferOverlapsRegion, hrs, hq]
  exact Foundation.refuse_eq_ok.mpr
    ((regions_overlap_iff (collectBufferRegions_ok hb hrs) (.cons hq .nil)).not.mpr h)

/-! ### Output ownership -/

/-- **Something else is in the memory of an output**: a byte of the output `i` is also one of
another part of it, of an array of the cycle, of a present input, or of another output. -/
def OutputShared (o : Ownership P) : Prop :=
  ∃ (i : ℕ) (b : PlacedBuffer P), o.outputs[i]? = some b ∧
    (SharedWithin b.blocks ∨ SharedWith b.blocks o.arrays ∨
      (∃ c ∈ o.present, SharedWith b.blocks c.blocks) ∨
      ∃ (j : ℕ) (c : PlacedBuffer P), j ≠ i ∧ o.outputs[j]? = some c ∧
        SharedWith b.blocks c.blocks)

/-- The buffers of the graph have passed `validate_buffer`. -/
structure Ownership.Checked (o : Ownership P) : Prop where
  inputs : ∀ b ∈ o.present, b.Checked
  outputs : ∀ b ∈ o.outputs, b.Checked

/-- What the checks of one output look for. -/
def SharedBefore (o : Ownership P) (b : PlacedBuffer P) (i : ℕ) : Prop :=
  SharedWithin b.blocks ∨ (∃ area ∈ o.arrays, SharedWith b.blocks [area]) ∨
    (∃ c ∈ o.present, SharedWith b.blocks c.blocks) ∨
    ∃ c ∈ o.outputs.take i, SharedWith b.blocks c.blocks

theorem validateOutput_detects (h : o.Checked) (hb : b ∈ o.outputs) (i : ℕ) :
    Detects (-eInval) (validateOutput o b i) (SharedBefore o b i) := by
  have hb' := h.outputs b hb
  apply (validateBufferNonalias_detects hb').seq
  apply (Detects.forM fun area _ => bufferOverlapsRegion_detects hb' area).seq
  apply (Detects.forM fun c hc => buffersOverlap_detects hb' (h.inputs c hc)).seq
  exact Detects.forM fun c hc => buffersOverlap_detects hb' (h.outputs c (mem_of_mem_take hc))

theorem sharedWith_singletons {xs ys : List Block} :
    (∃ y ∈ ys, SharedWith xs [y]) ↔ SharedWith xs ys := by
  simp only [sharedWith_iff, mem_singleton, exists_eq_left]
  constructor
  · rintro ⟨y, hy, x, hx, hbyte⟩
    exact ⟨x, hx, y, hy, hbyte⟩
  · rintro ⟨x, hx, y, hy, hbyte⟩
    exact ⟨y, hy, x, hx, hbyte⟩

theorem sharedBefore_iff : (∃ p ∈ o.outputs.zipIdx, SharedBefore o p.1 p.2) ↔ OutputShared o := by
  constructor
  · rintro ⟨⟨b, i⟩, hmem, hshared⟩
    have hb : o.outputs[i]? = some b := mem_zipIdx_iff_getElem?.mp hmem
    refine ⟨i, b, hb, ?_⟩
    rcases hshared with hself | harr | hin | ⟨c, hc, hshared⟩
    · exact .inl hself
    · exact .inr (.inl (sharedWith_singletons.mp harr))
    · exact .inr (.inr (.inl hin))
    · obtain ⟨j, hlt, hj⟩ := exists_lt_of_mem_take hc
      exact .inr (.inr (.inr ⟨j, c, by omega, hj, hshared⟩))
  · rintro ⟨i, b, hb, hshared⟩
    have hmem {k : ℕ} {d : PlacedBuffer P} (hd : o.outputs[k]? = some d) :
        (d, k) ∈ o.outputs.zipIdx := mem_zipIdx_iff_getElem?.mpr hd
    rcases hshared with hself | harr | hin | ⟨j, c, hne, hc, hshared⟩
    · exact ⟨(b, i), hmem hb, .inl hself⟩
    · exact ⟨(b, i), hmem hb, .inr (.inl (sharedWith_singletons.mpr harr))⟩
    · exact ⟨(b, i), hmem hb, .inr (.inr (.inl hin))⟩
    · -- The later of the two outputs is the one that finds the earlier one.
      rcases Nat.lt_or_gt_of_ne hne with hlt | hlt
      · exact ⟨(b, i), hmem hb, .inr (.inr (.inr ⟨c, mem_take_of_lt hlt hc, hshared⟩))⟩
      · exact ⟨(c, j), hmem hc,
          .inr (.inr (.inr ⟨b, mem_take_of_lt hlt hb, sharedWith_comm.mp hshared⟩))⟩

/-- **The check detects shared bytes of outputs, and nothing else.** -/
theorem validateOutputOwnership_detects (h : o.Checked) :
    Detects (-eInval) (validateOutputOwnership o) (OutputShared o) := by
  refine Detects.congr (Detects.forM ?_) sharedBefore_iff
  rintro ⟨b, i⟩ hmem
  exact validateOutput_detects h (mem_of_getElem? (mem_zipIdx_iff_getElem?.mp hmem)) i

end Parts

end PipeWireAO.FilterGraph
