import PipeWireAO.FilterChain.Feedback
import PipeWireAO.FilterGraph.Output
import PipeWireAO.FilterGraph.Ownership
import PipeWireAO.Foundation.Bytes
import PipeWireAO.Foundation.Heap

/-!
# The private buffers of a feedback bridge

The graph checks the two buffers of a bridge in every cycle, as it checks all external buffers. They
have one metadata record, a header, so a record that a port requires is missing; the configuration
compares formats only. Nothing else can be wrong with them: they lie in one array, aligned and with
memory of their own, and have the size of their ports.
-/

namespace PipeWireAO.FilterChain

open FilterGraph List
open Foundation (bind_eq_ok ite_error_eq_ok refuse_eq_ok Block SharedWith SharedWithin toLe not_sharedWithin)

/-! ## The buffers in memory -/

/-- `sizeof (struct feedback_buffer)`. -/
def feedbackBufferSize : ℕ := 144

/-- `sizeof (struct feedback_bridge)`. -/
def feedbackBridgeSize : ℕ := 296

/-- The bytes of `struct spa_meta_header`. -/
def MetaHeader.bytes (h : MetaHeader) : List UInt8 :=
  toLe 4 h.flags.toNat ++ toLe 4 h.offset.toNat ++ toLe 8 (h.pts % 2 ^ 64).toNat ++
    toLe 8 (h.dtsOffset % 2 ^ 64).toNat ++ toLe 8 h.seq

/-- The `struct spa_buffer` that `init_feedback_buffer` makes for the structure at `a`. -/
def FeedbackBuffer.buffer {n : ℕ} (b : FeedbackBuffer n) (a memory : ℕ) :
    FilterGraph.Buffer (List UInt8) where
  nDatas := 1
  datas := a + 32
  metasAt := a + 104
  metas := [⟨metaHeader, 32, a + 72, b.header.bytes.map UInt8.toNat⟩]
  data := memory
  chunk := a + 16
  maxsize := n
  offset := 0
  size := b.chunkSize
  flags := 0
  payload := b.memory.toList

def FeedbackBuffer.placed {n : ℕ} (b : FeedbackBuffer n) (a memory : ℕ) :
    PlacedBuffer (List UInt8) :=
  ⟨a + 120, b.buffer a memory, n⟩

/-- Where the bridges are: their array, and the memory of the input (`true`) and the output of each. -/
structure Placement where
  bridges : ℕ
  memory : ℕ → Bool → ℕ

namespace Placement

variable (l : Placement)

/-- The address of the `struct feedback_buffer` for the input or the output of bridge `i`. -/
def bufferAt (i : ℕ) (input : Bool) : ℕ :=
  l.bridges + feedbackBridgeSize * i + if input then 8 else 152

/-- The two blocks of a buffer of bridge `i`: the structure, and its memory of `n` bytes. -/
def slot (i : ℕ) (input : Bool) (n : ℕ) : List Block :=
  [⟨l.bufferAt i input, feedbackBufferSize⟩, ⟨l.memory i input, n⟩]

/-- The input of bridge `i`. -/
def input (i : ℕ) (b : Bridge) : PlacedBuffer (List UInt8) :=
  b.input.placed (l.bufferAt i true) (l.memory i true)

/-- The output of bridge `i`. -/
def output (i : ℕ) (b : Bridge) : PlacedBuffer (List UInt8) :=
  b.output.placed (l.bufferAt i false) (l.memory i false)

/-- **What the allocator promises** for bridges with memory of these sizes: blocks in the address
space, aligned for every type, without a common byte. -/
structure Allocated (sizes : List ℕ) : Prop where
  array : l.bridges ≠ 0 ∧ l.bridges % 16 = 0 ∧
    l.bridges + feedbackBridgeSize * sizes.length < 2 ^ 64
  memory : ∀ i n, sizes[i]? = some n → ∀ s,
    l.memory i s ≠ 0 ∧ l.memory i s % 16 = 0 ∧ l.memory i s + n < 2 ^ 64
  arrayApart : ∀ i n, sizes[i]? = some n → ∀ s,
    (Block.mk l.bridges (feedbackBridgeSize * sizes.length)).Apart ⟨l.memory i s, n⟩
  memoryApart : ∀ i n j m, sizes[i]? = some n → sizes[j]? = some m → ∀ s t, (i, s) ≠ (j, t) →
    (Block.mk (l.memory i s) n).Apart ⟨l.memory j t, m⟩

end Placement

/-- A private buffer of `n` bytes: its structure at `a` and its memory at `m` are aligned and apart. -/
structure Reserved (a m n : ℕ) : Prop where
  buffer : a ≠ 0 ∧ a % 8 = 0 ∧ a + feedbackBufferSize < 2 ^ 64
  memory : m ≠ 0 ∧ m % 16 = 0 ∧ m + n < 2 ^ 64
  apart : (Block.mk a feedbackBufferSize).Apart ⟨m, n⟩

namespace Placement

variable {l : Placement} {sizes : List ℕ} {i j n m : ℕ} {s t : Bool}

theorem bufferAt_bounds (hi : i < sizes.length) (s : Bool) : l.bridges + 8 ≤ l.bufferAt i s ∧
    l.bufferAt i s + feedbackBufferSize ≤ l.bridges + feedbackBridgeSize * sizes.length := by
  unfold bufferAt feedbackBridgeSize feedbackBufferSize
  split_ifs <;> omega

theorem apart_bufferAt (hi : i < sizes.length) (s : Bool) {b : Block}
    (hb : b.Apart ⟨l.bridges, feedbackBridgeSize * sizes.length⟩) :
    b.Apart ⟨l.bufferAt i s, feedbackBufferSize⟩ := by
  obtain ⟨hle, hend⟩ := bufferAt_bounds (l := l) hi s
  exact hb.part (Nat.le_trans (Nat.le_add_right _ 8) hle) hend

theorem Allocated.reserved (h : l.Allocated sizes) (hi : sizes[i]? = some n) (s : Bool) :
    Reserved (l.bufferAt i s) (l.memory i s) n := by
  obtain ⟨hi', -⟩ := List.getElem?_eq_some_iff.mp hi
  obtain ⟨hle, hend⟩ := bufferAt_bounds (l := l) hi' s
  obtain ⟨hne, haligned, hlast⟩ := h.array
  refine ⟨⟨by omega, ?_, by omega⟩, h.memory i n hi s, ?_⟩
  · unfold bufferAt feedbackBridgeSize
    split_ifs <;> omega
  · exact (apart_bufferAt hi' s (h.arrayApart i n hi s).symm).symm

theorem bufferAt_apart (hne : (i, s) ≠ (j, t)) : (Block.mk (l.bufferAt i s) feedbackBufferSize).Apart
    ⟨l.bufferAt j t, feedbackBufferSize⟩ := by
  rw [Block.apart_iff]
  unfold bufferAt feedbackBridgeSize feedbackBufferSize
  rcases Nat.lt_trichotomy i j with hlt | rfl | hlt
  · split_ifs <;> dsimp only <;> omega
  · cases s <;> cases t <;> simp at hne ⊢
  · split_ifs <;> dsimp only <;> omega

/-- **Different buffers share no byte.** -/
theorem slots_apart (h : l.Allocated sizes) (hi : sizes[i]? = some n) (hj : sizes[j]? = some m)
    (hne : (i, s) ≠ (j, t)) : ¬ SharedWith (l.slot i s n) (l.slot j t m) := by
  obtain ⟨hi', -⟩ := List.getElem?_eq_some_iff.mp hi
  obtain ⟨hj', -⟩ := List.getElem?_eq_some_iff.mp hj
  rintro ⟨a, ⟨x, hx, hax⟩, y, hy, hay⟩
  simp only [slot, mem_cons, not_mem_nil, or_false] at hx hy
  rcases hx with rfl | rfl <;> rcases hy with rfl | rfl
  · exact bufferAt_apart hne a hax hay
  · exact apart_bufferAt hi' s (h.arrayApart j m hj t).symm a hay hax
  · exact apart_bufferAt hj' t (h.arrayApart i n hi s).symm a hax hay
  · exact h.memoryApart i n j m hi hj s t hne a hax hay

end Placement

/-! ## The checks on a private buffer -/

open FeedbackBuffer (buffer)

section Checks

variable {n : ℕ} {b : FeedbackBuffer n} {a memory : ℕ}

theorem headerLayout (h : Reserved a memory n) :
    recordsLayoutValidate (b.buffer a memory).metasAt (b.buffer a memory).metas = true := by
  obtain ⟨ha, haligned, hend⟩ := h.buffer
  unfold feedbackBufferSize at hend
  have hplaced : recordPlaced ⟨metaHeader, 32, a + 72, b.header.bytes.map UInt8.toNat⟩ = true := by
    have hlayout : recordLayoutValidate metaHeader 32 maxBytes = true := by decide
    have h₁ : a + 72 ≠ 0 := by omega
    have h₂ : (a + 72) % 8 = 0 := by omega
    simp [recordPlaced, hlayout, h₂]
  have houtside : recordOutside (a + 104) 1
      ⟨metaHeader, 32, a + 72, b.header.bytes.map UInt8.toNat⟩ = true := by
    have h₁ : a + 72 ≤ uintptrMax - 32 := by unfold uintptrMax; omega
    have h₂ : a + 104 ≤ uintptrMax - 16 := by unfold uintptrMax; omega
    simp [recordOutside, h₁, h₂]
  have hmetas : a + 104 ≠ 0 ∧ (a + 104) % 8 = 0 := by omega
  simp only [recordsLayoutValidate, buffer, length_singleton, layoutLoop, hplaced,
    houtside]
  simp [hmetas.2, maxRecords, maxBytes, roundUp8]

/-- **A private buffer is accepted** by a port of its size. -/
theorem validateBuffer_private (h : Reserved a memory n) (hn : 0 < n) {output : Bool}
    (hsize : output = false → b.chunkSize = n) :
    validateBuffer n 4 output (some (b.buffer a memory)) = 0 := by
  have hlayout := headerLayout (b := b) h
  obtain ⟨ha, haligned, hend⟩ := h.buffer
  obtain ⟨hmemory, hmemory', hmend⟩ := h.memory
  have hheader : ¬ ((b.buffer a memory).metas.all (·.type ≠ metaHeader) = true) := by
    simp [buffer]
  unfold validateBuffer
  dsimp only
  rw [if_neg, if_neg, if_neg, if_neg, if_neg, if_neg, if_neg, if_neg]
  · rintro (h | h)
    · rw [hlayout] at h
      cases h
    · exact hheader h
  · simp [buffer]
  · rintro ⟨hout, hbad⟩
    have := hsize hout
    simp only [buffer] at hbad
    omega
  · simp only [buffer]
    omega
  · simp only [buffer, uintptrMax]
    omega
  · simp only [buffer]
    omega
  · simp only [buffer]
    omega
  · simp only [buffer, maxRecords, length_singleton]
    omega

theorem requirementsLoop_met {metas : List Meta} {requirements earlier : List Requirement}
    (h : requirementsLoop metas earlier requirements = true) :
    ∀ r ∈ requirements, requirementMet metas r = true := by
  induction requirements generalizing earlier with
  | nil => nofun
  | cons r rest ih =>
    simp only [requirementsLoop, Bool.and_eq_true] at h
    exact forall_mem_cons.mpr ⟨h.1.2, ih h.2⟩

/-- **The records of a private buffer are valid** exactly for a port that requires none. -/
theorem recordsValidate_private (h : Reserved a memory n) {requirements : List Requirement}
    (hdeclared : Declared requirements) :
    recordsValidate (b.buffer a memory).metasAt (b.buffer a memory).metas requirements = true ↔
      ∀ r ∈ requirements, r.required = false := by
  have hlayout := headerLayout (b := b) h
  have hplaced : ∀ m ∈ (b.buffer a memory).metas, recordPlaced m = true := by
    simp only [recordsLayoutValidate, Bool.and_eq_true] at hlayout
    exact layoutLoop_placed hlayout.2
  have hvalid : (b.buffer a memory).metas.all (recordValidate · false) = true := by
    refine all_eq_true.mpr fun m hm => ?_
    have hm' := hplaced m hm
    rw [buffer, mem_singleton] at hm
    subst hm
    rw [recordValidate, hm']
    rfl
  -- The only record is the header, which no port may ask for.
  have hmet : ∀ r ∈ requirements, requirementMet (b.buffer a memory).metas r = !r.required := by
    intro r hr
    have hnone : (b.buffer a memory).metas.reverse.find? (·.type = r.type) = none := by
      simp [buffer, Ne.symm (hdeclared.requirement r hr).1]
    rw [requirementMet, hnone]
  rw [recordsValidate, hlayout, hvalid, decide_eq_true (Nat.le_of_lt hdeclared.count)]
  constructor
  · intro h r hr
    have := requirementsLoop_met h r hr
    simpa [hmet r hr] using this
  · intro hfree
    refine requirementsLoop_of_met (fun r hr => ?_) hdeclared.distinct (by simp)
    exact ⟨(hdeclared.requirement r hr).2, by rw [hmet r hr, hfree r hr]; rfl⟩

theorem placed_blocks : (b.placed a memory).blocks = [⟨a + 120, 24⟩, ⟨a + 32, 40⟩, ⟨a + 16, 16⟩,
    ⟨a + 104, 16⟩, ⟨memory, n⟩, ⟨a + 72, 32⟩] := rfl

theorem placed_within : ∀ x ∈ (b.placed a memory).blocks,
    ∃ y ∈ [Block.mk a feedbackBufferSize, ⟨memory, n⟩], x.bytes ⊆ y.bytes := by
  have hpart {o k : ℕ} (hle : o + k ≤ feedbackBufferSize) :
      (Block.mk (a + o) k).bytes ⊆ (Block.mk a feedbackBufferSize).bytes := by
    rintro x ⟨h₁, h₂⟩
    dsimp only at h₁ h₂
    exact ⟨by dsimp only; omega, by dsimp only; omega⟩
  rw [placed_blocks]
  intro x hx
  simp only [mem_cons, not_mem_nil, or_false] at hx
  rcases hx with rfl | rfl | rfl | rfl | rfl | rfl
  · exact ⟨_, mem_cons_self, hpart (by decide)⟩
  · exact ⟨_, mem_cons_self, hpart (by decide)⟩
  · exact ⟨_, mem_cons_self, hpart (by decide)⟩
  · exact ⟨_, mem_cons_self, hpart (by decide)⟩
  · exact ⟨_, mem_cons_of_mem _ mem_cons_self, subset_rfl⟩
  · exact ⟨_, mem_cons_self, hpart (by decide)⟩

theorem placed_checked (h : Reserved a memory n) (hn : 0 < n) : (b.placed a memory).Checked :=
  ⟨4, true, validateBuffer_private h hn nofun⟩

theorem placed_regions (h : Reserved a memory n) (hn : 0 < n) :
    ∃ rs, collectBufferRegions (b.placed a memory) = .ok rs := by
  obtain ⟨ha, -, hend⟩ := h.buffer
  obtain ⟨hmemory, -, hmend⟩ := h.memory
  unfold feedbackBufferSize at hend
  refine exists_regions (placed_checked h hn) ?_
  rw [placed_blocks]
  simp only [forall_mem_cons]
  exact ⟨by omega, by omega, by omega, by omega, fun _ => ⟨hmemory, hmend⟩, by omega, nofun⟩

/-- **The parts of a private buffer lie apart.** -/
theorem validateBufferNonalias_private (h : Reserved a memory n) (hn : 0 < n) :
    validateBufferNonalias (b.placed a memory) = .ok ⟨⟩ := by
  refine validateBufferNonalias_ok (placed_checked h hn) (placed_regions h hn) ?_
  apply not_sharedWithin
  have hapart := Block.apart_iff.mp h.apart
  dsimp only [feedbackBufferSize] at hapart
  rw [placed_blocks]
  simp only [pairwise_cons, forall_mem_cons, not_mem_nil, IsEmpty.forall_iff,
    implies_true, List.Pairwise.nil, and_true, Block.apart_iff]
  omega

end Checks

/-! ## The bridges of a configuration -/

/-- What `configure_feedback_bridges` has checked of a bridge. -/
structure Admitted (inputs outputs : List GraphPort) (b : Bridge) (input output : Port) : Prop where
  inputPort : inputs[b.inputPort]?.map GraphPort.port = some input
  outputPort : outputs[b.outputPort]?.map GraphPort.port = some output
  kinds : input.parameter = false ∧ output.conditional = false
  inputSize : ∃ stride, fgnFormatSize input.format = .ok (b.size, stride)
  outputSize : ∃ stride, fgnFormatSize output.format = .ok (b.size, stride)
  elements : input.format.elementType = elementTypeF32 ∧ output.format.elementType = elementTypeF32

theorem findGraphPort_spec {name : String} {ps : List GraphPort} {k i : ℕ} {p : Port}
    (h : findGraphPort name k ps = .ok (i, p)) :
    k ≤ i ∧ ps[i - k]?.map GraphPort.port = some p := by
  induction ps generalizing k with
  | nil => cases h
  | cons q ps ih =>
    rw [findGraphPort] at h
    split_ifs at h
    · cases h
      simp
    · obtain ⟨hle, hget⟩ := ih h
      refine ⟨by omega, ?_⟩
      rwa [show i - k = (i - (k + 1)) + 1 by omega, getElem?_cons_succ]
variable {bridges : List Bridge} {g : FilterGraph.Graph}

theorem configureBridge_admitted {inputs outputs : List GraphPort} {bridges' : List Bridge}
    {item : String × String} (h : configureBridge inputs outputs bridges item = .ok bridges') :
    ∃ b input output, Admitted inputs outputs b input output ∧ bridges' = bridges ++ [b] := by
  obtain ⟨-, -, h⟩ := bind_eq_ok.mp h
  obtain ⟨⟨i, input⟩, hi, h⟩ := bind_eq_ok.mp h
  obtain ⟨⟨o, output⟩, ho, h⟩ := bind_eq_ok.mp h
  obtain ⟨_, hkinds, h⟩ := bind_eq_ok.mp h
  obtain ⟨-, -, h⟩ := bind_eq_ok.mp h
  obtain ⟨⟨inputSize, inputStride⟩, hinput, h⟩ := bind_eq_ok.mp h
  obtain ⟨⟨outputSize, outputStride⟩, houtput, h⟩ := bind_eq_ok.mp h
  obtain ⟨_, hequal, h⟩ := bind_eq_ok.mp h
  cases h
  have hkinds := refuse_eq_ok.mp hkinds
  have hequal := refuse_eq_ok.mp hequal
  simp only [not_or, Bool.not_eq_true, not_not, Bool.not_eq_false', feedbackFormatEqual,
    decide_eq_true_eq] at hkinds hequal
  obtain ⟨⟨hin, hout, -⟩, hsize, -⟩ := hequal
  refine ⟨_, input, output, ⟨(findGraphPort_spec hi).2, (findGraphPort_spec ho).2, hkinds,
    ⟨inputStride, hinput⟩, ⟨outputStride, ?_⟩, hin, hout⟩, rfl⟩
  rw [houtput, ← hsize]
  rfl

/-- **Every bridge of a configuration is admitted.** -/
theorem configureFeedbackBridges_admitted {inputs outputs : List GraphPort}
    {items : List (String × String)}
    (h : configureFeedbackBridges inputs outputs items = .ok bridges) :
    ∀ b ∈ bridges, ∃ input output, Admitted inputs outputs b input output := by
  unfold configureFeedbackBridges at h
  split_ifs at h
  refine Foundation.foldlM_ok (I := fun bridges : List Bridge =>
    ∀ b ∈ bridges, ∃ input output, Admitted inputs outputs b input output) ?_ (by simp) h
  rintro bridges item bridges' - hall hround
  obtain ⟨b', input, output, hadmitted, rfl⟩ := configureBridge_admitted hround
  exact Foundation.forall_mem_concat hall ⟨input, output, hadmitted⟩

theorem formatSize_of_fgn {f : Format} {n stride : ℕ} (h : fgnFormatSize f = .ok (n, stride)) :
    formatSize f = .ok n := by
  obtain ⟨hbad, h⟩ := ite_error_eq_ok.mp h
  simp only [not_or] at hbad
  obtain ⟨hshape, hlength, hlayout, hrate, helement⟩ := hbad
  unfold formatSize
  rw [if_neg (not_or.mpr ⟨hshape, hlength⟩), if_neg hlayout, if_neg hrate, if_neg helement]
  cases helements : formatElements 1 f.shape with
  | error res =>
    rw [helements] at h
    cases h
  | ok elements =>
    rw [helements] at h
    dsimp only at h ⊢
    obtain ⟨hover, h⟩ := ite_error_eq_ok.mp h
    cases h
    rw [if_neg]
    omega

/-! ## The checks of a cycle -/

open FilterGraph (inputPort)

/-- No record is required of the buffers of a bridge from the output `q`, by its two ports or by an
input linked to the output. -/
def Unrequired (g : FilterGraph.Graph) (q : PortId) (input output : Port) : Prop :=
  (∀ r ∈ input.metas, r.required = false) ∧ (∀ r ∈ output.metas, r.required = false) ∧
    ∀ p port, sourceOf g.links p = some q → inputPort g.nodes p = some port →
      ∀ r ∈ port.metas, r.required = false

/-- No other object is in a buffer with these blocks: no part of itself, no array, and no other
buffer, whichever is an output. -/
structure Owned (blocks : List Block) (b : PlacedBuffer (List UInt8)) : Prop where
  nonalias : validateBufferNonalias b = .ok ⟨⟩
  array : ∀ area, (∃ r, memoryRegionInit area = .ok r) → ¬ SharedWith blocks [area] →
    bufferOverlapsRegion b area = .ok ⟨⟩
  buffer : ∀ c : PlacedBuffer (List UInt8), c.Checked → (∃ rs, collectBufferRegions c = .ok rs) →
    ¬ SharedWith blocks c.blocks → buffersOverlap b c = .ok ⟨⟩ ∧ buffersOverlap c b = .ok ⟨⟩

/-- **The checks of `spa_fgn_graph_process`** on the buffers of the bridge `i`, which is `b` before
the cycle. `filled` is what a callback leaves in the output: a chunk of the right size, with any
payload and header. -/
structure Passes (g : FilterGraph.Graph) (l : Placement) (bridges : List Bridge) (i : ℕ) (b : Bridge)
    (q : PortId) (input output : Port) : Prop where
  size : input.payloadSize = b.size ∧ output.payloadSize = b.size
  inputBuffer : validateBuffer input.payloadSize input.elementSize false (some (l.input i b).buffer) = 0
  inputRecords :
    recordsValidate (l.input i b).buffer.metasAt (l.input i b).buffer.metas input.metas = true
  inputOwned : Owned (l.slot i true b.size) (l.input i b)
  outputBuffer :
    validateBuffer output.payloadSize output.elementSize true (some (l.output i b).buffer) = 0
  outputOwned : Owned (l.slot i false b.size) (l.output i b)
  outputInit : (initOutput (l.output i b).buffer).2 = true
  bridges : ∀ (j : ℕ) (b' : Bridge), bridges[j]? = some b' →
    buffersOverlap (l.output i b) (l.input j b') = .ok ⟨⟩ ∧
      (j ≠ i → buffersOverlap (l.output i b) (l.output j b') = .ok ⟨⟩)
  completed : ∀ filled : FeedbackBuffer b.size, filled.chunkSize = b.size →
    checkOutput output 0 (filled.buffer (l.bufferAt i false) (l.memory i false)) = 0
  linked : ∀ filled : FeedbackBuffer b.size, filled.chunkSize = b.size → ∀ p port,
    sourceOf g.links p = some q → inputPort g.nodes p = some port →
      validateBuffer port.payloadSize port.elementSize false
        (some (filled.buffer (l.bufferAt i false) (l.memory i false))) = 0 ∧
      recordsValidate (filled.buffer (l.bufferAt i false) (l.memory i false)).metasAt
        (filled.buffer (l.bufferAt i false) (l.memory i false)).metas port.metas = true

theorem owned_private {n a memory : ℕ} {b : FeedbackBuffer n} (h : Reserved a memory n) (hn : 0 < n) :
    Owned [⟨a, feedbackBufferSize⟩, ⟨memory, n⟩] (b.placed a memory) := by
  have hchecked := placed_checked (b := b) h hn
  have hregions := placed_regions (b := b) h hn
  refine ⟨validateBufferNonalias_private h hn, fun area harea hshared => ?_,
    fun c hc hcregions hshared => ?_⟩
  · refine bufferOverlapsRegion_ok hchecked hregions harea fun hs => hshared ?_
    exact hs.mono placed_within fun y hy => ⟨y, hy, subset_rfl⟩
  · have hapart : ¬ SharedWith (b.placed a memory).blocks c.blocks := fun hs =>
      hshared (hs.mono placed_within fun y hy => ⟨y, hy, subset_rfl⟩)
    refine ⟨buffersOverlap_ok hchecked hc hregions hcregions hapart,
      buffersOverlap_ok hc hchecked hcregions hregions ?_⟩
    rwa [Foundation.sharedWith_comm]

theorem admitted_port {infos : List (Bool × List PortInfo)} {cfg : Config}
    (hnodes : infos.mapM (fun i => loadPorts i.1 i.2) = .ok cfg.nodes) (hg : graphNew cfg = .ok g)
    {p : PortId} {port : Port} {n stride : ℕ}
    (hp : inputPort g.nodes p = some port ∨ FilterGraph.outputPort g.nodes p = some port)
    (hsize : fgnFormatSize port.format = .ok (n, stride))
    (htype : port.format.elementType = elementTypeF32) :
    0 < n ∧ port.payloadSize = n ∧ port.elementSize = 4 ∧ Declared port.metas := by
  obtain ⟨_, _, _, hload⟩ := port_loaded hnodes hg hp
  obtain ⟨hpayload, helement⟩ := (loadPort_ok hload).sized
  have hformat := formatSize_of_fgn hsize
  have heq : port.payloadSize = n := by
    rw [hpayload] at hformat
    cases hformat
    rfl
  rw [htype] at helement
  exact ⟨formatSize_pos hformat, heq, helement, loadPort_declared hload⟩

theorem exists_portId {ports : List GraphPort} {port : PortId → Option Port} {ps : List PortId}
    (hports : ports.map GraphPort.port = portsOf port ps) (hsome : ∀ p ∈ ps, (port p).isSome = true)
    {i : ℕ} {q : Port} (hq : ports[i]?.map GraphPort.port = some q) :
    ∃ p, ps[i]? = some p ∧ port p = some q := by
  rw [← getElem?_map, hports, portsOf_getElem hsome] at hq
  exact Option.bind_eq_some_iff.mp hq

theorem Delayed.sizes {β : Type} {c : Chain} {tr : List (Outcome β)} (h : Delayed bridges c tr) :
    c.bridges.map Bridge.size = bridges.map Bridge.size := by
  have hshape := congrArg (List.map Prod.snd) h.shape
  rw [map_map, map_map] at hshape
  exact hshape

theorem passes_iff_private {l : Placement} {i : ℕ}
    {b : Bridge} {q : PortId} {input output : Port} (hl : l.Allocated (bridges.map Bridge.size))
    (hb : bridges[i]? = some b) (hpos : ∀ b ∈ bridges, 0 < b.size)
    (hinput : input.payloadSize = b.size ∧ input.elementSize = 4 ∧ Declared input.metas)
    (houtput : output.payloadSize = b.size ∧ output.elementSize = 4 ∧ Declared output.metas)
    (hlinked : ∀ p port, sourceOf g.links p = some q → inputPort g.nodes p = some port →
      port.payloadSize = b.size ∧ port.elementSize = 4 ∧ Declared port.metas)
    (hconditional : output.conditional = false) (hfull : b.input.chunkSize = b.size) :
    Passes g l bridges i b q input output ↔ Unrequired g q input output := by
  obtain ⟨hinputSize, hinputElement, hinputMetas⟩ := hinput
  obtain ⟨houtputSize, houtputElement, houtputMetas⟩ := houtput
  have hn := hpos b (mem_of_getElem? hb)
  have hget {j : ℕ} {b' : Bridge} (hb' : bridges[j]? = some b') :
      (bridges.map Bridge.size)[j]? = some b'.size := by
    rw [getElem?_map, hb']
    rfl
  have hin := hl.reserved (hget hb) true
  have hout := hl.reserved (hget hb) false
  refine ⟨fun hp => ⟨?_, ?_, fun p port hsource hport => ?_⟩,
    fun ⟨hfreeInput, hfreeOutput, hfreeLinked⟩ => ?_⟩
  · exact (recordsValidate_private hin hinputMetas).mp hp.inputRecords
  · have hcompleted := hp.completed b.input hfull
    refine (recordsValidate_private (b := b.input) hout houtputMetas).mp ?_
    by_contra hno
    have hsize : (b.input.buffer (l.bufferAt i false) (l.memory i false)).size ≠ 0 := by
      simp only [buffer]
      omega
    rw [checkOutput, if_pos ⟨hsize, Bool.eq_false_of_not_eq_true hno⟩] at hcompleted
    exact absurd hcompleted (by decide)
  · exact (recordsValidate_private hout (hlinked p port hsource hport).2.2).mp
      (hp.linked b.input hfull p port hsource hport).2
  constructor
  case size => exact ⟨hinputSize, houtputSize⟩
  case inputBuffer =>
    rw [hinputSize, hinputElement]
    exact validateBuffer_private hin hn fun _ => hfull
  case inputRecords => exact (recordsValidate_private hin hinputMetas).mpr hfreeInput
  case inputOwned => exact owned_private hin hn
  case outputBuffer =>
    rw [houtputSize, houtputElement]
    exact validateBuffer_private hout hn (fun he => by cases he)
  case outputOwned => exact owned_private hout hn
  case outputInit =>
    have hlayout := headerLayout (b := b.output) hout
    simp only [recordsLayoutValidate, Bool.and_eq_true] at hlayout
    exact initRecords_ok (layoutLoop_placed hlayout.2)
  case bridges =>
    intro j b' hb'
    have hn' := hpos b' (mem_of_getElem? hb')
    -- The blocks of two different buffers lie in different slots.
    have hother (s : Bool) (f : FeedbackBuffer b'.size) (hne : (i, false) ≠ (j, s)) :
        buffersOverlap (l.output i b) (f.placed (l.bufferAt j s) (l.memory j s)) = .ok ⟨⟩ := by
      have hres := hl.reserved (hget hb') s
      refine ((owned_private hout hn).buffer _ (placed_checked hres hn') (placed_regions hres hn')
        fun hshared => ?_).1
      refine Placement.slots_apart hl (hget hb) (hget hb') hne ?_
      exact hshared.mono (fun x hx => ⟨x, hx, subset_rfl⟩) placed_within
    refine ⟨hother true b'.input (by simp), fun hne => hother false b'.output ?_⟩
    intro heq
    exact hne (Prod.mk.inj heq).1.symm
  case completed =>
    intro filled hsize
    have hrecords := (recordsValidate_private (b := filled) hout houtputMetas).mpr hfreeOutput
    have hnone := (recordsValidate_private (b := filled) hout
      (⟨by decide, by simp, List.Pairwise.nil⟩ : Declared [])).mpr (by simp)
    unfold checkOutput validateCompletedOutput
    rw [if_neg (fun h => by rw [hrecords] at h; exact absurd h.2 (by decide)), hconditional,
      if_neg (fun h => absurd h.1 (by decide)), if_neg, if_pos hnone]
    simp only [buffer]
    omega
  case linked =>
    intro filled hsize p port hsource hport
    obtain ⟨hportSize, hportElement, hportMetas⟩ := hlinked p port hsource hport
    rw [hportSize, hportElement]
    exact ⟨validateBuffer_private hout hn fun _ => hsize,
      (recordsValidate_private hout hportMetas).mpr (hfreeLinked p port hsource hport)⟩

/-- **A feedback bridge passes the checks of every cycle**, in every reachable state of a filter
chain with an accepted graph and configuration, exactly if no record is required of its buffers. -/
theorem bridge_passes {β : Type} {infos : List (Bool × List PortInfo)} {cfg : Config}
    {g : FilterGraph.Graph} (hnodes : infos.mapM (fun i => loadPorts i.1 i.2) = .ok cfg.nodes)
    (hg : graphNew cfg = .ok g) {inputs outputs : List GraphPort}
    (hinputs : inputs.map GraphPort.port = portsOf (inputPort g.nodes) g.inputs)
    (houtputs : outputs.map GraphPort.port = portsOf (FilterGraph.outputPort g.nodes) g.outputs)
    {items : List (String × String)} {bridges : List Bridge}
    (hconf : configureFeedbackBridges inputs outputs items = .ok bridges)
    (ins : List (Option (Bool × Bool))) (outs : List (Option Unit)) {c : Chain}
    {tr : List (Outcome β)} (h : chain.Reaches ⟨ins, outs, bridges, false⟩ c tr) {l : Placement}
    (hl : l.Allocated (bridges.map Bridge.size)) {i : ℕ} {b b' : Bridge} (hb : bridges[i]? = some b)
    (hb' : c.bridges[i]? = some b') : ∃ p q input output, g.inputs[b.inputPort]? = some p ∧
      inputPort g.nodes p = some input ∧ g.outputs[b.outputPort]? = some q ∧
      FilterGraph.outputPort g.nodes q = some output ∧
      (Passes g l c.bridges i b' q input output ↔ Unrequired g q input output) := by
  have hinv := delayed_of_reaches hconf h
  have hadmitted := configureFeedbackBridges_admitted hconf
  obtain ⟨hinputsSome, houtputsSome⟩ := graphNew_ports hg
  obtain ⟨input, output, ha⟩ := hadmitted b (mem_of_getElem? hb)
  obtain ⟨p, hp, hpin⟩ := exists_portId hinputs hinputsSome ha.inputPort
  obtain ⟨q, hq, hqout⟩ := exists_portId houtputs houtputsSome ha.outputPort
  obtain ⟨stride, hinputSize⟩ := ha.inputSize
  obtain ⟨stride', houtputSize⟩ := ha.outputSize
  refine ⟨p, q, input, output, hp, hpin, hq, hqout, ?_⟩
  obtain ⟨b₁, hb₁, -, hsize⟩ := hinv.exists_bridge hb
  rw [hb', Option.some.injEq] at hb₁
  subst hb₁
  rw [← hsize] at hinputSize houtputSize
  have hpos : ∀ b ∈ c.bridges, 0 < b.size := by
    intro b₂ hb₂
    have hmem : b₂.size ∈ bridges.map Bridge.size := hinv.sizes ▸ mem_map_of_mem hb₂
    obtain ⟨b₃, hb₃, heq⟩ := mem_map.mp hmem
    obtain ⟨input₃, output₃, ha₃⟩ := hadmitted b₃ hb₃
    obtain ⟨_, hsize₃⟩ := ha₃.inputSize
    rw [← heq]
    exact formatSize_pos (formatSize_of_fgn hsize₃)
  refine passes_iff_private (hinv.sizes ▸ hl) hb' hpos
    (admitted_port hnodes hg (.inl hpin) hinputSize ha.elements.1).2
    (admitted_port hnodes hg (.inr hqout) houtputSize ha.elements.2).2 ?_ ha.kinds.2
    (hinv.inputs i b' hb').2
  intro p' port hsource hport'
  -- A link joins ports of one format.
  obtain ⟨k, hk, hkq⟩ := Option.map_eq_some_iff.mp hsource
  obtain ⟨output', input', hout', hin', hformat⟩ :=
    loadLinks_format (graphNew_links hg) k (mem_of_find?_eq_some hk)
  have hkp : k.input = p' := by simpa using find?_some hk
  rw [← (graphNew_spec hg).nodes, hkq, hqout, Option.some.injEq] at hout'
  rw [← (graphNew_spec hg).nodes, hkp, hport', Option.some.injEq] at hin'
  rw [← hout', ← hin'] at hformat
  rw [hformat] at houtputSize
  exact (admitted_port hnodes hg (.inl hport') houtputSize (hformat ▸ ha.elements.2)).2

/-- A node with one input and one output, whose input has these metadata. -/
def wordInfos (metas : List Requirement) : List PortInfo :=
  [⟨portInfoSize, 0, directionInput, 0, "in", metas, 0, .ok wordPort.format, none⟩,
    ⟨portInfoSize, 1, directionOutput, 0, "out", [], 0, .ok wordPort.format, none⟩]

/-- A graph of this node alone. -/
def wordConfig (metas : List Requirement) : Config :=
  ⟨[⟨[{ wordPort with metas := metas }], [wordPort]⟩], [], none, none⟩

/-- The graph of `wordConfig`. -/
def wordGraph (metas : List Requirement) : FilterGraph.Graph :=
  ⟨(wordConfig metas).nodes, [], [(0, 0)], [(0, 0)], [0]⟩

/-- An array of one bridge, with memory behind it. -/
def wordPlacement : Placement := ⟨4096, fun _ s => if s then 8192 else 12288⟩

theorem wordPlacement_allocated : wordPlacement.Allocated [4] := by
  have hone {i n : ℕ} (h : [4][i]? = some n) : i = 0 ∧ n = 4 := by
    cases i with
    | zero =>
      cases h
      exact ⟨rfl, rfl⟩
    | succ i => cases h
  constructor
  · decide
  · intro i n hi s
    obtain ⟨rfl, rfl⟩ := hone hi
    cases s <;> decide
  · intro i n hi s
    obtain ⟨rfl, rfl⟩ := hone hi
    rw [Block.apart_iff]
    cases s <;> decide
  · intro i n j m hi hj s t hne
    obtain ⟨rfl, rfl⟩ := hone hi
    obtain ⟨rfl, rfl⟩ := hone hj
    rw [Block.apart_iff]
    cases s <;> cases t <;> first | exact absurd rfl hne | decide

/-- A bridge in its first cycle, with no metadata on its ports. -/
theorem bridge_passes_word : Unrequired (wordGraph []) (0, 0) wordPort wordPort ∧
    Passes (wordGraph []) wordPlacement [initBridge 0 0 4] 0 (initBridge 0 0 4) (0, 0) wordPort
      wordPort := by
  have hfree : Unrequired (wordGraph []) (0, 0) wordPort wordPort := by
    refine ⟨nofun, nofun, fun p port hp => ?_⟩
    cases hp
  refine ⟨hfree, ?_⟩
  have hnodes : [(false, wordInfos [])].mapM (fun i => loadPorts i.1 i.2) =
      .ok (wordConfig []).nodes := by decide +kernel
  have hg : graphNew (wordConfig []) = .ok (wordGraph []) := by decide +kernel
  have hconf : configureFeedbackBridges [⟨"n", "in", wordPort⟩] [⟨"n", "out", wordPort⟩]
      [("n:in", "n:out")] = .ok [initBridge 0 0 4] := rfl
  obtain ⟨p, q, input, output, hp, hin, hq, hout, hpasses⟩ :=
    bridge_passes (β := Unit) hnodes hg rfl rfl hconf [none] [none] .refl wordPlacement_allocated
      (i := 0) rfl rfl
  cases hp
  cases hin
  cases hq
  cases hout
  exact hpasses.mpr hfree

def identityRequired : List Requirement := [⟨metaAcquisitionIdentity, 40, 1, 0⟩]

/-- **The record is missing in every cycle**: the graph and the bridge are accepted, but every call
of the graph with its buffers fails before a plugin is called. -/
theorem bridge_missing_record :
    ([(false, wordInfos identityRequired)].mapM (fun i => loadPorts i.1 i.2) =
      .ok (wordConfig identityRequired).nodes) ∧
    graphNew (wordConfig identityRequired) = .ok (wordGraph identityRequired) ∧
    configureFeedbackBridges [⟨"n", "in", { wordPort with metas := identityRequired }⟩]
      [⟨"n", "out", wordPort⟩] [("n:in", "n:out")] = .ok [initBridge 0 0 4] ∧
    wordPlacement.Allocated [4] ∧
    ∀ (plugin : ℕ → Plugin (List UInt8) Unit) (storage : PortId → FilterGraph.Buffer (List UInt8)),
      let r := process (wordGraph identityRequired) ⟨fun _ _ => 0, fun _ _ => 0⟩ plugin [0]
        ⟨true, true, fun _ => (), storage, none, none⟩
        [some (wordPlacement.input 0 (initBridge 0 0 4)).buffer]
        [some (wordPlacement.output 0 (initBridge 0 0 4)).buffer]
      r.res = -eInval ∧ r.calls = [] := by
  refine ⟨by decide +kernel, by decide +kernel, rfl, wordPlacement_allocated, ?_⟩
  intro plugin storage
  have hstart : startCycle (wordGraph identityRequired) ⟨fun _ _ => 0, fun _ _ => 0⟩
      (⟨true, true, fun _ => (), storage, none, none⟩ : FilterGraph.State (List UInt8) Unit)
      [some (wordPlacement.input 0 (initBridge 0 0 4)).buffer]
      [some (wordPlacement.output 0 (initBridge 0 0 4)).buffer] =
      .error ⟨⟨true, true, fun _ => (), fun p => resetStorage (storage p), none, none⟩,
        clearSizes (initOutputs [some (wordPlacement.output 0 (initBridge 0 0 4)).buffer]).1,
        -eInval, []⟩ := by
    unfold startCycle
    rw [if_neg (by simp [wordGraph]), if_neg (by simp), if_neg (by decide +kernel),
      if_neg (by decide +kernel), if_pos (by decide +kernel)]
  rw [process_early hstart]
  exact ⟨rfl, rfl⟩

end PipeWireAO.FilterChain
