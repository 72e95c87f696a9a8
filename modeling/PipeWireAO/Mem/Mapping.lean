import PipeWireAO.Foundation.Bytes
import PipeWireAO.Foundation.Machine

/-!
# Mappings of a memory block

`pw_memblock_map` looks for a mapping of the block that covers the request, and else maps whole pages
of the file. The test compares the ends of two ranges as 32-bit numbers and does not look at the
flags. So a window lies in its mapping if the request ends below `2 ^ 32`, but a request to write can
be given a mapping that is read-only.
-/

namespace PipeWireAO.Mem

open Foundation List

/-! ## The block -/

/-- The flags of a request, as far as they choose the arguments of `mmap`. -/
structure Flags where
  (read write priv : Bool)
  deriving DecidableEq

/-- `struct mapping`, with the flags that it was made with, which the code does not keep. -/
structure Mapping where
  (id ptr offset size : ℕ)
  flags : Flags
  ref : ℕ

/-- `struct pw_memmap`, with the id of its mapping. -/
structure Memmap where
  mapping : ℕ
  flags : Flags
  (offset size ptr : ℕ)

/-- The mappings and maps of a block. `next` is the id of the next mapping. -/
structure Block where
  mappings : List Mapping
  memmaps : List Memmap
  next : ℕ

/-- What the system answers to a request: `fstat`, `mmap`, and the two calls of `calloc`. -/
structure Answers where
  fstat : Bool
  mmap : Option ℕ
  (mapping memmap : Bool)

/-- A map that was returned, and the mapping that it refers to. -/
structure Event where
  map : Memmap
  mapping : Mapping

/-- A file of a block: its size, pages of `2 ^ page` bytes, and `PW_MEMBLOCK_FLAG_UNMAPPABLE`. -/
structure File where
  (size page : ℕ)
  unmappable : Bool
  page_lt : page < 32

/-- `memblock_find_mapping` -/
def Block.findMapping (b : Block) (offset size : ℕ) : Option Mapping :=
  b.mappings.find? fun m =>
    m.offset ≤ offset ∧ (offset + size) % 2 ^ 32 ≤ (m.offset + m.size) % 2 ^ 32

/-- `pw_map_range_init`: the offset and the size of the pages, unless they overflow. -/
def File.range (f : File) (offset size : ℕ) : Option (ℕ × ℕ) :=
  let start := 2 ^ f.page * (offset / 2 ^ f.page)
  let sum := offset - start + size
  if 2 ^ 32 ≤ sum ∨ 2 ^ 32 ≤ sum + (2 ^ f.page - 1) then none
  else some (start, roundUp 32 f.page sum)

/-- The mapping for a request: one of the block, or a new one by `memblock_map`. -/
def Block.mappingFor (f : File) (b : Block) (x : Answers) (flags : Flags) (offset size : ℕ) :
    Option (Mapping × Block) :=
  match b.findMapping offset size, f.range offset size, x.mmap with
  | some m, _, _ => some (m, b)
  | none, some (start, length), some ptr =>
    if f.unmappable ∨ x.mapping = false then none
    else
      let m := ⟨b.next, ptr, start, length, flags, 0⟩
      some (m, { b with mappings := b.mappings ++ [m], next := b.next + 1 })
  | none, _, _ => none

/-- `mapping_unmap`, if there is no reference left. -/
def Block.release (b : Block) (id : ℕ) : Block :=
  { b with mappings := b.mappings.filter fun m => m.id ≠ id ∨ m.ref ≠ 0 }

def Block.setRef (b : Block) (id : ℕ) (ref : ℕ → ℕ) : Block :=
  { b with
    mappings := b.mappings.map fun m => if m.id = id then { m with ref := ref m.ref } else m }

/-- `pw_memblock_map` -/
def Block.map (f : File) (b : Block) (x : Answers) (flags : Flags) (offset size : ℕ) :
    Block × List Event :=
  if x.fstat = false ∨ f.size < offset + size then (b, [])
  else
    match b.mappingFor f x flags offset size with
    | none => (b, [])
    | some (m, b) =>
      if x.memmap = false then (b.release m.id, [])
      else
        let mm := ⟨m.id, flags, offset, size, m.ptr + (offset - m.offset)⟩
        let b := b.setRef m.id (· + 1)
        ({ b with memmaps := b.memmaps ++ [mm] }, [⟨mm, m⟩])

/-- `pw_memmap_free` -/
def Block.free (b : Block) (i : ℕ) (mm : Memmap) : Block :=
  ({ b with memmaps := b.memmaps.eraseIdx i }.setRef mm.mapping (· - 1)).release mm.mapping

inductive Action
  | map (x : Answers) (flags : Flags) (offset size : ℕ)
  | free (i : ℕ)

/-- The calls on a block, with offsets and sizes of 32 bits. -/
def machine (f : File) : Machine Block Action Event where
  step b
    | .map x flags offset size =>
      if offset < 2 ^ 32 ∧ size < 2 ^ 32 then some (b.map f x flags offset size) else none
    | .free i => b.memmaps[i]?.map fun mm => (b.free i mm, [])

/-! ## Windows -/

variable {f : File} {b b' : Block} {x : Answers} {flags : Flags} {offset size : ℕ} {m : Mapping}

theorem range_covers {r : ℕ × ℕ} (h : f.range offset size = some r) :
    r.1 ≤ offset ∧ offset + size ≤ r.1 + r.2 := by
  simp only [File.range, Option.ite_none_left_eq_some, not_or, Nat.not_le, Option.some.injEq] at h
  obtain ⟨⟨-, hfits⟩, rfl⟩ := h
  have hle := Nat.mul_div_le offset (2 ^ f.page)
  have hpos := Nat.two_pow_pos f.page
  refine ⟨hle, ?_⟩
  rw [roundUp_eq f.page_lt.le (by omega)]
  have hround := Nat.lt_mul_div_succ
    (offset - 2 ^ f.page * (offset / 2 ^ f.page) + size + (2 ^ f.page - 1)) hpos
  rw [Nat.mul_succ] at hround
  show _ ≤ 2 ^ f.page * (offset / 2 ^ f.page) + _
  omega

theorem mappingFor_spec (h : b.mappingFor f x flags offset size = some (m, b')) :
    m.offset ≤ offset ∧ (offset + size < 2 ^ 32 → offset + size ≤ m.offset + m.size) ∧
      (m ∈ b.mappings ∨ m.flags = flags ∧ m.ref = 0) ∧
      ∀ m' ∈ b'.mappings, m' = m ∨ m' ∈ b.mappings := by
  unfold Block.mappingFor at h
  split at h
  · rename_i hfind
    cases h
    have hmem := mem_of_find?_eq_some hfind
    have hfits := find?_some hfind
    obtain ⟨hle, hend⟩ := of_decide_eq_true hfits
    refine ⟨hle, fun hlt => ?_, .inl hmem, fun _ => .inr⟩
    rw [Nat.mod_eq_of_lt hlt] at hend
    exact hend.trans (Nat.mod_le _ _)
  · rename_i hrange _
    simp only [Option.ite_none_left_eq_some, Option.some.injEq, Prod.mk.injEq] at h
    obtain ⟨-, rfl, rfl⟩ := h
    obtain ⟨hle, hend⟩ := range_covers hrange
    refine ⟨hle, fun _ => hend, .inr ⟨rfl, rfl⟩, fun m' hm' => ?_⟩
    obtain hm' | hm' := mem_append.mp hm'
    · exact .inr hm'
    · exact .inl (mem_singleton.mp hm')
  · cases h

/-- The window lies in the mapping, and begins where the file has its offset. -/
structure Event.Window (e : Event) : Prop where
  inside : e.map.offset + e.map.size < 2 ^ 32 → e.mapping.offset ≤ e.map.offset ∧
    e.map.offset + e.map.size ≤ e.mapping.offset + e.mapping.size
  pointer : e.mapping.offset + (e.map.ptr - e.mapping.ptr) = e.map.offset

def Block.kinds (b : Block) : List Flags := b.mappings.map Mapping.flags

theorem setRef_kinds (id : ℕ) (ref : ℕ → ℕ) : (b.setRef id ref).kinds = b.kinds := by
  simp only [Block.kinds, Block.setRef, map_map]
  refine map_congr_left fun m _ => ?_
  dsimp only [Function.comp_apply]
  split_ifs <;> rfl

theorem release_kinds (id : ℕ) : (b.release id).kinds ⊆ b.kinds :=
  map_subset _ filter_sublist.subset

variable {tr es : List Event} {a : Action}

/-- **What a call does**: it returns a window at most, and the flags of all mappings are those of
earlier mappings or of the request that it serves. -/
theorem step_spec (h : (machine f).step b a = some (b', es)) :
    (∀ e ∈ es, e.Window ∧ e.mapping.flags ∈ b.kinds ++ es.map (·.map.flags)) ∧
      b'.kinds ⊆ b.kinds ++ es.map (·.map.flags) := by
  cases a with
  | free i =>
    obtain ⟨mm, -, heq⟩ := Option.map_eq_some_iff.mp h
    cases heq
    refine ⟨nofun, List.Subset.trans (release_kinds _) ?_⟩
    rw [setRef_kinds]
    exact subset_append_left _ _
  | map x flags offset size =>
    simp only [machine, Option.ite_none_right_eq_some, Option.some.injEq, Block.map] at h
    obtain ⟨-, h⟩ := h
    split at h
    · cases h
      exact ⟨nofun, subset_append_left _ _⟩
    split at h
    · cases h
      exact ⟨nofun, subset_append_left _ _⟩
    rename_i m b₁ hfor
    obtain ⟨hle, hend, hnew, hold⟩ := mappingFor_spec hfor
    have hkinds : ∀ m' ∈ b₁.mappings, m' = m ∨ m'.flags ∈ b.kinds := fun m' hm' =>
      (hold m' hm').imp_right mem_map_of_mem
    split at h
    · cases h
      refine ⟨nofun, fun k hk => ?_⟩
      obtain ⟨m', hm', rfl⟩ := mem_map.mp hk
      obtain ⟨hm', hkeep⟩ := mem_filter.mp hm'
      obtain rfl | hmem := hkinds m' hm'
      · -- a new mapping is unmapped again
        obtain hmem | ⟨-, href⟩ := hnew
        · exact mem_append_left _ (mem_map_of_mem hmem)
        · simp [href] at hkeep
      · exact mem_append_left _ hmem
    · cases h
      have hm : m.flags ∈ b.kinds ++ [flags] := by
        obtain hmem | ⟨heq, -⟩ := hnew
        · exact mem_append_left _ (mem_map_of_mem hmem)
        · exact mem_append_right _ (mem_singleton.mpr heq)
      refine ⟨forall_mem_singleton.mpr ⟨⟨fun hlt => ⟨hle, hend hlt⟩, ?_⟩, hm⟩, ?_⟩
      · show m.offset + (m.ptr + (offset - m.offset) - m.ptr) = offset
        omega
      · show (b₁.setRef m.id _).kinds ⊆ _
        rw [setRef_kinds]
        intro k hk
        obtain ⟨m', hm', rfl⟩ := mem_map.mp hk
        obtain rfl | hmem := hkinds m' hm'
        · exact hm
        · exact mem_append_left _ hmem

/-- **Windows of mappings.** Every map that is returned begins where the file has its offset. It
lies in its mapping if it ends below `2 ^ 32`, and the mapping has the protection and the kind asked
for if all requests ask for the same. -/
theorem maps_sound (f : File) {b : Block} {tr : List Event}
    (h : (machine f).Reaches ⟨[], [], 0⟩ b tr) : ∀ e ∈ tr, e.Window ∧
      ((∀ e' ∈ tr, e'.map.flags = e.map.flags) → e.mapping.flags = e.map.flags) := by
  have hinv : b.kinds ⊆ tr.map (·.map.flags) ∧
      ∀ e ∈ tr, e.Window ∧ e.mapping.flags ∈ tr.map (·.map.flags) := by
    refine h.induct (I := fun b tr => b.kinds ⊆ tr.map (·.map.flags) ∧
      ∀ e ∈ tr, e.Window ∧ e.mapping.flags ∈ tr.map (·.map.flags)) ⟨nofun, nofun⟩ ?_
    rintro b b' tr es a ⟨hkinds, hall⟩ hs
    obtain ⟨hnew, hkinds'⟩ := step_spec hs
    have hsub : b.kinds ++ es.map (·.map.flags) ⊆ (tr ++ es).map (·.map.flags) := by
      rw [map_append]
      exact append_subset.mpr ⟨subset_append_of_subset_left _ hkinds,
        subset_append_right _ _⟩
    refine ⟨List.Subset.trans hkinds' hsub, forall_mem_append.mpr
      ⟨fun e he => ?_, fun e he => ?_⟩⟩
    · exact (hall e he).imp_right fun hk => map_subset _ (subset_append_left _ _) hk
    · exact (hnew e he).imp_right fun hk => hsub hk
  intro e he
  obtain ⟨hw, hk⟩ := hinv.2 e he
  obtain ⟨e', he', heq⟩ := mem_map.mp hk
  exact ⟨hw, fun hsame => heq.symm.trans (hsame e' he')⟩

/-- A file that is larger than `2 ^ 32` bytes. -/
def largeFile : File := ⟨2 ^ 32 + 4096, 12, false, by decide⟩

/-- The first page is mapped for reading. -/
def mapFirst : Action := .map ⟨true, some 0, true, true⟩ ⟨true, false, false⟩ 0 4096

/-- The mapping of the first page is used again, for a part of it. -/
theorem maps_sound_first : ∃ b tr, (machine largeFile).Reaches ⟨[], [], 0⟩ b tr ∧
    tr.map (fun e => (e.map.size, e.mapping.size)) = [(4096, 4096), (16, 4096)] ∧
    ∀ e ∈ tr, e.Window ∧ e.mapping.flags = e.map.flags := by
  refine Machine.Reaches.of_run_such
    (P := fun _ tr => tr.map (fun e => (e.map.size, e.mapping.size)) = [(4096, 4096), (16, 4096)] ∧
      ∀ e ∈ tr, ∀ e' ∈ tr, e'.map.flags = e.map.flags)
    [mapFirst, .map ⟨true, none, true, true⟩ ⟨true, false, false⟩ 64 16] (by decide +kernel) ?_
  intro b tr h ⟨hsizes, hsame⟩
  exact ⟨hsizes, fun e he => (maps_sound largeFile h e he).imp_right fun hk => hk (hsame e he)⟩

/-- The mapping of the first page is given to a request for writing, and to one that ends beyond `2
^ 32`. -/
theorem first_mapping_reused : ∃ b tr, (machine largeFile).Reaches ⟨[], [], 0⟩ b tr ∧
    (∃ e ∈ tr, e.map.flags.write = true ∧ e.mapping.flags.write = false) ∧
    ∃ e ∈ tr, e.mapping.offset + e.mapping.size < e.map.offset := by
  exact Machine.Reaches.of_run_such
    [mapFirst, .map ⟨true, none, true, true⟩ ⟨true, true, false⟩ 0 16,
      .map ⟨true, none, true, true⟩ ⟨true, false, false⟩ (2 ^ 32 - 4096) 8192]
    (by decide +kernel) fun _ _ _ h => h

end PipeWireAO.Mem
