import Mathlib.Algebra.BigOperators.Group.List.Basic
import Mathlib.Data.List.Perm.Subperm
import PipeWireAO.FilterGraph.Ports
import PipeWireAO.FilterGraph.Records

/-!
# The storage of an output

A graph owns the metadata of its outputs: `storage_init` lays the records of a port one after the
other. The limits are checked for the records that the descriptor declares, and the storage is filled
with those of the instance: the same types and sizes, in any order.
-/

namespace PipeWireAO.FilterGraph

open List
open Foundation (Block)

/-- The address of `metas`, an array of `SPA_FGN_MAX_METAS`, in the `struct fgn_storage` at `a`. -/
def storageMetas (a : ℕ) : ℕ := a + 80

/-- The address of `header`, after the array. -/
def storageHeader (a : ℕ) : ℕ := storageMetas a + descriptorSize * maxRecords

/-- The address of `metadata`, after the header. -/
def storageMetadata (a : ℕ) : ℕ := storageHeader a + 32

/-- The loop of `storage_init`, from `offset` on. -/
def storageLoop (metadata : ℕ) : ℕ → List Requirement → Except Int (List Descriptor)
  | _, [] => .ok []
  | offset, r :: rest =>
    let m : Meta := ⟨r.type, r.size, metadata + offset, List.replicate r.size 0⟩
    match recordInit m with
    | none => .error (-eInval)
    | some _ => do
      let ds ← storageLoop metadata (offset + roundUp8 r.size) rest
      return ⟨m.type, m.size, m.data⟩ :: ds

/-- What `storage_init` puts into `metas`: the header, and the records of the port. -/
def storageInit (a : ℕ) (metas : List Requirement) : Except Int (List Descriptor) := do
  let ds ← storageLoop (storageMetadata a) 0 metas
  return ⟨metaHeader, 32, storageHeader a⟩ :: ds

/-- The bytes that are set aside for a record. -/
def Descriptor.room (d : Descriptor) : Block := ⟨d.data, roundUp8 d.size⟩

def roomFor (metas : List Requirement) : ℕ := (metas.map fun r => roundUp8 r.size).sum

variable {metas : List Requirement} {i : PortInfo} {bytes metadata offset : ℕ}

theorem checkRequirements_room {earlier : List Requirement} (hle : bytes ≤ maxBytes)
    (h : checkRequirements earlier bytes metas = .ok ()) : bytes + roomFor metas ≤ maxBytes := by
  induction metas generalizing earlier bytes with
  | nil => exact hle
  | cons r metas ih =>
    rw [checkRequirements] at h
    split_ifs at h with hbad
    rw [roomFor, map_cons, sum_cons, ← Nat.add_assoc]
    apply ih _ h
    omega

theorem preparePortMetadata_room (h : preparePortMetadata i = .ok metas) :
    roomFor metas = roomFor i.metas := by
  rcases preparePortMetadata_ok h with rfl | ⟨-, hlen, hcheck⟩
  · rfl
  · obtain ⟨hall, hpairs⟩ := checkMetadata_ok [] hcheck
    let key := fun r : Requirement => (r.type, r.size)
    have hnodup : (metas.map key).Nodup :=
      pairwise_map.mpr (hpairs.imp fun hne heq => hne (congrArg Prod.fst heq))
    have hsub : metas.map key ⊆ i.metas.map key := by
      intro k hk
      obtain ⟨r, hr, rfl⟩ := mem_map.mp hk
      obtain ⟨d, hd, htype, hsize, -⟩ := (hall r hr).1
      exact mem_map.mpr ⟨d, hd, Prod.ext htype hsize.symm⟩
    have hperm := (hnodup.subperm hsub).perm_of_length_le (by rw [length_map, length_map, hlen])
    have hsum := (hperm.map fun k => roundUp8 k.2).sum_eq
    rwa [map_map, map_map] at hsum

theorem storageLoop_ok (hpos : 0 < metadata) (haligned : metadata % 8 = 0) (hoffset : offset % 8 = 0)
    (hmetas : ∀ r ∈ metas, recordLayoutValidate r.type r.size maxBytes = true) :
    ∃ ds, storageLoop metadata offset metas = .ok ds ∧
      (ds.map fun d => (d.type, d.size)) = metas.map (fun r => (r.type, r.size)) ∧
      (∀ d ∈ ds, metadata + offset ≤ d.data ∧
        d.data + roundUp8 d.size ≤ metadata + offset + roomFor metas) ∧
      ds.Pairwise fun d d' => d.room.Apart d'.room := by
  induction metas generalizing offset with
  | nil => exact ⟨[], rfl, rfl, nofun, Pairwise.nil⟩
  | cons r metas ih =>
    have hnext : (offset + roundUp8 r.size) % 8 = 0 := by unfold roundUp8; omega
    obtain ⟨ds, hds, hkeys, hin, hapart⟩ := ih hnext fun r' hr' => hmetas r' (mem_cons_of_mem r hr')
    have hplaced : recordPlaced ⟨r.type, r.size, metadata + offset, List.replicate r.size 0⟩ = true := by
      simp only [recordPlaced, hmetas r mem_cons_self, Bool.true_and, Bool.or_eq_true,
        Bool.and_eq_true, decide_eq_true_eq]
      omega
    refine ⟨⟨r.type, r.size, metadata + offset⟩ :: ds, ?_, congrArg _ hkeys, ?_, pairwise_cons.mpr ⟨?_, hapart⟩⟩
    · rw [storageLoop, hds, recordInit, hplaced]
      cases transportOwned r.type <;> rfl
    · have hroom : roomFor (r :: metas) = roundUp8 r.size + roomFor metas := sum_cons
      refine forall_mem_cons.mpr ⟨⟨Nat.le_refl _, by dsimp only; omega⟩, fun d hd => ?_⟩
      have := hin d hd
      omega
    · intro d hd
      have := (hin d hd).1
      refine Block.apart_iff.mpr fun hshared => ?_
      simp only [Descriptor.room] at hshared
      omega

/-- **The storage of a port does not overflow.** Its descriptors end before the header, its records are
inside of `metadata`, and no two of them share a byte. -/
theorem loadPort_storage {preparesParameter : Bool} {earlier : List PortInfo} {p : Port} {a : ℕ}
    (h : loadPort preparesParameter earlier i = .ok p) (ha : a % 8 = 0) :
    ∃ ds, storageInit a p.metas = .ok (⟨metaHeader, 32, storageHeader a⟩ :: ds) ∧
      (ds.map fun d => (d.type, d.size)) = p.metas.map (fun r => (r.type, r.size)) ∧
      storageMetas a + descriptorSize * (ds.length + 1) ≤ storageHeader a ∧
      (∀ d ∈ ds, storageMetadata a ≤ d.data ∧
        d.data + roundUp8 d.size ≤ storageMetadata a + (maxBytes - 32)) ∧
      (⟨metaHeader, 32, storageHeader a⟩ :: ds).Pairwise fun d d' => d.room.Apart d'.room := by
  have hchecked := loadPort_ok h
  have hdeclared := loadPort_declared h
  have hroom := checkRequirements_room (by decide) hchecked.requirements
  rw [← preparePortMetadata_room hchecked.metas] at hroom
  have hat : storageMetadata a = a + 1136 := rfl
  have hpos : 0 < storageMetadata a := by omega
  obtain ⟨ds, hds, hkeys, hin, hapart⟩ := storageLoop_ok hpos (by omega) (Nat.zero_mod 8) fun r hr =>
    (hdeclared.requirement r hr).2.2.2
  have hlen : ds.length = p.metas.length := by simpa using congrArg length hkeys
  refine ⟨ds, ?_, hkeys, ?_, fun d hd => ?_, pairwise_cons.mpr ⟨fun d hd => ?_, hapart⟩⟩
  · rw [storageInit, hds]
    rfl
  · have := hdeclared.count
    rw [storageHeader, hlen]
    exact Nat.add_le_add_left (Nat.mul_le_mul_left _ this) _
  · have := hin d hd
    omega
  · have := (hin d hd).1
    refine Block.apart_iff.mpr fun hshared => ?_
    simp only [Descriptor.room, roundUp8] at hshared
    unfold storageMetadata at this
    omega

/-- A port whose instance has its two records in another order than the descriptor. -/
def storedInfo : PortInfo :=
  ⟨portInfoSize, 0, directionOutput, 0, "out", [⟨metaAcquisitionIdentity, 40, 0, 0⟩,
    ⟨metaOpticalChopping, 8, 0, 0⟩], 0, .ok ⟨6, 1, 0, 0, [2], none⟩,
    some (.ok [⟨metaOpticalChopping, 8, 1, 0⟩, ⟨metaAcquisitionIdentity, 40, 0, 0⟩])⟩

theorem loadPort_storage_two : ∃ p ds, loadPort false [] storedInfo = .ok p ∧ p.metas.length = 2 ∧
    storageInit 64 p.metas = .ok ds := by
  obtain ⟨p, hp, hlen⟩ := Foundation.exists_ok_such (x := loadPort false [] storedInfo)
    (P := fun p => p.metas.length = 2) (by decide +kernel)
  obtain ⟨ds, hds, -⟩ := loadPort_storage hp (a := 64) rfl
  exact ⟨p, _, hp, hlen, hds⟩

end PipeWireAO.FilterGraph
