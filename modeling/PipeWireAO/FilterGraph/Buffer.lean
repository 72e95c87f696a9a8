import Mathlib.Algebra.Group.Nat.Defs
import PipeWireAO.Errno

/-!
# Buffers and their metadata

A buffer of a filter graph has one block of data, whose chunk says where the payload lies, and
metadata records. Addresses are numbers, and zero is `NULL`; a record has the bytes it points to,
and the payload is left abstract. The checks are those of `spa/buffer/meta.h` and of the graph.
-/

namespace PipeWireAO.FilterGraph

/-- `struct spa_meta`, with the bytes at `data`. -/
structure Meta where
  (type size data : ℕ)
  bytes : List ℕ
deriving DecidableEq

/-- `struct spa_meta_requirement`. -/
structure Requirement where
  (type size flags reserved : ℕ)
deriving DecidableEq

/-- `SPA_META_REQUIREMENT_REQUIRED`. -/
def Requirement.required (r : Requirement) : Bool := r.flags % 2 = 1

/-- `struct spa_buffer` with its first `struct spa_data` and its chunk: addresses, records, and the
payload. -/
structure Buffer (P : Type*) where
  (nDatas datas metasAt : ℕ)
  metas : List Meta
  (data chunk maxsize offset size flags : ℕ)
  payload : P
deriving DecidableEq

/-! ## Metadata records -/

/-- `SPA_META_Header`. -/
def metaHeader : ℕ := 1

/-- `SPA_META_Busy`. -/
def metaBusy : ℕ := 7

/-- `SPA_META_SyncTimeline`. -/
def metaSyncTimeline : ℕ := 9

/-- `SPA_META_AcquisitionIdentity`. -/
def metaAcquisitionIdentity : ℕ := 0x300

/-- `SPA_META_ExposureTiming`. -/
def metaExposureTiming : ℕ := 0x301

/-- `SPA_META_OpticalChopping`. -/
def metaOpticalChopping : ℕ := 0x303

/-- `SPA_META_ElectricalTrigger`. -/
def metaElectricalTrigger : ℕ := 0x304

/-- `SPA_META_ReferenceTimestamp`. -/
def metaReferenceTimestamp : ℕ := 0x305

/-- `SPA_META_START_features`. -/
def metaStartFeatures : ℕ := 0x10000

/-- `SPA_META_MAX_RECORDS`. -/
def maxRecords : ℕ := 64

/-- `SPA_META_MAX_BYTES`. -/
def maxBytes : ℕ := 4096

def uintptrMax : ℕ := 2 ^ 64 - 1

/-- `spa_meta_type_is_transport_owned`. -/
def transportOwned (type : ℕ) : Bool :=
  type = metaBusy || type = metaSyncTimeline || metaStartFeatures ≤ type

/-- `spa_meta_record_size`. -/
def recordSize (type : ℕ) : ℕ :=
  if type = metaHeader then 32
  else if type = metaAcquisitionIdentity then 40
  else if type = metaExposureTiming then 24
  else if type = metaReferenceTimestamp then 24
  else if type = metaOpticalChopping then 8
  else if type = metaElectricalTrigger then 8
  else 0

/-- `spa_meta_record_layout_validate`: the types 11, 12, 13 and 0x302 are retired. -/
def recordLayoutValidate (type size limit : ℕ) : Bool :=
  if type = 0 ∨ type = 11 ∨ type = 12 ∨ type = 13 ∨ type = 0x302 ∨ limit < size then false
  else if metaStartFeatures ≤ type then
    size = 0 && !(11 ≤ type / 2 ^ 16 && type / 2 ^ 16 ≤ 13) && type / 2 ^ 16 ≠ 0x302
  else recordSize type = 0 || recordSize type = size

def recordPlaced (m : Meta) : Bool :=
  recordLayoutValidate m.type m.size maxBytes && (m.size = 0 || (m.data ≠ 0 && m.data % 8 = 0))

/-- The number at byte `i` of a record. -/
def numberAt (bytes : List ℕ) (i width : ℕ) : ℕ :=
  (List.range width).foldr (fun j acc => bytes.getD (i + j) 0 + 2 ^ 8 * acc) 0

/-- `spa_meta_bytes_zero`. -/
def bytesZero (bytes : List ℕ) : Bool := bytes.all (· = 0)

/-- The fields of `struct spa_meta_acquisition_identity`. -/
def identityValid (bytes : List ℕ) (required : Bool) : Bool :=
  if numberAt bytes 0 4 = 0 then !required && bytesZero bytes
  else numberAt bytes 0 4 = 1 && numberAt bytes 4 4 = 0 && !bytesZero ((bytes.drop 8).take 16)

/-- The fields of `struct spa_meta_exposure_timing`. -/
def exposureValid (bytes : List ℕ) (required : Bool) : Bool :=
  let flags := numberAt bytes 0 4
  let clock := numberAt bytes 4 4
  let duration := numberAt bytes 16 8
  if flags = 0 then !required && bytesZero bytes
  else if 3 < flags then false
  else if flags % 2 = 0 then 0 < duration && clock = 0 && numberAt bytes 8 8 = 0
  else 1 ≤ clock && clock ≤ 4 && (if flags = 3 then 0 < duration else duration = 0)

/-- The fields of `struct spa_meta_reference_timestamp`. -/
def timestampValid (bytes : List ℕ) (required : Bool) : Bool :=
  let clock := numberAt bytes 0 4
  if clock = 0 then !required && bytesZero bytes
  else clock ≤ 4 && numberAt bytes 4 4 = 0 && numberAt bytes 8 8 ≠ 2 ^ 64 - 1

/-- The fields of `struct spa_meta_optical_chopping` and of `struct spa_meta_electrical_trigger`. -/
def classificationValid (bytes : List ℕ) (required : Bool) : Bool :=
  if numberAt bytes 0 4 = 1 then numberAt bytes 4 4 ≤ 3
  else !required && numberAt bytes 0 4 = 0 && numberAt bytes 4 4 = 0

/-- `spa_meta_record_validate`. -/
def recordValidate (m : Meta) (required : Bool) : Bool :=
  if !recordPlaced m then false
  else if recordSize m.type = 0 then !required
  else if m.type = metaAcquisitionIdentity then identityValid m.bytes required
  else if m.type = metaExposureTiming then exposureValid m.bytes required
  else if m.type = metaReferenceTimestamp then timestampValid m.bytes required
  else if m.type = metaOpticalChopping ∨ m.type = metaElectricalTrigger then
    classificationValid m.bytes required
  else true

/-- `spa_meta_record_init`. -/
def recordInit (m : Meta) : Option Meta :=
  if !recordPlaced m then none
  else if transportOwned m.type then some m
  else some { m with bytes := List.replicate m.size 0 }

/-- `SPA_ROUND_UP_N (n, 8)`. -/
def roundUp8 (n : ℕ) : ℕ := (n + 7) / 8 * 8

/-- The records `m` and `o` have different types and lie apart. -/
def recordsApart (m o : Meta) : Bool :=
  m.type ≠ o.type &&
    !(m.size ≠ 0 && o.size ≠ 0 && m.data < o.data + o.size && o.data < m.data + m.size)

/-- The record lies apart from the array of `count` descriptors at `metasAt`. -/
def recordOutside (metasAt count : ℕ) (m : Meta) : Bool :=
  m.size = 0 || (m.data ≤ uintptrMax - m.size && metasAt ≤ uintptrMax - count * 16 &&
    !(m.data < metasAt + count * 16 && metasAt < m.data + m.size))

/-- The loop of `spa_meta_records_layout_validate`, after the records `earlier` of `bytes` bytes. -/
def layoutLoop (metasAt count : ℕ) : List Meta → ℕ → List Meta → Bool
  | _, _, [] => true
  | earlier, bytes, m :: rest =>
    recordPlaced m && roundUp8 m.size ≤ maxBytes - bytes && recordOutside metasAt count m &&
      earlier.all (recordsApart m) &&
      layoutLoop metasAt count (m :: earlier) (bytes + roundUp8 m.size) rest

/-- `spa_meta_records_layout_validate`. -/
def recordsLayoutValidate (metasAt : ℕ) (metas : List Meta) : Bool :=
  metas.length ≤ maxRecords && (metas.isEmpty || (metasAt ≠ 0 && metasAt % 8 = 0)) &&
    layoutLoop metasAt metas.length [] 0 metas

/-- The record that is required is there, of the right size, and valid. -/
def requirementMet (metas : List Meta) (r : Requirement) : Bool :=
  match metas.reverse.find? (·.type = r.type) with
  | none => !r.required
  | some m => m.size = r.size && !(r.required && recordSize r.type ≠ 0 && !recordValidate m true)

/-- The second loop of `spa_meta_records_validate`, after the requirements `earlier`. -/
def requirementsLoop (metas : List Meta) : List Requirement → List Requirement → Bool
  | _, [] => true
  | earlier, r :: rest =>
    r.reserved = 0 && r.flags ≤ 1 && recordLayoutValidate r.type r.size maxBytes &&
      earlier.all (·.type ≠ r.type) && requirementMet metas r &&
      requirementsLoop metas (r :: earlier) rest

/-- `spa_meta_records_validate`. -/
def recordsValidate (metasAt : ℕ) (metas : List Meta) (requirements : List Requirement) : Bool :=
  recordsLayoutValidate metasAt metas && requirements.length ≤ maxRecords &&
    metas.all (recordValidate · false) && requirementsLoop metas [] requirements

/-! ## Buffers -/

section Buffer

variable {P : Type*}

def validateBuffer (payloadSize elementSize : ℕ) (output : Bool) : Option (Buffer P) → Int
  | none => -eNoBufs
  | some b =>
    if b.nDatas ≠ 1 ∨ b.datas = 0 ∨ b.datas % 8 ≠ 0 ∨ maxRecords < b.metas.length ∨
        (b.metas ≠ [] ∧ (b.metasAt = 0 ∨ b.metasAt % 8 ≠ 0)) then -eInval
    else if b.data = 0 ∨ b.chunk = 0 ∨ b.chunk % 4 ≠ 0 then -eInval
    else if b.maxsize ≤ b.offset ∨ b.maxsize - b.offset < payloadSize then -eNoSpc
    else if uintptrMax - b.offset < b.data then -eOverflow
    else if (b.data + b.offset) % elementSize ≠ 0 then -eInval
    else if output = false ∧ (b.size < payloadSize ∨ b.maxsize - b.offset < b.size) then -eMsgSize
    else if ¬ (b.metas.map Meta.type).Nodup then -eExist
    else if recordsLayoutValidate b.metasAt b.metas = false ∨
        b.metas.all (·.type ≠ metaHeader) then -eInval
    else 0

def validateCompletedOutput (payloadSize expectedOffset : ℕ) (conditional : Bool) (b : Buffer P) :
    Int :=
  if conditional ∧ b.size = 0 then if b.offset = expectedOffset then 0 else -eMsgSize
  else if b.offset ≠ expectedOffset ∨ b.size ≠ payloadSize ∨ b.maxsize ≤ b.offset ∨
      b.maxsize - b.offset < payloadSize then -eMsgSize
  else if recordsValidate b.metasAt b.metas [] then 0
  else -eInval

end Buffer

end PipeWireAO.FilterGraph
