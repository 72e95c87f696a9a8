import PipeWireAO.Pod.Parser

/-!
# The builder of pods

`spa/pod/builder.h`, for a builder whose buffer does not grow. What is written is added to the sizes
of all open frames; the header of a frame is written again, with its final size, when it is closed.
Inside of an array or a choice only the first value has a header, and no value is padded.

`Builder.frame` is the current frame, with its parents behind it; `spa_pod_builder_pop` is called
with the current one.
-/

namespace PipeWireAO.Pod

open List
open Foundation (toLe roundUp)

/-- `struct spa_pod_builder`, without callbacks. -/
structure Builder where
  data : List UInt8
  offset : ℕ
  flags : Flags
  frame : List Frame
  deriving DecidableEq

/-- `spa_pod_builder_init`. -/
def builderInit (data : List UInt8) : Builder := ⟨data, 0, ⟨false, false⟩, []⟩

/-- `memcpy` of bytes to an offset. -/
def write (data : List UInt8) (offset : ℕ) (bs : List UInt8) : List UInt8 :=
  data.take offset ++ bs ++ data.drop (offset + bs.length)

/-- The frames with `n` more bytes in each. -/
def grow (n : ℕ) (frames : List Frame) : List Frame :=
  frames.map fun f => { f with pod := { f.pod with size := wrap32 (f.pod.size + n) } }

/-- `spa_pod_builder_raw`. -/
def raw (b : Builder) (bs : List UInt8) : Int × Builder :=
  let total := b.offset + bs.length
  if b.data.length < total then
    if 2 ^ 32 - 1 < total then (-eNoSpc, b)
    else (-eNoSpc, { b with offset := total, frame := grow bs.length b.frame })
  else
    (0, { b with
      data := write b.data b.offset bs, offset := total, frame := grow bs.length b.frame })

/-- `spa_pod_builder_remove`. -/
def builderRemove (b : Builder) (size : ℕ) : Builder :=
  { b with
    offset := b.offset - min size b.offset
    frame := b.frame.map fun f =>
      { f with pod := { f.pod with size := f.pod.size - min size f.pod.size } } }

/-- The results of two calls: the last error counts. -/
def andRes (res r : Int) : Int := if r < 0 then r else res

/-- A difference of words of 32 bits. -/
def sub32 (m n : ℕ) : ℕ := if n ≤ m then m - n else m + 2 ^ 32 - n

/-- `spa_pod_builder_pad`. -/
def pad (b : Builder) (size : ℕ) : Int × Builder :=
  if b.flags = ⟨true, false⟩ then (0, b)
  else
    let n := sub32 (roundUp 32 3 size) size
    if n ≠ 0 then raw b (List.replicate n 0) else (0, b)

/-- `spa_pod_builder_raw_padded`. -/
def rawPadded (b : Builder) (bs : List UInt8) : Int × Builder :=
  let (res, b) := raw b bs
  let (r, b) := pad b bs.length
  (andRes res r, b)

/-- `spa_pod_builder_push`. -/
def builderPush (b : Builder) (pod : Header) (offset : ℕ) : Builder :=
  { b with
    frame := ⟨pod, offset, b.flags⟩ :: b.frame
    flags :=
      if pod.type = Kind.array.number ∨ pod.type = Kind.choice.number then ⟨true, true⟩
      else b.flags }

/-- The header of a frame is written again, if the buffer has room for the frame:
`spa_pod_builder_frame`, and the assignment to what it gives. -/
def writeFrame (b : Builder) (f : Frame) : Builder :=
  if f.offset + (8 + f.pod.size) ≤ b.data.length then
    { b with data := write b.data f.offset f.pod.bytes }
  else b

/-- The end of `spa_pod_builder_pop`, for the current frame. -/
def closeFrame (b : Builder) : Builder :=
  match b.frame with
  | [] => b
  | f :: parent =>
    let b := { writeFrame b f with frame := parent, flags := f.flags }
    (pad b b.offset).2

/-- `spa_pod_builder_pop`: an array, or a choice, without values gets the header of its values
here. -/
def builderPop (b : Builder) : Builder :=
  closeFrame (if b.flags.first then (raw b (Header.bytes ⟨0, Kind.none.number⟩)).2 else b)

/-- A call for bytes that may be none, after other calls. -/
def rawSome (acc : Int × Builder) (bs : List UInt8) : Int × Builder :=
  if 0 < bs.length then (andRes acc.1 (raw acc.2 bs).1, (raw acc.2 bs).2) else acc

/-- The header of a value: behind the first value of an array or of a choice there is none. -/
def writeHeader (b : Builder) (header : List UInt8) : Int × Builder :=
  if b.flags ≠ ⟨true, false⟩ then raw { b with flags := { b.flags with first := false } } header
  else (0, b)

/-- `spa_pod_builder_primitive_body`: the header, the body and what comes behind it. -/
def primitiveBody (b : Builder) (header body suffix : List UInt8) : Int × Builder :=
  let acc := rawSome (rawSome (writeHeader b header) body) suffix
  (andRes acc.1 (pad acc.2 acc.2.offset).1, (pad acc.2 acc.2.offset).2)

/-- `spa_pod_builder_child`. -/
def builderChild (b : Builder) (pod : Header) : Int × Builder :=
  raw { b with flags := { b.flags with first := false } } pod.bytes

/-! ## Values -/

/-- `spa_pod_builder_primitive`: the family of the functions for a value of a fixed size. -/
def primitive (b : Builder) (kind : Kind) (body : List UInt8) : Int × Builder :=
  primitiveBody b (Header.bytes ⟨body.length, kind.number⟩) body []

/-- `spa_pod_builder_bool`. -/
def builderBool (b : Builder) (v : Bool) := primitive b .bool (toLe 4 (if v then 1 else 0))

/-- `spa_pod_builder_id`. -/
def builderId (b : Builder) (v : BitVec 32) := primitive b .id (toLe 4 v.toNat)

/-- `spa_pod_builder_int`. -/
def builderInt (b : Builder) (v : BitVec 32) := primitive b .int (toLe 4 v.toNat)

/-- `spa_pod_builder_long`. -/
def builderLong (b : Builder) (v : BitVec 64) := primitive b .long (toLe 8 v.toNat)

/-- `spa_pod_builder_float`, of which only the bits are given. -/
def builderFloat (b : Builder) (v : BitVec 32) := primitive b .float (toLe 4 v.toNat)

/-- `spa_pod_builder_double`, of which only the bits are given. -/
def builderDouble (b : Builder) (v : BitVec 64) := primitive b .double (toLe 8 v.toNat)

/-- `spa_pod_builder_fd`. -/
def builderFd (b : Builder) (v : BitVec 64) := primitive b .fd (toLe 8 v.toNat)

/-- `spa_pod_builder_rectangle`. -/
def builderRectangle (b : Builder) (width height : BitVec 32) :=
  primitive b .rectangle (toLe 4 width.toNat ++ toLe 4 height.toNat)

/-- `spa_pod_builder_fraction`. -/
def builderFraction (b : Builder) (num denom : BitVec 32) :=
  primitive b .fraction (toLe 4 num.toNat ++ toLe 4 denom.toNat)

/-- `spa_pod_builder_string_len`. -/
def builderString (b : Builder) (s : List UInt8) :=
  primitiveBody b (Header.bytes ⟨s.length + 1, Kind.string.number⟩) s [0]

/-- `spa_pod_builder_bytes`. -/
def builderBytes (b : Builder) (s : List UInt8) := primitive b .bytes s

/-! ## Containers -/

/-- The family `spa_pod_builder_push_*`: the header, with what stands before the contents. -/
def pushContainer (b : Builder) (kind : Kind) (extra : List UInt8) : Builder :=
  let pod : Header := ⟨extra.length, kind.number⟩
  builderPush (raw b (pod.bytes ++ extra)).2 pod b.offset

/-- `spa_pod_builder_push_array`. -/
def builderPushArray (b : Builder) := pushContainer b .array []

/-- `spa_pod_builder_push_choice`. -/
def builderPushChoice (b : Builder) (type flags : BitVec 32) :=
  pushContainer b .choice (toLe 4 type.toNat ++ toLe 4 flags.toNat)

/-- `spa_pod_builder_push_struct`. -/
def builderPushStruct (b : Builder) := pushContainer b .struct []

/-- `spa_pod_builder_push_object`. -/
def builderPushObject (b : Builder) (type id : BitVec 32) :=
  pushContainer b .object (toLe 4 type.toNat ++ toLe 4 id.toNat)

/-- `spa_pod_builder_prop`. -/
def builderProp (b : Builder) (key flags : BitVec 32) : Int × Builder :=
  raw b (toLe 4 key.toNat ++ toLe 4 flags.toNat)

/-! ## Padding and rewriting -/

/-- The zeros behind `n` bytes. -/
def padding (n : ℕ) : List UInt8 := List.replicate (8 * ((n + 7) / 8) - n) 0

theorem length_padding (n : ℕ) : (padding n).length = 8 * ((n + 7) / 8) - n :=
  length_replicate

theorem padding_add {n k : ℕ} (h : n % 8 = 0) : padding (n + k) = padding k := by
  unfold padding
  congr 1
  omega

@[simp] theorem length_bytes (h : Header) : h.bytes.length = 8 := by
  simp [Header.bytes]

theorem length_write {d xs : List UInt8} {o : ℕ} (h : o + xs.length ≤ d.length) :
    (write d o xs).length = d.length := by
  simp only [write, length_append, length_take, length_drop]
  omega

theorem write_mid {x y y' z : List UInt8} (h : y.length = y'.length) :
    write (x ++ (y ++ z)) x.length y' = x ++ (y' ++ z) := by
  rw [write, take_left, ← h, ← drop_drop, drop_left, drop_left,
    append_assoc]

end PipeWireAO.Pod
