import PipeWireAO.Errno
import PipeWireAO.Foundation.Bytes

/-!
# Connections of the native protocol

A connection has a buffer of bytes and descriptors that were received, and one of those to be sent.
`get_next` returns the next message in the first, and reads from the socket until it is complete.
Messages are written to the second, and `flush` sends it. There is always memory, and its sizes do
not overflow.
-/

namespace PipeWireAO.Native

open Foundation

def maxBufferSize : ℕ := 32768

def maxFds : ℕ := 1024

def maxFdsMsg : ℕ := 28

/-! ## Messages -/

/-- `struct pw_protocol_native_message`, with descriptors in `F`. -/
structure Message (F : Type*) where
  id : UInt32
  opcode : UInt8
  seq : UInt32
  payload : List UInt8
  fds : List F
deriving DecidableEq

/-- The header and the payload of a message, in version 3. -/
def Message.encode {F : Type*} (m : Message F) : List UInt8 :=
  toLe 4 m.id.toNat ++ (toLe 4 (m.opcode.toNat * 2 ^ 24 + m.payload.length) ++
    (toLe 4 m.seq.toNat ++ (toLe 4 m.fds.length ++ m.payload)))

variable {F : Type*}

/-! ## The receive buffer -/

/-- `struct buffer`. `data` is the memory at `buffer_data`, of which `size` is used. The memory and
the descriptors up to the offsets were returned already. -/
structure Buffer (F : Type*) where
  data : List UInt8
  size : ℕ
  fds : List F
  (offset fdsOffset : ℕ)

/-- `SPA_ROUND_UP_N` to a multiple of `MAX_BUFFER_SIZE`. -/
def roundUpBuffer (n : ℕ) : ℕ := (n + (maxBufferSize - 1)) / maxBufferSize * maxBufferSize

/-- `connection_ensure_size`: the memory grows with `realloc`. -/
def Buffer.ensureSize (b : Buffer F) (size : ℕ) : Buffer F :=
  if b.data.length < b.size + size then
    { b with data := b.data ++ List.replicate (roundUpBuffer (b.size + size) - b.data.length) 0 }
  else b

/-- `clear_buffer`, without closing the descriptors. -/
def Buffer.clear (b : Buffer F) : Buffer F :=
  { b with fds := b.fds.drop b.fdsOffset, fdsOffset := 0, size := 0, offset := 0 }

/-- The bytes that `recvmsg` writes. -/
def Buffer.store (b : Buffer F) (bytes : List UInt8) : Buffer F :=
  { b with
    data := b.data.take b.size ++ (bytes ++ b.data.drop (b.size + bytes.length))
    size := b.size + bytes.length }

/-- The receiving half of `struct impl`; the version is also the one of the messages to be sent. -/
structure Conn (F : Type*) where
  (version hdrSize : ℕ)
  inb : Buffer F

/-- `pw_protocol_native_connection_new` -/
def Conn.new : Conn F := ⟨3, 16, ⟨List.replicate maxBufferSize 0, 0, [], 0, 0⟩⟩

/-! ## The next message -/

/-- What `prepare_packet` returns: the missing bytes, an error, or a message and where its payload
is. -/
inductive Packet (F : Type*)
  | need (len : ℕ)
  | error
  | message (ptr : ℕ) (m : Message F)

/-- What happens during a call: `start` is emitted with the version of the peer, `recvmsg` brings
more descriptors than the buffer holds, and its bytes and descriptors are stored. -/
inductive Event (F : Type*)
  | start (version : ℕ)
  | recv (nFds held : ℕ)
  | stored (bytes : List UInt8) (fds : List F)
deriving DecidableEq

def word (data : List UInt8) (i : ℕ) : ℕ := ofLe ((data.drop (4 * i)).take 4)

/-- The header of a packet. -/
structure Header where
  (id opcode len seq nFds : ℕ)

/-- The header at the beginning of `data`; older versions have no sequence number and no descriptors. -/
def header (version : ℕ) (data : List UInt8) : Header where
  id := word data 0
  opcode := word data 1 / 2 ^ 24
  len := word data 1 % 2 ^ 24
  seq := if 3 ≤ version then word data 2 else 0
  nFds := if 3 ≤ version then word data 3 else 0

/-- The first message tells the version of the peer: in the older one, the fourth word is the type
of a pod. -/
def isStart (data : List UInt8) : Prop := word data 0 = 0 ∧ word data 1 / 2 ^ 24 = 1

instance (data : List UInt8) : Decidable (isStart data) := by
  unfold isStart
  infer_instance

/-- The version, and what is emitted. -/
def Conn.negotiate (c : Conn F) (data : List UInt8) : Conn F × List (Event F) :=
  if isStart data then
    if 4 ≤ word data 3 then ({ c with version := 0, hdrSize := 8 }, [.start 0])
    else ({ c with version := 3, hdrSize := 16 }, [.start 3])
  else (c, [])

/-- A packet was returned. -/
def Buffer.consume (b : Buffer F) (bytes nFds : ℕ) : Buffer F :=
  let b' := { b with offset := b.offset + bytes, fdsOffset := b.fdsOffset + nFds }
  if b'.size ≤ b'.offset then b'.clear else b'

def preparePacket (c : Conn F) : Packet F × Conn F × List (Event F) :=
  let avail := c.inb.size - c.inb.offset
  if avail < c.hdrSize then (.need c.hdrSize, c, [])
  else
    let data := c.inb.data.drop c.inb.offset
    let (c, es) := c.negotiate data
    let h := header c.version data
    if maxFds < h.nFds ∨ c.inb.fds.length < h.nFds + c.inb.fdsOffset then (.error, c, es)
    -- the header may be longer than what is there after a change of the version: the size wraps around
    else if c.hdrSize ≤ avail ∧ avail - c.hdrSize < h.len then (.need h.len, c, es)
    else
      let m : Message F :=
        ⟨.ofNat h.id, .ofNat h.opcode, .ofNat h.seq, (data.drop c.hdrSize).take h.len,
          (c.inb.fds.drop c.inb.fdsOffset).take h.nFds⟩
      (.message (c.inb.offset + c.hdrSize) m,
        { c with inb := c.inb.consume (c.hdrSize + h.len) h.nFds }, es)

/-- `refill_buffer` for what `recvmsg` answers: whether it returned 0, and what was stored. Control
messages with more than `MAX_FDS_MSG` descriptors are truncated, and then the bytes are lost. -/
def Buffer.refill (b : Buffer F) (bytes : List UInt8) (fds : List F) :
    Bool × Buffer F × List (Event F) :=
  if maxFdsMsg < fds.length then (false, b, [])
  else if maxFds < fds.length + b.fds.length then (false, b.store bytes, [.stored bytes []])
  else (true, { b.store bytes with fds := b.fds ++ fds }, [.stored bytes fds])

/-- What `get_next` returns: a message and where its payload is, or an error. -/
inductive Result (F : Type*)
  | message (ptr : ℕ) (m : Message F)
  | error (res : Int)
deriving DecidableEq

/-- The loop of `pw_protocol_native_connection_get_next` for the answers of `recvmsg`, after which
it answers `EAGAIN`. There is no result if these are not the answers of this call. -/
def getNext (c : Conn F) : List (List UInt8 × List F) → Option (Result F × Conn F × List (Event F))
  | [] =>
    match preparePacket c with
    | (.need len, c, es) => some (.error (-eAgain), { c with inb := c.inb.ensureSize len }, es)
    | (.error, c, es) => some (.error (-eProto), c, es)
    | (.message ptr m, c, es) => some (.message ptr m, c, es)
  | (bytes, fds) :: reads =>
    match preparePacket c with
    | (.need len, c, es) =>
      let b := c.inb.ensureSize len
      if b.data.length < b.size + bytes.length then none
      else if bytes = [] then
        if reads = [] then some (.error (-ePipe), { c with inb := b }, es) else none
      else
        let es := es ++ [.recv fds.length b.fds.length]
        match b.refill bytes fds with
        | (false, b, es') =>
          if reads = [] then some (.error (-eProto), { c with inb := b }, es ++ es') else none
        | (true, b, es') =>
          (getNext { c with inb := b } reads).map fun r => (r.1, r.2.1, es ++ es' ++ r.2.2)
    | _ => none

/-- The ways in which a call ends. -/
inductive Got : Conn F → List (List UInt8 × List F) → Result F → Conn F → List (Event F) → Prop
  | again {c c₁ : Conn F} {len : ℕ} {es : List (Event F)}
    (hp : preparePacket c = (.need len, c₁, es)) :
    Got c [] (.error (-eAgain)) { c₁ with inb := c₁.inb.ensureSize len } es
  | failed {c c₁ : Conn F} {es : List (Event F)} (hp : preparePacket c = (.error, c₁, es)) :
    Got c [] (.error (-eProto)) c₁ es
  | message {c c₁ : Conn F} {ptr : ℕ} {m : Message F} {es : List (Event F)}
    (hp : preparePacket c = (.message ptr m, c₁, es)) : Got c [] (.message ptr m) c₁ es
  | closed {c c₁ : Conn F} {len : ℕ} {fds : List F} {es : List (Event F)}
    (hp : preparePacket c = (.need len, c₁, es)) :
    Got c [([], fds)] (.error (-ePipe)) { c₁ with inb := c₁.inb.ensureSize len } es
  | rejected {c c₁ : Conn F} {len : ℕ} {bytes : List UInt8} {fds : List F} {b : Buffer F}
    {es es' : List (Event F)} (hp : preparePacket c = (.need len, c₁, es))
    (hroom : (c₁.inb.ensureSize len).size + bytes.length ≤ (c₁.inb.ensureSize len).data.length)
    (hr : (c₁.inb.ensureSize len).refill bytes fds = (false, b, es')) :
    Got c [(bytes, fds)] (.error (-eProto)) { c₁ with inb := b }
      (es ++ [.recv fds.length (c₁.inb.ensureSize len).fds.length] ++ es')
  | more {c c₁ c' : Conn F} {len : ℕ} {bytes : List UInt8} {fds : List F}
    {reads : List (List UInt8 × List F)} {res : Result F} {b : Buffer F} {es es' es'' : List (Event F)}
    (hp : preparePacket c = (.need len, c₁, es))
    (hroom : (c₁.inb.ensureSize len).size + bytes.length ≤ (c₁.inb.ensureSize len).data.length)
    (hr : (c₁.inb.ensureSize len).refill bytes fds = (true, b, es'))
    (h : Got { c₁ with inb := b } reads res c' es'') :
    Got c ((bytes, fds) :: reads) res c'
      (es ++ [.recv fds.length (c₁.inb.ensureSize len).fds.length] ++ es' ++ es'')

theorem getNext_got {reads : List (List UInt8 × List F)} {c c' : Conn F} {res : Result F}
    {es : List (Event F)} (h : getNext c reads = some (res, c', es)) : Got c reads res c' es := by
  induction reads generalizing c es with
  | nil =>
    rw [getNext] at h
    rcases hp : preparePacket c with ⟨_ | _ | _, c₁, es₁⟩
    · rw [hp] at h
      cases h
      exact .again hp
    · rw [hp] at h
      cases h
      exact .failed hp
    · rw [hp] at h
      cases h
      exact .message hp
  | cons r reads ih =>
    obtain ⟨bytes, fds⟩ := r
    rw [getNext] at h
    rcases hp : preparePacket c with ⟨len | _ | _, c₁, es₁⟩
    · rw [hp] at h
      dsimp only at h
      by_cases hroom : (c₁.inb.ensureSize len).data.length <
          (c₁.inb.ensureSize len).size + bytes.length
      · rw [if_pos hroom] at h
        cases h
      rw [if_neg hroom] at h
      by_cases hnil : bytes = []
      · split_ifs at h with hreads
        cases h
        subst hnil hreads
        exact .closed hp
      rw [if_neg hnil] at h
      rcases hr : (c₁.inb.ensureSize len).refill bytes fds with ⟨_ | _, b, es'⟩
      · rw [hr] at h
        split_ifs at h with hreads
        cases h
        subst hreads
        exact .rejected hp (Nat.le_of_not_lt hroom) hr
      · rw [hr] at h
        obtain ⟨⟨res', c'', es''⟩, hnext, heq⟩ := Option.map_eq_some_iff.mp h
        cases heq
        exact .more hp (Nat.le_of_not_lt hroom) hr (ih hnext)
    · rw [hp] at h
      cases h
    · rw [hp] at h
      cases h

end PipeWireAO.Native
