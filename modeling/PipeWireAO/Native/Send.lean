import PipeWireAO.Native.Receive
import Mathlib.Data.List.Basic

/-!
# What a connection sends

Messages are written to one buffer and their descriptors to another. `flush` sends both: the
descriptors go with the first bytes that are sent, in batches of at most `MAX_FDS_MSG`, and as long as
there are more of them, four bytes are sent at a time. So descriptors overtake the bytes of their
message, but not arbitrarily.
-/

namespace PipeWireAO.Native

open Foundation List

variable {F : Type*}

/-! ## Writing -/

/-- The `struct buffer` of what is to be sent. -/
structure Out (F : Type*) where
  bytes : List UInt8
  fds : List F
  seq : UInt32
deriving DecidableEq

/-- A connection that has sent nothing. -/
def Out.new : Out F := ⟨[], [], 0⟩

section Write

variable [DecidableEq F]

/-- `pw_protocol_native_connection_add_fd`: the index, and the descriptors of the message; `held`
are in the buffer already. A negative `fd` is `none`, and so is a `dup` that failed. -/
def addFd (held : ℕ) (fds : List F) (fd dup : Option F) : Option ℕ × List F :=
  match fd with
  | none => (none, fds)
  | some fd =>
    -- compared are the duplicates
    if fd ∈ fds then (some (fds.idxOf fd), fds)
    else if maxFds ≤ fds.length + held then (none, fds)
    else
      match dup with
      | none => (none, fds)
      | some dup => (some fds.length, fds ++ [dup])

/-- The descriptors after a number of calls. -/
def addFds (held : ℕ) (fds : List F) (calls : List (Option F × Option F)) : List F :=
  calls.foldl (fun fds call => (addFd held fds call.1 call.2).2) fds

/-- The header and the payload of a message, in older versions. -/
def Message.encodeOld (m : Message F) : List UInt8 :=
  toLe 4 m.id.toNat ++ (toLe 4 (m.opcode.toNat * 2 ^ 24 + m.payload.length) ++ m.payload)

/-- The sequence number after `seq`, up to `SPA_ASYNC_SEQ_MASK`. -/
def nextSeq (seq : UInt32) : UInt32 := .ofNat ((seq.toNat + 1) % 2 ^ 30)

/-- `pw_protocol_native_connection_begin`, calls of `add_fd`, and `pw_protocol_native_connection_end`.
A message that is too large is not written. -/
def Out.write (version : ℕ) (o : Out F) (id : UInt32) (opcode : UInt8) (payload : List UInt8)
    (calls : List (Option F × Option F)) : Option (Message F) × Out F :=
  if 0xffffff < payload.length then (none, o)
  else if 3 ≤ version then
    let m : Message F := ⟨id, opcode, o.seq, payload, addFds o.fds.length [] calls⟩
    (some m, ⟨o.bytes ++ m.encode, o.fds ++ m.fds, nextSeq o.seq⟩)
  else
    -- the descriptors are those of all messages that were not sent
    let m : Message F := ⟨id, opcode, o.seq, payload, addFds o.fds.length o.fds calls⟩
    (some m, ⟨o.bytes ++ m.encodeOld, m.fds, nextSeq o.seq⟩)

end Write

/-! ## Sending -/

/-- The bytes in a stream socket, each with the descriptors that are delivered with it. -/
abbrev Wire (F : Type*) := List (UInt8 × List F)

/-- The bytes of one `sendmsg`: its descriptors are delivered with the first of them. -/
def batch (fds : List F) : List UInt8 → Wire F
  | [] => []
  | b :: bs => (b, fds) :: bs.map fun b => (b, [])

namespace Out

/-- How many descriptors the next `sendmsg` has: `outfds`. -/
def outFds (o : Out F) : ℕ := if maxFdsMsg < o.fds.length then maxFdsMsg else o.fds.length

/-- How many bytes the next `sendmsg` has: `outsize`. -/
def outSize (o : Out F) : ℕ := if maxFdsMsg < o.fds.length then min 4 o.bytes.length else o.bytes.length

/-- `sendmsg` has sent some of the bytes, and all of the descriptors. -/
def sendmsg (o : Out F) (sent : ℕ) : Wire F × Out F :=
  (batch (o.fds.take o.outFds) (o.bytes.take sent),
    { o with bytes := o.bytes.drop sent, fds := o.fds.drop o.outFds })

/-- The loop of `pw_protocol_native_connection_flush` for the answers of `sendmsg`, after which it
answers `EAGAIN` or another error if not everything was sent. There is no result if these are not
the answers of this call. -/
def flush (o : Out F) : List ℕ → Option (Wire F × Out F)
  | [] => some ([], o)
  | sent :: more =>
    if sent = 0 ∨ o.outSize < sent then none
    else ((o.sendmsg sent).2.flush more).map fun r => ((o.sendmsg sent).1 ++ r.1, r.2)

end Out

section Batch

variable {fds : List F} {bytes : List UInt8}

@[simp] theorem batch_bytes : (batch fds bytes).map Prod.fst = bytes := by
  cases bytes with
  | nil => rfl
  | cons b bs => simp [batch, Function.comp_def]

@[simp] theorem length_batch : (batch fds bytes).length = bytes.length := by
  rw [← length_map Prod.fst, batch_bytes]

theorem batch_fds_take {n : ℕ} (fds : List F) (hn : 0 < n) (h : bytes ≠ []) :
    ((batch fds bytes).take n).flatMap Prod.snd = fds := by
  obtain ⟨n, rfl⟩ : ∃ k, n = k + 1 := ⟨n - 1, by omega⟩
  cases bytes with
  | nil => exact absurd rfl h
  | cons b bs =>
    rw [batch, take_succ_cons, flatMap_cons, ← map_take, flatMap_map]
    simp

theorem batch_mem {x : UInt8 × List F} (h : x ∈ batch fds bytes) : x.2 = fds ∨ x.2 = [] := by
  cases bytes with
  | nil => cases h
  | cons b bs =>
    rcases mem_cons.mp h with rfl | h
    · exact .inl rfl
    · obtain ⟨b', -, rfl⟩ := mem_map.mp h
      exact .inr rfl

end Batch

end PipeWireAO.Native
