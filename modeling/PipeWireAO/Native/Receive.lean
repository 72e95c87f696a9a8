import PipeWireAO.Native.Connection
import Mathlib.Data.List.TakeDrop

/-!
# What a connection returns

The messages that `get_next` returns are those in the bytes that were received, in version 3 of the
protocol: what was received is what was returned, followed by what is still in the buffer.
-/

namespace PipeWireAO.Native

open Foundation List

variable {F : Type*}

/-! ## Bytes of messages -/

/-- The message at the beginning of `data`. -/
def decode (data : List UInt8) (fds : List F) : Message F :=
  ⟨.ofNat (word data 0), .ofNat (word data 1 / 2 ^ 24), .ofNat (word data 2),
    (data.drop 16).take (word data 1 % 2 ^ 24), fds.take (word data 3)⟩

theorem word_lt (data : List UInt8) (i : ℕ) : word data i < 2 ^ 32 := by
  refine Nat.lt_of_lt_of_le (ofLe_lt _) ?_
  have hlen : ((data.drop (4 * i)).take 4).length ≤ 4 := length_take_le ..
  exact Nat.pow_le_pow_right (by decide) hlen

variable {data bytes l : List UInt8} {i n len : ℕ} {es es' : List (Event F)} {fds : List F}

theorem toLe_word (h : 4 * i + 4 ≤ data.length) :
    toLe 4 (word data i) = (data.drop (4 * i)).take 4 := by
  have hlen : ((data.drop (4 * i)).take 4).length = 4 := by
    rw [length_take, length_drop]
    omega
  conv_lhs => rw [← hlen]
  exact toLe_ofLe _

theorem drop_eq_append (data : List UInt8) (i : ℕ) :
    data.drop i = (data.drop i).take 4 ++ data.drop (i + 4) := by
  rw [← drop_drop, take_append_drop]

theorem eq_words (h : 16 ≤ data.length) :
    data = toLe 4 (word data 0) ++ (toLe 4 (word data 1) ++ (toLe 4 (word data 2) ++
      (toLe 4 (word data 3) ++ data.drop 16))) := by
  rw [toLe_word (by omega), toLe_word (by omega), toLe_word (by omega), toLe_word (by omega)]
  conv_lhs => rw [← drop_zero (l := data), drop_eq_append data 0, drop_eq_append data (0 + 4),
    drop_eq_append data (0 + 4 + 4), drop_eq_append data (0 + 4 + 4 + 4)]

/-- **Decoding and encoding**: a message has the bytes that it was read from. -/
theorem encode_decode (hlen : 16 + word data 1 % 2 ^ 24 ≤ data.length)
    (hfds : word data 3 ≤ fds.length) :
    (decode data fds).encode ++ data.drop (16 + word data 1 % 2 ^ 24) = data := by
  have hid : (UInt32.ofNat (word data 0)).toNat = word data 0 :=
    UInt32.toNat_ofNat_of_lt' (word_lt data 0)
  have hseq : (UInt32.ofNat (word data 2)).toNat = word data 2 :=
    UInt32.toNat_ofNat_of_lt' (word_lt data 2)
  have hopcode : (UInt8.ofNat (word data 1 / 2 ^ 24)).toNat = word data 1 / 2 ^ 24 := by
    have hlt := word_lt data 1
    exact UInt8.toNat_ofNat_of_lt' (show word data 1 / 2 ^ 24 < 256 by omega)
  have hpayload : ((data.drop 16).take (word data 1 % 2 ^ 24)).length = word data 1 % 2 ^ 24 := by
    rw [length_take, length_drop]
    omega
  have hn : (fds.take (word data 3)).length = word data 3 := by
    rw [length_take]
    omega
  have hword : word data 1 / 2 ^ 24 * 2 ^ 24 + word data 1 % 2 ^ 24 = word data 1 := by omega
  have htail : (data.drop 16).take (word data 1 % 2 ^ 24) ++ data.drop (16 + word data 1 % 2 ^ 24) =
      data.drop 16 := by
    rw [← drop_drop, take_append_drop]
  simp only [decode, Message.encode, hid, hseq, hopcode, hpayload, hn, hword, append_assoc,
    htail]
  exact (eq_words (by omega)).symm

theorem word_append {w r : List UInt8} (hl : l.length = 4 * i) (hw : w.length = 4) :
    word (l ++ (w ++ r)) i = ofLe w := by
  rw [word, ← hl, drop_left, ← hw, take_left]

section Encode

variable {m : Message F} {r : List UInt8}

theorem word_encode (hp : m.payload.length < 2 ^ 24) (hf : m.fds.length < 2 ^ 32) :
    word (m.encode ++ r) 0 = m.id.toNat ∧
      word (m.encode ++ r) 1 = m.opcode.toNat * 2 ^ 24 + m.payload.length ∧
      word (m.encode ++ r) 2 = m.seq.toNat ∧ word (m.encode ++ r) 3 = m.fds.length := by
  have hid := m.id.toNat_lt
  have hseq := m.seq.toNat_lt
  have hopcode := m.opcode.toNat_lt
  have hwords : m.encode ++ r = toLe 4 m.id.toNat ++
      (toLe 4 (m.opcode.toNat * 2 ^ 24 + m.payload.length) ++ (toLe 4 m.seq.toNat ++
        (toLe 4 m.fds.length ++ (m.payload ++ r)))) := by
    simp [Message.encode]
  rw [hwords]
  refine ⟨?_, ?_, ?_, ?_⟩
  · rw [← nil_append (toLe 4 m.id.toNat ++ _), word_append rfl (length_toLe 4 _),
      ofLe_toLe (by omega)]
  · rw [word_append (length_toLe 4 _) (length_toLe 4 _), ofLe_toLe (by omega)]
  · rw [← append_assoc, word_append (by simp) (length_toLe 4 _), ofLe_toLe (by omega)]
  · rw [← append_assoc, ← append_assoc, word_append (by simp) (length_toLe 4 _),
      ofLe_toLe (by omega)]

theorem length_encode : m.encode.length = 16 + m.payload.length := by
  simp only [Message.encode, length_append, length_toLe]
  omega

theorem drop_encode : (m.encode ++ r).drop 16 = m.payload ++ r := by
  have hwords : m.encode ++ r = (toLe 4 m.id.toNat ++
      (toLe 4 (m.opcode.toNat * 2 ^ 24 + m.payload.length) ++ (toLe 4 m.seq.toNat ++
        toLe 4 m.fds.length))) ++ (m.payload ++ r) := by
    simp [Message.encode]
  rw [hwords]
  exact drop_left' (by simp)

/-- **Encoding and decoding.** -/
theorem decode_encode (hp : m.payload.length < 2 ^ 24) (hf : m.fds.length < 2 ^ 32) :
    decode (m.encode ++ r) (m.fds ++ fds) = m := by
  obtain ⟨h0, h1, h2, h3⟩ := word_encode (r := r) hp hf
  have hopcode : (m.opcode.toNat * 2 ^ 24 + m.payload.length) / 2 ^ 24 = m.opcode.toNat := by omega
  have hlen : (m.opcode.toNat * 2 ^ 24 + m.payload.length) % 2 ^ 24 = m.payload.length := by omega
  simp only [decode, h0, h1, h2, h3, hopcode, hlen, drop_encode, take_left, UInt32.ofNat_toNat,
    UInt8.ofNat_toNat]

end Encode

/-! ## The receive buffer -/

/-- The bytes that were received and not returned. -/
def Conn.pending (c : Conn F) : List UInt8 :=
  (c.inb.data.drop c.inb.offset).take (c.inb.size - c.inb.offset)

@[inherit_doc Conn.pending]
def Conn.pendingFds (c : Conn F) : List F := c.inb.fds.drop c.inb.fdsOffset

/-- A connection of version 3, and its offsets. -/
structure Conn.Wf (c : Conn F) : Prop where
  version : c.version = 3
  hdrSize : c.hdrSize = 16
  offset : c.inb.offset ≤ c.inb.size
  size : c.inb.size ≤ c.inb.data.length
  fdsOffset : c.inb.fdsOffset ≤ c.inb.fds.length

theorem wf_new : (Conn.new : Conn F).Wf :=
  ⟨rfl, rfl, Nat.le_refl _, Nat.zero_le _, Nat.le_refl _⟩

section Conn

variable {c c' : Conn F} {m : Message F} {b : Buffer F}

theorem Conn.Wf.length_pending (hw : c.Wf) : c.pending.length = c.inb.size - c.inb.offset := by
  have hsize := hw.size
  rw [Conn.pending, length_take, length_drop]
  omega

theorem Conn.length_pendingFds (c : Conn F) :
    c.pendingFds.length = c.inb.fds.length - c.inb.fdsOffset := by
  rw [Conn.pendingFds, length_drop]

theorem word_take (h : 4 * i + 4 ≤ n) : word (l.take n) i = word l i := by
  rw [word, word, drop_take, take_take, Nat.min_eq_left (by omega)]

/-- A packet of an older version. -/
def Old (data : List UInt8) : Prop := isStart data ∧ 4 ≤ word data 3

theorem pending_ensureSize (n : ℕ) (hw : c.Wf) :
    ({ c with inb := c.inb.ensureSize n } : Conn F).Wf ∧
      ({ c with inb := c.inb.ensureSize n } : Conn F).pending = c.pending ∧
      ({ c with inb := c.inb.ensureSize n } : Conn F).pendingFds = c.pendingFds := by
  have hoffset := hw.offset
  have hsize := hw.size
  unfold Buffer.ensureSize
  split_ifs with hgrow
  · refine ⟨⟨hw.version, hw.hdrSize, hoffset, ?_, hw.fdsOffset⟩, ?_, rfl⟩
    · show c.inb.size ≤ (c.inb.data ++ _).length
      rw [length_append]
      omega
    · show (List.drop c.inb.offset (c.inb.data ++ _)).take (c.inb.size - c.inb.offset) = _
      rw [drop_append_of_le_length (by omega), take_append_of_le_length]
      · rfl
      · rw [length_drop]
        omega
  · exact ⟨hw, rfl, rfl⟩

theorem pending_store (bytes : List UInt8) (hw : c.Wf)
    (hroom : c.inb.size + bytes.length ≤ c.inb.data.length) (fds : List F) :
    ({ c with inb := { c.inb.store bytes with fds := c.inb.fds ++ fds } } : Conn F).Wf ∧
      ({ c with inb := { c.inb.store bytes with fds := c.inb.fds ++ fds } } : Conn F).pending =
        c.pending ++ bytes ∧
      ({ c with inb := { c.inb.store bytes with fds := c.inb.fds ++ fds } } : Conn F).pendingFds =
        c.pendingFds ++ fds := by
  have hoffset := hw.offset
  have hfds := hw.fdsOffset
  refine ⟨⟨hw.version, hw.hdrSize, ?_, ?_, ?_⟩, ?_, ?_⟩
  · exact Nat.le_trans hoffset (Nat.le_add_right _ _)
  · simp only [Buffer.store, length_append, length_take, length_drop]
    omega
  · show c.inb.fdsOffset ≤ (c.inb.fds ++ fds).length
    rw [length_append]
    omega
  · have hlen := hw.length_pending
    show ((c.inb.data.take c.inb.size ++ (bytes ++ c.inb.data.drop (c.inb.size + bytes.length))).drop
      c.inb.offset).take (c.inb.size + bytes.length - c.inb.offset) = c.pending ++ bytes
    rw [drop_append_of_le_length (by rw [length_take]; omega), drop_take,
      ← append_assoc]
    apply take_left'
    rw [length_append]
    show c.pending.length + _ = _
    omega
  · show (c.inb.fds ++ fds).drop c.inb.fdsOffset = _
    rw [drop_append_of_le_length hfds]
    rfl

theorem pending_consume (bytes : ℕ) (hw : c.Wf) (hn : n ≤ c.pendingFds.length) :
    ({ c with inb := c.inb.consume bytes n } : Conn F).Wf ∧
      ({ c with inb := c.inb.consume bytes n } : Conn F).pending = c.pending.drop bytes ∧
      ({ c with inb := c.inb.consume bytes n } : Conn F).pendingFds = c.pendingFds.drop n := by
  have hsize := hw.size
  have hfds := hw.fdsOffset
  have hlen := hw.length_pending
  have hlenFds := c.length_pendingFds
  have hfds' : c.inb.fds.drop (c.inb.fdsOffset + n) = c.pendingFds.drop n := by
    rw [Conn.pendingFds, drop_drop]
  simp only [Buffer.consume]
  split_ifs with hall
  · -- everything was returned
    refine ⟨⟨hw.version, hw.hdrSize, Nat.le_refl _, Nat.zero_le _, Nat.zero_le _⟩, ?_, hfds'⟩
    rw [drop_of_length_le (by omega)]
    simp [Conn.pending, Buffer.clear]
  · refine ⟨⟨hw.version, hw.hdrSize, ?_, hsize, ?_⟩, ?_, hfds'⟩
    · show c.inb.offset + bytes ≤ c.inb.size
      omega
    · show c.inb.fdsOffset + n ≤ c.inb.fds.length
      omega
    · show (c.inb.data.drop (c.inb.offset + bytes)).take (c.inb.size - (c.inb.offset + bytes)) = _
      rw [Conn.pending, drop_take, drop_drop, Nat.sub_sub]

/-! ## The next packet -/

/-- What `prepare_packet` does with a connection of version 3. -/
inductive Prepared (c : Conn F) : Packet F → Conn F → Prop
  | short (h : c.pending.length < 16) : Prepared c (.need 16) c
  | error (h : 16 ≤ c.pending.length)
    (hfds : maxFds < word c.pending 3 ∨ c.pendingFds.length < word c.pending 3) : Prepared c .error c
  | body (h : 16 ≤ c.pending.length)
    (hlen : c.pending.length < 16 + word c.pending 1 % 2 ^ 24) :
    Prepared c (.need (word c.pending 1 % 2 ^ 24)) c
  | message (hlen : 16 + word c.pending 1 % 2 ^ 24 ≤ c.pending.length)
    (hfds : word c.pending 3 ≤ c.pendingFds.length) (hmax : word c.pending 3 ≤ maxFds) :
    Prepared c (.message (c.inb.offset + 16) (decode c.pending c.pendingFds))
      { c with inb := c.inb.consume (16 + word c.pending 1 % 2 ^ 24) (word c.pending 3) }

theorem negotiate_eq (hw : c.Wf) (hstart : .start 0 ∉ (c.negotiate data).2) :
    ∃ es, c.negotiate data = (c, es) ∧ ∀ e ∈ es, e = .start 3 := by
  have hc : ({ c with version := 3, hdrSize := 16 } : Conn F) = c := by
    rw [← hw.version, ← hw.hdrSize]
  unfold Conn.negotiate at hstart ⊢
  split_ifs at hstart ⊢
  · exact absurd mem_cons_self hstart
  · exact ⟨[.start 3], by rw [hc], fun e he => mem_singleton.mp he⟩
  · exact ⟨[], rfl, nofun⟩

theorem header_pending (hlen : 16 ≤ c.pending.length) (hw : c.Wf) :
    header 3 (c.inb.data.drop c.inb.offset) =
      ⟨word c.pending 0, word c.pending 1 / 2 ^ 24, word c.pending 1 % 2 ^ 24, word c.pending 2,
        word c.pending 3⟩ := by
  rw [hw.length_pending] at hlen
  have hword : ∀ i < 4, word c.pending i = word (c.inb.data.drop c.inb.offset) i := fun i hi =>
    word_take (by omega)
  rw [hword 0 (by decide), hword 1 (by decide), hword 2 (by decide), hword 3 (by decide)]
  rfl

theorem preparePacket_events (hw : c.Wf) (hlen : 16 ≤ c.pending.length) :
    (preparePacket c).2.2 = (c.negotiate (c.inb.data.drop c.inb.offset)).2 := by
  unfold preparePacket
  rw [hw.hdrSize, ← hw.length_pending, if_neg (Nat.not_lt.mpr hlen)]
  dsimp only
  split_ifs <;> rfl

theorem start_not_mem (hw : c.Wf) (hnot : 16 ≤ c.pending.length → ¬ Old c.pending) :
    .start 0 ∉ (preparePacket c).2.2 := by
  by_cases hshort : c.pending.length < 16
  · have hprep : (preparePacket c).2.2 = [] := by
      unfold preparePacket
      rw [hw.hdrSize, ← hw.length_pending, if_pos hshort]
    rw [hprep]
    exact not_mem_nil
  · have hlen : 16 ≤ c.pending.length := Nat.le_of_not_lt hshort
    have hword : ∀ i < 4, word (c.inb.data.drop c.inb.offset) i = word c.pending i := by
      intro i hi
      rw [hw.length_pending] at hlen
      exact (word_take (by omega)).symm
    have hnot' := hnot hlen
    unfold Old isStart at hnot'
    rw [← hword 0 (by decide), ← hword 1 (by decide), ← hword 3 (by decide)] at hnot'
    rw [preparePacket_events hw hlen]
    unfold Conn.negotiate
    split_ifs with hstart hold
    · exact absurd ⟨hstart, hold⟩ hnot'
    · simp
    · exact not_mem_nil

theorem payload_pending (hw : c.Wf) (h : 16 + n ≤ c.pending.length) :
    ((c.inb.data.drop c.inb.offset).drop 16).take n = (c.pending.drop 16).take n := by
  rw [hw.length_pending] at h
  rw [Conn.pending, drop_take, take_take, Nat.min_eq_left (by omega)]

/-- **`prepare_packet`** for a peer that is not of an older version. -/
theorem preparePacket_spec (hw : c.Wf) (hstart : .start 0 ∉ (preparePacket c).2.2) :
    Prepared c (preparePacket c).1 (preparePacket c).2.1 ∧
      ∀ e ∈ (preparePacket c).2.2, e = .start 3 := by
  have hlenPending := hw.length_pending
  have hlenFds := c.length_pendingFds
  have hfdsOffset := hw.fdsOffset
  by_cases hshort : c.pending.length < 16
  · have hprep : preparePacket c = (.need 16, c, []) := by
      unfold preparePacket
      rw [hw.hdrSize, ← hlenPending, if_pos hshort]
    rw [hprep]
    exact ⟨.short hshort, nofun⟩
  have hlen : 16 ≤ c.pending.length := Nat.le_of_not_lt hshort
  rw [preparePacket_events hw hlen] at hstart ⊢
  obtain ⟨es, hneg, hes⟩ := negotiate_eq hw hstart
  refine ⟨?_, by rw [hneg]; exact hes⟩
  unfold preparePacket
  simp only [hw.hdrSize, ← hlenPending, if_neg hshort, hneg, hw.version, header_pending hlen hw]
  split_ifs with hfds hbody
  · exact .error hlen (hfds.imp_right (by omega))
  · exact .body hlen (by omega)
  · have hcomplete : 16 + word c.pending 1 % 2 ^ 24 ≤ c.pending.length := by omega
    have hn : word c.pending 3 ≤ c.pendingFds.length := by omega
    have hc : ∀ b : Buffer F, (⟨3, 16, b⟩ : Conn F) = { c with inb := b } := by
      intro b
      rw [hw.version, hw.hdrSize]
    rw [payload_pending hw hcomplete]
    show Prepared c (.message _ (decode c.pending c.pendingFds)) ⟨3, 16, c.inb.consume _ _⟩
    rw [hc]
    exact .message hcomplete hn (by omega)

/-! ## `get_next` -/

/-- The bytes and the descriptors that were stored. -/
def storedBytes (es : List (Event F)) : List UInt8 :=
  es.flatMap fun
    | .stored bytes _ => bytes
    | _ => []

@[inherit_doc storedBytes]
def storedFds (es : List (Event F)) : List F :=
  es.flatMap fun
    | .stored _ fds => fds
    | _ => []

theorem stored_start (h : ∀ e ∈ es, e = .start 3) : storedBytes es = [] ∧ storedFds es = [] := by
  refine ⟨flatMap_eq_nil_iff.mpr fun e he => ?_, flatMap_eq_nil_iff.mpr fun e he => ?_⟩
  · rw [h e he]
  · rw [h e he]

def Result.messages : Result F → List (Message F)
  | .message _ m => [m]
  | .error _ => []

/-- The bytes and the descriptors of messages. -/
def encodeAll (ms : List (Message F)) : List UInt8 := ms.flatMap Message.encode

@[inherit_doc encodeAll]
def fdsAll (ms : List (Message F)) : List F := ms.flatMap Message.fds

/-- `c` has become `c'` after storing `es` and returning `ms`. -/
structure Accounts (c c' : Conn F) (es : List (Event F)) (ms : List (Message F)) : Prop where
  wf : c'.Wf
  bytes : c.pending ++ storedBytes es = encodeAll ms ++ c'.pending
  fds : c.pendingFds ++ storedFds es = fdsAll ms ++ c'.pendingFds

theorem Prepared.accounts {ptr : ℕ} (hw : c.Wf) (h : Prepared c (.message ptr m) c')
    (hes : ∀ e ∈ es, e = .start 3) : Accounts c c' es [m] := by
  obtain ⟨hbytes, hfds⟩ := stored_start hes
  cases h with
  | message hlen hfds' hmax =>
    obtain ⟨hw', hpending, hpendingFds⟩ := pending_consume _ hw hfds'
    refine ⟨hw', ?_, ?_⟩
    · rw [hbytes, append_nil, hpending, encodeAll, flatMap_singleton,
        encode_decode hlen hfds']
    · rw [hfds, append_nil, hpendingFds, fdsAll, flatMap_singleton]
      exact (take_append_drop _ _).symm

theorem Accounts.of_pending (hw : c'.Wf) (hbytes : c'.pending = c.pending ++ storedBytes es)
    (hfds : c'.pendingFds = c.pendingFds ++ storedFds es) : Accounts c c' es [] :=
  ⟨hw, by rw [hbytes]; rfl, by rw [hfds]; rfl⟩

theorem Accounts.trans {c'' : Conn F} {ms ms' : List (Message F)} (h : Accounts c c' es ms)
    (h' : Accounts c' c'' es' ms') : Accounts c c'' (es ++ es') (ms ++ ms') := by
  have hbytes : storedBytes (es ++ es') = storedBytes es ++ storedBytes es' := flatMap_append
  have hfds : storedFds (es ++ es') = storedFds es ++ storedFds es' := flatMap_append
  refine ⟨h'.wf, ?_, ?_⟩
  · rw [hbytes, ← append_assoc, h.bytes, append_assoc, h'.bytes, ← append_assoc,
      encodeAll, encodeAll, encodeAll, flatMap_append]
  · rw [hfds, ← append_assoc, h.fds, append_assoc, h'.fds, ← append_assoc,
      fdsAll, fdsAll, fdsAll, flatMap_append]

theorem preparePacket_eq {pk : Packet F} (hw : c.Wf) (hp : preparePacket c = (pk, c', es))
    (hstart : .start 0 ∉ es) : Prepared c pk c' ∧ ∀ e ∈ es, e = .start 3 := by
  have hspec := preparePacket_spec hw
  rw [hp] at hspec
  exact hspec hstart

theorem Prepared.need (h : Prepared c (.need len) c') : c' = c := by
  cases h <;> rfl

theorem Prepared.failed (h : Prepared c .error c') : c' = c := by
  cases h
  rfl

theorem refill_accounts {ok : Bool} (hw : c.Wf)
    (hroom : c.inb.size + bytes.length ≤ c.inb.data.length)
    (h : c.inb.refill bytes fds = (ok, b, es)) : Accounts c { c with inb := b } es [] := by
  unfold Buffer.refill at h
  split_ifs at h
  · cases h
    exact .of_pending hw (append_nil _).symm (append_nil _).symm
  · cases h
    obtain ⟨hw', hbytes, hfds⟩ := pending_store bytes hw hroom []
    rw [append_nil c.inb.fds] at hw' hbytes hfds
    exact .of_pending hw' (hbytes.trans (by simp [storedBytes])) (hfds.trans (by simp [storedFds]))
  · cases h
    obtain ⟨hw', hbytes, hfds⟩ := pending_store bytes hw hroom fds
    exact .of_pending hw' (hbytes.trans (by simp [storedBytes])) (hfds.trans (by simp [storedFds]))

theorem ensureSize_accounts (len : ℕ) (hw : c.Wf) (hes : ∀ e ∈ es, e = .start 3) :
    Accounts c { c with inb := c.inb.ensureSize len } es [] := by
  obtain ⟨hbytes, hfds⟩ := stored_start hes
  obtain ⟨hw', hpending, hpendingFds⟩ := pending_ensureSize len hw
  exact .of_pending hw' (by rw [hbytes, append_nil, hpending])
    (by rw [hfds, append_nil, hpendingFds])

theorem received_accounts {ok : Bool} (hw : c.Wf) (hp : preparePacket c = (.need len, c', es))
    (hroom : (c'.inb.ensureSize len).size + bytes.length ≤ (c'.inb.ensureSize len).data.length)
    (hr : (c'.inb.ensureSize len).refill bytes fds = (ok, b, es'))
    (hstart : .start 0 ∉ es ++ [.recv fds.length (c'.inb.ensureSize len).fds.length] ++ es') :
    Accounts c { c' with inb := b }
      (es ++ [.recv fds.length (c'.inb.ensureSize len).fds.length] ++ es') [] := by
  obtain ⟨hprepared, hes⟩ := preparePacket_eq hw hp fun hmem =>
    hstart (mem_append_left _ (mem_append_left _ hmem))
  obtain rfl := hprepared.need
  have hgrown := ensureSize_accounts len hw hes
  have hstored := refill_accounts hgrown.wf hroom hr
  -- the call itself stores nothing
  have hrecv : Accounts _ _ [.recv fds.length (c'.inb.ensureSize len).fds.length] [] :=
    Accounts.of_pending hgrown.wf (append_nil _).symm (append_nil _).symm
  exact (hgrown.trans hrecv).trans hstored

/-- **`get_next`** returns what was received, and keeps the rest. -/
theorem Got.accounts {reads : List (List UInt8 × List F)} {res : Result F} (hw : c.Wf)
    (h : Got c reads res c' es) (hstart : .start 0 ∉ es) : Accounts c c' es res.messages := by
  induction h with
  | again hp =>
    obtain ⟨hprepared, hes⟩ := preparePacket_eq hw hp hstart
    obtain rfl := hprepared.need
    exact ensureSize_accounts _ hw hes
  | failed hp =>
    obtain ⟨hprepared, hes⟩ := preparePacket_eq hw hp hstart
    obtain rfl := hprepared.failed
    obtain ⟨hbytes, hfds⟩ := stored_start hes
    exact .of_pending hw (by rw [hbytes, append_nil]) (by rw [hfds, append_nil])
  | message hp =>
    obtain ⟨hprepared, hes⟩ := preparePacket_eq hw hp hstart
    exact hprepared.accounts hw hes
  | closed hp =>
    obtain ⟨hprepared, hes⟩ := preparePacket_eq hw hp hstart
    obtain rfl := hprepared.need
    exact ensureSize_accounts _ hw hes
  | rejected hp hroom hr =>
    exact received_accounts hw hp hroom hr hstart
  | more hp hroom hr _ ih =>
    have hfirst := received_accounts hw hp hroom hr fun hmem =>
      hstart (mem_append_left _ hmem)
    exact hfirst.trans (ih hfirst.wf fun hmem => hstart (mem_append_right _ hmem))

end Conn

end PipeWireAO.Native
