import PipeWireAO.Foundation.Machine
import PipeWireAO.Native.Send
import PipeWireAO.Foundation.Except

/-!
# Two connections and the socket between them

What one side writes is what the other side returns. Descriptors and bytes do not travel together: the
receiver takes a message only if its descriptors are there as soon as its header is. A message whose
descriptors fit into the four words of its header is always in time, whatever was written before it.
-/

namespace PipeWireAO.Native

open Foundation List Function Option

variable {F : Type*} {ns sent : List ℕ} {r : List UInt8 × List F} {es : List (Event ℕ)}
  {res : Result ℕ}

/-! ## One direction -/

/-- `recvmsg` returns `n` bytes and their descriptors. It does not go on to those of another
`sendmsg`. -/
def Wire.read (w : Wire F) (n : ℕ) : Option ((List UInt8 × List F) × Wire F) :=
  if n = 0 ∨ w.length < n ∨ 1 < (w.take n).countP (fun x => !x.2.isEmpty) then none
  else some (((w.take n).map Prod.fst, (w.take n).flatMap Prod.snd), w.drop n)

/-- Calls of `recvmsg`. -/
def Wire.reads : Wire F → List ℕ → Option (List (List UInt8 × List F) × Wire F)
  | w, [] => some ([], w)
  | w, n :: ns =>
    (Wire.read w n).bind fun r => (Wire.reads r.2 ns).map fun rs => (r.1 :: rs.1, rs.2)

theorem Wire.reads_nil {w w' : Wire F} (h : Wire.reads w ns = some ([], w')) : w = w' := by
  cases ns with
  | nil =>
    cases h
    rfl
  | cons n ns =>
    obtain ⟨r, -, hr⟩ := bind_eq_some_iff.mp h
    obtain ⟨rs, -, heq⟩ := map_eq_some_iff.mp hr
    cases heq

theorem Wire.reads_cons {w w' : Wire F} {rs : List (List UInt8 × List F)}
    (h : Wire.reads w ns = some (r :: rs, w')) :
    ∃ n ns' w₁, Wire.read w n = some (r, w₁) ∧ Wire.reads w₁ ns' = some (rs, w') := by
  cases ns with
  | nil => cases h
  | cons n ns =>
    obtain ⟨⟨r', w₁⟩, hread, hr⟩ := bind_eq_some_iff.mp h
    obtain ⟨⟨rs', w₂⟩, hreads, heq⟩ := map_eq_some_iff.mp hr
    cases heq
    exact ⟨n, ns, w₁, hread, hreads⟩

/-- One direction: what is to be sent, what is in the socket, and the connection that receives it. -/
structure Link (F : Type*) where
  out : Out F
  wire : Wire F
  conn : Conn F

namespace Link

/-- Nothing was sent. -/
def new : Link F := ⟨.new, [], .new⟩

/-- Calls of the two connections, with the answers of `sendmsg` and `recvmsg`. -/
inductive Act (F : Type*)
  | write (id : UInt32) (opcode : UInt8) (payload : List UInt8) (calls : List (Option F × Option F))
  | flush (sent : List ℕ)
  | getNext (reads : List ℕ)

/-- What happens: a message was written, there is an event of `get_next`, and it returns. -/
inductive Note (F : Type*)
  | wrote (m : Message F)
  | event (e : Event F)
  | result (r : Result F)
deriving DecidableEq

/-- A call; `version` is the one of the connection that sends. -/
def step [DecidableEq F] (version : ℕ) (l : Link F) : Act F → Option (Link F × List (Note F))
  | .write id opcode payload calls =>
    let (m, out) := l.out.write version id opcode payload calls
    some ({ l with out }, m.toList.map .wrote)
  | .flush sent =>
    (l.out.flush sent).map fun r => ({ l with out := r.2, wire := l.wire ++ r.1 }, [])
  | .getNext ns =>
    (Wire.reads l.wire ns).bind fun r => (Native.getNext l.conn r.1).map fun g =>
      ({ l with wire := r.2, conn := g.2.1 }, g.2.2.map .event ++ [.result g.1])

end Link

/-- Two connections: a side sends through its own link, and it receives through the other one. -/
def duplex [DecidableEq F] : Machine (Bool → Link F) (Bool × Link.Act F) (Bool × Link.Note F) where
  step s a := ((s a.1).step (s !a.1).conn.version a.2).map fun r =>
    (update s a.1 r.1, r.2.map fun n => (a.1, n))

/-! ## Descriptors and bytes -/

/-- The descriptors of the messages that have their header among the first `n` bytes. -/
def need : List (Message F) → ℕ → ℕ
  | [], _ => 0
  | m :: ms, n => if 16 ≤ n then m.fds.length + need ms (n - m.encode.length) else 0

section Need

variable {m : Message F} {ms : List (Message F)} {n : ℕ}

theorem need_le (ms : List (Message F)) (n : ℕ) : need ms n ≤ (fdsAll ms).length := by
  induction ms generalizing n with
  | nil => exact Nat.zero_le _
  | cons m ms ih =>
    have hrest := ih (n - m.encode.length)
    rw [need, fdsAll, flatMap_cons, length_append]
    split_ifs
    · exact Nat.add_le_add_left hrest _
    · exact Nat.zero_le _

theorem need_of_le (h : (encodeAll ms).length ≤ n) : need ms n = (fdsAll ms).length := by
  induction ms generalizing n with
  | nil => rfl
  | cons m ms ih =>
    rw [encodeAll, flatMap_cons, length_append] at h
    have hlen := length_encode (m := m)
    rw [need, if_pos (by omega), ih (Nat.le_sub_of_add_le' h), fdsAll, fdsAll, flatMap_cons,
      length_append]

theorem need_concat : need (ms ++ [m]) n =
    need ms n + if (encodeAll ms).length + 16 ≤ n then m.fds.length else 0 := by
  induction ms generalizing n with
  | nil => simp [need, encodeAll]
  | cons m' ms ih =>
    rw [cons_append, need, need, ih, encodeAll, encodeAll, flatMap_cons, length_append]
    by_cases hn : 16 ≤ n
    · rw [if_pos hn, if_pos hn, Nat.add_assoc]
      congr 2
      exact if_congr (by omega) rfl rfl
    · rw [if_neg hn, if_neg hn, if_neg (by omega)]

theorem need_cons : need (m :: ms) (m.encode.length + n) = m.fds.length + need ms n := by
  have hlen := length_encode (m := m)
  rw [need, if_pos (by omega), Nat.add_sub_cancel_left]

end Need

/-! ## Messages on their way -/

/-- A message whose descriptors fit into the words of its header, and that is not taken for an older
one. -/
structure Sendable (m : Message F) : Prop where
  fds : m.fds.length ≤ 4 * maxFdsMsg
  start : ¬ (m.id = 0 ∧ m.opcode = 1 ∧ 4 ≤ m.fds.length)

/-- The messages that were written and not returned. The bytes that will have arrived after some time
come with the descriptors that they need. -/
structure Carried (c : Conn F) (w : Wire F) (o : Out F) (ms : List (Message F)) : Prop where
  wf : c.Wf
  bytes : c.pending ++ (w.map Prod.fst ++ o.bytes) = encodeAll ms
  fds : c.pendingFds ++ (w.flatMap Prod.snd ++ o.fds) = fdsAll ms
  payload : ∀ m ∈ ms, m.payload.length < 2 ^ 24
  sendable : ∀ m ∈ ms, Sendable m
  batches : ∀ x ∈ w, x.2.length ≤ maxFdsMsg
  wire : ∀ n ≤ w.length,
    need ms (c.pending.length + n) ≤ c.pendingFds.length + ((w.take n).flatMap Prod.snd).length
  out : ∀ n ≤ o.bytes.length, need ms (c.pending.length + w.length + n) ≤
    c.pendingFds.length + (w.flatMap Prod.snd).length + maxFdsMsg * ((n + 3) / 4)

theorem carried_new : Carried (.new : Conn F) [] .new [] where
  wf := wf_new
  bytes := rfl
  fds := rfl
  payload := nofun
  sendable := nofun
  batches := nofun
  wire _ _ := Nat.zero_le _
  out _ _ := Nat.zero_le _

section Carried

variable {c c' : Conn F} {w w' : Wire F} {o : Out F} {ms : List (Message F)} {m : Message F}

theorem Carried.length_bytes (h : Carried c w o ms) :
    (encodeAll ms).length = c.pending.length + w.length + o.bytes.length := by
  rw [← h.bytes, length_append, length_append, length_map, Nat.add_assoc]

theorem Carried.length_fds (h : Carried c w o ms) :
    (fdsAll ms).length = c.pendingFds.length + (w.flatMap Prod.snd).length + o.fds.length := by
  rw [← h.fds, length_append, length_append, Nat.add_assoc]

theorem Carried.fds_le (h : Carried c w o ms) :
    o.fds.length ≤ maxFdsMsg * ((o.bytes.length + 3) / 4) := by
  have hout := h.out _ (Nat.le_refl _)
  have hbytes := h.length_bytes
  have hfds := h.length_fds
  rw [need_of_le (by omega)] at hout
  omega

/-- **A message is written**: its header has room for its descriptors. -/
theorem Carried.write (h : Carried c w o ms) (hp : m.payload.length < 2 ^ 24) (hm : Sendable m)
    (seq : UInt32) : Carried c w ⟨o.bytes ++ m.encode, o.fds ++ m.fds, seq⟩ (ms ++ [m]) := by
  have hbytes := h.length_bytes
  have hfds := h.length_fds
  have hle := h.fds_le
  refine ⟨h.wf, ?_, ?_, ?_, ?_, h.batches, ?_, ?_⟩
  · rw [encodeAll, flatMap_append, flatMap_singleton, ← encodeAll, ← h.bytes]
    simp only [append_assoc]
  · rw [fdsAll, flatMap_append, flatMap_singleton, ← fdsAll, ← h.fds]
    simp only [append_assoc]
  · exact forall_mem_concat h.payload hp
  · exact forall_mem_concat h.sendable hm
  · intro n hn
    have hold := h.wire n hn
    rw [need_concat, if_neg (by omega)]
    exact hold
  · intro n hn
    have hfit := hm.fds
    have hall := need_le ms (c.pending.length + w.length + n)
    rw [need_concat]
    by_cases hin : n ≤ o.bytes.length
    · rw [if_neg (by omega)]
      exact h.out n hin
    · -- beyond the bytes that were there, all of the old descriptors are needed
      split_ifs
      · have hroom : (o.bytes.length + 3) / 4 + 4 ≤ (n + 3) / 4 := by omega
        have := Nat.mul_le_mul_left maxFdsMsg hroom
        rw [Nat.mul_add] at this
        omega
      · have hroom : (o.bytes.length + 3) / 4 ≤ (n + 3) / 4 := by omega
        have := Nat.mul_le_mul_left maxFdsMsg hroom
        omega

/-- The batch of one `sendmsg`: all of the descriptors, or as many as four bytes need. -/
theorem Out.outFds_spec (o : Out F) : o.outFds ≤ maxFdsMsg ∧ o.outFds ≤ o.fds.length ∧
    (o.outFds = o.fds.length ∨ o.outFds = maxFdsMsg ∧ o.outSize ≤ 4) ∧
    o.outSize ≤ o.bytes.length := by
  unfold Out.outFds Out.outSize
  split_ifs
  · exact ⟨Nat.le_refl _, by omega, .inr ⟨rfl, Nat.min_le_left ..⟩, Nat.min_le_right ..⟩
  · exact ⟨by omega, Nat.le_refl _, .inl rfl, Nat.le_refl _⟩

/-- **`sendmsg`**: the descriptors are sent ahead of their messages. -/
theorem Carried.sendmsg (h : Carried c w o ms) {sent : ℕ} (hpos : 0 < sent)
    (hle : sent ≤ o.outSize) : Carried c (w ++ (o.sendmsg sent).1) (o.sendmsg sent).2 ms := by
  obtain ⟨hmax, hlen, hbatch, hsize⟩ := o.outFds_spec
  have hfds := h.length_fds
  have hsent : (o.bytes.take sent).length = sent := by
    rw [length_take]
    omega
  have hne : o.bytes.take sent ≠ [] := by
    intro hnil
    rw [hnil] at hsent
    exact absurd hsent (Nat.ne_of_lt hpos)
  have hout : (o.fds.take o.outFds).length = o.outFds := by
    rw [length_take]
    omega
  have hall : ((batch (o.fds.take o.outFds) (o.bytes.take sent)).flatMap Prod.snd) =
      o.fds.take o.outFds := by
    have hfirst := batch_fds_take (o.fds.take o.outFds) hpos hne
    rwa [take_of_length_le (by rw [length_batch]; omega)] at hfirst
  refine ⟨h.wf, ?_, ?_, h.payload, h.sendable, ?_, ?_, ?_⟩
  · show _ ++ ((w ++ batch _ _).map Prod.fst ++ o.bytes.drop sent) = _
    rw [map_append, batch_bytes, append_assoc, take_append_drop, h.bytes]
  · show _ ++ ((w ++ batch _ _).flatMap Prod.snd ++ o.fds.drop o.outFds) = _
    rw [flatMap_append, hall, append_assoc, take_append_drop, h.fds]
  · intro x hx
    rcases mem_append.mp hx with hx | hx
    · exact h.batches x hx
    · rcases batch_mem hx with hx | hx
      · rw [hx, hout]
        exact hmax
      · rw [hx]
        exact Nat.zero_le _
  · intro n hn
    show need ms _ ≤ _ + (((w ++ batch _ _).take n).flatMap Prod.snd).length
    rw [length_append, Out.sendmsg, length_batch, hsent] at hn
    rw [take_append, flatMap_append, length_append]
    by_cases hin : n ≤ w.length
    · have hold := h.wire n hin
      omega
    · -- the first byte of the batch brings all of its descriptors
      rw [take_of_length_le (by omega), batch_fds_take _ (by omega) hne, hout]
      rcases hbatch with hbatch | ⟨hbatch, hfour⟩
      · have := need_le ms (c.pending.length + n)
        omega
      · have hnew := h.out (n - w.length) (by omega)
        rw [show c.pending.length + w.length + (n - w.length) = c.pending.length + n by omega,
          show (n - w.length + 3) / 4 = 1 by omega] at hnew
        omega
  · intro n hn
    show need ms (_ + (w ++ batch _ _).length + n) ≤ _ + ((w ++ batch _ _).flatMap Prod.snd).length + _
    have hn' : n ≤ (o.bytes.drop sent).length := hn
    rw [length_drop] at hn'
    rw [length_append, length_batch, hsent, flatMap_append, length_append, hall, hout]
    rcases hbatch with hbatch | ⟨hbatch, hfour⟩
    · have := need_le ms (c.pending.length + (w.length + sent) + n)
      omega
    · have hnew := h.out (sent + n) (by omega)
      have hroom : (sent + n + 3) / 4 ≤ 1 + (n + 3) / 4 := by omega
      have := Nat.mul_le_mul_left maxFdsMsg hroom
      rw [Nat.mul_add] at this
      rw [show c.pending.length + w.length + (sent + n) =
        c.pending.length + (w.length + sent) + n by omega] at hnew
      omega

/-- **`flush`**, for any partial sends. -/
theorem Carried.flush (h : Carried c w o ms) {o' : Out F} (hf : o.flush sent = some (w', o')) :
    Carried c (w ++ w') o' ms := by
  induction sent generalizing w w' o with
  | nil =>
    cases hf
    rwa [append_nil]
  | cons n more ih =>
    rw [Out.flush] at hf
    split_ifs at hf with hn
    obtain ⟨⟨w₁, o₁⟩, hrest, heq⟩ := map_eq_some_iff.mp hf
    cases heq
    obtain ⟨hpos, hle⟩ := not_or.mp hn
    have hnext := ih (h.sendmsg (Nat.pos_of_ne_zero hpos) (Nat.le_of_not_lt hle)) hrest
    rwa [append_assoc] at hnext

/-! ### Receiving -/

theorem length_flatMap_le (hb : ∀ x ∈ w, x.2.length ≤ maxFdsMsg) :
    (w.flatMap Prod.snd).length ≤ maxFdsMsg * w.countP fun x => !x.2.isEmpty := by
  induction w with
  | nil => exact Nat.zero_le _
  | cons x w ih =>
    have hx := hb x mem_cons_self
    have hw := ih fun y hy => hb y (mem_cons_of_mem x hy)
    rw [flatMap_cons, length_append, countP_cons, Nat.mul_add]
    by_cases hnil : x.2 = []
    · simpa [hnil] using hw
    · have hpos : (!x.2.isEmpty) = true := by simpa using hnil
      rw [if_pos hpos]
      omega

theorem Carried.read (h : Carried c w o ms) {n : ℕ} (hr : Wire.read w n = some (r, w')) :
    r.1 ≠ [] ∧ r.2.length ≤ maxFdsMsg ∧ ∀ c' : Conn F, c'.Wf → c'.pending = c.pending ++ r.1 →
      c'.pendingFds = c.pendingFds ++ r.2 → Carried c' w' o ms := by
  unfold Wire.read at hr
  split_ifs at hr with hn
  cases hr
  obtain ⟨hpos, hn⟩ := not_or.mp hn
  obtain ⟨hle, hone⟩ := not_or.mp hn
  have hlen : (w.take n).length = n := by
    rw [length_take]
    omega
  have htake : ∀ k, (w.take n).flatMap Prod.snd ++ ((w.drop n).take k).flatMap Prod.snd =
      (w.take (n + k)).flatMap Prod.snd := by
    intro k
    rw [take_add, flatMap_append]
  have hall : (w.take n).flatMap Prod.snd ++ (w.drop n).flatMap Prod.snd = w.flatMap Prod.snd := by
    rw [← flatMap_append, take_append_drop]
  refine ⟨?_, ?_, ?_⟩
  · intro hnil
    rw [← length_eq_zero_iff, length_map, hlen] at hnil
    exact hpos hnil
  · have hbatch := length_flatMap_le (w := w.take n) fun x hx => h.batches x (mem_of_mem_take hx)
    exact Nat.le_trans hbatch (Nat.mul_le_mul_left maxFdsMsg (Nat.le_of_not_lt hone))
  · intro c' hw' hbytes hfds
    have hlenBytes : c'.pending.length = c.pending.length + n := by
      rw [hbytes, length_append, length_map, hlen]
    have hlenFds : c'.pendingFds.length =
        c.pendingFds.length + ((w.take n).flatMap Prod.snd).length := by
      rw [hfds, length_append]
    refine ⟨hw', ?_, ?_, h.payload, h.sendable, fun x hx => h.batches x (mem_of_mem_drop hx),
      ?_, ?_⟩
    · rw [hbytes, append_assoc, ← append_assoc ((w.take n).map _), ← map_append,
        take_append_drop, h.bytes]
    · rw [hfds, append_assoc, ← append_assoc (List.flatMap _ (w.take n)), hall, h.fds]
    · intro k hk
      rw [length_drop] at hk
      have hold := h.wire (n + k) (by omega)
      rw [hlenBytes, hlenFds, Nat.add_assoc, Nat.add_assoc, ← length_append, htake]
      exact hold
    · intro k hk
      have hold := h.out k hk
      rw [hlenBytes, hlenFds, length_drop, Nat.add_assoc c.pendingFds.length,
        ← length_append, hall,
        show c.pending.length + n + (w.length - n) + k = c.pending.length + w.length + k by omega]
      exact hold

theorem Carried.header (h : Carried c w o ms) (hlen : 16 ≤ c.pending.length) :
    ∃ m ms', ms = m :: ms' ∧ word c.pending 0 = m.id.toNat ∧
      word c.pending 1 = m.opcode.toNat * 2 ^ 24 + m.payload.length ∧
      word c.pending 3 = m.fds.length ∧ m.fds.length ≤ c.pendingFds.length := by
  have hbytes := h.bytes
  cases ms with
  | nil =>
    obtain ⟨hnil, -⟩ := append_eq_nil_iff.mp hbytes
    rw [hnil] at hlen
    exact absurd hlen (by decide)
  | cons m ms' =>
    have hfds : m.fds.length < 2 ^ 32 :=
      Nat.lt_of_le_of_lt (h.sendable m mem_cons_self).fds (by decide)
    obtain ⟨h0, h1, -, h3⟩ :=
      word_encode (r := encodeAll ms') (h.payload m mem_cons_self) hfds
    have hword : ∀ i < 4, word c.pending i = word (m.encode ++ encodeAll ms') i := by
      intro i hi
      have hall : c.pending ++ (w.map Prod.fst ++ o.bytes) = m.encode ++ encodeAll ms' := hbytes
      rw [← hall, ← word_take (l := _ ++ _) (n := c.pending.length) (by omega), take_left]
    have hneed := h.wire 0 (Nat.zero_le _)
    rw [Nat.add_zero, need, if_pos hlen] at hneed
    refine ⟨m, ms', rfl, (hword 0 (by decide)).trans h0, (hword 1 (by decide)).trans h1,
      (hword 3 (by decide)).trans h3, ?_⟩
    have : (List.flatMap Prod.snd (w.take 0)).length = 0 := by rw [take_zero]; rfl
    omega

theorem Carried.returned (h : Carried c w o (m :: ms)) (hw' : c'.Wf)
    (hlen : 16 + m.payload.length ≤ c.pending.length) (hfds : m.fds.length ≤ c.pendingFds.length)
    (hb : c'.pending = c.pending.drop (16 + m.payload.length))
    (hf : c'.pendingFds = c.pendingFds.drop m.fds.length) :
    decode c.pending c.pendingFds = m ∧ Carried c' w o ms := by
  have hp := h.payload m mem_cons_self
  have hs := (h.sendable m mem_cons_self).fds
  have hencode := length_encode (m := m)
  have hbytes : c.pending ++ (w.map Prod.fst ++ o.bytes) = m.encode ++ encodeAll ms := h.bytes
  have hdescr : c.pendingFds ++ (w.flatMap Prod.snd ++ o.fds) = m.fds ++ fdsAll ms := h.fds
  obtain ⟨r, hr⟩ := prefix_of_prefix_length_le (prefix_append m.encode (encodeAll ms))
    (hbytes ▸ prefix_append c.pending _) (by omega)
  obtain ⟨f, hf'⟩ := prefix_of_prefix_length_le (prefix_append m.fds (fdsAll ms))
    (hdescr ▸ prefix_append c.pendingFds _) hfds
  rw [← hr, ← hencode, drop_left] at hb
  rw [← hf', drop_left] at hf
  rw [← hr, append_assoc, ← hb] at hbytes
  rw [← hf', append_assoc, ← hf] at hdescr
  have hlenBytes : c.pending.length = m.encode.length + c'.pending.length := by
    rw [← hr, ← hb, length_append]
  have hlenFds : c.pendingFds.length = m.fds.length + c'.pendingFds.length := by
    rw [← hf', ← hf, length_append]
  refine ⟨?_, hw', append_cancel_left hbytes, append_cancel_left hdescr, ?_, ?_,
    h.batches, ?_, ?_⟩
  · rw [← hr, ← hf', decode_encode hp (Nat.lt_of_le_of_lt hs (by decide))]
  · exact fun m' hm' => h.payload m' (mem_cons_of_mem m hm')
  · exact fun m' hm' => h.sendable m' (mem_cons_of_mem m hm')
  · intro n hn
    have hold := h.wire n hn
    rw [hlenBytes, hlenFds, Nat.add_assoc, need_cons] at hold
    omega
  · intro n hn
    have hold := h.out n hn
    rw [hlenBytes, hlenFds, Nat.add_assoc, Nat.add_assoc, need_cons, ← Nat.add_assoc] at hold
    omega

/-- **`prepare_packet`** does not fail, and returns the first message. -/
theorem Carried.prepared (h : Carried c w o ms) {pk : Packet F} {es : List (Event F)}
    (hp : preparePacket c = (pk, c', es)) : .start 0 ∉ es ∧ ((∃ len, pk = .need len ∧ c' = c) ∨
        ∃ ptr m ms', pk = .message ptr m ∧ ms = m :: ms' ∧ Carried c' w o ms') := by
  have hold : 16 ≤ c.pending.length → ¬ Old c.pending := by
    rintro hlen ⟨⟨hid, hopcode⟩, hn⟩
    obtain ⟨m, ms', rfl, h0, h1, h3, -⟩ := h.header hlen
    have hpayload := h.payload m mem_cons_self
    refine (h.sendable m mem_cons_self).start ⟨?_, ?_, h3 ▸ hn⟩
    · exact UInt32.toNat_inj.mp (h0.symm.trans hid)
    · have hone : m.opcode.toNat = 1 := by omega
      exact UInt8.toNat_inj.mp hone
  have hstart := start_not_mem h.wf hold
  rw [hp] at hstart
  obtain ⟨hprepared, -⟩ := preparePacket_eq h.wf hp hstart
  refine ⟨hstart, ?_⟩
  cases hprepared with
  | short hlen => exact .inl ⟨_, rfl, rfl⟩
  | error hlen hfds =>
    -- the descriptors are there
    obtain ⟨m, ms', rfl, -, -, h3, hle⟩ := h.header hlen
    have hmax : m.fds.length ≤ maxFds :=
      Nat.le_trans (h.sendable m mem_cons_self).fds (by decide)
    omega
  | body hlen hshort => exact .inl ⟨_, rfl, rfl⟩
  | message hlen hfds hmax =>
    obtain ⟨m, ms', rfl, -, h1, h3, hle⟩ := h.header (by omega)
    have hpayload := h.payload m mem_cons_self
    have hsize : word c.pending 1 % 2 ^ 24 = m.payload.length := by omega
    obtain ⟨hw', hb, hf⟩ := pending_consume (16 + word c.pending 1 % 2 ^ 24) h.wf hfds
    rw [hsize] at hlen
    rw [hsize, h3] at hw' hb hf ⊢
    obtain ⟨hm, hc'⟩ := h.returned hw' hlen hle hb hf
    exact .inr ⟨_, m, ms', by rw [hm], rfl, hc'⟩

theorem Carried.grow (h : Carried c w o ms) (len : ℕ) :
    Carried { c with inb := c.inb.ensureSize len } w o ms := by
  obtain ⟨hw', hb, hf⟩ := pending_ensureSize len h.wf
  refine ⟨hw', ?_, ?_, h.payload, h.sendable, h.batches, ?_, ?_⟩
  · rw [hb]
    exact h.bytes
  · rw [hf]
    exact h.fds
  · rw [hb, hf]
    exact h.wire
  · rw [hb, hf]
    exact h.out

theorem Buffer.refill_eq {b : Buffer F} {bytes : List UInt8} {fds : List F}
    (hfds : fds.length ≤ maxFdsMsg) (hmax : fds.length + b.fds.length ≤ maxFds) :
    b.refill bytes fds = (true, { b.store bytes with fds := b.fds ++ fds }, [.stored bytes fds]) := by
  rw [Buffer.refill, if_neg (Nat.not_lt.mpr hfds), if_neg (Nat.not_lt.mpr hmax)]

/-- **`get_next`**, for any fragmentation, does not fail and returns the first message. The receive
buffer has room for the descriptors of every read. -/
theorem Got.carried {reads : List (List UInt8 × List F)} {res : Result F} {es : List (Event F)}
    (h : Got c reads res c' es) (hns : Wire.reads w ns = some (reads, w')) (hc : Carried c w o ms)
    (hroom : ∀ n held, .recv n held ∈ es → n + held ≤ maxFds) :
    res ≠ .error (-eProto) ∧ ∃ ms', ms = res.messages ++ ms' ∧ Carried c' w' o ms' := by
  induction h generalizing w ns with
  | again hp =>
    obtain ⟨-, ⟨len, -, rfl⟩ | ⟨ptr, m, ms', heq, -⟩⟩ := hc.prepared hp
    · obtain rfl := Wire.reads_nil hns
      exact ⟨by simp [eAgain, eProto], ms, rfl, hc.grow _⟩
    · cases heq
  | failed hp =>
    obtain ⟨-, ⟨len, heq, -⟩ | ⟨ptr, m, ms', heq, -⟩⟩ := hc.prepared hp <;> cases heq
  | message hp =>
    obtain ⟨-, ⟨len, heq, -⟩ | ⟨ptr, m, ms', heq, rfl, hc'⟩⟩ := hc.prepared hp
    · cases heq
    · cases heq
      obtain rfl := Wire.reads_nil hns
      exact ⟨nofun, ms', rfl, hc'⟩
  | closed hp =>
    obtain ⟨n, ns, w₁, hread, -⟩ := Wire.reads_cons hns
    exact absurd rfl (hc.read hread).1
  | @rejected c c₁ len bytes fds b es es' hp hsize hr =>
    obtain ⟨n, ns, w₁, hread, -⟩ := Wire.reads_cons hns
    obtain ⟨-, hfds, -⟩ := hc.read hread
    have hmax := hroom fds.length (c₁.inb.ensureSize len).fds.length (by simp)
    rw [Buffer.refill_eq hfds hmax] at hr
    cases hr
  | @more c c₁ c' len bytes fds reads res b es es' es'' hp hsize hr _ ih =>
    obtain ⟨n, ns, w₁, hread, hns'⟩ := Wire.reads_cons hns
    obtain ⟨hstart, ⟨len', heq, rfl⟩ | ⟨ptr, m, ms', heq, -⟩⟩ := hc.prepared hp
    · cases heq
      obtain ⟨-, hfds, hstored⟩ := (hc.grow len).read hread
      have hmax := hroom fds.length (c₁.inb.ensureSize len).fds.length (by simp)
      rw [Buffer.refill_eq hfds hmax] at hr
      cases hr
      obtain ⟨hw', hb, hf⟩ := pending_store bytes (hc.grow len).wf hsize fds
      exact ih hns' (hstored _ hw' hb hf) fun n held hmem =>
        hroom n held (mem_append_right _ hmem)
    · cases heq

theorem Carried.idle (h : Carried c [] o (m :: ms)) (hout : o.bytes = []) :
    ∃ ptr c' es, getNext c [] = some (.message ptr m, c', es) := by
  have hbytes := h.length_bytes
  have hencode := length_encode (m := m)
  rw [hout, encodeAll, flatMap_cons, length_append] at hbytes
  rcases hp : preparePacket c with ⟨pk, c', es⟩
  obtain ⟨hstart, ⟨len, rfl, rfl⟩ | ⟨ptr, m', ms', rfl, heq, -⟩⟩ := h.prepared hp
  · -- nothing is missing
    obtain ⟨hprepared, -⟩ := preparePacket_eq h.wf hp hstart
    have hlen : 16 + m.payload.length ≤ c'.pending.length := by
      simp only [length_nil] at hbytes
      omega
    obtain ⟨m', ms', heq, -, h1, -⟩ := h.header (by omega)
    cases heq
    cases hprepared with
    | short hshort | body hlen' hshort => omega
  · cases heq
    refine ⟨ptr, c', es, ?_⟩
    rw [getNext, hp]

end Carried

/-! ## Runs -/

def Link.Note.written : Link.Note F → List (Message F)
  | .wrote m => [m]
  | _ => []

def Link.Note.returned : Link.Note F → List (Message F)
  | .result r => r.messages
  | _ => []

def written (e : Bool) (tr : List (Bool × Link.Note F)) : List (Message F) :=
  (tr.filterMap (eventAt e)).flatMap Link.Note.written

/-- The messages of a link that were returned, in order. -/
def returned (e : Bool) (tr : List (Bool × Link.Note F)) : List (Message F) :=
  (tr.filterMap (eventAt e)).flatMap Link.Note.returned

section Run

variable [DecidableEq F]

/-- **One step of a link.** What was on its way or is written was returned, or is still on its way. -/
theorem Link.step_carried {l l' : Link F} {a : Link.Act F} {notes : List (Link.Note F)}
    {ms : List (Message F)} (h : Carried l.conn l.wire l.out ms) (hs : l.step 3 a = some (l', notes))
    (hsmall : ∀ m, .wrote m ∈ notes → Sendable m)
    (hroom : ∀ n held, .event (.recv n held) ∈ notes → n + held ≤ maxFds) :
    .result (.error (-eProto)) ∉ notes ∧
      ∃ ms', ms ++ notes.flatMap Note.written = notes.flatMap Note.returned ++ ms' ∧
        Carried l'.conn l'.wire l'.out ms' := by
  cases a with
  | write id opcode payload calls =>
    simp only [step, Out.write, le_refl, if_true] at hs
    split_ifs at hs with hlarge
    · cases hs
      exact ⟨not_mem_nil, ms, by simp, h⟩
    · cases hs
      refine ⟨by simp, _, by simp [Note.written, Note.returned], h.write ?_ ?_ _⟩
      · show payload.length < 2 ^ 24
        omega
      · exact hsmall _ (by simp)
  | flush sent =>
    obtain ⟨⟨w, o⟩, hf, heq⟩ := map_eq_some_iff.mp hs
    cases heq
    exact ⟨not_mem_nil, ms, by simp, h.flush hf⟩
  | getNext ns =>
    obtain ⟨⟨reads, w⟩, hreads, hs⟩ := bind_eq_some_iff.mp hs
    obtain ⟨⟨res, c, es⟩, hg, heq⟩ := map_eq_some_iff.mp hs
    cases heq
    obtain ⟨hres, ms', hms, hc⟩ := (getNext_got hg).carried hreads h fun n held hmem =>
      hroom n held (mem_append_left _ (mem_map_of_mem hmem))
    have hevents : ∀ f : Note F → List (Message F), (∀ e, f (.event e) = []) →
        (es.map Note.event ++ [Note.result res]).flatMap f = f (.result res) := by
      intro f hf
      simp [flatMap_append, flatMap_map, hf]
    refine ⟨?_, ms', ?_, hc⟩
    · simp only [mem_append, List.mem_map, reduceCtorEq, and_false, exists_false, false_or,
        mem_singleton, Note.result.injEq]
      exact fun heq => hres heq.symm
    · rw [hevents Note.written fun _ => rfl, hevents Note.returned fun _ => rfl]
      exact (append_nil ms).trans hms

/-- **One step of a side**, if the steps before it have kept the messages of both directions. -/
theorem duplex_carried {s : Bool → Link F} {tr : List (Bool × Link.Note F)}
    (h : duplex.Reaches (fun _ => Link.new) s tr) (hsmall : ∀ e m, (e, .wrote m) ∈ tr → Sendable m)
    (hroom : ∀ e n held, (e, .event (.recv n held)) ∈ tr → n + held ≤ maxFds) (e : Bool) :
    (e, .result (.error (-eProto))) ∉ tr ∧ ∃ ms, written e tr = returned e tr ++ ms ∧
        Carried (s e).conn (s e).wire (s e).out ms := by
  induction h generalizing e with
  | refl => exact ⟨not_mem_nil, [], rfl, carried_new⟩
  | @snoc s s' tr es a _ hs ih =>
    have hbefore := ih (fun e m hm => hsmall e m (mem_append_left _ hm))
      (fun e n held hm => hroom e n held (mem_append_left _ hm))
    obtain ⟨⟨l, notes⟩, hstep, heq⟩ := map_eq_some_iff.mp hs
    cases heq
    obtain ⟨hproto, ms, hms, hc⟩ := hbefore e
    rw [written, returned, filterMap_append, flatMap_append, flatMap_append,
      filterMap_eventAt]
    obtain ⟨d, a⟩ := a
    by_cases hd : d = e
    · subst hd
      -- no older version was detected in the other direction
      obtain ⟨-, _, -, hother⟩ := hbefore !d
      rw [hother.wf.version] at hstep
      obtain ⟨hres, ms', hms', hc'⟩ := Link.step_carried hc hstep
        (fun m hm => hsmall d m (mem_append_right _ (mem_map_of_mem hm)))
        (fun n held hm => hroom d n held (mem_append_right _ (mem_map_of_mem hm)))
      refine ⟨fun hmem => (mem_append.mp hmem).elim hproto fun hmem => ?_, ms', ?_, ?_⟩
      · obtain ⟨note, hnote, heq⟩ := mem_map.mp hmem
        cases heq
        exact hres hnote
      · rw [if_pos rfl, ← written, ← returned, hms, append_assoc, hms', append_assoc]
      · rw [update_self]
        exact hc'
    · refine ⟨fun hmem => (mem_append.mp hmem).elim hproto fun hmem => ?_, ms, ?_, ?_⟩
      · obtain ⟨note, hnote, heq⟩ := mem_map.mp hmem
        exact hd (congrArg Prod.fst heq)
      · rw [if_neg hd, flatMap_nil, flatMap_nil, append_nil, append_nil]
        exact hms
      · rw [update_of_ne (Ne.symm hd)]
        exact hc

/-- **Messages survive the socket.** If the descriptors of each message fit into the words of its
header, no message is taken for one of an older version, and the receive buffer has room for the
descriptors of each read, then no `get_next` returns a protocol error, and what was returned is what
was written, in order, up to the messages on their way. -/
theorem duplex_delivers {s : Bool → Link F} {tr : List (Bool × Link.Note F)}
    (h : duplex.Reaches (fun _ => Link.new) s tr) (hsmall : ∀ e m, (e, .wrote m) ∈ tr → Sendable m)
    (hroom : ∀ e n held, (e, .event (.recv n held)) ∈ tr → n + held ≤ maxFds) (e : Bool) :
    (e, .result (.error (-eProto))) ∉ tr ∧ ∃ ms, written e tr = returned e tr ++ ms ∧
        ((s e).out.bytes = [] → (s e).wire = [] → ∀ m ∈ ms.head?,
          ∃ ptr c' es, getNext (s e).conn [] = some (.message ptr m, c', es)) := by
  obtain ⟨hproto, ms, hms, hc⟩ := duplex_carried h hsmall hroom e
  refine ⟨hproto, ms, hms, ?_⟩
  intro hout hwire m hm
  obtain ⟨ms', rfl⟩ := head?_eq_some_iff.mp hm
  rw [hwire] at hc
  exact hc.idle hout

end Run

/-! ## A message with many descriptors -/

/-- Descriptors, and their duplicates. -/
def manyCalls : List (Option ℕ × Option ℕ) :=
  (List.range 113).map fun i => (some i, some (1000 + i))

/-- A message with one more descriptor than its header has room for. -/
def manyFds : Message ℕ := ⟨1, 5, 0, [], (List.range 113).map fun i => 1000 + i⟩

/-- A message with 113 descriptors is written, sent and read: it is rejected. -/
theorem manyFds_rejected : ∃ s tr, duplex.Reaches (fun _ => .new : Bool → Link ℕ) s tr ∧
    (true, .wrote manyFds) ∈ tr ∧ (true, .result (.error (-eProto))) ∈ tr :=
  Machine.Reaches.of_run_such [(true, .write 1 5 [] manyCalls), (true, .flush [4, 4, 4, 4]),
    (true, .getNext [4, 4, 4, 4])] (by decide +kernel) fun _ _ _ h => h

/-- Two messages with a descriptor each. -/
def oneFd : List (Message ℕ) := [⟨1, 5, 0, [], [1003]⟩, ⟨1, 5, 1, [], [1004]⟩]

/-- Only these messages are written, and there is room for what is read. -/
def Link.Note.fits : Link.Note ℕ → Bool
  | .wrote m => m ∈ oneFd
  | .event (.recv n held) => n + held ≤ maxFds
  | _ => true

theorem duplex_delivers_oneFd : ∃ s tr, duplex.Reaches (fun _ => .new : Bool → Link ℕ) s tr ∧
    written true tr = oneFd ∧ returned true tr = oneFd.take 1 ∧
    (true, .result (.error (-eProto))) ∉ tr ∧ ∃ ms, written true tr = returned true tr ++ ms := by
  refine Machine.Reaches.of_run_such
    (P := fun _ tr => (written true tr = oneFd ∧ returned true tr = oneFd.take 1) ∧
      ∀ n ∈ tr, n.2.fits = true)
    [(true, .write 1 5 [] [(some 3, some 1003)]), (true, .write 1 5 [] [(some 4, some 1004)]),
      (true, .flush [32]), (true, .getNext [32])]
    (by decide +kernel) ?_
  intro s tr h ⟨⟨hwrote, hreturned⟩, hfits⟩
  have hsmall : ∀ e m, (e, .wrote m) ∈ tr → Sendable m := by
    intro e m hm
    have hmem : m ∈ oneFd := of_decide_eq_true (hfits _ hm)
    rcases mem_pair.mp hmem with rfl | rfl <;> exact ⟨by decide, by decide⟩
  obtain ⟨hproto, ms, hms, -⟩ :=
    duplex_delivers h hsmall (fun _ _ _ hm => of_decide_eq_true (hfits _ hm)) true
  exact ⟨hwrote, hreturned, hproto, ms, hms⟩

end PipeWireAO.Native
