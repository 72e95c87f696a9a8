import PipeWireAO.Errno

/-!
# Ports of a row-transport link

The port functions through which one row travels: the reliable tee of the source's output port, the
input mix of the consumer, its return of the buffer id, and the driver's collection of returned ids.

A row link is synchronous, so the two IO slots of a mix are one record (`io[0] = io[1]` after
`port_set_io`): the loop over the two cycles in `pw_impl_port_reuse_row_output` visits it once, and
the cycle parity plays no role.
-/

namespace PipeWireAO.Node

/-- `SPA_STATUS_*` as it stands in an IO record. -/
inductive IoStatus
  | ok
  | needData
  | haveData
  | stopped
  | drained
deriving DecidableEq

/-- `struct spa_io_buffers`; `SPA_ID_INVALID` is `none`. -/
structure IoBuffers where
  status : IoStatus
  bufferId : Option ℕ
deriving DecidableEq

/-- `SPA_IO_BUFFERS_INIT` -/
def IoBuffers.init : IoBuffers := ⟨.ok, none⟩

/-- `struct pw_impl_port_mix` on the input side of a link, as the server holds it: the IO
record of the port it belongs to (`none` when `p` is NULL), and the loan. -/
structure InputMix where
  port : Option IoBuffers
  (rowTransport rowBorrowed : Bool)
  rowBorrowedId : Option ℕ
deriving DecidableEq

/-- `struct pw_impl_port_mix` on the output side of a link, with its peer. -/
structure OutputMix where
  io : IoBuffers
  peer : Option InputMix
deriving DecidableEq

/-! ## The reliable tee -/

/-- The tee passes over this mix: its descriptor was not taken yet, or the row it carried
is still on loan. -/
def OutputMix.busy (m : OutputMix) : Bool :=
  m.io.status == .haveData ||
    match m.peer with
    | some p => p.rowTransport && p.rowBorrowed
    | none => false

/-- The mix after the tee gave it buffer `id`. -/
def OutputMix.give (m : OutputMix) (id : Option ℕ) : OutputMix where
  io := ⟨.haveData, id⟩
  peer := m.peer.map fun p =>
    if p.rowTransport then { p with rowBorrowedId := id, rowBorrowed := true } else p

/-- The loop of `tee_process_reliable`: the first mix that is not busy takes the buffer
and its old id goes back to the source. The last component lists the ids given out. -/
def offerRow (io : IoBuffers) : List OutputMix → IoBuffers × List OutputMix × List (Option ℕ)
  | [] => (io, [], [])
  | m :: ms =>
    if m.busy then
      let r := offerRow io ms
      (r.1, m :: r.2.1, r.2.2)
    else (⟨.needData, m.io.bufferId⟩, m.give io.bufferId :: ms, [io.bufferId])

def teeProcessReliable (io : IoBuffers) (mixes : List OutputMix) :
    IoBuffers × List OutputMix × List (Option ℕ) :=
  if io.status = .haveData then offerRow io mixes else (io, mixes, [])

/-! ## Collecting returned rows -/

/-- One round of the loop of `pw_impl_port_reuse_row_output`. `reuse` answers the source's
`port_reuse_buffer`; the result is the return value (the number of released buffers, or
an error), the mix afterwards and the calls made with their answers. -/
def OutputMix.reuseRow (nBuffers : ℕ) (releaseLocal : Bool) (reuse : ℕ → Int)
    (m : OutputMix) : Int × OutputMix × List (ℕ × Int) :=
  match m.peer with
  | none => (0, m, [])
  | some p =>
    match p.port with
    | none => (-eNotSup, m, [])
    | some io =>
      if !p.rowTransport then
        -- a consumer in this process: its port record carries the id
        if !releaseLocal || io.status == .haveData then (0, m, []) else
        match io.bufferId with
        | none => (0, m, [])
        | some id =>
          if nBuffers ≤ id then (-eInval, m, [])
          else if reuse id < 0 then (reuse id, m, [(id, reuse id)])
          else (1, { m with peer := some { p with port := some { io with bufferId := none } } },
            [(id, reuse id)])
      else
        if m.io.status ≠ .needData then (0, m, []) else
        match m.io.bufferId with
        | none => (0, m, [])
        | some id =>
          if !p.rowBorrowed || p.rowBorrowedId ≠ some id || nBuffers ≤ id then (-eInval, m, [])
          else if reuse id < 0 then (reuse id, m, [(id, reuse id)])
          else (1, { io := { m.io with bufferId := none },
                     peer := some { p with rowBorrowed := false } }, [(id, reuse id)])

/-- `pw_impl_port_reuse_row_output`; an error ends the loop. -/
def reuseRowOutput (nBuffers : ℕ) (releaseLocal : Bool) (reuse : ℕ → Int) :
    List OutputMix → Int × List OutputMix × List (ℕ × Int)
  | [] => (0, [], [])
  | m :: ms =>
    let r := m.reuseRow nBuffers releaseLocal reuse
    if r.1 < 0 then (r.1, r.2.1 :: ms, r.2.2)
    else
      let r' := reuseRowOutput nBuffers releaseLocal reuse ms
      (if r'.1 < 0 then r'.1 else r.1 + r'.1, r.2.1 :: r'.2.1, r.2.2 ++ r'.2.2)

/-! ## The consumer's input port -/

/-- `struct pw_impl_port_mix` of the consumer's own input port. -/
structure ClientMix where
  io : IoBuffers
  rowTransport : Bool
deriving DecidableEq

/-- `schedule_mix_input`: the first mix moves its descriptor to the port. With a reliable
peer (`reliable`, from `pw_impl_port_has_reliable_peer`) or on a row link the id is taken
out of the mix. -/
def scheduleMixInput (reliable : Bool) (io : IoBuffers) :
    List ClientMix → IoBuffers × List ClientMix
  | [] => (io, [])
  | m :: ms =>
    (m.io, { m with io := ⟨.needData,
      if reliable || m.rowTransport then none else m.io.bufferId⟩ } :: ms)

/-- The loop of `pw_impl_port_publish_row_return` for the id `id`: the first row mix takes
the id, if it was collected and nothing new was published. -/
def returnRow (id : ℕ) : List ClientMix → Int × List ClientMix
  | [] => (0, [])
  | m :: ms =>
    if !m.rowTransport then
      let r := returnRow id ms
      (r.1, m :: r.2)
    else if m.io.status ≠ .needData ∨ m.io.bufferId ≠ none then (-eBusy, m :: ms)
    else (1, { m with io := { m.io with bufferId := some id } } :: ms)

/-- `pw_impl_port_publish_row_return` -/
def publishRowReturn (io : IoBuffers) (mixes : List ClientMix) :
    Int × IoBuffers × List ClientMix :=
  if io.status = .haveData then (0, io, mixes) else
  match io.bufferId with
  | none => (0, io, mixes)
  | some id =>
    let r := returnRow id mixes
    (r.1, if r.1 = 1 then { io with bufferId := none } else io, r.2)

/-! ## One row link -/

/-- The single link of a row-transport output port: the IO record it shares with the
consumer, the IO record of the server's input port, and the loan. -/
structure RowLink where
  (io port : IoBuffers)
  rowBorrowed : Bool
  rowBorrowedId : Option ℕ
deriving DecidableEq

namespace RowLink

/-- The link as the output port's mix list holds it. -/
def mix (l : RowLink) : OutputMix where
  io := l.io
  peer := some ⟨some l.port, true, l.rowBorrowed, l.rowBorrowedId⟩

/-- The link as the consumer's mix list holds it. -/
def clientMix (l : RowLink) : ClientMix := ⟨l.io, true⟩

def ofMix (l : RowLink) : List OutputMix → RowLink
  | [⟨io, some ⟨some port, _, borrowed, id⟩⟩] => ⟨io, port, borrowed, id⟩
  | _ => l

/-- The link after the consumer's mix changed. -/
def ofClientMix (l : RowLink) : List ClientMix → RowLink
  | [m] => { l with io := m.io }
  | _ => l

def loan (l : RowLink) : Option (Option ℕ) :=
  if l.rowBorrowed then some l.rowBorrowedId else none

/-- The id on loan as a list of valid ids. -/
def lent (l : RowLink) : List ℕ := if l.rowBorrowed then l.rowBorrowedId.toList else []

theorem loan_eq_some {l : RowLink} {id : Option ℕ} :
    l.loan = some id ↔ l.rowBorrowed = true ∧ l.rowBorrowedId = id := by
  cases h : l.rowBorrowed <;> simp [loan, h]

theorem loan_eq_none {l : RowLink} : l.loan = none ↔ l.rowBorrowed = false := by
  cases h : l.rowBorrowed <;> simp [loan, h]

@[simp] theorem ofMix_mix (l l' : RowLink) : l.ofMix [l'.mix] = l' := rfl

@[simp] theorem ofClientMix_singleton (l : RowLink) (m : ClientMix) :
    l.ofClientMix [m] = { l with io := m.io } := rfl

/-- The link after the tee lent `id` over it. -/
def lend (l : RowLink) (id : Option ℕ) : RowLink :=
  { l with io := ⟨.haveData, id⟩, rowBorrowed := true, rowBorrowedId := id }

/-- The link after its returned id was collected. -/
def collect (l : RowLink) : RowLink :=
  { l with io := { l.io with bufferId := none }, rowBorrowed := false }

@[simp] theorem loan_lend (l : RowLink) (id : Option ℕ) : (l.lend id).loan = some id := rfl

@[simp] theorem loan_collect (l : RowLink) : l.collect.loan = none := rfl

end RowLink

/-- **The tee over a row link**: it lends the source's buffer exactly if there is one,
the last descriptor was taken and no loan is open; otherwise it changes nothing. -/
theorem teeProcessReliable_link (io : IoBuffers) (l : RowLink) : teeProcessReliable io [l.mix] =
      if io.status = .haveData ∧ l.io.status ≠ .haveData ∧ l.rowBorrowed = false then
        (⟨.needData, l.io.bufferId⟩, [(l.lend io.bufferId).mix], [io.bufferId])
      else (io, [l.mix], []) := by
  by_cases hs : io.status = .haveData
  · by_cases hl : l.io.status = .haveData <;> cases hb : l.rowBorrowed <;>
      simp [teeProcessReliable, offerRow, OutputMix.busy, OutputMix.give, RowLink.mix,
        RowLink.lend, hs, hl, hb]
  · simp [teeProcessReliable, hs]

open OutputMix (reuseRow)

/-- **Collecting over a row link**: nothing to do without a returned id; an id that is not
the one on loan or out of range is refused; otherwise the source is called with it, and
the loan is closed exactly if the source accepts. -/
theorem reuseRowOutput_link (n : ℕ) (releaseLocal : Bool) (reuse : ℕ → Int) (l : RowLink) :
    reuseRowOutput n releaseLocal reuse [l.mix] =
      if l.io.status ≠ .needData then (0, [l.mix], []) else
      match l.io.bufferId with
      | none => (0, [l.mix], [])
      | some id =>
        if l.loan ≠ some (some id) ∨ n ≤ id then (-eInval, [l.mix], [])
        else if reuse id < 0 then (reuse id, [l.mix], [(id, reuse id)])
        else (1, [l.collect.mix], [(id, reuse id)]) := by
  by_cases hs : l.io.status = .needData
  · cases hi : l.io.bufferId with
    | none => simp [reuseRowOutput, reuseRow, RowLink.mix, hs, hi]
    | some id =>
      by_cases hl : l.loan = some (some id)
      · have hb := RowLink.loan_eq_some.mp hl
        by_cases hn : n ≤ id
        · simp [reuseRowOutput, reuseRow, RowLink.mix, hs, hi, hb, hn, eInval]
        · by_cases hr : reuse id < 0 <;>
            simp [reuseRowOutput, reuseRow, RowLink.mix, RowLink.collect, hl, hs, hi, hb,
              hn, hr]
      · have hc : l.rowBorrowed = false ∨ ¬ l.rowBorrowedId = some id := by
          rw [RowLink.loan_eq_some, not_and_or, Bool.not_eq_true] at hl
          exact hl
        simp [reuseRowOutput, reuseRow, RowLink.mix, hs, hi, hl, hc, eInval]
  · simp [reuseRowOutput, reuseRow, RowLink.mix, hs]

end PipeWireAO.Node
