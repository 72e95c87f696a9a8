import PipeWireAO.FilterGraph.Transaction.Threads
import PipeWireAO.Foundation.Except

/-!
# The control thread keeps the books

The ledgers, the stage and the phase of the contract can be read off the state words, the entries
and the two threads. This module has that reading, and that a control call follows the contract:
it fills a slot only while its word is `EMPTY`, and there the data loop does not go.
-/

namespace PipeWireAO.FilterGraph.Transaction

open Foundation List Function

variable {T : Type*}

/-! ## What the state says about the books -/

/-- Every token among the entries can be discarded. -/
def Able (g : Graph) (k : Kind) (es : List (Entry T)) : Prop :=
  ∀ e ∈ es, e.prepared ≠ none → g.discards k e.node = true

/-- The slot whose transaction the data loop has taken. -/
def DataLoop.working : DataLoop → Option Kind
  | .commit k _ => some k
  | .adopt _ => some .parameters
  | .retire k => some k
  | _ => none

/-- The slot whose transaction is committed and not retired yet. -/
def DataLoop.finished : DataLoop → Option Kind
  | .adopt _ => some .parameters
  | .retire k => some k
  | _ => none

/-- **A slot and the data loop.** The word is `PROCESSING` exactly while the data loop works on the
slot; tokens are left only in a transaction that is `PENDING` or not yet committed. -/
structure SlotOk (g : Graph) (l : DataLoop) (k : Kind) (sl : Slot T) : Prop where
  working : sl.word = .processing ↔ l.working = some k
  spent : sl.word = .empty ∨ sl.word = .retired → tokens sl.entries = []
  committed : ∀ i, l = .commit k i → ∀ e ∈ sl.entries.take i, e.prepared = none
  finished : l.finished = some k → tokens sl.entries = []
  able : Able g k sl.entries

/-- What the control thread knows where it is. -/
def ControlOk (g : Graph) (slot : Kind → Slot T) : Control T → Prop
  | .reclaim c => c.Ok g
  | .clear c => c.Ok g ∧ (slot c.kind).word = .retired
  | .check c => c.Ok g
  | .prepare k done _ res => (slot k).word = .empty ∧ Able g k done ∧ 0 ≤ res
  | .single n => g.discards .parameters n = true
  | .discard k es res => Able g k es ∧ res < 0
  | .freed => ∀ k, (slot k).word = .empty
  | _ => True

def ledgerOf (sl : Slot T) : Ledger T :=
  match sl.word with
  | .empty | .retired => .free
  | .pending => .pending (tokens sl.entries)
  | .processing => .publishing (tokens sl.entries)

/-- The stage of a process call. -/
def StageOk : DataLoop → Stage → Prop
  | .idle, st => st = .outside
  | .nodes _, st => st ≠ .outside
  | _, st => st = .started

def PhaseOk (slot : Kind → Slot T) : Control T → Phase T → Prop
  | .idle, p => p = .none
  | .reclaim c, p => p = .called c.kind
  | .clear c, p => p = .looked c.kind false
  | .check c, p => p = .looked c.kind (decide ((slot c.kind).word ≠ .empty))
  | .prepare k done _ _, p => p = .preparing k (tokens done)
  | .single _, p => p = .preparing .parameters []
  | .commitSingle e, p => p = .preparing .parameters e.prepared.toList
  | .discard _ es _, p => p = .discarding (tokens es)
  | .leave res, p => p.returns res = true
  | .freed, p => p = .closed

/-- **The graph keeps the books.** -/
structure Rel (g : Graph) (s : State T) (q : Books T) : Prop where
  slots : ∀ k, SlotOk g s.loop k (s.slot k)
  control : ControlOk g s.slot s.control
  ledger : q.ledger = fun k => ledgerOf (s.slot k)
  stage : StageOk s.loop q.stage
  phase : PhaseOk s.slot s.control q.phase

variable {l : DataLoop} {c : Call} {res : Int} {e : Entry T} {sl : Slot T} {done : List (Entry T)}

section Lemmas

variable {g : Graph} {s : State T} {q : Books T} {k : Kind} {n : ℕ} {es : List (Entry T)}

@[simp] theorem tokens_nil : tokens ([] : List (Entry T)) = [] := rfl

@[simp] theorem tokens_cons (e : Entry T) : tokens (e :: es) = e.prepared.toList ++ tokens es := by
  cases h : e.prepared <;> simp [tokens, h]

@[simp] theorem tokens_append (es es' : List (Entry T)) :
    tokens (es ++ es') = tokens es ++ tokens es' := filterMap_append

theorem discards_of_prepares (h : g.prepares k n = true) : g.discards k n = true := by
  cases k with
  | props =>
    simp only [Graph.prepares, Bool.and_eq_true] at h
    exact Descriptor.discardProps_of_prepareProps (g.whole n) h.1
  | parameters =>
    simp only [Graph.prepares, Bool.and_eq_true] at h
    exact h.2

theorem Able.nil : Able g k ([] : List (Entry T)) := by simp [Able]

theorem Able.concat (h : Able g k es) (hn : g.discards k n = true) (t : Option T) :
    Able g k (es ++ [⟨n, t⟩]) :=
  forall_mem_concat h fun _ => hn

theorem Able.tail (h : Able g k (e :: es)) : Able g k es :=
  fun e' he' => h e' (mem_cons_of_mem _ he')

theorem clearEntry_eq (h : Able g k (e :: es)) :
    clearEntry g k e = e.prepared.toList.map .discarded := by
  cases hp : e.prepared with
  | none => simp [clearEntry, hp]
  | some t =>
    have := h e mem_cons_self (by simp [hp])
    simp [clearEntry, hp, this]

theorem clear_eq (h : Able g k es) : es.flatMap (clearEntry g k) = (tokens es).map .discarded := by
  induction es with
  | nil => rfl
  | cons e es ih =>
    rw [flatMap_cons, clearEntry_eq h, ih h.tail, tokens_cons, map_append]

theorem SlotOk.of_not_working (hl : l.working ≠ some k) (hw : sl.word ≠ .processing)
    (hs : sl.word = .empty ∨ sl.word = .retired → tokens sl.entries = [])
    (ha : Able g k sl.entries) : SlotOk g l k sl := by
  refine ⟨iff_of_false hw hl, hs, ?_, ?_, ha⟩
  · rintro i rfl
    exact absurd rfl hl
  · intro hf
    cases l with
    | adopt i | retire k' => exact absurd hf hl
    | _ => cases hf

theorem SlotOk.not_working (h : SlotOk g l k sl) (hw : sl.word ≠ .processing) :
    l.working ≠ some k := fun hl => hw (h.working.mpr hl)

theorem SlotOk.move {l' : DataLoop} (h : SlotOk g l k sl) (hl : l.working ≠ some k)
    (hl' : l'.working ≠ some k) : SlotOk g l' k sl :=
  .of_not_working hl' (fun hw => hl (h.working.mp hw)) h.spent h.able

end Lemmas

/-! ## The control thread follows the contract -/

section Follows

variable {g : Graph} {s s' : State T} {q q' : Books T} {k : Kind} {n : ℕ} {a : Answer T}
  {es : List (Event T)}

theorem Rel.control_at {c : Control T} (h : Rel g s q) (hc : s.control = c) :
    ControlOk g s.slot c := hc ▸ h.control

theorem Rel.phase_at {c : Control T} (h : Rel g s q) (hc : s.control = c) :
    PhaseOk s.slot c q.phase := hc ▸ h.phase

theorem Rel.stage_at (h : Rel g s q) (hl : s.loop = l) : StageOk l q.stage :=
  hl ▸ h.stage

theorem Rel.moveControl {c : Control T} {p : Phase T} (h : Rel g s q) (hc : ControlOk g s.slot c)
    (hp : PhaseOk s.slot c p) : Rel g { s with control := c } { q with phase := p } :=
  ⟨h.slots, hc, h.ledger, h.stage, hp⟩

theorem ledgerOf_live (sl : Slot T) :
    (ledgerOf sl).live = decide (sl.word ≠ .empty ∧ sl.word ≠ .retired) := by
  unfold ledgerOf
  cases sl.word <;> rfl

theorem Rel.setSlot {c : Control T} {p : Phase T} (h : Rel g s q)
    (hw : (s.slot k).word ≠ .processing) (hsl : SlotOk g s.loop k sl)
    (hc : ControlOk g (update s.slot k sl) c) (hp : PhaseOk (update s.slot k sl) c p) :
    Rel g { s with slot := update s.slot k sl, control := c }
      ⟨update q.ledger k (ledgerOf sl), q.stage, p⟩ := by
  refine ⟨?_, hc, ?_, h.stage, hp⟩
  · intro k'
    by_cases hk : k' = k
    · subst hk
      simpa using hsl
    · simpa [hk] using h.slots k'
  · funext k'
    by_cases hk : k' = k
    · subst hk
      simp
    · simp [hk, h.ledger]

variable [DecidableEq T]

/-- The contract allows the events, and the new state keeps its books. -/
def Follows (g : Graph) (q : Books T) (es : List (Event T)) (s' : State T) : Prop :=
  ∃ q', (contract T).accept q es = some q' ∧ Rel g s' q'

theorem Follows.silent (h : Rel g s q) : Follows g q [] s := ⟨q, rfl, h⟩

theorem Follows.one {e : Event T} (he : (contract T).next q e = some q') (h : Rel g s q') :
    Follows g q [e] s := by
  refine ⟨q', ?_, h⟩
  rw [Observer.accept_singleton, he]

theorem Follows.cons {e : Event T} (he : (contract T).next q e = some q') (h : Follows g q' es s) :
    Follows g q (e :: es) s := by
  obtain ⟨q'', hq, hr⟩ := h
  exact ⟨q'', Observer.accept_cons_eq_some.mpr ⟨q', he, hq⟩, hr⟩

theorem enter_follows {r : Request} (h : Rel g s q) (hs : enter g r s = some (s', es)) :
    Follows g q es s' := by
  unfold enter at hs
  split at hs
  · rename_i hc
    cases hs
    have hp : q.phase = .none := h.phase_at hc
    have hnext : (contract T).next q (.called (r.resolve g).kind) =
        some { q with phase := .called (r.resolve g).kind } := if_pos hp
    refine .one hnext ?_
    have hok := Request.resolve_ok (g := g) r
    cases hr : (r.resolve g).refusal with
    | some res =>
      refine h.moveControl trivial ?_
      simpa [PhaseOk, Phase.returns] using hok.refusal_neg res hr
    | none => exact h.moveControl hok rfl
  · cases hs

theorem reclaim_follows (h : Rel g s q) (hc : s.control = .reclaim c) : Follows g q [.looked c.kind]
      { s with control := if (s.slot c.kind).word = .retired then .clear c else .check c } := by
  have hok : c.Ok g := h.control_at hc
  have hp : q.phase = .called c.kind := h.phase_at hc
  have hnext : (contract T).next q (.looked c.kind) =
      some { q with phase := .looked c.kind (q.ledger c.kind).live } := if_pos hp
  have hlive : (q.ledger c.kind).live =
      decide ((s.slot c.kind).word ≠ .empty ∧ (s.slot c.kind).word ≠ .retired) := by
    rw [h.ledger, ledgerOf_live]
  rw [hlive] at hnext
  refine .one hnext ?_
  by_cases hw : (s.slot c.kind).word = .retired
  · rw [if_pos hw]
    refine h.moveControl (c := .clear c) ⟨hok, hw⟩ ?_
    simp [PhaseOk, hw]
  · rw [if_neg hw]
    refine h.moveControl (c := .check c) hok ?_
    simp [PhaseOk, hw]

theorem clear_follows (h : Rel g s q) (hc : s.control = .clear c) :
    Follows g q ((s.slot c.kind).entries.flatMap (clearEntry g c.kind))
      { s with slot := update s.slot c.kind ⟨.empty, []⟩, control := .check c } := by
  obtain ⟨hok, hw⟩ : c.Ok g ∧ (s.slot c.kind).word = .retired := h.control_at hc
  have hp : q.phase = .looked c.kind false := h.phase_at hc
  have hslot := h.slots c.kind
  have hne : (s.slot c.kind).word ≠ .processing := by simp [hw]
  rw [clear_eq hslot.able, hslot.spent (.inr hw), map_nil]
  have hempty : SlotOk g s.loop c.kind (⟨.empty, []⟩ : Slot T) :=
    .of_not_working (hslot.not_working hne) (by simp) (fun _ => rfl) Able.nil
  have := h.setSlot (c := .check c) (p := .looked c.kind false) hne hempty hok (by simp [PhaseOk])
  -- the books do not change: a retired transaction is none
  have hq : (⟨update q.ledger c.kind (ledgerOf ⟨.empty, []⟩), q.stage,
      .looked c.kind false⟩ : Books T) = q := by
    have hl : q.ledger c.kind = ledgerOf ⟨.empty, []⟩ := by
      rw [h.ledger]
      simp [ledgerOf, hw]
    rw [← hl, update_eq_self, ← hp]
  rw [hq] at this
  exact .silent this

theorem check_follows (h : Rel g s q) (hc : s.control = .check c)
    (hs : controlStep g a s = some (s', es)) : Follows g q es s' := by
  have hok : c.Ok g := h.control_at hc
  have hp : q.phase = .looked c.kind (decide ((s.slot c.kind).word ≠ .empty)) := h.phase_at hc
  simp only [controlStep, hc] at hs
  split at hs
  · rename_i hw
    have hadmit : (contract T).next q (.admitted c.kind) =
        some { q with phase := .preparing c.kind [] } := if_pos (by simpa [hw] using hp)
    split at hs
    · rename_i res hplan
      cases hs
      have hfail : (contract T).next { q with phase := .preparing c.kind [] } .failed =
          some { q with phase := .discarding [] } := rfl
      refine .cons hadmit (.one hfail ?_)
      exact h.moveControl (c := .discard c.kind [] res) ⟨Able.nil, hok.error_neg res hplan⟩ rfl
    · rename_i gs hplan
      cases hs
      exact .one hadmit (h.moveControl (c := .prepare c.kind [] gs 0)
        ⟨hw, Able.nil, Int.le_refl 0⟩ rfl)
    · rename_i n hplan
      cases hs
      obtain ⟨hk, hn⟩ := hok.single n hplan
      refine .one hadmit (h.moveControl (c := .single n) ?_ ?_)
      · exact Descriptor.discardParameter_of_prepareParameter (g.whole n) hn
      · rw [hk]
        rfl
  · rename_i hw
    cases hs
    have hbusy : (contract T).next q (.busy c.kind) = some { q with phase := .refused } :=
      if_pos (by simpa [hw] using hp)
    exact .one hbusy (h.moveControl (c := .leave (-eBusy)) trivial rfl)

theorem prepared_follows {ts : List T} {t : Option T} (hp : q.phase = .preparing k ts)
    (h : Follows g { q with phase := .preparing k (ts ++ t.toList) } es s) :
    Follows g q (t.toList.map .prepared ++ es) s := by
  cases t with
  | none =>
    rw [Option.toList_none, append_nil, ← hp] at h
    exact h
  | some t =>
    have hnext : (contract T).next q (.prepared t) =
        some { q with phase := .preparing k (ts ++ [t]) } := by
      show controlNext q (.prepared t) = _
      simp only [controlNext, hp]
    exact .cons hnext h

theorem prepare_follows {todo : Groups} {ids : List ℕ} (h : Rel g s q)
    (hc : s.control = .prepare k done ((n, ids) :: todo) res) :
    Follows g q (prepareStep g k done n todo a).2
      { s with control := (prepareStep g k done n todo a).1 } := by
  obtain ⟨hw, ha, -⟩ : (s.slot k).word = .empty ∧ Able g k done ∧ 0 ≤ res := h.control_at hc
  have hp : q.phase = .preparing k (tokens done) := h.phase_at hc
  have hfail : ∀ ts : List T, (contract T).next { q with phase := .preparing k ts } .failed =
      some { q with phase := .discarding ts } := fun _ => rfl
  have htok : tokens done ++ a.token.toList = tokens (done ++ [⟨n, a.token⟩]) := by simp
  unfold prepareStep
  split_ifs with hable hres hnull
  · have := hfail (tokens done)
    rw [← hp] at this
    exact .one this (h.moveControl (c := .discard k done (-eNotSup)) ⟨ha, by decide⟩ rfl)
  · have hd := ha.concat (discards_of_prepares (by simpa using hable)) a.token
    refine prepared_follows hp ?_
    rw [htok]
    exact .one (hfail _) (h.moveControl (c := .discard k _ a.res) ⟨hd, hres⟩ rfl)
  · have hd := ha.concat (discards_of_prepares (by simpa using hable)) a.token
    refine prepared_follows hp ?_
    rw [htok]
    exact .one (hfail _) (h.moveControl (c := .discard k _ (-eFault)) ⟨hd, by decide⟩ rfl)
  · have hd := ha.concat (discards_of_prepares (by simpa using hable)) a.token
    rw [← append_nil (a.token.toList.map Event.prepared)]
    refine prepared_follows hp ?_
    rw [htok]
    exact .silent (h.moveControl (c := .prepare k _ todo a.res) ⟨hw, hd, Int.not_lt.mp hres⟩ rfl)

theorem publish_follows (h : Rel g s q) (hc : s.control = .prepare k done [] res)
    (hs : controlStep g a s = some (s', es)) : Follows g q es s' := by
  obtain ⟨hw, ha, hres⟩ : (s.slot k).word = .empty ∧ Able g k done ∧ 0 ≤ res := h.control_at hc
  have hp : q.phase = .preparing k (tokens done) := h.phase_at hc
  simp only [controlStep, hc] at hs
  split at hs
  · rename_i hd
    cases hs
    subst hd
    refine .silent (h.moveControl (c := .leave res) trivial ?_)
    rw [hp]
    simpa [PhaseOk, Phase.returns] using hres
  · cases hs
    have hne : (s.slot k).word ≠ .processing := by simp [hw]
    have hfree : q.ledger k = .free := by
      rw [h.ledger]
      simp [ledgerOf, hw]
    have hnext : (contract T).next q (.accepted k) =
        some ⟨update q.ledger k (.pending (tokens done)), q.stage, .succeeded⟩ := by
      show controlNext q (.accepted k) = _
      simp only [controlNext, hp, hfree, and_self, if_true]
    have hsl : SlotOk g s.loop k (⟨.pending, done⟩ : Slot T) :=
      .of_not_working ((h.slots k).not_working hne) (by simp) (by simp) ha
    refine .one hnext (h.setSlot (c := .leave res) hne hsl trivial ?_)
    simpa [PhaseOk, Phase.returns] using hres

theorem single_follows (h : Rel g s q) (hc : s.control = .single n)
    (hs : controlStep g a s = some (s', es)) : Follows g q es s' := by
  have hn : g.discards .parameters n = true := h.control_at hc
  have hp : q.phase = .preparing .parameters [] := h.phase_at hc
  simp only [controlStep, hc] at hs
  split at hs
  · rename_i hres
    cases hs
    refine prepared_follows hp ?_
    exact .one rfl (h.moveControl (c := .discard .parameters [⟨n, a.token⟩] a.res)
      ⟨Able.nil.concat hn a.token, hres⟩ rfl)
  · cases hs
    rw [← append_nil (a.token.toList.map Event.prepared)]
    refine prepared_follows hp (.silent ?_)
    exact h.moveControl (c := .commitSingle ⟨n, a.token⟩) trivial (by simp [PhaseOk])

theorem commitSingle_follows (h : Rel g s q) (hc : s.control = .commitSingle e) :
    Follows g q (e.prepared.toList.map .committedNow) { s with control := .leave 0 } := by
  have hp : q.phase = .preparing .parameters e.prepared.toList := h.phase_at hc
  cases he : e.prepared with
  | none =>
    rw [he] at hp
    refine .silent (h.moveControl (c := .leave 0) trivial ?_)
    rw [hp]
    rfl
  | some t =>
    rw [he] at hp
    have hnext : (contract T).next q (.committedNow t) = some { q with phase := .succeeded } :=
      if_pos hp
    exact .one hnext (h.moveControl (c := .leave 0) trivial rfl)

theorem discard_follows {rest : List (Entry T)} (h : Rel g s q)
    (hc : s.control = .discard k (e :: rest) res) :
    Follows g q (clearEntry g k e) { s with control := .discard k rest res } := by
  obtain ⟨ha, hres⟩ : Able g k (e :: rest) ∧ res < 0 := h.control_at hc
  have hp : q.phase = .discarding (tokens (e :: rest)) := h.phase_at hc
  rw [clearEntry_eq ha]
  rw [tokens_cons] at hp
  have hrest := h.moveControl (c := .discard k rest res) (p := .discarding (tokens rest))
    ⟨ha.tail, hres⟩ rfl
  cases he : e.prepared with
  | none =>
    rw [he, Option.toList_none, nil_append] at hp
    rw [← hp] at hrest
    exact .silent hrest
  | some t =>
    rw [he] at hp
    have hnext : (contract T).next q (.discarded t) =
        some { q with phase := .discarding (tokens rest) } := by
      show controlNext q (.discarded t) = _
      simp [controlNext, hp]
    exact .one hnext hrest

theorem returned_follows (h : Rel g s q) (hp : q.phase.returns res = true) :
    Follows g q [.returned res] { s with control := .idle } :=
  .one (if_pos hp) (h.moveControl trivial rfl)

/-- **Every step of the control thread follows the contract.** -/
theorem control_follows (h : Rel g s q) (hs : controlStep g a s = some (s', es)) :
    Follows g q es s' := by
  cases hc : s.control with
  | idle | freed =>
    rw [controlStep, hc] at hs
    cases hs
  | reclaim c =>
    rw [controlStep, hc] at hs
    cases hs
    exact reclaim_follows h hc
  | clear c =>
    rw [controlStep, hc] at hs
    cases hs
    exact clear_follows h hc
  | check c => exact check_follows h hc hs
  | prepare k done todo res =>
    cases todo with
    | nil => exact publish_follows h hc hs
    | cons x todo =>
      rw [controlStep, hc] at hs
      cases hs
      exact prepare_follows h hc
  | single n => exact single_follows h hc hs
  | commitSingle e =>
    rw [controlStep, hc] at hs
    cases hs
    exact commitSingle_follows h hc
  | discard k todo res =>
    cases todo with
    | nil =>
      rw [controlStep, hc] at hs
      cases hs
      have hp : q.phase = .discarding [] := h.phase_at hc
      have hres : res < 0 := (h.control_at hc).2
      exact returned_follows h (by simpa [hp, Phase.returns] using hres)
    | cons e rest =>
      rw [controlStep, hc] at hs
      cases hs
      exact discard_follows h hc
  | leave res =>
    rw [controlStep, hc] at hs
    cases hs
    exact returned_follows h (h.phase_at hc)

end Follows

end PipeWireAO.FilterGraph.Transaction
