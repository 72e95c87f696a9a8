import PipeWireAO.FilterGraph.Transaction.Control

/-!
# Runs of a filter graph keep the contract of transactions

The data loop takes a transaction by exchanging `PENDING` for `PROCESSING`, and from then on the
control thread leaves the slot alone. With the control thread of the last module, every step of the
graph follows the contract, and so does every run.
-/

namespace PipeWireAO.FilterGraph.Transaction

open Foundation List Function DataLoop

variable {T : Type*}
variable {l : DataLoop} {i : ℕ} {x : Outcome} {e : Entry T}

section Follows

variable {g : Graph} {s s' : State T} {q : Books T} {k : Kind} {n : ℕ} {es : List (Event T)}

/-! ## The data loop follows the contract -/

theorem Rel.settled (h : Rel g s q) (hl : s.loop.working = none) : q.settled = true := by
  have hopen : ∀ k, (q.ledger k).open = false := by
    intro k
    have hne : (s.slot k).word ≠ .processing := by
      intro hw
      have := (h.slots k).working.mp hw
      rw [hl] at this
      cases this
    rw [h.ledger]
    simp only [ledgerOf]
    cases hw : (s.slot k).word with
    | processing => exact absurd hw hne
    | _ => rfl
  simp [Books.settled, hopen]

theorem Rel.running (h : Rel g s q) (hc : s.control ≠ .freed) : q.phase.running = true := by
  have hp := h.phase
  cases hs : s.control with
  | freed => exact absurd hs hc
  | leave res =>
    rw [hs] at hp
    have hp : q.phase.returns res = true := hp
    cases hq : q.phase <;> simp_all [Phase.returns, Phase.running]
  | _ =>
    rw [hs] at hp
    rw [show q.phase = _ from hp]
    rfl

theorem Rel.moveLoop {st : Stage} (h : Rel g s q) (hl : s.loop.working = none)
    (hl' : l.working = none) (hst : StageOk l st) :
    Rel g { s with loop := l } { q with stage := st } := by
  refine ⟨fun k => ?_, h.control, h.ledger, hst, h.phase⟩
  exact (h.slots k).move (by simp [hl]) (by simp [hl'])

theorem Rel.setLoop (h : Rel g s q) (sl : Slot T)
    (hw : (s.slot k).word = .pending ∨ (s.slot k).word = .processing) (hw' : sl.word ≠ .empty)
    (hk : SlotOk g l k sl) (hother : ∀ k', k' ≠ k → s.loop.working ≠ some k' ∧ l.working ≠ some k')
    (hst : StageOk l q.stage) : Rel g { s with slot := update s.slot k sl, loop := l }
      { q with ledger := update q.ledger k (ledgerOf sl) } := by
  have hempty : (s.slot k).word ≠ .empty := by rcases hw with hw | hw <;> simp [hw]
  have hretired : (s.slot k).word ≠ .retired := by rcases hw with hw | hw <;> simp [hw]
  refine ⟨?_, ?_, ?_, hst, ?_⟩
  · intro k'
    by_cases hkk : k' = k
    · subst hkk
      simpa using hk
    · simpa [hkk] using (h.slots k').move (hother k' hkk).1 (hother k' hkk).2
  · cases hc : s.control with
    | clear c =>
      obtain ⟨hok, hr⟩ : c.Ok g ∧ (s.slot c.kind).word = .retired := h.control_at hc
      have hkk : c.kind ≠ k := by
        rintro rfl
        exact hretired hr
      exact ⟨hok, by simpa [hkk] using hr⟩
    | prepare k' done todo res =>
      obtain ⟨he, hrest⟩ : (s.slot k').word = .empty ∧ Able g k' done ∧ 0 ≤ res := h.control_at hc
      have hkk : k' ≠ k := by
        rintro rfl
        exact hempty he
      exact ⟨by simpa [hkk] using he, hrest⟩
    | freed => exact absurd (h.control_at hc k) hempty
    | _ => exact h.control_at hc
  · funext k'
    by_cases hkk : k' = k
    · subst hkk
      simp
    · simp [hkk, h.ledger]
  · cases hc : s.control with
    | check c =>
      have hp : q.phase = _ := h.phase_at hc
      by_cases hkk : c.kind = k
      · simp [PhaseOk, hkk, hp, hw', hempty]
      · simp [PhaseOk, hkk, hp]
    | _ => exact h.phase_at hc

theorem Rel.moveWorking (h : Rel g s q) (hl : s.loop.working = some k)
    (hl' : l.working = some k) (hk : SlotOk g l k (s.slot k)) (hst : StageOk l q.stage) :
    Rel g { s with loop := l } q := by
  have hw := (h.slots k).working.mpr hl
  have hother : ∀ k', k' ≠ k → s.loop.working ≠ some k' ∧ l.working ≠ some k' := by
    intro k' hkk
    rw [hl, hl']
    simpa using Ne.symm hkk
  have := h.setLoop (s.slot k) (.inr hw) (by simp [hw]) hk hother hst
  rw [update_eq_self] at this
  have hq : update q.ledger k (ledgerOf (s.slot k)) = q.ledger := by
    rw [h.ledger]
    exact update_eq_self k fun k => ledgerOf (s.slot k)
  rwa [hq] at this

theorem mem_set_none {es : List (Entry T)} (h : e ∈ es.set i ⟨n, none⟩) (he : e.prepared ≠ none) :
    e ∈ es := by
  rcases mem_or_eq_of_mem_set h with h | h
  · exact h
  · rw [h] at he
    exact absurd rfl he

theorem tokens_commit {es : List (Entry T)} (he : es[i]? = some e)
    (hpre : ∀ e ∈ es.take i, e.prepared = none) :
    tokens es = e.prepared.toList ++ tokens (es.set i ⟨e.node, none⟩) ∧
      ∀ e' ∈ (es.set i ⟨e.node, none⟩).take (i + 1), e'.prepared = none := by
  obtain ⟨hi, hget⟩ := List.getElem?_eq_some_iff.mp he
  have hnone : tokens (es.take i) = [] := by
    rw [tokens, filterMap_eq_nil_iff]
    exact hpre
  have hsplit : es = es.take i ++ e :: es.drop (i + 1) := by
    rw [← hget, getElem_cons_drop, take_append_drop]
  have hset : es.set i ⟨e.node, none⟩ = es.take i ++ ⟨e.node, none⟩ :: es.drop (i + 1) := by
    rw [set_eq_take_append_cons_drop, if_pos hi]
  constructor
  · rw [hset]
    conv_lhs => rw [hsplit]
    simp [hnone]
  · rw [hset]
    intro e' he'
    have hlen : (es.take i).length = i := by simp [Nat.le_of_lt hi]
    rw [take_append, hlen, Nat.add_sub_cancel_left] at he'
    rcases mem_append.mp he' with he' | he'
    · exact hpre e' (mem_of_mem_take he')
    · have : e' = ⟨e.node, none⟩ := by simpa using he'
      rw [this]

theorem afterPublish_working : (afterPublish g k).working = none := by cases k <;> rfl

theorem afterPublish_stage : StageOk (afterPublish g k) .started := by
  cases k <;> simp [afterPublish, StageOk]

theorem DataLoop.working_ne (hl : l.working = none ∨ l.working = some k) (k' : Kind)
    (hk : k' ≠ k) : l.working ≠ some k' := by
  rcases hl with hl | hl
  · simp [hl]
  · simpa [hl] using Ne.symm hk

theorem SlotOk.ledger_tokens {sl : Slot T} (h : SlotOk g l k sl) :
    (ledgerOf sl).tokens = tokens sl.entries := by
  unfold ledgerOf
  cases hw : sl.word with
  | empty => exact (h.spent (.inl hw)).symm
  | retired => exact (h.spent (.inr hw)).symm
  | pending | processing => rfl

variable [DecidableEq T]

theorem cycle_follows {valid : Bool} (h : Rel g s q)
    (hs : Transaction.cycle valid s = some (s', es)) : Follows g q es s' := by
  unfold Transaction.cycle at hs
  split at hs
  · cases hs
  · rename_i hl hfreed
    have hst : q.stage = .outside := h.stage_at hl
    have hbegan : (contract T).next q .began = some { q with stage := .started } :=
      if_pos ⟨hst, h.running fun hc => hfreed hc⟩
    have hidle : s.loop.working = none := by rw [hl]; rfl
    split at hs
    · cases hs
      exact .one hbegan (h.moveLoop hidle rfl rfl)
    · cases hs
      -- the call returns before it gets to the transactions
      have hended : (contract T).next { q with stage := .started } .ended =
          some { q with stage := .outside } := if_pos ⟨by simp, h.settled hidle⟩
      refine .cons hbegan (.one hended ?_)
      rw [← hst]
      exact h
  · cases hs

theorem publishLoop_follows (h : Rel g s q) (hl : s.loop = .publish k)
    (hs : loopStep g x s = some (s', es)) : Follows g q es s' := by
  have hst : q.stage = .started := h.stage_at hl
  have hidle : s.loop.working = none := by rw [hl]; rfl
  simp only [loopStep, hl] at hs
  split at hs
  · rename_i hw
    cases hs
    have hpending : q.ledger k = .pending (tokens (s.slot k).entries) := by
      rw [h.ledger]
      simp only [ledgerOf, hw]
    have hnext : (contract T).next q (.claimed k) =
        some ⟨update q.ledger k (ledgerOf { s.slot k with word := .processing }),
          q.stage, q.phase⟩ := by
      show loopNext q (.claimed k) = _
      simp only [loopNext, hst, hpending, ledgerOf]
    have hsl : SlotOk g (.commit k 0) k { s.slot k with word := .processing } := by
      refine ⟨iff_of_true rfl rfl, by simp, ?_, by simp [finished], (h.slots k).able⟩
      rintro i ⟨⟩
      simp
    refine .one hnext (h.setLoop _ (.inl hw) (by simp) hsl ?_ hst)
    exact fun k' hk => ⟨working_ne (.inl hidle) k' hk, working_ne (.inr rfl) k' hk⟩
  · cases hs
    have hst' : StageOk (afterPublish g k) q.stage := by
      rw [hst]
      exact afterPublish_stage
    exact .silent (h.moveLoop hidle afterPublish_working hst')

theorem commit_follows (h : Rel g s q) (hl : s.loop = .commit k i)
    (hs : loopStep g x s = some (s', es)) : Follows g q es s' := by
  have hst : q.stage = .started := h.stage_at hl
  have hwork : s.loop.working = some k := by rw [hl]; rfl
  have hslot := h.slots k
  have hw := hslot.working.mpr hwork
  have hpre := hslot.committed i hl
  have hledger : q.ledger k = .publishing (tokens (s.slot k).entries) := by
    rw [h.ledger]
    simp only [ledgerOf, hw]
  simp only [loopStep, hl] at hs
  split at hs
  · rename_i e he
    cases hs
    obtain ⟨htok, hpre'⟩ := tokens_commit he hpre
    have hsl : SlotOk g (.commit k (i + 1)) k
        { s.slot k with entries := (s.slot k).entries.set i ⟨e.node, none⟩ } := by
      refine ⟨iff_of_true hw rfl, by simp [hw], ?_, by simp [finished], ?_⟩
      · rintro j ⟨⟩
        exact hpre'
      · exact fun e' he' hne => hslot.able e' (mem_set_none he' hne) hne
    have hrel := h.setLoop _ (.inr hw) (by simp [hw]) hsl
      (fun k' hk => ⟨working_ne (.inr hwork) k' hk, working_ne (.inr rfl) k' hk⟩)
      hst
    have hnew : ledgerOf { s.slot k with entries := (s.slot k).entries.set i ⟨e.node, none⟩ } =
        .publishing (tokens ((s.slot k).entries.set i ⟨e.node, none⟩)) := by
      simp only [ledgerOf, hw]
    rw [hnew] at hrel
    rw [htok] at hledger
    cases hp : e.prepared with
    | none =>
      rw [hp, Option.toList_none, nil_append] at hledger
      rw [← hledger, update_eq_self] at hrel
      exact .silent hrel
    | some t =>
      rw [hp] at hledger
      refine .one ?_ hrel
      show loopNext q (.committed k t) = _
      simp [loopNext, hst, hledger]
  · rename_i he
    cases hs
    have htok : tokens (s.slot k).entries = [] := by
      rw [getElem?_eq_none_iff] at he
      rw [take_of_length_le he] at hpre
      rw [tokens, filterMap_eq_nil_iff]
      exact hpre
    cases k with
    | props | parameters =>
      refine .silent (h.moveWorking hwork rfl ?_ hst)
      exact ⟨iff_of_true hw rfl, by simp [hw], by simp, fun _ => htok, hslot.able⟩

theorem adopt_follows (h : Rel g s q) (hl : s.loop = .adopt i)
    (hs : loopStep g x s = some (s', es)) : Follows g q es s' := by
  have hst : q.stage = .started := h.stage_at hl
  have hwork : s.loop.working = some .parameters := by rw [hl]; rfl
  have hslot := h.slots .parameters
  have hw := hslot.working.mpr hwork
  have htok := hslot.finished (by rw [hl]; rfl)
  -- the slot stays as it is wherever the data loop goes on adopting or to retire it
  have hnext : ∀ l : DataLoop, l.working = some .parameters → (∀ j, l ≠ .commit .parameters j) →
      StageOk l q.stage → Rel g { s with loop := l } q := by
    intro l hl' hcommit hst'
    refine h.moveWorking hwork hl' ?_ hst'
    exact ⟨iff_of_true hw hl', by simp [hw], fun j hj => absurd hj (hcommit j), fun _ => htok,
      hslot.able⟩
  simp only [loopStep, hl] at hs
  split at hs
  · rename_i e _
    cases hs
    have hadopt : (contract T).next q (.adopted e.node) = some q := if_pos hst
    exact .one hadopt (hnext (.adopt (i + 1)) rfl (by simp) hst)
  · cases hs
    exact .silent (hnext (.retire .parameters) rfl (by simp) hst)

theorem retire_follows (h : Rel g s q) (hl : s.loop = .retire k) : Follows g q [.retired k]
      { s with slot := update s.slot k { s.slot k with word := .retired },
               loop := afterPublish g k } := by
  have hst : q.stage = .started := h.stage_at hl
  have hwork : s.loop.working = some k := by rw [hl]; rfl
  have hslot := h.slots k
  have hw := hslot.working.mpr hwork
  have htok := hslot.finished (by rw [hl]; rfl)
  have hledger : q.ledger k = .publishing [] := by
    rw [h.ledger]
    simp only [ledgerOf, hw, htok]
  have hnext : (contract T).next q (.retired k) =
      some { q with ledger := update q.ledger k .free } := if_pos hledger
  have hsl : SlotOk g (afterPublish g k) k { s.slot k with word := .retired } :=
    .of_not_working (by simp [afterPublish_working]) (by simp) (fun _ => htok) hslot.able
  refine .one hnext (h.setLoop _ (.inr hw) (by simp) hsl ?_ ?_)
  · exact fun k' hk =>
      ⟨working_ne (.inr hwork) k' hk, working_ne (.inl afterPublish_working) k' hk⟩
  · rw [hst]
    exact afterPublish_stage

theorem nodes_follows {rest : List ℕ} (h : Rel g s q) (hl : s.loop = .nodes rest)
    (hs : loopStep g x s = some (s', es)) : Follows g q es s' := by
  have hst : q.stage ≠ .outside := h.stage_at hl
  have hidle : s.loop.working = none := by rw [hl]; rfl
  have hended : ∀ st : Stage, st ≠ .outside → (contract T).next { q with stage := st } .ended =
      some { q with stage := .outside } := fun st hne => if_pos ⟨hne, h.settled hidle⟩
  have hprocessed : ∀ n, (contract T).next q (.processed n) =
      some { q with stage := .processing } := fun n => if_pos ⟨hst, h.settled hidle⟩
  have hleave : Rel g { s with loop := .idle } { q with stage := .outside } :=
    h.moveLoop hidle rfl rfl
  cases rest with
  | nil =>
    rw [loopStep, hl] at hs
    cases hs
    exact .one (hended q.stage hst) hleave
  | cons n rest =>
    cases x with
    | skipped =>
      rw [loopStep, hl] at hs
      cases hs
      exact .silent (h.moveLoop hidle rfl hst)
    | refused =>
      rw [loopStep, hl] at hs
      cases hs
      exact .one (hended q.stage hst) hleave
    | processed res =>
      simp only [loopStep, hl] at hs
      split at hs
      · cases hs
        exact .cons (hprocessed n) (.one (hended .processing (by simp)) hleave)
      · cases hs
        refine .one (hprocessed n) (h.moveLoop hidle rfl ?_)
        simp [StageOk]

/-- **Every step of the data loop follows the contract.** -/
theorem loop_follows (h : Rel g s q) (hs : loopStep g x s = some (s', es)) : Follows g q es s' := by
  cases hl : s.loop with
  | idle =>
    rw [loopStep, hl] at hs
    cases hs
  | publish k => exact publishLoop_follows h hl hs
  | commit k i => exact commit_follows h hl hs
  | adopt i => exact adopt_follows h hl hs
  | retire k =>
    rw [loopStep, hl] at hs
    cases hs
    exact retire_follows h hl
  | nodes rest => exact nodes_follows h hl hs

/-! ## Runs follow the contract -/

theorem closing_discards (ledger : Kind → Ledger T) (ts us : List T) :
    (contract T).accept ⟨ledger, .outside, .closing (ts ++ us)⟩ (ts.map .discarded) =
      some ⟨ledger, .outside, .closing us⟩ := by
  induction ts with
  | nil => rfl
  | cons t ts ih =>
    have hnext : (contract T).next ⟨ledger, .outside, .closing (t :: ts ++ us)⟩ (.discarded t) =
        some ⟨ledger, .outside, .closing (ts ++ us)⟩ := if_pos rfl
    exact Observer.accept_cons_eq_some.mpr ⟨_, hnext, ih⟩

theorem free_follows (h : Rel g s q) (hs : Transaction.free g s = some (s', es)) :
    Follows g q es s' := by
  unfold Transaction.free at hs
  split at hs
  · rename_i hc hl
    cases hs
    have hp : q.phase = .none := h.phase_at hc
    have hst : q.stage = .outside := h.stage_at hl
    have htok : ∀ k, (q.ledger k).tokens = tokens (s.slot k).entries := by
      intro k
      rw [h.ledger]
      exact (h.slots k).ledger_tokens
    rw [clear_eq (h.slots .props).able, clear_eq (h.slots .parameters).able, ← htok, ← htok]
    have hfreeing : (contract T).next q .freeing = some ⟨fun _ => .free, .outside,
        .closing ((q.ledger .props).tokens ++ (q.ledger .parameters).tokens)⟩ :=
      if_pos ⟨hp, hst⟩
    have hfreed : (contract T).next ⟨fun _ => .free, .outside, .closing []⟩ .freed =
        some ⟨fun _ => .free, .outside, .closed⟩ := rfl
    refine ⟨⟨fun _ => .free, .outside, .closed⟩, ?_, ?_⟩
    · refine Observer.accept_cons_eq_some.mpr ⟨_, hfreeing, ?_⟩
      refine Observer.accept_append.mpr ⟨_, closing_discards _ _ _, ?_⟩
      refine Observer.accept_append.mpr ⟨⟨fun _ => .free, .outside, .closing []⟩, ?_, ?_⟩
      · have := closing_discards (fun _ => .free) (q.ledger .parameters).tokens []
        rwa [append_nil] at this
      · rw [Observer.accept_singleton, hfreed]
    · refine ⟨fun k => ?_, fun _ => rfl, rfl, ?_, rfl⟩
      · refine .of_not_working ?_ (by simp) (fun _ => rfl) Able.nil
        simp only [hl]
        simp [working]
      · rw [hl]
        rfl
  · cases hs

theorem step_follows {act : Action T} (h : Rel g s q)
    (hs : (machine T g).step s act = some (s', es)) : Follows g q es s' := by
  cases act with
  | request r => exact enter_follows h hs
  | control a => exact control_follows h hs
  | cycle valid => exact cycle_follows h hs
  | loop x => exact loop_follows h hs
  | free => exact free_follows h hs

/-- The books when a graph was made: the tokens of the configured properties wait. -/
def initialBooks (g : Graph) (answer : ℕ → Option T) : Books T :=
  ⟨fun k => ledgerOf ((init g answer).slot k), .outside, .none⟩

omit [DecidableEq T] in
theorem initialEntries_able (answer : ℕ → Option T) : Able g .props (initialEntries g answer) := by
  intro e he _
  simp only [initialEntries, mem_filterMap, Option.map_eq_some_iff] at he
  obtain ⟨n, -, t, ht, rfl⟩ := he
  unfold initialPrepared at ht
  split at ht
  · rename_i hn
    exact discards_of_prepares hn
  · cases ht

omit [DecidableEq T] in
theorem rel_init (answer : ℕ → Option T) : Rel g (init g answer) (initialBooks g answer) := by
  refine ⟨fun k => ?_, trivial, rfl, rfl, rfl⟩
  cases k with
  | props =>
    have hable := initialEntries_able (g := g) answer
    simp only [init, queueInitialPropertyTransaction]
    split
    · exact .of_not_working (by simp [working]) (by simp) (fun _ => rfl) Able.nil
    · exact .of_not_working (by simp [working]) (by simp) (by simp) hable
  | parameters =>
    exact .of_not_working (by simp [init, working]) (by simp [init]) (fun _ => rfl) Able.nil

theorem initialBooks_held (answer : ℕ → Option T) (t : T) :
    (initialBooks g answer).held t = (g.nodes.filterMap (initialPrepared g answer)).count t := by
  have htok : tokens (initialEntries g answer) = g.nodes.filterMap (initialPrepared g answer) := by
    rw [tokens, initialEntries, filterMap_filterMap]
    congr 1
    funext n
    cases initialPrepared g answer n <;> rfl
  have hslot : tokens (queueInitialPropertyTransaction g answer).entries =
      tokens (initialEntries g answer) := by
    unfold queueInitialPropertyTransaction
    split
    · rename_i he
      rw [he]
    · rfl
  have hrel := rel_init (g := g) answer
  have h₁ : ((initialBooks g answer).ledger .props).tokens = _ := (hrel.slots .props).ledger_tokens
  have h₂ : ((initialBooks g answer).ledger .parameters).tokens = _ :=
    (hrel.slots .parameters).ledger_tokens
  have h₃ : (initialBooks g answer).phase.tokens = [] := rfl
  rw [← htok, ← hslot]
  simp only [Books.held, h₁, h₂, h₃]
  simp [init]

/-- **Prepared transactions.** Along every run of control calls, cycles and a final
`spa_fgn_graph_free` the events follow the contract, and every token was obtained as often as it was
committed or discarded, up to those that are held, of which there are none in the end. -/
theorem transactions_linear (answer : ℕ → Option T) {tr : List (Event T)}
    (h : (machine T g).Reaches (init g answer) s tr) :
    ∃ q, (contract T).accept (initialBooks g answer) tr = some q ∧
      (∀ t, (g.nodes.filterMap (initialPrepared g answer)).count t + tr.countP (Event.obtains t) =
        q.held t + tr.countP (Event.spends t)) ∧ (s.control = .freed → ∀ t, q.held t = 0) := by
  obtain ⟨q, hq, hrel⟩ := h.simulates (Rel g) (rel_init answer) step_follows
  refine ⟨q, hq, ?_, ?_⟩
  · intro t
    rw [← initialBooks_held]
    exact contract_balance t hq
  · intro hc t
    have hphase : q.phase = .closed := hrel.phase_at hc
    have hfree : ∀ k, q.ledger k = .free := by
      intro k
      have hempty : (s.slot k).word = .empty := hrel.control_at hc k
      rw [hrel.ledger]
      simp only [ledgerOf, hempty]
    simp [Books.held, hphase, hfree, Ledger.tokens, Phase.tokens]

/-! ## One run, and two limits -/

/-- All the callbacks for properties and for sets of parameters. -/
def fullDescriptor : Descriptor := ⟨true, true, true, true, true, true, true, true⟩

/-- One node with properties and a parameter. -/
def oneNode : Graph where
  nodes := [0]
  order := [0]
  descriptor _ := fullDescriptor
  inputs := [⟨0, true, 0⟩]
  whole _ := rfl
  parameter_able _ _ _ := rfl

def assignOne : Request := .setProps true (some [⟨true, 0, 0, 5, true, 0, true⟩]) true

/-- The configured properties are committed in a cycle; then a transaction is accepted, and the
graph is freed before the next cycle. -/
def configuredRun : List (Action ℕ) :=
  List.flatten
    [.cycle true :: .replicate 7 (.loop (.processed 0)),
      .request assignOne :: .replicate 6 (.control ⟨0, some 2⟩), [.free]]

/-- The configured token was committed and the other one discarded. -/
theorem transactions_linear_configuredRun :
    ∃ s tr, (machine ℕ oneNode).Reaches (init oneNode fun _ => some 1) s tr ∧
      tr.filter (fun e => e.spends 1 || e.spends 2) = [.committed .props 1, .discarded 2] ∧
      ∃ q, (contract ℕ).accept (initialBooks oneNode fun _ => some 1) tr = some q ∧
        ∀ t, q.held t = 0 := by
  refine Machine.Reaches.of_run_such (P := fun s tr => s.control = .freed ∧
    tr.filter (fun e => e.spends 1 || e.spends 2) = [.committed .props 1, .discarded 2])
    configuredRun (by decide +kernel) ?_
  intro s tr h ⟨hc, htr⟩
  obtain ⟨q, hq, -, hheld⟩ := transactions_linear (fun _ => some 1) h
  exact ⟨htr, q, hq, hheld hc⟩

/-- One node that prepares single parameters only. -/
def legacyNode : Graph where
  nodes := [0]
  order := [0]
  descriptor _ := ⟨false, false, false, true, true, true, false, false⟩
  inputs := [⟨0, true, 0⟩]
  whole _ := rfl
  parameter_able _ _ _ := rfl

def updateOne : Request := .updateParameter ⟨true, 0, true, 0, true⟩ true

/-- **A single update is committed outside of any cycle**; a call returns `-EBUSY` although no
transaction was ever accepted, because a plugin answered it; and a call with bad arguments does not,
although a transaction is pending. -/
theorem commit_outside_cycle_and_busy :
    (∃ s tr, (machine ℕ legacyNode).Reaches (init legacyNode fun _ => none) s tr ∧
      .committedNow 7 ∈ tr ∧ .returned 0 ∈ tr ∧ .began ∉ tr) ∧
    (∃ s tr, (machine ℕ legacyNode).Reaches (init legacyNode fun _ => none) s tr ∧
      .returned (-eBusy) ∈ tr ∧ ∀ k, .accepted k ∉ tr) ∧
    ∃ s tr, (machine ℕ oneNode).Reaches (init oneNode fun _ => some 1) s tr ∧
      (s.slot .props).word = .pending ∧ tr = [.called .props, .returned (-eInval)] := by
  refine ⟨?_, ?_, ?_⟩
  · exact Machine.Reaches.of_run_such (.request updateOne :: .replicate 5 (.control ⟨0, some 7⟩))
      (by decide +kernel) fun _ _ _ h => h
  · refine Machine.Reaches.of_run_such (P := fun _ tr => tr = [.called .parameters,
      .looked .parameters, .admitted .parameters, .failed, .returned (-eBusy)])
      (.request updateOne :: .replicate 5 (.control ⟨-eBusy, none⟩)) (by decide +kernel) ?_
    rintro s tr - rfl
    exact ⟨by simp, by simp⟩
  · exact Machine.Reaches.of_run_such [.request (.setProps false none true), .control ⟨0, none⟩]
      (by decide +kernel) fun _ _ _ h => h

end Follows

end PipeWireAO.FilterGraph.Transaction
