import PipeWireAO.FilterGraph.Transaction.Request
import PipeWireAO.Foundation.Machine

/-!
# The contract of prepared transactions

What the plugins, the control thread and the data loop may see of each other, without the words and
the arrays of the graph. A token that a plugin returned from a prepare callback goes back to it in
exactly one commit or discard. The tokens of an accepted transaction wait together; a process call
takes all of them before it lets a node process, or none.
-/

namespace PipeWireAO.FilterGraph.Transaction

open Foundation List Function Option

/-- What is observed of a graph whose plugins return tokens of type `T`. -/
inductive Event (T : Type*)
  | called (k : Kind)
  /-- It looked whether the slot is in use. -/
  | looked (k : Kind)
  | busy (k : Kind)
  | admitted (k : Kind)
  | prepared (t : T)
  | failed
  | discarded (t : T)
  | accepted (k : Kind)
  /-- A single update was committed by the control call itself. -/
  | committedNow (t : T)
  | returned (res : Int)
  /-- `spa_fgn_graph_free` was entered, and left. -/
  | freeing
  | freed
  | began
  /-- It took the transaction of a slot. -/
  | claimed (k : Kind)
  | committed (k : Kind) (t : T)
  | adopted (n : ℕ)
  /-- It has done with the transaction. -/
  | retired (k : Kind)
  | processed (n : ℕ)
  | ended
deriving DecidableEq

/-- The accepted transaction of a slot: there is none, its tokens wait, or these of its tokens are
still to be committed. -/
inductive Ledger (T : Type*)
  | free
  | pending (ts : List T)
  | publishing (ts : List T)
deriving DecidableEq

/-- A process call: there is none, no node has processed yet, or one has. -/
inductive Stage
  | outside
  | started
  | processing
deriving DecidableEq

/-- A control call: there is none; it was entered; it found the slot live or not; it has prepared
these tokens; it has these to discard; it is refused or has succeeded. Then `spa_fgn_graph_free`. -/
inductive Phase (T : Type*)
  | none
  | called (k : Kind)
  | looked (k : Kind) (live : Bool)
  | preparing (k : Kind) (ts : List T)
  | discarding (ts : List T)
  | refused
  | succeeded
  | closing (ts : List T)
  | closed
deriving DecidableEq

def Ledger.tokens {T : Type*} : Ledger T → List T
  | .free => []
  | .pending ts => ts
  | .publishing ts => ts

/-- Between the first commit of a transaction and its retirement. -/
def Ledger.open {T : Type*} : Ledger T → Bool
  | .publishing _ => true
  | _ => false

/-- An accepted transaction was not retired yet. -/
def Ledger.live {T : Type*} : Ledger T → Bool
  | .free => false
  | _ => true

/-- The tokens a control call holds. -/
def Phase.tokens {T : Type*} : Phase T → List T
  | .preparing _ ts => ts
  | .discarding ts => ts
  | .closing ts => ts
  | _ => []

/-- The values a call may return: an error for its arguments, `-EBUSY` if the slot was live, an
error after it discarded what it prepared, and no error if its tokens were published or there were
none. -/
def Phase.returns {T : Type*} : Phase T → Int → Bool
  | .called _, res => res < 0
  | .refused, res => res = -eBusy
  | .discarding [], res => res < 0
  | .preparing _ [], res => 0 ≤ res
  | .succeeded, res => 0 ≤ res
  | _, _ => false

/-- `spa_fgn_graph_free` was not entered. -/
def Phase.running {T : Type*} : Phase T → Bool
  | .closing _ => false
  | .closed => false
  | _ => true

/-- Who holds which tokens. -/
structure Books (T : Type*) where
  ledger : Kind → Ledger T
  stage : Stage
  phase : Phase T

/-- No transaction is partly committed. -/
def Books.settled {T : Type*} (q : Books T) : Bool :=
  !(q.ledger .props).open && !(q.ledger .parameters).open

section Contract

variable {T : Type*} [DecidableEq T] {e : Event T}

def controlNext (q : Books T) : Event T → Option (Books T)
  | .called k => if q.phase = .none then some { q with phase := .called k } else none
  | .looked k =>
    if q.phase = .called k then some { q with phase := .looked k (q.ledger k).live } else none
  | .busy k => if q.phase = .looked k true then some { q with phase := .refused } else none
  | .admitted k =>
    if q.phase = .looked k false then some { q with phase := .preparing k [] } else none
  | .prepared t =>
    match q.phase with
    | .preparing k ts => some { q with phase := .preparing k (ts ++ [t]) }
    | _ => none
  | .failed =>
    match q.phase with
    | .preparing _ ts => some { q with phase := .discarding ts }
    | _ => none
  | .discarded t =>
    match q.phase with
    | .discarding (t' :: ts) => if t = t' then some { q with phase := .discarding ts } else none
    | .closing (t' :: ts) => if t = t' then some { q with phase := .closing ts } else none
    | _ => none
  | .accepted k =>
    match q.phase with
    | .preparing k' ts =>
      if k = k' ∧ q.ledger k = .free then
        some { q with ledger := update q.ledger k (.pending ts), phase := .succeeded }
      else none
    | _ => none
  | .committedNow t =>
    if q.phase = .preparing .parameters [t] then some { q with phase := .succeeded } else none
  | .returned res => if q.phase.returns res then some { q with phase := .none } else none
  | .freeing =>
    if q.phase = .none ∧ q.stage = .outside then
      some ⟨fun _ => .free, .outside,
        .closing ((q.ledger .props).tokens ++ (q.ledger .parameters).tokens)⟩
    else none
  | .freed => if q.phase = .closing [] then some { q with phase := .closed } else none
  | _ => none

def loopNext (q : Books T) : Event T → Option (Books T)
  | .began =>
    if q.stage = .outside ∧ q.phase.running then some { q with stage := .started } else none
  | .claimed k =>
    match q.stage, q.ledger k with
    | .started, .pending ts =>
      some { q with ledger := update q.ledger k (.publishing ts) }
    | _, _ => none
  | .committed k t =>
    match q.stage, q.ledger k with
    | .started, .publishing (t' :: ts) =>
      if t = t' then some { q with ledger := update q.ledger k (.publishing ts) } else none
    | _, _ => none
  | .adopted _ => if q.stage = .started then some q else none
  | .retired k =>
    if q.ledger k = .publishing [] then
      some { q with ledger := update q.ledger k .free }
    else none
  | .processed _ =>
    if q.stage ≠ .outside ∧ q.settled then some { q with stage := .processing } else none
  | .ended =>
    if q.stage ≠ .outside ∧ q.settled then some { q with stage := .outside } else none
  | _ => none

def Event.ofLoop : Event T → Bool
  | .began | .claimed _ | .committed _ _ | .adopted _ | .retired _ | .processed _ | .ended => true
  | _ => false

/-- **The contract of prepared transactions.** -/
def contract (T : Type*) [DecidableEq T] : Observer (Books T) (Event T) where
  next q e := if e.ofLoop then loopNext q e else controlNext q e

/-! ## Nothing is lost, and nothing is spent twice -/

/-- How often a token is held. -/
def Books.held (t : T) (q : Books T) : ℕ :=
  (q.ledger .props).tokens.count t + (q.ledger .parameters).tokens.count t +
    q.phase.tokens.count t

/-- The token was given to its plugin: committed or discarded. -/
def Event.spends (t : T) : Event T → Bool
  | .committed _ t' => t' = t
  | .committedNow t' => t' = t
  | .discarded t' => t' = t
  | _ => false

/-- The token was taken from its plugin. -/
def Event.obtains (t : T) : Event T → Bool
  | .prepared t' => t' = t
  | _ => false

open Books (held)

theorem held_update (t : T) (q : Books T) (k : Kind) (l : Ledger T) : q.held t + l.tokens.count t =
      ({ q with ledger := update q.ledger k l } : Books T).held t +
        (q.ledger k).tokens.count t := by
  cases k <;> simp [held] <;> omega

open Event (spends obtains)

open Phase (tokens)

theorem controlNext_balance {q q' : Books T} (t : T) (h : controlNext q e = some q') :
    q.held t + [e].countP (obtains t) = q'.held t + [e].countP (spends t) := by
  cases e with
  | called k | looked k | busy k | admitted k | freed =>
    simp only [controlNext, ite_none_right_eq_some, some.injEq] at h
    obtain ⟨hp, rfl⟩ := h
    simp [held, hp, tokens, obtains, spends]
  | prepared t' =>
    simp only [controlNext] at h
    split at h
    · rename_i k ts hp
      cases h
      simp only [held, hp, tokens, count_append, obtains, spends,
        count_singleton, countP_singleton, beq_iff_eq]
      grind
    · cases h
  | failed =>
    simp only [controlNext] at h
    split at h
    · rename_i k ts hp
      cases h
      simp [held, hp, tokens, obtains, spends]
    · cases h
  | discarded t' =>
    simp only [controlNext] at h
    split at h
    all_goals first
      | cases h
      | rename_i t'' ts hp
        simp only [ite_none_right_eq_some, some.injEq] at h
        obtain ⟨rfl, rfl⟩ := h
        simp only [held, hp, tokens, count_cons, obtains, spends,
          countP_singleton, beq_iff_eq]
        grind
  | accepted k =>
    simp only [controlNext] at h
    split at h
    · rename_i k' ts hp
      simp only [ite_none_right_eq_some, some.injEq] at h
      obtain ⟨⟨-, hl⟩, rfl⟩ := h
      have := held_update t q k (.pending ts)
      simp only [hl, Ledger.tokens, count_nil] at this
      simp only [held, hp, tokens, count_nil, obtains, spends,
        countP_singleton, Bool.false_eq_true, if_false] at this ⊢
      omega
    · cases h
  | committedNow t' =>
    simp only [controlNext, ite_none_right_eq_some, some.injEq] at h
    obtain ⟨hp, rfl⟩ := h
    simp only [held, hp, tokens, count_singleton, count_nil, obtains,
      spends, countP_singleton, beq_iff_eq]
    grind
  | returned res =>
    simp only [controlNext, ite_none_right_eq_some, some.injEq] at h
    obtain ⟨hp, rfl⟩ := h
    have : q.phase.tokens = [] := by
      unfold Phase.returns at hp
      split at hp <;> simp_all [tokens]
    have hnone : (Phase.none : Phase T).tokens = [] := rfl
    simp [held, this, hnone, obtains, spends]
  | freeing =>
    simp only [controlNext, ite_none_right_eq_some, some.injEq] at h
    obtain ⟨⟨hp, -⟩, rfl⟩ := h
    simp [held, hp, tokens, Ledger.tokens, obtains, spends,
      count_append]
  | _ => cases h

theorem loopNext_balance {q q' : Books T} (t : T) (h : loopNext q e = some q') :
    q.held t + [e].countP (obtains t) = q'.held t + [e].countP (spends t) := by
  cases e with
  | began | processed n | ended =>
    simp only [loopNext, ite_none_right_eq_some, some.injEq] at h
    obtain ⟨-, rfl⟩ := h
    simp [held, obtains, spends]
  | adopted n =>
    simp only [loopNext, ite_none_right_eq_some, some.injEq] at h
    obtain ⟨-, rfl⟩ := h
    simp [obtains, spends]
  | claimed k =>
    simp only [loopNext] at h
    split at h
    · rename_i ts _ hl
      cases h
      have := held_update t q k (.publishing ts)
      simp only [hl, Ledger.tokens] at this
      simp only [obtains, spends, countP_singleton, Bool.false_eq_true, if_false]
      omega
    · cases h
  | committed k t' =>
    simp only [loopNext] at h
    split at h
    · rename_i t'' ts _ hl
      have := held_update t q k (.publishing ts)
      simp only [hl, Ledger.tokens, count_cons, beq_iff_eq] at this
      simp only [obtains, spends, countP_singleton, decide_eq_true_eq]
      grind
    · cases h
  | retired k =>
    simp only [loopNext, ite_none_right_eq_some, some.injEq] at h
    obtain ⟨hl, rfl⟩ := h
    have := held_update t q k .free
    simp only [hl, Ledger.tokens] at this
    simp only [obtains, spends, countP_singleton, Bool.false_eq_true, if_false]
    omega
  | _ => cases h

/-- **Nothing is lost, and nothing is spent twice**: a token was obtained as often as it was
spent, up to what is held. -/
theorem contract_balance {q q' : Books T} {tr : List (Event T)} (t : T)
    (h : (contract T).accept q tr = some q') :
    q.held t + tr.countP (obtains t) = q'.held t + tr.countP (spends t) := by
  refine Observer.accept_balance (obtains t) (spends t) (held t) ?_ h
  intro q q' e hq
  simp only [contract] at hq
  split at hq
  · exact loopNext_balance t hq
  · exact controlNext_balance t hq

end Contract

end PipeWireAO.FilterGraph.Transaction
