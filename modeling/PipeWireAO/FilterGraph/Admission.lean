import PipeWireAO.FilterGraph.Loader
import PipeWireAO.Json.Reading

/-!
# Which configurations are admitted

The loops of the loaders end at the end of a container, but also at an error of the tokenizer, at an
element of the wrong kind and at a string that is too long. So a configuration may be admitted with
elements that were ignored. This module compares what was loaded with what the text says.
-/

namespace PipeWireAO.FilterGraph

open List Function Option
open Foundation (bind_eq_ok exists_ok_such forall_mem_concat)
open Json (Text Iter Outcome Member Value Reads Closes Denotes tokenBytes parseStringn isString
  objectNext parseInt)

/-! ## Strings -/

def tokenString (t : Text) : Text := (parseStringn t t.length (t.length + 1)).getD []

variable {value : Text} {len : ℕ}

theorem length_tokenBytes (h : len ≤ value.length) : (tokenBytes value len).length = len := by
  simp [tokenBytes, h]

theorem tokenBytes_again (value : Text) (len : ℕ) :
    tokenBytes (tokenBytes value len) len = tokenBytes value len := by
  simp [tokenBytes]

theorem isString_tokenBytes (h : len ≤ value.length) :
    isString (tokenBytes value len) (tokenBytes value len).length = isString value len := by
  rw [length_tokenBytes h]
  unfold isString tokenBytes
  rw [head?_take]
  rcases Nat.eq_zero_or_pos len with rfl | hpos
  · simp
  · rw [if_neg (Nat.pos_iff_ne_zero.mp hpos)]

theorem parseStringn_eq {maxlen : ℕ} (h : len ≤ value.length) : parseStringn value len maxlen =
      if maxlen ≤ len then none else some (tokenString (tokenBytes value len)) := by
  unfold tokenString parseStringn
  rw [isString_tokenBytes h, length_tokenBytes h, tokenBytes_again]
  split_ifs <;> first | rfl | omega

/-! ## Members -/

/-- The members of an object, as keys and values. -/
def pairs : List Value → Option (List (Text × Value))
  | [] => some []
  | .text k :: v :: rest => (pairs rest).map ((k, v) :: ·)
  | _ => none

variable {vs : List Value} {it : Iter}

theorem pairs_isSome (h : Reads false false it vs) : ∃ ms, pairs vs = some ms := by
  induction hn : vs.length using Nat.strong_induction_on generalizing it vs with
  | _ n ih =>
    subst hn
    rcases h.next_member with ⟨rfl, -⟩ | ⟨k, l, _, _, _, _, v, rest, rfl, -, -, -, -, -, hrest⟩
    · exact ⟨[], rfl⟩
    · obtain ⟨ms, hms⟩ := ih rest.length (by simp only [length_cons]; omega) hrest rfl
      exact ⟨(tokenBytes k l, v) :: ms, by simp [pairs, hms]⟩

variable {done : List (Text × Value)}

section Members

variable {σ : Type} {body : σ → Text → Text → ℕ → Iter → Except Int (σ × Iter)} {s s' : σ}
  {it e : Iter} {vs : List Value} {n : ℕ} {o : Outcome}

theorem objectNext_closes (maxlen : ℕ) (hr : Reads false false it vs) (hn : vs.length < n) :
    (∃ e, objectNext maxlen n it = (.stop .close, e) ∧ Closes it e) ∨
      ∃ key value len it' rest, objectNext maxlen n it = (.member key value len, it') ∧
        Reads false false it' rest ∧ rest.length < vs.length ∧ ∀ e, Closes it' e → Closes it e := by
  induction n generalizing it vs with
  | zero => omega
  | succ n ih =>
    rcases hr.next_member with ⟨-, e, hclose⟩ | ⟨k, l, it₁, value, len, it₂, v, rest, rfl, hk, -, hval,
        -, -, hrest⟩
    · exact .inl ⟨e, by rw [objectNext, hclose], .here hclose⟩
    · have hmore : ∀ e, Closes it₂ e → Closes it e := fun e he => .more hk (.more hval he)
      simp only [objectNext, hk, hval]
      simp only [length_cons] at hn ⊢
      cases parseStringn k l maxlen with
      | some key => exact .inr ⟨key, value, len, it₂, rest, rfl, hrest, by omega, hmore⟩
      | none =>
        -- the key is too long, and the member is skipped
        rcases ih hrest (by omega) with ⟨e, hstop, hc⟩ | ⟨key, value', len', it', rest', hmem, hr', hlt, hc⟩
        · exact .inl ⟨e, hstop, hmore e hc⟩
        · exact .inr ⟨key, value', len', it', rest', hmem, hr', by omega, fun e he => hmore e (hc e he)⟩

/-- **A loop over members reaches the end of the object**, if its body leaves the iterator alone. -/
theorem foldMembers_closes
    (hbody : ∀ {s key value len it r}, body s key value len it = .ok r → r.2 = it)
    (hr : Reads false false it vs) (hn : vs.length < n)
    (h : foldMembers body n s it = .ok (s', o, e)) : o = .close ∧ Closes it e := by
  induction n generalizing it vs s with
  | zero => omega
  | succ n ih =>
    rw [foldMembers] at h
    rcases objectNext_closes 256 hr (Nat.lt_succ_of_le hr.length_le) with
      ⟨e', hstop, hc⟩ | ⟨key, value, len, it', rest, hmem, hr', hlt, hc⟩
    · rw [hstop] at h
      cases h
      exact ⟨rfl, hc⟩
    · rw [hmem] at h
      dsimp only at h
      cases hb : body s key value len it' with
      | error res =>
        rw [hb] at h
        cases h
      | ok r =>
        rw [hb] at h
        obtain ⟨s₁, it₁⟩ := r
        obtain rfl : it₁ = it' := hbody hb
        obtain ⟨ho, hclose⟩ := ih hr' (by omega) h
        exact ⟨ho, hc e hclose⟩

/-- **The rule of a loop over members**, with the members `done` before, if no key is too long. -/
theorem foldMembers_induct {P : Text × Value → Prop} (I : σ → List (Text × Value) → Prop)
    (hP : ∀ ms, pairs vs = some ms → ∀ m ∈ ms, P m) (hshort : ∀ m, P m → m.1.length < 256)
    (hstep : ∀ {s done k v value len it rest s' it'}, I s done → P (k, v) → len ≤ value.length →
      Denotes it value len v → Reads false false it rest →
      body s (tokenString k) value len it = .ok (s', it') →
      I s' (done ++ [(k, v)]) ∧ Reads false false it' rest) (hi : I s done)
    (hr : Reads false false it vs) (hn : vs.length < n)
    (h : foldMembers body n s it = .ok (s', o, e)) :
    ∃ ms, pairs vs = some ms ∧ I s' (done ++ ms) := by
  induction n generalizing it vs s done with
  | zero => omega
  | succ n ih =>
    rw [foldMembers] at h
    rcases hr.next_member with ⟨rfl, e', hclose⟩ | ⟨k, l, it₁, value, len, it₂, v, rest, rfl, hk, hl, hval,
        hlen, hv, hrest⟩
    · simp only [objectNext, hclose] at h
      cases h
      exact ⟨[], rfl, by simpa using hi⟩
    · -- what is true of all members is true of this one and of the others
      have hall : ∀ ms, pairs rest = some ms → P (tokenBytes k l, v) ∧ ∀ m ∈ ms, P m := by
        intro ms hms
        have := hP ((tokenBytes k l, v) :: ms) (by simp [pairs, hms])
        exact ⟨this _ mem_cons_self, fun m hm => this m (mem_cons_of_mem _ hm)⟩
      obtain ⟨ms, hms⟩ := pairs_isSome hrest
      obtain ⟨hPk, hPms⟩ := hall ms hms
      have hkey : parseStringn k l 256 = some (tokenString (tokenBytes k l)) := by
        have hlt : l < 256 := by
          have := hshort _ hPk
          rwa [length_tokenBytes hl] at this
        rw [parseStringn_eq hl, if_neg (Nat.not_le.mpr hlt)]
      simp only [objectNext, hk, hval, hkey] at h
      cases hb : body s (tokenString (tokenBytes k l)) value len it₂ with
      | error res =>
        rw [hb] at h
        cases h
      | ok r =>
        rw [hb] at h
        obtain ⟨hi', hr'⟩ := hstep hi hPk hlen hv hrest hb
        simp only [length_cons] at hn
        obtain ⟨ms', hms', hI⟩ := ih (fun ms h => (hall ms h).2) hi' hr' (by omega) h
        refine ⟨(tokenBytes k l, v) :: ms', by simp [pairs, hms'], ?_⟩
        rwa [append_assoc] at hI

end Members

/-! ## Workers -/

variable {key reference : Text} {nodes nodes' : List Loaded} {child : Iter}
  {links links' : List Link} {resolve : Text → Option PortId} {linked known : PortId → Bool}
  {ports ports' default : List PortId} {b : Bool} {listed : Option (List PortId)} {p : PortId}
  {ws : List Value} {c : NodeConfig}

section Workers

variable {env : Environment} {it it' : Iter} {value k : Text} {len n : ℕ} {v : Value}
  {rest items : List Value}

/-- One member `helpers`, with an integer. -/
def IsWorkers (env : Environment) (items : List Value) : Prop :=
  ∃ k t n, items = [.text k, .text t] ∧ k.length < 256 ∧ tokenString k = str "helpers" ∧
    parseInt env.strtol t t.length = some n

theorem pairs_singleton (h : pairs items = some [(k, v)]) : items = [.text k, v] := by
  rcases items with _ | ⟨_ | _, _ | ⟨w, items⟩⟩
  · cases h
  · cases h
  · simp only [pairs, map_eq_some_iff, List.cons.injEq, Prod.mk.injEq] at h
    obtain ⟨ms, hms, ⟨rfl, rfl⟩, rfl⟩ := h
    rcases items with _ | ⟨_ | _, _ | ⟨w', items⟩⟩
    · rfl
    all_goals simp [pairs] at hms
  · cases h
  · cases h

theorem parseInt_text {m : Int} (hlen : len ≤ value.length) (hv : Denotes it value len v)
    (h : parseInt env.strtol value len = some m) :
    ∃ t, v = .text t ∧ parseInt env.strtol t t.length = some m := by
  rcases hv with ⟨-, rfl, -⟩ | ⟨b, a, ws, hval, -⟩
  · refine ⟨_, rfl, ?_⟩
    rw [length_tokenBytes hlen]
    unfold parseInt at h ⊢
    rwa [tokenBytes_again]
  · unfold parseInt at h
    split_ifs at h with hzero
    dsimp only at h
    have hne : len ≠ 0 := fun h => hzero (.inl h)
    have hbracket : Json.container (tokenBytes value len) = some b := by
      rw [← hval, Json.container, Json.container, tokenBytes, head?_take, if_neg hne]
    rw [env.strtol_bracket _ b hbracket] at h
    split_ifs at h with hread
    exact absurd hread.symm hne

theorem workersMember_iter {helpers : Option ℕ} {r : Option ℕ × Iter}
    (h : workersMember env helpers key value len it = .ok r) : r.2 = it := by
  unfold workersMember at h
  split_ifs at h
  split at h
  · cases h
  · split_ifs at h
    cases h
    rfl

/-- What the loop of `parse_workers` has seen: nothing, or the member `helpers`. -/
def WorkersSeen (env : Environment) (helpers : Option ℕ) (done : List (Text × Value)) : Prop :=
  (helpers = none ∧ done = []) ∨ ∃ k t m, done = [(k, .text t)] ∧ helpers.isSome = true ∧
    tokenString k = str "helpers" ∧ parseInt env.strtol t t.length = some m

theorem workersMember_seen {helpers helpers' : Option ℕ} (hI : WorkersSeen env helpers done)
    (hlen : len ≤ value.length) (hv : Denotes it value len v)
    (h : workersMember env helpers (tokenString k) value len it = .ok (helpers', it')) :
    WorkersSeen env helpers' (done ++ [(k, v)]) := by
  unfold workersMember at h
  split_ifs at h with hbad
  obtain ⟨hkey, hnone⟩ := not_or.mp hbad
  split at h
  · cases h
  · rename_i m hint
    split_ifs at h
    cases h
    obtain ⟨t, rfl, ht⟩ := parseInt_text hlen hv hint
    rcases hI with ⟨-, rfl⟩ | ⟨_, _, _, -, hsome, -⟩
    · exact .inr ⟨k, t, m, rfl, rfl, not_not.mp hkey, ht⟩
    · exact absurd hsome hnone

/-- **What `parse_workers` accepts.** -/
theorem parseWorkers_spec (hv : Denotes it value len v) (hr : Reads false false it rest)
    (hshort : ∀ items ms, v = .node false items → pairs items = some ms → ∀ m ∈ ms, m.1.length < 256)
    (h : parseWorkers env it value = .ok (n, it')) :
    (∃ items, v = .node false items ∧ IsWorkers env items) ∧ Reads false false it' rest := by
  unfold parseWorkers at h
  split_ifs at h with hobj
  rw [not_not] at hobj
  rcases hv with ⟨hval, -⟩ | ⟨b, a, items, hval, rfl, -, hst, hitems⟩
  · rw [hval] at hobj
    cases hobj
  obtain rfl : b = false := some.inj (hval.symm.trans hobj)
  split at h
  · cases h
  · cases h
  · rename_i m o object hfold
    cases h
    have hfuel : items.length < it.cur.length + 1 := Nat.lt_succ_of_le hitems.length_le
    obtain ⟨rfl, hclose⟩ := foldMembers_closes workersMember_iter hitems hfuel hfold
    refine ⟨⟨items, rfl, ?_⟩, hr.leave hst hclose⟩
    have hseen : ∃ ms, pairs items = some ms ∧ WorkersSeen env (some n) ([] ++ ms) := by
      refine foldMembers_induct (P := fun m => m.1.length < 256) (WorkersSeen env)
        (hshort items · rfl) (fun _ h => h) ?_ (.inl ⟨rfl, rfl⟩) hitems hfuel hfold
      intro helpers done k v value len it rest helpers' it' hI _ hlen hv hr hbody
      obtain rfl : it' = it := workersMember_iter hbody
      exact ⟨workersMember_seen hI hlen hv hbody, hr⟩
    obtain ⟨ms, hms, hnone | ⟨k, t, m, hdone, -, hkey, hint⟩⟩ := hseen
    · cases hnone.1
    · subst hdone
      have hk := hshort items _ rfl hms _ mem_cons_self
      exact ⟨k, t, m, pairs_singleton hms, hk, hkey, hint⟩

end Workers

/-! ## The loop over the configuration -/

/-- The key and those of the workers fit the buffer, so that the member is not skipped. -/
def shortKeys (m : Text × Value) : Bool :=
  m.1.length < 256 &&
    match m.2 with
    | .node false items => ((pairs items).getD []).all (·.1.length < 256)
    | _ => true

/-- What the loaders do not check of an element: a node or a link is an object, and the reference of
an external port fits its buffer. -/
def shapedElement : Section → Value → Bool
  | .nodes, .node false _ | .links, .node false _ => true
  | .nodes, _ | .links, _ => false
  | _, .text t => t.length < 512
  | _, .node _ _ => true

/-- What the loaders do not check of a member. -/
def shapedMember (m : Text × Value) : Bool :=
  shortKeys m &&
    match sectionOf (tokenString m.1), m.2 with
    | some s, .node true vs => vs.all (shapedElement s)
    | _, _ => true

/-- What the loop over the configuration has seen: every member is one of the arrays that were found,
or the workers. -/
structure Seen (env : Environment) (f : Found) (ms : List (Text × Value)) : Prop where
  member : ∀ m ∈ ms,
    (∃ s vs it, sectionOf (tokenString m.1) = some s ∧ m.2 = .node true vs ∧
      f.sections s = some it ∧ Reads true false it vs) ∨
    (tokenString m.1 = str "workers" ∧ ∃ items, m.2 = .node false items ∧ IsWorkers env items)
  found : ∀ s it, f.sections s = some it → ∃ m ∈ ms, sectionOf (tokenString m.1) = some s

theorem sectionOf_workers : sectionOf (str "workers") = none := by decide +kernel

variable {n : ℕ}

section Config

variable {env : Environment} {f f' : Found} {done : List (Text × Value)} {k value : Text} {v : Value}
  {len : ℕ} {it it' : Iter} {rest : List Value}

theorem Seen.workers {items : List Value} (hI : Seen env f done)
    (hk : tokenString k = str "workers") (hitems : IsWorkers env items) :
    Seen env { f with helpers := some n } (done ++ [(k, .node false items)]) where
  member := forall_mem_concat hI.member (.inr ⟨hk, items, rfl, hitems⟩)
  found s it hs := by
    obtain ⟨m, hm, hsec⟩ := hI.found s it hs
    exact ⟨m, mem_append_left _ hm, hsec⟩

theorem Seen.array {s : Section} (hI : Seen env f done) (hk : sectionOf (tokenString k) = some s)
    (hnew : f.sections s = none) (hr : Reads true false it vs) :
    Seen env { f with sections := update f.sections s (some it) }
      (done ++ [(k, .node true vs)]) where
  member m hm := by
    rcases mem_append.mp hm with hm | hm
    · rcases hI.member m hm with ⟨s', vs', it', hsec, hv, hit, hr'⟩ | hworkers
      · refine .inl ⟨s', vs', it', hsec, hv, ?_, hr'⟩
        -- an array that was found before is another one
        have hne : s' ≠ s := by
          rintro rfl
          rw [hnew] at hit
          cases hit
        exact (update_of_ne hne _ _).trans hit
      · exact .inr hworkers
    · obtain rfl := mem_singleton.mp hm
      exact .inl ⟨s, vs, it, hk, rfl, update_self .., hr⟩
  found s' it' hs := by
    by_cases hne : s' = s
    · subst hne
      exact ⟨_, mem_append_right _ (mem_singleton_self _), hk⟩
    · dsimp only at hs
      rw [update_of_ne hne] at hs
      obtain ⟨m, hm, hsec⟩ := hI.found s' it' hs
      exact ⟨m, mem_append_left _ hm, hsec⟩

theorem configMember_seen (hI : Seen env f done) (hkeys : shortKeys (k, v) = true)
    (hv : Denotes it value len v) (hr : Reads false false it rest)
    (h : configMember env f (tokenString k) value len it = .ok (f', it')) :
    Seen env f' (done ++ [(k, v)]) ∧ Reads false false it' rest := by
  unfold configMember at h
  split_ifs at h with hk hhave
  · split at h
    · cases h
    · rename_i n it₁ hworkers
      cases h
      have hshort : ∀ items ms, v = .node false items → pairs items = some ms →
          ∀ m ∈ ms, m.1.length < 256 := by
        rintro items ms rfl hms m hm
        simp only [shortKeys, hms, getD_some, Bool.and_eq_true, List.all_eq_true,
          decide_eq_true_eq] at hkeys
        exact hkeys.2 m hm
      obtain ⟨⟨items, rfl, hitems⟩, hr'⟩ := parseWorkers_spec hv hr hshort hworkers
      exact ⟨hI.workers hk hitems, hr'⟩
  · split at h
    · cases h
    · rename_i s hsec
      split_ifs at h with hbad
      cases h
      obtain ⟨hnew, harray⟩ := not_or.mp hbad
      rcases hv with ⟨hval, -⟩ | ⟨b, a, ws, hval, rfl, -, -, hws⟩
      · simp [hval] at harray
      · obtain rfl : b = true := by simpa [hval] using harray
        exact ⟨hI.array hsec (by simpa using hnew) hws, hr⟩

end Config

/-! ## The loops over the arrays -/

/-- **The rule of a loop over objects**: it sees every element, if all are objects. -/
theorem foldObjects_count {σ : Type} {load : σ → Iter → Except Int (σ × Outcome × Iter)} (μ : σ → ℕ)
    (hload : ∀ {s child ws s' o e}, Reads false false child ws → load s child = .ok (s', o, e) →
      o = .close ∧ Closes child e ∧ μ s' = μ s + 1) {s s' : σ} (hr : Reads true false it vs)
    (hobj : ∀ v ∈ vs, ∃ items, v = .node false items) (hn : vs.length < n)
    (h : foldObjects load n s it = .ok s') : μ s' = μ s + vs.length := by
  induction n generalizing s it vs with
  | zero => omega
  | succ n ih =>
    rw [foldObjects, Json.enterContainer] at h
    rcases hr.next_item with ⟨rfl, -, it', hclose⟩ | ⟨v, vs', value, len, it', rfl, htoken, -, -, hv, -, hrest⟩
    · rw [hclose] at h
      cases h
      rfl
    · obtain ⟨items, rfl⟩ := hobj v mem_cons_self
      rcases hv with ⟨-, hv, -⟩ | ⟨b, a, ws, hval, hv, -, hst, hws⟩
      · cases hv
      cases hv
      rw [htoken] at h
      simp only [hval, if_true] at h
      cases hl : load s (Json.enter it') with
      | error res =>
        rw [hl] at h
        cases h
      | ok r =>
        obtain ⟨s₁, o, e⟩ := r
        rw [hl] at h
        obtain ⟨rfl, hclose, hμ⟩ := hload hws hl
        simp only [length_cons] at hn ⊢
        have hcount := ih (hrest.leave hst hclose) (fun v hv => hobj v (mem_cons_of_mem _ hv))
          (by omega) h
        omega

variable {env : Environment}

theorem nodeMember_iter {r : NodeConfig × Iter} (h : nodeMember env c key value len it = .ok r) :
    r.2 = it := by
  unfold nodeMember at h
  simp only [bind, Except.bind, pure, Except.pure, throw, throwThe, MonadExceptOf.throw] at h
  repeat' split at h
  all_goals cases h
  all_goals rfl

theorem linkMember_iter {refs : Text × Text} {r : (Text × Text) × Iter}
    (h : linkMember refs key value len it = .ok r) : r.2 = it := by
  unfold linkMember at h
  simp only [bind, Except.bind, pure, Except.pure, throw, throwThe, MonadExceptOf.throw] at h
  repeat' split at h
  all_goals cases h
  all_goals rfl

/-- **What `load_node` adds**: nothing without an instance, and otherwise one node with a new name. -/
theorem addNode_eq (h : addNode env nodes c = .ok nodes') :
    (env.instantiate c.plugin c.label c.config = .ok none ∧ nodes' = nodes) ∨
      ∃ (inst : Instance) (node : Node) (listed properties : List Property),
        nodes' = nodes ++ [⟨c.name, inst.infos, properties, node⟩] ∧
          env.instantiate c.plugin c.label c.config = .ok (some inst) ∧
          loadPorts inst.preparesParameter inst.infos = .ok node ∧
          listed.foldlM loadProperty [] = .ok properties ∧
          c.name ≠ [] ∧ ∀ l ∈ nodes, l.name ≠ c.name := by
  unfold addNode at h
  split_ifs at h with hbad
  simp only [not_or] at hbad
  split at h
  · cases h
  · rename_i hnone
    cases h
    exact .inl ⟨hnone, rfl⟩
  · rename_i inst hinst
    obtain ⟨node, hnode, h⟩ := bind_eq_ok.mp h
    obtain ⟨listed, -, h⟩ := bind_eq_ok.mp h
    obtain ⟨properties, hproperties, h⟩ := bind_eq_ok.mp h
    obtain ⟨-, -, h⟩ := bind_eq_ok.mp h
    split_ifs at h
    cases h
    refine .inr ⟨inst, node, listed, properties, rfl, hinst, hnode, hproperties, hbad.1,
      fun l hl heq => ?_⟩
    exact hbad.2.2.2 (any_eq_true.mpr ⟨l, hl, decide_eq_true heq⟩)

variable {o : Outcome} {e : Iter}

/-- The members of a node, without the node. -/
def readNode (env : Environment) (cs : List NodeConfig) (json : Iter) :
    Except Int (List NodeConfig × Outcome × Iter) := do
  let (c, o, json') ← foldMembers (nodeMember env) (json.cur.length + 1) ⟨[], [], [], none, none⟩ json
  return (cs ++ [c], o, json')

/-- The plugin answers with an instance, or an error. -/
def hasInstance (env : Environment) (c : NodeConfig) : Bool :=
  match env.instantiate c.plugin c.label c.config with
  | .ok none => false
  | _ => true

variable {cs cs' : List NodeConfig}

theorem readNode_spec (hr : Reads false false child ws)
    (h : readNode env cs child = .ok (cs', o, e)) :
    o = .close ∧ Closes child e ∧ cs'.length = cs.length + 1 := by
  obtain ⟨⟨c, o', e'⟩, hfold, h⟩ := bind_eq_ok.mp h
  cases h
  obtain ⟨ho, hclose⟩ := foldMembers_closes nodeMember_iter hr (Nat.lt_succ_of_le hr.length_le) hfold
  exact ⟨ho, hclose, by simp⟩

/-- **The nodes of a graph** are those that are read, as far as there are instances. -/
theorem loadNode_readNode (hs : nodes.length = (cs.filter (hasInstance env)).length)
    (h : loadNode env nodes child = .ok (nodes', o, e)) :
    ∃ cs', readNode env cs child = .ok (cs', o, e) ∧
      nodes'.length = (cs'.filter (hasInstance env)).length := by
  obtain ⟨⟨c, o', e'⟩, hfold, h⟩ := bind_eq_ok.mp h
  obtain ⟨nodes₁, hadd, h⟩ := bind_eq_ok.mp h
  cases h
  refine ⟨cs ++ [c], bind_eq_ok.mpr ⟨_, hfold, rfl⟩, ?_⟩
  rw [filter_append, length_append, ← hs]
  rcases addNode_eq hadd with ⟨hnone, rfl⟩ | ⟨inst, _, _, _, rfl, hinst, -⟩
  · simp [hasInstance, hnone]
  · simp [hasInstance, hinst]

theorem loadLink_eq {nodes : List Node} {l : Link}
    (h : loadLink nodes links l = .ok links') : links' = links ++ [l] := by
  unfold loadLink at h
  split at h
  · split_ifs at h
    cases h
    rfl
  · cases h

theorem loadLinkText_spec (hr : Reads false false child ws)
    (h : loadLinkText env nodes links child = .ok (links', o, e)) :
    o = .close ∧ Closes child e ∧ links'.length = links.length + 1 := by
  obtain ⟨⟨refs, o', e'⟩, hfold, h⟩ := bind_eq_ok.mp h
  dsimp only at h
  split at h
  · obtain ⟨links₁, hlink, h⟩ := bind_eq_ok.mp h
    cases h
    obtain ⟨ho, hclose⟩ := foldMembers_closes linkMember_iter hr (Nat.lt_succ_of_le hr.length_le) hfold
    exact ⟨ho, hclose, by simp [loadLink_eq hlink]⟩
  · cases h

/-! ## External ports -/

theorem resolvePort_colon {direction : ℕ} (h : resolvePort env nodes reference direction = some p) :
    58 ∈ reference := by
  unfold resolvePort at h
  split_ifs at h with hcolon
  exact hcolon

theorem mem_of_mem_tokenString {t : Text} {c : UInt8} (hquote : t.head? ≠ some 34)
    (h : c ∈ tokenString t) : c ∈ t := by
  have hnot : isString t t.length = false := by simp [isString, hquote]
  have hlen : ¬ t.length + 1 ≤ t.length := by omega
  simp only [tokenString, parseStringn, hlen, hnot, tokenBytes, take_length, if_false,
    Bool.false_eq_true, getD_some] at h
  exact (takeWhile_sublist _).mem h

theorem Denotes.quoted {v : Value} (hv : Denotes it value len v)
    (hcolon : 58 ∈ tokenString (tokenBytes value len)) : ∃ t, v = .text (34 :: t) := by
  rcases hv with ⟨-, rfl, hbytes⟩ | ⟨b, a, ws, hval, rfl, rfl, -⟩
  · by_cases hquote : (tokenBytes value len).head? = some 34
    · obtain ⟨t, ht⟩ := head?_eq_some_iff.mp hquote
      exact ⟨t, by rw [ht]⟩
    · have hmem := mem_of_mem_tokenString hquote hcolon
      rcases hbytes with hhead | hplain
      · -- the token is not empty, and so has the first byte of the text
        rcases value with _ | ⟨c, cs⟩
        · simp at hhead
        · rcases len with _ | len
          · simp [tokenBytes] at hmem
          · exact absurd hhead hquote
      · have := hplain 58 hmem
        cases this
  · rcases value with _ | ⟨c, cs⟩
    · simp [Json.container] at hval
    · have hc : c = 58 := by
        have hquote : (tokenBytes (c :: cs) 1).head? ≠ some 34 := by
          intro hq
          obtain rfl : c = 34 := some.inj hq
          cases hval
        have := mem_of_mem_tokenString hquote hcolon
        simpa [tokenBytes, eq_comm] using this
      subst hc
      cases hval

theorem loadExternalPort_eq (h : loadExternalPort known linked ports p = .ok ports') :
    ports' = ports ++ [p] := by
  unfold loadExternalPort at h
  split_ifs at h
  cases h
  rfl

/-- **The external ports** are as many as the elements listed, if all references fit. -/
theorem loadExternalPorts_count (hresolve : ∀ r p, resolve r = some p → 58 ∈ r)
    (hr : Reads true false it vs) (hn : vs.length < n)
    (h : loadExternalPorts resolve linked n ports it = .ok ports') :
    ports'.length ≤ ports.length + vs.length ∧
      (ports'.length = ports.length + vs.length ↔ ∀ t, .text t ∈ vs → t.length < 512) ∧
      (ports'.length = ports.length + vs.length → ∀ v ∈ vs, ∃ t, v = .text (34 :: t)) := by
  induction n generalizing ports it vs with
  | zero => omega
  | succ n ih =>
    rw [loadExternalPorts] at h
    rcases hr.next_item with ⟨rfl, -, it', hclose⟩ | ⟨v, vs', value, len, it', rfl, htoken, -, hlen, hv, -, hrest⟩
    · rw [hclose] at h
      cases h
      simp
    · have hfits : len < 512 ↔ ∀ t, v = .text t → t.length < 512 := by
        rcases hv with ⟨-, rfl, -⟩ | ⟨b, a, ws, -, rfl, rfl, -⟩
        · simp [length_tokenBytes hlen]
        · simp
      simp only [htoken, parseStringn_eq hlen] at h
      by_cases hlong : 512 ≤ len
      · -- the loop ends here, and this is one element less at least
        rw [if_pos hlong] at h
        obtain rfl : ports = ports' := Except.ok.inj h
        have hne : ¬ ports.length = ports.length + (v :: vs').length := by
          rw [length_cons]
          omega
        refine ⟨Nat.le_add_right _ _, iff_of_false hne fun hall => ?_, fun heq => absurd heq hne⟩
        exact Nat.not_lt.mpr hlong (hfits.mpr fun t ht => hall t (ht ▸ mem_cons_self))
      · simp only [hlong, if_false] at h
        split at h
        · cases h
        · rename_i p hp
          split at h
          · cases h
          · rename_i ports₁ hport
            have hcount : ports₁.length = ports.length + 1 := by simp [loadExternalPort_eq hport]
            simp only [length_cons] at hn
            obtain ⟨hle, hiff, hstr⟩ := ih hrest (by omega) h
            have heq : ports'.length = ports.length + (v :: vs').length ↔
                ports'.length = ports₁.length + vs'.length := by
              rw [length_cons, hcount]
              omega
            refine ⟨by rw [length_cons]; omega, ?_, fun hall => ?_⟩
            · rw [heq, hiff]
              have hv := hfits.mp (Nat.not_le.mp hlong)
              exact ⟨fun hall t ht => (mem_cons.mp ht).elim (fun hv' => hv t hv'.symm) (hall t),
                fun hall t ht => hall t (mem_cons_of_mem v ht)⟩
            · exact forall_mem_cons.mpr ⟨Denotes.quoted hv (hresolve _ p hp), hstr (heq.mp hall)⟩

/-! ## The graph of a text -/

/-- What a graph that was admitted passed. -/
structure Admitted (env : Environment) (config : Text) (g : Graph) (f : Found) (json arr : Iter)
    (loaded : List Loaded) : Prop where
  top : Json.beginObject config = some json
  members : ∃ o e, foldMembers (configMember env) (config.length + 1) ⟨fun _ => none, none⟩ json =
    .ok (f, o, e)
  array : f.sections .nodes = some arr
  objects : foldObjects (loadNode env) (arr.cur.length + 1) [] arr = .ok loaded
  nonempty : loaded ≠ []
  nodes : g.nodes = loaded.map Loaded.node
  links : loadLinks env loaded (f.sections .links) = .ok g.links
  inputs : ∃ ports, listedPorts (resolvePort env loaded · directionInput)
    (fun p => (sourceOf g.links p).isSome) (f.sections .inputs) = .ok ports ∧
      orDefault (defaultInputs g.nodes g.links) ports = .ok g.inputs
  outputs : ∃ ports, listedPorts (resolvePort env loaded · directionOutput) (fun _ => false)
    (f.sections .outputs) = .ok ports ∧ orDefault (defaultOutputs g.nodes) ports = .ok g.outputs
  valid : validateGraph g.nodes g.links g.inputs g.outputs = .ok ()
  order : sortGraph g.nodes.length (edgesOf g.links) = .ok g.order

theorem orInval_eq_ok {α : Type} {x : Option α} {a : α} (h : orInval x = .ok a) : x = some a := by
  cases x with
  | none => cases h
  | some b =>
    cases h
    rfl

theorem graphNewText_spec {config : Text} {g : Graph} (h : graphNewText env config = .ok g) :
    ∃ f json arr loaded, Admitted env config g f json arr loaded := by
  obtain ⟨top, htop, h⟩ := bind_eq_ok.mp h
  obtain ⟨⟨f, o, e⟩, hfold, h⟩ := bind_eq_ok.mp h
  obtain ⟨array, harray, h⟩ := bind_eq_ok.mp h
  obtain ⟨-, -, h⟩ := bind_eq_ok.mp h
  obtain ⟨loaded, hloaded, h⟩ := bind_eq_ok.mp h
  obtain ⟨first, hfirst, h⟩ := bind_eq_ok.mp h
  have hnonempty : loaded ≠ [] := by
    rintro rfl
    cases hfirst
  obtain ⟨links, hlinks, h⟩ := bind_eq_ok.mp h
  obtain ⟨ins, hins, h⟩ := bind_eq_ok.mp h
  obtain ⟨outs, houts, h⟩ := bind_eq_ok.mp h
  obtain ⟨inputs, hinputs, h⟩ := bind_eq_ok.mp h
  obtain ⟨outputs, houtputs, h⟩ := bind_eq_ok.mp h
  obtain ⟨⟨⟩, hvalid, h⟩ := bind_eq_ok.mp h
  obtain ⟨order, horder, h⟩ := bind_eq_ok.mp h
  cases h
  exact ⟨f, top, array, loaded, orInval_eq_ok htop, ⟨o, e, hfold⟩, orInval_eq_ok harray, hloaded,
    hnonempty, rfl, hlinks, ⟨ins, hins, hinputs⟩, ⟨outs, houts, houtputs⟩, hvalid, horder⟩

/-! ## The graph of the resolved configuration -/

/-- **The invariant of a loop over objects**, whatever the elements are. -/
theorem foldObjects_inv {σ : Type} {load : σ → Iter → Except Int (σ × Outcome × Iter)}
    {I : σ → Prop} (hload : ∀ {s child s' o e}, I s → load s child = .ok (s', o, e) → I s')
    {s s' : σ} (hs : I s) (h : foldObjects load n s it = .ok s') : I s' := by
  induction n generalizing s it with
  | zero =>
    cases h
    exact hs
  | succ n ih =>
    rw [foldObjects] at h
    split at h
    · cases h
      exact hs
    · split at h
      · cases h
      · rename_i s₁ o child' hl
        exact ih (hload hs hl) h

/-- **Two loops over the same objects**, related step by step. -/
theorem foldObjects_rel {σ τ : Type} {load : σ → Iter → Except Int (σ × Outcome × Iter)}
    {load' : τ → Iter → Except Int (τ × Outcome × Iter)} {R : σ → τ → Prop}
    (hload : ∀ {s t child s' o e}, R s t → load s child = .ok (s', o, e) →
      ∃ t', load' t child = .ok (t', o, e) ∧ R s' t')
    {s s' : σ} {t : τ} (hs : R s t) (h : foldObjects load n s it = .ok s') :
    ∃ t', foldObjects load' n t it = .ok t' ∧ R s' t' := by
  induction n generalizing s t it with
  | zero =>
    cases h
    exact ⟨t, rfl, hs⟩
  | succ n ih =>
    rw [foldObjects] at h ⊢
    split at h
    · cases h
      exact ⟨t, rfl, hs⟩
    · split at h
      · cases h
      · rename_i s₁ o child' hl
        obtain ⟨t₁, ht, hs₁⟩ := hload hs hl
        obtain ⟨t', ht', hs'⟩ := ih hs₁ h
        exact ⟨t', by rw [ht]; exact ht', hs'⟩

/-- The ports of a node are those of its descriptions. -/
def Loaded.Matches (l : Loaded) : Prop :=
  l.node.inputs.length = (l.infos.filter (·.direction = directionInput)).length ∧
    l.node.outputs.length = (l.infos.filter (·.direction = directionOutput)).length

theorem loadPort_direction {earlier : List PortInfo} {i : PortInfo} {p : Port}
    (h : loadPort b earlier i = .ok p) :
    i.direction = directionInput ∨ i.direction = directionOutput := by
  have hcomplete := (loadPort_ok h).complete
  simp only [PortInfo.complete, Bool.and_eq_true, Bool.or_eq_true, decide_eq_true_eq] at hcomplete
  exact hcomplete.2

theorem loadPortList_infos {infos earlier : List PortInfo} {ports : List (PortInfo × Port)}
    (h : loadPortList b earlier infos = .ok ports) : ports.map Prod.fst = infos ∧
      ∀ i ∈ infos, i.direction = directionInput ∨ i.direction = directionOutput := by
  induction infos generalizing earlier ports with
  | nil =>
    cases h
    exact ⟨rfl, by simp⟩
  | cons i infos ih =>
    obtain ⟨port, hport, h⟩ := bind_eq_ok.mp h
    obtain ⟨rest, hrest, h⟩ := bind_eq_ok.mp h
    cases h
    obtain ⟨hmap, hdir⟩ := ih hrest
    refine ⟨by rw [map_cons, hmap], fun j hj => ?_⟩
    rcases mem_cons.mp hj with rfl | hj
    · exact loadPort_direction hport
    · exact hdir j hj

theorem loadPorts_matches {infos : List PortInfo} {node : Node} {name : Text}
    {properties : List Property} (h : loadPorts b infos = .ok node) :
    Loaded.Matches ⟨name, infos, properties, node⟩ := by
  obtain ⟨ports, hports, h⟩ := bind_eq_ok.mp h
  obtain ⟨hmap, hdir⟩ := loadPortList_infos hports
  simp only [bind, Except.bind, pure, Except.pure] at h
  split_ifs at h
  cases h
  subst hmap
  have hout : ports.filter (fun p => p.1.direction ≠ directionInput) =
      ports.filter (fun p => p.1.direction = directionOutput) := by
    refine filter_congr fun p hp => ?_
    rcases hdir p.1 (mem_map_of_mem hp) with hd | hd <;> simp [hd, directionInput, directionOutput]
  constructor
  · simp [List.filter_map, comp_def]
  · show (((ports.filter fun p => p.1.direction ≠ directionInput).map Prod.snd).length = _)
    rw [hout]
    simp [List.filter_map, comp_def]

theorem loadNode_matches (hs : ∀ l ∈ nodes, l.Matches)
    (h : loadNode env nodes child = .ok (nodes', o, e)) : ∀ l ∈ nodes', l.Matches := by
  obtain ⟨⟨c, o', e'⟩, -, h⟩ := bind_eq_ok.mp h
  obtain ⟨nodes₁, hadd, h⟩ := bind_eq_ok.mp h
  cases h
  rcases addNode_eq hadd with ⟨-, rfl⟩ | ⟨_, node, _, _, rfl, -, hnode, -⟩
  · exact hs
  · exact forall_mem_concat hs (loadPorts_matches hnode)

theorem resolvePort_known {loaded : List Loaded} (hs : ∀ l ∈ loaded, l.Matches) :
    (resolvePort env loaded reference directionInput = some p →
      (inputPort (loaded.map Loaded.node) p).isSome = true) ∧
    (resolvePort env loaded reference directionOutput = some p →
      (outputPort (loaded.map Loaded.node) p).isSome = true) := by
  have find : ∀ direction, resolvePort env loaded reference direction = some p →
      ∃ l ∈ loaded, (loaded.map Loaded.node)[p.1]? = some l.node ∧
        p.2 < (l.infos.filter (·.direction = direction)).length := by
    intro direction h
    simp only [resolvePort, ite_none_right_eq_some, ite_none_left_eq_some,
      bind_eq_some_iff, map_eq_some_iff] at h
    obtain ⟨-, -, h⟩ := h
    obtain ⟨n, -, j, ⟨l, hl, hj⟩, rfl⟩ := h
    refine ⟨l, mem_of_getElem? hl, by simp [hl], ?_⟩
    exact (findIdx?_eq_some_iff_getElem.mp hj).1
  refine ⟨fun h => ?_, fun h => ?_⟩
  · obtain ⟨l, hl, hnode, hlt⟩ := find _ h
    rw [← (hs l hl).1] at hlt
    simp [inputPort, hnode, hlt]
  · obtain ⟨l, hl, hnode, hlt⟩ := find _ h
    rw [← (hs l hl).2] at hlt
    simp [outputPort, hnode, hlt]

theorem foldlM_concat {α : Type} {f : List α → α → Except Int (List α)} {l : List α} {a : α}
    (hs : l.foldlM f [] = .ok l) (h : f l a = .ok (l ++ [a])) :
    (l ++ [a]).foldlM f [] = .ok (l ++ [a]) := by
  rw [foldlM_append, hs]
  show [a].foldlM f l = _
  rw [foldlM_cons, h]
  rfl

theorem loadLinkText_foldlM (hs : links.foldlM (loadLink (nodes.map Loaded.node)) [] = .ok links)
    (h : loadLinkText env nodes links child = .ok (links', o, e)) :
    links'.foldlM (loadLink (nodes.map Loaded.node)) [] = .ok links' := by
  obtain ⟨⟨refs, o', e'⟩, -, h⟩ := bind_eq_ok.mp h
  dsimp only at h
  split at h
  · obtain ⟨links₁, hlink, h⟩ := bind_eq_ok.mp h
    cases h
    obtain rfl := loadLink_eq hlink
    exact foldlM_concat hs hlink
  · cases h

theorem loadExternalPorts_foldlM (hknown : ∀ r p, resolve r = some p → known p = true)
    (hs : ports.foldlM (loadExternalPort known linked) [] = .ok ports)
    (h : loadExternalPorts resolve linked n ports it = .ok ports') :
    ports'.foldlM (loadExternalPort known linked) [] = .ok ports' := by
  induction n generalizing ports it with
  | zero =>
    cases h
    exact hs
  | succ n ih =>
    rw [loadExternalPorts] at h
    split at h
    · split at h
      · cases h
        exact hs
      · split at h
        · cases h
        · rename_i p hp
          split at h
          · cases h
          · rename_i ports₁ hport
            refine ih ?_ h
            have hround : loadExternalPort known linked ports p = .ok ports₁ := by
              unfold loadExternalPort at hport ⊢
              rw [hknown _ p hp]
              exact hport
            obtain rfl := loadExternalPort_eq hport
            exact foldlM_concat hs hround
    · cases h
      exact hs

theorem listedPorts_eq (h : listedPorts resolve linked (some it) = .ok listed)
    (hd : orDefault default listed = .ok ports) :
    loadExternalPorts resolve linked (it.cur.length + 1) [] it = .ok ports := by
  simp only [listedPorts] at h
  cases hload : loadExternalPorts resolve linked (it.cur.length + 1) [] it with
  | error res =>
    rw [hload] at h
    cases h
  | ok ps =>
    rw [hload] at h
    cases h
    exact hd

theorem listedPorts_foldlM {array : Option Iter} {load : Option (List PortId) → Except Int (List PortId)}
    (hload : ∀ ps, load (some ps) = ps.foldlM (loadExternalPort known linked) [])
    (hnone : load none = checkDefault default) (hknown : ∀ r p, resolve r = some p → known p = true)
    (h : ∃ listed, listedPorts resolve linked array = .ok listed ∧
      orDefault default listed = .ok ports) : load (array.map fun _ => ports) = .ok ports := by
  obtain ⟨listed, hlisted, hdefault⟩ := h
  cases array with
  | none =>
    cases hlisted
    exact hnone.trans hdefault
  | some it =>
    exact (hload _).trans (loadExternalPorts_foldlM hknown rfl (listedPorts_eq hlisted hdefault))

/-- **The graph of a text** is the graph of a resolved configuration. -/
theorem graphNewText_graphNew {config : Text} {g : Graph} (h : graphNewText env config = .ok g) :
    ∃ c, graphNew c = .ok g := by
  obtain ⟨f, json, arr, loaded, hg⟩ := graphNewText_spec h
  have hmatch : ∀ l ∈ loaded, l.Matches :=
    foldObjects_inv (I := fun nodes => ∀ l ∈ nodes, l.Matches) loadNode_matches (by simp) hg.objects
  have hlinks : g.links.foldlM (loadLink g.nodes) [] = .ok g.links := by
    have hload := hg.links
    cases hf : f.sections .links with
    | none =>
      rw [hf] at hload
      rw [← Except.ok.inj hload]
      rfl
    | some it =>
      rw [hf] at hload
      rw [hg.nodes]
      exact foldObjects_inv (I := fun links => links.foldlM (loadLink (loaded.map Loaded.node)) [] =
        .ok links) loadLinkText_foldlM rfl hload
  have hinputs : loadInputs g.nodes g.links ((f.sections .inputs).map fun _ => g.inputs) =
      .ok g.inputs :=
    listedPorts_foldlM (fun _ => rfl) rfl
      (fun _ _ hp => hg.nodes ▸ (resolvePort_known hmatch).1 hp) hg.inputs
  have houtputs : loadOutputs g.nodes ((f.sections .outputs).map fun _ => g.outputs) =
      .ok g.outputs :=
    listedPorts_foldlM (fun _ => rfl) rfl
      (fun _ _ hp => hg.nodes ▸ (resolvePort_known hmatch).2 hp) hg.outputs
  have hnodes : g.nodes ≠ [] := by
    rw [hg.nodes]
    simpa using hg.nonempty
  refine ⟨⟨g.nodes, g.links, (f.sections .inputs).map fun _ => g.inputs,
    (f.sections .outputs).map fun _ => g.outputs⟩, ?_⟩
  simp only [graphNew, hnodes, if_false, hlinks, houtputs, bind, Except.bind, hinputs, hg.valid,
    hg.order]
  rfl

/-! ## Admission -/

/-- The members of a configuration, if it is one object. -/
def configMembers (config : Text) : Option (List (Text × Value)) :=
  match Json.document config with
  | some (.node false items) => pairs items
  | _ => none

/-- An element of an array: nodes and links are objects, inputs and outputs are strings. -/
def documentedElement : Section → Value → Prop
  | .nodes, v | .links, v => ∃ items, v = .node false items
  | .inputs, v | .outputs, v => ∃ t, v = .text (34 :: t)

/-- **The documented kinds** of a member with a key that is read: an array of such elements, or workers
with one integer member `helpers`. -/
def Documented (env : Environment) (m : Text × Value) : Prop :=
  m.1.length < 256 ∧
    match sectionOf (tokenString m.1) with
    | some s => ∃ vs, m.2 = .node true vs ∧ ∀ v ∈ vs, documentedElement s v
    | none => tokenString m.1 = str "workers" ∧ ∃ items, m.2 = .node false items ∧ IsWorkers env items

/-- The elements of a graph that the configuration lists in an array. -/
def Graph.count (g : Graph) : Section → ℕ
  | .nodes => g.nodes.length
  | .links => g.links.length
  | .inputs => g.inputs.length
  | .outputs => g.outputs.length

/-- The nodes that a configuration asks for. -/
def configuredNodes (env : Environment) (config : Text) : Except Int (List NodeConfig) := do
  let top ← orInval (Json.beginObject config)
  let (f, _, _) ← foldMembers (configMember env) (config.length + 1) ⟨fun _ => none, none⟩ top
  let array ← orInval (f.sections .nodes)
  foldObjects (readNode env) (array.cur.length + 1) [] array

/-- **What the loader does not check** of a configuration: the text is one value, its members have the
shape, and no plugin that is asked for a node answers success without an instance. -/
structure Sound (env : Environment) (config : Text) : Prop where
  one : Json.oneValue config = true
  shaped : ∀ ms, configMembers config = some ms → ∀ m ∈ ms, shapedMember m = true
  instances : ∀ cs, configuredNodes env config = .ok cs → ∀ c ∈ cs, hasInstance env c = true

section Admission

variable {env : Environment} {config : Text} {g : Graph} {f : Found} {json arr : Iter}
  {loaded : List Loaded} {ms : List (Text × Value)}

theorem beginObject_reads (hone : Json.oneValue config = true)
    (h : Json.beginObject config = some json) :
    ∃ items, Json.document config = some (.node false items) ∧ Reads false false json items ∧
      items.length < config.length + 1 := by
  obtain ⟨v, hv⟩ := Json.document_isSome hone
  have hdoc := hv
  unfold Json.document at hv
  unfold Json.beginObject Json.enterContainer at h
  generalize hfirst : Json.next (Json.init config) = res at hv h
  obtain ⟨o, it⟩ := res
  cases o with
  | close | finish | error => cases h
  | token value len =>
    dsimp only at hv h
    split_ifs at h with hval
    cases h
    obtain ⟨hlen, -, hst⟩ := Json.next_init hval hfirst
    split at hv
    · simp only [Json.valueOf, hval, map_eq_some_iff] at hv
      obtain ⟨items, hitems, rfl⟩ := hv
      have hr : Reads false false (Json.enter it) items :=
        ⟨⟨_, Json.ready_enter hst, rfl, rfl⟩, _, hitems⟩
      refine ⟨items, hdoc, hr, ?_⟩
      have hle : items.length ≤ it.cur.length := hr.length_le
      omega
    · cases hv

theorem oneValue_of_members (h : configMembers config = some ms) : Json.oneValue config = true := by
  unfold configMembers Json.document at h
  unfold Json.oneValue
  generalize Json.next (Json.init config) = res at h ⊢
  obtain ⟨o, it⟩ := res
  cases o with
  | close | finish | error => cases h
  | token value len =>
    dsimp only at h ⊢
    generalize Json.next it = res at h ⊢
    obtain ⟨o, _⟩ := res
    cases o <;> first | rfl | cases h

theorem Documented.shortKeys {m : Text × Value} (h : Documented env m) : shortKeys m = true := by
  obtain ⟨k, v⟩ := m
  obtain ⟨hk, h⟩ := h
  simp only [FilterGraph.shortKeys, Bool.and_eq_true, decide_eq_true_eq]
  refine ⟨hk, ?_⟩
  rcases v with _ | ⟨_ | _, items⟩
  · rfl
  · -- an object is the workers
    split at h
    · obtain ⟨vs, hv, -⟩ := h
      cases hv
    · obtain ⟨-, items, hv, k, t, n, rfl, hshort, -⟩ := h
      cases hv
      simpa [pairs] using hshort
  · rfl

theorem Seen.reads_array (h : Seen env f ms) {m : Text × Value} (hm : m ∈ ms) {s : Section}
    (hsec : sectionOf (tokenString m.1) = some s) :
    ∃ vs it, m.2 = .node true vs ∧ f.sections s = some it ∧ Reads true false it vs := by
  rcases h.member m hm with ⟨s', vs, it, hsec', hv, hf, hr⟩ | ⟨hworkers, -⟩
  · obtain rfl : s = s' := some.inj (hsec.symm.trans hsec')
    exact ⟨vs, it, hv, hf, hr⟩
  · rw [hworkers, sectionOf_workers] at hsec
    cases hsec

theorem Admitted.seen (hone : Json.oneValue config = true)
    (hkeys : ∀ ms, configMembers config = some ms → ∀ m ∈ ms, shortKeys m = true)
    (h : Admitted env config g f json arr loaded) :
    ∃ ms, configMembers config = some ms ∧ Seen env f ms := by
  obtain ⟨items, hdoc, hr, hlen⟩ := beginObject_reads hone h.top
  obtain ⟨o, e, hfold⟩ := h.members
  have hmembers : configMembers config = pairs items := by rw [configMembers, hdoc]
  have hseen : ∃ ms, pairs items = some ms ∧ Seen env f ([] ++ ms) := by
    refine foldMembers_induct (P := fun m => shortKeys m = true) (Seen env)
      (fun ms hms => hkeys ms (hmembers.trans hms)) ?_ ?_ ⟨by simp, by simp⟩ hr hlen hfold
    · intro m hm
      simp only [shortKeys, Bool.and_eq_true, decide_eq_true_eq] at hm
      exact hm.1
    · intro s done k v value len it rest s' it' hI hP _ hv hr hbody
      exact configMember_seen hI hP hv hr hbody
  obtain ⟨ms, hms, hI⟩ := hseen
  exact ⟨ms, hmembers.trans hms, by simpa using hI⟩

/-- The nodes of the graph are those of the configuration that have instances. -/
theorem Admitted.configured (h : Admitted env config g f json arr loaded) :
    ∃ cs, configuredNodes env config = .ok cs ∧
      foldObjects (readNode env) (arr.cur.length + 1) [] arr = .ok cs ∧
      g.nodes.length = (cs.filter (hasInstance env)).length := by
  obtain ⟨cs, hread, hlen⟩ := foldObjects_rel (t := [])
    (R := fun nodes cs => nodes.length = (cs.filter (hasInstance env)).length) loadNode_readNode rfl
    h.objects
  obtain ⟨o, e, hfold⟩ := h.members
  refine ⟨cs, ?_, hread, by rw [h.nodes, length_map, hlen]⟩
  simp only [configuredNodes, h.top, hfold, h.array, orInval, bind, Except.bind]
  exact hread

theorem shaped_objects {s : Section} (hs : s = .nodes ∨ s = .links) (v : Value) :
    shapedElement s v = true ↔ documentedElement s v := by
  rcases hs with rfl | rfl <;> rcases v with _ | ⟨_ | _, _⟩ <;>
    simp [shapedElement, documentedElement]

theorem shaped_strings {s : Section} (hs : s = .inputs ∨ s = .outputs) :
    (∀ v ∈ vs, shapedElement s v = true) ↔ ∀ t, .text t ∈ vs → t.length < 512 := by
  constructor
  · intro h t ht
    have := h _ ht
    rcases hs with rfl | rfl <;> simpa [shapedElement] using this
  · intro h v hv
    rcases hs with rfl | rfl <;> rcases v with t | ⟨_, _⟩ <;> first
      | exact decide_eq_true (h t hv)
      | rfl

theorem Admitted.ports_iff {s : Section} (hs : s = .inputs ∨ s = .outputs)
    (hresolve : ∀ r p, resolve r = some p → 58 ∈ r) (hr : Reads true false it vs)
    (hport : ∃ listed, listedPorts resolve linked (some it) = .ok listed ∧
      orDefault default listed = .ok ports) :
    (ports.length = vs.length ∧ ∀ v ∈ vs, documentedElement s v) ↔
      ∀ v ∈ vs, shapedElement s v = true := by
  obtain ⟨listed, hlisted, hdefault⟩ := hport
  obtain ⟨-, hiff, hstr⟩ := loadExternalPorts_count hresolve hr (Nat.lt_succ_of_le hr.length_le)
    (listedPorts_eq hlisted hdefault)
  rw [length_nil, Nat.zero_add] at hiff hstr
  rw [shaped_strings hs, ← hiff]
  refine ⟨And.left, fun hlen => ⟨hlen, fun v hv => ?_⟩⟩
  rcases hs with rfl | rfl <;> exact hstr hlen v hv

/-- **Every element of an array was loaded, and has the documented kind, just if** it has the shape and
there are instances of all nodes. -/
theorem Admitted.listed_iff (h : Admitted env config g f json arr loaded) {s : Section}
    (hf : f.sections s = some it) (hr : Reads true false it vs) :
    (g.count s = vs.length ∧ ∀ v ∈ vs, documentedElement s v) ↔
      (∀ v ∈ vs, shapedElement s v = true) ∧ (s = .nodes → ∀ cs, configuredNodes env config = .ok cs →
        ∀ c ∈ cs, hasInstance env c = true) := by
  have hfuel : vs.length < it.cur.length + 1 := Nat.lt_succ_of_le hr.length_le
  cases s with
  | nodes =>
    obtain rfl : arr = it := some.inj (h.array.symm.trans hf)
    obtain ⟨cs, hconfigured, hread, hlen⟩ := h.configured
    simp only [shaped_objects (.inl rfl), hconfigured, Except.ok.injEq, forall_eq', true_implies]
    rw [and_comm]
    refine and_congr_right fun hobj => ?_
    have hcount := foldObjects_count List.length readNode_spec hr hobj hfuel hread
    rw [length_nil, Nat.zero_add] at hcount
    show g.nodes.length = vs.length ↔ _
    rw [hlen, ← hcount, length_filter_eq_length_iff]
  | links =>
    have hlinks := h.links
    rw [hf] at hlinks
    simp only [shaped_objects (.inr rfl), reduceCtorEq, false_implies, and_true]
    refine ⟨And.right, fun hobj => ⟨?_, hobj⟩⟩
    simpa [Graph.count] using foldObjects_count List.length loadLinkText_spec hr hobj hfuel hlinks
  | inputs =>
    rw [(ports_iff (.inl rfl) (fun _ _ => resolvePort_colon) hr (hf ▸ h.inputs)).symm]
    simp [Graph.count]
  | outputs =>
    rw [(ports_iff (.inr rfl) (fun _ _ => resolvePort_colon) hr (hf ▸ h.outputs)).symm]
    simp [Graph.count]

theorem Admitted.links_eq_nil (h : Admitted env config g f json arr loaded) (hseen : Seen env f ms)
    (hnone : ∀ m ∈ ms, sectionOf (tokenString m.1) ≠ some .links) : g.links = [] := by
  have hlinks := h.links
  cases hf : f.sections .links with
  | none =>
    rw [hf] at hlinks
    exact (Except.ok.inj hlinks).symm
  | some it =>
    obtain ⟨m, hm, hsec⟩ := hseen.found .links it hf
    exact absurd hsec (hnone m hm)

/-- A member of a sound configuration is documented, if its array is. -/
theorem Seen.documented (h : Seen env f ms) (hm : m ∈ ms) (hkeys : shortKeys m = true)
    (hlisted : ∀ s, sectionOf (tokenString m.1) = some s →
      ∃ vs, m.2 = .node true vs ∧ ∀ v ∈ vs, documentedElement s v) : Documented env m := by
  refine ⟨of_decide_eq_true (Bool.and_eq_true_iff.mp hkeys).1, ?_⟩
  cases hsec : sectionOf (tokenString m.1) with
  | some s => exact hlisted s hsec
  | none =>
    rcases h.member m hm with ⟨s', _, _, hsec', -⟩ | hworkers
    · rw [hsec] at hsec'
      cases hsec'
    · exact hworkers

end Admission

/-- **Only well-formed configurations are admitted, and nothing in them is ignored, just if** the
configuration is sound where the loader does not look. -/
theorem graph_admission (env : Environment) (config : Text) (g : Graph)
    (h : graphNewText env config = .ok g) :
    (∃ ms, configMembers config = some ms ∧ (∀ m ∈ ms, Documented env m) ∧
      (∀ m ∈ ms, ∀ s vs, sectionOf (tokenString m.1) = some s → m.2 = .node true vs →
        g.count s = vs.length) ∧
      ((∀ m ∈ ms, sectionOf (tokenString m.1) ≠ some .links) → g.links = [])) ↔
    Sound env config := by
  obtain ⟨f, json, arr, loaded, hg⟩ := graphNewText_spec h
  constructor
  · rintro ⟨ms, hms, hdoc, hcount, -⟩
    have hone := oneValue_of_members hms
    have hms' : ∀ ms', configMembers config = some ms' → ms' = ms := fun ms' h' =>
      some.inj (h'.symm.trans hms)
    obtain ⟨ms', h', hseen⟩ := hg.seen hone fun ms' h' m hm => (hdoc m (hms' ms' h' ▸ hm)).shortKeys
    obtain rfl := hms' ms' h'
    have hlisted : ∀ m ∈ ms', ∀ s, sectionOf (tokenString m.1) = some s → ∃ vs, m.2 = .node true vs ∧
        (∀ v ∈ vs, shapedElement s v = true) ∧ (s = .nodes → ∀ cs,
          configuredNodes env config = .ok cs → ∀ c ∈ cs, hasInstance env c = true) := by
      intro m hm s hsec
      obtain ⟨vs, it, hv, hf, hr⟩ := hseen.reads_array hm hsec
      have hkinds := (hdoc m hm).2
      rw [hsec] at hkinds
      obtain ⟨vs', hv', hkinds⟩ := hkinds
      obtain rfl : vs' = vs := by simpa [hv] using hv'.symm
      exact ⟨vs', hv, (hg.listed_iff hf hr).mp ⟨hcount m hm s vs' hsec hv, hkinds⟩⟩
    refine ⟨hone, fun ms'' h'' m hm => ?_, ?_⟩
    · obtain rfl := hms' ms'' h''
      rw [shapedMember, (hdoc m hm).shortKeys, Bool.true_and]
      split
      · rename_i s vs hsec hv
        obtain ⟨vs', hv', hshaped, -⟩ := hlisted m hm s hsec
        rw [hv] at hv'
        cases hv'
        exact all_eq_true.mpr hshaped
      · rfl
    · obtain ⟨m, hm, hsec⟩ := hseen.found .nodes arr hg.array
      obtain ⟨-, -, -, hinst⟩ := hlisted m hm .nodes hsec
      exact hinst rfl
  · rintro ⟨hone, hshape, hinst⟩
    obtain ⟨ms, hms, hseen⟩ := hg.seen hone fun ms hms m hm =>
      (Bool.and_eq_true_iff.mp (hshape ms hms m hm)).1
    have hlisted : ∀ m ∈ ms, ∀ s, sectionOf (tokenString m.1) = some s → ∃ vs, m.2 = .node true vs ∧
        g.count s = vs.length ∧ ∀ v ∈ vs, documentedElement s v := by
      intro m hm s hsec
      obtain ⟨vs, it, hv, hf, hr⟩ := hseen.reads_array hm hsec
      have hshaped := (Bool.and_eq_true_iff.mp (hshape ms hms m hm)).2
      rw [hsec, hv] at hshaped
      exact ⟨vs, hv, (hg.listed_iff hf hr).mpr ⟨all_eq_true.mp hshaped, fun _ => hinst⟩⟩
    refine ⟨ms, hms, fun m hm => ?_, fun m hm s vs hsec hv => ?_, hg.links_eq_nil hseen⟩
    · refine hseen.documented hm (Bool.and_eq_true_iff.mp (hshape ms hms m hm)).1 fun s hsec => ?_
      obtain ⟨vs, hv, -, hkinds⟩ := hlisted m hm s hsec
      exact ⟨vs, hv, hkinds⟩
    · obtain ⟨vs', hv', hlen, -⟩ := hlisted m hm s hsec
      rw [hv] at hv'
      cases hv'
      exact hlen

/-! ## Examples of configurations -/

/-- A plugin whose nodes have one output port, and numbers of one binary digit. -/
def scaleEnvironment : Environment where
  instantiate _ _ _ := .ok (some
    { preparesParameter := false
      infos := [⟨portInfoSize, 0, directionOutput, 0, "out", [], 0, .ok ⟨1, 1, 0, 0, [4], none⟩, none⟩]
      properties := .ok []
      prepareProps := fun _ => .ok () })
  reformat text := some text
  workerGroupNew _ := .ok ()
  strtol text := if text.head? = some 48 then (0, 1) else if text.head? = some 49 then (1, 1) else (0, 0)
  atou32 _ := none
  strtol_bracket text b h := by
    rcases text with _ | ⟨c, cs⟩
    · rfl
    · simp only [Json.container, head?_cons, map_some] at h
      have hzero : c ≠ 48 := by
        rintro rfl
        simp [show Json.classify 48 = .plain by decide] at h
      have hone : c ≠ 49 := by
        rintro rfl
        simp [show Json.classify 49 = .plain by decide] at h
      simp [hzero, hone]

/-- A configuration with two nodes, one external output and one helper. -/
def scaleConfig : Text :=
  str "# two nodes
    \x7b nodes = [ \x7b name = a, plugin = p, label = l \x7d \x7b name: b plugin: p label: l \x7d ]
      outputs = [ \"b:out\" ] workers = \x7b helpers = 1 \x7d \x7d"

theorem graph_admission_scale : ∃ g ms, graphNewText scaleEnvironment scaleConfig = .ok g ∧
    g.nodes.length = 2 ∧ g.outputs.length = 1 ∧ configMembers scaleConfig = some ms ∧ ms.length = 3 ∧
      ∀ m ∈ ms, Documented scaleEnvironment m := by
  obtain ⟨g, hg, hnodes, houtputs⟩ : ∃ g, graphNewText scaleEnvironment scaleConfig = .ok g ∧
      g.nodes.length = 2 ∧ g.outputs.length = 1 := exists_ok_such (by decide +kernel)
  have hmembers : ∀ ms ∈ configMembers scaleConfig, ms.length = 3 ∧
      ∀ m ∈ ms, shapedMember m = true := by decide +kernel
  obtain ⟨ms, hms, hdoc, -⟩ := (graph_admission scaleEnvironment scaleConfig g hg).mpr
    ⟨by decide +kernel, fun ms hms => (hmembers ms hms).2, fun _ _ _ _ => rfl⟩
  exact ⟨g, ms, hg, hnodes, houtputs, hms, (hmembers ms hms).1, hdoc⟩

/-- The elements of an array of a configuration. -/
def listedCount (config : Text) (s : Section) : Option ℕ :=
  (configMembers config).bind fun ms => ms.findSome? fun m =>
    match m.2 with
    | .node true vs => if sectionOf (tokenString m.1) = some s then some vs.length else none
    | _ => none

/-- Configurations with a number among the nodes or the links, with a malformed member of the
workers, and with a word after the end. -/
def mixedNodes : Text := str "\x7b nodes = [ \x7b name = a plugin = p label = l \x7d 7 ] \x7d"
def mixedLinks : Text :=
  str "\x7b nodes = [ \x7b name = a plugin = p label = l \x7d ] links = [ 7 ] \x7d"
def brokenWorkers : Text :=
  str "\x7b nodes = [ \x7b name = a plugin = p label = l \x7d ] workers = \x7b helpers = 0 broken \x7d \x7d"
def trailingWord : Text :=
  str "\x7b nodes = [ \x7b name = a plugin = p label = l \x7d ] \x7d garbage"

/-- **Ignored elements.** Each is admitted with one node and no link, although the arrays have more
elements, or the text cannot be read. -/
theorem graph_admits_garbage : (∀ config ∈ [mixedNodes, mixedLinks, brokenWorkers, trailingWord],
      (graphNewText scaleEnvironment config).map (fun g => (g.nodes.length, g.links.length)) =
        .ok (1, 0)) ∧
    listedCount mixedNodes .nodes = some 2 ∧ listedCount mixedLinks .links = some 1 ∧
    (configMembers brokenWorkers).isNone = true ∧ (configMembers trailingWord).isNone = true := by
  decide +kernel

end PipeWireAO.FilterGraph
