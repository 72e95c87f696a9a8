import Mathlib.Data.List.Nodup
import PipeWireAO.Errno

/-!
# Control requests to a filter graph

`spa_fgn_graph_set_props`, `spa_fgn_graph_set_parameters` and `spa_fgn_graph_update_parameter`
check their arguments, and sort the assignments they are given by node before the first plugin
is asked to prepare anything. What a request comes to is a `Call`: an error its arguments have,
or what is to be prepared, at which nodes and in which order.
-/

namespace PipeWireAO.FilterGraph.Transaction

open List

/-! ## The graph -/

/-- Which callbacks for properties and parameters a descriptor has. -/
structure Descriptor where
  (prepareProps commitProps discardProps prepareParameter commitParameter discardParameter : Bool)
  (prepareParameters adoptParameters : Bool)
deriving DecidableEq

/-- The check of `load_node`: a descriptor has all the callbacks of a group or none. -/
def Descriptor.whole (d : Descriptor) : Bool :=
  !((d.prepareProps || d.commitProps || d.discardProps) &&
      (!d.prepareProps || !d.commitProps || !d.discardProps)) &&
  !((d.prepareParameter || d.commitParameter || d.discardParameter) &&
      (!d.prepareParameter || !d.commitParameter || !d.discardParameter)) &&
  !((d.prepareParameters || d.adoptParameters) &&
      (!d.prepareParameters || !d.adoptParameters || !d.commitParameter || !d.discardParameter))

/-- An external input of the graph: the node it belongs to, whether it is a parameter, and its
index at the node. -/
structure Input where
  node : ℕ
  parameter : Bool
  index : ℕ
deriving DecidableEq

/-- A graph, as far as transactions are concerned: its nodes as they were loaded and in the order of
`sort_graph`, and its external inputs. A parameter port needs `prepare_parameter`. -/
structure Graph where
  (nodes order : List ℕ)
  descriptor : ℕ → Descriptor
  inputs : List Input
  whole : ∀ n, (descriptor n).whole = true
  parameter_able : ∀ i ∈ inputs, i.parameter = true → (descriptor i.node).prepareParameter = true

theorem Descriptor.discardProps_of_prepareProps {d : Descriptor} (hw : d.whole = true)
    (h : d.prepareProps = true) : d.discardProps = true := by
  revert hw
  simp only [Descriptor.whole, h]
  cases d.commitProps <;> cases d.discardProps <;> simp

theorem Descriptor.discardParameter_of_prepareParameter {d : Descriptor} (hw : d.whole = true)
    (h : d.prepareParameter = true) : d.discardParameter = true := by
  revert hw
  simp only [Descriptor.whole, h]
  cases d.commitParameter <;> cases d.discardParameter <;> simp

/-! ## Sorting assignments by node -/

/-- What is assigned at each node, in the order in which the nodes were first named. -/
abbrev Groups := List (ℕ × List ℕ)

/-- What is assigned at a node so far. -/
def assigned : Groups → ℕ → List ℕ
  | [], _ => []
  | (m, ids) :: gs, n => if m = n then ids else assigned gs n

/-- `get_transaction`, and the assignment stored in what it found or made. -/
def addTo : Groups → ℕ → ℕ → Groups
  | [], n, id => [(n, [id])]
  | (m, ids) :: gs, n, id => if m = n then (m, ids ++ [id]) :: gs else (m, ids) :: addTo gs n id

variable {gs : Groups}

theorem mem_addTo {n id m : ℕ} :
    m ∈ (addTo gs n id).map Prod.fst ↔ m = n ∨ m ∈ gs.map Prod.fst := by
  induction gs with
  | nil => simp [addTo]
  | cons g gs ih =>
    simp only [addTo]
    split
    · rename_i h
      subst h
      simp
    · simp only [map_cons, mem_cons, ih]
      exact or_left_comm

theorem addTo_nodup {n id : ℕ} (h : (gs.map Prod.fst).Nodup) :
    ((addTo gs n id).map Prod.fst).Nodup := by
  induction gs with
  | nil => simp [addTo]
  | cons g gs ih =>
    simp only [map_cons, nodup_cons] at h
    simp only [addTo]
    split
    · simpa using h
    · rename_i hne
      simp only [map_cons, nodup_cons, mem_addTo, not_or]
      exact ⟨⟨hne, h.1⟩, ih h.2⟩

/-- `FGN_MAX_TRANSACTION_ASSIGNMENTS` and `SPA_FGN_MAX_PARAMETER_TRANSACTION_ASSIGNMENTS`. -/
def maxAssignments : ℕ := 4096

/-- The end of both loops: `next_array_size`, `realloc`, and the assignment itself. -/
def store (gs : Groups) (n id : ℕ) (grow : Bool) : Except Int Groups :=
  if maxAssignments ≤ (assigned gs n).length then .error (-eTooBig)
  else if grow then .ok (addTo gs n id)
  else .error (-eNoMem)

/-! ## Properties -/

/-- A name and a value in a `Props` object: whether both can be read; the answers of
`find_qualified_property`, of the test for `RUNTIME`, and of `value_from_pod` and `validate_value`;
and whether there is memory for it. -/
structure Assignment where
  readable : Bool
  found : Int
  (node id : ℕ)
  runtime : Bool
  value : Int
  grow : Bool
deriving DecidableEq

/-- A round of the loop in `spa_fgn_graph_set_props`. -/
def assignProperty (gs : Groups) (a : Assignment) : Except Int Groups :=
  if !a.readable then .error (-eInval)
  else if a.found < 0 then .error a.found
  else if !a.runtime then .error (-ePerm)
  else if a.value < 0 then .error a.value
  else if a.id ∈ assigned gs a.node then .error (-eExist)
  else store gs a.node a.id a.grow

/-- The loop in `spa_fgn_graph_set_props`. -/
def planProps (as : List Assignment) : Except Int Groups := as.foldlM assignProperty []

/-! ## Parameters -/

/-- A `spa_fgn_parameter_update`: whether its `reserved` is zero; its port; whether it has a buffer,
what `validate_buffer` and `validate_buffer_nonalias` say of it, and whether there is memory for it.
-/
structure Update where
  clean : Bool
  inputPort : ℕ
  buffer : Bool
  valid : Int
  grow : Bool
deriving DecidableEq

/-- A round of the loop in `spa_fgn_graph_set_parameters`, after the updates of the ports
`seen`. -/
def assignParameter (g : Graph) (seen : List ℕ) (gs : Groups) (u : Update) : Except Int Groups :=
  match g.inputs[u.inputPort]? with
  | none => .error (-eInval)
  | some port =>
    if !u.clean || !u.buffer then .error (-eInval)
    else if u.inputPort ∈ seen then .error (-eExist)
    else if !port.parameter then .error (-eInval)
    else if u.valid < 0 then .error u.valid
    else store gs port.node port.index u.grow

/-- The loop in `spa_fgn_graph_set_parameters`. -/
def planParameters (g : Graph) : List ℕ → Groups → List Update → Except Int Groups
  | _, gs, [] => .ok gs
  | seen, gs, u :: us =>
    match assignParameter g seen gs u with
    | .error res => .error res
    | .ok gs' => planParameters g (u.inputPort :: seen) gs' us

/-! ### Updates without a fault -/

theorem length_assigned_addTo (gs : Groups) (n id m : ℕ) :
    (assigned (addTo gs n id) m).length = (assigned gs m).length + if m = n then 1 else 0 := by
  induction gs with
  | nil =>
    by_cases hm : n = m
    · simp [addTo, assigned, hm]
    · simp [addTo, assigned, hm, Ne.symm hm]
  | cons g gs ih =>
    obtain ⟨k, ids⟩ := g
    by_cases hkn : k = n
    · by_cases hkm : k = m
      · simp [addTo, assigned, hkn, ← hkm]
      · have hmn : ¬ m = n := fun h => hkm (hkn.trans h.symm)
        simp [addTo, assigned, hkn, hmn, Ne.symm hmn]
    · by_cases hkm : k = m
      · have hmn : ¬ m = n := fun h => hkn (hkm.trans h)
        simp [addTo, assigned, hkm, hmn]
      · simp [addTo, assigned, hkn, hkm, ih]

def Graph.HasParameter (g : Graph) (n : ℕ) : Prop :=
  ∃ i ∈ g.inputs, i.parameter = true ∧ i.node = n

/-- An update of a parameter with a buffer that is valid. -/
structure Update.Faultless (g : Graph) (u : Update) : Prop where
  port : ∃ i, g.inputs[u.inputPort]? = some i ∧ i.parameter = true
  clean : u.clean = true
  buffer : u.buffer = true
  valid : 0 ≤ u.valid

theorem assignParameter_faultless {g : Graph} {u : Update} (hu : u.Faultless g) {seen : List ℕ}
    (hseen : u.inputPort ∉ seen) (gs : Groups) : ∃ i, g.inputs[u.inputPort]? = some i ∧
      i.parameter = true ∧ assignParameter g seen gs u = store gs i.node i.index u.grow := by
  obtain ⟨i, hi, hparameter⟩ := hu.port
  refine ⟨i, hi, hparameter, ?_⟩
  unfold assignParameter
  rw [hi]
  dsimp only
  rw [if_neg (by rw [hu.clean, hu.buffer]; decide), if_neg hseen, if_neg (by rw [hparameter]; decide),
    if_neg (Int.not_lt.mpr hu.valid)]

/-- **Updates of different parameters with valid buffers are planned**, at nodes that have a parameter,
unless memory is exhausted. -/
theorem planParameters_faultless {g : Graph} {us : List Update} {seen : List ℕ}
    (hus : ∀ u ∈ us, u.Faultless g) (hports : (us.map Update.inputPort).Nodup)
    (hseen : ∀ u ∈ us, u.inputPort ∉ seen) (hlen : ∀ n, (assigned gs n).length ≤ seen.length)
    (hmax : seen.length + us.length ≤ maxAssignments)
    (hgs : ∀ n ∈ gs.map Prod.fst, g.HasParameter n) :
    (∃ gs', planParameters g seen gs us = .ok gs' ∧ ∀ n ∈ gs'.map Prod.fst, g.HasParameter n) ∨
      (planParameters g seen gs us = .error (-eNoMem) ∧ ∃ u ∈ us, u.grow = false) := by
  induction us generalizing seen gs with
  | nil => exact .inl ⟨gs, rfl, hgs⟩
  | cons u us ih =>
    obtain ⟨i, hi, hparameter, hassign⟩ :=
      assignParameter_faultless (hus u mem_cons_self) (hseen u mem_cons_self) gs
    have hroom : ¬ maxAssignments ≤ (assigned gs i.node).length := by
      have := hlen i.node
      rw [length_cons] at hmax
      omega
    rw [planParameters, hassign, store, if_neg hroom]
    cases hgrow : u.grow with
    | false => exact .inr ⟨rfl, u, mem_cons_self, hgrow⟩
    | true =>
      rw [map_cons, nodup_cons] at hports
      have hseen' : ∀ u' ∈ us, u'.inputPort ∉ u.inputPort :: seen := by
        intro u' hu' hmem
        rcases mem_cons.mp hmem with heq | hmem
        · exact hports.1 (heq ▸ mem_map_of_mem hu')
        · exact hseen u' (mem_cons_of_mem u hu') hmem
      have hlen' : ∀ n, (assigned (addTo gs i.node i.index) n).length ≤
          (u.inputPort :: seen).length := by
        intro n
        have := hlen n
        rw [length_assigned_addTo, length_cons]
        split_ifs <;> omega
      have hmax' : (u.inputPort :: seen).length + us.length ≤ maxAssignments := by
        simp only [length_cons] at hmax ⊢
        omega
      have hgs' : ∀ n ∈ (addTo gs i.node i.index).map Prod.fst, g.HasParameter n := by
        intro n hn
        rcases mem_addTo.mp hn with rfl | hn
        · exact ⟨i, mem_of_getElem? hi, hparameter, rfl⟩
        · exact hgs n hn
      rcases ih (fun u' hu' => hus u' (mem_cons_of_mem u hu')) hports.2 hseen' hlen' hmax' hgs' with
        hok | ⟨herr, u', hu', hfull⟩
      · exact .inl hok
      · exact .inr ⟨herr, u', mem_cons_of_mem u hu', hfull⟩

/-! ## Requests -/

/-- The slot a transaction goes to. -/
inductive Kind
  | props
  | parameters
deriving DecidableEq

/-- What a call is to prepare: a transaction, or with `prepare_parameter` a single update that is
committed at once. -/
inductive Plan
  | transaction (gs : Groups)
  | single (node : ℕ)
deriving DecidableEq

/-- What a request comes to: the error its arguments have, if any; and once it is admitted, an
error or what is to be prepared. -/
structure Call where
  kind : Kind
  refusal : Option Int
  plan : Except Int Plan
deriving DecidableEq

/-- The three requests. `object` says that the argument is a `Props` object, `params` is its struct
of assignments, if any, and `alloc` says whether `calloc` succeeds. -/
inductive Request
  | setProps (object : Bool) (params : Option (List Assignment)) (alloc : Bool)
  | setParameters (updates : List Update) (alloc : Bool)
  | updateParameter (update : Update) (alloc : Bool)
deriving DecidableEq

/-- `spa_fgn_graph_set_props`. -/
def setProps (object : Bool) (params : Option (List Assignment)) (alloc : Bool) : Call where
  kind := .props
  refusal := if object then none else some (-eInval)
  plan :=
    match params with
    | none => .error (-eInval)
    | some as => if alloc then (planProps as).map .transaction else .error (-eNoMem)

/-- `spa_fgn_graph_set_parameters`. -/
def setParameters (g : Graph) (updates : List Update) (alloc : Bool) : Call where
  kind := .parameters
  refusal :=
    if updates = [] then some (-eInval)
    else if maxAssignments < updates.length then some (-eTooBig)
    else none
  plan :=
    if alloc then (planParameters g [] [] updates).map .transaction else .error (-eNoMem)

/-- The path of `spa_fgn_graph_update_parameter` for descriptors without
`prepare_parameters`. -/
def updateSingle (port : Input) (update : Update) : Call where
  kind := .parameters
  refusal := none
  plan := if update.valid < 0 then .error update.valid else .ok (.single port.node)

/-- `spa_fgn_graph_update_parameter`. -/
def updateParameter (g : Graph) (update : Update) (alloc : Bool) : Call :=
  match g.inputs[update.inputPort]? with
  | none => ⟨.parameters, some (-eInval), .error (-eInval)⟩
  | some port =>
    if !update.buffer || !port.parameter then ⟨.parameters, some (-eInval), .error (-eInval)⟩
    else if (g.descriptor port.node).prepareParameters &&
        (g.descriptor port.node).adoptParameters then
      setParameters g [{ update with clean := true }] alloc
    else updateSingle port update

def Request.resolve (g : Graph) : Request → Call
  | .setProps object params alloc => Transaction.setProps object params alloc
  | .setParameters updates alloc => Transaction.setParameters g updates alloc
  | .updateParameter update alloc => Transaction.updateParameter g update alloc

/-! ## What the loops guarantee -/

/-- The loops refuse with an error number, and keep the groups of distinct nodes. -/
def GroupsOk (r : Except Int Groups) : Prop :=
  (∀ res, r = .error res → res < 0) ∧ ∀ gs, r = .ok gs → (gs.map Prod.fst).Nodup

section

variable {gs : Groups}

theorem store_ok (hgs : (gs.map Prod.fst).Nodup) (n id : ℕ) (grow : Bool) :
    GroupsOk (store gs n id grow) := by
  unfold store
  split_ifs
  · exact ⟨by rintro _ ⟨⟩; decide, by rintro _ ⟨⟩⟩
  · refine ⟨by rintro _ ⟨⟩, ?_⟩
    rintro _ ⟨⟩
    exact addTo_nodup hgs
  · exact ⟨by rintro _ ⟨⟩; decide, by rintro _ ⟨⟩⟩

theorem groupsOk_error {res : Int} (h : res < 0) : GroupsOk (.error res) :=
  ⟨by rintro _ ⟨⟩; exact h, by rintro _ ⟨⟩⟩

theorem assignProperty_ok (hgs : (gs.map Prod.fst).Nodup) (a : Assignment) :
    GroupsOk (assignProperty gs a) := by
  unfold assignProperty
  split_ifs with _ hfound _ hvalue
  · exact groupsOk_error (by decide)
  · exact groupsOk_error hfound
  · exact groupsOk_error (by decide)
  · exact groupsOk_error hvalue
  · exact groupsOk_error (by decide)
  · exact store_ok hgs _ _ _

theorem assignParameter_ok (hgs : (gs.map Prod.fst).Nodup) (g : Graph) (seen : List ℕ)
    (u : Update) : GroupsOk (assignParameter g seen gs u) := by
  unfold assignParameter
  split
  · exact groupsOk_error (by decide)
  · split_ifs with _ _ _ hvalid
    · exact groupsOk_error (by decide)
    · exact groupsOk_error (by decide)
    · exact groupsOk_error (by decide)
    · exact groupsOk_error hvalid
    · exact store_ok hgs _ _ _

theorem planProps_ok (as : List Assignment) : GroupsOk (planProps as) := by
  suffices h : ∀ gs : Groups, (gs.map Prod.fst).Nodup → GroupsOk (as.foldlM assignProperty gs) from
    h [] nodup_nil
  induction as with
  | nil => exact fun gs hgs => ⟨by rintro _ ⟨⟩, by rintro _ ⟨⟩; exact hgs⟩
  | cons a as ih =>
    intro gs hgs
    obtain ⟨herr, hok⟩ := assignProperty_ok hgs a
    rw [foldlM_cons]
    cases hr : assignProperty gs a with
    | error res => exact groupsOk_error (herr res hr)
    | ok gs' => exact ih gs' (hok gs' hr)

theorem planParameters_ok (g : Graph) (us : List Update) (seen : List ℕ)
    (hgs : (gs.map Prod.fst).Nodup) : GroupsOk (planParameters g seen gs us) := by
  induction us generalizing seen gs with
  | nil => exact ⟨by rintro _ ⟨⟩, by rintro _ ⟨⟩; exact hgs⟩
  | cons u us ih =>
    obtain ⟨herr, hok⟩ := assignParameter_ok hgs g seen u
    rw [planParameters]
    cases hr : assignParameter g seen gs u with
    | error res => exact groupsOk_error (herr res hr)
    | ok gs' => exact ih _ (hok gs' hr)

end

/-- What holds of every call: it is refused with an error number, a transaction names no node
twice, and a single update is prepared by a node that can. -/
structure Call.Ok (g : Graph) (c : Call) : Prop where
  refusal_neg : ∀ res, c.refusal = some res → res < 0
  error_neg : ∀ res, c.plan = .error res → res < 0
  nodup : ∀ gs, c.plan = .ok (.transaction gs) → (gs.map Prod.fst).Nodup
  single : ∀ n, c.plan = .ok (.single n) →
    c.kind = .parameters ∧ (g.descriptor n).prepareParameter = true

section

variable {g : Graph} {c : Call}

theorem Call.ok_of_error {res : Int} (hrefusal : ∀ res, c.refusal = some res → res < 0)
    (hplan : c.plan = .error res) (hres : res < 0) : c.Ok g := by
  refine ⟨hrefusal, ?_, ?_, ?_⟩ <;> rw [hplan]
  · rintro _ ⟨⟩
    exact hres
  · rintro _ ⟨⟩
  · rintro _ ⟨⟩

theorem Call.ok_of_groups {r : Except Int Groups} {alloc : Bool}
    (hrefusal : ∀ res, c.refusal = some res → res < 0) (hr : GroupsOk r)
    (hplan : c.plan = if alloc then r.map .transaction else .error (-eNoMem)) : c.Ok g := by
  cases alloc with
  | false => exact ok_of_error hrefusal hplan (by decide)
  | true =>
    cases r with
    | error res => exact ok_of_error hrefusal hplan (hr.1 res rfl)
    | ok gs =>
      have hplan : c.plan = .ok (.transaction gs) := hplan
      refine ⟨hrefusal, ?_, ?_, ?_⟩ <;> rw [hplan]
      · rintro _ ⟨⟩
      · rintro _ ⟨⟩
        exact hr.2 gs rfl
      · rintro _ ⟨⟩

theorem setProps_ok (object : Bool) (params : Option (List Assignment)) (alloc : Bool) :
    (setProps object params alloc).Ok g := by
  have hrefusal : ∀ res, (setProps object params alloc).refusal = some res → res < 0 := by
    intro res h
    simp only [setProps] at h
    split_ifs at h
    cases h
    decide
  cases params with
  | none => exact Call.ok_of_error hrefusal rfl (by decide)
  | some as => exact Call.ok_of_groups hrefusal (planProps_ok as) rfl

theorem setParameters_ok (updates : List Update) (alloc : Bool) :
    (setParameters g updates alloc).Ok g := by
  have hnil : (([] : Groups).map Prod.fst).Nodup := nodup_nil
  refine Call.ok_of_groups ?_ (planParameters_ok g updates [] hnil) rfl
  intro res h
  simp only [setParameters] at h
  split_ifs at h <;> cases h <;> decide

theorem updateSingle_ok {port : Input} (hport : (g.descriptor port.node).prepareParameter = true)
    (update : Update) : (updateSingle port update).Ok g := by
  by_cases hvalid : update.valid < 0
  · exact Call.ok_of_error (by rintro _ ⟨⟩) (if_pos hvalid) hvalid
  · refine ⟨by rintro _ ⟨⟩, ?_, ?_, ?_⟩ <;> rw [updateSingle, if_neg hvalid]
    · rintro _ ⟨⟩
    · rintro _ ⟨⟩
    · rintro _ ⟨⟩
      exact ⟨rfl, hport⟩

theorem updateParameter_ok (update : Update) (alloc : Bool) :
    (updateParameter g update alloc).Ok g := by
  have hinval : (⟨.parameters, some (-eInval), .error (-eInval)⟩ : Call).Ok g :=
    Call.ok_of_error (by rintro _ ⟨⟩; decide) rfl (by decide)
  unfold updateParameter
  split
  · exact hinval
  · rename_i port hp
    split_ifs with hbad
    · exact hinval
    · exact setParameters_ok _ alloc
    · -- `load_node` refuses a parameter port without `prepare_parameter`
      refine updateSingle_ok (g.parameter_able port (mem_of_getElem? hp) ?_) update
      simp only [Bool.or_eq_true, Bool.not_eq_true', not_or] at hbad
      simpa using hbad.2

/-- **Every request is a call of this kind.** -/
theorem Request.resolve_ok (r : Request) : (r.resolve g).Ok g := by
  cases r with
  | setProps object params alloc => exact setProps_ok object params alloc
  | setParameters updates alloc => exact setParameters_ok updates alloc
  | updateParameter update alloc => exact updateParameter_ok update alloc

end

end PipeWireAO.FilterGraph.Transaction
