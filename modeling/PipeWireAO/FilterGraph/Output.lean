import PipeWireAO.FilterGraph.Ports
import PipeWireAO.FilterGraph.Process

/-!
# What a call leaves in the external outputs

`spa_fgn_graph_process` has many exits. Up to the checks on the external buffers nothing was
written; from then on an error empties all the external outputs. What a callback writes is checked
before the next node is taken, so after a call without an error every output has its size, or is
empty.
-/

namespace PipeWireAO.FilterGraph

open List

variable {P S : Type*} {p : PortId} {port : PortId → Option Port} {o : Option (Buffer P)}
  {b : Buffer P} {ps : List PortId} {order : List ℕ} {r : Result P S} {rs : List Int}

/-! ## Checks -/

theorem firstError_nonneg (h : 0 ≤ firstError rs) : ∀ r ∈ rs, 0 ≤ r := by
  induction rs with
  | nil => simp
  | cons r rs ih =>
    rw [firstError] at h
    split_ifs at h with hr
    · exact absurd hr (Int.not_lt.mpr h)
    · intro r' hr'
      rcases mem_cons.mp hr' with rfl | hr'
      · exact Int.not_lt.mp hr
      · exact ih h r' hr'

theorem firstError_of_nonneg (h : ∀ r ∈ rs, 0 ≤ r) : 0 ≤ firstError rs := by
  induction rs with
  | nil => exact le_rfl
  | cons r rs ih =>
    rw [firstError, if_neg (Int.not_lt.mpr (h r mem_cons_self))]
    exact ih fun r' hr' => h r' (mem_cons_of_mem r hr')

theorem portsOf_getElem (h : ∀ p ∈ ps, (port p).isSome = true) (i : ℕ) :
    (portsOf port ps)[i]? = ps[i]?.bind port := by
  induction ps generalizing i with
  | nil => rfl
  | cons p ps ih =>
    obtain ⟨q, hq⟩ := Option.isSome_iff_exists.mp (h p mem_cons_self)
    rw [portsOf, filterMap_cons_some hq]
    cases i with
    | zero => simp [hq]
    | succ i => exact ih (fun p' hp' => h p' (mem_cons_of_mem p hp')) i

theorem layoutLoop_placed {metasAt count bytes : ℕ} {earlier metas : List Meta}
    (h : layoutLoop metasAt count earlier bytes metas = true) : ∀ m ∈ metas, recordPlaced m = true := by
  induction metas generalizing earlier bytes with
  | nil => simp
  | cons m metas ih =>
    simp only [layoutLoop, Bool.and_eq_true] at h
    intro m' hm'
    rcases mem_cons.mp hm' with rfl | hm'
    · exact h.1.1.1.1
    · exact ih h.2 m' hm'

theorem layoutLoop_types {metasAt count bytes : ℕ} {earlier metas : List Meta}
    (h : layoutLoop metasAt count earlier bytes metas = true) :
    (metas.map Meta.type).Nodup ∧ ∀ m ∈ metas, ∀ e ∈ earlier, m.type ≠ e.type := by
  induction metas generalizing earlier bytes with
  | nil => exact ⟨nodup_nil, nofun⟩
  | cons m metas ih =>
    simp only [layoutLoop, Bool.and_eq_true, all_eq_true, recordsApart, decide_eq_true_eq] at h
    obtain ⟨⟨-, hapart⟩, hrest⟩ := h
    obtain ⟨hnodup, hearlier⟩ := ih hrest
    constructor
    · rw [map_cons, nodup_cons]
      refine ⟨fun hmem => ?_, hnodup⟩
      obtain ⟨m', hm', heq⟩ := mem_map.mp hmem
      exact hearlier m' hm' m mem_cons_self heq
    · intro m' hm' e he
      rcases mem_cons.mp hm' with rfl | hm'
      · exact (hapart e he).1
      · exact hearlier m' hm' e (mem_cons_of_mem m he)

/-- **Records with a valid layout can be initialised.** -/
theorem initRecords_ok {metas : List Meta} (h : ∀ m ∈ metas, recordPlaced m = true) :
    (initRecords metas).2 = true := by
  induction metas with
  | nil => rfl
  | cons m metas ih =>
    have hm : ∃ m', recordInit m = some m' := by
      unfold recordInit
      rw [if_neg (by simp [h m mem_cons_self])]
      split_ifs
      · exact ⟨m, rfl⟩
      · exact ⟨_, rfl⟩
    obtain ⟨m', hm'⟩ := hm
    rw [initRecords, hm']
    exact ih fun r hr => h r (mem_cons_of_mem m hr)

theorem validateBuffer_spec {payloadSize elementSize : ℕ} {output : Bool}
    (h : 0 ≤ validateBuffer payloadSize elementSize output o) :
    ∃ b, o = some b ∧ ∀ m ∈ b.metas, recordPlaced m = true := by
  cases o with
  | none => exact absurd h (by decide : ¬ (0 : Int) ≤ -eNoBufs)
  | some b =>
    refine ⟨b, rfl, ?_⟩
    rw [validateBuffer] at h
    split_ifs at h with _ _ _ _ _ _ _ hlayout
    all_goals try exact absurd h (by decide)
    have hlayout := (not_or.mp hlayout).1
    simp only [Bool.not_eq_false, recordsLayoutValidate, Bool.and_eq_true] at hlayout
    exact layoutLoop_placed hlayout.2

theorem checkOutput_spec {port : Port} {offset : ℕ} (h : 0 ≤ checkOutput port offset b) :
    b.offset = offset ∧ (b.size = port.payloadSize ∨ (port.conditional = true ∧ b.size = 0)) := by
  unfold checkOutput validateCompletedOutput at h
  split_ifs at h with _ hempty hoffset hbad
  all_goals try exact absurd h (by decide)
  · exact ⟨hoffset, .inr hempty⟩
  · simp only [not_or, not_not] at hbad
    exact ⟨hbad.1, .inl hbad.2.1⟩

theorem mem_zipWith_portsOf {α β : Type*} (hports : ∀ p ∈ ps, (port p).isSome = true)
    (f : Port → α → β) {l : List α} {i : ℕ} {q : Port} {o : α} (hp : ps[i]? = some p)
    (hq : port p = some q) (ho : l[i]? = some o) : f q o ∈ List.zipWith f (portsOf port ps) l := by
  apply mem_of_getElem? (i := i)
  rw [getElem?_zipWith_eq_some]
  refine ⟨q, o, ?_, ho, rfl⟩
  rw [portsOf_getElem hports, hp]
  exact hq

section Accepted

variable {g : Graph} {a : Aliasing P} {plugin : ℕ → Plugin P S} {x y : List (Option (Buffer P))}
  {st : State P S} {c c₀ : Cycle P S}

theorem checkExternal_output (hports : ∀ p ∈ g.outputs, (outputPort g.nodes p).isSome = true)
    (h : 0 ≤ checkExternal g a x y) {i : ℕ} (hp : g.outputs[i]? = some p) (ho : y[i]? = some o) :
    ∃ b, o = some b ∧ ∀ m ∈ b.metas, recordPlaced m = true := by
  obtain ⟨port, hport⟩ := Option.isSome_iff_exists.mp (hports p (mem_of_getElem? hp))
  have hcheck : 0 ≤ validateBuffer port.payloadSize port.elementSize true o := by
    apply firstError_nonneg h
    apply mem_append_left
    apply mem_append_right
    exact mem_zipWith_portsOf hports
      (fun port b => validateBuffer port.payloadSize port.elementSize true b) hp hport ho
  exact validateBuffer_spec hcheck

/-- **Metadata that was checked can be initialised.** -/
theorem initOutputs_ok (hports : ∀ p ∈ g.outputs, (outputPort g.nodes p).isSome = true)
    (hlen : y.length = g.outputs.length) (h : 0 ≤ checkExternal g a x y) :
    (initOutputs y).2 = true := by
  have hall : ∀ b, some b ∈ y → (initOutput b).2 = true := by
    intro b hb
    obtain ⟨i, hi⟩ := getElem?_of_mem hb
    have hlt : i < g.outputs.length := by
      rw [← hlen]
      exact (List.getElem?_eq_some_iff.mp hi).1
    obtain ⟨b', hb', hplaced⟩ :=
      checkExternal_output hports h (getElem?_eq_getElem hlt) hi
    cases hb'
    exact initRecords_ok hplaced
  clear hlen h
  induction y with
  | nil => rfl
  | cons o y ih =>
    have hrest : (initOutputs y).2 = true := ih fun b hb => hall b (mem_cons_of_mem o hb)
    cases o with
    | none => exact hrest
    | some b =>
      rw [initOutputs, if_pos (hall b mem_cons_self)]
      exact hrest

theorem seen_start (hempty : ∀ p, (c₀.buffer p).size = 0) (h : seen g x c₀.buffer p = some b) :
    ∃ i : ℕ, g.inputs[i]? = some p ∧ x[i]? = some (some b) := by
  unfold seen at h
  split at h
  · rw [if_pos (hempty _)] at h
    cases h
  · split_ifs at h with hp
    refine ⟨g.inputs.idxOf p, ?_, Option.join_eq_some_iff.mp h⟩
    rw [getElem?_eq_getElem (idxOf_lt_length_iff.mpr hp), getElem_idxOf]

/-- **The inputs of the first callback were checked** before the transactions were committed. -/
theorem checkNodeInputs_start (hports : ∀ p ∈ g.inputs, (inputPort g.nodes p).isSome = true)
    (hempty : ∀ p, (c₀.buffer p).size = 0) (hcheck : 0 ≤ checkExternal g a x y)
    (hrecords : inputRecordsValid g x = true) (n : ℕ) : 0 ≤ checkNodeInputs g x c₀.buffer n := by
  have hport : ∀ p ∈ inputsOf g.nodes n, inputPort g.nodes p.1 = some p.2 := by
    intro p hp
    unfold inputsOf at hp
    split at hp
    · cases hp
    · rename_i node hnode
      obtain ⟨j, hj, rfl⟩ := mem_mapIdx.mp hp
      simp only [inputPort, hnode, Option.bind_some]
      exact getElem?_eq_getElem hj
  apply firstError_of_nonneg
  intro r hr
  rcases mem_append.mp hr with hr | hr
  · obtain ⟨p, hp, rfl⟩ := mem_map.mp hr
    split
    · exact le_rfl
    · rename_i b hb
      obtain ⟨i, hi, hx⟩ := seen_start hempty hb
      have hinput : 0 ≤ checkInput a p.2 (some b) := by
        apply firstError_nonneg hcheck
        apply mem_append_left
        apply mem_append_left
        exact mem_zipWith_portsOf hports (checkInput a) hi (hport p hp) hx
      simp only [checkInput, Option.isSome_some, if_true] at hinput
      split_ifs at hinput
      · exact absurd hinput (by decide : ¬ (0 : Int) ≤ -eInval)
      · exact firstError_nonneg hinput _ mem_cons_self
  · obtain ⟨p, hp, rfl⟩ := mem_map.mp hr
    split
    · exact le_rfl
    · rename_i b hb
      obtain ⟨i, hi, hx⟩ := seen_start hempty hb
      have hvalid := all_eq_true.mp hrecords _ (mem_zipWith_portsOf hports _ hi (hport p hp) hx)
      have hvalid : recordsValidate b.metasAt b.metas p.2.metas = true := hvalid
      rw [if_pos hvalid]

/-! ## The loop over the nodes -/

/-- **An error before the first callback** is found before the loop over the nodes. -/
theorem runNodes_error_calls {offset : PortId → ℕ} {e : Int × Cycle P S}
    (hstart : ∀ n, 0 ≤ checkNodeInputs g x c₀.buffer n)
    (h : runNodes g plugin x offset order c₀ = .error e) : e.2.calls ≠ [] := by
  -- as long as no callback was called, nothing has changed
  have hstep : ∀ {c c' : Cycle P S} {n}, n ∈ order → (c.calls = [] → c = c₀) →
      nodeStep g plugin x offset c n = .ok c' → c'.calls = [] → c' = c₀ := by
    intro c c' n _ hc hs hcalls
    unfold nodeStep at hs
    split at hs
    · cases hs
      exact hc hcalls
    · cases hs
    · cases hs
    · cases hs
      simp [Cycle.called] at hcalls
  obtain ⟨c, n, -, hc, hs⟩ := Foundation.foldlM_error hstep (fun _ => rfl) h
  unfold nodeStep at hs
  split at hs
  · cases hs
  · rename_i res hrefused
    cases hs
    intro hcalls
    rw [hc hcalls] at hrefused
    unfold runNode at hrefused
    dsimp only at hrefused
    split_ifs at hrefused with _ hneg
    exact absurd hneg (Int.not_lt.mpr (hstart n))
  · cases hs
    simp [Cycle.called]
  · cases hs

/-- **The outputs of a cycle that started as `c₀`**: those of a node whose callback was called
passed the checks; the others are as they were. -/
structure OutputsOk (g : Graph) (c₀ c : Cycle P S) : Prop where
  ran : ∀ n ∈ c.calls.map Prod.fst, ∀ (j : ℕ) port, (outputsOf g n)[j]? = some port →
    0 ≤ checkOutput port (c₀.buffer (n, j)).offset (c.buffer (n, j))
  idle : ∀ p : PortId, p.1 ∉ c.calls.map Prod.fst → c.buffer p = c₀.buffer p

theorem nodeStep_outputsOk {n : ℕ} {c' : Cycle P S} (hc : OutputsOk g c₀ c)
    (h : nodeStep g plugin x (fun p => (c₀.buffer p).offset) c n = .ok c') : OutputsOk g c₀ c' := by
  unfold nodeStep at h
  split at h
  · cases h
    exact hc
  · cases h
  · cases h
  · rename_i s outs changed hdone
    cases h
    -- the outputs of this node have just been checked
    have hchecked : 0 ≤ checkNodeOutputs g (fun p => (c₀.buffer p).offset) n outs := by
      unfold runNode at hdone
      dsimp only at hdone
      split_ifs at hdone with _ _ _ hout
      cases hdone
      exact Int.not_lt.mp hout
    constructor
    · intro m hm j port hport
      by_cases hmn : m = n
      · subst hmn
        have hj : j < (outputsOf g m).length := (List.getElem?_eq_some_iff.mp hport).1
        simp only [Cycle.called, hj, and_self, if_true]
        apply firstError_nonneg hchecked
        apply mem_of_getElem? (i := j)
        simp [getElem?_mapIdx, hport]
      · have hm' : m ∈ c.calls.map Prod.fst := by simpa [Cycle.called, hmn] using hm
        simpa [Cycle.called, hmn] using hc.ran m hm' j port hport
    · intro p hp
      have hp' : p.1 ∉ c.calls.map Prod.fst ∧ p.1 ≠ n := by
        simpa [Cycle.called, not_or] using hp
      simpa [Cycle.called, hp'.2] using hc.idle p hp'.1

/-- **Every output that was written was checked.** -/
theorem runNodes_outputsOk (hcalls : c₀.calls = [])
    (h : runNodes g plugin x (fun p => (c₀.buffer p).offset) order c₀ = .ok c) :
    OutputsOk g c₀ c := by
  have hinit : OutputsOk g c₀ c₀ := by
    refine ⟨?_, fun _ _ => rfl⟩
    rw [hcalls]
    simp
  exact Foundation.foldlM_ok (fun _ hc hs => nodeStep_outputsOk hc hs) hinit h

/-! ## The call -/

theorem startCycle_checks (h : startCycle g a st x y = .ok c₀) :
    y.length = g.outputs.length ∧ 0 ≤ checkExternal g a x y ∧ inputRecordsValid g x = true := by
  unfold startCycle at h
  dsimp only at h
  split_ifs at h with hargs _ hcheck _ hrecords
  obtain ⟨-, hargs⟩ := not_or.mp hargs
  obtain ⟨-, hlen⟩ := not_or.mp hargs
  exact ⟨not_not.mp hlen, Int.not_lt.mp hcheck, by simpa using hrecords⟩

theorem startCycle_error (hports : ∀ p ∈ g.outputs, (outputPort g.nodes p).isSome = true)
    (h : startCycle g a st x y = .error r) :
    r.state.properties = st.properties ∧ r.state.parameters = st.parameters ∧
      (r.outputs = y ∨ ∀ (i : ℕ) b, y[i]? = some (some b) →
        ∃ b', r.outputs[i]? = some (some b') ∧ b'.size = 0) := by
  unfold startCycle at h
  dsimp only at h
  split_ifs at h with hargs _ hcheck hinit hrecords
  · cases h
    exact ⟨rfl, rfl, .inl rfl⟩
  · cases h
    exact ⟨rfl, rfl, .inl rfl⟩
  · cases h
    exact ⟨rfl, rfl, .inl rfl⟩
  · obtain ⟨-, hargs⟩ := not_or.mp hargs
    obtain ⟨-, hlen⟩ := not_or.mp hargs
    rw [initOutputs_ok hports (not_not.mp hlen) (Int.not_lt.mp hcheck)] at hinit
    cases hinit
  · cases h
    refine ⟨rfl, rfl, .inr ?_⟩
    intro i b hb
    have hinit : (initOutputs y).2 = true := by simpa using hinit
    refine ⟨{ (initOutput b).1 with size := 0 }, ?_, rfl⟩
    simp [clearSizes, initOutputs_getElem hinit hb]

end Accepted

/-- What the external outputs `y` and the state `st` have become in a call.

* An error leaves the external outputs as they were given, or all of them empty.
* An error before the first callback leaves the pending transactions.
* Without an error every external output has the offset it was given with and the size of its port
  or none; it is not empty if the callback was called and the output is not conditional, and every
  output of a node whose callback was not called is empty. -/
structure OutputContract (g : Graph) (st : State P S) (y : List (Option (Buffer P)))
    (r : Result P S) : Prop where
  failed : r.res < 0 → r.outputs = y ∨ ∀ (i : ℕ) b, y[i]? = some (some b) →
    ∃ b', r.outputs[i]? = some (some b') ∧ b'.size = 0
  pending : r.res < 0 → r.calls = [] →
    r.state.properties = st.properties ∧ r.state.parameters = st.parameters
  external : 0 ≤ r.res → ∀ (i : ℕ) p, g.outputs[i]? = some p → ∃ port b b',
    outputPort g.nodes p = some port ∧ y[i]? = some (some b) ∧
    r.outputs[i]? = some (some b') ∧ b'.offset = b.offset ∧
    (b'.size = 0 ∨ b'.size = port.payloadSize) ∧
    (p.1 ∈ r.calls.map Prod.fst → port.conditional = false → b'.size ≠ 0) ∧
    (p.1 ∉ r.calls.map Prod.fst → b'.size = 0)
  internal : 0 ≤ r.res → ∀ p ∉ g.outputs, p.1 ∉ r.calls.map Prod.fst →
    (r.state.storage p).size = 0

section Contract

variable {g : Graph} {a : Aliasing P} {plugin : ℕ → Plugin P S} {x y : List (Option (Buffer P))}
  {st : State P S} {c c₀ : Cycle P S}

theorem outputContract_early (houtputs : ∀ p ∈ g.outputs, (outputPort g.nodes p).isSome = true)
    (h : startCycle g a st x y = .error r) : OutputContract g st y r := by
  obtain ⟨hprops, hparams, hleft⟩ := startCycle_error houtputs h
  have hneg : ¬ 0 ≤ r.res := Int.not_le.mpr (startCycle_error_neg h)
  exact ⟨fun _ => hleft, fun _ _ => ⟨hprops, hparams⟩, fun h => absurd h hneg,
    fun h => absurd h hneg⟩

theorem outputContract_failed (hlen : y.length = g.outputs.length) {res : Int} (hres : res < 0)
    (hcalls : c.calls ≠ []) :
    OutputContract g st y ⟨afterCycle g st c, clearSizes (externalOutputs g c), res, c.calls⟩ := by
  have hneg : ¬ 0 ≤ res := Int.not_le.mpr hres
  refine ⟨?_, fun _ h => absurd h hcalls, fun h => absurd h hneg, fun h => absurd h hneg⟩
  intro _
  right
  intro i b hb
  have hi : i < g.outputs.length := by
    rw [← hlen]
    exact (List.getElem?_eq_some_iff.mp hb).1
  refine ⟨{ c.buffer g.outputs[i] with size := 0 }, ?_, rfl⟩
  simp [clearSizes, externalOutputs, hi]

theorem outputContract_done (hnodup : g.outputs.Nodup)
    (houtputs : ∀ p ∈ g.outputs, (outputPort g.nodes p).isSome = true)
    (hpos : ∀ {p port}, outputPort g.nodes p = some port → 0 < port.payloadSize)
    (hstart : startCycle g a st x y = .ok c₀) (hok : OutputsOk g c₀ c) :
    OutputContract g st y ⟨afterCycle g st c, externalOutputs g c, statusOf c, c.calls⟩ := by
  obtain ⟨-, hempty, hexternal⟩ := startCycle_spec hnodup hstart
  obtain ⟨hlen, hcheck, -⟩ := startCycle_checks hstart
  have hres : ¬ statusOf c < 0 := by
    unfold statusOf
    split <;> decide
  refine ⟨fun h => absurd h hres, fun h => absurd h hres, fun _ => ?_, fun _ => ?_⟩
  · intro i p hp
    obtain ⟨port, hport⟩ := Option.isSome_iff_exists.mp (houtputs p (mem_of_getElem? hp))
    have hi : i < y.length := by
      rw [hlen]
      exact (List.getElem?_eq_some_iff.mp hp).1
    obtain ⟨b, hb, -⟩ := checkExternal_output houtputs hcheck hp (getElem?_eq_getElem hi)
    have hb : y[i]? = some (some b) := by rw [getElem?_eq_getElem hi, hb]
    have hoffset : (c₀.buffer p).offset = b.offset := by
      rw [hexternal i p b hp hb]
      rfl
    refine ⟨port, b, c.buffer p, hport, hb, by simp [externalOutputs, hp], ?_⟩
    by_cases hran : p.1 ∈ c.calls.map Prod.fst
    · have hout : (outputsOf g p.1)[p.2]? = some port := by
        obtain ⟨node, hnode, hj⟩ := Option.bind_eq_some_iff.mp hport
        simp [outputsOf, hnode, hj]
      have hspec : (c.buffer p).offset = (c₀.buffer p).offset ∧
          ((c.buffer p).size = port.payloadSize ∨
            (port.conditional = true ∧ (c.buffer p).size = 0)) :=
        checkOutput_spec (hok.ran p.1 hran p.2 port hout)
      have hsize := hpos hport
      refine ⟨hspec.1.trans hoffset, ?_, ?_, fun h => absurd hran h⟩
      · rcases hspec.2 with hfull | ⟨-, hnone⟩
        · exact .inr hfull
        · exact .inl hnone
      · intro _ hcond
        rcases hspec.2 with hfull | ⟨hcond', -⟩
        · rw [hfull]
          exact hsize.ne'
        · rw [hcond] at hcond'
          cases hcond'
    · rw [hok.idle p hran]
      exact ⟨hoffset, .inl (hempty p), fun h => absurd h hran, fun _ => hempty p⟩
  · intro p hp hran
    simp only [afterCycle, hp, if_false, hok.idle p hran, hempty p]

end Contract

/-- **The output contract of `spa_fgn_graph_process`**, for every accepted graph, every state of
it, every choice of external buffers and every behaviour of the plugins; and the metadata of
external outputs that passed the checks can be initialised. -/
theorem process_outputs {infos : List (Bool × List PortInfo)} {cfg : Config} {g : Graph}
    (hnodes : infos.mapM (fun i => loadPorts i.1 i.2) = .ok cfg.nodes) (hg : graphNew cfg = .ok g)
    (a : Aliasing P) (plugin : ℕ → Plugin P S) (st : State P S) (x y : List (Option (Buffer P))) :
    OutputContract g st y (process g a plugin g.order st x y) ∧
      (y.length = g.outputs.length → 0 ≤ checkExternal g a x y → (initOutputs y).2 = true) := by
  obtain ⟨hinputs, houtputs⟩ := graphNew_ports hg
  have hnodup := graphNew_outputs_nodup hg
  refine ⟨?_, initOutputs_ok houtputs⟩
  cases hstart : startCycle g a st x y with
  | error r =>
    rw [process_early hstart]
    exact outputContract_early houtputs hstart
  | ok c₀ =>
    obtain ⟨hcalls, hempty, -⟩ := startCycle_spec hnodup hstart
    obtain ⟨hlen, hcheck, hrecords⟩ := startCycle_checks hstart
    cases hrun : runNodes g plugin x (fun p => (c₀.buffer p).offset) g.order c₀ with
    | error e =>
      simp only [process, hstart, hrun]
      apply outputContract_failed hlen (runNodes_error_neg hrun)
      exact runNodes_error_calls (checkNodeInputs_start hinputs hempty hcheck hrecords) hrun
    | ok c =>
      rw [process_eq hstart hrun]
      have hpositive : ∀ {p port}, outputPort g.nodes p = some port → 0 < port.payloadSize := fun hp => by
        obtain ⟨_, _, _, hload⟩ := port_loaded hnodes hg (.inr hp)
        exact formatSize_pos (loadPort_ok hload).sized.1
      exact outputContract_done hnodup houtputs hpositive hstart
        (runNodes_outputsOk hcalls hrun)

/-- A node with one output of two integers. -/
def sourceInfo : List PortInfo :=
  [⟨portInfoSize, 0, directionOutput, 0, "out", [], 0, .ok ⟨6, 1, 0, 0, [2], none⟩, none⟩]

/-- A graph of this node alone. -/
def sourceConfig : Config where
  nodes := [⟨[], [⟨false, false, false, ⟨6, 1, 0, 0, [2], none⟩, 8, 4, []⟩]⟩]
  links := []
  inputs := some []
  outputs := none

/-- The graph of `sourceConfig`. -/
def sourceGraph : Graph := ⟨sourceConfig.nodes, [], [], [(0, 0)], [0]⟩

/-- A buffer that is given with the offset 4. -/
def sourceBuffer : Buffer ℕ where
  nDatas := 1
  datas := 8
  metasAt := 64
  metas := [⟨metaHeader, 32, 128, List.replicate 32 1⟩]
  data := 1024
  chunk := 16
  maxsize := 16
  offset := 4
  size := 3
  flags := 0
  payload := 0

/-- The callback completes its output. -/
def sourcePlugin (_ : ℕ) : Plugin ℕ ℕ where
  process s _ outs := (0, s, fun j => { outs.getD j sourceBuffer with size := 8, payload := 7 })
  revision := none

theorem process_outputs_source :
    let r := process sourceGraph ⟨fun _ _ => 0, fun _ _ => 0⟩ sourcePlugin [0]
      ⟨true, true, fun _ => 0, fun _ => sourceBuffer, none, none⟩ [] [some sourceBuffer]
    r.res = 0 ∧ r.calls = [(0, [])] ∧
      OutputContract sourceGraph ⟨true, true, fun _ => 0, fun _ => sourceBuffer, none, none⟩
        [some sourceBuffer] r := by
  have hnodes : [(false, sourceInfo)].mapM (fun i => loadPorts i.1 i.2) =
      .ok sourceConfig.nodes := by decide +kernel
  have hg : graphNew sourceConfig = .ok sourceGraph := by decide +kernel
  refine ⟨by decide +kernel, by decide +kernel, ?_⟩
  exact (process_outputs hnodes hg ⟨fun _ _ => 0, fun _ _ => 0⟩ sourcePlugin
    ⟨true, true, fun _ => 0, fun _ => sourceBuffer, none, none⟩ [] [some sourceBuffer]).1

end PipeWireAO.FilterGraph
