import Mathlib.Data.List.TakeWhile
import PipeWireAO.FilterGraph.Admission
import PipeWireAO.Foundation.Block

/-!
# The names of properties and ports

The graph publishes a property under the name of its node, a colon and its own name, and a configuration
refers to a port in this way. A name is taken apart at its first colon, so the name of a node must not
have one. A port is found by its name or by the number that the name spells, whichever port comes
first, so the number must not be the index of an earlier port.
-/

namespace PipeWireAO.FilterGraph

open List Option
open Json (Text Iter Outcome)
open Foundation (bind_eq_ok exists_ok_such nodup_concat forall_mem_concat)

/-! ## Publishing and searching -/

/-- `spa_scnprintf (name, 512, "%s:%s", node, name)`. -/
def qualifiedName (node name : Text) : Text := (node ++ 58 :: name).take 511

/-- `property_at`, as the number of the node and of its property. -/
def propertyAt : List Loaded → ℕ → Option (ℕ × ℕ)
  | [], _ => none
  | l :: nodes, i =>
    if i < l.properties.length then some (0, i)
    else (propertyAt nodes (i - l.properties.length)).map fun q => (q.1 + 1, q.2)

/-- The property with these numbers, and its node. -/
def propertyOf (nodes : List Loaded) (q : ℕ × ℕ) : Option (Loaded × Property) :=
  nodes[q.1]?.bind fun l => l.properties[q.2]?.map fun p => (l, p)

/-- The name that `spa_fgn_graph_enum_prop_info` publishes at `i`. -/
def enumPropInfoName (nodes : List Loaded) (i : ℕ) : Option Text :=
  ((propertyAt nodes i).bind (propertyOf nodes)).map fun r => qualifiedName r.1.name r.2.name

/-- The names that `spa_fgn_graph_get_props` publishes. -/
def publishedNames (nodes : List Loaded) : List Text :=
  nodes.flatMap fun l => l.properties.map fun p => qualifiedName l.name p.name

def findQualifiedProperty (nodes : List Loaded) (name : Text) : Except Int (ℕ × ℕ) :=
  let nodeName := name.takeWhile (· ≠ 58)
  let propertyName := (name.dropWhile (· ≠ 58)).drop 1
  if 58 ∉ name ∨ nodeName = [] ∨ 256 ≤ nodeName.length ∨ 256 ≤ propertyName.length then
    .error (-eInval)
  else
    match (nodes.findIdx? (·.name = nodeName)).bind fun n =>
      (nodes[n]?.bind fun l => l.properties.findIdx? (·.name = propertyName)).map fun j => (n, j) with
    | none => .error (-eNoEnt)
    | some q => .ok q

/-- The nodes that `spa_fgn_graph_new` loads from the text `config`. -/
def loadedNodes (env : Environment) (config : Text) : Except Int (List Loaded) := do
  let top ← orInval (Json.beginObject config)
  let (f, _, _) ← foldMembers (configMember env) (config.length + 1) ⟨fun _ => none, none⟩ top
  let array ← orInval (f.sections .nodes)
  foldObjects (loadNode env) (array.cur.length + 1) [] array

/-! ## Text -/

theorem toList_loop (bs : ByteArray) (i : ℕ) (r : List UInt8) :
    ByteArray.toList.loop bs i r = r.reverse ++ bs.data.toList.drop i := by
  induction i, r using ByteArray.toList.loop.induct bs with
  | case1 i r h ih =>
    have h' : i < bs.data.toList.length := by simpa using h
    have hget : bs.get! i = bs.data.toList[i] := by
      exact getElem!_pos bs.data i h
    rw [ByteArray.toList.loop, if_pos h, ih, reverse_cons, append_assoc,
      drop_eq_getElem_cons h', singleton_append, hget]
  | case2 i r h =>
    have h' : bs.data.toList.length ≤ i := by simpa using h
    rw [ByteArray.toList.loop, if_neg h, drop_eq_nil_of_le h', append_nil]

theorem str_eq (s : String) : str s = s.toByteArray.data.toList := by
  have h := toList_loop s.toByteArray 0 []
  rwa [reverse_nil, nil_append, drop_zero] at h

theorem length_str (s : String) : (str s).length = s.utf8ByteSize := by
  rw [str_eq, Array.length_toList]
  rfl

theorem str_injective {s t : String} (h : str s = str t) : s = t := by
  rw [str_eq, str_eq] at h
  exact String.toByteArray_inj.mp (ByteArray.ext (Array.toList_inj.mp h))

theorem length_encodeUtf8 (cp : ℕ) : (Json.encodeUtf8 cp).length ≤ 4 := by
  unfold Json.encodeUtf8
  split_ifs <;> simp

theorem four_le_of_parseHex {rest : Text} {cp : ℕ}
    (h : (if rest.length < 4 then none else Json.parseHex (rest.take 4)) = some cp) :
    4 ≤ rest.length := by
  split_ifs at h with hlt
  exact Nat.not_lt.mp hlt

theorem length_unescape (n : ℕ) (text : Text) : (Json.unescape n text).length ≤ text.length := by
  fun_induction Json.unescape n text
  all_goals simp only [length_nil, length_cons, length_append, length_drop,
    Nat.zero_le, Nat.add_le_add_iff_right] at *
  all_goals try omega
  -- A code point takes at most four bytes, and at least six were read.
  · have hfour := four_le_of_parseHex (by assumption)
    exact Nat.le_trans (Nat.add_le_add_right (length_encodeUtf8 _) _) (by omega)
  · have hfour := four_le_of_parseHex (by assumption)
    exact Nat.le_trans (Nat.add_le_add_right (length_encodeUtf8 _) _) (by omega)

theorem parseStringn_length {value text : Text} {len maxlen : ℕ}
    (h : Json.parseStringn value len maxlen = some text) : text.length < maxlen := by
  have hcut (t : Text) : (Json.cString t).length ≤ t.length := (List.takeWhile_prefix _).length_le
  have htoken : (Json.tokenBytes value len).length ≤ len := length_take_le len value
  unfold Json.parseStringn at h
  split_ifs at h with hlen hstring
  · cases h
    have hunescape := length_unescape len ((Json.tokenBytes value len).drop 1)
    rw [length_drop] at hunescape
    have := hcut (Json.unescape len ((Json.tokenBytes value len).drop 1))
    omega
  · cases h
    have := hcut (Json.tokenBytes value len)
    omega

variable {node config : Text} {α β ε : Type*} {f : α → β} {a : α} {b : Bool} {env : Environment}
  {x : Except ε α} {i : PortInfo} {o : Outcome} {p : Property}

theorem ne_colon (h : 58 ∉ node) : ∀ c ∈ node, decide (c ≠ 58) = true := by
  intro c hc
  refine decide_eq_true fun heq => h ?_
  rwa [heq] at hc

theorem takeWhile_colon (h : 58 ∉ node) (name : Text) :
    (node ++ 58 :: name).takeWhile (· ≠ 58) = node := by
  rw [takeWhile_append_of_pos (ne_colon h), takeWhile_cons_of_neg (by simp), append_nil]

theorem dropWhile_colon (h : 58 ∉ node) (name : Text) :
    ((node ++ 58 :: name).dropWhile (· ≠ 58)).drop 1 = name := by
  rw [dropWhile_append_of_pos (ne_colon h), dropWhile_cons_of_neg (by simp)]
  rfl

theorem takeWhile_ne (h : 58 ∈ node) (name : Text) :
    (node ++ 58 :: name).takeWhile (· ≠ 58) ≠ node := by
  intro heq
  have h : 58 ∈ (node ++ 58 :: name).takeWhile (· ≠ 58) := heq.symm ▸ h
  exact absurd (mem_takeWhile_imp h) (by decide)

/-! ## What the loader guarantees -/

/-- The names of properties are short and differ. -/
structure PropertiesNamed (ps : List Property) : Prop where
  nodup : (ps.map Property.name).Nodup
  short : ∀ p ∈ ps, p.name.length ≤ localNameMax

/-- The names of ports are short and differ. -/
structure PortsNamed (infos : List PortInfo) : Prop where
  nodup : (infos.map PortInfo.name).Nodup
  short : ∀ i ∈ infos, i.name.utf8ByteSize ≤ localNameMax

/-- **The names of a graph**: those of its nodes are short and differ, and so do those of the properties
and of the ports of each node. -/
structure Named (nodes : List Loaded) : Prop where
  nodup : (nodes.map Loaded.name).Nodup
  name : ∀ l ∈ nodes, l.name ≠ [] ∧ l.name.length < 256
  properties : ∀ l ∈ nodes, PropertiesNamed l.properties
  ports : ∀ l ∈ nodes, PortsNamed l.infos

theorem loadProperty_named {ps ps' : List Property} (hps : PropertiesNamed ps)
    (h : loadProperty ps p = .ok ps') : PropertiesNamed ps' := by
  unfold loadProperty at h
  split_ifs at h with hname hdup
  cases h
  refine ⟨nodup_concat hps.nodup fun q hq heq => hdup ?_, forall_mem_concat hps.short ?_⟩
  · exact any_eq_true.mpr ⟨q, hq, decide_eq_true (.inr heq)⟩
  · exact Nat.not_lt.mp fun hlt => hname (.inr hlt)

theorem loadPort_named {earlier : List PortInfo} {p : Port} (h : loadPort b earlier i = .ok p) :
    i.name.utf8ByteSize ≤ localNameMax ∧ ∀ e ∈ earlier, e.name ≠ i.name := by
  have hchecked := loadPort_ok h
  have hcomplete := hchecked.complete
  simp only [PortInfo.complete, Bool.and_eq_true, decide_eq_true_eq] at hcomplete
  refine ⟨hcomplete.1.1.1.1.2, fun e he heq => ?_⟩
  simpa [heq] using any_eq_false.mp hchecked.fresh e he

theorem loadPortList_named {infos earlier : List PortInfo} {ports : List (PortInfo × Port)}
    (h : loadPortList b earlier infos = .ok ports) :
    PortsNamed infos ∧ ∀ i ∈ infos, ∀ e ∈ earlier, e.name ≠ i.name := by
  induction infos generalizing earlier ports with
  | nil => exact ⟨⟨nodup_nil, nofun⟩, nofun⟩
  | cons i infos ih =>
    obtain ⟨port, hport, h⟩ := bind_eq_ok.mp h
    obtain ⟨rest, hrest, h⟩ := bind_eq_ok.mp h
    obtain ⟨hshort, hearlier⟩ := loadPort_named hport
    obtain ⟨hnamed, hrest⟩ := ih hrest
    refine ⟨⟨?_, forall_mem_cons.mpr ⟨hshort, hnamed.short⟩⟩, ?_⟩
    · rw [map_cons, nodup_cons]
      refine ⟨fun hmem => ?_, hnamed.nodup⟩
      obtain ⟨i', hi', heq⟩ := mem_map.mp hmem
      exact hrest i' hi' i mem_cons_self heq.symm
    · intro i' hi' e he
      rcases mem_cons.mp hi' with rfl | hi'
      · exact hearlier e he
      · exact hrest i' hi' e (mem_cons_of_mem i he)

theorem loadPorts_named {infos : List PortInfo} {node : Node}
    (h : loadPorts b infos = .ok node) : PortsNamed infos := by
  obtain ⟨ports, hports, -⟩ := bind_eq_ok.mp h
  exact (loadPortList_named hports).1

/-- **The invariant of a loop over members.** -/
theorem foldMembers_inv {σ : Type} {body : σ → Text → Text → ℕ → Iter → Except Int (σ × Iter)}
    {I : σ → Prop} (hbody : ∀ {s key value len it r}, I s → body s key value len it = .ok r → I r.1)
    {n : ℕ} {s s' : σ} {it e : Iter} (hs : I s) (h : foldMembers body n s it = .ok (s', o, e)) :
    I s' := by
  induction n generalizing s it with
  | zero =>
    cases h
    exact hs
  | succ n ih =>
    rw [foldMembers] at h
    split at h
    · cases h
      exact hs
    · split at h
      · cases h
      · rename_i s₁ it₁ hmember
        exact ih (hbody hs hmember) h

theorem nodeMember_name {c : NodeConfig} {key value : Text} {len : ℕ} {it : Iter}
    {r : NodeConfig × Iter} (hc : c.name.length < 256)
    (h : nodeMember env c key value len it = .ok r) : r.1.name.length < 256 := by
  unfold nodeMember at h
  split_ifs at h
  · obtain ⟨name, hname, h⟩ := bind_eq_ok.mp h
    cases h
    unfold stringMember at hname
    split at hname
    · cases hname
      rename_i htext
      exact parseStringn_length htext
    · cases hname
  -- No other member changes the name.
  all_goals
    simp only [bind, Except.bind, pure, Except.pure, throw, throwThe, MonadExceptOf.throw] at h
    repeat' split at h
    all_goals cases h
    all_goals exact hc

theorem loadNode_named {nodes nodes' : List Loaded} {child e : Iter} (hnodes : Named nodes)
    (h : loadNode env nodes child = .ok (nodes', o, e)) : Named nodes' := by
  obtain ⟨⟨c, o', e'⟩, hfold, h⟩ := bind_eq_ok.mp h
  obtain ⟨nodes₁, hadd, h⟩ := bind_eq_ok.mp h
  cases h
  have hshort : c.name.length < 256 :=
    foldMembers_inv (I := fun c : NodeConfig => c.name.length < 256) nodeMember_name (by decide) hfold
  rcases addNode_eq hadd with
    ⟨-, rfl⟩ | ⟨_, node, _, properties, rfl, -, hnode, hproperties, hname, hnew⟩
  · exact hnodes
  · have hempty : PropertiesNamed [] := ⟨nodup_nil, nofun⟩
    have hproperties : PropertiesNamed properties :=
      Foundation.foldlM_ok (fun _ hps => loadProperty_named hps) hempty hproperties
    exact ⟨nodup_concat hnodes.nodup hnew, forall_mem_concat hnodes.name ⟨hname, hshort⟩,
      forall_mem_concat hnodes.properties hproperties,
      forall_mem_concat hnodes.ports (loadPorts_named hnode)⟩

/-- **The names of the nodes that were loaded** are short and differ. -/
theorem loadedNodes_named {loaded : List Loaded} (h : loadedNodes env config = .ok loaded) :
    Named loaded := by
  obtain ⟨top, -, h⟩ := bind_eq_ok.mp h
  obtain ⟨⟨f, o, e⟩, -, h⟩ := bind_eq_ok.mp h
  obtain ⟨array, -, h⟩ := bind_eq_ok.mp h
  have hempty : Named [] := ⟨nodup_nil, nofun, nofun, nofun⟩
  exact foldObjects_inv (I := Named) loadNode_named hempty h

/-! ## Searching for what was published -/

theorem findIdx_of_nodup [DecidableEq β] {l : List α} (h : (l.map f).Nodup)
    {n : ℕ} (hn : l[n]? = some a) : l.findIdx? (fun b => f b = f a) = some n := by
  obtain ⟨hlt, rfl⟩ := List.getElem?_eq_some_iff.mp hn
  refine findIdx?_eq_some_iff_getElem.mpr ⟨hlt, decide_eq_true rfl, fun k hk heq => ?_⟩
  have hmap := nodup_iff_injective_get.mp h
  have hk' : k < (l.map f).length := by
    rw [length_map]
    omega
  have hn' : n < (l.map f).length := by rwa [length_map]
  have hfin : (⟨k, hk'⟩ : Fin _) = ⟨n, hn'⟩ := by
    apply hmap
    simpa using of_decide_eq_true heq
  exact Nat.ne_of_lt hk (Fin.mk.inj hfin)

section Resolve

variable {nodes : List Loaded} {l : Loaded} {n : ℕ}

theorem qualifiedName_eq (hnodes : Named nodes) (hl : l ∈ nodes) {name : Text}
    (hname : name.length ≤ localNameMax) : qualifiedName l.name name = l.name ++ 58 :: name := by
  have hshort := (hnodes.name l hl).2
  unfold localNameMax at hname
  refine take_of_length_le ?_
  rw [length_append, length_cons]
  omega

/-- What is found under a name belongs to a node with the part before its first colon. -/
theorem colon_of_found {α : Type} {name : Text} {k : ℕ × α} {search : ℕ → Option α}
    (hn : nodes[n]? = some l) (hk : k.1 = n)
    (h : ((nodes.findIdx? (·.name = (l.name ++ 58 :: name).takeWhile (· ≠ 58))).bind fun n =>
      (search n).map fun j => (n, j)) = some k) : 58 ∉ l.name := by
  intro hcolon
  obtain ⟨n', hfind, hj⟩ := bind_eq_some_iff.mp h
  obtain ⟨j, -, rfl⟩ := map_eq_some_iff.mp hj
  obtain rfl : n' = n := hk
  obtain ⟨hlt, hname, -⟩ := findIdx?_eq_some_iff_getElem.mp hfind
  rw [(List.getElem?_eq_some_iff.mp hn).2] at hname
  exact takeWhile_ne hcolon name (of_decide_eq_true hname).symm

/-- **A published name resolves to its property** exactly if the name of the node has no colon. -/
theorem findQualifiedProperty_published (hnodes : Named nodes) (hn : nodes[n]? = some l)
    {j : ℕ} (hj : l.properties[j]? = some p) :
    findQualifiedProperty nodes (qualifiedName l.name p.name) = .ok (n, j) ↔ 58 ∉ l.name := by
  have hl := mem_of_getElem? hn
  obtain ⟨hne, hshort⟩ := hnodes.name l hl
  have hproperties := hnodes.properties l hl
  have hname := hproperties.short p (mem_of_getElem? hj)
  rw [qualifiedName_eq hnodes hl hname]
  unfold findQualifiedProperty
  constructor
  · intro h
    dsimp only at h
    split_ifs at h
    split at h
    · cases h
    · rename_i hfound
      cases h
      exact colon_of_found hn rfl hfound
  · intro hcolon
    have hfindNode := findIdx_of_nodup hnodes.nodup hn
    have hfindProperty := findIdx_of_nodup hproperties.nodup hj
    rw [takeWhile_colon hcolon, dropWhile_colon hcolon, if_neg]
    · rw [hfindNode, bind_some, hn, bind_some, hfindProperty]
      rfl
    · unfold localNameMax at hname
      simp only [not_or, not_not]
      exact ⟨by simp, hne, by omega, by omega⟩

/-- **A port is found by its name** exactly if no earlier port has the index that the name spells. -/
theorem findPort_named (hports : PortsNamed l.infos) {direction j : ℕ}
    (hj : (l.infos.filter (·.direction = direction))[j]? = some i) :
    findPort env l.infos (str i.name) direction = some j ↔
      ∀ e ∈ (l.infos.filter (·.direction = direction)).take j,
        e.index ≠ (env.atou32 (str i.name)).getD (2 ^ 32 - 1) := by
  have hfilter : ((l.infos.filter (·.direction = direction)).map PortInfo.name).Nodup :=
    hports.nodup.sublist (filter_sublist.map _)
  obtain ⟨hlt, -, hbefore⟩ := findIdx?_eq_some_iff_getElem.mp (findIdx_of_nodup hfilter hj)
  have hget := (List.getElem?_eq_some_iff.mp hj).2
  refine findIdx?_eq_some_iff_getElem.trans ⟨fun ⟨_, _, hfirst⟩ e he hindex => ?_, fun hindex =>
    ⟨hlt, decide_eq_true (.inl (by rw [hget])), fun k hk heq => ?_⟩⟩
  · obtain ⟨k, hk, rfl⟩ := mem_iff_getElem.mp he
    rw [length_take] at hk
    rw [getElem_take] at hindex
    exact hfirst k (by omega) (decide_eq_true (.inr hindex))
  · rcases of_decide_eq_true heq with hsame | hsame
    · exact hbefore k hk (decide_eq_true (str_injective hsame))
    · refine hindex _ ?_ hsame
      exact Foundation.mem_take_of_lt hk (getElem?_eq_getElem (Nat.lt_trans hk hlt))

/-- **A reference resolves to the port with its name** exactly if the name of the node has no colon and
the port is found by its name. -/
theorem resolvePort_named (hnodes : Named nodes) (hn : nodes[n]? = some l) {direction j : ℕ}
    (hi : i ∈ l.infos) : resolvePort env nodes (l.name ++ 58 :: str i.name) direction = some (n, j) ↔
      58 ∉ l.name ∧ findPort env l.infos (str i.name) direction = some j := by
  have hl := mem_of_getElem? hn
  obtain ⟨hne, hshort⟩ := hnodes.name l hl
  have hname := (hnodes.ports l hl).short i hi
  rw [← length_str] at hname
  unfold resolvePort
  rw [if_pos (by simp)]
  have hresolve (hcolon : 58 ∉ l.name) : (if l.name = [] ∨ 256 ≤ l.name.length ∨
      256 ≤ (str i.name).length then none else (nodes.findIdx? (·.name = l.name)).bind fun n =>
        (nodes[n]?.bind fun l => findPort env l.infos (str i.name) direction).map fun j => (n, j)) =
      (findPort env l.infos (str i.name) direction).map fun j => (n, j) := by
    unfold localNameMax at hname
    rw [if_neg (by simp only [not_or]; exact ⟨hne, by omega, by omega⟩),
      findIdx_of_nodup hnodes.nodup hn, bind_some, hn, bind_some]
  constructor
  · intro h
    have hcolon : 58 ∉ l.name := by
      dsimp only at h
      split_ifs at h
      exact colon_of_found hn rfl h
    rw [takeWhile_colon hcolon, dropWhile_colon hcolon, hresolve hcolon] at h
    obtain ⟨j', hj', heq⟩ := map_eq_some_iff.mp h
    cases heq
    exact ⟨hcolon, hj'⟩
  · rintro ⟨hcolon, hfind⟩
    rw [takeWhile_colon hcolon, dropWhile_colon hcolon, hresolve hcolon, hfind]
    rfl

end Resolve

theorem publishedNames_getElem (nodes : List Loaded) (i : ℕ) :
    (publishedNames nodes)[i]? = enumPropInfoName nodes i := by
  induction nodes generalizing i with
  | nil => rfl
  | cons l nodes ih =>
    rw [publishedNames, flatMap_cons, ← publishedNames, enumPropInfoName, propertyAt]
    by_cases hi : i < l.properties.length
    · rw [if_pos hi, getElem?_append_left (by rwa [length_map]), getElem?_map]
      simp [propertyOf, getElem?_eq_getElem hi]
    · rw [if_neg hi, getElem?_append_right (by rw [length_map]; omega), length_map, ih,
        enumPropInfoName, bind_map]
      rfl

theorem loadedNodes_of_graphNewText {g : Graph} (h : graphNewText env config = .ok g) :
    ∃ loaded, loadedNodes env config = .ok loaded ∧ g.nodes = loaded.map Loaded.node := by
  obtain ⟨f, json, arr, loaded, hg⟩ := graphNewText_spec h
  obtain ⟨o, e, hfold⟩ := hg.members
  refine ⟨loaded, ?_, hg.nodes⟩
  rw [loadedNodes, hg.top]
  refine bind_eq_ok.mpr ⟨json, rfl, bind_eq_ok.mpr ⟨_, hfold, bind_eq_ok.mpr ⟨arr, ?_, hg.objects⟩⟩⟩
  rw [hg.array]
  rfl

/-- **Names resolve to what they were given to**, in every accepted graph, exactly if the name of the
node has no colon and, for a reference to a port, no earlier port of this direction has the index that
the name of the port spells. -/
theorem names_resolve {env : Environment} {config : Text} {g : Graph}
    (h : graphNewText env config = .ok g) : ∃ loaded, loadedNodes env config = .ok loaded ∧
      g.nodes = loaded.map Loaded.node ∧
      (∀ i, (publishedNames loaded)[i]? = enumPropInfoName loaded i) ∧
      (∀ n l j p, loaded[n]? = some l → l.properties[j]? = some p →
        qualifiedName l.name p.name ∈ publishedNames loaded ∧
        (findQualifiedProperty loaded (qualifiedName l.name p.name) = .ok (n, j) ↔ 58 ∉ l.name)) ∧
      ∀ n l direction j i, loaded[n]? = some l →
        (l.infos.filter (·.direction = direction))[j]? = some i →
        (resolvePort env loaded (l.name ++ 58 :: str i.name) direction = some (n, j) ↔
          58 ∉ l.name ∧ ∀ e ∈ (l.infos.filter (·.direction = direction)).take j,
            e.index ≠ (env.atou32 (str i.name)).getD (2 ^ 32 - 1)) := by
  obtain ⟨loaded, hloaded, hnodes⟩ := loadedNodes_of_graphNewText h
  have hnamed := loadedNodes_named hloaded
  refine ⟨loaded, hloaded, hnodes, publishedNames_getElem loaded, ?_, ?_⟩
  · intro n l j p hn hj
    refine ⟨?_, findQualifiedProperty_published hnamed hn hj⟩
    exact mem_flatMap.mpr ⟨l, mem_of_getElem? hn,
      mem_map_of_mem (mem_of_getElem? hj)⟩
  · intro n l direction j i hn hj
    rw [resolvePort_named hnamed hn (mem_of_mem_filter (mem_of_getElem? hj)),
      findPort_named (hnamed.ports l (mem_of_getElem? hn)) hj]

/-- A plugin with the property `p` and the output ports `x` and `1`, where `x` has the index 1. The
only number it knows is 1. -/
def digitEnvironment : Environment where
  instantiate _ _ _ := .ok (some
    { preparesParameter := false
      infos := [⟨portInfoSize, 1, directionOutput, 0, "x", [], 0, .ok ⟨1, 1, 0, 0, [4], none⟩, none⟩,
        ⟨portInfoSize, 0, directionOutput, 0, "1", [], 0, .ok ⟨1, 1, 0, 0, [4], none⟩, none⟩]
      properties := .ok [⟨str "p", 0, true, fun _ => .ok ()⟩]
      prepareProps := fun _ => .ok () })
  reformat text := some text
  workerGroupNew _ := .ok ()
  strtol _ := (0, 0)
  atou32 text := if text = str "1" then some 1 else none
  strtol_bracket _ _ _ := rfl

def plainConfig : Text := str "\x7b nodes = [ \x7b name = n plugin = p label = l \x7d ] \x7d"

/-- The property and the first port of this node are found. -/
theorem names_resolve_plain : ∃ loaded, loadedNodes digitEnvironment plainConfig = .ok loaded ∧
    publishedNames loaded = [str "n:p"] ∧ findQualifiedProperty loaded (str "n:p") = .ok (0, 0) ∧
    resolvePort digitEnvironment loaded (str "n:x") directionOutput = some (0, 0) := by
  obtain ⟨g, hg, -⟩ : ∃ g, graphNewText digitEnvironment plainConfig = .ok g ∧ g.nodes.length = 1 :=
    exists_ok_such (by decide +kernel)
  obtain ⟨loaded, hloaded, -⟩ := names_resolve hg
  refine ⟨loaded, hloaded, ?_⟩
  have hmem : loaded ∈ (loadedNodes digitEnvironment plainConfig).toOption := by
    rw [hloaded]
    rfl
  clear hloaded
  revert loaded
  decide +kernel

/-- A node whose name has a colon, and one without. -/
def colonConfig : Text :=
  str "\x7b nodes = [ \x7b name = \"a:b\" plugin = p label = l \x7d \x7b name = n plugin = p label = l \x7d ] \x7d"

/-- **Names that do not resolve.** The published name of the property of the first node is not
found, and the name of the second port of the other node finds the first one. -/
theorem names_misresolved : ∃ g loaded, graphNewText digitEnvironment colonConfig = .ok g ∧
    loadedNodes digitEnvironment colonConfig = .ok loaded ∧
    publishedNames loaded = [str "a:b:p", str "n:p"] ∧
    findQualifiedProperty loaded (str "a:b:p") = .error (-eNoEnt) ∧
    (loaded[1]?.map fun l => (l.infos.filter (·.direction = directionOutput)).map PortInfo.name) =
      some ["x", "1"] ∧
    resolvePort digitEnvironment loaded (str "n:1") directionOutput = some (1, 0) := by
  obtain ⟨g, hg, -⟩ : ∃ g, graphNewText digitEnvironment colonConfig = .ok g ∧ g.nodes.length = 2 :=
    exists_ok_such (by decide +kernel)
  exact ⟨g, (exists_ok_such (by decide +kernel)).imp fun loaded h => ⟨hg, h⟩⟩

end PipeWireAO.FilterGraph
