import PipeWireAO.Pod.Equality

/-!
# Looking up properties

Both searches for a property go to the end of the object and then on from its beginning. The parser
begins where it is. The iterator begins behind the property that it is given: this one comes last.
-/

namespace PipeWireAO.Pod

open List Option

/-- What the parser finds: the header of the property, and the address of its value. -/
def Entry.found (e : Entry) : Property × ℕ :=
  (⟨e.key.toNat, e.flags.toNat, e.value.header⟩, e.at_ + 16)

/-- The keys and values of an object, in their order. -/
def Props.pairs (ps : Props) : List (BitVec 32 × Tree) :=
  (ps.entries 0).map fun e => (e.key, e.value)

/-- A parser in an object, behind the properties `xs` and in front of `ys`. -/
structure Parser.Between (m : Memory) (p : Parser) (f : Frame) (xs ys : List Entry) : Prop where
  inside : p.Inside m
  frame : ∃ fs, p.frame = f :: fs
  object : f.pod.type = Kind.object.number
  aligned : p.data % 8 = 0
  before : Laid m (p.data + (f.offset + 16)) xs (p.data + p.offset)
  after : Laid m (p.data + p.offset) ys (p.data + upper p.size p.frame)

section

variable {u32 : ℕ → ℕ} {m : Memory} {p : Parser} {f : Frame} {n : ℕ} {es xs ys : List Entry}
  {key : BitVec 32}

/-- **A loop of the parser** over all properties that are left. -/
theorem Laid.findLoop_eq (hu : Exact u32) (hp : p.Inside m) (hdata : p.data % 8 = 0)
    (h : Laid m (p.data + p.offset) es (p.data + upper p.size p.frame)) (stop : Option ℕ)
    (hstop : ∀ o ∈ stop, o < p.offset) (key : BitVec 32) (hn : es.length < n) :
    ∃ o k, findLoop u32 m stop key.toNat n p =
        .ok ((entryOf key es).map Entry.found, { p with offset := o }, k) ∧
      n ≤ k + es.length + 1 ∧ ({ p with offset := o } : Parser).Inside m ∧
      ∃ xs ys, xs ++ ys = es ∧ Laid m (p.data + p.offset) xs (p.data + o) ∧
        Laid m (p.data + o) ys (p.data + upper p.size p.frame) := by
  induction es generalizing p n with
  | nil =>
    obtain ⟨n, rfl⟩ := exists_succ hn
    have hend : p.offset = upper p.size p.frame := Nat.add_left_cancel h
    refine ⟨p.offset, n, ?_, by simp, hp, [], [], rfl, rfl, h⟩
    rw [findLoop, getPropBody, Parser.Before.getHeader_end hu hp (by decide) hend]
    split_ifs <;> rfl
  | cons e es ih =>
    obtain ⟨n, rfl⟩ := exists_succ hn
    have hend := h.2.length_le
    have halign := h.1.aligned
    have hlower := hp.lower
    have hbefore : p.Before m e.bytes := ⟨hp, by omega, h.1.bytes, by omega⟩
    have hnext : (p.skip e.bytes.length).Inside m := hp.move (by omega) (by omega)
    have hrest : Laid m (p.data + (p.offset + e.bytes.length)) es (p.data + upper p.size p.frame) := by
      rw [← Nat.add_assoc]
      exact h.2
    have hne : stop ≠ some p.offset := fun heq => Nat.lt_irrefl _ (hstop _ heq)
    rw [findLoop, if_neg hne, Parser.Before.getPropBody_eq hu hbefore h.1.small]
    dsimp only
    rw [← e.length_bytes]
    obtain ⟨hkey, hof⟩ | ⟨hkey, hof⟩ := entryOf_cons key e es
    · rw [if_pos hkey, hof]
      refine ⟨p.offset + e.bytes.length, n, ?_, by omega, hnext, [e], es, rfl,
        ⟨h.1, Nat.add_assoc ..⟩, hrest⟩
      rw [map_some, Entry.found, h.1.at_]
      rfl
    · rw [if_neg hkey, hof]
      obtain ⟨o, k, hfind, hk, hins, xs, ys, rfl, hxs, hys⟩ := ih hnext hdata hrest
        (fun o ho => Nat.lt_add_right _ (hstop o ho)) (n := n) (by simpa using hn)
      refine ⟨o, k, hfind, by rw [length_cons]; omega, hins, e :: xs, ys, rfl, ⟨h.1, ?_⟩, hys⟩
      rw [Nat.add_assoc]
      exact hxs

namespace Parser.Between

/-- **The search of the parser** goes round from where it is. -/
theorem objectFindProp_eq (hu : Exact u32) (h : p.Between m f xs ys) (key : BitVec 32) :
    ∃ p' xs' ys', objectFindProp u32 m key.toNat (rounds f.pod.size) p =
      .ok ((entryOf key (ys ++ xs)).map Entry.found, p') ∧ p'.Between m f xs' ys' ∧
      xs' ++ ys' = xs ++ ys := by
  obtain ⟨fs, hf⟩ := h.frame
  have hupper : upper p.size p.frame = f.offset + (8 + f.pod.size) := by rw [hf]; rfl
  have hall : Laid m (p.data + (f.offset + 16)) (xs ++ ys) (p.data + upper p.size p.frame) :=
    Laid.append.mpr ⟨_, h.before, h.after⟩
  have hlen := hall.length_le
  have hrounds : 2 * (xs ++ ys).length + 1 < rounds f.pod.size := by unfold rounds; omega
  rw [length_append] at hrounds
  obtain ⟨o, k, hloop, hk, hins, us, vs, hys, hus, hvs⟩ :=
    h.after.findLoop_eq hu h.inside h.aligned none nofun key (n := rounds f.pod.size) (by omega)
  rw [objectFindProp, hf]
  dsimp only
  rw [if_pos h.object, findFrom, hloop, entryOf_append key ys]
  cases hfound : entryOf key ys with
  | some e =>
    exact ⟨_, xs ++ us, vs, rfl, ⟨hins, h.frame, h.object, h.aligned,
      Laid.append.mpr ⟨_, h.before, hus⟩, hvs⟩, by rw [append_assoc, hys]⟩
  | none =>
    -- the second loop goes over all properties, of which those behind the position were seen
    obtain ⟨hfirst, hins'⟩ := h.inside.first hu hf h.object
    have hstop : ∀ o ∈ some f.offset, o < f.offset + 16 := fun o ho => by cases ho; omega
    obtain ⟨o', k', hloop', -, hins'', us', vs', hall', hus', hvs'⟩ := Laid.findLoop_eq
      (p := { p with offset := f.offset + 16 }) hu hins' h.aligned hall _ hstop key (n := k) (by
        rw [length_append]; omega)
    refine ⟨_, us', vs', ?_, ⟨hins'', h.frame, h.object, h.aligned, hus', hvs'⟩, hall'⟩
    rw [entryOf_append, hfound, or_none] at hloop'
    simp only [map_none, restart, hfirst, hloop', none_or]

end Parser.Between

/-- Lookups one after the other. -/
def lookups (u32 : ℕ → ℕ) (m : Memory) (fuel : ℕ) : List (BitVec 32) → Parser →
    Except Error (List (Option (Property × ℕ)) × Parser)
  | [], p => .ok ([], p)
  | key :: keys, p => do
    let r ← objectFindProp u32 m key.toNat fuel p
    let rs ← lookups u32 m fuel keys r.2
    return (r.1 :: rs.1, rs.2)

theorem Parser.Between.lookups_eq (hu : Exact u32) (hkeys : ((xs ++ ys).map Entry.key).Nodup)
    (h : p.Between m f xs ys) (keys : List (BitVec 32)) :
    ∃ p', lookups u32 m (rounds f.pod.size) keys p =
      .ok (keys.map fun key => (entryOf key (xs ++ ys)).map Entry.found, p') := by
  induction keys generalizing p xs ys with
  | nil => exact ⟨p, rfl⟩
  | cons key keys ih =>
    obtain ⟨p', xs', ys', hfind, hp', heq⟩ := h.objectFindProp_eq hu key
    obtain ⟨p'', hrest⟩ := ih (heq ▸ hkeys) hp'
    refine ⟨p'', ?_⟩
    rw [heq] at hrest
    rw [entryOf_perm hkeys perm_append_comm] at hfind
    simp only [lookups, hfind, hrest, bind, Except.bind, pure, Except.pure, map_cons]

theorem Props.get?_eq_some_iff {ps : Props} {t : Tree} (hkeys : ps.keys.Nodup) :
    ps.get? key = some t ↔ (key, t) ∈ ps.pairs := by
  rw [← ps.keys_entries 0] at hkeys
  simp only [← ps.get?_eq key 0, map_eq_some_iff, entryOf_eq_some_iff hkeys, pairs, List.mem_map,
    Prod.mk.injEq, and_assoc]

theorem Props.get?_perm {ps ps' : Props} (hkeys : ps.keys.Nodup) (hperm : ps'.pairs.Perm ps.pairs) :
    ps'.get? key = ps.get? key := by
  have hfst : ∀ ps : Props, ps.pairs.map Prod.fst = ps.keys := fun ps => by
    rw [pairs, List.map_map, ← ps.keys_entries 0]
    rfl
  have hkeys' : ps'.keys.Nodup := by
    rw [← hfst, (hperm.map Prod.fst).nodup_iff, hfst]
    exact hkeys
  ext t
  rw [get?_eq_some_iff hkeys', get?_eq_some_iff hkeys, hperm.mem_iff]

end

/-- **A property is found exactly if there is one**, from wherever the search begins, behind the
properties `xs`. The iterator gets the last one of these, or `NULL`: going round, that one comes last. With
distinct keys, the order of the requests does not matter, and neither does the order of the properties. -/
theorem object_lookup {m : Memory} {a : ℕ} {type id : BitVec 32} {ps : Props} {es : List Entry}
    (hat : m.At a (Tree.object type id ps).bytes) (halign : a % 8 = 0)
    (hmax : (Tree.object type id ps).body.length < maxSize) (hes : es = ps.entries (a + 16))
    (key : BitVec 32) :
    (∀ xs ys, es = xs ++ ys →
      findProp m a (xs.getLast?.map Entry.at_) key.toNat (rounds (Tree.object type id ps).body.length) =
        .ok ((entryOf key (ys ++ xs)).map Entry.at_) ∧
      (∀ p f, Parser.Between m p f xs ys →
        ∃ p', objectFindProp wrap32 m key.toNat (rounds f.pod.size) p =
          .ok ((entryOf key (ys ++ xs)).map Entry.found, p')) ∧
      ((entryOf key (ys ++ xs)).isSome ↔ key ∈ ps.keys) ∧
      (ps.keys.Nodup → entryOf key (ys ++ xs) = entryOf key es ∧
        ∀ p f, Parser.Between m p f xs ys → ∀ keys,
          ∃ p', lookups wrap32 m (rounds f.pod.size) keys p =
            .ok (keys.map fun key => (entryOf key es).map Entry.found, p'))) ∧
    (ps.keys.Nodup → ∀ ps' : Props, ps'.pairs.Perm ps.pairs →
      (entryOf key es).map Entry.value = ps'.get? key) := by
  obtain ⟨hheader, hholds, hlaid⟩ := object_laid hat halign hmax
  have hkeys := ps.keys_entries (a + 16)
  rw [← hes] at hlaid hkeys
  refine ⟨fun xs ys hsplit => ?_, fun hnodup ps' hperm => ?_⟩
  · have hperm : (ys ++ xs).Perm es := hsplit ▸ perm_append_comm
    rw [← hkeys]
    refine ⟨(hsplit ▸ hlaid).findProp_eq ⟨_, hheader⟩ hholds key, fun p f hp => ?_, ?_, fun hnodup => ⟨?_, ?_⟩⟩
    · obtain ⟨p', -, -, hfind, -⟩ := hp.objectFindProp_eq exact_wrap32 key
      exact ⟨p', hfind⟩
    · rw [← (hperm.map Entry.key).mem_iff, entryOf, find?_isSome, List.mem_map]
      simp only [decide_eq_true_eq]
    · exact entryOf_perm hnodup hperm
    · rw [hsplit] at hnodup ⊢
      exact fun p f hp keys => hp.lookups_eq exact_wrap32 hnodup keys
  · rw [hes, ps.get?_eq, Props.get?_perm hnodup hperm]

/-- An object with two properties of one key. -/
def twoOfOne : Tree :=
  .object 0 0 (.cons 1 0 (.scalar (.int 5)) (.cons 1 0 (.scalar (.int 6)) .nil))

def twoOfOneMemory : Memory := twoOfOne.memory (by decide +kernel)

/-- A property that has the key is not returned when it is the start. -/
theorem findProp_skips_start : twoOfOneMemory.At 0 twoOfOne.bytes ∧
    (twoOfOneMemory.property 16).map Property.key = .ok 1 ∧
    findProp twoOfOneMemory 0 (some 16) 1 (rounds twoOfOne.body.length) = .ok (some 40) :=
  ⟨twoOfOne.memory_at _, by decide +kernel, by decide +kernel⟩

theorem object_lookup_twoOfOne :
    findProp twoOfOneMemory 0 none 1 (rounds twoOfOne.body.length) = .ok (some 16) ∧
    findProp twoOfOneMemory 0 (some 40) 1 (rounds twoOfOne.body.length) = .ok (some 16) := by
  have hat : twoOfOneMemory.At 0 twoOfOne.bytes := twoOfOne.memory_at _
  have h := (object_lookup hat rfl (by decide +kernel) rfl 1).1
  exact ⟨(h [] _ rfl).1, (h _ [] (append_nil _).symm).1⟩

end PipeWireAO.Pod
