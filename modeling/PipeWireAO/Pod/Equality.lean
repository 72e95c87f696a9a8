import Mathlib.Data.List.Forall2
import PipeWireAO.Pod.Values

/-!
# What the comparison of pods decides

`spa_pod_compare` of two well-formed pods is 0 exactly for the pods of `Tree.Matches`: values of one
type and size that are compared equal, choices with as many values whose first ones are, arrays with
the same bytes and objects with such properties. A struct is never compared equal, not even with
itself: the loop over its pods has no end but an error.

Two pods that are compared equal denote the same value exactly if what is not compared agrees: the
types and ids of objects, the kinds of choices and their values behind the first, and the height of
rectangles without a width (`Tree.Agree`).
-/

namespace PipeWireAO.Pod

open List
open Foundation (toLe length_toLe)

/-! ## Relations on pods -/

mutual

/-- The pods that are equal in everything that is compared. -/
def Tree.Matches : Tree → Tree → Prop
  | .array vs, u => u = .array vs
  | .struct _, _ => False
  | .object _ _ ps, u => ∃ type id qs, u = .object type id qs ∧ ps.Matches qs ∧
      ∀ key ∈ qs.keys, key ∈ ps.keys
  | t, u => ∃ type v vs type' w ws, t.alternatives = some (type, v :: vs) ∧
      u.alternatives = some (type', w :: ws) ∧ vs.length = ws.length ∧ v.Matches w

/-- Each property is in the other object as well, with a value that is compared equal. -/
def Props.Matches : Props → Props → Prop
  | .nil, _ => True
  | .cons key _ t ps, qs => (∃ u, qs.get? key = some u ∧ t.Matches u) ∧ ps.Matches qs

end

mutual

/-- The pods that denote the same value: objects up to the order of their properties, fractions up to
the ratio, and choices with the same kind and the same values. -/
def Tree.Same : Tree → Tree → Prop
  | .array vs, u => ∃ ws, u = .array ws ∧ List.Forall₂ Scalar.Same vs ws
  | .struct ts, u => ∃ us, u = .struct us ∧ ts.Same us
  | .object type id ps, u => ∃ qs, u = .object type id qs ∧ ps.Same qs ∧
      ∀ key ∈ qs.keys, key ∈ ps.keys
  | t, u => ∃ type vs ws, t.alternatives = some (type, vs) ∧ u.alternatives = some (type, ws) ∧
      List.Forall₂ Scalar.Same vs ws

def Trees.Same : Trees → Trees → Prop
  | .nil, us => us = .nil
  | .cons t ts, us => ∃ u us', us = .cons u us' ∧ t.Same u ∧ ts.Same us'

/-- Each property is in the other object as well, with the same value. -/
def Props.Same : Props → Props → Prop
  | .nil, _ => True
  | .cons key _ t ps, qs => (∃ u, qs.get? key = some u ∧ t.Same u) ∧ ps.Same qs

end

mutual

/-- All values in the pod have the property `P`. -/
def Tree.All (P : Scalar → Prop) : Tree → Prop
  | .scalar v => P v
  | .array vs => ∀ v ∈ vs, P v
  | .choice _ _ vs => ∀ v ∈ vs, P v
  | .struct ts => ts.All P
  | .object _ _ ps => ps.All P

/-- All values in the pods have the property `P`. -/
def Trees.All (P : Scalar → Prop) : Trees → Prop
  | .nil => True
  | .cons t ts => t.All P ∧ ts.All P

/-- All values in the properties have the property `P`. -/
def Props.All (P : Scalar → Prop) : Props → Prop
  | .nil => True
  | .cons _ _ t ps => t.All P ∧ ps.All P

end

mutual

/-- There is no struct in the pod, and no choice without values. -/
def Tree.Plain : Tree → Prop
  | .struct _ => False
  | .choice _ _ vs => vs ≠ []
  | .object _ _ ps => ps.Plain
  | _ => True

/-- There is no struct in the properties, and no choice without values. -/
def Props.Plain : Props → Prop
  | .nil => True
  | .cons _ _ t ps => t.Plain ∧ ps.Plain

end

mutual

/-- What is not compared agrees: the types and ids of objects in the same place, the kind and the
values behind the first of choices in the same place, and the height of first values without a
width. -/
def Tree.Agree : Tree → Tree → Prop
  | .object type id ps, u => ∀ type' id' qs, u = .object type' id' qs →
      type = type' ∧ id = id' ∧ ps.Agree qs
  | t, u => ∀ type v vs type' w ws, t.alternatives = some (type, v :: vs) →
      u.alternatives = some (type', w :: ws) →
        type = type' ∧ v.SameHeight w ∧ List.Forall₂ Scalar.Same vs ws

/-- What is not compared agrees, in the values of each key. -/
def Props.Agree : Props → Props → Prop
  | .nil, _ => True
  | .cons key _ t ps, qs => (∀ u, qs.get? key = some u → t.Agree u) ∧ ps.Agree qs

end

section

variable {t u : Tree} {a : BitVec 32 × List Scalar}

theorem Tree.matches_leaf (h : t.alternatives = some a) :
    t.Matches u ↔ ∃ type v vs type' w ws, t.alternatives = some (type, v :: vs) ∧
      u.alternatives = some (type', w :: ws) ∧ vs.length = ws.length ∧ v.Matches w := by
  obtain ⟨v, rfl, -⟩ | ⟨flags, rfl⟩ := Tree.scalar_or_choice h <;> exact Iff.rfl

theorem Tree.same_leaf (h : t.alternatives = some a) :
    t.Same u ↔ ∃ type vs ws, t.alternatives = some (type, vs) ∧
      u.alternatives = some (type, ws) ∧ List.Forall₂ Scalar.Same vs ws := by
  obtain ⟨v, rfl, -⟩ | ⟨flags, rfl⟩ := Tree.scalar_or_choice h <;> exact Iff.rfl

theorem Tree.agree_leaf (h : t.alternatives = some a) :
    t.Agree u ↔ ∀ type v vs type' w ws, t.alternatives = some (type, v :: vs) →
      u.alternatives = some (type', w :: ws) →
        type = type' ∧ v.SameHeight w ∧ List.Forall₂ Scalar.Same vs ws := by
  obtain ⟨v, rfl, -⟩ | ⟨flags, rfl⟩ := Tree.scalar_or_choice h <;> exact Iff.rfl

end

/-! ## Types -/

theorem Scalar.type_ne (v : Scalar) : v.header.type ≠ Kind.struct.number ∧
    v.header.type ≠ Kind.object.number ∧ v.header.type ≠ Kind.array.number := by
  have hkind : v.kind ≠ .struct ∧ v.kind ≠ .object ∧ v.kind ≠ .array := by
    cases v <;> exact ⟨nofun, nofun, nofun⟩
  exact ⟨fun h => hkind.1 (Scalar.Kind.number_inj h), fun h => hkind.2.1 (Scalar.Kind.number_inj h),
    fun h => hkind.2.2 (Scalar.Kind.number_inj h)⟩

variable {t : Tree}

theorem Tree.valueHeader_ne {a : BitVec 32 × List Scalar} (h : t.alternatives = some a) :
    t.valueHeader.type ≠ Kind.struct.number ∧ t.valueHeader.type ≠ Kind.object.number ∧
      t.valueHeader.type ≠ Kind.array.number := by
  obtain ⟨v, rfl, -⟩ | ⟨flags, rfl⟩ := Tree.scalar_or_choice h
  · exact v.type_ne
  · rcases a.2 with _ | ⟨v, vs⟩
    · exact ⟨nofun, nofun, nofun⟩
    · exact v.type_ne

theorem Tree.kind_of_type {u : Tree} (ht : t.alternatives = none)
    (h : t.valueHeader.type = u.valueHeader.type) : u.alternatives = none ∧ t.kind = u.kind := by
  cases hu : u.alternatives with
  | some a =>
    obtain ⟨hstruct, hobject, harray⟩ := Tree.valueHeader_ne hu
    cases t with
    | array vs => exact absurd h.symm harray
    | struct ts => exact absurd h.symm hstruct
    | object type id ps => exact absurd h.symm hobject
    | scalar _ | choice _ _ _ => cases ht
  | none =>
    cases t <;> cases ht <;> cases u <;> cases hu <;> exact ⟨rfl, Scalar.Kind.number_inj h⟩

variable {type type' id : BitVec 32} {vs ws : List Scalar} {ts : Trees}

theorem Tree.count_eq (h : t.alternatives = some (type, vs)) : t.count = vs.length := by
  obtain ⟨v, rfl, -, rfl⟩ | ⟨flags, rfl⟩ := Tree.scalar_or_choice h <;> rfl

theorem Tree.valueHeader_eq {v : Scalar} (h : t.alternatives = some (type, v :: vs)) :
    t.valueHeader = v.header := by
  obtain ⟨w, rfl, -, hvs⟩ | ⟨flags, rfl⟩ := Tree.scalar_or_choice h
  · cases hvs
    rfl
  · rfl

theorem Tree.Matches.type_eq {u : Tree} (h : t.Matches u) :
    t.valueHeader.type = u.valueHeader.type := by
  cases t with
  | array vs => rw [show u = .array vs from h]
  | struct ts => exact h.elim
  | object type id ps =>
    obtain ⟨_, _, _, rfl, -⟩ := h
    rfl
  | scalar _ | choice _ _ _ =>
    obtain ⟨_, v, _, _, w, _, ht, hu, -, hmatch⟩ := (Tree.matches_leaf rfl).mp h
    rw [Tree.valueHeader_eq ht, Tree.valueHeader_eq hu, hmatch.1]

/-! ## Pods in containers -/

section

variable {m : Memory} {p : ℕ} {t : Tree}

theorem Props.entries_written {ps : Props} {a b : ℕ} (hlaid : Laid m a (ps.entries a) b) (hok : ps.Ok)
    (hdistinct : ps.Distinct) {e : Entry} (he : e ∈ ps.entries a) :
    Written m (e.at_ + 8) e.value := by
  match ps with
  | .nil => cases he
  | .cons key flags t ps =>
    rcases mem_cons.mp he with rfl | he
    · have hlies := hlaid.1
      have haligned := hlies.aligned
      exact ⟨hlies.value_at, by show (a + 8) % 8 = 0; omega, hlies.small, hok.1, hdistinct.1⟩
    · have hrest := hlaid.2
      rw [Entry.length_bytes] at hrest
      exact Props.entries_written hrest hok.2 hdistinct.2 he

/-- The pods of a struct, from the address `p` on. -/
structure Row (m : Memory) (p : ℕ) (ts : Trees) : Prop where
  at_ : m.At p ts.bytes
  aligned : p % 8 = 0
  small : ts.bytes.length < maxSize
  ok : ts.Ok
  distinct : ts.Distinct

theorem Row.head (h : Row m p (.cons t ts)) : Written m p t := by
  have hat := h.at_
  have hsmall := h.small
  have hlt := t.body_lt
  rw [Trees.bytes_cons] at hat hsmall
  rw [length_append] at hsmall
  exact ⟨hat.left, h.aligned, by omega, h.ok.1, h.distinct.1⟩

theorem Row.tail (h : Row m p (.cons t ts)) : Row m (p + t.bytes.length) ts := by
  have hat := h.at_
  have hsmall := h.small
  have haligned := h.aligned
  have hmod := t.length_bytes
  rw [Trees.bytes_cons] at hat hsmall
  rw [length_append] at hsmall
  exact ⟨hat.right, by omega, by omega, h.ok.2, h.distinct.2⟩

theorem Written.row (h : Written m p (.struct ts)) : Row m (p + 8) ts := by
  have haligned := h.aligned
  exact ⟨h.body_at, by omega, h.small, h.ok, h.distinct⟩

theorem Written.objectAt {ps : Props} (h : Written m p (.object type id ps)) :
    ObjectAt m p (Tree.object type id ps).body.length (ps.entries (p + 16)) :=
  Pod.objectAt h.at_ h.aligned h.small h.distinct.1

theorem Written.bodySize_eq (h : Written m p t) : bodySize m podShape p = .ok t.body.length := by
  have hsize : bodySize m podShape p = (m.header p).map Header.size := by
    show (m.load p 8).map _ = ((m.load p 8).map _).map _
    cases m.load p 8 <;> rfl
  rw [hsize, h.header_eq]
  rfl

theorem Written.podNext_eq (h : Written m p t) : podNext m p = .ok (p + t.bytes.length) := by
  have hsmall : t.body.length < 2 ^ 20 := h.small
  have hlen : align (8 + t.body.length) = t.bytes.length := by
    rw [Tree.bytes, length_podBytes, align_eq (by omega)]
    omega
  rw [podNext, iterNext, h.bodySize_eq, Except.map]
  show Except.ok (ptroff p (align (8 + t.body.length))) = _
  rw [hlen, h.at_.1.ptroff_eq le_rfl]

theorem Written.podIsInside_eq (h : Written m p t) (q size : ℕ) :
    ∃ r, podIsInside m q size p = .ok r := by
  rw [podIsInside, isInside]
  cases hin : ptrInsideAligned q size p podShape.header with
  | none => exact ⟨false, rfl⟩
  | some r =>
    dsimp only
    rw [h.bodySize_eq, Except.map]
    exact ⟨_, rfl⟩

theorem podIsInside_end {q size : ℕ} (h : p = q + 8 + size) : podIsInside m q size p = .ok false :=
  Laid.isInside_end (by omega)

end

/-! ## The comparison -/

section

variable {m₁ m₂ : Memory} {p₁ p₂ n : ℕ}

theorem ObjectAt.propsFound_eq {m m' : Memory} {o size : ℕ} {es es' : List Entry}
    (h : ObjectAt m o size es) (hes' : ∀ e ∈ es', e.Lies m' e.at_) (start : Option ℕ)
    (hstart : ∀ a, start = some a → ∃ e ∈ es, e.at_ = a) :
    ∃ r, propsFound m m' o (rounds size) start (es'.map Entry.at_) = .ok r ∧
      (r = true ↔ ∀ e ∈ es', e.key ∈ es.map Entry.key) := by
  induction es' generalizing start with
  | nil => exact ⟨true, rfl, by simp⟩
  | cons e' es' ih =>
    have hlies := hes' e' mem_cons_self
    rw [map_cons, propsFound, hlies.property_eq]
    simp only [bind, Except.bind]
    rw [h.findProp_eq e'.key hstart]
    cases hfound : entryOf e'.key es with
    | none =>
      refine ⟨false, rfl, ⟨by simp, fun hall => ?_⟩⟩
      obtain ⟨e, he, hkey⟩ := mem_map.mp (hall e' mem_cons_self)
      exact absurd (decide_eq_true hkey) (find?_eq_none.mp hfound e he)
    | some e =>
      obtain ⟨he, hkey⟩ := entryOf_some hfound
      obtain ⟨r, hr, hiff⟩ := ih (fun f hf => hes' f (mem_cons_of_mem e' hf))
        (some e.at_) fun a ha => ⟨e, he, Option.some.inj ha⟩
      refine ⟨r, hr, hiff.trans ⟨fun hall f hf => ?_, fun hall f hf =>
        hall f (mem_cons_of_mem e' hf)⟩⟩
      rcases mem_cons.mp hf with rfl | hf
      · exact hkey ▸ mem_map_of_mem he
      · exact hall f hf

variable {t u : Tree}

theorem compare_differ (ht : Written m₁ p₁ t) (hu : Written m₂ p₂ u)
    (h : t.count ≠ u.count ∨ t.valueHeader.type ≠ u.valueHeader.type ∨ t.count < 1) :
    compare m₁ m₂ (n + 1) p₁ p₂ = .ok (-eInval) := by
  obtain ⟨v₁, hv₁, hs₁, -⟩ := ht.getValues_eq
  obtain ⟨v₂, hv₂, hs₂, -⟩ := hu.getValues_eq
  simp only [compare, hv₁, hv₂, bind, Except.bind, hs₁.header, hs₂.header, hs₁.count, hs₂.count]
  by_cases hcount : t.count ≠ u.count
  · rw [if_pos hcount]
    rfl
  · rw [if_neg hcount]
    by_cases htype : t.valueHeader.type ≠ u.valueHeader.type
    · rw [if_pos htype]
      rfl
    · rw [if_neg htype, if_pos ((h.resolve_left hcount).resolve_left htype)]
      rfl

theorem compare_switch (ht : Written m₁ p₁ t) (hu : Written m₂ p₂ u) (hcount : t.count = u.count)
    (htype : t.valueHeader.type = u.valueHeader.type) (hpos : 1 ≤ t.count) :
    ∃ v₁ v₂, compare m₁ m₂ (n + 1) p₁ p₂ =
        compareSwitch m₁ m₂ (compare m₁ m₂ n) v₁.at_ v₂.at_ t.valueHeader u.valueHeader ∧
      Written.Seen m₁ t v₁ ∧ Written.Seen m₂ u v₂ ∧
      (t.kind ≠ .choice → v₁.at_ = p₁) ∧ (u.kind ≠ .choice → v₂.at_ = p₂) := by
  obtain ⟨v₁, hv₁, hs₁, hat₁⟩ := ht.getValues_eq
  obtain ⟨v₂, hv₂, hs₂, hat₂⟩ := hu.getValues_eq
  refine ⟨v₁, v₂, ?_, hs₁, hs₂, hat₁, hat₂⟩
  simp only [compare, hv₁, hv₂, bind, Except.bind, hs₁.header, hs₂.header, hs₁.count, hs₂.count]
  rw [if_neg (not_not_intro hcount), if_neg (not_not_intro htype), if_neg (Nat.not_lt.mpr hpos)]

theorem compare_values (ht : Written m₁ p₁ t) (hu : Written m₂ p₂ u) {v w : Scalar}
    (hv : t.alternatives = some (type, v :: vs)) (hw : u.alternatives = some (type', w :: ws))
    (hlen : vs.length = ws.length) (htype : v.header.type = w.header.type) :
    ∃ r, compare m₁ m₂ (n + 1) p₁ p₂ = .ok r ∧ (r = 0 ↔ v.Matches w) := by
  have hheader₁ : t.valueHeader = v.header := Tree.valueHeader_eq hv
  have hheader₂ : u.valueHeader = w.header := Tree.valueHeader_eq hw
  have hcount : t.count = u.count := by
    rw [Tree.count_eq hv, Tree.count_eq hw, length_cons, length_cons, hlen]
  obtain ⟨s₁, s₂, hcompare, hseen₁, hseen₂, -, -⟩ := compare_switch (n := n) ht hu hcount
    (by rw [hheader₁, hheader₂, htype]) (by rw [Tree.count_eq hv, length_cons]; omega)
  obtain ⟨hstruct, hobject, harray⟩ := v.type_ne
  rw [hcompare, hheader₁, hheader₂, compareSwitch, if_neg hstruct, if_neg hobject, if_neg harray]
  by_cases hsize : v.header.size = w.header.size
  · have hload₁ : m₁.load (ptroff s₁.at_ 8) v.header.size = .ok v.body := hseen₁.value_load hv
    have hload₂ : m₂.load (ptroff s₂.at_ 8) v.header.size = .ok w.body := by
      rw [hsize]
      exact hseen₂.value_load hw
    have hfits : ¬ v.header.size < typeSize v.header.type :=
      Nat.not_lt.mpr (Written.typeSize_scalar v)
    rw [if_neg (not_not_intro hsize), if_neg hfits, hload₁, hload₂]
    exact ⟨_, rfl, fun h => ⟨congrArg₂ Header.mk hsize htype, h⟩, fun h => h.2⟩
  · rw [if_pos hsize]
    exact ⟨_, rfl, fun h => absurd h (by decide), fun h => absurd (congrArg Header.size h.1) hsize⟩

theorem compare_struct {us : Trees} (ht : Written m₁ p₁ (.struct ts))
    (hu : Written m₂ p₂ (.struct us)) :
    compare m₁ m₂ (n + 1) p₁ p₂ = structLoop m₁ m₂ (compare m₁ m₂ n) p₁ ts.bytes.length p₂
      us.bytes.length (rounds ts.bytes.length) (p₁ + 8) (p₂ + 8) := by
  obtain ⟨v₁, v₂, hcompare, hs₁, hs₂, hat₁, hat₂⟩ :=
    compare_switch (n := n) ht hu rfl rfl (Nat.le_refl 1)
  have hoff₁ : ptroff v₁.at_ 8 = v₁.at_ + 8 := hs₁.holds.ptroff_eq le_rfl
  have hoff₂ : ptroff v₂.at_ 8 = v₂.at_ + 8 := hs₂.holds.ptroff_eq le_rfl
  rw [hcompare, compareSwitch, if_pos (by rfl), hoff₁, hoff₂, hat₁ nofun, hat₂ nofun]
  rfl

theorem compare_object {id' : BitVec 32} {ps qs : Props} (ht : Written m₁ p₁ (.object type id ps))
    (hu : Written m₂ p₂ (.object type' id' qs)) : compare m₁ m₂ (n + 1) p₁ p₂ = do
      let res ← propsLoop m₁ m₂ (compare m₁ m₂ n) p₂
        (rounds (Tree.object type' id' qs).body.length) none ((ps.entries (p₁ + 16)).map Entry.at_)
      if res ≠ 0 then return res
      else
        return if ← propsFound m₁ m₂ p₁ (rounds (Tree.object type id ps).body.length) none
            ((qs.entries (p₂ + 16)).map Entry.at_)
          then 0 else -1 := by
  obtain ⟨v₁, v₂, hcompare, -, -, hat₁, hat₂⟩ :=
    compare_switch (n := n) ht hu rfl rfl (Nat.le_refl 1)
  rw [hcompare, compareSwitch, if_neg (by nofun), if_pos (by rfl), hat₁ nofun, hat₂ nofun]
  simp only [Tree.valueHeader, Tree.header, ht.objectAt.foreach_eq, hu.objectAt.foreach_eq, bind,
    Except.bind]

theorem Written.load_eq (ht : Written m₁ p₁ t) :
    m₁.load p₁ (8 + t.header.size) = .ok (t.header.bytes ++ t.body) := by
  have hat := ht.at_
  exact hat.left.load (by rw [length_append, length_bytes]; rfl)

theorem podMemcmp_eq (ht : Written m₁ p₁ t) (hu : Written m₂ p₂ u)
    (hkind : t.kind = u.kind) : ∃ r, podMemcmp m₁ m₂ p₁ p₂ = .ok r ∧ (r = 0 ↔ t.body = u.body) := by
  simp only [podMemcmp, ht.header_eq, hu.header_eq, bind, Except.bind]
  by_cases hsize : t.body.length = u.body.length
  · have hheader : t.header = u.header := congrArg₂ Header.mk hsize (congrArg Kind.number hkind)
    have hzero : memcmp (t.header.bytes ++ t.body) (u.header.bytes ++ u.body) = 0 ↔
        t.body = u.body := by
      rw [memcmp_eq_zero (by rw [length_append, length_append, hsize, hheader]), hheader,
        append_cancel_left_eq]
    rw [if_pos (show t.header.size = u.header.size from hsize), ht.load_eq, hu.load_eq]
    dsimp only
    by_cases heq : t.body = u.body
    · rw [if_pos (hzero.mpr heq)]
      exact ⟨0, rfl, fun _ => heq, fun _ => rfl⟩
    · rw [if_neg fun h => heq (hzero.mp h)]
      exact ⟨1, rfl, fun h => absurd h (by decide), fun h => absurd h heq⟩
  · rw [if_neg (show ¬ t.header.size = u.header.size from hsize)]
    exact ⟨1, rfl, fun h => absurd h (by decide), fun h => absurd (congrArg List.length h) hsize⟩

theorem compare_array (ht : Written m₁ p₁ (.array vs)) (hu : Written m₂ p₂ (.array ws)) :
    ∃ r, compare m₁ m₂ (n + 1) p₁ p₂ = .ok r ∧ (r = 0 ↔ vs = ws) := by
  obtain ⟨v₁, v₂, hcompare, -, -, hat₁, hat₂⟩ :=
    compare_switch (n := n) ht hu rfl rfl (Nat.le_refl 1)
  obtain ⟨r, hr, hzero⟩ := podMemcmp_eq ht hu rfl
  rw [hcompare, compareSwitch, if_neg (by nofun), if_neg (by nofun), if_pos (by rfl), hat₁ nofun,
    hat₂ nofun]
  refine ⟨r, hr, fun h => ?_, fun h => hzero.mpr (by rw [h])⟩
  -- the bytes of the one array are read as either of the two
  have hbody : valuesBytes vs = valuesBytes ws := hzero.mp h
  have hread := readArray_eq ht.ok ht.body_at ht.small
  have hread' : readLeaf m₁ ⟨(valuesBytes ws).length, Kind.array.number⟩ (p₁ + 8) =
      .ok (.array ws) := readArray_eq hu.ok (hbody ▸ ht.body_at) hu.small
  rw [hbody, hread'] at hread
  exact (Tree.array.inj (Except.ok.inj hread)).symm

theorem compare_leaf (hvs : t.alternatives = some (type, vs))
    (ht : Written m₁ p₁ t) (hu : Written m₂ p₂ u) :
    ∃ r, compare m₁ m₂ (n + 1) p₁ p₂ = .ok r ∧ (r = 0 ↔ ∃ type v vs type' w ws,
      t.alternatives = some (type, v :: vs) ∧ u.alternatives = some (type', w :: ws) ∧
        vs.length = ws.length ∧ v.Matches w) := by
  by_cases hsame : t.count = u.count ∧ t.valueHeader.type = u.valueHeader.type ∧ 1 ≤ t.count
  · obtain ⟨hcount, htype, hpos⟩ := hsame
    rw [Tree.count_eq hvs] at hcount hpos
    obtain ⟨v, vs, rfl⟩ := exists_cons_of_length_pos hpos
    obtain ⟨hstruct, hobject, harray⟩ := Tree.valueHeader_ne hvs
    rw [htype] at hstruct hobject harray
    -- the other pod is a value or a choice as well
    have halt : ∃ type' ws, u.alternatives = some (type', ws) := by
      cases u with
      | scalar w | choice type' flags ws => exact ⟨_, _, rfl⟩
      | array ws => exact absurd rfl harray
      | struct us => exact absurd rfl hstruct
      | object type' id qs => exact absurd rfl hobject
    obtain ⟨type', ws, hws⟩ := halt
    rw [Tree.count_eq hws] at hcount
    obtain ⟨w, ws, rfl⟩ := exists_cons_of_length_pos (hcount ▸ hpos)
    have hlen : vs.length = ws.length := Nat.succ.inj hcount
    rw [Tree.valueHeader_eq hvs, Tree.valueHeader_eq hws] at htype
    obtain ⟨r, hr, hzero⟩ := compare_values (n := n) ht hu hvs hws hlen htype
    refine ⟨r, hr, fun h => ⟨_, _, _, _, _, _, hvs, hws, hlen, hzero.mp h⟩, fun h => hzero.mpr ?_⟩
    obtain ⟨_, _, _, _, _, _, ht', hu', -, hmatch⟩ := h
    rw [hvs] at ht'
    rw [hws] at hu'
    cases ht'
    cases hu'
    exact hmatch
  · have hdiffer : t.count ≠ u.count ∨ t.valueHeader.type ≠ u.valueHeader.type ∨ t.count < 1 := by
      by_contra hno
      push Not at hno
      exact hsame hno
    refine ⟨_, compare_differ ht hu hdiffer, fun h => absurd h (by decide), fun h => ?_⟩
    obtain ⟨_, v, vs', _, w, ws', ht', hu', hlen, hmatch⟩ := h
    refine absurd ⟨?_, ?_, ?_⟩ hsame
    · rw [Tree.count_eq ht', Tree.count_eq hu', length_cons, length_cons, hlen]
    · rw [Tree.valueHeader_eq ht', Tree.valueHeader_eq hu', hmatch.1]
    · rw [Tree.count_eq ht', length_cons]
      exact Nat.le_add_left 1 _

/-! ## The recursion -/

mutual

/-- **`spa_pod_compare` decides `Tree.Matches`.** -/
theorem Tree.compare_spec (t : Tree) {u : Tree} {p₁ p₂ n : ℕ} (ht : Written m₁ p₁ t)
    (hu : Written m₂ p₂ u) (hn : t.bytes.length ≤ n) :
    ∃ r, compare m₁ m₂ n p₁ p₂ = .ok r ∧ (r = 0 ↔ t.Matches u) := by
  have hpos := t.body_lt
  obtain ⟨n, rfl⟩ : ∃ k, n = k + 1 := ⟨n - 1, by omega⟩
  by_cases htype : t.valueHeader.type ≠ u.valueHeader.type
  · exact ⟨_, compare_differ ht hu (.inr (.inl htype)), fun h => absurd h (by decide),
      fun h => absurd h.type_eq htype⟩
  rw [not_not] at htype
  cases t with
  | array vs =>
    obtain ⟨hnone, hkind⟩ := Tree.kind_of_type rfl htype
    cases u <;> cases hnone <;> cases hkind
    obtain ⟨r, hr, hzero⟩ := compare_array ht hu
    exact ⟨r, hr, hzero.trans ⟨fun h => by rw [Tree.Matches, h], fun h => (Tree.array.inj h).symm⟩⟩
  | struct ts =>
    obtain ⟨hnone, hkind⟩ := Tree.kind_of_type rfl htype
    cases u <;> cases hnone <;> cases hkind
    have hsize : (Tree.struct ts).body.length = ts.bytes.length := rfl
    obtain ⟨r, hr, hne⟩ := ts.structLoop_spec ht.row hu.row rfl rfl (n := n) (by omega)
      (k := rounds ts.bytes.length) (by unfold rounds; omega)
    rw [compare_struct ht hu]
    exact ⟨r, hr, fun h => absurd h hne, False.elim⟩
  | object type id ps =>
    obtain ⟨hnone, hkind⟩ := Tree.kind_of_type rfl htype
    cases u <;> cases hnone <;> cases hkind
    next type' id' qs =>
    have hlen := Tree.length_object type id ps
    obtain ⟨r, hr, hzero⟩ := ps.propsLoop_spec ht.objectAt.laid ht.ok ht.distinct.2
      hu.objectAt hu.ok hu.distinct.2 (n := n) (by omega) none nofun
    obtain ⟨r', hr', hfound⟩ := ht.objectAt.propsFound_eq
      (fun e he => hu.objectAt.laid.mem he) none nofun
    rw [← forall_mem_map (P := (· ∈ _)), qs.keys_entries, ps.keys_entries] at hfound
    rw [compare_object ht hu]
    simp only [bind, Except.bind, hr, hr']
    by_cases hres : r = 0
    · rw [if_neg (not_not_intro hres)]
      refine ⟨_, rfl, fun h => ?_, fun h => ?_⟩
      · refine ⟨type', id', qs, rfl, hzero.mp hres, hfound.mp ?_⟩
        by_contra hfalse
        rw [Bool.not_eq_true] at hfalse
        rw [hfalse] at h
        exact absurd h (by decide)
      · obtain ⟨_, _, _, heq, -, hkeys⟩ := h
        cases heq
        rw [hfound.mpr hkeys]
        rfl
    · rw [if_pos hres]
      refine ⟨r, rfl, fun h => absurd h hres, fun h => ?_⟩
      obtain ⟨_, _, _, heq, hprops, -⟩ := h
      cases heq
      exact hzero.mpr hprops
  | scalar _ | choice _ _ _ =>
    exact compare_leaf rfl ht hu

theorem Trees.structLoop_spec (ts : Trees) {us : Trees} {p₁ p₂ pod₁ size₁ pod₂ size₂ n k : ℕ}
    (hts : Row m₁ p₁ ts) (hus : Row m₂ p₂ us) (hend₁ : p₁ + ts.bytes.length = pod₁ + 8 + size₁)
    (hend₂ : p₂ + us.bytes.length = pod₂ + 8 + size₂) (hn : ts.bytes.length ≤ n)
    (hk : ts.bytes.length / 8 < k) :
    ∃ r, structLoop m₁ m₂ (compare m₁ m₂ n) pod₁ size₁ pod₂ size₂ k p₁ p₂ = .ok r ∧ r ≠ 0 := by
  obtain ⟨k, rfl⟩ : ∃ j, k = j + 1 := ⟨k - 1, by omega⟩
  cases ts with
  | nil =>
    simp only [structLoop, podIsInside_end (p := p₁) hend₁, bind, Except.bind]
    exact ⟨_, rfl, by decide⟩
  | cons t ts =>
    obtain ⟨r₁, hr₁⟩ := hts.head.podIsInside_eq pod₁ size₁
    simp only [structLoop, hr₁, bind, Except.bind]
    cases r₁ with
    | false => exact ⟨_, rfl, by decide⟩
    | true =>
      cases us with
      | nil =>
        rw [podIsInside_end (p := p₂) hend₂]
        exact ⟨_, rfl, by decide⟩
      | cons u us =>
        obtain ⟨r₂, hr₂⟩ := hus.head.podIsInside_eq pod₂ size₂
        rw [hr₂]
        cases r₂ with
        | false => exact ⟨_, rfl, by decide⟩
        | true =>
          rw [Trees.bytes_cons, length_append] at hend₁ hend₂ hn hk
          have hmin : 8 ≤ t.bytes.length := by
            rw [Tree.bytes, length_podBytes]
            omega
          obtain ⟨r, hr, -⟩ := t.compare_spec hts.head hus.head (n := n) (by omega)
          dsimp only
          rw [if_pos rfl, hr]
          dsimp only
          by_cases hres : r ≠ 0
          · rw [if_pos hres]
            exact ⟨r, rfl, hres⟩
          · rw [if_neg hres, hts.head.podNext_eq, hus.head.podNext_eq]
            exact ts.structLoop_spec hts.tail hus.tail (by omega) (by omega) (by omega) (by omega)

theorem Props.propsLoop_spec (ps : Props) {qs : Props} {a b o₂ size₂ n : ℕ}
    (hlaid : Laid m₁ a (ps.entries a) b) (hok : ps.Ok) (hdistinct : ps.Distinct)
    (hobject : ObjectAt m₂ o₂ size₂ (qs.entries (o₂ + 16))) (hok' : qs.Ok)
    (hdistinct' : qs.Distinct) (hn : ps.bytes.length ≤ n) (start : Option ℕ)
    (hstart : ∀ x, start = some x → ∃ e ∈ qs.entries (o₂ + 16), e.at_ = x) :
    ∃ r, propsLoop m₁ m₂ (compare m₁ m₂ n) o₂ (rounds size₂) start
      ((ps.entries a).map Entry.at_) = .ok r ∧ (r = 0 ↔ ps.Matches qs) := by
  cases ps with
  | nil => exact ⟨0, rfl, fun _ => trivial, fun _ => rfl⟩
  | cons key flags t ps =>
    have hlies := hlaid.1
    have hlen : (Props.cons key flags t ps).bytes.length = 8 + (t.bytes.length + ps.bytes.length) := by
      simp only [Props.bytes_cons, length_append, length_toLe]
    have hvalue : Written m₁ (a + 8) t :=
      Props.entries_written hlaid hok hdistinct mem_cons_self
    have hfind := hobject.findProp_eq key hstart
    have hget := qs.get?_eq key (o₂ + 16)
    simp only [Props.entries, map_cons, propsLoop, hlies.property_eq, bind, Except.bind, hfind]
    cases hfound : entryOf key (qs.entries (o₂ + 16)) with
    | none =>
      rw [hfound] at hget
      refine ⟨1, rfl, fun h => absurd h (by decide), fun h => ?_⟩
      rw [Props.Matches, ← hget] at h
      obtain ⟨⟨u, hu, -⟩, -⟩ := h
      cases hu
    | some e =>
      rw [hfound] at hget
      obtain ⟨he, -⟩ := entryOf_some hfound
      have hvalue' := Props.entries_written hobject.laid hok' hdistinct' he
      have hoff₁ : ptroff a 8 = a + 8 :=
        hlies.bytes.1.ptroff_eq (by rw [Entry.length_bytes]; omega)
      have hoff₂ : ptroff e.at_ 8 = e.at_ + 8 :=
        (hobject.laid.mem he).bytes.1.ptroff_eq (by rw [Entry.length_bytes]; omega)
      obtain ⟨r, hr, hzero⟩ := t.compare_spec hvalue hvalue' (n := n) (by omega)
      simp only [Option.map_some, hoff₁, hoff₂, hr]
      by_cases hres : r = 0
      · have hrest := hlaid.2
        rw [Entry.length_bytes] at hrest
        obtain ⟨r', hr', hzero'⟩ := ps.propsLoop_spec hrest hok.2 hdistinct.2 hobject hok'
          hdistinct' (n := n) (by omega) (some e.at_)
          (fun x hx => ⟨e, he, Option.some.inj hx⟩)
        rw [if_neg (not_not_intro hres)]
        refine ⟨r', hr', fun h => ?_, fun h => ?_⟩
        · exact ⟨⟨e.value, hget.symm, hzero.mp hres⟩, hzero'.mp h⟩
        · exact hzero'.mpr h.2
      · rw [if_pos hres]
        refine ⟨r, rfl, fun h => absurd h hres, fun h => ?_⟩
        rw [Props.Matches, ← hget] at h
        obtain ⟨⟨u, hu, hmatch⟩, -⟩ := h
        cases hu
        exact hzero.mpr hmatch

end

end

/-! ## Equality -/

theorem Props.keys_of_get? {ps : Props} {key : BitVec 32} (h : ps.get? key = some t) :
    key ∈ ps.keys := by
  rw [← ps.get?_eq key 0] at h
  obtain ⟨e, hfound, -⟩ := Option.map_eq_some_iff.mp h
  obtain ⟨he, rfl⟩ := entryOf_some hfound
  exact ps.keys_entries 0 ▸ mem_map_of_mem he

theorem Tree.All.values {P : Scalar → Prop} (h : t.All P) (hvs : t.alternatives = some (type, vs)) :
    ∀ v ∈ vs, P v := by
  obtain ⟨v, rfl, -, rfl⟩ | ⟨flags, rfl⟩ := Tree.scalar_or_choice hvs
  · exact forall_mem_singleton.mpr h
  · exact h

theorem Tree.Ok.values (h : t.Ok) (hvs : t.alternatives = some (type, vs)) : ∀ v ∈ vs, v.Ok := by
  obtain ⟨v, rfl, -, rfl⟩ | ⟨flags, rfl⟩ := Tree.scalar_or_choice hvs
  · exact forall_mem_singleton.mpr h
  · exact fun v hv => (h.1 v hv).1

theorem Tree.matches_self_leaf (hvs : t.alternatives = some (type, vs)) (hok : t.Ok)
    (hall : t.All Scalar.Comparable) : t.Matches t ↔ vs ≠ [] := by
  rw [Tree.matches_leaf hvs]
  constructor
  · rintro ⟨_, v, vs', _, _, _, ht, -⟩ rfl
    rw [hvs] at ht
    cases ht
  · intro hne
    obtain ⟨v, vs, rfl⟩ := exists_cons_of_ne_nil hne
    refine ⟨type, v, vs, type, v, vs, hvs, hvs, rfl, rfl, ?_⟩
    exact Scalar.compare_self (hall.values hvs v mem_cons_self)
      (hok.values hvs v mem_cons_self)

mutual

theorem Tree.matches_self (t : Tree) (hok : t.Ok) (hdistinct : t.Distinct)
    (hall : t.All Scalar.Comparable) : t.Matches t ↔ t.Plain := by
  cases t with
  | scalar v =>
    exact (Tree.matches_self_leaf rfl hok hall).trans (iff_true_intro (cons_ne_nil v []))
  | array vs => exact iff_of_true rfl trivial
  | choice type flags vs => exact Tree.matches_self_leaf rfl hok hall
  | struct ts => exact Iff.rfl
  | object type id ps =>
    have hself := ps.matches_self hok hdistinct.2 hall hdistinct.1 fun _ _ h => h
    refine ⟨?_, fun h => ⟨type, id, ps, rfl, hself.mpr h, fun _ hkey => hkey⟩⟩
    rintro ⟨_, _, _, heq, hmatch, -⟩
    cases heq
    exact hself.mp hmatch

theorem Props.matches_self (ps : Props) (hok : ps.Ok) (hdistinct : ps.Distinct)
    (hall : ps.All Scalar.Comparable) {qs : Props} (hkeys : ps.keys.Nodup)
    (hget : ∀ key t, ps.get? key = some t → qs.get? key = some t) : ps.Matches qs ↔ ps.Plain := by
  cases ps with
  | nil => exact Iff.rfl
  | cons key flags t ps =>
    have hrest : ps.Matches qs ↔ ps.Plain := by
      refine ps.matches_self hok.2 hdistinct.2 hall.2 (nodup_cons.mp hkeys).2 fun k u hu => ?_
      apply hget
      rw [Props.get?, if_neg]
      · exact hu
      · rintro rfl
        exact (nodup_cons.mp hkeys).1 (Props.keys_of_get? hu)
    refine and_congr ?_ hrest
    rw [hget key t (if_pos rfl)]
    simpa using t.matches_self hok.1 hdistinct.1 hall.1

end

theorem Props.Ok.get? {ps : Props} (h : ps.Ok) {key : BitVec 32} (hget : ps.get? key = some t) :
    t.Ok := by
  match ps with
  | .nil => cases hget
  | .cons k flags u ps =>
    rw [Props.get?] at hget
    split_ifs at hget with hkey
    · cases hget
      exact h.1
    · exact Props.Ok.get? h.2 hget

theorem Tree.same_of_matches_leaf {u : Tree} (hvs : t.alternatives = some (type, vs))
    (h : t.Matches u) (hok : t.Ok) (hok' : u.Ok) (hall : t.All Scalar.Comparable) :
    t.Same u ↔ t.Agree u := by
  rw [Tree.matches_leaf hvs] at h
  obtain ⟨type, v, vs, type', w, ws, ht, hu, -, hmatch⟩ := h
  rw [Tree.same_leaf hvs, Tree.agree_leaf hvs, ht, hu]
  constructor
  · rintro ⟨_, _, _, ⟨⟩, ⟨⟩, hsame⟩ _ _ _ _ _ _ ⟨⟩ ⟨⟩
    obtain ⟨hhead, htail⟩ := forall₂_cons.mp hsame
    exact ⟨rfl, hhead.sameHeight, htail⟩
  · intro hagree
    obtain ⟨rfl, hheight, htail⟩ := hagree _ _ _ _ _ _ rfl rfl
    have hhead : v.Same w := hmatch.same (hall.values ht v mem_cons_self) hheight
      (hok.values ht v mem_cons_self) (hok'.values hu w mem_cons_self)
    exact ⟨type, v :: vs, w :: ws, rfl, rfl, .cons hhead htail⟩

mutual

/-- **What is compared equal is the same** exactly if what is not compared agrees. -/
theorem Tree.same_of_matches (t : Tree) {u : Tree} (h : t.Matches u) (hok : t.Ok) (hok' : u.Ok)
    (hall : t.All Scalar.Comparable) : t.Same u ↔ t.Agree u := by
  cases t with
  | scalar _ | choice _ _ _ => exact Tree.same_of_matches_leaf rfl h hok hok' hall
  | array vs =>
    refine iff_of_true ⟨vs, h, forall₂_same.mpr fun v _ => Scalar.Same.refl v⟩ ?_
    rintro _ _ _ _ _ _ ⟨⟩
  | struct ts => exact h.elim
  | object type id ps =>
    obtain ⟨type', id', qs, rfl, hmatch, hkeys⟩ := h
    have hprops := ps.same_of_matches hmatch hok hok' hall
    constructor
    · rintro ⟨_, ⟨⟩, hsame, -⟩ _ _ _ ⟨⟩
      exact ⟨rfl, rfl, hprops.mp hsame⟩
    · intro hagree
      obtain ⟨rfl, rfl, hagree'⟩ := hagree type' id' qs rfl
      exact ⟨qs, rfl, hprops.mpr hagree', hkeys⟩

theorem Props.same_of_matches (ps : Props) {qs : Props} (h : ps.Matches qs) (hok : ps.Ok)
    (hok' : qs.Ok) (hall : ps.All Scalar.Comparable) : ps.Same qs ↔ ps.Agree qs := by
  cases ps with
  | nil => exact Iff.rfl
  | cons key flags t ps =>
    obtain ⟨⟨u, hu, hmatch⟩, hrest⟩ := h
    refine and_congr ?_ (ps.same_of_matches hrest hok.2 hok' hall.2)
    simpa [hu] using t.same_of_matches hmatch hok.1 (hok'.get? hu) hall.1

end

/-! ## `spa_pod_compare` -/

section

variable {m₁ m₂ : Memory} {p₁ p₂ : ℕ} {t u : Tree}

theorem podCompare_spec (ht : Written m₁ p₁ t) (hu : Written m₂ p₂ u) :
    ∃ r, podCompare m₁ m₂ p₁ p₂ = .ok r ∧ (r = 0 ↔ t.Matches u) := by
  have hholds := ht.at_.1
  obtain ⟨hbase, htop⟩ := hholds
  exact t.compare_spec ht hu (by omega)

/-- **What the comparison decides.** It has a result. A pod is compared equal to itself exactly if
there is no struct in it and no choice without values. That two pods are compared equal means that
they are the same, exactly if what is not compared agrees where all that is compared does. -/
theorem podCompare_decides (ht : Written m₁ p₁ t) (hu : Written m₂ p₂ u)
    (hall : t.All Scalar.Comparable) : (∃ r, podCompare m₁ m₂ p₁ p₂ = .ok r) ∧
      (podCompare m₁ m₁ p₁ p₁ = .ok 0 ↔ t.Plain) ∧
      ((podCompare m₁ m₂ p₁ p₂ = .ok 0 → t.Same u) ↔ (t.Matches u → t.Agree u)) := by
  obtain ⟨r, hr, hzero⟩ := podCompare_spec ht hu
  obtain ⟨r', hr', hzero'⟩ := podCompare_spec ht ht
  rw [hr, hr', Except.ok.injEq, Except.ok.injEq, hzero, hzero']
  exact ⟨⟨r, rfl⟩, t.matches_self ht.ok ht.distinct hall,
    forall_congr' fun h => t.same_of_matches h ht.ok hu.ok hall⟩

end

def Tree.memory (t : Tree) (h : t.bytes.length < 2 ^ 32) : Memory :=
  ⟨0, t.bytes, h, by omega⟩

theorem Tree.memory_at (t : Tree) (h : t.bytes.length < 2 ^ 32) : (t.memory h).At 0 t.bytes := by
  refine ⟨⟨le_rfl, le_rfl⟩, ?_⟩
  show (t.bytes.drop 0).take t.bytes.length = t.bytes
  rw [drop_zero, take_length]

def oneStruct : Tree := .struct (.cons (.scalar (.int 1)) .nil)

/-- The choice of 1 or `n`. -/
def oneOr (n : BitVec 32) : Tree := .choice 3 0 [.int 1, .int 1, .int n]

theorem oneStruct_written : Written (oneStruct.memory (by decide)) 0 oneStruct :=
  ⟨oneStruct.memory_at _, rfl, by decide, ⟨trivial, trivial⟩, ⟨trivial, trivial⟩⟩

theorem oneOr_written (n : BitVec 32) : Written ((oneOr n).memory (by
    rw [Tree.bytes, length_podBytes, oneOr, length_choice]; simp [Scalar.body])) 0 (oneOr n) := by
  refine ⟨Tree.memory_at _ _, rfl, ?_, ⟨?_, ?_⟩, trivial⟩
  · rw [oneOr, length_choice]
    simp [Scalar.body, maxSize]
  · intro v hv
    simp only [mem_cons, not_mem_nil, or_false] at hv
    rcases hv with rfl | rfl | rfl <;> exact ⟨trivial, rfl, cons_ne_nil _ _⟩
  · exact .inr ⟨Nat.le_of_ble_eq_true rfl, Nat.le_of_ble_eq_true rfl⟩

theorem oneOr_comparable (n : BitVec 32) : (oneOr n).All Scalar.Comparable := by
  intro v hv
  simp only [mem_cons, not_mem_nil, or_false] at hv
  rcases hv with rfl | rfl | rfl <;> trivial

/-- A struct is not equal to itself, and the choice of 1 or 2 is equal to the choice of 1 or 3. -/
theorem podCompare_wrong :
    (∃ m p t, Written m p t ∧ t.All Scalar.Comparable ∧ podCompare m m p p = .ok (-eInval)) ∧
      ∃ m₁ m₂ p t u, Written m₁ p t ∧ Written m₂ p u ∧ t.All Scalar.Comparable ∧
        u.All Scalar.Comparable ∧ podCompare m₁ m₂ p p = .ok 0 ∧ ¬ t.Same u := by
  refine ⟨⟨_, 0, oneStruct, oneStruct_written, ⟨trivial, trivial⟩, by decide +kernel⟩, _, _, 0,
    oneOr 2, oneOr 3, oneOr_written 2, oneOr_written 3, oneOr_comparable 2, oneOr_comparable 3,
    by decide +kernel, fun hsame => ?_⟩
  obtain ⟨type, vs, ws, ht, hu, hall⟩ := (Tree.same_leaf (t := oneOr 2) rfl).mp hsame
  cases ht
  cases hu
  rcases hall with _ | ⟨-, _ | ⟨-, _ | ⟨h, -⟩⟩⟩
  exact absurd (Scalar.int.inj h) (by decide)

/-- An object with a fraction. -/
def ratio (n d : BitVec 32) : Tree := .object 7 1 (.cons 2 0 (.scalar (.fraction n d)) .nil)

theorem length_ratio (n d : BitVec 32) : (ratio n d).body.length = 32 := by
  simp [ratio, Props.bytes, length_podBytes, Tree.body, Scalar.body]

theorem ratio_written (n d : BitVec 32) : Written ((ratio n d).memory (by
    rw [Tree.bytes, length_podBytes, length_ratio]; decide)) 0 (ratio n d) :=
  ⟨Tree.memory_at _ _, rfl, by rw [length_ratio]; decide, ⟨trivial, trivial⟩,
    ⟨by simp [Props.keys], trivial, trivial⟩⟩

/-- An object with one half is equal to itself, and the same as one with two quarters. -/
theorem podCompare_decides_half :
    (∃ m, Written m 0 (ratio 1 2) ∧ podCompare m m 0 0 = .ok 0) ∧ (ratio 1 2).Same (ratio 2 4) := by
  have hdecides := podCompare_decides (ratio_written 1 2) (ratio_written 2 4)
    ⟨show (2 : BitVec 32) ≠ 0 by decide, trivial⟩
  refine ⟨⟨_, ratio_written 1 2, hdecides.2.1.mpr ⟨trivial, trivial⟩⟩,
    hdecides.2.2.mpr (fun _ => ?_) (by decide +kernel)⟩
  rintro _ _ _ ⟨⟩
  refine ⟨rfl, rfl, fun u hu => ?_, trivial⟩
  cases hu
  rintro _ _ _ _ _ _ ⟨⟩ ⟨⟩
  exact ⟨rfl, trivial, .nil⟩

end PipeWireAO.Pod
