import PipeWireAO.Pod.Entries
import PipeWireAO.Pod.Order

/-!
# Values and choices in memory

What `spa_pod_get_values` finds at a pod that is written as the format says: for a choice the header
of its values and how many there are, for any other pod the pod itself as the only value.
-/

namespace PipeWireAO.Pod

open List
open Foundation (toLe length_toLe)

/-- The kind of a choice and its values. A plain value is one value of kind None. -/
def Tree.alternatives : Tree → Option (BitVec 32 × List Scalar)
  | .scalar v => some (0, [v])
  | .choice type _ vs => some (type, vs)
  | _ => none

variable {vs : List Scalar} {type : BitVec 32}

theorem Tree.scalar_or_choice {t : Tree} (h : t.alternatives = some (type, vs)) :
    (∃ v, t = .scalar v ∧ type = 0 ∧ vs = [v]) ∨ ∃ flags, t = .choice type flags vs := by
  cases t with
  | scalar v =>
    cases h
    exact .inl ⟨v, rfl, rfl, rfl⟩
  | choice type flags vs =>
    cases h
    exact .inr ⟨flags, rfl⟩
  | array _ | struct _ | object _ _ _ => cases h

/-- How many values a pod has. -/
def Tree.count : Tree → ℕ
  | .choice _ _ vs => vs.length
  | _ => 1

def Tree.choiceType : Tree → BitVec 32
  | .choice type _ _ => type
  | _ => 0

def Tree.valueHeader : Tree → Header
  | .choice _ _ vs => childHeader vs
  | t => t.header

/-- What is behind the header of the values. -/
def Tree.valueBody : Tree → List UInt8
  | .choice _ _ vs => vs.flatMap Scalar.body
  | t => t.body

mutual

/-- No object in the pod has two properties with one key. -/
def Tree.Distinct : Tree → Prop
  | .struct ts => ts.Distinct
  | .object _ _ ps => ps.keys.Nodup ∧ ps.Distinct
  | _ => True

/-- No object in the pods has two properties with one key. -/
def Trees.Distinct : Trees → Prop
  | .nil => True
  | .cons t ts => t.Distinct ∧ ts.Distinct

/-- No object in the values has two properties with one key. -/
def Props.Distinct : Props → Prop
  | .nil => True
  | .cons _ _ t ps => t.Distinct ∧ ps.Distinct

end

/-- A well-formed pod at the address `p`. -/
structure Written (m : Memory) (p : ℕ) (t : Tree) : Prop where
  at_ : m.At p t.bytes
  aligned : p % 8 = 0
  small : t.body.length < maxSize
  ok : t.Ok
  distinct : t.Distinct

section

variable {m : Memory} {p : ℕ} {t : Tree}

theorem length_choice (type flags : BitVec 32) (vs : List Scalar) :
    (Tree.choice type flags vs).body.length = 16 + (vs.flatMap Scalar.body).length := by
  simp only [Tree.body, valuesBytes, length_append, length_toLe, length_bytes]
  omega

theorem Memory.At.header_eq {h : Header} {rest : List UInt8} (hat : m.At p (h.bytes ++ rest))
    (hsize : h.size < 2 ^ 32) (htype : h.type < 2 ^ 32) : m.header p = .ok h := by
  have hheader := Header.ofBytes_bytes hsize htype []
  rw [append_nil] at hheader
  rw [Memory.header, hat.left.load (length_bytes h), Except.map, hheader]

namespace Written

theorem header_eq (h : Written m p t) : m.header p = .ok t.header := by
  obtain ⟨hsize, htype⟩ := Parser.Before.header_lt (lt_max h.small)
  have hat := h.at_
  exact hat.header_eq hsize htype

theorem body_at (h : Written m p t) : m.At (p + 8) t.body := by
  have hat := h.at_
  rw [Parser.Before.bytes_eq] at hat
  have hbody := hat.right.left
  rwa [length_bytes] at hbody

/-- What is found at a pod. -/
structure Seen (m : Memory) (t : Tree) (v : PodValues) : Prop where
  count : v.count = t.count
  choice : v.choice = t.choiceType.toNat
  header : m.header v.at_ = .ok t.valueHeader
  holds : m.Holds v.at_ 8
  body : m.At (v.at_ + 8) t.valueBody

theorem getValues_plain (h : Written m p t) (hkind : t.kind ≠ .choice)
    (hsize : typeSize t.kind.number ≤ t.body.length) : getValues m p = .ok ⟨p, 1, 0⟩ := by
  have hcheck : t.header.check .choice 16 = false := by
    rw [← Bool.not_eq_true]
    intro hcheck
    exact hkind (Scalar.Kind.number_inj (Header.check_eq hcheck).2.1)
  simp only [getValues, h.header_eq, bind, Except.bind, hcheck]
  rw [if_neg Bool.false_ne_true, if_neg (show ¬ t.header.size < typeSize t.header.type from
    Nat.not_lt.mpr hsize)]
  rfl

theorem getValues_choice {flags : BitVec 32} (h : Written m p (.choice type flags vs)) :
    getValues m p = .ok ⟨p + 16, vs.length, type.toNat⟩ ∧ m.header (p + 16) = .ok (childHeader vs) ∧
      m.At (p + 24) (vs.flatMap Scalar.body) := by
  obtain ⟨huniform, hcount⟩ := h.ok
  have hbody := h.body_at
  have hlen := length_choice type flags vs
  have hsmall := h.small
  have hmax : (valuesBytes vs).length < maxSize := by
    rw [valuesBytes, length_append, length_bytes]
    omega
  obtain ⟨hchild, htype⟩ := childHeader_lt hmax
  have hholds := h.at_.1
  rw [Tree.bytes, length_podBytes] at hholds
  rw [Tree.body, valuesBytes] at hbody
  have hvalues := hbody.right
  have hcheck : (Tree.choice type flags vs).header.check .choice 16 = true :=
    check_self .choice hsmall (by omega)
  have hload : m.load (p + 8) 16 =
      .ok (toLe 4 type.toNat ++ (toLe 4 flags.toNat ++ (childHeader vs).bytes)) := by
    rw [← append_assoc] at hbody
    have hleft := hbody.left
    refine hleft.load ?_
    simp only [length_append, length_toLe, length_bytes]
  have hheader := Header.ofBytes_bytes (lt_max hchild) htype []
  rw [append_nil] at hheader
  have hget : bodyGetChoice m (Tree.choice type flags vs).header (p + 8) =
      .ok (⟨type.toNat, flags.toNat, childHeader vs⟩, ptroff (p + 8) 16) := by
    rw [bodyGetChoice, if_pos hcheck, hload, Except.map, take_word type.isLt, drop_word,
      take_word flags.isLt, drop_words, hheader]
  have hvals : choiceValues _ ⟨type.toNat, flags.toNat, childHeader vs⟩ _ = _ :=
    choiceValues_eq huniform hcount (ptroff (p + 8) 16)
  rw [← hlen] at hvals
  refine ⟨?_, hvalues.header_eq (lt_max hchild) htype, ?_⟩
  · simp only [getValues, h.header_eq, bind, Except.bind, hcheck, if_true]
    rw [hholds.ptroff_eq (by omega), hget]
    show Except.ok (PodValues.mk _ (choiceValues ⟨_, Kind.choice.number⟩ _ _).count _) = _
    rw [hvals, hholds.ptroff_eq (by omega)]
  · have hright := hvalues.right
    rwa [length_bytes] at hright

theorem typeSize_scalar (v : Scalar) : typeSize v.kind.number ≤ v.body.length := by
  cases v <;> simp [Scalar.kind, Kind.number, typeSize, Scalar.body]

/-- **What is found at a well-formed pod.** -/
theorem getValues_eq (h : Written m p t) : ∃ v, getValues m p = .ok v ∧ Seen m t v ∧
    (t.kind ≠ .choice → v.at_ = p) := by
  have hholds : m.Holds p 8 := by
    have := h.at_.1
    rw [Tree.bytes, length_podBytes] at this
    exact this.mono le_rfl (by omega)
  -- the header and the body of a pod that is its own value
  have hplain : ∀ {u : Tree}, Written m p u → u.kind ≠ .choice →
      typeSize u.kind.number ≤ u.body.length → u.count = 1 → u.choiceType = 0 →
      u.valueHeader = u.header → u.valueBody = u.body →
      ∃ v, getValues m p = .ok v ∧ Seen m u v ∧ (u.kind ≠ .choice → v.at_ = p) := by
    intro u hu hkind hsize hcount htype hheader hbody
    refine ⟨_, hu.getValues_plain hkind hsize, ⟨hcount.symm, ?_, ?_, hholds, ?_⟩, fun _ => rfl⟩
    · rw [htype]
      rfl
    · rw [hheader]
      exact hu.header_eq
    · rw [hbody]
      exact hu.body_at
  cases t with
  | scalar v =>
    have hkind : v.kind ≠ .choice := by cases v <;> intro he <;> cases he
    exact hplain h hkind (typeSize_scalar v) rfl rfl rfl rfl
  | array vs =>
    refine hplain h (fun he => by cases he) ?_ rfl rfl rfl rfl
    rw [Tree.body, valuesBytes, length_append, length_bytes]
    exact Nat.le_add_right 8 _
  | choice type flags vs =>
    obtain ⟨hget, hheader, hbody⟩ := h.getValues_choice
    have hat := h.at_.1
    rw [Tree.bytes, length_podBytes] at hat
    have hlen := length_choice type flags vs
    have hchild : m.Holds (p + 16) 8 := hat.mono (by omega) (by omega)
    exact ⟨_, hget, ⟨rfl, rfl, hheader, hchild, hbody⟩, fun hkind => absurd rfl hkind⟩
  | struct ts => exact hplain h (fun he => by cases he) (Nat.zero_le _) rfl rfl rfl rfl
  | object type id ps =>
    refine hplain h (fun he => by cases he) ?_ rfl rfl rfl rfl
    rw [Tree.length_object]
    exact Nat.le_add_right 8 _

theorem Seen.value_load {v : Scalar} {s : PodValues} (h : Seen m t s)
    (ht : t.alternatives = some (type, v :: vs)) :
    m.load (ptroff s.at_ 8) v.body.length = .ok v.body := by
  have hoff : ptroff s.at_ 8 = s.at_ + 8 := h.holds.ptroff_eq le_rfl
  have hbody := h.body
  rw [hoff]
  obtain ⟨w, rfl, -, hvs⟩ | ⟨flags, rfl⟩ := Tree.scalar_or_choice ht
  · cases hvs
    exact hbody.load rfl
  · exact hbody.left.load rfl

end Written

end

end PipeWireAO.Pod
