import Mathlib.Data.List.Basic

/-!
# The permissions of a client

A client has a table of permissions: a default, and an entry for a global that has permissions of
its own. An entry with the reserved value `PW_PERM_INVALID` is not there.
-/

namespace PipeWireAO.Access

open List Option

/-! ## Permission bits -/

abbrev Perm := BitVec 32

/-- `PW_PERM_R`. -/
def permR : Perm := 0o400

/-- `PW_PERM_INVALID`. -/
def permInvalid : Perm := 0xffffffff

/-- `PW_PERM_IS_R`. -/
def Perm.isR (p : Perm) : Bool := p &&& permR == permR

/-- The bits of `p` are bits of `q`. -/
def Perm.Within (p q : Perm) : Prop := ∀ i, p.getLsbD i = true → q.getLsbD i = true

namespace Perm

theorem within_iff {p q : Perm} : p.Within q ↔ p &&& q = p := by
  constructor
  · intro h
    ext i hi
    have := h i
    simp only [BitVec.getElem_and]
    cases hp : p[i]
    · rfl
    · exact this hp
  · intro h i hp
    rw [← h, BitVec.getLsbD_and] at hp
    exact (Bool.and_eq_true_iff.mp hp).2

instance (p q : Perm) : Decidable (p.Within q) := decidable_of_iff _ within_iff.symm

theorem Within.refl (p : Perm) : p.Within p := fun _ h => h

theorem Within.trans {p q r : Perm} (h : p.Within q) (h' : q.Within r) : p.Within r :=
  fun i hi => h' i (h i hi)

theorem and_within_left (p q : Perm) : (p &&& q).Within p := by
  intro i h
  rw [BitVec.getLsbD_and] at h
  exact (Bool.and_eq_true_iff.mp h).1

theorem and_within_right (p q : Perm) : (p &&& q).Within q := by
  intro i h
  rw [BitVec.getLsbD_and] at h
  exact (Bool.and_eq_true_iff.mp h).2

theorem Within.and {p q r : Perm} (h : p.Within q) (h' : p.Within r) : p.Within (q &&& r) := by
  intro i hi
  rw [BitVec.getLsbD_and, h i hi, h' i hi]
  rfl

theorem eq_invalid_of_within {p q : Perm} (h : p.Within q) (hp : p = permInvalid) :
    q = permInvalid := by
  have hq := within_iff.mp h
  subst hp
  have hall : permInvalid &&& q = q := BitVec.allOnes_and
  exact hall.symm.trans hq

end Perm

/-! ## The table -/

/-- `PW_ID_ANY`. -/
def idAny : ℕ := 0xffffffff

/-- The array `permissions` of a client: the default, and then the entries of the globals by id. -/
structure Table where
  default : Perm
  entries : List Perm
deriving DecidableEq

namespace Table

variable {t : Table} {id id' : ℕ} {p : Perm}

/-- The entry of a global, unless it has none. -/
def entry (t : Table) (id : ℕ) : Option Perm := t.entries[id]?.filter (· ≠ permInvalid)

/-- `find_permission`: the entry of a global, or the default. -/
def find (t : Table) (id : ℕ) : Perm := (t.entry id).getD t.default

/-- `ensure_permissions`: room for the entry of a global. -/
def ensure (t : Table) (id : ℕ) : Table :=
  { t with entries := t.entries ++ List.replicate (id + 1 - t.entries.length) permInvalid }

def write (t : Table) (id : ℕ) (p : Perm) : Table := { t with entries := t.entries.set id p }

/-- `context_global_removed`. -/
def globalRemoved (t : Table) (id : ℕ) : Table :=
  if (t.entry id).isSome then t.write id permInvalid else t

@[simp] theorem ensure_default : (t.ensure id).default = t.default := rfl

@[simp] theorem entry_ensure : (t.ensure id).entry id' = t.entry id' := by
  unfold entry ensure
  rcases Nat.lt_or_ge id' t.entries.length with hlt | hge
  · rw [getElem?_append_left hlt]
  · rw [getElem?_append_right hge, getElem?_eq_none hge]
    cases h : (List.replicate (id + 1 - t.entries.length) permInvalid)[id' - t.entries.length]? with
    | none => rfl
    | some p =>
      cases eq_of_mem_replicate (mem_of_getElem? h)
      rfl

theorem length_ensure : id < (t.ensure id).entries.length := by
  simp only [ensure, length_append, length_replicate]
  omega

theorem entry_write (h : id < t.entries.length) : (t.write id p).entry id' =
      if id' = id then (some p).filter (· ≠ permInvalid) else t.entry id' := by
  unfold entry write
  split_ifs with heq
  · rw [heq, getElem?_set_self h]
  · rw [getElem?_set_ne (Ne.symm heq)]

theorem entry_ne_invalid (h : t.entry id = some p) : p ≠ permInvalid := by
  have := (filter_eq_some_iff.mp h).2
  simpa using this

@[simp] theorem globalRemoved_default : (t.globalRemoved id).default = t.default := by
  unfold globalRemoved
  split_ifs <;> rfl

theorem entry_globalRemoved :
    (t.globalRemoved id).entry id' = if id' = id then none else t.entry id' := by
  unfold globalRemoved
  split_ifs with hsome heq heq
  · rw [heq, entry_write (length_of_isSome hsome), if_pos rfl]
    rfl
  · rw [entry_write (length_of_isSome hsome), if_neg heq]
  · rw [heq]
    exact not_isSome_iff_eq_none.mp hsome
  · rfl
where
  length_of_isSome (h : (t.entry id).isSome) : id < t.entries.length := by
    obtain ⟨p, hp⟩ := isSome_iff_exists.mp h
    exact (List.getElem?_eq_some_iff.mp (filter_eq_some_iff.mp hp).1).1

end Table

end PipeWireAO.Access
