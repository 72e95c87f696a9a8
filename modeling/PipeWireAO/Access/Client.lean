import Mathlib.Data.Finset.Basic
import PipeWireAO.Access.Permission

/-!
# What a client sees and holds

The globals of a context have an id, and a mask of the permissions that anyone can have on them. A
client sees the globals through its registries, and holds resources that are bound to globals.
Registration, removal and changes of permissions keep both up to date, each in its own way.

Of the other clients the model only keeps which globals they find when they change the permissions of
this one. Links, which follow the permissions of their ports, are left out.
-/

namespace PipeWireAO.Access

open List Option

/-! ## The state -/

/-- `struct pw_global`, registered. -/
structure Global where
  id : ℕ
  mask : Perm
  type : String
  (version generation : ℕ)
deriving DecidableEq

/-- A resource of the client that is bound to a global. -/
structure Resource where
  global : ℕ
  permissions : Perm
deriving DecidableEq

/-- The context and the client: the registered globals, the generation, the client's own global, its
permissions, the ids announced to each of its registries, and the resources. -/
structure State where
  globals : List Global
  (generation own : ℕ)
  table : Table
  registries : List (Finset ℕ)
  resources : List Resource

/-- `PW_ID_CORE`. -/
def idCore : ℕ := 0

/-- `pw_global_get_permissions`. -/
def effective (t : Table) (g : Global) : Perm := g.mask &&& t.find g.id

/-- Who calls: the client itself, with the generation it received, or another, of whom it is only
known which globals are neither stale nor hidden. -/
inductive Caller where
  | self (recvGeneration : ℕ)
  | other (finds : Global → Bool)

/-- `global_is_stale`. -/
def Global.isStale (g : Global) (recvGeneration : ℕ) : Bool :=
  recvGeneration ≠ 0 && recvGeneration < g.generation

/-- `global_can_read` and `global_is_stale`, for the current client. -/
def Caller.finds (t : Table) : Caller → Global → Bool
  | .self recvGeneration, g => !g.isStale recvGeneration && (effective t g).isR
  | .other finds, g => finds g

/-- `pw_context_find_global`. -/
def State.findGlobal (s : State) (caller : Caller) (id : ℕ) : Option Global :=
  (s.globals.find? (·.id = id)).filter (caller.finds s.table)

/-! ## Globals -/

/-- `pw_global_register`, of a global with a free id: it is announced to those who may read it. -/
def State.register (s : State) (id : ℕ) (mask : Perm) (type : String) (version : ℕ) : State :=
  if s.globals.any (·.id = id) ∨ idAny ≤ id then s
  else
    let g : Global := ⟨id, mask, type, version, s.generation + 1⟩
    { s with
      globals := s.globals ++ [g]
      generation := s.generation + 1
      registries := if (effective s.table g).isR then s.registries.map (insert id)
        else s.registries }

/-- `pw_global_destroy` and `global_unregister`: destroys the resources, announces the removal to
those who may read, and resets the entry in the table. -/
def State.destroy (s : State) (id : ℕ) : State :=
  match s.globals.find? (·.id = id) with
  | none => s
  | some g =>
    { s with
      globals := s.globals.filter (·.id ≠ id)
      table := s.table.globalRemoved id
      registries := if (effective s.table g).isR then s.registries.map (·.erase id)
        else s.registries
      resources := s.resources.filter (·.global ≠ id) }

/-- `core_get_registry`: a new registry is told of every global that may be read. -/
def State.getRegistry (s : State) : State :=
  let readable := s.globals.filter fun g => (effective s.table g).isR
  { s with registries := s.registries ++ [(readable.map Global.id).toFinset] }

/-- `registry_bind` and `pw_global_bind`; `accepted` is the result of the global's own function. -/
def State.bind (s : State) (recvGeneration id : ℕ) (type : String) (version : ℕ)
    (accepted : Bool) : State :=
  match s.findGlobal (.self recvGeneration) id with
  | none => s
  | some g =>
    if (effective s.table g).isR ∧ g.type = type ∧ version ≤ g.version ∧ accepted then
      { s with resources := s.resources ++ [⟨id, effective s.table g⟩] }
    else s

/-! ## Changes of permissions -/

/-- `pw_global_update_permissions`, without its event `permissions_changed`: only links listen to it, and
they are left out. Neither writes the table. -/
def State.globalUpdatePermissions (s : State) (g : Global) (old new : Perm) : State :=
  { s with
    registries := s.registries.map fun r =>
      if old.isR ∧ ¬ new.isR then r.erase g.id
      else if ¬ old.isR ∧ new.isR then insert g.id r
      else r
    resources := s.resources.filterMap fun r =>
      if r.global ≠ g.id then some r
      else if ¬ new.isR ∧ g.id ≠ idCore then none
      else some { r with permissions := new } }

/-- The client itself can only take bits away. -/
def Caller.limit (old new : Perm) : Caller → Perm
  | .self _ => new &&& old
  | .other _ => new

/-- The globals that have the default permissions, the client's own apart. -/
def State.defaulted (s : State) : List Global :=
  s.globals.filter fun g => g.id ≠ s.own && (s.table.entry g.id).isNone

/-- One permission of `pw_impl_client_update_permissions`. -/
def State.updateEntry (caller : Caller) (s : State) (e : ℕ × Perm) : State :=
  if e.1 = idAny then
    let old := s.table.default
    let new := caller.limit old e.2
    let s' := { s with table := { s.table with default := new } }
    s'.defaulted.foldl (fun s g => s.globalUpdatePermissions g old new) s'
  else
    match s.findGlobal caller e.1 with
    | none => s
    | some g =>
      let table := s.table.ensure e.1
      let old := table.find e.1
      let new := caller.limit old e.2
      { s with table := table.write e.1 new }.globalUpdatePermissions g old new

/-- `pw_impl_client_update_permissions`. -/
def State.updatePermissions (s : State) (caller : Caller) (permissions : List (ℕ × Perm)) : State :=
  permissions.foldl (State.updateEntry caller) s

/-! ## Runs -/

/-- What happens. -/
inductive Action where
  | register (id : ℕ) (mask : Perm) (type : String) (version : ℕ)
  | destroy (id : ℕ)
  | getRegistry
  | destroyRegistry (i : ℕ)
  | bind (recvGeneration id : ℕ) (type : String) (version : ℕ) (accepted : Bool)
  | destroyResource (i : ℕ)
  | update (caller : Caller) (permissions : List (ℕ × Perm))

def step (s : State) : Action → State
  | .register id mask type version => s.register id mask type version
  | .destroy id => s.destroy id
  | .getRegistry => s.getRegistry
  | .destroyRegistry i => { s with registries := s.registries.eraseIdx i }
  | .bind recvGeneration id type version accepted => s.bind recvGeneration id type version accepted
  | .destroyResource i => { s with resources := s.resources.eraseIdx i }
  | .update caller permissions => s.updatePermissions caller permissions

def run (s : State) (as : List Action) : State := as.foldl step s

/-- A context without globals, and a client with its default permissions. -/
def State.init (own : ℕ) (default : Perm) : State where
  globals := []
  generation := 0
  own := own
  table := ⟨default, []⟩
  registries := []
  resources := []

/-! ## What an update leaves alone -/

section Update

variable {s : State} {caller : Caller} {e : ℕ × Perm}

theorem foldl_globalUpdatePermissions (gs : List Global) (old new : Perm) (s : State) :
    let s' := gs.foldl (fun s g => s.globalUpdatePermissions g old new) s
    s'.table = s.table ∧ s'.globals = s.globals ∧ s'.generation = s.generation ∧ s'.own = s.own := by
  induction gs generalizing s with
  | nil => exact ⟨rfl, rfl, rfl, rfl⟩
  | cons g gs ih => exact ih (s.globalUpdatePermissions g old new)

def State.updatedTable (caller : Caller) (s : State) (e : ℕ × Perm) : Table :=
  if e.1 = idAny then { s.table with default := caller.limit s.table.default e.2 }
  else if (s.findGlobal caller e.1).isSome then
    (s.table.ensure e.1).write e.1 (caller.limit (s.table.find e.1) e.2)
  else s.table

/-- **An update changes the table, whatever the client sees and holds.** -/
theorem updateEntry_table : (s.updateEntry caller e).table = s.updatedTable caller e := by
  unfold State.updateEntry State.updatedTable
  split_ifs with he hg
  · exact (foldl_globalUpdatePermissions _ _ _ _).1
  · obtain ⟨g, hg⟩ := isSome_iff_exists.mp hg
    simp only [hg]
    rw [show (s.table.ensure e.1).find e.1 = s.table.find e.1 by simp [Table.find]]
    rfl
  · rw [not_isSome_iff_eq_none.mp hg]

theorem updateEntry_frame : (s.updateEntry caller e).globals = s.globals ∧
    (s.updateEntry caller e).generation = s.generation ∧ (s.updateEntry caller e).own = s.own := by
  unfold State.updateEntry
  split_ifs with he
  · exact (foldl_globalUpdatePermissions _ _ _ _).2
  · split <;> exact ⟨rfl, rfl, rfl⟩

theorem findGlobal_id {id : ℕ} {g : Global} (h : s.findGlobal caller id = some g) :
    g ∈ s.globals ∧ g.id = id := by
  have hfind := (filter_eq_some_iff.mp h).1
  exact ⟨mem_of_find?_eq_some hfind, by simpa using find?_some hfind⟩

theorem entry_updatedTable (id : ℕ) : (s.updatedTable caller e).entry id =
    if e.1 ≠ idAny ∧ (s.findGlobal caller e.1).isSome ∧ id = e.1 then
      (some (caller.limit (s.table.find e.1) e.2)).filter (· ≠ permInvalid)
    else s.table.entry id := by
  unfold State.updatedTable
  split_ifs with hany hif hg hif hif
  · exact absurd hany hif.1
  · rfl
  · rw [Table.entry_write Table.length_ensure, if_pos hif.2.2]
  · rw [Table.entry_write Table.length_ensure, if_neg fun h => hif ⟨hany, hg, h⟩, Table.entry_ensure]
  · exact absurd hif.2.1 hg
  · rfl

theorem default_updatedTable : (s.updatedTable caller e).default =
    if e.1 = idAny then caller.limit s.table.default e.2 else s.table.default := by
  unfold State.updatedTable
  split_ifs <;> rfl

end Update

/-! ## Only registered globals have entries -/

/-- A global that is not registered has no entry in the table. -/
def State.Clean (s : State) : Prop :=
  ∀ id, (∀ g ∈ s.globals, g.id ≠ id) → s.table.entry id = none

variable {s : State} {caller : Caller}

theorem updateEntry_clean {e : ℕ × Perm} (h : s.Clean) : (s.updateEntry caller e).Clean := by
  intro id hid
  rw [updateEntry_table, entry_updatedTable]
  rw [updateEntry_frame.1] at hid
  rw [if_neg, h id hid]
  rintro ⟨-, hg, rfl⟩
  obtain ⟨g, hg⟩ := isSome_iff_exists.mp hg
  exact hid g (findGlobal_id hg).1 (findGlobal_id hg).2

theorem updatePermissions_clean {es : List (ℕ × Perm)} (h : s.Clean) :
    (s.updatePermissions caller es).Clean := by
  induction es generalizing s with
  | nil => exact h
  | cons e es ih => exact ih (updateEntry_clean h)

theorem step_clean (h : s.Clean) (a : Action) : (step s a).Clean := by
  cases a with
  | register id mask type version =>
    show (s.register id mask type version).Clean
    unfold State.register
    split_ifs with hused
    · exact h
    · intro id' hid
      exact h id' fun g hg => hid g (mem_append_left _ hg)
  | destroy id =>
    show (s.destroy id).Clean
    unfold State.destroy
    split
    · exact h
    · intro id' hid
      show (s.table.globalRemoved id).entry id' = none
      rw [Table.entry_globalRemoved]
      split_ifs with heq
      · rfl
      · refine h id' fun g hg hgid => hid g ?_ hgid
        exact mem_filter.mpr ⟨hg, by simpa [hgid] using heq⟩
  | getRegistry | destroyRegistry i => exact h
  | bind recvGeneration id type version accepted =>
    show (s.bind recvGeneration id type version accepted).Clean
    unfold State.bind
    split
    · exact h
    · split_ifs <;> exact h
  | destroyResource i => exact h
  | update caller permissions => exact updatePermissions_clean h

end PipeWireAO.Access
