import PipeWireAO.Access.Client
import PipeWireAO.Foundation.Along

/-!
# A client that changes its own permissions

A run is compared with the same run without the updates that the client makes for itself. Each of
these takes bits away, so one expects the client to have no more at any point than without them. But
an update for a global that has the default permissions makes an entry for that global, and from then
on the default, which others may narrow, no longer applies to it.
-/

namespace PipeWireAO.Access

open List Option Table
open Foundation (Along)

/-! ## Two runs -/

/-- An update that the client makes for itself. -/
def Action.isOwn : Action → Bool
  | .update (.self _) _ => true
  | _ => false

/-- The run without the client's own updates. -/
def withoutOwn (as : List Action) : List Action := as.filter (!·.isOwn)

def bothStep (s : State × State) (a : Action) : State × State :=
  (step s.1 a, if a.isOwn then s.2 else step s.2 a)

theorem withoutOwn_cons (a : Action) (as : List Action) :
    withoutOwn (a :: as) = if a.isOwn then withoutOwn as else a :: withoutOwn as := by
  cases h : a.isOwn
  · exact filter_cons_of_pos (by simp [h])
  · exact filter_cons_of_neg (by simp [h])

theorem foldl_bothStep (s t : State) (as : List Action) :
    as.foldl bothStep (s, t) = (run s as, run t (withoutOwn as)) := by
  induction as generalizing s t with
  | nil => rfl
  | cons a as ih =>
    rw [foldl_cons, bothStep, ih, withoutOwn_cons]
    cases a.isOwn <;> rfl

/-- The first client, which makes updates of its own, has nothing that the second has not. -/
structure Below (s t : State) : Prop where
  globals : s.globals = t.globals
  generation : s.generation = t.generation
  cleanLeft : s.Clean
  cleanRight : t.Clean
  default : s.table.default.Within t.table.default
  entries : ∀ id, (t.table.entry id).isSome → (s.table.entry id).isSome
  effective : ∀ g ∈ s.globals, (effective s.table g).Within (effective t.table g)

/-! ## One permission -/
variable {g : Global} {t : Table}

theorem effective_within {t' : Table} (h : (t.find g.id).Within (t'.find g.id)) :
    (effective t g).Within (effective t' g) :=
  (Perm.and_within_left _ _).and ((Perm.and_within_right _ _).trans h)
variable {id : ℕ}

theorem find_of_some {p : Perm} (h : t.entry id = some p) : t.find id = p := by
  rw [find, h]
  rfl

theorem find_of_none (h : t.entry id = none) : t.find id = t.default := by
  rw [find, h]
  rfl

section Self

variable {s : State} {recvGeneration : ℕ} {e : ℕ × Perm}

theorem entry_self_isSome (h : (s.table.entry id).isSome) :
    ((s.updatedTable (.self recvGeneration) e).entry id).isSome := by
  rw [entry_updatedTable]
  split_ifs with hif
  · obtain ⟨-, -, rfl⟩ := hif
    obtain ⟨p, hp⟩ := isSome_iff_exists.mp h
    -- The bits that are left are not the reserved value, which has them all.
    have hne : e.2 &&& s.table.find e.1 ≠ permInvalid := by
      intro heq
      have := Perm.eq_invalid_of_within (Perm.and_within_right _ _) heq
      rw [find_of_some hp] at this
      exact entry_ne_invalid hp this
    simp [Option.filter, Caller.limit, hne]
  · exact h

theorem find_self_within (id : ℕ) :
    ((s.updatedTable (.self recvGeneration) e).find id).Within (s.table.find id) := by
  by_cases hif : e.1 ≠ idAny ∧ (s.findGlobal (.self recvGeneration) e.1).isSome ∧ id = e.1
  · have hentry : (s.updatedTable (.self recvGeneration) e).entry id = _ := entry_updatedTable id
    rw [if_pos hif] at hentry
    obtain ⟨hany, -, rfl⟩ := hif
    by_cases hinv : e.2 &&& s.table.find e.1 = permInvalid
    · -- All bits are left: there was no entry, and there is none now.
      have hfind := Perm.eq_invalid_of_within (Perm.and_within_right _ _) hinv
      have hnone : s.table.entry e.1 = none := by
        by_contra hne
        obtain ⟨p, hp⟩ := ne_none_iff_exists'.mp hne
        rw [find_of_some hp] at hfind
        exact entry_ne_invalid hp hfind
      rw [find_of_none hnone, find_of_none (by rw [hentry]; simp [Option.filter, Caller.limit, hinv]),
        default_updatedTable, if_neg hany]
      exact Perm.Within.refl _
    · rw [find_of_some (by rw [hentry]; simp [Option.filter, Caller.limit, hinv]; rfl)]
      exact Perm.and_within_right _ _
  · have hentry : (s.updatedTable (.self recvGeneration) e).entry id = _ := entry_updatedTable id
    rw [if_neg hif] at hentry
    rw [find, find, hentry, default_updatedTable]
    cases s.table.entry id with
    | some p => exact Perm.Within.refl _
    | none =>
      show Perm.Within (ite _ _ _) _
      split_ifs
      · exact Perm.and_within_right _ _
      · exact Perm.Within.refl _

theorem updateEntry_self {t : State} (h : Below s t) :
    Below (s.updateEntry (.self recvGeneration) e) t where
  globals := updateEntry_frame.1.trans h.globals
  generation := updateEntry_frame.2.1.trans h.generation
  cleanLeft := updateEntry_clean h.cleanLeft
  cleanRight := h.cleanRight
  default := by
    rw [updateEntry_table, default_updatedTable]
    split_ifs
    · exact (Perm.and_within_right _ _).trans h.default
    · exact h.default
  entries id hid := by
    rw [updateEntry_table]
    exact entry_self_isSome (h.entries id hid)
  effective g hg := by
    rw [updateEntry_table]
    rw [updateEntry_frame.1] at hg
    exact (effective_within (find_self_within g.id)).trans (h.effective g hg)

end Self

/-- The default that others set covers an entry of the client's own making: one that it would not
have without its own updates. -/
def Reached (s t : State) (e : ℕ × Perm) : Prop :=
  e.1 = idAny → ∀ g ∈ s.globals, ∀ p ∈ s.table.entry g.id, t.table.entry g.id = none →
    (g.mask &&& p).Within e.2

instance (s t : State) (e : ℕ × Perm) : Decidable (Reached s t e) :=
  decidable_of_iff (e.1 = idAny → ∀ g ∈ s.globals, (s.table.entry g.id).all fun p =>
    t.table.entry g.id = none → (g.mask &&& p).Within e.2) <| by
    simp only [Reached, all_eq_true_iff_get, decide_eq_true_eq, mem_def]
    grind

section Other

variable {s t : State} {finds : Global → Bool} {e : ℕ × Perm}

theorem findGlobal_other (h : s.globals = t.globals) (id : ℕ) :
    s.findGlobal (.other finds) id = t.findGlobal (.other finds) id := by
  unfold State.findGlobal
  rw [h]
  rfl

theorem entries_other (h : Below s t) (ht : ((t.updatedTable (.other finds) e).entry id).isSome) :
    ((s.updatedTable (.other finds) e).entry id).isSome := by
  rw [entry_updatedTable] at ht ⊢
  rw [findGlobal_other h.globals]
  split_ifs at ht ⊢ with hif
  · exact ht
  · exact h.entries id ht

theorem find_other_any (he : e.1 = idAny) (id : ℕ) :
    (s.updatedTable (.other finds) e).find id = (s.table.entry id).getD e.2 := by
  rw [find, entry_updatedTable, if_neg fun h => h.1 he, default_updatedTable, if_pos he]
  rfl

theorem effective_other_any (h : Below s t) (hreached : Reached s t e) (he : e.1 = idAny)
    (hg : g ∈ s.globals) : (effective (s.updatedTable (.other finds) e) g).Within
      (effective (t.updatedTable (.other finds) e) g) := by
  have hbelow := h.effective g hg
  unfold effective at hbelow ⊢
  rw [find_other_any he, find_other_any he]
  cases hp : s.table.entry g.id with
  | none =>
    have hq : t.table.entry g.id = none := by
      by_contra hne
      have := h.entries g.id (isSome_iff_ne_none.mpr hne)
      simp [hp] at this
    rw [hq]
    exact Perm.Within.refl _
  | some p =>
    cases hq : t.table.entry g.id with
    | none => exact (Perm.and_within_left _ _).and (hreached he g hg p hp hq)
    | some q =>
      rw [find_of_some hp, find_of_some hq] at hbelow
      exact hbelow

theorem effective_other_id (h : Below s t) (he : e.1 ≠ idAny) (hg : g ∈ s.globals) :
    (effective (s.updatedTable (.other finds) e) g).Within
      (effective (t.updatedTable (.other finds) e) g) := by
  have hdefault (r : State) : (r.updatedTable (.other finds) e).default = r.table.default := by
    rw [default_updatedTable, if_neg he]
  by_cases hif : e.1 ≠ idAny ∧ (t.findGlobal (.other finds) e.1).isSome ∧ g.id = e.1
  · apply effective_within
    rw [find, find, hdefault, hdefault, entry_updatedTable, entry_updatedTable,
      findGlobal_other h.globals, if_pos hif, if_pos hif]
    show ((Option.filter _ (some e.2)).getD _).Within ((Option.filter _ (some e.2)).getD _)
    cases (Option.filter (· ≠ permInvalid) (some e.2)) with
    | none => exact h.default
    | some p => exact Perm.Within.refl p
  · have hbelow := h.effective g hg
    unfold effective find at hbelow ⊢
    rw [hdefault, hdefault, entry_updatedTable, entry_updatedTable, findGlobal_other h.globals,
      if_neg hif, if_neg hif]
    exact hbelow

theorem updateEntry_other (h : Below s t) (hreached : Reached s t e) :
    Below (s.updateEntry (.other finds) e) (t.updateEntry (.other finds) e) where
  globals := updateEntry_frame.1.trans (h.globals.trans updateEntry_frame.1.symm)
  generation := updateEntry_frame.2.1.trans (h.generation.trans updateEntry_frame.2.1.symm)
  cleanLeft := updateEntry_clean h.cleanLeft
  cleanRight := updateEntry_clean h.cleanRight
  default := by
    rw [updateEntry_table, updateEntry_table, default_updatedTable, default_updatedTable]
    split_ifs
    · exact Perm.Within.refl _
    · exact h.default
  entries id hid := by
    rw [updateEntry_table] at hid ⊢
    exact entries_other h hid
  effective g hg := by
    rw [updateEntry_frame.1] at hg
    rw [updateEntry_table, updateEntry_table]
    by_cases he : e.1 = idAny
    · exact effective_other_any h hreached he hg
    · exact effective_other_id h he hg

end Other

/-! ## Runs -/

/-- Every default that others set in an update reaches the client. -/
def UpdateReached (s : State × State) : Action → Prop
  | .update (.other finds) es =>
    Along (fun (s : State × State) e =>
      (s.1.updateEntry (.other finds) e, s.2.updateEntry (.other finds) e))
      (fun s e => Reached s.1 s.2 e) s es
  | _ => True

instance (s : State × State) : (a : Action) → Decidable (UpdateReached s a)
  | .update (.other _) es => Along.decidable s es
  | .update (.self _) _ | .register .. | .destroy _ | .getRegistry | .destroyRegistry _ | .bind ..
  | .destroyResource _ => .isTrue True.intro

/-- Every default that others set in the run reaches the client. -/
def AllReached (s : State) (as : List Action) : Prop := Along bothStep UpdateReached (s, s) as

instance (s : State) (as : List Action) : Decidable (AllReached s as) := Along.decidable (s, s) as

section Step

variable {s t : State}

theorem updatePermissions_self (h : Below s t) (recvGeneration : ℕ) (es : List (ℕ × Perm)) :
    Below (s.updatePermissions (.self recvGeneration) es) t := by
  induction es generalizing s with
  | nil => exact h
  | cons e es ih => exact ih (updateEntry_self h)

theorem updatePermissions_other (h : Below s t) {finds : Global → Bool} {es : List (ℕ × Perm)}
    (hr : UpdateReached (s, t) (.update (.other finds) es)) :
    Below (s.updatePermissions (.other finds) es) (t.updatePermissions (.other finds) es) := by
  induction es generalizing s t with
  | nil => exact h
  | cons e es ih => exact ih (updateEntry_other h hr.1) hr.2

theorem register_below (h : Below s t) (id : ℕ) (mask : Perm) (type : String) (version : ℕ) :
    Below (s.register id mask type version) (t.register id mask type version) := by
  have hs := step_clean h.cleanLeft (.register id mask type version)
  have ht := step_clean h.cleanRight (.register id mask type version)
  simp only [step] at hs ht
  unfold State.register at hs ht ⊢
  rw [← h.globals, ← h.generation] at ht ⊢
  split_ifs at hs ht ⊢ with hused
  · exact h
  · refine ⟨rfl, rfl, hs, ht, h.default, h.entries, fun g hg => ?_⟩
    rcases mem_append.mp hg with hg | hg
    · exact h.effective g hg
    · -- The id was free, so neither table has an entry for it.
      have hfree : ∀ g ∈ s.globals, g.id ≠ id := by
        intro g hg hid
        exact hused (.inl (any_eq_true.mpr ⟨g, hg, by simpa using hid⟩))
      cases mem_singleton.mp hg
      apply effective_within
      rw [find_of_none (h.cleanLeft id hfree),
        find_of_none (h.cleanRight id (h.globals ▸ hfree))]
      exact h.default

theorem destroy_below (h : Below s t) (id : ℕ) : Below (s.destroy id) (t.destroy id) := by
  have hs := step_clean h.cleanLeft (.destroy id)
  have ht := step_clean h.cleanRight (.destroy id)
  simp only [step] at hs ht
  unfold State.destroy at hs ht ⊢
  rw [← h.globals] at ht ⊢
  cases hg : s.globals.find? (·.id = id) with
  | none => exact h
  | some g =>
    rw [hg] at hs ht
    refine ⟨rfl, h.generation, hs, ht, ?_, fun id' hid => ?_, fun g' hg' => ?_⟩
    · show (s.table.globalRemoved id).default.Within (t.table.globalRemoved id).default
      rw [globalRemoved_default, globalRemoved_default]
      exact h.default
    · have hid : ((t.table.globalRemoved id).entry id').isSome := hid
      show ((s.table.globalRemoved id).entry id').isSome
      rw [entry_globalRemoved] at hid ⊢
      split_ifs at hid ⊢ with heq
      · exact hid
      · exact h.entries id' hid
    · obtain ⟨hmem, hne⟩ := mem_filter.mp hg'
      have hne : g'.id ≠ id := by simpa using hne
      have hkeep (r : Table) : effective (r.globalRemoved id) g' = effective r g' := by
        rw [effective, effective, find, find, entry_globalRemoved, if_neg hne,
          globalRemoved_default]
      show (effective (s.table.globalRemoved id) g').Within (effective (t.table.globalRemoved id) g')
      rw [hkeep, hkeep]
      exact h.effective g' hmem

theorem Below.congr {s' t' : State} (h : Below s t) (hs : s'.globals = s.globals ∧
    s'.generation = s.generation ∧ s'.table = s.table) (ht : t'.globals = t.globals ∧
    t'.generation = t.generation ∧ t'.table = t.table) : Below s' t' := by
  obtain ⟨hg, hn, htab⟩ := hs
  obtain ⟨hg', hn', htab'⟩ := ht
  constructor
  · rw [hg, hg', h.globals]
  · rw [hn, hn', h.generation]
  · intro id hid
    rw [htab]
    exact h.cleanLeft id (hg ▸ hid)
  · intro id hid
    rw [htab']
    exact h.cleanRight id (hg' ▸ hid)
  · rw [htab, htab']
    exact h.default
  · rw [htab, htab']
    exact h.entries
  · rw [hg, htab, htab']
    exact h.effective

theorem bind_frame (s : State) (recvGeneration id : ℕ) (type : String) (version : ℕ)
    (accepted : Bool) : (s.bind recvGeneration id type version accepted).globals = s.globals ∧
      (s.bind recvGeneration id type version accepted).generation = s.generation ∧
      (s.bind recvGeneration id type version accepted).table = s.table := by
  unfold State.bind
  split
  · exact ⟨rfl, rfl, rfl⟩
  · split_ifs <;> exact ⟨rfl, rfl, rfl⟩

/-- **One action** keeps the second client above the first. -/
theorem bothStep_below {a : Action} (h : Below s t) (hr : UpdateReached (s, t) a) :
    Below (bothStep (s, t) a).1 (bothStep (s, t) a).2 := by
  cases a with
  | register id mask type version => exact register_below h id mask type version
  | destroy id => exact destroy_below h id
  | getRegistry | destroyRegistry i => exact h.congr ⟨rfl, rfl, rfl⟩ ⟨rfl, rfl, rfl⟩
  | bind recvGeneration id type version accepted => exact h.congr (bind_frame ..) (bind_frame ..)
  | destroyResource i => exact h.congr ⟨rfl, rfl, rfl⟩ ⟨rfl, rfl, rfl⟩
  | update caller es =>
    cases caller with
    | self recvGeneration => exact updatePermissions_self h recvGeneration es
    | other finds => exact updatePermissions_other h hr

end Step

theorem init_below (own : ℕ) (default : Perm) :
    Below (State.init own default) (State.init own default) :=
  ⟨rfl, rfl, fun _ _ => rfl, fun _ _ => rfl, Perm.Within.refl _, fun _ h => h,
    fun _ _ => Perm.Within.refl _⟩

/-- **A client gains nothing by its own updates**, if every default that others set covers the
entries of its own making: its permissions on a registered global are always among those it has in
the run without its own updates, with the same globals. -/
theorem own_updates_lose (own : ℕ) (default : Perm) (as : List Action)
    (hr : AllReached (State.init own default) as) :
    let s := run (State.init own default) as
    let t := run (State.init own default) (withoutOwn as)
    s.globals = t.globals ∧ ∀ g ∈ s.globals, (effective s.table g).Within (effective t.table g) := by
  have h : Below (as.foldl bothStep (State.init own default, State.init own default)).1
      (as.foldl bothStep (State.init own default, State.init own default)).2 := by
    refine Along.invariant (I := fun s => Below s.1 s.2) ?_ hr (init_below own default)
    exact fun s a hs ha => bothStep_below hs ha
  rw [foldl_bothStep] at h
  exact ⟨h.globals, h.effective⟩

/-- Others give the default permissions, the client keeps one of them on a global, and others narrow
the default, but not below it. -/
def covered : List Action :=
  [.register 1 0o710 "Node" 3, .update (.other fun _ => true) [(idAny, 0o700)],
    .update (.self 0) [(1, 0o400)], .update (.other fun _ => true) [(idAny, 0o600)]]

theorem own_updates_lose_covered : AllReached (State.init 7 0) covered ∧
    ∀ g ∈ (run (State.init 7 0) covered).globals,
      (effective (run (State.init 7 0) covered).table g).Within
        (effective (run (State.init 7 0) (withoutOwn covered)).table g) := by
  have hr : AllReached (State.init 7 0) covered := by decide +kernel
  exact ⟨hr, (own_updates_lose 7 0 covered hr).2⟩

/-- Others give the default permissions, the client asks for those on a global, and others take them
away. -/
def narrowed : List Action :=
  [.register 1 0o710 "Node" 3, .update (.other fun _ => true) [(idAny, 0o700)],
    .update (.self 0) [(1, 0o700)], .update (.other fun _ => true) [(idAny, 0)]]

/-- **What the client asked for survives**: it has all permissions on the global, instead of none. -/
theorem own_update_survives : (run (State.init 7 0) narrowed).globals.map
        (effective (run (State.init 7 0) narrowed).table) = [0o700] ∧
      (run (State.init 7 0) (withoutOwn narrowed)).globals.map
        (effective (run (State.init 7 0) (withoutOwn narrowed)).table) = [0] := by
  decide +kernel

end PipeWireAO.Access
