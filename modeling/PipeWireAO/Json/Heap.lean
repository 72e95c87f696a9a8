import PipeWireAO.Foundation.Machine
import PipeWireAO.Json.Tokenizer
import Mathlib.Logic.Relation

/-!
# Iterators and their parents

An iterator that enters a container points to the iterator around it. When it reaches the end of the
container it moves the other one there, and when it finds an error it marks every iterator around it.
-/

namespace PipeWireAO.Json

open Foundation Function Option

/-! ## The calls -/

/-- An iterator; `up` is its parent. -/
structure Node where
  cur : Text
  up : Option ℕ
  state : Except Error State

/-- The iterator as the tokenizer sees it. -/
def Node.iter (n : Node) : Iter := ⟨n.cur, n.up.isSome, n.state⟩

/-- An iterator without a parent. -/
def Node.root (it : Iter) : Node := ⟨it.cur, none, it.state⟩

/-- The iterators of a program, in the order in which they were set up. -/
structure Heap where
  node : ℕ → Node
  size : ℕ

namespace Heap

def empty : Heap := ⟨fun _ => .root (init []), 0⟩

def write (h : Heap) (i : ℕ) (n : Node) : Heap := { h with node := update h.node i n }

def alloc (h : Heap) (n : Node) : Heap := ⟨update h.node h.size n, h.size + 1⟩

/-- The tokenizer has left the iterator in this state. -/
def store (h : Heap) (i : ℕ) (it : Iter) : Heap := h.write i ⟨it.cur, (h.node i).up, it.state⟩

def move (h : Heap) (i : ℕ) (cur : Text) : Heap := h.write i { h.node i with cur := cur }

/-- The loop at the end of `spa_json_next`: an error goes to the parents, up to one that has an error
already. -/
def propagate (e : Error) : ℕ → Heap → ℕ → Heap
  | 0, h, _ => h
  | n + 1, h, i =>
    match (h.node i).up with
    | none => h
    | some j =>
      match (h.node j).state with
      | .error _ => h
      | .ok _ => propagate e n (h.write j ⟨(h.node i).cur, (h.node j).up, .error e⟩) j

/-- `spa_json_next`. -/
def next (h : Heap) (i : ℕ) : Outcome × Heap :=
  match (h.node i).state with
  | .error e => (.error e, h)
  | .ok _ =>
    let r := Json.next (h.node i).iter
    let h' := h.store i r.2
    match r.1 with
    | .close =>
      match (h.node i).up with
      | some j => (.close, h'.move j r.2.cur)
      | none => (.close, h')
    | .error e => (.error e, h'.propagate e h.size i)
    | o => (o, h')

/-- `spa_json_enter`, of a new iterator. -/
def enter (h : Heap) (i : ℕ) : Heap :=
  h.alloc ⟨(h.node i).cur, some i, (Json.enter (h.node i).iter).state⟩

/-- `spa_json_begin_container`, and whether it returned 1. The iterator enters itself, so it is its
own parent. -/
def beginContainer (h : Heap) (data : Text) (array relax : Bool) : Bool × Heap :=
  match Json.next (init data) with
  | (.token value _, it) =>
    match container value with
    | some a =>
      if a = array then (true, h.alloc ⟨it.cur, some h.size, (Json.enter it).state⟩)
      else (false, h.alloc (.root it))
    | none =>
      -- the text may leave out the brackets
      if relax then (true, h.alloc ⟨data, none, .ok ⟨.none, array, false, false, []⟩⟩)
      else (false, h.alloc (.root it))
  | (_, it) => (false, h.alloc (.root it))

end Heap

/-- The calls of a program. -/
inductive Call
  | init (data : Text)
  | beginContainer (data : Text) (array relax : Bool)
  | enter (i : ℕ)
  | next (i : ℕ)

/-- A program with its iterators; what `spa_json_next` returns is emitted. -/
def iterators : Machine Heap Call (ℕ × Outcome) where
  step h
    | .init data => some (h.alloc (.root (init data)), [])
    | .beginContainer data array relax => some ((h.beginContainer data array relax).2, [])
    | .enter i => if i < h.size then some (h.enter i, []) else none
    | .next i => if i < h.size then some ((h.next i).2, [(i, (h.next i).1)]) else none

/-! ## What a call keeps -/

namespace Heap

variable {h h' h'' : Heap} {i j : ℕ} {n : Node} {e : Error}

def Failed (h : Heap) (i : ℕ) : Prop := ∃ e, (h.node i).state = .error e

/-- `h'` has the iterators of `h`, with the same parents, and none of them has recovered from an
error. -/
structure Grows (h h' : Heap) : Prop where
  size : h.size ≤ h'.size
  up : ∀ k < h.size, (h'.node k).up = (h.node k).up
  failed : ∀ k < h.size, h.Failed k → h'.Failed k

theorem Grows.refl (h : Heap) : Grows h h := ⟨Nat.le_refl _, fun _ _ => rfl, fun _ _ hf => hf⟩

theorem Grows.trans (h₁ : Grows h h') (h₂ : Grows h' h'') : Grows h h'' where
  size := Nat.le_trans h₁.size h₂.size
  up k hk := (h₂.up k (Nat.lt_of_lt_of_le hk h₁.size)).trans (h₁.up k hk)
  failed k hk hf := h₂.failed k (Nat.lt_of_lt_of_le hk h₁.size) (h₁.failed k hk hf)

theorem grows_write (hup : n.up = (h.node i).up)
    (hfail : h.Failed i → ∃ e, n.state = .error e) : Grows h (h.write i n) := by
  refine ⟨Nat.le_refl _, fun k _ => ?_, fun k _ hf => ?_⟩
  · rcases eq_or_ne k i with rfl | hk
    · simpa [write] using hup
    · simp [write, hk]
  · rcases eq_or_ne k i with rfl | hk
    · simpa [Failed, write] using hfail hf
    · simpa [Failed, write, hk] using hf

theorem grows_alloc (h : Heap) (n : Node) : Grows h (h.alloc n) := by
  refine ⟨Nat.le_succ _, fun k hk => ?_, fun k hk hf => ?_⟩
  · simp [alloc, Nat.ne_of_lt hk]
  · simpa [Failed, alloc, Nat.ne_of_lt hk] using hf

theorem grows_propagate (n : ℕ) : Grows h (h.propagate e n i) := by
  induction n generalizing h i with
  | zero => exact .refl h
  | succ n ih =>
    unfold propagate
    split
    · exact .refl h
    · split
      · exact .refl h
      · rename_i j _ _ _ _
        have hmark : Grows h (h.write j ⟨(h.node i).cur, (h.node j).up, .error e⟩) :=
          grows_write rfl fun _ => ⟨e, rfl⟩
        exact hmark.trans ih

/-- Parents were set up before, and an error was passed on to them. -/
structure Sound (h : Heap) : Prop where
  older : ∀ k < h.size, ∀ j, (h.node k).up = some j → j ≤ k
  passed : ∀ k < h.size, ∀ j, (h.node k).up = some j → h.Failed k → h.Failed j

/-- **Passing an error on** to the parents of `i`, where it was not passed on yet. -/
theorem Sound.propagate (n : ℕ) (hi : i < n)
    (holder : ∀ k < h.size, ∀ j, (h.node k).up = some j → j ≤ k) (hsize : i < h.size)
    (hfail : h.Failed i)
    (hpassed : ∀ k < h.size, k ≠ i → ∀ j, (h.node k).up = some j → h.Failed k → h.Failed j) :
    (h.propagate e n i).Sound := by
  induction n generalizing h i with
  | zero => omega
  | succ n ih =>
    unfold Heap.propagate
    split
    · rename_i hup
      refine ⟨holder, fun k hk j hj hf => ?_⟩
      rcases eq_or_ne k i with rfl | hne
      · rw [hup] at hj
        cases hj
      · exact hpassed k hk hne j hj hf
    · rename_i p hup
      split
      · rename_i e' hp
        refine ⟨holder, fun k hk j hj hf => ?_⟩
        rcases eq_or_ne k i with rfl | hne
        · obtain rfl : p = j := some.inj (hup.symm.trans hj)
          exact ⟨e', hp⟩
        · exact hpassed k hk hne j hj hf
      · rename_i s hp
        -- the parent has no error, and so it is another iterator
        have hne : p ≠ i := by
          rintro rfl
          obtain ⟨e', he'⟩ := hfail
          rw [hp] at he'
          cases he'
        have hlt : p < i := Nat.lt_of_le_of_ne (holder i hsize p hup) hne
        have hgrows : Grows h (h.write p ⟨(h.node i).cur, (h.node p).up, .error e⟩) :=
          grows_write rfl fun _ => ⟨e, rfl⟩
        have hmarked : (h.write p ⟨(h.node i).cur, (h.node p).up, .error e⟩).Failed p :=
          ⟨e, by simp [write]⟩
        apply ih (by omega)
        · intro k hk j hj
          rw [hgrows.up k hk] at hj
          exact holder k hk j hj
        · exact Nat.lt_trans hlt hsize
        · exact hmarked
        · intro k hk hkp j hj hf
          rw [hgrows.up k hk] at hj
          rcases eq_or_ne k i with rfl | hki
          · obtain rfl : p = j := some.inj (hup.symm.trans hj)
            exact hmarked
          · have hf' : h.Failed k := by simpa [Failed, write, hkp] using hf
            have hj' := hpassed k hk hki j hj hf'
            exact hgrows.failed j (Nat.lt_of_le_of_lt (holder k hk j hj) hk) hj'

theorem Sound.write (hs : h.Sound) (hi : i < h.size) (hup : n.up = (h.node i).up)
    (hfail : h.Failed i ↔ ∃ e, n.state = .error e) : (h.write i n).Sound := by
  have hgrows : Grows h (h.write i n) := grows_write hup hfail.mp
  refine ⟨fun k hk j hj => ?_, fun k hk j hj hf => ?_⟩
  · rw [hgrows.up k hk] at hj
    exact hs.older k hk j hj
  · rw [hgrows.up k hk] at hj
    have hf' : h.Failed k := by
      rcases eq_or_ne k i with rfl | hk'
      · exact hfail.mpr (by simpa [Failed, Heap.write] using hf)
      · simpa [Failed, Heap.write, hk'] using hf
    exact hgrows.failed j (Nat.lt_of_le_of_lt (hs.older k hk j hj) hk) (hs.passed k hk j hj hf')

theorem Sound.move (hs : h.Sound) (hj : j < h.size) (cur : Text) :
    Grows h (h.move j cur) ∧ (h.move j cur).Sound :=
  ⟨grows_write rfl id, hs.write hj rfl Iff.rfl⟩

theorem Sound.alloc (hs : h.Sound) (hup : ∀ j, n.up = some j → j ≤ h.size)
    (hfail : ∀ j, n.up = some j → j ≠ h.size → (∃ e, n.state = .error e) → h.Failed j) :
    (h.alloc n).Sound := by
  have hgrows := grows_alloc h n
  refine ⟨fun k hk j hj => ?_, fun k hk j hj hf => ?_⟩
  · rcases Nat.lt_succ_iff_lt_or_eq.mp hk with hlt | rfl
    · rw [hgrows.up k hlt] at hj
      exact hs.older k hlt j hj
    · simp only [Heap.alloc, update_self] at hj
      exact hup j hj
  · rcases Nat.lt_succ_iff_lt_or_eq.mp hk with hlt | rfl
    · rw [hgrows.up k hlt] at hj
      have hf' : h.Failed k := by simpa [Failed, Heap.alloc, Nat.ne_of_lt hlt] using hf
      have hjlt := Nat.lt_of_le_of_lt (hs.older k hlt j hj) hlt
      exact hgrows.failed j hjlt (hs.passed k hlt j hj hf')
    · rcases eq_or_ne j h.size with rfl | hne
      · exact hf
      · simp only [Failed, Heap.alloc, update_self] at hj hf
        exact hgrows.failed j (Nat.lt_of_le_of_ne (hup j hj) hne) (hfail j hj hne hf)

theorem Sound.root (hs : h.Sound) (it : Iter) : (h.alloc (.root it)).Sound :=
  hs.alloc nofun nofun

end Heap

theorem scan_failed {p : Bool} {s : State} {v text : Text} {e : Error} :
    (scan p s v text).2.state = .error e ↔ (scan p s v text).1 = .error e := by
  induction text generalizing s v with
  | nil =>
    simp only [scan, atEnd]
    by_cases hopen : s.outer ≠ [] ∨ p = true
    · simp [hopen]
    · by_cases hpair : (s.sub && s.key) = true <;> cases s.mode <;> simp [hopen, hpair]
  | cons c cs ih =>
    rw [scan]
    cases byte s c with
    | go s' | begins s' => exact ih
    | closed s' =>
      split_ifs <;> simp
    | opened | word | text | error => simp

namespace Heap

variable {h h' : Heap} {i j : ℕ} {e : Error} {tr : List (ℕ × Outcome)}

/-- **What a call does**: the error of an iterator stays, a new one goes to the iterator and its
parents, and otherwise no iterator fails. -/
theorem next_spec (hi : i < h.size) (hs : h.Sound) : Grows h (h.next i).2 ∧ (h.next i).2.Sound ∧
      ∀ e, (h.next i).1 = .error e → (h.next i).2.Failed i := by
  unfold next
  split
  · rename_i e he
    exact ⟨.refl h, hs, fun _ _ => ⟨e, he⟩⟩
  · rename_i s hok
    have hnofail : ¬ h.Failed i := by
      rintro ⟨e, he⟩
      rw [hok] at he
      cases he
    have hres : ∀ e, (Json.next (h.node i).iter).2.state = .error e ↔
        (Json.next (h.node i).iter).1 = .error e := by
      intro e
      have hstate : (h.node i).iter.state = .ok s := hok
      rw [Json.next, hstate]
      exact scan_failed
    generalize Json.next (h.node i).iter = r at hres
    obtain ⟨o, it⟩ := r
    have hgrows : Grows h (h.store i it) :=
      grows_write rfl fun hf => absurd hf hnofail
    -- a call that does not fail
    have hsound : (∀ e, o ≠ .error e) → (h.store i it).Sound := by
      intro hne
      refine hs.write hi rfl ⟨fun hf => absurd hf hnofail, ?_⟩
      rintro ⟨e, he⟩
      exact absurd ((hres e).mp he) (hne e)
    cases o with
    | close =>
      split
      · rename_i j hup
        have hj : j < h.size := Nat.lt_of_le_of_lt (hs.older i hi j hup) hi
        obtain ⟨hmove, hmoved⟩ := (hsound nofun).move hj it.cur
        exact ⟨hgrows.trans hmove, hmoved, nofun⟩
      · exact ⟨hgrows, hsound nofun, nofun⟩
    | error e =>
      have hfail : (h.store i it).Failed i :=
        ⟨e, by simpa [store, Heap.write] using (hres e).mpr rfl⟩
      have hpass : Grows _ ((h.store i it).propagate e h.size i) :=
        grows_propagate h.size
      refine ⟨hgrows.trans hpass, ?_, fun _ _ => hpass.failed i hi hfail⟩
      refine Sound.propagate h.size hi ?_ hi hfail ?_
      · intro k hk j hj
        rw [hgrows.up k hk] at hj
        exact hs.older k hk j hj
      · intro k hk hne j hj hf
        rw [hgrows.up k hk] at hj
        have hf' : h.Failed k := by simpa [Failed, store, Heap.write, hne] using hf
        have hlt := Nat.lt_of_le_of_lt (hs.older k hk j hj) hk
        exact hgrows.failed j hlt (hs.passed k hk j hj hf')
    | token value len | finish => exact ⟨hgrows, hsound nofun, nofun⟩

theorem beginContainer_spec (data : Text) (array relax : Bool) (hs : h.Sound) :
    Grows h (h.beginContainer data array relax).2 ∧ (h.beginContainer data array relax).2.Sound := by
  have hself : ∀ {it : Iter}, (h.alloc ⟨it.cur, some h.size, (Json.enter it).state⟩).Sound := by
    intro it
    apply hs.alloc
    · intro j hj
      exact Nat.le_of_eq (some.inj hj).symm
    · intro j hj hne
      exact absurd (some.inj hj).symm hne
  unfold beginContainer
  split
  · split
    · split_ifs
      · exact ⟨grows_alloc .., hself⟩
      · exact ⟨grows_alloc .., hs.root _⟩
    · split_ifs
      · exact ⟨grows_alloc .., hs.alloc nofun nofun⟩
      · exact ⟨grows_alloc .., hs.root _⟩
  · exact ⟨grows_alloc .., hs.root _⟩

theorem enter_spec (hi : i < h.size) (hs : h.Sound) : Grows h (h.enter i) ∧ (h.enter i).Sound := by
  refine ⟨grows_alloc .., hs.alloc ?_ ?_⟩
  · intro j hj
    obtain rfl : i = j := some.inj hj
    exact Nat.le_of_lt hi
  · rintro j hj - ⟨e, he⟩
    obtain rfl : i = j := some.inj hj
    -- an iterator that enters takes over the error
    simp only [Json.enter, Node.iter] at he
    cases hst : (h.node i).state with
    | error e' => exact ⟨e', hst⟩
    | ok s =>
      rw [hst] at he
      cases he

/-- **A step of the program.** -/
theorem step_spec {c : Call} {es : List (ℕ × Outcome)} (hs : h.Sound)
    (hstep : iterators.step h c = some (h', es)) : Grows h h' ∧ h'.Sound := by
  cases c with
  | init data =>
    cases hstep
    exact ⟨grows_alloc .., hs.root _⟩
  | beginContainer data array relax =>
    cases hstep
    exact beginContainer_spec data array relax hs
  | enter i =>
    simp only [iterators] at hstep
    split_ifs at hstep with hi
    cases hstep
    exact enter_spec hi hs
  | next i =>
    simp only [iterators] at hstep
    split_ifs at hstep with hi
    cases hstep
    obtain ⟨hgrows, hsound, -⟩ := next_spec hi hs
    exact ⟨hgrows, hsound⟩

theorem sound_empty : empty.Sound := ⟨nofun, nofun⟩

/-- **A run of the program.** -/
theorem run_spec (hs : h.Sound) (hr : iterators.Reaches h h' tr) : Grows h h' ∧ h'.Sound := by
  induction hr with
  | refl => exact ⟨.refl h, hs⟩
  | snoc _ hstep ih =>
    obtain ⟨hgrows, hsound⟩ := step_spec ih.2 hstep
    exact ⟨ih.1.trans hgrows, hsound⟩

/-- `j` is `i`, or one of its ancestors. -/
def Above (h : Heap) : ℕ → ℕ → Prop := Relation.ReflTransGen fun i j => (h.node i).up = some j

theorem Sound.above (hs : h.Sound) (hi : i < h.size) (hf : h.Failed i) (ha : h.Above i j) :
    j < h.size ∧ h.Failed j := by
  induction ha with
  | refl => exact ⟨hi, hf⟩
  | tail _ hup ih =>
    obtain ⟨hlt, hfail⟩ := ih
    exact ⟨Nat.lt_of_le_of_lt (hs.older _ hlt _ hup) hlt, hs.passed _ hlt _ hup hfail⟩

theorem Failed.next (hf : h.Failed i) : ∃ e, h.next i = (.error e, h) := by
  obtain ⟨e, he⟩ := hf
  exact ⟨e, by rw [Heap.next, he]⟩

/-- **Errors stay.** After a call that returned -1, every later call on the iterator and on its
ancestors returns -1. -/
theorem failed_later {h₁ h₂ : Heap} {tr' : List (ℕ × Outcome)} (hr : iterators.Reaches empty h tr)
    (hstep : iterators.step h (.next i) = some (h₁, [(i, .error e)]))
    (hlater : iterators.Reaches h₁ h₂ tr') (ha : h₁.Above i j) :
    ∃ e', iterators.step h₂ (.next j) = some (h₂, [(j, .error e')]) := by
  obtain ⟨-, hs⟩ := run_spec sound_empty hr
  simp only [iterators] at hstep
  split_ifs at hstep with hi
  obtain ⟨rfl, he⟩ : (h.next i).2 = h₁ ∧ (h.next i).1 = .error e := by simpa using hstep
  obtain ⟨hgrows, hs₁, hfail⟩ := next_spec hi hs
  obtain ⟨hj, hfj⟩ := hs₁.above (Nat.lt_of_lt_of_le hi hgrows.size) (hfail e he) ha
  obtain ⟨hgrows₂, -⟩ := run_spec hs₁ hlater
  obtain ⟨e', hnext⟩ := (hgrows₂.failed j hj hfj).next
  refine ⟨e', ?_⟩
  simp only [iterators, hnext, if_pos (Nat.lt_of_lt_of_le hj hgrows₂.size)]

end Heap

end PipeWireAO.Json
