import Mathlib.Data.List.Nodup
import Mathlib.Tactic.Common

/-!
# Computations that may fail

What a sequence, or a loop, of computations in `Except` did, read off its result: each part that
was reached succeeded, and the last one gave the result.
-/

namespace Foundation

open List

universe u

variable {ε σ : Type*} {α β : Type u} {x : Except ε α} {l' : List β} {f : α → Except ε β}

theorem bind_eq_ok {b : β} : (x >>= f) = .ok b ↔ ∃ a, x = .ok a ∧ f a = .ok b := by
  cases x with
  | error e =>
    constructor
    · rintro ⟨⟩
    · rintro ⟨_, ⟨⟩, _⟩
  | ok a =>
    constructor
    · intro h
      exact ⟨a, rfl, h⟩
    · rintro ⟨a', ha, h⟩
      cases ha
      exact h

variable {e : ε}

theorem ite_error_eq_ok {p : Prop} [Decidable p] {a : α} :
    (if p then .error e else x) = .ok a ↔ ¬ p ∧ x = .ok a := by
  by_cases hp : p
  · rw [if_pos hp]
    exact ⟨nofun, fun h => absurd hp h.1⟩
  · rw [if_neg hp]
    exact ⟨fun h => ⟨hp, h⟩, fun h => h.2⟩

theorem bind_eq_error : (x >>= f) = .error e ↔ x = .error e ∨ ∃ a, x = .ok a ∧ f a = .error e := by
  cases x with
  | error e' =>
    constructor
    · intro h
      cases h
      exact .inl rfl
    · rintro (h | ⟨_, h, _⟩)
      · cases h
        rfl
      · cases h
  | ok a =>
    constructor
    · intro h
      exact .inr ⟨a, rfl, h⟩
    · rintro (h | ⟨a', ha, h⟩)
      · cases h
      · cases ha
        exact h

theorem exists_ok_such {P : α → Prop} (h : ∃ a ∈ x.toOption, P a) : ∃ a, x = .ok a ∧ P a := by
  obtain ⟨a, ha, hp⟩ := h
  cases x with
  | error e => cases ha
  | ok =>
    cases ha
    exact ⟨a, rfl, hp⟩

/-- An early return: the error `e` if the condition holds. -/
def refuse (c : Prop) [Decidable c] (e : ε) : Except ε PUnit.{u + 1} :=
  if c then .error e else .ok ⟨⟩

theorem refuse_eq_ok {c : Prop} [Decidable c] {a : PUnit.{u + 1}} : refuse c e = .ok a ↔ ¬ c := by
  by_cases h : c <;> simp [refuse, h]

section Loop

variable {γ : Type*} {f : σ → γ → Except ε σ} {I : σ → Prop} {l : List γ} {s s' : σ}

/-- **The invariant of a loop** holds at its end. -/
theorem foldlM_ok (hstep : ∀ {s a s'}, a ∈ l → I s → f s a = .ok s' → I s') (hs : I s)
    (h : l.foldlM f s = .ok s') : I s' := by
  induction l generalizing s with
  | nil =>
    cases h
    exact hs
  | cons a l ih =>
    obtain ⟨s₁, ha, h⟩ := bind_eq_ok.mp h
    apply ih (fun hm => hstep (mem_cons_of_mem a hm)) _ h
    exact hstep mem_cons_self hs ha

/-- **The error of a loop** is that of one of its rounds, in a state with the invariant. -/
theorem foldlM_error (hstep : ∀ {s a s'}, a ∈ l → I s → f s a = .ok s' → I s') (hs : I s)
    (h : l.foldlM f s = .error e) : ∃ s a, a ∈ l ∧ I s ∧ f s a = .error e := by
  induction l generalizing s with
  | nil => cases h
  | cons a l ih =>
    rcases bind_eq_error.mp h with h | ⟨s₁, ha, h⟩
    · exact ⟨s, a, mem_cons_self, hs, h⟩
    · obtain ⟨s₂, b, hb, hi, hf⟩ := ih (fun hm => hstep (mem_cons_of_mem a hm))
        (hstep mem_cons_self hs ha) h
      exact ⟨s₂, b, mem_cons_of_mem a hb, hi, hf⟩

end Loop

/-! ## Lists that a loop makes longer -/

section Concat

variable {α β : Type*} {l : List α} {a : α}

theorem nodup_concat {f : α → β} (h : (l.map f).Nodup) (hnew : ∀ b ∈ l, f b ≠ f a) :
    ((l ++ [a]).map f).Nodup := by
  rw [map_append, nodup_append]
  refine ⟨h, nodup_singleton _, ?_⟩
  rintro x hx y hy rfl
  obtain ⟨b, hb, rfl⟩ := mem_map.mp hx
  exact hnew b hb (mem_singleton.mp hy)

theorem forall_mem_concat {P : α → Prop} (h : ∀ b ∈ l, P b) (ha : P a) : ∀ b ∈ l ++ [a], P b :=
  forall_mem_append.mpr ⟨h, forall_mem_singleton.mpr ha⟩

end Concat

section List

variable {γ : Type*} {f : γ → Except ε β} {l : List γ}

theorem forall₂_of_mapM_ok (h : l.mapM f = .ok l') :
    List.Forall₂ (fun a b => f a = .ok b) l l' := by
  induction l generalizing l' with
  | nil =>
    cases h
    exact .nil
  | cons a l ih =>
    rw [mapM_cons] at h
    obtain ⟨b, ha, h⟩ := bind_eq_ok.mp h
    obtain ⟨bs, hl, h⟩ := bind_eq_ok.mp h
    cases h
    exact .cons ha (ih hl)

theorem mem_of_mapM_ok (h : l.mapM f = .ok l') {b : β} (hb : b ∈ l') : ∃ a ∈ l, f a = .ok b := by
  have hall := forall₂_of_mapM_ok h
  clear h
  induction hall with
  | nil => cases hb
  | cons ha _ ih =>
    rcases mem_cons.mp hb with rfl | hb
    · exact ⟨_, mem_cons_self, ha⟩
    · obtain ⟨a, hmem, hf⟩ := ih hb
      exact ⟨a, mem_cons_of_mem _ hmem, hf⟩

theorem mapM_error (h : l.mapM f = .error e) : ∃ a ∈ l, f a = .error e := by
  induction l with
  | nil => cases h
  | cons a l ih =>
    rw [mapM_cons] at h
    rcases bind_eq_error.mp h with ha | ⟨b, -, h⟩
    · exact ⟨a, mem_cons_self, ha⟩
    · rcases bind_eq_error.mp h with hl | ⟨bs, -, h⟩
      · obtain ⟨a', hmem, hf⟩ := ih hl
        exact ⟨a', mem_cons_of_mem a hmem, hf⟩
      · cases h

theorem exists_mapM_ok (h : ∀ a ∈ l, ∃ b, f a = .ok b) : ∃ l', l.mapM f = .ok l' := by
  cases hl : l.mapM f with
  | ok l' => exact ⟨l', rfl⟩
  | error e =>
    obtain ⟨a, ha, herr⟩ := mapM_error hl
    obtain ⟨b, hb⟩ := h a ha
    rw [hb] at herr
    cases herr

end List

/-! ## Checks -/

/-- The check `c` succeeds only if there is no fault, and fails with `e` only if there is one. It
may fail with another error in either case. -/
structure Detects (e : ε) (c : Except ε PUnit.{u + 1}) (fault : Prop) : Prop where
  sound : c = .ok ⟨⟩ → ¬ fault
  exact : c = .error e → fault

namespace Detects

variable {e : ε} {c c' : Except ε PUnit.{u + 1}} {fault fault' : Prop}

theorem refuse (fault : Prop) [Decidable fault] : Detects e (refuse fault e) fault := by
  by_cases h : fault <;> constructor <;> simp [Foundation.refuse, h]

theorem congr (h : Detects e c fault) (hiff : fault ↔ fault') : Detects e c fault' :=
  ⟨fun hc hf => h.sound hc (hiff.mpr hf), fun hc => hiff.mp (h.exact hc)⟩

theorem bind {f : α → Except ε PUnit.{u + 1}} (hx : x ≠ .error e)
    (h : ∀ a, x = .ok a → Detects e (f a) fault) : Detects e (x >>= f) fault := by
  constructor
  · intro hok
    obtain ⟨a, ha, hf⟩ := bind_eq_ok.mp hok
    exact (h a ha).sound hf
  · intro herr
    rcases bind_eq_error.mp herr with hx' | ⟨a, ha, hf⟩
    · exact absurd hx' hx
    · exact (h a ha).exact hf

theorem seq (h : Detects e c fault) (h' : Detects e c' fault') :
    Detects e (c >>= fun _ => c') (fault ∨ fault') := by
  constructor
  · intro hok
    obtain ⟨_, hc, hc'⟩ := bind_eq_ok.mp hok
    rintro (hf | hf)
    · exact h.sound hc hf
    · exact h'.sound hc' hf
  · intro herr
    rcases bind_eq_error.mp herr with hc | ⟨_, -, hc'⟩
    · exact .inl (h.exact hc)
    · exact .inr (h'.exact hc')

theorem forM {γ : Type*} {l : List γ} {f : γ → Except ε PUnit.{u + 1}} {fault : γ → Prop}
    (h : ∀ a ∈ l, Detects e (f a) (fault a)) : Detects e (l.forM f) (∃ a ∈ l, fault a) := by
  induction l with
  | nil => exact ⟨by simp, nofun⟩
  | cons a l ih =>
    refine ((h a mem_cons_self).seq (ih fun b hb => h b (mem_cons_of_mem a hb))).congr ?_
    simp

end Detects

end Foundation
