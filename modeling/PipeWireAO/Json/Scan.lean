import PipeWireAO.Json.Tokenizer
import Mathlib.Tactic.Common

/-!
# What the tokenizer does with the bytes of a container

The tokenizer looks at the content of a container twice: when it goes over the container to the next
token, and when a second iterator enters the container. This module says what one call does from
inside of a container, and that the bytes mean the same from outside of it.
-/

namespace PipeWireAO.Json

open List

/-! ## Between tokens and inside of them -/

/-- A word or a string of the current container is being read. -/
def State.busy (s : State) : Bool :=
  s.outer = [] && match s.mode with
    | .bare | .string | .utf8 _ | .esc => true
    | .none | .struct | .comment => false

/-- The flags of the container that the iterator is in. -/
def State.array₀ (s : State) : Bool := s.outer.getLastD s.array

def State.key₀ (s : State) : Bool := s.outer = [] && s.key

/-- The state between two tokens, with the flags `array` and `key`. -/
def between (array key : Bool) : State := ⟨.struct, array, key, true, []⟩

/-- The iterator has started, is inside of a container, and there are no keys in arrays. -/
structure State.Inside (s : State) : Prop where
  started : s.mode ≠ .none
  sub : s.sub = true
  noKey : s.array = true → s.key = false

variable {s : State} {c : UInt8}

open State (busy)

/-- **What a byte of a token does**: it goes on, or the token is complete. -/
theorem byte_busy (hs : s.busy = true) :
    (∃ m, byte s c = .go { s with mode := m } ∧ ({ s with mode := m } : State).busy = true) ∨
      byte s c = .word { s with mode := .struct } ∨ byte s c = .text { s with mode := .struct } ∨
      ∃ e, byte s c = .error e := by
  obtain ⟨mode, array, key, sub, outer⟩ := s
  simp only [busy, Bool.and_eq_true, decide_eq_true_eq] at hs
  obtain ⟨rfl, hmode⟩ := hs
  cases mode with
  | none | struct | comment => cases hmode
  | bare =>
    simp only [byte, bareByte]
    cases classify c <;> simp [busy]
  | string =>
    simp only [byte, stringByte]
    split_ifs <;> simp [busy]
  | utf8 remain | esc =>
    simp only [byte]
    split_ifs <;> simp [busy]

/-- A byte that begins and ends nothing in the container of the iterator. -/
structure Keeps (s s' : State) : Prop where
  inside : s'.Inside
  idle : s'.busy = false
  array : s'.array₀ = s.array₀
  key : s'.key₀ = s.key₀

/-- What a byte does that is not part of a word or a string of the current container. -/
def IdleMove (s : State) (c : UInt8) : Move → Prop
  | .go s' => Keeps s s'
  | .begins s' =>
    (s.outer = [] ∧ (classify c = .quote ∨ classify c = .plain ∧ s'.mode = .bare) ∧ s'.busy = true ∧
      ({ s' with mode := .struct } : State) = between s.array₀ (if s.array₀ then s.key₀ else !s.key₀)) ∨
    Keeps s s'
  | .opened s' =>
    ∃ b, classify c = .opening b ∧ (s.array₀ = false → s.key₀ = true) ∧
      s' = ⟨.struct, b, false, true, [s.array₀]⟩
  | .closed s' => s.key₀ = false ∧ s' = between s.array₀ false
  | .word _ | .text _ => False
  | .error _ => True

theorem IdleMove.of_mode {m : Mode} {x : Move} (h : IdleMove { s with mode := m } c x) :
    IdleMove s c x := by
  have keeps : ∀ s', Keeps { s with mode := m } s' → Keeps s s' := fun _ k =>
    ⟨k.inside, k.idle, k.array, k.key⟩
  cases x with
  | go s' => exact keeps s' h
  | begins s' => exact Or.imp_right (keeps s') h
  | opened | closed | word | text | error => exact h

variable {array : Bool} {value : Text} {len : ℕ}

theorem openBracket_idle (hs : s.Inside) (hc : classify c = .opening array) :
    IdleMove s c (openBracket s array) := by
  obtain ⟨mode, a, key, sub, outer⟩ := s
  obtain ⟨hmode, hsub, hkey⟩ := hs
  obtain rfl : sub = true := hsub
  have hkey' : (a && key) = false := by
    cases a
    · rfl
    · exact hkey rfl
  simp only [openBracket, Bool.and_true, hkey']
  split_ifs with hexpect hnil hdeep
  · trivial
  · obtain rfl : outer = [] := hnil
    refine ⟨array, hc, fun ha => ?_, rfl⟩
    obtain rfl : a = false := ha
    simpa [State.key₀] using hexpect
  · trivial
  · refine .inr ⟨⟨by simp, rfl, fun _ => rfl⟩, by simp [busy], ?_, ?_⟩
    · exact getLastD_cons
    · have hnil' : outer ≠ [] := hnil
      simp [State.key₀, hnil']

theorem closeBracket_idle : IdleMove s c (closeBracket s array) := by
  obtain ⟨mode, a, key, sub, outer⟩ := s
  simp only [closeBracket]
  split_ifs with _ _ hkey
  · trivial
  · trivial
  · trivial
  · obtain rfl : key = false := by simpa using hkey
    cases outer with
    | nil => exact ⟨rfl, rfl⟩
    | cons b outer =>
      dsimp only
      split_ifs
      · trivial
      · refine ⟨⟨by simp, rfl, fun _ => rfl⟩, by simp [busy], ?_, by simp [State.key₀]⟩
        exact getLastD_cons.symm

theorem structByte_idle (c : UInt8) (hs : s.Inside) (hb : s.mode = .struct) :
    IdleMove s c (structByte s c) := by
  obtain ⟨mode, a, key, sub, outer⟩ := s
  obtain rfl : mode = .struct := hb
  obtain ⟨-, hsub, hkey⟩ := hs
  obtain rfl : sub = true := hsub
  have hs : State.Inside ⟨.struct, a, key, true, outer⟩ := ⟨by simp, rfl, hkey⟩
  unfold structByte
  -- a word begins a token, if it is not inside of another container
  have begins : ∀ m : Mode, (classify c = .quote ∧ m = .string ∨ classify c = .plain ∧ m = .bare) →
      IdleMove ⟨.struct, a, key, true, outer⟩ c
        (.begins { State.alternate ⟨.struct, a, key, true, outer⟩ with mode := m }) := by
    intro m hclass
    have hm : m ≠ .none := by rcases hclass with ⟨-, rfl⟩ | ⟨-, rfl⟩ <;> simp
    by_cases hnil : outer = []
    · subst hnil
      refine .inl ⟨rfl, hclass.imp_left And.left, ?_, ?_⟩
      · rcases hclass with ⟨-, rfl⟩ | ⟨-, rfl⟩ <;> rfl
      · cases a <;> rfl
    · refine .inr ⟨⟨hm, rfl, fun ha => ?_⟩, by simp [busy, hnil, State.alternate], rfl,
        by simp [State.key₀, hnil, State.alternate]⟩
      simp only [State.alternate] at ha ⊢
      rw [if_pos ha]
      exact hkey ha
  cases hclass : classify c with
  | blank => exact ⟨hs, by simp [busy], rfl, rfl⟩
  | separator =>
    split_ifs
    · trivial
    · trivial
    · exact ⟨hs, by simp [busy], rfl, rfl⟩
  | comment => exact ⟨⟨by simp, rfl, hkey⟩, by simp [busy], rfl, rfl⟩
  | quote => exact begins _ (.inl ⟨hclass, rfl⟩)
  | opening array => exact openBracket_idle hs hclass
  | closing array => exact closeBracket_idle
  | plain => exact begins _ (.inr ⟨hclass, rfl⟩)
  | backslash | invalid => trivial

/-- **What a byte between tokens does.** -/
theorem byte_idle (c : UInt8) (hs : s.Inside) (hb : s.busy = false) : IdleMove s c (byte s c) := by
  obtain ⟨mode, a, key, sub, outer⟩ := s
  obtain ⟨hmode, hsub, hkey⟩ := hs
  obtain rfl : sub = true := hsub
  -- inside of another container, a byte of a token changes nothing
  have keeps : ∀ m : Mode, m ≠ .none → outer ≠ [] →
      Keeps ⟨mode, a, key, true, outer⟩ ⟨m, a, key, true, outer⟩ := fun m hm hnil =>
    ⟨⟨hm, rfl, hkey⟩, by simp [busy, hnil], rfl, rfl⟩
  cases mode with
  | none => exact absurd rfl hmode
  | struct => exact structByte_idle c ⟨hmode, rfl, hkey⟩ rfl
  | comment =>
    simp only [byte]
    split_ifs
    · exact ⟨⟨by simp, rfl, hkey⟩, by simp [busy], rfl, rfl⟩
    · exact ⟨⟨by simp, rfl, hkey⟩, by simp [busy], rfl, rfl⟩
  | bare =>
    have hnil : outer ≠ [] := by simpa [busy] using hb
    have hstruct := structByte_idle (s := ⟨.struct, a, key, true, outer⟩) c ⟨by simp, rfl, hkey⟩ rfl
    simp only [byte, bareByte, hnil, if_false]
    cases classify c with
    | plain => exact keeps _ (by simp) hnil
    | backslash | invalid => trivial
    | blank | separator | comment | quote | opening | closing => exact hstruct.of_mode
  | string | utf8 _ | esc =>
    have hnil : outer ≠ [] := by simpa [busy] using hb
    simp only [byte, stringByte, hnil, if_false]
    split_ifs <;> first | trivial | exact keeps _ (by simp) hnil

/-! ## One token -/

section Scan

variable {p : Bool} {s : State} {v text : Text} {o : Outcome} {it : Iter} {c : UInt8}

theorem atEnd_token (h : atEnd p s v = (.token value len, it)) :
    value = v ∧ len = v.length ∧ s.busy = true ∧ it = ⟨[], p, .ok { s with mode := .struct }⟩ := by
  obtain ⟨mode, a, key, sub, outer⟩ := s
  cases p with
  | true => simp [atEnd] at h
  | false =>
    cases outer with
    | cons => simp [atEnd] at h
    | nil =>
      by_cases hpair : (sub && key) = true
      · cases mode <;> simp [atEnd, hpair] at h
      · cases mode <;> simp [atEnd, hpair] at h
        obtain ⟨⟨rfl, rfl⟩, rfl⟩ := h
        exact ⟨rfl, rfl, rfl, rfl⟩

theorem atEnd_ne_close : (atEnd p s v).1 ≠ .close := by
  obtain ⟨mode, a, key, sub, outer⟩ := s
  by_cases hend : outer ≠ [] ∨ p = true
  · simp [atEnd, hend]
  · by_cases hpair : (sub && key) = true <;> cases mode <;> simp [atEnd, hend, hpair]

theorem scan_busy (hs : s.busy = true) (h : scan p s v text = (.token value len, it)) :
    value = v ∧ len ≤ v.length ∧ it.cur.length ≤ text.length ∧ it.parent = p ∧
      it.state = .ok { s with mode := .struct } := by
  induction text generalizing s with
  | nil =>
    obtain ⟨rfl, rfl, -, rfl⟩ := atEnd_token h
    exact ⟨rfl, Nat.le_refl _, Nat.le_refl _, rfl, rfl⟩
  | cons c cs ih =>
    rw [scan] at h
    rcases byte_busy (c := c) hs with ⟨m, hm, hs'⟩ | hm | hm | ⟨e, hm⟩
    · rw [hm] at h
      obtain ⟨hv, hlen, hcur, hp, hst⟩ := ih hs' h
      exact ⟨hv, hlen, Nat.le_succ_of_le hcur, hp, hst⟩
    · rw [hm] at h
      cases h
      exact ⟨rfl, Nat.sub_le _ _, Nat.le_refl _, rfl, rfl⟩
    · rw [hm] at h
      cases h
      exact ⟨rfl, Nat.sub_le _ _, Nat.le_succ _, rfl, rfl⟩
    · rw [hm] at h
      cases h

theorem scan_busy_ne_close (hs : s.busy = true) : scan p s v text ≠ (.close, it) := by
  induction text generalizing s with
  | nil => exact fun h => atEnd_ne_close (congrArg Prod.fst h)
  | cons c cs ih =>
    rw [scan]
    rcases byte_busy (c := c) hs with ⟨m, hm, hs'⟩ | hm | hm | ⟨e, hm⟩
    · rw [hm]
      exact ih hs'
    · simp [hm]
    · simp [hm]
    · simp [hm]

theorem eq_of_classify_quote (h : classify c = .quote) : c = 34 := by
  unfold classify at h
  split_ifs at h
  assumption

/-- A bare word has plain bytes only; `pre` are those that were read so far. -/
theorem scan_bare (pre : Text) (hm : s.mode = .bare) (hnil : s.outer = [])
    (hpre : ∀ c ∈ pre, classify c = .plain)
    (h : scan p s (pre ++ text) text = (.token value len, it)) :
    ∀ c ∈ tokenBytes value len, classify c = .plain := by
  induction text generalizing pre with
  | nil =>
    obtain ⟨rfl, rfl, -⟩ := atEnd_token h
    simpa [tokenBytes] using hpre
  | cons c cs ih =>
    simp only [scan, byte, hm, bareByte, hnil, if_true] at h
    cases hclass : classify c with
    | plain =>
      rw [hclass] at h
      apply ih (pre ++ [c]) (forall_mem_append.mpr ⟨hpre, forall_mem_singleton.mpr hclass⟩)
      rwa [append_assoc]
    | backslash | invalid =>
      rw [hclass] at h
      simp at h
    | blank | separator | comment | quote | opening | closing =>
      rw [hclass] at h
      cases h
      rw [length_append, Nat.add_sub_cancel, tokenBytes, take_left]
      exact hpre

/-- **The next token.** In an object, keys and values alternate; a container is a value. -/
structure NextToken (p : Bool) (s : State) (text value : Text) (len : ℕ) (it : Iter) : Prop where
  shorter : it.cur.length < text.length
  fits : len ≤ value.length
  parent : it.parent = p
  word : container value = none →
    it.state = .ok (between s.array₀ (if s.array₀ then s.key₀ else !s.key₀))
  bytes : container value = none →
    value.head? = some 34 ∨ ∀ c ∈ tokenBytes value len, classify c = .plain
  opened : ∀ b, container value = some b → len = 1 ∧
    (s.array₀ = false → s.key₀ = true) ∧ it.state = .ok ⟨.struct, b, false, true, [s.array₀]⟩

theorem NextToken.of_keeps {s' : State} (hk : Keeps s s') (h : NextToken p s' text value len it) :
    NextToken p s (c :: text) value len it where
  shorter := Nat.lt_succ_of_lt h.shorter
  fits := h.fits
  parent := h.parent
  word hv := by rw [h.word hv, hk.array, hk.key]
  bytes := h.bytes
  opened b hb := by rw [← hk.array, ← hk.key]; exact h.opened b hb

theorem scan_token (hs : s.Inside) (hb : s.busy = false)
    (h : scan p s v text = (.token value len, it)) : NextToken p s text value len it := by
  induction text generalizing s v with
  | nil =>
    obtain ⟨-, -, hbusy, -⟩ := atEnd_token h
    rw [hb] at hbusy
    cases hbusy
  | cons c cs ih =>
    rw [scan] at h
    have hmove := byte_idle c hs hb
    generalize byte s c = m at h hmove
    cases m with
    | go s' =>
      exact (ih hmove.inside hmove.idle h).of_keeps hmove
    | begins s' =>
      rcases hmove with ⟨hnil, hclass, hbusy, hst⟩ | hk
      · obtain ⟨rfl, hlen, hcur, hp, hit⟩ := scan_busy hbusy h
        refine ⟨Nat.lt_succ_of_le hcur, hlen, hp, fun _ => by rw [hit, hst], fun _ => ?_, fun b hb => ?_⟩
        · rcases hclass with hquote | ⟨hplain, hbare⟩
          · exact .inl (congrArg some (eq_of_classify_quote hquote))
          · right
            have hnil' : s'.outer = [] := congrArg State.outer hst
            exact scan_bare [c] hbare hnil' (forall_mem_singleton.mpr hplain) h
        · simp only [container, head?_cons, Option.map_some] at hb
          rcases hclass with hc | ⟨hc, -⟩ <;> simp [hc] at hb
      · exact (ih hk.inside hk.idle h).of_keeps hk
    | opened s' =>
      obtain ⟨b, hc, hkey, rfl⟩ := hmove
      cases h
      have hval : container (c :: cs) = some b := by simp [container, hc]
      refine ⟨Nat.lt_succ_self _, by simp, rfl, fun hn => ?_, fun hn => ?_, fun b' hb' => ?_⟩
      · rw [hval] at hn
        cases hn
      · rw [hval] at hn
        cases hn
      · rw [hval] at hb'
        cases hb'
        exact ⟨rfl, hkey, rfl⟩
    | closed s' =>
      split_ifs at h <;> simp at h
    | word s' | text s' =>
      exact hmove.elim
    | error e =>
      cases h

/-- **The end of the container.** -/
theorem scan_close (hs : s.Inside) (hb : s.busy = false) (h : scan p s v text = (.close, it)) :
    s.key₀ = false ∧ it.cur.length ≤ text.length ∧ it.parent = p ∧
      it.state = .ok (between s.array₀ false) := by
  induction text generalizing s v with
  | nil => exact absurd (congrArg Prod.fst h) atEnd_ne_close
  | cons c cs ih =>
    rw [scan] at h
    have hmove := byte_idle c hs hb
    have keeps : ∀ s' w, Keeps s s' → scan p s' w cs = (.close, it) →
        s.key₀ = false ∧ it.cur.length ≤ (c :: cs).length ∧ it.parent = p ∧
          it.state = .ok (between s.array₀ false) := by
      intro s' w hk hscan
      obtain ⟨hkey, hcur, hp, hit⟩ := ih hk.inside hk.idle hscan
      exact ⟨hk.key ▸ hkey, Nat.le_succ_of_le hcur, hp, hk.array ▸ hit⟩
    generalize byte s c = m at h hmove
    cases m with
    | go s' =>
      exact keeps s' _ hmove h
    | begins s' =>
      rcases hmove with ⟨-, -, hbusy, -⟩ | hk
      · exact absurd h (scan_busy_ne_close hbusy)
      · exact keeps s' _ hk h
    | closed s' =>
      obtain ⟨hkey, rfl⟩ := hmove
      split_ifs at h
      · cases h
        exact ⟨hkey, Nat.le_refl _, rfl, rfl⟩
      · simp at h
    | opened s' | word s' | text s' | error e =>
      simp at h

theorem atEnd_value (v w : Text) (hb : s.busy = false) : atEnd p s v = atEnd p s w := by
  obtain ⟨mode, a, key, sub, outer⟩ := s
  cases mode with
  | bare =>
    have hnil : outer ≠ [] := by simpa [busy] using hb
    simp [atEnd, hnil]
  | none | struct | comment | string | utf8 | esc => rfl

theorem scan_value (v w : Text) (hs : s.Inside) (hb : s.busy = false) :
    scan p s v text = scan p s w text := by
  induction text generalizing s with
  | nil => exact atEnd_value v w hb
  | cons c cs ih =>
    have hmove := byte_idle c hs hb
    rw [scan, scan]
    cases hm : byte s c with
    | go s' =>
      rw [hm] at hmove
      exact ih hmove.inside hmove.idle
    | word s' | text s' =>
      rw [hm] at hmove
      exact hmove.elim
    | begins | opened | closed | error => rfl

end Scan

/-! ## The same bytes from outside of the container -/

/-- The state of an iterator around the container, which has passed its bracket with the array flags
`base`. -/
def State.lift (s : State) (base : List Bool) : State := { s with outer := s.outer ++ base }

/-- What a byte does for both iterators, unless it is an error for the one around the container. -/
def LiftMove (base : List Bool) (c : UInt8) (x : Move) : Move → Prop
  | .go s' => x = .go (s'.lift base) ∧ s'.mode ≠ .none
  | .begins s' => x = .begins (s'.lift base) ∧ s'.mode ≠ .none
  | .opened s' => x = .begins (s'.lift base) ∧ s'.mode = .struct
  | .text s' => x = .go (s'.lift base) ∧ s'.mode = .struct
  | .word s' | .closed s' => x = byte (s'.lift base) c ∧ s'.mode = .struct
  | .error _ => False

section Lift

variable {s : State} {base : List Bool} {c : UInt8}

theorem openBracket_lift (hb : base ≠ []) : (∃ e, openBracket (s.lift base) array = .error e) ∨
      LiftMove base c (openBracket (s.lift base) array) (openBracket s array) := by
  have hnil : (s.lift base).outer ≠ [] := by simp [State.lift, hb]
  simp only [openBracket, hnil, if_false]
  by_cases hexpect : (!s.array && s.sub && !s.key) = true
  · exact .inl ⟨_, if_pos hexpect⟩
  · have hexpect' : ¬ (!(s.lift base).array && (s.lift base).sub && !(s.lift base).key) = true :=
      hexpect
    rw [if_neg hexpect, if_neg hexpect']
    by_cases hdeep : maxStack < (s.lift base).outer.length
    · exact .inl ⟨_, if_pos hdeep⟩
    · have hdeep' : ¬ maxStack < s.outer.length := by
        intro h
        apply hdeep
        simp only [State.lift, length_append]
        omega
      right
      split_ifs
      · exact ⟨rfl, rfl⟩
      · exact ⟨rfl, by simp⟩

theorem closeBracket_lift (hmode : s.mode = .struct) (hc : classify c = .closing array) :
    (∃ e, closeBracket (s.lift base) array = .error e) ∨
      LiftMove base c (closeBracket (s.lift base) array) (closeBracket s array) := by
  obtain ⟨mode, a, key, sub, outer⟩ := s
  obtain rfl : mode = .struct := hmode
  show (∃ e, closeBracket ⟨.struct, a, key, sub, outer ++ base⟩ array = .error e) ∨
    LiftMove base c (closeBracket ⟨.struct, a, key, sub, outer ++ base⟩ array) _
  simp only [closeBracket]
  by_cases h₁ : (a && !array) = true
  · exact .inl ⟨_, if_pos h₁⟩
  by_cases h₂ : (!a && array) = true
  · exact .inl ⟨.expectedObjectClose, by rw [if_neg h₁, if_pos h₂]⟩
  by_cases h₃ : key = true
  · exact .inl ⟨.expectedObjectValue, by rw [if_neg h₁, if_neg h₂, if_pos h₃]⟩
  rw [if_neg h₁, if_neg h₂, if_neg h₃, if_neg h₁, if_neg h₂, if_neg h₃]
  cases outer with
  | nil =>
    -- the bracket closes the container: it is left to the iterator around it
    right
    refine ⟨?_, rfl⟩
    simp [byte, structByte, hc, closeBracket, State.lift, h₁, h₂, h₃]
  | cons b outer =>
    dsimp only [cons_append]
    by_cases hdeep : maxStack < (outer ++ base).length
    · exact .inl ⟨_, if_pos hdeep⟩
    · have hdeep' : ¬ maxStack < outer.length := by
        rw [length_append] at hdeep
        omega
      rw [if_neg hdeep, if_neg hdeep']
      exact .inr ⟨rfl, by simp⟩

theorem structByte_lift (hb : base ≠ []) (hmode : s.mode = .struct) :
    (∃ e, structByte (s.lift base) c = .error e) ∨
      LiftMove base c (structByte (s.lift base) c) (structByte s c) := by
  have hne : s.mode ≠ .none := by simp [hmode]
  unfold structByte
  cases hclass : classify c with
  | blank => exact .inr ⟨rfl, hne⟩
  | separator =>
    by_cases h₁ : s.array = true
    · exact .inl ⟨_, if_pos h₁⟩
    · by_cases h₂ : (!s.key) = true
      · exact .inl ⟨.expectedObjectKey, by simp [State.lift, h₁, h₂]⟩
      · right
        simp [LiftMove, State.lift, h₁, h₂, hne]
  | comment | quote => exact .inr ⟨rfl, by simp⟩
  | opening array => exact openBracket_lift hb
  | closing array => exact closeBracket_lift hmode hclass
  | plain => exact .inr ⟨rfl, by simp⟩
  | backslash | invalid => exact .inl ⟨_, rfl⟩

/-- **A byte does the same for both iterators.** -/
theorem byte_lift (hb : base ≠ []) (hs : s.mode ≠ .none) :
    (∃ e, byte (s.lift base) c = .error e) ∨ LiftMove base c (byte (s.lift base) c) (byte s c) := by
  obtain ⟨mode, a, key, sub, outer⟩ := s
  cases mode with
  | none => exact absurd rfl hs
  | struct => exact structByte_lift hb rfl
  | comment =>
    right
    simp only [byte, State.lift, LiftMove]
    split_ifs <;> simp
  | bare =>
    have hstruct := structByte_lift (s := ⟨.struct, a, key, sub, outer⟩) (c := c) hb rfl
    have hnil : outer ++ base ≠ [] := by simp [hb]
    simp only [byte, bareByte, State.lift, hnil, if_false]
    cases hclass : classify c with
    | plain => exact .inr ⟨rfl, by simp⟩
    | backslash | invalid => exact .inl ⟨_, rfl⟩
    | blank | separator | comment | quote | opening | closing =>
      split_ifs with houter
      · exact .inr ⟨rfl, rfl⟩
      · exact hstruct
  | string =>
    have hnil : outer ++ base ≠ [] := by simp [hb]
    simp only [byte, stringByte, State.lift, hnil, if_false]
    split_ifs <;> first | exact .inl ⟨_, rfl⟩ | exact .inr ⟨rfl, by simp⟩
  | utf8 remain | esc =>
    simp only [byte, State.lift]
    split_ifs <;> first | exact .inl ⟨_, rfl⟩ | exact .inr ⟨rfl, by simp⟩

/-- **Two iterators see the same.** Unless the one around the container fails, the one inside finds a
token or the end of the container, and both go on from there. -/
theorem scan_lift {p : Bool} {text : Text} (v w : Text) (hb : base ≠ []) (hs : s.mode ≠ .none) :
    (∃ e, (scan p (s.lift base) w text).1 = .error e) ∨
      ∃ cur s' w', (scan true s v text).2 = ⟨cur, true, .ok s'⟩ ∧ s'.mode = .struct ∧
        ((scan true s v text).1 = .close ∨ ∃ value len, (scan true s v text).1 = .token value len) ∧
        scan p (s.lift base) w text = scan p (s'.lift base) w' cur := by
  induction text generalizing s v w with
  | nil =>
    left
    have hnil : (s.lift base).outer ≠ [] := by simp [State.lift, hb]
    exact ⟨.mismatchedBracket, by simp [scan, atEnd, hnil]⟩
  | cons c cs ih =>
    rcases byte_lift (c := c) hb hs with ⟨e, he⟩ | hmove
    · exact .inl ⟨e, by simp [scan, he]⟩
    · generalize hx : byte (s.lift base) c = x at hmove
      simp only [scan, hx]
      generalize byte s c = m at hmove
      cases m with
      | go s' =>
        obtain ⟨rfl, hs'⟩ := hmove
        exact ih v w hs'
      | begins s' =>
        obtain ⟨rfl, hs'⟩ := hmove
        exact ih (c :: cs) (c :: cs) hs'
      | opened s' =>
        obtain ⟨rfl, hs'⟩ := hmove
        exact .inr ⟨cs, s', c :: cs, rfl, hs', .inr ⟨_, _, rfl⟩, rfl⟩
      | text s' =>
        obtain ⟨rfl, hs'⟩ := hmove
        exact .inr ⟨cs, s', w, rfl, hs', .inr ⟨_, _, rfl⟩, rfl⟩
      | word s' =>
        obtain ⟨rfl, hs'⟩ := hmove
        exact .inr ⟨c :: cs, s', w, rfl, hs', .inr ⟨_, _, rfl⟩, rfl⟩
      | closed s' =>
        obtain ⟨rfl, hs'⟩ := hmove
        exact .inr ⟨c :: cs, s', w, rfl, hs', .inl rfl, rfl⟩
      | error e =>
        exact hmove.elim

end Lift

end PipeWireAO.Json
