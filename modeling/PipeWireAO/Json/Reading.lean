import PipeWireAO.Json.Scan

/-!
# What a text says

A text is read by going over its tokens, and over those of every container in it. A text that the
tokenizer goes over without an error can be read completely, and an iterator of a container that was
entered and left again is where it would be if it had gone over the container by itself.
-/

namespace PipeWireAO.Json

open List Option

/-! ## Values -/

/-- A value: a word or a string as it stands in the text, or a container. An object has its keys and
values in turn. -/
inductive Value
  | text (bytes : Text)
  | node (array : Bool) (items : List Value)

/-- The value of a token; `it` is the iterator after it, and `items` reads a container. -/
def valueOf (items : Iter → Option (List Value)) (value : Text) (len : ℕ) (it : Iter) : Option Value :=
  match container value with
  | none => some (.text (tokenBytes value len))
  | some array => (items (enter it)).map (.node array)

/-- The rest of a container. -/
def readItems : ℕ → Iter → Option (List Value)
  | 0, _ => none
  | n + 1, it =>
    match next it with
    | (.close, _) => some []
    | (.token value len, it') =>
      match valueOf (readItems n) value len it', readItems n it' with
      | some v, some vs => some (v :: vs)
      | _, _ => none
    | _ => none

/-- What a text says: one value, and nothing after it. -/
def document (data : Text) : Option Value :=
  match next (init data) with
  | (.token value len, it) =>
    match next it with
    | (.finish, _) => valueOf (readItems (data.length + 1)) value len it
    | _ => none
  | _ => none

/-- The tokenizer finds one token, and then the end of the text. -/
def oneValue (data : Text) : Bool :=
  match next (init data) with
  | (.token _ _, it) => (next it).1 = .finish
  | _ => false

/-! ## Reading -/

variable {a array b key : Bool} {value data : Text} {len : ℕ} {e : Iter}

section Reading

variable {it it' : Iter} {s : State} {vs : List Value} {base : List Bool} {p : Bool} {w : Text}

/-- The iterator is between two tokens of a container, in the state `s` when it looks at the next
byte. -/
structure Ready (it : Iter) (s : State) : Prop where
  parent : it.parent = true
  state : it.state = .ok s ∨ ∃ s₀, it.state = .ok s₀ ∧ s₀.mode = .none ∧ s = s₀.start
  inside : s.Inside
  idle : s.busy = false

theorem Ready.next_eq (h : Ready it s) : next it = scan true s it.cur it.cur := by
  obtain ⟨cur, parent, state⟩ := it
  obtain rfl : parent = true := h.parent
  rcases h.state with hst | ⟨s₀, hst, hmode, rfl⟩
  · rw [next, hst]
  · rw [next, hst]
    dsimp only
    cases cur with
    | nil => simp [scan, atEnd]
    | cons c cs =>
      have hbyte : byte s₀ c = byte s₀.start c := by
        rw [byte, hmode]
        rfl
      rw [scan, scan, hbyte]

theorem State.Inside.noKey₀ (h : s.Inside) : s.array₀ = true → s.key₀ = false := by
  obtain ⟨mode, a, key, sub, outer⟩ := s
  cases outer with
  | nil => exact fun ha => h.noKey ha
  | cons => simp [State.key₀]

theorem inside_between {k : Bool} (h : a = true → k = false) : (between a k).Inside :=
  ⟨by simp [between], rfl, h⟩

/-- The state after the bracket of a container. -/
def opened (array outer : Bool) : State := ⟨.struct, array, false, true, [outer]⟩

theorem NextToken.ready {text : Text} (hs : s.Inside) (h : NextToken true s text value len it) :
    ∃ s', it.state = .ok s' ∧ Ready it s' ∧ s'.array₀ = s.array₀ := by
  cases hval : container value with
  | none =>
    refine ⟨_, h.word hval, ⟨h.parent, .inl (h.word hval), inside_between fun ha => ?_, rfl⟩, rfl⟩
    rw [if_pos ha]
    exact hs.noKey₀ ha
  | some b =>
    obtain ⟨-, -, hst⟩ := h.opened b hval
    exact ⟨_, hst, ⟨h.parent, .inl hst, ⟨by simp, rfl, fun _ => rfl⟩, rfl⟩, rfl⟩

theorem ready_enter {outer : Bool} (h : it.state = .ok (opened array outer)) :
    Ready (enter it) (between array false) :=
  ⟨rfl, .inr ⟨_, by rw [enter, h]; rfl, rfl, rfl⟩, inside_between fun _ => rfl, rfl⟩

/-- **A container can be read**, if an iterator around it can go over it. -/
theorem readItems_isSome {n : ℕ} (hr : Ready it s) (hlen : it.cur.length < n) (hb : base ≠ [])
    (hok : ∀ e, (scan p (s.lift base) w it.cur).1 ≠ .error e) : ∃ vs, readItems n it = some vs := by
  induction n generalizing it s w base with
  | zero => omega
  | succ n ih =>
    rw [readItems, hr.next_eq]
    rcases scan_lift it.cur w hb hr.inside.started with ⟨e, he⟩ | ⟨cur, s', w', hit, -, hout, hscan⟩
    · exact absurd he (hok e)
    generalize hres : scan true s it.cur it.cur = res at hit hout
    obtain ⟨o, it'⟩ := res
    obtain rfl : it' = ⟨cur, true, .ok s'⟩ := hit
    rcases hout with rfl | ⟨value, len, rfl⟩
    · exact ⟨[], rfl⟩
    have htoken := scan_token hr.inside hr.idle hres
    have hcur : cur.length < n := by
      have := htoken.shorter
      dsimp only at this
      omega
    obtain ⟨s'', hst, hready, -⟩ := htoken.ready hr.inside
    cases hst
    rw [hscan] at hok
    obtain ⟨vs, hvs⟩ := ih hready hcur hb hok
    -- the container that begins here is read from inside
    have hvalue : ∃ v, valueOf (readItems n) value len ⟨cur, true, .ok s'⟩ = some v := by
      unfold valueOf
      cases hval : container value with
      | none => exact ⟨_, rfl⟩
      | some b =>
        obtain ⟨-, -, hopen⟩ := htoken.opened b hval
        cases hopen
        have henter : Ready (enter ⟨cur, true, .ok (opened b s.array₀)⟩) (between b false) :=
          ready_enter rfl
        obtain ⟨ws, hws⟩ := ih henter hcur (cons_ne_nil s.array₀ base) hok
        refine ⟨.node b ws, ?_⟩
        show (readItems n (enter ⟨cur, true, .ok (opened b s.array₀)⟩)).map _ = _
        rw [hws]
        rfl
    obtain ⟨v, hv⟩ := hvalue
    exact ⟨v :: vs, by simp only [hv, hvs]⟩

/-! ## The whole text -/

theorem scan_first {m : Mode} {v text : Text}
    (hm : m = .none ∨ m = .struct ∨ m = .comment) (hval : container value = some b)
    (h : scan p ⟨m, false, false, false, []⟩ v text = (.token value len, it)) :
    it.cur.length < text.length ∧ it.parent = p ∧ it.state = .ok (opened b false) := by
  induction text generalizing m v with
  | nil =>
    obtain ⟨-, -, hbusy, -⟩ := atEnd_token h
    rcases hm with rfl | rfl | rfl <;> cases hbusy
  | cons c cs ih =>
    have go : ∀ {m' : Mode}, (m' = .none ∨ m' = .struct ∨ m' = .comment) →
        scan p ⟨m', false, false, false, []⟩ v cs = (.token value len, it) →
        it.cur.length < (c :: cs).length ∧ it.parent = p ∧ it.state = .ok (opened b false) := by
      intro m' hm' hscan
      obtain ⟨hcur, hrest⟩ := ih hm' hscan
      exact ⟨Nat.lt_succ_of_lt hcur, hrest⟩
    -- a word is not the bracket of a container
    have word : ∀ {s' : State}, s'.busy = true → (∀ b, classify c ≠ .opening b) →
        scan p s' (c :: cs) cs = (.token value len, it) → False := by
      intro s' hbusy hopen hscan
      obtain ⟨rfl, -⟩ := scan_busy hbusy hscan
      simp only [container, head?_cons, map_some] at hval
      split at hval
      · rename_i array hc
        exact hopen array (some.inj hc)
      · cases hval
    rw [scan] at h
    by_cases hcomment : m = .comment
    · subst hcomment
      simp only [byte] at h
      split_ifs at h
      · exact go (.inr (.inl rfl)) h
      · exact go (.inr (.inr rfl)) h
    · have hbyte : byte ⟨m, false, false, false, []⟩ c =
          structByte ⟨.struct, false, false, false, []⟩ c := by
        rcases hm with rfl | rfl | rfl
        · rfl
        · rfl
        · exact absurd rfl hcomment
      rw [hbyte, structByte] at h
      cases hclass : classify c with
      | blank =>
        rw [hclass] at h
        exact go (.inr (.inl rfl)) h
      | comment =>
        rw [hclass] at h
        exact go (.inr (.inr rfl)) h
      | quote | plain =>
        rw [hclass] at h
        exact (word (by rfl) (by simp [hclass]) h).elim
      | opening array =>
        rw [hclass] at h
        cases h
        simp only [container, head?_cons, map_some, hclass, some.injEq] at hval
        subst hval
        exact ⟨Nat.lt_succ_self _, rfl, rfl⟩
      | closing array =>
        rw [hclass] at h
        cases array <;> cases p <;> simp [closeBracket] at h
      | separator | backslash | invalid =>
        rw [hclass] at h
        simp at h

theorem next_init (hval : container value = some b)
    (h : next (init data) = (.token value len, it)) :
    it.cur.length < data.length ∧ it.parent = false ∧ it.state = .ok (opened b false) :=
  scan_first (.inl rfl) hval h

/-- **A text can be read**, if the tokenizer finds one token in it, and then its end. -/
theorem document_isSome (h : oneValue data = true) : ∃ v, document data = some v := by
  unfold oneValue at h
  unfold document
  generalize hfirst : next (init data) = res at h
  obtain ⟨o, it⟩ := res
  cases o with
  | close | finish | error => cases h
  | token value len =>
    dsimp only at h ⊢
    generalize hend : next it = res at h
    obtain ⟨o', it''⟩ := res
    obtain rfl : o' = .finish := by simpa using h
    unfold valueOf
    cases hval : container value with
    | none => exact ⟨_, rfl⟩
    | some b =>
      obtain ⟨hlen, hp, hst⟩ := next_init hval hfirst
      have hok : ∀ e, (scan false ((between b false).lift [false]) it.cur (enter it).cur).1 ≠
          .error e := by
        intro e he
        have hnext : next it = scan false (opened b false) it.cur it.cur := by
          rw [next, hst, hp]
        have hscan : scan false (opened b false) it.cur it.cur = (.finish, it'') :=
          hnext.symm.trans hend
        have he' : (scan false (opened b false) it.cur it.cur).1 = .error e := he
        rw [hscan] at he'
        cases he'
      have hfuel : (enter it).cur.length < data.length + 1 := Nat.lt_succ_of_lt hlen
      obtain ⟨vs, hvs⟩ := readItems_isSome (ready_enter hst) hfuel (cons_ne_nil _ _) hok
      exact ⟨.node b vs, by rw [hvs]; rfl⟩

/-! ## Reading a container step by step -/

/-- The rest of the container that `it` is in has the items `vs`; `array` says which kind of container
it is, and `key` whether a value is due. -/
structure Reads (array key : Bool) (it : Iter) (vs : List Value) : Prop where
  ready : ∃ s, Ready it s ∧ s.array₀ = array ∧ s.key₀ = key
  items : ∃ n, readItems n it = some vs

/-- The value of a token, and how to read it. A word is a string or has plain bytes only. -/
def Denotes (it : Iter) (value : Text) (len : ℕ) (v : Value) : Prop :=
  (container value = none ∧ v = .text (tokenBytes value len) ∧
      (value.head? = some 34 ∨ ∀ c ∈ tokenBytes value len, classify c = .plain)) ∨
    ∃ b a ws, container value = some b ∧ v = .node b ws ∧ len = 1 ∧ it.state = .ok (opened b a) ∧
      Reads b false (enter it) ws

theorem Reads.next_item (h : Reads array key it vs) :
    (vs = [] ∧ key = false ∧ ∃ it', next it = (.close, it')) ∨
      ∃ v vs' value len it', vs = v :: vs' ∧ next it = (.token value len, it') ∧
        it'.cur.length < it.cur.length ∧ len ≤ value.length ∧ Denotes it' value len v ∧
        (array = false → container value ≠ none → key = true) ∧
        Reads array (!array && !key) it' vs' := by
  obtain ⟨⟨s, hr, rfl, rfl⟩, n, hn⟩ := h
  cases n with
  | zero => cases hn
  | succ n =>
    rw [readItems] at hn
    have hnext := hr.next_eq
    generalize hres : next it = res at hn hnext
    obtain ⟨o, it'⟩ := res
    cases o with
    | finish | error => cases hn
    | close =>
      cases hn
      exact .inl ⟨rfl, (scan_close hr.inside hr.idle hnext.symm).1, it', rfl⟩
    | token value len =>
      have htoken := scan_token hr.inside hr.idle hnext.symm
      obtain ⟨s', hst, hready, harray⟩ := htoken.ready hr.inside
      have hkey : s'.key₀ = (!s.array₀ && !s.key₀) := by
        cases hval : container value with
        | none =>
          obtain rfl : between s.array₀ (if s.array₀ then s.key₀ else !s.key₀) = s' :=
            Except.ok.inj ((htoken.word hval).symm.trans hst)
          show (if s.array₀ then s.key₀ else !s.key₀) = _
          cases ha : s.array₀
          · rfl
          · exact hr.inside.noKey₀ ha
        | some b =>
          obtain ⟨-, hdue, hopen⟩ := htoken.opened b hval
          obtain rfl : opened b s.array₀ = s' := Except.ok.inj (hopen.symm.trans hst)
          cases ha : s.array₀
          · rw [hdue ha]
            rfl
          · rfl
      dsimp only at hn
      split at hn
      · rename_i v vs' hv hvs
        cases hn
        refine .inr ⟨v, vs', value, len, it', rfl, rfl, htoken.shorter, htoken.fits, ?_, ?_,
          ⟨s', hready, harray, hkey⟩, n, hvs⟩
        · unfold valueOf at hv
          cases hval : container value with
          | none =>
            rw [hval] at hv
            exact .inl ⟨hval, (some.inj hv).symm, htoken.bytes hval⟩
          | some b =>
            rw [hval] at hv
            obtain ⟨ws, hws, rfl⟩ := map_eq_some_iff.mp hv
            obtain ⟨hone, -, hopen⟩ := htoken.opened b hval
            exact .inr ⟨b, s.array₀, ws, hval, rfl, hone, hopen, ⟨_, ready_enter hopen, rfl, rfl⟩, n, hws⟩
        · intro ha hne
          obtain ⟨b, hb⟩ := ne_none_iff_exists'.mp hne
          exact (htoken.opened b hb).2.1 ha
      · cases hn

theorem Reads.length_le (h : Reads array key it vs) : vs.length ≤ it.cur.length := by
  induction vs generalizing it key with
  | nil => exact Nat.zero_le _
  | cons v vs ih =>
    rcases h.next_item with ⟨hnil, -⟩ | ⟨_, _, _, _, _, heq, -, hlt, -, -, -, hrest⟩
    · cases hnil
    · cases heq
      exact Nat.lt_of_le_of_lt (ih hrest) hlt

theorem Reads.next_member (h : Reads false false it vs) :
    (vs = [] ∧ ∃ it', next it = (.close, it')) ∨
      ∃ k l it₁ value len it₂ v rest, vs = .text (tokenBytes k l) :: v :: rest ∧
        next it = (.token k l, it₁) ∧ l ≤ k.length ∧ next it₁ = (.token value len, it₂) ∧
        len ≤ value.length ∧ Denotes it₂ value len v ∧ Reads false false it₂ rest := by
  rcases h.next_item with ⟨hnil, -, hclose⟩ | ⟨v₁, vs₁, k, l, it₁, rfl, hk, -, hl, hv₁, hdue, hrest⟩
  · exact .inl ⟨hnil, hclose⟩
  -- the first token is no container, and so the key
  have hkey : v₁ = .text (tokenBytes k l) := by
    rcases hv₁ with ⟨-, hv, -⟩ | ⟨b, a, ws, hval, -⟩
    · exact hv
    · have := hdue rfl (by simp [hval])
      cases this
  subst hkey
  rcases hrest.next_item with ⟨-, hfalse, -⟩ | ⟨v, vs₂, value, len, it₂, rfl, hval, -, hlen, hv, -, hrest⟩
  · cases hfalse
  · exact .inr ⟨k, l, it₁, value, len, it₂, v, vs₂, rfl, hk, hl, hval, hlen, hv, hrest⟩

/-- The calls for `it` reach the end of the container, in the state `e`. -/
inductive Closes : Iter → Iter → Prop
  | here {it e : Iter} : next it = (.close, e) → Closes it e
  | more {it it' e : Iter} {value : Text} {len : ℕ} : next it = (.token value len, it') →
      Closes it' e → Closes it e

theorem Closes.lift (h : Closes it e) (hr : Ready it s) (hb : base ≠ [])
    (hok : ∀ e, (scan p (s.lift base) w it.cur).1 ≠ .error e) :
    ∃ w', scan p (s.lift base) w it.cur = scan p ((between s.array₀ false).lift base) w' e.cur := by
  induction h generalizing s w with
  | @here it e hclose =>
    rw [hr.next_eq] at hclose
    rcases scan_lift it.cur w hb hr.inside.started with ⟨e, he⟩ | ⟨cur, s', w', hit, -, -, hscan⟩
    · exact absurd he (hok e)
    obtain ⟨-, -, -, hst⟩ := scan_close hr.inside hr.idle hclose
    rw [hclose] at hit
    obtain rfl : e = ⟨cur, true, .ok s'⟩ := hit
    cases hst
    exact ⟨w', hscan⟩
  | @more it it' e value len htoken _ ih =>
    rw [hr.next_eq] at htoken
    rcases scan_lift it.cur w hb hr.inside.started with ⟨e, he⟩ | ⟨cur, s', w', hit, -, -, hscan⟩
    · exact absurd he (hok e)
    obtain ⟨s'', hst, hready, harray⟩ := (scan_token hr.inside hr.idle htoken).ready hr.inside
    rw [htoken] at hit
    obtain rfl : it' = ⟨cur, true, .ok s'⟩ := hit
    cases hst
    rw [hscan] at hok ⊢
    rw [← harray]
    exact ih hready hok

/-- **Leaving a container** after its end is the same as going over it. -/
theorem Closes.next_leave (hst : it.state = .ok (opened b a))
    (h : Closes (enter it) e) (hok : ∀ e, (next it).1 ≠ .error e) :
    next (leave .close e it) = next it := by
  have hnext : ∀ cur, next { it with cur := cur } = scan it.parent (opened b a) cur cur := by
    intro cur
    rw [next]
    simp only [hst]
  have hit : next it = scan it.parent ((between b false).lift [a]) it.cur (enter it).cur :=
    hnext it.cur
  rw [hit] at hok ⊢
  obtain ⟨w', hw⟩ := h.lift (ready_enter hst) (cons_ne_nil a []) hok
  rw [hw]
  exact (hnext e.cur).trans (scan_value _ _ ⟨by simp [opened], rfl, fun _ => rfl⟩ rfl)

theorem Reads.next_ok (h : Reads array key it vs) : ∀ e, (next it).1 ≠ .error e := by
  intro e he
  rcases h.next_item with ⟨-, -, it', hnext⟩ | ⟨_, _, _, _, _, -, hnext, -⟩
  · simp [hnext] at he
  · simp [hnext] at he

theorem Reads.leave (h : Reads array key it vs)
    (hst : it.state = .ok (opened b a)) (hc : Closes (enter it) e) :
    Reads array key (leave .close e it) vs := by
  have hnext := hc.next_leave hst h.next_ok
  obtain ⟨⟨s, hr, harray, hkey⟩, n, hn⟩ := h
  refine ⟨⟨s, ⟨hr.parent, hr.state, hr.inside, hr.idle⟩, harray, hkey⟩, n, ?_⟩
  cases n with
  | zero => cases hn
  | succ n =>
    rw [readItems] at hn ⊢
    rw [hnext]
    exact hn

end Reading

end PipeWireAO.Json
