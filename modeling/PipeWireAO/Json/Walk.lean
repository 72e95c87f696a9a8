import PipeWireAO.Json.Heap
import PipeWireAO.Json.Rendering

/-!
# Walking over a tree

A caller goes over a text with iterators: it asks an iterator for the next token, enters a container
with another iterator, and leaves it again at any time. What the caller sees is the tree that was
written, whichever containers it enters, reads partly or does not enter at all.
-/

namespace PipeWireAO.Json

open Foundation List

/-! ## The caller -/

/-- What `spa_json_next` tells a caller: a scalar, the bracket of a container, 0, or -1. -/
inductive Answer
  | scalar (bytes : Text)
  | container (array : Bool)
  | finish
  | fail
deriving DecidableEq

def Outcome.answer : Outcome → Answer
  | .token value len =>
    match Json.container value with
    | some array => .container array
    | none => .scalar (tokenBytes value len)
  | .close | .finish => .finish
  | .error _ => .fail

def Answer.isContainer : Answer → Bool
  | .container _ => true
  | _ => false

/-- What the caller does with its innermost iterator. -/
inductive Act
  | next
  | enter
  | leave
deriving DecidableEq

/-- The iterators, and those that the caller works with, innermost first, each with whether its last
answer was a container. -/
structure Walk where
  heap : Heap
  path : List (ℕ × Bool)

/-- A caller enters only containers. -/
def walking : Machine Walk Act Answer where
  step w a :=
    match a, w.path with
    | .next, (i, _) :: path =>
      let r := w.heap.next i
      some (⟨r.2, (i, r.1.answer.isContainer) :: path⟩, [r.1.answer])
    | .enter, (i, true) :: path =>
      some (⟨w.heap.enter i, (w.heap.size, false) :: (i, true) :: path⟩, [])
    | .leave, _ :: outer :: path => some (⟨w.heap, outer :: path⟩, [])
    | _, _ => none

/-- A caller that goes over a text from its beginning. -/
def Walk.start (text : Text) : Walk := ⟨Heap.empty.alloc (.root (init text)), [(0, false)]⟩

/-- A caller that has begun with the container of the text. -/
def Walk.begin (text : Text) (array : Bool) : Walk :=
  ⟨(Heap.empty.beginContainer text array false).2, [(0, false)]⟩

/-! ## The tree -/

/-- Where a visitor is in a container: the items that follow, and the content of the container that
it has found last. -/
structure Level where
  rest : List Value
  inside : Option (List Value)

def Level.next (l : Level) : Answer × Level :=
  match l.rest with
  | [] => (.finish, ⟨[], none⟩)
  | .text bytes :: rest => (.scalar bytes, ⟨rest, none⟩)
  | .node array items :: rest => (.container array, ⟨rest, some items⟩)

/-- The container that was found last has been read to its end. -/
def Level.exhaust (l : Level) : Level := { l with inside := some [] }

def visiting : Machine (List Level) Act Answer where
  step
    | l :: outer, .next =>
      some (l.next.2 :: (if l.rest = [] then outer.modifyHead Level.exhaust else outer), [l.next.1])
    | l :: outer, .enter => l.inside.map fun items => (⟨items, none⟩ :: l :: outer, [])
    | _ :: l :: outer, .leave => some (l :: outer, [])
    | _, _ => none

def Value.answer : Value → Answer
  | .text bytes => .scalar bytes
  | .node array _ => .container array

theorem visiting_all (items : List Value) (inside : Option (List Value)) :
    (visiting.run [⟨items, inside⟩] (List.replicate (items.length + 1) .next)).map Prod.snd =
      some (items.map Value.answer ++ [.finish]) := by
  induction items generalizing inside with
  | nil => rfl
  | cons v items ih =>
    have hstep : ∃ inside', visiting.step [⟨v :: items, inside⟩] .next =
        some ([⟨items, inside'⟩], [v.answer]) := by
      cases v with
      | text bytes => exact ⟨none, rfl⟩
      | node array children => exact ⟨some children, rfl⟩
    obtain ⟨inside', hstep⟩ := hstep
    obtain ⟨⟨ls, tr⟩, hrun, htr⟩ := Option.map_eq_some_iff.mp (ih inside')
    obtain rfl : tr = items.map Value.answer ++ [.finish] := htr
    rw [length_cons, replicate_succ, Machine.run]
    simp only [hstep, hrun]
    rfl

/-! ## Where an iterator is -/

/-- What may follow the root: blanks, and a comment without an end. -/
def Trailing (text : Text) : Prop :=
  ∃ gap comment, Gap false gap ∧ text = gap ++ comment ∧
    (comment = [] ∨ ∃ body, comment = 35 :: body ∧ ∀ c ∈ body, c ≠ 10 ∧ c ≠ 13)

/-- A rendering of a tree whose root is a container. -/
inductive Document : Value → Text → Prop
  | mk {array : Bool} {items : List Value} {gap body trail : Text} (hgap : Gap false gap)
    (hbody : Renders array false items body) (htrail : Trailing trail) :
    Document (.node array items) (gap ++ (opening array :: (body ++ (closing array :: trail))))

/-- The iterator is in a container which `tail` follows. If it has just found another container, the
last argument is the kind of that one, and what follows there. -/
inductive Here (array : Bool) (tail : Text) : Iter → Level → Option (Bool × Text) → Prop
  | between {key : Bool} {it : Iter} {items : List Value} {text : Text}
    (ready : Ready it (between array key)) (hcur : it.cur = text ++ closing array :: tail)
    (h : Renders array key items text) (hdepth : Value.depthAll items ≤ maxStack) :
    Here array tail it ⟨items, none⟩ none
  | opened {inner : Bool} {it : Iter} {children items : List Value} {body text : Text}
    (hparent : it.parent = true) (hstate : it.state = .ok (opened inner array))
    (hcur : it.cur = body ++ closing inner :: (text ++ closing array :: tail))
    (hbody : Renders inner false children body) (h : Renders array false items text)
    (hdepth : Value.depthAll children ≤ maxStack) (hrest : Value.depthAll items ≤ maxStack) :
    Here array tail it ⟨items, some children⟩ (some (inner, text ++ closing array :: tail))

/-- The iterator of the whole text. -/
inductive AtRoot : Iter → Level → Option (Bool × Text) → Prop
  | fresh {array : Bool} {items : List Value} {gap body trail : Text} (hgap : Gap false gap)
    (hbody : Renders array false items body) (htrail : Trailing trail)
    (hdepth : Value.depthAll items ≤ maxStack) :
    AtRoot (init (gap ++ (opening array :: (body ++ (closing array :: trail)))))
      ⟨[.node array items], none⟩ none
  | opened {array : Bool} {items : List Value} {body trail : Text}
    (hbody : Renders array false items body) (htrail : Trailing trail)
    (hdepth : Value.depthAll items ≤ maxStack) :
    AtRoot ⟨body ++ closing array :: trail, false, .ok (opened array false)⟩ ⟨[], some items⟩
      (some (array, trail))
  | done {mode : Mode} (hmode : mode = .struct ∨ mode = .comment) :
    AtRoot ⟨[], false, .ok ⟨mode, false, false, true, []⟩⟩ ⟨[], none⟩ none

/-! ## One call -/

variable {inner : Bool} {t : Text} {r : Outcome × Iter}

section OneCall

variable {array key : Bool} {tail : Text} {it : Iter} {l : Level} {c : Option (Bool × Text)}
  {items : List Value} {text : Text}

/-- What a call on an iterator in a container finds. -/
structure Found (array : Bool) (tail : Text) (items : List Value) (r : Outcome × Iter) : Prop where
  answer : r.1.answer = (Level.next ⟨items, none⟩).1
  here : ∃ c, Here array tail r.2 (Level.next ⟨items, none⟩).2 c
  token : items ≠ [] → ∃ value len, r.1 = .token value len
  ends : items = [] → r.1 = .close ∧ r.2.cur = closing array :: tail

theorem Token.not_container {token rest : Text} (h : Token token rest) (tail : Text) :
    Json.container (token ++ tail) = none := by
  rcases h with ⟨body, -, rfl⟩ | ⟨⟨hne, hplain⟩, -⟩
  · rfl
  · cases token with
    | nil => exact absurd rfl hne
    | cons c word => simp [Json.container, hplain c mem_cons_self]

theorem container_opening (array : Bool) (rest : Text) :
    Json.container (opening array :: rest) = some array := by
  simp [Json.container]

/-- **The next token of a container.** -/
theorem Renders.next (h : Renders array key items text) (hdepth : Value.depthAll items ≤ maxStack)
    (v tail : Text) :
    Found array tail items (scan true (between array key) v (text ++ closing array :: tail)) := by
  cases h with
  | nil hgap =>
    have hscan : scan true (between array false) v (text ++ closing array :: tail) =
        (.close, ⟨closing array :: tail, true, .ok (between array false)⟩) := scan_closing hgap tail
    rw [hscan]
    refine ⟨rfl, ⟨none, ?_⟩, fun hne => absurd rfl hne, fun _ => ⟨rfl, rfl⟩⟩
    exact .between ⟨rfl, .inl rfl, inside_between fun _ => rfl, rfl⟩ (nil_append _).symm
      (.nil .nil) hdepth
  | @text _ _ gap token rest items hkey hgap htoken h =>
    have hscan : scan true (between array key) v _ =
        afterToken true (between array (!array && !key)) _ _ := scan_text hkey hgap htoken tail
    rw [hscan]
    have hbytes : tokenBytes (token ++ (rest ++ closing array :: tail))
        ((token ++ (rest ++ closing array :: tail)).length -
          (rest ++ closing array :: tail).length) = token := by
      rw [length_append, Nat.add_sub_cancel, tokenBytes, take_left]
    refine ⟨?_, ⟨none, ?_⟩, fun _ => ⟨_, _, rfl⟩, fun he => by cases he⟩
    · show Outcome.answer (.token _ _) = _
      rw [Outcome.answer, htoken.not_container, hbytes]
      rfl
    · exact .between ⟨rfl, .inl rfl, inside_between h.noKey, rfl⟩ rfl h
        (Nat.le_trans (Nat.le_max_right _ _) hdepth)
  | @node _ _ inner gap body rest children items hkey hvalue hgap hbody h =>
    have hscan : scan true (between array key) v _ =
        (.token _ 1, ⟨body ++ closing inner :: (rest ++ closing array :: tail), true,
          .ok (opened inner array)⟩) := scan_opening hkey hvalue hgap _
    have htext : gap ++ (opening inner :: (body ++ (closing inner :: rest))) ++ closing array :: tail =
        gap ++ opening inner :: (body ++ closing inner :: (rest ++ closing array :: tail)) := by
      simp
    rw [htext, hscan]
    refine ⟨?_, ⟨_, .opened rfl rfl rfl hbody h ?_ ?_⟩, fun _ => ⟨_, _, rfl⟩, fun he => by cases he⟩
    · show Outcome.answer (.token _ _) = _
      rw [Outcome.answer, container_opening]
      rfl
    · exact Nat.le_of_succ_le (Nat.le_trans (Nat.le_max_left _ _) hdepth)
    · exact Nat.le_trans (Nat.le_max_right _ _) hdepth

theorem next_eq_scan {s : State} (hstate : it.state = .ok s) :
    Json.next it = scan it.parent s it.cur it.cur := by
  rw [Json.next, hstate]

/-- **A call on an iterator in a container.** One that has found a container goes over it. -/
theorem Here.next (h : Here array tail it l c) : Found array tail l.rest (Json.next it) := by
  cases h with
  | between ready hcur h hdepth =>
    rw [ready.next_eq, hcur]
    exact h.next hdepth _ tail
  | @opened inner _ _ _ body text hparent hstate hcur hbody h hdepth hrest =>
    have hskip : scan true (Json.opened inner array) it.cur it.cur =
        scan true (Json.between array false) it.cur (text ++ closing array :: tail) := by
      nth_rewrite 2 [hcur]
      exact hbody.skip array [] it.cur _ hdepth
    rw [next_eq_scan hstate, hparent, hskip]
    exact h.next hrest _ tail

theorem Here.enter (h : Here array tail it l (some (inner, t))) :
    ∃ children, l.inside = some children ∧ Here inner t (Json.enter it) ⟨children, none⟩ none := by
  cases h with
  | opened hparent hstate hcur hbody h hdepth hrest =>
    exact ⟨_, rfl, .between (ready_enter hstate) hcur hbody hdepth⟩

theorem Here.exhaust (h : Here array tail it l (some (inner, t))) :
    Here array tail { it with cur := closing inner :: t } l.exhaust (some (inner, t)) := by
  cases h with
  | opened hparent hstate hcur hbody h hdepth hrest =>
    exact .opened hparent hstate (nil_append _).symm (.nil .nil) h (Nat.zero_le _) hrest

theorem Here.inside (h : Here array tail it l c) : l.inside.isSome = c.isSome := by
  cases h <;> rfl

/-! ## The root -/

theorem scan_trailing {trail : Text} (h : Trailing trail) (v : Text) :
    ∃ mode, (mode = .struct ∨ mode = .comment) ∧ scan false (between false false) v trail =
      (.finish, ⟨[], false, .ok ⟨mode, false, false, true, []⟩⟩) := by
  obtain ⟨gap, comment, hgap, rfl, hcomment⟩ := h
  rw [scan_gap hgap _ rfl nofun]
  rcases hcomment with rfl | ⟨body, rfl, hbody⟩
  · exact ⟨.struct, .inl rfl, rfl⟩
  · refine ⟨.comment, .inr rfl, ?_⟩
    have hscan : ∀ body : Text, (∀ c ∈ body, c ≠ 10 ∧ c ≠ 13) →
        scan false ⟨.comment, false, false, true, []⟩ v body =
          (.finish, ⟨[], false, .ok ⟨.comment, false, false, true, []⟩⟩) := by
      intro body hbody
      induction body with
      | nil => rfl
      | cons c body ih =>
        have hc := hbody c mem_cons_self
        rw [scan, byte]
        simp only [hc.1, hc.2, or_self, if_false]
        exact ih fun d hd => hbody d (mem_cons_of_mem c hd)
    exact hscan body hbody

theorem next_init_opening {gap : Text} (hgap : Gap false gap) (array : Bool) (rest : Text) :
    Json.next (init (gap ++ opening array :: rest)) =
      (.token (opening array :: rest) 1, ⟨rest, false, .ok (opened array false)⟩) := by
  -- the first byte starts the iterator
  have hstart : ∀ v text : Text, text ≠ [] →
      scan false ⟨.none, false, false, false, []⟩ v text =
        scan false ⟨.struct, false, false, false, []⟩ v text := by
    intro v text hne
    cases text with
    | nil => exact absurd rfl hne
    | cons c cs => rfl
  show scan false ⟨.none, false, false, false, []⟩ _ (gap ++ opening array :: rest) = _
  rw [hstart _ _ (by simp), scan_gap hgap _ rfl nofun, scan, byte]
  simp only [structByte, classify_opening, openBracket]
  rfl

theorem AtRoot.next (h : AtRoot it l c) :
    (Json.next it).1.answer = l.next.1 ∧ (∃ c', AtRoot (Json.next it).2 l.next.2 c') ∧
      ((∃ value len, (Json.next it).1 = .token value len) ∨ (Json.next it).1 = .finish) := by
  cases h with
  | @fresh array items gap body trail hgap hbody htrail hdepth =>
    rw [next_init_opening hgap]
    refine ⟨?_, ⟨_, .opened hbody htrail hdepth⟩, .inl ⟨_, _, rfl⟩⟩
    rw [Outcome.answer, container_opening]
    rfl
  | @opened array items body trail hbody htrail hdepth =>
    obtain ⟨mode, hmode, hscan⟩ := scan_trailing htrail (body ++ closing array :: trail)
    have hnext : Json.next ⟨body ++ closing array :: trail, false, .ok (Json.opened array false)⟩ =
        (.finish, ⟨[], false, .ok ⟨mode, false, false, true, []⟩⟩) := by
      rw [next_eq_scan rfl, ← hscan]
      exact hbody.skip false [] _ trail hdepth
    rw [hnext]
    exact ⟨rfl, ⟨none, .done hmode⟩, .inr rfl⟩
  | done hmode =>
    rcases hmode with rfl | rfl
    · exact ⟨rfl, ⟨none, .done (.inl rfl)⟩, .inr rfl⟩
    · exact ⟨rfl, ⟨none, .done (.inr rfl)⟩, .inr rfl⟩

theorem AtRoot.enter (h : AtRoot it l (some (inner, t))) :
    ∃ children, l.inside = some children ∧ Here inner t (Json.enter it) ⟨children, none⟩ none := by
  cases h with
  | opened hbody htrail hdepth =>
    exact ⟨_, rfl, .between (ready_enter rfl) rfl hbody hdepth⟩

theorem AtRoot.exhaust (h : AtRoot it l (some (inner, t))) :
    AtRoot { it with cur := closing inner :: t } l.exhaust (some (inner, t)) := by
  cases h with
  | opened hbody htrail hdepth => exact .opened (.nil .nil) htrail (Nat.zero_le _)

theorem AtRoot.inside (h : AtRoot it l c) : l.inside.isSome = c.isSome := by
  cases h <;> rfl

theorem Here.parent (h : Here array tail it l c) : it.parent = true := by
  cases h with
  | between ready => exact ready.parent
  | opened hparent => exact hparent

theorem AtRoot.parent (h : AtRoot it l c) : it.parent = false := by
  cases h <;> rfl

theorem Level.isContainer_next (l : Level) : l.next.1.isContainer = l.next.2.inside.isSome := by
  unfold Level.next
  split <;> rfl

end OneCall

/-! ## The iterators of the caller -/

/-- The iterators of the caller, innermost first: each is in the container that the next one has
found. -/
inductive Nested (h : Heap) : List (ℕ × Bool) → List Level → Option (Bool × Text) → Prop
  | root {i : ℕ} {l : Level} {c : Option (Bool × Text)} (hi : i < h.size)
    (hup : (h.node i).up = none) (here : AtRoot (h.node i).iter l c) :
    Nested h [(i, c.isSome)] [l] c
  | begun {i : ℕ} {l : Level} {c : Option (Bool × Text)} {array : Bool} {tail : Text}
    (hi : i < h.size) (hup : (h.node i).up = some i) (here : Here array tail (h.node i).iter l c) :
    Nested h [(i, c.isSome)] [l] c
  | push {i j : ℕ} {b : Bool} {path : List (ℕ × Bool)} {outer : List Level} {l : Level}
    {c : Option (Bool × Text)} {array : Bool} {tail : Text} (hi : i < h.size) (hlt : j < i)
    (hup : (h.node i).up = some j) (here : Here array tail (h.node i).iter l c)
    (houter : Nested h ((j, b) :: path) outer (some (array, tail))) :
    Nested h ((i, c.isSome) :: (j, b) :: path) (l :: outer) c

section Nested

variable {h h' : Heap} {i j : ℕ} {b array : Bool} {path : List (ℕ × Bool)} {l : Level}
  {outer ls : List Level} {c : Option (Bool × Text)} {it : Iter}

theorem Nested.lt (hn : Nested h ((i, b) :: path) ls c) : ∀ q ∈ path, q.1 < i := by
  generalize hp : (i, b) :: path = p at hn
  induction hn generalizing i b path with
  | root | begun =>
    cases hp
    exact nofun
  | push hi hlt hup here houter ih =>
    cases hp
    intro q hq
    rcases mem_cons.mp hq with rfl | hq
    · exact hlt
    · exact Nat.lt_trans (ih rfl q hq) hlt

theorem Nested.frame (hn : Nested h path ls c) (hsize : h.size ≤ h'.size)
    (hsame : ∀ q ∈ path, h'.node q.1 = h.node q.1) : Nested h' path ls c := by
  induction hn with
  | @root i l c hi hup here =>
    have hi' := hsame (i, c.isSome) mem_cons_self
    exact .root (Nat.lt_of_lt_of_le hi hsize) (by rw [hi', hup]) (by rw [hi']; exact here)
  | @begun i l c array tail hi hup here =>
    have hi' := hsame (i, c.isSome) mem_cons_self
    exact .begun (Nat.lt_of_lt_of_le hi hsize) (by rw [hi', hup]) (by rw [hi']; exact here)
  | @push i j b path outer l c array tail hi hlt hup here houter ih =>
    have hi' := hsame (i, c.isSome) mem_cons_self
    exact .push (Nat.lt_of_lt_of_le hi hsize) hlt (by rw [hi', hup]) (by rw [hi']; exact here)
      (ih fun q hq => hsame q (mem_cons_of_mem _ hq))

theorem Nested.write_inner (hn : Nested h path ls c) (n : Node) (hlt : ∀ q ∈ path, q.1 < i) :
    Nested (h.write i n) path ls c := by
  have hsame : ∀ q ∈ path, (h.write i n).node q.1 = h.node q.1 := by
    intro q hq
    simp [Heap.write, Nat.ne_of_lt (hlt q hq)]
  exact hn.frame (Nat.le_refl _) hsame

/-- **The end of a container** moves the iterator around it. -/
theorem Nested.exhaust (hn : Nested h ((i, b) :: path) ls (some (inner, t))) :
    Nested (h.move i (closing inner :: t)) ((i, b) :: path)
      (ls.modifyHead Level.exhaust) (some (inner, t)) := by
  have hlt := hn.lt
  set h' := h.move i (closing inner :: t)
  have hnode : h'.node i = { h.node i with cur := closing inner :: t } := by
    simp [h', Heap.move, Heap.write]
  have hup' : (h'.node i).up = (h.node i).up := by rw [hnode]
  cases hn with
  | root hi hup here =>
    have here' := here.exhaust
    exact .root hi (hup'.trans hup) (by rw [hnode]; exact here')
  | @begun _ l _ array tail hi hup here =>
    have here' : Here array tail (h'.node i).iter l.exhaust (some (inner, t)) := by
      rw [hnode]
      exact here.exhaust
    exact .begun hi (hup'.trans hup) here'
  | @push _ _ _ _ _ l _ array tail hi hltj hup here houter =>
    have here' : Here array tail (h'.node i).iter l.exhaust (some (inner, t)) := by
      rw [hnode]
      exact here.exhaust
    exact .push hi hltj (hup'.trans hup) here' (houter.write_inner _ hlt)

theorem Heap.next_eq (hr : Json.next (h.node i).iter = r)
    (ho : (∃ value len, r.1 = .token value len) ∨ r.1 = .finish) :
    h.next i = (r.1, h.store i r.2) := by
  obtain ⟨o, it⟩ := r
  unfold Heap.next
  cases hst : (h.node i).state with
  | error e =>
    -- the iterator would answer with its error
    have herror : Json.next (h.node i).iter = (.error e, (h.node i).iter) := by
      rw [Json.next, Node.iter, hst]
    rw [herror] at hr
    cases hr
    rcases ho with ⟨_, _, ho⟩ | ho <;> cases ho
  | ok s =>
    simp only [hr]
    rcases ho with ⟨value, len, ho⟩ | ho
    · obtain rfl : o = .token value len := ho
      rfl
    · obtain rfl : o = .finish := ho
      rfl

theorem Heap.next_close (hr : (Json.next (h.node i).iter).1 = .close)
    (hup : (h.node i).up = some j) : h.next i = (.close,
      (h.store i (Json.next (h.node i).iter).2).move j (Json.next (h.node i).iter).2.cur) := by
  unfold Heap.next
  cases hst : (h.node i).state with
  | error e =>
    rw [Json.next, Node.iter, hst] at hr
    cases hr
  | ok s => simp only [hr, hup]

@[simp] theorem Heap.store_up (h : Heap) (i : ℕ) (it : Iter) :
    ((h.store i it).node i).up = (h.node i).up := by
  simp [Heap.store, Heap.write]

theorem Heap.store_iter (hup : (h.node i).up.isSome = it.parent) :
    ((h.store i it).node i).iter = it := by
  simp [Heap.store, Heap.write, Node.iter, hup]

theorem Here.written {tail : Text} (hf : Found array tail l.rest r) (hup : (h.node i).up = some j) :
    ∃ c', Here array tail ((h.store i r.2).node i).iter l.next.2 c' ∧
      c'.isSome = l.next.1.isContainer := by
  obtain ⟨c', here⟩ := hf.here
  refine ⟨c', ?_, ?_⟩
  · rw [Heap.store_iter (by rw [hup, here.parent]; rfl)]
    exact here
  · exact (l.isContainer_next.trans here.inside).symm

/-- **A call of the caller.** -/
theorem Nested.next (hn : Nested h ((i, b) :: path) (l :: outer) c) :
    (h.next i).1.answer = l.next.1 ∧ ∃ c', Nested (h.next i).2 ((i, l.next.1.isContainer) :: path)
        (l.next.2 :: if l.rest = [] then outer.modifyHead Level.exhaust else outer) c' := by
  have hlt := hn.lt
  cases hn with
  | root hi hup here =>
    obtain ⟨hanswer, ⟨c', here'⟩, ho⟩ := here.next
    have hflag : c'.isSome = l.next.1.isContainer := (l.isContainer_next.trans here'.inside).symm
    have hparent : (h.node i).up.isSome = (Json.next (h.node i).iter).2.parent := by
      rw [hup, here'.parent]
      rfl
    rw [Heap.next_eq rfl ho, ← hflag]
    refine ⟨hanswer, c', ?_⟩
    have hroot : Nested (h.store i (Json.next (h.node i).iter).2) [(i, c'.isSome)] [l.next.2] c' :=
      .root hi ((h.store_up i _).trans hup) (by rw [Heap.store_iter hparent]; exact here')
    simpa using hroot
  | @begun _ _ _ array tail hi hup here =>
    have hf := here.next
    obtain ⟨c', here', hflag⟩ := Here.written hf hup
    rw [← hflag]
    by_cases hend : l.rest = []
    · obtain ⟨hclose, hcur⟩ := hf.ends hend
      rw [Heap.next_close hclose hup]
      -- the iterator is its own parent, and is there already
      have hstays : (h.store i (Json.next (h.node i).iter).2).move i
          (Json.next (h.node i).iter).2.cur = h.store i (Json.next (h.node i).iter).2 := by
        simp [Heap.move, Heap.store, Heap.write]
      rw [hstays]
      have hbegun : Nested (h.store i (Json.next (h.node i).iter).2) [(i, c'.isSome)] [l.next.2] c' :=
        .begun hi ((h.store_up i _).trans hup) here'
      exact ⟨hclose ▸ hf.answer, c', by simpa using hbegun⟩
    · rw [Heap.next_eq rfl (.inl (hf.token hend)), if_neg hend]
      exact ⟨hf.answer, c', .begun hi ((h.store_up i _).trans hup) here'⟩
  | @push _ j b' path' _ _ _ array tail hi hltj hup here houter =>
    have hf := here.next
    obtain ⟨c', here', hflag⟩ := Here.written hf hup
    rw [← hflag]
    by_cases hend : l.rest = []
    · obtain ⟨hclose, hcur⟩ := hf.ends hend
      have hkept : Nested (h.store i (Json.next (h.node i).iter).2) ((j, b') :: path') outer
        (some (array, tail)) := houter.write_inner _ hlt
      have hmoved := hkept.exhaust
      rw [← hcur] at hmoved
      have hnode : ((h.store i (Json.next (h.node i).iter).2).move j
          (Json.next (h.node i).iter).2.cur).node i =
            (h.store i (Json.next (h.node i).iter).2).node i := by
        simp [Heap.move, Heap.write, Nat.ne_of_gt hltj]
      rw [Heap.next_close hclose hup, if_pos hend]
      refine ⟨hclose ▸ hf.answer, c', .push hi hltj ?_ (hnode ▸ here') hmoved⟩
      rw [hnode]
      exact (h.store_up i _).trans hup
    · rw [Heap.next_eq rfl (.inl (hf.token hend)), if_neg hend]
      exact ⟨hf.answer, c', .push hi hltj ((h.store_up i _).trans hup) here'
        (houter.write_inner _ hlt)⟩

theorem Nested.enter (hn : Nested h ((i, b) :: path) (l :: outer) (some (inner, t))) :
    b = true ∧ ∃ items, l.inside = some items ∧
      Nested (h.enter i) ((h.size, false) :: (i, b) :: path) (⟨items, none⟩ :: l :: outer) none := by
  have hlt := hn.lt
  have henter : b = true ∧ i < h.size ∧ ∃ items, l.inside = some items ∧
      Here inner t (Json.enter (h.node i).iter) ⟨items, none⟩ none := by
    cases hn with
    | root hi hup here | begun hi hup here | push hi hltj hup here houter => exact ⟨rfl, hi, here.enter⟩
  obtain ⟨hb, hi, items, hitems, here⟩ := henter
  refine ⟨hb, items, hitems, ?_⟩
  have hkept : Nested (h.enter i) ((i, b) :: path) (l :: outer) (some (inner, t)) := by
    refine hn.frame (Nat.le_succ _) fun q hq => ?_
    have hq' : q.1 < h.size := by
      rcases mem_cons.mp hq with rfl | hq
      · exact hi
      · exact Nat.lt_trans (hlt q hq) hi
    simp [Heap.enter, Heap.alloc, Nat.ne_of_lt hq']
  have hnew : (h.enter i).node h.size =
      ⟨(h.node i).cur, some i, (Json.enter (h.node i).iter).state⟩ := by
    simp [Heap.enter, Heap.alloc]
  have here' : Here inner t ((h.enter i).node h.size).iter ⟨items, none⟩ none := by
    rw [hnew]
    exact here
  exact .push (Nat.lt_succ_self _) hi (by rw [hnew]) here' hkept

theorem Nested.flag (hn : Nested h ((i, b) :: path) (l :: outer) c) :
    b = c.isSome ∧ l.inside.isSome = c.isSome := by
  cases hn with
  | root hi hup here | begun hi hup here | push hi hltj hup here houter => exact ⟨rfl, here.inside⟩

theorem Nested.path_ne_nil (hn : Nested h path ls c) : path ≠ [] := by
  cases hn <;> exact cons_ne_nil _ _

theorem Nested.levels (hn : Nested h path ls c) : ∃ l outer, ls = l :: outer := by
  cases hn <;> exact ⟨_, _, rfl⟩

/-- The caller and the visitor are at the same place. -/
def Together (w : Walk) (ls : List Level) : Prop := ∃ c, Nested w.heap w.path ls c

/-- **A step of the caller** is a step of a visitor of the tree. -/
theorem Together.step {w : Walk} (a : Act) (ht : Together w ls) :
    (walking.step w a = none ∧ visiting.step ls a = none) ∨
      ∃ w' ls' es, walking.step w a = some (w', es) ∧ visiting.step ls a = some (ls', es) ∧
        Together w' ls' := by
  obtain ⟨heap, path⟩ := w
  obtain ⟨c, hn⟩ := ht
  obtain ⟨l, outer, rfl⟩ := hn.levels
  obtain ⟨⟨i, b⟩, path, rfl⟩ := exists_cons_of_ne_nil hn.path_ne_nil
  cases a with
  | next =>
    obtain ⟨hanswer, c', hnext⟩ := hn.next
    have hstep : walking.step ⟨heap, (i, b) :: path⟩ .next =
        some (⟨(heap.next i).2, (i, l.next.1.isContainer) :: path⟩, [l.next.1]) := by
      rw [← hanswer]
      rfl
    exact .inr ⟨_, _, _, hstep, rfl, c', hnext⟩
  | enter =>
    obtain ⟨hb, hinside⟩ := hn.flag
    cases c with
    | none =>
      left
      subst hb
      exact ⟨rfl, by simp [visiting, Option.not_isSome_iff_eq_none.mp (by simpa using hinside)]⟩
    | some found =>
      obtain ⟨rfl, items, hitems, henter⟩ := hn.enter
      exact .inr ⟨_, _, _, rfl, by simp only [visiting, hitems]; rfl, none, henter⟩
  | leave =>
    cases hn with
    | root | begun => exact .inl ⟨rfl, rfl⟩
    | push hi hltj hup here houter =>
      obtain ⟨l', outer', rfl⟩ := houter.levels
      exact .inr ⟨_, _, _, rfl, rfl, _, houter⟩

/-- **What the caller sees** is what a visitor of the tree sees. -/
theorem Together.run {w : Walk} (ht : Together w ls) (acts : List Act) :
    (walking.run w acts).map Prod.snd = (visiting.run ls acts).map Prod.snd :=
  Machine.run_lockstep Together (fun a h => h.step a) ht acts

theorem together_start {root : Value} {text : Text} (hd : Document root text)
    (hdepth : root.depth ≤ maxStack) : Together (.start text) [⟨[root], none⟩] := by
  cases hd with
  | @mk array items gap body trail hgap hbody htrail =>
    set text := gap ++ (opening array :: (body ++ (closing array :: trail)))
    have here : AtRoot ((Walk.start text).heap.node 0).iter ⟨[.node array items], none⟩ none :=
      AtRoot.fresh hgap hbody htrail (Nat.le_of_succ_le hdepth)
    have hroot : Nested (Walk.start text).heap [(0, false)] [⟨[.node array items], none⟩] none :=
      .root Nat.one_pos rfl here
    exact ⟨none, hroot⟩

theorem together_begin {items : List Value} {text : Text} (hd : Document (.node array items) text)
    (hdepth : Value.depth (.node array items) ≤ maxStack) :
    (Heap.empty.beginContainer text array false).1 = true ∧
      Together (.begin text array) [⟨items, none⟩] := by
  cases hd with
  | @mk _ _ gap body trail hgap hbody htrail =>
    have hbegin : Heap.empty.beginContainer
        (gap ++ (opening array :: (body ++ (closing array :: trail)))) array false =
          (true, Heap.empty.alloc ⟨body ++ closing array :: trail, some 0,
            .ok ⟨.none, array, false, true, []⟩⟩) := by
      unfold Heap.beginContainer
      rw [next_init_opening hgap]
      simp only [container_opening, if_true]
      rfl
    refine ⟨by rw [hbegin], none, ?_⟩
    rw [Walk.begin, hbegin]
    have ready : Ready (enter ⟨body ++ closing array :: trail, false, .ok (opened array false)⟩)
      (between array false) := ready_enter rfl
    have here : Here array trail _ ⟨items, none⟩ none :=
      .between ready rfl hbody (Nat.le_of_succ_le hdepth)
    exact @Nested.begun _ 0 _ none array trail Nat.one_pos rfl here

end Nested

/-- **The iterators read what was written, and errors stay.** For a rendering of a tree, the answers
are those of a visitor of the tree, whichever containers the caller enters and leaves again. For any
text, after a call returned -1 later calls on the iterator and its ancestors return -1. -/
theorem reads_written_tree :
    (∀ (root : Value) (text : Text), Document root text → root.depth ≤ 500 →
      (∀ acts, (walking.run (.start text) acts).map Prod.snd =
        (visiting.run [⟨[root], none⟩] acts).map Prod.snd) ∧
      ∀ array items, root = .node array items →
        (Heap.empty.beginContainer text array false).1 = true ∧
        (∀ acts, (walking.run (.begin text array) acts).map Prod.snd =
          (visiting.run [⟨items, none⟩] acts).map Prod.snd) ∧
        (walking.run (.begin text array) (List.replicate (items.length + 1) .next)).map Prod.snd =
          some (items.map Value.answer ++ [.finish])) ∧
    ∀ (h h₁ h₂ : Heap) (tr tr' : List (ℕ × Outcome)) (i j : ℕ) (e : Error),
      iterators.Reaches Heap.empty h tr → iterators.step h (.next i) = some (h₁, [(i, .error e)]) →
      iterators.Reaches h₁ h₂ tr' → h₁.Above i j →
      ∃ e', iterators.step h₂ (.next j) = some (h₂, [(j, .error e')]) := by
  constructor
  · intro root text hd hdepth
    have hdeep : root.depth ≤ maxStack := Nat.le_trans hdepth (by decide)
    refine ⟨(together_start hd hdeep).run, ?_⟩
    rintro array items rfl
    obtain ⟨hone, htogether⟩ := together_begin hd hdeep
    exact ⟨hone, htogether.run, (htogether.run _).trans (visiting_all items none)⟩
  · intro h h₁ h₂ tr tr' i j e hr hstep hlater ha
    exact Heap.failed_later hr hstep hlater ha

/-- An object with an array, and a text that is not closed as it was opened. -/
def sampleTree : Value := .node false [.text [97], .node true [.text [49]]]

def sampleText : Text := [123, 97, 58, 91, 49, 93, 125]

theorem document_sample : Document sampleTree sampleText := by
  have hone : Renders true false [.text [49]] ([] ++ ([49] ++ [])) :=
    .text (fun _ => rfl) .nil (.inr ⟨⟨by decide, forall_mem_singleton.mpr rfl⟩, nofun⟩) (.nil .nil)
  have hcolon : Gap true [58] := .separator rfl (by decide) .nil
  have harray : Renders false true [.node true [.text [49]]]
      ([58] ++ (opening true :: (([] ++ ([49] ++ [])) ++ (closing true :: [])))) :=
    .node (fun h => nomatch h) (fun _ => rfl) hcolon hone (.nil .nil)
  have hends : Ends [58, 91, 49, 93] := by
    intro c hc
    obtain rfl : 58 = c := Option.some.inj hc
    decide
  have hbody : Renders false false [.text [97], .node true [.text [49]]]
      ([] ++ ([97] ++ [58, 91, 49, 93])) :=
    .text (fun h => nomatch h) .nil (.inr ⟨⟨by decide, forall_mem_singleton.mpr rfl⟩, hends⟩) harray
  exact .mk .nil hbody ⟨[], [], .nil, rfl, .inl rfl⟩

/-- The calls on the text of the tree, and on one with a bracket that does not match: the error is
found inside of the array, and then also answered by the iterator around it. -/
theorem reads_written_tree_sample :
    (walking.run (.start sampleText) [.next, .enter, .next, .next, .leave, .next]).map Prod.snd =
        some [.container false, .scalar [97], .container true, .finish] ∧
      ∃ h h₁ tr e, iterators.Reaches Heap.empty h tr ∧
        iterators.step h (.next 1) = some (h₁, [(1, .error .expectedArrayClose)]) ∧
        iterators.step h₁ (.next 0) = some (h₁, [(0, .error e)]) := by
  constructor
  · rw [(reads_written_tree.1 sampleTree sampleText document_sample (by decide)).1]
    rfl
  · have hr := Machine.Reaches.of_run (M := iterators) (s := Heap.empty)
      [.init [91, 125], .next 0, .enter 0] rfl
    obtain ⟨e, he⟩ := reads_written_tree.2 _ _ _ _ _ 1 0 .expectedArrayClose hr rfl .refl
      (.single rfl)
    exact ⟨_, _, _, e, hr, rfl, he⟩

end PipeWireAO.Json
