import PipeWireAO.Foundation.Machine
import PipeWireAO.Pod.Nested
import PipeWireAO.Pod.Path

/-!
# Parsing hostile bytes

All sequences of operations on the pods of a buffer whose bytes may be anything: a parser over the
buffer or over a pod that was found in it, iterators over blocks that were found, and searches for
properties. A frame, a pod or a property that an operation takes was given by one before it.
-/

namespace PipeWireAO.Pod

open List Option
open Foundation (Machine)

/-- What is known about the pods of the buffer. -/
structure System where
  parser : Parser
  /-- The pod that `spa_pod_parser_current` gave, if the parser has not moved since. -/
  cur : Option Header
  /-- The frames that were pushed, each with its parents. -/
  frames : List (List Frame)
  pods : List ℕ
  /-- The properties that were found in an object, with the object. -/
  props : List (ℕ × ℕ)

/-- A block to go over: the data of the parser, a pod, or the body of a pod. -/
inductive Block
  | data
  | pod (i : ℕ)
  | body (i : ℕ)

/-- The operations. Pods, frames and properties are named by their position in the lists above. -/
inductive Op
  | current
  | next
  | advance
  | push
  | pushStruct
  | pushObject (type : ℕ)
  | pop (i : ℕ)
  | getPropBody
  | objectFindProp (key : ℕ)
  | initPod (i : ℕ)
  | podForeach (block : Block)
  | objectForeach (i : ℕ)
  | findProp (i : ℕ) (start : Option ℕ) (key : ℕ)

/-- What an operation gives. -/
inductive Event
  /-- A pod or a property at an address, with the sizes of its header and of its declared body, in
  the block between two addresses. -/
  | returned (at_ header size lo hi : ℕ)
  | advanced (before after : ℕ)
  | failed (e : Error)
  deriving DecidableEq

/-- The block of the current frame. -/
def Parser.block (p : Parser) : ℕ × ℕ :=
  match p.frame with
  | [] => (p.data, p.data + p.size)
  | f :: _ => (p.data + f.offset, p.data + (f.offset + (8 + f.pod.size)))

/-- A pod, or a property, of the current frame. -/
def Parser.returned (p : Parser) (at_ header size : ℕ) : Event :=
  .returned at_ header size p.block.1 p.block.2

/-- The address and the size of a block. -/
def System.block (m : Memory) (s : System) : Block → Option (ℕ × ℕ)
  | .data => some (s.parser.data, s.parser.size)
  | .pod i => s.pods[i]?.map fun a => (a, 8 + podShape.sizeAt m a)
  | .body i => s.pods[i]?.map fun a => (a + 8, podShape.sizeAt m a)

section

variable (u32 : ℕ → ℕ) (m : Memory)

/-- An operation of the parser: on success it has a new state. -/
def System.try_ {α : Type} (s : System) (r : Except Error α) (f : α → System × List Event) :
    Option (System × List Event) :=
  match r with
  | .error e => some (s, [.failed e])
  | .ok a => some (f a)

/-- The pod at `a` was found. -/
def System.found (s : System) (a : ℕ) : System := { s with pods := a :: s.pods }

def System.move (s : System) (p : Parser) : System := { s with parser := p, cur := none }

def parserStep (s : System) : Op → Option (System × List Event)
  | .current => s.try_ (currentBody u32 m s.parser) fun (pod, body) =>
    ({ s.found (ptrback body 8) with cur := some pod },
      [s.parser.returned (ptrback body 8) 8 pod.size])
  | .next => s.try_ (nextBody u32 m s.parser) fun (pod, body, p) =>
    ((s.found (ptrback body 8)).move p,
      [s.parser.returned (ptrback body 8) 8 pod.size, .advanced s.parser.offset p.offset])
  | .advance => s.cur.map fun pod =>
    (s.move (advance u32 s.parser pod),
      [.advanced s.parser.offset (advance u32 s.parser pod).offset])
  | .push => s.cur.bind fun pod =>
    -- the callers of `spa_pod_parser_push` have found an object to be one
    if pod.type = Kind.object.number → 8 ≤ pod.size then
      some ({ s.move (push s.parser pod s.parser.offset) with
        frames := (push s.parser pod s.parser.offset).frame :: s.frames }, [])
    else none
  | .pushStruct => s.try_ (pushStruct u32 m s.parser) fun p =>
    ({ s.move p with frames := p.frame :: s.frames }, [])
  | .pushObject type => s.try_ (pushObject u32 m s.parser type) fun (answer, p) =>
    match answer with
    | .ok _ => ({ s.move p with frames := p.frame :: s.frames }, [])
    | .error res => (s.move p, [.failed (.code res)])
  | .pop i =>
    match s.frames[i]? with
    | some (f :: parent) =>
      some (s.move (pop u32 s.parser f parent),
        [.advanced f.offset (pop u32 s.parser f parent).offset])
    | _ => none
  | .getPropBody => s.try_ (getPropBody u32 m s.parser) fun (prop, body, p) =>
    ((s.found (ptrback body 8)).move p,
      [s.parser.returned (ptrback body 16) 16 prop.value.size,
        .advanced s.parser.offset p.offset])
  | .objectFindProp key =>
    -- at most one round for each eight bytes of the frame, and one
    let fuel := match s.parser.frame with | [] => 0 | f :: _ => rounds f.pod.size
    s.try_ (objectFindProp u32 m key fuel s.parser) fun (r, p) =>
      match r with
      | none => (s.move p, [])
      | some (prop, body) => ((s.found (ptrback body 8)).move p,
          [s.parser.returned (ptrback body 16) 16 prop.value.size])
  | .initPod i => s.pods[i]?.bind fun a =>
    s.try_ (m.header a) fun pod =>
      ({ s.move (initPodBody u32 pod (ptroff a 8)) with frames := [] }, [])
  | _ => none

def iterStep (s : System) : Op → Option (System × List Event)
  | .podForeach block => (s.block m block).bind fun (p, size) =>
    s.try_ (podForeach m p size (size / 8 + 1)) fun l =>
      ({ s with pods := l ++ s.pods },
        l.map fun a => .returned a 8 (podShape.sizeAt m a) p (p + size))
  | .objectForeach i => s.pods[i]?.bind fun o =>
    s.try_ (objectForeach m o (podShape.sizeAt m o / 8 + 1)) fun l =>
      ({ s with pods := l.map (· + 8) ++ s.pods, props := l.map (o, ·) ++ s.props },
        l.map fun a =>
          .returned a 16 (propShape.sizeAt m a) (o + 8) (o + 8 + podShape.sizeAt m o))
  | .findProp i start key => s.pods[i]?.bind fun o =>
    let from_ := start.map fun j => s.props[j]?
    if from_.all fun x => x.all fun y => y.1 = o then
      s.try_ (findProp m o (from_.bind (·.map Prod.snd)) key (rounds (podShape.sizeAt m o))) fun r =>
        match r with
        | none => (s, [])
        | some a => ({ s with pods := (a + 8) :: s.pods, props := (o, a) :: s.props },
            [.returned a 16 (propShape.sizeAt m a) (o + 8) (o + 8 + podShape.sizeAt m o)])
    else none
  | _ => none

/-- All sequences of operations on the pods of a buffer. -/
def parsing : Machine System Op Event where
  step s op := (parserStep u32 m s op).orElse fun _ => iterStep m s op

end

/-- A parser over `size` bytes at `offset`, of the buffer. -/
def System.start (m : Memory) (offset size : ℕ) : System :=
  ⟨initFromData m.base m.bytes.length offset size, none, [], [], []⟩

/-- **What is to hold of what an operation gives**: a pod or a property lies in its block, header
and declared body, and the block in the buffer; the offset gets greater; and a failure is an error
number, not leaving the buffer or not ending. -/
def Event.Confined (m : Memory) : Event → Prop
  | .returned at_ header size lo hi =>
    m.base ≤ lo ∧ hi ≤ m.base + m.bytes.length ∧ lo ≤ at_ ∧ at_ + header + size ≤ hi
  | .advanced before after => before < after
  | .failed e => ∃ res, e = .code res

/-! ## The invariant -/

/-- **The invariant**: the parser is inside, and so is all that was found. -/
structure System.Ok (m : Memory) (s : System) : Prop where
  parser : s.parser.Inside m
  cur : ∀ pod, s.cur = some pod → pod.size < 2 ^ 32 ∧
    s.parser.offset + (8 + align pod.size) ≤ upper s.parser.size s.parser.frame
  frames : ∀ f fs, f :: fs ∈ s.frames → Nested s.parser.size (f :: fs)
  pods : ∀ a ∈ s.pods, IsPod m a
  props : ∀ x ∈ s.props, PropOf m x.1 x.2

/-- What an operation is to do with the invariant. -/
def Keeps (m : Memory) (r : System × List Event) : Prop := r.1.Ok m ∧ ∀ e ∈ r.2, e.Confined m

variable {u32 : ℕ → ℕ} {m : Memory} {s : System} {r : System × List Event}
variable {size a type i body key : ℕ} {pod : Header} {block : Block} {p : Parser}

theorem Parser.Inside.returned (hp : p.Inside m) {o header : ℕ} (hlo : Pod.lower p.frame ≤ o)
    (hhi : o + (header + size) ≤ Pod.upper p.size p.frame) :
    (p.returned (p.data + o) header size).Confined m := by
  have hsize := upper_le hp.nested
  obtain ⟨hbase, htop⟩ := hp.holds
  unfold Parser.returned Parser.block Event.Confined
  cases hframe : p.frame with
  | nil =>
    have hupper : Pod.upper p.size [] = p.size := rfl
    dsimp only
    omega
  | cons f fs =>
    rw [hframe] at hlo hhi hsize
    have hlower : Pod.lower (f :: fs) = f.offset := rfl
    have hupper : Pod.upper p.size (f :: fs) = f.offset + (8 + f.pod.size) := rfl
    dsimp only
    omega

namespace System.Ok

theorem of_try {α : Type} {x : Except Error α} {f : α → System × List Event} (hs : s.Ok m)
    (herror : ∀ e, x = .error e → ∃ res, e = .code res) (hok : ∀ a, x = .ok a → Keeps m (f a))
    (h : s.try_ x f = some r) : Keeps m r := by
  cases x with
  | error e =>
    cases h
    refine ⟨hs, fun e' he => ?_⟩
    rw [mem_singleton.mp he]
    exact herror e rfl
  | ok a =>
    cases h
    exact hok a rfl

theorem found (hs : s.Ok m) (ha : IsPod m a) : (s.found a).Ok m where
  parser := hs.parser
  cur := hs.cur
  frames := hs.frames
  pods x hx := by
    rcases mem_cons.mp hx with rfl | hx
    · exact ha
    · exact hs.pods x hx
  props := hs.props

theorem move (hs : s.Ok m) (hp : p.Inside m) (hsize : p.size = s.parser.size) :
    (s.move p).Ok m where
  parser := hp
  cur _ h := by cases h
  frames := hsize ▸ hs.frames
  pods := hs.pods
  props := hs.props

theorem enter (hs : s.Ok m) (hp : p.Inside m) (hsize : p.size = s.parser.size) :
    ({ s.move p with frames := p.frame :: s.frames } : System).Ok m where
  parser := hp
  cur _ h := by cases h
  frames f fs hf := by
    rcases mem_cons.mp hf with hf | hf
    · show Nested p.size (f :: fs)
      rw [hf]
      exact hp.nested
    · exact hsize ▸ hs.frames f fs hf
  pods := hs.pods
  props := hs.props

end System.Ok

/-! ## The parser -/

namespace Parser.Inside

variable {p : Parser}

theorem current_pod (hu : Exact u32) (hp : p.Inside m) (h : currentBody u32 m p = .ok (pod, body)) :
    ptrback body 8 = p.data + p.offset ∧ IsPod m (p.data + p.offset) ∧ pod.size < 2 ^ 32 ∧
      p.offset + (8 + align pod.size) ≤ Pod.upper p.size p.frame ∧
      (p.returned (p.data + p.offset) 8 pod.size).Confined m := by
  obtain ⟨hend, hholds, hpod, rfl⟩ := hp.currentBody_ok hu h
  have hs : pod.size < 2 ^ 32 := by
    rw [hpod]
    exact Header.size_lt _
  have hsize := upper_le hp.nested
  have halign := align_size (n := pod.size) (by omega)
  refine ⟨ptrback_add _ _, ?_, hs, hend, hp.returned hp.lower (by omega)⟩
  have hat : podShape.sizeAt m (p.data + p.offset) = pod.size := by rw [hpod]; rfl
  exact hp.holds.mono (by omega) (by omega)

theorem finds_pod (hp : p.Inside m) {prop : Property} (h : Finds m p prop body) :
    IsPod m (ptrback body 8) ∧ (p.returned (ptrback body 16) 16 prop.value.size).Confined m := by
  obtain ⟨o, hlo, hend, hprop, rfl⟩ := h
  have hs : prop.value.size < 2 ^ 32 := by
    rw [hprop]
    exact Header.size_lt _
  have hsize := upper_le hp.nested
  have halign := align_size (n := prop.value.size) (by omega)
  have hwithin : Within m propShape p.data p.size (p.data + o) := by
    refine ⟨Nat.le_add_right _ _, ?_⟩
    have hat : propShape.sizeAt m (p.data + o) = prop.value.size := by rw [hprop]; rfl
    rw [hat]
    show p.data + o + (16 + prop.value.size) ≤ p.data + p.size
    omega
  refine ⟨?_, ?_⟩
  · exact (hwithin.value hp.holds).2
  · exact hp.returned hlo (by omega)

end Parser.Inside

namespace System.Ok

theorem current_keeps (hu : Exact u32) (hs : s.Ok m)
    (h : parserStep u32 m s .current = some r) : Keeps m r := by
  refine hs.of_try (fun e he => ⟨_, hs.parser.currentBody_error hu he⟩) ?_ h
  rintro ⟨pod, body⟩ hcur
  obtain ⟨hat, hpod, hlt, hend, hconf⟩ := hs.parser.current_pod hu hcur
  have hfound := hs.found hpod
  dsimp only
  rw [hat]
  refine ⟨⟨hfound.parser, ?_, hfound.frames, hfound.pods, hfound.props⟩, by simpa using hconf⟩
  intro pod' hpod'
  cases hpod'
  exact ⟨hlt, hend⟩

theorem advance_keeps (hu : Exact u32) (hs : s.Ok m) (hlt : pod.size < 2 ^ 32)
    (hend : s.parser.offset + (8 + align pod.size) ≤ upper s.parser.size s.parser.frame) :
    (s.move (advance u32 s.parser pod)).Ok m ∧
      s.parser.offset < (advance u32 s.parser pod).offset := by
  rw [hs.parser.advance_eq hu hlt hend]
  refine ⟨hs.move (hs.parser.advance hend) rfl, ?_⟩
  show s.parser.offset < s.parser.offset + (8 + align pod.size)
  omega

theorem next_keeps (hu : Exact u32) (hs : s.Ok m) (h : parserStep u32 m s .next = some r) :
    Keeps m r := by
  unfold parserStep nextBody at h
  cases hcur : currentBody u32 m s.parser with
  | error e =>
    rw [hcur, hs.parser.currentBody_error hu hcur] at h
    cases h
    exact ⟨hs, by simp [Event.Confined]⟩
  | ok x =>
    rw [hcur] at h
    cases h
    obtain ⟨hat, hpod, hlt, hend, hconf⟩ := hs.parser.current_pod hu hcur
    dsimp only
    rw [hat]
    obtain ⟨hok, hmove⟩ := (hs.found hpod).advance_keeps hu hlt hend
    refine ⟨hok, fun e he => ?_⟩
    rcases mem_cons.mp he with rfl | he
    · exact hconf
    · rw [mem_singleton.mp he]
      exact hmove

theorem push_keeps (hs : s.Ok m) (h : parserStep u32 m s .push = some r) : Keeps m r := by
  obtain ⟨pod, hcur, h⟩ := bind_eq_some_iff.mp h
  obtain ⟨hlt, hend⟩ := hs.cur pod hcur
  split_ifs at h with hobject
  cases h
  exact ⟨hs.enter (hs.parser.enter (o := 0) hlt hend hobject (Nat.zero_le _)) rfl, by simp⟩

section Push

variable (hu : Exact u32)

include hu

theorem pushStruct_keeps (hs : s.Ok m)
    (h : parserStep u32 m s .pushStruct = some r) : Keeps m r := by
  refine hs.of_try (fun e he => hs.parser.pushStruct_error hu he) ?_ h
  intro p hp
  obtain ⟨pod, body, -, -, rfl, hins⟩ := hs.parser.pushStruct_ok hu hp
  exact ⟨hs.enter hins rfl, by simp⟩

theorem pushObject_ok (hp : p.Inside m) {p' : Parser} {answer : Except Int ℕ}
    (h : pushObject u32 m p type = .ok (answer, p')) :
    p'.Inside m ∧ p'.size = p.size ∧ ∀ res, answer = .error res → p' = p := by
  unfold pushObject at h
  split at h
  · cases h
  · rename_i object p₁ hpush
    obtain ⟨pod, body, -, -, rfl, hins⟩ := hp.pushObjectBody_ok hu hpush
    split_ifs at h with htype
    · cases h
      exact ⟨hp, rfl, fun _ _ => rfl⟩
    · cases h
      exact ⟨hins, rfl, fun res hres => by cases hres⟩

theorem pushObject_error (hp : p.Inside m) {e : Error} (h : pushObject u32 m p type = .error e) :
    ∃ res, e = .code res := by
  unfold pushObject at h
  split at h
  · rename_i hpush
    cases h
    exact hp.pushObjectBody_error hu hpush
  · rename_i object p₁ hpush
    obtain ⟨pod, body, -, -, rfl, hins⟩ := hp.pushObjectBody_ok hu hpush
    dsimp only [push] at h
    split_ifs at h

theorem pushObject_keeps (hs : s.Ok m)
    (h : parserStep u32 m s (.pushObject type) = some r) : Keeps m r := by
  refine hs.of_try (fun e he => pushObject_error hu hs.parser he) ?_ h
  rintro ⟨answer, p⟩ hp
  obtain ⟨hins, hsize, -⟩ := pushObject_ok hu hs.parser hp
  cases answer with
  | ok id => exact ⟨hs.enter hins hsize, by simp⟩
  | error res => exact ⟨hs.move hins hsize, by simp [Event.Confined]⟩

theorem pop_keeps (hs : s.Ok m) (h : parserStep u32 m s (.pop i) = some r) : Keeps m r := by
  simp only [parserStep] at h
  split at h
  · rename_i f fs hf
    cases h
    have hnested := hs.frames f fs (mem_of_getElem? hf)
    rw [hs.parser.pop_eq hu hnested]
    refine ⟨hs.move (hs.parser.pop hnested) rfl, fun e he => ?_⟩
    rw [mem_singleton.mp he]
    show f.offset < f.offset + (8 + align f.pod.size)
    omega
  · cases h

theorem getPropBody_keeps (hs : s.Ok m)
    (h : parserStep u32 m s .getPropBody = some r) : Keeps m r := by
  refine hs.of_try (fun e he => ⟨_, hs.parser.getPropBody_error hu he⟩) ?_ h
  rintro ⟨prop, body, p⟩ hp
  obtain ⟨hend, -, hprop, hbody, rfl, hins⟩ := hs.parser.getPropBody_ok hu hp
  obtain ⟨hpod, hconf⟩ :=
    hs.parser.finds_pod ⟨s.parser.offset, hs.parser.lower, hend, hprop, hbody⟩
  refine ⟨(hs.found hpod).move hins rfl, fun e he => ?_⟩
  rcases mem_cons.mp he with rfl | he
  · exact hconf
  · rw [mem_singleton.mp he]
    show s.parser.offset < s.parser.offset + (16 + align prop.value.size)
    omega

theorem objectFindProp_keeps (hs : s.Ok m)
    (h : parserStep u32 m s (.objectFindProp key) = some r) : Keeps m r := by
  simp only [parserStep, objectFindProp] at h
  cases hf : s.parser.frame with
  | nil =>
    rw [hf] at h
    cases h
    exact ⟨hs, by simp [Event.Confined]⟩
  | cons f fs =>
    simp only [hf] at h
    split_ifs at h with ho
    · obtain ⟨x, o, hx, hins, hfinds⟩ := hs.parser.findFrom_spec hu hf ho key
      rw [hx] at h
      cases x with
      | none =>
        cases h
        exact ⟨hs.move hins rfl, by simp⟩
      | some found =>
        cases h
        obtain ⟨hpod, hconf⟩ := hs.parser.finds_pod (hfinds found.1 found.2 rfl)
        exact ⟨(hs.found hpod).move hins rfl, by simpa using hconf⟩
    · cases h
      exact ⟨hs, by simp [Event.Confined]⟩

theorem initPod_inside (ha : IsPod m a)
    (hpod : m.header a = .ok pod) : (initPodBody u32 pod (ptroff a 8)).Inside m := by
  rw [ha.header_eq] at hpod
  cases hpod
  rw [ha.body.1, initPodBody, ptrback_add]
  have hsize : (Header.ofBytes (m.slice a 8)).size = podShape.sizeAt m a := rfl
  have hsmall := m.small
  obtain ⟨hbase, htop⟩ := id ha
  rw [hsize, hu _ (by omega)]
  exact ⟨⟨hbase, by show a + (podShape.sizeAt m a + 8) ≤ _; omega⟩, trivial, le_rfl, Nat.zero_le _⟩

theorem initPod_keeps (hs : s.Ok m) (h : parserStep u32 m s (.initPod i) = some r) : Keeps m r := by
  obtain ⟨a, ha, h⟩ := bind_eq_some_iff.mp h
  have hpod := hs.pods a (mem_of_getElem? ha)
  refine hs.of_try (fun e he => ?_) ?_ h
  · rw [hpod.header_eq] at he
    cases he
  · intro pod hheader
    refine ⟨⟨initPod_inside hu hpod hheader, ?_, by simp, hs.pods, hs.props⟩, by simp⟩
    rintro _ ⟨⟩

end Push

end System.Ok

/-! ## The iterators -/

theorem Within.confined {shape : Shape} {p : ℕ} (hm : m.Holds p size)
    (h : Within m shape p size a) :
    (Event.returned a shape.header (shape.sizeAt m a) p (p + size)).Confined m :=
  ⟨hm.1, hm.2, h.1, by have := h.2; omega⟩

theorem PropOf.value {o : ℕ} (ho : IsPod m o) (h : PropOf m o a) : IsPod m (a + 8) ∧
    (Event.returned a 16 (propShape.sizeAt m a) (o + 8) (o + 8 + podShape.sizeAt m o)).Confined m := by
  obtain ⟨-, -, hw⟩ := h
  exact ⟨(hw.value ho.body.2).2, hw.confined ho.body.2⟩

namespace System.Ok

theorem block_holds (hs : s.Ok m) {p : ℕ} (h : s.block m block = some (p, size)) :
    m.Holds p size := by
  cases block with
  | data =>
    cases h
    exact hs.parser.holds
  | pod i =>
    obtain ⟨a, ha, h⟩ := map_eq_some_iff.mp h
    have hpod := hs.pods a (mem_of_getElem? ha)
    cases h
    exact hpod
  | body i =>
    obtain ⟨a, ha, h⟩ := map_eq_some_iff.mp h
    have hpod := hs.pods a (mem_of_getElem? ha)
    cases h
    exact hpod.body.2

theorem withPods (hs : s.Ok m) (pods : List ℕ) (props : List (ℕ × ℕ))
    (hpods : ∀ a ∈ pods, IsPod m a) (hprops : ∀ x ∈ props, PropOf m x.1 x.2) :
    ({ s with pods := pods ++ s.pods, props := props ++ s.props } : System).Ok m where
  parser := hs.parser
  cur := hs.cur
  frames := hs.frames
  pods a ha := (mem_append.mp ha).elim (hpods a) (hs.pods a)
  props x hx := (mem_append.mp hx).elim (hprops x) (hs.props x)

theorem podForeach_keeps (hs : s.Ok m) (h : iterStep m s (.podForeach block) = some r) :
    Keeps m r := by
  obtain ⟨⟨p, size⟩, hblock, h⟩ := bind_eq_some_iff.mp h
  have hm := hs.block_holds hblock
  obtain ⟨l, b, hl, hpath⟩ := foreachLoop_spec podShape (a := p) (n := size / 8 + 1) hm
    (Nat.succ_pos _) fun _ => by show p + size < p + 8 * (size / 8 + 1); omega
  dsimp only [podForeach] at h
  rw [hl] at h
  cases h
  refine ⟨hs.withPods l [] (fun a ha => (hpath.within a ha).holds hm) (by simp), ?_⟩
  intro e he
  obtain ⟨a, ha, rfl⟩ := mem_map.mp he
  exact (hpath.within a ha).confined hm

theorem objectForeach_keeps (hs : s.Ok m)
    (h : iterStep m s (.objectForeach i) = some r) : Keeps m r := by
  obtain ⟨o, ho, h⟩ := bind_eq_some_iff.mp h
  have hpod := hs.pods o (mem_of_getElem? ho)
  obtain ⟨hbody, hm⟩ := hpod.body
  obtain ⟨l, b, hl, hpath⟩ := foreachLoop_spec propShape (a := propFirst (o + 8))
    (n := podShape.sizeAt m o / 8 + 1) hm (Nat.succ_pos _) fun hw => by
      have hlo := hw.1
      show o + 8 + podShape.sizeAt m o < propFirst (o + 8) + 16 * (podShape.sizeAt m o / 8 + 1)
      omega
  have hloop : objectForeach m o (podShape.sizeAt m o / 8 + 1) = .ok l := by
    unfold objectForeach
    rw [hpod.header_eq]
    rw [hbody]
    exact hl
  rw [hloop] at h
  cases h
  have hprop : ∀ a ∈ l, PropOf m o a := fun a ha => by
    obtain ⟨l', hreach⟩ := hpath.reach ha
    exact ⟨l', hreach, hpath.within a ha⟩
  refine ⟨hs.withPods _ _ (fun x hx => ?_) (fun x hx => ?_), fun e he => ?_⟩
  · obtain ⟨a, ha, rfl⟩ := mem_map.mp hx
    exact ((hprop a ha).value hpod).1
  · obtain ⟨a, ha, rfl⟩ := mem_map.mp hx
    exact hprop a ha
  · obtain ⟨a, ha, rfl⟩ := mem_map.mp he
    exact ((hprop a ha).value hpod).2

theorem findProp_keeps (hs : s.Ok m) {start : Option ℕ}
    (h : iterStep m s (.findProp i start key) = some r) : Keeps m r := by
  obtain ⟨o, ho, h⟩ := bind_eq_some_iff.mp h
  have hpod := hs.pods o (mem_of_getElem? ho)
  dsimp only at h
  split_ifs at h with hall
  have hstart : ∀ x, ((start.map fun j => s.props[j]?).bind fun y => y.map Prod.snd) = some x →
      PropOf m o x := by
    intro x hx
    obtain ⟨y, hy, hx⟩ := bind_eq_some_iff.mp hx
    obtain ⟨z, rfl, rfl⟩ := map_eq_some_iff.mp hx
    obtain ⟨j, -, hj⟩ := map_eq_some_iff.mp hy
    rw [hy] at hall
    obtain rfl : z.1 = o := by simpa using hall
    exact hs.props z (mem_of_getElem? hj)
  obtain ⟨x, hx, hfound⟩ := findProp_spec key hpod hstart
  rw [hx] at h
  cases x with
  | none =>
    cases h
    exact ⟨hs, by simp⟩
  | some a =>
    cases h
    obtain ⟨hvalue, hconf⟩ := (hfound a rfl).value hpod
    exact ⟨hs.withPods [a + 8] [(o, a)] (by simpa using hvalue)
      (by simpa using hfound a rfl), by simpa using hconf⟩

/-- **Every operation** keeps the invariant and gives what is confined. -/
theorem step (hu : Exact u32) (hs : s.Ok m) {op : Op} (h : (parsing u32 m).step s op = some r) :
    Keeps m r := by
  cases op with
  | current => exact hs.current_keeps hu (by simpa [parsing, iterStep] using h)
  | next => exact hs.next_keeps hu (by simpa [parsing, iterStep] using h)
  | advance =>
    cases hcur : s.cur with
    | none => simp [parsing, parserStep, iterStep, hcur] at h
    | some pod =>
      simp only [parsing, parserStep, hcur, map_some] at h
      cases h
      obtain ⟨hlt, hend⟩ := hs.cur pod hcur
      obtain ⟨hok, hmove⟩ := hs.advance_keeps hu hlt hend
      exact ⟨hok, by simpa [Event.Confined] using hmove⟩
  | push => exact hs.push_keeps (by simpa [parsing, iterStep] using h)
  | pushStruct => exact hs.pushStruct_keeps hu (by simpa [parsing, iterStep] using h)
  | pushObject type => exact hs.pushObject_keeps hu (by simpa [parsing, iterStep] using h)
  | pop i => exact hs.pop_keeps hu (by simpa [parsing, iterStep] using h)
  | getPropBody => exact hs.getPropBody_keeps hu (by simpa [parsing, iterStep] using h)
  | objectFindProp key => exact hs.objectFindProp_keeps hu (by simpa [parsing, iterStep] using h)
  | initPod i => exact hs.initPod_keeps hu (by simpa [parsing, iterStep] using h)
  | podForeach block => exact hs.podForeach_keeps h
  | objectForeach i => exact hs.objectForeach_keeps h
  | findProp i start key => exact hs.findProp_keeps h

end System.Ok

/-! ## Unbounded numbers -/

namespace System.Ok

variable {u32' : ℕ → ℕ}

/-- **No operation leaves the words of 32 bits**: it does not matter how they are converted. -/
theorem step_congr (hu : Exact u32) (hu' : Exact u32') (hs : s.Ok m) (op : Op) :
    (parsing u32 m).step s op = (parsing u32' m).step s op := by
  have hparser : parserStep u32 m s op = parserStep u32' m s op := by
    have hcur := hs.parser.currentBody_congr hu hu'
    cases op with
    | current => simp only [parserStep, hcur]
    | next =>
      simp only [parserStep, nextBody, ← hcur]
      cases h : currentBody u32 m s.parser with
      | error e => rw [hs.parser.currentBody_error hu h]
      | ok x =>
        obtain ⟨-, -, hlt, hend, -⟩ := hs.parser.current_pod hu h
        dsimp only
        rw [hs.parser.advance_eq hu hlt hend, hs.parser.advance_eq hu' hlt hend]
    | advance =>
      cases h : s.cur with
      | none => simp only [parserStep, h, map_none]
      | some pod =>
        obtain ⟨hlt, hend⟩ := hs.cur pod h
        simp only [parserStep, h, map_some, hs.parser.advance_eq hu hlt hend,
          hs.parser.advance_eq hu' hlt hend]
    | push => rfl
    | pushStruct =>
      simp only [parserStep, pushStruct, ← hcur]
      cases h : currentBody u32 m s.parser with
      | error e => rfl
      | ok x =>
        obtain ⟨-, -, hlt, hend, -⟩ := hs.parser.current_pod hu h
        have hsmall := hs.parser.small
        rw [hu _ (by omega), hu' _ (by omega)]
    | pushObject type =>
      simp only [parserStep, pushObject, hs.parser.pushObjectBody_congr hu hu']
    | pop i =>
      simp only [parserStep]
      split
      · rename_i f fs hf
        have hnested := hs.frames f fs (mem_of_getElem? hf)
        rw [hs.parser.pop_eq hu hnested, hs.parser.pop_eq hu' hnested]
      · rfl
    | getPropBody => simp only [parserStep, hs.parser.getPropBody_congr hu hu']
    | objectFindProp key =>
      simp only [parserStep, objectFindProp]
      cases hf : s.parser.frame with
      | nil => rfl
      | cons f fs =>
        dsimp only
        split_ifs with ho
        · rw [hs.parser.findFrom_congr hu hu' hf ho key]
        · rfl
    | initPod i =>
      cases h : s.pods[i]? with
      | none => simp only [parserStep, h, bind_none]
      | some a =>
        have hpod := hs.pods a (mem_of_getElem? h)
        have hsmall := m.small
        have hend := (id hpod : m.Holds a _).2
        have hbase := (id hpod : m.Holds a _).1
        have hsize : (Header.ofBytes (m.slice a 8)).size + 8 < 2 ^ 32 := by
          show podShape.sizeAt m a + 8 < 2 ^ 32
          omega
        simp only [parserStep, h, bind_some, hpod.header_eq, initPodBody, System.try_,
          hu _ hsize, hu' _ hsize]
    | podForeach block | objectForeach i | findProp i start key => rfl
  simp only [parsing, hparser]

end System.Ok

theorem System.start_ok (m : Memory) (offset size : ℕ) : (System.start m offset size).Ok m := by
  have hm : m.Holds m.base m.bytes.length := ⟨le_rfl, le_rfl⟩
  refine ⟨⟨?_, trivial, Nat.zero_le _, Nat.zero_le _⟩, ?_, by simp [System.start], by simp [System.start],
    by simp [System.start]⟩
  · show m.Holds (ptroff m.base (min offset m.bytes.length))
      (min (m.bytes.length - min offset m.bytes.length) size)
    rw [hm.ptroff_eq (Nat.min_le_right _ _)]
    exact hm.mono (Nat.le_add_right _ _) (by omega)
  · rintro _ ⟨⟩

/-- **Parsing is confined and ends, whatever the bytes are.** Every pod and property returned lies
in its block, and that in the buffer; every advance increases the offset; no operation leaves the
buffer, or takes more rounds than there are eights of bytes in its block, and one; and every
operation is the same on unbounded numbers. -/
theorem pods_confined (m : Memory) (offset size : ℕ) {s : System} {tr : List Event}
    (h : (parsing wrap32 m).Reaches (System.start m offset size) s tr) :
    (∀ e ∈ tr, e.Confined m) ∧ ∀ op, (parsing wrap32 m).step s op = (parsing id m).step s op := by
  obtain ⟨hok, hconf⟩ := h.invariant_events (System.start_ok m offset size) fun hs hstep =>
    hs.step exact_wrap32 hstep
  exact ⟨hconf, hok.step_congr exact_wrap32 exact_id⟩

/-- A struct with an integer in it, and then a header that declares all of a word's range. -/
def hostile : Memory where
  base := 4096
  bytes := [24, 0, 0, 0, 14, 0, 0, 0, 4, 0, 0, 0, 4, 0, 0, 0, 7, 0, 0, 0, 0, 0, 0, 0,
    255, 255, 255, 255, 4, 0, 0, 0]
  small := by decide
  addressable := by decide

theorem pods_confined_hostile : ∃ s tr,
    (parsing wrap32 hostile).Reaches (System.start hostile 0 32) s tr ∧
      tr = [.returned 4104 8 4 4096 4128, .advanced 8 24, .failed (.code (-eInval)),
        .advanced 0 32, .returned 4096 8 24 4096 4128] ∧ (∀ e ∈ tr, e.Confined hostile) ∧
      ∀ op, (parsing wrap32 hostile).step s op = (parsing id hostile).step s op := by
  exact Machine.Reaches.of_run_such [.pushStruct, .next, .next, .pop 0, .podForeach .data]
    (by decide +kernel) fun s tr hreach htr => ⟨htr, pods_confined hostile 0 32 hreach⟩

end PipeWireAO.Pod
