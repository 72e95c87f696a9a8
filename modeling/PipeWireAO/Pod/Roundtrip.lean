import PipeWireAO.Pod.Reading

/-!
# What was built is what is read

A tree that is built into a buffer with room for it, and then read with a parser over what was
written, is the same tree; the parser is at the end. The getters refuse a body of `maxSize` bytes or
more, which the builder writes like any other.
-/

namespace PipeWireAO.Pod

open List
open Foundation (toLe length_toLe)

/-! ## Where the pods are -/

/-- A pod at an offset. -/
structure Placed where
  offset : ℕ
  kind : Kind
  body : List UInt8

/-- The pod that stands for the values of an array or of a choice: its body is the first value. -/
def childPod (o : ℕ) : List Scalar → Placed
  | [] => ⟨o, .none, []⟩
  | v :: _ => ⟨o, v.kind, v.body⟩

mutual

/-- The pods in the bytes of a tree at offset `o`. -/
def Tree.pods (o : ℕ) : Tree → List Placed
  | .scalar v => [⟨o, v.kind, v.body⟩]
  | .array vs => [⟨o, .array, (Tree.array vs).body⟩, childPod (o + 8) vs]
  | .choice type flags vs =>
    [⟨o, .choice, (Tree.choice type flags vs).body⟩, childPod (o + 16) vs]
  | .struct ts => ⟨o, .struct, (Tree.struct ts).body⟩ :: ts.pods (o + 8)
  | .object type id ps => ⟨o, .object, (Tree.object type id ps).body⟩ :: ps.pods (o + 16)

def Trees.pods (o : ℕ) : Trees → List Placed
  | .nil => []
  | .cons t ts => t.pods o ++ ts.pods (o + t.bytes.length)

/-- The pods in an object; a key and flags stand before each. -/
def Props.pods (o : ℕ) : Props → List Placed
  | .nil => []
  | .cons _ _ t ps => t.pods (o + 8) ++ ps.pods (o + (8 + t.bytes.length))

end

/-- The pod is in the bytes, at a multiple of eight, with the size of its body in its header. -/
def Placed.In (x : Placed) (bs : List UInt8) : Prop :=
  x.offset % 8 = 0 ∧
    ∃ rest, bs.drop x.offset = Header.bytes ⟨x.body.length, x.kind.number⟩ ++ (x.body ++ rest)

/-- Bytes behind `o` others, a multiple of eight. -/
def Behind (bs : List UInt8) (o : ℕ) (xs : List UInt8) : Prop :=
  o % 8 = 0 ∧ ∃ rest, bs.drop o = xs ++ rest

namespace Behind

variable {bs xs ys : List UInt8} {o : ℕ}

theorem left (h : Behind bs o (xs ++ ys)) : Behind bs o xs := by
  obtain ⟨ho, rest, hdrop⟩ := h
  exact ⟨ho, ys ++ rest, by rw [hdrop, append_assoc]⟩

theorem right (h : Behind bs o (xs ++ ys)) {n : ℕ} (hn : xs.length = n) (hmod : n % 8 = 0) :
    Behind bs (o + n) ys := by
  obtain ⟨ho, rest, hdrop⟩ := h
  refine ⟨by omega, rest, ?_⟩
  rw [← drop_drop, hdrop, append_assoc, drop_left' hn]

theorem placed {kind : Kind} {body : List UInt8} (h : Behind bs o (podBytes kind body)) :
    Placed.In ⟨o, kind, body⟩ bs := by
  obtain ⟨ho, rest, hdrop⟩ := h
  refine ⟨ho, padding body.length ++ rest, ?_⟩
  rw [hdrop, podBytes]
  simp only [append_assoc]

theorem body {kind : Kind} {body : List UInt8} (h : Behind bs o (podBytes kind body)) :
    Behind bs (o + 8) body := by
  exact h.left.right (length_bytes _) rfl

theorem child {vs : List Scalar} (h : Behind bs o (valuesBytes vs)) : (childPod o vs).In bs := by
  obtain ⟨ho, rest, hdrop⟩ := h
  cases vs with
  | nil => exact ⟨ho, rest, hdrop⟩
  | cons v vs =>
    refine ⟨ho, vs.flatMap Scalar.body ++ rest, ?_⟩
    rw [valuesBytes, flatMap_cons] at hdrop
    simp only [append_assoc] at hdrop
    exact hdrop

end Behind

mutual

variable {bs : List UInt8}

/-- **Every pod of a tree** is where it has to be. -/
theorem Tree.pods_in (t : Tree) {o : ℕ} (h : Behind bs o t.bytes) : ∀ x ∈ t.pods o, x.In bs := by
  intro x hx
  cases t with
  | scalar v =>
    rw [Tree.pods, mem_singleton] at hx
    rw [hx]
    exact h.placed
  | array vs =>
    rw [Tree.pods, mem_cons, mem_singleton] at hx
    rcases hx with rfl | rfl
    · exact h.placed
    · exact h.body.child
  | choice type flags vs =>
    rw [Tree.pods, mem_cons, mem_singleton] at hx
    rcases hx with rfl | rfl
    · exact h.placed
    · exact (h.body.right (n := 8) (by simp) rfl).child
  | struct ts =>
    rw [Tree.pods, mem_cons] at hx
    rcases hx with rfl | hx
    · exact h.placed
    · exact ts.pods_in h.body x hx
  | object type id ps =>
    rw [Tree.pods, mem_cons] at hx
    rcases hx with rfl | hx
    · exact h.placed
    · exact ps.pods_in (h.body.right (n := 8) (by simp) rfl) x hx

theorem Trees.pods_in (ts : Trees) {o : ℕ} (h : Behind bs o ts.bytes) :
    ∀ x ∈ ts.pods o, x.In bs := by
  intro x hx
  cases ts with
  | nil => cases hx
  | cons t ts =>
    rw [Trees.pods, mem_append] at hx
    rcases hx with hx | hx
    · exact t.pods_in h.left x hx
    · exact ts.pods_in (h.right rfl t.length_bytes) x hx

theorem Props.pods_in (ps : Props) {o : ℕ} (h : Behind bs o ps.bytes) :
    ∀ x ∈ ps.pods o, x.In bs := by
  intro x hx
  cases ps with
  | nil => cases hx
  | cons key flags t ps =>
    rw [Props.pods, mem_append] at hx
    have hvalue := h.right (n := 8) (by simp) rfl
    rcases hx with hx | hx
    · exact t.pods_in hvalue.left x hx
    · have hrest := hvalue.right rfl t.length_bytes
      rw [Nat.add_assoc] at hrest
      exact ps.pods_in hrest x hx

end

/-! ## A tree is read as it was built -/
variable {data : List UInt8} {t : Tree}

theorem build_init (hdata : data.length < 2 ^ 32) (hfits : t.bytes.length ≤ data.length) :
    (t.build (builderInit data)).offset = t.bytes.length ∧
    (t.build (builderInit data)).data.length = data.length ∧
    ∃ rest, (t.build (builderInit data)).data = t.bytes ++ rest := by
  have hkept := t.build_kept ⟨follows_init data, rfl, Nat.zero_le _⟩ hdata ⟨rfl, rfl⟩ hfits
  refine ⟨hkept.follows.offset, hkept.length, (t.build (builderInit data)).data.drop t.bytes.length, ?_⟩
  have htake : (t.build (builderInit data)).data.take t.bytes.length = t.bytes := hkept.bytes_eq
  have hsplit := take_append_drop t.bytes.length (t.build (builderInit data)).data
  rw [htake] at hsplit
  exact hsplit.symm

theorem initFromData_before {m : Memory} {bs rest : List UInt8} (hm : m.bytes = bs ++ rest) :
    initFromData m.base m.bytes.length 0 bs.length = ⟨m.base, bs.length, 0, []⟩ ∧
      (⟨m.base, bs.length, 0, []⟩ : Parser).Before m bs := by
  have hlen : bs.length ≤ m.bytes.length := by rw [hm, length_append]; omega
  have hbase : ptroff m.base 0 = m.base := by
    have := m.addressable
    exact Nat.mod_eq_of_lt (by omega)
  have hat : m.At m.base bs := by
    refine ⟨⟨le_rfl, by omega⟩, ?_⟩
    rw [Memory.slice, Nat.sub_self, drop_zero, hm, take_left]
  refine ⟨?_, ⟨hat.1, trivial, le_rfl, Nat.zero_le _⟩, rfl, hat, (Nat.zero_add _).le⟩
  simp only [initFromData, init, Nat.zero_min, hbase, Nat.sub_zero, Nat.min_eq_right hlen]

/-- **Building and reading are inverse.** A tree that fits into the buffer, and whose body is
smaller than `maxSize`, is read as it was built. Every pod in it starts at a multiple of eight, with
the length of its body in its header. -/
theorem build_read (t : Tree) (ht : t.Ok) (hmax : t.body.length < maxSize) (data : List UInt8)
    (hdata : data.length < 2 ^ 32) (hfits : t.bytes.length ≤ data.length) :
    (t.build (builderInit data)).offset = t.bytes.length ∧
    (∀ m : Memory, m.bytes = (t.build (builderInit data)).data →
      ∀ n, (t.build (builderInit data)).offset ≤ n → readPod wrap32 m n
            (initFromData m.base m.bytes.length 0 (t.build (builderInit data)).offset) =
          .ok (t, ⟨m.base, t.bytes.length, t.bytes.length, []⟩)) ∧
    ∀ x ∈ t.pods 0, x.offset % 8 = 0 ∧
      Header.ofBytes ((t.build (builderInit data)).data.drop x.offset) =
        ⟨x.body.length, x.kind.number⟩ ∧
      ((t.build (builderInit data)).data.drop (x.offset + 8)).take x.body.length = x.body := by
  obtain ⟨hoffset, hlength, rest, hbuild⟩ := build_init hdata hfits
  rw [hoffset, hbuild]
  refine ⟨rfl, ?_, ?_⟩
  · intro m hm n hn
    obtain ⟨hinit, hbefore⟩ := initFromData_before hm
    rw [hinit, t.read_eq exact_wrap32 ht hbefore hmax hn, Parser.skip]
    dsimp only
    rw [Nat.zero_add]
  · intro x hx
    obtain ⟨hmod, behind, hdrop⟩ := t.pods_in ⟨rfl, rest, rfl⟩ x hx
    have hsize : x.body.length < 2 ^ 32 := by
      have hlen := congrArg List.length hdrop
      rw [← hbuild] at hlen
      simp only [length_drop, length_append, length_bytes] at hlen
      omega
    refine ⟨hmod, ?_, ?_⟩
    · rw [hdrop]
      exact Header.ofBytes_bytes hsize (Kind.number_lt x.kind) _
    · rw [← drop_drop, hdrop, drop_left' (length_bytes _), take_left]

/-- A format, with a choice, an array and a struct in an object. -/
def format : Tree :=
  .object 0x40003 3 (.cons 1 0 (.scalar (.id 2))
    (.cons 0x10001 0 (.choice 1 0 [.int 48000, .int 1, .int 192000])
      (.cons 0x10003 0 (.array [.id 3, .id 4])
        (.cons 7 0 (.struct (.cons (.scalar (.string [97, 98])) (.cons (.scalar (.bool true)) .nil)))
          .nil))))

open List (replicate)

theorem build_read_format : format.bytes.length ≤ (replicate 256 (0 : UInt8)).length ∧
    ∀ m : Memory, m.bytes = (format.build (builderInit (replicate 256 0))).data →
      ∃ p, readPod wrap32 m 256 (initFromData m.base m.bytes.length 0 format.bytes.length) =
        .ok (format, p) := by
  have hfits : format.bytes.length ≤ (replicate 256 (0 : UInt8)).length := by decide +kernel
  have hok : format.Ok := by
    simp [format, Tree.Ok, Props.Ok, Trees.Ok, Scalar.Ok, Uniform, ChoiceCount, choiceNValues,
      childHeader, Scalar.header, Scalar.kind, Scalar.body, toLe]
  obtain ⟨hoffset, hread, -⟩ := build_read format hok (by decide +kernel) (replicate 256 0)
    (by decide +kernel) hfits
  rw [hoffset] at hread
  exact ⟨hfits, fun m hm => ⟨_, hread m hm 256 (hfits.trans (length_replicate ..).le)⟩⟩

/-- **A body of `maxSize` bytes or more** is found by the parser, and refused by the getter. -/
theorem refused {s : List UInt8} (hs : maxSize ≤ s.length) (hdata : data.length < 2 ^ 32)
    (hfits : (Tree.scalar (.bytes s)).bytes.length ≤ data.length) {m : Memory}
    (hm : m.bytes = ((Tree.scalar (.bytes s)).build (builderInit data)).data) (n : ℕ) :
    readPod wrap32 m (n + 1) (initFromData m.base m.bytes.length 0
      (Tree.scalar (.bytes s)).bytes.length) = .error (.code (-eInval)) := by
  obtain ⟨-, -, rest, hbuild⟩ := build_init hdata hfits
  rw [hbuild] at hm
  obtain ⟨hinit, hbefore⟩ := initFromData_before hm
  have hlt : (Tree.scalar (.bytes s)).body.length < 2 ^ 32 := by
    have := (Tree.scalar (.bytes s)).body_lt
    omega
  have hcheck : ¬ (Header.mk s.length Kind.bytes.number).check .bytes 0 = true := by
    rw [Header.check]
    simp [hs]
  have hget : readLeaf m (Tree.scalar (.bytes s)).header (m.base + 0 + 8) =
      .error (.code (-eInval)) := by
    show (readScalar m ⟨s.length, Kind.bytes.number⟩ _).map Tree.scalar = _
    show ((bodyGetBytes m ⟨s.length, Kind.bytes.number⟩ _).map Scalar.bytes).map Tree.scalar = _
    rw [bodyGetBytes, if_neg hcheck]
    rfl
  have hleaf := Tree.leaf_type (.scalar (.bytes s)) rfl
  rw [hinit, readPod, hbefore.currentBody_eq exact_wrap32 hlt]
  simp only [bind, Except.bind]
  rw [if_neg hleaf.1, if_neg hleaf.2, parserGet, hbefore.currentBody_eq exact_wrap32 hlt]
  simp only [bind, Except.bind]
  rw [hget]

theorem exists_memory (hdata : data.length < 2 ^ 32) (hfits : t.bytes.length ≤ data.length) :
    ∃ m : Memory, m.bytes = (t.build (builderInit data)).data := by
  have hlen := (build_init hdata hfits).2.1
  exact ⟨⟨0, _, by rw [hlen]; exact hdata, by rw [hlen]; omega⟩, rfl⟩

theorem build_read_mebibyte : (Tree.scalar (.bytes (replicate (2 ^ 20) 0))).Ok ∧
    (Tree.scalar (.bytes (replicate (2 ^ 20) 0))).bytes.length ≤
      (replicate (2 ^ 21) (0 : UInt8)).length ∧
    ∃ m : Memory, m.bytes = ((Tree.scalar (.bytes (replicate (2 ^ 20) 0))).build
        (builderInit (replicate (2 ^ 21) 0))).data ∧
      ∀ n, readPod wrap32 m (n + 1) (initFromData m.base m.bytes.length 0
          (Tree.scalar (.bytes (replicate (2 ^ 20) 0))).bytes.length) =
        .error (.code (-eInval)) := by
  have hs : (replicate (2 ^ 20) (0 : UInt8)).length = 2 ^ 20 := length_replicate ..
  have hd : (replicate (2 ^ 21) (0 : UInt8)).length = 2 ^ 21 := length_replicate ..
  generalize replicate (2 ^ 20) (0 : UInt8) = s at hs
  generalize replicate (2 ^ 21) (0 : UInt8) = data at hd
  have hbody : (Tree.scalar (.bytes s)).body.length = 2 ^ 20 := hs
  have hfits : (Tree.scalar (.bytes s)).bytes.length ≤ data.length := by
    rw [Tree.bytes, length_podBytes, hbody, hd]
    decide
  obtain ⟨m, hm⟩ := exists_memory (by rw [hd]; decide) hfits
  exact ⟨trivial, hfits, m, hm, refused hs.ge (by rw [hd]; decide) hfits hm⟩

end PipeWireAO.Pod
