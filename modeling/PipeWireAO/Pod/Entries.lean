import PipeWireAO.Pod.Path
import PipeWireAO.Pod.Reading

/-!
# The properties of an object in memory

The iterators go over the properties of an object by their addresses. For an object that is written
as the format says, these are the addresses of its properties in their order, and the search for a
key, from wherever it starts, finds the property with that key, if no two of them have one key.
-/

namespace PipeWireAO.Pod

open List Option
open Foundation (toLe length_toLe)

/-- A property with its address. -/
structure Entry where
  at_ : ℕ
  (key flags : BitVec 32)
  value : Tree

def Entry.bytes (e : Entry) : List UInt8 :=
  toLe 4 e.key.toNat ++ toLe 4 e.flags.toNat ++ e.value.bytes

/-- The property begins at the address `a`, where a property can begin. -/
structure Entry.Lies (e : Entry) (m : Memory) (a : ℕ) : Prop where
  at_ : e.at_ = a
  aligned : a % 8 = 0
  bytes : m.At a e.bytes
  small : e.value.body.length < maxSize

/-- Properties one behind the other, from the address `a` to the address `b`. -/
def Laid (m : Memory) : ℕ → List Entry → ℕ → Prop
  | a, [], b => a = b
  | a, e :: es, b => e.Lies m a ∧ Laid m (a + e.bytes.length) es b

/-- The properties of an object, the first of them at the address `a`. -/
def Props.entries : Props → ℕ → List Entry
  | .nil, _ => []
  | .cons key flags t ps, a => ⟨a, key, flags, t⟩ :: ps.entries (a + (8 + t.bytes.length))

def Props.keys : Props → List (BitVec 32)
  | .nil => []
  | .cons key _ _ ps => key :: ps.keys

/-- The value of the first property with the key. -/
def Props.get? : Props → BitVec 32 → Option Tree
  | .nil, _ => none
  | .cons key _ t ps, k => if key = k then some t else ps.get? k

/-- The first of the properties with a key. -/
def entryOf (key : BitVec 32) (es : List Entry) : Option Entry := es.find? fun e => e.key = key

section

variable {m : Memory} {a b p size n : ℕ} {e : Entry} {es fs : List Entry} {key : BitVec 32}

theorem entryOf_some (h : entryOf key es = some e) : e ∈ es ∧ e.key = key := by
  have hkey := find?_some h
  exact ⟨mem_of_find?_eq_some h, of_decide_eq_true hkey⟩

theorem entryOf_cons (key : BitVec 32) (e : Entry) (es : List Entry) :
    (e.key.toNat = key.toNat ∧ entryOf key (e :: es) = some e) ∨
      (e.key.toNat ≠ key.toNat ∧ entryOf key (e :: es) = entryOf key es) := by
  by_cases hkey : e.key = key
  · exact .inl ⟨congrArg _ hkey, find?_cons_of_pos (by simpa using hkey)⟩
  · exact .inr ⟨fun h => hkey (BitVec.eq_of_toNat_eq h), find?_cons_of_neg (by simpa using hkey)⟩

theorem Entry.length_bytes (e : Entry) : e.bytes.length = 8 + e.value.bytes.length := by
  simp only [Entry.bytes, length_append, length_toLe]

theorem Entry.Lies.length_eq (h : e.Lies m a) :
    e.bytes.length = align (16 + e.value.body.length) ∧ 16 ≤ e.bytes.length := by
  have hsmall : e.value.body.length < 2 ^ 20 := h.small
  rw [e.length_bytes, Tree.bytes, length_podBytes, align_eq (by omega)]
  omega

namespace Entry.Lies

theorem property_eq (h : e.Lies m a) :
    m.property a = .ok ⟨e.key.toNat, e.flags.toNat, e.value.header⟩ := by
  have hbytes := h.bytes
  rw [Entry.bytes, Parser.Before.bytes_eq, ← append_assoc] at hbytes
  obtain ⟨hsize, htype⟩ := Parser.Before.header_lt (lt_max h.small)
  have hload := hbytes.left.load (n := 16) (by
    simp only [length_append, length_toLe, Pod.length_bytes])
  have hheader := Header.ofBytes_bytes hsize htype []
  rw [append_nil] at hheader
  rw [Memory.property, hload, Except.map, Property.ofBytes, append_assoc,
    take_word e.key.isLt, drop_word, take_word e.flags.isLt, drop_words, hheader]

theorem value_at (h : e.Lies m a) : m.At (a + 8) e.value.bytes := by
  have hright := h.bytes.right
  rwa [length_append, length_toLe, length_toLe] at hright

theorem bodySize_eq (h : e.Lies m a) : bodySize m propShape a = .ok e.value.body.length := by
  have hsize : bodySize m propShape a = (m.property a).map fun q => q.value.size := by
    show (m.load a 16).map _ = ((m.load a 16).map _).map _
    cases m.load a 16 <;> rfl
  rw [hsize, h.property_eq]
  rfl

theorem isInside_eq (h : e.Lies m a) (hp : p ≤ a) (hend : a + e.bytes.length ≤ p + size) :
    propIsInside m p size a = .ok true := by
  have hmask : a &&& 3 = 0 := by
    have halign := h.aligned
    rw [show (3 : ℕ) = 2 ^ 2 - 1 from rfl, Nat.and_two_pow_sub_one_eq_mod]
    omega
  obtain ⟨hround, hmin⟩ := h.length_eq
  have hsmall : e.value.body.length < 2 ^ 20 := h.small
  rw [align_eq (by omega)] at hround
  have hin : ptrInsideAligned p size a propShape.header = some (p + size - (a + 16)) := by
    rw [ptrInsideAligned, if_pos hmask, ptrInside]
    exact if_pos ⟨hp, by show 16 ≤ size; omega, by show a - p ≤ size - 16; omega⟩
  rw [propIsInside, isInside, hin]
  dsimp only
  rw [h.bodySize_eq, Except.map, decide_eq_true (by omega)]

theorem next_eq (h : e.Lies m a) : propNext m a = .ok (a + e.bytes.length) := by
  rw [propNext, iterNext, h.bodySize_eq, Except.map]
  show Except.ok (ptroff a (align (16 + e.value.body.length))) = _
  rw [← h.length_eq.1, h.bytes.1.ptroff_eq le_rfl]

end Entry.Lies

namespace Laid

theorem append {c : ℕ} : Laid m a (es ++ fs) c ↔ ∃ b, Laid m a es b ∧ Laid m b fs c := by
  induction es generalizing a with
  | nil => exact ⟨fun h => ⟨a, rfl, h⟩, fun ⟨b, hb, h⟩ => by rw [hb]; exact h⟩
  | cons e es ih =>
    constructor
    · rintro ⟨he, h⟩
      obtain ⟨b, hes, hfs⟩ := ih.mp h
      exact ⟨b, ⟨he, hes⟩, hfs⟩
    · rintro ⟨b, ⟨he, hes⟩, hfs⟩
      exact ⟨he, ih.mpr ⟨b, hes, hfs⟩⟩

theorem length_le (h : Laid m a es b) : a + 16 * es.length ≤ b := by
  induction es generalizing a with
  | nil => exact le_of_eq h
  | cons e es ih =>
    have hrest := ih h.2
    have hmin := h.1.length_eq.2
    rw [length_cons]
    omega

theorem mem (h : Laid m a es b) (he : e ∈ es) : e.Lies m e.at_ := by
  induction es generalizing a with
  | nil => cases he
  | cons f es ih =>
    rcases mem_cons.mp he with rfl | he
    · rw [h.1.at_]
      exact h.1
    · exact ih h.2 he

theorem isInside_end {shape : Shape} (h : p + size ≤ a) : isInside m shape p size a = .ok false := by
  have hin : ptrInsideAligned p size a shape.header = none := by
    have hpos := shape.header_pos
    rw [ptrInsideAligned, ptrInside]
    split_ifs with hmask hcond
    · omega
    · rfl
    · rfl
  rw [isInside, hin]

/-- **The loop** over properties up to the end of their block goes over all of them. -/
theorem foreachLoop_eq (h : Laid m a es (p + size)) (hp : p ≤ a) (hn : es.length < n) :
    foreachLoop m propShape p size n a = .ok (es.map Entry.at_) := by
  induction es generalizing a n with
  | nil =>
    obtain ⟨n, rfl⟩ := exists_succ hn
    have hend : isInside m propShape p size a = .ok false := isInside_end (Eq.ge h)
    rw [foreachLoop, hend]
    rfl
  | cons e es ih =>
    obtain ⟨n, rfl⟩ := exists_succ hn
    have hend := h.2.length_le
    have hin : isInside m propShape p size a = .ok true := h.1.isInside_eq hp (by omega)
    have hnext : iterNext m propShape a = .ok (a + e.bytes.length) := h.1.next_eq
    rw [foreachLoop, hin]
    rw [hnext]
    dsimp only
    rw [ih h.2 (by omega) (by simpa using hn), map_cons, h.1.at_]
    rfl

/-- **The first loop of the search**, from a property to the end of the block: it finds the first
one with the key, and has rounds left. -/
theorem findAfter_eq (h : Laid m a es (p + size)) (hp : p ≤ a) (key : BitVec 32)
    (hn : es.length < n) :
    ∃ k, findAfter m p size key.toNat n a = .ok ((entryOf key es).map Entry.at_, k) ∧
      n ≤ k + es.length + 1 := by
  induction es generalizing a n with
  | nil =>
    obtain ⟨n, rfl⟩ := exists_succ hn
    have hend : propIsInside m p size a = .ok false := isInside_end (Eq.ge h)
    rw [findAfter, hend]
    exact ⟨n, rfl, by simp⟩
  | cons e es ih =>
    obtain ⟨n, rfl⟩ := exists_succ hn
    have hend := h.2.length_le
    rw [findAfter, h.1.isInside_eq hp (by omega)]
    rw [h.1.property_eq]
    dsimp only
    obtain ⟨hkey, hof⟩ | ⟨hkey, hof⟩ := entryOf_cons key e es
    · rw [if_pos hkey, hof]
      exact ⟨n, by rw [map_some, h.1.at_], by omega⟩
    · rw [if_neg hkey, h.1.next_eq, hof]
      obtain ⟨k, hk, hle⟩ := ih h.2 (by omega) (n := n) (by simpa using hn)
      exact ⟨k, hk, by rw [length_cons]; omega⟩

/-- **The second loop of the search**, from the first property to where the first loop began. -/
theorem findBefore_eq (h : Laid m a es b) (key : BitVec 32) (hn : es.length < n) :
    findBefore m b key.toNat n a = .ok ((entryOf key es).map Entry.at_) := by
  induction es generalizing a n with
  | nil =>
    obtain ⟨n, rfl⟩ := exists_succ hn
    rw [findBefore, if_pos (show a = b from h)]
    rfl
  | cons e es ih =>
    obtain ⟨n, rfl⟩ := exists_succ hn
    have hlt := h.2.length_le
    have hmin := h.1.length_eq.2
    rw [findBefore, if_neg (by omega), h.1.property_eq]
    dsimp only
    obtain ⟨hkey, hof⟩ | ⟨hkey, hof⟩ := entryOf_cons key e es
    · rw [if_pos hkey, hof, map_some, h.1.at_]
    · rw [if_neg hkey, h.1.next_eq, hof]
      exact ih h.2 (by simpa using hn)

end Laid

/-! ## Objects -/

theorem entryOf_eq_some_iff (hkeys : (es.map Entry.key).Nodup) :
    entryOf key es = some e ↔ e ∈ es ∧ e.key = key := by
  refine ⟨entryOf_some, fun ⟨he, hkey⟩ => ?_⟩
  cases hfound : entryOf key es with
  | none =>
    have := find?_eq_none.mp hfound e he
    exact absurd (decide_eq_true hkey) this
  | some f =>
    obtain ⟨hf, hkey'⟩ := entryOf_some hfound
    rw [inj_on_of_nodup_map hkeys hf he (hkey'.trans hkey.symm)]

theorem entryOf_perm (hkeys : (es.map Entry.key).Nodup) (hperm : fs.Perm es) :
    entryOf key fs = entryOf key es := by
  have hkeys' := (hperm.map Entry.key).nodup_iff.mpr hkeys
  ext e
  rw [entryOf_eq_some_iff hkeys', entryOf_eq_some_iff hkeys, hperm.mem_iff]

theorem entryOf_append (key : BitVec 32) (es fs : List Entry) :
    entryOf key (es ++ fs) = (entryOf key es).or (entryOf key fs) := find?_append

namespace Laid

variable {o : ℕ} {xs ys : List Entry}

theorem body_eq (h : m.Holds o 16) : ptroff o 8 = o + 8 ∧ propFirst (o + 8) = o + 16 := by
  have hlt := h.lt
  refine ⟨h.ptroff_eq (by omega), ?_⟩
  rw [propFirst, ptroff, Nat.mod_eq_of_lt (by omega)]

theorem rounds_lt (h : Laid m (o + 16) es (o + 8 + size)) : 2 * es.length + 1 < rounds size := by
  have hlen := h.length_le
  unfold rounds
  omega

/-- The search begins behind the property that is given, which is the last one of `xs`. -/
theorem findStart_eq (h : Laid m a xs b) : findStart m a (xs.getLast?.map Entry.at_) = .ok b := by
  rcases eq_nil_or_concat' xs with rfl | ⟨xs, e, rfl⟩
  · exact congrArg Except.ok h
  · obtain ⟨c, -, hc, hb⟩ := append.mp h
    rw [getLast?_concat]
    show propNext m e.at_ = _
    rw [hc.at_, hc.next_eq]
    exact congrArg Except.ok hb

/-- **The search for a key** that begins behind `xs`. -/
theorem findProp_eq (hheader : ∃ type, m.header o = .ok ⟨size, type⟩) (hholds : m.Holds o 16)
    (h : Laid m (o + 16) (xs ++ ys) (o + 8 + size)) (key : BitVec 32) :
    findProp m o (xs.getLast?.map Entry.at_) key.toNat (rounds size) =
      .ok ((entryOf key (ys ++ xs)).map Entry.at_) := by
  obtain ⟨type, hheader⟩ := hheader
  obtain ⟨hbody, hfirst⟩ := body_eq hholds
  have hrounds := h.rounds_lt
  rw [length_append] at hrounds
  obtain ⟨b, hxs, hys⟩ := append.mp h
  have hlow := hxs.length_le
  obtain ⟨k, hafter, hk⟩ := hys.findAfter_eq (by omega) key (n := rounds size) (by omega)
  have hbefore := hxs.findBefore_eq key (n := k) (by omega)
  unfold findProp
  simp only [hbody, hfirst, hxs.findStart_eq, hheader, hafter]
  rw [entryOf_append]
  cases hfound : entryOf key ys with
  | some e => rfl
  | none => exact hbefore

end Laid

/-- An object whose properties lie one behind the other up to its end. -/
structure ObjectAt (m : Memory) (o size : ℕ) (es : List Entry) : Prop where
  header : ∃ type, m.header o = .ok ⟨size, type⟩
  holds : m.Holds o 16
  laid : Laid m (o + 16) es (o + 8 + size)
  keys : (es.map Entry.key).Nodup

namespace ObjectAt

variable {o : ℕ}

theorem foreach_eq (h : ObjectAt m o size es) :
    objectForeach m o (rounds size) = .ok (es.map Entry.at_) := by
  obtain ⟨type, hheader⟩ := h.header
  obtain ⟨hbody, hfirst⟩ := Laid.body_eq h.holds
  have hrounds := h.laid.rounds_lt
  rw [objectForeach, hheader]
  rw [hbody, hfirst]
  exact h.laid.foreachLoop_eq (by omega) (by omega)

/-- **The search for a key**, from the beginning or from behind a property, finds the property with
the key. -/
theorem findProp_eq (h : ObjectAt m o size es) (key : BitVec 32) {start : Option ℕ}
    (hstart : ∀ a, start = some a → ∃ e ∈ es, e.at_ = a) :
    findProp m o start key.toNat (rounds size) = .ok ((entryOf key es).map Entry.at_) := by
  cases start with
  | none =>
    have hlaid : Laid m (o + 16) ([] ++ es) (o + 8 + size) := h.laid
    have hfound := hlaid.findProp_eq h.header h.holds key
    rwa [append_nil] at hfound
  | some a =>
    obtain ⟨e, he, rfl⟩ := hstart a rfl
    obtain ⟨xs, ys, hes⟩ := append_of_mem he
    rw [append_cons] at hes
    have hfound := (hes ▸ h.laid).findProp_eq h.header h.holds key
    rw [entryOf_perm h.keys (hes ▸ perm_append_comm), getLast?_concat] at hfound
    exact hfound

end ObjectAt

end

variable {m : Memory}

theorem Props.laid (ps : Props) {a : ℕ} (hat : m.At a ps.bytes) (halign : a % 8 = 0)
    (hmax : ps.bytes.length < maxSize) : Laid m a (ps.entries a) (a + ps.bytes.length) := by
  match ps with
  | .nil => rfl
  | .cons key flags t ps =>
    rw [Props.bytes_cons, ← append_assoc] at hat hmax
    have hlen := (Entry.mk a key flags t).length_bytes
    have hpos := t.body_lt
    have hmod := t.length_bytes
    have hbytes : (toLe 4 key.toNat ++ toLe 4 flags.toNat ++ t.bytes) =
      (Entry.mk a key flags t).bytes := rfl
    rw [hbytes, length_append, hlen] at hmax
    dsimp only at hmax hlen
    refine ⟨⟨rfl, halign, hat.left, by show t.body.length < maxSize; omega⟩, ?_⟩
    have hrest := Props.laid ps (a := a + (8 + t.bytes.length)) (by
      rw [← hlen]
      exact hat.right) (by omega) (by omega)
    have hend : a + (Props.cons key flags t ps).bytes.length =
        a + (8 + t.bytes.length) + ps.bytes.length := by
      rw [Props.bytes_cons, ← append_assoc, hbytes, length_append, hlen]
      omega
    rw [hend, hlen]
    exact hrest

theorem Props.keys_entries (ps : Props) (a : ℕ) : (ps.entries a).map Entry.key = ps.keys := by
  match ps with
  | .nil => rfl
  | .cons key flags t ps => rw [Props.entries, map_cons, Props.keys, Props.keys_entries ps]

theorem Props.get?_eq (ps : Props) (key : BitVec 32) (a : ℕ) :
    (entryOf key (ps.entries a)).map Entry.value = ps.get? key := by
  match ps with
  | .nil => rfl
  | .cons k flags t ps =>
    rw [Props.entries, entryOf, Props.get?]
    by_cases hkey : k = key
    · rw [find?_cons_of_pos (by simpa using hkey), if_pos hkey]
      rfl
    · rw [find?_cons_of_neg (by simpa using hkey), if_neg hkey]
      exact Props.get?_eq ps key _

/-- **An object** that is written in memory. -/
theorem object_laid {p : ℕ} {type id : BitVec 32} {ps : Props}
    (hat : m.At p (Tree.object type id ps).bytes) (halign : p % 8 = 0)
    (hmax : (Tree.object type id ps).body.length < maxSize) :
    m.header p = .ok ⟨(Tree.object type id ps).body.length, Kind.object.number⟩ ∧ m.Holds p 16 ∧
      Laid m (p + 16) (ps.entries (p + 16)) (p + 8 + (Tree.object type id ps).body.length) := by
  have hlen := Tree.length_object type id ps
  obtain ⟨hsize, htype⟩ := Parser.Before.header_lt (t := Tree.object type id ps) (lt_max hmax)
  have hholds := hat.1
  rw [Tree.bytes, length_podBytes] at hholds
  have hat' := hat
  rw [Parser.Before.bytes_eq] at hat'
  have hbody := hat'.right.left
  rw [length_bytes, Tree.body] at hbody
  have hprops := hbody.right
  rw [length_append, length_toLe, length_toLe] at hprops
  refine ⟨?_, hholds.mono le_rfl (by omega), ?_⟩
  · have hheader := Header.ofBytes_bytes hsize htype []
    rw [append_nil] at hheader
    rw [Memory.header, hat'.left.load (length_bytes _), Except.map, hheader]
    rfl
  · have hlaid := ps.laid hprops (by omega) (by omega)
    rw [hlen, ← Nat.add_assoc]
    exact hlaid

theorem objectAt {p : ℕ} {type id : BitVec 32} {ps : Props}
    (hat : m.At p (Tree.object type id ps).bytes) (halign : p % 8 = 0)
    (hmax : (Tree.object type id ps).body.length < maxSize) (hkeys : ps.keys.Nodup) :
    ObjectAt m p (Tree.object type id ps).body.length (ps.entries (p + 16)) := by
  obtain ⟨hheader, hholds, hlaid⟩ := object_laid hat halign hmax
  refine ⟨⟨_, hheader⟩, hholds, hlaid, ?_⟩
  rw [ps.keys_entries]
  exact hkeys

end PipeWireAO.Pod
