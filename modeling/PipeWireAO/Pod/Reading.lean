import PipeWireAO.Pod.Nested
import PipeWireAO.Pod.Tree

/-!
# Reading a tree with the parser

A reader that knows only the type of a pod: it enters structs and objects, reads the values with the
functions for their types, and leaves each container again. What it gets from the bytes of a tree is
the tree, if the values of each array and of each choice are of one type and one size.
-/

namespace PipeWireAO.Pod

open List Header
open Foundation (toLe ofLe length_toLe ofLe_toLe)

section

variable (u32 : ℕ → ℕ) (m : Memory)

/-- A value, with the function for its type. -/
def readScalar (pod : Header) (body : ℕ) : Except Error Scalar :=
  match pod.type with
  | 2 => (bodyGetBool m pod body).map .bool
  | 3 => (bodyGetId m pod body).map .id
  | 4 => (bodyGetInt m pod body).map .int
  | 5 => (bodyGetLong m pod body).map .long
  | 6 => (bodyGetFloat m pod body).map .float
  | 7 => (bodyGetDouble m pod body).map .double
  | 8 => (bodyGetString m pod body).map .string
  | 9 => (bodyGetBytes m pod body).map .bytes
  | 10 => (bodyGetRectangle m pod body).map fun r => .rectangle r.1 r.2
  | 11 => (bodyGetFraction m pod body).map fun r => .fraction r.1 r.2
  | 18 => (bodyGetFd m pod body).map .fd
  | _ => .error (.code (-eInval))

/-- `n` values with one header, one behind the other. -/
def readValues (child : Header) : ℕ → ℕ → Except Error (List Scalar)
  | 0, _ => .ok []
  | n + 1, p =>
    match readScalar m child p with
    | .error e => .error e
    | .ok v => (readValues child n (ptroff p child.size)).map (v :: ·)

/-- A value, an array or a choice. -/
def readLeaf (pod : Header) (body : ℕ) : Except Error Tree :=
  if pod.type = Kind.array.number then do
    let v ← arrayValues m pod body
    let vs ← readValues m v.child v.count v.at_
    return .array vs
  else if pod.type = Kind.choice.number then do
    let (choice, first) ← bodyGetChoice m pod body
    let v := choiceValues pod choice first
    let vs ← readValues m v.child v.count v.at_
    return .choice (BitVec.ofNat 32 choice.type) (BitVec.ofNat 32 choice.flags) vs
  else (readScalar m pod body).map .scalar

/-- The value of a property; a container has a parser of its own. -/
def readValue (read : Parser → Except Error (Tree × Parser)) (value : Header) (body : ℕ) :
    Except Error Tree :=
  if value.type = Kind.struct.number ∨ value.type = Kind.object.number then
    (read (initPodBody u32 value body)).map (·.1)
  else readLeaf m value body

/-- The end of a struct or of an object. -/
def leave {α : Type} (r : α × Parser) : Except Error (α × Parser) :=
  match r.2.frame with
  | [] => .error .fault
  | f :: parent => .ok (r.1, pop u32 r.2 f parent)

mutual

def readPod : ℕ → Parser → Except Error (Tree × Parser)
  | 0, _ => .error .fuel
  | n + 1, p => do
    let (pod, _) ← currentBody u32 m p
    if pod.type = Kind.struct.number then
      let p ← pushStruct u32 m p
      let r ← readStruct n p
      let (ts, p) ← leave u32 r
      return (.struct ts, p)
    else if pod.type = Kind.object.number then
      let (object, p) ← pushObjectBody u32 m p
      let r ← readProps n p
      let (ps, p) ← leave u32 r
      return (.object (BitVec.ofNat 32 object.type) (BitVec.ofNat 32 object.id) ps, p)
    else parserGet u32 m (readLeaf m) p

def readStruct : ℕ → Parser → Except Error (Trees × Parser)
  | 0, _ => .error .fuel
  | n + 1, p =>
    match currentBody u32 m p with
    | .error (.code _) => .ok (.nil, p)
    | .error e => .error e
    | .ok _ => do
      let (t, p) ← readPod n p
      let (ts, p) ← readStruct n p
      return (.cons t ts, p)

/-- The properties of an object, up to its end. -/
def readProps : ℕ → Parser → Except Error (Props × Parser)
  | 0, _ => .error .fuel
  | n + 1, p =>
    match getPropBody u32 m p with
    | .error (.code _) => .ok (.nil, p)
    | .error e => .error e
    | .ok (prop, body, p) => do
      let t ← readValue u32 m (readPod n) prop.value body
      let (ps, p) ← readProps n p
      return (.cons (BitVec.ofNat 32 prop.key) (BitVec.ofNat 32 prop.flags) t ps, p)

end

end

/-! ## Bytes in memory -/

/-- The bytes `bs` are at address `p`. -/
def Memory.At (m : Memory) (p : ℕ) (bs : List UInt8) : Prop :=
  m.Holds p bs.length ∧ m.slice p bs.length = bs

namespace Memory.At

variable {m : Memory} {p : ℕ} {xs ys bs : List UInt8}

theorem left (h : m.At p (xs ++ ys)) : m.At p xs := by
  obtain ⟨hholds, hslice⟩ := h
  rw [length_append] at hholds
  refine ⟨hholds.mono le_rfl (by omega), ?_⟩
  have := congrArg (List.take xs.length) hslice
  rwa [take_left, slice, take_take, length_append,
    Nat.min_eq_left (Nat.le_add_right _ _)] at this

theorem right (h : m.At p (xs ++ ys)) : m.At (p + xs.length) ys := by
  obtain ⟨hholds, hslice⟩ := h
  rw [length_append] at hholds hslice
  refine ⟨hholds.mono (by omega) (by omega), ?_⟩
  have := congrArg (List.drop xs.length) hslice
  rwa [drop_left, slice_drop hholds.1] at this

theorem load (h : m.At p bs) {n : ℕ} (hn : bs.length = n) : m.load p n = .ok bs := by
  subst hn
  rw [load_eq h.1, h.2]

end Memory.At

/-! ## Values -/

/-- A value that can be told from its bytes: a string has no zero in it. -/
def Scalar.Ok : Scalar → Prop
  | .string s => 0 ∉ s
  | _ => True

theorem word_toLe {w k : ℕ} (v : BitVec w) (hw : 2 ^ w ≤ 256 ^ k) :
    word w (toLe k v.toNat) = v := by
  rw [word, ofLe_toLe (lt_of_lt_of_le v.isLt hw), BitVec.ofNat_toNat, BitVec.setWidth_eq]

theorem wordPair_toLe (x y : BitVec 32) : wordPair (toLe 4 x.toNat ++ toLe 4 y.toNat) = (x, y) := by
  have hlen : (toLe 4 x.toNat).length = 4 := length_toLe _ _
  rw [wordPair, take_left' hlen, drop_left' hlen, word_toLe x (by decide),
    word_toLe y (by decide)]

theorem lt_max {n : ℕ} (h : n < maxSize) : n < 2 ^ 32 := lt_trans h (by decide)

theorem check_self {n size : ℕ} (kind : Kind) (hmax : n < maxSize) (hsize : size ≤ n) :
    check ⟨n, kind.number⟩ kind size = true := by
  simp [check, hmax, hsize]

section

variable {m : Memory} {p : ℕ} {s : List UInt8}

theorem bodyGet_at {α : Type} {kind : Kind} {size : ℕ} (value : List UInt8 → α) {bs : List UInt8}
    (hat : m.At p bs) (hlen : bs.length = size) (hmax : size < maxSize) :
    bodyGet m kind size value ⟨bs.length, kind.number⟩ p = .ok (value bs) := by
  rw [bodyGet, if_pos (check_self kind (by omega) (by omega)), hat.load hlen]
  rfl

theorem bodyGetString_at (hs : 0 ∉ s) (hat : m.At p (s ++ [0]))
    (hmax : (s ++ [0]).length < maxSize) :
    bodyGetString m ⟨(s ++ [0]).length, Kind.string.number⟩ p = .ok s := by
  have hstop : (s ++ [0]).takeWhile (· ≠ 0) = s := by
    rw [takeWhile_append_of_pos]
    · simp
    · intro x hx
      rw [decide_eq_true_eq]
      rintro rfl
      exact hs hx
  rw [bodyGetString, if_pos (check_self .string hmax (by simp)), hat.load rfl]
  dsimp only
  rw [if_pos getLast?_concat, hstop]

theorem bodyGetBytes_at (hat : m.At p s) (hmax : s.length < maxSize) :
    bodyGetBytes m ⟨s.length, Kind.bytes.number⟩ p = .ok s := by
  rw [bodyGetBytes, if_pos (check_self .bytes hmax (Nat.zero_le _))]
  exact hat.load rfl

/-- **A value** is read as it was written. -/
theorem readScalar_eq {v : Scalar} (hv : v.Ok) (hat : m.At p v.body)
    (hmax : v.body.length < maxSize) : readScalar m v.header p = .ok v := by
  cases v with
  | bool v =>
    refine (congrArg (Except.map _) (bodyGet_at _ hat (length_toLe _ _) (by decide))).trans ?_
    cases v <;> rfl
  | id v | int v | float v | long v | double v | fd v =>
    refine (congrArg (Except.map _) (bodyGet_at _ hat (length_toLe _ _) (by decide))).trans ?_
    exact congrArg _ (congrArg _ (word_toLe v (by decide)))
  | rectangle x y =>
    refine (congrArg (Except.map _) (bodyGet_at _ hat (by simp [Scalar.body]) (by decide))).trans ?_
    exact congrArg (fun r => Except.ok (Scalar.rectangle r.1 r.2)) (wordPair_toLe x y)
  | fraction x y =>
    refine (congrArg (Except.map _) (bodyGet_at _ hat (by simp [Scalar.body]) (by decide))).trans ?_
    exact congrArg (fun r => Except.ok (Scalar.fraction r.1 r.2)) (wordPair_toLe x y)
  | string s => exact congrArg (Except.map Scalar.string) (bodyGetString_at hv hat hmax)
  | bytes s => exact congrArg (Except.map Scalar.bytes) (bodyGetBytes_at hat hmax)

theorem readValues_eq {child : Header} {vs : List Scalar}
    (hvs : ∀ v ∈ vs, v.Ok ∧ v.header = child) (hat : m.At p (vs.flatMap Scalar.body))
    (hmax : child.size < maxSize) : readValues m child vs.length p = .ok vs := by
  induction vs generalizing p with
  | nil => rfl
  | cons v vs ih =>
    obtain ⟨hv, hheader⟩ := hvs v mem_cons_self
    have hsize : v.body.length = child.size := congrArg size hheader
    rw [length_cons, readValues, ← hheader, readScalar_eq hv hat.left (by omega)]
    have hnext : ptroff p v.header.size = p + v.body.length := hat.left.1.ptroff_eq le_rfl
    have hrest := ih (fun w hw => hvs w (mem_cons_of_mem v hw)) hat.right
    rw [hheader] at hnext ⊢
    rw [hnext, hrest]
    rfl

end

/-! ## Arrays and choices -/

/-- Values of one type and of one size that is not zero. -/
def Uniform (vs : List Scalar) : Prop := ∀ v ∈ vs, v.Ok ∧ v.header = childHeader vs ∧ v.body ≠ []

theorem Scalar.typeSize_le {v : Scalar} (hv : v.body ≠ []) :
    typeSize v.kind.number ≤ v.body.length := by
  cases v with
  | string s => simp [kind, Kind.number, typeSize, body]
  | bytes s => exact Nat.zero_le _
  | _ => simp [kind, Kind.number, typeSize, body]

namespace Uniform

variable {vs : List Scalar}

theorem length_flatMap (hvs : Uniform vs) :
    (vs.flatMap Scalar.body).length = (childHeader vs).size * vs.length := by
  have hall : ∀ v ∈ vs, v.body.length = (childHeader vs).size := fun v hv =>
    congrArg size (hvs v hv).2.1
  rw [List.length_flatMap, map_congr_left hall, map_const', sum_replicate_nat,
    Nat.mul_comm]

theorem count_eq (hvs : Uniform vs) :
    (if (childHeader vs).size ≠ 0 then (vs.flatMap Scalar.body).length / (childHeader vs).size
      else 0) = vs.length := by
  rw [hvs.length_flatMap]
  cases vs with
  | nil => rfl
  | cons v vs =>
    have hpos : 0 < (childHeader (v :: vs)).size :=
      length_pos_iff.mpr (hvs v mem_cons_self).2.2
    rw [if_pos (by omega), Nat.mul_div_cancel_left _ hpos]

theorem typeSize_le (hvs : Uniform vs) :
    ¬ (childHeader vs).size < typeSize (childHeader vs).type := by
  cases vs with
  | nil => decide
  | cons v vs => exact not_lt.mpr (Scalar.typeSize_le (hvs v mem_cons_self).2.2)

end Uniform

/-- The number of values that are read of a choice: as many as there are, or none. -/
def ChoiceCount (type : BitVec 32) (vs : List Scalar) : Prop :=
  vs = [] ∨ (choiceNValues type.toNat).1 ≤ vs.length ∧ vs.length ≤ (choiceNValues type.toNat).2

theorem take_word {n : ℕ} (h : n < 2 ^ 32) (rest : List UInt8) :
    ofLe ((toLe 4 n ++ rest).take 4) = n := by
  rw [take_left' (length_toLe 4 n), ofLe_toLe h]

theorem drop_word (n : ℕ) (rest : List UInt8) : (toLe 4 n ++ rest).drop 4 = rest :=
  drop_left' (length_toLe 4 n)

theorem drop_words (x y : ℕ) (rest : List UInt8) :
    (toLe 4 x ++ (toLe 4 y ++ rest)).drop 8 = rest := by
  rw [show 8 = 4 + 4 from rfl, ← drop_drop, drop_word, drop_word]

theorem Header.ofBytes_bytes {h : Header} (hsize : h.size < 2 ^ 32) (htype : h.type < 2 ^ 32)
    (rest : List UInt8) : ofBytes (h.bytes ++ rest) = h := by
  rw [bytes, append_assoc, ofBytes, take_word hsize, drop_word, take_word htype]

theorem Kind.number_lt (kind : Kind) : kind.number < 2 ^ 32 := by cases kind <;> decide

theorem childHeader_lt {vs : List Scalar} (hmax : (valuesBytes vs).length < maxSize) :
    (childHeader vs).size < maxSize ∧ (childHeader vs).type < 2 ^ 32 := by
  cases vs with
  | nil => decide
  | cons v vs =>
    refine ⟨?_, Kind.number_lt v.kind⟩
    simp only [valuesBytes, flatMap_cons, length_append, length_bytes] at hmax
    show v.body.length < maxSize
    omega

section

variable {m : Memory} {p : ℕ} {vs : List Scalar}

/-- **An array** is read as it was written. -/
theorem readArray_eq (hvs : Uniform vs) (hat : m.At p (valuesBytes vs))
    (hmax : (valuesBytes vs).length < maxSize) :
    readLeaf m ⟨(valuesBytes vs).length, Kind.array.number⟩ p = .ok (.array vs) := by
  obtain ⟨hchild, htype⟩ := childHeader_lt hmax
  have hpow : maxSize = 2 ^ 20 := rfl
  have hlen : (valuesBytes vs).length = 8 + (vs.flatMap Scalar.body).length := by
    rw [valuesBytes, length_append, length_bytes]
  have hheader : m.header p = .ok (childHeader vs) := by
    rw [Memory.header, hat.left.load (length_bytes _)]
    have := ofBytes_bytes (h := childHeader vs) (by omega) htype []
    exact congrArg _ this
  have hvalues : arrayValues m ⟨(valuesBytes vs).length, Kind.array.number⟩ p =
      .ok ⟨vs.length, childHeader vs, p + 8⟩ := by
    rw [arrayValues, if_pos (check_self .array hmax (by omega)), hheader]
    dsimp only [Except.map]
    rw [hlen, Nat.add_sub_cancel_left, hvs.count_eq, if_neg hvs.typeSize_le,
      hat.1.ptroff_eq (by omega)]
  have hread := readValues_eq (fun v hv => ⟨(hvs v hv).1, (hvs v hv).2.1⟩) hat.right hchild
  rw [length_bytes] at hread
  rw [readLeaf, if_pos rfl, hvalues]
  simp only [bind, Except.bind, hread]
  rfl

theorem choiceValues_eq {type flags : BitVec 32} (hvs : Uniform vs) (hcount : ChoiceCount type vs)
    (first : ℕ) : choiceValues ⟨16 + (vs.flatMap Scalar.body).length, Kind.choice.number⟩
      ⟨type.toNat, flags.toNat, childHeader vs⟩ first = ⟨vs.length, childHeader vs, first⟩ := by
  rw [choiceValues]
  rw [Nat.add_sub_cancel_left, hvs.count_eq]
  congr 1
  rcases hcount with rfl | ⟨hmin, hmax⟩
  · rw [length_nil, Nat.zero_min, ite_self]
  · rw [if_neg (not_or.mpr ⟨not_lt.mpr hmin, hvs.typeSize_le⟩), Nat.min_eq_left hmax]

/-- **A choice** is read as it was written. -/
theorem readChoice_eq {type flags : BitVec 32} (hvs : Uniform vs) (hcount : ChoiceCount type vs)
    {bs : List UInt8} (hbs : bs = toLe 4 type.toNat ++ toLe 4 flags.toNat ++ valuesBytes vs)
    (hat : m.At p bs) (hmax : bs.length < maxSize) :
    readLeaf m ⟨bs.length, Kind.choice.number⟩ p = .ok (.choice type flags vs) := by
  have hpow : maxSize = 2 ^ 20 := rfl
  have hlen : bs.length = 16 + (vs.flatMap Scalar.body).length := by
    rw [hbs]
    simp only [valuesBytes, length_append, length_bytes, length_toLe]
    omega
  have hvalues : (valuesBytes vs).length < maxSize := by
    rw [hbs, length_append] at hmax
    omega
  obtain ⟨hchild, htype⟩ := childHeader_lt hvalues
  have hchoice : bodyGetChoice m ⟨bs.length, Kind.choice.number⟩ p =
      .ok (⟨type.toNat, flags.toNat, childHeader vs⟩, p + 16) := by
    have hhead : m.At p (toLe 4 type.toNat ++ (toLe 4 flags.toNat ++ (childHeader vs).bytes)) := by
      rw [hbs, valuesBytes, ← append_assoc] at hat
      have := hat.left
      rwa [append_assoc] at this
    rw [bodyGetChoice, if_pos (check_self .choice hmax (by omega)), hhead.load (by simp)]
    simp only [Except.map, take_word type.isLt, drop_word, drop_words, take_word flags.isLt]
    rw [← append_nil (childHeader vs).bytes, ofBytes_bytes (by omega) htype,
      hat.1.ptroff_eq (by omega)]
  have hread := readValues_eq (p := p + 16) (fun v hv => ⟨(hvs v hv).1, (hvs v hv).2.1⟩) (by
    rw [hbs, valuesBytes, ← append_assoc] at hat
    have := hat.right
    simpa using this) hchild
  have hkind : ¬ Kind.choice.number = Kind.array.number := by decide
  rw [readLeaf, if_neg hkind, if_pos rfl, hchoice]
  simp only [bind, Except.bind, hlen, choiceValues_eq hvs hcount, hread]
  simp only [BitVec.ofNat_toNat, BitVec.setWidth_eq]
  rfl

end

/-! ## Pods -/

mutual

/-- The trees that can be told from their bytes. -/
def Tree.Ok : Tree → Prop
  | .scalar v => v.Ok
  | .array vs => Uniform vs
  | .choice type _ vs => Uniform vs ∧ ChoiceCount type vs
  | .struct ts => ts.Ok
  | .object _ _ ps => ps.Ok

/-- The structs that can be told from their bytes. -/
def Trees.Ok : Trees → Prop
  | .nil => True
  | .cons t ts => t.Ok ∧ ts.Ok

/-- The objects that can be told from their bytes. -/
def Props.Ok : Props → Prop
  | .nil => True
  | .cons _ _ t ps => t.Ok ∧ ps.Ok

end

def Tree.header (t : Tree) : Header := ⟨t.body.length, t.kind.number⟩

def Tree.leaf : Tree → Bool
  | .struct _ | .object _ _ _ => false
  | _ => true

theorem Tree.leaf_type (t : Tree) (h : t.leaf = true) :
    t.header.type ≠ Kind.struct.number ∧ t.header.type ≠ Kind.object.number := by
  cases t with
  | scalar v => cases v <;> simp [Tree.header, Tree.kind, Scalar.kind, Kind.number]
  | array vs | choice type flags vs => simp [Tree.header, Tree.kind, Kind.number]
  | struct ts | object type id ps => cases h

theorem Tree.container (t : Tree) (h : t.leaf = false) : t.body.length % 8 = 0 ∧
    (t.header.type = Kind.struct.number ∨ t.header.type = Kind.object.number) := by
  cases t with
  | struct ts => exact ⟨ts.length_bytes, .inl rfl⟩
  | object type id ps =>
    have := ps.length_bytes
    refine ⟨?_, .inr rfl⟩
    rw [Tree.body, length_append, length_append, length_toLe, length_toLe]
    omega
  | scalar v | array vs | choice type flags vs => cases h

theorem Tree.length_object (type id : BitVec 32) (ps : Props) :
    (Tree.object type id ps).body.length = 8 + ps.bytes.length := by
  rw [Tree.body, length_append, length_append, length_toLe, length_toLe]

theorem Tree.body_lt (t : Tree) : t.body.length < t.bytes.length := by
  rw [Tree.bytes, length_podBytes]
  omega

variable {t : Tree}

/-- **A pod without pods in it** is read as it was written. -/
theorem readLeaf_eq {m : Memory} {p : ℕ} (ht : t.Ok) (hleaf : t.leaf = true) (hat : m.At p t.body)
    (hmax : t.body.length < maxSize) : readLeaf m t.header p = .ok t := by
  cases t with
  | scalar v =>
    have hv : readScalar m v.header p = .ok v := readScalar_eq ht hat hmax
    have hkind : v.header.type ≠ Kind.array.number ∧ v.header.type ≠ Kind.choice.number := by
      cases v <;> simp [Scalar.header, Scalar.kind, Kind.number]
    show readLeaf m v.header p = _
    rw [readLeaf, if_neg hkind.1, if_neg hkind.2, hv]
    rfl
  | array vs => exact readArray_eq ht hat hmax
  | choice type flags vs => exact readChoice_eq ht.1 ht.2 rfl hat hmax
  | struct ts | object type id ps => cases hleaf

/-- A parser in front of the bytes `bs`, all of which are in the current frame. -/
structure Parser.Before (m : Memory) (p : Parser) (bs : List UInt8) : Prop where
  inside : p.Inside m
  align : p.offset % 8 = 0
  at_ : m.At (p.data + p.offset) bs
  fits : p.offset + bs.length ≤ upper p.size p.frame

/-- The parser behind `n` bytes. -/
def Parser.skip (p : Parser) (n : ℕ) : Parser := { p with offset := p.offset + n }

/-- The parser in a pod, behind its first `n` bytes. -/
def Parser.into (p : Parser) (pod : Header) (n : ℕ) : Parser :=
  { push p pod p.offset with offset := p.offset + n }

namespace Parser.Before

variable {u32 : ℕ → ℕ} {m : Memory} {p : Parser} {xs ys : List UInt8}

theorem left (h : p.Before m (xs ++ ys)) : p.Before m xs := by
  refine ⟨h.inside, h.align, h.at_.left, ?_⟩
  have := h.fits
  rw [length_append] at this
  omega

theorem skip (h : p.Before m (xs ++ ys)) (hx : xs.length % 8 = 0) :
    (p.skip xs.length).Before m ys := by
  have hfits := h.fits
  have halign := h.align
  rw [length_append] at hfits
  have hlower := h.inside.lower
  refine ⟨h.inside.move (by omega) (by omega), ?_, ?_, ?_⟩
  · show (p.offset + xs.length) % 8 = 0
    omega
  · have := h.at_.right
    rwa [Nat.add_assoc] at this
  · show p.offset + xs.length + ys.length ≤ upper p.size p.frame
    omega

/-- **A header** in front of the parser is found, if all of its block is in the frame. -/
theorem getHeader_eq (hu : Exact u32) {n k : ℕ} (h : p.Before m xs) (hn : xs.length = n)
    (hblock : p.offset + n + Pod.align (ofBytes (xs.drop k)).size ≤ upper p.size p.frame) :
    getHeader u32 m p n k = .ok (xs, p.data + p.offset + n) := by
  have hsize := upper_le h.inside.nested
  have hmask : p.offset &&& 7 = 0 := by
    rw [show (7 : ℕ) = 2 ^ 3 - 1 from rfl, Nat.and_two_pow_sub_one_eq_mod]
    exact h.align
  rw [getHeader, h.inside.limit_eq hu, readHeader, if_pos ⟨by omega, hmask⟩,
    h.inside.holds.ptroff_eq (n := p.offset) (by omega), h.at_.load hn]
  dsimp only
  rw [if_pos hblock, h.inside.holds.ptroff_eq (by omega), Nat.add_assoc]

theorem getHeader_end (hu : Exact u32) (hp : p.Inside m) {n k : ℕ} (hn : 0 < n)
    (hend : p.offset = upper p.size p.frame) : getHeader u32 m p n k = .error (.code (-ePipe)) := by
  rw [getHeader, hp.limit_eq hu, readHeader, if_neg (by omega)]

theorem align_length (hlt : t.body.length < 2 ^ 32) :
    t.bytes.length = 8 + Pod.align t.body.length := by
  rw [Tree.bytes, length_podBytes, align_eq (by omega)]

theorem bytes_eq (t : Tree) : t.bytes = t.header.bytes ++ (t.body ++ padding t.body.length) := by
  rfl

theorem header_lt (hlt : t.body.length < 2 ^ 32) :
    t.header.size < 2 ^ 32 ∧ t.header.type < 2 ^ 32 := ⟨hlt, Kind.number_lt t.kind⟩

/-- **A pod** in front of the parser is found. -/
theorem currentBody_eq (hu : Exact u32) (h : p.Before m t.bytes) (hlt : t.body.length < 2 ^ 32) :
    currentBody u32 m p = .ok (t.header, p.data + p.offset + 8) := by
  have hfits := h.fits
  rw [align_length hlt] at hfits
  rw [bytes_eq] at h
  have hpod : ofBytes t.header.bytes = t.header := by
    have := ofBytes_bytes (header_lt hlt).1 (header_lt hlt).2 []
    rwa [append_nil] at this
  rw [currentBody, h.left.getHeader_eq hu (length_bytes _), Except.map, hpod]
  rw [drop_zero, hpod, Nat.add_assoc]
  exact hfits

/-- **A property** in front of the parser is found, and the parser is behind it. -/
theorem getPropBody_eq (hu : Exact u32) {key flags : BitVec 32}
    (h : p.Before m (toLe 4 key.toNat ++ toLe 4 flags.toNat ++ t.bytes))
    (hmax : t.body.length < maxSize) :
    getPropBody u32 m p = .ok (⟨key.toNat, flags.toNat, t.header⟩, p.data + p.offset + 16,
      p.skip (8 + t.bytes.length)) := by
  have hfits := h.fits
  have hsmall := h.inside.small
  obtain ⟨hsize, htype⟩ := header_lt (lt_max hmax)
  have hlen : (toLe 4 key.toNat ++ toLe 4 flags.toNat).length = 8 := by simp
  rw [length_append, hlen, align_length (lt_max hmax)] at hfits
  rw [bytes_eq, ← append_assoc, append_assoc (toLe 4 key.toNat)] at h
  have hpod : ofBytes t.header.bytes = t.header := by
    have := ofBytes_bytes hsize htype []
    rwa [append_nil] at this
  have hprop : Property.ofBytes (toLe 4 key.toNat ++ (toLe 4 flags.toNat ++ t.header.bytes)) =
      ⟨key.toNat, flags.toNat, t.header⟩ := by
    rw [Property.ofBytes, take_word key.isLt, drop_word, drop_words, take_word flags.isLt, hpod]
  have hnext : u32 (p.offset + Pod.align (16 + t.header.size)) =
      p.offset + (8 + t.bytes.length) := by
    rw [(align_add hsize).2, align_length (lt_max hmax)]
    show u32 (p.offset + (16 + Pod.align t.body.length)) = _
    rw [hu _ (by omega)]
    omega
  rw [getPropBody, h.left.getHeader_eq hu (by simp), Except.map, hprop]
  · dsimp only
    rw [hnext]
    rfl
  · rw [drop_words, hpod]
    show p.offset + 16 + Pod.align t.body.length ≤ _
    omega

/-- Entering a container: the parser is in front of its contents, which end with the frame. -/
theorem enter (extra : List UInt8) {content : List UInt8} (h : p.Before m t.bytes)
    (hmax : t.body.length < maxSize) (hbody : t.body = extra ++ content)
    (hextra : extra.length % 8 = 0)
    (hobject : t.header.type = Kind.object.number → extra.length = 8) :
    (p.into t.header (8 + extra.length)).Before m content ∧
      (p.into t.header (8 + extra.length)).offset + content.length =
        upper p.size (p.into t.header (8 + extra.length)).frame := by
  have halign := h.align
  have hfits := h.fits
  rw [align_length (lt_max hmax)] at hfits
  have hlen : t.header.size = extra.length + content.length := by
    rw [← length_append, ← hbody]
    rfl
  have hend : (p.into t.header (8 + extra.length)).offset + content.length =
      upper p.size (p.into t.header (8 + extra.length)).frame := by
    show p.offset + (8 + extra.length) + content.length = p.offset + (8 + t.header.size)
    omega
  refine ⟨⟨?_, ?_, ?_, ?_⟩, hend⟩
  · refine h.inside.enter (header_lt (lt_max hmax)).1 hfits ?_ (by omega)
    intro ho
    rw [hlen, hobject ho]
    exact Nat.le_add_right _ _
  · show (p.offset + (8 + extra.length)) % 8 = 0
    omega
  · have hat := h.at_
    rw [bytes_eq, hbody, append_assoc extra] at hat
    have := hat.right.right
    rw [length_bytes] at this
    show m.At (p.data + (p.offset + (8 + extra.length))) content
    simpa only [Nat.add_assoc] using this.left
  · exact le_of_eq hend

theorem leave {α : Type} (hu : Exact u32) {a : α} {k n : ℕ} (h : p.Before m t.bytes)
    (hmax : t.body.length < maxSize)
    (hobject : t.header.type = Kind.object.number → 8 ≤ t.header.size) :
    Pod.leave u32 (a, (p.into t.header k).skip n) = .ok (a, p.skip t.bytes.length) := by
  have hfits := h.fits
  rw [align_length (lt_max hmax)] at hfits ⊢
  have hnested : Nested p.size (⟨t.header, p.offset, ⟨false, false⟩⟩ :: p.frame) :=
    ⟨h.inside.lower, hfits, (header_lt (lt_max hmax)).1, hobject, h.inside.nested⟩
  have hpop := h.inside.pop_eq hu hnested
  exact congrArg (fun q => Except.ok (a, q)) hpop

theorem pushStruct_eq (hu : Exact u32) {ts : Trees} (h : p.Before m (Tree.struct ts).bytes)
    (hmax : (Tree.struct ts).body.length < maxSize) :
    pushStruct u32 m p = .ok (p.into (Tree.struct ts).header 8) := by
  have hfits := h.fits
  have hsmall := h.inside.small
  rw [align_length (lt_max hmax)] at hfits
  have hcheck : (Tree.struct ts).header.check .struct 0 = true :=
    check_self .struct hmax (Nat.zero_le _)
  rw [pushStruct, h.currentBody_eq hu (lt_max hmax)]
  dsimp only
  rw [if_pos hcheck, hu _ (by omega)]
  rfl

theorem pushObjectBody_eq (hu : Exact u32) {type id : BitVec 32} {ps : Props}
    (h : p.Before m (Tree.object type id ps).bytes)
    (hmax : (Tree.object type id ps).body.length < maxSize) : pushObjectBody u32 m p =
      .ok (⟨type.toNat, id.toNat⟩, p.into (Tree.object type id ps).header 16) := by
  have hfits := h.fits
  have hsmall := h.inside.small
  have hpow : maxSize = 2 ^ 20 := rfl
  have hsize : 8 ≤ (Tree.object type id ps).body.length := by
    rw [Tree.length_object]
    exact Nat.le_add_right _ _
  have hcheck : (Tree.object type id ps).header.check .object 8 = true :=
    check_self .object hmax hsize
  have halign := align_size (n := (Tree.object type id ps).body.length) (by omega)
  rw [align_length (lt_max hmax)] at hfits
  have hat : m.At (p.data + p.offset + 8) (toLe 4 type.toNat ++ toLe 4 id.toNat) := by
    have := h.at_
    rw [bytes_eq, Tree.body, append_assoc (_ ++ _)] at this
    have := this.right.left
    rwa [length_bytes] at this
  have hobject : bodyGetObject m (Tree.object type id ps).header (p.data + p.offset + 8) =
      .ok ⟨type.toNat, id.toNat⟩ := by
    rw [bodyGetObject, bodyGet, if_pos hcheck,
      hat.load (by simp), Except.map, take_word type.isLt, drop_word, ofLe_toLe id.isLt]
  rw [pushObjectBody, h.currentBody_eq hu (lt_max hmax)]
  simp only [bind, Except.bind, hobject]
  rw [hu _ (by omega)]
  rfl

end Parser.Before

variable {u32 : ℕ → ℕ} {m : Memory}

theorem initPodBody_before (hu : Exact u32) {a : ℕ} (hat : m.At a t.bytes)
    (hmax : t.body.length < maxSize) (hbody : t.body.length % 8 = 0) :
    (initPodBody u32 t.header (a + 8)).Before m t.bytes := by
  have hpow : maxSize = 2 ^ 20 := rfl
  have hlen : t.bytes.length = t.header.size + 8 := by
    rw [Tree.bytes, length_podBytes]
    show _ = t.body.length + 8
    omega
  have hsize : u32 (t.header.size + 8) = t.bytes.length := by
    rw [hlen]
    refine hu _ ?_
    show t.body.length + 8 < 2 ^ 32
    omega
  rw [initPodBody, ptrback_add, hsize]
  exact ⟨⟨hat.1, trivial, le_rfl, Nat.zero_le _⟩, rfl, hat, (Nat.zero_add _).le⟩

theorem parserGet_leaf (hu : Exact u32) {p : Parser} (h : p.Before m t.bytes) (ht : t.Ok)
    (hleaf : t.leaf = true) (hmax : t.body.length < maxSize) :
    parserGet u32 m (readLeaf m) p = .ok (t, p.skip t.bytes.length) := by
  have hfits := h.fits
  rw [Parser.Before.align_length (lt_max hmax)] at hfits ⊢
  have hat : m.At (p.data + p.offset + 8) t.body := by
    have := h.at_
    rw [Parser.Before.bytes_eq] at this
    have := this.right.left
    rwa [length_bytes] at this
  rw [parserGet, h.currentBody_eq hu (lt_max hmax)]
  simp only [bind, Except.bind, readLeaf_eq ht hleaf hat hmax]
  rw [h.inside.advance_eq hu (Parser.Before.header_lt (lt_max hmax)).1 hfits]
  rfl

mutual

/-- **A pod in front of the parser is read as it was written**, and the parser is behind it. -/
theorem Tree.read_eq (hu : Exact u32) (t : Tree) (ht : t.Ok) {p : Parser} (h : p.Before m t.bytes)
    (hmax : t.body.length < maxSize) {n : ℕ} (hn : t.bytes.length ≤ n) :
    readPod u32 m n p = .ok (t, p.skip t.bytes.length) := by
  have hlen := Parser.Before.align_length (lt_max hmax)
  obtain ⟨n, rfl⟩ : ∃ k, n = k + 1 := ⟨n - 1, by omega⟩
  rw [readPod, h.currentBody_eq hu (lt_max hmax)]
  simp only [bind, Except.bind]
  cases t with
  | struct ts =>
    have hmax' : ts.bytes.length < maxSize := hmax
    rw [Tree.body] at hlen
    have hsize := align_size (n := ts.bytes.length) (lt_trans hmax' (by decide))
    obtain ⟨henter, hend⟩ := h.enter [] hmax rfl rfl (by intro ho; cases ho)
    have hts := ts.read_eq hu ht henter hend hmax (n := n) (by omega)
    have htype : (Tree.struct ts).header.type = Kind.struct.number := rfl
    rw [if_pos htype, h.pushStruct_eq hu hmax]
    dsimp only [length_nil] at hts ⊢
    rw [hts]
    dsimp only
    rw [h.leave hu hmax (by intro ho; cases ho)]
    rfl
  | object type id ps =>
    have hbody := Tree.length_object type id ps
    have hsize := align_size (lt_trans hmax (by decide))
    have hextra : (toLe 4 type.toNat ++ toLe 4 id.toNat).length = 8 := by simp
    obtain ⟨henter, hend⟩ := h.enter (toLe 4 type.toNat ++ toLe 4 id.toNat) hmax rfl
      (by rw [hextra]) (fun _ => hextra)
    rw [hextra] at henter hend
    have hps := ps.read_eq hu ht henter hend (by omega) (n := n) (by omega)
    have htype : (Tree.object type id ps).header.type = Kind.object.number := rfl
    rw [if_neg (by rw [htype]; decide), if_pos htype, h.pushObjectBody_eq hu hmax]
    dsimp only
    rw [hps]
    dsimp only
    rw [h.leave hu hmax (fun _ => by show 8 ≤ (Tree.object type id ps).body.length; omega)]
    simp only [BitVec.ofNat_toNat, BitVec.setWidth_eq]
    rfl
  | scalar v =>
    have hleaf := Tree.leaf_type (.scalar v) rfl
    rw [if_neg hleaf.1, if_neg hleaf.2]
    exact parserGet_leaf hu h ht rfl hmax
  | array vs =>
    have hleaf := Tree.leaf_type (.array vs) rfl
    exact parserGet_leaf hu h ht rfl hmax
  | choice type flags vs =>
    have hleaf := Tree.leaf_type (.choice type flags vs) rfl
    exact parserGet_leaf hu h ht rfl hmax

theorem Trees.read_eq (hu : Exact u32) (ts : Trees) (hts : ts.Ok) {p : Parser}
    (h : p.Before m ts.bytes) (hend : p.offset + ts.bytes.length = upper p.size p.frame)
    (hmax : ts.bytes.length < maxSize) {n : ℕ} (hn : ts.bytes.length < n) :
    readStruct u32 m n p = .ok (ts, p.skip ts.bytes.length) := by
  obtain ⟨n, rfl⟩ : ∃ k, n = k + 1 := ⟨n - 1, by omega⟩
  rw [readStruct]
  cases ts with
  | nil =>
    rw [currentBody, Parser.Before.getHeader_end hu h.inside (by decide) hend]
    rfl
  | cons t ts =>
    rw [Trees.bytes_cons] at h hend hmax hn ⊢
    rw [length_append] at hend hmax hn ⊢
    have hbody := t.body_lt
    have hskip := h.skip t.length_bytes
    rw [h.left.currentBody_eq hu (lt_max (by omega))]
    rw [t.read_eq hu hts.1 h.left (by omega) (n := n) (by omega)]
    simp only [bind, Except.bind]
    rw [ts.read_eq hu hts.2 hskip ((Nat.add_assoc _ _ _).trans hend) (by omega) (n := n) (by omega)]
    simp only [Parser.skip, Nat.add_assoc]
    rfl

theorem Props.read_eq (hu : Exact u32) (ps : Props) (hps : ps.Ok) {p : Parser}
    (h : p.Before m ps.bytes) (hend : p.offset + ps.bytes.length = upper p.size p.frame)
    (hmax : ps.bytes.length < maxSize) {n : ℕ} (hn : ps.bytes.length < n) :
    readProps u32 m n p = .ok (ps, p.skip ps.bytes.length) := by
  obtain ⟨n, rfl⟩ : ∃ k, n = k + 1 := ⟨n - 1, by omega⟩
  rw [readProps]
  cases ps with
  | nil =>
    rw [getPropBody, Parser.Before.getHeader_end hu h.inside (by decide) hend]
    rfl
  | cons key flags t ps =>
    have hlen : (toLe 4 key.toNat ++ toLe 4 flags.toNat).length = 8 := by simp
    have hbody := t.body_lt
    rw [Props.bytes_cons, ← append_assoc] at h hend hmax hn ⊢
    rw [length_append, length_append, hlen] at hend hmax hn ⊢
    have hat := h.left.at_.right
    have hskip := h.skip (by rw [length_append, hlen]; have := t.length_bytes; omega)
    rw [length_append, hlen] at hskip
    rw [hlen] at hat
    have hrest := ps.read_eq hu hps.2 hskip ((Nat.add_assoc _ _ _).trans hend) (by omega) (n := n)
      (by omega)
    have hvalue : readValue u32 m (readPod u32 m n) t.header (p.data + p.offset + 8 + 8) =
        .ok t := by
      rw [readValue]
      cases hleaf : t.leaf with
      | true =>
        rw [if_neg (not_or.mpr (t.leaf_type hleaf))]
        refine readLeaf_eq hps.1 hleaf ?_ (by omega)
        rw [Parser.Before.bytes_eq] at hat
        have := hat.right.left
        rwa [length_bytes] at this
      | false =>
        obtain ⟨hmod, htype⟩ := t.container hleaf
        rw [if_pos htype, t.read_eq hu hps.1 (initPodBody_before hu hat (by omega) hmod) (by omega)
          (by omega)]
        rfl
    rw [h.left.getPropBody_eq hu (by omega)]
    simp only [bind, Except.bind, hvalue, hrest]
    simp only [BitVec.ofNat_toNat, BitVec.setWidth_eq, Parser.skip, Nat.add_assoc]
    rfl

end

end PipeWireAO.Pod
