import PipeWireAO.Pod.Overflow

/-!
# Trees of pods and their bytes

A pod is a value, an array or a choice of values, a struct of pods or an object with properties.
`Tree.build` makes the calls of the builder for it; `Tree.bytes` is the format: a header with the
size of the body, the body, and zeros up to a multiple of eight.
-/

namespace PipeWireAO.Pod

open List
open Foundation (toLe length_toLe)

/-- A value. -/
inductive Scalar
  | bool (v : Bool)
  | id (v : BitVec 32)
  | int (v : BitVec 32)
  | long (v : BitVec 64)
  | float (v : BitVec 32)
  | double (v : BitVec 64)
  | string (s : List UInt8)
  | bytes (s : List UInt8)
  | rectangle (width height : BitVec 32)
  | fraction (num denom : BitVec 32)
  | fd (v : BitVec 64)
  deriving DecidableEq

mutual

/-- A pod. -/
inductive Tree
  | scalar (v : Scalar)
  | array (vs : List Scalar)
  | choice (type flags : BitVec 32) (vs : List Scalar)
  | struct (ts : Trees)
  | object (type id : BitVec 32) (ps : Props)

/-- The pods of a struct. -/
inductive Trees
  | nil
  | cons (t : Tree) (ts : Trees)

/-- The properties of an object. -/
inductive Props
  | nil
  | cons (key flags : BitVec 32) (t : Tree) (ps : Props)

end

/-! ## Values -/

namespace Scalar

/-- The type of a value. -/
def kind : Scalar → Kind
  | .bool _ => .bool
  | .id _ => .id
  | .int _ => .int
  | .long _ => .long
  | .float _ => .float
  | .double _ => .double
  | .string _ => .string
  | .bytes _ => .bytes
  | .rectangle _ _ => .rectangle
  | .fraction _ _ => .fraction
  | .fd _ => .fd

/-- The body of a value; a string ends with a zero. -/
def body : Scalar → List UInt8
  | .bool v => toLe 4 (if v then 1 else 0)
  | .id v | .int v | .float v => toLe 4 v.toNat
  | .long v | .double v | .fd v => toLe 8 v.toNat
  | .string s => s ++ [0]
  | .bytes s => s
  | .rectangle x y | .fraction x y => toLe 4 x.toNat ++ toLe 4 y.toNat

/-- The call of the builder for a value. -/
def build (b : Builder) : Scalar → Int × Builder
  | .bool v => builderBool b v
  | .id v => builderId b v
  | .int v => builderInt b v
  | .long v => builderLong b v
  | .float v => builderFloat b v
  | .double v => builderDouble b v
  | .string s => builderString b s
  | .bytes s => builderBytes b s
  | .rectangle x y => builderRectangle b x y
  | .fraction x y => builderFraction b x y
  | .fd v => builderFd b v

def header (v : Scalar) : Header := ⟨v.body.length, v.kind.number⟩

theorem build_eq (b : Builder) (v : Scalar) : ∃ x y, v.body = x ++ y ∧
    v.build b = primitiveBody b v.header.bytes x y := by
  cases v with
  | string s => exact ⟨s, [0], rfl, by simp [build, builderString, header, body, kind]⟩
  | _ => exact ⟨_, [], (append_nil _).symm, rfl⟩

end Scalar

/-- The header of the values of an array or of a choice. -/
def childHeader : List Scalar → Header
  | [] => ⟨0, Kind.none.number⟩
  | v :: _ => v.header

/-- The values of an array or of a choice: one header for all of them, and no padding. -/
def valuesBytes (vs : List Scalar) : List UInt8 := (childHeader vs).bytes ++ vs.flatMap Scalar.body

/-! ## The bytes of a pod -/

def podBytes (kind : Kind) (body : List UInt8) : List UInt8 :=
  Header.bytes ⟨body.length, kind.number⟩ ++ body ++ padding body.length

def Tree.kind : Tree → Kind
  | .scalar v => v.kind
  | .array _ => .array
  | .choice _ _ _ => .choice
  | .struct _ => .struct
  | .object _ _ _ => .object

mutual

def Tree.body : Tree → List UInt8
  | .scalar v => v.body
  | .array vs => valuesBytes vs
  | .choice type flags vs => toLe 4 type.toNat ++ toLe 4 flags.toNat ++ valuesBytes vs
  | .struct ts => ts.bytes
  | .object type id ps => toLe 4 type.toNat ++ toLe 4 id.toNat ++ ps.bytes

/-- The pods of a struct, one behind the other. -/
def Trees.bytes : Trees → List UInt8
  | .nil => []
  | .cons t ts => podBytes t.kind t.body ++ ts.bytes

/-- The properties of an object, each with its key and flags before the value. -/
def Props.bytes : Props → List UInt8
  | .nil => []
  | .cons key flags t ps =>
    toLe 4 key.toNat ++ toLe 4 flags.toNat ++ (podBytes t.kind t.body ++ ps.bytes)

end

def Tree.bytes (t : Tree) : List UInt8 := podBytes t.kind t.body

/-! ## The calls of the builder -/

/-- The calls for the values of an array or of a choice. -/
def buildValues (b : Builder) (vs : List Scalar) : Builder := vs.foldl (fun b v => (v.build b).2) b

mutual

def Tree.build : Tree → Builder → Builder
  | .scalar v, b => (v.build b).2
  | .array vs, b => builderPop (buildValues (builderPushArray b) vs)
  | .choice type flags vs, b => builderPop (buildValues (builderPushChoice b type flags) vs)
  | .struct ts, b => builderPop (ts.build (builderPushStruct b))
  | .object type id ps, b => builderPop (ps.build (builderPushObject b type id))

def Trees.build : Trees → Builder → Builder
  | .nil, b => b
  | .cons t ts, b => ts.build (t.build b)

/-- The calls for the properties of an object. -/
def Props.build : Props → Builder → Builder
  | .nil, b => b
  | .cons key flags t ps, b => ps.build (t.build (builderProp b key flags).2)

end

/-! ## What they write -/

theorem length_podBytes (kind : Kind) (body : List UInt8) :
    (podBytes kind body).length = 8 + 8 * ((body.length + 7) / 8) := by
  simp only [podBytes, length_append, length_bytes, length_padding]
  omega

theorem Trees.length_bytes : (ts : Trees) → ts.bytes.length % 8 = 0
  | .nil => rfl
  | .cons t ts => by
    have := Trees.length_bytes ts
    rw [Trees.bytes, length_append, length_podBytes]
    omega

theorem Props.length_bytes : (ps : Props) → ps.bytes.length % 8 = 0
  | .nil => rfl
  | .cons key flags t ps => by
    have := Props.length_bytes ps
    simp only [Props.bytes, length_append, length_podBytes, length_toLe]
    omega

theorem Tree.length_bytes (t : Tree) : t.bytes.length % 8 = 0 := by
  rw [Tree.bytes, length_podBytes]
  omega

theorem Trees.bytes_cons (t : Tree) (ts : Trees) :
    (Trees.cons t ts).bytes = t.bytes ++ ts.bytes := by
  rw [Trees.bytes, Tree.bytes]

theorem Props.bytes_cons (key flags : BitVec 32) (t : Tree) (ps : Props) :
    (Props.cons key flags t ps).bytes =
      toLe 4 key.toNat ++ toLe 4 flags.toNat ++ (t.bytes ++ ps.bytes) := by
  rw [Props.bytes, Tree.bytes]

/-- A builder has written a text, and there was room for it. -/
structure Kept (capacity : ℕ) (b : Builder) (t : Text) : Prop where
  follows : Follows b t
  length : b.data.length = capacity
  fits : t.bytes.length ≤ capacity

/-- The text is not inside of an array or of a choice, and a pod may begin behind it. -/
structure Text.Ready (t : Text) : Prop where
  flags : t.flags = ⟨false, false⟩
  align : t.bytes.length % 8 = 0

/-- The text with a container that is open, and its contents so far. -/
def Text.opening (t : Text) (kind : Kind) (extra content : List UInt8) (flags : Flags) : Text :=
  ⟨t.bytes ++ (Header.bytes ⟨extra.length, kind.number⟩ ++ (extra ++ content)), flags,
    (t.bytes.length, kind.number, t.flags) :: t.opened⟩

section Text

variable {t : Text} {kind : Kind} {extra content bs header body suffix : List UInt8} {flags : Flags}

theorem Text.put_put (t : Text) (xs ys : List UInt8) : (t.put xs).put ys = t.put (xs ++ ys) := by
  simp only [put, append_assoc]

theorem Text.put_nil (t : Text) : t.put [] = t := by
  rw [put, append_nil]

theorem Text.Ready.fill (h : t.Ready) :
    (t.put bs).fill (t.put bs).bytes.length = t.put (bs ++ padding bs.length) := by
  have hflags : ¬ (t.put bs).flags = ⟨true, false⟩ := by
    rw [Text.put, h.flags]
    decide
  rw [Text.fill, if_neg hflags, Text.length_put, padding_add h.align, Text.put_put]

theorem Text.Ready.put (h : t.Ready) (hbs : bs.length % 8 = 0) : (t.put bs).Ready := by
  have halign := h.align
  refine ⟨h.flags, ?_⟩
  rw [Text.length_put]
  omega

theorem Text.Ready.value (h : t.Ready) (hheader : header.length = 8) :
    t.step (.value header body suffix) =
      t.put (header ++ (body ++ suffix) ++ padding (body ++ suffix).length) := by
  have hpad : padding (header ++ (body ++ suffix)).length = padding (body ++ suffix).length := by
    rw [length_append]
    exact padding_add (by omega)
  have hbegun : t.begun = t := by
    obtain ⟨bytes, flags, opened⟩ := t
    obtain rfl : flags = ⟨false, false⟩ := h.flags
    rfl
  have hflags : ¬ t.flags = ⟨true, false⟩ := by
    rw [h.flags]
    decide
  simp only [Text.step, if_neg hflags, hbegun, Text.put_put]
  rw [append_assoc, h.fill, hpad]

theorem Text.opening_put : (t.opening kind extra content flags).put bs =
    t.opening kind extra (content ++ bs) flags := by
  simp only [opening, put, append_assoc]

theorem Text.length_opening : (t.opening kind extra content flags).bytes.length =
    t.bytes.length + (8 + (extra ++ content).length) := by
  simp only [opening, length_append, Pod.length_bytes]

theorem Text.push_eq (t : Text) (kind : Kind) (extra : List UInt8) : t.step (.push kind extra) =
    t.opening kind extra [] (if kind = .array ∨ kind = .choice then ⟨true, true⟩ else t.flags) := by
  cases kind <;> simp [Text.step, Text.opening, Text.put, Kind.number]

theorem Text.Ready.opening (h : t.Ready) (hextra : extra.length % 8 = 0) :
    (t.opening kind extra [] t.flags).Ready := by
  have halign := h.align
  refine ⟨h.flags, ?_⟩
  rw [length_opening, append_nil]
  omega

theorem Text.le_opening {capacity : ℕ}
    (hfits : (t.put (podBytes kind (extra ++ content))).bytes.length ≤ capacity) :
    ((t.opening kind extra [] flags).put content).bytes.length ≤ capacity := by
  rw [opening_put, length_opening, nil_append]
  rw [length_put, length_podBytes] at hfits
  omega

theorem Text.Ready.close (h : t.Ready) :
    (t.opening kind extra content flags).close = t.put (podBytes kind (extra ++ content)) := by
  have hsize : (t.opening kind extra content flags).bytes.length - (t.bytes.length + 8) =
      (extra ++ content).length := by
    rw [length_opening]
    omega
  have hpad : padding (Header.bytes ⟨(extra ++ content).length, kind.number⟩ ++
      (extra ++ content)).length = padding (extra ++ content).length := by
    rw [length_append, Pod.length_bytes]
    exact padding_add rfl
  rw [Text.close]
  simp only [Text.opening] at hsize ⊢
  rw [hsize, write_mid (by simp only [Pod.length_bytes])]
  refine h.fill.trans ?_
  rw [podBytes, hpad]

end Text

namespace Kept

variable {capacity : ℕ} {b : Builder} {t : Text} {kind : Kind} {extra content bs : List UInt8}
  {flags : Flags}

section Kept

variable (h : Kept capacity b t)

include h

theorem bytes_eq : b.data.take t.bytes.length = t.bytes := by
  have hbytes := h.follows.bytes
  rw [h.follows.offset, h.length] at hbytes
  exact hbytes h.fits

theorem of_tells {r : Int × Builder} {t' : Text}
    (htells : Tells b.data.length r t') (hfits : t'.bytes.length ≤ capacity) :
    Kept capacity r.2 t' := ⟨htells.follows, htells.length.trans h.length, hfits⟩

theorem raw (hcap : capacity < 2 ^ 32)
    (hfits : (t.put bs).bytes.length ≤ capacity) : Kept capacity (Pod.raw b bs).2 (t.put bs) :=
  h.of_tells (h.follows.raw (Nat.lt_of_le_of_lt hfits hcap)) hfits

theorem child (hcap : capacity < 2 ^ 32) (pod : Header)
    (hfits : (t.step (.child pod)).bytes.length ≤ capacity) :
    Kept capacity (builderChild b pod).2 (t.step (.child pod)) :=
  h.of_tells (h.follows.begun.raw (Nat.lt_of_le_of_lt hfits hcap)) hfits

theorem push (hcap : capacity < 2 ^ 32) (kind : Kind) (extra : List UInt8)
    (hfits : (t.step (.push kind extra)).bytes.length ≤ capacity) :
    Kept capacity (pushContainer b kind extra) (t.step (.push kind extra)) := by
  have hlt := Nat.lt_of_le_of_lt hfits hcap
  have hstep := (h.follows.step (.push kind extra) nofun hlt).2.1
  exact ⟨h.follows.push kind hlt, hstep.trans h.length, hfits⟩

theorem value (hcap : capacity < 2 ^ 32) (header body suffix : List UInt8)
    (hfits : (t.step (.value header body suffix)).bytes.length ≤ capacity) :
    Kept capacity (primitiveBody b header body suffix).2 (t.step (.value header body suffix)) :=
  h.of_tells (h.follows.primitiveBody (Nat.lt_of_le_of_lt hfits hcap)) hfits

theorem begin (hcap : capacity < 2 ^ 32) (kind : Kind) (extra : List UInt8)
    (hfits : (t.put (podBytes kind (extra ++ content))).bytes.length ≤ capacity) :
    Kept capacity (pushContainer b kind extra) (t.opening kind extra []
      (if kind = .array ∨ kind = .choice then ⟨true, true⟩ else t.flags)) := by
  rw [← Text.push_eq]
  refine h.push hcap kind extra ?_
  rw [Text.push_eq, Text.length_opening]
  rw [Text.length_put, length_podBytes] at hfits
  simp only [length_append, length_nil] at hfits ⊢
  omega

end Kept

theorem values (vs : List Scalar) {b : Builder} {content : List UInt8}
    (h : Kept capacity b (t.opening kind extra content ⟨true, false⟩)) (hcap : capacity < 2 ^ 32)
    (hfits : t.bytes.length + (8 + (extra ++ (content ++ vs.flatMap Scalar.body)).length) ≤ capacity) :
    Kept capacity (buildValues b vs)
      (t.opening kind extra (content ++ vs.flatMap Scalar.body) ⟨true, false⟩) := by
  induction vs generalizing b content with
  | nil =>
    rw [flatMap_nil, append_nil]
    exact h
  | cons v vs ih =>
    rw [flatMap_cons, ← append_assoc content] at hfits ⊢
    obtain ⟨x, y, hbody, hbuild⟩ := v.build_eq b
    have hstep : (t.opening kind extra content ⟨true, false⟩).step (.value v.header.bytes x y) =
        t.opening kind extra (content ++ v.body) ⟨true, false⟩ := by
      rw [hbody, ← Text.opening_put, ← Text.put_put]
      rfl
    have hv := h.value hcap v.header.bytes x y (by
      rw [hstep, Text.length_opening]
      simp only [length_append] at hfits ⊢
      omega)
    rw [hstep, ← hbuild] at hv
    exact ih hv hfits

theorem pop (h : Kept capacity b (t.opening kind extra content flags)) (hcap : capacity < 2 ^ 32)
    (hready : t.Ready) (hfirst : flags.first = false)
    (hfits : (t.put (podBytes kind (extra ++ content))).bytes.length ≤ capacity) :
    Kept capacity (builderPop b) (t.put (podBytes kind (extra ++ content))) := by
  have hstep : (t.opening kind extra content flags).step .pop =
      t.put (podBytes kind (extra ++ content)) := by
    rw [Text.step, if_neg (by rw [Text.opening, hfirst]; decide), hready.close]
  obtain ⟨hpop, hlength, -⟩ := h.follows.pop (cons_ne_nil _ _)
    (by rw [hstep]; exact Nat.lt_of_le_of_lt hfits hcap)
  rw [hstep] at hpop
  exact ⟨hpop, hlength.trans h.length, hfits⟩

/-- **An array or a choice**: where there is no value, the end writes their header. -/
theorem pop_values (h : Kept capacity b (t.opening kind extra [] ⟨true, true⟩))
    (hcap : capacity < 2 ^ 32) (hready : t.Ready) {vs : List Scalar}
    (hfits : (t.put (podBytes kind (extra ++ valuesBytes vs))).bytes.length ≤ capacity) :
    Kept capacity (builderPop (buildValues b vs))
      (t.put (podBytes kind (extra ++ valuesBytes vs))) := by
  cases vs with
  | nil =>
    have hbytes : valuesBytes [] = Header.bytes ⟨0, Kind.none.number⟩ := by
      simp [valuesBytes, childHeader]
    have hstep : (t.opening kind extra [] ⟨true, true⟩).step .pop =
        t.put (podBytes kind (extra ++ valuesBytes [])) := by
      rw [hbytes, ← hready.close, ← nil_append (Header.bytes _), ← Text.opening_put]
      rfl
    obtain ⟨hpop, hlength, -⟩ := h.follows.pop (cons_ne_nil _ _)
      (by rw [hstep]; exact Nat.lt_of_le_of_lt hfits hcap)
    rw [hstep] at hpop
    exact ⟨hpop, hlength.trans h.length, hfits⟩
  | cons v vs =>
    have hbytes : valuesBytes (v :: vs) = v.header.bytes ++ v.body ++ vs.flatMap Scalar.body := by
      simp [valuesBytes, childHeader]
    rw [hbytes] at hfits ⊢
    have hlen := hfits
    rw [Text.length_put, length_podBytes] at hlen
    simp only [length_append] at hlen
    obtain ⟨x, y, hbody, hbuild⟩ := v.build_eq b
    have hstep : (t.opening kind extra [] ⟨true, true⟩).step (.value v.header.bytes x y) =
        t.opening kind extra (v.header.bytes ++ v.body) ⟨true, false⟩ := by
      rw [hbody, ← nil_append (v.header.bytes ++ _), ← Text.opening_put, ← Text.put_put,
        ← Text.put_put]
      rfl
    have hv := h.value hcap v.header.bytes x y (by
      rw [hstep, Text.length_opening]
      simp only [length_append]
      omega)
    rw [hstep, ← hbuild] at hv
    have hvalues := hv.values vs hcap (by simp only [length_append]; omega)
    exact hvalues.pop hcap hready rfl hfits

end Kept

mutual

variable {capacity : ℕ}

/-- **The builder appends the bytes of the pod.** -/
theorem Tree.build_kept (t : Tree) {b : Builder} {x : Text} (h : Kept capacity b x)
    (hcap : capacity < 2 ^ 32) (hready : x.Ready)
    (hfits : (x.put t.bytes).bytes.length ≤ capacity) :
    Kept capacity (t.build b) (x.put t.bytes) := by
  cases t with
  | scalar v =>
    obtain ⟨y, z, hbody, hbuild⟩ := v.build_eq b
    have hstep : x.step (.value v.header.bytes y z) = x.put (Tree.scalar v).bytes := by
      rw [hready.value (Pod.length_bytes _), ← hbody]
      rfl
    have hv := h.value hcap v.header.bytes y z (hstep ▸ hfits)
    rw [hstep, ← hbuild] at hv
    exact hv
  | array vs => exact (h.begin hcap .array [] hfits).pop_values hcap hready hfits
  | choice type flags vs =>
    exact (h.begin hcap .choice (toLe 4 type.toNat ++ toLe 4 flags.toNat) hfits).pop_values hcap
      hready hfits
  | struct ts =>
    have hopen := h.begin hcap .struct [] hfits
    have hts := ts.build_kept hopen hcap (hready.opening rfl) (Text.le_opening hfits)
    rw [Text.opening_put] at hts
    exact hts.pop hcap hready (congrArg Flags.first hready.flags) hfits
  | object type id ps =>
    have hopen := h.begin hcap .object (toLe 4 type.toNat ++ toLe 4 id.toNat) hfits
    have hps := ps.build_kept hopen hcap
      (hready.opening (by rw [length_append, length_toLe, length_toLe]))
      (Text.le_opening hfits)
    rw [Text.opening_put] at hps
    exact hps.pop hcap hready (congrArg Flags.first hready.flags) hfits

theorem Trees.build_kept (ts : Trees) {b : Builder} {x : Text} (h : Kept capacity b x)
    (hcap : capacity < 2 ^ 32) (hready : x.Ready)
    (hfits : (x.put ts.bytes).bytes.length ≤ capacity) :
    Kept capacity (ts.build b) (x.put ts.bytes) := by
  cases ts with
  | nil =>
    rw [Trees.bytes, Text.put_nil]
    exact h
  | cons t ts =>
    rw [Trees.bytes_cons, ← Text.put_put] at hfits ⊢
    have ht := t.build_kept h hcap hready (Nat.le_trans (Text.le_put _ _) hfits)
    exact ts.build_kept ht hcap (hready.put t.length_bytes) hfits

theorem Props.build_kept (ps : Props) {b : Builder} {x : Text} (h : Kept capacity b x)
    (hcap : capacity < 2 ^ 32) (hready : x.Ready)
    (hfits : (x.put ps.bytes).bytes.length ≤ capacity) :
    Kept capacity (ps.build b) (x.put ps.bytes) := by
  cases ps with
  | nil =>
    rw [Props.bytes, Text.put_nil]
    exact h
  | cons key flags t ps =>
    rw [Props.bytes_cons, ← Text.put_put, ← Text.put_put] at hfits ⊢
    have ht := Nat.le_trans (Text.le_put _ _) hfits
    have hkey := h.raw hcap (Nat.le_trans (Text.le_put _ _) ht)
    have hready : (x.put (toLe 4 key.toNat ++ toLe 4 flags.toNat)).Ready :=
      hready.put (by rw [length_append, length_toLe, length_toLe])
    exact ps.build_kept (t.build_kept hkey hcap hready ht) hcap (hready.put t.length_bytes) hfits

end

end PipeWireAO.Pod
