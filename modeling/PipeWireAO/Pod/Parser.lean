import PipeWireAO.Pod.Layout

/-!
# The parser of pods

`spa/pod/parser.h` with the functions of `spa/pod/body.h` that it uses. The parser goes over the
pods of a sequence of bytes by their offsets, and into structs and objects by frames. A frame is
the caller's; `Parser.frame` is the current one, with its parents behind it.

Offsets and sizes are words of 32 bits: where the source assigns to one, `u32` is applied.
-/

namespace PipeWireAO.Pod

open Foundation (ofLe)

/-- `SPA_POD_BUILDER_FLAG_BODY` and `SPA_POD_BUILDER_FLAG_FIRST`. -/
structure Flags where
  (body first : Bool)
  deriving DecidableEq

/-- `struct spa_pod_frame`, without its parent. A parser has no flags. -/
structure Frame where
  pod : Header
  offset : ℕ
  flags : Flags
  deriving DecidableEq

/-- `struct spa_pod_parser`. -/
structure Parser where
  (data size offset : ℕ)
  frame : List Frame
  deriving DecidableEq

section

variable (u32 : ℕ → ℕ) (m : Memory)

/-- `spa_pod_parser_init`. -/
def init (data size : ℕ) : Parser := ⟨data, size, 0, []⟩

/-- `spa_pod_parser_init_from_data`. -/
def initFromData (data maxsize offset size : ℕ) : Parser :=
  let offs := min offset maxsize
  init (ptroff data offs) (min (maxsize - offs) size)

/-- `spa_pod_parser_init_pod_body`. -/
def initPodBody (pod : Header) (body : ℕ) : Parser := init (ptrback body 8) (u32 (pod.size + 8))

/-- `spa_pod_parser_read_header`: the bytes of the header, and the body. -/
def readHeader (p : Parser) (offset size headerSize podOffset : ℕ) :
    Except Error (List UInt8 × ℕ) :=
  let longOffset := offset + headerSize
  if longOffset ≤ size ∧ offset &&& 7 = 0 then
    match m.load (ptroff p.data offset) headerSize with
    | .error e => .error e
    | .ok header =>
      if longOffset + align (Header.ofBytes (header.drop podOffset)).size ≤ size then
        .ok (header, ptroff p.data longOffset)
      else .error (.code (-ePipe))
  else .error (.code (-ePipe))

/-- The end of the current frame, or of the data. -/
def Parser.limit (p : Parser) : ℕ :=
  match p.frame with
  | [] => p.size
  | f :: _ => u32 (f.offset + (8 + f.pod.size))

/-- `spa_pod_parser_get_header`. -/
def getHeader (p : Parser) (headerSize podOffset : ℕ) : Except Error (List UInt8 × ℕ) :=
  readHeader m p p.offset (p.limit u32) headerSize podOffset

/-- `spa_pod_parser_current_body`. -/
def currentBody (p : Parser) : Except Error (Header × ℕ) :=
  (getHeader u32 m p 8 0).map fun r => (Header.ofBytes r.1, r.2)

/-- `spa_pod_parser_current`: the pod starts eight bytes before its body. -/
def current (p : Parser) : Except Error ℕ := (currentBody u32 m p).map fun r => ptrback r.2 8

/-- `spa_pod_parser_advance`. -/
def advance (p : Parser) (pod : Header) : Parser :=
  { p with offset := u32 (p.offset + align (8 + pod.size)) }

/-- `spa_pod_parser_next_body`, and `spa_pod_parser_next` up to the error number. -/
def nextBody (p : Parser) : Except Error (Header × ℕ × Parser) :=
  match currentBody u32 m p with
  | .error (.code _) => .error (.code (-eInval))
  | .error e => .error e
  | .ok (pod, body) => .ok (pod, body, advance u32 p pod)

/-- `spa_pod_parser_push`. -/
def push (p : Parser) (pod : Header) (offset : ℕ) : Parser :=
  { p with frame := ⟨pod, offset, ⟨false, false⟩⟩ :: p.frame }

/-- `spa_pod_parser_restart`. -/
def restart (p : Parser) (f : Frame) : Parser := { p with offset := f.offset }

/-- `spa_pod_parser_unpush`, for a frame and its parents. -/
def unpush (p : Parser) (f : Frame) (parent : List Frame) : Parser :=
  { restart p f with frame := parent }

/-- `spa_pod_parser_pop`. -/
def pop (p : Parser) (f : Frame) (parent : List Frame) : Parser :=
  advance u32 (unpush p f parent) f.pod

/-! ## Bodies -/

/-- The family `spa_pod_body_get_*`: the check of the header, then the bytes of the value. -/
def bodyGet {α : Type} (kind : Kind) (size : ℕ) (value : List UInt8 → α) (pod : Header)
    (body : ℕ) : Except Error α :=
  if pod.check kind size then (m.load body size).map value else .error (.code (-eInval))

/-- A word of `w` bits from its bytes. -/
def word (w : ℕ) (bs : List UInt8) : BitVec w := BitVec.ofNat w (ofLe bs)

/-- Two words, as in `struct spa_rectangle` and `struct spa_fraction`. -/
def wordPair (bs : List UInt8) : BitVec 32 × BitVec 32 := (word 32 (bs.take 4), word 32 (bs.drop 4))

/-- `spa_pod_body_get_bool`. -/
def bodyGetBool := bodyGet m .bool 4 fun bs => ofLe bs != 0

/-- `spa_pod_body_get_id`. -/
def bodyGetId := bodyGet m .id 4 (word 32)

/-- `spa_pod_body_get_int`. -/
def bodyGetInt := bodyGet m .int 4 (word 32)

/-- `spa_pod_body_get_long`. -/
def bodyGetLong := bodyGet m .long 8 (word 64)

/-- `spa_pod_body_get_float`, of which only the bits are kept. -/
def bodyGetFloat := bodyGet m .float 4 (word 32)

/-- `spa_pod_body_get_double`, of which only the bits are kept. -/
def bodyGetDouble := bodyGet m .double 8 (word 64)

/-- `spa_pod_body_get_fd`. -/
def bodyGetFd := bodyGet m .fd 8 (word 64)

/-- `spa_pod_body_get_rectangle`. -/
def bodyGetRectangle := bodyGet m .rectangle 8 wordPair

/-- `spa_pod_body_get_fraction`. -/
def bodyGetFraction := bodyGet m .fraction 8 wordPair

/-- `spa_pod_body_get_string`, and the string at the pointer that it gives. -/
def bodyGetString (pod : Header) (body : ℕ) : Except Error (List UInt8) :=
  if pod.check .string 1 then
    match m.load body pod.size with
    | .error e => .error e
    | .ok bs =>
      if bs.getLast? = some 0 then .ok (bs.takeWhile (· ≠ 0)) else .error (.code (-eInval))
  else .error (.code (-eInval))

/-- `spa_pod_body_get_bytes`, and the bytes at the pointer that it gives. -/
def bodyGetBytes (pod : Header) (body : ℕ) : Except Error (List UInt8) :=
  if pod.check .bytes 0 then m.load body pod.size else .error (.code (-eInval))

/-- The values of an array or of a choice: how many, the header of each, and where. -/
structure Values where
  count : ℕ
  child : Header
  at_ : ℕ
  deriving DecidableEq

/-- `spa_pod_body_get_array_values`. -/
def arrayValues (pod : Header) (body : ℕ) : Except Error Values :=
  if pod.check .array 8 then
    (m.header body).map fun child =>
      let n := if child.size ≠ 0 then (pod.size - 8) / child.size else 0
      ⟨if child.size < typeSize child.type then 0 else n, child, ptroff body 8⟩
  else .error (.code (-eInval))

/-- `enum spa_choice_type`. -/
inductive ChoiceType
  | none | range | step | enum | flags
  deriving DecidableEq

def ChoiceType.number : ChoiceType → ℕ
  | .none => 0
  | .range => 1
  | .step => 2
  | .enum => 3
  | .flags => 4

/-- `spa_pod_choice_n_values`: the least and the greatest number of values. -/
def choiceNValues (choice : ℕ) : ℕ × ℕ :=
  match choice with
  | 3 => (2, 2 ^ 32 - 1)
  | 1 => (3, 3)
  | 2 => (4, 4)
  | 0 | 4 => (1, 1)
  | _ => (1, 2 ^ 32 - 1)

/-- `struct spa_pod_choice_body`. -/
structure ChoiceBody where
  (type flags : ℕ)
  child : Header
  deriving DecidableEq

/-- `spa_pod_body_get_choice`: the body of the choice, and the first value. -/
def bodyGetChoice (pod : Header) (body : ℕ) : Except Error (ChoiceBody × ℕ) :=
  if pod.check .choice 16 then
    (m.load body 16).map fun bs =>
      (⟨ofLe (bs.take 4), ofLe ((bs.drop 4).take 4), Header.ofBytes (bs.drop 8)⟩, ptroff body 16)
  else .error (.code (-eInval))

/-- `spa_pod_choice_body_get_values`. -/
def choiceValues (pod : Header) (choice : ChoiceBody) (body : ℕ) : Values :=
  let n := if choice.child.size ≠ 0 then (pod.size - 16) / choice.child.size else 0
  let count :=
    if n < (choiceNValues choice.type).1 ∨ choice.child.size < typeSize choice.child.type then 0
    else min n (choiceNValues choice.type).2
  ⟨count, choice.child, body⟩

/-- `struct spa_pod_object_body`. -/
structure ObjectBody where
  (type id : ℕ)
  deriving DecidableEq

/-- `spa_pod_body_get_object`. -/
def bodyGetObject := bodyGet m .object 8 fun bs => (⟨ofLe (bs.take 4), ofLe (bs.drop 4)⟩ : ObjectBody)

/-! ## Values and containers -/

/-- The family `spa_pod_parser_get_*`: the parser advances over a pod that was read. -/
def parserGet {α : Type} (get : Header → ℕ → Except Error α) (p : Parser) :
    Except Error (α × Parser) := do
  let (pod, body) ← currentBody u32 m p
  let value ← get pod body
  return (value, advance u32 p pod)

/-- `spa_pod_parser_push_struct`. -/
def pushStruct (p : Parser) : Except Error Parser :=
  match currentBody u32 m p with
  | .error e => .error e
  | .ok (pod, _) =>
    if pod.check .struct 0 then
      .ok { push p pod p.offset with offset := u32 (p.offset + 8) }
    else .error (.code (-eInval))

/-- `spa_pod_parser_push_object_body`. -/
def pushObjectBody (p : Parser) : Except Error (ObjectBody × Parser) := do
  let (pod, body) ← currentBody u32 m p
  let object ← bodyGetObject m pod body
  return (object, { push p pod p.offset with offset := u32 (p.offset + 16) })

/-- `spa_pod_parser_push_object`: its answer, the id or an error number, and the parser. -/
def pushObject (p : Parser) (type : ℕ) : Except Error (Except Int ℕ × Parser) :=
  match pushObjectBody u32 m p with
  | .error e => .error e
  | .ok (object, p') =>
    match p'.frame with
    | [] => .error .fault
    | f :: parent =>
      if type ≠ object.type then .ok (.error (-eProto), unpush p' f parent)
      else .ok (.ok object.id, p')

/-- `spa_pod_parser_get_prop_body`. -/
def getPropBody (p : Parser) : Except Error (Property × ℕ × Parser) :=
  (getHeader u32 m p 16 8).map fun r =>
    let prop := Property.ofBytes r.1
    (prop, r.2, { p with offset := u32 (p.offset + align (16 + prop.value.size)) })

/-- A loop of `spa_pod_parser_object_find_prop`: up to the end, or to the offset `stop`. The rounds
that are left are part of the result. -/
def findLoop (stop : Option ℕ) (key : ℕ) :
    ℕ → Parser → Except Error (Option (Property × ℕ) × Parser × ℕ)
  | 0, _ => .error .fuel
  | n + 1, p =>
    if stop = some p.offset then .ok (none, p, n)
    else
      match getPropBody u32 m p with
      | .error (.code _) => .ok (none, p, n)
      | .error e => .error e
      | .ok (prop, body, p') =>
        if prop.key = key then .ok (some (prop, body), p', n) else findLoop stop key n p'

/-- The two loops of `spa_pod_parser_object_find_prop`. The second one starts at the first property
and stops nowhere before the end: no property is at the offset of the frame. -/
def findFrom (f : Frame) (key fuel : ℕ) (p : Parser) :
    Except Error (Option (Property × ℕ) × Parser) :=
  match findLoop u32 m none key fuel p with
  | .error e => .error e
  | .ok (some r, p₁, _) => .ok (some r, p₁)
  | .ok (none, p₁, n) =>
    match findLoop u32 m (some f.offset) key n
        { restart p₁ f with offset := u32 (f.offset + 16) } with
    | .error e => .error e
    | .ok (r, p₂, _) => .ok (r, p₂)

/-- `spa_pod_parser_object_find_prop`; `none` is `-ENOENT`. -/
def objectFindProp (key fuel : ℕ) (p : Parser) :
    Except Error (Option (Property × ℕ) × Parser) :=
  match p.frame with
  | [] => .error (.code (-eInval))
  | f :: _ =>
    if f.pod.type = Kind.object.number then findFrom u32 m f key fuel p
    else .error (.code (-eInval))

end

end PipeWireAO.Pod
