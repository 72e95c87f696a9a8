import Mathlib.Data.Nat.Notation

/-!
# The tokenizer of relaxed JSON

`spa_json_next` goes over a text byte by byte and returns the next token of the container that its
iterator is in: a string, a bare word, or the opening bracket of a container. After a bracket, the
next call goes over the whole content of that container, which a second iterator can enter. The end
of the container and the end of the text are both reported as 0, and an error as -1.
-/

namespace PipeWireAO.Json

/-- Bytes from some position to the end of the text. -/
abbrev Text := List UInt8

/-! ## Bytes -/

/-- What the tokenizer tells apart outside of strings and comments. -/
inductive Class
  | blank
  | separator
  | comment
  | quote
  | opening (array : Bool)
  | closing (array : Bool)
  | backslash
  | plain
  | invalid
deriving DecidableEq

def classify (c : UInt8) : Class :=
  if c = 0 ∨ c = 9 ∨ c = 32 ∨ c = 13 ∨ c = 10 ∨ c = 44 then .blank
  else if c = 58 ∨ c = 61 then .separator
  else if c = 35 then .comment
  else if c = 34 then .quote
  else if c = 91 then .opening true
  else if c = 123 then .opening false
  else if c = 93 then .closing true
  else if c = 125 then .closing false
  else if c = 92 then .backslash
  else if 32 ≤ c ∧ c ≤ 126 then .plain
  else .invalid

/-! ## One byte -/

/-- The errors of the tokenizer. -/
inductive Error
  | invalidArraySeparator
  | expectedObjectKey
  | expectedObjectValue
  | tooDeepNesting
  | expectedArrayClose
  | expectedObjectClose
  | mismatchedBracket
  | escapeNotAllowed
  | charactersNotAllowed
  | invalidEscape
  | unfinishedString
deriving DecidableEq

/-- What the tokenizer is in the middle of; `utf8` has the bytes that are missing. -/
inductive Mode
  | none
  | struct
  | bare
  | string
  | utf8 (remain : ℕ)
  | esc
  | comment
deriving DecidableEq

/-- The state of the tokenizer. `array`, `key` and `sub` are `__ARRAY_FLAG`, `__KEY_FLAG` and
`__SUB_FLAG`. `outer` has the array flags of the containers around the current one, innermost first:
the last is `__PREV_ARRAY_FLAG`, the others are in `array_stack`, and its length is `depth`. -/
structure State where
  mode : Mode
  (array key sub : Bool)
  outer : List Bool
deriving DecidableEq

/-- What a byte does: go on, begin a token here and go on, return with the bracket of a container,
with the bare word or string that ends before or with the byte, with the end of the container, or
with an error. -/
inductive Move
  | go (s : State)
  | begins (s : State)
  | opened (s : State)
  | word (s : State)
  | text (s : State)
  | closed (s : State)
  | error (e : Error)
deriving DecidableEq

/-- The flags when a word or a string begins: in an object, keys and values alternate. -/
def State.alternate (s : State) : State :=
  { s with sub := s.sub || s.key, key := if s.array then s.key else !s.key }

/-- The deepest nesting that `array_stack` can hold. -/
def maxStack : ℕ := 512

def openBracket (s : State) (array : Bool) : Move :=
  if !s.array && s.sub && !s.key then .error .expectedObjectKey
  else
    let s' : State := ⟨.struct, array, s.array && s.key, true, s.array :: s.outer⟩
    if s.outer = [] then .opened s'
    else if maxStack < s.outer.length then .error .tooDeepNesting
    else .begins s'

def closeBracket (s : State) (array : Bool) : Move :=
  if s.array && !array then .error .expectedArrayClose
  else if !s.array && array then .error .expectedObjectClose
  else if s.key then .error .expectedObjectValue
  else
    match s.outer with
    | [] => .closed { s with mode := .struct, sub := true }
    | a :: outer =>
      if maxStack < outer.length then .error .tooDeepNesting
      else .go ⟨.struct, a, s.key, true, outer⟩

/-- A byte between tokens. -/
def structByte (s : State) (c : UInt8) : Move :=
  match classify c with
  | .blank => .go s
  | .separator =>
    if s.array then .error .invalidArraySeparator
    else if !s.key then .error .expectedObjectKey
    else .go { s with sub := true }
  | .comment => .go { s with mode := .comment }
  | .quote => .begins { s.alternate with mode := .string }
  | .opening array => openBracket s array
  | .closing array => closeBracket s array
  | .backslash => .error .escapeNotAllowed
  | .plain => .begins { s.alternate with mode := .bare }
  | .invalid => .error .charactersNotAllowed

/-- A byte of a bare word, or the one after it. -/
def bareByte (s : State) (c : UInt8) : Move :=
  match classify c with
  | .plain => .go s
  | .backslash => .error .escapeNotAllowed
  | .invalid => .error .charactersNotAllowed
  | _ =>
    if s.outer = [] then .word { s with mode := .struct }
    else structByte { s with mode := .struct } c

def stringByte (s : State) (c : UInt8) : Move :=
  if c = 92 then .go { s with mode := .esc }
  else if c = 34 then
    if s.outer = [] then .text { s with mode := .struct } else .go { s with mode := .struct }
  else if 240 ≤ c ∧ c ≤ 247 then .go { s with mode := .utf8 3 }
  else if 224 ≤ c ∧ c ≤ 239 then .go { s with mode := .utf8 2 }
  else if 192 ≤ c ∧ c ≤ 223 then .go { s with mode := .utf8 1 }
  else if 32 ≤ c ∧ c ≤ 127 then .go s
  else .error .charactersNotAllowed

/-- The bytes that may follow a backslash. -/
def escapes : Text := [34, 92, 47, 98, 102, 110, 114, 116, 117]

/-- The state in which a fresh iterator looks at its first byte. -/
def State.start (s : State) : State := ⟨.struct, s.array, false, s.sub, []⟩

/-- **What the tokenizer does with a byte.** -/
def byte (s : State) (c : UInt8) : Move :=
  match s.mode with
  | .none => structByte s.start c
  | .struct => structByte s c
  | .bare => bareByte s c
  | .string => stringByte s c
  | .utf8 remain =>
    if 128 ≤ c ∧ c ≤ 191 then
      .go { s with mode := if remain ≤ 1 then .string else .utf8 (remain - 1) }
    else .error .charactersNotAllowed
  | .esc => if c ∈ escapes then .go { s with mode := .string } else .error .invalidEscape
  | .comment => .go (if c = 10 ∨ c = 13 then { s with mode := .struct } else s)

/-! ## One token -/

/-- `struct spa_json`: the text from `cur` to `end`, whether there is a parent, and the state or an
error. -/
structure Iter where
  cur : Text
  parent : Bool
  state : Except Error State

/-- The outcome of `spa_json_next`: a token of `len` bytes, the end of the container or of the text
(both 0), or an error (-1). -/
inductive Outcome
  | token (value : Text) (len : ℕ)
  | close
  | finish
  | error (e : Error)
deriving DecidableEq

/-- The end of the text; `value` is where the last token began. -/
def atEnd (parent : Bool) (s : State) (value : Text) : Outcome × Iter :=
  let fail (e : Error) : Outcome × Iter := (.error e, ⟨[], parent, .error e⟩)
  if s.outer ≠ [] ∨ parent then fail .mismatchedBracket
  else
    match s.mode with
    | .string | .utf8 _ | .esc => fail .unfinishedString
    | .comment => (.finish, ⟨[], parent, .ok s⟩)
    | .none | .struct =>
      if s.sub && s.key then fail .expectedObjectValue
      else (.finish, ⟨[], parent, .ok { s with mode := .struct }⟩)
    | .bare =>
      if s.sub && s.key then fail .expectedObjectValue
      else (.token value value.length, ⟨[], parent, .ok { s with mode := .struct }⟩)

/-- The loop of `spa_json_next`; `value` is where the last token began. -/
def scan (parent : Bool) (s : State) (value : Text) : Text → Outcome × Iter
  | [] => atEnd parent s value
  | c :: cs =>
    match byte s c with
    | .go s' => scan parent s' value cs
    | .begins s' => scan parent s' (c :: cs) cs
    | .opened s' => (.token (c :: cs) 1, ⟨cs, parent, .ok s'⟩)
    | .word s' => (.token value (value.length - (c :: cs).length), ⟨c :: cs, parent, .ok s'⟩)
    | .text s' => (.token value (value.length - cs.length), ⟨cs, parent, .ok s'⟩)
    | .closed s' =>
      if parent then (.close, ⟨c :: cs, parent, .ok s'⟩)
      else (.error .mismatchedBracket, ⟨c :: cs, parent, .error .mismatchedBracket⟩)
    | .error e => (.error e, ⟨c :: cs, parent, .error e⟩)

/-- `spa_json_next`. -/
def next (it : Iter) : Outcome × Iter :=
  match it.state with
  | .error e => (.error e, it)
  | .ok s => scan it.parent s it.cur it.cur

/-- `spa_json_init`. -/
def init (data : Text) : Iter := ⟨data, false, .ok ⟨.none, false, false, false, []⟩⟩

/-- `spa_json_enter`. -/
def enter (it : Iter) : Iter :=
  ⟨it.cur, true, it.state.map fun s => { s with mode := .none, outer := [] }⟩

/-- What the last call for an iterator does to its parent. -/
def leave (o : Outcome) (child parent : Iter) : Iter :=
  match o, parent.state with
  | .close, _ => { parent with cur := child.cur }
  | .error e, .ok _ => { parent with cur := child.cur, state := .error e }
  | _, _ => parent

/-! ## Values of tokens -/

def tokenBytes (value : Text) (len : ℕ) : Text := value.take len

/-- The first byte of a token says whether it opens a container, and which one. -/
def container (value : Text) : Option Bool :=
  match value.head?.map classify with
  | some (.opening array) => some array
  | _ => none

/-- `spa_json_parse_hex`. -/
def parseHex (digits : Text) : Option ℕ :=
  digits.foldlM (fun res v =>
    if 48 ≤ v ∧ v ≤ 57 then some (res * 16 + (v.toNat - 48))
    else if 97 ≤ v ∧ v ≤ 102 then some (res * 16 + (v.toNat - 87))
    else if 65 ≤ v ∧ v ≤ 70 then some (res * 16 + (v.toNat - 55))
    else none) 0

def encodeUtf8 (cp : ℕ) : Text :=
  if cp < 0x80 then [cp.toUInt8]
  else if cp < 0x800 then [(0xc0 ||| cp >>> 6).toUInt8, (0x80 ||| cp &&& 0x3f).toUInt8]
  else if cp < 0x10000 then
    [(0xe0 ||| cp >>> 12).toUInt8, (0x80 ||| cp >>> 6 &&& 0x3f).toUInt8,
      (0x80 ||| cp &&& 0x3f).toUInt8]
  else
    [(0xf0 ||| cp >>> 18).toUInt8, (0x80 ||| cp >>> 12 &&& 0x3f).toUInt8,
      (0x80 ||| cp >>> 6 &&& 0x3f).toUInt8, (0x80 ||| cp &&& 0x3f).toUInt8]

/-- The second half of a surrogate pair: another escape with a code point from `dc00` to `dfff`. -/
def lowSurrogate (text : Text) : Option ℕ :=
  if text.length < 6 ∨ text.take 2 ≠ [92, 117] then none
  else (parseHex ((text.drop 2).take 4)).filter fun v => 0xdc00 ≤ v ∧ v ≤ 0xdfff

/-- The loop of `spa_json_parse_stringn` after the first quote. A string does not end inside of an
escape. -/
def unescape : ℕ → Text → Text
  | 0, _ | _, [] => []
  | n + 1, c :: rest =>
    if c = 34 then []
    else if c ≠ 92 then c :: unescape n rest
    else
      match rest with
      | [] => []
      | e :: rest =>
        if e = 110 then 10 :: unescape n rest
        else if e = 114 then 13 :: unescape n rest
        else if e = 98 then 8 :: unescape n rest
        else if e = 116 then 9 :: unescape n rest
        else if e = 102 then 12 :: unescape n rest
        else if e = 117 then
          -- four digits, or the letter stands for itself
          match if rest.length < 4 then none else parseHex (rest.take 4) with
          | none => e :: unescape n rest
          | some cp =>
            if 0xd800 ≤ cp ∧ cp ≤ 0xdbff then
              match lowSurrogate (rest.drop 4) with
              | none => unescape n (rest.drop 4)
              | some v =>
                encodeUtf8 (0x10000 + ((cp &&& 0x3ff) <<< 10 ||| (v &&& 0x3ff))) ++
                  unescape n (rest.drop 10)
            else if 0xdc00 ≤ cp ∧ cp ≤ 0xdfff then unescape n (rest.drop 4)
            else encodeUtf8 cp ++ unescape n (rest.drop 4)
        else e :: unescape n rest

/-- `spa_json_is_string`. -/
def isString (value : Text) (len : ℕ) : Bool := 1 < len && value.head? = some 34

def cString (text : Text) : Text := text.takeWhile (· ≠ 0)

/-- `spa_json_parse_stringn`, into a buffer of `maxlen` bytes: `none` is `-ENOSPC`. -/
def parseStringn (value : Text) (len maxlen : ℕ) : Option Text :=
  if maxlen ≤ len then none
  else if isString value len then
    some (cString (unescape len ((tokenBytes value len).drop 1)))
  else some (cString (tokenBytes value len))

/-- `spa_json_parse_int`; `strtol` answers a number and how many bytes it has read. -/
def parseInt (strtol : Text → Int × ℕ) (value : Text) (len : ℕ) : Option Int :=
  if len = 0 ∨ 64 ≤ len then none
  else
    let r := strtol (tokenBytes value len)
    if r.2 = len then some r.1 else none

/-! ## Containers -/

/-- `spa_json_enter_container`, with the iterator afterwards: 1 is the iterator of the container,
and any other outcome ends the caller's loop. -/
def enterContainer (it : Iter) (array : Bool) : Option Iter × Iter :=
  match next it with
  | (.token value _, it') =>
    (if container value = some array then some (enter it') else none, it')
  | (_, it') => (none, it')

/-- `spa_json_begin_object`. -/
def beginObject (data : Text) : Option Iter := (enterContainer (init data) false).1

/-- The outcome of `spa_json_object_next`: a member, or what ended the search. -/
inductive Member
  | member (key value : Text) (len : ℕ)
  | stop (o : Outcome)
deriving DecidableEq

/-- `spa_json_object_next`, with a buffer of `maxlen` bytes for the key. A member whose key does not
fit is skipped. -/
def objectNext (maxlen : ℕ) : ℕ → Iter → Member × Iter
  | 0, it => (.stop .finish, it)
  | n + 1, it =>
    match next it with
    | (.token k l, it₁) =>
      match next it₁ with
      | (.token value len, it₂) =>
        match parseStringn k l maxlen with
        | some key => (.member key value len, it₂)
        | none => objectNext maxlen n it₂
      | (o, it₂) => (.stop o, it₂)
    | (o, it₁) => (.stop o, it₁)

end PipeWireAO.Json
