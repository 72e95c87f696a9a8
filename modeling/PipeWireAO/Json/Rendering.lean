import PipeWireAO.Json.Reading

/-!
# Relaxed renderings

How a tree may be written: between tokens there may be any blanks, commas and comments, a key is
followed by a colon, an equal sign, or only space, and scalars are strings in quotes or bare words.
The tokenizer finds each token of a container, and goes over a container inside of it.
-/

namespace PipeWireAO.Json

open List

/-! ## Texts -/

/-- What stands between tokens: blanks, commas, comments up to the end of a line and, after a key,
separators. -/
inductive Gap (separators : Bool) : Text → Prop
  | nil : Gap separators []
  | blank {c : UInt8} {rest : Text} (hc : classify c = .blank) (h : Gap separators rest) :
    Gap separators (c :: rest)
  | comment {body rest : Text} {newline : UInt8} (hbody : ∀ c ∈ body, c ≠ 10 ∧ c ≠ 13)
    (hend : newline = 10 ∨ newline = 13) (h : Gap separators rest) :
    Gap separators (35 :: (body ++ newline :: rest))
  | separator {c : UInt8} {rest : Text} (hsep : separators = true) (hc : classify c = .separator)
    (h : Gap separators rest) : Gap separators (c :: rest)

/-- The bytes between the quotes of a string. -/
inductive StringBody : Text → Prop
  | nil : StringBody []
  | plain {c : UInt8} {rest : Text} (hc : 32 ≤ c ∧ c ≤ 127 ∧ c ≠ 34 ∧ c ≠ 92)
    (h : StringBody rest) : StringBody (c :: rest)
  | escape {c : UInt8} {rest : Text} (hc : c ∈ escapes) (h : StringBody rest) :
    StringBody (92 :: c :: rest)
  | utf8 {c : UInt8} {more rest : Text} (hmore : ∀ d ∈ more, 128 ≤ d ∧ d ≤ 191)
    (hc : (240 ≤ c ∧ c ≤ 247 ∧ more.length = 3) ∨ (224 ≤ c ∧ c ≤ 239 ∧ more.length = 2) ∨
      (192 ≤ c ∧ c ≤ 223 ∧ more.length = 1)) (h : StringBody rest) :
    StringBody (c :: (more ++ rest))

/-- A word without quotes. -/
def Bare (token : Text) : Prop := token ≠ [] ∧ ∀ c ∈ token, classify c = .plain

def Quoted (token : Text) : Prop := ∃ body, StringBody body ∧ token = 34 :: (body ++ [34])

/-- A byte that ends a word. -/
def Class.ends : Class → Bool
  | .blank | .separator | .comment | .quote | .opening _ | .closing _ => true
  | .backslash | .plain | .invalid => false

/-- A word ends where the text `rest` begins. -/
def Ends (rest : Text) : Prop := ∀ c ∈ rest.head?, (classify c).ends = true

/-- A scalar, before the text `rest`: quoted, or bare where the word ends. -/
def Token (token rest : Text) : Prop := Quoted token ∨ (Bare token ∧ Ends rest)

/-- The brackets. -/
def opening (array : Bool) : UInt8 := if array then 91 else 123

@[inherit_doc opening]
def closing (array : Bool) : UInt8 := if array then 93 else 125

@[simp] theorem classify_opening (array : Bool) : classify (opening array) = .opening array := by
  cases array <;> rfl

@[simp] theorem classify_closing (array : Bool) : classify (closing array) = .closing array := by
  cases array <;> rfl

/-- The text of the rest of a container, up to its closing bracket; after a `key` of an object, a
value is next. -/
inductive Renders : (array key : Bool) → List Value → Text → Prop
  | nil {array : Bool} {gap : Text} (hgap : Gap false gap) : Renders array false [] gap
  | text {array key : Bool} {gap token rest : Text} {items : List Value}
    (hkey : array = true → key = false) (hgap : Gap key gap) (htoken : Token token rest)
    (h : Renders array (!array && !key) items rest) :
    Renders array key (.text token :: items) (gap ++ (token ++ rest))
  | node {array key inner : Bool} {gap body rest : Text} {children items : List Value}
    (hkey : array = true → key = false) (hvalue : array = false → key = true) (hgap : Gap key gap)
    (hbody : Renders inner false children body) (h : Renders array false items rest) :
    Renders array key (.node inner children :: items)
      (gap ++ (opening inner :: (body ++ (closing inner :: rest))))

/-! ## Depth -/

mutual
/-- How deep a value is nested. -/
def Value.depth : Value → ℕ
  | .text _ => 0
  | .node _ items => Value.depthAll items + 1

@[inherit_doc Value.depth]
def Value.depthAll : List Value → ℕ
  | [] => 0
  | v :: vs => max (Value.depth v) (Value.depthAll vs)
end

/-! ## The parts of a text -/

section Parts

variable {p : Bool} {s : State} {v token rest : Text}

theorem scan_gap {separators : Bool} {gap : Text} (h : Gap separators gap) (rest : Text)
    (hm : s.mode = .struct)
    (hsep : separators = true → s.array = false ∧ s.key = true ∧ s.sub = true) :
    scan p s v (gap ++ rest) = scan p s v rest := by
  induction h with
  | nil => rfl
  | blank hc _ ih =>
    rw [cons_append, scan, byte, hm]
    simp only [structByte, hc]
    exact ih
  | @comment body rest' newline hbody hend _ ih =>
    have hcomment : ∀ body : Text, (∀ c ∈ body, c ≠ 10 ∧ c ≠ 13) →
        scan p { s with mode := .comment } v (body ++ newline :: (rest' ++ rest)) =
          scan p s v (rest' ++ rest) := by
      intro body hbody
      induction body with
      | nil =>
        rw [nil_append, scan, byte]
        simp only [hend, if_true]
        rw [← hm]
      | cons c body ihb =>
        obtain ⟨h₁, h₂⟩ := hbody c mem_cons_self
        rw [cons_append, scan, byte]
        simp only [h₁, h₂, or_self, if_false]
        exact ihb fun d hd => hbody d (mem_cons_of_mem c hd)
    have hclass : classify 35 = .comment := by decide
    rw [cons_append, scan, byte, hm]
    simp only [structByte, hclass, append_assoc, cons_append]
    exact (hcomment body hbody).trans ih
  | @separator c _ hs hc _ ih =>
    obtain ⟨harray, hkey, hsub⟩ := hsep hs
    have hstays : ({ s with sub := true } : State) = s := by rw [← hsub]
    have hbyte : structByte s c = .go s := by
      simp only [structByte, hc, harray, hkey, Bool.false_eq_true, if_false, Bool.not_true]
      exact congrArg Move.go (by rw [← hkey, ← harray] at *; exact hstays)
    rw [cons_append, scan, byte, hm]
    simp only [hbyte]
    exact ih

theorem scan_utf8 {more : Text} (hmore : ∀ d ∈ more, 128 ≤ d ∧ d ≤ 191) (hne : more ≠ [])
    (rest : Text) : scan p { s with mode := .utf8 more.length } v (more ++ rest) =
      scan p { s with mode := .string } v rest := by
  induction more with
  | nil => exact absurd rfl hne
  | cons d more ih =>
    have hd := hmore d mem_cons_self
    rw [cons_append, scan, byte]
    simp only [hd, and_self, if_true, length_cons]
    cases more with
    | nil => rfl
    | cons d' more =>
      exact ih (fun x hx => hmore x (mem_cons_of_mem d hx)) (by simp)

theorem scan_string {body : Text} (h : StringBody body) (rest : Text) (hm : s.mode = .string) :
    scan p s v (body ++ rest) = scan p s v rest := by
  induction h with
  | nil => rfl
  | @plain c _ hc _ ih =>
    obtain ⟨h₁, h₂, h₃, h₄⟩ := hc
    have h₅ : ¬ (240 ≤ c ∧ c ≤ 247) := fun h => absurd (UInt8.le_trans h.1 h₂) (by decide)
    have h₆ : ¬ (224 ≤ c ∧ c ≤ 239) := fun h => absurd (UInt8.le_trans h.1 h₂) (by decide)
    have h₇ : ¬ (192 ≤ c ∧ c ≤ 223) := fun h => absurd (UInt8.le_trans h.1 h₂) (by decide)
    rw [cons_append, scan, byte, hm]
    simp only [stringByte, h₃, h₄, h₅, h₆, h₇, h₁, h₂, and_self, if_true, if_false]
    exact ih
  | escape hc _ ih =>
    rw [cons_append, scan, byte, hm]
    simp only [stringByte, if_true, cons_append]
    rw [scan, byte]
    simp only [hc, if_true]
    rw [← hm]
    exact ih
  | @utf8 c more rest' hmore hc _ ih =>
    have hlead : stringByte s c = .go { s with mode := .utf8 more.length } := by
      unfold stringByte
      rcases hc with ⟨h₁, h₂, h₃⟩ | ⟨h₁, h₂, h₃⟩ | ⟨h₁, h₂, h₃⟩
      all_goals
        rw [h₃]
        have hne₁ : c ≠ 92 := by
          rintro rfl
          exact absurd h₁ (by decide)
        have hne₂ : c ≠ 34 := by
          rintro rfl
          exact absurd h₁ (by decide)
        rw [if_neg hne₁, if_neg hne₂]
      · rw [if_pos ⟨h₁, h₂⟩]
      · rw [if_neg fun h => absurd (UInt8.le_trans h.1 h₂) (by decide), if_pos ⟨h₁, h₂⟩]
      · rw [if_neg fun h => absurd (UInt8.le_trans h.1 h₂) (by decide),
          if_neg fun h => absurd (UInt8.le_trans h.1 h₂) (by decide), if_pos ⟨h₁, h₂⟩]
    have hne : more ≠ [] := by
      rintro rfl
      simp at hc
    rw [cons_append, scan, byte, hm]
    simp only [hlead, append_assoc]
    rw [scan_utf8 hmore hne, ← hm]
    exact ih

/-- After a token: it is returned, unless it is inside of a container that is passed over. -/
def afterToken (p : Bool) (s : State) (value rest : Text) : Outcome × Iter :=
  if s.outer = [] then (.token value (value.length - rest.length), ⟨rest, p, .ok s⟩)
  else scan p s value rest

/-- **A string.** -/
theorem scan_quoted (h : Quoted token) (rest : Text) (hm : s.mode = .struct) :
    scan p s v (token ++ rest) =
      afterToken p { s.alternate with mode := .struct } (token ++ rest) rest := by
  obtain ⟨body, hbody, rfl⟩ := h
  have hclass : classify 34 = .quote := by decide
  have houter : (s.alternate).outer = s.outer := rfl
  rw [cons_append, scan, byte, hm]
  simp only [structByte, hclass, append_assoc, singleton_append]
  rw [scan_string hbody (34 :: rest) rfl, scan, byte]
  have hne : ¬ (34 : UInt8) = 92 := by decide
  simp only [stringByte, afterToken, houter, if_neg hne, if_true]
  split_ifs with hnil <;> rfl

theorem scan_ends (hrest : rest ≠ []) (h : Ends rest) (hm : s.mode = .bare) :
    scan p s v rest = afterToken p { s with mode := .struct } v rest := by
  cases rest with
  | nil => exact absurd rfl hrest
  | cons c cs =>
    have hc := h c rfl
    have hbyte : byte s c = if s.outer = [] then .word { s with mode := .struct }
        else structByte { s with mode := .struct } c := by
      rw [byte, hm]
      simp only [bareByte]
      cases hclass : classify c with
      | plain | backslash | invalid =>
        rw [hclass] at hc
        cases hc
      | blank | separator | comment | quote | opening | closing => rfl
    unfold afterToken
    rw [scan, hbyte]
    by_cases houter : s.outer = []
    · rw [if_pos houter, if_pos houter]
    · rw [if_neg houter, if_neg houter]
      rfl

theorem scan_plain {word : Text} (hword : ∀ c ∈ word, classify c = .plain) (rest : Text)
    (hm : s.mode = .bare) : scan p s v (word ++ rest) = scan p s v rest := by
  induction word with
  | nil => rfl
  | cons c word ih =>
    rw [cons_append, scan, byte, hm]
    simp only [bareByte, hword c mem_cons_self]
    exact ih fun d hd => hword d (mem_cons_of_mem c hd)

/-- **A word.** -/
theorem scan_word (h : Bare token) (hrest : rest ≠ []) (hends : Ends rest) (hm : s.mode = .struct) :
    scan p s v (token ++ rest) =
      afterToken p { s.alternate with mode := .struct } (token ++ rest) rest := by
  obtain ⟨hne, hplain⟩ := h
  cases token with
  | nil => exact absurd rfl hne
  | cons c word =>
    rw [cons_append, scan, byte, hm]
    simp only [structByte, hplain c mem_cons_self]
    rw [scan_plain (fun d hd => hplain d (mem_cons_of_mem c hd)) rest rfl,
      scan_ends hrest hends rfl]

/-- **A scalar**, in a text that goes on. -/
theorem scan_scalar (h : Token token rest) (tail : Text) (htail : rest ++ tail ≠ [])
    (hends : Ends tail) (hm : s.mode = .struct) : scan p s v (token ++ (rest ++ tail)) =
      afterToken p { s.alternate with mode := .struct } (token ++ (rest ++ tail)) (rest ++ tail) := by
  rcases h with h | ⟨h, hrest⟩
  · exact scan_quoted h _ hm
  · refine scan_word h htail ?_ hm
    cases rest with
    | nil => exact hends
    | cons c cs => exact hrest

end Parts

/-! ## Containers -/

section Containers

variable {array key : Bool} {items : List Value} {text : Text} {p : Bool}

theorem ends_closing (array : Bool) (rest : Text) : Ends (closing array :: rest) := by
  intro c hc
  obtain rfl : closing array = c := Option.some.inj hc
  rw [classify_closing]
  rfl

theorem Renders.noKey (h : Renders array key items text) : array = true → key = false := by
  cases h with
  | nil => exact fun _ => rfl
  | text hkey | node hkey => exact hkey

theorem alternate_key (h : array = true → key = false) :
    (if array = true then key else !key) = (!array && !key) := by
  cases array with
  | false => rfl
  | true => exact h rfl

theorem separators_ok (hkey : array = true → key = false) :
    key = true → array = false ∧ key = true ∧ true = true := by
  intro hk
  refine ⟨?_, hk, rfl⟩
  cases array with
  | false => rfl
  | true =>
    rw [hkey rfl] at hk
    cases hk

variable {gap : Text} {outer : List Bool} {v : Text}

theorem scan_text {token rest : Text} (hkey : array = true → key = false) (hgap : Gap key gap)
    (htoken : Token token rest) (tail : Text) : scan p ⟨.struct, array, key, true, outer⟩ v
        ((gap ++ (token ++ rest)) ++ closing array :: tail) =
      afterToken p ⟨.struct, array, !array && !key, true, outer⟩
        (token ++ (rest ++ closing array :: tail)) (rest ++ closing array :: tail) := by
  have hne : rest ++ closing array :: tail ≠ [] := by simp
  rw [append_assoc, scan_gap hgap _ rfl (separators_ok hkey), append_assoc,
    scan_scalar htoken _ hne (ends_closing array tail) rfl]
  simp only [State.alternate, Bool.true_or, alternate_key hkey]

theorem scan_opening {inner : Bool} (hkey : array = true → key = false)
    (hvalue : array = false → key = true) (hgap : Gap key gap) (tail : Text) :
    scan p ⟨.struct, array, key, true, outer⟩ v (gap ++ opening inner :: tail) = if outer = [] then
        (.token (opening inner :: tail) 1, ⟨tail, p, .ok ⟨.struct, inner, false, true, [array]⟩⟩)
      else if maxStack < outer.length then
        (.error .tooDeepNesting, ⟨opening inner :: tail, p, .error .tooDeepNesting⟩)
      else scan p ⟨.struct, inner, false, true, array :: outer⟩ (opening inner :: tail) tail := by
  have hdue : (!array && true && !key) = false := by
    cases array with
    | false => simp [hvalue rfl]
    | true => rfl
  have hclear : (array && key) = false := by
    cases array with
    | false => rfl
    | true => exact hkey rfl
  rw [scan_gap hgap _ rfl (separators_ok hkey), scan, byte]
  simp only [structByte, classify_opening, openBracket, hdue, hclear, Bool.false_eq_true, if_false]
  by_cases hnil : outer = []
  · subst hnil
    rfl
  · split_ifs <;> rfl

theorem scan_closing (hgap : Gap false gap) (tail : Text) :
    scan p ⟨.struct, array, false, true, outer⟩ v (gap ++ closing array :: tail) =
      match outer with
      | [] =>
        if p then (.close, ⟨closing array :: tail, p, .ok (between array false)⟩)
        else (.error .mismatchedBracket, ⟨closing array :: tail, p, .error .mismatchedBracket⟩)
      | a :: outer =>
        if maxStack < outer.length then
          (.error .tooDeepNesting, ⟨closing array :: tail, p, .error .tooDeepNesting⟩)
        else scan p ⟨.struct, a, false, true, outer⟩ v tail := by
  have hmatch : (array && !array) = false ∧ (!array && array) = false := by simp
  rw [scan_gap hgap _ rfl nofun, scan, byte]
  simp only [structByte, classify_closing, closeBracket, hmatch.1, hmatch.2, Bool.false_eq_true,
    if_false]
  cases outer with
  | nil => rfl
  | cons a outer =>
    dsimp only
    split_ifs <;> rfl

theorem scan_last (a : Bool) (outer : List Bool) (v w tail : Text) :
    scan p ⟨.struct, a, false, true, outer⟩ v tail =
      scan p ⟨.struct, a, false, true, outer⟩ w tail :=
  scan_value v w ⟨by simp, rfl, fun _ => rfl⟩ (by simp [State.busy])

/-- **Going over a container.** The tokenizer is `outer.length` containers deep around the one that
the text is in. -/
theorem Renders.skip (h : Renders array key items text) (a : Bool) (outer : List Bool)
    (v tail : Text) (hdepth : Value.depthAll items + outer.length ≤ maxStack) :
    scan p ⟨.struct, array, key, true, a :: outer⟩ v (text ++ closing array :: tail) =
      scan p ⟨.struct, a, false, true, outer⟩ v tail := by
  induction h generalizing a outer v tail with
  | nil hgap =>
    rw [scan_closing hgap]
    exact if_neg (by omega)
  | text hkey hgap htoken h ih =>
    have hdepth' := Nat.le_trans (Nat.add_le_add_right (Nat.le_max_right _ _) _) hdepth
    rw [scan_text hkey hgap htoken, afterToken, if_neg (cons_ne_nil a outer),
      ih a outer _ tail hdepth']
    exact scan_last ..
  | @node array key inner gap body rest children items hkey hdue hgap hbody h ihbody ih =>
    rw [Value.depthAll, Value.depth] at hdepth
    have hitems := Nat.le_trans (Nat.add_le_add_right (Nat.le_max_right _ _) _) hdepth
    have hdeep : Value.depthAll children + (a :: outer).length ≤ maxStack := by
      rw [length_cons]
      omega
    have hroom : ¬ maxStack < (a :: outer).length := by omega
    rw [append_assoc, cons_append, scan_opening hkey hdue hgap,
      if_neg (cons_ne_nil a outer), if_neg hroom, append_assoc, cons_append,
      ihbody array (a :: outer) _ _ hdeep, ih a outer _ tail hitems]
    exact scan_last ..

end Containers

end PipeWireAO.Json
