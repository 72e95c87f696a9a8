import PipeWireAO.Pod.Parser

/-!
# The frames of a parser are nested

The sizes in pods come from whoever wrote them. A parser stays inside of its data and of its current
frame all the same: each size is compared with the block around it before it is trusted.

The invariant is that the frames are nested: each one ends, with its padding, in the one around it. No
offset in them leaves a word of 32 bits, so that the parser is the same on unbounded numbers.
-/

namespace PipeWireAO.Pod

/-! ## Frames -/

/-- Where the current frame begins. -/
def lower : List Frame → ℕ
  | [] => 0
  | f :: _ => f.offset

/-- Where the current frame ends. -/
def upper (size : ℕ) : List Frame → ℕ
  | [] => size
  | f :: _ => f.offset + (8 + f.pod.size)

/-- Each frame ends in the one around it. -/
def Nested (size : ℕ) : List Frame → Prop
  | [] => True
  | f :: fs =>
    lower fs ≤ f.offset ∧ f.offset + (8 + align f.pod.size) ≤ upper size fs ∧ f.pod.size < 2 ^ 32 ∧
      (f.pod.type = Kind.object.number → 8 ≤ f.pod.size) ∧ Nested size fs

/-- A conversion that keeps the words of 32 bits. -/
def Exact (u32 : ℕ → ℕ) : Prop := ∀ n, n < 2 ^ 32 → u32 n = n

theorem exact_wrap32 : Exact wrap32 := fun _ h => wrap32_eq h

theorem exact_id : Exact id := fun _ _ => rfl

/-- **The invariant of a parser**: its data is in memory and its offset in the current frame. -/
structure Parser.Inside (m : Memory) (p : Parser) : Prop where
  holds : m.Holds p.data p.size
  nested : Nested p.size p.frame
  lower : lower p.frame ≤ p.offset
  upper : p.offset ≤ upper p.size p.frame

variable {n body size k o : ℕ} {fs : List Frame} {pod : Header} {e : Error} {u32' : ℕ → ℕ}
  {f : Frame} {p' : Parser}

theorem align_size (h : n < 2 ^ 33) : n ≤ align n ∧ align n < n + 8 ∧ align n % 8 = 0 := by
  rw [align_eq (by omega)]
  omega

theorem align_add (h : n < 2 ^ 32) : align (8 + n) = 8 + align n ∧
    align (16 + n) = 16 + align n := by
  rw [align_eq (by omega), align_eq (by omega), align_eq (by omega)]
  omega

theorem upper_le (h : Nested size fs) : upper size fs ≤ size := by
  induction fs with
  | nil => exact le_rfl
  | cons f fs ih =>
    obtain ⟨-, hend, hlt, -, hfs⟩ := h
    have halign := align_size (n := f.pod.size) (by omega)
    have := ih hfs
    show f.offset + (8 + f.pod.size) ≤ size
    omega

theorem bodyGet_check {m : Memory} {α : Type} {kind : Kind} {value : List UInt8 → α} {a : α}
    (h : bodyGet m kind size value pod body = .ok a) : pod.check kind size = true := by
  by_contra hno
  rw [bodyGet, if_neg hno] at h
  cases h

namespace Parser.Inside

variable {u32 : ℕ → ℕ} {m : Memory} {p : Parser}

theorem size_lt (hp : p.Inside m) : p.size < 2 ^ 32 := by
  obtain ⟨hlo, hhi⟩ := hp.holds
  have hsmall := m.small
  omega

theorem small (hp : p.Inside m) : Pod.upper p.size p.frame < 2 ^ 32 :=
  lt_of_le_of_lt (upper_le hp.nested) hp.size_lt

theorem limit_eq (hu : Exact u32) (hp : p.Inside m) : p.limit u32 = Pod.upper p.size p.frame := by
  have hsmall := hp.small
  unfold Parser.limit
  cases hframe : p.frame with
  | nil => rfl
  | cons f fs =>
    rw [hframe] at hsmall
    exact hu _ hsmall

/-- **A header that is returned** was compared with the end of the frame, padding included. -/
theorem getHeader_ok (hu : Exact u32) (hp : p.Inside m) {bs : List UInt8}
    (h : getHeader u32 m p n k = .ok (bs, body)) : p.offset % 8 = 0 ∧
      p.offset + n + align (Header.ofBytes (bs.drop k)).size ≤ Pod.upper p.size p.frame ∧
      m.Holds (p.data + p.offset) n ∧ bs = m.slice (p.data + p.offset) n ∧
      body = p.data + p.offset + n := by
  rw [getHeader, hp.limit_eq hu, readHeader] at h
  have hsize := upper_le hp.nested
  split_ifs at h with hcheck
  obtain ⟨hle, hmask⟩ := hcheck
  have hmod : p.offset % 8 = 0 := by rwa [show (7 : ℕ) = 2 ^ 3 - 1 from rfl, Nat.and_two_pow_sub_one_eq_mod] at hmask
  rw [hp.holds.ptroff_eq (n := p.offset) (by omega)] at h
  split at h
  · cases h
  · rename_i header hload
    obtain ⟨hholds, hslice⟩ := Memory.load_ok hload
    split_ifs at h with hbody
    cases h
    refine ⟨hmod, hbody, hholds, hslice, ?_⟩
    rw [hp.holds.ptroff_eq (by omega)]
    omega

theorem getHeader_error (hu : Exact u32) (hp : p.Inside m) (h : getHeader u32 m p n k = .error e) :
    e = .code (-ePipe) := by
  rw [getHeader, hp.limit_eq hu, readHeader] at h
  have hsize := upper_le hp.nested
  split_ifs at h with hcheck
  · rw [hp.holds.ptroff_eq (n := p.offset) (by omega), Memory.load_eq] at h
    · dsimp only at h
      split_ifs at h
      cases h
      rfl
    · exact hp.holds.mono (by omega) (by omega)
  · cases h
    rfl

theorem getHeader_congr (hu : Exact u32) (hu' : Exact u32') (hp : p.Inside m)
    (n k : ℕ) : getHeader u32 m p n k = getHeader u32' m p n k := by
  rw [getHeader, getHeader, hp.limit_eq hu, hp.limit_eq hu']

theorem move (hp : p.Inside m) (hlo : Pod.lower p.frame ≤ o) (hhi : o ≤ Pod.upper p.size p.frame) :
    ({ p with offset := o } : Parser).Inside m :=
  ⟨hp.holds, hp.nested, hlo, hhi⟩

/-! ## Pods -/

theorem currentBody_ok (hu : Exact u32) (hp : p.Inside m)
    (h : currentBody u32 m p = .ok (pod, body)) :
    p.offset + (8 + align pod.size) ≤ Pod.upper p.size p.frame ∧
      m.Holds (p.data + p.offset) 8 ∧ pod = Header.ofBytes (m.slice (p.data + p.offset) 8) ∧
      body = p.data + p.offset + 8 := by
  unfold currentBody at h
  cases hget : getHeader u32 m p 8 0 with
  | error e =>
    rw [hget] at h
    cases h
  | ok r =>
    rw [hget] at h
    cases h
    obtain ⟨-, hend, hholds, hslice, hbody⟩ := hp.getHeader_ok hu hget
    rw [List.drop_zero] at hend
    exact ⟨by omega, hholds, by rw [hslice], hbody⟩

theorem currentBody_congr (hu : Exact u32) (hu' : Exact u32') (hp : p.Inside m) :
    currentBody u32 m p = currentBody u32' m p := by
  rw [currentBody, currentBody, hp.getHeader_congr hu hu']

theorem currentBody_error (hu : Exact u32) (hp : p.Inside m)
    (h : currentBody u32 m p = .error e) : e = .code (-ePipe) := by
  unfold currentBody at h
  cases hget : getHeader u32 m p 8 0 with
  | error e' =>
    rw [hget] at h
    cases h
    exact hp.getHeader_error hu hget
  | ok r =>
    rw [hget] at h
    cases h

theorem advance_eq (hu : Exact u32) (hp : p.Inside m) (hs : pod.size < 2 ^ 32)
    (h : p.offset + (8 + align pod.size) ≤ Pod.upper p.size p.frame) :
    advance u32 p pod = { p with offset := p.offset + (8 + align pod.size) } := by
  have hsmall := hp.small
  unfold advance
  rw [(align_add hs).1, hu _ (by omega)]

theorem advance (hp : p.Inside m) (h : p.offset + (8 + align pod.size) ≤ Pod.upper p.size p.frame) :
    ({ p with offset := p.offset + (8 + align pod.size) } : Parser).Inside m :=
  hp.move (le_trans hp.lower (Nat.le_add_right _ _)) h

theorem pop_eq (hu : Exact u32) (hp : p.Inside m) (hf : Nested p.size (f :: fs)) :
    Pod.pop u32 p f fs = { p with offset := f.offset + (8 + align f.pod.size), frame := fs } := by
  obtain ⟨hlo, hhi, hs, -, hfs⟩ := hf
  have hsize := upper_le hfs
  have hsmall := hp.size_lt
  unfold Pod.pop Pod.advance unpush restart
  rw [(align_add hs).1]
  dsimp only
  rw [hu _ (by omega)]

theorem pop (hp : p.Inside m) (hf : Nested p.size (f :: fs)) :
    ({ p with offset := f.offset + (8 + align f.pod.size), frame := fs } : Parser).Inside m := by
  obtain ⟨hlo, hhi, hs, -, hfs⟩ := hf
  refine ⟨hp.holds, hfs, ?_, hhi⟩
  show Pod.lower fs ≤ f.offset + (8 + align f.pod.size)
  omega

theorem enter (hp : p.Inside m) (hs : pod.size < 2 ^ 32)
    (h : p.offset + (8 + align pod.size) ≤ Pod.upper p.size p.frame)
    (hobject : pod.type = Kind.object.number → 8 ≤ pod.size) (hhi : o ≤ 8 + pod.size) :
    ({ push p pod p.offset with offset := p.offset + o } : Parser).Inside m := by
  refine ⟨hp.holds, ⟨hp.lower, h, hs, hobject, hp.nested⟩, Nat.le_add_right _ _, ?_⟩
  · show p.offset + o ≤ p.offset + (8 + pod.size)
    omega

section Push

variable (hu : Exact u32)

include hu

/-- **A struct** that is entered is a pod in the current frame. -/
theorem pushStruct_ok (hp : p.Inside m)
    (h : pushStruct u32 m p = .ok p') : ∃ pod body, currentBody u32 m p = .ok (pod, body) ∧
      pod.check .struct 0 = true ∧
      p' = { push p pod p.offset with offset := p.offset + 8 } ∧ p'.Inside m := by
  unfold pushStruct at h
  cases hcur : currentBody u32 m p with
  | error e =>
    rw [hcur] at h
    cases h
  | ok r =>
    obtain ⟨pod, body⟩ := r
    rw [hcur] at h
    dsimp only at h
    split_ifs at h with hcheck
    obtain ⟨hend, -, hpod, -⟩ := hp.currentBody_ok hu hcur
    have hs : pod.size < 2 ^ 32 := by
      rw [hpod]
      exact Header.size_lt _
    have hsmall := hp.small
    rw [hu _ (by omega)] at h
    cases h
    refine ⟨pod, body, rfl, hcheck, rfl, hp.enter hs hend (fun ho => ?_) (by omega)⟩
    obtain ⟨-, htype, -⟩ := Header.check_eq hcheck
    rw [htype] at ho
    cases ho

theorem pushStruct_error (hp : p.Inside m)
    (h : pushStruct u32 m p = .error e) : ∃ c, e = .code c := by
  unfold pushStruct at h
  cases hcur : currentBody u32 m p with
  | error e' =>
    rw [hcur] at h
    cases h
    exact ⟨_, hp.currentBody_error hu hcur⟩
  | ok r =>
    rw [hcur] at h
    dsimp only at h
    split_ifs at h
    cases h
    exact ⟨_, rfl⟩

/-! ## Properties -/

/-- **An object** that is entered is a pod in the current frame. -/
theorem pushObjectBody_ok (hp : p.Inside m) {object : ObjectBody}
    (h : pushObjectBody u32 m p = .ok (object, p')) : ∃ pod body,
      currentBody u32 m p = .ok (pod, body) ∧ bodyGetObject m pod body = .ok object ∧
      p' = { push p pod p.offset with offset := p.offset + 16 } ∧ p'.Inside m := by
  obtain ⟨⟨pod, body⟩, hcur, h⟩ := Foundation.bind_eq_ok.mp h
  obtain ⟨object', hobject, h⟩ := Foundation.bind_eq_ok.mp h
  cases h
  obtain ⟨hend, -, hpod, -⟩ := hp.currentBody_ok hu hcur
  have hs : pod.size < 2 ^ 32 := by
    rw [hpod]
    exact Header.size_lt _
  obtain ⟨-, -, hle⟩ := Header.check_eq (bodyGet_check hobject)
  have halign := align_size (n := pod.size) (by omega)
  have hsmall := hp.small
  rw [hu _ (by omega)]
  exact ⟨pod, body, hcur, hobject, rfl, hp.enter hs hend (fun _ => hle) (by omega)⟩

theorem pushObjectBody_error (hp : p.Inside m)
    (h : pushObjectBody u32 m p = .error e) : ∃ c, e = .code c := by
  rcases Foundation.bind_eq_error.mp h with hcur | ⟨⟨pod, body⟩, hcur, h⟩
  · exact ⟨_, hp.currentBody_error hu hcur⟩
  · rcases Foundation.bind_eq_error.mp h with hobject | ⟨_, _, h⟩
    · obtain ⟨hend, -, -, hbody⟩ := hp.currentBody_ok hu hcur
      have hsize := upper_le hp.nested
      unfold bodyGetObject bodyGet at hobject
      split_ifs at hobject with hcheck
      · obtain ⟨hmax, -, hle⟩ := Header.check_eq hcheck
        have hpow : maxSize = 2 ^ 20 := rfl
        have halign := align_size (n := pod.size) (by omega)
        rw [hbody, Memory.load_eq] at hobject
        · cases hobject
        · exact hp.holds.mono (by omega) (by omega)
      · cases hobject
        exact ⟨_, rfl⟩
    · cases h

theorem pushObjectBody_congr (hu' : Exact u32') (hp : p.Inside m) :
    pushObjectBody u32 m p = pushObjectBody u32' m p := by
  unfold pushObjectBody
  rw [← hp.currentBody_congr hu hu']
  cases hcur : currentBody u32 m p with
  | error e => rfl
  | ok x =>
    obtain ⟨pod, body⟩ := x
    obtain ⟨hend, -, -, -⟩ := hp.currentBody_ok hu hcur
    simp only [bind, Except.bind]
    cases hobject : bodyGetObject m pod body with
    | error e => rfl
    | ok object =>
      obtain ⟨hmax, -, hle⟩ := Header.check_eq (bodyGet_check hobject)
      have hpow : maxSize = 2 ^ 20 := rfl
      have halign := align_size (n := pod.size) (by omega)
      have hsmall := hp.small
      rw [hu _ (by omega), hu' _ (by omega)]

open Property (ofBytes)

/-- **A property** that is returned lies in the current frame, and the parser behind it. -/
theorem getPropBody_ok (hp : p.Inside m) {prop : Property}
    (h : getPropBody u32 m p = .ok (prop, body, p')) :
    p.offset + (16 + align prop.value.size) ≤ Pod.upper p.size p.frame ∧
      m.Holds (p.data + p.offset) 16 ∧ prop = ofBytes (m.slice (p.data + p.offset) 16) ∧
      body = p.data + p.offset + 16 ∧
      p' = { p with offset := p.offset + (16 + align prop.value.size) } ∧ p'.Inside m := by
  unfold getPropBody at h
  cases hget : getHeader u32 m p 16 8 with
  | error e =>
    rw [hget] at h
    cases h
  | ok r =>
    rw [hget] at h
    cases h
    obtain ⟨-, hend, hholds, hslice, hbody⟩ := hp.getHeader_ok hu hget
    have hend' : p.offset + (16 + align (ofBytes r.1).value.size) ≤
        Pod.upper p.size p.frame := by
      rw [← Nat.add_assoc]
      exact hend
    have hsmall := hp.small
    have halign := (align_add (n := (ofBytes r.1).value.size) (Header.size_lt _)).2
    rw [halign, hu _ (by omega)]
    refine ⟨hend', hholds, by rw [hslice], hbody, rfl, hp.move ?_ hend'⟩
    exact le_trans hp.lower (Nat.le_add_right _ _)

theorem getPropBody_error (hp : p.Inside m)
    (h : getPropBody u32 m p = .error e) : e = .code (-ePipe) := by
  unfold getPropBody at h
  cases hget : getHeader u32 m p 16 8 with
  | error e' =>
    rw [hget] at h
    cases h
    exact hp.getHeader_error hu hget
  | ok r =>
    rw [hget] at h
    cases h

theorem getPropBody_congr (hu' : Exact u32') (hp : p.Inside m) :
    getPropBody u32 m p = getPropBody u32' m p := by
  unfold getPropBody
  rw [← hp.getHeader_congr hu hu']
  cases hget : getHeader u32 m p 16 8 with
  | error e => rfl
  | ok r =>
    obtain ⟨-, hend, -⟩ := hp.getHeader_ok hu hget
    have hsmall := hp.small
    have halign := (align_add (n := (ofBytes r.1).value.size) (Header.size_lt _)).2
    have hlt : p.offset + align (16 + (ofBytes r.1).value.size) < 2 ^ 32 := by
      rw [halign, ← Nat.add_assoc]
      exact lt_of_le_of_lt hend hsmall
    simp only [Except.map, hu _ hlt, hu' _ hlt]

/-- A property of the current frame. -/
def Finds (m : Memory) (p : Parser) (prop : Property) (body : ℕ) : Prop :=
  ∃ o, Pod.lower p.frame ≤ o ∧ o + (16 + align prop.value.size) ≤ Pod.upper p.size p.frame ∧
    prop = ofBytes (m.slice (p.data + o) 16) ∧ body = p.data + o + 16

/-- **The loop over properties ends**: each round goes on by sixteen bytes or more. -/
theorem findLoop_spec (hp : p.Inside m) (stop : Option ℕ) (key : ℕ)
    (hn : (Pod.upper p.size p.frame - p.offset) / 16 < n) :
    ∃ r o k, findLoop u32 m stop key n p = .ok (r, { p with offset := o }, k) ∧
      ({ p with offset := o } : Parser).Inside m ∧
      n ≤ k + (Pod.upper p.size p.frame - p.offset) / 16 + 1 ∧
      ∀ prop body, r = some (prop, body) → Finds m p prop body := by
  induction n generalizing p with
  | zero => omega
  | succ n ih =>
    rw [findLoop]
    split_ifs with hstop
    · exact ⟨none, p.offset, n, rfl, hp, by omega, by simp⟩
    · cases hprop : getPropBody u32 m p with
      | error e =>
        rw [hp.getPropBody_error hu hprop]
        exact ⟨none, p.offset, n, rfl, hp, by omega, by simp⟩
      | ok r =>
        obtain ⟨prop, body, p'⟩ := r
        obtain ⟨hend, -, hslice, hbody, rfl, hp'⟩ := hp.getPropBody_ok hu hprop
        dsimp only
        split_ifs with hkey
        · refine ⟨_, _, n, rfl, hp', by omega, fun prop' body' h => ?_⟩
          cases h
          exact ⟨p.offset, hp.lower, hend, hslice, hbody⟩
        · obtain ⟨r, o, k, hr, hins, hk, hfinds⟩ := ih hp' (by dsimp only; omega)
          dsimp only at hk
          exact ⟨r, o, k, hr, hins, by omega, hfinds⟩

theorem findLoop_congr (hu' : Exact u32') (hp : p.Inside m)
    (stop : Option ℕ) (key n : ℕ) : findLoop u32 m stop key n p = findLoop u32' m stop key n p := by
  induction n generalizing p with
  | zero => rfl
  | succ n ih =>
    rw [findLoop, findLoop, ← hp.getPropBody_congr hu hu']
    cases hprop : getPropBody u32 m p with
    | error e =>
      rw [hp.getPropBody_error hu hprop]
    | ok r =>
      obtain ⟨-, -, -, -, -, hp'⟩ := hp.getPropBody_ok hu hprop
      simp only [ih hp']

theorem first (hp : p.Inside m) (hf : p.frame = f :: fs) (ho : f.pod.type = Kind.object.number) :
    u32 (f.offset + 16) = f.offset + 16 ∧
      ({ p with offset := f.offset + 16 } : Parser).Inside m := by
  have hnested := hp.nested
  have hsmall := hp.small
  rw [hf] at hnested hsmall
  obtain ⟨-, -, -, hobject, -⟩ := hnested
  have hupper : Pod.upper p.size (f :: fs) = f.offset + (8 + f.pod.size) := rfl
  refine ⟨hu _ (by omega), hp.move ?_ ?_⟩
  · rw [hf]
    exact Nat.le_add_right _ _
  · rw [hf]
    omega

omit hu in
theorem fuel (hp : p.Inside m) (hf : p.frame = f :: fs) :
    (Pod.upper p.size p.frame - p.offset) / 16 < rounds f.pod.size := by
  have hlo := hp.lower
  have hupper : Pod.upper p.size p.frame = f.offset + (8 + f.pod.size) := by rw [hf]; rfl
  have hlower : Pod.lower p.frame = f.offset := by rw [hf]; rfl
  unfold rounds
  omega

/-- **The search for a property** ends, and what it finds is in the current frame. -/
theorem findFrom_spec (hp : p.Inside m)
    (hf : p.frame = f :: fs) (ho : f.pod.type = Kind.object.number) (key : ℕ) :
    ∃ r o, findFrom u32 m f key (rounds f.pod.size) p = .ok (r, { p with offset := o }) ∧
      ({ p with offset := o } : Parser).Inside m ∧
      ∀ prop body, r = some (prop, body) → Finds m p prop body := by
  have hlo := hp.lower
  have hupper : Pod.upper p.size p.frame = f.offset + (8 + f.pod.size) := by rw [hf]; rfl
  have hlower : Pod.lower p.frame = f.offset := by rw [hf]; rfl
  obtain ⟨r, o, k, hr, hins, hk, hfinds⟩ := hp.findLoop_spec hu none key (hp.fuel hf)
  unfold findFrom
  rw [hr]
  cases r with
  | some found => exact ⟨some found, o, rfl, hins, hfinds⟩
  | none =>
    -- the first loop took a round for each sixteen bytes at most, which leaves enough for all
    obtain ⟨hfirst, hins'⟩ := hp.first hu hf ho
    have hfuel' : (Pod.upper p.size p.frame - (f.offset + 16)) / 16 < k := by
      unfold rounds at hk
      omega
    obtain ⟨r', o', k', hr', hins'', -, hfinds'⟩ :=
      hins'.findLoop_spec hu (some f.offset) key hfuel'
    refine ⟨r', o', ?_, hins'', hfinds'⟩
    simp only [restart, hfirst, hr']

theorem findFrom_congr (hu' : Exact u32') (hp : p.Inside m)
    (hf : p.frame = f :: fs) (ho : f.pod.type = Kind.object.number)
    (key : ℕ) : findFrom u32 m f key (rounds f.pod.size) p =
      findFrom u32' m f key (rounds f.pod.size) p := by
  obtain ⟨r, o, k, hr, -⟩ := hp.findLoop_spec hu none key (hp.fuel hf)
  obtain ⟨hfirst, hins⟩ := hp.first hu hf ho
  unfold findFrom
  rw [← hp.findLoop_congr hu hu', hr]
  cases r with
  | some found => rfl
  | none => simp only [restart, hfirst, (hp.first hu' hf ho).1, hins.findLoop_congr hu hu']

end Push

end Parser.Inside

end PipeWireAO.Pod
