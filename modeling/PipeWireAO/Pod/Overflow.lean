import PipeWireAO.Pod.Builder

/-!
# Builders that run out of room

A builder does not stop at an error. It goes on counting what does not fit, and the frames and the
offset tell at the end that something is missing. `Text` is what a builder writes if it has room for
everything: the size in the header of a container is the number of the bytes behind it.
-/

namespace PipeWireAO.Pod

open List
open Foundation (toLe roundUp)

/-- `spa_pod_builder_corrupted`. -/
def Builder.corrupted (b : Builder) : Bool := b.data.length < b.offset

/-- `spa_pod_builder_write_string`. -/
def writeString (b : Builder) (s : List UInt8) : Int × Builder :=
  let (res, b) := raw b s
  let (r, b) := raw b [0]
  let res := andRes res r
  let (r, b) := pad b b.offset
  (andRes res r, b)

/-- What `spa_pod_builder_pop` returns: where the frame is, or `NULL`. -/
def popResult (b : Builder) : Option ℕ :=
  let b := if b.flags.first then (raw b (Header.bytes ⟨0, Kind.none.number⟩)).2 else b
  match b.frame with
  | [] => none
  | f :: _ => if f.offset + (8 + f.pod.size) ≤ b.data.length then some f.offset else none

/-- Calls of a builder: a container is opened, a value is written with its header, bytes are written
with padding or without, and a container is closed. -/
inductive Call
  | push (kind : Kind) (extra : List UInt8)
  | value (header body suffix : List UInt8)
  | string (s : List UInt8)
  | child (pod : Header)
  | raw (bs : List UInt8)
  | rawPadded (bs : List UInt8)
  | pad (n : BitVec 32)
  | pop

/-- A call, and whether it has failed: it returns an error, or `NULL`. -/
def Call.run (b : Builder) : Call → Bool × Builder
  | .push kind extra =>
    ((Pod.raw b (Header.bytes ⟨extra.length, kind.number⟩ ++ extra)).1 < 0, pushContainer b kind extra)
  | .value header body suffix =>
    ((primitiveBody b header body suffix).1 < 0, (primitiveBody b header body suffix).2)
  | .string s => ((writeString b s).1 < 0, (writeString b s).2)
  | .child pod => ((builderChild b pod).1 < 0, (builderChild b pod).2)
  | .raw bs => ((Pod.raw b bs).1 < 0, (Pod.raw b bs).2)
  | .rawPadded bs => ((Pod.rawPadded b bs).1 < 0, (Pod.rawPadded b bs).2)
  | .pad n => ((Pod.pad b n.toNat).1 < 0, (Pod.pad b n.toNat).2)
  | .pop => (popResult b = none, builderPop b)

/-- Calls, and whether one of them has failed. -/
def runOps (b : Builder) : List Call → Bool × Builder
  | [] => (false, b)
  | op :: ops => ((op.run b).1 || (runOps (op.run b).2 ops).1, (runOps (op.run b).2 ops).2)

/-! ## The text -/

/-- What was written, with the containers that are open: where they are, their type, and the flags
outside of them. -/
structure Text where
  bytes : List UInt8
  flags : Flags
  opened : List (ℕ × ℕ × Flags)
  deriving DecidableEq

namespace Text

/-- Nothing was written. -/
def empty : Text := ⟨[], ⟨false, false⟩, []⟩

def put (t : Text) (bs : List UInt8) : Text := { t with bytes := t.bytes ++ bs }

/-- `n` bytes are padded, outside of arrays and choices. -/
def fill (t : Text) (n : ℕ) : Text := if t.flags = ⟨true, false⟩ then t else t.put (padding n)

/-- The values of an array or a choice have begun. -/
def begun (t : Text) : Text := { t with flags := { t.flags with first := false } }

/-- The last container is closed: its header tells how many bytes are behind it. -/
def close (t : Text) : Text :=
  match t.opened with
  | [] => t
  | (offset, type, flags) :: opened =>
    let bytes := write t.bytes offset (Header.bytes ⟨t.bytes.length - (offset + 8), type⟩)
    fill ⟨bytes, flags, opened⟩ bytes.length

def step (t : Text) : Call → Text
  | .push kind extra =>
    { t.put (Header.bytes ⟨extra.length, kind.number⟩ ++ extra) with
      opened := (t.bytes.length, kind.number, t.flags) :: t.opened
      flags :=
        if kind.number = Kind.array.number ∨ kind.number = Kind.choice.number then ⟨true, true⟩
        else t.flags }
  | .value header body suffix =>
    let t := if t.flags = ⟨true, false⟩ then t else t.begun.put header
    let t := (t.put body).put suffix
    t.fill t.bytes.length
  | .string s =>
    let t := (t.put s).put [0]
    t.fill t.bytes.length
  | .child pod => t.begun.put pod.bytes
  | .raw bs => t.put bs
  | .rawPadded bs => (t.put bs).fill bs.length
  | .pad n => t.fill n.toNat
  | .pop => close (if t.flags.first then t.put (Header.bytes ⟨0, Kind.none.number⟩) else t)

def steps (t : Text) (ops : List Call) : Text := ops.foldl step t

end Text

section Text

variable {t : Text}

/-- The headers of the open containers are in the text. -/
def Text.Inside (t : Text) : Prop := ∀ o ∈ t.opened, o.1 + 8 ≤ t.bytes.length

theorem Text.length_put (t : Text) (bs : List UInt8) :
    (t.put bs).bytes.length = t.bytes.length + bs.length :=
  length_append

theorem Text.le_put (t : Text) (bs : List UInt8) : t.bytes.length ≤ (t.put bs).bytes.length := by
  rw [length_put]
  exact Nat.le_add_right _ _

theorem Text.le_fill (t : Text) (n : ℕ) : t.bytes.length ≤ (t.fill n).bytes.length := by
  unfold fill
  split_ifs
  · exact Nat.le_refl _
  · exact t.le_put _

theorem Text.Inside.put (h : t.Inside) (bs : List UInt8) : (t.put bs).Inside := fun o ho =>
  Nat.le_trans (h o ho) (t.le_put bs)

theorem Text.Inside.fill (h : t.Inside) (n : ℕ) : (t.fill n).Inside := by
  unfold Text.fill
  split_ifs
  · exact h
  · exact h.put _

theorem Text.Inside.begun (h : t.Inside) : t.begun.Inside := h

theorem Text.Inside.close (h : t.Inside) :
    t.close.Inside ∧ t.bytes.length ≤ t.close.bytes.length := by
  obtain ⟨bytes, flags, opened⟩ := t
  cases opened with
  | nil => exact ⟨h, Nat.le_refl _⟩
  | cons o opened =>
    have ho := h o mem_cons_self
    have hlen : (write bytes o.1 (Header.bytes ⟨bytes.length - (o.1 + 8), o.2.1⟩)).length =
        bytes.length := length_write (by rw [length_bytes]; exact ho)
    have hin : Text.Inside
        ⟨write bytes o.1 (Header.bytes ⟨bytes.length - (o.1 + 8), o.2.1⟩), o.2.2, opened⟩ := by
      intro o' ho'
      rw [hlen]
      exact h o' (mem_cons_of_mem o ho')
    refine ⟨hin.fill _, ?_⟩
    calc bytes.length = _ := hlen.symm
      _ ≤ _ := Text.le_fill ⟨write bytes o.1 _, o.2.2, opened⟩ _

theorem Text.Inside.step (h : t.Inside) (op : Call) :
    (t.step op).Inside ∧ t.bytes.length ≤ (t.step op).bytes.length := by
  cases op with
  | push kind extra =>
    refine ⟨?_, t.le_put _⟩
    intro o ho
    rcases mem_cons.mp ho with rfl | ho
    · show t.bytes.length + 8 ≤ (t.bytes ++ (Header.bytes _ ++ extra)).length
      rw [length_append, length_append, length_bytes]
      omega
    · exact h.put _ o ho
  | value header body suffix =>
    have hhead : (if t.flags = ⟨true, false⟩ then t else t.begun.put header).Inside ∧
        t.bytes.length ≤ (if t.flags = ⟨true, false⟩ then t else t.begun.put header).bytes.length := by
      split_ifs
      · exact ⟨h, Nat.le_refl _⟩
      · exact ⟨h.begun.put _, t.begun.le_put _⟩
    exact ⟨((hhead.1.put _).put _).fill _, Nat.le_trans hhead.2 (Nat.le_trans (Text.le_put _ _)
      (Nat.le_trans (Text.le_put _ _) (Text.le_fill _ _)))⟩
  | string s =>
    exact ⟨((h.put _).put _).fill _,
      Nat.le_trans (t.le_put _) (Nat.le_trans (Text.le_put _ _) (Text.le_fill _ _))⟩
  | child pod => exact ⟨h.begun.put _, t.begun.le_put _⟩
  | raw bs => exact ⟨h.put _, t.le_put _⟩
  | rawPadded bs => exact ⟨(h.put _).fill _, Nat.le_trans (t.le_put _) (Text.le_fill _ _)⟩
  | pad n => exact ⟨h.fill _, t.le_fill _⟩
  | pop =>
    simp only [Text.step]
    split_ifs
    · exact ⟨(h.put _).close.1, Nat.le_trans (t.le_put _) (h.put _).close.2⟩
    · exact h.close

theorem Text.Inside.steps (h : t.Inside) (ops : List Call) :
    t.bytes.length ≤ (t.steps ops).bytes.length := by
  induction ops generalizing t with
  | nil => exact Nat.le_refl _
  | cons op ops ih => exact Nat.le_trans (h.step op).2 (ih (h.step op).1)

end Text

/-! ## Following the text -/

/-- A builder has written a text, as far as there was room. The frames have the sizes that the headers
will tell. -/
structure Follows (b : Builder) (t : Text) : Prop where
  offset : b.offset = t.bytes.length
  flags : b.flags = t.flags
  frame : b.frame = t.opened.map fun o => ⟨⟨t.bytes.length - (o.1 + 8), o.2.1⟩, o.1, o.2.2⟩
  inside : t.Inside
  bytes : b.offset ≤ b.data.length → b.data.take b.offset = t.bytes

/-- What a call leaves behind: if it has failed, then the offset tells. -/
structure Tells (capacity : ℕ) (r : Int × Builder) (t : Text) : Prop where
  follows : Follows r.2 t
  length : r.2.data.length = capacity
  error : r.1 < 0 → r.2.data.length < r.2.offset

section Calls

variable {b : Builder} {t : Text} {bs d : List UInt8} {capacity n o : ℕ} {r : Int × Builder}

theorem take_write (h : o ≤ d.length) : (write d o bs).take (o + bs.length) = d.take o ++ bs := by
  rw [write, take_left']
  rw [length_append, length_take, Nat.min_eq_left h]

theorem grow_frames (hlt : t.bytes.length + bs.length < 2 ^ 32) (hin : t.Inside) :
    grow bs.length (t.opened.map fun o => ⟨⟨t.bytes.length - (o.1 + 8), o.2.1⟩, o.1, o.2.2⟩) =
      t.opened.map fun o => ⟨⟨(t.bytes ++ bs).length - (o.1 + 8), o.2.1⟩, o.1, o.2.2⟩ := by
  rw [grow, map_map]
  apply map_congr_left
  intro o ho
  have hle := hin o ho
  have hsize : wrap32 (t.bytes.length - (o.1 + 8) + bs.length) =
      (t.bytes ++ bs).length - (o.1 + 8) := by
    rw [wrap32_eq (by omega), length_append]
    omega
  simp only [Function.comp_apply, hsize]

/-- **`spa_pod_builder_raw`** counts what does not fit. -/
theorem Follows.raw (h : Follows b t) (hlt : (t.put bs).bytes.length < 2 ^ 32) :
    Tells b.data.length (Pod.raw b bs) (t.put bs) := by
  have hlen := t.length_put bs
  have hoffset := h.offset
  rw [hlen] at hlt
  have hframe : grow bs.length b.frame = (t.put bs).opened.map fun o =>
      ⟨⟨(t.put bs).bytes.length - (o.1 + 8), o.2.1⟩, o.1, o.2.2⟩ := by
    rw [h.frame]
    exact grow_frames hlt h.inside
  have hinside := h.inside.put bs
  unfold Pod.raw
  dsimp only
  split_ifs with hover hmax
  · omega
  · exact ⟨⟨by rw [hlen, ← hoffset], h.flags, hframe, hinside, fun hle => absurd hle (by
      show ¬ b.offset + bs.length ≤ b.data.length
      omega)⟩, rfl, fun _ => hover⟩
  · have hfit : b.offset + bs.length ≤ b.data.length := Nat.le_of_not_lt hover
    refine ⟨⟨by rw [hlen, ← hoffset], h.flags, hframe, hinside, fun _ => ?_⟩, length_write hfit, ?_⟩
    · show (write b.data b.offset bs).take (b.offset + bs.length) = t.bytes ++ bs
      rw [take_write (by omega), h.bytes (by omega)]
    · exact fun herr => absurd herr (Int.lt_irrefl 0)

theorem sub32_roundUp (hn : n < 2 ^ 32) : sub32 (roundUp 32 3 n) n = 8 * ((n + 7) / 8) - n := by
  by_cases hsmall : n + 8 ≤ 2 ^ 32
  · have hround : roundUp 32 3 n = 8 * ((n + 7) / 8) := Foundation.roundUp_eq (by decide) hsmall
    rw [sub32, hround, if_pos (by omega)]
  · -- rounding up wraps around, and so does the difference
    obtain ⟨k, hk, rfl⟩ : ∃ k, k < 8 ∧ n = 2 ^ 32 - 8 + k := ⟨n - (2 ^ 32 - 8), by omega, by omega⟩
    have hall : ∀ k < 8, sub32 (roundUp 32 3 (2 ^ 32 - 8 + k)) (2 ^ 32 - 8 + k) =
        8 * ((2 ^ 32 - 8 + k + 7) / 8) - (2 ^ 32 - 8 + k) := by decide
    exact hall k hk

theorem Follows.pad (h : Follows b t) (hn : n < 2 ^ 32) (hlt : (t.fill n).bytes.length < 2 ^ 32) :
    Tells b.data.length (Pod.pad b n) (t.fill n) := by
  unfold Pod.pad
  unfold Text.fill at hlt ⊢
  rw [h.flags, sub32_roundUp hn]
  dsimp only
  split_ifs at hlt ⊢ with hflags hzero
  · exact ⟨h, rfl, fun herr => absurd herr (Int.lt_irrefl 0)⟩
  · exact h.raw hlt
  · -- nothing is missing to a multiple of eight
    have hnil : padding n = [] := by
      rw [padding, Decidable.not_not.mp hzero]
      rfl
    rw [hnil, Text.put, append_nil]
    exact ⟨h, rfl, fun herr => absurd herr (Int.lt_irrefl 0)⟩

theorem Follows.begun (h : Follows b t) :
    Follows { b with flags := { b.flags with first := false } } t.begun :=
  ⟨h.offset, by rw [h.flags]; rfl, h.frame, h.inside, h.bytes⟩

theorem Tells.and {r₁ r₂ : Int × Builder} {t₁ t₂ : Text} (h₁ : Tells capacity r₁ t₁)
    (h₂ : Tells r₁.2.data.length r₂ t₂) (hle : t₁.bytes.length ≤ t₂.bytes.length) :
    Tells capacity (andRes r₁.1 r₂.1, r₂.2) t₂ := by
  refine ⟨h₂.follows, h₂.length.trans h₁.length, ?_⟩
  intro herr
  unfold andRes at herr
  split_ifs at herr with hsecond
  · exact h₂.error hsecond
  · have hfirst := h₁.error herr
    rw [h₁.follows.offset] at hfirst
    rw [h₂.length, h₂.follows.offset]
    exact Nat.lt_of_lt_of_le hfirst hle

theorem Tells.rawSome (h : Tells capacity r t) (hlt : (t.put bs).bytes.length < 2 ^ 32) :
    Tells capacity (rawSome r bs) (t.put bs) := by
  unfold Pod.rawSome
  split_ifs with hpos
  · exact h.and (h.follows.raw hlt) (t.le_put bs)
  · have hnil : bs = [] := eq_nil_of_length_eq_zero (by omega)
    rw [hnil, Text.put, append_nil]
    exact h

theorem Tells.pad (h : Tells capacity r t) (hn : n < 2 ^ 32)
    (hlt : (t.fill n).bytes.length < 2 ^ 32) :
    Tells capacity (andRes r.1 (Pod.pad r.2 n).1, (Pod.pad r.2 n).2) (t.fill n) :=
  h.and (h.follows.pad hn hlt) (t.le_fill n)

theorem Tells.align (h : Tells capacity r t) (hlt : (t.fill t.bytes.length).bytes.length < 2 ^ 32) :
    Tells capacity (andRes r.1 (Pod.pad r.2 r.2.offset).1, (Pod.pad r.2 r.2.offset).2)
      (t.fill t.bytes.length) := by
  rw [h.follows.offset]
  exact h.pad (Nat.lt_of_le_of_lt (t.le_fill _) hlt) hlt

theorem Follows.writeHeader (h : Follows b t)
    (hlt : (if t.flags = ⟨true, false⟩ then t else t.begun.put bs).bytes.length < 2 ^ 32) :
    Tells b.data.length (writeHeader b bs) (if t.flags = ⟨true, false⟩ then t else t.begun.put bs) := by
  unfold Pod.writeHeader
  by_cases hbody : t.flags = ⟨true, false⟩
  · rw [if_pos hbody, if_neg (by rw [h.flags]; exact not_not_intro hbody)]
    exact ⟨h, rfl, fun herr => absurd herr (Int.lt_irrefl 0)⟩
  · rw [if_neg hbody] at hlt ⊢
    rw [if_pos (by rw [h.flags]; exact hbody)]
    exact h.begun.raw hlt

theorem Follows.primitiveBody (h : Follows b t) {header body suffix : List UInt8}
    (hlt : (t.step (.value header body suffix)).bytes.length < 2 ^ 32) :
    Tells b.data.length (primitiveBody b header body suffix) (t.step (.value header body suffix)) := by
  have hfill := Nat.lt_of_le_of_lt (Text.le_fill _ _) hlt
  have hbody := Nat.lt_of_le_of_lt (Text.le_put _ _) hfill
  have hacc := ((h.writeHeader (Nat.lt_of_le_of_lt (Text.le_put _ _) hbody)).rawSome hbody).rawSome
    hfill
  exact hacc.align hlt

theorem Follows.writeString (h : Follows b t) {s : List UInt8}
    (hlt : (t.step (.string s)).bytes.length < 2 ^ 32) :
    Tells b.data.length (writeString b s) (t.step (.string s)) := by
  have hfill := Nat.lt_of_le_of_lt (Text.le_fill _ _) hlt
  have hs := h.raw (Nat.lt_of_le_of_lt (Text.le_put _ _) hfill)
  have hzero := hs.and (hs.follows.raw hfill) (Text.le_put _ _)
  exact hzero.align hlt

theorem Follows.rawPadded (h : Follows b t) (hlt : (t.step (.rawPadded bs)).bytes.length < 2 ^ 32) :
    Tells b.data.length (rawPadded b bs) (t.step (.rawPadded bs)) := by
  have hfill := Nat.lt_of_le_of_lt (Text.le_fill _ _) hlt
  have hlen := t.length_put bs
  exact (h.raw hfill).pad (by omega) hlt

theorem Follows.push (h : Follows b t) (kind : Kind) {extra : List UInt8}
    (hlt : (t.step (.push kind extra)).bytes.length < 2 ^ 32) :
    Follows (pushContainer b kind extra) (t.step (.push kind extra)) := by
  have hraw : Follows (Pod.raw b (Header.bytes ⟨extra.length, kind.number⟩ ++ extra)).2
      (t.put (Header.bytes ⟨extra.length, kind.number⟩ ++ extra)) := (h.raw hlt).follows
  have hlen := t.length_put (Header.bytes ⟨extra.length, kind.number⟩ ++ extra)
  rw [length_append, length_bytes] at hlen
  refine ⟨hraw.offset, ?_, ?_, (h.inside.step (.push kind extra)).1, hraw.bytes⟩
  · show (if _ then _ else (Pod.raw b _).2.flags) = if _ then _ else t.flags
    rw [hraw.flags]
    rfl
  · show (⟨⟨extra.length, kind.number⟩, b.offset, (Pod.raw b _).2.flags⟩ : Frame) ::
      (Pod.raw b _).2.frame = ⟨⟨(t.put _).bytes.length - (t.bytes.length + 8), kind.number⟩,
        t.bytes.length, t.flags⟩ :: t.opened.map _
    have hsize : (t.put (Header.bytes ⟨extra.length, kind.number⟩ ++ extra)).bytes.length -
        (t.bytes.length + 8) = extra.length := by omega
    rw [hraw.flags, hraw.frame, hsize, h.offset]
    rfl

theorem write_take (h : o + bs.length ≤ n) (hn : n ≤ d.length) :
    (write d o bs).take n = write (d.take n) o bs := by
  have ho : (d.take o).length = o := by
    rw [length_take]
    omega
  rw [write, write, take_append, length_append, ho, take_of_length_le (by simp; omega),
    take_take, Nat.min_eq_left (by omega), drop_take]

theorem writeFrame_eq (b : Builder) (f : Frame) : (writeFrame b f).offset = b.offset ∧
    (writeFrame b f).data.length = b.data.length ∧ (f.offset + (8 + f.pod.size) ≤ b.data.length →
      (writeFrame b f).data = write b.data f.offset f.pod.bytes) := by
  unfold writeFrame
  split_ifs with hfit
  · exact ⟨rfl, length_write (by rw [length_bytes]; omega), fun _ => rfl⟩
  · exact ⟨rfl, rfl, fun h => absurd h hfit⟩

theorem Follows.closeFrame (h : Follows b t) (hlt : t.close.bytes.length < 2 ^ 32) :
    Follows (closeFrame b) t.close ∧ (closeFrame b).data.length = b.data.length := by
  obtain ⟨bytes, flags, opened⟩ := t
  cases opened with
  | nil =>
    have hnil : b.frame = [] := h.frame
    rw [Pod.closeFrame, hnil]
    exact ⟨h, rfl⟩
  | cons o opened =>
    have hin : o.1 + 8 ≤ bytes.length := h.inside o mem_cons_self
    have hoffset : b.offset = bytes.length := h.offset
    have hframe : b.frame = ⟨⟨bytes.length - (o.1 + 8), o.2.1⟩, o.1, o.2.2⟩ ::
        opened.map fun o => ⟨⟨bytes.length - (o.1 + 8), o.2.1⟩, o.1, o.2.2⟩ := h.frame
    obtain ⟨hkept, hdata, hwritten⟩ :=
      writeFrame_eq b ⟨⟨bytes.length - (o.1 + 8), o.2.1⟩, o.1, o.2.2⟩
    have hlen : (write bytes o.1 (Header.bytes ⟨bytes.length - (o.1 + 8), o.2.1⟩)).length =
        bytes.length := length_write (by rw [length_bytes]; exact hin)
    -- the builder without the frame, before it is padded
    have hclosed : Follows
        { writeFrame b ⟨⟨bytes.length - (o.1 + 8), o.2.1⟩, o.1, o.2.2⟩ with
          frame := opened.map fun o => ⟨⟨bytes.length - (o.1 + 8), o.2.1⟩, o.1, o.2.2⟩
          flags := o.2.2 }
        ⟨write bytes o.1 (Header.bytes ⟨bytes.length - (o.1 + 8), o.2.1⟩), o.2.2, opened⟩ := by
      refine ⟨?_, rfl, ?_, ?_, ?_⟩
      · exact hkept.trans (hoffset.trans hlen.symm)
      · rw [hlen]
      · intro o' ho'
        rw [hlen]
        exact h.inside o' (mem_cons_of_mem o ho')
      · intro hfit
        have hfit' : b.offset ≤ b.data.length := by
          rw [← hkept, ← hdata]
          exact hfit
        have hsize : o.1 + (8 + (bytes.length - (o.1 + 8))) ≤ b.data.length := by omega
        show (writeFrame b _).data.take (writeFrame b _).offset = _
        rw [hkept, hwritten hsize, write_take _ hfit', h.bytes hfit']
        rw [length_bytes, hoffset]
        exact hin
    have hclose : Text.close ⟨bytes, flags, o :: opened⟩ = Text.fill
        ⟨write bytes o.1 (Header.bytes ⟨bytes.length - (o.1 + 8), o.2.1⟩), o.2.2, opened⟩
        (writeFrame b ⟨⟨bytes.length - (o.1 + 8), o.2.1⟩, o.1, o.2.2⟩).offset :=
      congrArg (Text.fill _) (hlen.trans (hoffset.symm.trans hkept.symm))
    rw [hclose] at hlt ⊢
    have hle := Nat.lt_of_le_of_lt (Text.le_fill _ _) hlt
    have hpadded := hclosed.pad (by rw [hkept, hoffset, ← hlen]; exact hle) hlt
    rw [Pod.closeFrame, hframe]
    exact ⟨hpadded.follows, hpadded.length.trans hdata⟩

theorem Follows.pop (h : Follows b t) (hopen : t.opened ≠ [])
    (hlt : (t.step .pop).bytes.length < 2 ^ 32) :
    Follows (builderPop b) (t.step .pop) ∧ (builderPop b).data.length = b.data.length ∧
      (popResult b = none → b.data.length < (builderPop b).offset) := by
  -- an array or a choice without values gets the header of its values first
  obtain ⟨b₁, t₁, h₁, hlen₁, hle, hopen₁, hpop, hresult, hstep⟩ : ∃ b₁ t₁, Follows b₁ t₁ ∧
      b₁.data.length = b.data.length ∧ t.bytes.length ≤ t₁.bytes.length ∧ t₁.opened = t.opened ∧
      builderPop b = Pod.closeFrame b₁ ∧
      popResult b = (match b₁.frame with
        | [] => none
        | f :: _ => if f.offset + (8 + f.pod.size) ≤ b₁.data.length then some f.offset else none) ∧
      t.step .pop = t₁.close := by
    unfold builderPop popResult
    simp only [Text.step] at hlt ⊢
    rw [h.flags]
    by_cases hfirst : t.flags.first = true
    · rw [if_pos hfirst] at hlt
      have hin := (h.inside.put (Header.bytes ⟨0, Kind.none.number⟩)).close.2
      have hraw := h.raw (Nat.lt_of_le_of_lt hin hlt)
      refine ⟨_, _, hraw.follows, hraw.length, t.le_put _, rfl, ?_⟩
      simp only [if_pos hfirst, and_self]
    · refine ⟨_, _, h, rfl, Nat.le_refl _, rfl, ?_⟩
      simp only [if_neg hfirst, and_self]
  rw [hstep] at hlt
  obtain ⟨hclosed, hlen⟩ := h₁.closeFrame hlt
  rw [hpop, hstep, hresult, h₁.frame, hopen₁]
  obtain ⟨o, opened, ho⟩ := exists_cons_of_ne_nil hopen
  have hin := h₁.inside o (by rw [hopen₁, ho]; exact mem_cons_self)
  have hmono := h₁.inside.close.2
  have hclosedOffset := hclosed.offset
  rw [ho, map_cons]
  dsimp only
  refine ⟨hclosed, hlen.trans hlen₁, ?_⟩
  intro hnone
  split_ifs at hnone with hfit
  omega

end Calls

/-! ## Runs -/

/-- Every container that is closed is open. -/
def nested : ℕ → List Call → Bool
  | _, [] => true
  | d, .push _ _ :: ops => nested (d + 1) ops
  | 0, .pop :: _ => false
  | d + 1, .pop :: ops => nested d ops
  | d, _ :: ops => nested d ops

section Runs

variable {b : Builder} {t : Text} {ops : List Call}

/-- **One call**: the builder follows the text, and the offset tells if the call has failed. -/
theorem Follows.step (h : Follows b t) (op : Call) (hopen : op = .pop → t.opened ≠ [])
    (hlt : (t.step op).bytes.length < 2 ^ 32) :
    Follows (op.run b).2 (t.step op) ∧ (op.run b).2.data.length = b.data.length ∧
      ((op.run b).1 = true → (op.run b).2.data.length < (op.run b).2.offset) := by
  have hint : ∀ {r : Int × Builder} {t' : Text}, Tells b.data.length r t' →
      Follows r.2 t' ∧ r.2.data.length = b.data.length ∧
        (decide (r.1 < 0) = true → r.2.data.length < r.2.offset) := fun htells =>
    ⟨htells.follows, htells.length, fun herr => htells.error (of_decide_eq_true herr)⟩
  cases op with
  | push kind extra =>
    have hraw : Tells b.data.length
        (Pod.raw b (Header.bytes ⟨extra.length, kind.number⟩ ++ extra))
        (t.put (Header.bytes ⟨extra.length, kind.number⟩ ++ extra)) := h.raw hlt
    exact ⟨h.push kind hlt, hraw.length, (hint hraw).2.2⟩
  | value header body suffix => exact hint (h.primitiveBody hlt)
  | string s => exact hint (h.writeString hlt)
  | child pod => exact hint (h.begun.raw hlt)
  | raw bs => exact hint (h.raw hlt)
  | rawPadded bs => exact hint (h.rawPadded hlt)
  | pad n => exact hint (h.pad n.isLt hlt)
  | pop =>
    obtain ⟨hpop, hlen, hnull⟩ := h.pop (hopen rfl) hlt
    refine ⟨hpop, hlen, fun herr => ?_⟩
    show (builderPop b).data.length < (builderPop b).offset
    rw [hlen]
    exact hnull (of_decide_eq_true herr)

theorem length_opened_step (t : Text) (op : Call) : (t.step op).opened.length =
    match op with
    | .push _ _ => t.opened.length + 1
    | .pop => t.opened.length - 1
    | _ => t.opened.length := by
  have hfill : ∀ (t : Text) n, (t.fill n).opened = t.opened := by
    intro t n
    unfold Text.fill
    split_ifs <;> rfl
  have hclose : ∀ t : Text, t.close.opened.length = t.opened.length - 1 := by
    rintro ⟨bytes, flags, _ | ⟨o, opened⟩⟩
    · rfl
    · exact congrArg List.length (hfill _ _)
  cases op with
  | push kind extra => rfl
  | value header body suffix =>
    simp only [Text.step, hfill, Text.put]
    split_ifs <;> rfl
  | string s => exact congrArg List.length (hfill _ _)
  | child pod | raw bs => rfl
  | rawPadded bs | pad n => exact congrArg List.length (hfill _ _)
  | pop =>
    simp only [Text.step]
    split_ifs
    · exact hclose _
    · exact hclose _

theorem nested_cons {d : ℕ} {op : Call} (h : nested d (op :: ops) = true)
    (hd : t.opened.length = d) :
    (op = .pop → t.opened ≠ []) ∧ nested (t.step op).opened.length ops = true := by
  have hlen := length_opened_step t op
  cases op with
  | push kind extra => exact ⟨nofun, by rw [hlen, hd]; exact h⟩
  | pop =>
    cases d with
    | zero => cases h
    | succ d =>
      refine ⟨fun _ hnil => ?_, by rw [hlen, hd]; exact h⟩
      rw [hnil] at hd
      cases hd
  | value header body suffix | string s => exact ⟨nofun, by rw [hlen, hd]; cases d <;> exact h⟩
  | child pod | raw bs | rawPadded bs | pad n => exact ⟨nofun, by rw [hlen, hd]; cases d <;> exact h⟩

/-- **Any number of calls**: the offset tells if one of them has failed. -/
theorem Follows.run (h : Follows b t) (hnested : nested t.opened.length ops = true)
    (hlt : (t.steps ops).bytes.length < 2 ^ 32) :
    Follows (runOps b ops).2 (t.steps ops) ∧ (runOps b ops).2.data.length = b.data.length ∧
      ((runOps b ops).1 = true → (runOps b ops).2.data.length < (runOps b ops).2.offset) := by
  induction ops generalizing b t with
  | nil => exact ⟨h, rfl, nofun⟩
  | cons op ops ih =>
    obtain ⟨hopen, hrest⟩ := nested_cons hnested rfl
    have hinside := (h.inside.step op).1
    have hmono := hinside.steps ops
    obtain ⟨hstep, hlen, herr⟩ := h.step op hopen (Nat.lt_of_le_of_lt hmono hlt)
    obtain ⟨hrun, hlen', herr'⟩ := ih hstep hrest hlt
    refine ⟨hrun, hlen'.trans hlen, fun hfail => ?_⟩
    rcases Bool.or_eq_true_iff.mp hfail with hfail | hfail
    · -- what the first call has missed is counted to the end
      have hfirst := herr hfail
      have hoffset := hstep.offset
      have hoffset' := hrun.offset
      show (runOps (op.run b).2 ops).2.data.length < (runOps (op.run b).2 ops).2.offset
      rw [hlen', hoffset']
      exact Nat.lt_of_lt_of_le (hoffset ▸ hfirst) hmono
    · exact herr' hfail

theorem Follows.popResult_eq_none (h : Follows b t) (hpast : b.data.length < b.offset) :
    popResult b = none := by
  have hclosed : ∀ {b : Builder} {t : Text}, Follows b t → b.data.length < b.offset →
      (match b.frame with
        | [] => none
        | f :: _ => if f.offset + (8 + f.pod.size) ≤ b.data.length then some f.offset else none) =
        none := by
    intro b t h hpast
    have hoffset := h.offset
    rw [h.frame]
    rcases ho : t.opened with _ | ⟨o, opened⟩
    · rfl
    · exact if_neg (by dsimp only; omega)
  unfold popResult
  split_ifs
  · by_cases hlt : (t.put (Header.bytes ⟨0, Kind.none.number⟩)).bytes.length < 2 ^ 32
    · have hraw := h.raw hlt
      refine hclosed hraw.follows ?_
      rw [hraw.length, hraw.follows.offset]
      exact Nat.lt_of_lt_of_le (h.offset ▸ hpast) (t.le_put _)
    · -- the header is not even counted
      have hsame : (Pod.raw b (Header.bytes ⟨0, Kind.none.number⟩)).2 = b := by
        rw [Text.length_put, ← h.offset] at hlt
        unfold Pod.raw
        rw [if_pos (by omega), if_pos (by omega)]
      rw [hsame]
      exact hclosed h hpast
  · exact hclosed h hpast

end Runs

/-! ## Writes are inside of the buffer -/

section Inside

variable (b : Builder)

theorem length_raw (bs : List UInt8) : (raw b bs).2.data.length = b.data.length := by
  unfold raw
  dsimp only
  split_ifs with hover
  · rfl
  · rfl
  · exact length_write (Nat.le_of_not_lt hover)

theorem length_pad (n : ℕ) : (pad b n).2.data.length = b.data.length := by
  unfold pad
  dsimp only
  split_ifs
  · rfl
  · exact length_raw b _
  · rfl

theorem length_rawSome (r : Int × Builder) (bs : List UInt8) :
    (rawSome r bs).2.data.length = r.2.data.length := by
  unfold rawSome
  split_ifs
  · exact length_raw _ _
  · rfl

theorem length_closeFrame : (closeFrame b).data.length = b.data.length := by
  unfold closeFrame
  split
  · rfl
  · rename_i f parent _
    exact (length_pad _ _).trans (writeFrame_eq b f).2.1

theorem length_op (op : Call) : (op.run b).2.data.length = b.data.length := by
  cases op with
  | push kind extra => exact length_raw b _
  | value header body suffix =>
    have hheader : (writeHeader b header).2.data.length = b.data.length := by
      unfold writeHeader
      split_ifs
      · exact length_raw _ _
      · rfl
    exact (length_pad _ _).trans ((length_rawSome _ _).trans ((length_rawSome _ _).trans hheader))
  | string s => exact (length_pad _ _).trans ((length_raw _ _).trans (length_raw _ _))
  | child pod => exact length_raw _ _
  | raw bs => exact length_raw b bs
  | rawPadded bs => exact (length_pad _ _).trans (length_raw b bs)
  | pad n => exact length_pad b _
  | pop =>
    refine (length_closeFrame _).trans ?_
    split_ifs
    · exact length_raw b _
    · rfl

theorem length_runOps (ops : List Call) : (runOps b ops).2.data.length = b.data.length := by
  induction ops generalizing b with
  | nil => rfl
  | cons op ops ih => exact (ih _).trans (length_op b op)

end Inside

theorem follows_init (data : List UInt8) : Follows (builderInit data) Text.empty :=
  ⟨rfl, rfl, rfl, nofun, fun _ => rfl⟩

/-- **Failures of a builder.** Nothing is written behind the buffer. If 32 bits can count what is
written, then what fits does not depend on the buffer; and after a failed call the builder is
corrupted, and the frame that is closed next is not returned. -/
theorem builder_failures (data : List UInt8) (ops : List Call) :
    (runOps (builderInit data) ops).2.data.length = data.length ∧
      (nested 0 ops = true → (Text.empty.steps ops).bytes.length < 2 ^ 32 →
        ((Text.empty.steps ops).bytes.length ≤ data.length →
          (runOps (builderInit data) ops).1 = false ∧
            (runOps (builderInit data) ops).2.data.take (Text.empty.steps ops).bytes.length =
              (Text.empty.steps ops).bytes) ∧ ((runOps (builderInit data) ops).1 = true →
          (runOps (builderInit data) ops).2.corrupted = true ∧
            popResult (runOps (builderInit data) ops).2 = none)) := by
  refine ⟨length_runOps _ ops, fun hnested hlt => ?_⟩
  obtain ⟨hrun, hlen, herr⟩ := (follows_init data).run hnested hlt
  have hoffset := hrun.offset
  have hlen' : (runOps (builderInit data) ops).2.data.length = data.length := hlen
  constructor
  · intro hfit
    constructor
    · by_contra hfail
      have hpast := herr (Bool.not_eq_false _ ▸ hfail)
      omega
    · rw [← hoffset]
      exact hrun.bytes (by omega)
  · intro hfail
    have hpast := herr hfail
    exact ⟨decide_eq_true hpast, hrun.popResult_eq_none hpast⟩

def valueOps (body : List UInt8) : List Call :=
  [.push .struct [], .value (Header.bytes ⟨body.length, Kind.bytes.number⟩) body []]

open List (replicate)

/-- A buffer with the header of a structure. -/
def oneHeader : Builder :=
  ⟨Header.bytes ⟨0, Kind.struct.number⟩ ++ replicate 8 0, 8, ⟨false, false⟩,
    [⟨⟨0, Kind.struct.number⟩, 0, ⟨false, false⟩⟩]⟩

/-- A buffer with the header of a structure and the one of a value of `n` bytes. -/
def twoHeaders (n : ℕ) : Builder :=
  ⟨Header.bytes ⟨0, Kind.struct.number⟩ ++ Header.bytes ⟨n, Kind.bytes.number⟩, 16, ⟨false, false⟩,
    [⟨⟨8, Kind.struct.number⟩, 0, ⟨false, false⟩⟩]⟩

/-- **A failure that is silent**: the body of a value takes the size past 32 bits. The call fails,
but the builder is not corrupted, and the structure is returned. -/
theorem large_value_silent : ∃ body : List UInt8, body.length = 2 ^ 32 - 1 ∧
    nested 0 (valueOps body) = true ∧
    (runOps (builderInit (replicate 16 0)) (valueOps body)).1 = true ∧
    (runOps (builderInit (replicate 16 0)) (valueOps body)).2.corrupted = false ∧
    popResult (runOps (builderInit (replicate 16 0)) (valueOps body)).2 = some 0 := by
  have hlarge : ∀ body : List UInt8, body.length = 2 ^ 32 - 1 →
      runOps (builderInit (replicate 16 0)) (valueOps body) =
        (true, twoHeaders (2 ^ 32 - 1)) := by
    intro body hlen
    have hpush : (Call.push .struct []).run (builderInit (replicate 16 0)) =
        (false, oneHeader) := by decide
    have hheader : writeHeader oneHeader (Header.bytes ⟨2 ^ 32 - 1, Kind.bytes.number⟩) =
        (0, twoHeaders (2 ^ 32 - 1)) := by decide
    -- the error exit does not count the body
    have hbody : rawSome (0, twoHeaders (2 ^ 32 - 1)) body = (-eNoSpc, twoHeaders (2 ^ 32 - 1)) := by
      rw [rawSome, raw, hlen, if_pos (by decide), if_pos (by decide), if_pos (by decide)]
      rfl
    have hvalue : (Call.value (Header.bytes ⟨2 ^ 32 - 1, Kind.bytes.number⟩) body []).run oneHeader =
        (true, twoHeaders (2 ^ 32 - 1)) := by
      rw [Call.run, primitiveBody, hheader, hbody]
      decide
    rw [valueOps, hlen]
    simp only [runOps, hpush, hvalue]
    rfl
  have hlen : (replicate (2 ^ 32 - 1) (0 : UInt8)).length = 2 ^ 32 - 1 := length_replicate
  refine ⟨_, hlen, rfl, ?_⟩
  rw [hlarge _ hlen]
  decide

theorem builder_failures_small : (runOps (builderInit (replicate 16 0)) (valueOps [1])).1 = true ∧
    (runOps (builderInit (replicate 16 0)) (valueOps [1])).2.corrupted = true ∧
    popResult (runOps (builderInit (replicate 16 0)) (valueOps [1])).2 = none := by
  have hfail : (runOps (builderInit (replicate 16 0)) (valueOps [1])).1 = true := by decide
  exact ⟨hfail, ((builder_failures _ _).2 (by decide) (by decide)).2 hfail⟩

end PipeWireAO.Pod
