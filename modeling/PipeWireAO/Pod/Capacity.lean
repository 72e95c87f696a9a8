import PipeWireAO.Pod.Filter
import PipeWireAO.Pod.Overflow
import PipeWireAO.Pod.Reading

/-!
# Builders with room

A builder whose buffer has room for all that is written: `Kept` says that the bytes up to the offset
are the text. Bytes may be taken back again, and the kind of a choice may be changed while it is
open; behind the offset there may be anything.
-/

namespace PipeWireAO.Pod

open List Text
open Foundation (toLe length_toLe)

/-- The text with a property whose value is a choice that is still open. -/
def choiceText (t : Text) (key flags : BitVec 32) (kind : ℕ) (child : Header)
    (content : List UInt8) : Text :=
  { bytes := t.bytes ++ (toLe 4 key.toNat ++ toLe 4 flags.toNat ++
      (Header.bytes ⟨8, Kind.choice.number⟩ ++ (toLe 4 kind ++ (toLe 4 0 ++
        (child.bytes ++ content)))))
    flags := ⟨true, false⟩
    opened := (t.bytes.length + 8, Kind.choice.number, t.flags) :: t.opened }

section

variable {capacity : ℕ} {b : Builder} {t : Text} {bs : List UInt8}

namespace Kept

theorem remove (h : Kept capacity b (t.put bs)) (hin : t.Inside) :
    Kept capacity (builderRemove b bs.length) t := by
  have hlen := t.length_put bs
  have hoffset : b.offset = t.bytes.length + bs.length := h.follows.offset.trans hlen
  have hfits := h.fits
  have hbytes := h.bytes_eq
  rw [hlen] at hbytes hfits
  have hoff : (builderRemove b bs.length).offset = t.bytes.length := by
    show b.offset - min bs.length b.offset = _
    omega
  refine ⟨⟨hoff, h.follows.flags, ?_, hin, fun _ => ?_⟩, h.length, by omega⟩
  · show b.frame.map _ = _
    rw [h.follows.frame, map_map]
    apply map_congr_left
    intro o ho
    have hsize : (t.put bs).bytes.length - (o.1 + 8) -
        min bs.length ((t.put bs).bytes.length - (o.1 + 8)) = t.bytes.length - (o.1 + 8) := by
      omega
    simp only [Function.comp_apply, hsize]
  · rw [hoff]
    show b.data.take t.bytes.length = t.bytes
    have htake := congrArg (List.take t.bytes.length) hbytes
    rwa [take_take, Nat.min_eq_left (Nat.le_add_right _ _), put, take_left] at htake

theorem write (h : Kept capacity b t) (bs : List UInt8) {o : ℕ} (ho : o + bs.length ≤ t.bytes.length) :
    Kept capacity { b with data := Pod.write b.data o bs }
      { t with bytes := Pod.write t.bytes o bs } := by
  have hlen : (Pod.write t.bytes o bs).length = t.bytes.length := length_write ho
  have hfits := h.fits
  have hlength := h.length
  have hin : ∀ x ∈ t.opened, x.1 + 8 ≤ t.bytes.length := h.follows.inside
  refine ⟨⟨h.follows.offset.trans hlen.symm, h.follows.flags, ?_, ?_, fun _ => ?_⟩, ?_, ?_⟩
  · rw [hlen]
    exact h.follows.frame
  · intro x hx
    rw [hlen]
    exact hin x hx
  · show (Pod.write b.data o bs).take b.offset = _
    have hoffset := h.follows.offset
    rw [write_take (by omega) (by omega), hoffset, h.bytes_eq]
  · exact (length_write (by omega)).trans h.length
  · rw [hlen]
    exact hfits

end Kept

/-! ## Choices -/

theorem length_choiceText (t : Text) (key flags : BitVec 32) (kind : ℕ) (child : Header)
    (content : List UInt8) :
    (choiceText t key flags kind child content).bytes.length = t.bytes.length + 32 + content.length := by
  simp only [choiceText, length_append, length_toLe, length_bytes]
  omega

theorem choiceText_put (t : Text) (key flags : BitVec 32) (kind : ℕ) (child : Header)
    (content a : List UInt8) : (choiceText t key flags kind child content).put a =
      choiceText t key flags kind child (content ++ a) := by
  simp only [choiceText, put, append_assoc]

theorem choiceText_inside (hin : t.Inside) (key flags : BitVec 32) (kind : ℕ) (child : Header)
    (content : List UInt8) : (choiceText t key flags kind child content).Inside := by
  intro o ho
  rw [length_choiceText]
  rcases mem_cons.mp ho with rfl | ho
  · show t.bytes.length + 8 + 8 ≤ _
    omega
  · have := hin o ho
    omega

variable {key flags : BitVec 32} {kind : ℕ} {child : Header} {content : List UInt8}

/-- **A property with a choice is begun**: its key and flags, and the header of its values. -/
theorem Kept.openChoice (h : Kept capacity b t) (hcap : capacity < 2 ^ 32)
    (hfits : t.bytes.length + 32 ≤ capacity) :
    Kept capacity (builderChild (builderPushChoice (builderProp b key flags).2 0 0) child).2
      (choiceText t key flags 0 child []) := by
  have hprop : Kept capacity (builderProp b key flags).2
      (t.put (toLe 4 key.toNat ++ toLe 4 flags.toNat)) := h.raw hcap (by
    simp only [put, length_append, length_toLe]
    omega)
  have hpush := hprop.push hcap .choice (toLe 4 0 ++ toLe 4 0) (by
    simp only [step, put, length_append, length_toLe, length_bytes]
    omega)
  have hchild := hpush.child hcap child (by
    simp only [step, put, begun, length_append, length_toLe, length_bytes]
    omega)
  have htext : ((t.put (toLe 4 key.toNat ++ toLe 4 flags.toNat)).step
      (.push .choice (toLe 4 0 ++ toLe 4 0))).step (.child child) =
        choiceText t key flags 0 child [] := by
    simp only [step, put, begun, choiceText, length_append, length_toLe,
      append_assoc, append_nil]
    rfl
  rw [htext] at hchild
  exact hchild

theorem choiceText_before (t : Text) (key flags : BitVec 32) : ∃ x : List UInt8,
    x = t.bytes ++ (toLe 4 key.toNat ++ toLe 4 flags.toNat) ∧ x.length = t.bytes.length + 8 ∧
      ∀ kind child content, (choiceText t key flags kind child content).bytes =
        x ++ (Header.bytes ⟨8, Kind.choice.number⟩ ++ (toLe 4 kind ++ (toLe 4 0 ++
          (child.bytes ++ content)))) := by
  refine ⟨_, rfl, ?_, fun kind child content => ?_⟩
  · simp only [length_append, length_toLe]
  · simp only [choiceText, append_assoc]

/-- **The kind of an open choice is changed.** -/
theorem Kept.setChoice (h : Kept capacity b (choiceText t key flags kind child content)) (k : ℕ) :
    Kept capacity (Pod.setChoice b (t.bytes.length + 8) k)
      (choiceText t key flags k child content) := by
  have hfits := h.fits
  have hlength := h.length
  have hlen := length_choiceText t key flags kind child content
  obtain ⟨x, -, hx, hsplit⟩ := choiceText_before t key flags
  have hheader : Header.ofBytes (b.data.drop (t.bytes.length + 8)) = ⟨8, Kind.choice.number⟩ := by
    have hbytes := h.bytes_eq
    have hdata := take_append_drop (choiceText t key flags kind child content).bytes.length b.data
    rw [hbytes, hsplit] at hdata
    rw [← hdata, append_assoc, ← hx, drop_left, append_assoc]
    exact Header.ofBytes_bytes (by decide) (by decide) _
  have hpatch := h.write (toLe 4 k) (o := t.bytes.length + 8 + 8) (by
    rw [length_toLe]
    omega)
  have hwrite : Pod.write (choiceText t key flags kind child content).bytes (t.bytes.length + 8 + 8)
      (toLe 4 k) = (choiceText t key flags k child content).bytes := by
    have hpre : (x ++ Header.bytes ⟨8, Kind.choice.number⟩).length = t.bytes.length + 8 + 8 := by
      rw [length_append, hx, length_bytes]
    rw [hsplit, hsplit, ← append_assoc, ← hpre, write_mid (by simp only [length_toLe]),
      append_assoc]
  rw [hwrite] at hpatch
  rw [Pod.setChoice, hheader]
  dsimp only
  rw [if_pos ⟨by omega, by omega, by decide⟩]
  exact hpatch

/-- **A choice is closed**: the property is written. -/
theorem Kept.popChoice (h : Kept capacity b (choiceText t key flags kind child content))
    (hcap : capacity < 2 ^ 32) (hflags : t.flags = ⟨false, false⟩) (halign : t.bytes.length % 8 = 0)
    (hfits : t.bytes.length + (40 + content.length) ≤ capacity) :
    Kept capacity (builderPop b) (t.put (toLe 4 key.toNat ++ toLe 4 flags.toNat ++
      podBytes .choice (toLe 4 kind ++ (toLe 4 0 ++ (child.bytes ++ content))))) := by
  have hopen : choiceText t key flags kind child content =
      (t.put (toLe 4 key.toNat ++ toLe 4 flags.toNat)).opening .choice (toLe 4 kind ++ toLe 4 0)
        (child.bytes ++ content) ⟨true, false⟩ := by
    simp only [choiceText, opening, put, append_assoc, length_append, length_toLe]
  have hready : (t.put (toLe 4 key.toNat ++ toLe 4 flags.toNat)).Ready :=
    Text.Ready.put ⟨hflags, halign⟩ (by rw [length_append, length_toLe, length_toLe])
  rw [hopen] at h
  have hpop := h.pop hcap hready rfl (by
    simp only [put, length_append, length_toLe, length_podBytes, length_bytes]
    omega)
  rw [put_put, append_assoc] at hpop
  exact hpop

end

end PipeWireAO.Pod
