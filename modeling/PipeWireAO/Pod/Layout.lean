import PipeWireAO.Errno
import PipeWireAO.Foundation.Bytes
import PipeWireAO.Foundation.Except

/-!
# Pods in memory

A pod is a header, the size of its body and its type, with the body after it. Pods are read
through pointers into memory that someone else has written: an access outside of that memory is a
fault, so that a program that makes none can be told from one that does.
-/

namespace PipeWireAO.Pod

open Foundation (toLe ofLe roundUp)

/-- How a function on pods ends without a result. -/
inductive Error
  | fault
  /-- A loop that has not ended in the given number of rounds. -/
  | fuel
  | code (res : Int)
  deriving DecidableEq

/-- The bytes of a buffer, the first one at address `base`. Their number is a word of 32 bits, and
the address behind them is a word of 64 bits. -/
structure Memory where
  base : ℕ
  bytes : List UInt8
  small : bytes.length < 2 ^ 32
  addressable : base + bytes.length < 2 ^ 64

namespace Memory

variable (m : Memory)

/-- `len` bytes at `p` are in memory. -/
def Holds (p len : ℕ) : Prop := m.base ≤ p ∧ p + len ≤ m.base + m.bytes.length

instance (p len : ℕ) : Decidable (m.Holds p len) := inferInstanceAs (Decidable (_ ∧ _))

/-- The `len` bytes at `p`. -/
def slice (p len : ℕ) : List UInt8 := (m.bytes.drop (p - m.base)).take len

/-- `memcpy` of `len` bytes from `p`. -/
def load (p len : ℕ) : Except Error (List UInt8) :=
  if m.Holds p len then .ok (m.slice p len) else .error .fault

end Memory

/-- `SPA_PTROFF`: pointers are words of 64 bits. -/
def ptroff (p offset : ℕ) : ℕ := (p + offset) % 2 ^ 64

/-- `SPA_PTROFF` with a negative offset. -/
def ptrback (p offset : ℕ) : ℕ := if offset ≤ p then p - offset else p + 2 ^ 64 - offset

theorem ptrback_add (p n : ℕ) : ptrback (p + n) n = p := by
  rw [ptrback, if_pos (Nat.le_add_left n p), Nat.add_sub_cancel]

/-- `SPA_ROUND_UP_N(num, SPA_POD_ALIGN)`, of a word of 64 bits. -/
def align (n : ℕ) : ℕ := roundUp 64 3 n

variable {n : ℕ}

theorem align_eq (h : n < 2 ^ 63) : align n = 8 * ((n + 7) / 8) :=
  Foundation.roundUp_eq (by decide) (by omega)

/-- A conversion to `uint32_t`. The functions take it as a parameter, to be compared with the same
functions on unbounded numbers. -/
def wrap32 (n : ℕ) : ℕ := n % 2 ^ 32

theorem wrap32_eq (h : n < 2 ^ 32) : wrap32 n = n := Nat.mod_eq_of_lt h

/-- The rounds that a search in a pod with a body of `n` bytes may take: one for each eight bytes of
the pod, and one to find the end. -/
def rounds (n : ℕ) : ℕ := (8 + n) / 8 + 1

theorem exists_succ {k : ℕ} (h : k < n) : ∃ j, n = j + 1 := ⟨n - 1, by omega⟩

/-! ## Headers -/

/-- `struct spa_pod`. -/
structure Header where
  (size type : ℕ)
  deriving DecidableEq

/-- `struct spa_pod_prop`. -/
structure Property where
  (key flags : ℕ)
  value : Header
  deriving DecidableEq

def Header.ofBytes (bs : List UInt8) : Header := ⟨ofLe (bs.take 4), ofLe ((bs.drop 4).take 4)⟩

/-- The property in the first sixteen bytes. -/
def Property.ofBytes (bs : List UInt8) : Property :=
  ⟨ofLe (bs.take 4), ofLe ((bs.drop 4).take 4), Header.ofBytes (bs.drop 8)⟩

theorem ofLe_take_lt (bs : List UInt8) : ofLe (bs.take 4) < 2 ^ 32 := by
  have hlen : (bs.take 4).length ≤ 4 := List.length_take_le 4 bs
  calc ofLe (bs.take 4) < 256 ^ (bs.take 4).length := Foundation.ofLe_lt _
    _ ≤ 256 ^ 4 := Nat.pow_le_pow_right (by decide) hlen
    _ = 2 ^ 32 := by decide

theorem Header.size_lt (bs : List UInt8) : (Header.ofBytes bs).size < 2 ^ 32 := ofLe_take_lt bs

def Header.bytes (h : Header) : List UInt8 := toLe 4 h.size ++ toLe 4 h.type

/-- `*(const struct spa_pod *)p`. -/
def Memory.header (m : Memory) (p : ℕ) : Except Error Header :=
  (m.load p 8).map Header.ofBytes

/-- `*(const struct spa_pod_prop *)p`. -/
def Memory.property (m : Memory) (p : ℕ) : Except Error Property :=
  (m.load p 16).map Property.ofBytes

/-! ## Types -/

/-- The types of pods that have functions of their own here, of `enum spa_type`. -/
inductive Kind
  | none | bool | id | int | long | float | double | string | bytes | rectangle | fraction | array
  | struct | object | fd | choice
  deriving DecidableEq

def Kind.number : Kind → ℕ
  | .none => 1
  | .bool => 2
  | .id => 3
  | .int => 4
  | .long => 5
  | .float => 6
  | .double => 7
  | .string => 8
  | .bytes => 9
  | .rectangle => 10
  | .fraction => 11
  | .array => 13
  | .struct => 14
  | .object => 15
  | .fd => 18
  | .choice => 19

/-- `spa_pod_type_size`. -/
def typeSize (type : ℕ) : ℕ :=
  match type with
  | 8 | 12 => 1
  | 2 | 4 | 3 | 6 => 4
  | 5 | 7 | 10 | 11 | 13 | 15 | 16 | 18 => 8
  | 17 | 19 => 16
  | _ => 0

/-- `SPA_POD_MAX_SIZE`. -/
def maxSize : ℕ := 2 ^ 20

/-- `SPA_POD_CHECK`; `SPA_POD_CHECK_TYPE` is the case of size 0. -/
def Header.check (h : Header) (kind : Kind) (size : ℕ) : Bool :=
  h.size < maxSize && h.type == kind.number && size ≤ h.size

theorem Header.check_eq {h : Header} {kind : Kind} {size : ℕ} (hc : h.check kind size = true) :
    h.size < maxSize ∧ h.type = kind.number ∧ size ≤ h.size := by
  simp only [Header.check, Bool.and_eq_true, decide_eq_true_eq, beq_iff_eq] at hc
  exact ⟨hc.1.1, hc.1.2, hc.2⟩

/-! ## Reading -/

namespace Memory

variable {m : Memory} {p len : ℕ} {bs : List UInt8}

theorem load_eq (h : m.Holds p len) : m.load p len = .ok (m.slice p len) := if_pos h

theorem load_ok (h : m.load p len = .ok bs) : m.Holds p len ∧ bs = m.slice p len := by
  unfold load at h
  split_ifs at h with hp
  cases h
  exact ⟨hp, rfl⟩

theorem slice_drop {k : ℕ} (h : m.base ≤ p) : (m.slice p (n + k)).drop n = m.slice (p + n) k := by
  rw [slice, slice, List.drop_take, List.drop_drop, Nat.add_sub_cancel_left, Nat.sub_add_comm h]

theorem Holds.mono {q len' : ℕ} (h : m.Holds p len) (hp : p ≤ q) (hq : q + len' ≤ p + len) :
    m.Holds q len' := by
  obtain ⟨h₁, h₂⟩ := h
  exact ⟨by omega, by omega⟩

theorem Holds.lt (h : m.Holds p len) : p + len < 2 ^ 64 := lt_of_le_of_lt h.2 m.addressable

theorem Holds.ptroff_eq (h : m.Holds p len) (hn : n ≤ len) : ptroff p n = p + n := by
  have := h.lt
  exact Nat.mod_eq_of_lt (by omega)

theorem header_eq (h : m.Holds p 8) : m.header p = .ok (Header.ofBytes (m.slice p 8)) := by
  rw [header, load_eq h]
  rfl

theorem property_eq (h : m.Holds p 16) : m.property p = .ok (Property.ofBytes (m.slice p 16)) := by
  rw [property, load_eq h]
  rfl

end Memory

end PipeWireAO.Pod
