import PipeWireAO.Foundation.Machine
import PipeWireAO.Native.Receive
import Mathlib.Data.List.Nodup

/-!
# Re-entering a connection

While the handler of a message runs, it may read more messages from the same connection. Each level of
this nesting has an entry in a stack, with the message that was returned last. Its payload is in the
receive buffer. So when a deeper level reads for the first time, the buffer is put aside, and the
contents are copied to another one: that which the level has put aside before, if there is one.
-/

namespace PipeWireAO.Native

open Foundation List Function Option

variable {F : Type*} {reads : List (List UInt8 × List F)} {es : List (Event F)} {n ptr b cur : ℕ}

/-! ## The calls -/

/-- `return_msg`: the payload is at `ptr` in a block of memory. -/
structure Returned (F : Type*) where
  id : UInt32
  opcode : UInt8
  seq : UInt32
  fds : List F
  (block ptr size : ℕ)

/-- `struct reenter_item` -/
structure Item (F : Type*) where
  old : Option ℕ
  msg : Option (Returned F)

/-- `struct impl`. The blocks of memory have numbers: `cur` is that of the receive buffer, whose
contents are in `conn`, and `mem` has the contents of the others. The last level is at the head of
the stack. -/
structure Impl (F : Type*) where
  conn : Conn F
  cur : ℕ
  mem : ℕ → Option (List UInt8)
  fresh : ℕ
  stack : List (Item F)
  pending : ℕ

open List (replicate)

namespace Impl

/-- `pw_protocol_native_connection_new` -/
def new : Impl F := ⟨.new, 0, fun _ => none, 1, [⟨none, none⟩], 0⟩

def load (s : Impl F) (block : ℕ) : Option (List UInt8) :=
  if block = s.cur then some s.conn.inb.data else s.mem block

/-- `pw_protocol_native_connection_enter` -/
def enter (s : Impl F) : Impl F := { s with pending := s.pending + 1 }

def free (mem : ℕ → Option (List UInt8)) (block : Option ℕ) : ℕ → Option (List UInt8) :=
  fun b => if some b = block then none else mem b

/-- `pw_protocol_native_connection_leave` -/
def leave (s : Impl F) : Impl F :=
  if 0 < s.pending then { s with pending := s.pending - 1 }
  else
    match s.stack with
    | [] => s
    | item :: stack => { s with stack := stack, mem := free s.mem item.old }

/-- The contents of a block after `realloc`. -/
def resize (data : List UInt8) (n : ℕ) : List UInt8 :=
  data.take n ++ replicate (n - data.length) 0

/-- `ensure_stack_level`. `moves` says whether `realloc` moves the block. -/
def ensureStackLevel (s : Impl F) (moves : Bool) : Impl F :=
  match s.pending, s.stack with
  | n + 1, item :: stack =>
    let b := s.conn.inb
    let recycled := (item.old.bind s.mem).getD []
    let data := b.data.take b.size ++ (resize recycled b.data.length).drop b.size
    let block := if moves then s.fresh else item.old.getD s.fresh
    { conn := { s.conn with inb := { b with data := data } }
      cur := block
      -- the old block is freed, or it is the receive buffer now
      mem := update (free s.mem item.old) s.cur (some b.data)
      fresh := s.fresh + 1
      stack := replicate (n + 1) ⟨none, none⟩ ++ { item with old := some s.cur } :: stack
      pending := 0 }
  | _, _ => s

/-- The receive buffer after `get_next`. If it has grown, `moves` says whether `realloc` has moved it. -/
def received (s : Impl F) (c : Conn F) (moves : Bool) : Impl F :=
  if s.conn.inb.data.length < c.inb.data.length ∧ moves then
    { s with conn := c, cur := s.fresh, mem := free s.mem s.cur, fresh := s.fresh + 1 }
  else { s with conn := c }

def returned (s : Impl F) (ptr : ℕ) (m : Message F) : Returned F :=
  ⟨m.id, m.opcode, m.seq, m.fds, s.cur, ptr, m.payload.length⟩

/-- It is the message of the last level. -/
def setMsg (s : Impl F) (r : Returned F) : Impl F :=
  { s with stack := s.stack.modifyHead fun item => { item with msg := some r } }

/-- `pw_protocol_native_connection_get_next` -/
def getNext (s : Impl F) (moves grows : Bool) (reads : List (List UInt8 × List F)) :
    Option (Option (Returned F × Message F) × Impl F × List (Event F)) :=
  let s := s.ensureStackLevel moves
  (Native.getNext s.conn reads).map fun
    | (.message ptr m, c, es) =>
      let s := s.received c grows
      (some (s.returned ptr m, m), s.setMsg (s.returned ptr m), es)
    | (.error _, c, es) => (none, s.received c grows, es)

end Impl

/-! ## The callers -/

/-- A message in use, and its payload when it was returned. `reentered`: a deeper level has read
since then. -/
structure Held (F : Type*) where
  msg : Returned F
  payload : List UInt8
  reentered : Bool

/-- A connection, and what its callers hold at each level, the last one first. -/
structure Sys (F : Type*) where
  impl : Impl F
  held : List (Option (Held F))

/-- The calls. -/
inductive Act (F : Type*)
  | enter
  | leave
  | getNext (moves grows : Bool) (reads : List (List UInt8 × List F))

/-- What happens in the connection, and the messages that are returned. -/
inductive Note (F : Type*)
  | event (e : Event F)
  | returned (level : ℕ) (m : Message F)

/-- The first `get_next` of a level: the level that was read from before is re-entered. -/
def markReentered (pending : ℕ) (held : List (Option (Held F))) : List (Option (Held F)) :=
  if pending = 0 then held
  else held.modify pending fun h => h.map fun h => { h with reentered := true }

/-- Calls that are properly nested. A message is in use until the next `get_next` of its level, or
its end. -/
def reentering : Machine (Sys F) (Act F) (Note F) where
  step s
    | .enter => some (⟨s.impl.enter, none :: s.held⟩, [])
    | .leave =>
      match s.held with
      | _ :: h :: held => some (⟨s.impl.leave, h :: held⟩, [])
      | _ => none
    | .getNext moves grows reads =>
      (s.impl.getNext moves grows reads).map fun
        | (r, impl, es) =>
          let held := (markReentered s.impl.pending s.held).tail
          (⟨impl, (r.map fun r => ⟨r.1, r.2.payload, false⟩) :: held⟩,
            es.map .event ++ (r.map fun r => .returned held.length r.2).toList)

/-- A connection, before any call. -/
def Sys.new : Sys F := ⟨.new, [none]⟩

/-- The message of the level that is re-entered has not been re-entered before. -/
def notReentered (s : Sys F) : Act F → Bool
  | .getNext _ _ _ =>
    s.impl.pending = 0 || ((s.held.drop s.impl.pending).head?.join.all fun h => !h.reentered)
  | _ => true

/-- The message is as it was when it was returned: what the level says about it, and its payload. -/
def Intact (s : Impl F) (item : Item F) (h : Held F) : Prop :=
  item.msg = some h.msg ∧
    ∃ data, s.load h.msg.block = some data ∧ (data.drop h.msg.ptr).take h.msg.size = h.payload

/-! ## The blocks of the levels -/

section Levels

variable {s s' : Impl F} {item : Item F} {h : Option (Held F)} {stack : List (Item F)}

/-- The blocks that are put aside. -/
def Impl.aside (s : Impl F) : List ℕ := s.stack.filterMap Item.old

/-- A level that is not the last one: its message is in the block that is put aside. -/
def LowerOk (s : Impl F) (item : Item F) (h : Option (Held F)) : Prop :=
  ∀ x, h = some x → Intact s item x ∧ item.old = some x.msg.block ∧ x.reentered = true

/-- The last level: its message is in the receive buffer, until it is re-entered. -/
def TopOk (s : Impl F) (item : Item F) (h : Option (Held F)) : Prop :=
  ∀ x, h = some x → Intact s item x ∧
    if x.reentered then item.old = some x.msg.block else x.msg.block = s.cur

/-- **The invariant**: no block is in use twice, and the messages are where they belong. -/
structure Inv (s : Sys F) : Prop where
  nodup : (s.impl.cur :: s.impl.aside).Nodup
  fresh : ∀ b ∈ s.impl.cur :: s.impl.aside, b < s.impl.fresh
  levels : ∃ item stack h hs, s.impl.stack = item :: stack ∧
    s.held = replicate s.impl.pending none ++ h :: hs ∧ TopOk s.impl item h ∧
    List.Forall₂ (LowerOk s.impl) stack hs

theorem inv_new : Inv (Sys.new : Sys F) where
  nodup := nodup_singleton _
  fresh b hb := by
    obtain rfl := mem_singleton.mp hb
    exact Nat.one_pos
  levels := ⟨⟨none, none⟩, [], none, [], rfl, rfl, nofun, .nil⟩

theorem LowerOk.none (s : Impl F) (item : Item F) : LowerOk s item none := nofun

theorem TopOk.none (s : Impl F) (item : Item F) : TopOk s item none := nofun

theorem LowerOk.frame (hl : LowerOk s item h)
    (hsame : ∀ b, item.old = some b → s'.load b = s.load b) : LowerOk s' item h := by
  intro x hx
  obtain ⟨⟨hmsg, data, hload, hpayload⟩, hold, hre⟩ := hl x hx
  exact ⟨⟨hmsg, data, by rw [hsame _ hold, hload], hpayload⟩, hold, hre⟩

theorem forall₂_lower_frame {hs : List (Option (Held F))} (hl : List.Forall₂ (LowerOk s) stack hs)
    (hsame : ∀ b ∈ stack.filterMap Item.old, s'.load b = s.load b) :
    List.Forall₂ (LowerOk s') stack hs := by
  induction hl with
  | nil => exact .nil
  | @cons item h stack hs hfirst _ ih =>
    refine .cons (hfirst.frame fun b hb => hsame b ?_) (ih fun b hb => hsame b ?_)
    · exact mem_filterMap.mpr ⟨item, mem_cons_self, hb⟩
    · obtain ⟨i, hi, hib⟩ := mem_filterMap.mp hb
      exact mem_filterMap.mpr ⟨i, mem_cons_of_mem _ hi, hib⟩

theorem LowerOk.top (hl : LowerOk s item h) : TopOk s item h := by
  intro x hx
  obtain ⟨hintact, hold, hre⟩ := hl x hx
  exact ⟨hintact, by rw [if_pos hre]; exact hold⟩

theorem aside_sublist : (cur :: stack.filterMap Item.old).Sublist
    (cur :: (item :: stack).filterMap Item.old) :=
  ((sublist_cons_self item stack).filterMap _).cons_cons _

theorem mem_aside_cons (hb : b ∈ stack.filterMap Item.old) :
    b ∈ (item :: stack).filterMap Item.old :=
  ((sublist_cons_self item stack).filterMap _).subset hb

theorem ne_cur_of_mem {blocks : List ℕ} (hnodup : (cur :: blocks).Nodup) (hb : b ∈ blocks) :
    b ≠ cur := by
  rintro rfl
  exact (nodup_cons.mp hnodup).1 hb

theorem ne_old_of_mem (hnodup : (cur :: (item :: stack).filterMap Item.old).Nodup)
    (hb : b ∈ stack.filterMap Item.old) : some b ≠ item.old := by
  intro hold
  have haside : (item :: stack).filterMap Item.old = b :: stack.filterMap Item.old := by
    rw [filterMap_cons, ← hold]
  rw [haside] at hnodup
  exact (nodup_cons.mp (nodup_cons.mp hnodup).2).1 hb

theorem Impl.load_aside (hb : b ≠ s.cur) : s.load b = s.mem b := if_neg hb

end Levels

/-! ## The calls keep the invariant -/

section Steps

variable {s : Sys F} {hs : List (Option (Held F))} {stack : List (Item F)} {m : Message F}
  {t : Impl F} {item : Item F}

theorem Inv.enter (hi : Inv s) : Inv ⟨s.impl.enter, none :: s.held⟩ := by
  obtain ⟨hnodup, hfresh, item, stack, h, hs, hstack, hheld, htop, hlower⟩ := hi
  exact ⟨hnodup, hfresh, item, stack, h, hs, hstack, by rw [hheld]; rfl, htop, hlower⟩

theorem Inv.leave {h₀ h₁ : Option (Held F)} {held : List (Option (Held F))} (hi : Inv s)
    (hheld : s.held = h₀ :: h₁ :: held) : Inv ⟨s.impl.leave, h₁ :: held⟩ := by
  obtain ⟨hnodup, hfresh, item, stack, h, hs, hstack, hlevels, htop, hlower⟩ := hi
  unfold Impl.leave
  rw [hlevels] at hheld
  cases hpending : s.impl.pending with
  | succ n =>
    rw [hpending] at hheld
    obtain ⟨-, hrest⟩ := List.cons.inj hheld
    exact ⟨hnodup, hfresh, item, stack, h, hs, hstack, hrest.symm, htop, hlower⟩
  | zero =>
    rw [hpending] at hheld
    obtain ⟨rfl, rfl⟩ : h = h₀ ∧ hs = h₁ :: held := List.cons.inj hheld
    rw [if_neg (Nat.lt_irrefl 0), hstack]
    rw [Impl.aside, hstack] at hnodup hfresh
    -- the block of the level that is left belongs to no other level
    set t : Impl F := { s.impl with stack := stack, mem := Impl.free s.impl.mem item.old, pending := 0 }
    have hsame : ∀ b ∈ stack.filterMap Item.old, t.load b = s.impl.load b := by
      intro b hb
      have hcur : b ≠ s.impl.cur := ne_cur_of_mem hnodup (mem_aside_cons hb)
      have hmem : t.load b = Impl.free s.impl.mem item.old b := Impl.load_aside hcur
      rw [hmem, Impl.load_aside hcur]
      exact if_neg (ne_old_of_mem hnodup hb)
    have hlower' := forall₂_lower_frame hlower hsame
    cases hlower' with
    | @cons item' _ stack' _ hnext hrest =>
      exact ⟨hnodup.sublist aside_sublist, fun b hb => hfresh b (aside_sublist.subset hb), item',
        stack', h₁, held, rfl, rfl, hnext.top, hrest⟩

theorem notReentered_held {moves grows : Bool} {h : Option (Held F)}
    (hc : notReentered s (.getNext moves grows reads) = true) (hpending : s.impl.pending = n + 1)
    (hheld : s.held = replicate s.impl.pending none ++ h :: hs) :
    ∀ x, h = some x → x.reentered = false := by
  rintro x rfl
  have hdrop : s.held.drop (n + 1) = some x :: hs := by
    rw [hheld, hpending]
    exact drop_left' (length_replicate ..)
  simpa [notReentered, hpending, hdrop] using hc

/-- A level is pushed: no other level uses the new receive buffer, and the levels keep their
contents. -/
structure Pushed (s t : Impl F) (n : ℕ) (item : Item F) (stack : List (Item F)) : Prop where
  pending : t.pending = 0
  levels : t.stack =
    replicate (n + 1) ⟨none, none⟩ ++ { item with old := some s.cur } :: stack
  fresh : t.fresh = s.fresh + 1
  unused : t.cur ∉ s.cur :: stack.filterMap Item.old
  cur : t.cur < t.fresh
  load : ∀ b ∈ s.cur :: stack.filterMap Item.old, t.load b = s.load b

theorem ensureStackLevel_pushed {s : Impl F} (moves : Bool) (hpending : s.pending = n + 1)
    (hstack : s.stack = item :: stack)
    (hnodup : (s.cur :: (item :: stack).filterMap Item.old).Nodup)
    (hfresh : ∀ b ∈ s.cur :: (item :: stack).filterMap Item.old, b < s.fresh) :
    Pushed s (s.ensureStackLevel moves) n item stack := by
  obtain ⟨hcur, hmem, hfresh'⟩ : (s.ensureStackLevel moves).cur =
        (if moves then s.fresh else item.old.getD s.fresh) ∧
      (s.ensureStackLevel moves).mem =
        update (Impl.free s.mem item.old) s.cur (some s.conn.inb.data) ∧
      (s.ensureStackLevel moves).fresh = s.fresh + 1 := by
    rw [Impl.ensureStackLevel, hpending, hstack]
    exact ⟨rfl, rfl, rfl⟩
  have hlt : ∀ b ∈ s.cur :: stack.filterMap Item.old, b < s.fresh := fun b hb =>
    hfresh b (aside_sublist.subset hb)
  -- it is new, or the one that the level has put aside before
  have hblock : (s.ensureStackLevel moves).cur = s.fresh ∨
      item.old = some (s.ensureStackLevel moves).cur := by
    rw [hcur]
    cases moves with
    | true => exact .inl rfl
    | false =>
      cases item.old with
      | none => exact .inl rfl
      | some b => exact .inr rfl
  have hunused : (s.ensureStackLevel moves).cur ∉ s.cur :: stack.filterMap Item.old := by
    intro hmem
    rcases hblock with hnew | hold
    · rw [hnew] at hmem
      exact Nat.lt_irrefl _ (hlt _ hmem)
    · have haside : (s.ensureStackLevel moves).cur ∈ (item :: stack).filterMap Item.old :=
        mem_filterMap.mpr ⟨item, mem_cons_self, hold⟩
      rcases mem_cons.mp hmem with heq | hmem
      · exact ne_cur_of_mem hnodup haside heq
      · exact ne_old_of_mem hnodup hmem hold.symm
  refine ⟨?_, ?_, hfresh', hunused, ?_, fun b hb => ?_⟩
  · rw [Impl.ensureStackLevel, hpending, hstack]
  · rw [Impl.ensureStackLevel, hpending, hstack]
  · rw [hfresh']
    rcases hblock with hnew | hold
    · rw [hnew]
      exact Nat.lt_succ_self _
    · refine Nat.lt_succ_of_lt (hfresh _ (mem_cons_of_mem _ ?_))
      exact mem_filterMap.mpr ⟨item, mem_cons_self, hold⟩
  · have hb' : b ≠ (s.ensureStackLevel moves).cur := fun heq => hunused (heq ▸ hb)
    rw [Impl.load_aside hb', hmem]
    rcases eq_or_ne b s.cur with rfl | hne
    · rw [update_self, Impl.load, if_pos rfl]
    · rcases mem_cons.mp hb with heq | hb
      · exact absurd heq hne
      · rw [update_of_ne hne, Impl.load_aside hne]
        exact if_neg (ne_old_of_mem hnodup hb)

theorem Pushed.aside {s : Impl F} (hp : Pushed s t n item stack) :
    t.aside = s.cur :: stack.filterMap Item.old := by
  have hempty : (replicate (n + 1) (⟨none, none⟩ : Item F)).filterMap Item.old = [] := by
    rw [filterMap_eq_nil_iff]
    intro i hi
    rw [eq_of_mem_replicate hi]
  rw [Impl.aside, hp.levels, filterMap_append, hempty, nil_append, filterMap_cons]

theorem modify_replicate {α : Type*} {a x : α} {l : List α} {f : α → α} (n : ℕ) :
    (replicate n a ++ x :: l).modify n f = replicate n a ++ f x :: l := by
  induction n with
  | zero => rfl
  | succ n ih =>
    rw [replicate_succ, cons_append, cons_append, ← ih]
    rfl

theorem forall₂_replicate_append (n : ℕ) (hl : List.Forall₂ (LowerOk t) stack hs) :
    List.Forall₂ (LowerOk t) (replicate n ⟨none, none⟩ ++ stack)
      (replicate n none ++ hs) := by
  induction n with
  | zero => exact hl
  | succ n ih => exact .cons (.none _ _) ih

/-- **Pushing a level.** The message of the level before stays in its block, which is put aside. -/
theorem Inv.ensure {moves grows : Bool} (hi : Inv s)
    (hc : notReentered s (.getNext moves grows reads) = true) :
    Inv ⟨s.impl.ensureStackLevel moves, markReentered s.impl.pending s.held⟩ ∧
      (s.impl.ensureStackLevel moves).pending = 0 := by
  obtain ⟨hnodup, hfresh, item, stack, h, hs, hstack, hheld, htop, hlower⟩ := hi
  cases hpending : s.impl.pending with
  | zero =>
    have hsame : s.impl.ensureStackLevel moves = s.impl := by
      rw [Impl.ensureStackLevel, hpending]
    rw [hsame, markReentered, if_pos rfl]
    exact ⟨⟨hnodup, hfresh, item, stack, h, hs, hstack, hheld, htop, hlower⟩, hpending⟩
  | succ n =>
    have hnotre := notReentered_held hc hpending hheld
    rw [Impl.aside, hstack] at hnodup hfresh
    have hp := ensureStackLevel_pushed moves hpending hstack hnodup hfresh
    have haside := hp.aside
    set t := s.impl.ensureStackLevel moves
    have hheld' : markReentered (n + 1) s.held = replicate (n + 1) none ++
        (h.map fun x => { x with reentered := true }) :: hs := by
      rw [markReentered, if_neg (Nat.succ_ne_zero n), hheld, hpending, modify_replicate]
    -- the message of the level is in the block that is put aside
    have hitem : LowerOk t { item with old := some s.impl.cur }
        (h.map fun x => { x with reentered := true }) := by
      intro y hy
      obtain ⟨x, hx, rfl⟩ := map_eq_some_iff.mp hy
      obtain ⟨⟨hmsg, data, hload, hpayload⟩, hwhere⟩ := htop x hx
      rw [hnotre x hx] at hwhere
      have hblock : x.msg.block = s.impl.cur := hwhere
      refine ⟨⟨hmsg, data, ?_, hpayload⟩, by rw [← hblock], rfl⟩
      show t.load x.msg.block = _
      rw [hp.load _ (by rw [hblock]; exact mem_cons_self), hload]
    have hlower' : List.Forall₂ (LowerOk t) stack hs :=
      forall₂_lower_frame hlower fun b hb => hp.load b (mem_cons_of_mem _ hb)
    refine ⟨⟨?_, ?_, ⟨none, none⟩, replicate n ⟨none, none⟩ ++
      { item with old := some s.impl.cur } :: stack, none, replicate n none ++
        (h.map fun x => { x with reentered := true }) :: hs, ?_, ?_, .none _ _,
      forall₂_replicate_append n (.cons hitem hlower')⟩, hp.pending⟩
    · show (t.cur :: t.aside).Nodup
      rw [haside]
      exact nodup_cons.mpr ⟨hp.unused, hnodup.sublist aside_sublist⟩
    · show ∀ b ∈ t.cur :: t.aside, b < t.fresh
      rw [haside]
      refine forall_mem_cons.mpr ⟨hp.cur, fun b hb => ?_⟩
      rw [hp.fresh]
      exact Nat.lt_succ_of_lt (hfresh b (aside_sublist.subset hb))
    · rw [hp.levels]
      rfl
    · show markReentered (n + 1) s.held = replicate t.pending none ++ _
      rw [hheld', hp.pending]
      rfl

/-- The receive buffer is another one, or has other contents: this concerns the last level only. -/
structure Refilled (t t' : Impl F) : Prop where
  pending : t'.pending = t.pending
  levels : t'.stack = t.stack
  fresh : t.fresh ≤ t'.fresh
  cur : t'.cur < t'.fresh
  unused : t'.cur ∉ t.aside
  load : ∀ b ∈ t.aside, t'.load b = t.load b

theorem received_refilled (c : Conn F) (grows : Bool) (hnodup : (t.cur :: t.aside).Nodup)
    (hfresh : ∀ b ∈ t.cur :: t.aside, b < t.fresh) : Refilled t (t.received c grows) := by
  unfold Impl.received
  split_ifs with hmoved
  · have hne : ∀ b ∈ t.aside, b ≠ t.fresh := fun b hb =>
      Nat.ne_of_lt (hfresh b (mem_cons_of_mem _ hb))
    refine ⟨rfl, rfl, Nat.le_succ _, Nat.lt_succ_self _, fun hmem => hne _ hmem rfl, fun b hb => ?_⟩
    have hcur := ne_cur_of_mem hnodup hb
    rw [Impl.load_aside hcur, Impl.load_aside (hne b hb)]
    exact if_neg fun heq => hcur (some.inj heq)
  · refine ⟨rfl, rfl, Nat.le_refl _, hfresh _ mem_cons_self, ?_, fun b hb => ?_⟩
    · exact (nodup_cons.mp hnodup).1
    · have hcur := ne_cur_of_mem hnodup hb
      rw [Impl.load_aside hcur]
      exact if_neg hcur

/-- **Reading.** Only the last level has another message, if any. -/
theorem Inv.refilled {t' : Impl F} {h h' : Option (Held F)} {f : Item F → Item F}
    (hi : Inv ⟨t, h :: hs⟩) (hpending : t.pending = 0) (hr : Refilled t t')
    (hf : ∀ i, (f i).old = i.old) (htop : ∀ i, TopOk t' (f i) h') :
    Inv ⟨{ t' with stack := t'.stack.modifyHead f }, h' :: hs⟩ := by
  obtain ⟨hnodup, hfresh, item, stack, h₁, hs₁, hstack, hheld, -, hlower⟩ := hi
  rw [hpending] at hheld
  obtain ⟨rfl, rfl⟩ : h = h₁ ∧ hs = hs₁ := List.cons.inj hheld
  have hstack' : t'.stack.modifyHead f = f item :: stack := by
    rw [hr.levels, hstack]
    rfl
  have haside : (f item :: stack).filterMap Item.old = t.aside := by
    rw [Impl.aside, hstack, filterMap_cons, filterMap_cons, hf]
  rw [hstack']
  refine ⟨?_, ?_, f item, stack, h', hs, rfl, ?_, htop item, ?_⟩
  · show (t'.cur :: (f item :: stack).filterMap Item.old).Nodup
    rw [haside]
    exact nodup_cons.mpr ⟨hr.unused, (nodup_cons.mp hnodup).2⟩
  · show ∀ b ∈ t'.cur :: (f item :: stack).filterMap Item.old, b < t'.fresh
    rw [haside]
    refine forall_mem_cons.mpr ⟨hr.cur, fun b hb => ?_⟩
    exact Nat.lt_of_lt_of_le (hfresh b (mem_cons_of_mem _ hb)) hr.fresh
  · show _ = replicate t'.pending none ++ _
    rw [hr.pending, hpending]
    rfl
  · have hlower' : List.Forall₂ (LowerOk t') stack hs := by
      refine forall₂_lower_frame hlower fun b hb => hr.load b ?_
      rw [Impl.aside, hstack]
      exact mem_aside_cons hb
    exact hlower'

theorem negotiate_inb (c : Conn F) (data : List UInt8) : (c.negotiate data).1.inb = c.inb := by
  unfold Conn.negotiate
  split_ifs <;> rfl

theorem consume_data (b : Buffer F) (bytes n : ℕ) : (b.consume bytes n).data = b.data := by
  simp only [Buffer.consume]
  split_ifs <;> rfl

theorem preparePacket_payload {c c' : Conn F} (hp : preparePacket c = (.message ptr m, c', es)) :
    (c'.inb.data.drop ptr).take m.payload.length = m.payload := by
  simp only [preparePacket] at hp
  have hinb := negotiate_inb c (c.inb.data.drop c.inb.offset)
  split_ifs at hp
  · cases hp
  · cases hp
  · cases hp
  · cases hp
    rw [consume_data, hinb, drop_drop, length_take, ← take_eq_take_min]

theorem Got.payload {c c' : Conn F} (h : Got c reads (.message ptr m) c' es) :
    (c'.inb.data.drop ptr).take m.payload.length = m.payload := by
  generalize hres : Result.message ptr m = res at h
  induction h with
  | again | failed | closed | rejected => cases hres
  | message hp =>
    cases hres
    exact preparePacket_payload hp
  | more _ _ _ _ ih => exact ih hres

/-- **The first messages stay as they are.** -/
theorem Inv.step {a : Act F} {s' : Sys F} {es : List (Note F)} (hi : Inv s)
    (hstep : (reentering.restrict notReentered).step s a = some (s', es)) : Inv s' := by
  obtain ⟨hc, hstep⟩ := Machine.restrict_step.mp hstep
  cases a with
  | enter =>
    cases hstep
    exact hi.enter
  | leave =>
    simp only [reentering] at hstep
    split at hstep
    · rename_i h₀ h₁ held hheld
      cases hstep
      exact hi.leave hheld
    · cases hstep
  | getNext moves grows reads =>
    obtain ⟨⟨r, impl, es₁⟩, hnext, heq⟩ := map_eq_some_iff.mp hstep
    cases heq
    obtain ⟨⟨res, c, es₂⟩, hgot, heq⟩ := map_eq_some_iff.mp hnext
    obtain ⟨hensured, hpending⟩ := hi.ensure hc
    set t := s.impl.ensureStackLevel moves
    have hr := received_refilled c grows hensured.nodup hensured.fresh
    obtain ⟨item, stack, h, hs, -, hheld, -, -⟩ := hensured.levels
    have hmark : markReentered s.impl.pending s.held = h :: hs := by
      rw [hpending] at hheld
      exact hheld
    rw [hmark] at hensured ⊢
    cases res with
    | error e =>
      cases heq
      have hinv := hensured.refilled (f := id) hpending hr (fun _ => rfl) fun _ => .none _ _
      rw [modifyHead_id] at hinv
      exact hinv
    | message ptr m =>
      cases heq
      -- the new message is in the receive buffer
      refine hensured.refilled hpending hr (fun _ => rfl) fun i x hx => ?_
      cases hx
      have hload : (t.received c grows).load (t.received c grows).cur = some c.inb.data := by
        rw [Impl.load, if_pos rfl]
        unfold Impl.received
        split_ifs <;> rfl
      exact ⟨⟨rfl, c.inb.data, hload, (getNext_got hgot).payload⟩, rfl⟩

end Steps

/-! ## What is returned -/

/-- What happened in the connection, and the messages that were returned at any level. -/
def events (tr : List (Note F)) : List (Event F) :=
  tr.filterMap fun
    | .event e => some e
    | .returned _ _ => none

@[inherit_doc events]
def messages (tr : List (Note F)) : List (Message F) :=
  tr.filterMap fun
    | .event _ => none
    | .returned _ m => some m

theorem notes_getNext (es : List (Event F)) (level : ℕ) (r : Option (Returned F × Message F)) :
    events (es.map .event ++ (r.map fun r => .returned level r.2).toList) = es ∧
      messages (es.map .event ++ (r.map fun r => .returned level r.2).toList) =
        (r.map Prod.snd).toList := by
  have hevents : (es.map Note.event).filterMap (fun | .event e => some e | .returned _ _ => none) =
      es := by
    rw [filterMap_map]
    exact filterMap_some
  have hmessages : (es.map Note.event).filterMap
      (fun | .event _ => none | .returned _ m => some m) = [] := by
    rw [filterMap_map]
    exact filterMap_eq_nil_iff.mpr fun _ _ => rfl
  cases r <;> simp [events, messages, hevents, hmessages]

section Accounting

variable {s : Impl F} {tr : List (Note F)}

theorem ensureStackLevel_accounts (moves : Bool) (hw : s.conn.Wf) :
    Accounts s.conn (s.ensureStackLevel moves).conn [] [] := by
  have hoffset := hw.offset
  have hsize := hw.size
  unfold Impl.ensureStackLevel
  split
  · have htake : (s.conn.inb.data.take s.conn.inb.size).length = s.conn.inb.size := by
      rw [length_take]
      omega
    refine .of_pending ⟨hw.version, hw.hdrSize, hoffset, ?_, hw.fdsOffset⟩ ?_
      (append_nil _).symm
    · show s.conn.inb.size ≤ (s.conn.inb.data.take s.conn.inb.size ++ _).length
      rw [length_append, htake]
      exact Nat.le_add_right _ _
    · show ((s.conn.inb.data.take s.conn.inb.size ++ _).drop s.conn.inb.offset).take
        (s.conn.inb.size - s.conn.inb.offset) = s.conn.pending ++ []
      rw [append_nil, drop_append_of_le_length (by omega), drop_take]
      exact take_left' (by rw [length_take, length_drop]; omega)
  · exact .of_pending hw (append_nil _).symm (append_nil _).symm

/-- **A call** returns what was received. -/
theorem Impl.getNext_accounts {moves grows : Bool} {r : Option (Returned F × Message F)}
    {s' : Impl F} (hw : s.conn.Wf) (h : s.getNext moves grows reads = some (r, s', es))
    (hstart : .start 0 ∉ es) : Accounts s.conn s'.conn es (r.map Prod.snd).toList := by
  obtain ⟨⟨res, c, es₁⟩, hgot, heq⟩ := map_eq_some_iff.mp h
  have hpush := ensureStackLevel_accounts moves hw
  have hconn : ∀ t : Impl F, (t.received c grows).conn = c := by
    intro t
    unfold Impl.received
    split_ifs <;> rfl
  cases res with
  | error e =>
    cases heq
    have hread := (getNext_got hgot).accounts hpush.wf hstart
    rw [hconn]
    exact hpush.trans hread
  | message ptr m =>
    cases heq
    have hread := (getNext_got hgot).accounts hpush.wf hstart
    show Accounts _ (Impl.received _ c grows).conn _ _
    rw [hconn]
    exact hpush.trans hread

theorem reentering_accounts {s : Sys F} (hr : reentering.Reaches Sys.new s tr)
    (hstart : .start 0 ∉ events tr) : Accounts Conn.new s.impl.conn (events tr) (messages tr) := by
  induction hr with
  | refl => exact .of_pending wf_new rfl rfl
  | @snoc s s' tr es a _ hstep ih =>
    have happend : events (tr ++ es) = events tr ++ events es ∧
        messages (tr ++ es) = messages tr ++ messages es :=
      ⟨filterMap_append, filterMap_append⟩
    rw [happend.1] at hstart
    rw [happend.1, happend.2]
    have hprev := ih fun hmem => hstart (mem_append_left _ hmem)
    have hnext : .start 0 ∉ events es := fun hmem => hstart (mem_append_right _ hmem)
    refine hprev.trans ?_
    cases a with
    | enter =>
      cases hstep
      exact .of_pending hprev.wf (append_nil _).symm (append_nil _).symm
    | leave =>
      have hconn : s.impl.leave.conn = s.impl.conn := by
        unfold Impl.leave
        split_ifs
        · rfl
        · split <;> rfl
      simp only [reentering] at hstep
      split at hstep
      · cases hstep
        show Accounts s.impl.conn s.impl.leave.conn [] []
        rw [hconn]
        exact .of_pending hprev.wf (append_nil _).symm (append_nil _).symm
      · cases hstep
    | getNext moves grows reads =>
      obtain ⟨⟨r, impl, es₁⟩, hcall, heq⟩ := map_eq_some_iff.mp hstep
      cases heq
      rw [(notes_getNext _ _ _).1] at hnext ⊢
      rw [(notes_getNext _ _ _).2]
      exact Impl.getNext_accounts hprev.wf hcall hnext

end Accounting

/-- **Re-entering a connection.** Calls are properly nested. If `get_next` is called in at most one
of the pairs of `enter` and `leave` that follow a message, then the message stays as it was
returned, at every level, until the next `get_next` of the level or until it is left. For a peer of
version 3, what was received is the messages of all levels, in this order, and what is still in the
buffer. -/
theorem reenter_keeps_messages : (∀ (s : Sys F) (tr : List (Note F)),
      (reentering.restrict notReentered).Reaches Sys.new s tr →
      (∀ h ∈ s.held.take s.impl.pending, h = none) ∧
      List.Forall₂ (fun item h => ∀ x, h = some x → Intact s.impl item x) s.impl.stack
        (s.held.drop s.impl.pending)) ∧
    ∀ (s : Sys F) (tr : List (Note F)), reentering.Reaches Sys.new s tr → .start 0 ∉ events tr →
      storedBytes (events tr) = encodeAll (messages tr) ++ s.impl.conn.pending ∧
      storedFds (events tr) = fdsAll (messages tr) ++ s.impl.conn.pendingFds := by
  constructor
  · intro s tr hr
    obtain ⟨-, -, item, stack, h, hs, hstack, hheld, htop, hlower⟩ :=
      hr.invariant inv_new fun hi hstep => hi.step hstep
    have hlen : (replicate s.impl.pending (none : Option (Held F))).length = s.impl.pending :=
      length_replicate ..
    rw [hheld, hstack, take_left' hlen, drop_left' hlen]
    refine ⟨fun x hx => eq_of_mem_replicate hx, .cons (fun x hx => (htop x hx).1) ?_⟩
    exact hlower.imp fun _ _ hl x hx => (hl x hx).1
  · intro s tr hr hstart
    have hacc := reentering_accounts hr hstart
    exact ⟨hacc.bytes, hacc.fds⟩

/-! ## Messages of one byte -/

def sample (x : UInt8) : Message ℕ := ⟨1, 5, 0, [x], []⟩

theorem preparePacket_sample (x : UInt8) (r : List UInt8) :
    preparePacket (⟨3, 16, ⟨(sample x).encode ++ r, 17, [], 0, 0⟩⟩ : Conn ℕ) =
      (.message 16 (sample x), ⟨3, 16, ⟨(sample x).encode ++ r, 0, [], 0, 0⟩⟩, []) := by
  have hwords : word ((sample x).encode ++ r) 0 = 1 ∧
      word ((sample x).encode ++ r) 1 = 5 * 2 ^ 24 + 1 ∧
      word ((sample x).encode ++ r) 2 = 0 ∧ word ((sample x).encode ++ r) 3 = 0 :=
    word_encode (m := sample x) (by show 1 < 2 ^ 24; decide) (Nat.two_pow_pos 32)
  obtain ⟨h0, h1, h2, h3⟩ := hwords
  simp only [preparePacket, Conn.negotiate, isStart, header, drop_zero, h0, h1, h2, h3]
  rfl

theorem getNext_sample {d : List UInt8} (hd : 17 ≤ d.length) (x : UInt8) :
    Native.getNext ⟨3, 16, ⟨d, 0, [], 0, 0⟩⟩ [((sample x).encode, [])] =
      some (.message 16 (sample x), ⟨3, 16, ⟨(sample x).encode ++ d.drop 17, 0, [], 0, 0⟩⟩,
        [.recv 0 0, .stored (sample x).encode []]) := by
  have hgrow : (⟨d, 0, [], 0, 0⟩ : Buffer ℕ).ensureSize 16 = ⟨d, 0, [], 0, 0⟩ :=
    if_neg (show ¬ d.length < 0 + 16 by omega)
  have hfirst : preparePacket (⟨3, 16, ⟨d, 0, [], 0, 0⟩⟩ : Conn ℕ) =
      (.need 16, ⟨3, 16, ⟨d, 0, [], 0, 0⟩⟩, []) := rfl
  have hroom : ¬ d.length < 0 + (sample x).encode.length := Nat.not_lt.mpr hd
  have hne : (sample x).encode ≠ [] := cons_ne_nil _ _
  have hrefill : (⟨d, 0, [], 0, 0⟩ : Buffer ℕ).refill (sample x).encode [] =
      (true, ⟨(sample x).encode ++ d.drop 17, 17, [], 0, 0⟩, [.stored (sample x).encode []]) := by
    have hfew : ¬ maxFdsMsg < ([] : List ℕ).length := Nat.not_lt_zero _
    have hfit : ¬ maxFds < ([] : List ℕ).length + ([] : List ℕ).length := Nat.not_lt_zero _
    rfl
  rw [getNext, hfirst]
  simp only [hgrow, if_neg hroom, if_neg hne, hrefill]
  rw [getNext, preparePacket_sample]
  rfl

/-- A call that reads one message. -/
def readSample (x : UInt8) : Act ℕ := .getNext false false [((sample x).encode, [])]

/-- The memory of the receive buffer, when a call reads into it. -/
def sampleRoom (s : Sys ℕ) : List UInt8 := (s.impl.ensureStackLevel false).conn.inb.data

/-- After such a call, for a level whose buffer is empty. -/
def afterSample (s : Sys ℕ) (x : UInt8) : Sys ℕ :=
  let r : Returned ℕ := ⟨1, 5, 0, [], (s.impl.ensureStackLevel false).cur, 16, 1⟩
  ⟨{ s.impl.ensureStackLevel false with
      conn := ⟨3, 16, ⟨(sample x).encode ++ (sampleRoom s).drop 17, 0, [], 0, 0⟩⟩
      stack := (s.impl.ensureStackLevel false).stack.modifyHead fun item =>
        { item with msg := some r } },
    some ⟨r, [x], false⟩ :: (markReentered s.impl.pending s.held).tail⟩

theorem step_readSample {s : Sys ℕ} (x : UInt8) (hroom : 17 ≤ (sampleRoom s).length)
    (hconn : (s.impl.ensureStackLevel false).conn = ⟨3, 16, ⟨sampleRoom s, 0, [], 0, 0⟩⟩) :
    ∃ es, reentering.step s (readSample x) = some (afterSample s x, es) ∧ .start 0 ∉ events es := by
  simp only [readSample, reentering, Impl.getNext, hconn, getNext_sample hroom x, map_some,
    Impl.received, Bool.false_eq_true, and_false, if_false]
  exact ⟨_, rfl, by simp [events]⟩

/-- A caller enters. -/
def enterSample (s : Sys ℕ) : Sys ℕ := ⟨s.impl.enter, none :: s.held⟩

def firstRead : Sys ℕ := afterSample .new 1

def reread : Sys ℕ := afterSample (enterSample firstRead) 2

/-- A message is re-entered twice, each time to read another message: the second of them is read
into the memory of the first message. -/
theorem reentered_twice : ∃ s tr, reentering.Reaches (Sys.new : Sys ℕ) s tr ∧
    ∃ item h, s.impl.stack[1]? = some item ∧ s.held[1]? = some (some h) ∧
      ¬ Intact s.impl item h := by
  refine Machine.Reaches.of_run_such (P := fun s _ => s.impl.stack[1]?.isSome ∧
      (s.held[1]?.join.map fun h => (h.payload, (s.impl.load h.msg.block).map fun data =>
        (data.drop h.msg.ptr).take h.msg.size)) = some ([1], some [3]))
    [readSample 1, .enter, readSample 2, .leave, .enter, readSample 3] (by decide +kernel) ?_
  intro s tr _ ⟨hitem, hheld⟩
  obtain ⟨item, hitem⟩ := Option.isSome_iff_exists.mp hitem
  obtain ⟨h, hh, hloaded⟩ := map_eq_some_iff.mp hheld
  refine ⟨item, h, hitem, Option.join_eq_some_iff.mp hh, ?_⟩
  -- the block of the first message is the receive buffer again
  rintro ⟨-, data, hload, hpayload⟩
  simp [hload, hpayload] at hloaded
  grind

theorem reenter_keeps_messages_once : ∃ tr,
    (reentering.restrict notReentered).Reaches (Sys.new : Sys ℕ) reread tr ∧
      reentering.Reaches (Sys.new : Sys ℕ) reread tr ∧ .start 0 ∉ events tr ∧
      List.Forall₂ (fun item h => ∀ x, h = some x → Intact reread.impl item x) reread.impl.stack
        (reread.held.drop reread.impl.pending) ∧
      storedBytes (events tr) = encodeAll (messages tr) ++ reread.impl.conn.pending := by
  have hnew : 17 ≤ (replicate maxBufferSize (0 : UInt8)).length := by
    rw [length_replicate]
    decide
  have hroom : ∀ d r : List UInt8, 17 ≤ (((sample 1).encode ++ d).take 0 ++
      (Impl.resize r ((sample 1).encode ++ d).length).drop 0).length := fun d r => by
    rw [take_zero, drop_zero, nil_append, Impl.resize, length_append, length_take, length_replicate,
      length_append, show (sample 1).encode.length = 17 from rfl]
    omega
  obtain ⟨es₁, h₁, hes₁⟩ := step_readSample (s := .new) 1 hnew rfl
  have h₂ : reentering.step firstRead .enter = some (enterSample firstRead, []) := rfl
  obtain ⟨es₃, h₃, hes₃⟩ := step_readSample (s := enterSample firstRead) 2 (hroom _ _) rfl
  have hrun := ((Machine.Reaches.refl.snoc h₁).snoc h₂).snoc h₃
  have hrestricted := ((Machine.Reaches.refl.snoc
    (Machine.restrict_step.mpr ⟨(rfl : notReentered _ _ = true), h₁⟩)).snoc
      (Machine.restrict_step.mpr ⟨(rfl : notReentered _ _ = true), h₂⟩)).snoc
        (Machine.restrict_step.mpr ⟨(rfl : notReentered _ _ = true), h₃⟩)
  have hstart : .start 0 ∉ events ((([] ++ es₁) ++ []) ++ es₃) := by
    rw [events, filterMap_append, append_nil, nil_append, mem_append]
    exact fun hmem => hmem.elim hes₁ hes₃
  exact ⟨_, hrestricted, hrun, hstart, (reenter_keeps_messages.1 _ _ hrestricted).2,
    (reenter_keeps_messages.2 _ _ hrun hstart).1⟩

end PipeWireAO.Native
