import Mathlib.Data.List.Pairwise
import PipeWireAO.FilterGraph.Buffer
import PipeWireAO.Foundation.Bytes
import PipeWireAO.Foundation.Heap

/-!
# Copying metadata

`spa_meta_records_copy` copies the records of a buffer that state a fact to another one, and not those
that belong to the transport. Descriptors and records lie in one memory, at any addresses. All checks
come before the first write, and what they leave cannot fail or clobber anything: a record that is
written has no byte in common with another one, with a source, or with a descriptor.
-/

namespace PipeWireAO.FilterGraph

open List
open Foundation (Heap Block ofLe toLe)

/-! ## The source -/

/-- `struct spa_meta`. -/
structure Descriptor where
  (type size data : ℕ)
  deriving DecidableEq

/-- `sizeof(struct spa_meta)`. -/
def descriptorSize : ℕ := 16

def descriptorAt (h : Heap) (a : ℕ) : Descriptor :=
  ⟨ofLe (h.load a 4), ofLe (h.load (a + 4) 4), ofLe (h.load (a + 8) 8)⟩

def descriptors (h : Heap) (metas count : ℕ) : List Descriptor :=
  (List.range count).map fun i => descriptorAt h (metas + descriptorSize * i)

def Descriptor.record (d : Descriptor) (h : Heap) : Meta :=
  ⟨d.type, d.size, d.data, (h.load d.data d.size).map UInt8.toNat⟩

/-- The records of an array of descriptors. -/
def records (h : Heap) (metas count : ℕ) : List Meta :=
  (descriptors h metas count).map fun d => d.record h

/-- The sum of two words of the width of an address. -/
def addWord (a b : ℕ) : ℕ := (a + b) % 2 ^ 64

/-- `spa_meta_records_find`. -/
def recordsFind (h : Heap) (metas count type : ℕ) : Option Descriptor :=
  (descriptors h metas count).find? (·.type = type)

/-- The check of a source record: a record of the destination has its type and size, and a place. -/
def copyFits (h : Heap) (dst nDst : ℕ) (s : Descriptor) : Bool :=
  transportOwned s.type ||
    match recordsFind h dst nDst s.type with
    | none => false
    | some d => d.size = s.size && (d.size = 0 || (d.data ≠ 0 && d.data % 8 = 0))

/-- The check of a destination record against the descriptors of the source. -/
def copyOutside (src nSrc : ℕ) (d : Descriptor) : Bool :=
  transportOwned d.type || !(d.size ≠ 0 && d.data < addWord src (nSrc * descriptorSize) &&
    src < addWord d.data d.size)

/-- The check of a source record against a destination record. -/
def copyApart (s d : Descriptor) : Bool :=
  (transportOwned s.type && transportOwned d.type) ||
    !(s.size ≠ 0 && d.size ≠ 0 && (uintptrMax - s.size < s.data || uintptrMax - d.size < d.data ||
      (s.data < addWord d.data d.size && d.data < addWord s.data s.size)))

open List (replicate)

/-- What `spa_meta_record_init` writes. -/
def initRecord (h : Heap) (d : Descriptor) : Heap :=
  if transportOwned d.type then h else h.store d.data (replicate d.size 0)

/-- The loop that clears the destination: `k` records, from record `i` on. -/
def initLoop (dst : ℕ) : ℕ → ℕ → Heap → Bool × Heap
  | 0, _, h => (true, h)
  | k + 1, i, h =>
    let d := descriptorAt h (dst + descriptorSize * i)
    if recordPlaced (d.record h) then initLoop dst k (i + 1) (initRecord h d) else (false, h)

/-- The loop that copies: `k` records, from record `i` on. It has no result if it follows `NULL`. -/
def copyLoop (dst nDst src : ℕ) : ℕ → ℕ → Heap → Option Heap
  | 0, _, h => some h
  | k + 1, i, h =>
    let s := descriptorAt h (src + descriptorSize * i)
    if transportOwned s.type then copyLoop dst nDst src k (i + 1) h
    else
      match recordsFind h dst nDst s.type with
      | none => none
      | some d => copyLoop dst nDst src k (i + 1) (h.store d.data (h.load s.data d.size))

/-- `spa_meta_records_copy`. -/
def recordsCopy (h : Heap) (dst nDst src nSrc : ℕ) : Option (Bool × Heap) :=
  if !recordsValidate src (records h src nSrc) [] || !recordsLayoutValidate dst (records h dst nDst) then
    some (false, h)
  else if dst = src then some (nDst = nSrc, h)
  else if !(descriptors h src nSrc).all (copyFits h dst nDst) then some (false, h)
  else if !(descriptors h dst nDst).all (copyOutside src nSrc) then some (false, h)
  else if !(descriptors h src nSrc).all fun s => (descriptors h dst nDst).all (copyApart s) then
    some (false, h)
  else
    match initLoop dst nDst 0 h with
    | (false, h) => some (false, h)
    | (true, h) => (copyLoop dst nDst src nSrc 0 h).map (true, ·)

/-! ## Layouts -/

def Descriptor.block (d : Descriptor) : Block := ⟨d.data, d.size⟩

/-- A record that states a fact. -/
def Descriptor.fact (d : Descriptor) : Bool := !transportOwned d.type

variable {d d' : Descriptor} {metas count i k : ℕ} {m : Meta}

theorem Descriptor.fact_eq_true : d.fact = true ↔ transportOwned d.type = false := by
  rw [fact, Bool.not_eq_true']

theorem Descriptor.fact_eq_false : d.fact = false ↔ transportOwned d.type = true := by
  rw [fact, Bool.not_eq_false']

/-- What the check of a layout says of the descriptors of an array: their records have a place, the
descriptors are not in it, and they have different types and places. -/
structure Laid (metas : ℕ) (ds : List Descriptor) (h : Heap) : Prop where
  placed : ∀ d ∈ ds, recordPlaced (d.record h) = true
  word : ∀ d ∈ ds, d.size ≠ 0 → d.data ≤ uintptrMax - d.size
  outside : ∀ d ∈ ds, d.block.Apart ⟨metas, descriptorSize * ds.length⟩
  apart : ds.Pairwise fun d d' => d.type ≠ d'.type ∧ d.block.Apart d'.block

variable {h : Heap}

theorem recordsApart_iff (hap : recordsApart (d.record h) (d'.record h) = true) :
    d.type ≠ d'.type ∧ d.block.Apart d'.block := by
  simp only [recordsApart, Bool.and_eq_true, decide_eq_true_eq, Bool.not_eq_true',
    Bool.and_eq_false_imp, decide_eq_false_iff_not] at hap
  refine ⟨hap.1, Block.apart_iff.mpr fun ⟨hd, hd', h₁, h₂⟩ => ?_⟩
  exact hap.2 ⟨⟨hd, hd'⟩, h₁⟩ h₂

theorem recordOutside_iff (hout : recordOutside metas count (d.record h) = true) :
    (d.size ≠ 0 → d.data ≤ uintptrMax - d.size) ∧
      d.block.Apart ⟨metas, descriptorSize * count⟩ := by
  simp only [recordOutside, Bool.or_eq_true, Bool.and_eq_true, decide_eq_true_eq,
    Bool.not_eq_true', Bool.and_eq_false_imp, decide_eq_false_iff_not] at hout
  refine ⟨fun hne => ?_, Block.apart_iff.mpr fun ⟨hd, _, h₁, h₂⟩ => ?_⟩
  · rcases hout with h0 | h0
    · exact absurd h0 hne
    · exact h0.1.1
  · rcases hout with h0 | h0
    · exact hd h0
    · refine h0.2 ?_ h₂
      rw [Nat.mul_comm]
      exact h₁

theorem layoutLoop_laid {bytes : ℕ} {ds : List Descriptor} (earlier : List Descriptor)
    (hloop : layoutLoop metas count (earlier.map fun d => d.record h) bytes
      (ds.map fun d => d.record h) = true) :
    (∀ d ∈ ds, recordPlaced (d.record h) = true ∧ (d.size ≠ 0 → d.data ≤ uintptrMax - d.size) ∧
      d.block.Apart ⟨metas, descriptorSize * count⟩ ∧
      ∀ e ∈ earlier, d.type ≠ e.type ∧ d.block.Apart e.block) ∧
    ds.Pairwise fun d d' => d.type ≠ d'.type ∧ d.block.Apart d'.block := by
  induction ds generalizing earlier bytes with
  | nil => exact ⟨nofun, List.Pairwise.nil⟩
  | cons d ds ih =>
    rw [map_cons, layoutLoop] at hloop
    simp only [Bool.and_eq_true] at hloop
    obtain ⟨⟨⟨⟨hplaced, -⟩, hout⟩, hearlier⟩, hrest⟩ := hloop
    obtain ⟨hall, hpairs⟩ := ih (d :: earlier) hrest
    have hd : ∀ e ∈ earlier, d.type ≠ e.type ∧ d.block.Apart e.block := fun e he =>
      recordsApart_iff (all_eq_true.mp hearlier _ (mem_map_of_mem he))
    refine ⟨fun d' hd' => ?_, pairwise_cons.mpr ⟨fun d' hd' => ?_, hpairs⟩⟩
    · rcases mem_cons.mp hd' with rfl | hd'
      · exact ⟨hplaced, (recordOutside_iff hout).1, (recordOutside_iff hout).2, hd⟩
      · obtain ⟨hp, hw, ho, he⟩ := hall d' hd'
        exact ⟨hp, hw, ho, fun e he' => he e (mem_cons_of_mem d he')⟩
    · obtain ⟨htype, hap⟩ := (hall d' hd').2.2.2 d mem_cons_self
      exact ⟨htype.symm, hap.symm⟩

theorem length_descriptors (h : Heap) (metas count : ℕ) : (descriptors h metas count).length = count := by
  rw [descriptors, length_map, length_range]

theorem laid_of_validate (hvalid : recordsLayoutValidate metas (records h metas count) = true) :
    Laid metas (descriptors h metas count) h := by
  have hlen : (records h metas count).length = (descriptors h metas count).length := length_map _
  simp only [recordsLayoutValidate, Bool.and_eq_true] at hvalid
  rw [hlen] at hvalid
  obtain ⟨hall, hpairs⟩ := layoutLoop_laid [] hvalid.2
  exact ⟨fun d hd => (hall d hd).1, fun d hd => (hall d hd).2.1, fun d hd => (hall d hd).2.2.1, hpairs⟩

/-! ## Memory that is kept -/

/-- Memory that is the same outside of the facts of `ds`. -/
def Kept (ds : List Descriptor) (h g : Heap) : Prop :=
  ∀ x, (∀ d ∈ ds, d.fact = true → x ∉ d.block.bytes) → g x = h x

open Descriptor (fact_eq_true)

section

variable {ds : List Descriptor} {h g : Heap}

theorem Kept.load_eq (hkept : Kept ds h g) {a n : ℕ}
    (hapart : ∀ d ∈ ds, d.fact = true → d.block.Apart ⟨a, n⟩) : g.load a n = h.load a n :=
  Heap.load_congr fun x hx => hkept x fun d hd hfact hmem => hapart d hd hfact x hmem hx

/-- **Descriptors are kept.** -/
theorem Kept.descriptors_eq (hkept : Kept ds h g)
    (hapart : ∀ d ∈ ds, d.fact = true → d.block.Apart ⟨metas, descriptorSize * count⟩) :
    descriptors g metas count = descriptors h metas count := by
  refine map_congr_left fun i hi => ?_
  have hlt := mem_range.mp hi
  have hpart : ∀ o n, o + n ≤ descriptorSize → g.load (metas + descriptorSize * i + o) n =
      h.load (metas + descriptorSize * i + o) n := fun o n hle =>
    hkept.load_eq fun d hd hfact => (hapart d hd hfact).part (by dsimp only; omega) (by
      have : descriptorSize * (i + 1) ≤ descriptorSize * count := Nat.mul_le_mul_left _ hlt
      rw [Nat.mul_add] at this
      dsimp only
      omega)
  rw [descriptorAt, descriptorAt, hpart 4 4 (by decide), hpart 8 8 (by decide)]
  have hfirst := hpart 0 4 (by decide)
  rw [Nat.add_zero] at hfirst
  rw [hfirst]

theorem Kept.descriptorAt_eq (hkept : Kept ds h g)
    (hapart : ∀ d ∈ ds, d.fact = true → d.block.Apart ⟨metas, descriptorSize * count⟩)
    {rest : List Descriptor} (hdrop : (descriptors h metas count).drop i = d :: rest) :
    descriptorAt g (metas + descriptorSize * i) = d ∧ (descriptors h metas count).drop (i + 1) = rest := by
  have hi : (descriptors h metas count)[i]? = some d := by
    rw [← head?_drop, hdrop]
    rfl
  rw [← hkept.descriptors_eq hapart, descriptors, getElem?_map] at hi
  obtain ⟨j, hj, hd⟩ := Option.map_eq_some_iff.mp hi
  rw [(List.getElem?_eq_some_iff.mp hj).2.symm.trans (getElem_range _)] at hd
  exact ⟨hd, by rw [← tail_drop, hdrop]; rfl⟩

theorem Kept.store (hkept : Kept ds h g) (hd : d ∈ ds) (hfact : d.fact = true)
    {bs : List UInt8} (hlen : bs.length = d.size) : Kept ds h (g.store d.data bs) := by
  intro x hx
  rw [Heap.store_apply_of_notMem, hkept x hx]
  rw [Heap.block, hlen]
  exact hx d hd hfact

/-! ## The loops -/

open Descriptor (fact)

/-- The stores that clear facts. -/
def initStores (ds : List Descriptor) : List (ℕ × List UInt8) :=
  (ds.filter fact).map fun d => (d.data, replicate d.size 0)

/-- The stores that copy facts of `ss`, as they are in the memory `h`, to `ds`. -/
def copyStores (h : Heap) (ds ss : List Descriptor) : List (ℕ × List UInt8) :=
  (ss.filter fact).filterMap fun s =>
    (ds.find? (·.type = s.type)).map fun d => (d.data, h.load s.data d.size)

theorem initStores_cons (d : Descriptor) (ds : List Descriptor) :
    initStores (d :: ds) = if d.fact then (d.data, replicate d.size 0) :: initStores ds
      else initStores ds := by
  rw [initStores, filter_cons]
  split_ifs
  · rfl
  · rfl

theorem drop_eq_cons {α : Type*} {l : List α} (h : i < l.length) :
    ∃ a rest, l.drop i = a :: rest ∧ a ∈ l := by
  cases hdrop : l.drop i with
  | nil =>
    rw [drop_eq_nil_iff] at hdrop
    omega
  | cons a rest => exact ⟨a, rest, rfl, mem_of_mem_drop (hdrop ▸ mem_cons_self)⟩

/-- **The destination is cleared.** Nothing fails, and only the facts are written. -/
theorem initLoop_eq {dst n : ℕ} (hlaid : Laid dst (descriptors h dst n) h) (hk : i + k = n)
    (hkept : Kept (descriptors h dst n) h g) :
    initLoop dst k i g = (true, g.stores (initStores ((descriptors h dst n).drop i))) ∧
      Kept (descriptors h dst n) h (g.stores (initStores ((descriptors h dst n).drop i))) := by
  have hlen := length_descriptors h dst n
  have hout : ∀ d ∈ descriptors h dst n, d.fact = true → d.block.Apart ⟨dst, descriptorSize * n⟩ :=
    fun d hd _ => hlen ▸ hlaid.outside d hd
  induction k generalizing i g with
  | zero =>
    rw [drop_of_length_le (by omega)]
    exact ⟨rfl, hkept⟩
  | succ k ih =>
    obtain ⟨d, rest, hdrop, hd⟩ := drop_eq_cons (l := descriptors h dst n) (i := i) (by omega)
    obtain ⟨hat, hrest⟩ := hkept.descriptorAt_eq hout hdrop
    have hplaced : recordPlaced (d.record g) = true := hlaid.placed d hd
    rw [initLoop, hat, if_pos hplaced, hdrop, initStores_cons, initRecord, ← hrest]
    cases hfact : d.fact with
    | true =>
      rw [if_neg (Bool.not_eq_true _ ▸ fact_eq_true.mp hfact), if_pos rfl]
      exact ih (by omega) (hkept.store hd hfact length_replicate)
    | false =>
      rw [if_pos (Descriptor.fact_eq_false.mp hfact), if_neg Bool.false_ne_true]
      exact ih (by omega) hkept

/-- What the checks of a copy say: the facts of the destination have no byte in common with the source,
and each fact of the source has a place. -/
structure Copyable (dst nDst src nSrc : ℕ) (h : Heap) : Prop where
  laidDst : Laid dst (descriptors h dst nDst) h
  laidSrc : Laid src (descriptors h src nSrc) h
  outside : ∀ d ∈ descriptors h dst nDst, d.fact = true →
    d.block.Apart ⟨src, descriptorSize * nSrc⟩
  apart : ∀ s ∈ descriptors h src nSrc, ∀ d ∈ descriptors h dst nDst, d.fact = true →
    d.block.Apart s.block
  fits : ∀ s ∈ descriptors h src nSrc, s.fact = true →
    ∃ d, recordsFind h dst nDst s.type = some d ∧ d ∈ descriptors h dst nDst ∧ d.type = s.type ∧
      d.size = s.size

theorem copyStores_cons (ds ss : List Descriptor) (s : Descriptor) :
    copyStores h ds (s :: ss) = if s.fact then
      ((ds.find? (·.type = s.type)).map fun d => (d.data, h.load s.data d.size)).toList ++
        copyStores h ds ss else copyStores h ds ss := by
  rw [copyStores, filter_cons]
  split_ifs
  · rw [filterMap_cons]
    cases ds.find? (·.type = s.type) with
    | none | some d => rfl
  · rfl

/-- **The facts are copied**, and only the facts of the destination are written. -/
theorem copyLoop_eq {dst nDst src nSrc : ℕ} (hcopy : Copyable dst nDst src nSrc h)
    (hk : i + k = nSrc) (hkept : Kept (descriptors h dst nDst) h g) :
    copyLoop dst nDst src k i g = some (g.stores (copyStores h (descriptors h dst nDst)
        ((descriptors h src nSrc).drop i))) ∧
      Kept (descriptors h dst nDst) h (g.stores (copyStores h (descriptors h dst nDst)
        ((descriptors h src nSrc).drop i))) := by
  have hlen := length_descriptors h src nSrc
  have hout : ∀ d ∈ descriptors h dst nDst, d.fact = true →
      d.block.Apart ⟨dst, descriptorSize * nDst⟩ := fun d hd _ =>
    length_descriptors h dst nDst ▸ hcopy.laidDst.outside d hd
  induction k generalizing i g with
  | zero =>
    rw [drop_of_length_le (by omega)]
    exact ⟨rfl, hkept⟩
  | succ k ih =>
    obtain ⟨s, rest, hdrop, hs⟩ := drop_eq_cons (l := descriptors h src nSrc) (i := i) (by omega)
    obtain ⟨hat, hrest⟩ := hkept.descriptorAt_eq hcopy.outside hdrop
    rw [copyLoop, hat, hdrop, copyStores_cons, ← hrest]
    cases hfact : s.fact with
    | true =>
      obtain ⟨d, hfind, hd, htype, hsize⟩ := hcopy.fits s hs hfact
      have hdfact : d.fact = true := by rw [fact, htype]; exact hfact
      have hload : g.load s.data d.size = h.load s.data d.size :=
        hkept.load_eq fun d' hd' hfact' => hsize ▸ hcopy.apart s hs d' hd' hfact'
      have hfind' : recordsFind g dst nDst s.type = some d := by
        rw [recordsFind, hkept.descriptors_eq hout]
        exact hfind
      rw [if_neg (Bool.not_eq_true _ ▸ fact_eq_true.mp hfact), hfind', if_pos rfl]
      rw [recordsFind] at hfind
      rw [hfind, Option.map_some, ← hload]
      exact ih (by omega) (hkept.store hd hdfact (Heap.length_load _ _ _))
    | false =>
      rw [if_pos (Descriptor.fact_eq_false.mp hfact), if_neg Bool.false_ne_true]
      exact ih (by omega) hkept

/-! ## The result -/

section

variable {dst nDst src nSrc : ℕ}

theorem Laid.eq_or_apart (hlaid : Laid metas ds h) (hd : d ∈ ds)
    (hd' : d' ∈ ds) : d = d' ∨ d.type ≠ d'.type ∧ d.block.Apart d'.block := by
  by_cases heq : d = d'
  · exact .inl heq
  · have : Std.Symm fun d d' : Descriptor => d.type ≠ d'.type ∧ d.block.Apart d'.block :=
      ⟨fun _ _ hxy => ⟨hxy.1.symm, hxy.2.symm⟩⟩
    exact .inr (hlaid.apart.forall hd hd' heq)

/-- The memory after a copy. -/
def copied (h : Heap) (dst nDst src nSrc : ℕ) : Heap :=
  (h.stores (initStores (descriptors h dst nDst))).stores
    (copyStores h (descriptors h dst nDst) (descriptors h src nSrc))

theorem mem_copyStores (hcopy : Copyable dst nDst src nSrc h) {w : ℕ × List UInt8}
    (hw : w ∈ copyStores h (descriptors h dst nDst) (descriptors h src nSrc)) :
    ∃ s ∈ descriptors h src nSrc, s.fact = true ∧ ∃ d ∈ descriptors h dst nDst,
      d.type = s.type ∧ Heap.block w = d.block := by
  obtain ⟨s, hs, hmap⟩ := mem_filterMap.mp hw
  obtain ⟨hs, hfact⟩ := mem_filter.mp hs
  obtain ⟨d, hfind, hd, htype, -⟩ := hcopy.fits s hs hfact
  rw [recordsFind] at hfind
  rw [hfind, Option.map_some, Option.some.injEq] at hmap
  refine ⟨s, hs, hfact, d, hd, htype, ?_⟩
  rw [← hmap, Heap.block, Heap.length_load]
  rfl

/-- **A fact of the source is in the destination.** -/
theorem copied_fact (hcopy : Copyable dst nDst src nSrc h) {s : Descriptor}
    (hs : s ∈ descriptors h src nSrc) (hfact : s.fact = true) (hd : d ∈ descriptors h dst nDst)
    (htype : d.type = s.type) :
    d.size = s.size ∧ (copied h dst nDst src nSrc).load d.data d.size = h.load s.data s.size := by
  obtain ⟨d', hfind, hd', htype', hsize⟩ := hcopy.fits s hs hfact
  obtain rfl := (hcopy.laidDst.eq_or_apart hd hd').resolve_right fun h => h.1 (htype.trans htype'.symm)
  refine ⟨hsize, ?_⟩
  -- different facts have different types, so that their places have no common byte
  have hpairs : (copyStores h (descriptors h dst nDst) (descriptors h src nSrc)).Pairwise
      fun w w' => (Heap.block w).Apart (Heap.block w') := by
    refine List.Pairwise.filterMap _ (fun a a' hne b hb b' hb' => ?_)
      (hcopy.laidSrc.apart.filter _)
    obtain ⟨e, he, rfl⟩ := Option.map_eq_some_iff.mp hb
    obtain ⟨e', he', rfl⟩ := Option.map_eq_some_iff.mp hb'
    have hetype : e.type = a.type := by simpa using find?_some he
    have hetype' : e'.type = a'.type := by simpa using find?_some he'
    rw [Heap.block, Heap.block, Heap.length_load, Heap.length_load]
    rcases hcopy.laidDst.eq_or_apart (mem_of_find?_eq_some he)
      (mem_of_find?_eq_some he') with heq | hap
    · exact absurd (hetype.symm.trans ((congrArg _ heq).trans hetype')) hne.1
    · exact hap.2
  have hmem : (d.data, h.load s.data d.size) ∈
      copyStores h (descriptors h dst nDst) (descriptors h src nSrc) := by
    refine mem_filterMap.mpr ⟨s, mem_filter.mpr ⟨hs, hfact⟩, ?_⟩
    rw [recordsFind] at hfind
    rw [hfind, Option.map_some]
  have hload := Heap.load_stores (h := h.stores (initStores (descriptors h dst nDst))) hpairs hmem
  rw [Heap.length_load, hsize] at hload
  rw [hsize]
  exact hload

/-- **A fact that the source does not have is cleared.** -/
theorem copied_clear (hcopy : Copyable dst nDst src nSrc h)
    (hd : d ∈ descriptors h dst nDst) (hfact : d.fact = true)
    (habsent : ∀ s ∈ descriptors h src nSrc, s.type ≠ d.type) :
    (copied h dst nDst src nSrc).load d.data d.size = replicate d.size 0 := by
  have hpairs : (initStores (descriptors h dst nDst)).Pairwise
      fun w w' => (Heap.block w).Apart (Heap.block w') := by
    refine pairwise_map.mpr ((hcopy.laidDst.apart.filter _).imp fun hne => ?_)
    rw [Heap.block, Heap.block, length_replicate, length_replicate]
    exact hne.2
  have hmem : (d.data, replicate d.size 0) ∈ initStores (descriptors h dst nDst) :=
    mem_map.mpr ⟨d, mem_filter.mpr ⟨hd, hfact⟩, rfl⟩
  have hload := Heap.load_stores (h := h) hpairs hmem
  rw [length_replicate] at hload
  rw [copied, Heap.load_stores_of_apart, hload]
  intro w hw
  obtain ⟨s, hs, -, d', hd', htype, hblock⟩ := mem_copyStores hcopy hw
  rw [hblock]
  rcases hcopy.laidDst.eq_or_apart hd hd' with rfl | hap
  · exact absurd htype.symm (habsent s hs)
  · exact hap.2

theorem size_le_of_placed (hplaced : recordPlaced m = true) : m.size ≤ maxBytes := by
  rw [recordPlaced, Bool.and_eq_true, recordLayoutValidate] at hplaced
  by_contra hlt
  rw [if_pos (by omega)] at hplaced
  exact Bool.false_ne_true hplaced.1

/-- **The checks of a copy are enough.** An array that ends before the addresses do has no sum that
wraps around. -/
theorem copyable_of_checks (hsrc : src + descriptorSize * nSrc < 2 ^ 64)
    (hlaidDst : Laid dst (descriptors h dst nDst) h) (hlaidSrc : Laid src (descriptors h src nSrc) h)
    (hfits : (descriptors h src nSrc).all (copyFits h dst nDst) = true)
    (hout : (descriptors h dst nDst).all (copyOutside src nSrc) = true)
    (hapart : ((descriptors h src nSrc).all fun s =>
      (descriptors h dst nDst).all (copyApart s)) = true) : Copyable dst nDst src nSrc h := by
  have hword : ∀ {metas : ℕ} {ds : List Descriptor}, Laid metas ds h → ∀ d ∈ ds, d.size ≠ 0 →
      addWord d.data d.size = d.data + d.size := fun hlaid d hd hne => by
    have hle := hlaid.word d hd hne
    have hsize : d.size ≤ maxBytes := size_le_of_placed (hlaid.placed d hd)
    refine Nat.mod_eq_of_lt ?_
    unfold uintptrMax at hle
    unfold maxBytes at hsize
    omega
  refine ⟨hlaidDst, hlaidSrc, fun d hd hfact => ?_, fun s hs d hd hfact => ?_, fun s hs hfact => ?_⟩
  · have hcheck := all_eq_true.mp hout d hd
    rw [copyOutside, Bool.or_eq_true, ← Bool.not_eq_false', ← fact] at hcheck
    refine Block.apart_iff.mpr fun ⟨hne, _, h₁, h₂⟩ => ?_
    rcases hcheck with htransport | hcheck
    · exact Bool.false_ne_true (htransport.symm.trans hfact)
    · simp only [Bool.not_eq_true', Bool.and_eq_false_imp, Bool.and_eq_true, decide_eq_true_eq,
        decide_eq_false_iff_not] at hcheck
      have hsum : addWord src (nSrc * descriptorSize) = src + descriptorSize * nSrc := by
        rw [Nat.mul_comm]
        exact Nat.mod_eq_of_lt hsrc
      rw [hsum, hword hlaidDst d hd hne] at hcheck
      exact hcheck ⟨hne, h₁⟩ h₂
  · have hcheck := all_eq_true.mp (all_eq_true.mp hapart s hs) d hd
    rw [copyApart, Bool.or_eq_true, Bool.and_eq_true] at hcheck
    refine Block.apart_iff.mpr fun ⟨hne, hne', h₁, h₂⟩ => ?_
    rcases hcheck with htransport | hcheck
    · rw [fact, htransport.2] at hfact
      cases hfact
    · simp only [Bool.not_eq_true', Bool.and_eq_false_imp, Bool.and_eq_true, decide_eq_true_eq,
        Bool.or_eq_false_iff, decide_eq_false_iff_not] at hcheck
      have hboth := (hcheck ⟨hne', hne⟩).2
      rw [hword hlaidDst d hd hne, hword hlaidSrc s hs hne'] at hboth
      exact hboth h₂ h₁
  · have hcheck := all_eq_true.mp hfits s hs
    rw [copyFits, Bool.or_eq_true] at hcheck
    rcases hcheck with htransport | hcheck
    · rw [fact, htransport] at hfact
      cases hfact
    · cases hfind : recordsFind h dst nDst s.type with
      | none =>
        rw [hfind] at hcheck
        cases hcheck
      | some d =>
        rw [hfind] at hcheck
        simp only [Bool.and_eq_true, decide_eq_true_eq] at hcheck
        have hd := mem_of_find?_eq_some hfind
        have htype : d.type = s.type := by simpa using find?_some hfind
        exact ⟨d, rfl, hd, htype, hcheck.1⟩

theorem layoutLoop_record (g h : Heap) (metas count bytes : ℕ) (earlier ds : List Descriptor) :
    layoutLoop metas count (earlier.map fun d => d.record g) bytes (ds.map fun d => d.record g) =
      layoutLoop metas count (earlier.map fun d => d.record h) bytes (ds.map fun d => d.record h) := by
  induction ds generalizing earlier bytes with
  | nil => rfl
  | cons d ds ih =>
    rw [map_cons, map_cons, layoutLoop, layoutLoop]
    have hrest := ih (bytes + roundUp8 d.size) (d :: earlier)
    have hearlier : (earlier.map fun d => d.record g).all (recordsApart (d.record g)) =
        (earlier.map fun d => d.record h).all (recordsApart (d.record h)) := by
      rw [all_map, all_map]
      rfl
    rw [hearlier]
    exact congrArg _ hrest

theorem numberAt_replicate (n i width : ℕ) : numberAt (replicate n 0) i width = 0 := by
  have hget : ∀ j, (replicate n 0).getD j 0 = 0 := fun j => by
    rw [getD_eq_getElem?_getD, getElem?_replicate]
    split_ifs <;> rfl
  rw [numberAt]
  induction List.range width with
  | nil => rfl
  | cons j js ih => rw [foldr_cons, ih, hget, Nat.mul_zero]

theorem bytesZero_replicate (n : ℕ) : bytesZero (replicate n 0) = true :=
  all_eq_true.mpr fun b hb => by rw [eq_of_mem_replicate hb]; rfl

/-- **A record that was cleared is valid.** -/
theorem recordValidate_clear (hplaced : recordPlaced m = true)
    (hbytes : m.bytes = replicate m.size 0) : recordValidate m false = true := by
  rw [recordValidate, hplaced, hbytes]
  simp only [identityValid, exposureValid, timestampValid, classificationValid, numberAt_replicate,
    bytesZero_replicate]
  simp

theorem recordValidate_transport (hplaced : recordPlaced m = true)
    (htransport : transportOwned m.type = true) : recordValidate m false = true := by
  have hsize : recordSize m.type = 0 := by
    simp only [transportOwned, Bool.or_eq_true, decide_eq_true_eq] at htransport
    rcases htransport with (h | h) | h
    · rw [h]
      rfl
    · rw [h]
      rfl
    · unfold metaStartFeatures at h
      unfold recordSize metaHeader metaAcquisitionIdentity metaExposureTiming metaReferenceTimestamp
        metaOpticalChopping metaElectricalTrigger
      split_ifs <;> omega
  rw [recordValidate, hplaced, hsize]
  rfl

/-- **The destination of a copy is valid.** -/
theorem copied_valid (hcopy : Copyable dst nDst src nSrc h)
    (hsrc : recordsValidate src (records h src nSrc) [] = true)
    (hdst : recordsLayoutValidate dst (records h dst nDst) = true)
    (hkept : Kept (descriptors h dst nDst) h g) (hg : g = copied h dst nDst src nSrc) :
    recordsValidate dst (records g dst nDst) [] = true := by
  have hds : descriptors g dst nDst = descriptors h dst nDst := hkept.descriptors_eq fun d hd _ =>
    length_descriptors h dst nDst ▸ hcopy.laidDst.outside d hd
  have hlayout : recordsLayoutValidate dst (records g dst nDst) = true := by
    rw [← hdst, recordsLayoutValidate, recordsLayoutValidate, records, records, hds, length_map,
      length_map]
    have hloop := layoutLoop_record g h dst (descriptors h dst nDst).length 0 [] (descriptors h dst nDst)
    rw [map_nil, map_nil] at hloop
    rw [hloop]
    cases descriptors h dst nDst <;> rfl
  have hall : (records g dst nDst).all (recordValidate · false) = true := by
    rw [records, hds, all_map, all_eq_true]
    intro d hd
    have hplaced : recordPlaced (d.record g) = true := hcopy.laidDst.placed d hd
    show recordValidate (d.record g) false = true
    cases hfact : d.fact with
    | false =>
      exact recordValidate_transport hplaced (Descriptor.fact_eq_false.mp hfact)
    | true =>
      by_cases hpresent : ∃ s ∈ descriptors h src nSrc, s.type = d.type
      · -- it says what the source does
        obtain ⟨s, hs, htype⟩ := hpresent
        have hsfact : s.fact = true := by rw [fact, htype]; exact hfact
        obtain ⟨-, hload⟩ := copied_fact hcopy hs hsfact hd htype.symm
        simp only [recordsValidate, Bool.and_eq_true] at hsrc
        have hvalid := all_eq_true.mp hsrc.1.2 (s.record h) (mem_map_of_mem hs)
        have hbytes : (d.record g).bytes = (s.record h).bytes := by
          show (g.load d.data d.size).map _ = (h.load s.data s.size).map _
          rw [hg, hload]
        rw [← hvalid, recordValidate, recordValidate, hplaced, hcopy.laidSrc.placed s hs, hbytes,
          show (d.record g).type = (s.record h).type from htype.symm]
      · refine recordValidate_clear hplaced ?_
        have hclear := copied_clear hcopy hd hfact fun s hs htype => hpresent ⟨s, hs, htype⟩
        show (g.load d.data d.size).map _ = _
        rw [hg, hclear, map_replicate]
        rfl
  rw [recordsValidate, hlayout, hall]
  rfl

theorem recordsCopy_cases (hsrc : src + descriptorSize * nSrc < 2 ^ 64) :
    recordsCopy h dst nDst src nSrc = some (false, h) ∨
      (dst = src ∧ recordsCopy h dst nDst src nSrc = some (true, h)) ∨
      recordsCopy h dst nDst src nSrc = some (true, copied h dst nDst src nSrc) ∧
        Copyable dst nDst src nSrc h ∧
        Kept (descriptors h dst nDst) h (copied h dst nDst src nSrc) ∧
        recordsValidate dst (records (copied h dst nDst src nSrc) dst nDst) [] = true := by
  unfold recordsCopy
  split_ifs with hvalid heq hfits hout hapart
  · exact .inl rfl
  · cases hcount : decide (nDst = nSrc) with
    | false => exact .inl rfl
    | true => exact .inr (.inl ⟨heq, rfl⟩)
  · exact .inl rfl
  · exact .inl rfl
  · exact .inl rfl
  · simp only [Bool.or_eq_true, Bool.not_eq_true', not_or, Bool.not_eq_false] at hvalid hfits hout hapart
    obtain ⟨hvalidSrc, hvalidDst⟩ := hvalid
    have hvalidSrc' := hvalidSrc
    simp only [recordsValidate, Bool.and_eq_true] at hvalidSrc'
    have hcopy := copyable_of_checks hsrc (laid_of_validate hvalidDst)
      (laid_of_validate hvalidSrc'.1.1.1) hfits hout hapart
    have hinit := initLoop_eq hcopy.laidDst (Nat.zero_add nDst) (g := h) fun x _ => rfl
    have hloop := copyLoop_eq hcopy (Nat.zero_add nSrc) hinit.2
    rw [hinit.1]
    dsimp only
    rw [hloop.1]
    exact .inr (.inr ⟨rfl, hcopy, hloop.2, copied_valid hcopy hvalidSrc hvalidDst hloop.2 rfl⟩)

end

end

/-- **A copy of metadata is all or nothing.** If it fails, no byte was changed. If it succeeds for
two lists, the destination is valid, with the facts of the source, and other facts are cleared. -/
theorem recordsCopy_facts (h : Heap) (dst nDst src nSrc : ℕ)
    (hsrc : src + descriptorSize * nSrc < 2 ^ 64) :
    ∃ ok g, recordsCopy h dst nDst src nSrc = some (ok, g) ∧ (ok = false → g = h) ∧
      (ok = true → dst ≠ src → (∀ r ∈ records h src nSrc, transportOwned r.type = false →
          ∃ d ∈ records g dst nDst, d.type = r.type ∧ d.size = r.size ∧ d.bytes = r.bytes) ∧
        (∀ d ∈ records g dst nDst, transportOwned d.type = false →
          (∀ r ∈ records h src nSrc, r.type ≠ d.type) → d.bytes = replicate d.size 0) ∧
        (∀ d ∈ records h dst nDst, transportOwned d.type = true → d ∈ records g dst nDst) ∧
        records g src nSrc = records h src nSrc ∧ descriptors g dst nDst = descriptors h dst nDst ∧
        recordsValidate dst (records g dst nDst) [] = true) := by
  rcases recordsCopy_cases (h := h) hsrc with hres | ⟨heq, hres⟩ | ⟨hres, hcopy, hkept, hvalid⟩
  · exact ⟨false, h, hres, fun _ => rfl, nofun⟩
  · exact ⟨true, h, hres, fun _ => rfl, fun _ hne => absurd heq hne⟩
  · have hds : descriptors (copied h dst nDst src nSrc) dst nDst = descriptors h dst nDst :=
      hkept.descriptors_eq fun d hd _ => length_descriptors h dst nDst ▸ hcopy.laidDst.outside d hd
    have hss : descriptors (copied h dst nDst src nSrc) src nSrc = descriptors h src nSrc :=
      hkept.descriptors_eq hcopy.outside
    refine ⟨true, _, hres, nofun, fun _ _ => ⟨?_, ?_, ?_, ?_, hds, hvalid⟩⟩
    · intro r hr hfact
      obtain ⟨s, hs, rfl⟩ := mem_map.mp hr
      obtain ⟨d, -, hd, htype, -⟩ := hcopy.fits s hs (fact_eq_true.mpr hfact)
      obtain ⟨hsize, hload⟩ := copied_fact hcopy hs (fact_eq_true.mpr hfact) hd htype
      refine ⟨_, mem_map_of_mem (hds.symm ▸ hd), htype, hsize, ?_⟩
      exact congrArg (List.map _) hload
    · intro r hr hfact habsent
      obtain ⟨d, hd, rfl⟩ := mem_map.mp hr
      rw [hds] at hd
      have hclear := copied_clear hcopy hd (fact_eq_true.mpr hfact) fun s hs =>
        habsent _ (mem_map_of_mem hs)
      show ((copied h dst nDst src nSrc).load d.data d.size).map _ = replicate d.size 0
      rw [hclear, map_replicate]
      rfl
    · intro r hr htransport
      obtain ⟨d, hd, rfl⟩ := mem_map.mp hr
      refine mem_map.mpr ⟨d, hds.symm ▸ hd, ?_⟩
      have hload : (copied h dst nDst src nSrc).load d.data d.size = h.load d.data d.size := by
        refine hkept.load_eq fun d' hd' hfact => ?_
        rcases hcopy.laidDst.eq_or_apart hd' hd with rfl | hap
        · exact absurd (fact_eq_true.mp hfact) (by
            rw [Bool.not_eq_false]
            exact htransport)
        · exact hap.2
      exact congrArg (Meta.mk _ _ _) (congrArg (List.map _) hload)
    · rw [records, records, hss]
      refine map_congr_left fun s hs => ?_
      exact congrArg (Meta.mk _ _ _) (congrArg (List.map _)
        (hkept.load_eq fun d hd hfact => hcopy.apart s hs d hd hfact))

/-- Two lists of one header each: the destination at 256 with its record at 1024, and the source at 512
with its record at 2048. -/
def twoHeaders : Heap :=
  Heap.stores (fun _ => 0)
    [(256, toLe 4 1 ++ toLe 4 32 ++ toLe 8 1024), (512, toLe 4 1 ++ toLe 4 32 ++ toLe 8 2048),
      (2048, toLe 8 7)]

theorem recordsCopy_facts_header : ∃ g, recordsCopy twoHeaders 256 1 512 1 = some (true, g) ∧
      recordsValidate 256 (records g 256 1) [] = true := by
  obtain ⟨ok, g, hres, -, hfacts⟩ := recordsCopy_facts twoHeaders 256 1 512 1 (by decide)
  have hok : (recordsCopy twoHeaders 256 1 512 1).map Prod.fst = some true := by decide +kernel
  rw [hres, Option.map_some, Option.some.injEq] at hok
  obtain ⟨-, -, -, -, -, hvalid⟩ := hfacts hok (by decide)
  have htrue : ok = true := hok
  exact ⟨g, htrue ▸ hres, hvalid⟩

/-! ## Separation -/

theorem layoutLoop_bytes {bytes : ℕ} {earlier ms : List Meta} (hle : bytes ≤ maxBytes)
    (hloop : layoutLoop metas count earlier bytes ms = true) :
    bytes + (ms.map fun m => roundUp8 m.size).sum ≤ maxBytes := by
  induction ms generalizing earlier bytes with
  | nil => exact hle
  | cons m ms ih =>
    rw [layoutLoop] at hloop
    simp only [Bool.and_eq_true, decide_eq_true_eq] at hloop
    obtain ⟨⟨⟨⟨-, hroom⟩, -⟩, -⟩, hrest⟩ := hloop
    rw [map_cons, sum_cons, ← Nat.add_assoc]
    apply ih _ hrest
    omega

theorem initRecord_kept (h : Heap) (d : Descriptor) : Kept [d] h (initRecord h d) := by
  have hself : Kept [d] h h := fun _ _ => rfl
  unfold initRecord
  split_ifs with htransport
  · exact hself
  · apply hself.store mem_cons_self _ length_replicate
    exact fact_eq_true.mpr (Bool.not_eq_true _ ▸ htransport)

theorem recordInit_eq (h : Heap) (hplaced : recordPlaced (d.record h) = true) :
    recordInit (d.record h) = some (d.record (initRecord h d)) := by
  rw [recordInit, hplaced, initRecord]
  cases htransport : transportOwned d.type with
  | true => rw [show transportOwned (d.record h).type = true from htransport]; rfl
  | false =>
    rw [show transportOwned (d.record h).type = false from htransport]
    have hload := Heap.load_store (h := h) d.data (replicate d.size 0)
    rw [length_replicate] at hload
    simp only [Descriptor.record, Bool.not_true, Bool.false_eq_true, if_false, hload, map_replicate]
    rfl

/-- **Accepted records are separate.** They have different types and places, apart from their
descriptors and within the limit, and each one is cleared without a change to another. -/
theorem recordsLayoutValidate_separate (h : Heap) (metas count : ℕ)
    (hvalid : recordsLayoutValidate metas (records h metas count) = true) :
    ((descriptors h metas count).Pairwise fun d d' => d.type ≠ d'.type ∧ d.block.Apart d'.block) ∧
    ((descriptors h metas count).map fun d => roundUp8 d.size).sum ≤ maxBytes ∧
    ∀ d ∈ descriptors h metas count,
      d.block.Apart ⟨metas, descriptorSize * count⟩ ∧ (d.size ≠ 0 → d.data + d.size < 2 ^ 64) ∧
      recordInit (d.record h) = some (d.record (initRecord h d)) ∧
      descriptors (initRecord h d) metas count = descriptors h metas count ∧
      ∀ d' ∈ descriptors h metas count, d' ≠ d → d'.record (initRecord h d) = d'.record h := by
  have hlaid := laid_of_validate hvalid
  have hout : ∀ d ∈ descriptors h metas count, d.block.Apart ⟨metas, descriptorSize * count⟩ :=
    fun d hd => length_descriptors h metas count ▸ hlaid.outside d hd
  simp only [recordsLayoutValidate, Bool.and_eq_true] at hvalid
  have hsum := layoutLoop_bytes (Nat.zero_le _) hvalid.2
  rw [records, map_map, Nat.zero_add] at hsum
  refine ⟨hlaid.apart, hsum, fun d hd => ⟨hout d hd, fun hne => ?_, recordInit_eq h (hlaid.placed d hd),
    ?_, fun d' hd' hne => ?_⟩⟩
  · have hword := hlaid.word d hd hne
    have hsize : d.size ≤ maxBytes := size_le_of_placed (hlaid.placed d hd)
    unfold uintptrMax at hword
    unfold maxBytes at hsize
    omega
  · apply (initRecord_kept h d).descriptors_eq
    intro d' hd' _
    exact mem_singleton.mp hd' ▸ hout d hd
  · apply congrArg (Meta.mk _ _ _)
    apply congrArg (List.map _)
    apply (initRecord_kept h d).load_eq
    intro e he _
    rw [mem_singleton.mp he]
    exact ((hlaid.eq_or_apart hd hd').resolve_left hne.symm).2

/-- A list of two records, a header and an identity. -/
def headerAndIdentity : Heap :=
  Heap.stores (fun _ => 0) [(512, toLe 4 1 ++ toLe 4 32 ++ toLe 8 2048 ++
    (toLe 4 0x300 ++ toLe 4 40 ++ toLe 8 2304))]

theorem recordsLayoutValidate_separate_header :
    recordsLayoutValidate 512 (records headerAndIdentity 512 2) = true ∧
      (descriptors headerAndIdentity 512 2).map Descriptor.type = [1, 0x300] ∧
      (descriptors headerAndIdentity 512 2).Pairwise
        fun d d' => d.type ≠ d'.type ∧ d.block.Apart d'.block := by
  have hvalid : recordsLayoutValidate 512 (records headerAndIdentity 512 2) = true := by
    decide +kernel
  exact ⟨hvalid, by decide +kernel, (recordsLayoutValidate_separate headerAndIdentity 512 2 hvalid).1⟩

end PipeWireAO.FilterGraph
