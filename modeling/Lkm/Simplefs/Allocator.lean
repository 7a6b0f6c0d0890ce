import Lkm.Simplefs.Logic.Run

/-!
# The block allocator and its bitmap

`simplefs_sb_get_a_freeblock` probes and clears a 64-bit word with the `int`
expression `1 << i`. Below 31 that is one bit. At 31 it is negative and becomes all
the bits from 31 up, so that the loop never gets past 31 when one of them is set,
and clears them all. At 32 it has no value in C, and the loop gets there whenever no
block is free.

The allocator is therefore exact on a bitmap whose lowest free block is below 31, or
whose only free block is 31, and on no other.
-/

namespace Lkm.Simplefs

open Base

/-! ## The free blocks of a bitmap -/

/-- The blocks from 2 up whose bit is set, in increasing order. -/
def freeBits (free : U64) : List Nat :=
  (List.range 64).filter fun i => decide (2 ≤ i) && free.getLsbD i

theorem mem_freeBits {free : U64} {i : Nat} :
    i ∈ freeBits free ↔ 2 ≤ i ∧ free.getLsbD i = true := by
  simp only [freeBits, List.mem_filter, List.mem_range, Bool.and_eq_true, decide_eq_true_eq]
  constructor
  · rintro ⟨-, h⟩
    exact h
  · rintro ⟨hi, hbit⟩
    refine ⟨?_, hi, hbit⟩
    by_contra hlt
    rw [BitVec.getLsbD_of_ge free i (by omega)] at hbit
    cases hbit

theorem freeBits_sorted (free : U64) : (freeBits free).Pairwise (· < ·) :=
  List.pairwise_lt_range.filter _

/-- The head of the list is the lowest free block. -/
theorem freeBits_cons {free : U64} {i : Nat} {rest : List Nat} (h : freeBits free = i :: rest) :
    2 ≤ i ∧ free.getLsbD i = true ∧ (∀ j, 2 ≤ j → j < i → free.getLsbD j = false) ∧
      ∀ j ∈ rest, i < j := by
  have hsorted := freeBits_sorted free
  rw [h, List.pairwise_cons] at hsorted
  obtain ⟨hi, hbit⟩ := mem_freeBits.mp (h ▸ List.mem_cons_self : i ∈ freeBits free)
  refine ⟨hi, hbit, ?_, hsorted.1⟩
  intro j hj hji
  by_contra hset
  have hmem : j ∈ freeBits free := mem_freeBits.mpr ⟨hj, by simpa using hset⟩
  rw [h] at hmem
  rcases List.mem_cons.mp hmem with rfl | hrest
  · omega
  · have := hsorted.1 j hrest
    omega

/-- Clearing the bit of the head leaves the tail. -/
theorem freeBits_clear {free free' : U64} {i : Nat} {rest : List Nat} (h : freeBits free = i :: rest)
    (hclear : ∀ j, free'.getLsbD j = (free.getLsbD j && decide (j ≠ i))) : freeBits free' = rest := by
  have hfilter : freeBits free' = (freeBits free).filter fun j => decide (j ≠ i) := by
    simp only [freeBits, List.filter_filter, hclear]
    congr 1
    funext j
    cases decide (2 ≤ j) <;> cases free.getLsbD j <;> simp
  obtain ⟨-, -, -, hrest⟩ := freeBits_cons h
  rw [hfilter, h, List.filter_cons_of_neg (by simp)]
  apply List.filter_eq_self.mpr
  intro j hj
  have := hrest j hj
  simp
  omega

/-! ## The mask at 31 -/

theorem bitMask_31 (P : Platform) (j : Nat) :
    (bitMask P 31).getLsbD j = (decide (31 ≤ j) && decide (j < 64)) := by
  have hmsb : (1#32 <<< 31).msb = true := by decide
  unfold bitMask oneShl
  rw [if_pos (by decide), BitVec.getLsbD_signExtend, hmsb]
  by_cases hj : j < 32
  · simp only [hj, if_true, BitVec.getLsbD_shiftLeft, BitVec.getLsbD_one]
    by_cases h31 : j = 31
    · subst h31
      decide
    · have hlt : ¬ 31 ≤ j := by omega
      simp [hlt, show j < 31 by omega]
  · simp [hj]
    omega

theorem blockIsFree_31 (P : Platform) (free : U64) :
    blockIsFree P free 31 = true ↔ ∃ j, 31 ≤ j ∧ free.getLsbD j = true := by
  unfold blockIsFree
  rw [bne_iff_ne]
  constructor
  · intro hne
    by_contra hnone
    apply hne
    apply BitVec.eq_of_getLsbD_eq
    intro j hj
    rw [BitVec.getLsbD_and, bitMask_31]
    by_cases h31 : 31 ≤ j
    · have hbit : free.getLsbD j = false := by
        by_contra hset
        exact hnone ⟨j, h31, by simpa using hset⟩
      simp [hbit]
    · simp [h31]
  · rintro ⟨j, h31, hbit⟩ hzero
    have hj : j < 64 := by
      by_contra hge
      rw [BitVec.getLsbD_of_ge free j (by omega)] at hbit
      cases hbit
    have hmask : (free &&& bitMask P 31).getLsbD j = true := by
      rw [BitVec.getLsbD_and, bitMask_31]
      simp [hbit, h31, hj]
    rw [hzero] at hmask
    simp at hmask

/-- Taking block 31 clears every bit from there up. -/
theorem getLsbD_clear_31 (P : Platform) (free : U64) (j : Nat) :
    (free &&& ~~~bitMask P 31).getLsbD j = (free.getLsbD j && decide (j < 31)) := by
  rw [BitVec.getLsbD_and, BitVec.getLsbD_not, bitMask_31]
  by_cases hj : j < 64
  · by_cases h31 : 31 ≤ j
    · simp [hj, h31]
    · simp [hj, h31]
      omega
  · simp [hj, BitVec.getLsbD_of_ge free j (by omega)]

/-! ## What the loop finds -/

section Loop

variable {P : Platform} {v : Vol} {i : Nat} {rest : List Nat}

/-- The loop stops at `i` when it is free and nothing before it is. -/
theorem freeIndex_eq (hlo : 2 ≤ i) (hhi : i < 64) (hfree : blockIsFree P v.cache.free i = true)
    (hmin : ∀ j, 2 ≤ j → j < i → blockIsFree P v.cache.free j = false) : v.freeIndex P = i := by
  have hle : ¬ i < v.freeIndex P := by
    intro hlt
    rw [Vol.freeIndex_min hlo hlt] at hfree
    cases hfree
  have hge : ¬ v.freeIndex P < i := by
    intro hlt
    have hstop := Vol.blockIsFree_freeIndex (P := P) (v := v) (by omega)
    rw [hmin _ (Vol.freeIndex_ge P v) hlt] at hstop
    cases hstop
  omega

theorem blockIsFree_below {free : U64} {hi : Nat} (hhi : hi ≤ 31)
    (hmin : ∀ j, 2 ≤ j → j < hi → free.getLsbD j = false) :
    ∀ j, 2 ≤ j → j < hi → blockIsFree P free j = false := by
  intro j hj hlt
  have hbit := blockIsFree_iff P free (i := j) (by omega)
  rw [hmin j hj hlt] at hbit
  simpa using hbit

theorem freeIndex_low (h : freeBits v.cache.free = i :: rest) (hi : i < 31) : v.freeIndex P = i := by
  obtain ⟨hlo, hbit, hmin, -⟩ := freeBits_cons h
  apply freeIndex_eq hlo (by omega)
  · exact (blockIsFree_iff P v.cache.free hi).mpr hbit
  · exact blockIsFree_below (by omega) hmin

/-- With a free block from 31 up and none below, the loop stops at 31. -/
theorem freeIndex_high (h : freeBits v.cache.free = i :: rest) (hi : 31 ≤ i) :
    v.freeIndex P = 31 := by
  obtain ⟨-, hbit, hmin, -⟩ := freeBits_cons h
  apply freeIndex_eq (by decide) (by decide)
  · exact (blockIsFree_31 P v.cache.free).mpr ⟨i, hi, hbit⟩
  · exact blockIsFree_below (Nat.le_refl 31) fun j hj hlt => hmin j hj (by omega)

/-- With no free block the loop goes past 31. -/
theorem freeIndex_none (h : freeBits v.cache.free = []) : 32 ≤ v.freeIndex P := by
  have hbits : ∀ j, 2 ≤ j → v.cache.free.getLsbD j = false := by
    intro j hj
    by_contra hset
    have hmem : j ∈ freeBits v.cache.free := mem_freeBits.mpr ⟨hj, by simpa using hset⟩
    rw [h] at hmem
    cases hmem
  have hge := Vol.freeIndex_ge P v
  by_contra hlt
  have hfound := Vol.blockIsFree_freeIndex (P := P) (v := v) (by omega)
  by_cases h31 : v.freeIndex P = 31
  · rw [h31] at hfound
    obtain ⟨j, hj, hbit⟩ := (blockIsFree_31 P v.cache.free).mp hfound
    rw [hbits j (by omega)] at hbit
    cases hbit
  · have hbit := (blockIsFree_iff P v.cache.free (by omega)).mp hfound
    rw [hbits _ hge] at hbit
    cases hbit

/-! ## The shifts that are evaluated -/

/-- The values of `i` for which the loop evaluates `1 << i`. -/
def shiftsFrom (P : Platform) (free : U64) : Nat → Nat → List Nat
  | 0, _ => []
  | n + 1, i => i :: if blockIsFree P free i then [] else shiftsFrom P free n (i + 1)

/-- Those of a whole call: of the loop, and of the statement that clears the bit. -/
def shifts (P : Platform) (v : Vol) : List Nat :=
  shiftsFrom P v.cache.free (simplefsMaxFilesystemObjectsSupported - 2) 2 ++
    if v.freeIndex P = simplefsMaxFilesystemObjectsSupported then [] else [v.freeIndex P]

theorem mem_shiftsFrom {free : U64} {n i j : Nat} :
    j ∈ shiftsFrom P free n i ↔ i ≤ j ∧ j < i + n ∧ j ≤ freeblockFrom P free n i := by
  induction n generalizing i with
  | zero =>
      simp only [shiftsFrom, List.not_mem_nil, false_iff]
      omega
  | succ n ih =>
      have hge := (freeblockFrom_spec P free n (i + 1)).1
      rw [shiftsFrom, freeblockFrom, List.mem_cons]
      by_cases hfree : blockIsFree P free i = true
      · simp only [hfree, if_true, List.not_mem_nil, or_false]
        omega
      · rw [if_neg hfree, if_neg hfree, ih]
        omega

/-- No shift is too wide exactly when the loop stops by 31. -/
theorem shifts_lt_iff : (∀ i ∈ shifts P v, i < 32) ↔ v.freeIndex P < 32 := by
  have hloop : ∀ j, j ∈ shiftsFrom P v.cache.free (simplefsMaxFilesystemObjectsSupported - 2) 2 ↔
      2 ≤ j ∧ j < 64 ∧ j ≤ v.freeIndex P := fun j => mem_shiftsFrom
  constructor
  · intro h
    by_contra hge
    have := h 32 (List.mem_append_left _ ((hloop 32).mpr ⟨by decide, by decide, by omega⟩))
    omega
  · intro hlt i hi
    rcases List.mem_append.mp hi with hi | hi
    · have := (hloop i).mp hi
      omega
    · rw [if_neg (by unfold simplefsMaxFilesystemObjectsSupported; omega)] at hi
      rw [List.mem_singleton.mp hi]
      exact hlt

end Loop

/-! ## The call -/

section Call

variable {P : Platform} {w : Outside} {m : Machine}

theorem run_simplefsSbSync (hP : 0 < P.nrBlocks) (m : Machine) :
    ∃ m', (simplefsSbSync P).run w 0 m = .done () m' ∧ m'.mem.cache = m.mem.cache ∧
      m'.owner = m.owner := by
  refine ⟨((((m.upd (·.getBh 0)).upd (Mem.onVol (·.markBufferDirty 0))).upd
    (Mem.onVol (·.syncDirtyBuffer 0))).upd (·.brelse 0)), ?_, rfl, rfl⟩
  unfold simplefsSbSync
  rw [Prog.run_bind, run_sbBreadOrBug hP]
  rfl

/-- An uninterrupted call that finds one. -/
theorem run_freeblock_found (hP : 0 < P.nrBlocks) (hw : w.interrupted .freeblock = false)
    (hm : m.owner .sb = none) (hfound : m.mem.freeIndex P ≠ 64) :
    ∃ m', (simplefsSbGetAFreeblock P).run w 0 m =
        .done (.ok (BitVec.ofNat 64 (m.mem.freeIndex P))) m' ∧
      m'.mem.cache.free = m.mem.cache.free &&& ~~~bitMask P (m.mem.freeIndex P) ∧
      m'.owner .sb = none := by
  obtain ⟨m', hsync, hcache, howner⟩ := run_simplefsSbSync (w := w) hP ((m.acquire 0 .sb).upd
    (Mem.onVol (·.setFree (m.mem.cache.free &&& ~~~bitMask P (m.mem.freeIndex P)))))
  refine ⟨m'.release .sb, ?_, ?_, by simp⟩
  · unfold simplefsSbGetAFreeblock
    rw [Prog.run_bind, run_lock hw hm]
    show Prog.run w 0 (if m.mem.freeIndex P = 64 then _ else _) (m.acquire 0 .sb) = _
    rw [if_neg hfound]
    show Prog.run w 0 (simplefsSbSync P >>= _) _ = _
    rw [Prog.run_bind]
    exact congrArg (fun o => Outcome.bind o _) hsync
  · show freeBlocks (m'.mem.cache 0) = _
    rw [hcache]
    exact Vol.setFree_free _

end Call

/-- On the machine `m` the call is exact: it takes the lowest free block and clears
that bit only, or returns `-ENOSPC` and changes nothing when there is none; and no
shift it evaluates is too wide for an `int`. -/
structure AllocatesExactly (P : Platform) (w : Outside) (m : Machine) : Prop where
  call : ∃ r m', (simplefsSbGetAFreeblock P).run w 0 m = .done r m' ∧
    match freeBits m.mem.cache.free with
    | i :: _ => r = .ok (BitVec.ofNat 64 i) ∧
        ∀ j, m'.mem.cache.free.getLsbD j = (m.mem.cache.free.getLsbD j && decide (j ≠ i))
    | [] => r = .error .enospc ∧ m'.mem.cache.free = m.mem.cache.free
  shifts : ∀ i ∈ shifts P m.mem.toVol, i < 32

/-- A block below 31 is free, or 31 is the only free block. -/
def Servable (free : U64) : Prop :=
  ∃ i rest, freeBits free = i :: rest ∧ (i < 31 ∨ (i = 31 ∧ rest = []))

section Call

variable {P : Platform} {w : Outside} {m : Machine}

/-- On a servable bitmap the call takes the head of the free blocks. -/
theorem run_servable (hP : 0 < P.nrBlocks) (hw : w.interrupted .freeblock = false)
    (hm : m.owner .sb = none) {i : Nat} {rest : List Nat}
    (hbits : freeBits m.mem.cache.free = i :: rest) (hi : i < 31 ∨ (i = 31 ∧ rest = [])) :
    m.mem.freeIndex P = i ∧
    ∃ m', (simplefsSbGetAFreeblock P).run w 0 m = .done (.ok (BitVec.ofNat 64 i)) m' ∧
      (∀ j, m'.mem.cache.free.getLsbD j = (m.mem.cache.free.getLsbD j && decide (j ≠ i))) ∧
      m'.owner .sb = none := by
  have hindex : m.mem.freeIndex P = i := by
    rcases hi with hlow | ⟨rfl, -⟩
    · exact freeIndex_low hbits hlow
    · exact freeIndex_high hbits (Nat.le_refl 31)
  obtain ⟨m', hrun, hfree, howner⟩ := run_freeblock_found hP hw hm (by omega)
  rw [hindex] at hrun hfree
  refine ⟨hindex, m', hrun, ?_, howner⟩
  intro j
  rw [hfree]
  rcases hi with hlow | ⟨rfl, rfl⟩
  · exact getLsbD_clear P _ hlow j
  · rw [getLsbD_clear_31]
    -- no bit above 31 is set, so that clearing them all does no harm
    by_cases hj : 31 < j
    · have hunset : m.mem.cache.free.getLsbD j = false := by
        by_contra hset
        have hmem : j ∈ freeBits m.mem.cache.free := mem_freeBits.mpr ⟨by omega, by simpa using hset⟩
        rw [hbits, List.mem_singleton] at hmem
        omega
      simp [hunset]
    · have : j < 31 ↔ j ≠ 31 := by omega
      simp [this]

theorem AllocatesExactly.of_servable (hP : 0 < P.nrBlocks) (hw : w.interrupted .freeblock = false)
    (hm : m.owner .sb = none) (h : Servable m.mem.cache.free) : AllocatesExactly P w m := by
  obtain ⟨i, rest, hbits, hi⟩ := h
  obtain ⟨hindex, m', hrun, hclear, -⟩ := run_servable hP hw hm hbits hi
  constructor
  · refine ⟨_, m', hrun, ?_⟩
    rw [hbits]
    exact ⟨rfl, hclear⟩
  · rw [shifts_lt_iff, hindex]
    omega

theorem AllocatesExactly.servable (hP : 0 < P.nrBlocks) (hw : w.interrupted .freeblock = false)
    (hm : m.owner .sb = none) (h : AllocatesExactly P w m) : Servable m.mem.cache.free := by
  have hindex : m.mem.freeIndex P < 32 := shifts_lt_iff.mp h.shifts
  obtain ⟨r, m', hrun, hmatch⟩ := h.call
  obtain ⟨m'', hrun', hfree, -⟩ := run_freeblock_found hP hw hm (by omega)
  rw [hrun] at hrun'
  cases hrun'
  cases hbits : freeBits m.mem.cache.free with
  | nil =>
      have := freeIndex_none (P := P) hbits
      omega
  | cons i rest =>
      refine ⟨i, rest, hbits, ?_⟩
      by_cases hlow : i < 31
      · exact .inl hlow
      right
      -- the loop stopped at 31, and took every bit from there up
      have h31 := freeIndex_high (P := P) hbits (by omega)
      rw [hbits, h31] at hmatch
      obtain ⟨hret, hclear⟩ := hmatch
      have hi : i = 31 := by
        have hlt : i < 64 := by
          have := (freeBits_cons hbits).2.1
          exact BitVec.lt_of_getLsbD this
        have hnat := congrArg BitVec.toNat (Except.ok.inj hret)
        simp only [BitVec.toNat_ofNat] at hnat
        omega
      subst hi
      refine ⟨rfl, ?_⟩
      cases hrest : rest with
      | nil => rfl
      | cons j rest' =>
          have hmem : j ∈ freeBits m.mem.cache.free := by
            rw [hbits, hrest]
            simp
          have hgt := (freeBits_cons hbits).2.2.2 j (by simp [hrest])
          have hkept := hclear j
          rw [hfree, h31, getLsbD_clear_31, (mem_freeBits.mp hmem).2] at hkept
          have hlt : ¬ j < 31 := by omega
          have hne : j ≠ 31 := by omega
          simp [hlt, hne] at hkept

end Call

/-! ## Allocating again and again -/

/-- `n` calls in a row. -/
def getFreeblocks (P : Platform) : Nat → Sfs (List (Except Errno U64))
  | 0 => return []
  | n + 1 => do
      let r ← simplefsSbGetAFreeblock P
      let rs ← getFreeblocks P n
      return r :: rs

/-- As many calls as there are free blocks take them all in increasing order, when none
of them is above 31. -/
theorem run_getFreeblocks {P : Platform} (hP : 0 < P.nrBlocks) {w : Outside}
    (hw : w.interrupted .freeblock = false) {blocks : List Nat} {m : Machine}
    (hm : m.owner .sb = none) (hbits : freeBits m.mem.cache.free = blocks)
    (hlow : ∀ i ∈ blocks, i ≤ 31) :
    ∃ m', (getFreeblocks P blocks.length).run w 0 m =
        .done (blocks.map fun i => .ok (BitVec.ofNat 64 i)) m' ∧
      freeBits m'.mem.cache.free = [] := by
  induction blocks generalizing m with
  | nil => exact ⟨m, rfl, hbits⟩
  | cons i rest ih =>
      obtain ⟨-, -, -, hrest⟩ := freeBits_cons hbits
      have hi : i < 31 ∨ (i = 31 ∧ rest = []) := by
        have hile := hlow i List.mem_cons_self
        by_cases hlt : i < 31
        · exact .inl hlt
        · refine .inr ⟨by omega, ?_⟩
          cases rest with
          | nil => rfl
          | cons j _ =>
              have := hrest j List.mem_cons_self
              have := hlow j (by simp)
              omega
      obtain ⟨-, m₁, hrun, hclear, howner⟩ := run_servable hP hw hm hbits hi
      obtain ⟨m', hruns, hempty⟩ := ih howner (freeBits_clear hbits hclear)
        fun j hj => hlow j (List.mem_cons_of_mem i hj)
      refine ⟨m', ?_, hempty⟩
      rw [List.length_cons, getFreeblocks, Prog.run_bind, hrun]
      show Prog.run w 0 (getFreeblocks P rest.length >>= _) m₁ = _
      rw [Prog.run_bind, hruns]
      rfl

/-- An uninterrupted `simplefs_sb_get_a_freeblock` is exact on the servable bitmaps and
on no other. Repeated, it hands out every free block once and in increasing order if
none is above 31. -/
theorem allocator_exact_iff (P : Platform) (hP : 0 < P.nrBlocks) (w : Outside)
    (hw : w.interrupted .freeblock = false) (m : Machine) (hm : m.owner .sb = none) :
    (AllocatesExactly P w m ↔ Servable m.mem.cache.free) ∧
    ((∀ i ∈ freeBits m.mem.cache.free, i ≤ 31) →
      ∃ m', (getFreeblocks P (freeBits m.mem.cache.free).length).run w 0 m =
          .done ((freeBits m.mem.cache.free).map fun i => .ok (BitVec.ofNat 64 i)) m' ∧
        freeBits m'.mem.cache.free = []) := by
  refine ⟨⟨?_, ?_⟩, ?_⟩
  · exact AllocatesExactly.servable hP hw hm
  · exact AllocatesExactly.of_servable hP hw hm
  · exact run_getFreeblocks hP hw hm rfl

/-- A machine whose bitmap is `free`. -/
def withBitmap (free : U64) : Machine :=
  machineOf (.ofImage fun _ => setFreeBlocks (fun _ => 0) free)

theorem withBitmap_free (free : U64) : (withBitmap free).mem.cache.free = free :=
  freeBlocks_setFreeBlocks _ free

/-- Blocks 4 and 9 are free. -/
theorem allocator_exact_two_blocks :
    AllocatesExactly ⟨16, fun _ => 0⟩ calm (withBitmap 0x210) := by
  have h := allocator_exact_iff ⟨16, fun _ => 0⟩ (by decide) calm rfl (withBitmap 0x210) rfl
  rw [h.1, withBitmap_free]
  exact ⟨4, [9], by decide, .inl (by decide)⟩

/-- Blocks 40 and 50 are free: the call returns 31, and takes them both. -/
theorem allocator_takes_high_blocks :
    ∃ m', (simplefsSbGetAFreeblock ⟨64, fun _ => 0⟩).run calm 0 (withBitmap 0x0004010000000000) =
        .done (.ok 31) m' ∧
      (withBitmap 0x0004010000000000).mem.cache.free.getLsbD 31 = false ∧
      (withBitmap 0x0004010000000000).mem.cache.free.getLsbD 40 = true ∧
      (withBitmap 0x0004010000000000).mem.cache.free.getLsbD 50 = true ∧
      m'.mem.cache.free = 0 := by
  have hbits : freeBits (withBitmap 0x0004010000000000).mem.cache.free = [40, 50] := by
    rw [withBitmap_free]
    decide
  have hindex := freeIndex_high (P := ⟨64, fun _ => 0⟩) hbits (by decide)
  obtain ⟨m', hrun, hfree, -⟩ := run_freeblock_found (P := ⟨64, fun _ => 0⟩) (w := calm)
    (by decide) rfl rfl (by rw [hindex]; decide)
  rw [hindex] at hrun hfree
  refine ⟨m', hrun, ?_⟩
  rw [hfree, withBitmap_free]
  decide

end Lkm.Simplefs
