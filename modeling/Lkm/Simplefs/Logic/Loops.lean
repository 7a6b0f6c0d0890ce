import Lkm.Simplefs.Logic.Calls

/-!
# What the driver's loops find

* **frames** — what each update of a volume leaves alone;
* **the inode store** — `simplefs_inode_search` and `simplefs_get_inode` stop at
  the first slot with the number (`search_some`, `getInode_some`), and inside
  the block as long as the table is small (`search_total`, `getInode_total`);
* **directories** — `simplefs_lookup` stops at the first record with the name
  (`findRecord_some`), inside the block up to 16 records;
* **the bitmap** — `simplefs_sb_get_a_freeblock` stops at the lowest set bit
  (`freeIndex_cases`) and clears that bit only, as long as no bit from 31 up
  is set, where `1 << i` is not a single bit of a 64-bit word.
-/

namespace Lkm.Simplefs

open Base

/-! ## Frames -/

namespace Vol

variable (v : Vol) {b j k : Nat} {c f : U64} {ino : SimplefsInode} {g : Buf → Buf}

@[simp] theorem setFree_count : (v.setFree f).cache.count = v.cache.count := by
  simp [setFree, Image.count]

@[simp] theorem setFree_free : (v.setFree f).cache.free = f := by
  simp [setFree, Image.free]

@[simp] theorem setFree_slot : (v.setFree f).cache.slot k = v.cache.slot k := by
  simp [setFree, Image.slot, modify_cache_ne]

theorem setFree_cache_ne (h : b ≠ 0) : (v.setFree f).cache b = v.cache b :=
  modify_cache_ne v _ h

@[simp] theorem setCount_count : (v.setCount c).cache.count = c := by
  simp [setCount, Image.count]

@[simp] theorem setCount_free : (v.setCount c).cache.free = v.cache.free := by
  simp [setCount, Image.free]

@[simp] theorem setCount_slot : (v.setCount c).cache.slot k = v.cache.slot k := by
  simp [setCount, Image.slot, modify_cache_ne]

theorem setCount_cache_ne (h : b ≠ 0) : (v.setCount c).cache b = v.cache b :=
  modify_cache_ne v _ h

@[simp] theorem putSlot_count : (v.putSlot k ino).cache.count = v.cache.count := by
  simp [putSlot, Image.count, modify_cache_ne]

@[simp] theorem putSlot_free : (v.putSlot k ino).cache.free = v.cache.free := by
  simp [putSlot, Image.free, modify_cache_ne]

@[simp] theorem putSlot_slot_self : (v.putSlot k ino).cache.slot k = ino := by
  simp [putSlot, Image.slot]

theorem putSlot_slot_ne (h : j ≠ k) : (v.putSlot k ino).cache.slot j = v.cache.slot j := by
  simp [putSlot, Image.slot, inodeAt_putInode_ne ino h]

theorem putSlot_cache_ne (h : b ≠ 1) : (v.putSlot k ino).cache b = v.cache b :=
  modify_cache_ne v _ h

/-- A store to a data block does not reach the super block, -/
theorem modify_count (h : 2 ≤ b) : (v.modify b g).cache.count = v.cache.count := by
  rw [Image.count, modify_cache_ne v g (by omega), Image.count]

theorem modify_free (h : 2 ≤ b) : (v.modify b g).cache.free = v.cache.free := by
  rw [Image.free, modify_cache_ne v g (by omega), Image.free]

/-- nor the inode store. -/
theorem modify_slot (h : 2 ≤ b) : (v.modify b g).cache.slot k = v.cache.slot k := by
  rw [Image.slot, modify_cache_ne v g (by omega), Image.slot]

@[simp] theorem setFree_dcache : (v.setFree f).dcache = v.dcache := rfl
@[simp] theorem setCount_dcache : (v.setCount c).dcache = v.dcache := rfl
@[simp] theorem putSlot_dcache : (v.putSlot k ino).dcache = v.dcache := rfl

end Vol

/-! ## The inode store -/

/-- A slot is read, or lies outside the block. -/
theorem slotAt_bind {α : Type} (store : Buf) (k : Nat) (f : SimplefsInode → Except Fault α) :
    (slotAt store k >>= f) =
      if k < 128 then f (inodeAt store k)
      else .error (.outOfBlock simplefsInodestoreBlockNumber (sizeofInode * k) sizeofInode) := by
  unfold slotAt
  by_cases hk : k < 128
  · rw [if_pos hk, if_pos (by unfold sizeofInode simplefsDefaultBlockSize; omega)]
    rfl
  · rw [if_neg hk, if_neg (by unfold sizeofInode simplefsDefaultBlockSize; omega)]
    rfl

theorem searchFrom_total (store : Buf) (no : U64) {n k : Nat} (h : k + n < 128) :
    ∃ r, searchFrom store no n k = .ok r := by
  induction n generalizing k with
  | zero =>
      rw [searchFrom, slotAt_bind, if_pos (by omega)]
      split <;> exact ⟨_, rfl⟩
  | succ n ih =>
      rw [searchFrom, slotAt_bind, if_pos (by omega)]
      split
      · exact ⟨_, rfl⟩
      · exact ih (by omega)

/-- The search looks at numbers only. -/
theorem searchFrom_congr {store store' : Buf} {no : U64}
    (h : ∀ i, (inodeAt store' i).inodeNo = (inodeAt store i).inodeNo) (n k : Nat) :
    searchFrom store' no n k = searchFrom store no n k := by
  induction n generalizing k with
  | zero => rw [searchFrom, searchFrom, slotAt_bind, slotAt_bind, h k]
  | succ n ih => rw [searchFrom, searchFrom, slotAt_bind, slotAt_bind, h k, ih (k + 1)]

theorem searchFrom_some {store : Buf} {no : U64} {n k j : Nat}
    (h : searchFrom store no n k = .ok (some j)) :
    k ≤ j ∧ j ≤ k + n ∧ (inodeAt store j).inodeNo = no ∧
      ∀ i, k ≤ i → i < j → (inodeAt store i).inodeNo ≠ no := by
  induction n generalizing k with
  | zero =>
      rw [searchFrom, slotAt_bind] at h
      split at h
      · split at h
        · rename_i hno
          cases h
          exact ⟨Nat.le_refl _, Nat.le_refl _, hno, fun i hlo hhi => by omega⟩
        · cases h
      · cases h
  | succ n ih =>
      rw [searchFrom, slotAt_bind] at h
      split at h
      · split at h
        · rename_i hno
          cases h
          exact ⟨Nat.le_refl _, by omega, hno, fun i hlo hhi => by omega⟩
        · rename_i hno
          obtain ⟨hlo, hhi, hj, hmin⟩ := ih h
          refine ⟨by omega, by omega, hj, fun i hki hij => ?_⟩
          -- slot `k` was just compared, the rest is the induction hypothesis
          by_cases hik : i = k
          · subst hik
            exact hno
          · exact hmin i (by omega) hij
      · cases h

theorem searchFrom_none {store : Buf} {no : U64} {n k : Nat}
    (h : searchFrom store no n k = .ok none) :
    ∀ i, k ≤ i → i ≤ k + n → (inodeAt store i).inodeNo ≠ no := by
  induction n generalizing k with
  | zero =>
      rw [searchFrom, slotAt_bind] at h
      split at h
      · split at h
        · cases h
        · rename_i hno
          intro i hlo hhi
          obtain rfl : i = k := by omega
          exact hno
      · cases h
  | succ n ih =>
      rw [searchFrom, slotAt_bind] at h
      split at h
      · split at h
        · cases h
        · rename_i hno
          intro i hlo hhi
          by_cases hik : i = k
          · subst hik
            exact hno
          · exact ih h i (by omega) (by omega)
      · cases h

namespace Vol

variable {v : Vol} {no : U64}

theorem search_congr {v' : Vol} (hcount : v'.cache.count = v.cache.count)
    (h : ∀ i, (v'.cache.slot i).inodeNo = (v.cache.slot i).inodeNo) : v'.search no = v.search no := by
  show searchFrom (v'.cache 1) no v'.cache.count.toNat 0 = searchFrom (v.cache 1) no v.cache.count.toNat 0
  rw [hcount]
  exact searchFrom_congr h _ _

theorem search_total (h : v.cache.count.toNat ≤ 64) (no : U64) : ∃ r, v.search no = .ok r :=
  searchFrom_total _ no (show 0 + v.cache.count.toNat < 128 by omega)

/-- The slot found is the first one with the number; it may be the one just past
the table. -/
theorem search_some {j : Nat} (h : v.search no = .ok (some j)) :
    j ≤ v.cache.count.toNat ∧ (v.cache.slot j).inodeNo = no ∧ ∀ i, i < j → (v.cache.slot i).inodeNo ≠ no := by
  obtain ⟨-, hhi, hj, hmin⟩ := searchFrom_some h
  exact ⟨(Nat.zero_add v.cache.count.toNat) ▸ hhi, hj, fun i hi => hmin i (by omega) hi⟩

theorem search_none (h : v.search no = .ok none) :
    ∀ i, i ≤ v.cache.count.toNat → (v.cache.slot i).inodeNo ≠ no :=
  fun i hi => searchFrom_none h i (by omega) ((Nat.zero_add v.cache.count.toNat).symm ▸ hi)

theorem search_eq (hc : v.cache.count.toNat ≤ 64) {j : Nat} (hj : j ≤ v.cache.count.toNat)
    (hno : (v.cache.slot j).inodeNo = no) (hmin : ∀ i, i < j → (v.cache.slot i).inodeNo ≠ no) :
    v.search no = .ok (some j) := by
  obtain ⟨r, hr⟩ := search_total hc no
  cases r with
  | none => exact absurd hno (search_none hr j hj)
  | some j' =>
      obtain ⟨-, hno', hmin'⟩ := search_some hr
      have hlt : ¬ j < j' := fun h => hmin' j h hno
      have hgt : ¬ j' < j := fun h => hmin j' h hno'
      rw [hr, show j' = j by omega]

end Vol

theorem getInodeFrom_total (store : Buf) (no : U64) {n k : Nat} (h : k + n ≤ 128) :
    ∃ r, getInodeFrom store no n k = .ok r := by
  induction n generalizing k with
  | zero => exact ⟨none, rfl⟩
  | succ n ih =>
      rw [getInodeFrom, slotAt_bind, if_pos (by omega)]
      split
      · exact ⟨_, rfl⟩
      · exact ih (by omega)

theorem getInodeFrom_some {store : Buf} {no : U64} {n k : Nat} {ino : SimplefsInode}
    (h : getInodeFrom store no n k = .ok (some ino)) :
    ∃ j, k ≤ j ∧ j < k + n ∧ inodeAt store j = ino ∧ ino.inodeNo = no ∧
      ∀ i, k ≤ i → i < j → (inodeAt store i).inodeNo ≠ no := by
  induction n generalizing k with
  | zero => cases h
  | succ n ih =>
      rw [getInodeFrom, slotAt_bind] at h
      split at h
      · split at h
        · rename_i hno
          cases h
          exact ⟨k, Nat.le_refl _, by omega, rfl, hno, fun i hlo hhi => by omega⟩
        · rename_i hno
          obtain ⟨j, hlo, hhi, hj, hjno, hmin⟩ := ih h
          refine ⟨j, by omega, by omega, hj, hjno, fun i hki hij => ?_⟩
          by_cases hik : i = k
          · subst hik
            exact hno
          · exact hmin i (by omega) hij
      · cases h

theorem getInodeFrom_none {store : Buf} {no : U64} {n k : Nat}
    (h : getInodeFrom store no n k = .ok none) :
    ∀ i, k ≤ i → i < k + n → (inodeAt store i).inodeNo ≠ no := by
  induction n generalizing k with
  | zero =>
      intro i hlo hhi
      omega
  | succ n ih =>
      rw [getInodeFrom, slotAt_bind] at h
      split at h
      · split at h
        · cases h
        · rename_i hno
          intro i hlo hhi
          by_cases hik : i = k
          · subst hik
            exact hno
          · exact ih h i (by omega) (by omega)
      · cases h

/-- A loop that runs to its end stays inside the block. -/
theorem getInodeFrom_none_le {store : Buf} {no : U64} {n k : Nat}
    (h : getInodeFrom store no n k = .ok none) (hk : k ≤ 128) : k + n ≤ 128 := by
  induction n generalizing k with
  | zero => exact hk
  | succ n ih =>
      rw [getInodeFrom, slotAt_bind] at h
      split at h
      · rename_i hin
        split at h
        · cases h
        · have := ih h (by omega)
          omega
      · cases h

namespace Vol

variable {v : Vol} {no : U64}

theorem getInode_total (h : v.cache.count.toNat ≤ 128) (no : U64) : ∃ r, v.getInode no = .ok r :=
  getInodeFrom_total _ no (by omega)

theorem getInode_some {ino : SimplefsInode} (h : v.getInode no = .ok (some ino)) :
    ∃ j, j < v.cache.count.toNat ∧ v.cache.slot j = ino ∧ ino.inodeNo = no ∧
      ∀ i, i < j → (v.cache.slot i).inodeNo ≠ no := by
  obtain ⟨j, -, hhi, hj, hno, hmin⟩ := getInodeFrom_some h
  exact ⟨j, by omega, hj, hno, fun i hi => hmin i (by omega) hi⟩

theorem getInode_none (h : v.getInode no = .ok none) :
    ∀ i, i < v.cache.count.toNat → (v.cache.slot i).inodeNo ≠ no :=
  fun i hi => getInodeFrom_none h i (by omega) (by omega)

theorem count_le_of_getInode_none (h : v.getInode no = .ok none) : v.cache.count.toNat ≤ 128 := by
  have := getInodeFrom_none_le h (by omega)
  omega

theorem getInode_eq (hc : v.cache.count.toNat ≤ 128) {j : Nat} (hj : j < v.cache.count.toNat)
    (hno : (v.cache.slot j).inodeNo = no) (hmin : ∀ i, i < j → (v.cache.slot i).inodeNo ≠ no) :
    v.getInode no = .ok (some (v.cache.slot j)) := by
  obtain ⟨r, hr⟩ := getInode_total hc no
  cases r with
  | none => exact absurd hno (getInode_none hr j hj)
  | some ino =>
      obtain ⟨j', -, rfl, hno', hmin'⟩ := getInode_some hr
      have hlt : ¬ j < j' := fun h => hmin' j h hno
      have hgt : ¬ j' < j := fun h => hmin j' h hno'
      rw [hr, show j' = j by omega]

end Vol

/-! ## Directories -/

theorem lookupFrom_some {blk : Nat} {b : Buf} {name : List Byte} {n k j : Nat}
    (h : lookupFrom blk b name n k = .ok (some j)) :
    k ≤ j ∧ j < k + n ∧ filenameMatches b j name = true ∧
      ∀ i, k ≤ i → i < j → filenameMatches b i name = false := by
  induction n generalizing k with
  | zero => cases h
  | succ n ih =>
      rw [lookupFrom] at h
      split at h
      · split at h
        · rename_i hmatch
          cases h
          exact ⟨Nat.le_refl _, by omega, hmatch, fun i hlo hhi => by omega⟩
        · rename_i hmatch
          obtain ⟨hlo, hhi, hj, hmin⟩ := ih h
          refine ⟨by omega, by omega, hj, fun i hki hij => ?_⟩
          by_cases hik : i = k
          · subst hik
            simpa using hmatch
          · exact hmin i (by omega) hij
      · cases h

theorem lookupFrom_none {blk : Nat} {b : Buf} {name : List Byte} {n k : Nat}
    (h : lookupFrom blk b name n k = .ok none) :
    ∀ i, k ≤ i → i < k + n → filenameMatches b i name = false := by
  induction n generalizing k with
  | zero =>
      intro i hlo hhi
      omega
  | succ n ih =>
      rw [lookupFrom] at h
      split at h
      · split at h
        · cases h
        · rename_i hmatch
          intro i hlo hhi
          by_cases hik : i = k
          · subst hik
            simpa using hmatch
          · exact ih h i (by omega) (by omega)
      · cases h

/-- The loops leave the block only past record 16. -/
theorem lookupFrom_error {blk : Nat} {b : Buf} {name : List Byte} {n k : Nat} {e : Fault}
    (h : lookupFrom blk b name n k = .error e) :
    16 < k + n ∧ ∃ off, e = .outOfBlock blk off sizeofDirRecord := by
  induction n generalizing k with
  | zero => cases h
  | succ n ih =>
      rw [lookupFrom] at h
      split at h
      · split at h
        · cases h
        · have := ih h
          exact ⟨by omega, this.2⟩
      · rename_i hout
        cases h
        unfold sizeofDirRecord simplefsDefaultBlockSize at hout
        exact ⟨by omega, _, rfl⟩

theorem iterateFrom_error {blk : Nat} {b : Buf} {ctx : DirContext} {n k : Nat} {e : Fault}
    (h : iterateFrom blk b n k ctx = .error e) :
    16 < k + n ∧ ∃ off, e = .outOfBlock blk off sizeofDirRecord := by
  induction n generalizing k ctx with
  | zero => cases h
  | succ n ih =>
      rw [iterateFrom] at h
      split at h
      · have := ih h
        exact ⟨by omega, this.2⟩
      · rename_i hout
        cases h
        unfold sizeofDirRecord simplefsDefaultBlockSize at hout
        exact ⟨by omega, _, rfl⟩

namespace Vol

variable {v : Vol} {par : SimplefsInode} {name : Name}

theorem findRecord_total (h : par.dirChildrenCount.toNat ≤ 16) (name : Name) :
    ∃ r, v.findRecord par name = .ok r := by
  cases hr : v.findRecord par name with
  | ok r => exact ⟨r, rfl⟩
  | error e =>
      have := (lookupFrom_error hr).1
      omega

theorem findRecord_some {j : Nat} (h : v.findRecord par name = .ok (some j)) :
    j < par.dirChildrenCount.toNat ∧
      filenameMatches (v.cache par.dataBlockNumber.toNat) j name.bytes = true := by
  obtain ⟨-, hhi, hj, -⟩ := lookupFrom_some h
  exact ⟨by omega, hj⟩

theorem findRecord_none (h : v.findRecord par name = .ok none) :
    ∀ i, i < par.dirChildrenCount.toNat →
      filenameMatches (v.cache par.dataBlockNumber.toNat) i name.bytes = false :=
  fun i hi => lookupFrom_none h i (by omega) (by omega)

end Vol

/-! ## Numbers in an `int` -/

/-- An `int` holds a small number. -/
theorem asInt_eq {x : U64} (h : x.toNat < 2 ^ 31) : asInt x = x := by
  have hmsb : (x.setWidth 32).msb = false := by
    rw [BitVec.msb_eq_decide]
    simp only [BitVec.toNat_setWidth, decide_eq_false_iff_not]
    omega
  apply BitVec.eq_of_toNat_eq
  unfold asInt
  rw [BitVec.signExtend_eq_setWidth_of_msb_false hmsb, BitVec.toNat_setWidth, BitVec.toNat_setWidth]
  omega

/-! ## The bitmap -/

/-- Below 31 the mask is one bit. -/
theorem bitMask_getLsbD (P : Platform) {i : Nat} (hi : i < 31) (j : Nat) :
    (bitMask P i).getLsbD j = decide (j = i) := by
  unfold bitMask oneShl
  rw [if_pos (by omega), BitVec.getLsbD_signExtend]
  have hmsb : (1#32 <<< i).msb = false := by
    rw [BitVec.msb_eq_getLsbD_last]
    simp
    omega
  rw [hmsb]
  by_cases hji : j = i
  · subst hji
    simp [show j < 32 by omega, show j < 64 by omega]
  · simp only [hji, decide_false, BitVec.getLsbD_shiftLeft, BitVec.getLsbD_one]
    by_cases hj : j < 32
    · simp [hj]
      omega
    · simp [hj]

/-- At 31 it is all the bits from there up, and from 32 on it is anything: but a
word with a bit in common with any mask is not zero. -/
theorem ne_zero_of_blockIsFree {P : Platform} {free : U64} {i : Nat}
    (h : blockIsFree P free i = true) : free ≠ 0 := by
  rintro rfl
  simp [blockIsFree] at h

theorem blockIsFree_iff (P : Platform) (free : U64) {i : Nat} (hi : i < 31) :
    blockIsFree P free i = true ↔ free.getLsbD i = true := by
  unfold blockIsFree
  rw [bne_iff_ne]
  constructor
  · intro hne
    by_contra hbit
    refine hne (BitVec.eq_of_getLsbD_eq fun j _ => ?_)
    rw [BitVec.getLsbD_and, bitMask_getLsbD P hi]
    by_cases hji : j = i
    · subst hji
      simpa using hbit
    · simp [hji]
  · intro hbit hzero
    have := congrArg (fun x : U64 => x.getLsbD i) hzero
    simp [bitMask_getLsbD P hi, hbit] at this

/-- Taking block `i` clears bit `i`. -/
theorem getLsbD_clear (P : Platform) (free : U64) {i : Nat} (hi : i < 31) (j : Nat) :
    (free &&& ~~~bitMask P i).getLsbD j = (free.getLsbD j && decide (j ≠ i)) := by
  rw [BitVec.getLsbD_and, BitVec.getLsbD_not, bitMask_getLsbD P hi]
  by_cases hj : j < 64
  · simp [hj]
  · simp [hj, BitVec.getLsbD_of_ge free j (by omega)]

theorem freeblockFrom_spec (P : Platform) (free : U64) (n i : Nat) :
    i ≤ freeblockFrom P free n i ∧ freeblockFrom P free n i ≤ i + n ∧
      (freeblockFrom P free n i ≠ i + n →
        blockIsFree P free (freeblockFrom P free n i) = true) ∧
      ∀ j, i ≤ j → j < freeblockFrom P free n i → blockIsFree P free j = false := by
  induction n generalizing i with
  | zero =>
      simp only [freeblockFrom]
      exact ⟨Nat.le_refl _, Nat.le_refl _, fun h => absurd rfl h, fun j hlo hhi => by omega⟩
  | succ n ih =>
      simp only [freeblockFrom]
      by_cases hfree : blockIsFree P free i = true
      · rw [if_pos hfree]
        exact ⟨Nat.le_refl _, by omega, fun _ => hfree, fun j hlo hhi => by omega⟩
      · rw [if_neg hfree]
        obtain ⟨hlo, hhi, hfound, hmin⟩ := ih (i + 1)
        refine ⟨by omega, by omega, fun hne => hfound (by omega), fun j hij hj => ?_⟩
        by_cases hji : j = i
        · subst hji
          simpa using hfree
        · exact hmin j (by omega) hj

namespace Vol

variable {v : Vol}

theorem freeIndex_ge (P : Platform) (v : Vol) : 2 ≤ v.freeIndex P :=
  (freeblockFrom_spec P v.cache.free 62 2).1

theorem freeIndex_le (P : Platform) (v : Vol) : v.freeIndex P ≤ 64 :=
  (freeblockFrom_spec P v.cache.free 62 2).2.1

theorem blockIsFree_freeIndex {P : Platform} (h : v.freeIndex P ≠ 64) :
    blockIsFree P v.cache.free (v.freeIndex P) = true :=
  (freeblockFrom_spec P v.cache.free 62 2).2.2.1 h

theorem freeIndex_min {P : Platform} {j : Nat} (hj : 2 ≤ j) (hlt : j < v.freeIndex P) :
    blockIsFree P v.cache.free j = false :=
  (freeblockFrom_spec P v.cache.free 62 2).2.2.2 j hj hlt

/-- With free bits in `[2, hi)` only, the allocator returns one of them, or there
is none. -/
theorem freeIndex_cases (P : Platform) {hi : Nat} (hhi : hi ≤ 31)
    (hfree : ∀ b, v.cache.free.getLsbD b = true → 2 ≤ b ∧ b < hi) :
    (v.freeIndex P = 64 ∧ v.cache.free = 0) ∨
      (v.freeIndex P < hi ∧ v.cache.free.getLsbD (v.freeIndex P) = true) := by
  by_cases hz : v.cache.free = 0
  · left
    refine ⟨?_, hz⟩
    by_contra hne
    exact ne_zero_of_blockIsFree (blockIsFree_freeIndex hne) hz
  · right
    -- some bit is set, and the loop meets it before it reaches 31
    have hbit : ∃ b, v.cache.free.getLsbD b = true := by
      by_contra hnone
      refine hz (BitVec.eq_of_getLsbD_eq fun j _ => ?_)
      have := fun h => hnone ⟨j, h⟩
      simpa using this
    obtain ⟨b, hb⟩ := hbit
    obtain ⟨hb2, hbhi⟩ := hfree b hb
    have hle : v.freeIndex P ≤ b := by
      by_contra hgt
      have hmin := freeIndex_min hb2 (by omega : b < v.freeIndex P)
      rw [← Bool.not_eq_true, blockIsFree_iff P _ (by omega)] at hmin
      exact hmin hb
    have hset := blockIsFree_freeIndex (by omega : v.freeIndex P ≠ 64)
    rw [blockIsFree_iff P _ (by omega)] at hset
    exact ⟨(hfree _ hset).2, hset⟩

end Vol

end Lkm.Simplefs
