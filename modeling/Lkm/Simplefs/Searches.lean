import Mathlib.Data.Nat.Find
import Lkm.Simplefs.Format
import Lkm.Simplefs.Logic.Run

/-!
# The two searches in the inode store

`simplefs_get_inode` looks at the first `inodes_count` slots. `simplefs_inode_search`
leaves its loop when `count` has reached `inodes_count`, and then compares the slot it
has arrived at, which is the one after the table. The two agree unless that slot holds
the number and no slot of the table does (`Stale`); then `simplefs_inode_save` takes the
leftover for the inode's place.
-/

namespace Lkm.Simplefs

open Base

namespace Vol

/-- No slot of the table has the number. -/
def Absent (v : Vol) (no : U64) : Prop :=
  ∀ i, i < v.cache.count.toNat → (v.cache.slot i).inodeNo ≠ no

/-- Slot `k` is the first of the table with the number. -/
def FirstSlot (v : Vol) (no : U64) (k : Nat) : Prop :=
  k < v.cache.count.toNat ∧ (v.cache.slot k).inodeNo = no ∧
    ∀ i, i < k → (v.cache.slot i).inodeNo ≠ no

/-- The slot after the table is the first with the number. -/
def Stale (v : Vol) (no : U64) : Prop :=
  v.Absent no ∧ (v.cache.slot v.cache.count.toNat).inodeNo = no

end Vol

/-- Both searches find the number or neither does, and what they find is the first slot of
the table with it. -/
structure SearchesAgree (v : Vol) (no : U64) : Prop where
  found : (∃ k, v.search no = .ok (some k)) ↔ ∃ ino, v.getInode no = .ok (some ino)
  same : ∀ k ino, v.search no = .ok (some k) → v.getInode no = .ok (some ino) →
    v.FirstSlot no k ∧ v.cache.slot k = ino

/-- `simplefs_inode_save` of the private inode `ino` of `p`: a number that is not in the
table is refused and nothing is changed; otherwise one slot is overwritten, the one that
`simplefs_get_inode` reads afterwards. -/
structure SavesInPlace (P : Platform) (w : Outside) (m : Machine) (p : Path)
    (ino : SimplefsInode) : Prop where
  absent : m.mem.Absent ino.inodeNo →
    ∃ m', (simplefsInodeSave P p).run w 0 m = .done (.error .eio) m' ∧ m'.mem.toVol = m.mem.toVol
  present : ∀ k, m.mem.FirstSlot ino.inodeNo k →
    ∃ m', (simplefsInodeSave P p).run w 0 m = .done (.ok ()) m' ∧
      m'.mem.cache = Function.update m.mem.cache 1 (putInode (m.mem.cache 1) k ino) ∧
      m'.mem.getInode ino.inodeNo = .ok (some ino)

section Searches

variable {v : Vol} {no : U64}

/-- A number is missing from the table, or some slot is the first with it. -/
theorem Vol.absent_or_first (v : Vol) (no : U64) : v.Absent no ∨ ∃ k, v.FirstSlot no k := by
  by_cases h : ∃ k, k < v.cache.count.toNat ∧ (v.cache.slot k).inodeNo = no
  · right
    refine ⟨Nat.find h, (Nat.find_spec h).1, (Nat.find_spec h).2, ?_⟩
    intro i hi hno
    have := (Nat.find_spec h).1
    exact Nat.find_min h hi ⟨by omega, hno⟩
  · left
    intro i hi hno
    exact h ⟨i, hi, hno⟩

section Table

variable (hc : v.cache.count.toNat ≤ 64)

include hc

theorem Vol.FirstSlot.search {k : Nat} (h : v.FirstSlot no k) : v.search no = .ok (some k) :=
  Vol.search_eq hc (Nat.le_of_lt h.1) h.2.1 h.2.2

theorem Vol.FirstSlot.getInode {k : Nat} (h : v.FirstSlot no k) :
    v.getInode no = .ok (some (v.cache.slot k)) :=
  Vol.getInode_eq (by omega) h.1 h.2.1 h.2.2

theorem Vol.Absent.getInode (h : v.Absent no) : v.getInode no = .ok none := by
  obtain ⟨r, hr⟩ := Vol.getInode_total (v := v) (by omega) no
  cases r with
  | none => exact hr
  | some ino =>
      obtain ⟨k, hk, rfl, hno, -⟩ := Vol.getInode_some hr
      exact absurd hno (h k hk)

/-- The leftover after the table is found. -/
theorem Vol.Stale.search (h : v.Stale no) : v.search no = .ok (some v.cache.count.toNat) :=
  Vol.search_eq hc (Nat.le_refl _) h.2 h.1

theorem Vol.Absent.search (h : v.Absent no) (hstale : ¬ v.Stale no) : v.search no = .ok none := by
  obtain ⟨r, hr⟩ := Vol.search_total hc no
  cases r with
  | none => exact hr
  | some k =>
      obtain ⟨hk, hno, -⟩ := Vol.search_some hr
      have hlast : k = v.cache.count.toNat := by
        by_contra hne
        exact h k (by omega) hno
      rw [hlast] at hno
      exact absurd ⟨h, hno⟩ hstale

theorem searchesAgree_iff : SearchesAgree v no ↔ ¬ v.Stale no := by
  constructor
  · intro hagree hstale
    obtain ⟨ino, hino⟩ := hagree.found.mp ⟨_, hstale.search hc⟩
    cases (hstale.1.getInode hc).symm.trans hino
  · intro hstale
    rcases v.absent_or_first no with habsent | ⟨k, hk⟩
    · have hsearch := habsent.search hc hstale
      have hget := habsent.getInode hc
      constructor
      · rw [hsearch, hget]
        simp
      · intro k ino hk _
        cases hsearch.symm.trans hk
    · have hsearch := hk.search hc
      have hget := hk.getInode hc
      constructor
      · exact iff_of_true ⟨k, hsearch⟩ ⟨_, hget⟩
      · intro k' ino hk' hino
        cases hsearch.symm.trans hk'
        cases hget.symm.trans hino
        exact ⟨hk, rfl⟩

end Table

variable {P : Platform} {w : Outside} {m : Machine} {p : Path} {ino : SimplefsInode}

/-- An inode saved to the first slot with its number is there for `simplefs_get_inode`. -/
theorem getInode_saved {k : Nat} (hc : v.cache.count.toNat ≤ 64) (hk : v.FirstSlot ino.inodeNo k) :
    (v.after (saveScript k ino)).getInode ino.inodeNo = .ok (some ino) := by
  have hcount : (v.after (saveScript k ino)).cache.count = v.cache.count := Vol.putSlot_count v
  have hself : (v.after (saveScript k ino)).cache.slot k = ino := Vol.putSlot_slot_self v
  have hother : ∀ i, i ≠ k → (v.after (saveScript k ino)).cache.slot i = v.cache.slot i :=
    fun i hi => Vol.putSlot_slot_ne v hi
  have hfirst : (v.after (saveScript k ino)).FirstSlot ino.inodeNo k := by
    refine ⟨by rw [hcount]; exact hk.1, by rw [hself], ?_⟩
    intro i hi
    rw [hother i (by omega)]
    exact hk.2.2 i hi
  rw [hfirst.getInode (by rwa [hcount]), hself]

theorem savesInPlace_iff (hc : m.mem.cache.count.toNat ≤ 64) (hP : 2 ≤ P.nrBlocks)
    (hw : w.interrupted .saveSb = false) (hfree : m.owner .sb = none)
    (hino : m.mem.priv p = some ino) :
    SavesInPlace P w m p ino ↔ ¬ m.mem.Stale ino.inodeNo := by
  constructor
  · intro h hstale
    -- the save goes through, where it should have been refused
    obtain ⟨m₁, hrefused, -⟩ := h.absent hstale.1
    obtain ⟨m₂, hsaved, -⟩ :=
      run_simplefsInodeSave_found hP hw hfree hino (t := 0) (hstale.search hc)
    cases hrefused.symm.trans hsaved
  · intro hstale
    constructor
    · intro habsent
      exact run_simplefsInodeSave_missing hP hw hfree hino (habsent.search hc hstale)
    · intro k hk
      obtain ⟨m', hrun, hvol⟩ := run_simplefsInodeSave_found hP hw hfree hino (t := 0) (hk.search hc)
      refine ⟨m', hrun, ?_, ?_⟩
      · rw [hvol]
        rfl
      · rw [hvol]
        exact getInode_saved hc hk

end Searches

/-- For every inode store with at most 64 inodes and every number: the two searches agree,
and a save keeps to the slot that they agree on, exactly when the slot after the table is
not a leftover with the number. -/
theorem inode_searches_agree_iff (P : Platform) (w : Outside) (m : Machine) (p : Path)
    (ino : SimplefsInode) (hc : m.mem.cache.count.toNat ≤ 64) (hP : 2 ≤ P.nrBlocks)
    (hw : w.interrupted .saveSb = false) (hfree : m.owner .sb = none)
    (hino : m.mem.priv p = some ino) :
    (SearchesAgree m.mem.toVol ino.inodeNo ∧ SavesInPlace P w m p ino) ↔
      ¬ m.mem.Stale ino.inodeNo := by
  rw [searchesAgree_iff hc, savesInPlace_iff hc hP hw hfree hino, and_self]

/-- A table with three inodes, and behind it one from an earlier format with the number 12. A dentry
has the third inode, with a size that is not stored yet. -/
def threeInodes : Machine :=
  machineOf
    { Vol.ofImage emptyRoot with
      cache := Function.update
        (Function.update emptyRoot 0 (setInodesCount (emptyRoot 0) 3)) 1
        (putInode (putInode (putInode (emptyRoot 1) 1 ⟨sIfreg, 0, 9, 3, 4⟩) 2 ⟨sIfreg, 0, 10, 4, 0⟩) 3
          ⟨sIfreg, 0, 12, 6, 1⟩)
      dcache := fun p => if p = [nameF] then some (vfsInode ⟨sIfreg, 0, 10, 4, 7⟩) else none }

theorem inode_searches_agree_third :
    (threeInodes.mem.cache.slot 3).inodeNo = 12 ∧
      SearchesAgree threeInodes.mem.toVol 10 ∧
      SavesInPlace demoPlatform calm threeInodes [nameF] ⟨sIfreg, 0, 10, 4, 7⟩ := by
  have hcount : threeInodes.mem.cache.count.toNat ≤ 64 := by decide +kernel
  have hfile : threeInodes.mem.priv [nameF] = some ⟨sIfreg, 0, 10, 4, 7⟩ := by decide +kernel
  refine ⟨by decide +kernel, (inode_searches_agree_iff demoPlatform calm _ [nameF] _ hcount (by decide) rfl
    (by decide +kernel) hfile).mpr ?_⟩
  intro hstale
  exact hstale.1 2 (by decide +kernel) (by decide +kernel)

/-- A table with the root directory only, and an inode from an earlier format after it; a
dentry has an inode with the number of the leftover. -/
def leftover : Machine :=
  machineOf
    { Vol.ofImage emptyRoot with
      cache := Function.update emptyRoot 1 (putInode (emptyRoot 1) 1 ⟨sIfreg, 0, 9, 4, 12⟩)
      dcache := fun p => if p = [nameF] then some (vfsInode ⟨sIfreg, 0, 9, 3, 0⟩) else none }

/-- The number is not in the table, but the save returns 0 and overwrites the leftover. -/
theorem leftover_taken_for_inode :
    leftover.mem.search 9 = .ok (some 1) ∧ leftover.mem.getInode 9 = .ok none ∧
      ∃ m', (simplefsInodeSave demoPlatform [nameF]).run calm 0 leftover = .done (.ok ()) m' ∧
        leftover.mem.cache.slot 1 = ⟨sIfreg, 0, 9, 4, 12⟩ ∧
        m'.mem.cache.slot 1 = ⟨sIfreg, 0, 9, 3, 0⟩ := by
  refine ⟨by decide +kernel, by decide +kernel, ?_⟩
  apply Outcome.exists_done
  decide +kernel

end Lkm.Simplefs
