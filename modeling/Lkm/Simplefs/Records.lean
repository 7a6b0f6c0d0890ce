import Lkm.Simplefs.Format
import Lkm.Simplefs.Logic.Coherence
import Lkm.Simplefs.Logic.Exact
import Lkm.Simplefs.Logic.Tables

/-!
# Writing a directory record and reading it back

`simplefs_create_fs_object` stores `inode_no` in the record and then copies the name with
`strcpy`; `simplefs_lookup` compares names with `strcmp`. Neither looks at the size of
`filename`, 248 bytes with `inode_no` right behind them. A name of up to 255 bytes stays in
the record and `strcmp`, which also runs on into `inode_no`, finds it again; but from 248
bytes on the number is overwritten. It survives only under a name of 249 bytes whose last
byte is the number's lowest byte, since the NUL behind it falls on a zero
(`recordInodeNo_record_iff`).
-/

namespace Lkm.Simplefs

open Base

/-- Block `blk`, which held `b` and holds `b'`, has got a record `k` that `simplefs_lookup`
decodes to `name` and `no`; no other byte has changed. -/
structure RoundTrips (blk : Nat) (b b' : Buf) (k : Nat) (name : Name) (no : U64) : Prop where
  named : ∀ n : Name, filenameMatches b' k n.bytes = true ↔ n = name
  number : recordInodeNo b' k = no
  found : lookupFrom blk b' name.bytes (k + 1) 0 = .ok (some k)
  others : ∀ i, i < sizeofDirRecord * k ∨ sizeofDirRecord * (k + 1) ≤ i → b' i = b i
  inside : sizeofDirRecord * (k + 1) ≤ simplefsDefaultBlockSize

/-- `strcpy` of the name leaves the number as it is. -/
def KeepsNumber (name : Name) (no : U64) : Prop :=
  name.bytes.length < 248 ∨
    name.bytes.length = 249 ∧ name.bytes.getD 248 0 = BitVec.ofNat 8 no.toNat

instance (name : Name) (no : U64) : Decidable (KeepsNumber name no) :=
  inferInstanceAs (Decidable (_ ∨ _))

section Record

variable (b : Buf) (k : Nat) (name : Name) (no : U64)

/-- Record `k` as a create fills it. -/
def writeRecord : Buf := strcpyFilename (setRecordInodeNo b k no) k name.bytes

/-- A byte of the number afterwards: one of the name's if the copy gets that far. -/
theorem writeRecord_number_byte {i : Nat} (hi : i < 8) :
    writeRecord b k name no (sizeofDirRecord * k + 248 + i) =
      if 248 + i ≤ name.bytes.length then (name.bytes ++ [0]).getD (248 + i) 0
      else (wordBytes 8 no).getD i 0 := by
  unfold writeRecord strcpyFilename setRecordInodeNo put64
  split
  · rename_i hlong
    rw [Nat.add_assoc, put_inside (by rw [List.length_append, List.length_singleton]; omega)]
  · rename_i hshort
    rw [put_frame (by rw [List.length_append, List.length_singleton]; omega),
      put_inside (by rwa [wordBytes_length])]

/-- The number is kept if the bytes copied over it are its own. -/
theorem recordInodeNo_writeRecord : recordInodeNo (writeRecord b k name no) k = no ↔
    ∀ i, i < 8 → 248 + i ≤ name.bytes.length →
      (name.bytes ++ [0]).getD (248 + i) 0 = (wordBytes 8 no).getD i 0 := by
  refine (getWord_eq_iff (by decide) _ _ no).trans (forall₂_congr fun i hi => ?_)
  rw [writeRecord_number_byte b k name no hi]
  split
  · rename_i hlong
    exact ⟨fun h _ => h, fun h => h hlong⟩
  · rename_i hshort
    exact iff_of_true rfl fun hlong => absurd hlong hshort

variable {b k no}

/-- The numbers that creates give out take one byte, and it is not zero. -/
theorem recordInodeNo_record_iff (hpos : 0 < no.toNat) (hbyte : no.toNat < 256) :
    recordInodeNo (writeRecord b k name no) k = no ↔ KeepsNumber name no := by
  have hlow : (wordBytes 8 no).getD 0 0 = BitVec.ofNat 8 no.toNat := rfl
  have hnext : (wordBytes 8 no).getD 1 0 = 0 := by
    show BitVec.ofNat 8 (no.toNat / 256) = 0
    rw [Nat.div_eq_of_lt hbyte]
    rfl
  have hnonzero : BitVec.ofNat 8 no.toNat ≠ 0 := by
    intro hzero
    have := congrArg BitVec.toNat hzero
    rw [BitVec.toNat_ofNat, Nat.mod_eq_of_lt hbyte] at this
    exact absurd this (Nat.ne_of_gt hpos)
  rw [recordInodeNo_writeRecord]
  constructor
  · intro h
    by_cases hshort : name.bytes.length < 248
    · exact .inl hshort
    have hfirst := h 0 (by decide) (by omega)
    rw [hlow] at hfirst
    -- the NUL of a name of 248 bytes, or the second byte over the number, gives it away
    have hne : name.bytes.length ≠ 248 := by
      intro h248
      have hnul := name.getD_length
      rw [h248] at hnul
      exact hnonzero (hfirst.symm.trans hnul)
    have hle : name.bytes.length ≤ 249 := by
      by_contra hlong
      have hsecond := h 1 (by decide) (by omega)
      exact name.getD_ne_zero (by omega) (hsecond.trans hnext)
    have h249 : name.bytes.length = 249 := by omega
    rw [List.getD_append _ _ _ _ (by omega)] at hfirst
    exact .inr ⟨h249, hfirst⟩
  · rintro (hshort | ⟨h249, hlast⟩) i hi hlong
    · omega
    · obtain rfl | rfl : i = 0 ∨ i = 1 := by omega
      · rw [hlow, ← hlast, List.getD_append _ _ _ _ (by omega)]
      · have hnul := name.getD_length
        rw [h249] at hnul
        rw [hnext]
        exact hnul

theorem writeRecord_others {i : Nat} (h : i < sizeofDirRecord * k ∨ sizeofDirRecord * (k + 1) ≤ i) :
    writeRecord b k name no i = b i := by
  have hname := name.short
  unfold sizeofDirRecord at h
  unfold writeRecord strcpyFilename setRecordInodeNo put64 sizeofDirRecord
  rw [put_frame (by rw [List.length_append, List.length_singleton]; omega),
    put_frame (by rw [wordBytes_length]; omega)]

theorem writeRecord_named (n : Name) :
    filenameMatches (writeRecord b k name no) k n.bytes = true ↔ n = name := by
  have hself := filenameMatches_strcpyFilename (setRecordInodeNo b k no) k name.bytes
  constructor
  · intro h
    exact Name.eq_of_bytes (filenameMatches_unique n.noNul name.noNul h hself)
  · rintro rfl
    exact hself

/-- The search comes to the new record, since no earlier one has the name. -/
theorem lookupFrom_writeRecord {blk : Nat} (hk : k < 16)
    (habsent : ∀ r, r < k → filenameMatches b r name.bytes = false) :
    lookupFrom blk (writeRecord b k name no) name.bytes (k + 1) 0 = .ok (some k) := by
  have hself : filenameMatches (writeRecord b k name no) k name.bytes = true :=
    (writeRecord_named name name).mpr rfl
  cases hrun : lookupFrom blk (writeRecord b k name no) name.bytes (k + 1) 0 with
  | error e =>
      have := (lookupFrom_error hrun).1
      omega
  | ok r =>
      cases r with
      | none =>
          have := lookupFrom_none hrun k (by omega) (by omega)
          rw [hself] at this
          cases this
      | some j =>
          obtain ⟨-, hj, hmatch, -⟩ := lookupFrom_some hrun
          by_cases hlt : j < k
          · unfold writeRecord at hmatch
            rw [filenameMatches_setRecord_ne name.short name.short (by omega), habsent j hlt] at hmatch
            cases hmatch
          · obtain rfl : j = k := by omega
            rfl

/-- A record that is filled decodes to what was put there, if its number is kept. -/
theorem roundTrips_iff {blk : Nat} (hk : k < 16)
    (habsent : ∀ r, r < k → filenameMatches b r name.bytes = false)
    (hpos : 0 < no.toNat) (hbyte : no.toNat < 256) :
    RoundTrips blk b (writeRecord b k name no) k name no ↔ KeepsNumber name no := by
  rw [← recordInodeNo_record_iff (b := b) (k := k) name hpos hbyte]
  constructor
  · intro h
    exact h.number
  · intro hnumber
    refine ⟨writeRecord_named name, hnumber, lookupFrom_writeRecord name hk habsent,
      fun i hi => writeRecord_others name hi, ?_⟩
    unfold sizeofDirRecord simplefsDefaultBlockSize
    omega

end Record

/-! ## The create -/

/-- The blocks of data are not touched when a block is taken and an inode is added. -/
theorem Vol.added_block (P : Platform) (v : Vol) (ino : SimplefsInode) (skip : Bool) {b : Nat}
    (hb : 2 ≤ b) : ((v.after (takeScript P v)).added ino skip).cache b = v.cache b := by
  have htake : (v.after (takeScript P v)).cache b = v.cache b :=
    Vol.modify_cache_ne v (setFreeBlocks · _) (by omega)
  cases skip with
  | true => exact htake
  | false =>
      show (((v.after (takeScript P v)).putSlot _ ino).setCount _).cache b = v.cache b
      unfold Vol.setCount Vol.putSlot
      rw [Vol.modify_cache_ne _ _ (by omega), Vol.modify_cache_ne _ _ (by omega), htake]

theorem Vol.added_priv (P : Platform) (v : Vol) (ino : SimplefsInode) (skip : Bool) :
    ((v.after (takeScript P v)).added ino skip).priv = v.priv := by
  cases skip <;> rfl

/-- A create that returns 0, in a directory whose block lies behind the inode store and
holds no such name: the record round-trips exactly when the name keeps its number. -/
theorem record_round_trip_iff (P : Platform) (w : Outside) (dir : Path) (name : Name) (mode : U32)
    (m m' : Machine) (par : SimplefsInode) (hpar : m.mem.priv dir = some par)
    (hlow : 2 ≤ par.dataBlockNumber.toNat)
    (habsent : ∀ r, r < par.dirChildrenCount.toNat →
      filenameMatches (m.mem.cache par.dataBlockNumber.toNat) r name.bytes = false)
    (hrun : (simplefsCreateFsObject P dir name mode).run w 0 m = .done (.ok ()) m') :
    RoundTrips par.dataBlockNumber.toNat (m.mem.cache par.dataBlockNumber.toNat)
        (m'.mem.cache par.dataBlockNumber.toNat) par.dirChildrenCount.toNat name
        (newInode P m.mem.toVol mode (w.answer .slab)).inodeNo ↔
      KeepsNumber name (newInode P m.mem.toVol mode (w.answer .slab)).inodeNo := by
  have h : xwp w (simplefsCreateFsObject P dir name mode)
      (fun r v' _ => r = .ok () →
        (RoundTrips par.dataBlockNumber.toNat (m.mem.cache par.dataBlockNumber.toNat)
          (v'.cache par.dataBlockNumber.toNat) par.dirChildrenCount.toNat name
          (newInode P m.mem.toVol mode (w.answer .slab)).inodeNo ↔
        KeepsNumber name (newInode P m.mem.toVol mode (w.answer .slab)).inodeNo))
      m.mem.toVol m.mem.refs := by
    apply xwp_simplefsCreateFsObject
    · intro _ _ hok
      cases hok
    · intro ino v₁ halloc hino hv₁
      subst hino hv₁
      constructor
      · intro _ _ _ _ _ _ hok
        cases hok
      · intro _ _ _ _ _ _ _ _ hok
        cases hok
      · intro par' v₂ v' hpar' hk hv₂ _ _ hcache _
        rw [Vol.added_priv] at hpar'
        obtain rfl : par = par' := Option.some.inj (hpar.symm.trans hpar')
        have hblock : v'.cache par.dataBlockNumber.toNat =
            writeRecord (m.mem.cache par.dataBlockNumber.toNat) par.dirChildrenCount.toNat name
              (newInode P m.mem.toVol mode (w.answer .slab)).inodeNo := by
          rw [hcache _ (by omega), hv₂, Vol.recorded_block, Vol.added_block P _ _ _ hlow]
          rfl
        have hnumber := newInode_number P halloc.room mode (w.answer .slab)
        have hroom := halloc.room
        rw [hblock]
        exact roundTrips_iff name hk habsent (by omega) (by omega)
  exact xwp_done h hrun rfl

/-- A create in the empty root directory. -/
def rootCreate (name : Name) : Outcome Mem Mutex Fault (Except Errno Unit) :=
  (simplefsCreateFsObject demoPlatform [] name sIfreg).run calm 0 (mount demoPlatform emptyRoot)

/-- The root directory with the record of `a` in it. -/
def rootWithA : Machine := (emptyRootRun [(calm, .create [] nameA sIfreg)]).mach

/-- A second name of one letter round-trips, with number 10. -/
theorem record_round_trip_letter :
    ∃ m', (simplefsCreateFsObject demoPlatform [] nameF sIfreg).run calm 0 rootWithA = .done (.ok ()) m' ∧
      filenameMatches (rootWithA.mem.cache 2) 0 nameA.bytes = true ∧
      RoundTrips 2 (rootWithA.mem.cache 2) (m'.mem.cache 2) 1 nameF 10 := by
  have hresult : ((simplefsCreateFsObject demoPlatform [] nameF sIfreg).run calm 0 rootWithA).result? =
      some (.ok ()) := by decide +kernel
  have hpar : rootWithA.mem.priv [] = some ⟨sIfdir, 0, 1, 2, 1⟩ := by decide +kernel
  have habsent : filenameMatches (rootWithA.mem.cache 2) 0 nameF.bytes = false := by decide +kernel
  have hnumber : (newInode demoPlatform rootWithA.mem.toVol sIfreg (calm.answer .slab)).inodeNo = 10 := by
    decide +kernel
  have hiff := record_round_trip_iff demoPlatform calm [] nameF sIfreg _ _ ⟨sIfdir, 0, 1, 2, 1⟩ hpar
    (by decide) (fun r hr => by
      obtain rfl : r = 0 := Nat.lt_one_iff.mp hr
      exact habsent) (Outcome.eq_done hresult)
  rw [hnumber] at hiff
  exact ⟨_, Outcome.eq_done hresult, by decide +kernel, hiff.mpr (by decide)⟩

/-- A name of `n` letters. -/
def letters (n : Nat) (hpos : 0 < n) (hshort : n ≤ 255) : Name where
  bytes := List.replicate n 0x61
  nonempty := by
    rw [Ne, List.replicate_eq_nil_iff]
    omega
  short := by rwa [List.length_replicate]
  noNul h := absurd (List.eq_of_mem_replicate h) (by decide)
  noSlash h := absurd (List.eq_of_mem_replicate h) (by decide)

def name250 : Name := letters 250 (by decide) (by decide)

/-- A name of 250 letters is found in its record, whose number is no longer 9: two letters
and a NUL have been written over it. -/
theorem record_number_overwritten : ∃ m', rootCreate name250 = .done (.ok ()) m' ∧
    (mount demoPlatform emptyRoot).mem.priv [] = some ⟨sIfdir, 0, 1, 2, 0⟩ ∧
    lookupFrom 2 (m'.mem.cache 2) name250.bytes 1 0 = .ok (some 0) ∧
    (m'.mem.cache.slot 1).inodeNo = 9 ∧ recordInodeNo (m'.mem.cache 2) 0 = 0x6161 := by
  apply Outcome.exists_done
  decide +kernel

end Lkm.Simplefs
