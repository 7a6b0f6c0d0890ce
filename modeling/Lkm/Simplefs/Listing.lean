import Lkm.Base.Drain
import Lkm.Simplefs.Format
import Lkm.Simplefs.Logic.Run

/-!
# Listing a directory

`simplefs_iterate` walks the records of a directory and hands each to `dir_emit`. Three
things about the walk decide what a caller sees (`iterateFrom_eq`):

* the name goes out with the length of its field, not with its own: the caller gets the 248
  bytes of `filename`, whatever follows the NUL. Cut at the NUL they are the names that
  `simplefs_lookup` compares (`resolves_iff`);
* the result of `dir_emit` is ignored, and the position advances past records that were not
  stored;
* a call that does not start at position 0 returns at once. Records that did not fit the
  first buffer are never emitted (`drain_listing`).
-/

namespace Lkm.Simplefs

open Base

/-- `par` is the inode of a directory in memory, and its records fit their block. -/
structure Directory (P : Platform) (v : Vol) (dir : Path) (par : SimplefsInode) : Prop where
  priv : v.priv dir = some par
  isdir : sIsdir par.mode = true
  block : par.dataBlockNumber.toNat < P.nrBlocks
  small : par.dirChildrenCount.toNat ≤ 16

/-- The records are NUL-terminated and have different names. -/
structure NamedRecords (v : Vol) (par : SimplefsInode) : Prop where
  terminated : ∀ r, r < par.dirChildrenCount.toNat →
    RecordTerminated (v.cache par.dataBlockNumber.toNat) r
  distinct : ∀ r s, r < par.dirChildrenCount.toNat → s < par.dirChildrenCount.toNat →
    recordName (v.cache par.dataBlockNumber.toNat) r =
      recordName (v.cache par.dataBlockNumber.toNat) s → r = s

/-- What `dir_emit` is given for record `r`. -/
def emittedEntry (b : Buf) (r : Nat) : List Byte × U64 :=
  (slice b (sizeofDirRecord * r) simplefsFilenameMaxlen, recordInodeNo b r)

/-- The name and the number that record `r` holds. -/
def recordEntry (b : Buf) (r : Nat) : List Byte × U64 := (recordName b r, recordInodeNo b r)

/-- An entry with its name cut at the NUL. -/
def cutName (e : List Byte × U64) : List Byte × U64 := (e.1.takeWhile (· ≠ 0), e.2)

theorem cutName_emittedEntry (b : Buf) (r : Nat) : cutName (emittedEntry b r) = recordEntry b r := rfl

/-- The walk from record `k` over `n` records: as many entries as there is room for, and a
position that has moved over all of them. -/
theorem iterateFrom_eq (blk : Nat) (b : Buf) {n k : Nat} (h : k + n ≤ 16) (ctx : DirContext) :
    iterateFrom blk b n k ctx = .ok
      { pos := ctx.pos + BitVec.ofNat 64 (sizeofDirRecord * n)
        room := ctx.room - n
        emitted := ctx.emitted ++ ((List.range' k n).take ctx.room).map (emittedEntry b) } := by
  induction n generalizing k ctx with
  | zero => simp [iterateFrom]
  | succ n ih =>
      have hpos : ∀ pos : U64, pos + BitVec.ofNat 64 sizeofDirRecord +
          BitVec.ofNat 64 (sizeofDirRecord * n) =
          pos + BitVec.ofNat 64 (sizeofDirRecord * (n + 1)) := by
        intro pos
        rw [BitVec.add_assoc, ← BitVec.ofNat_add, Nat.mul_succ, Nat.add_comm]
      rw [iterateFrom, if_pos (by unfold sizeofDirRecord simplefsDefaultBlockSize; omega)]
      dsimp only
      rw [ih (by omega)]
      unfold DirContext.dirEmit
      cases hroom : ctx.room with
      | zero => simp [hroom, hpos]
      | succ room =>
          simp only [Nat.succ_pos, if_true, hpos, List.range'_succ, List.take_succ_cons,
            List.map_cons, List.append_assoc, List.singleton_append, Nat.add_sub_cancel,
            Nat.add_sub_add_right]
          rfl

section

variable {P : Platform} {w : Outside} {m : Machine} {dir : Path} {par : SimplefsInode} {room : Nat}

/-- The first call of a listing. -/
theorem run_listing (hd : Directory P m.mem.toVol dir par) :
    (simplefsIterate P dir ⟨0, room, []⟩).run w 0 m = .done (.ok
      { pos := BitVec.ofNat 64 (sizeofDirRecord * par.dirChildrenCount.toNat)
        room := room - par.dirChildrenCount.toNat
        emitted := ((List.range par.dirChildrenCount.toNat).take room).map
          (emittedEntry (m.mem.cache par.dataBlockNumber.toNat)) }) m := by
  apply run_simplefsIterate rfl hd.priv hd.isdir hd.block
  have hsmall := hd.small
  rw [iterateFrom_eq _ _ (by omega), List.range_eq_range', List.nil_append,
    show ∀ x : U64, 0 + x = x from BitVec.zero_add]

end

/-! ## Listing and lookup -/

/-- `simplefs_lookup` of the name, for a dentry that has no inode yet, gives it the inode with
the number. -/
def Resolves (P : Platform) (w : Outside) (m : Machine) (dir : Path) (name : Name) (no : U64) : Prop :=
  ∃ m' i, (simplefsLookup P dir name).run w 0 m = .done () m' ∧
    m'.mem.dcache (name :: dir) = some i ∧ i.iIno = no

/-- The entries are the records' own names and numbers, once each and in order, and they are
what `simplefs_lookup` resolves. -/
structure ListingAgrees (P : Platform) (w : Outside) (m : Machine) (dir : Path)
    (par : SimplefsInode) (entries : List (List Byte × U64)) : Prop where
  records : entries = (List.range par.dirChildrenCount.toNat).map
    (recordEntry (m.mem.cache par.dataBlockNumber.toNat))
  lookups : ∀ name no, m.mem.dcache (name :: dir) = none →
    ((name.bytes, no) ∈ entries ↔ Resolves P w m dir name no)

/-- The numbers in the records are in the table, and fit the `int` of `simplefs_iget`. -/
def RecordsStored (v : Vol) (par : SimplefsInode) : Prop :=
  ∀ r, r < par.dirChildrenCount.toNat →
    (v.cache.recordNo par r).toNat < 2 ^ 31 ∧ ∃ ino, v.getInode (v.cache.recordNo par r) = .ok (some ino)

section

variable {P : Platform} {w : Outside} {m : Machine} {v : Vol} {dir : Path} {par : SimplefsInode}

/-- The loop of `simplefs_lookup` finds the record with the name. -/
theorem NamedRecords.findRecord_iff (h : NamedRecords v par)
    (hsmall : par.dirChildrenCount.toNat ≤ 16) {name : Name} {k : Nat} :
    v.findRecord par name = .ok (some k) ↔ k < par.dirChildrenCount.toNat ∧
      recordName (v.cache par.dataBlockNumber.toNat) k = name.bytes := by
  constructor
  · intro hfind
    obtain ⟨hk, hmatch⟩ := Vol.findRecord_some hfind
    exact ⟨hk, (filenameMatches_iff name.noNul (h.terminated k hk)).mp hmatch⟩
  · rintro ⟨hk, hname⟩
    obtain ⟨r, hr⟩ := Vol.findRecord_total (v := v) hsmall name
    cases r with
    | none =>
        have hmiss := Vol.findRecord_none hr k hk
        rw [(filenameMatches_iff name.noNul (h.terminated k hk)).mpr hname] at hmiss
        cases hmiss
    | some j =>
        obtain ⟨hj, hmatch⟩ := Vol.findRecord_some hr
        have hname' := (filenameMatches_iff name.noNul (h.terminated j hj)).mp hmatch
        rw [hr, h.distinct j k hj hk (hname'.trans hname.symm)]

/-- Looking up resolves the names and numbers of the records. -/
theorem resolves_iff (hP : 2 ≤ P.nrBlocks) (hd : Directory P m.mem.toVol dir par)
    (hnames : NamedRecords m.mem.toVol par) (hstored : RecordsStored m.mem.toVol par) {name : Name}
    {no : U64} (hnew : m.mem.dcache (name :: dir) = none) :
    Resolves P w m dir name no ↔ (name.bytes, no) ∈ (List.range par.dirChildrenCount.toNat).map
      (recordEntry (m.mem.cache par.dataBlockNumber.toNat)) := by
  have hrun : ∀ k, m.mem.findRecord par name = .ok (some k) → ∃ ino,
      (simplefsLookup P dir name).run w 0 m =
        .done () ((m.upd (·.getBh par.dataBlockNumber.toNat)).upd
          (Mem.onVol (·.dAdd (name :: dir) (igetInode (m.mem.cache.recordNo par k) ino)))) ∧
      (igetInode (m.mem.cache.recordNo par k) ino).iIno = m.mem.cache.recordNo par k := by
    intro k hk
    obtain ⟨hfits, ino, hino⟩ := hstored k (Vol.findRecord_some hk).1
    have hint : asInt (m.mem.cache.recordNo par k) = m.mem.cache.recordNo par k := asInt_eq hfits
    exact ⟨ino, run_simplefsLookup_found hP hd.priv hd.block hk (by rw [hint]; exact hino), hint⟩
  constructor
  · rintro ⟨m', i, hdone, hi, hno⟩
    obtain ⟨r, hr⟩ := Vol.findRecord_total (v := m.mem.toVol) hd.small name
    cases r with
    | none =>
        cases (run_simplefsLookup_absent hd.priv hd.block hr).symm.trans hdone
        cases hnew.symm.trans hi
    | some k =>
        obtain ⟨ino, hfound, hnumber⟩ := hrun k hr
        cases hfound.symm.trans hdone
        have hi' : (m.mem.dAdd (name :: dir) (igetInode (m.mem.cache.recordNo par k) ino)).dcache
            (name :: dir) = some i := hi
        rw [Vol.dAdd_dcache_self, hnew] at hi'
        cases hi'
        obtain ⟨hk, hname⟩ := (hnames.findRecord_iff hd.small).mp hr
        refine List.mem_map.mpr ⟨k, List.mem_range.mpr hk, ?_⟩
        show (recordName _ k, recordInodeNo _ k) = _
        rw [hname, ← hno, hnumber]
        rfl
  · intro hmem
    obtain ⟨k, hk, hentry⟩ := List.mem_map.mp hmem
    obtain ⟨hname, hno⟩ := Prod.mk.inj hentry
    have hfind : m.mem.findRecord par name = .ok (some k) :=
      (hnames.findRecord_iff hd.small).mpr ⟨List.mem_range.mp hk, hname⟩
    obtain ⟨ino, hfound, hnumber⟩ := hrun k hfind
    refine ⟨_, _, hfound, ?_, hnumber.trans hno⟩
    show (m.mem.dAdd (name :: dir) (igetInode (m.mem.cache.recordNo par k) ino)).dcache
      (name :: dir) = _
    rw [Vol.dAdd_dcache_self, hnew]
    rfl

theorem listingAgrees_iff (hP : 2 ≤ P.nrBlocks) (hd : Directory P m.mem.toVol dir par)
    (hnames : NamedRecords m.mem.toVol par) :
    ListingAgrees P w m dir par ((List.range par.dirChildrenCount.toNat).map
      (emittedEntry (m.mem.cache par.dataBlockNumber.toNat))) ↔ par.dirChildrenCount.toNat = 0 := by
  constructor
  · intro h
    by_contra hne
    -- the first name has 248 bytes, and its NUL is among them
    have hpos : 0 < par.dirChildrenCount.toNat := Nat.pos_of_ne_zero hne
    have hfirst := List.map_inj_left.mp h.records 0 (List.mem_range.mpr hpos)
    have hlen := congrArg (fun e : List Byte × U64 => e.1.length) hfirst
    have hshort := cstr_length_lt (hnames.terminated 0 hpos)
    simp only [emittedEntry, slice_length] at hlen
    exact absurd hlen.symm (Nat.ne_of_lt hshort)
  · intro hzero
    have hstored : RecordsStored m.mem.toVol par := by
      intro r hr
      omega
    constructor
    · rw [hzero]
      rfl
    · intro name no hnew
      rw [resolves_iff hP hd hnames hstored hnew, hzero]
      rfl

end

/-- A listing with room for all the records emits each record once, in order, with its number
and the 248 bytes of its name field. Cut at their NULs the names are those that
`simplefs_lookup` resolves to the numbers; as they are emitted, they are so only when there
are none. -/
theorem listing_agrees_iff (P : Platform) (w : Outside) (m : Machine) (dir : Path)
    (par : SimplefsInode) (room : Nat) (hP : 2 ≤ P.nrBlocks) (hd : Directory P m.mem.toVol dir par)
    (hnames : NamedRecords m.mem.toVol par) (hroom : par.dirChildrenCount.toNat ≤ room) :
    ∃ ctx, (simplefsIterate P dir ⟨0, room, []⟩).run w 0 m = .done (.ok ctx) m ∧
      (RecordsStored m.mem.toVol par →
        ListingAgrees P w m dir par (ctx.emitted.map cutName)) ∧
      (ListingAgrees P w m dir par ctx.emitted ↔ par.dirChildrenCount.toNat = 0) := by
  have htake : (List.range par.dirChildrenCount.toNat).take room =
      List.range par.dirChildrenCount.toNat := List.take_of_length_le (by simpa using hroom)
  refine ⟨_, run_listing hd, ?_, ?_⟩
  · intro hstored
    have hcut : (((List.range par.dirChildrenCount.toNat).take room).map
        (emittedEntry (m.mem.cache par.dataBlockNumber.toNat))).map cutName =
        (List.range par.dirChildrenCount.toNat).map
          (recordEntry (m.mem.cache par.dataBlockNumber.toNat)) := by
      rw [htake, List.map_map]
      exact List.map_congr_left fun r _ => cutName_emittedEntry _ r
    refine ⟨hcut, ?_⟩
    intro name no hnew
    rw [resolves_iff hP hd hnames hstored hnew]
    dsimp only
    rw [hcut]
  · dsimp only
    rw [htake]
    exact listingAgrees_iff hP hd hnames

/-- Two files in the root directory, and nothing looked up yet. -/
def twoFiles : Machine :=
  (emptyRootRun [(calm, .create [] nameF sIfreg), (calm, .create [] nameG sIfreg),
    (calm, .remount)]).mach

def twoFilesRoot : SimplefsInode := ⟨sIfdir, 0, 1, 2, 2⟩

theorem twoFiles_directory : Directory demoPlatform twoFiles.mem.toVol [] twoFilesRoot :=
  ⟨by decide +kernel, by decide, by decide, by decide⟩

theorem twoFiles_cases {Q : Nat → Prop} (h0 : Q 0) (h1 : Q 1) :
    ∀ r, r < twoFilesRoot.dirChildrenCount.toNat → Q r := by
  intro r hr
  have hr : r < 2 := hr
  obtain rfl | rfl : r = 0 ∨ r = 1 := by omega
  · exact h0
  · exact h1

theorem twoFiles_named : NamedRecords twoFiles.mem.toVol twoFilesRoot := by
  constructor
  · exact twoFiles_cases (by decide +kernel) (by decide +kernel)
  · have hne : recordName (twoFiles.mem.cache 2) 0 ≠ recordName (twoFiles.mem.cache 2) 1 := by
      decide +kernel
    intro r s hr hs
    revert s
    exact twoFiles_cases (Q := fun r => ∀ s, s < twoFilesRoot.dirChildrenCount.toNat →
      recordName (twoFiles.mem.cache 2) r = recordName (twoFiles.mem.cache 2) s → r = s)
      (twoFiles_cases (fun _ => rfl) fun heq => absurd heq hne)
      (twoFiles_cases (fun heq => absurd heq.symm hne) fun _ => rfl) r hr

theorem listing_agrees_two_files :
    ∃ ctx, (simplefsIterate demoPlatform [] ⟨0, 2, []⟩).run calm 0 twoFiles = .done (.ok ctx) twoFiles ∧
      ListingAgrees demoPlatform calm twoFiles [] twoFilesRoot (ctx.emitted.map cutName) := by
  obtain ⟨ctx, hrun, hcut, -⟩ := listing_agrees_iff demoPlatform calm twoFiles [] twoFilesRoot 2
    (by decide) twoFiles_directory twoFiles_named (by decide)
  have hf : twoFiles.mem.getInode (twoFiles.mem.cache.recordNo twoFilesRoot 0) =
      .ok (some ⟨sIfreg, 0, 9, 3, 0⟩) := by decide +kernel
  have hg : twoFiles.mem.getInode (twoFiles.mem.cache.recordNo twoFilesRoot 1) =
      .ok (some ⟨sIfreg, 0, 10, 4, 0⟩) := by decide +kernel
  exact ⟨ctx, hrun, hcut (twoFiles_cases ⟨by decide +kernel, _, hf⟩ ⟨by decide +kernel, _, hg⟩)⟩

/-- The name `f`, which is looked up as one byte, is listed as 248. -/
theorem listing_emits_whole_field :
    ((simplefsLookup demoPlatform [] nameF).run calm 0 twoFiles).mach.mem.dcache [nameF] =
        some (vfsInode ⟨sIfreg, 0, 9, 3, 0⟩) ∧
      ((simplefsIterate demoPlatform [] ⟨0, 2, []⟩).run calm 0 twoFiles).result? =
        some (.ok ⟨512, 0, [(0x66 :: List.replicate 247 0, 9), (0x67 :: List.replicate 247 0, 10)]⟩) := by
  decide +kernel

/-! ## Listing in pieces -/

/-- One call with room for `room` entries, from where the last one left off. -/
def listStep (P : Platform) (w : Outside) (dir : Path) (room : Nat) (s : Machine × U64) :
    Option (List (List Byte × U64) × Machine × U64) :=
  match (simplefsIterate P dir ⟨s.2, room, []⟩).run w 0 s.1 with
  | .done (.ok ctx) m => some (ctx.emitted, m, ctx.pos)
  | _ => none

section

variable {P : Platform} {w : Outside} {m : Machine} {dir : Path} {par : SimplefsInode} {room : Nat}

theorem listStep_first (room : Nat) (hd : Directory P m.mem.toVol dir par) :
    listStep P w dir room (m, 0) = some (((List.range par.dirChildrenCount.toNat).take room).map
      (emittedEntry (m.mem.cache par.dataBlockNumber.toNat)), m,
        BitVec.ofNat 64 (sizeofDirRecord * par.dirChildrenCount.toNat)) := by
  unfold listStep
  rw [run_listing hd]

theorem listStep_again {pos : U64} (h : pos ≠ 0) : listStep P w dir room (m, pos) = some ([], m, pos) := by
  unfold listStep
  rw [run_simplefsIterate_again h]

/-- A caller gets what fits its first buffer. -/
theorem drain_listing (hd : Directory P m.mem.toVol dir par) (hroom : 1 ≤ room) (rooms : List Nat)
    (hrooms : rooms ≠ []) :
    drain (listStep P w dir) (room :: rooms) (m, 0) =
      (((List.range par.dirChildrenCount.toNat).take room).map
        (emittedEntry (m.mem.cache par.dataBlockNumber.toNat)), true) := by
  have hfirst := listStep_first (w := w) room hd
  by_cases hzero : par.dirChildrenCount.toNat = 0
  · rw [hzero, List.range_zero, List.take_nil, List.map_nil] at hfirst ⊢
    exact drain_stop hfirst
  have hpos : BitVec.ofNat 64 (sizeofDirRecord * par.dirChildrenCount.toNat) ≠ 0 := by
    intro heq
    have hsmall := hd.small
    have := congrArg BitVec.toNat heq
    rw [BitVec.toNat_ofNat] at this
    unfold sizeofDirRecord at this
    simp at this
    omega
  rw [drain_more hfirst (by
    intro hnil
    rw [List.map_eq_nil_iff, List.take_eq_nil_iff, List.range_eq_nil] at hnil
    omega)]
  cases rooms with
  | nil => exact absurd rfl hrooms
  | cons next rooms =>
      rw [drain_stop (listStep_again hpos), List.append_nil]

end

/-- Calls with any buffers come to an end, and yield the numbers of all the records, once each
and in order, exactly when the first buffer has room for all of them. -/
theorem listing_resumes_iff (P : Platform) (w : Outside) (m : Machine) (dir : Path)
    (par : SimplefsInode) (room : Nat) (rooms : List Nat) (hd : Directory P m.mem.toVol dir par)
    (hroom : ∀ r ∈ room :: rooms, 1 ≤ r) (hrooms : rooms ≠ []) :
    (drain (listStep P w dir) (room :: rooms) (m, 0)).2 = true ∧
      ((drain (listStep P w dir) (room :: rooms) (m, 0)).1.map Prod.snd =
          (List.range par.dirChildrenCount.toNat).map
            (recordInodeNo (m.mem.cache par.dataBlockNumber.toNat)) ↔
        par.dirChildrenCount.toNat ≤ room) := by
  rw [drain_listing hd (hroom room (by simp)) rooms hrooms]
  refine ⟨rfl, ?_⟩
  rw [List.map_map]
  constructor
  · intro h
    have := congrArg List.length h
    simp only [List.length_map, List.length_take, List.length_range] at this
    omega
  · intro hle
    rw [List.take_of_length_le (by simpa using hle)]
    rfl

theorem listing_resumes_two_files :
    (drain (listStep demoPlatform calm []) [2, 1] (twoFiles, 0)).2 = true ∧
      ((drain (listStep demoPlatform calm []) [2, 1] (twoFiles, 0)).1.map Prod.snd =
          (List.range twoFilesRoot.dirChildrenCount.toNat).map
            (recordInodeNo (twoFiles.mem.cache twoFilesRoot.dataBlockNumber.toNat)) ↔
        twoFilesRoot.dirChildrenCount.toNat ≤ 2) :=
  listing_resumes_iff demoPlatform calm twoFiles [] twoFilesRoot 2 [1] twoFiles_directory
    (by decide) (by decide)

/-- With room for one entry at a time the second file is never listed. -/
theorem listing_stops_at_first_buffer :
    (drain (listStep demoPlatform calm []) [1, 1, 1] (twoFiles, 0)).1.map Prod.snd = [9] ∧
      (drain (listStep demoPlatform calm []) [1, 1, 1] (twoFiles, 0)).2 = true ∧
      recordInodeNo (twoFiles.mem.cache 2) 0 = 9 ∧ recordInodeNo (twoFiles.mem.cache 2) 1 = 10 := by
  decide +kernel

end Lkm.Simplefs
