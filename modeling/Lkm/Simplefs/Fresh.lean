import Lkm.Simplefs.FileEffects
import Lkm.Simplefs.Format

/-!
# Reading a freshly formatted device

`mkfs.c` and the driver have to agree on where things are. `Exhibit` is what a device shows
that `mkfs` has formatted: a root directory with two files in it, `Data1` and `Data2`, each
with its line of text and the NUL behind it. `Exhibit.answer` says what a user gets who only
looks, from this description alone; the only state it has is which of the two files the VFS
has in memory. `fresh_reads` says that the driver answers so.
-/

namespace Lkm.Simplefs

open Base

/-! ## What there is to see -/

/-- The two files. -/
inductive Sample where
  | one
  | two
deriving DecidableEq

namespace Sample

def inode : Sample → SimplefsInode
  | .one => Mkfs.d1Inode
  | .two => Mkfs.d2Inode

def nameBytes : Sample → List Byte
  | .one => Mkfs.data1Name
  | .two => Mkfs.data2Name

/-- The text with its NUL, which `mkfs` counts. -/
def content : Sample → List Byte
  | .one => Mkfs.data1Content ++ [0]
  | .two => Mkfs.data2Content ++ [0]

/-- What `simplefs_iget` makes of the inode. -/
def dentry (f : Sample) : Inode := igetInode f.inode.inodeNo f.inode

/-- What `dir_emit` is given: the whole field of the name. -/
def listed (f : Sample) : List Byte × U64 :=
  (Mkfs.padTo simplefsFilenameMaxlen f.nameBytes, f.inode.inodeNo)

/-- The file of a name. -/
def ofName (name : Name) : Option Sample :=
  if name.bytes = nameBytes .one then some .one
  else if name.bytes = nameBytes .two then some .two
  else none

end Sample

/-- The dentry of the root. -/
def rootDentry : Inode :=
  ⟨simplefsRootdirInodeNumber, sIfdir, some .dir, some Mkfs.rootInode⟩

/-- Calls that only look. -/
inductive Look where
  | lookup (dir : Path) (name : Name)
  | iterate (dir : Path) (ctx : DirContext)
  | read (file : Path) (len pos : U64)
  | remount

def Look.call : Look → Call
  | .lookup dir name => .lookup dir name
  | .iterate dir ctx => .iterate dir ctx
  | .read file len pos => .read file len pos
  | .remount => .remount

/-- Which of the files the VFS has in memory. -/
structure Exhibit where
  known : Sample → Bool

namespace Exhibit

/-- After mounting. -/
def mounted : Exhibit := ⟨fun _ => false⟩

def learn (k : Exhibit) (f : Sample) : Exhibit := ⟨fun g => k.known g || decide (g = f)⟩

/-- The file at a path, if the VFS has it in memory. -/
def file (k : Exhibit) : Path → Option Sample
  | [name] => (Sample.ofName name).filter k.known
  | _ => none

/-- What the VFS has in memory at a path. -/
def dentry (k : Exhibit) : Path → Option Inode
  | [] => some rootDentry
  | p => (k.file p).map Sample.dentry

/-- A listing from the start. -/
def list (ctx : DirContext) : DirContext :=
  { pos := ctx.pos + BitVec.ofNat 64 (sizeofDirRecord * 2)
    room := ctx.room - 2
    emitted := ctx.emitted ++ [Sample.one.listed, Sample.two.listed].take ctx.room }

/-- A read of a file at a position: the bytes come from its start, whatever the position. -/
def readAt (f : Sample) (w : Outside) (len pos : U64) : Res :=
  if f.content.length ≤ pos.toNat then .bytes (.ok []) pos
  else if w.answer .copyToUser then
    .bytes (.ok (f.content.take len.toNat))
      (pos + BitVec.ofNat 64 (f.content.take len.toNat).length)
  else .bytes (.error .efault) pos

/-- The VFS refuses a directory's operation on a path other than the root. -/
def refuse (k : Exhibit) (p : Path) : Res :=
  .status (.error (if (k.file p).isSome then .enotdir else .enoent))

def answer (k : Exhibit) (w : Outside) : Look → Res × Exhibit
  | .lookup [] name =>
      match Sample.ofName name with
      | some f => (.found (some f.dentry), k.learn f)
      | none => (.found none, k)
  | .lookup dir _ => (k.refuse dir, k)
  | .iterate [] ctx => (.listed (.ok (if ctx.pos = 0 then list ctx else ctx)), k)
  | .iterate dir _ => (k.refuse dir, k)
  | .read [] _ _ => (.status (.error .einval), k)
  | .read p len pos =>
      match k.file p with
      | some f => (readAt f w len pos, k)
      | none => (.status (.error .enoent), k)
  | .remount => (.mounted, mounted)

def answers : Exhibit → List (Outside × Look) → List Res
  | _, [] => []
  | k, (w, look) :: rest => (k.answer w look).1 :: (k.answer w look).2.answers rest

end Exhibit

/-! ## What is in the blocks -/

theorem slice_eq_take {b : Buf} {off n : Nat} {xs : List Byte}
    (h : ∀ i, i < n → b (off + i) = xs.getD i 0) (hn : n ≤ xs.length) :
    slice b off n = xs.take n := by
  apply List.ext_getElem
  · rw [slice_length, List.length_take]
    omega
  · intro i hi hi'
    rw [slice_length] at hi
    have hbyte := h i hi
    rw [List.getD_eq_getElem _ _ (by omega)] at hbyte
    rw [List.getElem_take, ← hbyte]
    simp [slice]

namespace Mkfs

theorem padTo_getD {n : Nat} {xs : List Byte} (i : Nat) : (padTo n xs).getD i 0 = xs.getD i 0 := by
  unfold padTo
  by_cases hi : i < xs.length
  · rw [List.getD_append _ _ _ _ hi]
  · rw [List.getD_append_right _ _ _ _ (by omega), List.getD_eq_default xs _ (by omega)]
    simp

theorem padTo_name_length {name : List Byte} (h : name.length ≤ 248) :
    (padTo simplefsFilenameMaxlen name).length = 248 := padTo_length h

theorem recordBytes_length {name : List Byte} {no : U64} (h : name.length ≤ 248) :
    (recordBytes name no).length = 256 := by
  unfold recordBytes
  rw [List.length_append, padTo_name_length h, wordBytes_length]

theorem takeWhile_padTo {n : Nat} {xs : List Byte} (h : 0 ∉ xs) :
    (padTo n xs).takeWhile (· ≠ 0) = xs := by
  unfold padTo
  rw [List.takeWhile_append_of_pos]
  · cases n - xs.length with
    | zero => simp
    | succ m => simp [List.replicate_succ]
  · intro c hc
    rw [decide_eq_true_eq]
    rintro rfl
    exact h hc

end Mkfs

/-- Record `k` of the block is what `mkfs` writes for the name and the number. -/
def HasRecord (b : Buf) (k : Nat) (name : List Byte) (no : U64) : Prop :=
  ∀ i, i < 256 → b (256 * k + i) = (Mkfs.recordBytes name no).getD i 0

section Record

variable {b : Buf} {k : Nat} {name : List Byte} {no : U64} (h : HasRecord b k name no)
  (hname : name.length < 248)

include h hname

theorem HasRecord.name_field : slice b (256 * k) 248 = Mkfs.padTo simplefsFilenameMaxlen name := by
  have hlen : (Mkfs.recordBytes name no).length = 256 :=
    Mkfs.recordBytes_length (Nat.le_of_lt hname)
  rw [slice_eq_take (fun i hi => h i (by omega)) (by omega)]
  exact List.take_left' (Mkfs.padTo_name_length (Nat.le_of_lt hname))

theorem HasRecord.number : recordInodeNo b k = no := by
  have hpad := Mkfs.padTo_name_length (Nat.le_of_lt hname)
  have hlen : (Mkfs.recordBytes name no).length = 256 :=
    Mkfs.recordBytes_length (Nat.le_of_lt hname)
  have hput := getWord_put_field (n := 8) (w := 64) (by decide) (fun _ => 0) (256 * k) no
    (Mkfs.padTo simplefsFilenameMaxlen name) []
  rw [List.append_nil, hpad] at hput
  rw [← hput]
  apply getWord_congr
  intro i hi hi'
  obtain ⟨j, rfl⟩ : ∃ j, i = 256 * k + j := ⟨i - 256 * k, by
    unfold sizeofDirRecord at hi
    omega⟩
  unfold sizeofDirRecord at hi'
  have hinside : put (fun _ => 0) (256 * k) (Mkfs.recordBytes name no) (256 * k + j) = _ :=
    put_inside (by omega)
  rw [h j (by omega)]
  exact hinside.symm

theorem HasRecord.terminated : RecordTerminated b k := by
  refine ⟨name.length, hname, ?_⟩
  show b (256 * k + name.length) = 0
  rw [h _ (by omega), Mkfs.recordBytes,
    List.getD_append _ _ _ _ (by rw [Mkfs.padTo_name_length (Nat.le_of_lt hname)]; exact hname),
    Mkfs.padTo_getD, List.getD_eq_default _ _ (Nat.le_refl _)]

theorem HasRecord.matches_iff (hnul : 0 ∉ name) {s : List Byte} (hs : 0 ∉ s) :
    filenameMatches b k s = true ↔ s = name := by
  rw [filenameMatches_iff hs (h.terminated hname)]
  have hcstr : recordName b k = name := by
    show (slice b (256 * k) 248).takeWhile (· ≠ 0) = name
    rw [h.name_field hname, Mkfs.takeWhile_padTo hnul]
  rw [hcstr, eq_comm]

end Record

/-- The place of a file's record. -/
def Sample.record : Sample → Nat
  | .one => 0
  | .two => 1

section

variable (dev : Buf)

/-- The records of the root directory are those of the two files. -/
theorem mkfsImage_record (f : Sample) :
    HasRecord (mkfsImage dev 2) f.record f.nameBytes f.inode.inodeNo := by
  have hone : (Mkfs.recordBytes Mkfs.data1Name Mkfs.iData1).length = 256 :=
    Mkfs.recordBytes_length (by decide)
  have htwo : (Mkfs.recordBytes Mkfs.data2Name Mkfs.iData2).length = 256 :=
    Mkfs.recordBytes_length (by decide)
  have hroot : Mkfs.rootRecords.length = 512 := by
    unfold Mkfs.rootRecords
    rw [List.length_append, hone, htwo]
  have hbyte : ∀ i, i < 512 → mkfsImage dev 2 i = Mkfs.rootRecords.getD i 0 := by
    intro i hi
    show Mkfs.main dev (8192 + i) = _
    rw [Mkfs.main_below_data dev (by omega), put_inside, Mkfs.padTo_getD]
    rw [Mkfs.padTo_length (by rw [hroot]; decide)]
    show i < 4096
    omega
  intro i hi
  cases f with
  | one =>
      show mkfsImage dev 2 (256 * 0 + i) = _
      rw [Nat.mul_zero, Nat.zero_add, hbyte i (by omega), Mkfs.rootRecords,
        List.getD_append _ _ _ _ (by omega)]
      rfl
  | two =>
      show mkfsImage dev 2 (256 * 1 + i) = _
      rw [Nat.mul_one, hbyte _ (by omega), Mkfs.rootRecords,
        List.getD_append_right _ _ _ _ (by omega), hone, Nat.add_sub_cancel_left]
      rfl

/-- The block that a text was written to begins with it. -/
theorem writeBlock_getD (text : List Byte) (id : Mkfs.BlockId) (htext : text.length ≤ 4096) {i : Nat}
    (hi : i < 4096) :
    Mkfs.writeBlock dev text id (id.toNat * 4096 + i) = text.getD i 0 := by
  show put dev (id.toNat * 4096) (Mkfs.padTo 4096 text) (id.toNat * 4096 + i) = _
  rw [put_inside (by rw [Mkfs.padTo_length htext]; exact hi), Mkfs.padTo_getD]

theorem getD_append_nul (xs : List Byte) (i : Nat) : (xs ++ [0]).getD i 0 = xs.getD i 0 := by
  by_cases hi : i < xs.length
  · rw [List.getD_append _ _ _ _ hi]
  · rw [List.getD_append_right _ _ _ _ (by omega), List.getD_eq_default xs _ (by omega)]
    cases i - xs.length <;> rfl

theorem mkfsImage_content_getD (f : Sample) {i : Nat} (hi : i < 4096) :
    mkfsImage dev f.inode.dataBlockNumber.toNat i = f.content.getD i 0 := by
  cases f with
  | one =>
      have hblock : Sample.one.inode.dataBlockNumber.toNat = 3 := rfl
      rw [hblock, Sample.content, getD_append_nul]
      unfold mkfsImage blocksOf Mkfs.main
      have hframe : ∀ d : Buf, Mkfs.writeBlock d Mkfs.data2Content .data2 (3 * 4096 + i) =
          d (3 * 4096 + i) := fun d => put_frame (.inl (by show 3 * 4096 + i < 4 * 4096; omega))
      rw [show simplefsDefaultBlockSize = 4096 from rfl, hframe]
      exact writeBlock_getD _ _ .data1 (by decide) hi
  | two =>
      have hblock : Sample.two.inode.dataBlockNumber.toNat = 4 := rfl
      rw [hblock, Sample.content, getD_append_nul]
      exact writeBlock_getD _ _ .data2 (by decide) hi

/-- The block of a file begins with its text. -/
theorem mkfsImage_content (f : Sample) {n : Nat} (hn : n ≤ f.content.length) :
    slice (mkfsImage dev f.inode.dataBlockNumber.toNat) 0 n = f.content.take n := by
  have hlen : f.content.length = 13 := by
    cases f <;> rfl
  apply slice_eq_take _ hn
  intro i hi
  rw [Nat.zero_add]
  exact mkfsImage_content_getD dev f (by omega)

end

/-! ## The volume between two calls -/

/-- The formatted device, with what the VFS has in memory. -/
def freshVol (dev : Buf) (k : Exhibit) : Vol :=
  { Vol.ofImage (mkfsImage dev) with dcache := k.dentry }

section Names

variable {name name' : Name} {f g : Sample}

theorem Sample.ofName_eq_some : Sample.ofName name = some f ↔ name.bytes = f.nameBytes := by
  unfold Sample.ofName
  have hne : Sample.nameBytes .one ≠ Sample.nameBytes .two := by decide
  cases f with
  | one =>
      constructor
      · intro h
        split at h
        · assumption
        · split at h <;> cases h
      · intro h
        rw [if_pos h]
  | two =>
      constructor
      · intro h
        split at h
        · cases h
        · split at h
          · assumption
          · cases h
      · intro h
        rw [if_neg (by rw [h]; exact hne.symm), if_pos h]

theorem Sample.ofName_eq_none : Sample.ofName name = none ↔ ∀ f : Sample, name.bytes ≠ f.nameBytes := by
  rw [Option.eq_none_iff_forall_ne_some]
  constructor
  · intro h f hf
    exact h f (Sample.ofName_eq_some.mpr hf)
  · intro h f hf
    exact h f (Sample.ofName_eq_some.mp hf)

theorem Name.eq_of_ofName (h : Sample.ofName name = some f) (h' : Sample.ofName name' = some f) :
    name' = name := by
  rw [Sample.ofName_eq_some] at h h'
  cases name
  cases name'
  simp_all

end Names

section Exhibits

variable {k : Exhibit} {name : Name} {f : Sample}

theorem Exhibit.file_of_known (hf : Sample.ofName name = some f) (hk : k.known f = true) :
    k.file [name] = some f := by
  simp [Exhibit.file, hf, Option.filter, hk]

theorem Exhibit.file_of_unknown (hf : Sample.ofName name = some f) (hk : k.known f = false) :
    k.file [name] = none := by
  simp [Exhibit.file, hf, Option.filter, hk]

theorem Exhibit.file_of_other (hf : Sample.ofName name = none) : k.file [name] = none := by
  simp [Exhibit.file, hf]

theorem Exhibit.learn_known (hk : k.known f = true) : k.learn f = k := by
  unfold Exhibit.learn
  congr 1
  funext g
  by_cases hg : g = f
  · simp [hg, hk]
  · simp [hg]

/-- `d_add` of a file that the VFS did not have. -/
theorem freshVol_dAdd (dev : Buf) (hf : Sample.ofName name = some f) (hk : k.known f = false) :
    (freshVol dev k).dAdd [name] f.dentry = freshVol dev (k.learn f) := by
  unfold freshVol Vol.dAdd
  congr 1
  funext p
  by_cases hp : p = [name]
  · subst hp
    rw [Function.update_self]
    simp [Exhibit.dentry, Exhibit.file, hf, Option.filter, hk, Exhibit.learn]
  · rw [Function.update_of_ne hp]
    cases p with
    | nil => rfl
    | cons a rest =>
        cases rest with
        | cons b rest => rfl
        | nil =>
            have hne : Sample.ofName a ≠ some f := by
              intro ha
              exact hp (by rw [Name.eq_of_ofName hf ha])
            cases ha : Sample.ofName a with
            | none => simp [Exhibit.dentry, Exhibit.file, ha]
            | some g =>
                have hg : g ≠ f := by
                  rintro rfl
                  exact hne ha
                simp [Exhibit.dentry, Exhibit.file, ha, Option.filter, Exhibit.learn, hg]

theorem Exhibit.dentry_refused {p : Path} (hp : p ≠ []) :
    k.dentry p = (k.file p).map Sample.dentry := by
  cases p with
  | nil => exact absurd rfl hp
  | cons a rest => rfl

end Exhibits

/-! ## One call -/

section Calls

variable {P : Platform} {w : Outside} {m : Machine} {k : Exhibit} {dev : Buf}

theorem run_vfsDirectory_refused {p : Path} {body : Sfs Res} (hm : m.mem.toVol = freshVol dev k)
    (hp : p ≠ []) : (vfsDirectory p body).run w 0 m = .done (k.refuse p) m := by
  have hdentry : m.mem.dcache p = (k.file p).map Sample.dentry := by
    rw [← Exhibit.dentry_refused hp]
    exact congrFun (congrArg Vol.dcache hm) p
  unfold vfsDirectory
  rw [Prog.run_bind, run_readMem, Outcome.bind_done, hdentry]
  unfold Exhibit.refuse
  cases k.file p with
  | none => rfl
  | some f => cases f <;> rfl

theorem root_dentry (hm : m.mem.toVol = freshVol dev k) : m.mem.dcache [] = some rootDentry :=
  congrFun (congrArg Vol.dcache hm) []

theorem fresh_priv (hm : m.mem.toVol = freshVol dev k) : m.mem.priv [] = some Mkfs.rootInode := by
  show (m.mem.dcache []).bind Inode.iPrivate = _
  rw [root_dentry hm]
  rfl

theorem fresh_cache (hm : m.mem.toVol = freshVol dev k) : m.mem.cache = mkfsImage dev :=
  congrArg Vol.cache hm

/-- The inode of a file is where its number says. -/
theorem fresh_getInode (hm : m.mem.toVol = freshVol dev k) (f : Sample) :
    m.mem.getInode (asInt f.inode.inodeNo) = .ok (some f.inode) := by
  have hcache := fresh_cache hm
  have hcount : m.mem.cache.count = 3 := by rw [hcache, mkfsImage_count]
  have hslot : m.mem.cache.slot (f.record + 1) = f.inode := by
    rw [hcache]
    cases f with
    | one => exact mkfsImage_slot_one dev
    | two => exact mkfsImage_slot_two dev
  have hget : m.mem.getInode (asInt f.inode.inodeNo) = .ok (some (m.mem.cache.slot (f.record + 1))) := by
    apply Vol.getInode_eq
    · rw [hcount]
      decide
    · rw [hcount]
      cases f <;> decide
    · rw [hslot]
      cases f <;> decide
    · intro i hi
      rw [hcache]
      cases f with
      | one =>
          obtain rfl : i = 0 := by
            have : i < 0 + 1 := hi
            omega
          rw [mkfsImage_slot_zero]
          decide
      | two =>
          have hi : i < 2 := hi
          obtain rfl | rfl : i = 0 ∨ i = 1 := by omega
          · rw [mkfsImage_slot_zero]
            decide
          · rw [mkfsImage_slot_one]
            decide
  rw [hget, hslot]

theorem Sample.noNul (f : Sample) : 0 ∉ f.nameBytes := by
  cases f <;> decide

theorem Sample.short (f : Sample) : f.nameBytes.length < 248 := by
  cases f <;> decide

/-- The search through the root directory finds the file of the name. -/
theorem fresh_findRecord (hm : m.mem.toVol = freshVol dev k) (name : Name) :
    m.mem.findRecord Mkfs.rootInode name = .ok ((Sample.ofName name).map Sample.record) := by
  have hmatch : ∀ f : Sample, filenameMatches (m.mem.cache 2) f.record name.bytes = true ↔
      name.bytes = f.nameBytes := by
    intro f
    rw [fresh_cache hm]
    exact (mkfsImage_record dev f).matches_iff f.short f.noNul name.noNul
  have hone := hmatch .one
  have htwo := hmatch .two
  show lookupFrom 2 (m.mem.cache 2) name.bytes 2 0 = _
  simp only [lookupFrom, Sample.record] at hone htwo ⊢
  rw [if_pos (by decide)]
  by_cases h1 : name.bytes = Sample.nameBytes .one
  · rw [if_pos (hone.mpr h1), Sample.ofName_eq_some.mpr h1]
    rfl
  · rw [if_neg (fun h => h1 (hone.mp h)), if_pos (by decide)]
    by_cases h2 : name.bytes = Sample.nameBytes .two
    · rw [if_pos (htwo.mpr h2), Sample.ofName_eq_some.mpr h2]
      rfl
    · rw [if_neg (fun h => h2 (htwo.mp h)), Sample.ofName_eq_none.mpr (by rintro (_ | _) <;> assumption)]
      rfl

/-- A call on what the exhibit shows answers as the exhibit does. -/
def Answers (P : Platform) (dev : Buf) (k : Exhibit) (w : Outside) (m : Machine) (look : Look) : Prop :=
  ∃ m', (look.call.prog P).run w 0 m = .done (k.answer w look).1 m' ∧
    m'.mem.toVol = freshVol dev (k.answer w look).2

theorem run_vfsLookup_cached {name : Name} {i : Inode} (hm : m.mem.toVol = freshVol dev k)
    (hname : m.mem.dcache [name] = some i) :
    (vfsLookup P [] name).run w 0 m = .done (.found (some i)) m := by
  unfold vfsLookup
  rw [run_vfsDirectory (root_dentry hm) rfl, Prog.run_bind, run_readMem, Outcome.bind_done, hname]
  rfl

theorem run_vfsLookup_asked {name : Name} {m' : Machine} (hm : m.mem.toVol = freshVol dev k)
    (hname : m.mem.dcache [name] = none) (hrun : (simplefsLookup P [] name).run w 0 m = .done () m') :
    (vfsLookup P [] name).run w 0 m = .done (.found (m'.mem.dcache [name])) m' := by
  unfold vfsLookup
  rw [run_vfsDirectory (root_dentry hm) rfl, Prog.run_bind, run_readMem, Outcome.bind_done, hname]
  show Prog.run w 0 (simplefsLookup P [] name >>= _) m = _
  rw [Prog.run_bind, hrun]
  rfl

/-- A name that the root directory does not have. -/
theorem answers_lookup_other (hP : 5 ≤ P.nrBlocks) (hm : m.mem.toVol = freshVol dev k) {name : Name}
    (hf : Sample.ofName name = none) : Answers P dev k w m (.lookup [] name) := by
  have hblock : Mkfs.rootInode.dataBlockNumber.toNat < P.nrBlocks := by
    show 2 < P.nrBlocks
    omega
  have hdentry : m.mem.dcache [name] = none := by
    rw [show m.mem.dcache [name] = (k.file [name]).map Sample.dentry from
      congrFun (congrArg Vol.dcache hm) [name], Exhibit.file_of_other hf]
    rfl
  have hfind := fresh_findRecord hm name
  rw [hf] at hfind
  have hrun := run_simplefsLookup_absent (w := w) (t := 0) (fresh_priv hm) hblock hfind
  refine ⟨m.upd (·.getBh Mkfs.rootInode.dataBlockNumber.toNat), ?_, ?_⟩
  · show (vfsLookup P [] name).run w 0 m = _
    rw [run_vfsLookup_asked hm hdentry hrun]
    show Outcome.done (Res.found (m.mem.dcache [name])) _ = _
    simp only [hdentry, Exhibit.answer, hf]
  · simp only [Exhibit.answer, hf]
    exact hm

/-- A file that the VFS has in memory. -/
theorem answers_lookup_known (hm : m.mem.toVol = freshVol dev k) {name : Name} {f : Sample}
    (hf : Sample.ofName name = some f) (hk : k.known f = true) :
    Answers P dev k w m (.lookup [] name) := by
  have hdentry : m.mem.dcache [name] = some f.dentry := by
    rw [show m.mem.dcache [name] = (k.file [name]).map Sample.dentry from
      congrFun (congrArg Vol.dcache hm) [name], Exhibit.file_of_known hf hk]
    rfl
  refine ⟨m, ?_, ?_⟩
  · show (vfsLookup P [] name).run w 0 m = _
    rw [run_vfsLookup_cached hm hdentry]
    simp only [Exhibit.answer, hf]
  · simp only [Exhibit.answer, hf, Exhibit.learn_known hk]
    exact hm

/-- A file that the driver has to look for: it reads the record, and the inode of its number. -/
theorem answers_lookup_unknown (hP : 5 ≤ P.nrBlocks) (hm : m.mem.toVol = freshVol dev k)
    {name : Name} {f : Sample} (hf : Sample.ofName name = some f) (hk : k.known f = false) :
    Answers P dev k w m (.lookup [] name) := by
  have hblock : Mkfs.rootInode.dataBlockNumber.toNat < P.nrBlocks := by
    show 2 < P.nrBlocks
    omega
  have hdentry : m.mem.dcache [name] = none := by
    rw [show m.mem.dcache [name] = (k.file [name]).map Sample.dentry from
      congrFun (congrArg Vol.dcache hm) [name], Exhibit.file_of_unknown hf hk]
    rfl
  have hfind := fresh_findRecord hm name
  rw [hf] at hfind
  have hnumber : m.mem.cache.recordNo Mkfs.rootInode f.record = f.inode.inodeNo := by
    rw [fresh_cache hm]
    exact (mkfsImage_record dev f).number f.short
  have hget : m.mem.getInode (asInt (m.mem.cache.recordNo Mkfs.rootInode f.record)) =
      .ok (some f.inode) := by
    rw [hnumber]
    exact fresh_getInode hm f
  obtain ⟨m', hrun, hvol⟩ : ∃ m', (simplefsLookup P [] name).run w 0 m = .done () m' ∧
      m'.mem.toVol = freshVol dev (k.learn f) := by
    refine ⟨_, run_simplefsLookup_found (by omega) (fresh_priv hm) hblock hfind hget, ?_⟩
    rw [hnumber, ← freshVol_dAdd dev hf hk, ← hm]
    rfl
  have hnew : m'.mem.dcache [name] = some f.dentry := by
    rw [show m'.mem.dcache [name] = ((k.learn f).file [name]).map Sample.dentry from
      congrFun (congrArg Vol.dcache hvol) [name],
      Exhibit.file_of_known hf (by simp [Exhibit.learn])]
    rfl
  refine ⟨m', ?_, ?_⟩
  · show (vfsLookup P [] name).run w 0 m = _
    rw [run_vfsLookup_asked hm hdentry hrun, hnew]
    simp only [Exhibit.answer, hf]
  · simp only [Exhibit.answer, hf]
    exact hvol

theorem answers_lookup (hP : 5 ≤ P.nrBlocks) (hm : m.mem.toVol = freshVol dev k) (dir : Path)
    (name : Name) : Answers P dev k w m (.lookup dir name) := by
  cases dir with
  | nil =>
      cases hf : Sample.ofName name with
      | none => exact answers_lookup_other hP hm hf
      | some f =>
          cases hk : k.known f with
          | true => exact answers_lookup_known hm hf hk
          | false => exact answers_lookup_unknown hP hm hf hk
  | cons a rest =>
      refine ⟨m, ?_, hm⟩
      show (vfsLookup P (a :: rest) name).run w 0 m = _
      unfold vfsLookup
      rw [run_vfsDirectory_refused hm (List.cons_ne_nil a rest)]
      rfl

/-- A listing emits the names and numbers of the two records. -/
theorem answers_iterate (hP : 5 ≤ P.nrBlocks) (hm : m.mem.toVol = freshVol dev k) (dir : Path)
    (ctx : DirContext) : Answers P dev k w m (.iterate dir ctx) := by
  cases dir with
  | nil =>
      refine ⟨m, ?_, hm⟩
      show (vfsDirectory [] _).run w 0 m = _
      rw [run_vfsDirectory (root_dentry hm) rfl, Prog.run_bind]
      by_cases hpos : ctx.pos = 0
      · have hentry : ∀ f : Sample, emittedEntry (m.mem.cache 2) f.record = f.listed := by
          intro f
          rw [fresh_cache hm]
          have hrecord := mkfsImage_record dev f
          exact Prod.ext (hrecord.name_field f.short) (hrecord.number f.short)
        have hwalk := iterateFrom_eq 2 (m.mem.cache 2) (n := 2) (k := 0) (by omega) ctx
        have hlist : ((List.range' 0 2).take ctx.room).map (emittedEntry (m.mem.cache 2)) =
            [Sample.one.listed, Sample.two.listed].take ctx.room := by
          rw [List.map_take, ← hentry .one, ← hentry .two]
          rfl
        rw [hlist] at hwalk
        rw [run_simplefsIterate hpos (fresh_priv hm) (by decide) (by show 2 < P.nrBlocks; omega) hwalk]
        simp only [Exhibit.answer, if_pos hpos]
        rfl
      · rw [run_simplefsIterate_again hpos]
        simp only [Exhibit.answer, if_neg hpos]
        rfl
  | cons a rest =>
      refine ⟨m, ?_, hm⟩
      show (vfsDirectory (a :: rest) _).run w 0 m = _
      rw [run_vfsDirectory_refused hm (List.cons_ne_nil a rest)]
      rfl

theorem Sample.content_length (f : Sample) : f.content.length = 13 := by
  cases f <;> rfl

theorem Sample.size (f : Sample) : f.inode.fileSize.toNat = f.content.length := by
  cases f <;> rfl

/-- A read of a file that the VFS has in memory. -/
theorem answers_read_known (hP : 5 ≤ P.nrBlocks) (hm : m.mem.toVol = freshVol dev k) {p : Path}
    {f : Sample} (hf : k.file p = some f) (len pos : U64) :
    (Call.prog P (.read p len pos)).run w 0 m = .done (Exhibit.readAt f w len pos) m := by
  have hp : p ≠ [] := by
    rintro rfl
    cases hf
  have hdentry : m.mem.dcache p = some f.dentry := by
    rw [show m.mem.dcache p = k.dentry p from congrFun (congrArg Vol.dcache hm) p,
      Exhibit.dentry_refused hp, hf]
    rfl
  have hpriv : m.mem.priv p = some f.inode := by
    show (m.mem.dcache p).bind Inode.iPrivate = _
    rw [hdentry]
    rfl
  have hblock : f.inode.dataBlockNumber.toNat < P.nrBlocks := by
    cases f with
    | one =>
        show 3 < P.nrBlocks
        omega
    | two =>
        show 4 < P.nrBlocks
        omega
  have hlen := f.content_length
  have hsize := f.size
  have hfile : f.dentry.iFop = some .file := by
    cases f <;> rfl
  rw [Call.prog, run_vfsFile hdentry hfile, Prog.run_bind]
  unfold Exhibit.readAt
  by_cases hend : f.content.length ≤ pos.toNat
  · rw [if_pos hend, run_simplefsRead_end hpriv (by rw [BitVec.le_def, hsize]; exact hend)]
    rfl
  · have hbefore : ¬ f.inode.fileSize ≤ pos := by
      rw [BitVec.le_def, hsize]
      exact hend
    rw [if_neg hend]
    cases hcopy : w.answer .copyToUser with
    | false =>
        rw [run_simplefsRead_fault hpriv hblock (by omega) hbefore hcopy]
        rfl
    | true =>
        obtain ⟨bytes, hbytes, hrun⟩ :=
          run_simplefsRead (t := 0) len pos hpriv hblock (by omega) hcopy
        rw [hrun, hbytes]
        have hread : readBytes (m.mem.cache f.inode.dataBlockNumber.toNat) f.inode.fileSize len pos =
            f.content.take len.toNat := by
          unfold readBytes
          rw [if_neg hbefore, fresh_cache hm, mkfsImage_content dev f (by omega), hsize]
          rcases Nat.le_total f.content.length len.toNat with h | h
          · rw [Nat.min_eq_left h, List.take_length, List.take_of_length_le h]
          · rw [Nat.min_eq_right h]
        rw [hread]
        rfl

theorem answers_read (hP : 5 ≤ P.nrBlocks) (hm : m.mem.toVol = freshVol dev k) (p : Path)
    (len pos : U64) : Answers P dev k w m (.read p len pos) := by
  cases p with
  | nil =>
      refine ⟨m, ?_, hm⟩
      show (vfsFile [] _).run w 0 m = _
      unfold vfsFile
      rw [Prog.run_bind, run_readMem, Outcome.bind_done, root_dentry hm]
      rfl
  | cons a rest =>
      cases hf : k.file (a :: rest) with
      | some f =>
          refine ⟨m, ?_, ?_⟩
          · simp only [Exhibit.answer, hf]
            exact answers_read_known hP hm hf len pos
          · simp only [Exhibit.answer, hf]
            exact hm
      | none =>
          have hdentry : m.mem.dcache (a :: rest) = none := by
            rw [show m.mem.dcache (a :: rest) = (k.file (a :: rest)).map Sample.dentry from
              congrFun (congrArg Vol.dcache hm) (a :: rest), hf]
            rfl
          refine ⟨m, ?_, ?_⟩
          · simp only [Exhibit.answer, hf]
            show (vfsFile (a :: rest) _).run w 0 m = _
            unfold vfsFile
            rw [Prog.run_bind, run_readMem, Outcome.bind_done, hdentry]
            rfl
          · simp only [Exhibit.answer, hf]
            exact hm

/-- Mounting a volume whose blocks are those of the formatted device. -/
theorem run_fillSuper_fresh (hP : 5 ≤ P.nrBlocks) (hm : m.mem.toVol = Vol.ofImage (mkfsImage dev)) :
    ∃ m', (simplefsFillSuper P).run w 0 m = .done () m' ∧
      m'.mem.toVol = freshVol dev .mounted := by
  have hget : (m.upd (·.getBh simplefsSuperblockBlockNumber)).mem.getInode
      simplefsRootdirInodeNumber = .ok (some Mkfs.rootInode) := by
    show m.mem.toVol.getInode simplefsRootdirInodeNumber = _
    rw [hm]
    exact mkfsImage_getInode_root dev
  unfold simplefsFillSuper
  rw [Prog.run_bind, run_sbBreadOrBug (by show 0 < P.nrBlocks; omega), Outcome.bind_done,
    Prog.run_bind, run_simplefsGetInode (by omega) hget, Outcome.bind_done]
  refine ⟨_, rfl, ?_⟩
  show m.mem.toVol.dAdd [] rootDentry = _
  rw [hm]
  unfold Vol.dAdd freshVol
  congr 1
  funext p
  cases p with
  | nil => rfl
  | cons a rest =>
      rw [Function.update_of_ne (List.cons_ne_nil a rest)]
      show none = (Exhibit.file .mounted (a :: rest)).map Sample.dentry
      cases rest with
      | cons b rest => rfl
      | nil =>
          cases hf : Sample.ofName a with
          | none => rw [Exhibit.file_of_other hf]; rfl
          | some f => rw [Exhibit.file_of_unknown hf rfl]; rfl

theorem answers_remount (hP : 5 ≤ P.nrBlocks) (hm : m.mem.toVol = freshVol dev k) :
    Answers P dev k w m .remount := by
  have hunmount : (m.upd (Mem.onVol (·.unmount (w.answer .dropped)))).mem.toVol =
      Vol.ofImage (mkfsImage dev) := by
    show m.mem.toVol.unmount _ = _
    rw [hm]
    unfold Vol.unmount Vol.ofImage freshVol
    congr 1
    funext b
    -- Nothing was written, so the device has what is in memory.
    show (if _ then Vol.device _ b else mkfsImage dev b) = _
    split <;> rfl
  obtain ⟨m', hrun, hvol⟩ := run_fillSuper_fresh (w := w) hP hunmount
  refine ⟨m', ?_, hvol⟩
  show Prog.run w 0 (simplefsFillSuper P >>= _) (m.upd (Mem.onVol (·.unmount (w.answer .dropped)))) = _
  rw [Prog.run_bind, hrun]
  rfl

/-- The step lemma. -/
theorem answers_look (hP : 5 ≤ P.nrBlocks) (hm : m.mem.toVol = freshVol dev k) (look : Look) :
    Answers P dev k w m look := by
  cases look with
  | lookup dir name => exact answers_lookup hP hm dir name
  | iterate dir ctx => exact answers_iterate hP hm dir ctx
  | read file len pos => exact answers_read hP hm file len pos
  | remount => exact answers_remount hP hm

end Calls

/-! ## Runs -/

theorem answers_run {P : Platform} (hP : 5 ≤ P.nrBlocks) {dev : Buf}
    (steps : List (Outside × Look)) {k : Exhibit} {m : Machine} (hm : m.mem.toVol = freshVol dev k) :
    ∃ m', outcome P (steps.map fun s => (s.1, s.2.call)) m = .done (k.answers steps) m' ∧
      m'.mem.cache = mkfsImage dev := by
  induction steps generalizing k m with
  | nil => exact ⟨m, rfl, fresh_cache hm⟩
  | cons s steps ih =>
      obtain ⟨m₁, hrun, hm₁⟩ := answers_look (w := s.1) hP hm s.2
      obtain ⟨m', hrest, hcache⟩ := ih hm₁
      refine ⟨m', ?_, hcache⟩
      show Outcome.bind ((s.2.call.prog P).run s.1 0 m) _ = _
      rw [hrun, Outcome.bind_done]
      show Outcome.bind (outcome P _ m₁) _ = _
      rw [hrest]
      rfl

/-- Whatever was on a device before `mkfs` formatted it, whichever waits are interrupted and
copies to the user fail meanwhile, and whatever is dropped from memory: every run of lookups,
listings, reads and remounts on it returns, answers what the exhibit answers, and leaves the
blocks as they are. Memory for the inodes is assumed to be there (`unchecked`). -/
theorem fresh_reads (P : Platform) (hP : 5 ≤ P.nrBlocks) (dev : Buf)
    (steps : List (Outside × Look)) :
    ∃ m', outcome P (steps.map fun s => (s.1, s.2.call)) (mount P (mkfsImage dev)) =
        .done (Exhibit.answers .mounted steps) m' ∧
      m'.mem.cache = mkfsImage dev := by
  apply answers_run hP steps
  obtain ⟨m', hrun, hvol⟩ := run_fillSuper_fresh (w := calm) (m := machineOf (.ofImage (mkfsImage dev)))
    hP rfl
  unfold mount
  rw [hrun]
  exact hvol

def data2 : Name := ⟨Mkfs.data2Name, by decide, by decide, by decide, by decide⟩

/-- Look the second file up, and read it twice: the second time from the middle. -/
def visit : List (Outside × Look) :=
  [(calm, .lookup [] data2), (calm, .read [data2] 100 0), (calm, .read [data2] 4 5)]

theorem fresh_reads_visit :
    5 ≤ demoPlatform.nrBlocks ∧
      ∃ m', outcome demoPlatform (visit.map fun s => (s.1, s.2.call))
          (mount demoPlatform (mkfsImage fun _ => 7)) =
        .done [.found (some Sample.two.dentry), .bytes (.ok (Mkfs.data2Content ++ [0])) 13,
          .bytes (.ok (Mkfs.ascii ['I', ' ', 'a', 'm'])) 9] m' := by
  obtain ⟨m', hrun, -⟩ := fresh_reads demoPlatform (by decide) (fun _ => 7) visit
  exact ⟨by decide, m', hrun⟩

end Lkm.Simplefs
