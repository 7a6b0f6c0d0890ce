import Lkm.Base.Drain
import Lkm.Simplefs.Logic.Run
import Lkm.Simplefs.Refinement

/-!
# Files as arrays of bytes

What a user expects of a regular file is an array of bytes: a read at a position returns
the bytes from there on, a write replaces a range of them and extends the array if need be.
The driver keeps the position for the caller but does not use it to read: every read that
is not past the end copies from the start of the block (`headRead`). A write puts the bytes
in their place and then sets the size to the position it has come to, so that whatever
followed is cut off.

`sequential_reads_iff` says which sequences of reads return the file, and
`byte_array_iff` which runs of reads and writes are runs of the array.
-/

namespace Lkm.Simplefs

open Base

/-! ## The array -/

/-- `len` bytes from position `pos` on, or what there is of them. -/
def arrayRead (c : List Byte) (pos len : Nat) : List Byte := (c.drop pos).take len

/-- `c'` is `c` with the bytes `d` at position `pos`. -/
structure UpdatesRange (c c' : List Byte) (pos : Nat) (d : List Byte) : Prop where
  size : c'.length = max c.length (pos + d.length)
  range : ∀ i, i < d.length → c'.getD (pos + i) 0 = d.getD i 0
  others : ∀ i, i < c.length → i < pos ∨ pos + d.length ≤ i → c'.getD i 0 = c.getD i 0

/-- One call on an array of bytes. -/
inductive ArrayNext : List Byte → Step → Res → List Byte → Prop
  | read {c : List Byte} {w : Outside} {file : Path} {len pos : U64} :
      ArrayNext c (w, .read file len pos)
        (.bytes (.ok (arrayRead c pos.toNat len.toNat))
          (pos + BitVec.ofNat 64 (arrayRead c pos.toNat len.toNat).length)) c
  | write {c c' : List Byte} {w : Outside} {file : Path} {buf : Buf} {len pos : U64} :
      UpdatesRange c c' pos.toNat (slice buf 0 len.toNat) →
      ArrayNext c (w, .write file buf len pos) (.count (.ok len) (pos + len)) c'

/-- What the driver reads of a file with the bytes `c`. -/
def headRead (c : List Byte) (pos len : Nat) : List Byte :=
  if c.length ≤ pos then [] else c.take len

/-- A read past the end, one from the start, or one that finds at its position what the file
starts with. -/
def ReadsInPlace (c : List Byte) (pos len : Nat) : Prop :=
  c.length ≤ pos ∨ pos = 0 ∨ pos + len ≤ c.length ∧ c.take len = arrayRead c pos len

instance (c : List Byte) (pos len : Nat) : Decidable (ReadsInPlace c pos len) :=
  inferInstanceAs (Decidable (_ ∨ _ ∨ _ ∧ _))

section Array

variable {c : List Byte} {pos len : Nat}

variable (c pos len) in
theorem headRead_eq_iff : headRead c pos len = arrayRead c pos len ↔ ReadsInPlace c pos len := by
  unfold headRead ReadsInPlace
  by_cases hend : c.length ≤ pos
  · rw [if_pos hend, arrayRead, List.drop_of_length_le hend, List.take_nil]
    exact iff_of_true rfl (.inl hend)
  rw [if_neg hend]
  constructor
  · intro h
    by_cases hzero : pos = 0
    · exact .inr (.inl hzero)
    -- both have the same number of bytes
    have hlen := congrArg List.length h
    rw [arrayRead, List.length_take, List.length_take, List.length_drop] at hlen
    exact .inr (.inr ⟨by omega, h⟩)
  · rintro (hpast | rfl | ⟨-, h⟩)
    · exact absurd hpast hend
    · rw [arrayRead, List.drop_zero]
    · exact h

theorem take_ne_nil (hlen : 0 < len) (hbefore : pos < c.length) : c.take len ≠ [] := by
  rw [Ne, List.take_eq_nil_iff, not_or]
  exact ⟨Nat.ne_of_gt hlen, List.ne_nil_of_length_pos (by omega)⟩

/-- The driver's bytes and what follows are the file from `pos` on if each is in its place. -/
theorem take_append_iff {rest : List Byte} (hbefore : pos < c.length) :
    c.take len ++ rest = c.drop pos ↔
      c.take len = arrayRead c pos len ∧ rest = c.drop (pos + min len c.length) := by
  have hlen : (c.take len).length = min len c.length := List.length_take
  -- a read of more than the file has is right at position 0 only
  have hread : (c.drop pos).take (min len c.length) = c.take len ↔
      c.take len = arrayRead c pos len := by
    unfold arrayRead
    by_cases hfits : len ≤ c.length
    · rw [Nat.min_eq_left hfits, eq_comm]
    · have hle : c.length ≤ len := Nat.le_of_not_le hfits
      rw [Nat.min_eq_right hle, List.take_of_length_le hle, List.take_of_length_le (by simp),
        List.take_of_length_le (by rw [List.length_drop]; omega), eq_comm]
  rw [← hread]
  constructor
  · intro h
    have htake := congrArg (List.take (min len c.length)) h
    have hdrop := congrArg (List.drop (min len c.length)) h
    rw [List.take_left' hlen] at htake
    rw [List.drop_left' hlen, List.drop_drop] at hdrop
    exact ⟨htake.symm, hdrop⟩
  · rintro ⟨htake, hdrop⟩
    rw [hdrop, ← htake, ← List.drop_drop, List.take_append_drop]

/-- A write that cuts off the rest is right when there is no rest. -/
theorem updatesRange_iff {d : List Byte} (hpos : pos ≤ c.length) :
    UpdatesRange c (c.take pos ++ d) pos d ↔ c.length ≤ pos + d.length := by
  have htake : (c.take pos).length = pos := List.length_take_of_le hpos
  have hlen : (c.take pos ++ d).length = pos + d.length := by rw [List.length_append, htake]
  constructor
  · intro h
    have hsize := h.size
    omega
  · intro hle
    constructor
    case size => omega
    case range =>
      intro i hi
      rw [List.getD_append_right _ _ _ _ (by omega), htake, Nat.add_sub_cancel_left]
    case others =>
      intro i hi hout
      have hlt : i < pos := by omega
      rw [List.getD_append _ _ _ _ (by omega), List.getD_eq_getElem _ _ (by omega),
        List.getD_eq_getElem _ _ hi, List.getElem_take]

end Array

/-- The bytes of the file `p`, as its inode in memory has them. -/
def contents (v : Vol) (p : Path) : List Byte :=
  match v.priv p with
  | some ino => slice (v.cache ino.dataBlockNumber.toNat) 0 ino.fileSize.toNat
  | none => []

theorem contents_eq {v : Vol} {p : Path} {ino : SimplefsInode} (hino : v.priv p = some ino) :
    contents v p = slice (v.cache ino.dataBlockNumber.toNat) 0 ino.fileSize.toNat := by
  unfold contents
  rw [hino]

theorem contents_length {v : Vol} {p : Path} {ino : SimplefsInode} (hino : v.priv p = some ino) :
    (contents v p).length = ino.fileSize.toNat := by
  rw [contents_eq hino, slice_length]

/-! ## Reading -/

/-- One read of `len` bytes from where the last one left off. -/
def fileStep (P : Platform) (w : Outside) (p : Path) (len : U64) (s : Machine × U64) :
    Option (List Byte × Machine × U64) :=
  match (simplefsRead P p len s.2).run w 0 s.1 with
  | .done (.ok bytes, pos) m => some (bytes, m, pos)
  | _ => none

/-- The reads of the given lengths, one after the other from position `pos` on, are all in
place. -/
def ReadsAllInPlace (c : List Byte) : List U64 → Nat → Prop
  | [], _ => True
  | len :: lens, pos => pos < c.length →
      ReadsInPlace c pos len.toNat ∧ ReadsAllInPlace c lens (pos + min len.toNat c.length)

section Reads

variable {P : Platform} {w : Outside} {m : Machine} {p : Path} {ino : SimplefsInode} {len pos : U64}
  (hino : m.mem.priv p = some ino) (hblk : ino.dataBlockNumber.toNat < P.nrBlocks)
  (hsize : ino.fileSize.toNat ≤ 4096) (hw : w.answer .copyToUser = true)

include hino in
theorem readBytes_eq_headRead :
    readBytes (m.mem.cache ino.dataBlockNumber.toNat) ino.fileSize len pos =
      headRead (contents m.mem.toVol p) pos.toNat len.toNat := by
  unfold readBytes headRead
  rw [contents_length hino, contents_eq hino, slice_take]
  exact if_congr BitVec.le_def rfl rfl

include hino hblk hsize hw

theorem run_read (len pos : U64) :
    ∃ bytes, bytes = headRead (contents m.mem.toVol p) pos.toNat len.toNat ∧
      (simplefsRead P p len pos).run w 0 m =
        .done (.ok bytes, pos + BitVec.ofNat 64 bytes.length) m := by
  obtain ⟨bytes, hbytes, hrun⟩ := run_simplefsRead (t := 0) len pos hino hblk hsize hw
  exact ⟨bytes, hbytes.trans (readBytes_eq_headRead hino), hrun⟩

theorem fileStep_eq (len pos : U64) : fileStep P w p len (m, pos) =
    some (headRead (contents m.mem.toVol p) pos.toNat len.toNat, m,
      pos + BitVec.ofNat 64 (headRead (contents m.mem.toVol p) pos.toNat len.toNat).length) := by
  obtain ⟨_, rfl, hrun⟩ := run_read hino hblk hsize hw len pos
  unfold fileStep
  rw [hrun]

/-- A read before the end of the file, and the position after it. -/
theorem fileStep_more (len : U64) (hbefore : pos.toNat < (contents m.mem.toVol p).length) :
    ∃ pos', fileStep P w p len (m, pos) = some ((contents m.mem.toVol p).take len.toNat, m, pos') ∧
      pos'.toNat = pos.toNat + min len.toNat (contents m.mem.toVol p).length := by
  have hhead : headRead (contents m.mem.toVol p) pos.toNat len.toNat =
      (contents m.mem.toVol p).take len.toNat := if_neg (by omega)
  have hstep := fileStep_eq hino hblk hsize hw len pos
  rw [hhead, List.length_take] at hstep
  refine ⟨_, hstep, ?_⟩
  have hlen := contents_length hino
  rw [BitVec.toNat_add, BitVec.toNat_ofNat]
  omega

/-- Past the end there is nothing. -/
theorem fileStep_end (len : U64) (hpast : (contents m.mem.toVol p).length ≤ pos.toNat) :
    ∃ pos', fileStep P w p len (m, pos) = some ([], m, pos') := by
  have hstep := fileStep_eq hino hblk hsize hw len pos
  have hhead : headRead (contents m.mem.toVol p) pos.toNat len.toNat = [] := if_pos hpast
  rw [hhead] at hstep
  exact ⟨_, hstep⟩

/-- Every read brings the end nearer. -/
theorem reads_end {lens : List U64} (hlens : ∀ len ∈ lens, 0 < len.toNat)
    (hlong : (contents m.mem.toVol p).length < lens.length) :
    (drain (fileStep P w p) lens (m, 0)).2 = true := by
  apply drain_ended (R := fun len : U64 => 0 < len.toNat) (J := fun s : Machine × U64 => s.1 = m)
    (μ := fun s => (contents m.mem.toVol p).length - s.2.toNat) _ hlens rfl
  · exact Nat.lt_of_le_of_lt (Nat.sub_le _ _) hlong
  rintro len ⟨m', pos⟩ hpos hsame
  obtain rfl : m = m' := Eq.symm hsame
  by_cases hbefore : pos.toNat < (contents m.mem.toVol p).length
  · obtain ⟨pos', hstep, hnext⟩ := fileStep_more hino hblk hsize hw len hbefore
    refine ⟨_, _, hstep, fun _ => ⟨rfl, ?_⟩⟩
    show _ - pos'.toNat < _ - pos.toNat
    omega
  · obtain ⟨pos', hstep⟩ := fileStep_end hino hblk hsize hw len (Nat.le_of_not_lt hbefore)
    exact ⟨_, _, hstep, fun hne => absurd rfl hne⟩

/-- What is read from a position on is the rest of the file if each read is in place. The
induction is over the reads; the bytes of the first one are split off on both sides. -/
theorem reads_rest_iff {lens : List U64} (hlens : ∀ len ∈ lens, 0 < len.toNat)
    (hend : (drain (fileStep P w p) lens (m, pos)).2 = true) :
    (drain (fileStep P w p) lens (m, pos)).1 = (contents m.mem.toVol p).drop pos.toNat ↔
      ReadsAllInPlace (contents m.mem.toVol p) lens pos.toNat := by
  induction lens generalizing pos with
  | nil => cases hend
  | cons len lens ih =>
      by_cases hpast : (contents m.mem.toVol p).length ≤ pos.toNat
      · obtain ⟨pos', hstep⟩ := fileStep_end hino hblk hsize hw len hpast
        rw [drain_stop hstep, List.drop_of_length_le hpast]
        exact iff_of_true rfl fun hbefore => absurd hpast (Nat.not_le.mpr hbefore)
      have hbefore := Nat.lt_of_not_le hpast
      have hpos : 0 < len.toNat := hlens len (by simp)
      obtain ⟨pos', hstep, hnext⟩ := fileStep_more hino hblk hsize hw len hbefore
      rw [drain_more hstep (take_ne_nil hpos hbefore)] at hend ⊢
      have hrest := ih (fun l hl => hlens l (by simp [hl])) hend
      rw [hnext] at hrest
      have hfirst := headRead_eq_iff (contents m.mem.toVol p) pos.toNat len.toNat
      rw [headRead, if_neg hpast] at hfirst
      rw [ReadsAllInPlace, ← hfirst, ← hrest, take_append_iff hbefore]
      exact ⟨fun h _ => h, fun h => h hbefore⟩

end Reads

/-- A read at a position returns the bytes from there on exactly when it is in place. Reads of
any lengths come to an end, and return the file exactly when each of them is in place. -/
theorem sequential_reads_iff (P : Platform) (w : Outside) (m : Machine) (p : Path)
    (ino : SimplefsInode) (hino : m.mem.priv p = some ino)
    (hblk : ino.dataBlockNumber.toNat < P.nrBlocks) (hsize : ino.fileSize.toNat ≤ 4096)
    (hw : w.answer .copyToUser = true) :
    (∀ len pos, ∃ bytes, (simplefsRead P p len pos).run w 0 m =
        .done (.ok bytes, pos + BitVec.ofNat 64 bytes.length) m ∧
      (bytes = arrayRead (contents m.mem.toVol p) pos.toNat len.toNat ↔
        ReadsInPlace (contents m.mem.toVol p) pos.toNat len.toNat)) ∧
    ∀ lens : List U64, (∀ len ∈ lens, 0 < len.toNat) →
      ((contents m.mem.toVol p).length < lens.length →
        (drain (fileStep P w p) lens (m, 0)).2 = true) ∧
      ((drain (fileStep P w p) lens (m, 0)).2 = true →
        ((drain (fileStep P w p) lens (m, 0)).1 = contents m.mem.toVol p ↔
          ReadsAllInPlace (contents m.mem.toVol p) lens 0)) := by
  constructor
  · intro len pos
    obtain ⟨_, rfl, hrun⟩ := run_read hino hblk hsize hw len pos
    exact ⟨_, hrun, headRead_eq_iff _ _ _⟩
  · intro lens hlens
    refine ⟨reads_end hino hblk hsize hw hlens, ?_⟩
    intro hend
    exact reads_rest_iff hino hblk hsize hw hlens hend

/-- A file with the bytes `abc` in the root directory. -/
def abcFile : Machine :=
  (emptyRootRun [(calm, .create [] nameF sIfreg),
    (calm, .write [nameF] (fun i => BitVec.ofNat 8 (0x61 + i)) 3 0)]).mach

theorem abcFile_priv : abcFile.mem.priv [nameF] = some ⟨sIfreg, 0, 9, 3, 3⟩ := by decide +kernel

theorem abcFile_contents : contents abcFile.mem.toVol [nameF] = [0x61, 0x62, 0x63] := by
  decide +kernel

/-- One read with a large buffer, and one that finds the end. -/
theorem sequential_reads_abc :
    (drain (fileStep demoPlatform calm [nameF]) [8, 8] (abcFile, 0)).1 = [0x61, 0x62, 0x63] := by
  obtain ⟨-, hreads⟩ := sequential_reads_iff demoPlatform calm abcFile [nameF] ⟨sIfreg, 0, 9, 3, 3⟩
    abcFile_priv (by decide) (by decide) rfl
  obtain ⟨-, hiff⟩ := hreads [8, 8] (by simp)
  rw [abcFile_contents] at hiff
  apply (hiff (by decide +kernel)).mpr
  intro _
  exact ⟨.inr (.inl rfl), fun hmore => absurd hmore (by decide)⟩

/-- Two bytes at a time the file reads `abab`. -/
theorem sequential_reads_repeat :
    contents abcFile.mem.toVol [nameF] = [0x61, 0x62, 0x63] ∧
      drain (fileStep demoPlatform calm [nameF]) [2, 2, 2] (abcFile, 0) =
        ([0x61, 0x62, 0x61, 0x62], true) := by
  decide +kernel

/-! ## Writing -/

/-- The inode of the regular file `p` is in memory and in slot `k`, where a search for its
number finds it; its block exists and holds all of the file. -/
structure RegularFile (P : Platform) (v : Vol) (p : Path) (k : Nat) : Prop where
  dentry : ∃ i, v.dcache p = some i ∧ i.iFop = some .file
  priv : v.priv p = some (v.cache.slot k)
  stored : v.search (v.cache.slot k).inodeNo = .ok (some k)
  low : 2 ≤ (v.cache.slot k).dataBlockNumber.toNat
  block : (v.cache.slot k).dataBlockNumber.toNat < P.nrBlocks
  size : (v.cache.slot k).fileSize.toNat ≤ 4096

/-- A write that succeeds, at a position in the file and inside the block, or a read. -/
def InRange (p : Path) (v : Vol) (s : Step) : Prop :=
  match s.2 with
  | .write file _ len pos =>
      file = p ∧ s.1.Uninterrupted ∧ len.toNat ≤ s.1.answer .copyFromUser ∧
        pos.toNat ≤ (contents v p).length ∧ pos.toNat + len.toNat ≤ 4096
  | .read file _ _ => file = p ∧ s.1.answer .copyToUser = true
  | _ => False

/-- The write goes to the end of the file; the read is in place. -/
def InPlace (p : Path) (v : Vol) (s : Step) : Prop :=
  match s.2 with
  | .write _ _ len pos => (contents v p).length ≤ pos.toNat + len.toNat
  | .read _ len pos => ReadsInPlace (contents v p) pos.toNat len.toNat
  | _ => True

instance decidableInRange (p : Path) (v : Vol) : ∀ s, Decidable (InRange p v s)
  | (_, .write _ _ _ _) => inferInstanceAs (Decidable (_ ∧ _ ∧ (_ : Nat) ≤ _ ∧ _ ∧ _))
  | (_, .read _ _ _) => inferInstanceAs (Decidable (_ ∧ _ = true))
  | (_, .create _ _ _) | (_, .mkdir _ _ _) | (_, .lookup _ _) | (_, .iterate _ _) | (_, .remount) =>
      .isFalse id

instance decidableInPlace (p : Path) (v : Vol) : ∀ s, Decidable (InPlace p v s)
  | (_, .write _ _ _ _) => inferInstanceAs (Decidable (_ ≤ _))
  | (_, .read _ _ _) => inferInstanceAs (Decidable (ReadsInPlace _ _ _))
  | (_, .create _ _ _) | (_, .mkdir _ _ _) | (_, .lookup _ _) | (_, .iterate _ _) | (_, .remount) =>
      .isTrue trivial

/-- The call returns, does to the bytes of the file what it does to an array, and leaves the
inode in the store equal to the one in memory. -/
def Behaves (P : Platform) (p : Path) (k : Nat) (m : Machine) (s : Step) : Prop :=
  ∃ r m', (s.2.prog P).run s.1 0 m = .done r m' ∧ RegularFile P m'.mem.toVol p k ∧
    ArrayNext (contents m.mem.toVol p) s r (contents m'.mem.toVol p)

section Writes

variable {P : Platform} {w : Outside} {m : Machine} {v : Vol} {p : Path} {k : Nat} {buf : Buf}
  {len pos : U64}

theorem copiedBytes_full {n copied : Nat} (h : n ≤ copied) : copiedBytes buf n copied = slice buf 0 n := by
  rw [copiedBytes, Nat.min_eq_right h, Nat.sub_self, List.replicate_zero, List.append_nil]

theorem toNat_pos_add (hfits : pos.toNat + len.toNat ≤ 4096) :
    (pos + len).toNat = pos.toNat + len.toNat := by
  rw [BitVec.toNat_add]
  omega

/-- The file is regular after a write. -/
theorem RegularFile.saved (h : RegularFile P v p k) (buf : Buf) (copied : Nat)
    (hfits : pos.toNat + len.toNat ≤ 4096) :
    RegularFile P (v.saved p k pos.toNat buf len.toNat copied (pos + len)) p k := by
  have hw : Written v (v.saved p k pos.toNat buf len.toNat copied (pos + len)) p k (pos + len) :=
    written_saved h.low _ _ _ _
  constructor
  case dentry =>
    obtain ⟨i, hi, hfop⟩ := h.dentry
    obtain ⟨i', hi', hprivate⟩ := Coherent.dcache_of_priv h.priv
    cases hi.symm.trans hi'
    exact ⟨_, hw.dcache_file hi hprivate, hfop⟩
  case priv => exact hw.priv_file h.priv
  case stored =>
    rw [Vol.search_congr hw.count fun i => (hw.same i).number, (hw.same k).number]
    exact h.stored
  case low =>
    rw [hw.slot]
    exact h.low
  case block =>
    rw [hw.slot]
    exact h.block
  case size =>
    rw [hw.slot, toNat_pos_add hfits]
    exact hfits

/-- Its bytes are those before the position, then the bytes written. -/
theorem RegularFile.contents_saved (h : RegularFile P v p k) (buf : Buf) {copied : Nat}
    (hcopied : len.toNat ≤ copied) (hpos : pos.toNat ≤ (contents v p).length)
    (hfits : pos.toNat + len.toNat ≤ 4096) :
    contents (v.saved p k pos.toNat buf len.toNat copied (pos + len)) p =
      (contents v p).take pos.toNat ++ slice buf 0 len.toNat := by
  have hw : Written v (v.saved p k pos.toNat buf len.toNat copied (pos + len)) p k (pos + len) :=
    written_saved h.low _ _ _ _
  have hblock : (v.saved p k pos.toNat buf len.toNat copied (pos + len)).cache
      (v.cache.slot k).dataBlockNumber.toNat =
      put (v.cache (v.cache.slot k).dataBlockNumber.toNat) pos.toNat (slice buf 0 len.toNat) := by
    have hlow := h.low
    rw [Vol.saved_cache, Vol.putSlot_cache_ne _ (by omega), Vol.copied_cache_self,
      copiedBytes_full hcopied]
  have hend := slice_put_end (v.cache (v.cache.slot k).dataBlockNumber.toNat) pos.toNat
    (slice buf 0 len.toNat)
  rw [slice_length] at hend
  rw [contents_length h.priv] at hpos
  rw [contents_eq (hw.priv_file h.priv), hw.slot, contents_eq h.priv, slice_take,
    Nat.min_eq_right hpos, toNat_pos_add hfits]
  dsimp only
  rw [hblock, hend]

theorem RegularFile.run_write (h : RegularFile P m.mem.toVol p k) (buf : Buf)
    (hfree : ∀ x, m.owner x = none) (hw : w.Uninterrupted)
    (hcopied : len.toNat ≤ w.answer .copyFromUser) (hfits : pos.toNat + len.toNat ≤ 4096) :
    ∃ m', (Call.prog P (.write p buf len pos)).run w 0 m = .done (.count (.ok len) (pos + len)) m' ∧
      m'.mem.toVol = m.mem.toVol.saved p k pos.toNat buf len.toNat (w.answer .copyFromUser)
        (pos + len) ∧
      ∀ x, m'.owner x = none := by
  obtain ⟨i, hi, hfop⟩ := h.dentry
  have hvwp : vwp (fun _ => True) w (fun _ => False) (Call.prog P (.write p buf len pos))
      (fun r v' => r = .count (.ok len) (pos + len) ∧
        v' = m.mem.toVol.saved p k pos.toNat buf len.toNat (w.answer .copyFromUser) (pos + len))
      m.mem.toVol := by
    apply vwp_vfsFile_some hi hfop
    apply vwp_bind
    apply vwp_simplefsWrite trivial
    apply WriteOk.of_quiet hw h.low h.block h.priv h.stored hfits
    · intro _ _
      trivial
    · intro _ _
      trivial
    · intro hshort
      exact absurd hcopied (Nat.not_le.mpr hshort)
    · intro _
      exact vwp_pure ⟨rfl, rfl⟩
  obtain ⟨r, m', hrun, ⟨rfl, hv⟩, hfree'⟩ := vwp_done (keeps_call P _) hw hfree hvwp
  exact ⟨m', hrun, hv, hfree'⟩

theorem RegularFile.run_read (h : RegularFile P m.mem.toVol p k) (hw : w.answer .copyToUser = true)
    (len pos : U64) :
    ∃ bytes, bytes = headRead (contents m.mem.toVol p) pos.toNat len.toNat ∧
      (Call.prog P (.read p len pos)).run w 0 m =
        .done (.bytes (.ok bytes) (pos + BitVec.ofNat 64 bytes.length)) m := by
  obtain ⟨i, hi, hfop⟩ := h.dentry
  obtain ⟨bytes, hbytes, hrun⟩ := Simplefs.run_read h.priv h.block h.size hw len pos
  refine ⟨bytes, hbytes, ?_⟩
  rw [Call.prog, run_vfsFile hi hfop, Prog.run_bind, hrun]
  rfl

/-- One call: it returns, keeps the file regular, and is a step of the array exactly when it is
in place. -/
theorem RegularFile.step (h : RegularFile P m.mem.toVol p k) (hfree : ∀ x, m.owner x = none)
    {s : Step} (hs : InRange p m.mem.toVol s) :
    ∃ r m', (s.2.prog P).run s.1 0 m = .done r m' ∧ RegularFile P m'.mem.toVol p k ∧
      (∀ x, m'.owner x = none) ∧
      (ArrayNext (contents m.mem.toVol p) s r (contents m'.mem.toVol p) ↔ InPlace p m.mem.toVol s) := by
  obtain ⟨w, call⟩ := s
  cases call with
  | write file buf len pos =>
      obtain ⟨rfl, hw, hcopied, hpos, hfits⟩ := hs
      obtain ⟨m', hrun, hv, hfree'⟩ := h.run_write buf hfree hw hcopied hfits
      have hfile := h.saved buf (w.answer .copyFromUser) hfits
      have hcontents := h.contents_saved buf hcopied hpos hfits
      rw [← hv] at hfile hcontents
      refine ⟨_, m', hrun, hfile, hfree', ?_⟩
      have hiff := updatesRange_iff (d := slice buf 0 len.toNat) hpos
      rw [slice_length] at hiff
      show _ ↔ (contents m.mem.toVol file).length ≤ pos.toNat + len.toNat
      rw [← hiff, hcontents]
      constructor
      · rintro ⟨⟩
        assumption
      · exact .write
  | read file len pos =>
      obtain ⟨rfl, hw⟩ := hs
      obtain ⟨bytes, hbytes, hrun⟩ := h.run_read hw len pos
      refine ⟨_, m, hrun, h, hfree, ?_⟩
      show _ ↔ ReadsInPlace (contents m.mem.toVol file) pos.toNat len.toNat
      rw [← headRead_eq_iff, ← hbytes]
      constructor
      · rintro ⟨⟩
        rfl
      · rintro rfl
        exact .read
  | create => exact hs.elim
  | mkdir => exact hs.elim
  | lookup => exact hs.elim
  | iterate => exact hs.elim
  | remount => exact hs.elim

theorem RegularFile.behaves_iff (h : RegularFile P m.mem.toVol p k) (hfree : ∀ x, m.owner x = none)
    {s : Step} (hs : InRange p m.mem.toVol s) :
    Behaves P p k m s ↔ InPlace p m.mem.toVol s := by
  obtain ⟨r, m', hrun, hfile, -, hiff⟩ := h.step hfree hs
  rw [← hiff]
  constructor
  · rintro ⟨r', m'', hrun', -, hnext⟩
    cases hrun.symm.trans hrun'
    exact hnext
  · intro hnext
    exact ⟨r, m', hrun, hfile, hnext⟩

end Writes

/-- Reads of a regular file, and writes that succeed, in any number and order: each behaves as on
an array of bytes exactly when the reads are in place and the writes go to the end of the
file; and then the whole run is a run of the array. -/
theorem byte_array_iff (P : Platform) (p : Path) (k : Nat) (m : Machine) (steps : List Step)
    (hfile : RegularFile P m.mem.toVol p k) (hfree : ∀ x, m.owner x = none)
    (hs : Issues P (InRange p) steps m) :
    (EachStep (Call.prog P) 0 (Behaves P p k) steps m ↔ Issues P (InPlace p) steps m) ∧
      (Issues P (InPlace p) steps m → ∃ rs m', outcome P steps m = .done rs m' ∧
        RegularFile P m'.mem.toVol p k ∧
        SpecRun ArrayNext (contents m.mem.toVol p) steps rs (contents m'.mem.toVol p)) := by
  have hiff : EachStep (Call.prog P) 0 (Behaves P p k) steps m ↔ Issues P (InPlace p) steps m := by
    apply eachStep_congr (J := fun m => RegularFile P m.mem.toVol p k ∧ ∀ x, m.owner x = none)
      _ ⟨hfile, hfree⟩ hs
    rintro m s ⟨hfile, hfree⟩ hin
    obtain ⟨r, m', hrun, hfile', hfree', -⟩ := hfile.step hfree hin
    exact ⟨hfile.behaves_iff hfree hin, r, m', hrun, hfile', hfree'⟩
  refine ⟨hiff, ?_⟩
  intro hplace
  have hstep : ∀ m s, RegularFile P m.mem.toVol p k → Behaves P p k m s →
      ∃ r m', (s.2.prog P).run s.1 0 m = .done r m' ∧ RegularFile P m'.mem.toVol p k ∧
        ArrayNext (contents m.mem.toVol p) s r (contents m'.mem.toVol p) := by
    intro m s _ hbehaves
    exact hbehaves
  exact runs_refines hstep steps m hfile (hiff.mpr hplace)

theorem abcFile_regular : RegularFile demoPlatform abcFile.mem.toVol [nameF] 1 := by
  have hslot : abcFile.mem.cache.slot 1 = ⟨sIfreg, 0, 9, 3, 3⟩ := by decide +kernel
  constructor
  case dentry => exact ⟨vfsInode ⟨sIfreg, 0, 9, 3, 3⟩, by decide +kernel, by decide⟩
  case priv => rw [hslot, abcFile_priv]
  case stored =>
    rw [hslot]
    decide +kernel
  case low =>
    rw [hslot]
    decide
  case block =>
    rw [hslot]
    decide
  case size =>
    rw [hslot]
    decide

/-- Two bytes more, then all five anew, and a read of the whole file. -/
def rewriteSteps : List Step :=
  [(calm, .write [nameF] (fun _ => 0x78) 2 3), (calm, .write [nameF] (fun _ => 0x79) 5 0),
    (calm, .read [nameF] 8 0)]

theorem byte_array_rewrite :
    ∃ rs m', outcome demoPlatform rewriteSteps abcFile = .done rs m' ∧
      RegularFile demoPlatform m'.mem.toVol [nameF] 1 ∧
      SpecRun ArrayNext (contents abcFile.mem.toVol [nameF]) rewriteSteps rs
        (contents m'.mem.toVol [nameF]) :=
  (byte_array_iff demoPlatform [nameF] 1 abcFile rewriteSteps abcFile_regular
    (fun x => by cases x <;> decide +kernel) (by decide +kernel)).2 (by decide +kernel)

/-- One byte written over the first of three: the other two are gone, in memory and in the
inode store. -/
theorem write_cuts_file :
    ∃ m', (Call.prog demoPlatform (.write [nameF] (fun _ => 0x78) 1 0)).run calm 0 abcFile =
        .done (.count (.ok 1) 1) m' ∧
      contents abcFile.mem.toVol [nameF] = [0x61, 0x62, 0x63] ∧
      contents m'.mem.toVol [nameF] = [0x78] ∧ (m'.mem.cache.slot 1).fileSize = 1 := by
  apply Outcome.exists_done
  decide +kernel

end Lkm.Simplefs
