import Lkm.Simplefs.Format
import Lkm.Simplefs.Logic.Exact
import Lkm.Simplefs.Logic.Write

/-!
# What a failed write leaves behind

`simplefs_write` returns an error from three places, and undoes nothing at any of them.
When the user's memory cannot be read to the end, the bytes that could be read are in the
block, followed by zeros. When the wait for the inode store is interrupted, all the bytes
are in the block and `*ppos` has moved. When the inode cannot be saved, its size in memory
has changed, too. `Harmless` is what is left of "nothing happened": the bytes were there
before, or there were none to write.
-/

namespace Lkm.Simplefs

open Base

/-- What a failed write to the file `p` must leave as it was. -/
structure KeepsFile (p : Path) (v v' : Vol) (ppos ppos' : U64) : Prop where
  block : ∀ ino, v.priv p = some ino →
    v'.cache ino.dataBlockNumber.toNat = v.cache ino.dataBlockNumber.toNat
  size : (v'.priv p).map SimplefsInode.fileSize = (v.priv p).map SimplefsInode.fileSize
  stored : ∀ k, (v'.cache.slot k).fileSize = (v.cache.slot k).fileSize
  position : ppos' = ppos

/-- The write changes nothing before it fails: the bytes copied are those in the block
already, or none are asked for and the size, if it is set, stays what it was. -/
def Harmless (w : Outside) (v : Vol) (p : Path) (buf : Buf) (len ppos : U64) : Prop :=
  if w.answer .copyFromUser < len.toNat then
    ∀ ino, v.priv p = some ino →
      put (v.cache ino.dataBlockNumber.toNat) ppos.toNat
        (copiedBytes buf len.toNat (w.answer .copyFromUser)) = v.cache ino.dataBlockNumber.toNat
  else
    len = 0 ∧ (w.interrupted .writeInodes = true ∨ ∀ ino, v.priv p = some ino → ino.fileSize = ppos)

section

variable {v v' : Vol} {w : Outside} {p : Path} {ino : SimplefsInode} {buf : Buf} {len ppos ppos' : U64}

/-- The inode store is the file's own block, or nobody has touched it. -/
theorem KeepsFile.of_block (hino : v.priv p = some ino)
    (hblock : v'.cache ino.dataBlockNumber.toNat = v.cache ino.dataBlockNumber.toNat)
    (hother : ∀ b, b ≠ ino.dataBlockNumber.toNat → v'.cache b = v.cache b)
    (hsize : (v'.priv p).map SimplefsInode.fileSize = some ino.fileSize) (hpos : ppos' = ppos) :
    KeepsFile p v v' ppos ppos' := by
  have hstore : v'.cache 1 = v.cache 1 := by
    by_cases hone : 1 = ino.dataBlockNumber.toNat
    · rwa [hone]
    · exact hother 1 hone
  constructor
  case block =>
    intro ino' hino'
    cases hino.symm.trans hino'
    exact hblock
  case size => rw [hsize, hino]; rfl
  case stored =>
    intro k
    rw [Image.slot, Image.slot, hstore]
  case position => exact hpos

theorem pos_add_eq_iff : ppos + len = ppos ↔ len = 0 := by simp

section Exits

variable (hino : v.priv p = some ino)

include hino

/-- The user's memory was too short. -/
theorem keepsFile_copied_iff {n copied : Nat} :
    KeepsFile p v (v.copied ino.dataBlockNumber.toNat ppos.toNat buf n copied) ppos ppos ↔
      put (v.cache ino.dataBlockNumber.toNat) ppos.toNat (copiedBytes buf n copied) =
        v.cache ino.dataBlockNumber.toNat := by
  constructor
  · intro hkeeps
    rw [← Vol.copied_cache_self]
    exact hkeeps.block ino hino
  · intro hsame
    apply KeepsFile.of_block hino
    · rw [Vol.copied_cache_self]
      exact hsame
    · intro b hb
      exact Vol.copied_cache_ne hb
    · rw [Vol.copied_priv, hino]
      rfl
    · rfl

/-- The wait for the inode store was interrupted. -/
theorem keepsFile_interrupted_iff {copied : Nat} :
    KeepsFile p v ((v.copied ino.dataBlockNumber.toNat ppos.toNat buf len.toNat copied).after
      (syncScript ino.dataBlockNumber.toNat)) ppos (ppos + len) ↔ len = 0 := by
  constructor
  · intro hkeeps
    exact pos_add_eq_iff.mp hkeeps.position
  · rintro rfl
    have hsize : (v.priv p).map SimplefsInode.fileSize = some ino.fileSize := by
      rw [hino]
      rfl
    exact .of_block hino rfl (fun _ _ => rfl) hsize (pos_add_eq_iff.mpr rfl)

/-- The inode could not be saved. -/
theorem keepsFile_unsaved_iff {copied : Nat} :
    KeepsFile p v (((v.copied ino.dataBlockNumber.toNat ppos.toNat buf len.toNat copied).after
      (syncScript ino.dataBlockNumber.toNat)).setSize p (ppos + len)) ppos (ppos + len) ↔
      len = 0 ∧ ino.fileSize = ppos := by
  have hsize : ((((v.copied ino.dataBlockNumber.toNat ppos.toNat buf len.toNat copied).after
      (syncScript ino.dataBlockNumber.toNat)).setSize p (ppos + len)).priv p).map
        SimplefsInode.fileSize = some (ppos + len) := by
    rw [Vol.setSize, Vol.setPrivate_priv_self]
    show (((v.copied _ _ _ _ _).priv p).map _).map _ = _
    rw [Vol.copied_priv, hino]
    rfl
  constructor
  · intro hkeeps
    have hsame := hkeeps.size
    rw [hsize, hino, hkeeps.position] at hsame
    exact ⟨pos_add_eq_iff.mp hkeeps.position, (Option.some.inj hsame).symm⟩
  · rintro ⟨rfl, hsame⟩
    have hkept : ppos + 0 = ino.fileSize := (pos_add_eq_iff.mpr rfl).trans hsame.symm
    exact .of_block hino rfl (fun _ _ => rfl) (hsize.trans (congrArg some hkept))
      (pos_add_eq_iff.mpr rfl)

end Exits

end

/-- A write that returns an error leaves the file as it was exactly when it was harmless. -/
theorem failed_write_keeps_iff (P : Platform) (w : Outside) (p : Path) (buf : Buf)
    (len ppos ppos' : U64) (m m' : Machine) (e : Errno)
    (hrun : (simplefsWrite P p buf len ppos).run w 0 m = .done (.error e, ppos') m') :
    KeepsFile p m.mem.toVol m'.mem.toVol ppos ppos' ↔ Harmless w m.mem.toVol p buf len ppos := by
  have hall : ∀ {Q : SimplefsInode → Prop} {ino}, m.mem.priv p = some ino →
      ((∀ ino, m.mem.priv p = some ino → Q ino) ↔ Q ino) := by
    intro Q ino hino
    simp [hino]
  have h : xwp w (simplefsWrite P p buf len ppos)
      (fun r v' _ => ∀ e ppos', r = (.error e, ppos') →
        (KeepsFile p m.mem.toVol v' ppos ppos' ↔ Harmless w m.mem.toVol p buf len ppos))
      m.mem.toVol m.mem.refs := by
    apply xwp_simplefsWrite
    constructor
    case noBuffer =>
      intro ino _ _ e ppos' he
      cases he
    case badAddress =>
      rintro ino _ hino _ rfl hshort _ _ ⟨⟩
      rw [Harmless, if_pos hshort, hall hino]
      exact keepsFile_copied_iff hino
    case interrupted =>
      rintro ino _ hino _ rfl hfull hi _ _ ⟨⟩
      rw [Harmless, if_neg (Nat.not_lt.mpr hfull), and_iff_left (.inl hi)]
      exact keepsFile_interrupted_iff hino
    case unsaved =>
      rintro ino _ _ _ hino _ rfl rfl hfull hi _ _ _ ⟨⟩
      rw [Harmless, if_neg (Nat.not_lt.mpr hfull), hi, hall hino]
      simpa using keepsFile_unsaved_iff hino
    case written =>
      intro ino _ _ _ _ _ _ _ _ _ _ _ _ _ e ppos' he
      cases he
  exact xwp_done h hrun e ppos' rfl

/-- A write of `len` bytes from position `ppos` on, to an empty file in the root directory. -/
def writeRun (w : Outside) (len ppos : U64) : Outcome Mem Mutex Fault (Except Errno U64 × U64) :=
  (simplefsWrite demoPlatform [nameF] (fun _ => 0x78) len ppos).run w 0
    (emptyRootRun [(calm, .create [] nameF sIfreg)]).mach

/-- The same file with three bytes in it. -/
def threeBytes : Machine :=
  (emptyRootRun [(calm, .create [] nameF sIfreg), (calm, .write [nameF] (fun _ => 0x78) 3 0)]).mach

/-- The user's memory can be read for three bytes. -/
def threeReadable : Outside where
  interrupted := fun _ => false
  answer
    | .newInode => true
    | .slab => calm.answer .slab
    | .copyFromUser => 3
    | .copyToUser => true
    | .dropped => calm.answer .dropped

/-- The same bytes are written once more, and the copy faults behind them. -/
theorem failed_write_same_bytes :
    ∃ m', (simplefsWrite demoPlatform [nameF] (fun _ => 0x78) 5 0).run threeReadable 0 threeBytes =
        .done (.error .efault, 0) m' ∧
      slice (threeBytes.mem.cache 3) 0 3 = [0x78, 0x78, 0x78] ∧
      KeepsFile [nameF] threeBytes.mem.toVol m'.mem.toVol 0 0 := by
  have hresult : ((simplefsWrite demoPlatform [nameF] (fun _ => 0x78) 5 0).run threeReadable 0
      threeBytes).result? = some (.error .efault, 0) := by decide +kernel
  have hfile : threeBytes.mem.priv [nameF] = some ⟨sIfreg, 0, 9, 3, 3⟩ := by decide +kernel
  have hbytes : slice (threeBytes.mem.cache 3) 0 5 = [0x78, 0x78, 0x78, 0, 0] := by decide +kernel
  have hrun := Outcome.eq_done hresult
  refine ⟨_, hrun, by decide +kernel, (failed_write_keeps_iff _ _ _ _ _ _ _ _ _ _ hrun).mpr ?_⟩
  rw [Harmless, if_pos (by decide)]
  intro ino hino
  obtain rfl := Option.some.inj (hfile.symm.trans hino)
  exact put_eq_self hbytes

/-- The wait for the inode store is interrupted: the write fails, with its bytes in the
block and the position moved. -/
theorem failed_write_stores_bytes :
    ∃ m', writeRun ⟨fun i => i == .writeInodes, calm.answer⟩ 3 0 = .done (.error .eintr, 3) m' ∧
      slice ((emptyRootRun [(calm, .create [] nameF sIfreg)]).mach.mem.cache 3) 0 3 = [0, 0, 0] ∧
      slice (m'.mem.cache 3) 0 3 = [0x78, 0x78, 0x78] := by
  apply Outcome.exists_done
  decide +kernel

end Lkm.Simplefs
