import Lkm.Simplefs.Logic.Loops

/-!
# A write that nothing interrupts

A write to the file whose private inode is a copy of slot `k` copies the user's bytes
into the data block (`Vol.copied`), sets the size of the inode in memory (`Vol.sized`)
and saves it to the slot (`Vol.saved`). `WriteOk.of_quiet` reduces the specification of
`simplefs_write` to its two ends: the user's memory was too short, or all went well.
-/

namespace Lkm.Simplefs

open Base

section Copied

variable {v : Vol} {b off : Nat} {buf : Buf} {len copied : Nat}

theorem Vol.copied_cache_self : (v.copied b off buf len copied).cache b =
    put (v.cache b) off (copiedBytes buf len copied) := by
  unfold Vol.copied
  split
  · rename_i hlen
    subst hlen
    simp [copiedBytes, slice]
  · exact Vol.modify_cache_self _ _ _

theorem Vol.copied_cache_ne {c : Nat} (hc : c ≠ b) :
    (v.copied b off buf len copied).cache c = v.cache c := by
  unfold Vol.copied
  split
  · rfl
  · exact Vol.modify_cache_ne _ _ hc

theorem Vol.copied_past_ne {c : Nat} (hc : c ≠ b) :
    (v.copied b off buf len copied).past c = v.past c := by
  unfold Vol.copied
  split
  · rfl
  · simp [Vol.modify, hc]

theorem Vol.copied_dcache : (v.copied b off buf len copied).dcache = v.dcache := by
  unfold Vol.copied
  split
  · rfl
  · rfl

theorem Vol.copied_priv (p : Path) : (v.copied b off buf len copied).priv p = v.priv p := by
  unfold Vol.priv
  rw [Vol.copied_dcache]

variable (hb : 2 ≤ b)

include hb

theorem Vol.copied_count : (v.copied b off buf len copied).cache.count = v.cache.count := by
  rw [Image.count, Vol.copied_cache_ne (by omega), Image.count]

theorem Vol.copied_free : (v.copied b off buf len copied).cache.free = v.cache.free := by
  rw [Image.free, Vol.copied_cache_ne (by omega), Image.free]

theorem Vol.copied_slot (k : Nat) : (v.copied b off buf len copied).cache.slot k = v.cache.slot k := by
  rw [Image.slot, Vol.copied_cache_ne (by omega), Image.slot]

theorem Vol.copied_search (no : U64) : (v.copied b off buf len copied).search no = v.search no := by
  unfold Vol.search
  rw [Vol.copied_cache_ne (by omega), Vol.copied_cache_ne (by omega)]

end Copied

/-- The inode in memory has its new size and the one in the store does not. -/
def Vol.sized (v : Vol) (p : Path) (k : Nat) (off : Nat) (buf : Buf) (n copied : Nat) (size : U64) :
    Vol :=
  ((v.copied (v.cache.slot k).dataBlockNumber.toNat off buf n copied).after
    (syncScript (v.cache.slot k).dataBlockNumber.toNat)).setSize p size

/-- The volume after a write that goes through. -/
def Vol.saved (v : Vol) (p : Path) (k : Nat) (off : Nat) (buf : Buf) (n copied : Nat) (size : U64) :
    Vol :=
  (((v.copied (v.cache.slot k).dataBlockNumber.toNat off buf n copied).after
    (syncScript (v.cache.slot k).dataBlockNumber.toNat)).setSize p size).after
      (saveScript k { v.cache.slot k with fileSize := size })

section Saved

variable {v : Vol} {p : Path} {k off : Nat} {buf : Buf} {n copied : Nat} {size : U64}

theorem Vol.sized_dcache : (v.sized p k off buf n copied size).dcache = (v.setSize p size).dcache := by
  show Function.update (Vol.dcache (v.copied _ off buf n copied)) p
    ((Vol.dcache (v.copied _ off buf n copied) p).map _) = _
  rw [Vol.copied_dcache]
  rfl

theorem Vol.sized_priv (hp : v.priv p = some (v.cache.slot k)) :
    (v.sized p k off buf n copied size).priv p = some { v.cache.slot k with fileSize := size } := by
  unfold Vol.priv
  rw [Vol.sized_dcache]
  show (v.setPrivate p _).priv p = _
  rw [Vol.setPrivate_priv_self, hp]
  rfl

theorem Vol.saved_cache : (v.saved p k off buf n copied size).cache =
    ((v.copied (v.cache.slot k).dataBlockNumber.toNat off buf n copied).putSlot k
      { v.cache.slot k with fileSize := size }).cache := rfl

theorem Vol.saved_dcache : (v.saved p k off buf n copied size).dcache = (v.setSize p size).dcache :=
  Vol.sized_dcache

end Saved

section Quiet

variable {P : Platform} {S : Vol → Prop} {v : Vol} {w : Outside} {p : Path} {k : Nat} {buf : Buf}
  {len pos : U64}

/-- Saving the inode of a file that was written, when its slot is found by its number. -/
theorem SaveOk.of_quiet {off n copied : Nat} {size : U64} (hP : 2 ≤ P.nrBlocks)
    (hw : w.Uninterrupted) (hlow : 2 ≤ (v.cache.slot k).dataBlockNumber.toNat)
    (hp : v.priv p = some (v.cache.slot k))
    (hsearch : v.search (v.cache.slot k).inodeNo = .ok (some k))
    (hS : ∀ u : Vol, u.cache = (v.saved p k off buf n copied size).cache → S u)
    {Q : Except Errno Unit → Vol → Prop} (hQ : Q (.ok ()) (v.saved p k off buf n copied size)) :
    SaveOk P S w (fun _ => False) p Q (v.sized p k off buf n copied size) := by
  have hpriv : (v.sized p k off buf n copied size).priv p =
      some { v.cache.slot k with fileSize := size } := Vol.sized_priv hp
  have hfound : (v.sized p k off buf n copied size).search (v.cache.slot k).inodeNo =
      .ok (some k) := (Vol.copied_search hlow _).trans hsearch
  constructor
  case bug => intro hsmall; omega
  case null =>
    intro hnone
    cases hnone.symm.trans hpriv
  case interrupted =>
    intro hi
    cases (hw .saveSb).symm.trans hi
  case fault =>
    intro ino e hi he
    cases hpriv.symm.trans hi
    cases hfound.symm.trans he
  case missing =>
    intro ino hi he
    cases hpriv.symm.trans hi
    cases hfound.symm.trans he
  case found =>
    intro ino x hi he
    cases hpriv.symm.trans hi
    cases hfound.symm.trans he
    refine ⟨?_, hQ⟩
    simp only [saveScript, syncScript, along_cons]
    exact ⟨hS _ rfl, hS _ rfl, hS _ rfl, along_nil⟩

/-- A write inside the block, to a file whose slot is found by its number. -/
theorem WriteOk.of_quiet (hw : w.Uninterrupted)
    (hlow : 2 ≤ (v.cache.slot k).dataBlockNumber.toNat)
    (hlt : (v.cache.slot k).dataBlockNumber.toNat < P.nrBlocks)
    (hp : v.priv p = some (v.cache.slot k))
    (hsearch : v.search (v.cache.slot k).inodeNo = .ok (some k))
    (hfits : pos.toNat + len.toNat ≤ 4096)
    (hcopied : ∀ u : Vol, u.cache = (v.copied (v.cache.slot k).dataBlockNumber.toNat pos.toNat buf
      len.toNat (w.answer .copyFromUser)).cache → S u)
    (hsaved : ∀ u : Vol, u.cache = (v.saved p k pos.toNat buf len.toNat (w.answer .copyFromUser)
      (pos + len)).cache → S u)
    {Q : Except Errno U64 × U64 → Vol → Prop}
    (hshort : w.answer .copyFromUser < len.toNat → Q (.error .efault, pos)
      (v.copied (v.cache.slot k).dataBlockNumber.toNat pos.toNat buf len.toNat
        (w.answer .copyFromUser)))
    (hfull : len.toNat ≤ w.answer .copyFromUser → Q (.ok len, pos + len)
      (v.saved p k pos.toNat buf len.toNat (w.answer .copyFromUser) (pos + len))) :
    WriteOk P S w (fun _ => False) p buf len pos Q v := by
  have hino : ∀ ino, v.priv p = some ino → ino = v.cache.slot k :=
    fun ino hi => Option.some.inj (hi.symm.trans hp)
  constructor
  case null =>
    intro hnone
    cases hnone.symm.trans hp
  case noBuffer =>
    intro ino hi hout
    rw [hino ino hi] at hout
    omega
  case overflow =>
    intro ino _ _ hover
    omega
  case copy =>
    intro ino hi _ _
    rw [hino ino hi]
    exact hcopied _ rfl
  case badAddress =>
    intro ino hi _ _ hless
    rw [hino ino hi]
    exact hshort hless
  case save =>
    rintro ino v₁ hi _ _ hmore rfl
    obtain rfl := hino ino hi
    refine ⟨?_, ?_, hcopied _ rfl, ?_⟩
    · simp only [syncScript, along_cons]
      exact ⟨hcopied _ rfl, hcopied _ rfl, along_nil⟩
    · intro hi
      cases (hw .writeInodes).symm.trans hi
    · exact SaveOk.of_quiet (by omega) hw hlow hp hsearch hsaved (hfull hmore)

end Quiet

end Lkm.Simplefs
