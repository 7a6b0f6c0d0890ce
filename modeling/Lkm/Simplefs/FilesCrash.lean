import Mathlib.Data.List.Find
import Lkm.Simplefs.Crash
import Lkm.Simplefs.FilesRefinement

/-!
# Crashing inside a call

What a crash leaves of the files, for every call. `Consistent` says that the records on
the device name stored inodes; here it is what a user finds after the crash:

* a create is there or is not, and nothing else is different;
* a write leaves the old bytes, the new bytes, or the new bytes with the old size: its
  data block is synced before the inode store;
* what had returned before the crash is there.

The image of a crash is not always tree-shaped: the super block may count an inode that is
not in the store yet. No record has its number, so no path leads to it (`Unchanged.looks`).
The writes are those that find all of the user's memory: one that fails half-way leaves
bytes in the buffer that a crash may bring out.
-/

namespace Lkm.Simplefs

open Base

/-! ## What a crash may leave -/

namespace Files

/-- A user sees the same. -/
structure Looks (f s : Files) : Prop where
  node : f.tree.node = s.tree.node
  page : f.page = s.page
  entries : f.entries = s.entries

/-- What a crash inside the call of `step` leaves of the files `s`. -/
inductive Survives (s : Files) : Step → Files → Prop
  | before {step : Step} {f : Files} : f.Looks s → s.Survives step f
  | after {step : Step} {r : Res} {s' f : Files} : s.Next step r s' → f.Looks s' → s.Survives step f
  -- the data is there and the size is not
  | data {w : Outside} {file : Path} {buf b : Buf} {len pos : U64} {f : Files} :
      s.page file = some b → f.Looks (s.spoil file (put b pos.toNat (slice buf 0 len.toNat))) →
      s.Survives (w, .write file buf len pos) f

end Files

/-- Every crash leaves what `Survives` admits. -/
def CrashKeeps (s : Files) (step : Step) (v : Vol) : Prop :=
  ∀ D, Durable v D → s.Survives step (Vol.ofImage D).files

/-! ## Images in which every path leads to the same -/

/-- `D` has the inodes, the records and the pages of `img`, and perhaps more inodes. -/
structure Image.Unchanged (img D : Image) : Prop where
  count : img.count.toNat ≤ D.count.toNat
  slot : ∀ k, k < img.count.toNat → D.slot k = img.slot k
  records : ∀ a r, img.Lists a r → SameRecord r (img.data a) (D.data a)
  page : ∀ k, k < img.count.toNat → sIsdir (img.slot k).mode = false →
    D (img.slot k).dataBlockNumber.toNat = img (img.slot k).dataBlockNumber.toNat

namespace Image.Unchanged

variable {N : Nat} {img D : Image}

/-- The additional inodes are behind the others. -/
theorem find_eq (h : img.Unchanged D) {no : U64} {k : Nat} (hk : img.find no = some k) :
    D.find no = some k := by
  have hsplit : List.range D.count.toNat = List.range img.count.toNat ++
      (List.range (D.count.toNat - img.count.toNat)).map (img.count.toNat + ·) := by
    rw [← List.range_add, Nat.add_sub_cancel' h.count]
  have hsame : (List.range img.count.toNat).find? (fun k => decide ((D.slot k).inodeNo = no)) =
      img.find no := by
    unfold Image.find
    apply List.find?_congr
    intro x hx
    rw [h.slot x (List.mem_range.mp hx)]
  unfold Image.find
  rw [hsplit, List.find?_append, hsame, hk]
  rfl

theorem child_eq (h : img.Unchanged D) (ht : TreeShaped N img) {a : Nat} (ha : a < img.count.toNat)
    (name : Name) : D.child a name = img.child a name := by
  unfold Image.child
  rw [h.slot a ha]
  cases hdir : sIsdir (img.slot a).mode with
  | false => rfl
  | true =>
      have hlists : ∀ r, r < (img.slot a).dirChildrenCount.toNat → img.Lists a r :=
        fun r hr => ⟨ha, hdir, hr⟩
      have hdata : ∀ r, r < (img.slot a).dirChildrenCount.toNat →
          SameRecord r (img (img.slot a).dataBlockNumber.toNat)
            (D (img.slot a).dataBlockNumber.toNat) := by
        intro r hr
        have hsame := h.records a r (hlists r hr)
        unfold Image.data at hsame
        rwa [h.slot a ha] at hsame
      have hfind : (List.range (img.slot a).dirChildrenCount.toNat).find? (fun r =>
            filenameMatches (D (img.slot a).dataBlockNumber.toNat) r name.bytes) =
          (List.range (img.slot a).dirChildrenCount.toNat).find? (fun r =>
            filenameMatches (img (img.slot a).dataBlockNumber.toNat) r name.bytes) := by
        apply List.find?_congr
        intro r hr
        rw [(hdata r (List.mem_range.mp hr)).matches_iff]
      show Option.bind _ _ = Option.bind _ _
      rw [hfind]
      cases hr : (List.range (img.slot a).dirChildrenCount.toNat).find? (fun r =>
          filenameMatches (img (img.slot a).dataBlockNumber.toNat) r name.bytes) with
      | none => rfl
      | some r =>
          have hrlt := List.mem_range.mp (List.mem_of_find?_eq_some hr)
          -- the number of a record is in the store
          obtain ⟨k, hk, hno⟩ := ht.stored a r (hlists r hrlt)
          have hnumber : img.find (img.recordNo (img.slot a) r) = some k := ht.find_iff.mpr ⟨hk, hno⟩
          have hsame : D.recordNo (img.slot a) r = img.recordNo (img.slot a) r :=
            (hdata r hrlt).inodeNo
          show D.find (D.recordNo _ r) = img.find _
          rw [hsame, h.find_eq hnumber, hnumber]

theorem resolve_eq (h : img.Unchanged D) (ht : TreeShaped N img) (p : Path) :
    D.resolve p = img.resolve p := by
  induction p with
  | nil =>
      obtain ⟨k, hk, hno, -⟩ := ht.root
      have hroot : img.find simplefsRootdirInodeNumber = some k := ht.find_iff.mpr ⟨hk, hno⟩
      show D.find _ = img.find _
      rw [h.find_eq hroot, hroot]
  | cons name dir ih =>
      show (D.resolve dir).bind _ = (img.resolve dir).bind _
      rw [ih]
      cases ha : img.resolve dir with
      | none => rfl
      | some a => exact h.child_eq ht (ht.resolve_lt ha) name

end Image.Unchanged

/-! ## Versions of the blocks -/

/-- Block `b` with the contents `x` is one of an image that is unchanged. -/
structure Holds (v : Vol) (b : Nat) (x : Buf) : Prop where
  count : b = 0 → v.cache.count.toNat ≤ (inodesCount x).toNat
  slots : b = 1 → ∀ k, k < v.cache.count.toNat → inodeAt x k = v.cache.slot k
  records : ∀ a r, v.cache.Lists a r → (v.cache.slot a).dataBlockNumber.toNat = b →
    SameRecord r (v.cache.data a) x
  page : ∀ k, k < v.cache.count.toNat → sIsdir (v.cache.slot k).mode = false →
    (v.cache.slot k).dataBlockNumber.toNat = b → x = v.cache b

section Blocks

variable {N : Nat} {v u : Vol}

end Blocks

/-! ## Creating -/

namespace Creating

variable {P : Platform} {N : Nat} {v : Vol} {dir : Path} {name : Name} {ino par : SimplefsInode}
  {j : Nat}

end Creating

/-! ## The other calls -/

section Synced

variable {s : Files} {step : Step} {u u' : Vol}

theorem CrashKeeps.congr (h : CrashKeeps s step u) (hcache : u'.cache = u.cache)
    (hpast : u'.past = u.past) : CrashKeeps s step u' := by
  intro D hD
  apply h D
  intro b
  rw [← hcache, ← hpast]
  exact hD b

end Synced

section Calls

variable {P : Platform} {N : Nat} {v : Vol} {w : Outside}

/-- An ordinary call; a write finds all of the user's memory. -/
def Intact (v : Vol) (s : Step) : Prop :=
  Ordinary v s ∧
    match s.2 with
    | .write _ _ len _ => len.toNat ≤ s.1.answer .copyFromUser
    | _ => True

instance decidableIntact (v : Vol) : ∀ s, Decidable (Intact v s)
  | (_, .write _ _ _ _) => inferInstanceAs (Decidable (Ordinary _ _ ∧ (_ : Nat) ≤ _))
  | (_, .create _ _ _) | (_, .mkdir _ _ _) | (_, .lookup _ _) | (_, .iterate _ _) | (_, .read _ _ _)
  | (_, .remount) => inferInstanceAs (Decidable (Ordinary _ _ ∧ True))

end Calls

/-! ## Runs -/

end Lkm.Simplefs
