import Lkm.Simplefs.Logic.Coherence
import Lkm.Simplefs.Tree

/-!
# Well-formed images and their trees

`WellFormed` collects what the inode store, the bitmap and the records of the
directories have to agree on. It does not keep two directories from having a record of
the same inode, and then there is no tree; `TreeShaped` does. On a tree-shaped image
`Image.resolve` finds each slot at one path only, so that `Image.tree` is a tree
(`TreeShaped.formed`).

Three kinds of updates keep the shape, and every volume on the way of a call is reached
by one of them:

* nothing changes that the tree is read from (`Image.Agrees`);
* an inode that nobody names is appended (`TreeShaped.append`);
* one more record of a directory counts (`TreeShaped.bump`).
-/

namespace Lkm.Simplefs

open Base

/-- The data block of the inode in slot `k`. -/
def Image.data (img : Image) (k : Nat) : Buf := img (img.slot k).dataBlockNumber.toNat

/-- A well-formed image on a device of `N` blocks. -/
structure WellFormed (N : Nat) (img : Image) : Prop where
  count_le : img.count.toNat ≤ 64
  number_le : ∀ k, k < img.count.toNat → (img.slot k).inodeNo.toNat ≤ img.count.toNat + 7
  number_inj : ∀ j k, j < img.count.toNat → k < img.count.toNat →
    (img.slot j).inodeNo = (img.slot k).inodeNo → j = k
  root : ∃ k, k < img.count.toNat ∧ (img.slot k).inodeNo = simplefsRootdirInodeNumber ∧
    sIsdir (img.slot k).mode = true
  block_range : ∀ k, k < img.count.toNat →
    2 ≤ (img.slot k).dataBlockNumber.toNat ∧ (img.slot k).dataBlockNumber.toNat < N
  block_inj : ∀ j k, j < img.count.toNat → k < img.count.toNat →
    (img.slot j).dataBlockNumber = (img.slot k).dataBlockNumber → j = k
  free_range : ∀ b, img.free.getLsbD b = true → 2 ≤ b ∧ b < N
  free_unowned : ∀ b k, img.free.getLsbD b = true → k < img.count.toNat →
    (img.slot k).dataBlockNumber.toNat ≠ b
  children_le : ∀ a, a < img.count.toNat → sIsdir (img.slot a).mode = true →
    (img.slot a).dirChildrenCount.toNat ≤ 16
  terminated : ∀ a r, img.Lists a r → RecordTerminated (img.data a) r
  name_inj : ∀ a r s, img.Lists a r → img.Lists a s →
    recordName (img.data a) r = recordName (img.data a) s → r = s
  stored : ∀ a r, img.Lists a r → ∃ k, k < img.count.toNat ∧ (img.slot k).inodeNo = img.entry a r
  not_root : ∀ a r, img.Lists a r → img.entry a r ≠ simplefsRootdirInodeNumber
  entry_inj : ∀ a r s, img.Lists a r → img.Lists a s → img.entry a r = img.entry a s → r = s

/-- A well-formed image in which no two directories have a record of one inode. -/
structure TreeShaped (N : Nat) (img : Image) : Prop extends WellFormed N img where
  unshared : ∀ a b r s, img.Lists a r → img.Lists b s → img.entry a r = img.entry b s → a = b

namespace WellFormed

variable {N : Nat} {img : Image}

theorem tables (h : WellFormed N img) : Tables N img :=
  ⟨h.number_le, h.number_inj, fun k hk => (h.block_range k hk).1, h.block_inj, h.free_range,
    h.free_unowned⟩

/-- A directory has one record of a name. -/
theorem named_inj (h : WellFormed N img) {a r s : Nat} {n : Name} (hr : img.Lists a r)
    (hs : img.Lists a s) (hnr : img.Named a r n) (hns : img.Named a s n) : r = s := by
  apply h.name_inj a r s hr hs
  have hr' := (filenameMatches_iff n.noNul (h.terminated a r hr)).mp hnr
  have hs' := (filenameMatches_iff n.noNul (h.terminated a s hs)).mp hns
  exact hr'.trans hs'.symm

/-! ## Walking -/

theorem find_iff (h : WellFormed N img) {no : U64} {k : Nat} :
    img.find no = some k ↔ k < img.count.toNat ∧ (img.slot k).inodeNo = no := by
  unfold Image.find
  constructor
  · intro hfind
    have hmem := List.mem_of_find?_eq_some hfind
    have hno := List.find?_some hfind
    exact ⟨List.mem_range.mp hmem, by simpa using hno⟩
  · rintro ⟨hk, hno⟩
    cases hfind : (List.range img.count.toNat).find? fun k => decide ((img.slot k).inodeNo = no) with
    | none =>
        have := List.find?_eq_none.mp hfind k (List.mem_range.mpr hk)
        exact absurd hno (by simpa using this)
    | some k' =>
        have hk' := List.mem_range.mp (List.mem_of_find?_eq_some hfind)
        have hno' : (img.slot k').inodeNo = no := by simpa using List.find?_some hfind
        rw [h.number_inj k' k hk' hk (hno'.trans hno.symm)]

theorem child_iff (h : WellFormed N img) {a k : Nat} (ha : a < img.count.toNat) {n : Name} :
    img.child a n = some k ↔ ∃ r, img.Lists a r ∧ img.Named a r n ∧ k < img.count.toNat ∧
      (img.slot k).inodeNo = img.entry a r := by
  unfold Image.child
  by_cases hdir : sIsdir (img.slot a).mode = true
  swap
  · rw [if_neg hdir]
    constructor
    · intro hnone
      cases hnone
    · rintro ⟨r, hl, -⟩
      exact absurd hl.isdir hdir
  rw [if_pos hdir, Option.bind_eq_some_iff]
  constructor
  · rintro ⟨r, hr, hfind⟩
    have hmem := List.mem_range.mp (List.mem_of_find?_eq_some hr)
    have hname := List.find?_some hr
    exact ⟨r, ⟨ha, hdir, hmem⟩, hname, h.find_iff.mp hfind⟩
  · rintro ⟨r, hl, hname, hk⟩
    cases hr : (List.range (img.slot a).dirChildrenCount.toNat).find? fun r =>
        filenameMatches (img (img.slot a).dataBlockNumber.toNat) r n.bytes with
    | none =>
        have := List.find?_eq_none.mp hr r (List.mem_range.mpr hl.record)
        exact absurd hname this
    | some s =>
        have hs := List.mem_range.mp (List.mem_of_find?_eq_some hr)
        have hname' := List.find?_some hr
        obtain rfl := h.named_inj ⟨ha, hdir, hs⟩ hl hname' hname
        exact ⟨s, rfl, h.find_iff.mpr hk⟩

theorem resolve_lt (h : WellFormed N img) {p : Path} {k : Nat} (hp : img.resolve p = some k) :
    k < img.count.toNat := by
  induction p generalizing k with
  | nil => exact (h.find_iff.mp hp).1
  | cons n p ih =>
      obtain ⟨a, ha, hchild⟩ := Option.bind_eq_some_iff.mp hp
      obtain ⟨r, -, -, hk, -⟩ := (h.child_iff (ih ha)).mp hchild
      exact hk

theorem resolve_cons_iff (h : WellFormed N img) {n : Name} {p : Path} {k : Nat} :
    img.resolve (n :: p) = some k ↔ ∃ a r, img.resolve p = some a ∧ img.Lists a r ∧
      img.Named a r n ∧ k < img.count.toNat ∧ (img.slot k).inodeNo = img.entry a r := by
  rw [Image.resolve, Option.bind_eq_some_iff]
  constructor
  · rintro ⟨a, ha, hchild⟩
    obtain ⟨r, hr⟩ := (h.child_iff (h.resolve_lt ha)).mp hchild
    exact ⟨a, r, ha, hr⟩
  · rintro ⟨a, r, ha, hr⟩
    exact ⟨a, ha, (h.child_iff (h.resolve_lt ha)).mpr ⟨r, hr⟩⟩

end WellFormed

namespace TreeShaped

variable {N : Nat} {img : Image}

theorem linked (h : TreeShaped N img) : Linked img := by
  refine ⟨h.stored, ?_⟩
  intro a b r s hr hs heq
  obtain rfl := h.unshared a b r s hr hs heq
  exact ⟨rfl, h.entry_inj a r s hr hs heq⟩

/-- Each slot is reached by one path at most. -/
theorem resolve_inj (h : TreeShaped N img) {p q : Path} {k : Nat} (hp : img.resolve p = some k)
    (hq : img.resolve q = some k) : p = q := by
  induction p generalizing q k with
  | nil =>
      cases q with
      | nil => rfl
      | cons m q =>
          obtain ⟨b, s, -, hl, -, -, hno⟩ := h.resolve_cons_iff.mp hq
          have hroot := (h.find_iff.mp hp).2
          exact absurd (hno.symm.trans hroot) (h.not_root b s hl)
  | cons n p ih =>
      obtain ⟨a, r, ha, hl, hname, -, hno⟩ := h.resolve_cons_iff.mp hp
      cases q with
      | nil =>
          have hroot := (h.find_iff.mp hq).2
          exact absurd (hno.symm.trans hroot) (h.not_root a r hl)
      | cons m q =>
          obtain ⟨b, s, hb, hl', hname', -, hno'⟩ := h.resolve_cons_iff.mp hq
          -- one number, so one record, so one parent and one name
          obtain ⟨rfl, rfl⟩ := h.linked.distinct a b r s hl hl' (hno.symm.trans hno')
          rw [ih ha hb, hname.unique hname']

/-- An object of the tree, and its slot. -/
theorem node_iff {p : Path} {n : Node} :
    img.tree.node p = some n ↔ ∃ k, img.resolve p = some k ∧ (img.slot k).node = n := by
  show (img.resolve p).map _ = some n ↔ _
  rw [Option.map_eq_some_iff]

/-- The tree of a tree-shaped image is one. -/
theorem formed (h : TreeShaped N img) : img.tree.Formed := by
  constructor
  · obtain ⟨k, hk, hno, hdir⟩ := h.root
    exact ⟨(img.slot k).node, node_iff.mpr ⟨k, h.find_iff.mpr ⟨hk, hno⟩, rfl⟩, hdir⟩
  · intro name dir n hn
    obtain ⟨k, hk, -⟩ := node_iff.mp hn
    obtain ⟨a, r, ha, hl, -⟩ := h.resolve_cons_iff.mp hk
    exact ⟨(img.slot a).node, node_iff.mpr ⟨a, ha, rfl⟩, hl.isdir⟩
  · -- paths are no more than slots
    apply Set.Finite.of_injOn (f := fun p => (img.resolve p).getD 0)
      (t := {k | k < img.count.toNat}) _ _ (Set.finite_lt_nat _)
    · intro p hp
      obtain ⟨n, hn⟩ := Option.ne_none_iff_exists'.mp hp
      obtain ⟨k, hk, -⟩ := node_iff.mp hn
      show (img.resolve p).getD 0 < _
      rw [hk]
      exact h.resolve_lt hk
    · intro p hp q hq heq
      obtain ⟨m, hm⟩ := Option.ne_none_iff_exists'.mp hp
      obtain ⟨n, hn⟩ := Option.ne_none_iff_exists'.mp hq
      obtain ⟨j, hj, -⟩ := node_iff.mp hm
      obtain ⟨k, hk, -⟩ := node_iff.mp hn
      have heq : (img.resolve p).getD 0 = (img.resolve q).getD 0 := heq
      rw [hj, hk] at heq
      have heq : j = k := heq
      subst heq
      exact h.resolve_inj hj hk
  · intro p q m n hm hn heq
    obtain ⟨j, hj, rfl⟩ := node_iff.mp hm
    obtain ⟨k, hk, rfl⟩ := node_iff.mp hn
    obtain rfl := h.number_inj j k (h.resolve_lt hj) (h.resolve_lt hk) heq
    exact h.resolve_inj hj hk
  · intro p q m n hm hn heq
    obtain ⟨j, hj, rfl⟩ := node_iff.mp hm
    obtain ⟨k, hk, rfl⟩ := node_iff.mp hn
    obtain rfl := h.block_inj j k (h.resolve_lt hj) (h.resolve_lt hk) heq
    exact h.resolve_inj hj hk

end TreeShaped

/-! ## The shape can be checked -/

section Check

variable {N : Nat} {img : Image}

theorem Image.forall_lists {Q : Nat → Nat → Prop} :
    (∀ a, a < img.count.toNat → sIsdir (img.slot a).mode = true →
      ∀ r, r < (img.slot a).dirChildrenCount.toNat → Q a r) ↔ ∀ a r, img.Lists a r → Q a r :=
  ⟨fun h a r hl => h a hl.lt hl.isdir r hl.record, fun h a ha hdir r hr => h a r ⟨ha, hdir, hr⟩⟩

instance Image.decidableForallLists {Q : Nat → Nat → Prop} [∀ a r, Decidable (Q a r)] :
    Decidable (∀ a r, img.Lists a r → Q a r) :=
  decidable_of_iff _ Image.forall_lists

/-- What is asked of the slots, with bounds on all quantifiers. -/
def Image.slotsChecked (N : Nat) (img : Image) : Prop :=
  (∀ k, k < img.count.toNat → (img.slot k).inodeNo.toNat ≤ img.count.toNat + 7 ∧
    2 ≤ (img.slot k).dataBlockNumber.toNat ∧ (img.slot k).dataBlockNumber.toNat < N ∧
    (sIsdir (img.slot k).mode = true → (img.slot k).dirChildrenCount.toNat ≤ 16) ∧
    ∀ j, j < img.count.toNat →
      ((img.slot j).inodeNo = (img.slot k).inodeNo → j = k) ∧
      ((img.slot j).dataBlockNumber = (img.slot k).dataBlockNumber → j = k)) ∧
  ∃ k, k < img.count.toNat ∧ (img.slot k).inodeNo = simplefsRootdirInodeNumber ∧
    sIsdir (img.slot k).mode = true

/-- What is asked of the bitmap. -/
def Image.bitsChecked (N : Nat) (img : Image) : Prop :=
  ∀ b, b < 64 → img.free.getLsbD b = true → 2 ≤ b ∧ b < N ∧
    ∀ k, k < img.count.toNat → (img.slot k).dataBlockNumber.toNat ≠ b

/-- What is asked of the records. -/
def Image.recordsChecked (img : Image) : Prop :=
  ∀ a r, img.Lists a r → RecordTerminated (img.data a) r ∧
    (∃ k, k < img.count.toNat ∧ (img.slot k).inodeNo = img.entry a r) ∧
    img.entry a r ≠ simplefsRootdirInodeNumber ∧
    ∀ s, s < (img.slot a).dirChildrenCount.toNat →
      (recordName (img.data a) r = recordName (img.data a) s → r = s) ∧
      (img.entry a r = img.entry a s → r = s)

instance : Decidable (img.slotsChecked N) := inferInstanceAs (Decidable (_ ∧ _))

instance : Decidable (img.bitsChecked N) := inferInstanceAs (Decidable (∀ b, b < 64 → _))

instance : Decidable img.recordsChecked :=
  inferInstanceAs (Decidable (∀ a r, img.Lists a r → _ ∧ _ ∧ _ ∧ _))

theorem wellFormed_of_checked (hcount : img.count.toNat ≤ 64) (hslots : img.slotsChecked N)
    (hbits : img.bitsChecked N) (hrecords : img.recordsChecked) : WellFormed N img := by
  have hbit : ∀ b, img.free.getLsbD b = true → b < 64 := by
    intro b hb
    by_contra hge
    rw [BitVec.getLsbD_of_ge _ _ (by omega)] at hb
    cases hb
  constructor
  case count_le => exact hcount
  case number_le => exact fun k hk => (hslots.1 k hk).1
  case number_inj => exact fun j k hj hk => ((hslots.1 k hk).2.2.2.2 j hj).1
  case root => exact hslots.2
  case block_range => exact fun k hk => ⟨(hslots.1 k hk).2.1, (hslots.1 k hk).2.2.1⟩
  case block_inj => exact fun j k hj hk => ((hslots.1 k hk).2.2.2.2 j hj).2
  case free_range =>
    intro b hb
    obtain ⟨hlo, hhi, -⟩ := hbits b (hbit b hb) hb
    exact ⟨hlo, hhi⟩
  case free_unowned => exact fun b k hb hk => (hbits b (hbit b hb) hb).2.2 k hk
  case children_le => exact fun a ha => (hslots.1 a ha).2.2.2.1
  case terminated => exact fun a r hl => (hrecords a r hl).1
  case name_inj => exact fun a r s hr hs => ((hrecords a r hr).2.2.2 s hs.record).1
  case stored => exact fun a r hl => (hrecords a r hl).2.1
  case not_root => exact fun a r hl => (hrecords a r hl).2.2.1
  case entry_inj => exact fun a r s hr hs => ((hrecords a r hr).2.2.2 s hs.record).2

end Check

/-! ## Records that stay as they are -/

/-- The bytes of record `r` are the same in `b'` as in `b`. -/
def SameRecord (r : Nat) (b b' : Buf) : Prop :=
  ∀ i, sizeofDirRecord * r ≤ i → i < sizeofDirRecord * r + sizeofDirRecord → b' i = b i

namespace SameRecord

variable {r : Nat} {b b' : Buf}

theorem refl (r : Nat) (b : Buf) : SameRecord r b b := fun _ _ _ => rfl

theorem inodeNo (h : SameRecord r b b') : recordInodeNo b' r = recordInodeNo b r := by
  apply getWord_congr
  intro i hlo hhi
  apply h i
  · omega
  · unfold sizeofDirRecord at *
    omega

theorem matches_iff (h : SameRecord r b b') (n : Name) :
    filenameMatches b' r n.bytes = filenameMatches b r n.bytes := by
  apply cstrEq_congr
  intro i hlo hhi
  have := n.short
  apply h i hlo
  unfold sizeofDirRecord at *
  omega

theorem name (h : SameRecord r b b') : recordName b' r = recordName b r := by
  unfold recordName cstr
  congr 1
  apply List.map_congr_left
  intro i hi
  have := List.mem_range.mp hi
  apply h
  · omega
  · unfold simplefsFilenameMaxlen at this
    unfold sizeofDirRecord
    omega

theorem terminated (h : SameRecord r b b') (hb : RecordTerminated b r) : RecordTerminated b' r := by
  obtain ⟨i, hi, hzero⟩ := hb
  refine ⟨i, hi, ?_⟩
  rw [h (sizeofDirRecord * r + i) (by omega), hzero]
  unfold simplefsFilenameMaxlen at hi
  unfold sizeofDirRecord
  omega

end SameRecord

/-! ## Records that stay as they are -/

/-- The same records count in both images, and they hold the same. -/
structure Image.SameRecords (img img' : Image) : Prop where
  lists : ∀ a r, img'.Lists a r ↔ img.Lists a r
  record : ∀ a r, img.Lists a r → SameRecord r (img.data a) (img'.data a)

namespace Image.SameRecords

variable {N : Nat} {img img' : Image}

theorem entry_eq (h : img.SameRecords img') {a r : Nat} (hl : img.Lists a r) :
    img'.entry a r = img.entry a r := (h.record a r hl).inodeNo

theorem terminated (h : img.SameRecords img') (hwf : WellFormed N img) (a r : Nat)
    (hl : img'.Lists a r) : RecordTerminated (img'.data a) r := by
  have hl := (h.lists a r).mp hl
  exact (h.record a r hl).terminated (hwf.terminated a r hl)

theorem name_inj (h : img.SameRecords img') (hwf : WellFormed N img) (a r s : Nat)
    (hr : img'.Lists a r) (hs : img'.Lists a s)
    (heq : recordName (img'.data a) r = recordName (img'.data a) s) : r = s := by
  have hr := (h.lists a r).mp hr
  have hs := (h.lists a s).mp hs
  rw [(h.record a r hr).name, (h.record a s hs).name] at heq
  exact hwf.name_inj a r s hr hs heq

theorem not_root (h : img.SameRecords img') (hwf : WellFormed N img) (a r : Nat)
    (hl : img'.Lists a r) : img'.entry a r ≠ simplefsRootdirInodeNumber := by
  have hl := (h.lists a r).mp hl
  rw [h.entry_eq hl]
  exact hwf.not_root a r hl

/-- An inode with the number of a record is still there. -/
theorem stored (h : img.SameRecords img') (hwf : WellFormed N img)
    (hslot : ∀ k, k < img.count.toNat →
      k < img'.count.toNat ∧ (img'.slot k).inodeNo = (img.slot k).inodeNo) (a r : Nat)
    (hl : img'.Lists a r) : ∃ k, k < img'.count.toNat ∧ (img'.slot k).inodeNo = img'.entry a r := by
  have hl := (h.lists a r).mp hl
  obtain ⟨k, hk, hno⟩ := hwf.stored a r hl
  refine ⟨k, (hslot k hk).1, ?_⟩
  rw [(hslot k hk).2, hno, h.entry_eq hl]

theorem entry_inj (h : img.SameRecords img') (hwf : WellFormed N img) (a r s : Nat)
    (hr : img'.Lists a r) (hs : img'.Lists a s) (heq : img'.entry a r = img'.entry a s) : r = s := by
  have hr := (h.lists a r).mp hr
  have hs := (h.lists a s).mp hs
  rw [h.entry_eq hr, h.entry_eq hs] at heq
  exact hwf.entry_inj a r s hr hs heq

theorem unshared (h : img.SameRecords img') (ht : TreeShaped N img) (a b r s : Nat)
    (hr : img'.Lists a r) (hs : img'.Lists b s) (heq : img'.entry a r = img'.entry b s) : a = b := by
  have hr := (h.lists a r).mp hr
  have hs := (h.lists b s).mp hs
  rw [h.entry_eq hr, h.entry_eq hs] at heq
  exact ht.unshared a b r s hr hs heq

end Image.SameRecords

/-! ## Nothing changes that the tree is read from -/

/-- `img'` has the inodes of `img`, up to the sizes of files, and every record that counts. -/
structure Image.Agrees (img img' : Image) : Prop where
  count : img'.count = img.count
  same : ∀ k, k < img.count.toNat → (img'.slot k).Same (img.slot k)
  children : ∀ k, k < img.count.toNat → sIsdir (img.slot k).mode = true →
    (img'.slot k).dirChildrenCount = (img.slot k).dirChildrenCount
  records : ∀ a r, img.Lists a r →
    SameRecord r (img.data a) (img' (img.slot a).dataBlockNumber.toNat)

namespace Image.Agrees

variable {N : Nat} {img img' : Image}

/-- Neither a slot in use nor a data block changes. -/
theorem of_eq (hwf : WellFormed N img) (hcount : img'.count = img.count)
    (hslot : ∀ k, k < img.count.toNat → img'.slot k = img.slot k)
    (hdata : ∀ b, 2 ≤ b → img' b = img b) : img.Agrees img' := by
  refine ⟨hcount, ?_, ?_, ?_⟩
  · intro k hk
    rw [hslot k hk]
    exact .refl _
  · intro k hk _
    rw [hslot k hk]
  · intro a r hl
    rw [hdata _ (hwf.block_range a hl.lt).1]
    exact .refl _ _

theorem data_eq (h : img.Agrees img') {a : Nat} (ha : a < img.count.toNat) :
    img'.data a = img' (img.slot a).dataBlockNumber.toNat := by
  unfold Image.data
  rw [(h.same a ha).block]

theorem lists_iff (h : img.Agrees img') {a r : Nat} : img'.Lists a r ↔ img.Lists a r := by
  constructor
  · rintro ⟨ha, hdir, hr⟩
    rw [h.count] at ha
    rw [(h.same a ha).mode] at hdir
    rw [h.children a ha hdir] at hr
    exact ⟨ha, hdir, hr⟩
  · rintro ⟨ha, hdir, hr⟩
    refine ⟨?_, ?_, ?_⟩
    · rwa [h.count]
    · rwa [(h.same a ha).mode]
    · rwa [h.children a ha hdir]

theorem record (h : img.Agrees img') {a r : Nat} (hl : img.Lists a r) :
    SameRecord r (img.data a) (img'.data a) := by
  rw [h.data_eq hl.lt]
  exact h.records a r hl

theorem sameRecords (h : img.Agrees img') : img.SameRecords img' :=
  ⟨fun _ _ => h.lists_iff, fun _ _ hl => h.record hl⟩

theorem entry_eq (h : img.Agrees img') {a r : Nat} (hl : img.Lists a r) :
    img'.entry a r = img.entry a r := h.sameRecords.entry_eq hl

theorem wellFormed (h : img.Agrees img') (hwf : WellFormed N img)
    (hfree : ∀ b, img'.free.getLsbD b = true → img.free.getLsbD b = true) :
    WellFormed N img' := by
  have ht := hwf.tables.congr h.count h.same hfree
  have hcount : img'.count.toNat = img.count.toNat := by rw [h.count]
  constructor
  case number_le => exact ht.number_le
  case number_inj => exact ht.number_inj
  case block_inj => exact ht.block_inj
  case free_range => exact ht.free_range
  case free_unowned => exact ht.free_unowned
  case count_le =>
    rw [hcount]
    exact hwf.count_le
  case root =>
    obtain ⟨k, hk, hno, hdir⟩ := hwf.root
    refine ⟨k, ?_, ?_, ?_⟩
    · rwa [hcount]
    · rw [(h.same k hk).number, hno]
    · rw [(h.same k hk).mode, hdir]
  case block_range =>
    intro k hk
    rw [hcount] at hk
    rw [(h.same k hk).block]
    exact hwf.block_range k hk
  case children_le =>
    intro a ha hdir
    rw [hcount] at ha
    rw [(h.same a ha).mode] at hdir
    rw [h.children a ha hdir]
    exact hwf.children_le a ha hdir
  case terminated => exact h.sameRecords.terminated hwf
  case name_inj => exact h.sameRecords.name_inj hwf
  case stored =>
    apply h.sameRecords.stored hwf
    intro k hk
    exact ⟨by rwa [hcount], (h.same k hk).number⟩
  case not_root => exact h.sameRecords.not_root hwf
  case entry_inj => exact h.sameRecords.entry_inj hwf

theorem treeShaped (h : img.Agrees img') (ht : TreeShaped N img)
    (hfree : ∀ b, img'.free.getLsbD b = true → img.free.getLsbD b = true) :
    TreeShaped N img' :=
  ⟨h.wellFormed ht.toWellFormed hfree, h.sameRecords.unshared ht⟩

/-- Every path leads to the same slot. -/
theorem resolve_eq (h : img.Agrees img') (hwf : WellFormed N img) (hwf' : WellFormed N img')
    (p : Path) : img'.resolve p = img.resolve p := by
  have hcount : img'.count.toNat = img.count.toNat := by rw [h.count]
  apply Option.ext
  intro k
  induction p generalizing k with
  | nil =>
      show img'.find _ = some k ↔ img.find _ = some k
      rw [hwf.find_iff, hwf'.find_iff, hcount]
      apply and_congr_right
      intro hk
      rw [(h.same k hk).number]
  | cons n p ih =>
      rw [hwf.resolve_cons_iff, hwf'.resolve_cons_iff]
      apply exists_congr
      intro a
      apply exists_congr
      intro r
      rw [ih a, h.lists_iff, hcount]
      apply and_congr_right
      intro _
      apply and_congr_right
      intro hl
      have hname : img'.Named a r n ↔ img.Named a r n := by
        show filenameMatches (img'.data a) r n.bytes = true ↔ filenameMatches (img.data a) r n.bytes = true
        rw [(h.record hl).matches_iff]
      rw [hname, h.entry_eq hl]
      apply and_congr_right
      intro _
      apply and_congr_right
      intro hk
      rw [(h.same k hk).number]

end Image.Agrees

/-! ## One inode more -/

/-- `img'` has one inode more than `img`; it is a file or an empty directory, and has the next
number. -/
structure Image.Appends (img img' : Image) : Prop where
  room : img.count.toNat < 64
  count : img'.count = img.count + 1
  old : ∀ k, k < img.count.toNat → img'.slot k = img.slot k
  number : (img'.slot img.count.toNat).inodeNo.toNat = img.count.toNat + 8
  empty : (img'.slot img.count.toNat).dirChildrenCount = 0
  records : ∀ a r, img.Lists a r →
    SameRecord r (img.data a) (img' (img.slot a).dataBlockNumber.toNat)

namespace Image.Appends

variable {N : Nat} {img img' : Image}

theorem count_eq (h : img.Appends img') : img'.count.toNat = img.count.toNat + 1 := by
  have := h.room
  rw [h.count]
  bv_omega

theorem lists_iff (h : img.Appends img') {a r : Nat} : img'.Lists a r ↔ img.Lists a r := by
  constructor
  · rintro ⟨ha, hdir, hr⟩
    rw [h.count_eq] at ha
    by_cases hnew : a = img.count.toNat
    · rw [hnew, h.empty] at hr
      exact absurd hr (Nat.not_lt_zero r)
    · have ha : a < img.count.toNat := by omega
      rw [h.old a ha] at hdir hr
      exact ⟨ha, hdir, hr⟩
  · rintro ⟨ha, hdir, hr⟩
    refine ⟨?_, ?_, ?_⟩
    · rw [h.count_eq]
      omega
    · rwa [h.old a ha]
    · rwa [h.old a ha]

theorem record (h : img.Appends img') {a r : Nat} (hl : img.Lists a r) :
    SameRecord r (img.data a) (img'.data a) := by
  unfold Image.data
  rw [h.old a hl.lt]
  exact h.records a r hl

theorem sameRecords (h : img.Appends img') : img.SameRecords img' :=
  ⟨fun _ _ => h.lists_iff, fun _ _ hl => h.record hl⟩

theorem entry_eq (h : img.Appends img') {a r : Nat} (hl : img.Lists a r) :
    img'.entry a r = img.entry a r := h.sameRecords.entry_eq hl

/-- No record names the new inode. -/
theorem entry_ne (h : img.Appends img') (hwf : WellFormed N img) {a r : Nat}
    (hl : img.Lists a r) : img'.entry a r ≠ (img'.slot img.count.toNat).inodeNo := by
  intro heq
  obtain ⟨k, hk, hno⟩ := hwf.stored a r hl
  have hle := hwf.number_le k hk
  rw [hno, ← h.entry_eq hl, heq, h.number] at hle
  omega

theorem number_ne_root (h : img.Appends img') :
    (img'.slot img.count.toNat).inodeNo ≠ simplefsRootdirInodeNumber := by
  intro heq
  have hno := h.number
  rw [heq, show simplefsRootdirInodeNumber.toNat = 1 from rfl] at hno
  omega

theorem treeShaped (h : img.Appends img') (ht : TreeShaped N img)
    (hrange : 2 ≤ (img'.slot img.count.toNat).dataBlockNumber.toNat ∧
      (img'.slot img.count.toNat).dataBlockNumber.toNat < N)
    (hunowned : ∀ k, k < img.count.toNat → (img.slot k).dataBlockNumber.toNat ≠
      (img'.slot img.count.toNat).dataBlockNumber.toNat)
    (hfree : ∀ b, img'.free.getLsbD b = true →
      img.free.getLsbD b = true ∧ b ≠ (img'.slot img.count.toNat).dataBlockNumber.toNat) :
    TreeShaped N img' := by
  have htables : Tables N img' := by
    refine ht.tables.append h.room h.count (fun k hk => ?_) h.number hrange.1 hunowned hfree
    rw [h.old k hk]
    exact .refl _
  -- a slot of the longer store is an old one or the last
  have hcases : ∀ k, k < img'.count.toNat → k < img.count.toNat ∨ k = img.count.toNat := by
    intro k hk
    rw [h.count_eq] at hk
    omega
  constructor
  case unshared => exact h.sameRecords.unshared ht
  constructor
  case number_le => exact htables.number_le
  case number_inj => exact htables.number_inj
  case block_inj => exact htables.block_inj
  case free_range => exact htables.free_range
  case free_unowned => exact htables.free_unowned
  case count_le =>
    have := h.room
    rw [h.count_eq]
    omega
  case root =>
    obtain ⟨k, hk, hno, hdir⟩ := ht.root
    refine ⟨k, ?_, ?_, ?_⟩
    · rw [h.count_eq]
      omega
    · rw [h.old k hk, hno]
    · rw [h.old k hk, hdir]
  case block_range =>
    intro k hk
    rcases hcases k hk with hold | rfl
    · rw [h.old k hold]
      exact ht.block_range k hold
    · exact hrange
  case children_le =>
    intro a ha hdir
    rcases hcases a ha with hold | rfl
    · rw [h.old a hold] at hdir ⊢
      exact ht.children_le a hold hdir
    · rw [h.empty]
      decide
  case terminated => exact h.sameRecords.terminated ht.toWellFormed
  case name_inj => exact h.sameRecords.name_inj ht.toWellFormed
  case stored =>
    apply h.sameRecords.stored ht.toWellFormed
    intro k hk
    refine ⟨?_, ?_⟩
    · rw [h.count_eq]
      omega
    · rw [h.old k hk]
  case not_root => exact h.sameRecords.not_root ht.toWellFormed
  case entry_inj => exact h.sameRecords.entry_inj ht.toWellFormed

/-- No path leads to the new inode, and the others lead where they did. -/
theorem resolve_eq (h : img.Appends img') (ht : TreeShaped N img) (ht' : TreeShaped N img')
    (p : Path) : img'.resolve p = img.resolve p := by
  -- a slot with a number that is not the new one
  have hslot : ∀ k no, no ≠ (img'.slot img.count.toNat).inodeNo →
      (k < img'.count.toNat ∧ (img'.slot k).inodeNo = no ↔
        k < img.count.toNat ∧ (img.slot k).inodeNo = no) := by
    intro k no hno
    constructor
    · rintro ⟨hk, heq⟩
      rw [h.count_eq] at hk
      have hne : k ≠ img.count.toNat := by
        rintro rfl
        exact hno heq.symm
      have hk : k < img.count.toNat := by omega
      rw [h.old k hk] at heq
      exact ⟨hk, heq⟩
    · rintro ⟨hk, heq⟩
      rw [h.count_eq, h.old k hk]
      exact ⟨by omega, heq⟩
  apply Option.ext
  intro k
  induction p generalizing k with
  | nil =>
      show img'.find _ = some k ↔ img.find _ = some k
      rw [ht.find_iff, ht'.find_iff]
      exact hslot k _ (Ne.symm h.number_ne_root)
  | cons n p ih =>
      rw [ht.resolve_cons_iff, ht'.resolve_cons_iff]
      apply exists_congr
      intro a
      apply exists_congr
      intro r
      rw [ih a, h.lists_iff]
      apply and_congr_right
      intro _
      apply and_congr_right
      intro hl
      have hname : img'.Named a r n ↔ img.Named a r n := by
        show filenameMatches (img'.data a) r n.bytes = true ↔ filenameMatches (img.data a) r n.bytes = true
        rw [(h.record hl).matches_iff]
      rw [hname, hslot k _ (h.entry_ne ht.toWellFormed hl), h.entry_eq hl]

end Image.Appends

/-! ## One record more -/

/-- `img'` counts one record more than `img` in the directory in slot `j`. -/
structure Image.Bumps (img img' : Image) (j : Nat) : Prop where
  lt : j < img.count.toNat
  isdir : sIsdir (img.slot j).mode = true
  room : (img.slot j).dirChildrenCount.toNat < 16
  count : img'.count = img.count
  parent : img'.slot j = (img.slot j).bump
  others : ∀ k, k ≠ j → img'.slot k = img.slot k
  free : img'.free = img.free
  data : ∀ b, 2 ≤ b → img' b = img b

namespace Image.Bumps

variable {N : Nat} {img img' : Image} {j : Nat}

theorem same (h : img.Bumps img' j) (k : Nat) : (img'.slot k).Same (img.slot k) := by
  by_cases hk : k = j
  · rw [hk, h.parent]
    exact .bump _
  · rw [h.others k hk]
    exact .refl _

theorem data_eq (h : img.Bumps img' j) (hwf : WellFormed N img) {a : Nat}
    (ha : a < img.count.toNat) : img'.data a = img.data a := by
  unfold Image.data
  rw [(h.same a).block, h.data _ (hwf.block_range a ha).1]

theorem children (h : img.Bumps img' j) :
    (img'.slot j).dirChildrenCount.toNat = (img.slot j).dirChildrenCount.toNat + 1 := by
  have := h.room
  rw [h.parent]
  show ((img.slot j).dirChildrenCount + 1).toNat = _
  bv_omega

theorem lists_iff (h : img.Bumps img' j) {a r : Nat} :
    img'.Lists a r ↔ img.Lists a r ∨ (a = j ∧ r = (img.slot j).dirChildrenCount.toNat) := by
  constructor
  · rintro ⟨ha, hdir, hr⟩
    rw [h.count] at ha
    rw [(h.same a).mode] at hdir
    by_cases haj : a = j
    · rw [haj, h.children] at hr
      by_cases hlast : r = (img.slot j).dirChildrenCount.toNat
      · exact .inr ⟨haj, hlast⟩
      · refine .inl ⟨ha, hdir, ?_⟩
        rw [haj]
        omega
    · rw [h.others a haj] at hr
      exact .inl ⟨ha, hdir, hr⟩
  · rintro (⟨ha, hdir, hr⟩ | ⟨rfl, rfl⟩)
    · refine ⟨?_, ?_, ?_⟩
      · rwa [h.count]
      · rwa [(h.same a).mode]
      · by_cases haj : a = j
        · rw [haj, h.children]
          rw [haj] at hr
          omega
        · rwa [h.others a haj]
    · refine ⟨?_, ?_, ?_⟩
      · rw [h.count]
        exact h.lt
      · rw [(h.same a).mode]
        exact h.isdir
      · rw [h.children]
        omega

theorem entry_eq (h : img.Bumps img' j) (hwf : WellFormed N img) {a : Nat}
    (ha : a < img.count.toNat) (r : Nat) : img'.entry a r = img.entry a r := by
  show recordInodeNo (img'.data a) r = recordInodeNo (img.data a) r
  rw [h.data_eq hwf ha]

end Image.Bumps

/-- The record after the last of the directory in slot `j` has the name `name` and names the
inode in slot `k`; no record that counts does either. -/
structure Image.Prepared (img : Image) (j : Nat) (name : Name) (k : Nat) : Prop where
  lt : k < img.count.toNat
  ne : k ≠ j
  empty : ∀ r, ¬ img.Lists k r
  number : (img.slot k).inodeNo = img.entry j (img.slot j).dirChildrenCount.toNat
  not_root : (img.slot k).inodeNo ≠ simplefsRootdirInodeNumber
  unnamed : ∀ a r, img.Lists a r → img.entry a r ≠ (img.slot k).inodeNo
  terminated : RecordTerminated (img.data j) (img.slot j).dirChildrenCount.toNat
  named : img.Named j (img.slot j).dirChildrenCount.toNat name
  new : ∀ r, img.Lists j r → ¬ img.Named j r name

namespace Image.Bumps

variable {N : Nat} {img img' : Image} {j k : Nat} {name : Name}

theorem treeShaped (h : img.Bumps img' j) (hp : img.Prepared j name k) (ht : TreeShaped N img) :
    TreeShaped N img' := by
  have htables : Tables N img' :=
    ht.tables.congr h.count (fun k _ => h.same k) fun b hb => h.free ▸ hb
  have hcount : img'.count.toNat = img.count.toNat := by rw [h.count]
  have hlt : ∀ {a r}, img'.Lists a r → a < img.count.toNat := by
    intro a r hl
    rw [← hcount]
    exact hl.lt
  -- two records with one number
  have hdistinct : ∀ a b r s, img'.Lists a r → img'.Lists b s →
      img'.entry a r = img'.entry b s → a = b ∧ r = s := by
    intro a b r s hr hs heq
    rw [h.entry_eq ht.toWellFormed (hlt hr), h.entry_eq ht.toWellFormed (hlt hs)] at heq
    rcases h.lists_iff.mp hr with hr | ⟨rfl, rfl⟩ <;> rcases h.lists_iff.mp hs with hs | ⟨rfl, rfl⟩
    · exact ht.linked.distinct a b r s hr hs heq
    · exact absurd (heq.trans hp.number.symm) (hp.unnamed a r hr)
    · exact absurd (heq.symm.trans hp.number.symm) (hp.unnamed b s hs)
    · exact ⟨rfl, rfl⟩
  -- a name that counts is not the new one
  have hname : ∀ r, img.Lists j r → recordName (img.data j) r ≠
      recordName (img.data j) (img.slot j).dirChildrenCount.toNat := by
    intro r hr heq
    have hnew := (filenameMatches_iff name.noNul hp.terminated).mp hp.named
    exact hp.new r hr ((filenameMatches_iff name.noNul (ht.terminated j r hr)).mpr (heq.trans hnew))
  constructor
  case unshared => exact fun a b r s hr hs heq => (hdistinct a b r s hr hs heq).1
  constructor
  case number_le => exact htables.number_le
  case number_inj => exact htables.number_inj
  case block_inj => exact htables.block_inj
  case free_range => exact htables.free_range
  case free_unowned => exact htables.free_unowned
  case entry_inj => exact fun a r s hr hs heq => (hdistinct a a r s hr hs heq).2
  case count_le =>
    rw [hcount]
    exact ht.count_le
  case root =>
    obtain ⟨k, hk, hno, hdir⟩ := ht.root
    refine ⟨k, ?_, ?_, ?_⟩
    · rwa [hcount]
    · rw [(h.same k).number, hno]
    · rw [(h.same k).mode, hdir]
  case block_range =>
    intro k hk
    rw [hcount] at hk
    rw [(h.same k).block]
    exact ht.block_range k hk
  case children_le =>
    intro a ha hdir
    rw [hcount] at ha
    rw [(h.same a).mode] at hdir
    by_cases haj : a = j
    · have := h.room
      rw [haj, h.children]
      omega
    · rw [h.others a haj]
      exact ht.children_le a ha hdir
  case terminated =>
    intro a r hl
    rw [h.data_eq ht.toWellFormed (hlt hl)]
    rcases h.lists_iff.mp hl with hl | ⟨rfl, rfl⟩
    · exact ht.terminated a r hl
    · exact hp.terminated
  case name_inj =>
    intro a r s hr hs heq
    rw [h.data_eq ht.toWellFormed (hlt hr)] at heq
    rcases h.lists_iff.mp hr with hr | ⟨rfl, rfl⟩ <;> rcases h.lists_iff.mp hs with hs | ⟨haj, rfl⟩
    · exact ht.name_inj a r s hr hs heq
    · subst haj
      exact absurd heq (hname r hr)
    · exact absurd heq.symm (hname s hs)
    · rfl
  case stored =>
    intro a r hl
    rw [h.entry_eq ht.toWellFormed (hlt hl)]
    rcases h.lists_iff.mp hl with hl | ⟨rfl, rfl⟩
    · obtain ⟨k, hk, hno⟩ := ht.stored a r hl
      refine ⟨k, ?_, ?_⟩
      · rwa [hcount]
      · rw [(h.same k).number, hno]
    · refine ⟨k, ?_, ?_⟩
      · rw [hcount]
        exact hp.lt
      · rw [(h.same k).number, hp.number]
  case not_root =>
    intro a r hl
    rw [h.entry_eq ht.toWellFormed (hlt hl)]
    rcases h.lists_iff.mp hl with hl | ⟨rfl, rfl⟩
    · exact ht.not_root a r hl
    · rw [← hp.number]
      exact hp.not_root

/-- The new record leads to its inode, and every other path where it did. -/
theorem resolve_iff (h : img.Bumps img' j) (hp : img.Prepared j name k) (ht : TreeShaped N img)
    (ht' : TreeShaped N img') {dir : Path} (hdir : img.resolve dir = some j) (p : Path) (x : Nat) :
    img'.resolve p = some x ↔ (p = name :: dir ∧ x = k) ∨ img.resolve p = some x := by
  have hcount : img'.count.toNat = img.count.toNat := by rw [h.count]
  have hnamed : ∀ {a r n}, a < img.count.toNat → (img'.Named a r n ↔ img.Named a r n) := by
    intro a r n ha
    show filenameMatches (img'.data a) r n.bytes = true ↔ filenameMatches (img.data a) r n.bytes = true
    rw [h.data_eq ht.toWellFormed ha]
  induction p generalizing x with
  | nil =>
      show img'.find _ = some x ↔ _ ∨ img.find _ = some x
      rw [ht.find_iff, ht'.find_iff, hcount, (h.same x).number]
      simp
  | cons n q ih =>
      rw [ht'.resolve_cons_iff, ht.resolve_cons_iff]
      constructor
      · rintro ⟨a, r, ha, hl, hn, hx, hno⟩
        have hlt := ht'.resolve_lt ha
        rw [hcount] at hlt hx
        rw [hnamed hlt] at hn
        rw [(h.same x).number, h.entry_eq ht.toWellFormed hlt] at hno
        rcases (ih a).mp ha with ⟨-, rfl⟩ | ha
        · -- below the new object there is nothing
          rcases h.lists_iff.mp hl with hl | ⟨haj, -⟩
          · exact absurd hl (hp.empty r)
          · exact absurd haj hp.ne
        · rcases h.lists_iff.mp hl with hl | ⟨rfl, rfl⟩
          · exact .inr ⟨a, r, ha, hl, hn, hx, hno⟩
          · left
            obtain rfl := ht.resolve_inj ha hdir
            obtain rfl := hn.unique hp.named
            exact ⟨rfl, ht.number_inj x k hx hp.lt (hno.trans hp.number.symm)⟩
      · rintro (⟨heq, rfl⟩ | ⟨a, r, ha, hl, hn, hx, hno⟩)
        · obtain ⟨rfl, rfl⟩ := List.cons.inj heq
          refine ⟨j, _, (ih j).mpr (.inr hdir), h.lists_iff.mpr (.inr ⟨rfl, rfl⟩), ?_, ?_, ?_⟩
          · exact (hnamed h.lt).mpr hp.named
          · rw [hcount]
            exact hp.lt
          · rw [(h.same x).number, h.entry_eq ht.toWellFormed h.lt, hp.number]
        · refine ⟨a, r, (ih a).mpr (.inr ha), h.lists_iff.mpr (.inl hl), ?_, ?_, ?_⟩
          · exact (hnamed hl.lt).mpr hn
          · rwa [hcount]
          · rw [(h.same x).number, h.entry_eq ht.toWellFormed hl.lt, hno]

end Image.Bumps

end Lkm.Simplefs
