import Lkm.Simplefs.Format
import Lkm.Simplefs.Logic.Coherence

/-!
# Crashing inside a create

After a crash each block is on the device in the version of its last sync or in
one it had in the cache since then, independently of the other blocks
(`Durable`). A create that nothing interrupts changes three of them, and only the
order in which it syncs them keeps every mixture consistent:

* until the parent's inode is saved, every durable inode store shows the parent
  with its old count, so that no durable record counts that did not before
  (`Before`, `Consistent.of_base`);
* when it is saved, super block and directory block have been synced, and the
  saved store holds the child, too (`After`).

The records must not lie in the super block or in the inode store:
`record_in_the_inode_store` is a directory whose data block is block 1.
-/

namespace Lkm.Simplefs

open Base

/-- The device may hold this after a crash. -/
def Durable (v : Vol) (D : Image) : Prop := ∀ b, D b = v.cache b ∨ D b ∈ v.past b

/-- Every record that counts names a stored inode, no two of these inodes share a
block, and none of their blocks is marked free. -/
structure Consistent (img : Image) : Prop where
  refers : ∀ a r, img.Lists a r → ∃ k, img.Finds (img.entry a r) k
  blocks : ∀ a b r s k l, img.Lists a r → img.Lists b s → a ≠ b ∨ r ≠ s →
    img.Finds (img.entry a r) k → img.Finds (img.entry b s) l →
    (img.slot k).dataBlockNumber ≠ (img.slot l).dataBlockNumber
  used : ∀ a r k, img.Lists a r → img.Finds (img.entry a r) k →
    img.free.getLsbD (img.slot k).dataBlockNumber.toNat = false

/-! ## Images with the records of another one -/

/-- An image that extends the table of a sound one by inodes without records, marks
no more blocks free and has the same records is consistent. -/
theorem Consistent.of_base {hi : Nat} {base D : Image} (ht : Tables hi base) (hl : Linked base)
    (hcount : base.count.toNat ≤ D.count.toNat)
    (hslot : ∀ k, k < base.count.toNat → D.slot k = base.slot k)
    (hrest : ∀ k, base.count.toNat ≤ k → k < D.count.toNat → sIsdir (D.slot k).mode = true →
      (D.slot k).dirChildrenCount = 0)
    (hfree : ∀ b, D.free.getLsbD b = true → base.free.getLsbD b = true)
    (hentry : ∀ a r, base.Lists a r → D.entry a r = base.entry a r) : Consistent D := by
  have hlists : ∀ a r, D.Lists a r → base.Lists a r := by
    rintro a r ⟨ha, hdir, hr⟩
    by_cases hold : a < base.count.toNat
    · rw [hslot a hold] at hdir hr
      exact ⟨hold, hdir, hr⟩
    · rw [hrest a (by omega) ha hdir] at hr
      exact absurd hr (Nat.not_lt_zero r)
  -- the first slot with the number of a record is one of the old table
  have hfinds : ∀ a r k, base.Lists a r → D.Finds (base.entry a r) k →
      k < base.count.toNat ∧ (base.slot k).inodeNo = base.entry a r := by
    intro a r k hlar hk
    obtain ⟨l, hlt, hno⟩ := hl.stored a r hlar
    have hkl : k ≤ l := by
      by_contra hgt
      refine hk.first l (by omega) ?_
      rw [hslot l hlt, hno]
    have hlt' : k < base.count.toNat := by omega
    refine ⟨hlt', ?_⟩
    rw [← hslot k hlt', hk.number]
  refine ⟨fun a r h => ?_, fun a b r s k l h h' hne hk hk' heq => ?_, fun a r k h hk => ?_⟩
  · obtain ⟨k, hk, hno⟩ := hl.stored a r (hlists a r h)
    rw [hentry a r (hlists a r h)]
    refine ⟨k, by omega, ?_, fun i hi heq => ?_⟩
    · rw [hslot k hk, hno]
    · rw [hslot i (by omega), ← hno] at heq
      have := ht.number_inj i k (by omega) hk heq
      omega
  · rw [hentry a r (hlists a r h)] at hk
    rw [hentry b s (hlists b s h')] at hk'
    obtain ⟨hlt, hno⟩ := hfinds a r k (hlists a r h) hk
    obtain ⟨hlt', hno'⟩ := hfinds b s l (hlists b s h') hk'
    rw [hslot k hlt, hslot l hlt'] at heq
    have hkl := ht.block_inj k l hlt hlt' heq
    obtain ⟨rfl, rfl⟩ := hl.distinct a b r s (hlists a r h) (hlists b s h') (by
      rw [← hno, ← hno', hkl])
    exact hne.elim (fun hne => hne rfl) fun hne => hne rfl
  · rw [hentry a r (hlists a r h)] at hk
    obtain ⟨hlt, -⟩ := hfinds a r k (hlists a r h) hk
    rw [hslot k hlt]
    by_contra hset
    exact ht.free_unowned _ k (hfree _ (by simpa using hset)) hlt rfl

/-- A sound image is consistent itself. -/
theorem Consistent.of_sound {hi : Nat} {img : Image} (ht : Tables hi img) (hl : Linked img) :
    Consistent img :=
  .of_base ht hl (Nat.le_refl _) (fun _ _ => rfl) (fun k hge hlt => by omega) (fun _ h => h)
    fun _ _ _ => rfl

/-! ## The versions of each block -/

/-- Every version that a block may have after a crash satisfies `W`. -/
def Versions (W : Nat → Buf → Prop) (v : Vol) : Prop :=
  ∀ b, W b (v.cache b) ∧ ∀ x ∈ v.past b, W b x

namespace Versions

variable {W : Nat → Buf → Prop} {v : Vol}

theorem durable (h : Versions W v) {D : Image} (hD : Durable v D) (b : Nat) : W b (D b) := by
  rcases hD b with hcache | hpast
  · rw [hcache]
    exact (h b).1
  · exact (h b).2 _ hpast

theorem modify (h : Versions W v) {b : Nat} {f : Buf → Buf} (hf : ∀ x, W b x → W b (f x)) :
    Versions W (v.modify b f) := by
  intro c
  by_cases hcb : c = b
  · subst hcb
    refine ⟨?_, fun x hx => ?_⟩
    · rw [Vol.modify_cache_self]
      exact hf _ (h c).1
    · have hx' : x ∈ v.past c ++ [v.cache c] := by simpa [Vol.modify] using hx
      rcases List.mem_append.mp hx' with hold | hlast
      · exact (h c).2 x hold
      · rw [List.mem_singleton.mp hlast]
        exact (h c).1
  · refine ⟨?_, fun x hx => (h c).2 x (by simpa [Vol.modify, hcb] using hx)⟩
    rw [Vol.modify_cache_ne _ _ hcb]
    exact (h c).1

/-- Syncing forgets versions. -/
theorem along_sync (h : Versions W v) (b : Nat) : Along (Versions W) v (syncScript b) := by
  simp only [syncScript, along_cons]
  refine ⟨h, fun c => ⟨(h c).1, fun x hx => ?_⟩, along_nil⟩
  by_cases hcb : c = b
  · subst hcb
    simp [Vol.syncDirtyBuffer] at hx
  · exact (h c).2 x (by simpa [Vol.syncDirtyBuffer, hcb] using hx)

theorem congr (h : Versions W v) {u : Vol} (hcache : u.cache = v.cache) (hpast : u.past = v.past) :
    Versions W u := by
  intro b
  rw [hcache, hpast]
  exact h b

end Versions

/-! ## The volume between two calls -/

/-- A slot of zeros. -/
def zeroInode : SimplefsInode := ⟨0, 0, 0, 0, 0⟩

/-- Between two calls everything is synced. Once the table is full it does not
matter any more what is in memory. -/
structure Settled (hi : Nat) (v : Vol) : Prop where
  tables : Tables hi v.cache
  linked : Linked v.cache
  zero : ∀ k, v.cache.count.toNat ≤ k → k < 128 → v.cache.slot k = zeroInode
  synced : ∀ b, v.past b = []
  coherent : v.cache.count.toNat < 64 → Coherent hi v

/-- Every crash leaves a consistent image. -/
def CrashSafe (v : Vol) : Prop := ∀ D, Durable v D → Consistent D

theorem Settled.crashSafe {hi : Nat} {v : Vol} (h : Settled hi v) : CrashSafe v := by
  intro D hD
  have hcache : D = v.cache := by
    funext b
    rcases hD b with hb | hb
    · exact hb
    · rw [h.synced b] at hb
      cases hb
  rw [hcache]
  exact .of_sound h.tables h.linked

/-! ## Inside a create -/

/-- What the versions of the blocks have in common until the parent is saved: no
slot and no record that counted before is different. -/
structure Before (v : Vol) (b : Nat) (x : Buf) : Prop where
  count : b = 0 → inodesCount x = v.cache.count ∨ inodesCount x = v.cache.count + 1
  free : b = 0 → ∀ c, (freeBlocks x).getLsbD c = true → v.cache.free.getLsbD c = true
  slots : b = 1 → ∀ k, k < v.cache.count.toNat → inodeAt x k = v.cache.slot k
  last : b = 1 → sIsdir (inodeAt x v.cache.count.toNat).mode = true →
    (inodeAt x v.cache.count.toNat).dirChildrenCount = 0
  records : ∀ a r, v.cache.Lists a r → (v.cache.slot a).dataBlockNumber.toNat = b →
    recordInodeNo x r = v.cache.entry a r

section Create

variable {P : Platform} {hi : Nat} {v : Vol}

theorem Settled.before (h : Settled hi v) (hlt : v.cache.count.toNat < 64) :
    Versions (Before v) v := by
  intro b
  refine ⟨⟨?_, ?_, ?_, ?_, ?_⟩, fun x hx => ?_⟩
  · rintro rfl
    exact .inl rfl
  · rintro rfl c hc
    exact hc
  · rintro rfl k _
    rfl
  · rintro rfl hdir
    have hzero := h.zero _ (Nat.le_refl _) (by omega : v.cache.count.toNat < 128)
    have hdir' : sIsdir (v.cache.slot v.cache.count.toNat).mode = true := hdir
    rw [hzero] at hdir'
    exact absurd hdir' (by decide)
  · rintro a r - rfl
    rfl
  · rw [h.synced b] at hx
    cases hx

/-- Mixtures of such versions are consistent. -/
theorem Settled.crashSafe_of_before (h : Settled hi v) (hlt : v.cache.count.toNat < 64) {D : Image}
    (hD : ∀ b, Before v b (D b)) : Consistent D := by
  have hcount : D.count.toNat = v.cache.count.toNat ∨ D.count.toNat = v.cache.count.toNat + 1 := by
    rcases (hD 0).count rfl with h0 | h1
    · exact .inl (congrArg BitVec.toNat h0)
    · right
      rw [show D.count = v.cache.count + 1 from h1]
      bv_omega
  have hslot : ∀ k, k < v.cache.count.toNat → D.slot k = v.cache.slot k := (hD 1).slots rfl
  refine .of_base h.tables h.linked (by omega) hslot (fun k hge hlt' hdir => ?_)
    ((hD 0).free rfl) fun a r hl => ?_
  · have hk : k = v.cache.count.toNat := by omega
    rw [hk] at hdir ⊢
    exact (hD 1).last rfl hdir
  · unfold Image.entry Image.recordNo
    rw [hslot a hl.lt]
    exact (hD _).records a r hl rfl

theorem Settled.block_ne (h : Settled hi v) {a : Nat} (ha : a < v.cache.count.toNat) :
    (v.cache.slot a).dataBlockNumber.toNat ≠ 0 ∧ (v.cache.slot a).dataBlockNumber.toNat ≠ 1 := by
  have := h.tables.block_ge a ha
  omega

/-- Taking a block and appending an inode without records. -/
theorem Settled.along_add (h : Settled hi v) (hhi : hi ≤ 31) (hlt : v.cache.count.toNat < 64)
    (hfound : v.freeIndex P ≠ 64) {ino : SimplefsInode} (hempty : ino.dirChildrenCount = 0) :
    Along (Versions (Before v)) v (takeScript P v ++ addScript v ino) := by
  have h₀ := h.before hlt
  have h₁ : Versions (Before v)
      (v.setFree (v.cache.free &&& ~~~bitMask P (v.freeIndex P))) := by
    refine h₀.modify fun x hx => ⟨fun _ => ?_, fun _ c hc => ?_, by omega, by omega,
      fun a r hl hblk => absurd hblk (h.block_ne hl.lt).1⟩
    · rw [inodesCount_setFreeBlocks]
      exact hx.count rfl
    · rw [freeBlocks_setFreeBlocks] at hc
      exact (h.tables.taken hhi hfound hc).1
  have h₂ : Versions (Before v) (v.after (takeScript P v)) := (h₁.along_sync 0).last h₁
  have h₃ : Versions (Before v) ((v.after (takeScript P v)).putSlot v.cache.count.toNat ino) := by
    refine h₂.modify fun x hx => ⟨by omega, by omega, fun _ k hk => ?_, fun _ _ => ?_,
      fun a r hl hblk => absurd hblk (h.block_ne hl.lt).2⟩
    · rw [inodeAt_putInode_ne _ (Nat.ne_of_lt hk)]
      exact hx.slots rfl k hk
    · rw [inodeAt_putInode_self]
      exact hempty
  have h₄ : Versions (Before v) (((v.after (takeScript P v)).putSlot v.cache.count.toNat
      ino).setCount (v.cache.count + 1)) := by
    refine h₃.modify fun x hx => ⟨fun _ => ?_, fun _ c hc => ?_, by omega, by omega,
      fun a r hl hblk => absurd hblk (h.block_ne hl.lt).1⟩
    · rw [inodesCount_setInodesCount]
      exact .inr rfl
    · rw [freeBlocks_setInodesCount] at hc
      exact hx.free rfl c hc
  have h₅ := h₄.congr (u := (((v.after (takeScript P v)).putSlot v.cache.count.toNat ino).setCount
    (v.cache.count + 1)).markBufferDirty 1) rfl rfl
  rw [along_append]
  simp only [takeScript, addScript, along_cons]
  exact ⟨⟨h₁, h₁.along_sync 0⟩, h₃, h₄, h₅, h₅.along_sync 0⟩

end Create

namespace Creating

variable {P : Platform} {hi : Nat} {v : Vol} {dir : Path} {name : Name} {ino par : SimplefsInode}
  {j : Nat}

/-- The volume once the inode is appended, and once its record is written. -/
def appended (P : Platform) (v : Vol) (ino : SimplefsInode) : Vol :=
  v.after (takeScript P v ++ addScript v ino)

def recorded (P : Platform) (v : Vol) (name : Name) (ino par : SimplefsInode) : Vol :=
  (appended P v ino).after (recordScript par.dataBlockNumber.toNat par.dirChildrenCount.toNat
    ino.inodeNo name.bytes)

/-- Writing the record and counting it in memory. -/
theorem along_record (h : Creating P hi v dir name ino par j) {u : Vol}
    (hu : Versions (Before v) u) :
    Along (Versions (Before v)) u (recordScript par.dataBlockNumber.toNat
      par.dirChildrenCount.toNat ino.inodeNo name.bytes) := by
  have hlow := h.block_ge
  -- the record is behind the last one of its directory, and no other has this block
  have hbehind : ∀ a r, v.cache.Lists a r →
      (v.cache.slot a).dataBlockNumber.toNat = par.dataBlockNumber.toNat →
      r ≠ par.dirChildrenCount.toNat := by
    intro a r hl hblk
    by_cases haj : a = j
    · have hr := hl.record
      rw [haj, h.slot] at hr
      omega
    · exact absurd hblk (h.block_ne hl.lt haj)
  have h₁ : Versions (Before v) (u.modify par.dataBlockNumber.toNat
      (setRecordInodeNo · par.dirChildrenCount.toNat ino.inodeNo)) := by
    refine hu.modify fun x hx => ⟨by omega, by omega, by omega, by omega, fun a r hl hblk => ?_⟩
    rw [recordInodeNo_setRecordInodeNo_ne (hbehind a r hl hblk)]
    exact hx.records a r hl hblk
  have h₂ := h₁.modify (b := par.dataBlockNumber.toNat)
    (f := (strcpyFilename · par.dirChildrenCount.toNat name.bytes)) fun x hx =>
      ⟨by omega, by omega, by omega, by omega, fun a r hl hblk => by
        rw [recordInodeNo_strcpyFilename h.short]
        exact hx.records a r hl hblk⟩
  simp only [recordScript, along_cons]
  exact ⟨h₁, h₂, h₂.along_sync _⟩

/-- The versions once the record is written: the inode store may be old or new, every other
block is new. -/
def After (v u : Vol) (b : Nat) (x : Buf) : Prop :=
  (b = 1 ∧ Before v 1 x) ∨ x = u.cache b

theorem cache_recorded {b : Nat} (hb : b ≠ 1) :
    (recorded P v name ino par).cache b = (v.created P dir name ino par j).cache b := by
  show _ = (Vol.putSlot (recorded P v name ino par) j par.bump).cache b
  rw [Vol.putSlot_cache_ne _ hb]

theorem after_recorded (hsynced : ∀ b, v.past b = [])
    (hbefore : Versions (Before v) (recorded P v name ino par)) :
    Versions (After v (v.created P dir name ino par j)) (recorded P v name ino par) := by
  intro b
  by_cases hb : b = 1
  · subst hb
    exact ⟨.inl ⟨rfl, (hbefore 1).1⟩, fun x hx => .inl ⟨rfl, (hbefore 1).2 x hx⟩⟩
  · refine ⟨.inr (cache_recorded hb), fun x hx => ?_⟩
    have hpast : (recorded P v name ino par).past b = [] := by
      unfold recorded appended
      rw [Vol.after_append]
      exact Vol.recorded_past (hsynced b) hb
    rw [hpast] at hx
    cases hx

/-- Saving the parent. -/
theorem along_save {u : Vol} (hu : Versions (After v (v.created P dir name ino par j)) u)
    (hcache : u.cache = (recorded P v name ino par).cache) :
    Along (Versions (After v (v.created P dir name ino par j))) u (saveScript j par.bump) := by
  have h₁ : Versions (After v (v.created P dir name ino par j)) (u.putSlot j par.bump) := by
    intro b
    by_cases hb : b = 1
    · subst hb
      refine ⟨.inr ?_, fun x hx => ?_⟩
      · show (u.putSlot j par.bump).cache 1 =
          (Vol.putSlot (recorded P v name ino par) j par.bump).cache 1
        unfold Vol.putSlot
        rw [Vol.modify_cache_self, Vol.modify_cache_self, hcache]
      · have hx' : x ∈ u.past 1 ++ [u.cache 1] := by simpa [Vol.putSlot, Vol.modify] using hx
        rcases List.mem_append.mp hx' with hold | hlast
        · exact (hu 1).2 x hold
        · rw [List.mem_singleton.mp hlast]
          exact (hu 1).1
    · refine ⟨?_, fun x hx => (hu b).2 x (by simpa [Vol.putSlot, Vol.modify, hb] using hx)⟩
      rw [Vol.putSlot_cache_ne _ hb]
      exact (hu b).1
  exact along_cons.mpr ⟨h₁, h₁.along_sync 1⟩

/-- Mixtures of old and new inode stores with what is new otherwise. -/
theorem crashSafe_of_after (h : Creating P hi v dir name ino par j) (hs : Settled hi v)
    (hbefore : Versions (Before v) (recorded P v name ino par)) {u : Vol}
    (hu : Versions (After v (v.created P dir name ino par j)) u) : CrashSafe u := by
  intro D hD
  have hother : ∀ b, b ≠ 1 → D b = (v.created P dir name ino par j).cache b := by
    intro b hb
    rcases hu.durable hD b with ⟨h1, -⟩ | hnew
    · exact absurd h1 hb
    · exact hnew
  rcases hu.durable hD 1 with ⟨-, hold⟩ | hnew
  · refine hs.crashSafe_of_before h.room fun b => ?_
    by_cases hb : b = 1
    · subst hb
      exact hold
    · rw [hother b hb, ← cache_recorded hb]
      exact (hbefore b).1
  · have hcache : D = (v.created P dir name ino par j).cache := by
      funext b
      by_cases hb : b = 1
      · subst hb
        exact hnew
      · exact hother b hb
    rw [hcache]
    exact .of_sound h.tables h.linked

theorem settled (h : Creating P hi v dir name ino par j) (hs : Settled hi v) :
    Settled hi (v.created P dir name ino par j) := by
  refine ⟨h.tables, h.linked, fun k hge hlt => ?_, fun b => ?_, fun _ => h.coherent_created⟩
  · rw [h.count] at hge
    rw [Vol.created_slot_ne h.block_ge (by omega) (by have := h.lt; omega)]
    exact hs.zero k (by omega) hlt
  · exact Vol.created_past (hs.synced b)

/-- Every volume of a create is safe. -/
theorem along_crashSafe (h : Creating P hi v dir name ino par j) (hs : Settled hi v) :
    Along CrashSafe v (createScript P v dir name ino par j) := by
  have hsafe : ∀ u, Versions (Before v) u → CrashSafe u := fun u hu D hD =>
    hs.crashSafe_of_before h.room (hu.durable hD)
  have hadd := hs.along_add h.hi_le h.room h.found h.empty
  have happ : Versions (Before v) (appended P v ino) := hadd.last (hs.before h.room)
  have hrec := h.along_record happ
  have hlast : Versions (Before v) (recorded P v name ino par) := hrec.last happ
  have hafter : Versions (After v (v.created P dir name ino par j))
      ((recorded P v name ino par).bumpChildren dir) := (after_recorded hs.synced hlast).congr rfl rfl
  have hsave := along_save (j := j) hafter rfl
  have hdone := hsave.last hafter
  have hend : ∀ u, Versions (After v (v.created P dir name ino par j)) u → CrashSafe u :=
    fun u hu => h.crashSafe_of_after hs hlast hu
  have happend : (v.after (takeScript P v)).after (addScript v ino) = appended P v ino :=
    (Vol.after_append v _ _).symm
  simp only [createScript, along_append, along_cons, Vol.after_append, Vol.after_cons, happend]
  refine ⟨⟨⟨along_append.mp (hadd.mono hsafe), hrec.mono hsafe⟩, hend _ hafter, hsave.mono hend⟩,
    hend _ (hdone.congr rfl rfl), along_nil⟩

end Creating

/-! ## Runs -/

/-- The images that the property is about, on a device of `N` blocks. -/
structure Recoverable (N : Nat) (img : Image) : Prop where
  number_le : ∀ k, k < img.count.toNat → (img.slot k).inodeNo.toNat ≤ img.count.toNat + 7
  number_inj : ∀ j k, j < img.count.toNat → k < img.count.toNat →
    (img.slot j).inodeNo = (img.slot k).inodeNo → j = k
  block_inj : ∀ j k, j < img.count.toNat → k < img.count.toNat →
    (img.slot j).dataBlockNumber = (img.slot k).dataBlockNumber → j = k
  zero : ∀ k, img.count.toNat ≤ k → k < 128 → img.slot k = zeroInode
  free_range : ∀ b, img.free.getLsbD b = true → 2 ≤ b ∧ b < N
  free_unowned : ∀ b k, img.free.getLsbD b = true → k < img.count.toNat →
    (img.slot k).dataBlockNumber.toNat ≠ b
  linked : Linked img

/-- Creates in directories with room, of names that fit a record and are new there,
and lookups that do not lead back to the root; nothing is interrupted. -/
def CreatesQuietly (v : Vol) (s : Step) : Prop :=
  s.1.Uninterrupted ∧
    match s.2 with
    | .create dir name _ | .mkdir dir name _ =>
        name.bytes.length < simplefsFilenameMaxlen ∧ ∀ par, v.priv dir = some par →
          sIsdir par.mode = true ∧ par.dirChildrenCount.toNat < 16 ∧
          ∀ r, r < par.dirChildrenCount.toNat →
            filenameMatches (v.cache par.dataBlockNumber.toNat) r name.bytes = false
    | .lookup dir name => ∀ par, v.priv dir = some par → sIsdir par.mode = true ∧
        ∀ r, v.findRecord par name = .ok (some r) →
          v.cache.recordNo par r ≠ simplefsRootdirInodeNumber
    | _ => False

section Runs

variable {P : Platform} {hi : Nat} {v : Vol} {w : Outside}

theorem Settled.create (h : Settled hi v) (hhi : hi ≤ 31) (hw : w.Uninterrupted) {dir : Path}
    {name : Name} {mode : U32} (hname : name.bytes.length < simplefsFilenameMaxlen)
    (hdir : ∀ par, v.priv dir = some par →
      sIsdir par.mode = true ∧ par.dirChildrenCount.toNat < 16)
    (habsent : v.dcache (name :: dir) = none) :
    CreateOk P CrashSafe w AnyFault dir name mode (fun _ v' => Settled hi v') v := by
  refine CreateOk.of_quiet hw (fun _ => trivial) (fun _ => trivial) (fun _ _ _ => trivial)
    (fun par hpar => (hdir par hpar).2) (fun _ => h) (fun _ _ _ => h) (fun _ _ => h) (fun _ _ => h)
    (fun hlt hfound => ?_) fun par hpar hlt _ hfound => ?_
  · exact (h.along_add hhi hlt hfound rfl).mono fun u hu D hD =>
      h.crashSafe_of_before hlt (hu.durable hD)
  · have hcoherent := h.coherent hlt
    obtain ⟨j, hj, hslot⟩ := hcoherent.copy dir par hpar
    have hc : Creating P hi v dir name (newInode P v mode (w.answer .slab)) par j :=
      ⟨hcoherent, hhi, hlt, hfound, ⟨mode, _, rfl⟩, hj, hslot, hpar, (hdir par hpar).1,
        (hdir par hpar).2, hname, habsent⟩
    refine ⟨hc.block_ge, j, ⟨hj, by rw [hslot], fun i hi heq => ?_⟩, hc.along_crashSafe h,
      hc.settled h⟩
    have := h.tables.number_inj i j (by omega) hj (by rw [heq, hslot])
    omega

theorem Settled.lookup (h : Settled hi v) {dir : Path} {name : Name}
    (hdir : ∀ par, v.priv dir = some par → sIsdir par.mode = true ∧
      ∀ r, v.findRecord par name = .ok (some r) →
        v.cache.recordNo par r ≠ simplefsRootdirInodeNumber)
    (habsent : v.dcache (name :: dir) = none) :
    LookupOk P CrashSafe AnyFault dir name (fun _ v' => Settled hi v') v where
  bug := fun _ => trivial
  null := fun _ => trivial
  noBuffer := fun _ _ _ => trivial
  overflow := fun _ _ _ _ => trivial
  absent := fun _ _ _ => h
  fault := fun _ _ _ _ _ _ => trivial
  noInode := fun _ _ _ _ _ => trivial
  found := by
    intro par r ino hpar hrec hget
    have hadd : Settled hi (v.dAdd (name :: dir) (igetInode (v.cache.recordNo par r) ino)) := by
      refine ⟨h.tables, h.linked, h.zero, h.synced, fun hlt => ?_⟩
      have hlt' : v.cache.count.toNat < 64 := hlt
      obtain ⟨hisdir, hne⟩ := hdir par hpar
      exact (h.coherent hlt').lookup (by omega) hpar hisdir habsent hrec (hne r hrec) hget
    exact ⟨hadd.crashSafe, hadd⟩

theorem settled_step (hhi : hi ≤ 31) {s : Step} (h : Settled hi v) (hs : CreatesQuietly v s) :
    vwp CrashSafe s.1 AnyFault (s.2.prog P) (fun _ v' => Settled hi v') v := by
  obtain ⟨w, c⟩ := s
  obtain ⟨hw, hc⟩ := hs
  have hcreate : ∀ dir (name : Name) mode, name.bytes.length < simplefsFilenameMaxlen →
      (∀ par, v.priv dir = some par →
        sIsdir par.mode = true ∧ par.dirChildrenCount.toNat < 16) →
      vwp CrashSafe w AnyFault (vfsCreate dir name (simplefsCreateFsObject P dir name mode))
        (fun _ v' => Settled hi v') v := by
    intro dir name mode hname hdir
    refine vwp_vfsCreate (fun _ => h) (fun _ _ _ => h) (fun _ _ => h) fun _ _ _ habsent => ?_
    exact vwp_simplefsCreateFsObject h.crashSafe (h.create hhi hw hname hdir habsent)
  cases c with
  | create dir name mode =>
      exact hcreate dir name mode hc.1 fun par hpar => ⟨(hc.2 par hpar).1, (hc.2 par hpar).2.1⟩
  | mkdir dir name mode =>
      exact hcreate dir name _ hc.1 fun par hpar => ⟨(hc.2 par hpar).1, (hc.2 par hpar).2.1⟩
  | lookup dir name =>
      exact vwp_vfsLookup h.crashSafe (fun _ => h) (fun _ _ _ => h) (fun _ _ => h)
        fun _ _ _ habsent => h.lookup hc habsent
  | iterate dir ctx => exact hc.elim
  | read file len pos => exact hc.elim
  | write file buf len pos => exact hc.elim
  | remount => exact hc.elim

theorem Recoverable.settled {img : Image} (h : Recoverable hi img)
    (hdata : ∀ k, k < img.count.toNat → 2 ≤ (img.slot k).dataBlockNumber.toNat) :
    Settled hi (mount P img).mem.toVol := by
  have htables : Tables hi img :=
    ⟨h.number_le, h.number_inj, hdata, h.block_inj, h.free_range, h.free_unowned⟩
  rcases mount_cases P img with hm | ⟨r, hr, hm⟩
  · rw [hm]
    refine ⟨htables, h.linked, h.zero, fun _ => rfl, fun _ => ⟨htables, h.linked, ?_, ?_, ?_⟩⟩
    · intro p i hp
      cases hp
    · intro i hi
      cases hi
    · intro n p d hd
      cases hd
  · rw [hm]
    exact ⟨htables, h.linked, h.zero, fun _ => rfl, fun _ => .mounted htables h.linked hr⟩

end Runs

/-- A crash at any point of any run of creates leaves a consistent image, if no data
block of the image is the super block or the inode store. -/
theorem creates_survive_crashes (P : Platform) (hN : P.nrBlocks ≤ 31) (img : Image)
    (h : Recoverable P.nrBlocks img)
    (hdata : ∀ k, k < img.count.toNat → 2 ≤ (img.slot k).dataBlockNumber.toNat)
    (steps : List Step) (hs : Issues P CreatesQuietly steps (mount P img)) :
    ∀ m ∈ states P steps (mount P img), ∀ D, Durable m.mem.toVol D → Consistent D := by
  have hrun := vwp_runs (fun _ hJ => Settled.crashSafe hJ)
    (fun v s => settled_step (P := P) hN (v := v) (s := s)) (h.settled hdata) hs
  exact fun m hm => hrun.1 m hm

theorem emptyRoot_recoverable : Recoverable 16 emptyRoot := by
  have hlists : ∀ a r, ¬ emptyRoot.Lists a r := by
    rintro a r ⟨ha, -, hr⟩
    rw [emptyRoot_zero ha, emptyRoot_slot] at hr
    exact Nat.not_lt_zero r hr
  refine ⟨fun k hk => ?_, fun j k hj hk _ => ?_, fun j k hj hk _ => ?_, fun k hge hlt => ?_,
    fun b hb => ?_, fun b k hb hk => ?_,
    ⟨fun a r h => absurd h (hlists a r), fun a _ r _ h => absurd h (hlists a r)⟩⟩
  · rw [emptyRoot_zero hk, emptyRoot_slot, emptyRoot_count]
    decide
  · rw [emptyRoot_zero hj, emptyRoot_zero hk]
  · rw [emptyRoot_zero hj, emptyRoot_zero hk]
  · rw [emptyRoot_count] at hge
    have hzero : ∀ k : Fin 128, 1 ≤ k.val → emptyRoot.slot k.val = zeroInode := by decide +kernel
    exact hzero ⟨k, hlt⟩ hge
  · have := emptyRoot_free_bit hb
    omega
  · have := emptyRoot_free_bit hb
    rw [emptyRoot_zero hk, emptyRoot_slot, show (2 : U64).toNat = 2 from rfl]
    omega

/-- A directory and a file. -/
def createTwo : List Step := [(calm, .mkdir [] nameA 0), (calm, .create [nameA] nameF sIfreg)]

/-- The machine right after the first of the two calls. -/
def createTwoMiddle : Machine := (emptyRootRun [(calm, .mkdir [] nameA 0)]).mach

theorem createTwo_issues :
    Issues demoPlatform CreatesQuietly createTwo (mount demoPlatform emptyRoot) := by
  have hroot : (mount demoPlatform emptyRoot).mem.toVol.priv [] = some ⟨sIfdir, 0, 1, 2, 0⟩ := by
    decide +kernel
  have hdir : createTwoMiddle.mem.toVol.priv [nameA] = some ⟨sIfdir, 0, 9, 3, 0⟩ := by
    decide +kernel
  refine ⟨⟨fun _ => rfl, by decide, fun par hpar => ?_⟩, fun a m hm => ?_⟩
  · rw [hroot] at hpar
    cases hpar
    exact ⟨by decide, by decide, fun r hr => absurd hr (Nat.not_lt_zero r)⟩
  · have hmid : createTwoMiddle = m := by
      have hrun : emptyRootRun [(calm, .mkdir [] nameA 0)] = .done [a] m := by
        show ((Call.prog demoPlatform (.mkdir [] nameA 0)).run calm 0
          (mount demoPlatform emptyRoot)).bind _ = _
        rw [hm]
        rfl
      unfold createTwoMiddle
      rw [hrun]
      rfl
    rw [← hmid]
    refine ⟨⟨fun _ => rfl, by decide, fun par hpar => ?_⟩, fun _ _ _ => trivial⟩
    rw [hdir] at hpar
    cases hpar
    exact ⟨by decide, by decide, fun r hr => absurd hr (Nat.not_lt_zero r)⟩

theorem creates_survive_two :
    Recoverable 16 emptyRoot ∧ Consistent (emptyRootRun createTwo).mach.mem.cache := by
  refine ⟨emptyRoot_recoverable, creates_survive_crashes demoPlatform (by decide) emptyRoot
    emptyRoot_recoverable (fun k hk => ?_) createTwo createTwo_issues _
    (emptyRootRun_mem createTwo) _ fun _ => .inl rfl⟩
  rw [emptyRoot_zero hk, emptyRoot_slot]
  decide

/-- The root directory, in slot 1, has the inode store as its data block. Slot 0 is a
file with number 3 that the directory in slot 2 has a record of. -/
def rootInStore : Image
  | 0 => setFreeBlocks (setInodesCount (fun _ => 0) 3) 0xFFF0
  | 1 => putInode (putInode (putInode (fun _ => 0) 0 ⟨sIfreg, 0, 3, 3, 0⟩) 1 ⟨sIfdir, 0, 1, 1, 0⟩)
      2 ⟨sIfdir, 0, 2, 2, 1⟩
  | 2 => strcpyFilename (setRecordInodeNo (fun _ => 0) 0 3) 0 nameF.bytes
  | _ => fun _ => 0

theorem rootInStore_recoverable : Recoverable 16 rootInStore := by
  have hcount : rootInStore.count.toNat = 3 := by decide +kernel
  have hslots : ∀ j k : Fin 3, (rootInStore.slot k).inodeNo.toNat ≤ 10 ∧
      ((rootInStore.slot j).inodeNo = (rootInStore.slot k).inodeNo → j = k) ∧
      ((rootInStore.slot j).dataBlockNumber = (rootInStore.slot k).dataBlockNumber → j = k) ∧
      (rootInStore.slot k).dataBlockNumber.toNat < 4 := by
    decide +kernel
  have hzero : ∀ k : Fin 128, 3 ≤ k.val → rootInStore.slot k.val = zeroInode := by decide +kernel
  have hfree : ∀ b : Fin 64, rootInStore.free.getLsbD b.val = true → 4 ≤ b.val ∧ b.val < 16 := by
    decide +kernel
  have hbit : ∀ b, rootInStore.free.getLsbD b = true → 4 ≤ b ∧ b < 16 := fun b hb =>
    hfree ⟨b, BitVec.lt_of_getLsbD hb⟩ hb
  have hdirs : ∀ a : Fin 3, sIsdir (rootInStore.slot a).mode = true →
      (rootInStore.slot a).dirChildrenCount = 0 ∨
        a.val = 2 ∧ (rootInStore.slot a).dirChildrenCount = 1 := by
    decide +kernel
  have hlists : ∀ a r, rootInStore.Lists a r → a = 2 ∧ r = 0 := by
    rintro a r ⟨ha, hdir, hr⟩
    rw [hcount] at ha
    rcases hdirs ⟨a, ha⟩ hdir with h0 | ⟨h2, h1⟩
    · rw [h0] at hr
      exact absurd hr (Nat.not_lt_zero r)
    · rw [h1, show (1 : U64).toNat = 1 from rfl] at hr
      exact ⟨h2, by omega⟩
  refine ⟨fun k hk => ?_, fun j k hj hk h => ?_, fun j k hj hk h => ?_, fun k hge hlt => ?_,
    fun b hb => ?_, fun b k hb hk => ?_, ⟨fun a r h => ?_, fun a b r s h h' _ => ?_⟩⟩
  · rw [hcount] at hk ⊢
    exact (hslots ⟨k, hk⟩ ⟨k, hk⟩).1
  · rw [hcount] at hj hk
    exact congrArg Fin.val ((hslots ⟨j, hj⟩ ⟨k, hk⟩).2.1 h)
  · rw [hcount] at hj hk
    exact congrArg Fin.val ((hslots ⟨j, hj⟩ ⟨k, hk⟩).2.2.1 h)
  · rw [hcount] at hge
    exact hzero ⟨k, hlt⟩ hge
  · have := hbit b hb
    omega
  · rw [hcount] at hk
    have := hbit b hb
    have hblk : (rootInStore.slot k).dataBlockNumber.toNat < 4 := (hslots ⟨k, hk⟩ ⟨k, hk⟩).2.2.2
    omega
  · obtain ⟨rfl, rfl⟩ := hlists a r h
    exact ⟨0, by decide +kernel, by decide +kernel⟩
  · obtain ⟨rfl, rfl⟩ := hlists a r h
    obtain ⟨rfl, rfl⟩ := hlists b s h'
    exact ⟨rfl, rfl⟩

/-- A name of eight letters: `strcpy` writes nine bytes. -/
def longName : Name where
  bytes := List.replicate 8 0x61
  nonempty := by decide
  short := by decide
  noNul := by decide
  noSlash := by decide

def createInStore : List Step := [(calm, .create [] longName sIfreg)]

/-- The run of this create. -/
def storeRun : Outcome Mem Mutex Fault (List Res) :=
  outcome demoPlatform createInStore (mount demoPlatform rootInStore)

/-- The record of the new file overwrites slot 0: its number is 0 afterwards, and the
record that named number 3 names nothing. -/
theorem record_in_the_inode_store :
    Recoverable 16 rootInStore ∧
      Issues demoPlatform CreatesQuietly createInStore (mount demoPlatform rootInStore) ∧
      ∃ m ∈ states demoPlatform createInStore (mount demoPlatform rootInStore),
        ∃ D, Durable m.mem.toVol D ∧ ¬ Consistent D := by
  have hroot : (mount demoPlatform rootInStore).mem.toVol.priv [] = some ⟨sIfdir, 0, 1, 1, 0⟩ := by
    decide +kernel
  refine ⟨rootInStore_recoverable, ⟨⟨fun _ => rfl, by decide, fun par hpar => ?_⟩,
    fun _ _ _ => trivial⟩, storeRun.mach, runs_mach_mem_visitsAll _ _, storeRun.mach.mem.cache,
    fun _ => .inl rfl, fun h => ?_⟩
  · rw [hroot] at hpar
    cases hpar
    exact ⟨by decide, by decide, fun r hr => absurd hr (Nat.not_lt_zero r)⟩
  · obtain ⟨hcount, hslot, hentry⟩ : storeRun.mach.mem.cache.count.toNat = 4 ∧
        storeRun.mach.mem.cache.slot 2 = ⟨sIfdir, 0, 2, 2, 1⟩ ∧
        storeRun.mach.mem.cache.entry 2 0 = 3 := by
      decide +kernel
    have hnone : ∀ k : Fin 4, (storeRun.mach.mem.cache.slot k.val).inodeNo ≠ 3 := by decide +kernel
    obtain ⟨k, hk⟩ := h.refers 2 0 ⟨by rw [hcount]; decide, by rw [hslot]; decide,
      by rw [hslot]; decide⟩
    have hlt := hk.lt
    rw [hcount] at hlt
    exact hnone ⟨k, hlt⟩ (hk.number.trans hentry)

end Lkm.Simplefs
