import Mathlib.Data.List.Infix
import Mathlib.Data.List.Nodup
import Lkm.Base.Protocol
import Lkm.Simplefs.Format

/-!
# Appending to the inode store

`simplefs_create_fs_object` reads `inodes_count` long before
`simplefs_inode_add` appends the new inode, and between the two it waits for
other mutexes. Two of the three mutexes make this safe, whatever is
interrupted:

* `simplefs_directory_children_update_lock` is held from before the count is read
  until after the append, and only its holder appends: the count does not move
  under a create (`TableSafe.dir`);
* `simplefs_inodes_mgmt_lock` is held around every change to block 1, the
  search for the slot in `simplefs_inode_save` included (`TableSafe.store`).

`simplefs_sb_lock` is of no use to the argument: an interrupted
`simplefs_sb_get_a_freeblock` unlocks it for somebody else. Nor is it needed that
`simplefs_inodes_mgmt_lock` is given back; after an interrupted
`simplefs_inode_add` it never is.
-/

namespace Lkm.Simplefs

open Base

/-! ## The protocol -/

/-- The data of no inode is in the super block or the inode store. -/
def DataBlock (i : SimplefsInode) : Prop := 2 ≤ i.dataBlockNumber.toNat

/-- What holds in every state. -/
structure TableInv (m : Machine) : Prop where
  inodes : Inodes DataBlock (fun _ _ => True) m.mem.toVol
  ge : 3 + m.mem.appends ≤ m.mem.cache.count.toNat
  le : m.mem.cache.count.toNat ≤ 3 + m.mem.appends + if m.mem.appending then 1 else 0
  idle : m.owner .directoryChildrenUpdate = none → m.mem.appending = false

/-- The inode behind `p` is in memory and has the number `n`. -/
def HasNo (p : Path) (n : U64) (m : Machine) : Prop :=
  ∃ i, m.mem.priv p = some i ∧ i.inodeNo = n

/-- What a step leaves to a thread `t` that did not take it. -/
structure TableSafe (t : Nat) (m m' : Machine) : Prop where
  own : ∀ x, x ≠ .sb → (m.owner x = some t ↔ m'.owner x = some t)
  dir : m.owner .directoryChildrenUpdate = some t → m'.mem.cache.count = m.mem.cache.count ∧
    m'.mem.appending = m.mem.appending ∧ m'.mem.appends = m.mem.appends
  store : m.owner .inodesMgmt = some t → m'.mem.cache 1 = m.mem.cache 1
  numbers : ∀ p n, HasNo p n m → HasNo p n m'
  grows : m.mem.cache.count.toNat ≤ m'.mem.cache.count.toNat

theorem TableSafe.refl (t : Nat) (m : Machine) : TableSafe t m m :=
  ⟨fun _ _ => Iff.rfl, fun _ => ⟨rfl, rfl, rfl⟩, fun _ => rfl, fun _ _ h => h, Nat.le_refl _⟩

theorem TableSafe.trans {t : Nat} {m₁ m₂ m₃ : Machine} (h₁ : TableSafe t m₁ m₂)
    (h₂ : TableSafe t m₂ m₃) : TableSafe t m₁ m₃ := by
  refine ⟨fun x hx => (h₁.own x hx).trans (h₂.own x hx), fun hd => ?_, fun hs => ?_,
    fun p n h => h₂.numbers p n (h₁.numbers p n h), Nat.le_trans h₁.grows h₂.grows⟩
  · obtain ⟨hc, hb, ha⟩ := h₁.dir hd
    obtain ⟨hc', hb', ha'⟩ := h₂.dir ((h₁.own _ (by decide)).mp hd)
    exact ⟨hc'.trans hc, hb'.trans hb, ha'.trans ha⟩
  · exact (h₂.store ((h₁.own _ (by decide)).mp hs)).trans (h₁.store hs)

/-- The protocol between the threads. -/
def tableProtocol : Protocol Mem Mutex where
  inv := TableInv
  safe := TableSafe
  refl := TableSafe.refl
  trans := fun _ _ _ _ => TableSafe.trans

/-- The triples of this module. -/
abbrev Tri (t : Nat) {α : Type} (A : Machine → Prop) (p : Sfs α) (Q : α → Machine → Prop) : Prop :=
  tableProtocol.Triple t A p Q

/-! ## What a thread knows -/

section Assertions

variable {t : Nat}

/-- Thread `t` holds the directory lock and knows the count and the books. -/
structure Dir (t : Nat) (c : U64) (appends : Nat) (appending : Bool) (m : Machine) : Prop where
  own : m.owner .directoryChildrenUpdate = some t
  count : m.mem.cache.count = c
  appends : m.mem.appends = appends
  appending : m.mem.appending = appending

/-- It does not hold it. -/
def NoDir (t : Nat) (m : Machine) : Prop := m.owner .directoryChildrenUpdate ≠ some t

/-- It holds the lock of the inode store. -/
def Mgmt (t : Nat) (m : Machine) : Prop := m.owner .inodesMgmt = some t

/-- And knows the inode store. -/
def Store (t : Nat) (s : Buf) (m : Machine) : Prop := Mgmt t m ∧ m.mem.cache 1 = s

theorem mgmt_stable : tableProtocol.Stable t (Mgmt t) := by
  intro m m' hs h
  exact (hs.own _ (by decide)).mp h

theorem store_stable (s : Buf) : tableProtocol.Stable t (Store t s) := by
  intro m m' hs h
  exact ⟨mgmt_stable m m' hs h.1, (hs.store h.1).trans h.2⟩

theorem hasNo_stable (p : Path) (n : U64) : tableProtocol.Stable t (HasNo p n) := by
  intro m m' hs h
  exact hs.numbers p n h

/-- An assertion about the directory lock, the count and the books alone: other
threads do not disturb it, and neither does what `t` does to anything else. -/
structure Outer (t : Nat) (A : Machine → Prop) : Prop where
  stable : tableProtocol.Stable t A
  congr : ∀ m m', m'.owner .directoryChildrenUpdate = m.owner .directoryChildrenUpdate →
    m'.mem.cache.count = m.mem.cache.count → m'.mem.appending = m.mem.appending →
    m'.mem.appends = m.mem.appends → A m → A m'

theorem outer_dir (c : U64) (a : Nat) (b : Bool) : Outer t (Dir t c a b) where
  stable := by
    intro m m' hs h
    obtain ⟨hc, hb, ha⟩ := hs.dir h.own
    exact ⟨(hs.own _ (by decide)).mp h.own, hc.trans h.count, ha.trans h.appends,
      hb.trans h.appending⟩
  congr := by
    intro m m' ho hc hb ha h
    exact ⟨ho.trans h.own, hc.trans h.count, ha.trans h.appends, hb.trans h.appending⟩

theorem outer_noDir : Outer t (NoDir t) where
  stable := by
    intro m m' hs h hown
    exact h ((hs.own _ (by decide)).mpr hown)
  congr := by
    intro m m' ho _ _ _ h hown
    exact h (ho ▸ hown)

end Assertions

/-! ## Steps -/

section Steps

variable {t : Nat} {A : Machine → Prop}

/-- An update that leaves the count, the inode store, the books and the numbers of
the inodes in memory alone. -/
structure Quiet (s s' : Mem) : Prop where
  count : s'.cache.count = s.cache.count
  store : s'.cache 1 = s.cache 1
  appending : s'.appending = s.appending
  appends : s'.appends = s.appends
  numbers : ∀ p i, s.priv p = some i → ∃ i', s'.priv p = some i' ∧ i'.inodeNo = i.inodeNo

theorem Quiet.safe {m : Machine} {f : Mem → Mem} (h : Quiet m.mem (f m.mem)) (u : Nat) :
    TableSafe u m (m.upd f) := by
  refine ⟨fun _ _ => Iff.rfl, fun _ => ⟨h.count, h.appending, h.appends⟩, fun _ => h.store,
    fun p n hn => ?_, ?_⟩
  · obtain ⟨i, hi, rfl⟩ := hn
    exact h.numbers p i hi
  · show m.mem.cache.count.toNat ≤ (f m.mem).cache.count.toNat
    rw [h.count]

/-- A quiet update is a step of the protocol; it keeps whatever is stable. -/
theorem Quiet.step {m : Machine} {f : Mem → Mem} (h : Quiet m.mem (f m.mem))
    (hA : tableProtocol.Stable t A) (hinv : TableInv m) (hm : A m)
    (hinodes : Inodes DataBlock (fun _ _ => True) (f m.mem).toVol) :
    tableProtocol.Step t m (m.upd f) A where
  inv := by
    refine ⟨hinodes, ?_, ?_, ?_⟩
    · show 3 + (f m.mem).appends ≤ (f m.mem).cache.count.toNat
      rw [h.appends, h.count]
      exact hinv.ge
    · show (f m.mem).cache.count.toNat ≤ 3 + (f m.mem).appends + if (f m.mem).appending then 1 else 0
      rw [h.appends, h.count, h.appending]
      exact hinv.le
    · intro hfree
      exact h.appending.trans (hinv.idle hfree)
  safe := fun u _ => h.safe u
  post := hA m _ (h.safe t) hm

/-- Only the inode store changes, by its holder, and nothing about its numbers. -/
theorem putSlot_step {m : Machine} (hA : Outer t A) (hinv : TableInv m) (hm : A m ∧ Mgmt t m)
    (k : Nat) {ino : SimplefsInode} (hino : DataBlock ino)
    (hno : k < m.mem.cache.count.toNat → (m.mem.cache.slot k).inodeNo = ino.inodeNo) :
    tableProtocol.Step t m (m.upd (Mem.onVol (·.putSlot k ino))) fun m' =>
      (A m' ∧ Mgmt t m') ∧ m'.mem.cache.slot k = ino := by
  have hcount : (m.mem.toVol.putSlot k ino).cache.count = m.mem.cache.count := Vol.putSlot_count _
  refine ⟨⟨hinv.inodes.putSlot k hino hno, ?_, ?_, hinv.idle⟩, fun u hu => ?_, ⟨?_, hm.2⟩, ?_⟩
  · show 3 + m.mem.appends ≤ (m.mem.toVol.putSlot k ino).cache.count.toNat
    rw [hcount]
    exact hinv.ge
  · show (m.mem.toVol.putSlot k ino).cache.count.toNat ≤ _
    rw [hcount]
    exact hinv.le
  · refine ⟨fun _ _ => Iff.rfl, fun _ => ⟨hcount, rfl, rfl⟩, fun hown => ?_, fun _ _ h => h,
      Nat.le_of_eq (congrArg BitVec.toNat hcount.symm)⟩
    exact absurd (Option.some.inj (hown.symm.trans hm.2)) hu
  · exact hA.congr m _ rfl hcount rfl rfl hm.1
  · exact Vol.putSlot_slot_self _

/-- Taking a free mutex. -/
theorem acquire_step {m : Machine} {x : Mutex} {B : Machine → Prop} (hinv : TableInv m)
    (hfree : m.owner x = none) (hpost : B (m.acquire t x)) :
    tableProtocol.Step t m (m.acquire t x) B where
  inv := by
    refine ⟨hinv.inodes, hinv.ge, hinv.le, fun hnone => hinv.idle ?_⟩
    by_cases hx : x = .directoryChildrenUpdate
    · rw [← hx]
      exact hfree
    · simpa [Ne.symm hx] using hnone
  safe := by
    intro u hu
    refine ⟨fun y _ => ?_, fun _ => ⟨rfl, rfl, rfl⟩, fun _ => rfl, fun _ _ h => h, Nat.le_refl _⟩
    by_cases hy : y = x
    · subst hy
      simp [hfree, Ne.symm hu]
    · simp [hy]
  post := hpost

/-- Dropping a mutex: one's own, or `simplefs_sb_lock`, whoever holds it. -/
theorem release_step {m : Machine} {x : Mutex} {B : Machine → Prop} (hinv : TableInv m)
    (hx : x ≠ .sb → m.owner x = some t)
    (hidle : x = .directoryChildrenUpdate → m.mem.appending = false) (hpost : B (m.release x)) :
    tableProtocol.Step t m (m.release x) B where
  inv := by
    refine ⟨hinv.inodes, hinv.ge, hinv.le, fun hnone => ?_⟩
    by_cases hdir : x = .directoryChildrenUpdate
    · exact hidle hdir
    · exact hinv.idle (by simpa [Ne.symm hdir] using hnone)
  safe := by
    intro u hu
    refine ⟨fun y hy => ?_, fun _ => ⟨rfl, rfl, rfl⟩, fun _ => rfl, fun _ _ h => h, Nat.le_refl _⟩
    by_cases hyx : y = x
    · subst hyx
      simp [hx hy, Ne.symm hu]
    · simp [hyx]
  post := hpost

/-- A holder of the directory lock may change the count and the books. -/
theorem Dir.others {m : Machine} {c : U64} {a : Nat} {b : Bool} (hm : Dir t c a b m)
    (m' : Machine) (howner : m'.owner = m.owner) (hstore : m'.mem.cache 1 = m.mem.cache 1)
    (hdcache : m'.mem.dcache = m.mem.dcache)
    (hgrows : m.mem.cache.count.toNat ≤ m'.mem.cache.count.toNat) {u : Nat} (hu : u ≠ t) :
    TableSafe u m m' := by
  refine ⟨fun x _ => ?_, fun h => ?_, fun _ => hstore, fun p n h => ?_, hgrows⟩
  · rw [howner]
  · exact absurd (Option.some.inj (h.symm.trans hm.own)) hu
  · obtain ⟨i, hi, hno⟩ := h
    refine ⟨i, ?_, hno⟩
    unfold Vol.priv at hi ⊢
    rwa [hdcache]

/-- The update in `simplefs_inode_add` begins: the books are in order. -/
theorem beginAppend_step {m : Machine} {c : U64} {a : Nat} (hinv : TableInv m)
    (hm : Dir t c a false m ∧ Mgmt t m) :
    tableProtocol.Step t m (m.upd Mem.beginAppend) fun m' =>
      c.toNat = 3 + a ∧ Dir t c a true m' ∧ Mgmt t m' := by
  obtain ⟨hdir, hmgmt⟩ := hm
  have hge := hinv.ge
  have hle := hinv.le
  rw [hdir.count, hdir.appends] at hge
  rw [hdir.appending, hdir.count, hdir.appends] at hle
  simp only [Bool.false_eq_true, if_false, Nat.add_zero] at hle
  refine ⟨⟨hinv.inodes, hinv.ge, ?_, fun hnone => ?_⟩,
    fun u hu => hdir.others (m.upd Mem.beginAppend) rfl rfl rfl (Nat.le_refl _) hu, Nat.le_antisymm hle hge,
    ⟨hdir.own, hdir.count, hdir.appends, rfl⟩, hmgmt⟩
  · show m.mem.cache.count.toNat ≤ 3 + m.mem.appends + 1
    rw [hdir.count, hdir.appends]
    omega
  · exact absurd (hnone.symm.trans hdir.own) (by simp)

/-- The count goes up over the slot that was filled. -/
theorem setCount_step {m : Machine} {c : U64} {a : Nat} {store : Buf} {ino : SimplefsInode}
    (hinv : TableInv m) (hm : Dir t c a true m ∧ Store t store m) (hlt : c.toNat < 64)
    (hbooks : c.toNat = 3 + a) (hslot : inodeAt store c.toNat = ino) (hblock : DataBlock ino)
    (hno : ino.inodeNo = slotNo c.toNat) :
    tableProtocol.Step t m (m.upd (Mem.onVol (·.setCount (c + 1)))) fun m' =>
      Dir t (c + 1) a true m' ∧ Mgmt t m' := by
  obtain ⟨hdir, hmgmt, hcache⟩ := hm
  have hsucc : (c + 1).toNat = c.toNat + 1 := by bv_omega
  have hslot' : m.mem.cache.slot c.toNat = ino := by
    unfold Image.slot
    rw [hcache, hslot]
  have hinodes : Inodes DataBlock (fun _ _ => True)
      (m.mem.toVol.setCount (m.mem.cache.count + 1)) := by
    refine hinv.inodes.setCount ?_ ?_ ?_ trivial
    · rw [hdir.count]
      exact hlt
    · rw [hdir.count, hslot']
      exact hblock
    · rw [hdir.count, hslot']
      exact hno
  rw [hdir.count] at hinodes
  have hnew : (m.mem.toVol.setCount (c + 1)).cache.count = c + 1 := Vol.setCount_count _
  refine ⟨⟨hinodes, ?_, ?_, fun hnone => ?_⟩,
    fun u hu => hdir.others (m.upd (Mem.onVol (·.setCount (c + 1)))) rfl
      (Vol.setCount_cache_ne _ (by decide)) rfl ?_ hu,
    ⟨hdir.own, hnew, hdir.appends, hdir.appending⟩, hmgmt⟩
  · show 3 + m.mem.appends ≤ (m.mem.toVol.setCount (c + 1)).cache.count.toNat
    rw [hnew, hsucc, hdir.appends]
    omega
  · show (m.mem.toVol.setCount (c + 1)).cache.count.toNat ≤
      3 + m.mem.appends + if m.mem.appending then 1 else 0
    rw [hnew, hsucc, hdir.appends, hdir.appending, if_pos rfl]
    omega
  · exact absurd (hnone.symm.trans hdir.own) (by simp)
  · show m.mem.cache.count.toNat ≤ (m.mem.toVol.setCount (c + 1)).cache.count.toNat
    rw [hnew, hsucc, hdir.count]
    exact Nat.le_succ _

/-- The update is complete. -/
theorem endAppend_step {m : Machine} {c : U64} {a : Nat} (hinv : TableInv m)
    (hm : Dir t c a true m ∧ Mgmt t m) (hbooks : c.toNat = 3 + a + 1) :
    tableProtocol.Step t m (m.upd Mem.endAppend) fun m' => Dir t c (a + 1) false m' ∧ Mgmt t m' := by
  obtain ⟨hdir, hmgmt⟩ := hm
  refine ⟨⟨hinv.inodes, ?_, ?_, fun _ => rfl⟩,
    fun u hu => hdir.others (m.upd Mem.endAppend) rfl rfl rfl (Nat.le_refl _) hu,
    ⟨hdir.own, hdir.count, congrArg (· + 1) hdir.appends, rfl⟩, hmgmt⟩
  · show 3 + (m.mem.appends + 1) ≤ m.mem.cache.count.toNat
    rw [hdir.count, hdir.appends]
    omega
  · show m.mem.cache.count.toNat ≤ 3 + (m.mem.appends + 1) + 0
    rw [hdir.count, hdir.appends]
    omega

end Steps

/-! ## Rules -/

section Rules

variable {t : Nat} {A B : Machine → Prop} {α β : Type}

theorem tri_pure {Q : α → Machine → Prop} (a : α) (h : ∀ m, A m → Q a m) : Tri t A (pure a) Q :=
  Protocol.triple_ret a h

theorem tri_bind {p : Sfs α} {f : α → Sfs β} {R : α → Machine → Prop} {Q : β → Machine → Prop}
    (hp : Tri t A p R) (hf : ∀ a, Tri t (R a) (f a) Q) : Tri t A (p >>= f) Q :=
  Protocol.triple_bind hp hf

theorem tri_stop {Q : α → Machine → Prop} (e : Fault) : Tri t A (stop e) Q := Protocol.triple_fail

theorem tri_ite {c : Prop} [Decidable c] {p q : Sfs α} {Q : α → Machine → Prop}
    (hp : c → Tri t A p Q) (hq : ¬ c → Tri t A q Q) : Tri t A (if c then p else q) Q := by
  split
  · next h => exact hp h
  · next h => exact hq h

theorem tri_ask (hA : tableProtocol.Stable t A) (q : Query) : Tri t A (ask q) fun _ => A :=
  Protocol.triple_ask hA fun a => Protocol.triple_ret a fun _ h => h

theorem tri_readMem {Q : Mem → Machine → Prop} (hA : tableProtocol.Stable t A)
    (h : ∀ m, TableInv m → A m → Q m.mem m) : Tri t A readMem Q := by
  refine Protocol.triple_get hA fun m hinv hm => ⟨(· = m), rfl, ?_⟩
  refine Protocol.triple_ret _ fun m' hm' => ?_
  rw [hm']
  exact h m hinv hm

theorem tri_update {f : Mem → Mem} (hA : tableProtocol.Stable t A)
    (h : ∀ m, TableInv m → A m → tableProtocol.Step t m (m.upd f) B) :
    Tri t A (update f) fun _ => B :=
  Protocol.triple_act hA h (Protocol.triple_ret () fun _ hm => hm)

/-- Bookkeeping of buffers: nothing that the protocol speaks about changes. -/
theorem tri_silent {f : Mem → Mem} (hA : tableProtocol.Stable t A)
    (hcache : ∀ s, (f s).cache = s.cache) (hdcache : ∀ s, (f s).dcache = s.dcache)
    (happending : ∀ s, (f s).appending = s.appending) (happends : ∀ s, (f s).appends = s.appends) :
    Tri t A (update f) fun _ => A := by
  refine tri_update hA fun m hinv hm => Quiet.step ?_ hA hinv hm ?_
  · refine ⟨?_, ?_, happending _, happends _, fun p i hi => ⟨i, ?_, rfl⟩⟩
    · rw [hcache]
    · rw [hcache]
    · unfold Vol.priv at hi ⊢
      rwa [hdcache]
  · exact hinv.inodes.congr (hcache _) (hdcache _)

/-- A change of the volume that leaves the super block's count, the inode store and
the dentries alone. -/
theorem tri_updateVol {f : Vol → Vol} (hA : tableProtocol.Stable t A)
    (hcount : ∀ v, (f v).cache.count = v.cache.count) (hstore : ∀ v, (f v).cache 1 = v.cache 1)
    (hnumbers : ∀ v p i, v.priv p = some i → ∃ i', (f v).priv p = some i' ∧ i'.inodeNo = i.inodeNo)
    (hinodes : ∀ v, Inodes DataBlock (fun _ _ => True) v →
      Inodes DataBlock (fun _ _ => True) (f v)) : Tri t A (updateVol f) fun _ => A :=
  tri_update hA fun _ hinv hm =>
    Quiet.step ⟨hcount _, hstore _, rfl, rfl, hnumbers _⟩ hA hinv hm (hinodes _ hinv.inodes)

theorem tri_lockOr {i : Site} {p q : Sfs α} {Q : α → Machine → Prop}
    (hA : tableProtocol.Stable t A) (hB : ∀ m, A m → m.owner i.mutex = none → TableInv m →
      B (m.acquire t i.mutex)) (hp : Tri t A p Q) (hq : Tri t B q Q) :
    Tri t A (mutexLockInterruptible i >>= fun b => if b = true then p else q) Q :=
  Protocol.triple_lock hA (fun m hinv hm hfree => acquire_step hinv hfree (hB m hm hfree hinv)) hq hp

theorem tri_unlock {x : Mutex} (hA : tableProtocol.Stable t A)
    (hown : ∀ m, A m → x ≠ .sb → m.owner x = some t)
    (hidle : ∀ m, A m → x = .directoryChildrenUpdate → m.mem.appending = false)
    (hB : ∀ m, A m → B (m.release x)) : Tri t A (mutexUnlock x) fun _ => B :=
  Protocol.triple_unlock hA
    (fun m hinv hm => release_step hinv (hown m hm) (hidle m hm) (hB m hm))
    (Protocol.triple_ret () fun _ hm => hm)

/-- `simplefs_sb_lock` matters to no assertion about the rest. -/
theorem Outer.sb (hA : Outer t A) {m : Machine} {o : Option Nat} (hm : A m ∧ Mgmt t m) :
    A { m with owner := Function.update m.owner .sb o } ∧
      Mgmt t { m with owner := Function.update m.owner .sb o } :=
  ⟨hA.congr m _ rfl rfl rfl rfl hm.1, hm.2⟩

theorem tri_unlock_sb (hA : tableProtocol.Stable t A)
    (hsb : ∀ m, A m → A (m.release .sb)) : Tri t A (mutexUnlock .sb) fun _ => A :=
  tri_unlock hA (fun _ _ h => absurd rfl h) (fun _ _ h => by cases h) hsb

end Rules

/-! ## Functions that leave the table alone -/

section Quiet

variable {t : Nat} {A : Machine → Prop} (P : Platform)

theorem tri_sbBread (hA : tableProtocol.Stable t A) (b : Nat) :
    Tri t A (sbBread P b) fun _ => A := by
  refine tri_ite (fun _ => ?_) fun _ => tri_pure _ fun _ h => h
  refine tri_bind (tri_silent hA (fun _ => rfl) (fun _ => rfl) (fun _ => rfl) fun _ => rfl) ?_
  exact fun _ => tri_pure _ fun _ h => h

theorem tri_sbBreadOrBug (hA : tableProtocol.Stable t A) (b : Nat) :
    Tri t A (sbBreadOrBug P b) fun _ => A :=
  tri_bind (tri_sbBread P hA b) fun _ => tri_ite (fun _ => tri_pure _ fun _ h => h)
    fun _ => tri_stop _

theorem tri_brelse (hA : tableProtocol.Stable t A) (b : Nat) :
    Tri t A (update (·.brelse b)) fun _ => A :=
  tri_silent hA (fun _ => rfl) (fun _ => rfl) (fun _ => rfl) fun _ => rfl

theorem tri_markBufferDirty (hA : tableProtocol.Stable t A) (b : Nat) :
    Tri t A (updateVol (·.markBufferDirty b)) fun _ => A :=
  tri_silent hA (fun _ => rfl) (fun _ => rfl) (fun _ => rfl) fun _ => rfl

theorem tri_syncDirtyBuffer (hA : tableProtocol.Stable t A) (b : Nat) :
    Tri t A (updateVol (·.syncDirtyBuffer b)) fun _ => A :=
  tri_silent hA (fun _ => rfl) (fun _ => rfl) (fun _ => rfl) fun _ => rfl

theorem tri_simplefsSbSync (hA : tableProtocol.Stable t A) :
    Tri t A (simplefsSbSync P) fun _ => A :=
  tri_bind (tri_sbBreadOrBug P hA _) fun _ => tri_bind (tri_markBufferDirty hA _) fun _ =>
    tri_bind (tri_syncDirtyBuffer hA _) fun _ => tri_brelse hA _

theorem tri_inBlock (b off len : Nat) : Tri t A (inBlock b off len) fun _ => A :=
  tri_ite (fun _ => tri_pure _ fun _ h => h) fun _ => tri_stop _

theorem tri_liftFault {α : Type} (x : Except Fault α) :
    Tri t A (liftFault x) fun a m => x = .ok a ∧ A m := by
  cases x with
  | ok a => exact tri_pure a fun _ h => ⟨rfl, h⟩
  | error e => exact tri_stop e

/-- The inode behind a dentry: its block is a data block, its number stays. -/
theorem tri_simplefsInode (hA : tableProtocol.Stable t A) (p : Path) :
    Tri t A (simplefsInode p) fun i m => DataBlock i ∧ A m ∧ HasNo p i.inodeNo m := by
  refine tri_bind (R := fun s m => (∀ i, s.priv p = some i → DataBlock i ∧ HasNo p i.inodeNo m) ∧ A m)
    (tri_readMem hA fun m hinv hm => ⟨fun i hi => ⟨hinv.inodes.loaded p i hi, i, hi, rfl⟩, hm⟩)
    fun s => ?_
  cases hs : s.priv p with
  | none => exact tri_stop _
  | some i =>
      refine tri_pure i fun m hm => ?_
      obtain ⟨hblock, hno⟩ := hm.1 i rfl
      exact ⟨hblock, hm.2, hno⟩

/-- A store to a data block. -/
theorem tri_modify (hA : tableProtocol.Stable t A) {b : Nat} (hb : 2 ≤ b) (f : Buf → Buf) :
    Tri t A (updateVol (·.modify b f)) fun _ => A :=
  tri_updateVol hA (fun v => Vol.modify_count v hb)
    (fun v => Vol.modify_cache_ne v f (by omega)) (fun _ _ i hi => ⟨i, hi, rfl⟩)
    fun _ h => h.modify hb f

theorem tri_setFree (hA : tableProtocol.Stable t A) (free : U64) :
    Tri t A (updateVol (·.setFree free)) fun _ => A :=
  tri_updateVol hA (fun v => Vol.setFree_count v) (fun v => Vol.setFree_cache_ne v (by decide))
    (fun _ _ i hi => ⟨i, hi, rfl⟩) fun _ h => h.setFree trivial

/-- A field other than the number, the block and the mode changes in memory. -/
theorem tri_setPrivate (hA : tableProtocol.Stable t A) (p : Path)
    {f : SimplefsInode → SimplefsInode} (hno : ∀ i, (f i).inodeNo = i.inodeNo)
    (hblock : ∀ i, (f i).dataBlockNumber = i.dataBlockNumber) (hmode : ∀ i, (f i).mode = i.mode) :
    Tri t A (updateVol (·.setPrivate p f)) fun _ => A := by
  refine tri_updateVol hA (fun _ => rfl) (fun _ => rfl) (fun v q i hi => ?_) fun v h => ?_
  · by_cases hqp : q = p
    · subst hqp
      refine ⟨f i, ?_, hno i⟩
      rw [Vol.setPrivate_priv_self, hi]
      rfl
    · refine ⟨i, ?_, rfl⟩
      unfold Vol.priv at hi ⊢
      rwa [Vol.setPrivate_dcache_ne v f hqp]
  · refine h.setPrivate (fun i hi => ?_) hmode
    show 2 ≤ (f i).dataBlockNumber.toNat
    rw [hblock]
    exact h.loaded p i hi

theorem tri_dAdd (hA : tableProtocol.Stable t A) (p : Path) {d : Inode}
    (hblock : ∀ i, d.iPrivate = some i → DataBlock i) (htyped : d.Typed) :
    Tri t A (updateVol (·.dAdd p d)) fun _ => A := by
  refine tri_updateVol hA (fun _ => rfl) (fun _ => rfl) (fun v q i hi => ⟨i, ?_, rfl⟩)
    fun v h => h.dAdd hblock htyped
  obtain ⟨e, he, hei⟩ := Option.bind_eq_some_iff.mp hi
  refine Option.bind_eq_some_iff.mpr ⟨e, ?_, hei⟩
  by_cases hqp : q = p
  · subst hqp
    rw [Vol.dAdd_dcache_self, he]
    rfl
  · rwa [Vol.dAdd_dcache_ne v d hqp]

end Quiet

/-! ## Functions that change the inode store -/

section Table

variable {t : Nat} {A : Machine → Prop} (P : Platform)

theorem HasNo.unique {p : Path} {n n' : U64} {m : Machine} (h : HasNo p n m) (h' : HasNo p n' m) :
    n = n' := by
  obtain ⟨i, hi, rfl⟩ := h
  obtain ⟨i', hi', rfl⟩ := h'
  rw [Option.some.inj (hi.symm.trans hi')]

/-- The slot that the search found still has the number when the inode is written:
the store is locked and the number of an inode in memory does not change. -/
theorem tri_simplefsInodeSave (hA : Outer t A) (p : Path) :
    Tri t (fun m => A m ∧ Mgmt t m) (simplefsInodeSave P p) fun _ m => A m ∧ Mgmt t m := by
  have hstable := hA.stable.and mgmt_stable
  have hrel : ∀ m : Machine, A m ∧ Mgmt t m → A (m.release .sb) ∧ Mgmt t (m.release .sb) :=
    fun m hm => hA.sb hm
  refine tri_bind (tri_sbBreadOrBug P hstable _) fun _ => ?_
  refine tri_lockOr (B := fun m => A m ∧ Mgmt t m) hstable (fun m hm _ _ => hA.sb hm)
    (tri_pure _ fun _ h => h) ?_
  refine tri_bind (tri_simplefsInode hstable p) fun i => ?_
  refine Protocol.triple_fact fun _ => ?_
  have hread : tableProtocol.Stable t fun m => (A m ∧ Mgmt t m) ∧ HasNo p i.inodeNo m :=
    hstable.and (hasNo_stable p _)
  refine tri_bind (R := fun (s : Mem) m => (∀ k, simplefsInodeSearch (s.cache 0) (s.cache 1) i.inodeNo =
    .ok (some k) → (inodeAt (s.cache 1) k).inodeNo = i.inodeNo) ∧
      (A m ∧ Store t (s.cache 1) m) ∧ HasNo p i.inodeNo m)
    (tri_readMem hread fun m _ hm => ⟨fun k hk => (Vol.search_some (v := m.mem.toVol) hk).2.1,
      ⟨hm.1.1, hm.1.2, rfl⟩, hm.2⟩) fun s => ?_
  refine Protocol.triple_fact fun hfound => ?_
  refine tri_bind (tri_liftFault _) fun r => Protocol.triple_fact fun hr => ?_
  have hlocked : tableProtocol.Stable t fun m =>
      (A m ∧ Store t (s.cache 1) m) ∧ HasNo p i.inodeNo m :=
    (hA.stable.and (store_stable _)).and (hasNo_stable p _)
  cases r with
  | none =>
      refine tri_bind (Protocol.triple_mono (fun m hm => ⟨hm.1.1, hm.1.2.1⟩) (fun _ _ h => h)
        (tri_unlock_sb hstable hrel)) fun _ => ?_
      exact tri_pure _ fun _ h => h
  | some k =>
      refine tri_bind (tri_simplefsInode hlocked p) fun i' => Protocol.triple_fact fun hblock => ?_
      have hwrite : Tri t (fun m => ((A m ∧ Store t (s.cache 1) m) ∧ HasNo p i.inodeNo m) ∧
          HasNo p i'.inodeNo m) (updateVol (·.modify simplefsInodestoreBlockNumber (putInode · k i')))
          fun _ m => A m ∧ Mgmt t m := by
        refine tri_update (hlocked.and (hasNo_stable p _)) fun m hinv hm => ?_
        obtain ⟨⟨⟨hm₁, hmgmt, hstore⟩, hno⟩, hno'⟩ := hm
        have hstep := putSlot_step hA hinv ⟨hm₁, hmgmt⟩ k hblock fun _ => by
          unfold Image.slot
          rw [hstore, hfound k hr]
          exact hno.unique hno'
        exact ⟨hstep.inv, hstep.safe, hstep.post.1⟩
      refine tri_bind hwrite fun _ => tri_bind (tri_markBufferDirty hstable _) fun _ => ?_
      refine tri_bind (tri_syncDirtyBuffer hstable _) fun _ => ?_
      refine tri_bind (tri_brelse hstable _) fun _ => tri_bind (tri_unlock_sb hstable hrel) fun _ => ?_
      exact tri_pure _ fun _ h => h

/-- Taking and dropping the lock of the inode store. -/
theorem Outer.acquire_mgmt (hA : Outer t A) {m : Machine} (hm : A m) :
    A (m.acquire t .inodesMgmt) ∧ Mgmt t (m.acquire t .inodesMgmt) := by
  refine ⟨hA.congr m _ ?_ rfl rfl rfl hm, ?_⟩
  · simp
  · simp [Mgmt]

theorem tri_unlock_mgmt (hA : Outer t A) :
    Tri t (fun m => A m ∧ Mgmt t m) (mutexUnlock .inodesMgmt) fun _ => A := by
  refine tri_unlock (hA.stable.and mgmt_stable) (fun m hm _ => hm.2) (fun _ _ h => by cases h) ?_
  intro m hm
  exact hA.congr m _ (by simp) rfl rfl rfl hm.1

theorem tri_unlock_dir {c : U64} {a : Nat} :
    Tri t (Dir t c a false) (mutexUnlock .directoryChildrenUpdate) fun _ => NoDir t := by
  refine tri_unlock (outer_dir c a false).stable (fun m hm _ => hm.own) (fun m hm _ => hm.appending) ?_
  intro m hm
  simp [NoDir]

/-- The count that a create is given is the one it will append at. -/
theorem tri_simplefsSbGetObjectsCount {c : U64} {a : Nat} :
    Tri t (Dir t c a false) simplefsSbGetObjectsCount fun r m =>
      (∀ out, r = .ok out → out = c) ∧ Dir t c a false m := by
  have hdir := outer_dir (t := t) c a false
  refine tri_lockOr (B := fun m => Dir t c a false m ∧ Mgmt t m) hdir.stable
    (fun m hm _ _ => hdir.acquire_mgmt hm) (tri_pure _ fun m hm => ⟨nofun, hm⟩) ?_
  have hstable := hdir.stable.and (mgmt_stable (t := t))
  refine tri_bind (R := fun s m => s.cache.count = c ∧ Dir t c a false m ∧ Mgmt t m)
    (tri_readMem hstable fun m _ hm => ⟨hm.1.count, hm⟩) fun s => ?_
  refine Protocol.triple_fact fun hcount => tri_bind (tri_unlock_mgmt hdir) fun _ => ?_
  refine tri_pure _ fun m hm => ⟨fun out hout => ?_, hm⟩
  cases hout
  exact hcount

theorem tri_simplefsSbGetAFreeblock {c : U64} {a : Nat} :
    Tri t (Dir t c a false) (simplefsSbGetAFreeblock P) fun r m =>
      (∀ out, r = .ok out → 2 ≤ out.toNat) ∧ Dir t c a false m := by
  have hdir := outer_dir (t := t) c a false
  have hsb : ∀ (m : Machine) o, Dir t c a false m →
      Dir t c a false { m with owner := Function.update m.owner .sb o } :=
    fun m o hm => hdir.congr m _ rfl rfl rfl rfl hm
  have hfail : ∀ e : Errno, Tri t (Dir t c a false)
      (mutexUnlock .sb >>= fun _ => pure (.error e : Except Errno U64)) fun r m =>
        (∀ out, r = .ok out → 2 ≤ out.toNat) ∧ Dir t c a false m := by
    intro e
    refine tri_bind (tri_unlock_sb hdir.stable fun m hm => hsb m none hm) fun _ => ?_
    exact tri_pure _ fun m hm => ⟨nofun, hm⟩
  refine tri_lockOr (B := Dir t c a false) hdir.stable (fun m hm _ _ => hsb m _ hm) (hfail _) ?_
  refine tri_bind (R := fun s m => Dir t c a false m)
    (tri_readMem hdir.stable fun m _ hm => hm) fun s => ?_
  refine tri_ite (fun _ => hfail _) fun hfound => ?_
  refine tri_bind (R := fun _ m => Dir t c a false m)
    (tri_readMem hdir.stable fun m _ hm => hm) fun s' => ?_
  refine tri_bind (tri_setFree hdir.stable _) fun _ => ?_
  refine tri_bind (tri_simplefsSbSync P hdir.stable) fun _ => ?_
  refine tri_bind (tri_unlock_sb hdir.stable fun m hm => hsb m none hm) fun _ => ?_
  refine tri_pure _ fun m hm => ⟨fun out hout => ?_, hm⟩
  cases hout
  have hge := Vol.freeIndex_ge P s.toVol
  have hle := Vol.freeIndex_le P s.toVol
  show 2 ≤ (BitVec.ofNat 64 (s.toVol.freeIndex P)).toNat
  rw [BitVec.toNat_ofNat]
  omega

/-- The append. Until the count goes up the new slot is not part of the table. -/
theorem tri_simplefsInodeAdd {c : U64} {a : Nat} (hlt : c.toNat < 64) {ino : SimplefsInode}
    (hblock : DataBlock ino) (hno : ino.inodeNo = slotNo c.toNat) :
    Tri t (Dir t c a false) (simplefsInodeAdd P ino) fun _ m => ∃ c' a', Dir t c' a' false m := by
  have hdir := outer_dir (t := t) c a false
  refine tri_lockOr (B := fun m => Dir t c a false m ∧ Mgmt t m) hdir.stable
    (fun m hm _ _ => hdir.acquire_mgmt hm) (tri_pure _ fun m hm => ⟨c, a, hm⟩) ?_
  have hstable := hdir.stable.and (mgmt_stable (t := t))
  refine tri_bind (tri_sbBreadOrBug P hstable _) fun _ => ?_
  refine tri_lockOr (B := fun m => Dir t c a false m ∧ Mgmt t m) hstable
    (fun m hm _ _ => hdir.sb hm) (tri_pure _ fun m hm => ⟨c, a, hm.1⟩) ?_
  -- the update begins
  have hmid := outer_dir (t := t) c a true
  have hmid' := hmid.stable.and (mgmt_stable (t := t))
  refine tri_bind (tri_update hstable fun m hinv hm => beginAppend_step hinv hm) fun _ => ?_
  refine Protocol.triple_fact fun hbooks => ?_
  refine tri_bind (R := fun (s : Mem) m => s.cache.count = c ∧ Dir t c a true m ∧ Mgmt t m)
    (tri_readMem hmid' fun m _ hm => ⟨hm.1.count, hm⟩) fun s => ?_
  refine Protocol.triple_fact fun hcount => ?_
  have hslot : (inodesCount (s.cache simplefsSuperblockBlockNumber)).toNat = c.toNat :=
    congrArg BitVec.toNat hcount
  rw [hslot]
  refine tri_bind (tri_inBlock _ _ _) fun _ => ?_
  refine tri_bind (R := fun _ m => ∃ store, inodeAt store c.toNat = ino ∧
      Dir t c a true m ∧ Store t store m)
    (tri_update hmid' fun m hinv hm => ?_) fun _ => ?_
  · have hstep := putSlot_step hmid hinv hm c.toNat hblock fun h => by
      rw [hm.1.count] at h
      omega
    exact ⟨hstep.inv, hstep.safe, _, hstep.post.2, hstep.post.1.1, hstep.post.1.2, rfl⟩
  refine Protocol.triple_exists fun store => Protocol.triple_fact fun hstore => ?_
  have hlocked := hmid.stable.and (store_stable (t := t) store)
  refine tri_bind (R := fun (s : Mem) m => s.cache.count = c ∧ Dir t c a true m ∧ Store t store m)
    (tri_readMem hlocked fun m _ hm => ⟨hm.1.count, hm⟩) fun s' => ?_
  refine Protocol.triple_fact fun hcount' => ?_
  rw [show inodesCount (s'.cache simplefsSuperblockBlockNumber) = c from hcount']
  have hbump : Tri t (fun m => Dir t c a true m ∧ Store t store m) (updateVol (·.setCount (c + 1)))
      fun _ m => Dir t (c + 1) a true m ∧ Mgmt t m :=
    tri_update hlocked fun m hinv hm => setCount_step hinv hm hlt hbooks hstore hblock hno
  have hcounted := (outer_dir (t := t) (c + 1) a true).stable.and (mgmt_stable (t := t))
  refine tri_bind hbump fun _ => tri_bind (tri_markBufferDirty hcounted _) fun _ => ?_
  refine tri_bind (tri_simplefsSbSync P hcounted) fun _ => tri_bind (tri_brelse hcounted _) fun _ => ?_
  have hdone := outer_dir (t := t) (c + 1) (a + 1) false
  refine tri_bind (tri_update hcounted fun m hinv hm => endAppend_step hinv hm (by bv_omega)) fun _ => ?_
  refine tri_bind (tri_unlock_sb (hdone.stable.and mgmt_stable) fun m hm => hdone.sb hm) fun _ => ?_
  exact Protocol.triple_mono (fun _ h => h) (fun _ m hm => ⟨_, _, hm⟩) (tri_unlock_mgmt hdone)

end Table

/-! ## Calls -/

section Calls

variable {t : Nat} {A : Machine → Prop} (P : Platform)

theorem tri_linkChild {c : U64} {a : Nat} (dir : Path) (dentry : Name) {ino : SimplefsInode}
    (hblock : DataBlock ino) (htyped : (vfsInode ino).Typed) :
    Tri t (Dir t c a false) (linkChild P dir dentry ino (vfsInode ino)) fun _ => NoDir t := by
  have hdir := outer_dir (t := t) c a false
  have hexit : ∀ r : Except Errno Unit, Tri t (Dir t c a false)
      (mutexUnlock .directoryChildrenUpdate >>= fun _ => pure r) fun _ => NoDir t :=
    fun r => tri_bind tri_unlock_dir fun _ => tri_pure r fun _ h => h
  refine tri_bind (tri_simplefsInode hdir.stable dir) fun par => Protocol.triple_fact fun hpar => ?_
  refine Protocol.triple_mono (B := Dir t c a false) (fun m hm => hm.1) (fun _ _ h => h) ?_
  refine tri_bind (tri_sbBreadOrBug P hdir.stable _) fun _ => ?_
  refine tri_bind (tri_simplefsInode hdir.stable dir) fun par' => Protocol.triple_fact fun _ => ?_
  refine Protocol.triple_mono (B := Dir t c a false) (fun m hm => hm.1) (fun _ _ h => h) ?_
  refine tri_bind (tri_inBlock _ _ _) fun _ => ?_
  refine tri_bind (tri_modify hdir.stable hpar _) fun _ => ?_
  refine tri_bind (tri_modify hdir.stable hpar _) fun _ => ?_
  refine tri_bind (tri_markBufferDirty hdir.stable _) fun _ => ?_
  refine tri_bind (tri_syncDirtyBuffer hdir.stable _) fun _ => ?_
  refine tri_bind (tri_brelse hdir.stable _) fun _ => ?_
  refine tri_lockOr (B := fun m => Dir t c a false m ∧ Mgmt t m) hdir.stable
    (fun m hm _ _ => hdir.acquire_mgmt hm) (hexit _) ?_
  refine tri_bind (tri_setPrivate (hdir.stable.and mgmt_stable) dir (fun _ => rfl) (fun _ => rfl)
    fun _ => rfl) fun _ => ?_
  refine tri_bind (tri_simplefsInodeSave P hdir dir) fun r => ?_
  cases r with
  | error e => exact tri_bind (tri_unlock_mgmt hdir) fun _ => hexit _
  | ok u =>
      refine tri_bind (tri_unlock_mgmt hdir) fun _ => tri_bind tri_unlock_dir fun _ => ?_
      refine tri_bind (tri_dAdd outer_noDir.stable _ ?_ htyped) fun _ => tri_pure _ fun _ h => h
      intro i hi
      cases hi
      exact hblock

theorem tri_simplefsCreateFsObject (dir : Path) (dentry : Name) (mode : U32) :
    Tri t (NoDir t) (simplefsCreateFsObject P dir dentry mode) fun _ => NoDir t := by
  refine tri_lockOr (B := fun m => ∃ c a, (3 ≤ c.toNat ∧ c.toNat ≤ 64) ∧ Dir t c a false m)
    outer_noDir.stable (fun m hm hfree hinv => ?_) (tri_pure _ fun _ h => h) ?_
  · refine ⟨m.mem.cache.count, m.mem.appends, ⟨hinv.inodes.count_ge, hinv.inodes.count_le⟩, ?_⟩
    exact ⟨by simp [Site.mutex], rfl, rfl, hinv.idle hfree⟩
  refine Protocol.triple_exists fun c => Protocol.triple_exists fun a => ?_
  refine Protocol.triple_fact fun hc => ?_
  have hexit : ∀ e : Errno, Tri t (Dir t c a false)
      (mutexUnlock .directoryChildrenUpdate >>= fun _ => pure (.error e : Except Errno Unit))
      fun _ => NoDir t := fun e => tri_bind tri_unlock_dir fun _ => tri_pure _ fun _ h => h
  have hstable := (outer_dir (t := t) c a false).stable
  refine tri_bind tri_simplefsSbGetObjectsCount fun r => Protocol.triple_fact fun hcount => ?_
  cases r with
  | error e => exact hexit e
  | ok count =>
      cases hcount count rfl
      refine tri_ite (fun _ => hexit _) fun hroom => ?_
      refine tri_ite (fun _ => hexit _) fun hmode => ?_
      refine tri_bind (tri_ask hstable _) fun ok => tri_ite (fun _ => hexit _) fun _ => ?_
      refine tri_bind (tri_ask hstable _) fun slab => ?_
      refine tri_bind (tri_simplefsSbGetAFreeblock P) fun r => Protocol.triple_fact fun hout => ?_
      cases r with
      | error e => exact hexit e
      | ok out =>
          have hlt : c.toNat < 64 := by
            unfold simplefsMaxFilesystemObjectsSupported at hroom
            omega
          have hblock := hout out rfl
          refine tri_bind (tri_simplefsInodeAdd P hlt hblock ?_) fun _ => ?_
          · show c + 10 - 3 + 1 = slotNo c.toNat
            unfold slotNo
            rw [if_neg (by omega)]
            bv_omega
          refine Protocol.triple_exists fun c' => Protocol.triple_exists fun a' => ?_
          refine tri_linkChild P dir dentry hblock (vfsInode_typed ?_)
          simp only [Bool.and_eq_true, Bool.not_eq_true', not_and, Bool.not_eq_false] at hmode
          cases hdir : sIsdir mode with
          | true => exact .inl rfl
          | false => exact .inr (hmode hdir)

theorem tri_simplefsWrite (p : Path) (buf : Buf) (len ppos : U64) :
    Tri t (NoDir t) (simplefsWrite P p buf len ppos) fun _ => NoDir t := by
  have hno := outer_noDir (t := t)
  refine tri_bind (tri_simplefsInode hno.stable p) fun i => Protocol.triple_fact fun hblock => ?_
  refine Protocol.triple_mono (B := NoDir t) (fun m hm => hm.1) (fun _ _ h => h) ?_
  refine tri_bind (tri_sbBread P hno.stable _) fun bh => ?_
  refine tri_ite (fun _ => tri_pure _ fun _ h => h) fun _ => ?_
  refine tri_bind (tri_ask hno.stable _) fun copied => ?_
  have hcopy : Tri t (NoDir t) (copyFromUser i.dataBlockNumber.toNat ppos.toNat buf len.toNat copied)
      fun _ => NoDir t :=
    tri_ite (fun _ => tri_pure _ fun _ h => h) fun _ =>
      tri_bind (tri_inBlock _ _ _) fun _ => tri_modify hno.stable hblock _
  refine tri_bind hcopy fun _ => tri_ite (fun _ => ?_) fun _ => ?_
  · exact tri_bind (tri_brelse hno.stable _) fun _ => tri_pure _ fun _ h => h
  refine tri_bind (tri_markBufferDirty hno.stable _) fun _ => ?_
  refine tri_bind (tri_syncDirtyBuffer hno.stable _) fun _ => ?_
  refine tri_bind (tri_brelse hno.stable _) fun _ => ?_
  refine tri_lockOr (B := fun m => NoDir t m ∧ Mgmt t m) hno.stable
    (fun m hm _ _ => hno.acquire_mgmt hm) (tri_pure _ fun _ h => h) ?_
  refine tri_bind (tri_setPrivate (hno.stable.and mgmt_stable) p (fun _ => rfl) (fun _ => rfl)
    fun _ => rfl) fun _ => ?_
  refine tri_bind (tri_simplefsInodeSave P hno p) fun r => ?_
  refine tri_bind (tri_unlock_mgmt hno) fun _ => ?_
  cases r with
  | error e => exact tri_pure _ fun _ h => h
  | ok u => exact tri_pure _ fun _ h => h

/-- What a lookup puts in memory was stored. -/
theorem tri_simplefsGetInode (hA : tableProtocol.Stable t A) (no : U64) :
    Tri t A (simplefsGetInode P no) fun r m => (∀ i, r = some i → DataBlock i) ∧ A m := by
  refine tri_bind (tri_sbBreadOrBug P hA _) fun _ => ?_
  refine tri_bind (R := fun (s : Mem) m => (∀ i, s.toVol.getInode no = .ok (some i) → DataBlock i) ∧
    A m) (tri_readMem hA fun m hinv hm => ⟨fun i hi => hinv.inodes.getInode hi, hm⟩) fun s => ?_
  refine Protocol.triple_fact fun hstored => ?_
  refine tri_bind (tri_liftFault _) fun r => Protocol.triple_fact fun hr => ?_
  refine tri_bind (tri_brelse hA _) fun _ => tri_pure r fun m hm => ⟨fun i hi => ?_, hm⟩
  rw [hi] at hr
  exact hstored i hr

theorem igetInode_typed (no : U64) (ino : SimplefsInode) : (igetInode no ino).Typed := by
  intro i hi
  cases hi
  refine ⟨fun hd => hd, fun hf => ?_⟩
  simp only [igetInode] at hf
  split at hf
  · cases hf
  · split at hf
    · assumption
    · cases hf

theorem tri_simplefsLookup (hA : tableProtocol.Stable t A) (parent : Path) (name : Name) :
    Tri t A (simplefsLookup P parent name) fun _ => A := by
  refine tri_bind (tri_simplefsInode hA parent) fun par => Protocol.triple_fact fun _ => ?_
  refine Protocol.triple_mono (B := A) (fun m hm => hm.1) (fun _ _ h => h) ?_
  refine tri_bind (tri_sbBread P hA _) fun bh => tri_ite (fun _ => tri_stop _) fun _ => ?_
  refine tri_bind (R := fun (_ : Mem) m => A m) (tri_readMem hA fun m _ hm => hm) fun s => ?_
  refine tri_bind (tri_liftFault _) fun r => Protocol.triple_fact fun _ => ?_
  cases r with
  | none => exact tri_pure _ fun _ h => h
  | some k =>
      refine tri_bind (R := fun i m => (∃ no ino, DataBlock ino ∧
        { i with iMode := (i.iPrivate.map SimplefsInode.mode).getD 0 } = igetInode no ino) ∧ A m)
        ?_ fun i => Protocol.triple_fact fun hi => ?_
      · refine tri_bind (tri_simplefsGetInode P hA _) fun r => Protocol.triple_fact fun hr => ?_
        cases r with
        | none => exact tri_stop _
        | some ino => exact tri_pure _ fun m hm => ⟨⟨_, ino, hr ino rfl, rfl⟩, hm⟩
      · obtain ⟨no, ino, hblock, heq⟩ := hi
        show Tri t A (updateVol (·.dAdd (name :: parent)
          { i with iMode := (i.iPrivate.map SimplefsInode.mode).getD 0 })) _
        rw [heq]
        refine tri_dAdd hA _ (fun j hj => ?_) (igetInode_typed no ino)
        cases hj
        exact hblock

theorem tri_simplefsIterate (hA : tableProtocol.Stable t A) (p : Path) (ctx : DirContext) :
    Tri t A (simplefsIterate P p ctx) fun _ => A := by
  refine tri_ite (fun _ => tri_pure _ fun _ h => h) fun _ => ?_
  refine tri_bind (tri_simplefsInode hA p) fun i => Protocol.triple_fact fun _ => ?_
  refine Protocol.triple_mono (B := A) (fun m hm => hm.1) (fun _ _ h => h) ?_
  refine tri_ite (fun _ => tri_pure _ fun _ h => h) fun _ => ?_
  refine tri_bind (tri_sbBreadOrBug P hA _) fun _ => ?_
  refine tri_bind (R := fun (_ : Mem) m => A m) (tri_readMem hA fun m _ hm => hm) fun s => ?_
  refine tri_bind (tri_liftFault _) fun ctx' => Protocol.triple_fact fun _ => ?_
  exact tri_bind (tri_brelse hA _) fun _ => tri_pure _ fun _ h => h

theorem tri_simplefsRead (hA : tableProtocol.Stable t A) (p : Path) (len ppos : U64) :
    Tri t A (simplefsRead P p len ppos) fun _ => A := by
  have hback : ∀ b (r : Except Errno (List Byte) × U64), Tri t A
      (update (·.brelse b) >>= fun _ => pure r) fun _ => A :=
    fun b r => tri_bind (tri_brelse hA b) fun _ => tri_pure r fun _ h => h
  refine tri_bind (tri_simplefsInode hA p) fun i => Protocol.triple_fact fun _ => ?_
  refine Protocol.triple_mono (B := A) (fun m hm => hm.1) (fun _ _ h => h) ?_
  refine tri_ite (fun _ => tri_pure _ fun _ h => h) fun _ => ?_
  refine tri_bind (tri_sbBread P hA _) fun bh => tri_ite (fun _ => tri_pure _ fun _ h => h) fun _ => ?_
  refine tri_ite (fun _ => hback _ _) fun _ => tri_bind (tri_inBlock _ _ _) fun _ => ?_
  refine tri_bind (R := fun (_ : Mem) m => A m) (tri_readMem hA fun m _ hm => hm) fun s => ?_
  refine tri_bind (tri_ask hA _) fun ok => tri_ite (fun _ => hback _ _) fun _ => hback _ _

theorem tri_vfsDirectory (hA : tableProtocol.Stable t A) {dir : Path} {k : Sfs Res}
    (hk : Tri t A k fun _ => A) : Tri t A (vfsDirectory dir k) fun _ => A := by
  refine tri_bind (R := fun (_ : Mem) m => A m) (tri_readMem hA fun m _ hm => hm) fun s => ?_
  cases s.dcache dir with
  | none => exact tri_pure _ fun _ h => h
  | some d => exact tri_ite (fun _ => hk) fun _ => tri_pure _ fun _ h => h

theorem tri_vfsCreate (hA : tableProtocol.Stable t A) {dir : Path} {name : Name}
    {k : Sfs (Except Errno Unit)} (hk : Tri t A k fun _ => A) :
    Tri t A (vfsCreate dir name k) fun _ => A := by
  refine tri_vfsDirectory hA ?_
  refine tri_bind (R := fun (_ : Mem) m => A m) (tri_readMem hA fun m _ hm => hm) fun s => ?_
  cases s.dcache (name :: dir) with
  | some d => exact tri_pure _ fun _ h => h
  | none => exact tri_bind hk fun r => tri_pure _ fun _ h => h

theorem tri_vfsLookup (hA : tableProtocol.Stable t A) (dir : Path) (name : Name) :
    Tri t A (vfsLookup P dir name) fun _ => A := by
  refine tri_vfsDirectory hA ?_
  refine tri_bind (R := fun (_ : Mem) m => A m) (tri_readMem hA fun m _ hm => hm) fun s => ?_
  cases s.dcache (name :: dir) with
  | some d => exact tri_pure _ fun _ h => h
  | none =>
      refine tri_bind (tri_simplefsLookup P hA dir name) fun _ => ?_
      refine tri_bind (R := fun (_ : Mem) m => A m) (tri_readMem hA fun m _ hm => hm) fun s => ?_
      exact tri_pure _ fun _ h => h

theorem tri_vfsFile (hA : tableProtocol.Stable t A) {file : Path} {k : Sfs Res}
    (hk : Tri t A k fun _ => A) : Tri t A (vfsFile file k) fun _ => A := by
  refine tri_bind (R := fun (_ : Mem) m => A m) (tri_readMem hA fun m _ hm => hm) fun s => ?_
  cases s.dcache file with
  | none => exact tri_pure _ fun _ h => h
  | some d => exact tri_ite (fun _ => hk) fun _ => tri_pure _ fun _ h => h

/-- The calls on a mounted volume. -/
def Call.Mounted : Call → Prop
  | .remount => False
  | _ => True

theorem tri_call {call : Call} (hcall : call.Mounted) :
    Tri t (NoDir t) (call.prog P) fun _ => NoDir t := by
  have hA := (outer_noDir (t := t)).stable
  cases call with
  | create dir name mode => exact tri_vfsCreate hA (tri_simplefsCreateFsObject P _ _ _)
  | mkdir dir name mode => exact tri_vfsCreate hA (tri_simplefsCreateFsObject P _ _ _)
  | lookup dir name => exact tri_vfsLookup P hA dir name
  | iterate dir ctx =>
      exact tri_vfsDirectory hA (tri_bind (tri_simplefsIterate P hA _ _) fun r =>
        tri_pure _ fun _ h => h)
  | read file len pos =>
      exact tri_vfsFile hA (tri_bind (tri_simplefsRead P hA _ _ _) fun r => tri_pure _ fun _ h => h)
  | write file buf len pos =>
      exact tri_vfsFile hA (tri_bind (tri_simplefsWrite P _ _ _ _) fun r => tri_pure _ fun _ h => h)
  | remount => exact hcall.elim

end Calls

/-! ## Threads -/

/-- The numbers in the table, first slot first. -/
def Image.numbers (img : Image) : List U64 :=
  (List.range img.count.toNat).map fun k => (img.slot k).inodeNo

/-- Mounting takes no mutex and appends nothing. -/
theorem mount_books (P : Platform) (img : Image) :
    (mount P img).mem.appending = false ∧ (mount P img).mem.appends = 0 ∧
      ∀ x, (mount P img).owner x = none := by
  unfold mount simplefsFillSuper simplefsGetInode sbBreadOrBug sbBread
  by_cases h0 : simplefsSuperblockBlockNumber < P.nrBlocks
  · by_cases h1 : simplefsInodestoreBlockNumber < P.nrBlocks
    · simp only [if_pos h0, if_pos h1, readMem, update, Prog.act_bind, Prog.ret_bind, Prog.pure_eq,
        Prog.get_bind, if_true, Prog.run]
      generalize getInodeFrom _ _ _ _ = r
      cases r with
      | error e => exact ⟨rfl, rfl, fun _ => rfl⟩
      | ok r => exact ⟨rfl, rfl, fun _ => rfl⟩
    · simp only [if_pos h0, if_neg h1]
      exact ⟨rfl, rfl, fun _ => rfl⟩
  · simp only [if_neg h0]
    exact ⟨rfl, rfl, fun _ => rfl⟩

theorem mkfs_tableInv (P : Platform) (dev : Buf) : TableInv (mount P (mkfsImage dev)) := by
  obtain ⟨happending, happends, -⟩ := mount_books P (mkfsImage dev)
  have hinodes : Inodes DataBlock (fun _ _ => True) (mount P (mkfsImage dev)).mem.toVol :=
    mkfs_inodes P dev trivial (by unfold DataBlock; decide) (by unfold DataBlock; decide)
      (by unfold DataBlock; decide)
  have hcount : (mount P (mkfsImage dev)).mem.cache.count = 3 := by
    rcases mount_cases P (mkfsImage dev) with hm | ⟨r, -, hm⟩
    · rw [hm]
      exact mkfsImage_count dev
    · rw [hm]
      exact mkfsImage_count dev
  have hthree : (3 : U64).toNat = 3 := rfl
  refine ⟨hinodes, ?_, ?_, fun _ => happending⟩
  · rw [hcount, happends, hthree]
  · rw [hcount, happends, hthree]
    omega

theorem slotNo_inj {j k : Nat} (hj : j < 64) (hk : k < 64) (h : slotNo j = slotNo k) : j = k := by
  unfold slotNo at h
  have h' := congrArg BitVec.toNat h
  rw [BitVec.toNat_ofNat, BitVec.toNat_ofNat] at h'
  split at h' <;> split at h' <;> omega

theorem TableInv.numbers_eq {m : Machine} (h : TableInv m) :
    m.mem.cache.numbers = (List.range m.mem.cache.count.toNat).map slotNo := by
  refine List.map_congr_left fun k hk => ?_
  exact h.inodes.numbered k (List.mem_range.mp hk)

/-- A larger table has the numbers of a smaller one, and further ones behind them. -/
theorem TableInv.numbers_prefix {m m' : Machine} (h : TableInv m) (h' : TableInv m')
    (hle : m.mem.cache.count.toNat ≤ m'.mem.cache.count.toNat) :
    m.mem.cache.numbers <+: m'.mem.cache.numbers := by
  rw [h.numbers_eq, h'.numbers_eq]
  refine ⟨(List.range (m'.mem.cache.count.toNat - m.mem.cache.count.toNat)).map
    fun k => slotNo (m.mem.cache.count.toNat + k), ?_⟩
  calc (List.range m.mem.cache.count.toNat).map slotNo ++ _
      = (List.range (m.mem.cache.count.toNat +
          (m'.mem.cache.count.toNat - m.mem.cache.count.toNat))).map slotNo := by
        rw [List.range_add, List.map_append, List.map_map]
        rfl
    _ = (List.range m'.mem.cache.count.toNat).map slotNo := by
        rw [Nat.add_sub_cancel' hle]

theorem TableInv.numbers_nodup {m : Machine} (h : TableInv m) : m.mem.cache.numbers.Nodup := by
  rw [h.numbers_eq]
  refine List.Nodup.map_on (fun j hj k hk heq => ?_) List.nodup_range
  have hle := h.inodes.count_le
  rw [List.mem_range] at hj hk
  exact slotNo_inj (by omega) (by omega) heq

/-- Any number of threads, any interleaving, any interruptions: outside the update
in `simplefs_inode_add` the count is three more than the number of appends, it is at
most 64, and along the run the numbers of the table are only extended at the end
and stay distinct. -/
theorem inode_store_append_only (P : Platform) (dev : Buf)
    {c : Config Mem Mutex Site Fault Query.Answer Res}
    (hc : Config.Reach (Call.prog P) Call.Mounted (fun _ => True)
      (· = mount P (mkfsImage dev)) c) :
    (c.mach.mem.appending = false → c.mach.mem.cache.count.toNat = 3 + c.mach.mem.appends) ∧
      c.mach.mem.cache.count.toNat ≤ 64 ∧
      (mkfsImage dev).numbers <+: c.mach.mem.cache.numbers ∧ c.mach.mem.cache.numbers.Nodup ∧
      ∀ es c', (∀ t call, Event.start t call ∈ es → call.Mounted) →
        c.exec (Call.prog P) es = some c' → c.mach.mem.cache.numbers <+: c'.mach.mem.cache.numbers := by
  have hK : ∀ t, tableProtocol.Stable t (NoDir t) := fun t => outer_noDir.stable
  have hcalls : ∀ t call, Call.Mounted call → Tri t (NoDir t) (call.prog P) fun _ => NoDir t :=
    fun t call hcall => tri_call P hcall
  have hinit : ∀ m, m = mount P (mkfsImage dev) → TableInv m ∧ ∀ t, NoDir t m := by
    rintro m rfl
    refine ⟨mkfs_tableInv P dev, fun t ht => ?_⟩
    rw [(mount_books P (mkfsImage dev)).2.2] at ht
    cases ht
  have hinv : ∀ {c}, Config.Reach (Call.prog P) Call.Mounted (fun _ => True)
      (· = mount P (mkfsImage dev)) c → TableInv c.mach :=
    fun hc => (Protocol.reach hK hcalls hinit hc).1
  have h := hinv hc
  refine ⟨fun happending => ?_, h.inodes.count_le, ?_, h.numbers_nodup, fun es c' hes hexec => ?_⟩
  · have hge := h.ge
    have hle := h.le
    rw [happending] at hle
    simp only [Bool.false_eq_true, if_false] at hle
    omega
  · have hinitial := mkfs_tableInv P dev
    have himg : (mount P (mkfsImage dev)).mem.cache = mkfsImage dev := by
      rcases mount_cases P (mkfsImage dev) with hm | ⟨r, -, hm⟩
      · rw [hm]
        rfl
      · rw [hm]
        rfl
    have hprefix := hinitial.numbers_prefix h ?_
    · rwa [himg] at hprefix
    · rw [himg, mkfsImage_count]
      exact h.inodes.count_ge
  · refine h.numbers_prefix (hinv (.exec es hes hc hexec)) ?_
    exact Protocol.exec hK hcalls hinit
      (r := fun m m' => m.mem.cache.count.toNat ≤ m'.mem.cache.count.toNat) (fun _ => Nat.le_refl _)
      (fun _ _ _ h₁ h₂ => Nat.le_trans h₁ h₂) (fun u m m' hs => hs.grows) es hes hc hexec

/-- Thread 0 creates `a`. When it has read the count, thread 1 begins to create `f` and
is interrupted at its first wait; then thread 0 goes on to the end. -/
def createAround : List (Event Call Query.Answer) :=
  createToFreeblock ++ .start 1 (.create [] nameF sIfreg) ::
    .step 1 :: .step 1 :: .interrupt 1 :: .step 1 :: List.replicate 50 (.step 0)

def createAroundEnd : Option (Config Mem Mutex Site Fault Query.Answer Res) :=
  Config.exec (Call.prog demoPlatform) createAround
    ⟨fun _ => none, mount demoPlatform (mkfsImage fun _ => 0)⟩

theorem inode_store_append_only_one :
    ∃ c, Config.Reach (Call.prog demoPlatform) Call.Mounted (fun _ => True)
        (· = mount demoPlatform (mkfsImage fun _ => 0)) c ∧
      c.mach.mem.cache.count.toNat = 4 ∧ c.mach.mem.cache.numbers.Nodup := by
  have hend : createAroundEnd.map (fun c => (c.mach.mem.appending, c.mach.mem.appends)) =
      some (false, 1) := by
    decide +kernel
  obtain ⟨c, hexec, hbooks⟩ := Option.map_eq_some_iff.mp hend
  rw [Prod.mk.injEq] at hbooks
  have hcalls : ∀ t call, Event.start t call ∈ createAround → call.Mounted := by
    intro t call h
    simp only [createAround, createToFreeblock, List.replicate, List.cons_append, List.nil_append,
      List.mem_cons, Event.start.injEq, reduceCtorEq, List.not_mem_nil, false_or, or_false] at h
    rcases h with ⟨_, rfl⟩ | ⟨_, rfl⟩ <;> trivial
  have hreach : Config.Reach (Call.prog demoPlatform) Call.Mounted (fun _ => True)
      (· = mount demoPlatform (mkfsImage fun _ => 0)) c :=
    .exec createAround hcalls (.init rfl) hexec
  obtain ⟨hcount, -, -, hnodup, -⟩ := inode_store_append_only demoPlatform (fun _ => 0) hreach
  refine ⟨c, hreach, ?_, hnodup⟩
  rw [hcount hbooks.1, hbooks.2]

end Lkm.Simplefs
