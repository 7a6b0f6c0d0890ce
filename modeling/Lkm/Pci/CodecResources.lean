import Mathlib.Data.List.Perm.Basic
import Mathlib.Data.List.FinRange
import Lkm.Pci.CodecDriver

/-!
# What codec_pci holds

A `device_init` that fails after `pci_enable_device` returns with the device enabled:
neither the returns of the first loop nor the label `cleanup` disable it. (They also
leave the regions of the first loop, the vectors and the handlers, and `cleanup`
unmaps the addresses that an earlier bind left in `bars`.) So a sequence of binds is
in order exactly when each `device_init` fails at its first call or succeeds.

The proof goes over the two states between which the driver moves in such a
sequence: `Ready`, with nothing held, and `Held`, with one of everything.
-/

namespace Lkm.Pci

open Base

/-- All calls of `device_init` succeed, and both vectors are granted. -/
structure Outcome.Succeeds (o : Outcome) : Prop where
  region : ∀ i, o.region i = true
  granted : 2 ≤ o.granted
  irq0 : o.irq0 = true
  irq1 : o.irq1 = true
  mapped : ∀ i, o.addr i ≠ 0
  distinct : (allBars.map o.addr).Nodup

/-- The first call fails, or none does. -/
def Outcome.Clean (o : Outcome) : Prop := o.enable = false ∨ o.Succeeds

namespace Codec

/-- The device is disabled, and nothing is held for it. -/
structure Released (c : Codec) : Prop where
  disabled : c.enableCnt = 0
  regions : ∀ i, c.regions i = false
  vectors : c.vectors = none
  handlers : c.handlers = []
  mappings : c.mappings = []

/-- Nothing has been released that was not held, and an unbound device is released. -/
def Tidy (c : Codec) : Prop := c.misreleased = [] ∧ (c.bound = false → c.Released)

structure Ready (c : Codec) : Prop where
  released : c.Released
  misreleased : c.misreleased = []
  msiVecNum : c.msiVecNum = 2
  bound : c.bound = false

structure Held (c : Codec) : Prop where
  enableCnt : c.enableCnt = 1
  regions : ∀ i, c.regions i = true
  handlers : c.handlers = [c.msi1, c.msi0]
  msi0 : 0 ≤ c.msi0
  msi1 : 0 ≤ c.msi1
  mappings : c.mappings.Perm (allBars.map c.bars)
  bars : ∀ i, c.bars i ≠ 0
  misreleased : c.misreleased = []
  msiVecNum : c.msiVecNum = 2
  bound : c.bound = true

theorem start_ready : Ready start := by
  refine ⟨⟨rfl, ?_, rfl, rfl, rfl⟩, rfl, rfl, rfl⟩
  intro i
  rfl

theorem mem_allBars (i : Bar) : i ∈ allBars := List.mem_finRange i

theorem allBars_nodup : allBars.Nodup := List.nodup_finRange _

/-! ## The loops of `device_init` -/

theorem requestRegions_granted {ok : Bar → Bool} {is : List Bar} {c : Codec} (hnodup : is.Nodup)
    (hok : ∀ i ∈ is, ok i = true) (hfree : ∀ i ∈ is, c.regions i = false) :
    c.requestRegions ok is = (true, { c with regions := fun j => c.regions j || decide (j ∈ is) }) := by
  induction is generalizing c with
  | nil => simp [requestRegions]
  | cons i is ih =>
      obtain ⟨hi, hnodup⟩ := List.nodup_cons.mp hnodup
      obtain ⟨hoki, hok⟩ := List.forall_mem_cons.mp hok
      obtain ⟨hfreei, hfree⟩ := List.forall_mem_cons.mp hfree
      simp only [requestRegions, pciRequestRegion, hoki, hfreei, and_self, if_true]
      rw [ih hnodup hok]
      · congr 2
        funext j
        by_cases hj : j = i
        · subst hj
          simp
        · simp [hj]
      · intro j hj
        have hne : j ≠ i := by
          rintro rfl
          exact hi hj
        exact (Function.update_of_ne hne _ _).trans (hfree j hj)

theorem requestRegions_refused {ok : Bar → Bool} {is : List Bar} {c : Codec}
    (hno : ∃ i ∈ is, ok i = false) : (c.requestRegions ok is).1 = false := by
  induction is generalizing c with
  | nil => simp at hno
  | cons i is ih =>
      rw [requestRegions]
      split
      · rename_i c' hreq
        apply ih
        obtain ⟨j, hj, hno⟩ := hno
        rcases List.mem_cons.mp hj with rfl | hj
        · simp [pciRequestRegion, hno] at hreq
        · exact ⟨j, hj, hno⟩
      · rfl

theorem iomapBars_mapped {addr : Bar → Nat} {is : List Bar} {c : Codec}
    (hmapped : ∀ i ∈ is, addr i ≠ 0 ∧ addr i ∉ c.mappings) (hdistinct : (is.map addr).Nodup) :
    c.iomapBars addr is = (true, { c with
      bars := fun j => if j ∈ is then addr j else c.bars j
      mappings := (is.map addr).reverse ++ c.mappings }) := by
  induction is generalizing c with
  | nil => simp [iomapBars]
  | cons i is ih =>
      obtain ⟨⟨hnull, hfresh⟩, hmapped⟩ := List.forall_mem_cons.mp hmapped
      obtain ⟨hi, hdistinct⟩ := List.nodup_cons.mp hdistinct
      have hmap : c.pciIomap (addr i) = (addr i, { c with mappings := addr i :: c.mappings }) := by
        simp [pciIomap, hnull, hfresh]
      simp only [iomapBars, hmap, hnull, if_false]
      rw [ih _ hdistinct]
      · congr 2
        · simp
        · funext j
          by_cases hj : j = i
          · subst hj
            simp
          · simp [hj]
      · intro j hj
        obtain ⟨hnullj, hfreshj⟩ := hmapped j hj
        refine ⟨hnullj, ?_⟩
        rw [List.mem_cons, not_or]
        refine ⟨?_, hfreshj⟩
        intro heq
        exact hi (heq ▸ List.mem_map_of_mem (f := addr) hj)

/-- The second loop succeeds only with an address for each bar, and new ones. -/
theorem iomapBars_true {addr : Bar → Nat} {is : List Bar} {c : Codec}
    (h : (c.iomapBars addr is).1 = true) :
    (∀ i ∈ is, addr i ≠ 0 ∧ addr i ∉ c.mappings) ∧ (is.map addr).Nodup := by
  induction is generalizing c with
  | nil => simp
  | cons i is ih =>
      by_cases hnull : addr i = 0
      · simp [iomapBars, pciIomap, hnull] at h
      by_cases hfresh : addr i ∈ c.mappings
      · simp [iomapBars, pciIomap, hfresh] at h
      simp only [iomapBars, pciIomap, hnull, hfresh, or_self, if_false] at h
      obtain ⟨hmapped, hdistinct⟩ := ih h
      constructor
      · rw [List.forall_mem_cons]
        refine ⟨⟨hnull, hfresh⟩, ?_⟩
        intro j hj
        obtain ⟨hnullj, hfreshj⟩ := hmapped j hj
        exact ⟨hnullj, fun hmem => hfreshj (List.mem_cons_of_mem _ hmem)⟩
      · rw [List.map_cons, List.nodup_cons]
        refine ⟨?_, hdistinct⟩
        intro hmem
        obtain ⟨j, hj, heq⟩ := List.mem_map.mp hmem
        exact (hmapped j hj).2 (heq ▸ List.mem_cons_self)

/-! ## Nothing in `device_init` disables the device -/

theorem requestRegions_enableCnt (ok : Bar → Bool) (is : List Bar) (c : Codec) :
    (c.requestRegions ok is).2.enableCnt = c.enableCnt := by
  induction is generalizing c with
  | nil => rfl
  | cons i is ih =>
      by_cases hi : ok i ∧ c.regions i = false
      · simp [requestRegions, pciRequestRegion, hi, ih]
      · simp only [requestRegions, pciRequestRegion, if_neg hi]

theorem iomapBars_enableCnt (addr : Bar → Nat) (is : List Bar) (c : Codec) :
    (c.iomapBars addr is).2.enableCnt = c.enableCnt := by
  induction is generalizing c with
  | nil => rfl
  | cons i is ih =>
      simp only [iomapBars, pciIomap]
      split <;> simp only [] <;> split <;> simp [ih]

theorem cleanup_enableCnt (is : List Bar) (c : Codec) :
    (c.cleanup is).enableCnt = c.enableCnt := by
  induction is generalizing c with
  | nil => rfl
  | cons i is ih =>
      rw [cleanup, ih]
      have hunmap : (c.iounmapBar i).enableCnt = c.enableCnt := by
        unfold iounmapBar pciIounmap
        split <;> try split
        all_goals rfl
      rw [← hunmap]
      unfold pciReleaseRegion
      split <;> rfl

theorem getVectors_enableCnt (o : Outcome) (c : Codec) :
    (c.getVectors o).enableCnt = c.enableCnt := by
  simp only [getVectors, pciAllocIrqVectors]
  split <;> rfl

theorem requestIrq_enableCnt (irq : Int) (ok : Bool) (c : Codec) :
    (c.requestIrq irq ok).2.enableCnt = c.enableCnt := by
  unfold requestIrq
  split <;> rfl

theorem connect_enableCnt (o : Outcome) (c : Codec) :
    (c.connect o).2.enableCnt = c.enableCnt := by
  unfold connect
  have h0 := requestIrq_enableCnt c.msi0 o.irq0 c
  split
  · rename_i c₀ hreq
    simpa [hreq, cleanup_enableCnt] using h0
  · rename_i c₀ hreq
    rw [hreq] at h0
    have h1 := requestIrq_enableCnt c₀.msi1 o.irq1 c₀
    split
    · rename_i c₁ hreq'
      rw [hreq'] at h1
      simpa [cleanup_enableCnt] using h1.trans h0
    · rename_i c₁ hreq'
      rw [hreq'] at h1
      have h2 := iomapBars_enableCnt o.addr allBars c₁
      split
      · rename_i c₂ hmap
        rw [hmap] at h2
        simpa [cleanup_enableCnt] using h2.trans (h1.trans h0)
      · rename_i c₂ hmap
        rw [hmap] at h2
        exact h2.trans (h1.trans h0)

theorem deviceInit_enableCnt {o : Outcome} (henable : o.enable = true) (c : Codec) :
    (c.deviceInit o).2.enableCnt = c.enableCnt + 1 := by
  simp only [deviceInit, pciEnableDevice, henable, if_true]
  have hregions := requestRegions_enableCnt o.region allBars { c with enableCnt := c.enableCnt + 1 }
  split
  · rename_i c' hreq
    rwa [hreq] at hregions
  · rename_i c' hreq
    rw [hreq] at hregions
    rw [connect_enableCnt, getVectors_enableCnt]
    exact hregions

/-! ## A `device_init` from `Ready` -/

/-- The state after `device_init` has succeeded from `Ready`. -/
def initialised (o : Outcome) (c : Codec) : Codec :=
  { c with
    enableCnt := 1
    regions := fun _ => true
    vectors := some (o.base, 2)
    handlers := [(o.base : Int) + 1, (o.base : Int)]
    mappings := (allBars.map o.addr).reverse
    bars := o.addr
    msiVecNum := 2
    msi0 := o.base
    msi1 := (o.base : Int) + 1 }

theorem getVectors_eq {o : Outcome} {c : Codec} (hvectors : c.vectors = none)
    (hnum : c.msiVecNum = 2) (hgranted : 2 ≤ o.granted) :
    c.getVectors o = { c with
      vectors := some (o.base, 2), msiVecNum := 2, msi0 := o.base, msi1 := (o.base : Int) + 1 } := by
  have hmin : min o.granted 2 = 2 := by omega
  have hpos : 1 ≤ o.granted := by omega
  simp [getVectors, pciAllocIrqVectors, pciIrqVector, hvectors, hnum, hmin, hpos]

/-- Without two vectors there is no second interrupt. -/
theorem getVectors_msi1 {o : Outcome} {c : Codec} (hvectors : c.vectors = none)
    (hgranted : o.granted < 2) : (c.getVectors o).msi1 < 0 := by
  simp only [getVectors, pciAllocIrqVectors, hvectors]
  split
  · have hone : (min o.granted c.msiVecNum).toNat ≤ 1 := by omega
    simp [pciIrqVector, einval]
    omega
  · simp [pciIrqVector, hvectors, einval]

theorem connect_eq {o : Outcome} {c : Codec} (h0 : 0 ≤ c.msi0) (h1 : 0 ≤ c.msi1)
    (hmappings : c.mappings = []) (ho : o.Succeeds) :
    c.connect o = (0, { c with
      handlers := c.msi1 :: c.msi0 :: c.handlers
      bars := o.addr
      mappings := (allBars.map o.addr).reverse }) := by
  have hmap : ∀ c' : Codec, c'.mappings = [] → c'.iomapBars o.addr allBars =
      (true, { c' with bars := o.addr, mappings := (allBars.map o.addr).reverse }) := by
    intro c' hc'
    rw [iomapBars_mapped (by simp [hc', ho.mapped]) ho.distinct]
    simp [mem_allBars, hc']
  simp [connect, requestIrq, ho.irq0, ho.irq1, h0, h1, hmap, hmappings]

/-- A `connect` that succeeds had both handlers and all mappings. -/
theorem connect_ok {o : Outcome} {c : Codec} (h : (c.connect o).1 = 0) :
    o.irq0 = true ∧ o.irq1 = true ∧ 0 ≤ c.msi1 ∧ (∀ i, o.addr i ≠ 0) ∧
      (allBars.map o.addr).Nodup := by
  by_cases h0 : o.irq0 = true ∧ 0 ≤ c.msi0
  · by_cases h1 : o.irq1 = true ∧ 0 ≤ c.msi1
    · simp only [connect, requestIrq, if_pos h0, if_pos h1] at h
      split at h
      · simp [eio] at h
      · rename_i c' hmap
        obtain ⟨hmapped, hdistinct⟩ := iomapBars_true (congrArg Prod.fst hmap)
        exact ⟨h0.1, h1.1, h1.2, fun i => (hmapped i (mem_allBars i)).1, hdistinct⟩
    · simp [connect, requestIrq, if_pos h0, if_neg h1, eio] at h
  · simp [connect, requestIrq, if_neg h0, eio] at h

theorem requestRegions_eq {o : Outcome} {c : Codec} (hregion : ∀ i, o.region i = true)
    (hfree : ∀ i, c.regions i = false) :
    c.requestRegions o.region allBars = (true, { c with regions := fun _ => true }) := by
  rw [requestRegions_granted allBars_nodup (fun i _ => hregion i) (fun i _ => hfree i)]
  simp [mem_allBars]

theorem Ready.deviceInit_succeeds {o : Outcome} {c : Codec} (h : c.Ready)
    (henable : o.enable = true) (ho : o.Succeeds) :
    c.deviceInit o = (0, initialised o c) := by
  have hvectors : 0 ≤ (o.base : Int) + 1 := by omega
  simp only [deviceInit, pciEnableDevice, henable, if_true]
  rw [requestRegions_eq ho.region]
  · simp only []
    rw [getVectors_eq, connect_eq _ hvectors _ ho]
    · simp [initialised, h.released.handlers, h.released.disabled]
    · exact Int.natCast_nonneg _
    · exact h.released.mappings
    · exact h.released.vectors
    · exact h.msiVecNum
    · exact ho.granted
  · exact h.released.regions

theorem Ready.succeeds {o : Outcome} {c : Codec} (h : c.Ready) (hret : (c.deviceInit o).1 = 0) :
    o.Succeeds := by
  cases henable : o.enable with
  | false => simp [deviceInit, pciEnableDevice, henable, eio] at hret
  | true =>
      simp only [deviceInit, pciEnableDevice, henable, if_true] at hret
      have hregion : ∀ i, o.region i = true := by
        by_contra hno
        obtain ⟨i, hi⟩ := not_forall.mp hno
        have hrefused := requestRegions_refused (c := { c with enableCnt := c.enableCnt + 1 })
          ⟨i, mem_allBars i, Bool.not_eq_true _ ▸ hi⟩
        split at hret
        · simp [eio] at hret
        · rename_i c' hreq
          simp [hreq] at hrefused
      have hfree : ∀ i, ({ c with enableCnt := c.enableCnt + 1 } : Codec).regions i = false :=
        h.released.regions
      rw [requestRegions_eq hregion hfree] at hret
      obtain ⟨hirq0, hirq1, hmsi1, hmapped, hdistinct⟩ := connect_ok hret
      refine ⟨hregion, ?_, hirq0, hirq1, hmapped, hdistinct⟩
      by_contra hgranted
      have hnone := getVectors_msi1 (o := o) (c := { c with
        enableCnt := c.enableCnt + 1, regions := fun _ => true }) h.released.vectors (by omega)
      exact absurd hmsi1 (Int.not_le.mpr hnone)

theorem Ready.held {o : Outcome} {c : Codec} (h : c.Ready) (ho : o.Succeeds) :
    Held { initialised o c with bound := true } where
  enableCnt := rfl
  regions _ := rfl
  handlers := rfl
  msi0 := Int.natCast_nonneg _
  msi1 := Int.add_nonneg (Int.natCast_nonneg _) (by decide)
  mappings := List.reverse_perm _
  bars := ho.mapped
  misreleased := h.misreleased
  msiVecNum := rfl
  bound := rfl

/-! ## `device_deinit` -/

theorem releaseRegions_held {is : List Bar} {c : Codec} (hnodup : is.Nodup)
    (hheld : ∀ i ∈ is, c.regions i = true) :
    c.releaseRegions is = { c with regions := fun j => c.regions j && decide (j ∉ is) } := by
  induction is generalizing c with
  | nil => simp [releaseRegions]
  | cons i is ih =>
      obtain ⟨hi, hnodup⟩ := List.nodup_cons.mp hnodup
      obtain ⟨hheldi, hheld⟩ := List.forall_mem_cons.mp hheld
      simp only [releaseRegions, pciReleaseRegion, hheldi, if_true]
      rw [ih hnodup]
      · congr 1
        funext j
        by_cases hj : j = i
        · subst hj
          simp
        · simp [hj]
      · intro j hj
        have hne : j ≠ i := by
          rintro rfl
          exact hi hj
        exact (Function.update_of_ne hne _ _).trans (hheld j hj)

/-- The last loop unmaps what `bars` has, when that is mapped. -/
theorem iounmapBars_mapped {is : List Bar} {c : Codec} {rest : List Nat}
    (hbars : ∀ i ∈ is, c.bars i ≠ 0) (hmappings : c.mappings.Perm (is.map c.bars ++ rest)) :
    ∃ mappings, mappings.Perm rest ∧ c.iounmapBars is = { c with mappings := mappings } := by
  induction is generalizing c with
  | nil => exact ⟨c.mappings, hmappings, rfl⟩
  | cons i is ih =>
      obtain ⟨hi, hbars⟩ := List.forall_mem_cons.mp hbars
      have hmem : c.bars i ∈ c.mappings := hmappings.mem_iff.mpr (by simp)
      have herase : (c.mappings.erase (c.bars i)).Perm (is.map c.bars ++ rest) := by
        have := hmappings.erase (c.bars i)
        simpa using this
      simp only [iounmapBars, iounmapBar, pciIounmap, if_pos hi, if_pos hmem]
      obtain ⟨mappings, hperm, heq⟩ :=
        ih (c := { c with mappings := c.mappings.erase (c.bars i) }) hbars herase
      exact ⟨mappings, hperm, heq⟩

theorem freeIrq_held {irq : Int} {rest : List Int} {c : Codec}
    (hheld : c.handlers.Perm (irq :: rest)) :
    ∃ handlers, handlers.Perm rest ∧ c.freeIrq irq = { c with handlers := handlers } := by
  have hmem : irq ∈ c.handlers := hheld.mem_iff.mpr List.mem_cons_self
  refine ⟨c.handlers.erase irq, ?_, if_pos hmem⟩
  simpa using hheld.erase irq

theorem Held.deviceDeinit {c : Codec} (h : c.Held) :
    Ready { c.deviceDeinit with bound := false } := by
  have hhandlers : c.handlers.Perm (c.msi0 :: [c.msi1]) := by
    rw [h.handlers]
    exact List.Perm.swap _ _ _
  obtain ⟨handlers, hperm, hfree0⟩ := freeIrq_held hhandlers
  obtain rfl := List.perm_singleton.mp hperm
  obtain ⟨handlers, hperm, hfree1⟩ :=
    freeIrq_held (c := { c with handlers := [c.msi1] }) (List.Perm.refl [c.msi1])
  obtain rfl := List.perm_nil.mp hperm
  have hmappings : c.mappings.Perm (allBars.map c.bars ++ []) := by
    rw [List.append_nil]
    exact h.mappings
  obtain ⟨mappings, hperm, hunmap⟩ := iounmapBars_mapped
    (c := { c with handlers := [], vectors := none, regions := fun _ => false })
    (fun i _ => h.bars i) hmappings
  obtain rfl := List.perm_nil.mp hperm
  have hrelease := releaseRegions_held
    (c := { c with handlers := [], vectors := none }) allBars_nodup (fun i _ => h.regions i)
  simp only [mem_allBars, not_true, decide_false, Bool.and_false] at hrelease
  have hdeinit : c.deviceDeinit = { c with
      handlers := [], vectors := none, regions := fun _ => false, mappings := [], enableCnt := 0 } := by
    simp only [Codec.deviceDeinit, if_pos h.msi0, hfree0, if_pos h.msi1]
    rw [hfree1]
    simp only [pciFreeIrqVectors]
    rw [hrelease, hunmap]
    simp only [pciDisableDevice, h.enableCnt, Nat.sub_self]
  rw [hdeinit]
  exact ⟨⟨rfl, fun _ => rfl, rfl, rfl, rfl⟩, h.misreleased, h.msiVecNum, rfl⟩

/-! ## Sequences of binds -/

theorem Ready.tidy {c : Codec} (h : c.Ready) : c.Tidy := ⟨h.misreleased, fun _ => h.released⟩

theorem Held.tidy {c : Codec} (h : c.Held) : c.Tidy := by
  refine ⟨h.misreleased, ?_⟩
  intro hunbound
  rw [h.bound] at hunbound
  cases hunbound

end Codec

variable {c c' : Codec}

/-- A clean `device_init` leaves the device as it was, or bound with one of everything. -/
theorem Codec.Ready.init_clean (h : c.Ready) {o : Outcome} (ho : o.Clean)
    (hnext : codecPci.next c (.init o) = some c') : c'.Ready ∨ c'.Held := by
  simp only [codecPci, h.bound, Bool.false_eq_true, if_false, Option.some.injEq] at hnext
  cases henable : o.enable with
  | false =>
      have hinit : c.deviceInit o = (-eio, c) := by simp [deviceInit, pciEnableDevice, henable]
      left
      rw [← hnext, hinit]
      exact ⟨⟨h.released.disabled, h.released.regions, h.released.vectors, h.released.handlers,
        h.released.mappings⟩, h.misreleased, h.msiVecNum, rfl⟩
  | true =>
      have hsucceeds : o.Succeeds := ho.resolve_left (by simp [henable])
      right
      rw [← hnext, h.deviceInit_succeeds henable hsucceeds]
      exact h.held hsucceeds

/-- A `device_init` that fails after its first call leaves the device enabled. -/
theorem Codec.Ready.init_unclean (h : c.Ready) {o : Outcome} (ho : ¬ o.Clean)
    (hnext : codecPci.next c (.init o) = some c') : ¬ c'.Tidy := by
  simp only [codecPci, h.bound, Bool.false_eq_true, if_false, Option.some.injEq] at hnext
  have henable : o.enable = true := by
    by_contra hdisabled
    exact ho (.inl (Bool.not_eq_true _ ▸ hdisabled))
  have hret : (c.deviceInit o).1 ≠ 0 := fun hret => ho (.inr (h.succeeds hret))
  rintro ⟨-, hreleased⟩
  have hdisabled := (hreleased (by simp [← hnext, hret])).disabled
  rw [← hnext] at hdisabled
  simp [deviceInit_enableCnt henable] at hdisabled

theorem Codec.Held.deinit_ready (h : c.Held) (hnext : codecPci.next c .deinit = some c') : c'.Ready := by
  simp only [codecPci, h.bound, if_true, Option.some.injEq] at hnext
  rw [← hnext]
  exact h.deviceDeinit

/-- From a state in order, a sequence of calls stays in order exactly when each
`device_init` is clean. -/
theorem Codec.always_tidy_iff (es : List CodecEvent) (hc : c.Ready ∨ c.Held)
    (hrun : (codecPci.run es c).isSome) :
    codecPci.Always Tidy es c ↔ ∀ o, .init o ∈ es → o.Clean := by
  have htidy : c.Tidy := hc.elim Ready.tidy Held.tidy
  induction es generalizing c with
  | nil => simpa [TSys.always_nil] using htidy
  | cons e es ih =>
      obtain ⟨c₁, hnext⟩ : ∃ c₁, codecPci.next c e = some c₁ := by
        cases hnext : codecPci.next c e with
        | none => simp [TSys.run, hnext] at hrun
        | some c₁ => exact ⟨c₁, rfl⟩
      have hrun₁ : (codecPci.run es c₁).isSome := by simpa [TSys.run, hnext] using hrun
      rw [TSys.always_cons hnext]
      cases e with
      | init o =>
          have hready : c.Ready := by
            apply hc.resolve_right
            intro hheld
            simp [codecPci, hheld.bound] at hnext
          by_cases ho : o.Clean
          · have hc₁ := hready.init_clean ho hnext
            have hrest := ih hc₁ hrun₁ (hc₁.elim Ready.tidy Held.tidy)
            simp [htidy, ho, hrest]
          · constructor
            · rintro ⟨-, halways⟩
              exact absurd (halways [] c₁ List.nil_prefix rfl) (hready.init_unclean ho hnext)
            · intro hall
              exact absurd (hall o List.mem_cons_self) ho
      | deinit =>
          have hheld : c.Held := by
            apply hc.resolve_left
            intro hready
            simp [codecPci, hready.bound] at hnext
          have hready₁ := hheld.deinit_ready hnext
          have hrest := ih (.inl hready₁) hrun₁ hready₁.tidy
          simp [htidy, hrest]

/-- In a sequence of calls from the loading of the module on, the driver neither leaks
nor releases twice exactly when every `device_init` fails at `pci_enable_device` or
succeeds. -/
theorem tidy_iff_clean (es : List CodecEvent) (hes : (codecPci.run es Codec.start).isSome) :
    codecPci.Always Codec.Tidy es Codec.start ↔ ∀ o, .init o ∈ es → o.Clean :=
  Codec.always_tidy_iff es (.inl Codec.start_ready) hes

/-- Everything is granted; the mappings are at `firstAddr`, one after the other. -/
def allGranted (firstAddr : Nat) : Outcome where
  enable := true
  region := fun _ => true
  granted := 2
  base := 24
  legacy := 11
  irq0 := true
  irq1 := true
  addr := fun i => firstAddr + i

theorem tidy_bind_twice :
    (codecPci.run [.init (allGranted 100), .deinit, .init (allGranted 102), .deinit]
      Codec.start).isSome ∧
    codecPci.Always Codec.Tidy [.init (allGranted 100), .deinit, .init (allGranted 102), .deinit]
      Codec.start := by
  have hrun : (codecPci.run [.init (allGranted 100), .deinit, .init (allGranted 102), .deinit]
      Codec.start).isSome := by decide
  refine ⟨hrun, (tidy_iff_clean _ hrun).mpr ?_⟩
  intro o ho
  have hgranted : ∀ n, n ≠ 0 → (allGranted n).Clean := by
    intro n hn
    refine .inr ⟨fun _ => rfl, Int.le_refl 2, rfl, rfl, fun i => ?_, ?_⟩
    · simp only [allGranted]
      omega
    · apply Codec.allBars_nodup.map
      intro i j hij
      simp only [allGranted] at hij
      exact Fin.ext (by omega)
  simp only [List.mem_cons, CodecEvent.init.injEq, reduceCtorEq, List.not_mem_nil, or_false,
    false_or] at ho
  rcases ho with rfl | rfl
  · exact hgranted 100 (by decide)
  · exact hgranted 102 (by decide)

/-- `request_irq` refuses the second handler, in the first bind or in one after a
successful bind. -/
def secondIrqRefused (firstAddr : Nat) : Outcome := { allGranted firstAddr with irq1 := false }

/-- After a first bind and unbind, the second bind is refused a handler: the device
stays enabled with its vectors and a handler, and the mappings of the first bind are
unmapped again. -/
theorem refused_bind_leaks :
    ∃ c, codecPci.run [.init (allGranted 100), .deinit, .init (secondIrqRefused 200)]
        Codec.start = some c ∧
      c.bound = false ∧ c.enableCnt = 1 ∧ c.vectors = some (24, 2) ∧ c.handlers = [24] ∧
      c.misreleased.length = 4 ∧ (c.Tidy ↔ False) := by
  refine ⟨_, rfl, rfl, rfl, rfl, rfl, rfl, iff_false_intro ?_⟩
  rintro ⟨-, hreleased⟩
  cases (hreleased rfl).handlers

end Lkm.Pci
