import Lkm.Pci.HelloDriver

/-!
# The lifetime of the hello_tic handler

`devm_request_irq` ties the handler to the device, and devm releases it when the
driver is through. What the handler uses is released by hand. In `hello_tic_probe`
the request is the last call that can fail, so that nothing is unwound under a
registered handler; but `hello_tic_remove` releases the regions, the device and the
`tic_info`, and only then comes the turn of devm. An invocation in between runs on
what is gone, and no other invocation does.
-/

namespace Lkm.Pci

open Base

/-- `info` is allocated, the device is enabled and its port region is held. -/
def State.Live (s : State) (info : Nat) : Prop :=
  (s.infos info).isSome ∧ 0 < s.enableCnt ∧ s.regions = true

namespace Driver

/-- `hello_tic_remove` has released the regions, and devm not yet the handler. -/
def Releasing : Driver → Prop
  | .removeDisable _ | .removeIounmap _ | .removeFree _ | .removed => True
  | _ => False

/-- The handler is registered, and all that it uses is still there. -/
def Armed : Driver → Prop
  | .accessing _ _ | .settingDrvdata _ | .bound | .removeRelease _ => True
  | _ => False

/-- How often the driver has enabled the device. -/
def enableCnt : Driver → Nat
  | .unbound | .enabling _ | .outFree _ | .failed => 0
  | .removeIounmap _ | .removeFree _ | .removed => 0
  | _ => 1

def regions : Driver → Bool
  | .unbound | .enabling _ | .requesting _ | .outDisable _ | .outFree _ | .failed => false
  | .removeDisable _ | .removeIounmap _ | .removeFree _ | .removed => false
  | _ => true

/-- The object that the driver has allocated; `bound` keeps it in the device. -/
def info (drvdata : Nat) : Driver → Option Nat
  | .unbound | .failed | .removed => none
  | .bound => some drvdata
  | .enabling i | .requesting i | .remapping i | .readingConfig i | .requestingIrq i
  | .accessing i _ | .settingDrvdata i
  | .outIounmap i | .outUnrequest i | .outDisable i | .outFree i
  | .removeRelease i | .removeDisable i | .removeIounmap i | .removeFree i => some i

theorem Armed.held {d : Driver} (h : d.Armed) : d.enableCnt = 1 ∧ d.regions = true := by
  cases d <;> first | exact ⟨rfl, rfl⟩ | cases h

theorem Releasing.regions {d : Driver} (h : d.Releasing) : d.regions = false := by
  cases d <;> first | rfl | cases h

theorem Armed.not_releasing {d : Driver} (h : d.Armed) : ¬ d.Releasing := by
  cases d <;> first | exact not_false | cases h

end Driver

/-- What is held while the driver is at `d`. -/
structure Held (s : State) (d : Driver) : Prop where
  enableCnt : s.enableCnt = d.enableCnt
  regions : s.regions = d.regions
  info : ∀ i, d.info s.drvdata = some i → (s.infos i).isSome

/-- What the driver holds at each of its steps. -/
structure Inv (s : State) : Prop where
  held : Held s s.driver
  /-- A handler is registered for the object in use, until the driver releases it. -/
  irq : ∀ n i, s.irq = some (n, i) →
    s.driver.Releasing ∨ (s.driver.Armed ∧ s.driver.info s.drvdata = some i)
  handler : ∀ h i, s.handler = some (h, i) → ∃ n, s.irq = some (n, i)

namespace Held

variable {s : State} {d : Driver}

theorem modifyInfo (h : Held s d) (info : Nat) (f : TicInfo → TicInfo) :
    Held (s.modifyInfo info f) d := by
  refine ⟨h.enableCnt, h.regions, fun i hi => ?_⟩
  have hsome := h.info i hi
  show (Function.update s.infos info _ i).isSome
  by_cases hinfo : i = info
  · subst hinfo
    simpa using hsome
  · rwa [Function.update_of_ne hinfo]

end Held

namespace Inv

variable {s s' : State}

/-- While an invocation is in progress, what it uses is there exactly when the driver
is not releasing it. -/
theorem live_iff (h : Inv s) {i : Nat} {p : Handler} (hhandler : s.handler = some (p, i)) :
    s.Live i ↔ ¬ s.driver.Releasing := by
  obtain ⟨n, hirq⟩ := h.handler p i hhandler
  rcases h.irq n i hirq with hrel | ⟨harmed, hinfo⟩
  · have hgone : s.regions = false := h.held.regions.trans hrel.regions
    have hdead : ¬ s.Live i := by simp [State.Live, hgone]
    exact iff_of_false hdead (not_not.mpr hrel)
  · obtain ⟨hcnt, hregions⟩ := harmed.held
    have hlive : s.Live i := by
      refine ⟨h.held.info i hinfo, ?_, h.held.regions.trans hregions⟩
      rw [h.held.enableCnt, hcnt]
      exact Nat.one_pos
    exact iff_of_true hlive harmed.not_releasing

theorem irq_eq_none (h : Inv s) {d : Driver} (hd : s.driver = d) (hrel : ¬ d.Releasing)
    (harmed : ¬ d.Armed) : s.irq = none := by
  subst hd
  cases hirq : s.irq with
  | none => rfl
  | some r =>
      rcases h.irq r.1 r.2 hirq with hr | ⟨ha, -⟩
      · exact absurd hr hrel
      · exact absurd ha harmed

theorem handler_eq_none (h : Inv s) (hirq : s.irq = none) : s.handler = none := by
  cases hhandler : s.handler with
  | none => rfl
  | some r =>
      obtain ⟨n, hn⟩ := h.handler r.1 r.2 hhandler
      rw [hirq] at hn
      cases hn

/-- No handler is registered, and so none is in progress. -/
theorem of_unregistered (hheld : Held s s.driver) (hirq : s.irq = none) (hhandler : s.handler = none) :
    Inv s := by
  refine ⟨hheld, fun n i hs => ?_, fun p i hs => ?_⟩
  · cases hirq.symm.trans hs
  · cases hhandler.symm.trans hs

/-! A step of the driver leaves the handler as it is, but for the two that register and release
it. There are three kinds: no handler is registered yet, all stays there for the one that is, or
the driver takes it away. -/

theorem unarmed (h : Inv s) {d : Driver} (hd : s.driver = d) (hrel : ¬ d.Releasing)
    (harmed : ¬ d.Armed) (hirq : s'.irq = s.irq) (hhandler : s'.handler = s.handler)
    (hheld : Held s' s'.driver) : Inv s' := by
  have hnone : s.irq = none := h.irq_eq_none hd hrel harmed
  exact of_unregistered hheld (hirq.trans hnone) (hhandler.trans (h.handler_eq_none hnone))

theorem armed (h : Inv s) {d : Driver} (hd : s.driver = d) (hrel : ¬ d.Releasing)
    (harmed : s'.driver.Armed) (hinfo : s'.driver.info s'.drvdata = d.info s.drvdata)
    (hirq : s'.irq = s.irq) (hhandler : s'.handler = s.handler) (hheld : Held s' s'.driver) :
    Inv s' := by
  subst hd
  refine ⟨hheld, fun n i hs => .inr ⟨harmed, ?_⟩, fun p i hs => ?_⟩
  · rcases h.irq n i (hirq ▸ hs) with hr | ⟨-, hi⟩
    · exact absurd hr hrel
    · exact hinfo.trans hi
  · rw [hirq]
    exact h.handler p i (hhandler ▸ hs)

theorem releasing (h : Inv s) (hrel : s'.driver.Releasing)
    (hirq : s'.irq = s.irq) (hhandler : s'.handler = s.handler) (hheld : Held s' s'.driver) :
    Inv s' := by
  refine ⟨hheld, fun _ _ _ => .inl hrel, fun p i hs => ?_⟩
  rw [hirq]
  exact h.handler p i (hhandler ▸ hs)

theorem start : Inv State.start :=
  of_unregistered ⟨rfl, rfl, nofun⟩ rfl rfl

/-- `iounmap` changes the mappings only. -/
theorem iounmap_eq (s : State) (i : Nat) :
    ∃ mappings, s.iounmap i = { s with mappings := mappings } := by
  unfold State.iounmap
  split
  · exact ⟨_, rfl⟩
  · exact ⟨s.mappings, rfl⟩

theorem helloTicProbe (h : Inv s) {bar : Resources} {ret : Nat} {byte : BitVec 8}
    (hs : s.helloTicProbe bar ret byte = some s') : Inv s' := by
  have held := h.held
  unfold State.helloTicProbe at hs
  generalize hd : s.driver = d at hs held
  cases d with dsimp only at hs
  | unbound =>
      split at hs
      · cases hs
        exact h.unarmed hd not_false not_false rfl rfl ⟨held.enableCnt, held.regions, held.info⟩
      · split at hs
        · cases hs
        · cases hs
          refine h.unarmed hd not_false not_false rfl rfl ⟨held.enableCnt, held.regions, fun i hi => ?_⟩
          cases hi
          simp [State.goto]
  | enabling info =>
      split at hs
      · cases hs
        exact h.unarmed hd not_false not_false rfl rfl ⟨held.enableCnt, held.regions, held.info⟩
      · cases hs
        have hcnt : s.enableCnt + 1 = 1 := congrArg (· + 1) held.enableCnt
        exact h.unarmed hd not_false not_false rfl rfl ⟨hcnt, held.regions, held.info⟩
  | requesting info =>
      split at hs
      · cases hs
        exact h.unarmed hd not_false not_false rfl rfl ⟨held.enableCnt, held.regions, held.info⟩
      · cases hs
        have hrequested : Held { s with regions := true } (.remapping info) :=
          ⟨held.enableCnt, rfl, held.info⟩
        have hport := hrequested.modifyInfo info fun i => { i with port := ⟨bar.start0, bar.len0⟩ }
        exact h.unarmed hd not_false not_false rfl rfl ⟨hport.enableCnt, hport.regions, hport.info⟩
  | remapping info =>
      have hmem := held.modifyInfo info fun i => { i with mem := ⟨ret, bar.len1⟩ }
      split at hs
      · cases hs
        exact h.unarmed hd not_false not_false rfl rfl ⟨hmem.enableCnt, hmem.regions, hmem.info⟩
      · cases hs
        exact h.unarmed hd not_false not_false rfl rfl ⟨hmem.enableCnt, hmem.regions, hmem.info⟩
  | readingConfig info =>
      have hread := held.modifyInfo info fun i => { i with irq := byte }
      split at hs
      · cases hs
        exact h.unarmed hd not_false not_false rfl rfl ⟨hread.enableCnt, hread.regions, hread.info⟩
      · cases hs
        exact h.unarmed hd not_false not_false rfl rfl ⟨hread.enableCnt, hread.regions, hread.info⟩
  | requestingIrq info =>
      split at hs
      · cases hs
        exact h.unarmed hd not_false not_false rfl rfl ⟨held.enableCnt, held.regions, held.info⟩
      · -- the one step that registers a handler: all that it uses is there
        cases hs
        have hnone : s.irq = none := h.irq_eq_none hd not_false not_false
        have hidle : s.handler = none := h.handler_eq_none hnone
        refine ⟨⟨held.enableCnt, held.regions, held.info⟩, fun n i hi => ?_, fun p i hp => ?_⟩
        · cases hi
          exact .inr ⟨trivial, rfl⟩
        · cases hidle.symm.trans hp
  | accessing info left =>
      cases left with
      | zero =>
          cases hs
          exact h.armed hd not_false trivial rfl rfl rfl ⟨held.enableCnt, held.regions, held.info⟩
      | succ left =>
          cases hs
          exact h.armed hd not_false trivial rfl rfl rfl ⟨held.enableCnt, held.regions, held.info⟩
  | settingDrvdata info =>
      cases hs
      exact h.armed hd not_false trivial rfl rfl rfl ⟨held.enableCnt, held.regions, held.info⟩
  | outIounmap info =>
      obtain ⟨mappings, hunmap⟩ := iounmap_eq s info
      rw [hunmap] at hs
      cases hs
      exact h.unarmed hd not_false not_false rfl rfl ⟨held.enableCnt, held.regions, held.info⟩
  | outUnrequest info =>
      cases hs
      exact h.unarmed hd not_false not_false rfl rfl ⟨held.enableCnt, rfl, held.info⟩
  | outDisable info =>
      cases hs
      have hcnt : s.enableCnt - 1 = 0 := congrArg (· - 1) held.enableCnt
      exact h.unarmed hd not_false not_false rfl rfl ⟨hcnt, held.regions, held.info⟩
  | outFree info =>
      cases hs
      exact h.unarmed hd not_false not_false rfl rfl ⟨held.enableCnt, held.regions, nofun⟩
  | failed | bound | removeRelease | removeDisable | removeIounmap | removeFree | removed => cases hs

theorem helloTicRemove (h : Inv s) (hs : s.helloTicRemove = some s') : Inv s' := by
  have held := h.held
  unfold State.helloTicRemove at hs
  generalize hd : s.driver = d at hs held
  cases d with dsimp only at hs
  | bound =>
      cases hs
      exact h.armed hd not_false trivial rfl rfl rfl ⟨held.enableCnt, held.regions, held.info⟩
  | removeRelease info =>
      -- from here on the handler is on its own
      cases hs
      exact h.releasing trivial rfl rfl ⟨held.enableCnt, rfl, held.info⟩
  | removeDisable info =>
      cases hs
      have hcnt : s.enableCnt - 1 = 0 := congrArg (· - 1) held.enableCnt
      exact h.releasing trivial rfl rfl ⟨hcnt, held.regions, held.info⟩
  | removeIounmap info =>
      obtain ⟨mappings, hunmap⟩ := iounmap_eq s info
      rw [hunmap] at hs
      cases hs
      exact h.releasing trivial rfl rfl ⟨held.enableCnt, held.regions, held.info⟩
  | removeFree info =>
      cases hs
      exact h.releasing trivial rfl rfl ⟨held.enableCnt, held.regions, nofun⟩
  | unbound | enabling | requesting | remapping | readingConfig | requestingIrq | accessing
  | settingDrvdata | outIounmap | outUnrequest | outDisable | outFree | failed | removed => cases hs

theorem devmRelease (h : Inv s) (hs : s.devmRelease = some s') : Inv s' := by
  have held := h.held
  unfold State.devmRelease at hs
  split at hs
  · rename_i hd hidle
    cases hs
    rw [hd] at held
    exact of_unregistered ⟨held.enableCnt, held.regions, held.info⟩ rfl hidle
  · rename_i hd hidle
    cases hs
    rw [hd] at held
    exact of_unregistered ⟨held.enableCnt, held.regions, held.info⟩ rfl hidle
  · cases hs

theorem interrupt (h : Inv s) (hs : s.interrupt = some s') : Inv s' := by
  unfold State.interrupt at hs
  split at hs
  · rename_i n i hirq hidle
    cases hs
    refine ⟨⟨h.held.enableCnt, h.held.regions, h.held.info⟩, h.irq, ?_⟩
    intro p j hp
    cases hp
    exact ⟨n, hirq⟩
  · cases hs

theorem handle (h : Inv s) {value : BitVec 32} (hs : s.handle value = some s') : Inv s' := by
  obtain ⟨⟨p, i⟩, hhandler, rfl⟩ := Option.map_eq_some_iff.mp hs
  refine ⟨⟨h.held.enableCnt, h.held.regions, h.held.info⟩, h.irq, ?_⟩
  intro q j hq
  obtain ⟨p', -, hp'⟩ := Option.map_eq_some_iff.mp hq
  cases hp'
  exact h.handler p i hhandler

theorem of_reachable {bar : Resources} (h : (helloTic bar).Reachable s) : Inv s := by
  apply TSys.Reach.invariant _ _ h
  · rintro s rfl
    exact start
  · intro s e s' hinv _ hs
    cases e with
    | probe ret byte => exact hinv.helloTicProbe hs
    | remove => exact hinv.helloTicRemove hs
    | devmRelease => exact hinv.devmRelease hs
    | interrupt => exact hinv.interrupt hs
    | handler value => exact hinv.handle hs

end Inv

/-- A handler in progress finds what it uses. -/
def State.HandlerLive (s : State) : Prop := ∀ p info, s.handler = some (p, info) → s.Live info

/-- No handler is in progress while the driver releases what the handler uses. -/
def State.HandlerAway (s : State) : Prop := s.handler.isSome → ¬ s.driver.Releasing

theorem Inv.handlerLive_iff {s : State} (h : Inv s) : s.HandlerLive ↔ s.HandlerAway := by
  constructor
  · intro hlive hsome
    obtain ⟨⟨p, info⟩, hhandler⟩ := Option.isSome_iff_exists.mp hsome
    exact (h.live_iff hhandler).mp (hlive p info hhandler)
  · intro haway p info hhandler
    exact (h.live_iff hhandler).mpr (haway (by simp [hhandler]))

/-- In a run of any length the handler is in progress on live state only, exactly when
it is never in progress between `pci_release_regions` of `hello_tic_remove` and the
release of the handler by devm. -/
theorem handler_live_iff (bar : Resources) (es : List Event) :
    (helloTic bar).Always State.HandlerLive es State.start ↔
      (helloTic bar).Always State.HandlerAway es State.start := by
  apply TSys.always_congr _ rfl
  intro s hs
  exact (Inv.of_reachable hs).handlerLive_iff

/-- Bind, unbind up to `kfree`, and an interrupt before devm has its turn. -/
def interruptAfterFree : List Event :=
  [.probe 1 0, .probe 0 0, .probe 0 0, .probe 7 0, .probe 0 11, .probe 0 0] ++
    List.replicate 7 (.probe 0 0) ++ List.replicate 5 .remove ++ [.interrupt]

theorem handler_on_freed_info :
    ∃ s, (helloTic ⟨0xc000, 16, 64⟩).run interruptAfterFree State.start = some s ∧
      s.handler = some (.entered, 1) ∧ s.infos 1 = none ∧ s.enableCnt = 0 ∧ s.regions = false ∧
      (s.HandlerLive ↔ False) := by
  refine ⟨_, rfl, rfl, rfl, rfl, rfl, iff_false_intro ?_⟩
  intro hlive
  obtain ⟨-, -, hregions⟩ := hlive _ _ rfl
  cases hregions

end Lkm.Pci
