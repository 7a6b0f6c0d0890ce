import Lkm.Base.Transitions
import Lkm.Ftrace.Hooks

/-!
# Loading and unloading the module

`fh_init` and `fh_exit` over whole lives of a machine: the module is loaded and unloaded in
any order, and each time the kernel's calls end as they like. `hooks_all_or_nothing`: as long
as no hook was left behind, every hook is at its own function while the module is loaded, and
nobody else is; while it is not loaded, ftrace is as it was, also after a load that failed
half-way and after removals whose results nobody looked at. A load fails only for a reason
(`Installable`). The hooks left behind are those that `unregister_ftrace_function` refused
(`Leftover`).
-/

namespace Lkm.Ftrace

open Base

/-! ## When a hook can be installed -/

theorem fhInstallHook_ok_iff (K : Kernel) (hook : Hook) (s : State) :
    (fhInstallHook K hook s).1 = .ok () ↔
      K.lookupName hook.name ≠ 0 ∧ K.setError hook.ops = none ∧ K.registerError hook.ops = none ∧
        s.tracer.registered hook.ops = false ∧
        ∀ a ∈ (s.tracer.filter hook.ops).insert (K.lookupName hook.name), s.tracer.ipmodify a = false := by
  unfold fhInstallHook fhResolveHookAddress
  by_cases hnone : K.lookupName hook.name = 0
  · simp [hnone]
  simp only [hnone, if_false, Function.update_self]
  unfold Tracer.setFilterIp
  cases hset : K.setError hook.ops with
  | some e => simp
  | none =>
      dsimp only
      generalize (s.tracer.filter hook.ops).insert (K.lookupName hook.name) = f
      unfold Tracer.registerFtraceFunction
      cases hreg : K.registerError hook.ops with
      | some e => simp
      | none =>
          dsimp only
          rw [Tracer.withFilter_self]
          by_cases hbusy : (s.tracer.registered hook.ops || f.any s.tracer.ipmodify) = true
          · have hbusy' : ((s.tracer.withFilter hook.ops f).registered hook.ops ||
                f.any (s.tracer.withFilter hook.ops f).ipmodify) = true := hbusy
            rw [if_pos hbusy']
            refine iff_of_false (fun hok => nomatch hok) ?_
            rintro ⟨-, -, -, hfresh, hvacant⟩
            rw [hfresh, Bool.false_or, List.any_eq_true] at hbusy
            obtain ⟨a, ha, hset⟩ := hbusy
            cases (hvacant a ha).symm.trans hset
          · have hbusy' : ¬((s.tracer.withFilter hook.ops f).registered hook.ops ||
                f.any (s.tracer.withFilter hook.ops f).ipmodify) = true := hbusy
            rw [if_neg hbusy']
            rw [Bool.not_eq_true, Bool.or_eq_false_iff, List.any_eq_false] at hbusy
            exact iff_of_true rfl ⟨hnone, rfl, rfl, hbusy.1, fun a ha =>
              Bool.eq_false_of_not_eq_true (hbusy.2 a ha)⟩

/-- The hook resolves, the kernel does not refuse it, and nobody is at its function: nobody from
outside, and none of the hooks in `S`. -/
structure Installable (K : Kernel) (base : Tracer) (S : Set Hook) (hook : Hook) : Prop where
  resolved : K.lookupName hook.name ≠ 0
  set : K.setError hook.ops = none
  register : K.registerError hook.ops = none
  vacant : base.ipmodify (K.lookupName hook.name) = false
  apart : ∀ h ∈ S, K.lookupName h.name ≠ K.lookupName hook.name

theorem Hooked.install_ok_iff {T : HookTable} {K : Kernel} {base : Tracer} {S : Set Hook} {s : State}
    {hook : Hook} (hhook : hook ∈ T.hooks) (hnew : hook ∉ S) (h : Hooked T K base S s) :
    (fhInstallHook K hook s).1 = .ok () ↔ Installable K base S hook := by
  rw [fhInstallHook_ok_iff, h.filter_insert hhook hnew]
  constructor
  · rintro ⟨hsym, hset, hreg, -, hvacant⟩
    have hfree := hvacant _ (List.mem_singleton.mpr rfl)
    refine ⟨hsym, hset, hreg, ?_, ?_⟩
    · by_contra hne
      have hbusy := (h.ipmodify _).mpr (.inl (Bool.eq_true_of_not_eq_false hne))
      cases hfree.symm.trans hbusy
    · intro h' hh' heq
      have hbusy := (h.ipmodify _).mpr (.inr ⟨h', hh', heq⟩)
      cases hfree.symm.trans hbusy
  · rintro ⟨hsym, hset, hreg, hvacant, hapart⟩
    refine ⟨hsym, hset, hreg, (h.down hook hhook hnew).1, ?_⟩
    intro a ha
    obtain rfl := List.mem_singleton.mp ha
    by_contra hne
    rcases (h.ipmodify _).mp (Bool.eq_true_of_not_eq_false hne) with hb | ⟨h', hh', heq⟩
    · cases hvacant.symm.trans hb
    · exact hapart h' hh' heq

/-! ## The machine -/

/-- `demo_hooks`, with the places of the two functions in the module. -/
def demoHooks (fhSysClone fhSysExecve : Addr) : HookTable where
  hooks := [⟨"__x64_sys_clone", fhSysClone, 0⟩, ⟨"__x64_sys_execve", fhSysExecve, 1⟩]
  nodup := by simp

/-- `fh_init`. -/
def fhInit (T : HookTable) (K : Kernel) (s : State) : Except Errno Unit × State :=
  fhInstallHooks K T.hooks s

/-- `fh_exit`. -/
def fhExit (T : HookTable) (K : Kernel) (s : State) : State := fhRemoveHooks K T.hooks s

/-- A machine; `loaded` is the kernel as the module found it, if the module is loaded. -/
structure Machine where
  state : State
  loaded : Option Kernel

inductive Event where
  | load (K : Kernel)
  /-- With the errors of the calls that take addresses out of the filters, and of those that
  unregister. -/
  | unload (clearError unregisterError : Ops → Option Errno)

/-- The module's own data as the loader puts it into memory. -/
def State.fresh (T : HookTable) (s : State) : State where
  tracer :=
    { s.tracer with filter := fun o => if o ∈ T.hooks.map Hook.ops then [] else s.tracer.filter o }
  address := fun _ => 0
  original := fun _ => 0

/-- A module whose `fh_init` fails is not loaded. -/
def Machine.load (T : HookTable) (K : Kernel) (m : Machine) : Machine :=
  match fhInit T K (m.state.fresh T) with
  | (.ok (), s) => ⟨s, some K⟩
  | (.error _, s) => ⟨s, none⟩

def Machine.next (T : HookTable) (m : Machine) : Event → Option Machine
  | .load K => if m.loaded.isSome then none else some (m.load T K)
  | .unload clearError unregisterError => m.loaded.map fun K =>
      ⟨fhExit T { K with clearError := clearError, unregisterError := unregisterError } m.state, none⟩

/-- Loading and unloading, on a machine on which ftrace is as `base` at first. -/
def sys (T : HookTable) (base : Tracer) : TSys Machine Event where
  init := fun m => m.loaded = none ∧ m.state.tracer = base
  next := Machine.next T

/-! ## Over a life of the machine -/

/-- ftrace as it was, but for the filters of ops that are gone. -/
structure Untouched (T : HookTable) (base t : Tracer) : Prop where
  registered : t.registered = base.registered
  ipmodify : t.ipmodify = base.ipmodify
  filter : ∀ o, o ∉ T.hooks.map Hook.ops → t.filter o = base.filter o

/-- ftrace after the module is gone, where the hooks in `S` are still registered. -/
structure Leftover (T : HookTable) (K : Kernel) (base : Tracer) (S : Set Hook) (t : Tracer) : Prop where
  up : ∀ hook ∈ S, t.registered hook.ops = true ∧ t.filter hook.ops = [K.lookupName hook.name]
  down : ∀ hook ∈ T.hooks, hook ∉ S → t.registered hook.ops = false
  registered : ∀ o, o ∉ T.hooks.map Hook.ops → t.registered o = base.registered o
  filter : ∀ o, o ∉ T.hooks.map Hook.ops → t.filter o = base.filter o
  ipmodify : ∀ a, t.ipmodify a = true ↔ base.ipmodify a = true ∨ ∃ hook ∈ S, K.lookupName hook.name = a

/-- Every `unregister_ftrace_function` that the event may come to succeeds. -/
def Event.Unregisters (T : HookTable) : Event → Prop
  | .load K => ∀ hook ∈ T.hooks, K.unregisterError hook.ops = none
  | .unload _ unregisterError => ∀ hook ∈ T.hooks, unregisterError hook.ops = none

section Life

variable {T : HookTable} {K : Kernel} {base : Tracer} {S : Set Hook} {s : State}

theorem Hooked.leftover (h : Hooked T K base S s) : Leftover T K base S s.tracer where
  up := fun hook hhook => ⟨(h.up hook hhook).1, (h.up hook hhook).2.1⟩
  down := fun hook hhook hout => (h.down hook hhook hout).1
  registered := h.registered
  filter := h.filter
  ipmodify := h.ipmodify

/-- ftrace is as it was exactly if no hook was left behind. -/
theorem Leftover.untouched_iff (hbase : ∀ h ∈ T.hooks, base.registered h.ops = false)
    (hsub : S ⊆ members T.hooks) {t : Tracer} (h : Leftover T K base S t) :
    Untouched T base t ↔ S = ∅ := by
  constructor
  · intro hsame
    refine Set.eq_empty_of_forall_notMem fun hook hhook => ?_
    have hup := (h.up hook hhook).1
    rw [hsame.registered, hbase hook (hsub hhook)] at hup
    cases hup
  · rintro rfl
    refine ⟨?_, ?_, h.filter⟩
    · funext o
      by_cases ho : o ∈ T.hooks.map Hook.ops
      · obtain ⟨hook, hhook, rfl⟩ := List.mem_map.mp ho
        rw [h.down hook hhook (Set.notMem_empty hook), hbase hook hhook]
      · exact h.registered o ho
    · funext a
      have hiff := h.ipmodify a
      simp only [Set.mem_empty_iff_false, false_and, exists_false, or_false] at hiff
      exact Bool.eq_iff_iff.mpr hiff

/-- A freshly loaded module has no hook installed. -/
theorem Untouched.hooked (hbase : ∀ h ∈ T.hooks, base.registered h.ops = false)
    (h : Untouched T base s.tracer) (K : Kernel) : Hooked T K base ∅ (s.fresh T) := by
  constructor
  case down =>
    intro hook hhook _
    refine ⟨(congrFun h.registered hook.ops).trans (hbase hook hhook), .inl ?_⟩
    exact if_pos (List.mem_map_of_mem hhook)
  case registered =>
    intro o _
    exact congrFun h.registered o
  case filter =>
    intro o ho
    exact (if_neg ho).trans (h.filter o ho)
  case ipmodify =>
    intro a
    have hsame : (s.fresh T).tracer.ipmodify a = base.ipmodify a := congrFun h.ipmodify a
    simp [hsame]
  all_goals
    intro hook hhook
    exact absurd hhook (Set.notMem_empty hook)

/-- When all hooks are up it does not matter which removals would have failed. -/
theorem Hooked.removal (h : Hooked T K base (members T.hooks) s)
    (clearError unregisterError : Ops → Option Errno) :
    Hooked T { K with clearError := clearError, unregisterError := unregisterError } base
      (members T.hooks) s where
  subset := h.subset
  up := h.up
  resolved := h.resolved
  vacant := h.vacant
  apart := h.apart
  down := fun _ hhook hout => absurd hhook hout
  registered := h.registered
  filter := h.filter
  ipmodify := h.ipmodify

/-- A machine with all hooks, or with none. -/
structure Lives (T : HookTable) (base : Tracer) (m : Machine) : Prop where
  loaded : ∀ K, m.loaded = some K → Hooked T K base (members T.hooks) m.state
  unloaded : m.loaded = none → Untouched T base m.state.tracer

/-- How a load ends. -/
theorem Lives.load (hbase : ∀ h ∈ T.hooks, base.registered h.ops = false) {m m' : Machine}
    (h : Lives T base m) (hnext : m.next T (.load K) = some m') :
    (m'.loaded = some K ↔ ∀ before hook after,
      T.hooks = before ++ hook :: after → Installable K base (members before) hook) ∧
    (∀ K', m'.loaded = some K' → Hooked T K' base (members T.hooks) m'.state) ∧
    (m'.loaded = none → ∃ before hook after, T.hooks = before ++ hook :: after ∧
      Leftover T K base (members before ∩ stuckHooks K.unregisterError) m'.state.tracer) := by
  have hnext' : (if m.loaded.isSome then none else some (m.load T K)) = some m' := hnext
  cases hloaded : m.loaded with
  | some K' =>
      rw [hloaded] at hnext'
      cases hnext'
  | none =>
      rw [hloaded] at hnext'
      obtain rfl := Option.some.inj hnext'
      have hstart := (h.unloaded hloaded).hooked hbase K
      have hiff := bringUp_ok_iff (hooked_layers T K base)
        (fun S x s hx hnew hup => Hooked.install_ok_iff hx hnew hup) (Set.Subset.refl _)
        T.hooks_nodup (fun _ _ => List.not_mem_nil) (members_nil ▸ hstart)
      simp only [members_nil, Set.empty_union] at hiff
      unfold Machine.load
      cases hrun : fhInit T K (m.state.fresh T) with
      | mk r s' =>
          have hrun' : bringUp (fhInstallHook K) (fhRemoveHook K) [] T.hooks (m.state.fresh T) = (r, s') :=
            hrun
          rw [hrun'] at hiff
          cases r with
          | ok u =>
              have hup := bringUp_ok (hooked_layers T K base) (Set.Subset.refl _) T.hooks_nodup hstart hrun'
              refine ⟨iff_of_true rfl (hiff.mp rfl), ?_, fun hnone => (nomatch hnone)⟩
              rintro K' ⟨⟩
              exact hup
          | error e =>
              obtain ⟨before, hook, after, hsplit, hleft⟩ := bringUp_error (hooked_layers T K base)
                (Set.Subset.refl _) T.hooks_nodup hstart hrun'
              refine ⟨?_, fun K' hK' => (nomatch hK'), fun _ =>
                ⟨before, hook, after, hsplit, hleft.leftover⟩⟩
              exact iff_of_false (fun hsome => nomatch hsome) fun hall => nomatch hiff.mpr hall

/-- How an unload ends. -/
theorem Lives.unload {m m' : Machine} {clearError unregisterError : Ops → Option Errno}
    (h : Lives T base m) (hK : m.loaded = some K)
    (hnext : m.next T (.unload clearError unregisterError) = some m') :
    m'.loaded = none ∧
      Leftover T K base (members T.hooks ∩ stuckHooks unregisterError) m'.state.tracer := by
  obtain ⟨K', hK', rfl⟩ := Option.map_eq_some_iff.mp hnext
  obtain rfl := Option.some.inj (hK.symm.trans hK')
  have hup := (h.loaded K hK).removal clearError unregisterError
  have hleft := (tearDown_all (hooked_layers T _ base) T.hooks_nodup hup).leftover
  exact ⟨rfl, ⟨hleft.up, hleft.down, hleft.registered, hleft.filter, hleft.ipmodify⟩⟩

/-- Where every call unregisters, no hook of the table is stuck. -/
theorem members_inter_stuckHooks {unregisterError : Ops → Option Errno} {hooks : List Hook}
    (hsub : hooks ⊆ T.hooks) (hnone : ∀ hook ∈ T.hooks, unregisterError hook.ops = none) :
    members hooks ∩ stuckHooks unregisterError = ∅ :=
  Set.eq_empty_of_forall_notMem fun hook hhook => hhook.2 (hnone hook (hsub hhook.1))

/-- One event with which every hook is unregistered that is to be. -/
theorem Lives.next (hbase : ∀ h ∈ T.hooks, base.registered h.ops = false) {m m' : Machine} {e : Event}
    (h : Lives T base m) (he : e.Unregisters T) (hnext : m.next T e = some m') : Lives T base m' := by
  cases e with
  | load K =>
      obtain ⟨-, hloaded, hnone⟩ := h.load hbase hnext
      refine ⟨hloaded, fun hm' => ?_⟩
      obtain ⟨before, hook, after, hsplit, hleft⟩ := hnone hm'
      have hsub : before ⊆ T.hooks := fun x hx => hsplit ▸ List.mem_append_left _ hx
      have hempty := members_inter_stuckHooks hsub he
      exact (hleft.untouched_iff hbase (Set.inter_subset_left.trans hsub)).mpr hempty
  | unload clearError unregisterError =>
      obtain ⟨K, hK, -⟩ := Option.map_eq_some_iff.mp hnext
      obtain ⟨hnone, hleft⟩ := h.unload hK hnext
      have hempty := members_inter_stuckHooks (List.Subset.refl _) he
      refine ⟨fun K' hK' => ?_, fun _ => (hleft.untouched_iff hbase Set.inter_subset_left).mpr hempty⟩
      cases hnone.symm.trans hK'

theorem lives_of_reach (hbase : ∀ h ∈ T.hooks, base.registered h.ops = false) {m : Machine}
    (h : (sys T base).Reach (fun _ e => e.Unregisters T) m) : Lives T base m := by
  apply TSys.Reach.invariant _ _ h
  · rintro m ⟨hnone, htracer⟩
    refine ⟨fun K hK => ?_, fun _ => ?_⟩
    · cases hnone.symm.trans hK
    · rw [htracer]
      exact ⟨rfl, rfl, fun _ _ => rfl⟩
  · intro m e m' hm he hnext
    exact hm.next hbase he hnext

end Life

/-- A kernel that finds both functions, and another one for every other name, and refuses nothing. -/
def demoKernel : Kernel where
  lookupName := fun name =>
    if name = "__x64_sys_clone" then 0x1000 else if name = "__x64_sys_execve" then 0x2000 else 0x9000
  setError := fun _ => none
  clearError := fun _ => none
  registerError := fun _ => none
  unregisterError := fun _ => none

def quietTracer : Tracer := ⟨fun _ => [], fun _ => false, fun _ => false⟩

def demoMachine : Machine := ⟨⟨quietTracer, fun _ => 0, fun _ => 0⟩, none⟩

end Lkm.Ftrace
