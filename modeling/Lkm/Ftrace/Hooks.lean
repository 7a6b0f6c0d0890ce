import Mathlib.Logic.Function.Basic
import Lkm.Base.Rollback

/-!
# Installing and removing hooks (`ftrace/ftrace_hook.c`)

The hooks of the module over what ftrace keeps: for each `ftrace_ops` the addresses it is
set to and whether it is registered, and for each function whether an ops that changes the
instruction pointer is attached to it. Two of these on one function are refused.

`Kernel` says how the calls of one load end. Whatever it says, an address that is not in a
filter cannot be taken out, nor the last one while the ops is registered; an ops is
registered once and unregistered only if it is registered. Some calls of the source look at
the result and some do not.

`Hooked` says which hooks are up. A hook that cannot be unregistered stays up, as
`fh_remove_hook` only prints the error (`hooked_layers`, for the rules of `Base.Rollback`).
-/

namespace Lkm.Ftrace

open Base

/-- `unsigned long`, an address; 0 is none. -/
abbrev Addr := BitVec 64

/-- A `struct ftrace_ops`, by its place in memory. -/
abbrev Ops := Nat

inductive Errno where
  | enoent
  | enomem
  | ebusy
  | einval
  | enodev
deriving DecidableEq

/-- The fields of `struct ftrace_hook` that the user fills in; `ops` tells the hooks apart. -/
structure Hook where
  name : String
  function : Addr
  ops : Ops
deriving DecidableEq

/-- What ftrace keeps. -/
structure Tracer where
  filter : Ops → List Addr
  registered : Ops → Bool
  /-- `FTRACE_FL_IPMODIFY` of the record of a function. -/
  ipmodify : Addr → Bool

/-- `address` and `*original` of each hook, beside what ftrace keeps. -/
structure State where
  tracer : Tracer
  address : Ops → Addr
  original : Ops → Addr

/-- How the calls of a load end: what `lookup_name` finds, and the errors that ftrace makes up. -/
structure Kernel where
  lookupName : String → Addr
  setError : Ops → Option Errno
  clearError : Ops → Option Errno
  registerError : Ops → Option Errno
  unregisterError : Ops → Option Errno

/-! ## The calls of the kernel -/

namespace Tracer

def withFilter (t : Tracer) (ops : Ops) (f : List Addr) : Tracer :=
  { t with filter := Function.update t.filter ops f }

/-- The ops is at every function of its filter. -/
def attach (t : Tracer) (ops : Ops) : Tracer :=
  { t with
    registered := Function.update t.registered ops true
    ipmodify := fun a => t.ipmodify a || decide (a ∈ t.filter ops) }

def detach (t : Tracer) (ops : Ops) : Tracer :=
  { t with
    registered := Function.update t.registered ops false
    ipmodify := fun a => t.ipmodify a && !decide (a ∈ t.filter ops) }

/-- `ftrace_set_filter_ip(ops, ip, 0, 0)`. -/
def setFilterIp (K : Kernel) (ops : Ops) (ip : Addr) (t : Tracer) : Except Errno Unit × Tracer :=
  match K.setError ops with
  | some e => (.error e, t)
  | none => (.ok (), t.withFilter ops ((t.filter ops).insert ip))

/-- The ops leaves one function. -/
def leave (t : Tracer) (ip : Addr) : Tracer := { t with ipmodify := Function.update t.ipmodify ip false }

/-- `ftrace_set_filter_ip(ops, ip, 1, 0)`. -/
def clearFilterIp (K : Kernel) (ops : Ops) (ip : Addr) (t : Tracer) : Except Errno Unit × Tracer :=
  match K.clearError ops with
  | some e => (.error e, t)
  | none =>
      if ip ∉ t.filter ops then (.error .enoent, t)
      else
      let rest := (t.filter ops).erase ip
      if !t.registered ops then (.ok (), t.withFilter ops rest)
      -- an empty filter stands for all functions, which an ops with `IPMODIFY` may not have
      else if rest = [] then (.error .einval, t)
      else (.ok (), (t.withFilter ops rest).leave ip)

/-- `register_ftrace_function`, of an ops with `FTRACE_OPS_FL_IPMODIFY`. -/
def registerFtraceFunction (K : Kernel) (ops : Ops) (t : Tracer) : Except Errno Unit × Tracer :=
  match K.registerError ops with
  | some e => (.error e, t)
  | none =>
      if t.registered ops || (t.filter ops).any t.ipmodify then (.error .ebusy, t)
      else (.ok (), t.attach ops)

/-- `unregister_ftrace_function`. -/
def unregisterFtraceFunction (K : Kernel) (ops : Ops) (t : Tracer) : Except Errno Unit × Tracer :=
  match K.unregisterError ops with
  | some e => (.error e, t)
  | none => if t.registered ops then (.ok (), t.detach ops) else (.error .ebusy, t)

end Tracer

/-! ## The module -/

def fhResolveHookAddress (K : Kernel) (hook : Hook) (s : State) : Except Errno Unit × State :=
  let address := K.lookupName hook.name
  let s := { s with address := Function.update s.address hook.ops address }
  if address = 0 then (.error .enoent, s)
  else (.ok (), { s with original := Function.update s.original hook.ops address })

def fhInstallHook (K : Kernel) (hook : Hook) (s : State) : Except Errno Unit × State :=
  match fhResolveHookAddress K hook s with
  | (.error e, s) => (.error e, s)
  | (.ok (), s) =>
      match s.tracer.setFilterIp K hook.ops (s.address hook.ops) with
      | (.error e, t) => (.error e, { s with tracer := t })
      | (.ok (), t) =>
          match t.registerFtraceFunction K hook.ops with
          | (.error e, t) =>
              let (_, t) := t.clearFilterIp K hook.ops (s.address hook.ops)
              (.error e, { s with tracer := t })
          | (.ok (), t) => (.ok (), { s with tracer := t })

/-- The results of both calls are only printed. -/
def fhRemoveHook (K : Kernel) (hook : Hook) (s : State) : State :=
  let (_, t) := s.tracer.unregisterFtraceFunction K hook.ops
  let (_, t) := t.clearFilterIp K hook.ops (s.address hook.ops)
  { s with tracer := t }

/-- The loop, and the one behind `error` that counts back. -/
def fhInstallHooks (K : Kernel) (hooks : List Hook) (s : State) : Except Errno Unit × State :=
  bringUp (fhInstallHook K) (fhRemoveHook K) [] hooks s

def fhRemoveHooks (K : Kernel) (hooks : List Hook) (s : State) : State :=
  tearDown (fhRemoveHook K) hooks s

/-! ## One hook -/

/-- The hooks of a module: no two have the same ops. -/
structure HookTable where
  hooks : List Hook
  nodup : (hooks.map Hook.ops).Nodup

namespace HookTable

variable (T : HookTable)

theorem hooks_nodup : T.hooks.Nodup := List.Nodup.of_map _ T.nodup

variable {T} in
theorem eq_of_ops {h h' : Hook} (hh : h ∈ T.hooks) (hh' : h' ∈ T.hooks) (heq : h.ops = h'.ops) :
    h = h' := List.inj_on_of_nodup_map T.nodup hh hh' heq

end HookTable

/-- The hooks in `S` are up, the others of the module are not, and the rest is as in `base`. -/
structure Hooked (T : HookTable) (K : Kernel) (base : Tracer) (S : Set Hook) (s : State) : Prop where
  subset : ∀ h ∈ S, h ∈ T.hooks
  up : ∀ h ∈ S, s.tracer.registered h.ops = true ∧ s.tracer.filter h.ops = [K.lookupName h.name] ∧
    s.address h.ops = K.lookupName h.name ∧ s.original h.ops = K.lookupName h.name
  resolved : ∀ h ∈ S, K.lookupName h.name ≠ 0
  vacant : ∀ h ∈ S, base.ipmodify (K.lookupName h.name) = false
  apart : ∀ h ∈ S, ∀ h' ∈ S, K.lookupName h.name = K.lookupName h'.name → h = h'
  down : ∀ h ∈ T.hooks, h ∉ S → s.tracer.registered h.ops = false ∧
    (s.tracer.filter h.ops = [] ∨
      s.tracer.filter h.ops = [K.lookupName h.name] ∧ K.clearError h.ops ≠ none)
  registered : ∀ o, o ∉ T.hooks.map Hook.ops → s.tracer.registered o = base.registered o
  filter : ∀ o, o ∉ T.hooks.map Hook.ops → s.tracer.filter o = base.filter o
  ipmodify : ∀ a, s.tracer.ipmodify a = true ↔
    base.ipmodify a = true ∨ ∃ h ∈ S, K.lookupName h.name = a

namespace Tracer

variable (K : Kernel) (ops : Ops) (ip : Addr) (t : Tracer)

/-- Setting a filter fails, or the address is in it. -/
theorem setFilterIp_cases :
    (∃ e, t.setFilterIp K ops ip = (.error e, t)) ∨
      t.setFilterIp K ops ip = (.ok (), t.withFilter ops ((t.filter ops).insert ip)) := by
  unfold setFilterIp
  cases K.setError ops with
  | none => exact .inr rfl
  | some e => exact .inl ⟨e, rfl⟩

/-- Registering fails, or nobody else is at the functions of the filter. -/
theorem registerFtraceFunction_cases :
    (∃ e, t.registerFtraceFunction K ops = (.error e, t)) ∨
      t.registered ops = false ∧ (∀ a ∈ t.filter ops, t.ipmodify a = false) ∧
        t.registerFtraceFunction K ops = (.ok (), t.attach ops) := by
  unfold registerFtraceFunction
  cases K.registerError ops with
  | some e => exact .inl ⟨e, rfl⟩
  | none =>
      dsimp only
      by_cases hbusy : (t.registered ops || (t.filter ops).any t.ipmodify) = true
      · rw [if_pos hbusy]
        exact .inl ⟨_, rfl⟩
      · rw [if_neg hbusy]
        rw [Bool.not_eq_true, Bool.or_eq_false_iff, List.any_eq_false] at hbusy
        exact .inr ⟨hbusy.1, fun a ha => Bool.eq_false_of_not_eq_true (hbusy.2 a ha), rfl⟩

variable {ops t} in
/-- Clearing a filter of an ops that is not registered, whether the result is looked at or not. -/
theorem clearFilterIp_snd (hreg : t.registered ops = false) :
    (t.clearFilterIp K ops ip).2 =
      t.withFilter ops (if K.clearError ops = none then (t.filter ops).erase ip else t.filter ops) := by
  unfold clearFilterIp withFilter
  cases K.clearError ops with
  | some e => simp
  | none =>
      by_cases hmem : ip ∈ t.filter ops
      · simp [hmem, hreg]
      · simp [hmem, List.erase_of_not_mem hmem]

variable {ops ip t} in
/-- A registered ops keeps its only address. -/
theorem clearFilterIp_last (hreg : t.registered ops = true) (hfilter : t.filter ops = [ip]) :
    (t.clearFilterIp K ops ip).2 = t := by
  unfold clearFilterIp
  cases K.clearError ops with
  | some e => rfl
  | none => simp [hreg, hfilter]

theorem withFilter_self (f : List Addr) : (t.withFilter ops f).filter ops = f := Function.update_self ..

variable {ops t} in
theorem withFilter_ne {o : Ops} (h : o ≠ ops) (f : List Addr) :
    (t.withFilter ops f).filter o = t.filter o := Function.update_of_ne h ..

end Tracer

section Hook

variable {T : HookTable} {K : Kernel} {base : Tracer} {S : Set Hook} {hook : Hook} {s s' : State}

/-- How installing a hook ends that is not registered. When it fails, at most the filter of its own
ops is different. -/
theorem fhInstallHook_cases (K : Kernel) (hook : Hook) (s : State)
    (hfresh : s.tracer.registered hook.ops = false) :
    (∃ e t original, fhInstallHook K hook s = (.error e, {
        tracer := t
        address := Function.update s.address hook.ops (K.lookupName hook.name)
        original := Function.update s.original hook.ops original }) ∧
      (t = s.tracer ∨ ∃ f, f = (s.tracer.filter hook.ops).insert (K.lookupName hook.name) ∧
        t = s.tracer.withFilter hook.ops
          (if K.clearError hook.ops = none then f.erase (K.lookupName hook.name) else f))) ∨
    ∃ f, f = (s.tracer.filter hook.ops).insert (K.lookupName hook.name) ∧
      K.lookupName hook.name ≠ 0 ∧ (∀ a ∈ f, s.tracer.ipmodify a = false) ∧
      fhInstallHook K hook s = (.ok (), {
        tracer := (s.tracer.withFilter hook.ops f).attach hook.ops
        address := Function.update s.address hook.ops (K.lookupName hook.name)
        original := Function.update s.original hook.ops (K.lookupName hook.name) }) := by
  unfold fhInstallHook fhResolveHookAddress
  by_cases hnone : K.lookupName hook.name = 0
  · refine .inl ⟨.enoent, s.tracer, s.original hook.ops, ?_, .inl rfl⟩
    simp [hnone]
  simp only [hnone, if_false, Function.update_self]
  rcases s.tracer.setFilterIp_cases K hook.ops (K.lookupName hook.name) with ⟨e, hset⟩ | hset
  · rw [hset]
    exact .inl ⟨e, s.tracer, K.lookupName hook.name, rfl, .inl rfl⟩
  rw [hset]
  dsimp only
  generalize (s.tracer.filter hook.ops).insert (K.lookupName hook.name) = f
  rcases (s.tracer.withFilter hook.ops f).registerFtraceFunction_cases K hook.ops with
    ⟨e, hreg⟩ | ⟨-, hvacant, hreg⟩
  · have hfresh' : (s.tracer.withFilter hook.ops f).registered hook.ops = false := hfresh
    rw [hreg]
    dsimp only
    rw [Tracer.clearFilterIp_snd K _ hfresh', Tracer.withFilter_self]
    refine .inl ⟨e, _, K.lookupName hook.name, rfl, .inr ⟨f, rfl, ?_⟩⟩
    unfold Tracer.withFilter
    simp
  · rw [hreg]
    rw [Tracer.withFilter_self] at hvacant
    exact .inr ⟨f, rfl, hnone, hvacant, rfl⟩

/-- What a removed hook has changed, if it was registered and could be unregistered. -/
theorem fhRemoveHook_eq (h : s.tracer.registered hook.ops = true)
    (hunreg : K.unregisterError hook.ops = none) :
    fhRemoveHook K hook s = { s with
      tracer := (s.tracer.detach hook.ops).withFilter hook.ops
        (if K.clearError hook.ops = none then
          (s.tracer.filter hook.ops).erase (s.address hook.ops)
        else s.tracer.filter hook.ops) } := by
  have hgone : (s.tracer.detach hook.ops).registered hook.ops = false := Function.update_self ..
  unfold fhRemoveHook Tracer.unregisterFtraceFunction
  rw [hunreg]
  dsimp only
  rw [if_pos h]
  dsimp only
  rw [Tracer.clearFilterIp_snd K _ hgone]
  rfl

/-- A hook that cannot be unregistered stays as it is: its filter cannot be cleared, either. -/
theorem fhRemoveHook_stuck (h : s.tracer.registered hook.ops = true)
    (hfilter : s.tracer.filter hook.ops = [s.address hook.ops])
    (hunreg : K.unregisterError hook.ops ≠ none) : fhRemoveHook K hook s = s := by
  obtain ⟨e, he⟩ := Option.ne_none_iff_exists'.mp hunreg
  unfold fhRemoveHook Tracer.unregisterFtraceFunction
  rw [he]
  dsimp only
  rw [Tracer.clearFilterIp_last K h hfilter]

namespace Hooked

/-- The filter of a hook that is installed is its function and nothing else. -/
theorem filter_insert (h : Hooked T K base S s) (hhook : hook ∈ T.hooks) (hnew : hook ∉ S) :
    (s.tracer.filter hook.ops).insert (K.lookupName hook.name) = [K.lookupName hook.name] := by
  rcases (h.down hook hhook hnew).2 with hempty | ⟨hstale, -⟩
  · rw [hempty]
    rfl
  · rw [hstale]
    simp

/-- The ops of another hook is another one. -/
theorem ops_ne (h : Hooked T K base S s) (hhook : hook ∈ T.hooks) (hnew : hook ∉ S) {h' : Hook}
    (hh' : h' ∈ S) : h'.ops ≠ hook.ops := by
  intro heq
  exact hnew (T.eq_of_ops (h.subset h' hh') hhook heq ▸ hh')

theorem install_ok (h : Hooked T K base S s) (hhook : hook ∈ T.hooks) (hnew : hook ∉ S)
    (hrun : fhInstallHook K hook s = (.ok (), s')) : Hooked T K base (insert hook S) s' := by
  rcases fhInstallHook_cases K hook s (h.down hook hhook hnew).1 with
    ⟨e, t, o, herror, -⟩ | ⟨f, hf, hsym, hvacant, hok⟩
  · cases herror.symm.trans hrun
  obtain ⟨-, rfl⟩ := Prod.mk.inj (hok.symm.trans hrun)
  rw [h.filter_insert hhook hnew] at hf
  subst hf
  have hfree : s.tracer.ipmodify (K.lookupName hook.name) = false :=
    hvacant _ (List.mem_singleton.mpr rfl)
  -- then nobody was at the function before, and no hook of the module is
  have hbase : base.ipmodify (K.lookupName hook.name) = false := by
    by_contra hne
    have hset := (h.ipmodify _).mpr (.inl (Bool.eq_true_of_not_eq_false hne))
    cases hfree.symm.trans hset
  have hother : ∀ h' ∈ S, K.lookupName h'.name ≠ K.lookupName hook.name := by
    intro h' hh' heq
    have hset := (h.ipmodify _).mpr (.inr ⟨h', hh', heq⟩)
    cases hfree.symm.trans hset
  constructor
  case subset =>
    rintro h' (rfl | hh')
    · exact hhook
    · exact h.subset h' hh'
  case up =>
    rintro h' (rfl | hh')
    · simp [Tracer.attach, Tracer.withFilter]
    · have hne := h.ops_ne hhook hnew hh'
      simpa [Tracer.attach, Tracer.withFilter, hne] using h.up h' hh'
  case resolved =>
    rintro h' (rfl | hh')
    · exact hsym
    · exact h.resolved h' hh'
  case vacant =>
    rintro h' (rfl | hh')
    · exact hbase
    · exact h.vacant h' hh'
  case apart =>
    rintro h₁ (rfl | hh₁) h₂ (rfl | hh₂) heq
    · rfl
    · exact absurd heq.symm (hother h₂ hh₂)
    · exact absurd heq (hother h₁ hh₁)
    · exact h.apart h₁ hh₁ h₂ hh₂ heq
  case down =>
    intro h' hh' hout
    have hne : h'.ops ≠ hook.ops := by
      intro heq
      exact hout (.inl (T.eq_of_ops hh' hhook heq))
    have hdown := h.down h' hh' fun hmem => hout (.inr hmem)
    simpa [Tracer.attach, Tracer.withFilter, hne] using hdown
  case registered =>
    intro o ho
    have hne : o ≠ hook.ops := by
      rintro rfl
      exact ho (List.mem_map_of_mem hhook)
    simpa [Tracer.attach, Tracer.withFilter, hne] using h.registered o ho
  case filter =>
    intro o ho
    have hne : o ≠ hook.ops := by
      rintro rfl
      exact ho (List.mem_map_of_mem hhook)
    simpa [Tracer.attach, Tracer.withFilter, hne] using h.filter o ho
  case ipmodify =>
    intro a
    simp only [Tracer.attach, Tracer.withFilter, Function.update_self, List.mem_singleton,
      Bool.or_eq_true, decide_eq_true_eq, h.ipmodify a]
    constructor
    · rintro ((hb | ⟨h', hh', ha⟩) | rfl)
      · exact .inl hb
      · exact .inr ⟨h', .inr hh', ha⟩
      · exact .inr ⟨hook, .inl rfl, rfl⟩
    · rintro (hb | ⟨h', rfl | hh', ha⟩)
      · exact .inl (.inl hb)
      · exact .inr ha.symm
      · exact .inl (.inr ⟨h', hh', ha⟩)

/-- A change of the filter of a hook that is not up, within what it may be. -/
theorem of_filter (h : Hooked T K base S s) (hhook : hook ∈ T.hooks) (hnew : hook ∉ S)
    {f : List Addr}
    (hf : f = [] ∨ f = [K.lookupName hook.name] ∧ K.clearError hook.ops ≠ none)
    (htracer : s'.tracer = s.tracer.withFilter hook.ops f)
    (haddress : ∀ o, o ≠ hook.ops → s'.address o = s.address o)
    (horiginal : ∀ o, o ≠ hook.ops → s'.original o = s.original o) : Hooked T K base S s' := by
  constructor
  case subset => exact h.subset
  case up =>
    intro h' hh'
    have hne := h.ops_ne hhook hnew hh'
    rw [htracer, haddress _ hne, horiginal _ hne, Tracer.withFilter_ne hne]
    exact h.up h' hh'
  case resolved => exact h.resolved
  case vacant => exact h.vacant
  case apart => exact h.apart
  case down =>
    intro h' hh' hout
    rw [htracer]
    by_cases heq : h' = hook
    · subst heq
      rw [Tracer.withFilter_self]
      exact ⟨(h.down h' hh' hout).1, hf⟩
    · have hne : h'.ops ≠ hook.ops := fun hops => heq (T.eq_of_ops hh' hhook hops)
      rw [Tracer.withFilter_ne hne]
      exact h.down h' hh' hout
  case registered =>
    intro o ho
    rw [htracer]
    exact h.registered o ho
  case filter =>
    intro o ho
    have hne : o ≠ hook.ops := by
      rintro rfl
      exact ho (List.mem_map_of_mem hhook)
    rw [htracer, Tracer.withFilter_ne hne]
    exact h.filter o ho
  case ipmodify =>
    intro a
    rw [htracer]
    exact h.ipmodify a

theorem install_error (h : Hooked T K base S s) (hhook : hook ∈ T.hooks) (hnew : hook ∉ S)
    {e : Errno} (hrun : fhInstallHook K hook s = (.error e, s')) : Hooked T K base S s' := by
  obtain ⟨hfresh, hdown⟩ := h.down hook hhook hnew
  rcases fhInstallHook_cases K hook s hfresh with ⟨e, t, o, herror, ht⟩ | ⟨f, -, -, -, hok⟩
  · obtain ⟨-, rfl⟩ := Prod.mk.inj (herror.symm.trans hrun)
    have hother : ∀ (g : Ops → Addr) x o, o ≠ hook.ops → Function.update g hook.ops x o = g o :=
      fun g x o ho => Function.update_of_ne ho x g
    rcases ht with rfl | ⟨f, hf, rfl⟩
    · apply h.of_filter hhook hnew hdown
      · simp [Tracer.withFilter]
      · exact hother _ _
      · exact hother _ _
    · rw [h.filter_insert hhook hnew] at hf
      subst hf
      apply h.of_filter hhook hnew _ rfl (hother _ _) (hother _ _)
      by_cases hclear : K.clearError hook.ops = none
      · rw [if_pos hclear]
        exact .inl (by simp)
      · rw [if_neg hclear]
        exact .inr ⟨rfl, hclear⟩
  · cases hok.symm.trans hrun

theorem remove (h : Hooked T K base S s) (hmem : hook ∈ S) (hunreg : K.unregisterError hook.ops = none) :
    Hooked T K base (S \ {hook}) (fhRemoveHook K hook s) := by
  obtain ⟨hreg, hfilter, haddress, -⟩ := h.up hook hmem
  have hhook := h.subset hook hmem
  rw [fhRemoveHook_eq hreg hunreg, hfilter, haddress]
  -- the ops of the others
  have hne : ∀ h' ∈ T.hooks, h' ≠ hook → h'.ops ≠ hook.ops :=
    fun h' hh' hneq hops => hneq (T.eq_of_ops hh' hhook hops)
  have hout : ∀ o, o ∉ T.hooks.map Hook.ops → o ≠ hook.ops := by
    rintro o ho rfl
    exact ho (List.mem_map_of_mem hhook)
  constructor
  case subset =>
    intro h' hh'
    exact h.subset h' hh'.1
  case up =>
    intro h' hh'
    have hops := hne h' (h.subset h' hh'.1) hh'.2
    simpa [Tracer.detach, Tracer.withFilter, hops] using h.up h' hh'.1
  case resolved =>
    intro h' hh'
    exact h.resolved h' hh'.1
  case vacant =>
    intro h' hh'
    exact h.vacant h' hh'.1
  case apart =>
    intro h₁ hh₁ h₂ hh₂ heq
    exact h.apart h₁ hh₁.1 h₂ hh₂.1 heq
  case down =>
    intro h' hh' hgone
    by_cases heq : h' = hook
    · subst heq
      refine ⟨by simp [Tracer.detach, Tracer.withFilter], ?_⟩
      rw [Tracer.withFilter_self]
      by_cases hclear : K.clearError h'.ops = none
      · rw [if_pos hclear]
        exact .inl (by simp)
      · rw [if_neg hclear]
        exact .inr ⟨rfl, hclear⟩
    · have hdown := h.down h' hh' fun hmem' => hgone ⟨hmem', heq⟩
      simpa [Tracer.detach, Tracer.withFilter, hne h' hh' heq] using hdown
  case registered =>
    intro o ho
    simpa [Tracer.detach, Tracer.withFilter, hout o ho] using h.registered o ho
  case filter =>
    intro o ho
    simpa [Tracer.detach, Tracer.withFilter, hout o ho] using h.filter o ho
  case ipmodify =>
    intro a
    simp only [Tracer.detach, Tracer.withFilter, hfilter, List.mem_singleton, Bool.and_eq_true,
      Bool.not_eq_true', decide_eq_false_iff_not, h.ipmodify a]
    constructor
    · rintro ⟨hb | ⟨h', hh', ha⟩, hne'⟩
      · exact .inl hb
      · refine .inr ⟨h', ⟨hh', ?_⟩, ha⟩
        rintro rfl
        exact hne' ha.symm
    · rintro (hb | ⟨h', ⟨hh', hneq⟩, ha⟩)
      · refine ⟨.inl hb, ?_⟩
        rintro rfl
        cases hb.symm.trans (h.vacant hook hmem)
      · refine ⟨.inr ⟨h', hh', ha⟩, ?_⟩
        rintro rfl
        exact hneq (h.apart h' hh' hook hmem ha)

theorem remove_stuck (h : Hooked T K base S s) (hmem : hook ∈ S)
    (hunreg : K.unregisterError hook.ops ≠ none) : Hooked T K base S (fhRemoveHook K hook s) := by
  obtain ⟨hreg, hfilter, haddress, -⟩ := h.up hook hmem
  rw [fhRemoveHook_stuck hreg (haddress.symm ▸ hfilter) hunreg]
  exact h

end Hooked

/-- The hooks that the kernel does not unregister. -/
def stuckHooks (unregisterError : Ops → Option Errno) : Set Hook :=
  {hook | unregisterError hook.ops ≠ none}

/-- Installing and removing single hooks, as layers. -/
theorem hooked_layers (T : HookTable) (K : Kernel) (base : Tracer) :
    Layers (fhInstallHook K) (fhRemoveHook K) (members T.hooks) (stuckHooks K.unregisterError)
      (Hooked T K base) where
  ok := fun _ _ _ _ hhook hnew h hrun => h.install_ok hhook hnew hrun
  error := fun _ _ _ _ _ hhook hnew h hrun => h.install_error hhook hnew hrun
  free := fun _ _ _ hmem hstuck h => h.remove hmem (not_not.mp hstuck)
  kept := fun _ _ _ hmem hstuck h => h.remove_stuck hmem hstuck

end Hook

end Lkm.Ftrace
