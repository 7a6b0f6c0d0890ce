import Lkm.Base.Transitions

/-!
# Code that the system calls back

A module hands out one of its functions, to be called when a timer expires, from a queue, for
each event of a chain, or as a thread, and is unloaded one day. `Plan` is the code of such a
module: the calls that its functions make, in their order. What a call does to the function
handed out is up to the kernel (`Kernel`), and so is when it returns. `Plan.sys` interleaves
the loader, who runs `init` and later `exit`, with the calls of the function. One that begins
or goes on after the module has gone is a fault, and `Plan.Safe` says that no run has one.

The rules ask of the kernel what they need: `safe_of_waits` is the one for an exit that comes
to a call which waits, `not_safe_of_prompt` the one for an exit that does not,
`safe_of_quiet` the one for a module that handed nothing out after all. `exit_finishes` says
when the waiting comes to an end, and `never_gone` when it does not.
-/

namespace Base
namespace Callback

/-- What the kernel keeps about the function handed out: whether a call of it is due, whether
others can make one due, and whether its thread has been signalled. -/
structure Flags where
  queued : Bool
  hooked : Bool
  signalled : Bool
deriving DecidableEq

/-- A kernel with the functions `κ`. `does f busy d d'` is whether `f` may return and turn `d`
into `d'`, where `busy` is whether a call of the function handed out is running. While there
is no such `d'`, whoever has called `f` waits. -/
structure Kernel (κ : Type) where
  does : κ → Bool → Flags → Flags → Bool

/-- What happens at the end of the function: that was it, a new call is due, or a thread
goes through a loop's body until it is signalled. -/
inductive After (κ : Type)
  | stop
  | requeue
  | loop (body : List κ)

structure Plan (κ : Type) where
  init : List κ
  body : List κ
  after : After κ
  exit : List κ

/-- How far the loader is, with the calls that it still has to make. -/
inductive Stage (κ : Type)
  | init (rest : List κ)
  | loaded
  | exit (rest : List κ)
  | gone

/-- `running` has what each call of the function that has begun still has to do. -/
structure State (κ : Type) where
  stage : Stage κ
  flags : Flags
  running : List (List κ)
  fault : Bool

/-- With each call of a kernel function comes what it leaves. -/
inductive Event
  | load (d : Flags)
  | unload
  | raise
  | fire
  | call (i : Nat) (d : Flags)

variable {κ : Type}

def After.body : After κ → List κ
  | .stop => []
  | .requeue => []
  | .loop body => body

/-- All calls in the module. -/
def Plan.code (P : Plan κ) : List κ := P.init ++ P.body ++ P.after.body ++ P.exit

def Plan.start (P : Plan κ) : State κ where
  stage := .init P.init
  flags := ⟨false, false, false⟩
  running := []
  fault := false

def State.busy (s : State κ) : Bool := !s.running.isEmpty

/-- The loader's next step. -/
def State.load (K : Kernel κ) (s : State κ) (d : Flags) : Option (State κ) :=
  match s.stage with
  | .init [] => some { s with stage := .loaded }
  | .init (f :: rest) =>
      if K.does f s.busy s.flags d then some { s with stage := .init rest, flags := d } else none
  | .loaded => none
  | .exit [] => some { s with stage := .gone }
  | .exit (f :: rest) =>
      if K.does f s.busy s.flags d then some { s with stage := .exit rest, flags := d } else none
  | .gone => none

/-- The call `i` has come to the end of its code. -/
def State.finish (s : State κ) (after : After κ) (i : Nat) : State κ :=
  match after with
  | .stop => { s with running := s.running.eraseIdx i }
  | .requeue =>
      { s with running := s.running.eraseIdx i, flags := { s.flags with queued := true } }
  | .loop body =>
      if s.flags.signalled then { s with running := s.running.eraseIdx i }
      else { s with running := s.running.set i body }

/-- Nothing goes on after a fault. -/
def Plan.next (K : Kernel κ) (P : Plan κ) (s : State κ) (e : Event) : Option (State κ) :=
  if s.fault then none else
  match e, s.stage with
  | .load d, _ => s.load K d
  | .unload, .loaded => some { s with stage := .exit P.exit }
  | .unload, _ => none
  | .raise, _ =>
      if s.flags.hooked then some { s with flags := { s.flags with queued := true } } else none
  | .fire, .gone => if s.flags.queued then some { s with fault := true } else none
  | .fire, _ =>
      if s.flags.queued then
        some { s with flags := { s.flags with queued := false }, running := s.running ++ [P.body] }
      else none
  | .call i _, .gone => s.running[i]?.map fun _ => { s with fault := true }
  | .call i d, _ =>
      match s.running[i]? with
      | none => none
      | some [] => some (s.finish P.after i)
      | some (f :: rest) =>
          if K.does f s.busy s.flags d then some { s with flags := d, running := s.running.set i rest }
          else none

def Plan.sys (K : Kernel κ) (P : Plan κ) : TSys (State κ) Event where
  init s := s = P.start
  next := P.next K

/-- No call begins or goes on once the module has gone. -/
def Plan.Safe (K : Kernel κ) (P : Plan κ) : Prop := ∀ s, (P.sys K).Reachable s → s.fault = false

/-! ## What a function of the kernel may be known to do -/

namespace Kernel

variable (K : Kernel κ) (f : κ)

/-- It never waits. -/
def Prompt : Prop := ∀ busy d, ∃ d', K.does f busy d d' = true

/-- It returns when no call is running. -/
def Returns : Prop := ∀ d, ∃ d', K.does f false d d' = true

/-- It returns when no call is running or due. -/
def ReturnsDrained : Prop := ∀ d, d.queued = false → ∃ d', K.does f false d d' = true

/-- It makes no call due. -/
def NoArm : Prop := ∀ busy d d', K.does f busy d d' = true → d.queued = false → d'.queued = false

/-- It lets nobody else make a call due. -/
def NoHook : Prop := ∀ busy d d', K.does f busy d d' = true → d.hooked = false → d'.hooked = false

/-- It takes no call back that is due. -/
def Keeps : Prop := ∀ busy d d', K.does f busy d d' = true → d.queued = true → d'.queued = true

/-- It has nothing to do with the function handed out. -/
structure Leaves : Prop where
  prompt : K.Prompt f
  same : ∀ busy d d', K.does f busy d d' = true → d' = d

/-- A call becomes due. -/
structure Arms : Prop where
  prompt : K.Prompt f
  queued : ∀ busy d d', K.does f busy d d' = true → d'.queued = true
  hooked : ∀ busy d d', K.does f busy d d' = true → d'.hooked = d.hooked

/-- It returns once no call is running, and a call that was due is due no more. -/
structure Cancels : Prop where
  returns : K.Returns f
  idle : ∀ busy d d', K.does f busy d d' = true → busy = false ∧ d'.queued = false ∧ d'.hooked = d.hooked

/-- It returns once no call is running or due. -/
structure Drains : Prop where
  returns : K.ReturnsDrained f
  idle : ∀ busy d d', K.does f busy d d' = true →
    busy = false ∧ d.queued = false ∧ d'.queued = false ∧ d'.hooked = d.hooked

/-- It returns once no call is running, and from then on nobody makes one due. -/
structure Unhooks : Prop where
  returns : K.Returns f
  idle : ∀ busy d d', K.does f busy d d' = true → busy = false ∧ d'.queued = false ∧ d'.hooked = false

end Kernel

variable {K : Kernel κ} {f : κ}

theorem Kernel.Leaves.noArm (h : K.Leaves f) : K.NoArm f := by
  intro busy d d' hdoes hd
  rw [h.same busy d d' hdoes, hd]

theorem Kernel.Leaves.noHook (h : K.Leaves f) : K.NoHook f := by
  intro busy d d' hdoes hd
  rw [h.same busy d d' hdoes, hd]

theorem Kernel.Leaves.keeps (h : K.Leaves f) : K.Keeps f := by
  intro busy d d' hdoes hd
  rw [h.same busy d d' hdoes, hd]

theorem Kernel.Arms.noHook (h : K.Arms f) : K.NoHook f := by
  intro busy d d' hdoes hd
  rw [h.hooked busy d d' hdoes, hd]

theorem Kernel.Arms.keeps (h : K.Arms f) : K.Keeps f := fun busy d d' hdoes _ =>
  h.queued busy d d' hdoes

theorem Kernel.Cancels.noHook (h : K.Cancels f) : K.NoHook f := by
  intro busy d d' hdoes hd
  rw [(h.idle busy d d' hdoes).2.2, hd]

theorem Kernel.Drains.noHook (h : K.Drains f) : K.NoHook f := by
  intro busy d d' hdoes hd
  rw [(h.idle busy d d' hdoes).2.2.2, hd]

theorem Kernel.Drains.keeps (h : K.Drains f) : K.Keeps f := by
  intro busy d d' hdoes hd
  rw [(h.idle busy d d' hdoes).2.1] at hd
  cases hd

/-! ## The steps -/

/-- What a step can do. -/
inductive Steps (K : Kernel κ) (P : Plan κ) (s : State κ) : State κ → Prop
  | init {f : κ} {rest : List κ} {d : Flags} (hstage : s.stage = .init (f :: rest))
      (hdoes : K.does f s.busy s.flags d = true) : Steps K P s { s with stage := .init rest, flags := d }
  | loaded (hstage : s.stage = .init []) : Steps K P s { s with stage := .loaded }
  | unload (hstage : s.stage = .loaded) : Steps K P s { s with stage := .exit P.exit }
  | exit {f : κ} {rest : List κ} {d : Flags} (hstage : s.stage = .exit (f :: rest))
      (hdoes : K.does f s.busy s.flags d = true) : Steps K P s { s with stage := .exit rest, flags := d }
  | gone (hstage : s.stage = .exit []) : Steps K P s { s with stage := .gone }
  | raise (hhooked : s.flags.hooked = true) :
      Steps K P s { s with flags := { s.flags with queued := true } }
  | fire (hgone : s.stage ≠ .gone) (hqueued : s.flags.queued = true) :
      Steps K P s
        { s with flags := { s.flags with queued := false }, running := s.running ++ [P.body] }
  | call {i : Nat} {f : κ} {rest : List κ} {d : Flags} (hgone : s.stage ≠ .gone)
      (hcode : s.running[i]? = some (f :: rest)) (hdoes : K.does f s.busy s.flags d = true) :
      Steps K P s { s with flags := d, running := s.running.set i rest }
  | finish {i : Nat} (hgone : s.stage ≠ .gone) (hcode : s.running[i]? = some []) :
      Steps K P s (s.finish P.after i)
  | stale (hgone : s.stage = .gone) (hleft : s.flags.queued = true ∨ s.running ≠ []) :
      Steps K P s { s with fault := true }

variable {P : Plan κ} {s s' : State κ}

theorem steps_of_load {d : Flags} (h : s.load K d = some s') : Steps K P s s' := by
  unfold State.load at h
  split at h
  next hstage =>
    cases h
    exact .loaded hstage
  next f rest hstage =>
    obtain ⟨hdoes, rfl⟩ := Option.ite_none_right_eq_some.mp h |>.imp_right Option.some.inj
    exact .init hstage hdoes
  next => cases h
  next hstage =>
    cases h
    exact .gone hstage
  next f rest hstage =>
    obtain ⟨hdoes, rfl⟩ := Option.ite_none_right_eq_some.mp h |>.imp_right Option.some.inj
    exact .exit hstage hdoes
  next => cases h

theorem steps_of_next {e : Event} (h : P.next K s e = some s') : s.fault = false ∧ Steps K P s s' := by
  unfold Plan.next at h
  rw [Option.ite_none_left_eq_some, Bool.not_eq_true] at h
  refine ⟨h.1, ?_⟩
  replace h := h.2
  split at h
  next d => exact steps_of_load h
  next hstage =>
    cases h
    exact .unload hstage
  next => cases h
  next =>
    obtain ⟨hhooked, rfl⟩ := Option.ite_none_right_eq_some.mp h |>.imp_right Option.some.inj
    exact .raise hhooked
  next hgone =>
    obtain ⟨hqueued, rfl⟩ := Option.ite_none_right_eq_some.mp h |>.imp_right Option.some.inj
    exact .stale hgone (.inl hqueued)
  next hgone =>
    obtain ⟨hqueued, rfl⟩ := Option.ite_none_right_eq_some.mp h |>.imp_right Option.some.inj
    exact .fire hgone hqueued
  next i _ hgone =>
    obtain ⟨code, hcode, rfl⟩ := Option.map_eq_some_iff.mp h
    exact .stale hgone (.inr (List.ne_nil_of_mem (List.mem_of_getElem? hcode)))
  next i d hgone =>
    split at h
    next => cases h
    next hcode =>
      cases h
      exact .finish hgone hcode
    next f rest hcode =>
      obtain ⟨hdoes, rfl⟩ := Option.ite_none_right_eq_some.mp h |>.imp_right Option.some.inj
      exact .call hgone hcode hdoes

/-- Each of these steps is one of the system. -/
theorem Steps.leads (hfault : s.fault = false) (h : Steps K P s s') : (P.sys K).Leads s s' := by
  cases h with
  | @init f rest d hstage hdoes =>
      exact .single (.load d) (by simp [Plan.sys, Plan.next, State.load, hfault, hstage, hdoes])
  | loaded hstage =>
      exact .single (.load s.flags) (by simp [Plan.sys, Plan.next, State.load, hfault, hstage])
  | unload hstage => exact .single .unload (by simp [Plan.sys, Plan.next, hfault, hstage])
  | @exit f rest d hstage hdoes =>
      exact .single (.load d) (by simp [Plan.sys, Plan.next, State.load, hfault, hstage, hdoes])
  | gone hstage =>
      exact .single (.load s.flags) (by simp [Plan.sys, Plan.next, State.load, hfault, hstage])
  | raise hhooked => exact .single .raise (by simp [Plan.sys, Plan.next, hfault, hhooked])
  | fire hgone hqueued =>
      refine .single .fire ?_
      unfold Plan.sys Plan.next
      cases hstage : s.stage with
      | gone => exact absurd hstage hgone
      | init rest | loaded | exit rest => simp [hfault, hqueued, hstage]
  | @call i f rest d hgone hcode hdoes =>
      refine .single (.call i d) ?_
      unfold Plan.sys Plan.next
      cases hstage : s.stage with
      | gone => exact absurd hstage hgone
      | init rest | loaded | exit rest => simp [hfault, hcode, hdoes, hstage]
  | @finish i hgone hcode =>
      refine .single (.call i s.flags) ?_
      unfold Plan.sys Plan.next
      cases hstage : s.stage with
      | gone => exact absurd hstage hgone
      | init rest | loaded | exit rest => simp [hfault, hcode, hstage]
  | stale hgone hleft =>
      rcases hleft with hqueued | hrunning
      · exact .single .fire (by simp [Plan.sys, Plan.next, hfault, hgone, hqueued])
      · obtain ⟨code, rest, hcons⟩ := List.exists_cons_of_ne_nil hrunning
        exact .single (.call 0 s.flags) (by simp [Plan.sys, Plan.next, hfault, hgone, hcons])

/-- A property that every step keeps holds in every run. -/
theorem invariant {I : State κ → Prop} (hstart : I P.start)
    (hstep : ∀ s s', (P.sys K).Reachable s → I s → s.fault = false → Steps K P s s' → I s')
    (hs : (P.sys K).Reachable s) : I s := by
  induction hs with
  | init hinit =>
      obtain rfl : _ = P.start := hinit
      exact hstart
  | step e hs _ hnext ih =>
      obtain ⟨hfault, hsteps⟩ := steps_of_next hnext
      exact hstep _ _ hs ih hfault hsteps

theorem finish_frame (s : State κ) (after : After κ) (i : Nat) :
    (s.finish after i).stage = s.stage ∧ (s.finish after i).fault = s.fault ∧
      (s.finish after i).flags.hooked = s.flags.hooked ∧
      ∀ code ∈ (s.finish after i).running, code ∈ s.running ∨ code = after.body := by
  cases after with
  | stop | requeue =>
      refine ⟨rfl, rfl, rfl, ?_⟩
      intro code hcode
      exact .inl (List.mem_of_mem_eraseIdx hcode)
  | loop body =>
      cases hsignalled : s.flags.signalled with
      | true =>
          simp only [State.finish, hsignalled, if_true, true_and]
          intro code hcode
          exact .inl (List.mem_of_mem_eraseIdx hcode)
      | false =>
          simp only [State.finish, hsignalled, Bool.false_eq_true, if_false, true_and]
          intro code hcode
          exact List.mem_or_eq_of_mem_set hcode

/-! ## What holds in every run -/

/-- The loader and the calls run the module's own code, and a fault needs the module to have
gone. -/
structure Follows (P : Plan κ) (s : State κ) : Prop where
  init : ∀ rest, s.stage = .init rest → rest ⊆ P.init
  exit : ∀ rest, s.stage = .exit rest → rest <:+ P.exit
  running : ∀ code ∈ s.running, code ⊆ P.body ++ P.after.body
  fault : s.fault = true → s.stage = .gone

theorem Follows.start : Follows P P.start := by
  refine ⟨?_, nofun, by simp [Plan.start], nofun⟩
  rintro _ ⟨⟩
  exact List.Subset.refl _

theorem Follows.step (h : Follows P s) (hfault : s.fault = false) (hstep : Steps K P s s') :
    Follows P s' := by
  cases hstep with
  | init hstage _ =>
      refine ⟨?_, nofun, h.running, by simp [hfault]⟩
      rintro _ ⟨⟩
      exact List.subset_of_cons_subset (h.init _ hstage)
  | loaded _ => exact ⟨nofun, nofun, h.running, by simp [hfault]⟩
  | unload _ =>
      refine ⟨nofun, ?_, h.running, by simp [hfault]⟩
      rintro _ ⟨⟩
      exact List.suffix_refl _
  | @exit f rest _ hstage _ =>
      refine ⟨nofun, ?_, h.running, by simp [hfault]⟩
      rintro _ ⟨⟩
      exact (List.suffix_cons f rest).trans (h.exit _ hstage)
  | gone _ => exact ⟨nofun, nofun, h.running, fun _ => rfl⟩
  | raise _ => exact ⟨h.init, h.exit, h.running, h.fault⟩
  | fire _ _ =>
      refine ⟨h.init, h.exit, ?_, h.fault⟩
      intro code hcode
      rcases List.mem_append.mp hcode with hold | hnew
      · exact h.running code hold
      · rw [List.mem_singleton.mp hnew]
        exact List.subset_append_left _ _
  | call _ hcode _ =>
      refine ⟨h.init, h.exit, ?_, h.fault⟩
      intro code hmem
      rcases List.mem_or_eq_of_mem_set hmem with hold | rfl
      · exact h.running code hold
      · exact List.subset_of_cons_subset (h.running _ (List.mem_of_getElem? hcode))
  | @finish i _ _ =>
      obtain ⟨hstage, hfault', -, hrunning⟩ := finish_frame s P.after i
      refine ⟨hstage ▸ h.init, hstage ▸ h.exit, ?_, by simp [hfault', hfault]⟩
      intro code hcode
      rcases hrunning code hcode with hold | rfl
      · exact h.running code hold
      · exact List.subset_append_right _ _
  | stale hgone _ => exact ⟨h.init, h.exit, h.running, fun _ => hgone⟩

theorem follows (hs : (P.sys K).Reachable s) : Follows P s :=
  invariant .start (fun _ _ _ h hfault hstep => h.step hfault hstep) hs

theorem fault_of_exit {rest : List κ} (hs : (P.sys K).Reachable s) (hstage : s.stage = .exit rest) :
    s.fault = false := by
  cases hfault : s.fault with
  | false => rfl
  | true => simp [(follows hs).fault hfault] at hstage

/-- Whatever is called next is in the module's code. -/
theorem Follows.mem_code {rest : List κ} (h : Follows P s)
    (hnext : s.stage = .init (f :: rest) ∨ s.stage = .exit (f :: rest) ∨
      ∃ i : Nat, s.running[i]? = some (f :: rest)) : f ∈ P.code := by
  rcases hnext with hstage | hstage | ⟨i, hcode⟩
  · have hmem := h.init _ hstage List.mem_cons_self
    simp [Plan.code, hmem]
  · have hmem := (h.exit _ hstage).subset List.mem_cons_self
    simp [Plan.code, hmem]
  · have hmem := h.running _ (List.mem_of_getElem? hcode) List.mem_cons_self
    rcases List.mem_append.mp hmem with hbody | hafter
    · simp [Plan.code, hbody]
    · simp [Plan.code, hafter]

/-- If no call lets others make a call due, nobody can. -/
theorem unhooked (hcode : ∀ f ∈ P.code, K.NoHook f) (hs : (P.sys K).Reachable s) :
    s.flags.hooked = false := by
  refine invariant (I := fun s => s.flags.hooked = false) rfl ?_ hs
  intro s s' hs ih _ hstep
  have hfollows := follows hs
  cases hstep with
  | init hstage hdoes => exact hcode _ (hfollows.mem_code (.inl hstage)) _ _ _ hdoes ih
  | exit hstage hdoes => exact hcode _ (hfollows.mem_code (.inr (.inl hstage))) _ _ _ hdoes ih
  | call _ hnext hdoes => exact hcode _ (hfollows.mem_code (.inr (.inr ⟨_, hnext⟩))) _ _ _ hdoes ih
  | @finish i _ _ => exact (finish_frame s P.after i).2.2.1.trans ih
  | loaded _ | unload _ | gone _ | raise _ | fire _ _ | stale _ _ => exact ih

/-! ## An exit that waits -/

/-- The exit comes to a call after which no call of the function is due, running or to be
expected, and brings none about later. Waiting for the calls does not keep others from making
new ones due, so it is enough only if nobody else can. -/
def Plan.Waits (K : Kernel κ) (P : Plan κ) : Prop :=
  ∃ before w after, P.exit = before ++ w :: after ∧ (∀ f ∈ after, K.NoArm f ∧ K.NoHook f) ∧
    (K.Unhooks w ∨ (K.Cancels w ∨ K.Drains w) ∧ ∀ f ∈ P.code, K.NoHook f)

/-- No call is due, running or to be expected. -/
structure Idle (s : State κ) : Prop where
  queued : s.flags.queued = false
  running : s.running = []
  hooked : s.flags.hooked = false

theorem running_of_busy (h : s.busy = false) : s.running = [] := by
  unfold State.busy at h
  rwa [Bool.not_eq_false', List.isEmpty_iff] at h

/-- At most `n` calls of the exit are left. -/
def Past (n : Nat) : Stage κ → Prop
  | .init _ => False
  | .loaded => False
  | .exit rest => rest.length ≤ n
  | .gone => True

/-- The call that waits is the one before the last `after.length`. -/
theorem suffix_at {before after rest : List κ} {w f : κ}
    (h : f :: rest <:+ before ++ w :: after) (hlen : rest.length = after.length) : f = w := by
  have hw : w :: after <:+ before ++ w :: after := List.suffix_append _ _
  have hsuf : f :: rest <:+ w :: after := List.suffix_of_suffix_length_le h hw (by simp [hlen])
  exact (List.cons.inj (hsuf.eq_of_length (by simp [hlen]))).1

/-- What comes later is a part of `after`. -/
theorem suffix_past {before after rest : List κ} {w f : κ}
    (h : f :: rest <:+ before ++ w :: after) (hlen : rest.length < after.length) : f ∈ after := by
  have hsub : after <:+ before ++ w :: after :=
    (List.suffix_cons w after).trans (List.suffix_append _ _)
  have hpart : f :: rest <:+ after := List.suffix_of_suffix_length_le h hsub hlen
  exact hpart.subset List.mem_cons_self

/-- Once the exit has waited nothing is left to happen to the function. -/
theorem idle_of_past {before after : List κ} {w : κ} (hexit : P.exit = before ++ w :: after)
    (hafter : ∀ f ∈ after, K.NoArm f ∧ K.NoHook f)
    (hw : K.Unhooks w ∨ (K.Cancels w ∨ K.Drains w) ∧ ∀ f ∈ P.code, K.NoHook f)
    (hs : (P.sys K).Reachable s) : Past after.length s.stage → Idle s := by
  refine invariant (I := fun s => Past after.length s.stage → Idle s) nofun ?_ hs
  intro s s' hs ih _ hstep
  cases hstep with
  | init _ _ | loaded _ => exact nofun
  | unload _ =>
      intro hpast
      simp [Past, hexit] at hpast
      omega
  | @exit f rest d hstage hdoes =>
      intro hpast
      have hsuf : f :: rest <:+ before ++ w :: after := hexit ▸ (follows hs).exit _ hstage
      rcases Nat.lt_or_eq_of_le hpast with hlt | heq
      · -- The waiting is over.
        have hidle := ih (by rw [hstage]; exact hlt)
        obtain ⟨hnoarm, hnohook⟩ := hafter f (suffix_past hsuf hlt)
        exact ⟨hnoarm _ _ _ hdoes hidle.queued, hidle.running, hnohook _ _ _ hdoes hidle.hooked⟩
      · obtain rfl := suffix_at hsuf heq
        rcases hw with hun | ⟨hcancel | hdrain, hnone⟩
        · obtain ⟨hbusy, hqueued, hhooked⟩ := hun.idle _ _ _ hdoes
          exact ⟨hqueued, running_of_busy hbusy, hhooked⟩
        · obtain ⟨hbusy, hqueued, hsame⟩ := hcancel.idle _ _ _ hdoes
          exact ⟨hqueued, running_of_busy hbusy, hsame.trans (unhooked hnone hs)⟩
        · obtain ⟨hbusy, -, hqueued, hsame⟩ := hdrain.idle _ _ _ hdoes
          exact ⟨hqueued, running_of_busy hbusy, hsame.trans (unhooked hnone hs)⟩
  | gone hstage =>
      intro _
      have hidle := ih (by simp [hstage, Past])
      exact ⟨hidle.queued, hidle.running, hidle.hooked⟩
  | raise hhooked =>
      intro hpast
      simp [(ih hpast).hooked] at hhooked
  | fire _ hqueued =>
      intro hpast
      simp [(ih hpast).queued] at hqueued
  | call _ hcode _ =>
      intro hpast
      simp [(ih hpast).running] at hcode
  | @finish i _ hcode =>
      intro hpast
      rw [(finish_frame s P.after i).1] at hpast
      simp [(ih hpast).running] at hcode
  | stale _ _ =>
      intro hpast
      have hidle := ih hpast
      exact ⟨hidle.queued, hidle.running, hidle.hooked⟩

/-- Faults come from calls that the module has left behind. -/
theorem safe_of_idle (h : ∀ s, (P.sys K).Reachable s → s.stage = .gone → Idle s) : P.Safe K := by
  intro s hs
  refine invariant (I := fun s => s.fault = false) rfl ?_ hs
  intro s s' hs _ hfault hstep
  cases hstep with
  | stale hgone hleft =>
      have hidle := h s hs hgone
      simp [hidle.queued, hidle.running] at hleft
  | @finish i _ _ => exact (finish_frame s P.after i).2.1.trans hfault
  | init _ _ | loaded _ | unload _ | exit _ _ | gone _ | raise _ | fire _ _ | call _ _ _ => exact hfault

/-- An exit that waits is safe. -/
theorem safe_of_waits (hP : P.Waits K) : P.Safe K := by
  obtain ⟨before, w, after, hexit, hafter, hw⟩ := hP
  apply safe_of_idle
  intro s hs hgone
  exact idle_of_past hexit hafter hw hs (by simp [hgone, Past])

/-- A module that hands nothing out is safe. -/
theorem safe_of_quiet (hinit : ∀ f ∈ P.init, K.NoArm f ∧ K.NoHook f)
    (hexit : ∀ f ∈ P.exit, K.NoArm f ∧ K.NoHook f) : P.Safe K := by
  refine safe_of_idle fun s hs _ => ?_
  refine invariant (I := Idle) ⟨rfl, rfl, rfl⟩ ?_ hs
  intro s s' hs ih _ hstep
  cases hstep with
  | init hstage hdoes =>
      obtain ⟨hnoarm, hnohook⟩ := hinit _ ((follows hs).init _ hstage List.mem_cons_self)
      exact ⟨hnoarm _ _ _ hdoes ih.queued, ih.running, hnohook _ _ _ hdoes ih.hooked⟩
  | exit hstage hdoes =>
      obtain ⟨hnoarm, hnohook⟩ := hexit _ (((follows hs).exit _ hstage).subset List.mem_cons_self)
      exact ⟨hnoarm _ _ _ hdoes ih.queued, ih.running, hnohook _ _ _ hdoes ih.hooked⟩
  | raise hhooked => simp [ih.hooked] at hhooked
  | fire _ hqueued => simp [ih.queued] at hqueued
  | call _ hcode _ => simp [ih.running] at hcode
  | finish _ hcode => simp [ih.running] at hcode
  | loaded _ | unload _ | gone _ | stale _ _ => exact ⟨ih.queued, ih.running, ih.hooked⟩

/-! ## An exit that does not wait -/

/-- The loader runs an init that does not wait to its end, and the last call decides. -/
theorem load_init {rest : List κ} {w : κ} (hw : K.Arms w) (hrest : ∀ f ∈ rest, K.Prompt f)
    (hstage : s.stage = .init rest) (hfault : s.fault = false)
    (hlast : rest.getLast? = some w ∨ rest = [] ∧ s.flags.queued = true) :
    ∃ s', (P.sys K).Leads s s' ∧ s'.stage = .loaded ∧ s'.flags.queued = true ∧ s'.fault = false := by
  induction rest generalizing s with
  | nil =>
      have hqueued : s.flags.queued = true := by simpa using hlast
      exact ⟨_, Steps.leads hfault (.loaded hstage), rfl, hqueued, hfault⟩
  | cons f rest ih =>
      obtain ⟨d, hdoes⟩ := hrest f List.mem_cons_self s.busy s.flags
      have hstep : (P.sys K).Leads s { s with stage := .init rest, flags := d } :=
        Steps.leads hfault (.init hstage hdoes)
      obtain ⟨s', hleads, hend⟩ := ih (s := { s with stage := .init rest, flags := d })
        (fun g hg => hrest g (List.mem_cons_of_mem f hg)) rfl hfault (by
          cases rest with
          | nil =>
              obtain rfl : f = w := by simpa using hlast
              exact .inr ⟨rfl, hw.queued _ _ _ hdoes⟩
          | cons g rest => exact .inl (by simpa using hlast))
      exact ⟨s', hstep.trans hleads, hend⟩

/-- So does an exit, with the calls where they were. -/
theorem load_exit {rest : List κ} (hrest : ∀ f ∈ rest, K.Prompt f) (hstage : s.stage = .exit rest)
    (hfault : s.fault = false) :
    ∃ s', (P.sys K).Leads s s' ∧ s'.stage = .gone ∧ s'.running = s.running ∧ s'.fault = false := by
  induction rest generalizing s with
  | nil => exact ⟨_, Steps.leads hfault (.gone hstage), rfl, rfl, hfault⟩
  | cons f rest ih =>
      obtain ⟨d, hdoes⟩ := hrest f List.mem_cons_self s.busy s.flags
      have hstep : (P.sys K).Leads s { s with stage := .exit rest, flags := d } :=
        Steps.leads hfault (.exit hstage hdoes)
      obtain ⟨s', hleads, hend⟩ := ih (s := { s with stage := .exit rest, flags := d })
        (fun g hg => hrest g (List.mem_cons_of_mem f hg)) rfl hfault
      exact ⟨s', hstep.trans hleads, hend⟩

/-- After such an init the exit can begin while a call is running. -/
theorem exit_begins {w : κ} (hinit : ∀ f ∈ P.init, K.Prompt f) (hlast : P.init.getLast? = some w)
    (hw : K.Arms w) :
    ∃ s, (P.sys K).Reachable s ∧ s.stage = .exit P.exit ∧ s.running ≠ [] ∧ s.fault = false := by
  obtain ⟨s, hload, hloaded, hqueued, hfault⟩ :=
    load_init (P := P) (s := P.start) hw hinit rfl rfl (.inl hlast)
  have hfire : (P.sys K).Leads s { s with
      flags := { s.flags with queued := false }, running := s.running ++ [P.body] } :=
    Steps.leads hfault (.fire (by simp [hloaded]) hqueued)
  have hunload : (P.sys K).Leads { s with
      flags := { s.flags with queued := false }, running := s.running ++ [P.body] } { s with
      flags := { s.flags with queued := false }, running := s.running ++ [P.body],
      stage := .exit P.exit } :=
    Steps.leads hfault (.unload hloaded)
  have hstart : (P.sys K).Reachable P.start := .init rfl
  exact ⟨_, hstart.leads (hload.trans (hfire.trans hunload)), rfl, by simp, hfault⟩

/-- A call that has begun when the exit starts is still running when the module has gone. -/
theorem not_safe_of_prompt {w : κ} (hinit : ∀ f ∈ P.init, K.Prompt f)
    (hlast : P.init.getLast? = some w) (hw : K.Arms w) (hexit : ∀ f ∈ P.exit, K.Prompt f) :
    ¬ P.Safe K := by
  intro hsafe
  obtain ⟨s, hs, hstage, hrunning, hfault⟩ := exit_begins hinit hlast hw
  obtain ⟨s', hgo, hgone, hrunning', hfault'⟩ := load_exit (P := P) hexit hstage hfault
  have hstale : (P.sys K).Leads s' { s' with fault := true } :=
    Steps.leads hfault' (.stale hgone (.inr (hrunning' ▸ hrunning)))
  exact absurd (hsafe _ (hs.leads (hgo.trans hstale))) (by simp)

/-! ## The end of the waiting -/

/-- Calls come to an end, and if the exit waits for those that are due they make no new
ones due. -/
structure Plan.Ends (K : Kernel κ) (P : Plan κ) : Prop where
  prompt : ∀ f ∈ P.body, K.Prompt f
  after : P.after = .stop ∨ P.after = .requeue
  exit : (∀ f ∈ P.exit, K.Returns f) ∨
    P.after = .stop ∧ (∀ f ∈ P.body, K.NoArm f) ∧ ∀ f ∈ P.exit, K.ReturnsDrained f

theorem Plan.Ends.after_body (hP : P.Ends K) : P.after.body = [] := by
  rcases hP.after with h | h <;> rw [h] <;> rfl

/-- The first call runs to its end. -/
theorem call_ends (hP : P.Ends K) {code : List κ} {rest : List (List κ)}
    (hcode : ∀ f ∈ code, K.Prompt f) (hrunning : s.running = code :: rest) (hfault : s.fault = false)
    (hstage : s.stage ≠ .gone) :
    ∃ s', (P.sys K).Leads s s' ∧ s'.stage = s.stage ∧ s'.fault = false ∧ s'.running = rest ∧
      (P.after = .stop → (∀ f ∈ code, K.NoArm f) → s.flags.queued = false →
        s'.flags.queued = false) := by
  induction code generalizing s with
  | nil =>
      have hstep : (P.sys K).Leads s (s.finish P.after 0) :=
        Steps.leads hfault (.finish hstage (by simp [hrunning]))
      rcases hP.after with hafter | hafter
      · refine ⟨_, hstep, ?_⟩
        simp [State.finish, hafter, hfault, hrunning]
      · refine ⟨_, hstep, ?_⟩
        simp [State.finish, hafter, hfault, hrunning]
  | cons f code ih =>
      obtain ⟨d, hdoes⟩ := hcode f List.mem_cons_self s.busy s.flags
      have hstep : (P.sys K).Leads s { s with flags := d, running := s.running.set 0 code } :=
        Steps.leads hfault (.call hstage (by simp [hrunning]) hdoes)
      obtain ⟨s', hleads, hstage', hfault', hrunning', hqueued'⟩ :=
        ih (s := { s with flags := d, running := s.running.set 0 code })
          (fun g hg => hcode g (List.mem_cons_of_mem f hg)) (by simp [hrunning]) hfault hstage
      refine ⟨s', hstep.trans hleads, hstage', hfault', hrunning', ?_⟩
      intro hstop hnoarm hq
      exact hqueued' hstop (fun g hg => hnoarm g (List.mem_cons_of_mem f hg))
        (hnoarm f List.mem_cons_self _ _ _ hdoes hq)

/-- All calls that have begun run to their ends. -/
theorem calls_end (hP : P.Ends K) {codes : List (List κ)} (hcodes : ∀ code ∈ codes, code ⊆ P.body)
    (hrunning : s.running = codes) (hfault : s.fault = false) (hstage : s.stage ≠ .gone) :
    ∃ s', (P.sys K).Leads s s' ∧ s'.stage = s.stage ∧ s'.fault = false ∧ s'.running = [] ∧
      (P.after = .stop → (∀ f ∈ P.body, K.NoArm f) → s.flags.queued = false →
        s'.flags.queued = false) := by
  induction codes generalizing s with
  | nil => exact ⟨s, .refl, rfl, hfault, hrunning, fun _ _ h => h⟩
  | cons code codes ih =>
      have hcode : code ⊆ P.body := hcodes code List.mem_cons_self
      obtain ⟨s₁, hleads₁, hstage₁, hfault₁, hrunning₁, hqueued₁⟩ :=
        call_ends hP (fun f hf => hP.prompt f (hcode hf)) hrunning hfault hstage
      obtain ⟨s₂, hleads₂, hstage₂, hfault₂, hrunning₂, hqueued₂⟩ :=
        ih (fun c hc => hcodes c (List.mem_cons_of_mem code hc)) hrunning₁ hfault₁ (by rwa [hstage₁])
      refine ⟨s₂, hleads₁.trans hleads₂, hstage₂.trans hstage₁, hfault₂, hrunning₂, ?_⟩
      intro hstop hnoarm hq
      exact hqueued₂ hstop hnoarm (hqueued₁ hstop (fun f hf => hnoarm f (hcode hf)) hq)

/-- A state with no call running, and none due if the exit waits for those. -/
theorem exit_ready (hP : P.Ends K) (hs : (P.sys K).Reachable s) (hfault : s.fault = false)
    (hstage : s.stage ≠ .gone) :
    ∃ s', (P.sys K).Leads s s' ∧ s'.stage = s.stage ∧ s'.fault = false ∧ s'.running = [] ∧
      ((∀ f ∈ P.exit, K.Returns f) ∨
        s'.flags.queued = false ∧ ∀ f ∈ P.exit, K.ReturnsDrained f) := by
  have hbody : ∀ code ∈ s.running, code ⊆ P.body := by
    intro code hcode
    simpa [hP.after_body] using (follows hs).running code hcode
  obtain ⟨s₁, hleads₁, hstage₁, hfault₁, hrunning₁, -⟩ := calls_end hP hbody rfl hfault hstage
  rcases hP.exit with hreturns | ⟨hstop, hnoarm, hdrained⟩
  · exact ⟨s₁, hleads₁, hstage₁, hfault₁, hrunning₁, .inl hreturns⟩
  cases hq : s₁.flags.queued with
  | false => exact ⟨s₁, hleads₁, hstage₁, hfault₁, hrunning₁, .inr ⟨hq, hdrained⟩⟩
  | true =>
      -- The call that is due begins, ends, and is the last.
      have hfire : (P.sys K).Leads s₁ { s₁ with
          flags := { s₁.flags with queued := false }, running := s₁.running ++ [P.body] } :=
        Steps.leads hfault₁ (.fire (by rwa [hstage₁]) hq)
      obtain ⟨s₂, hleads₂, hstage₂, hfault₂, hrunning₂, hqueued₂⟩ :=
        calls_end (s := { s₁ with
          flags := { s₁.flags with queued := false }, running := s₁.running ++ [P.body] }) hP
          (by simp [hrunning₁]) rfl hfault₁ (by simpa [hstage₁] using hstage)
      exact ⟨s₂, hleads₁.trans (hfire.trans hleads₂), hstage₂.trans hstage₁, hfault₂, hrunning₂,
        .inr ⟨hqueued₂ hstop hnoarm rfl, hdrained⟩⟩

/-- So the exit gets past any of its calls. -/
theorem exit_passes (hP : P.Ends K) {rest : List κ} (hs : (P.sys K).Reachable s)
    (hstage : s.stage = .exit (f :: rest)) :
    ∃ s', (P.sys K).Leads s s' ∧ s'.stage = .exit rest := by
  have hmem : f ∈ P.exit := ((follows hs).exit _ hstage).subset List.mem_cons_self
  obtain ⟨s₁, hleads, hstage₁, hfault₁, hrunning₁, hready⟩ :=
    exit_ready hP hs (fault_of_exit hs hstage) (by simp [hstage])
  have hbusy : s₁.busy = false := by simp [State.busy, hrunning₁]
  obtain ⟨d, hdoes⟩ : ∃ d, K.does f s₁.busy s₁.flags d = true := by
    rw [hbusy]
    rcases hready with hreturns | ⟨hqueued, hdrained⟩
    · exact hreturns f hmem s₁.flags
    · exact hdrained f hmem s₁.flags hqueued
  exact ⟨_, hleads.trans (Steps.leads hfault₁ (.exit (hstage₁.trans hstage) hdoes)), rfl⟩

/-- From wherever it is, the exit can come to its end. -/
theorem exit_finishes (hP : P.Ends K ∨ ∀ f ∈ P.exit, K.Prompt f) {rest : List κ}
    (hs : (P.sys K).Reachable s) (hstage : s.stage = .exit rest) :
    ∃ s', (P.sys K).Leads s s' ∧ s'.stage = .gone := by
  rcases hP with hP | hP
  · induction rest generalizing s with
    | nil => exact ⟨_, Steps.leads (fault_of_exit hs hstage) (.gone hstage), rfl⟩
    | cons f rest ih =>
        obtain ⟨s₁, hleads₁, hstage₁⟩ := exit_passes hP hs hstage
        obtain ⟨s', hleads', hgone⟩ := ih (hs.leads hleads₁) hstage₁
        exact ⟨s', hleads₁.trans hleads', hgone⟩
  · have hrest : ∀ f ∈ rest, K.Prompt f :=
      fun f hf => hP f (((follows hs).exit _ hstage).subset hf)
    obtain ⟨s', hleads, hgone, -, -⟩ := load_exit (P := P) hrest hstage (fault_of_exit hs hstage)
    exact ⟨s', hleads, hgone⟩

/-! ## Waiting without an end -/

/-- A call is due, or one is running that will make the next one due. -/
def Owes (q : κ) (s : State κ) : Prop := s.flags.queued = true ∨ ∃ code ∈ s.running, q ∈ code

/-- The next call comes about, and the exit has its waiting before it. -/
structure Blocked (q w : κ) (s : State κ) : Prop where
  owes : (∃ rest, s.stage = .init rest ∧ q ∈ rest) ∨ Owes q s
  waits : ∀ rest, s.stage = .exit rest → w ∈ rest
  stays : s.stage ≠ .gone

theorem Blocked.owes_of_stage {q w : κ} (h : Blocked q w s) (hstage : ∀ rest, s.stage ≠ .init rest) :
    Owes q s := by
  rcases h.owes with ⟨rest, hrest, -⟩ | howes
  · exact absurd hrest (hstage rest)
  · exact howes

/-- Where a call moves on, the others are still there. -/
theorem mem_set_of_mem {codes : List (List κ)} {code : List κ} (i : Nat) (rest : List κ)
    (h : code ∈ codes) : code ∈ codes.set i rest ∨ codes[i]? = some code := by
  obtain ⟨j, hj, rfl⟩ := List.getElem_of_mem h
  by_cases hij : i = j
  · subst hij
    exact .inr (List.getElem?_eq_getElem hj)
  · left
    refine List.mem_of_getElem? (i := j) ?_
    rw [List.getElem?_set_ne hij, List.getElem?_eq_getElem hj]

theorem mem_eraseIdx_of_mem {codes : List (List κ)} {code : List κ} {i : Nat} (h : code ∈ codes) :
    code ∈ codes.eraseIdx i ∨ codes[i]? = some code := by
  obtain ⟨j, hj, rfl⟩ := List.getElem_of_mem h
  by_cases hij : j = i
  · subst hij
    exact .inr (List.getElem?_eq_getElem hj)
  · exact .inl (List.mem_eraseIdx_iff_getElem.mpr ⟨j, hj, hij, rfl⟩)

theorem Owes.call {q : κ} (harms : K.Arms q) (hkeeps : K.Keeps f) {i : Nat} {rest : List κ} {d : Flags}
    (h : Owes q s) (hcode : s.running[i]? = some (f :: rest)) (hdoes : K.does f s.busy s.flags d = true) :
    Owes q { s with flags := d, running := s.running.set i rest } := by
  rcases h with hqueued | ⟨code, hmem, hq⟩
  · exact .inl (hkeeps _ _ _ hdoes hqueued)
  rcases mem_set_of_mem i rest hmem with hset | hsame
  · exact .inr ⟨code, hset, hq⟩
  · obtain rfl := Option.some.inj (hsame.symm.trans hcode)
    rcases List.mem_cons.mp hq with rfl | hrest
    · exact .inl (harms.queued _ _ _ hdoes)
    · have hi : i < s.running.length := (List.getElem?_eq_some_iff.mp hcode).1
      exact .inr ⟨rest, List.mem_set hi rest, hrest⟩

theorem Owes.finish {q : κ} (h : Owes q s) {i : Nat} (hcode : s.running[i]? = some []) :
    Owes q (s.finish P.after i) := by
  -- The call that ends has nothing left to do, so it is not the one that owes.
  have hother : ∀ code ∈ s.running, q ∈ code → s.running[i]? ≠ some code := by
    intro code _ hq hsame
    obtain rfl := Option.some.inj (hcode.symm.trans hsame)
    cases hq
  have hkept : ∀ code ∈ s.running, q ∈ code → code ∈ s.running.eraseIdx i := fun code hmem hq =>
    (mem_eraseIdx_of_mem hmem).resolve_right (hother code hmem hq)
  unfold State.finish
  cases P.after with
  | stop =>
      rcases h with hqueued | ⟨code, hmem, hq⟩
      · exact .inl hqueued
      · exact .inr ⟨code, hkept code hmem hq, hq⟩
  | requeue => exact .inl rfl
  | loop body =>
      dsimp only
      split
      · rcases h with hqueued | ⟨code, hmem, hq⟩
        · exact .inl hqueued
        · exact .inr ⟨code, hkept code hmem hq, hq⟩
      · rcases h with hqueued | ⟨code, hmem, hq⟩
        · exact .inl hqueued
        · exact .inr ⟨code, (mem_set_of_mem i body hmem).resolve_right (hother code hmem hq), hq⟩

section Blocking

variable {q w : κ} (harms : K.Arms q) (hkeeps : ∀ f ∈ P.code, K.Keeps f) (hbody : q ∈ P.body)
  (hw : w ∈ P.exit) (hdrain : K.Drains w)

include harms hkeeps hbody hw hdrain

theorem Blocked.step (hs : (P.sys K).Reachable s) (h : Blocked q w s) (hstep : Steps K P s s') :
    Blocked q w s' := by
  have hfollows := follows hs
  cases hstep with
  | @init f rest d hstage hdoes =>
      refine ⟨?_, nofun, nofun⟩
      have hkeep := hkeeps f (hfollows.mem_code (.inl hstage))
      rcases h.owes with ⟨_, hrest, hq⟩ | hqueued | hrunning
      · rw [hstage] at hrest
        cases hrest
        rcases List.mem_cons.mp hq with rfl | hq
        · exact .inr (.inl (harms.queued _ _ _ hdoes))
        · exact .inl ⟨rest, rfl, hq⟩
      · exact .inr (.inl (hkeep _ _ _ hdoes hqueued))
      · exact .inr (.inr hrunning)
  | loaded hstage =>
      refine ⟨.inr ?_, nofun, nofun⟩
      rcases h.owes with ⟨_, hrest, hq⟩ | howes
      · rw [hstage] at hrest
        cases hrest
        cases hq
      · exact howes
  | unload hstage =>
      refine ⟨.inr (h.owes_of_stage (by simp [hstage])), ?_, nofun⟩
      rintro _ ⟨⟩
      exact hw
  | @exit f rest d hstage hdoes =>
      have howes := h.owes_of_stage (by simp [hstage])
      have hkeep := hkeeps f (hfollows.mem_code (.inr (.inl hstage)))
      refine ⟨.inr ?_, ?_, nofun⟩
      · rcases howes with hqueued | hrunning
        · exact .inl (hkeep _ _ _ hdoes hqueued)
        · exact .inr hrunning
      · rintro _ ⟨⟩
        rcases List.mem_cons.mp (h.waits _ hstage) with rfl | hrest
        · -- The waiting would be over only if nothing were due or running.
          obtain ⟨hbusy, hqueued, -, -⟩ := hdrain.idle _ _ _ hdoes
          rcases howes with hq | ⟨code, hmem, -⟩
          · cases hqueued.symm.trans hq
          · simp [running_of_busy hbusy] at hmem
        · exact hrest
  | gone hstage => cases h.waits _ hstage
  | raise _ => exact ⟨.inr (.inl rfl), h.waits, h.stays⟩
  | fire _ _ => exact ⟨.inr (.inr ⟨P.body, by simp, hbody⟩), h.waits, h.stays⟩
  | @call i f rest d _ hcode hdoes =>
      have hkeep := hkeeps f (hfollows.mem_code (.inr (.inr ⟨i, hcode⟩)))
      refine ⟨h.owes.imp_right fun howes => howes.call harms hkeep hcode hdoes, h.waits, h.stays⟩
  | @finish i _ hcode =>
      obtain ⟨hstage, -, -, -⟩ := finish_frame s P.after i
      refine ⟨?_, hstage ▸ h.waits, hstage ▸ h.stays⟩
      rw [hstage]
      exact h.owes.imp_right fun howes => howes.finish hcode
  | stale hgone _ => exact absurd hgone h.stays

/-- An exit that waits for the calls that are due, of a function that always makes another one
due, never comes to its end. -/
theorem never_gone (hinit : q ∈ P.init) (hs : (P.sys K).Reachable s) : s.stage ≠ .gone := by
  have hblocked : Blocked q w s := by
    refine invariant ⟨.inl ⟨P.init, rfl, hinit⟩, nofun, nofun⟩ ?_ hs
    intro s s' hs h _ hstep
    exact h.step harms hkeeps hbody hw hdrain hs hstep
  exact hblocked.stays

end Blocking

end Callback
end Base
