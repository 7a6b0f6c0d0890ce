import Lkm.Base.Callbacks

/-!
# Seven modules that have the kernel call them later

`timer/lower_resolution`, `timer/higer_resolution`, `workqueue`, `tasklet`, `soft_irq`, `umh`
and `notifier/subscriber.c` each hand the kernel one function. Each of their functions is
written here as the kernel functions that it calls, in their order. What those do is not
theirs to define: `Documented` states, one hypothesis for each kernel function, what is
assumed about it.

The exits differ. `del_timer` does not wait for a callback that is running, which will arm the
timer again; `send_sig` does not wait for the thread; and nothing takes back `open_softirq`.
`hrtimer_cancel`, `destroy_workqueue`, `tasklet_kill` and `blocking_notifier_chain_unregister`
wait. `unload_safe_iff` is what comes of it.

In `workqueue/simple.c` a comment says that `rmmod` blocks when `my_func` queues its work
again. `unload_finishes_iff`: it does, for ever, and of all exits here only that one.
-/

namespace Lkm
namespace Deferred

open Base.Callback

/-- The kernel functions that the seven modules call. -/
inductive Call
  | printk
  | timerSetup
  | modTimer
  | delTimer
  | hrtimerInit
  | hrtimerStart
  | hrtimerForwardNow
  | hrtimerCancel
  | ktimeGetTs64
  | allocWorkqueue
  | initWork
  | queueWork
  | destroyWorkqueue
  | taskletInit
  | taskletSchedule
  | taskletKill
  | openSoftirq
  | raiseSoftirq
  | raiseSoftirqIrqoff
  /-- With or without a thread. -/
  | kthreadRun (started : Bool)
  | allowSignal
  | mdelay
  | callUsermodehelper
  | setCurrentState
  | scheduleTimeout
  | sendSig
  | blockingNotifierChainRegister
  | blockingNotifierChainUnregister
deriving DecidableEq

/-! ## `timer/lower_resolution/simple.c` -/

namespace LowerResolution

def timerCb : List Call := [.printk, .modTimer]

def moduleLrtimerInit : List Call := [.printk, .timerSetup, .modTimer]

def moduleLrtimerExit : List Call := [.printk, .delTimer]

def plan : Plan Call :=
  { init := moduleLrtimerInit, body := timerCb, after := .stop, exit := moduleLrtimerExit }

end LowerResolution

/-! ## `timer/higer_resolution/simple.c` -/

namespace HigherResolution

def myHrtimerCallback : List Call := [.ktimeGetTs64, .printk, .hrtimerForwardNow]

/-- The callback's `HRTIMER_RESTART`: the kernel starts the timer again. -/
def restart : After Call := .requeue

def moduleHrtimerInit : List Call := [.hrtimerInit, .hrtimerStart, .ktimeGetTs64]

def moduleHrtimerExit : List Call := [.hrtimerCancel]

def plan : Plan Call :=
  { init := moduleHrtimerInit, body := myHrtimerCallback, after := restart,
    exit := moduleHrtimerExit }

end HigherResolution

/-! ## `workqueue/simple.c` -/

namespace Workqueue

/-- `again` is whether the `queue_work` of the comment is there. -/
def myFunc (again : Bool) : List Call := if again then [.printk, .queueWork] else [.printk]

def myInit : List Call := [.allocWorkqueue, .initWork, .queueWork]

def myExit : List Call := [.destroyWorkqueue]

def plan (again : Bool) : Plan Call :=
  { init := myInit, body := myFunc again, after := .stop, exit := myExit }

end Workqueue

/-! ## `tasklet/simple.c` -/

namespace Tasklet

def myHandler : List Call := [.printk]

def myInit : List Call := [.taskletInit, .taskletSchedule]

def myExit : List Call := [.taskletKill]

def plan : Plan Call := { init := myInit, body := myHandler, after := .stop, exit := myExit }

end Tasklet

/-! ## `soft_irq/simple.c` -/

namespace SoftIrq

def helloPrintk : List Call := [.printk]

def myInit : List Call := [.openSoftirq, .raiseSoftirq]

def myExit : List Call := [.raiseSoftirqIrqoff]

def plan : Plan Call := { init := myInit, body := helloPrintk, after := .stop, exit := myExit }

end SoftIrq

/-! ## `umh/simple.c` -/

namespace Umh

def runUmhApp : List Call := [.callUsermodehelper]

/-- `slam_func` up to its loop. -/
def slamFunc : List Call := [.allowSignal, .mdelay]

/-- The body of `while(!signal_pending(current))`. -/
def slamLoop : List Call := runUmhApp ++ [.setCurrentState, .scheduleTimeout]

def kthreadSignalExampleInit (started : Bool) : List Call := [.kthreadRun started]

/-- `slam_thread` is an `IS_ERR` pointer if there is no thread. -/
def kthreadSignalExampleExit (started : Bool) : List Call := if started then [.sendSig] else []

def plan (started : Bool) : Plan Call :=
  { init := kthreadSignalExampleInit started, body := slamFunc, after := .loop slamLoop,
    exit := kthreadSignalExampleExit started }

end Umh

/-! ## `notifier/subscriber.c`, with the wrappers of `notifier/publisher.c` -/

namespace Subscriber

def myNotifySys : List Call := [.printk]

def registerMyNotifier : List Call := [.blockingNotifierChainRegister]

def unregisterMyNotifier : List Call := [.blockingNotifierChainUnregister]

def initModules : List Call := registerMyNotifier

def exitModules : List Call := unregisterMyNotifier

def plan : Plan Call :=
  { init := initModules, body := myNotifySys, after := .stop, exit := exitModules }

end Subscriber

inductive Mod
  | lowerResolution
  | higherResolution
  | workqueue (again : Bool)
  | tasklet
  | softIrq
  | umh (started : Bool)
  | subscriber
deriving DecidableEq

def Mod.plan : Mod → Plan Call
  | .lowerResolution => LowerResolution.plan
  | .higherResolution => HigherResolution.plan
  | .workqueue again => Workqueue.plan again
  | .tasklet => Tasklet.plan
  | .softIrq => SoftIrq.plan
  | .umh started => Umh.plan started
  | .subscriber => Subscriber.plan

/-! ## What is assumed about the kernel -/

/-- Functions that have nothing to do with the function handed out, and return. -/
def bystanders : List Call :=
  [.printk, .timerSetup, .hrtimerInit, .hrtimerForwardNow, .ktimeGetTs64, .allocWorkqueue, .initWork,
    .taskletInit, .kthreadRun false]

/-- What is assumed about the kernel's functions. Nothing is about those of the thread of `umh`. -/
structure Documented (K : Kernel Call) : Prop where
  bystander : ∀ f ∈ bystanders, K.Leaves f
  modTimer : K.Arms .modTimer
  /-- Unlike `del_timer_sync` it does not wait for the callback. -/
  delTimer : K.Prompt .delTimer
  hrtimerStart : K.Arms .hrtimerStart
  /-- It tries again as long as the callback is running. -/
  hrtimerCancel : K.Cancels .hrtimerCancel
  queueWork : K.Arms .queueWork
  /-- It drains the queue first. -/
  destroyWorkqueue : K.Drains .destroyWorkqueue
  taskletSchedule : K.Arms .taskletSchedule
  /-- It waits until the tasklet is neither scheduled nor running. -/
  taskletKill : K.Drains .taskletKill
  openSoftirq : K.Prompt .openSoftirq
  raiseSoftirq : K.Arms .raiseSoftirq
  raiseSoftirqIrqoff : K.Prompt .raiseSoftirqIrqoff
  kthreadRun : K.Arms (.kthreadRun true)
  sendSig : K.Prompt .sendSig
  /-- It takes the semaphore for writing that each event's calls hold for reading. -/
  blockingNotifierChainUnregister : K.Unhooks .blockingNotifierChainUnregister

namespace Documented

variable {K : Kernel Call} (hK : Documented K)

include hK

/-- No function that the timers, the workqueue and the tasklet call lets anybody else call theirs. -/
theorem noHook : ∀ f ∈ bystanders ++ [.hrtimerStart, .hrtimerCancel, .queueWork, .destroyWorkqueue,
    .taskletSchedule, .taskletKill], K.NoHook f := by
  intro f hf
  rcases List.mem_append.mp hf with hf | hf
  · exact (hK.bystander f hf).noHook
  simp only [List.mem_cons, List.not_mem_nil, or_false] at hf
  rcases hf with rfl | rfl | rfl | rfl | rfl | rfl
  · exact hK.hrtimerStart.noHook
  · exact hK.hrtimerCancel.noHook
  · exact hK.queueWork.noHook
  · exact hK.destroyWorkqueue.noHook
  · exact hK.taskletSchedule.noHook
  · exact hK.taskletKill.noHook

/-- The functions that do not wait. -/
theorem prompt : ∀ f ∈ bystanders ++ [.modTimer, .delTimer, .queueWork, .openSoftirq, .raiseSoftirq,
    .raiseSoftirqIrqoff, .kthreadRun true, .sendSig], K.Prompt f := by
  intro f hf
  rcases List.mem_append.mp hf with hf | hf
  · exact (hK.bystander f hf).prompt
  simp only [List.mem_cons, List.not_mem_nil, or_false] at hf
  rcases hf with rfl | rfl | rfl | rfl | rfl | rfl | rfl | rfl
  · exact hK.modTimer.prompt
  · exact hK.delTimer
  · exact hK.queueWork.prompt
  · exact hK.openSoftirq
  · exact hK.raiseSoftirq.prompt
  · exact hK.raiseSoftirqIrqoff
  · exact hK.kthreadRun.prompt
  · exact hK.sendSig

/-- What is queued in the module of the workqueue stays queued until it is run. -/
theorem keeps : ∀ f ∈ bystanders ++ [.queueWork, .destroyWorkqueue], K.Keeps f := by
  intro f hf
  rcases List.mem_append.mp hf with hf | hf
  · exact (hK.bystander f hf).keeps
  simp only [List.mem_cons, List.not_mem_nil, or_false] at hf
  rcases hf with rfl | rfl
  · exact hK.queueWork.keeps
  · exact hK.destroyWorkqueue.keeps

/-- An exit of one function that waits for the calls, where nobody else makes one due. -/
theorem safe_of_single {P : Plan Call} {w : Call} (hexit : P.exit = [w])
    (hcode : P.code ⊆ bystanders ++ [.hrtimerStart, .hrtimerCancel, .queueWork, .destroyWorkqueue,
      .taskletSchedule, .taskletKill])
    (hw : K.Cancels w ∨ K.Drains w) : P.Safe K := by
  refine safe_of_waits ⟨[], w, [], hexit, by simp, .inr ⟨hw, ?_⟩⟩
  intro f hf
  exact hK.noHook f (hcode hf)

/-- A callback that prints and is not called again makes nothing due that the exit waits for. -/
theorem ends_of_print {P : Plan Call} (hbody : P.body = [.printk]) (hafter : P.after = .stop)
    (hexit : ∀ f ∈ P.exit, K.ReturnsDrained f) : P.Ends K := by
  have hprintk := hK.bystander .printk (by decide)
  refine ⟨fun f hf => ?_, .inl hafter, .inr ⟨hafter, fun f hf => ?_, hexit⟩⟩
  · rw [hbody, List.mem_singleton] at hf
    exact hf ▸ hprintk.prompt
  · rw [hbody, List.mem_singleton] at hf
    exact hf ▸ hprintk.noArm

end Documented

/-! ## Unloading -/

/-- In whatever order the loader and the calls run, the callback of a module is never called
and never still running after the module has gone: for the high-resolution timer, the work
queue, the tasklet and the subscriber, and for `umh` if it got no thread. The exits of the low-
resolution timer, the softirq and `umh` with its thread leave runs in which it is. -/
theorem unload_safe_iff (K : Kernel Call) (hK : Documented K) (M : Mod) :
    M.plan.Safe K ↔ M = .higherResolution ∨ (∃ again, M = .workqueue again) ∨ M = .tasklet ∨
      M = .subscriber ∨ M = .umh false := by
  have hprompt := hK.prompt
  cases M with
  | higherResolution =>
      have hsafe : HigherResolution.plan.Safe K :=
        hK.safe_of_single rfl (by decide) (.inl hK.hrtimerCancel)
      exact iff_of_true hsafe (by simp)
  | workqueue again =>
      have hsafe : (Workqueue.plan again).Safe K :=
        hK.safe_of_single rfl (by cases again <;> decide) (.inr hK.destroyWorkqueue)
      exact iff_of_true hsafe (by simp)
  | tasklet =>
      have hsafe : Tasklet.plan.Safe K := hK.safe_of_single rfl (by decide) (.inr hK.taskletKill)
      exact iff_of_true hsafe (by simp)
  | subscriber =>
      have hsafe : Subscriber.plan.Safe K :=
        safe_of_waits ⟨[], _, [], rfl, by simp, .inl hK.blockingNotifierChainUnregister⟩
      exact iff_of_true hsafe (by simp)
  | lowerResolution =>
      refine iff_of_false (not_safe_of_prompt ?_ rfl hK.modTimer ?_) (by simp)
      · exact fun f hf => hprompt f ((by decide : LowerResolution.moduleLrtimerInit ⊆ _) hf)
      · exact fun f hf => hprompt f ((by decide : LowerResolution.moduleLrtimerExit ⊆ _) hf)
  | softIrq =>
      refine iff_of_false (not_safe_of_prompt ?_ rfl hK.raiseSoftirq ?_) (by simp)
      · exact fun f hf => hprompt f ((by decide : SoftIrq.myInit ⊆ _) hf)
      · exact fun f hf => hprompt f ((by decide : SoftIrq.myExit ⊆ _) hf)
  | umh started =>
      cases started with
      | true =>
          refine iff_of_false (not_safe_of_prompt ?_ rfl hK.kthreadRun ?_) (by simp)
          · exact fun f hf => hprompt f ((by decide : Umh.kthreadSignalExampleInit true ⊆ _) hf)
          · exact fun f hf => hprompt f ((by decide : Umh.kthreadSignalExampleExit true ⊆ _) hf)
      | false =>
          refine iff_of_true (safe_of_quiet ?_ ?_) (by simp)
          · intro f hf
            have hleaves := hK.bystander f ((by decide : Umh.kthreadSignalExampleInit false ⊆ _) hf)
            exact ⟨hleaves.noArm, hleaves.noHook⟩
          · intro f hf
            cases hf

/-- A kernel as `Documented` has it. -/
def plainKernel : Kernel Call where
  does f busy d d' :=
    match f with
    | .modTimer | .hrtimerStart | .queueWork | .taskletSchedule | .raiseSoftirq
    | .raiseSoftirqIrqoff | .kthreadRun true => d' = { d with queued := true }
    | .delTimer => d' = { d with queued := false }
    | .hrtimerCancel => !busy ∧ d' = { d with queued := false }
    | .destroyWorkqueue | .taskletKill => !busy ∧ d.queued = false ∧ d' = d
    | .openSoftirq | .blockingNotifierChainRegister => d' = { d with hooked := true }
    | .blockingNotifierChainUnregister => !busy ∧ d' = { d with hooked := false, queued := false }
    | .sendSig => d' = { d with signalled := true }
    | _ => d' = d

theorem plainKernel_documented : Documented plainKernel := by
  constructor
  case bystander =>
    have hsame : ∀ f ∈ bystanders, ∀ busy d d', plainKernel.does f busy d d' = decide (d' = d) := by
      simp [bystanders, plainKernel]
    intro f hf
    exact ⟨fun busy d => ⟨d, by simp [hsame f hf]⟩, by simp [hsame f hf]⟩
  case modTimer | hrtimerStart | queueWork | taskletSchedule | raiseSoftirq | kthreadRun =>
    refine ⟨fun _ d => ⟨{ d with queued := true }, by simp [plainKernel]⟩, ?_, ?_⟩
    · simp +contextual [plainKernel]
    · simp +contextual [plainKernel]
  case delTimer => exact fun _ d => ⟨{ d with queued := false }, by simp [plainKernel]⟩
  case raiseSoftirqIrqoff => exact fun _ d => ⟨{ d with queued := true }, by simp [plainKernel]⟩
  case openSoftirq => exact fun _ d => ⟨{ d with hooked := true }, by simp [plainKernel]⟩
  case sendSig => exact fun _ d => ⟨{ d with signalled := true }, by simp [plainKernel]⟩
  case hrtimerCancel =>
    refine ⟨fun d => ⟨{ d with queued := false }, by simp [plainKernel]⟩, ?_⟩
    simp +contextual [plainKernel]
  case destroyWorkqueue | taskletKill =>
    refine ⟨fun d hd => ⟨d, by simp [plainKernel, hd]⟩, ?_⟩
    simp +contextual [plainKernel]
  case blockingNotifierChainUnregister =>
    refine ⟨fun d => ⟨{ d with hooked := false, queued := false }, by simp [plainKernel]⟩, ?_⟩
    simp +contextual [plainKernel]

/-- The two timers. -/
theorem unload_safe_iff_timers :
    HigherResolution.plan.Safe plainKernel ∧ ¬LowerResolution.plan.Safe plainKernel :=
  ⟨(unload_safe_iff plainKernel plainKernel_documented .higherResolution).mpr (.inl rfl),
    fun hsafe => by simpa using
      (unload_safe_iff plainKernel plainKernel_documented .lowerResolution).mp hsafe⟩

/-- An `rmmod` can come to its end from any state that a run reaches with the exit begun, except
that of the workqueue if `my_func` queues its work again: that one never does. -/
theorem unload_finishes_iff (K : Kernel Call) (hK : Documented K) (M : Mod) :
    ((∀ s rest, (M.plan.sys K).Reachable s → s.stage = .exit rest →
        ∃ s', (M.plan.sys K).Leads s s' ∧ s'.stage = .gone) ↔ M ≠ .workqueue true) ∧
      (M = .workqueue true → ∀ s, (M.plan.sys K).Reachable s → s.stage ≠ .gone) := by
  have hprompt := hK.prompt
  have hnever : ∀ s, ((Workqueue.plan true).sys K).Reachable s → s.stage ≠ .gone := by
    intro s hs
    refine never_gone hK.queueWork (fun f hf => hK.keeps f ?_) (by decide) (w := .destroyWorkqueue)
      (by decide) hK.destroyWorkqueue (by decide) hs
    exact (by decide : (Workqueue.plan true).code ⊆ _) hf
  refine ⟨⟨?_, ?_⟩, ?_⟩
  · -- the exit can begin, and would have to come to its end
    rintro hfinishes rfl
    obtain ⟨s, hs, hstage, -⟩ := exit_begins (P := Workqueue.plan true)
      (fun f hf => hprompt f ((by decide : Workqueue.myInit ⊆ _) hf)) rfl hK.queueWork
    obtain ⟨s', hleads, hgone⟩ := hfinishes s _ hs hstage
    exact hnever s' (hs.leads hleads) hgone
  · intro hM s rest hs hstage
    refine exit_finishes ?_ hs hstage
    cases M with
    | lowerResolution =>
        exact .inr fun f hf => hprompt f ((by decide : LowerResolution.moduleLrtimerExit ⊆ _) hf)
    | softIrq => exact .inr fun f hf => hprompt f ((by decide : SoftIrq.myExit ⊆ _) hf)
    | umh started =>
        right
        cases started with
        | true =>
            exact fun f hf => hprompt f ((by decide : Umh.kthreadSignalExampleExit true ⊆ _) hf)
        | false =>
            intro f hf
            cases hf
    | higherResolution =>
        left
        refine ⟨fun f hf => ?_, .inr rfl, .inl fun f hf => ?_⟩
        · exact hprompt f ((by decide : HigherResolution.myHrtimerCallback ⊆ _) hf)
        · obtain rfl := List.mem_singleton.mp hf
          exact hK.hrtimerCancel.returns
    | workqueue again =>
        cases again with
        | true => exact absurd rfl hM
        | false =>
            refine .inl (hK.ends_of_print rfl rfl fun f hf => ?_)
            obtain rfl := List.mem_singleton.mp hf
            exact hK.destroyWorkqueue.returns
    | tasklet =>
        refine .inl (hK.ends_of_print rfl rfl fun f hf => ?_)
        obtain rfl := List.mem_singleton.mp hf
        exact hK.taskletKill.returns
    | subscriber =>
        left
        refine ⟨fun f hf => ?_, .inl rfl, .inl fun f hf => ?_⟩
        · obtain rfl := List.mem_singleton.mp hf
          exact (hK.bystander .printk (by decide)).prompt
        · obtain rfl := List.mem_singleton.mp hf
          exact hK.blockingNotifierChainUnregister.returns
  · rintro rfl
    exact hnever

/-- The work is queued and has begun to run when `rmmod` comes. -/
def rmmodWhileRunning : List Event :=
  [.load ⟨false, false, false⟩, .load ⟨false, false, false⟩, .load ⟨true, false, false⟩,
    .load ⟨true, false, false⟩, .fire, .unload]

theorem unload_finishes_iff_workqueue :
    ∃ s, ((Workqueue.plan false).sys plainKernel).run rmmodWhileRunning (Workqueue.plan false).start =
        some s ∧
      s.stage = .exit [.destroyWorkqueue] ∧ s.running = [[.printk]] ∧
      (∃ s', ((Workqueue.plan false).sys plainKernel).Leads s s' ∧ s'.stage = .gone) ∧
      ∀ s, ((Workqueue.plan true).sys plainKernel).Reachable s → s.stage ≠ .gone := by
  have hrun : ((Workqueue.plan false).sys plainKernel).run rmmodWhileRunning
      (Workqueue.plan false).start =
        some ⟨.exit [.destroyWorkqueue], ⟨false, false, false⟩, [[.printk]], false⟩ := rfl
  have hstart : ((Workqueue.plan false).sys plainKernel).Reachable (Workqueue.plan false).start :=
    .init rfl
  refine ⟨_, hrun, rfl, rfl, ?_, ?_⟩
  · have hfinishes := (unload_finishes_iff plainKernel plainKernel_documented (.workqueue false)).1.mpr
      (by decide)
    exact hfinishes _ _ (hstart.run hrun) rfl
  · exact (unload_finishes_iff plainKernel plainKernel_documented (.workqueue true)).2 rfl

end Deferred
end Lkm
