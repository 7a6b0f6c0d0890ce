import Lkm.UdpSend.Driver

/-!
# Unloading the sender

The thread keeps its own books (`Books`): who has `tinfo`, whether `send_udp` was entered,
and that it is past its loop only if it was told to stop or left it by `break`. The loader
knows the rest (`Expects`, by the place where it is). A step of one side changes nothing that
the other side's invariant speaks of, but for the few fields they share.

`faults_only_after_break`: whatever goes wrong, goes wrong after the thread has left its loop
by itself, or after the string was taken away from it. `loaded_safe_iff`: from then on it is not a
question of luck; while the module is loaded, `rmmod` can fail unless the thread is over
and has the last word on `kthreadtask`.
-/

namespace Lkm.UdpSend

open Base

namespace Thread

/-- `send_udp` has been entered and has not returned. -/
def Inside : Thread → Prop
  | .test | .sendmsg | .compare _ | .sleep | .clear | .releaseSock | .kfree | .ret => True
  | _ => False

/-- Behind the loop. -/
def Past : Thread → Prop
  | .clear | .releaseSock | .kfree | .ret | .dead | .freed => True
  | _ => False

def Over : Thread → Prop
  | .dead | .freed => True
  | _ => False

attribute [simp] Inside Past Over

end Thread

/-- The books of the thread. -/
structure Books (s : State) : Prop where
  fresh : s.thread = .created → s.entered = false ∧ s.tinfo.isSome = true
  inside : s.thread.Inside → s.entered = true
  info : s.thread.Inside → (s.tinfo.isSome = true ↔ s.thread ≠ .ret)
  ended : s.thread.Over → (s.tinfo.isSome = true ↔ s.entered = false)
  past : s.thread.Past → s.left = true ∨ s.shouldStop = true
  left : s.left = true → s.thread.Past

/-- No thread was started. -/
structure Fresh (s : State) : Prop where
  thread : s.thread = .none
  shouldStop : s.shouldStop = false
  entered : s.entered = false
  left : s.left = false

/-- There is a thread, `kthreadtask` is the pointer to it unless it has left its loop by itself, and it
was not told to stop. -/
structure Running (s : State) : Prop where
  thread : s.thread ≠ .none
  shouldStop : s.shouldStop = false
  noErr : s.kthreadtask ≠ .err
  task : s.left = false → s.kthreadtask = .task

/-- What the loader expects where it is. -/
def Expects (s : State) : Loader → Prop
  | .create | .bind | .connect | .kmalloc | .connectError | .failed => Fresh s
  | .kthreadRun | .store false | .threadError => Fresh s ∧ s.tinfo.isSome = true
  | .store true => s.thread ≠ .none ∧ s.shouldStop = false
  | .check => (Fresh s ∧ s.tinfo.isSome = true) ∧ s.kthreadtask = .err ∨ Running s
  | .loaded | .exitTest | .exitStop => Running s
  | .stopping => s.thread ≠ .none ∧ s.thread ≠ .freed
  | .exitReturn | .unloaded => s.thread ≠ .none ∧ (s.left = false → s.thread.Over)

/-- The string of the thread is freed only if the parameter was set. -/
structure Strings (s : State) : Prop where
  current : s.buffer.id < s.nextId
  live : s.freed s.buffer.id = false
  old : ∀ i, s.freed i = true → i < s.nextId
  own : ∀ str, s.tinfo = some str → str.id < s.nextId ∧ (s.freed str.id = true → s.retuned = true)

/-- What a fault needs. -/
def Blame (s : State) : Fault → Prop
  | .text | .task | .nullTask => s.left = true
  | .tinfo => False
  | .string => s.retuned = true

structure Inv (s : State) : Prop where
  books : Books s
  expects : Expects s s.loader
  strings : Strings s
  blame : ∀ f, s.fault = some f → Blame s f

section Steps

variable {s s' : State} {ok : Bool}

/-! ## The books -/

theorem Books.of_none (hthread : s.thread = .none) (hleft : s.left = false) : Books s := by
  constructor <;> simp [hthread, hleft]

theorem Books.congr (h : Books s) (hthread : s'.thread = s.thread) (hinfo : s'.tinfo = s.tinfo)
    (hentered : s'.entered = s.entered) (hleft : s'.left = s.left)
    (hstop : s.shouldStop = true → s'.shouldStop = true) : Books s' := by
  constructor
  · rw [hthread, hentered, hinfo]
    exact h.fresh
  · rw [hthread, hentered]
    exact h.inside
  · rw [hthread, hinfo]
    exact h.info
  · rw [hthread, hentered, hinfo]
    exact h.ended
  · rw [hthread, hleft]
    exact fun hpast => (h.past hpast).imp id hstop
  · rw [hthread, hleft]
    exact h.left

/-- Before the end of the loop nobody has left it. -/
theorem Books.not_left (h : Books s) (hthread : ¬s.thread.Past) : s.left = false := by
  by_contra hleft
  exact hthread (h.left (by simpa using hleft))

/-- The loader leaves the books alone, but for the one that it starts. -/
theorem Books.loader (h : Books s) (hexp : Expects s s.loader) (hn : s.loaderNext ok = some s') :
    Books s' := by
  unfold State.loaderNext at hn
  cases hl : s.loader <;> rw [hl] at hn hexp <;> dsimp only at hn
  case create =>
    split at hn <;> cases hn <;> exact h.congr rfl rfl rfl rfl id
  case kmalloc =>
    split at hn <;> cases hn
    · exact .of_none hexp.thread hexp.left
    · exact h.congr rfl rfl rfl rfl id
  case kthreadRun =>
    obtain ⟨hfresh, hinfo⟩ := hexp
    split at hn <;> cases hn
    · constructor <;> simp [hfresh.entered, hfresh.left, hinfo]
    · exact h.congr rfl rfl rfl rfl id
  case threadError =>
    cases hn
    exact .of_none hexp.1.thread hexp.1.left
  case exitStop =>
    split at hn
    · cases hn
      exact h.congr rfl rfl rfl rfl id
    · split at hn <;> cases hn
      · exact h.congr rfl rfl rfl rfl id
      · exact h.congr rfl rfl rfl rfl fun _ => rfl
  case stopping =>
    split at hn <;> cases hn
    exact h.congr rfl rfl rfl rfl id
  all_goals
    cases hn
    try exact h.congr rfl rfl rfl rfl id

theorem Books.start (h : Books s) (hthread : s.thread = .created) : Books s.start := by
  obtain ⟨hentered, hinfo⟩ := h.fresh hthread
  have hleft : s.left = false := h.not_left (by simp [hthread])
  unfold State.start
  split
  · rename_i hstop
    constructor <;> simp [State.run, hentered, hinfo, hleft, hstop]
  · constructor <;> simp [hinfo, hleft]

/-- The thread has `tinfo` up to the call of `kfree`. -/
theorem Books.has_info (h : Books s) (hinside : s.thread.Inside) (hret : s.thread ≠ .ret) :
    s.tinfo ≠ none := by
  have hsome := (h.info hinside).mpr hret
  intro hnone
  rw [hnone] at hsome
  cases hsome

theorem Books.crash (h : Books s) (f : Fault) : Books (s.crash f) := h.congr rfl rfl rfl rfl id

/-- The books inside `send_udp`. -/
theorem Books.of_inside (hinside : s.thread.Inside) (hentered : s.entered = true)
    (hinfo : s.tinfo.isSome = true ↔ s.thread ≠ .ret)
    (hpast : s.thread.Past ↔ s.left = true ∨ s.shouldStop = true ∧ s.thread.Past) : Books s where
  fresh := fun hcreated => by simp [hcreated] at hinside
  inside := fun _ => hentered
  info := fun _ => hinfo
  ended := fun hover => by
    cases ht : s.thread <;> simp [ht] at hinside hover
  past := fun hp => (hpast.mp hp).imp id And.left
  left := fun hleft => hpast.mpr (.inl hleft)

theorem Books.sendUdp (h : Books s) (hn : s.sendUdp ok = some s') : Books s' := by
  unfold State.sendUdp at hn
  cases ht : s.thread <;> rw [ht] at hn <;> dsimp only at hn
  case none | created | dead | freed => cases hn
  all_goals
    have hentered := h.inside (by simp [ht])
    have hinfo := h.info (by simp [ht])
    rw [ht] at hinfo
  -- in the loop: the thread has not left it
  case test =>
    have hleft := h.not_left (by simp [ht])
    cases hstop : s.shouldStop <;> rw [hstop] at hn <;> cases hn
    · apply Books.of_inside <;> simp [State.run, hentered, hinfo, hleft]
    · apply Books.of_inside <;> simp [State.run, hentered, hinfo, hleft, hstop]
  case sendmsg =>
    have hleft := h.not_left (by simp [ht])
    split at hn
    · cases hn
      exact h.crash _
    · split at hn <;> cases hn
      · exact h.crash _
      · apply Books.of_inside <;> simp [State.run, hentered, hinfo, hleft]
  case compare len =>
    have hleft := h.not_left (by simp [ht])
    split at hn <;> cases hn
    · apply Books.of_inside <;> simp [hentered, hinfo]
    · apply Books.of_inside <;> simp [State.run, hentered, hinfo, hleft]
  case sleep =>
    have hleft := h.not_left (by simp [ht])
    cases hn
    apply Books.of_inside <;> simp [State.run, hentered, hinfo, hleft]
  -- behind it: the reason stays
  all_goals have hreason := h.past (by simp [ht])
  case clear =>
    cases hn
    apply Books.of_inside <;> simp [hentered, hinfo, hreason]
  case releaseSock =>
    split at hn <;> cases hn
    · exact h.crash _
    · apply Books.of_inside <;> simp [State.run, hentered, hinfo, hreason]
  case kfree =>
    split at hn <;> cases hn
    · exact h.crash _
    · apply Books.of_inside <;> simp [hentered, hreason]
  case ret =>
    cases hn
    have hnone : s.tinfo = none := by simpa using hinfo
    constructor <;> simp [State.run, hentered, hreason, hnone]

/-! ## The loader -/

theorem Fresh.congr (h : Fresh s) (hthread : s'.thread = s.thread) (hstop : s'.shouldStop = s.shouldStop)
    (hentered : s'.entered = s.entered) (hleft : s'.left = s.left) : Fresh s' :=
  ⟨hthread.trans h.thread, hstop.trans h.shouldStop, hentered.trans h.entered, hleft.trans h.left⟩

theorem Running.congr (h : Running s) (hthread : s'.thread = s.thread)
    (hstop : s'.shouldStop = s.shouldStop) (htask : s'.kthreadtask = s.kthreadtask)
    (hleft : s'.left = s.left) : Running s' :=
  ⟨hthread ▸ h.thread, hstop.trans h.shouldStop, htask ▸ h.noErr, fun hl => htask.trans (h.task (hleft ▸ hl))⟩

theorem expects_loader (h : Expects s s.loader) (hn : s.loaderNext ok = some s') :
    Expects s' s'.loader := by
  unfold State.loaderNext at hn
  cases hl : s.loader <;> rw [hl] at hn h <;> dsimp only at hn
  case create =>
    split at hn <;> cases hn <;> exact Fresh.congr h rfl rfl rfl rfl
  case bind | connect =>
    cases hn
    cases ok <;> exact Fresh.congr h rfl rfl rfl rfl
  case kmalloc =>
    split at hn <;> cases hn
    · exact ⟨Fresh.congr h rfl rfl rfl rfl, rfl⟩
    · exact Fresh.congr h rfl rfl rfl rfl
  case kthreadRun =>
    split at hn <;> cases hn
    · exact ⟨by simp, h.1.shouldStop⟩
    · exact ⟨h.1.congr rfl rfl rfl rfl, h.2⟩
  case store started =>
    cases hn
    cases started with
    | true => exact .inr ⟨h.1, h.2, by simp, fun _ => rfl⟩
    | false => exact .inl ⟨⟨h.1.congr rfl rfl rfl rfl, h.2⟩, rfl⟩
  case check =>
    cases hn
    rcases h with ⟨⟨hfresh, hinfo⟩, herr⟩ | hrunning
    · rw [if_pos herr]
      exact ⟨hfresh.congr rfl rfl rfl rfl, hinfo⟩
    · rw [if_neg hrunning.noErr]
      exact hrunning.congr rfl rfl rfl rfl
  case threadError =>
    cases hn
    exact h.1.congr rfl rfl rfl rfl
  case connectError =>
    cases hn
    exact Fresh.congr h rfl rfl rfl rfl
  case exitTest =>
    cases hn
    by_cases hnull : s.kthreadtask = .null
    · rw [if_pos hnull]
      refine ⟨h.thread, fun hleft => ?_⟩
      cases hnull.symm.trans (h.task hleft)
    · rw [if_neg hnull]
      exact Running.congr h rfl rfl rfl rfl
  case exitStop =>
    have hcrash : ∀ f, Expects (s.crash f) (s.crash f).loader := by
      intro f
      show Expects (s.crash f) s.loader
      rw [hl]
      exact Running.congr h rfl rfl rfl rfl
    split at hn
    · cases hn
      exact hcrash _
    · split at hn <;> cases hn
      · exact hcrash _
      · exact ⟨h.thread, by assumption⟩
  case stopping =>
    split at hn <;> cases hn
    rename_i hdead
    exact ⟨h.1, fun _ => by simp [State.goto, hdead]⟩
  case exitReturn =>
    cases hn
    exact h
  case failed | loaded | unloaded => cases hn

/-- A step of the thread, as the loader sees it: only `kthreadtask = NULL`, behind the loop. -/
structure Seen (s s' : State) : Prop where
  loader : s'.loader = s.loader
  alive : s.thread ≠ .none ∧ ¬s.thread.Over
  thread : s'.thread ≠ .none ∧ s'.thread ≠ .freed
  stop : s'.shouldStop = s.shouldStop
  task : s'.kthreadtask = s.kthreadtask ∨ s'.kthreadtask = .null ∧ s.thread.Past
  left : s.left = true → s'.left = true

theorem seen_crash (f : Fault) (hnone : s.thread ≠ .none) (hover : ¬s.thread.Over) :
    Seen s (s.crash f) := by
  refine ⟨rfl, ⟨hnone, hover⟩, ⟨hnone, ?_⟩, rfl, .inl rfl, id⟩
  intro hfreed
  exact hover (by simp [show s.thread = .freed from hfreed])

theorem seen_start (ht : s.thread = .created) : Seen s s.start := by
  unfold State.start
  split <;> exact ⟨rfl, by simp [ht], by simp [State.run], rfl, .inl rfl, id⟩

theorem seen_sendUdp (hn : s.sendUdp ok = some s') : Seen s s' := by
  unfold State.sendUdp at hn
  cases ht : s.thread <;> rw [ht] at hn <;> dsimp only at hn
  case none | created | dead | freed => cases hn
  case test =>
    cases hn
    refine ⟨rfl, by simp [ht], ?_, rfl, .inl rfl, id⟩
    cases s.shouldStop <;> simp [State.run]
  case sendmsg =>
    split at hn
    · cases hn
      exact seen_crash _ (by simp [ht]) (by simp [ht])
    · split at hn <;> cases hn
      · exact seen_crash _ (by simp [ht]) (by simp [ht])
      · exact ⟨rfl, by simp [ht], by simp [State.run], rfl, .inl rfl, id⟩
  case compare len =>
    split at hn <;> cases hn
    · exact ⟨rfl, by simp [ht], by simp, rfl, .inl rfl, fun _ => rfl⟩
    · exact ⟨rfl, by simp [ht], by simp [State.run], rfl, .inl rfl, id⟩
  case clear =>
    cases hn
    exact ⟨rfl, by simp [ht], by simp, rfl, .inr ⟨rfl, by simp [ht]⟩, id⟩
  case releaseSock | kfree =>
    split at hn <;> cases hn
    · exact seen_crash _ (by simp [ht]) (by simp [ht])
    · exact ⟨rfl, by simp [ht], by simp [State.run], rfl, .inl rfl, id⟩
  case sleep | ret =>
    cases hn
    exact ⟨rfl, by simp [ht], by simp [State.run], rfl, .inl rfl, id⟩

/-- How a step of the thread goes. -/
theorem threadNext_cases (hn : s.threadNext ok = some s') :
    (s.loader = .unloaded ∧ s.thread ≠ .none ∧ ¬s.thread.Over ∧ s' = s.crash .text) ∨
      (s.thread = .created ∧ s' = s.start) ∨ s.sendUdp ok = some s' := by
  unfold State.threadNext at hn
  cases ht : s.thread <;> rw [ht] at hn <;> dsimp only at hn
  case none | dead | freed => cases hn
  case created =>
    split at hn <;> cases hn
    · rename_i hgone
      simp only [Bool.and_eq_true, decide_eq_true_eq] at hgone
      exact .inl ⟨hgone.1, by simp, by simp, rfl⟩
    · exact .inr (.inl ⟨rfl, rfl⟩)
  all_goals
    split at hn
    · cases hn
      rename_i hgone
      exact .inl ⟨hgone, by simp, by simp, rfl⟩
    · exact .inr (.inr hn)

theorem seen_thread (hn : s.threadNext ok = some s') : Seen s s' := by
  rcases threadNext_cases hn with ⟨-, hnone, hover, rfl⟩ | ⟨hcreated, rfl⟩ | hstep
  · exact seen_crash _ hnone hover
  · exact seen_start hcreated
  · exact seen_sendUdp hstep

theorem Books.thread (h : Books s) (hn : s.threadNext ok = some s') : Books s' := by
  rcases threadNext_cases hn with ⟨-, -, -, rfl⟩ | ⟨hcreated, rfl⟩ | hstep
  · exact h.crash _
  · exact h.start hcreated
  · exact h.sendUdp hstep

theorem Running.seen (hb : Books s) (h : Running s) (hs : Seen s s') : Running s' := by
  -- nobody is past the loop for another reason than its own
  have hpast : s.thread.Past → s.left = true := fun hp =>
    (hb.past hp).resolve_right (by simp [h.shouldStop])
  have hleft : s'.left = false → s.left = false := by
    intro hl'
    by_contra hne
    cases hl'.symm.trans (hs.left (by simpa using hne))
  refine ⟨hs.thread.1, hs.stop.trans h.shouldStop, ?_, ?_⟩
  · rcases hs.task with hsame | ⟨hnull, -⟩
    · rw [hsame]
      exact h.noErr
    · simp [hnull]
  · intro hl'
    rcases hs.task with hsame | ⟨-, hp⟩
    · exact hsame.trans (h.task (hleft hl'))
    · cases (hleft hl').symm.trans (hpast hp)

theorem expects_thread (hb : Books s) (h : Expects s s.loader) (hs : Seen s s') :
    Expects s' s'.loader := by
  have hfresh : ¬Fresh s := fun hf => hs.alive.1 hf.thread
  rw [hs.loader]
  cases hl : s.loader <;> rw [hl] at h
  case store started =>
    cases started with
    | true => exact ⟨hs.thread.1, hs.stop.trans h.2⟩
    | false => exact absurd h.1 hfresh
  case check => exact .inr (Running.seen hb (h.resolve_left fun hf => hfresh hf.1.1) hs)
  case loaded | exitTest | exitStop => exact Running.seen hb h hs
  case stopping => exact hs.thread
  case exitReturn | unloaded =>
    -- the thread still runs, so that it is gone astray before
    refine ⟨hs.thread.1, fun hl' => ?_⟩
    have hleft : s.left = true := by
      by_contra hne
      exact hs.alive.2 (h.2 (by simpa using hne))
    cases hl'.symm.trans (hs.left hleft)
  case kthreadRun | threadError => exact absurd h.1 hfresh
  all_goals exact absurd h hfresh

/-! ## The strings -/

theorem Strings.congr (h : Strings s) (hbuffer : s'.buffer = s.buffer) (hfreed : s'.freed = s.freed)
    (hnext : s'.nextId = s.nextId) (hretuned : s'.retuned = s.retuned)
    (hinfo : ∀ str, s'.tinfo = some str → s.tinfo = some str ∨ str = s.buffer) : Strings s' := by
  refine ⟨?_, ?_, ?_, ?_⟩
  · rw [hbuffer, hnext]
    exact h.current
  · rw [hbuffer, hfreed]
    exact h.live
  · rw [hfreed, hnext]
    exact h.old
  · intro str hstr
    rw [hfreed, hnext, hretuned]
    rcases hinfo str hstr with hold | rfl
    · exact h.own str hold
    · refine ⟨h.current, fun hgone => ?_⟩
      cases h.live.symm.trans hgone

theorem Strings.loader (h : Strings s) (hn : s.loaderNext ok = some s') : Strings s' := by
  unfold State.loaderNext at hn
  cases hl : s.loader <;> rw [hl] at hn <;> dsimp only at hn
  case kmalloc =>
    split at hn <;> cases hn
    · exact h.congr rfl rfl rfl rfl fun str hstr => .inr (Option.some.inj hstr).symm
    · exact h.congr rfl rfl rfl rfl fun _ => .inl
  case threadError =>
    cases hn
    exact h.congr rfl rfl rfl rfl fun _ hstr => nomatch hstr
  case create | kthreadRun | stopping =>
    split at hn <;> cases hn <;> exact h.congr rfl rfl rfl rfl fun _ => .inl
  case exitStop =>
    split at hn
    · cases hn
      exact h.congr rfl rfl rfl rfl fun _ => .inl
    · split at hn <;> cases hn <;> exact h.congr rfl rfl rfl rfl fun _ => .inl
  all_goals
    cases hn
    try exact h.congr rfl rfl rfl rfl fun _ => .inl

theorem Strings.thread (h : Strings s) (hn : s.threadNext ok = some s') : Strings s' := by
  rcases threadNext_cases hn with ⟨-, -, -, rfl⟩ | ⟨-, rfl⟩ | hstep
  · exact h.congr rfl rfl rfl rfl fun _ => .inl
  · unfold State.start
    split <;> exact h.congr rfl rfl rfl rfl fun _ => .inl
  unfold State.sendUdp at hstep
  cases ht : s.thread <;> rw [ht] at hstep <;> dsimp only at hstep
  case sendmsg =>
    split at hstep
    · cases hstep
      exact h.congr rfl rfl rfl rfl fun _ => .inl
    · split at hstep <;> cases hstep <;> exact h.congr rfl rfl rfl rfl fun _ => .inl
  case kfree =>
    split at hstep <;> cases hstep
    · exact h.congr rfl rfl rfl rfl fun _ => .inl
    · exact h.congr rfl rfl rfl rfl fun _ hstr => nomatch hstr
  case compare | releaseSock =>
    split at hstep <;> cases hstep <;> exact h.congr rfl rfl rfl rfl fun _ => .inl
  all_goals
    cases hstep
    try exact h.congr rfl rfl rfl rfl fun _ => .inl

theorem Strings.setBuffer (h : Strings s) (n : Nat) : Strings (s.setBuffer n) := by
  have hold : ∀ i, (s.setBuffer n).freed i = true → s.freed i = true ∨ i = s.buffer.id := by
    intro i hi
    by_cases heq : i = s.buffer.id
    · exact .inr heq
    · left
      have hi' : (if s.buffer.heap then Function.update s.freed s.buffer.id true else s.freed) i = true := hi
      split at hi'
      · rwa [Function.update_of_ne heq] at hi'
      · exact hi'
  refine ⟨Nat.lt_succ_self _, ?_, ?_, ?_⟩
  · show (s.setBuffer n).freed s.nextId = false
    by_contra hgone
    rcases hold s.nextId (by simpa using hgone) with hfreed | heq
    · exact absurd (h.old _ hfreed) (Nat.lt_irrefl _)
    · exact absurd h.current (heq ▸ Nat.lt_irrefl _)
  · intro i hi
    rcases hold i hi with hfreed | rfl
    · exact Nat.lt_succ_of_lt (h.old i hfreed)
    · exact Nat.lt_succ_of_lt h.current
  · intro str hstr
    refine ⟨Nat.lt_succ_of_lt (h.own str hstr).1, fun _ => ?_⟩
    have hsome : s.tinfo = some str := hstr
    simp [State.setBuffer, hsome]

/-! ## Faults -/

theorem blame_loader (hb : Books s) (h : Expects s s.loader) (hn : s.loaderNext ok = some s')
    (hnone : s.fault = none) : ∀ f, s'.fault = some f → Blame s' f := by
  have hquiet : s'.fault = s.fault → ∀ f, s'.fault = some f → Blame s' f := by
    intro hsame f hf
    rw [hsame, hnone] at hf
    cases hf
  unfold State.loaderNext at hn
  cases hl : s.loader <;> rw [hl] at hn h <;> dsimp only at hn
  case exitStop =>
    have hleft : ¬s.left = false → s.left = true := by simp
    split at hn
    · -- only a thread that left its loop by itself takes the pointer away
      rename_i hnull
      cases hn
      rintro f ⟨⟩
      refine hleft fun hl' => ?_
      cases hnull.symm.trans (h.task hl')
    · split at hn
      · rename_i hfreed
        cases hn
        rintro f ⟨⟩
        exact (hb.past (by simp [hfreed])).resolve_right (by simp [h.shouldStop])
      · cases hn
        exact hquiet rfl
  case create | kmalloc | kthreadRun | stopping =>
    split at hn <;> cases hn <;> exact hquiet rfl
  all_goals
    cases hn
    try exact hquiet rfl

theorem blame_thread (hb : Books s) (h : Expects s s.loader) (hs : Strings s)
    (hn : s.threadNext ok = some s') (hnone : s.fault = none) : ∀ f, s'.fault = some f → Blame s' f := by
  have hquiet : s'.fault = s.fault → ∀ f, s'.fault = some f → Blame s' f := by
    intro hsame f hf
    rw [hsame, hnone] at hf
    cases hf
  rcases threadNext_cases hn with ⟨hgone, -, hover, rfl⟩ | ⟨-, rfl⟩ | hstep
  · rintro f ⟨⟩
    rw [hgone] at h
    show s.left = true
    by_contra hne
    exact hover (h.2 (by simpa using hne))
  · unfold State.start
    split <;> intro f hf <;> cases hnone.symm.trans hf
  unfold State.sendUdp at hstep
  cases ht : s.thread <;> rw [ht] at hstep <;> dsimp only at hstep
  case sendmsg =>
    split at hstep
    · rename_i hinfo
      exact absurd hinfo (hb.has_info (by simp [ht]) (by simp [ht]))
    · rename_i str hinfo
      split at hstep
      · rename_i hfreed
        cases hstep
        rintro f ⟨⟩
        exact (hs.own str hinfo).2 hfreed
      · cases hstep
        exact hquiet rfl
  case releaseSock | kfree =>
    rw [if_neg (hb.has_info (by simp [ht]) (by simp [ht]))] at hstep
    cases hstep
    exact hquiet rfl
  case compare len =>
    split at hstep <;> cases hstep <;> exact hquiet rfl
  all_goals
    cases hstep
    try exact hquiet rfl

theorem Books.reap (h : Books s) (hdead : s.thread = .dead) : Books (s.run .freed) := by
  have hover := h.ended (by simp [hdead])
  have hpast := h.past (by simp [hdead])
  constructor <;> simp_all [State.run]

theorem expects_reap (h : Expects s s.loader) (hdead : s.thread = .dead) (hstop : s.loader ≠ .stopping) :
    Expects (s.run .freed) s.loader := by
  have hfresh : ¬Fresh s := by
    intro hf
    cases hf.thread.symm.trans hdead
  have hrunning : Running s → Running (s.run .freed) := fun hr =>
    ⟨by simp [State.run], hr.shouldStop, hr.noErr, hr.task⟩
  cases hl : s.loader <;> rw [hl] at h
  case store started =>
    cases started with
    | true => exact ⟨by simp [State.run], h.2⟩
    | false => exact absurd h.1 hfresh
  case check => exact .inr (hrunning (h.resolve_left fun hf => hfresh hf.1.1))
  case loaded | exitTest | exitStop => exact hrunning h
  case stopping => exact absurd hl hstop
  case exitReturn | unloaded => exact ⟨by simp [State.run], fun _ => by simp [State.run]⟩
  case kthreadRun | threadError => exact absurd h.1 hfresh
  all_goals exact absurd h hfresh

theorem expects_setBuffer (h : Expects s s.loader) (n : Nat) :
    Expects (s.setBuffer n) (s.setBuffer n).loader := by
  show Expects (s.setBuffer n) s.loader
  cases hl : s.loader <;> rw [hl] at h
  case store started =>
    cases started with
    | true => exact h
    | false => exact ⟨h.1.congr rfl rfl rfl rfl, h.2⟩
  case check =>
    exact h.imp (fun hf => ⟨⟨hf.1.1.congr rfl rfl rfl rfl, hf.1.2⟩, hf.2⟩) fun hr =>
      hr.congr rfl rfl rfl rfl
  case kthreadRun | threadError => exact ⟨h.1.congr rfl rfl rfl rfl, h.2⟩
  case loaded | exitTest | exitStop => exact Running.congr h rfl rfl rfl rfl
  case stopping | exitReturn | unloaded => exact h
  all_goals exact Fresh.congr h rfl rfl rfl rfl

/-! ## Runs -/

theorem Inv.next (h : Inv s) {e : Event} (hn : s.next e = some s') : Inv s' := by
  obtain ⟨hb, hexp, hs, hblame⟩ := h
  unfold State.next at hn
  cases hfault : s.fault with
  | some f => simp [hfault] at hn
  | none =>
      simp only [hfault, Option.isSome_none, Bool.false_eq_true, if_false] at hn
      cases e with
      | loader ok =>
          exact ⟨hb.loader hexp hn, expects_loader hexp hn, hs.loader hn, blame_loader hb hexp hn hfault⟩
      | rmmod =>
          dsimp only at hn
          split at hn <;> cases hn
          rename_i hloaded
          rw [hloaded] at hexp
          refine ⟨hb.congr rfl rfl rfl rfl id, Running.congr hexp rfl rfl rfl rfl,
            hs.congr rfl rfl rfl rfl fun _ => .inl, fun f hf => ?_⟩
          cases hfault.symm.trans hf
      | thread ok =>
          exact ⟨hb.thread hn, expects_thread hb hexp (seen_thread hn), hs.thread hn,
            blame_thread hb hexp hs hn hfault⟩
      | reap =>
          dsimp only at hn
          split at hn <;> cases hn
          rename_i hcond
          simp only [Bool.and_eq_true, decide_eq_true_eq, ne_eq, decide_not, Bool.not_eq_true',
            decide_eq_false_iff_not] at hcond
          refine ⟨hb.reap hcond.1, expects_reap hexp hcond.1 hcond.2,
            hs.congr rfl rfl rfl rfl fun _ => .inl, fun f hf => ?_⟩
          cases hfault.symm.trans hf
      | setBuffer n =>
          dsimp only at hn
          split at hn <;> cases hn
          refine ⟨hb.congr rfl rfl rfl rfl id, ?_, hs.setBuffer n, fun f hf => ?_⟩
          · exact expects_setBuffer hexp n
          · cases hfault.symm.trans hf

theorem inv_insmod (buffer : Str) : Inv (insmod buffer) where
  books := .of_none rfl rfl
  expects := ⟨rfl, rfl, rfl, rfl⟩
  strings := ⟨Nat.lt_succ_self _, rfl, fun _ h => (nomatch h), fun _ h => (nomatch h)⟩
  blame := fun _ h => (nomatch h)

theorem inv_of_reachable (h : sys.Reachable s) : Inv s := by
  apply TSys.Reach.invariant _ _ h
  · rintro s ⟨buffer, rfl⟩
    exact inv_insmod buffer
  · intro s e s' hs _ hnext
    exact hs.next hnext

/-! ## The socket -/

theorem sockets_thread (hn : s.threadNext ok = some s') : s'.sockets = s.sockets := by
  rcases threadNext_cases hn with ⟨-, -, -, rfl⟩ | ⟨-, rfl⟩ | hstep
  · rfl
  · unfold State.start
    split <;> rfl
  unfold State.sendUdp at hstep
  cases ht : s.thread <;> rw [ht] at hstep <;> dsimp only at hstep
  case sendmsg =>
    split at hstep
    · cases hstep
      rfl
    · split at hstep <;> cases hstep <;> rfl
  case compare | releaseSock | kfree => split at hstep <;> cases hstep <;> rfl
  all_goals
    cases hstep
    try rfl

/-- The socket is there from the first call on. -/
def HasSocket (s : State) : Prop :=
  (s.loader = .create → s.sockets = 0) ∧ (s.loader ≠ .create → s.loader ≠ .failed → s.sockets = 1)

theorem HasSocket.loader (h : HasSocket s) (hn : s.loaderNext ok = some s') : HasSocket s' := by
  unfold State.loaderNext at hn
  cases hl : s.loader <;> rw [hl] at hn <;> dsimp only at hn
  case create =>
    have hzero := h.1 hl
    split at hn <;> cases hn <;> simp [HasSocket, State.goto, hzero]
  case failed | loaded | unloaded => cases hn
  all_goals have hone := h.2 (by simp [hl]) (by simp [hl])
  case kmalloc | kthreadRun | stopping =>
    split at hn <;> cases hn <;> simp [HasSocket, State.goto, hone]
  case exitStop =>
    split at hn
    · cases hn
      exact h
    · split at hn <;> cases hn
      · exact h
      · simp [HasSocket, hone]
  case bind | connect =>
    cases hn
    cases ok <;> simp [HasSocket, State.goto, hone]
  case check | exitTest =>
    cases hn
    split <;> simp [HasSocket, State.goto, hone]
  all_goals
    cases hn
    simp [HasSocket, State.goto, hone]

theorem HasSocket.next (h : HasSocket s) {e : Event} (hn : s.next e = some s') : HasSocket s' := by
  unfold State.next at hn
  split at hn
  · cases hn
  cases e with
  | loader ok => exact h.loader hn
  | thread ok =>
      unfold HasSocket
      rw [(seen_thread hn).loader, sockets_thread hn]
      exact h
  | rmmod =>
      dsimp only at hn
      split at hn <;> cases hn
      rename_i hloaded
      have hone := h.2 (by simp [hloaded]) (by simp [hloaded])
      simp [HasSocket, State.goto, hone]
  | reap | setBuffer n =>
      dsimp only at hn
      split at hn <;> cases hn
      exact h

theorem hasSocket_of_reachable (h : sys.Reachable s) : HasSocket s := by
  apply TSys.Reach.invariant _ _ h
  · rintro s ⟨buffer, rfl⟩
    exact ⟨fun _ => rfl, fun hne => absurd rfl hne⟩
  · intro s e s' hs _ hnext
    exact hs.next hnext

/-- However the two sides are scheduled: the thread runs text that is gone, and `rmmod` stops a task
that is not there, only after the thread has left its loop by `break`; `tinfo` is never used after it
was freed, and a string only if the parameter was set. When the module is gone, its socket is not;
and if the thread did not leave by itself, it is over, and `tinfo` is freed exactly if `send_udp`
was entered. -/
theorem faults_only_after_break (s : State) (h : sys.Reachable s) :
    (∀ f, s.fault = some f → f = .string ∧ s.retuned = true ∨
      (f = .text ∨ f = .task ∨ f = .nullTask) ∧ s.left = true) ∧
    (s.loader = .unloaded → s.sockets = 1 ∧
      (s.left = false → s.thread.Over ∧ (s.tinfo = none ↔ s.entered = true))) := by
  obtain ⟨hb, hexp, -, hblame⟩ := inv_of_reachable h
  constructor
  · intro f hf
    have hf' := hblame f hf
    cases f with
    | text => exact .inr ⟨.inl rfl, hf'⟩
    | task => exact .inr ⟨.inr (.inl rfl), hf'⟩
    | nullTask => exact .inr ⟨.inr (.inr rfl), hf'⟩
    | tinfo => exact absurd hf' id
    | string => exact .inl ⟨rfl, hf'⟩
  · intro hgone
    have hsocket := (hasSocket_of_reachable h).2 (by simp [hgone]) (by simp [hgone])
    refine ⟨hsocket, fun hleft => ?_⟩
    rw [hgone] at hexp
    have hover := hexp.2 hleft
    refine ⟨hover, ?_⟩
    have hinfo := hb.ended hover
    cases hi : s.tinfo with
    | none => simpa [hi] using hinfo
    | some str => simpa [hi] using hinfo

/-- `insmod` without a failure. -/
def loading : List Event := List.replicate 7 (.loader true)

/-- A packet is refused, and `rmmod` comes between the last statements of `send_udp`. -/
def refused : List Event :=
  loading ++ [.thread true, .thread true, .thread false, .thread true, .thread true, .rmmod,
    .loader true, .loader true, .thread true]

theorem faults_only_after_break_refused :
    ∃ s, sys.run refused (insmod ⟨0, 20, false⟩) = some s ∧ s.fault = some .text ∧ s.left = true := by
  obtain ⟨s, hrun, hfault⟩ : ∃ s, sys.run refused (insmod ⟨0, 20, false⟩) = some s ∧
      s.fault = some .text := ⟨_, rfl, rfl⟩
  have hreach : sys.Reachable s := TSys.Reachable.run (.init ⟨_, rfl⟩) hrun
  rcases (faults_only_after_break s hreach).1 .text hfault with ⟨hstring, -⟩ | ⟨-, hleft⟩
  · cases hstring
  · exact ⟨s, hrun, hfault, hleft⟩

/-! ## What can still happen -/

/-- Some run from here ends in a fault. -/
def CanFault (s : State) : Prop := ∃ es s', sys.run es s = some s' ∧ s'.fault ≠ none

theorem CanFault.now (h : s.fault ≠ none) : CanFault s := ⟨[], s, rfl, h⟩

theorem CanFault.step (e : Event) {s₁ : State} (hn : s.next e = some s₁) (h : CanFault s₁) :
    CanFault s := by
  obtain ⟨es, s', hrun, hfault⟩ := h
  refine ⟨e :: es, s', ?_, hfault⟩
  rw [TSys.run, show sys.next s e = some s₁ from hn]
  exact hrun

/-- The module is loaded, and its thread may run. -/
structure Loaded (s : State) : Prop where
  loader : s.loader = .loaded
  fault : s.fault = none
  shouldStop : s.shouldStop = false

namespace Loaded

theorem run (h : Loaded s) (t : Thread) : Loaded (s.run t) := ⟨h.loader, h.fault, h.shouldStop⟩

theorem thread_next (h : Loaded s) (hnone : s.thread ≠ .none) (hcreated : s.thread ≠ .created)
    (hover : ¬s.thread.Over) (ok : Bool) : s.next (.thread ok) = s.sendUdp ok := by
  unfold State.next State.threadNext
  simp only [h.fault, Option.isSome_none, Bool.false_eq_true, if_false, h.loader]
  cases ht : s.thread <;> simp_all

/-- A thread that `my_exit` does not see runs on when its text is gone. -/
theorem canFault_unseen (h : Loaded s) (hnull : s.kthreadtask = .null) (hnone : s.thread ≠ .none)
    (hover : ¬s.thread.Over) : CanFault s := by
  have hrmmod : s.next .rmmod = some (s.goto .exitTest) := by simp [State.next, h.fault, h.loader]
  have htest : (s.goto .exitTest).next (.loader true) = some (s.goto .exitReturn) := by
    simp [State.next, State.loaderNext, State.goto, h.fault, hnull]
  have hreturn : (s.goto .exitReturn).next (.loader true) = some (s.goto .unloaded) := by
    simp [State.next, State.loaderNext, State.goto, h.fault]
  have hcrash : (s.goto .unloaded).next (.thread true) = some ((s.goto .unloaded).crash .text) := by
    unfold State.next State.threadNext
    cases ht : s.thread <;> simp_all [State.goto, h.fault, h.shouldStop]
  exact .step _ hrmmod (.step _ htest (.step _ hreturn (.step _ hcrash (.now (by simp [State.crash])))))

/-- `my_exit` stops a task that is gone. -/
theorem canFault_stale (h : Loaded s) (htask : s.kthreadtask = .task) (hfreed : s.thread = .freed) :
    CanFault s := by
  have hrmmod : s.next .rmmod = some (s.goto .exitTest) := by simp [State.next, h.fault, h.loader]
  have htest : (s.goto .exitTest).next (.loader true) = some (s.goto .exitStop) := by
    simp [State.next, State.loaderNext, State.goto, h.fault, htask]
  have hstop : (s.goto .exitStop).next (.loader true) = some ((s.goto .exitStop).crash .task) := by
    simp [State.next, State.loaderNext, State.goto, h.fault, htask, hfreed]
  exact .step _ hrmmod (.step _ htest (.step _ hstop (.now (by simp [State.crash]))))

/-- The pointer was stored when the thread was past its loop. -/
theorem canFault_past (h : Loaded s) (htask : s.kthreadtask = .task) (hpast : s.thread.Past) :
    CanFault s := by
  have hdead : ∀ s, Loaded s → s.kthreadtask = .task → s.thread = .dead → CanFault s := by
    intro s h htask ht
    have hn : s.next .reap = some (s.run .freed) := by simp [State.next, h.fault, h.loader, ht]
    exact .step _ hn ((h.run .freed).canFault_stale htask rfl)
  have hret : ∀ s, Loaded s → s.kthreadtask = .task → s.thread = .ret → CanFault s := by
    intro s h htask ht
    have hn := h.thread_next (by simp [ht]) (by simp [ht]) (by simp [ht]) true
    rw [State.sendUdp, ht] at hn
    exact .step _ hn (hdead _ (h.run .dead) htask rfl)
  have hkfree : ∀ s, Loaded s → s.kthreadtask = .task → s.thread = .kfree → CanFault s := by
    intro s h htask ht
    have hn := h.thread_next (by simp [ht]) (by simp [ht]) (by simp [ht]) true
    rw [State.sendUdp, ht] at hn
    dsimp only at hn
    split at hn
    · exact .step _ hn (.now (by simp [State.crash]))
    · exact .step _ hn (hret _ ⟨h.loader, h.fault, h.shouldStop⟩ htask rfl)
  cases ht : s.thread <;> simp only [ht, Thread.Past] at hpast
  case dead => exact hdead s h htask ht
  case freed => exact h.canFault_stale htask ht
  case ret => exact hret s h htask ht
  case kfree => exact hkfree s h htask ht
  case releaseSock =>
    have hn := h.thread_next (by simp [ht]) (by simp [ht]) (by simp [ht]) true
    rw [State.sendUdp, ht] at hn
    dsimp only at hn
    split at hn
    · exact .step _ hn (.now (by simp [State.crash]))
    · exact .step _ hn (hkfree _ (h.run .kfree) htask rfl)
  case clear =>
    -- here the pointer goes, and the thread is not seen any more
    have hn := h.thread_next (by simp [ht]) (by simp [ht]) (by simp [ht]) true
    rw [State.sendUdp, ht] at hn
    exact .step _ hn (canFault_unseen ⟨h.loader, h.fault, h.shouldStop⟩ rfl (by simp) (by simp))

/-- A packet that is not sent ends the loop. -/
theorem canFault_working (h : Loaded s) (hpast : ¬s.thread.Past) (hnone : s.thread ≠ .none)
    (htask : s.kthreadtask = .task) : CanFault s := by
  have hclear : ∀ s, Loaded s → s.kthreadtask = .task → s.thread = .clear → CanFault s :=
    fun s h htask ht => h.canFault_past htask (by simp [ht])
  have hsend : ∀ s, Loaded s → s.kthreadtask = .task → s.thread = .sendmsg → CanFault s := by
    intro s h htask ht
    have hn := h.thread_next (by simp [ht]) (by simp [ht]) (by simp [ht]) false
    rw [State.sendUdp, ht] at hn
    dsimp only at hn
    split at hn
    · exact .step _ hn (.now (by simp [State.crash]))
    · split at hn
      · exact .step _ hn (.now (by simp [State.crash]))
      · refine .step _ hn ?_
        have hl := h.run (.compare none)
        have hn' := hl.thread_next (by simp [State.run]) (by simp [State.run]) (by simp [State.run]) true
        exact .step _ hn' (hclear _ ⟨hl.loader, hl.fault, hl.shouldStop⟩ htask rfl)
  have htest : ∀ s, Loaded s → s.kthreadtask = .task → s.thread = .test → CanFault s := by
    intro s h htask ht
    have hn := h.thread_next (by simp [ht]) (by simp [ht]) (by simp [ht]) true
    rw [State.sendUdp, ht] at hn
    simp only [h.shouldStop, Bool.false_eq_true, if_false] at hn
    exact .step _ hn (hsend _ (h.run .sendmsg) htask rfl)
  have hsleep : ∀ s, Loaded s → s.kthreadtask = .task → s.thread = .sleep → CanFault s := by
    intro s h htask ht
    have hn := h.thread_next (by simp [ht]) (by simp [ht]) (by simp [ht]) true
    rw [State.sendUdp, ht] at hn
    exact .step _ hn (htest _ (h.run .test) htask rfl)
  cases ht : s.thread <;> simp [ht] at hpast hnone
  case test => exact htest s h htask ht
  case sendmsg => exact hsend s h htask ht
  case sleep => exact hsleep s h htask ht
  case compare len =>
    have hn := h.thread_next (by simp [ht]) (by simp [ht]) (by simp [ht]) true
    rw [State.sendUdp, ht] at hn
    dsimp only at hn
    split at hn
    · exact .step _ hn (hclear _ ⟨h.loader, h.fault, h.shouldStop⟩ htask rfl)
    · exact .step _ hn (hsleep _ (h.run .sleep) htask rfl)
  case created =>
    have hn : s.next (.thread true) = some { s with thread := .test, entered := true } := by
      simp [State.next, State.threadNext, State.start, h.fault, h.loader, ht, h.shouldStop]
    exact .step _ hn (htest _ ⟨h.loader, h.fault, h.shouldStop⟩ htask rfl)

end Loaded

/-- The thread is over, and `my_exit` will not look for it. -/
structure Done (s : State) : Prop where
  ended : s.thread.Over
  null : s.kthreadtask = .null
  fault : s.fault = none
  loader : s.loader = .loaded ∨ s.loader = .exitTest ∨ s.loader = .exitReturn ∨ s.loader = .unloaded

theorem Done.next (h : Done s) {e : Event} (hn : s.next e = some s') : Done s' := by
  unfold State.next at hn
  simp only [h.fault, Option.isSome_none, Bool.false_eq_true, if_false] at hn
  cases e with
  | loader ok =>
      unfold State.loaderNext at hn
      rcases h.loader with hl | hl | hl | hl <;> simp only [hl, h.null, if_true] at hn <;> cases hn
      · exact ⟨h.ended, h.null, h.fault, by simp [State.goto]⟩
      · exact ⟨h.ended, h.null, h.fault, by simp [State.goto]⟩
  | rmmod =>
      dsimp only at hn
      split at hn <;> cases hn
      exact ⟨h.ended, h.null, h.fault, by simp [State.goto]⟩
  | thread ok =>
      exfalso
      exact (seen_thread hn).alive.2 h.ended
  | reap =>
      dsimp only at hn
      split at hn <;> cases hn
      exact ⟨by simp [State.run], h.null, h.fault, h.loader⟩
  | setBuffer n =>
      dsimp only at hn
      split at hn <;> cases hn
      exact ⟨h.ended, h.null, h.fault, h.loader⟩

theorem Done.run (h : Done s) {es : List Event} (hrun : sys.run es s = some s') : Done s' := by
  induction es generalizing s with
  | nil =>
      cases hrun
      exact h
  | cons e es ih =>
      obtain ⟨s₁, hnext, hrest⟩ := Option.bind_eq_some_iff.mp hrun
      exact ih (h.next hnext) hrest

/-- A loaded module is safe from then on, whatever the kernel answers, exactly if the thread is over
and `kthreadtask` is NULL. In every other state some schedule ends in a fault. -/
theorem loaded_safe_iff (s : State) (h : sys.Reachable s) (hloaded : s.loader = .loaded)
    (hfault : s.fault = none) :
    (∀ es s', sys.run es s = some s' → s'.fault = none) ↔
      s.thread.Over ∧ s.kthreadtask = .null := by
  have hexp := (inv_of_reachable h).expects
  rw [hloaded] at hexp
  have hl : Loaded s := ⟨hloaded, hfault, hexp.shouldStop⟩
  constructor
  · intro hsafe
    have hnot : ¬CanFault s := fun ⟨es, s', hrun, hbad⟩ => hbad (hsafe es s' hrun)
    by_contra hne
    apply hnot
    cases htask : s.kthreadtask with
    | err => exact absurd htask hexp.noErr
    | null => exact hl.canFault_unseen htask hexp.thread fun hover => hne ⟨hover, htask⟩
    | task =>
        by_cases hpast : s.thread.Past
        · exact hl.canFault_past htask hpast
        · exact hl.canFault_working hpast hexp.thread htask
  · rintro ⟨hover, hnull⟩ es s' hrun
    exact (Done.run ⟨hover, hnull, hfault, .inl hloaded⟩ hrun).fault

end Steps

/-- A thread that sends its packets can still be lost. -/
theorem loaded_safe_iff_sending :
    ∃ s, sys.run (loading ++ [.thread true, .thread true]) (insmod ⟨0, 20, false⟩) = some s ∧
      s.thread = .sendmsg ∧ ¬∀ es s', sys.run es s = some s' → s'.fault = none := by
  obtain ⟨s, hrun, hloaded, hfault, hthread⟩ : ∃ s, sys.run (loading ++ [.thread true, .thread true])
      (insmod ⟨0, 20, false⟩) = some s ∧ s.loader = .loaded ∧ s.fault = none ∧ s.thread = .sendmsg :=
    ⟨_, rfl, rfl, rfl, rfl⟩
  have hreach : sys.Reachable s := TSys.Reachable.run (.init ⟨_, rfl⟩) hrun
  refine ⟨s, hrun, hthread, fun hsafe => ?_⟩
  have hover := ((loaded_safe_iff s hreach hloaded hfault).mp hsafe).1
  rw [hthread] at hover
  exact hover

end Lkm.UdpSend
