import Mathlib.Logic.Function.Basic
import Lkm.Base.Transitions

/-!
# A thread that sends packets (`udp_send/version1/simple.c`)

`my_init` makes a socket and starts `send_udp` in a thread of its own, `my_exit` stops the
thread, and the two share `kthreadtask`. The statements of both sides that touch what they
share are single steps, in any order. The answers of the kernel are part of an event.

What the kernel does in between is modelled as far as the module can see it:

* `kthread_run` makes a thread that may run before the pointer to it is stored; a thread that
  is told to stop before it first ran does not enter `send_udp`;
* `kthread_stop` takes a reference to the task, and returns when the thread is over. The task
  of a thread that is over is freed at some time, unless somebody has a reference;
* the text of the module is gone when `my_exit` has returned;
* the parameter `buffer` can be set through sysfs, which frees the old string if it was
  allocated for a parameter, too.

The messages of `printk` are left out.
-/

namespace Lkm.UdpSend

open Base

/-- A string: the static one, or one that was allocated for a parameter. -/
structure Str where
  id : Nat
  strlen : Nat
  heap : Bool
deriving DecidableEq

/-- `kthreadtask`. -/
inductive Task where
  | null
  | err
  | task
deriving DecidableEq

/-- Where `insmod` and `rmmod` are: in `my_init`, with its labels, or in `my_exit`. -/
inductive Loader where
  | create
  | bind
  | connect
  | kmalloc
  | kthreadRun
  /-- `kthread_run` has returned, with a task or with an error. -/
  | store (started : Bool)
  | check
  | threadError
  | connectError
  | failed
  | loaded
  | exitTest
  | exitStop
  /-- In `kthread_stop`, with a reference to the task. -/
  | stopping
  | exitReturn
  | unloaded
deriving DecidableEq

/-- Where the thread is. -/
inductive Thread where
  | none
  | created
  | test
  | sendmsg
  /-- `len`, if it is not negative. -/
  | compare (len : Option Nat)
  | sleep
  | clear
  | releaseSock
  | kfree
  | ret
  /-- The thread is over, its task is not freed yet. -/
  | dead
  | freed
deriving DecidableEq

inductive Fault where
  /-- The thread runs text of a module that is gone. -/
  | text
  /-- `kthread_stop` of a task that was freed. -/
  | task
  /-- `kthread_stop(NULL)`. -/
  | nullTask
  /-- `tinfo` is used after it was freed. -/
  | tinfo
  /-- `strlen` of a string that was freed. -/
  | string
deriving DecidableEq

/-- The module and its thread. The history variables `left` (the loop was left by `break`), `entered`
(`send_udp` was called) and `retuned` (the parameter was set while the thread had a string) are
read by no code. -/
structure State where
  loader : Loader
  thread : Thread
  kthreadtask : Task
  shouldStop : Bool
  /-- `tinfo->buffer`, while `tinfo` is allocated. -/
  tinfo : Option Str
  buffer : Str
  freed : Nat → Bool
  nextId : Nat
  /-- Sockets that were created and not released. -/
  sockets : Nat
  fault : Option Fault
  left : Bool
  entered : Bool
  retuned : Bool

inductive Event where
  /-- A step of `my_init` or `my_exit`; a call of the kernel succeeds or not. -/
  | loader (ok : Bool)
  | rmmod
  /-- A step of the thread; a packet is sent or not. -/
  | thread (ok : Bool)
  /-- The task of a thread that is over is freed. -/
  | reap
  /-- The parameter `buffer` is set to a string of this length. -/
  | setBuffer (strlen : Nat)

namespace State

def goto (s : State) (l : Loader) : State := { s with loader := l }

def run (s : State) (t : Thread) : State := { s with thread := t }

def crash (s : State) (f : Fault) : State := { s with fault := some f }

/-- `my_init` and `my_exit`. -/
def loaderNext (s : State) (ok : Bool) : Option State :=
  match s.loader with
  | .create =>
      if ok then some { s with loader := .bind, sockets := s.sockets + 1 } else some (s.goto .failed)
  | .bind => some (s.goto (if ok then .connect else .connectError))
  | .connect => some (s.goto (if ok then .kmalloc else .connectError))
  | .kmalloc =>
      if ok then some { s with loader := .kthreadRun, tinfo := some s.buffer }
      else some (s.goto .connectError)
  | .kthreadRun =>
      if ok then some { s with loader := .store true, thread := .created }
      else some (s.goto (.store false))
  | .store started => some { s with loader := .check, kthreadtask := if started then .task else .err }
  | .check => some (s.goto (if s.kthreadtask = .err then .threadError else .loaded))
  | .threadError => some { s with loader := .connectError, tinfo := none }
  -- `release_sock` gives up the lock of the socket, not the socket
  | .connectError => some { s with loader := .failed, kthreadtask := .null }
  | .exitTest => some (s.goto (if s.kthreadtask = .null then .exitReturn else .exitStop))
  | .exitStop =>
      if s.kthreadtask = .null then some (s.crash .nullTask)
      else if s.thread = .freed then some (s.crash .task)
      else some { s with loader := .stopping, shouldStop := true }
  | .stopping => if s.thread = .dead then some (s.goto .exitReturn) else none
  | .exitReturn => some (s.goto .unloaded)
  | .failed | .loaded | .unloaded => none

/-- `kthread_should_stop` for a thread that has not run yet. -/
def start (s : State) : State :=
  if s.shouldStop then s.run .dead else { s with thread := .test, entered := true }

/-- `send_udp`, while its text is there. -/
def sendUdp (s : State) (ok : Bool) : Option State :=
  match s.thread with
  | .test => some (s.run (if s.shouldStop then .clear else .sendmsg))
  | .sendmsg =>
      match s.tinfo with
      | none => some (s.crash .tinfo)
      | some str =>
          if s.freed str.id then some (s.crash .string)
          else some (s.run (.compare (if ok then some str.strlen else none)))
  | .compare len =>
      if len ≠ some s.buffer.strlen then some { s with thread := .clear, left := true }
      else some (s.run .sleep)
  | .sleep => some (s.run .test)
  | .clear => some { s with thread := .releaseSock, kthreadtask := .null }
  | .releaseSock => if s.tinfo = none then some (s.crash .tinfo) else some (s.run .kfree)
  | .kfree =>
      if s.tinfo = none then some (s.crash .tinfo) else some { s with thread := .ret, tinfo := none }
  | .ret => some (s.run .dead)
  | .none | .created | .dead | .freed => none

def threadNext (s : State) (ok : Bool) : Option State :=
  match s.thread with
  | .none | .dead | .freed => none
  | .created =>
      -- the call of `send_udp`, unless the thread is told to stop
      if s.loader = .unloaded && !s.shouldStop then some (s.crash .text) else some s.start
  | _ => if s.loader = .unloaded then some (s.crash .text) else s.sendUdp ok

/-- `param_set_charp`. -/
def setBuffer (s : State) (strlen : Nat) : State :=
  { s with
    buffer := ⟨s.nextId, strlen, true⟩
    nextId := s.nextId + 1
    freed := if s.buffer.heap then Function.update s.freed s.buffer.id true else s.freed
    retuned := s.retuned || s.tinfo.isSome }

/-- The module is there, with its parameters. -/
def present (s : State) : Bool := s.loader ≠ .unloaded && s.loader ≠ .failed

def next (s : State) (e : Event) : Option State :=
  if s.fault.isSome then none
  else match e with
    | .loader ok => s.loaderNext ok
    | .rmmod => if s.loader = .loaded then some (s.goto .exitTest) else none
    | .thread ok => s.threadNext ok
    | .reap => if s.thread = .dead && s.loader ≠ .stopping then some (s.run .freed) else none
    | .setBuffer strlen => if s.present then some (s.setBuffer strlen) else none

end State

/-- `insmod` with the static string, or with one that was given. -/
def insmod (buffer : Str) : State where
  loader := .create
  thread := .none
  kthreadtask := .null
  shouldStop := false
  tinfo := none
  buffer := buffer
  freed := fun _ => false
  nextId := buffer.id + 1
  sockets := 0
  fault := none
  left := false
  entered := false
  retuned := false

def sys : TSys State Event where
  init := fun s => ∃ buffer, s = insmod buffer
  next := State.next

end Lkm.UdpSend
