import Lkm.Base.Bytes
import Lkm.Base.Prog

/-!
# The mutex character device (`mutex/simple.c`)

Readers and writers copy from and to the start of one buffer, each under
`mutex_buf.mutex`. A copy moves one byte per step, so that copies of different
threads could mix if the mutex did not keep them apart.

Two history variables record what the threads did: `writes`, the data of the
writes in the order in which they acquired the mutex, and `completed`, how many of
them have copied all of it. User copies do not fault, and user buffers are not
changed during a call.
-/

namespace Lkm.MutexDevice

open Base

abbrev SizeT := BitVec 64
abbrev LoffT := BitVec 64

/-- The size of `mutex_buf.buff`. -/
def buffSize : Nat := 0x100

/-- `mutex_buf.buff` and the history variables. -/
structure Mem where
  buff : Buf
  writes : List (List Byte)
  completed : Nat

/-- A write acquired the mutex. -/
def Mem.begin (s : Mem) (data : List Byte) : Mem := { s with writes := s.writes ++ [data] }

/-- It has copied all of its data. -/
def Mem.complete (s : Mem) : Mem := { s with completed := s.completed + 1 }

def Mem.storeByte (s : Mem) (i : Nat) (b : Byte) : Mem := { s with buff := put s.buff i [b] }

/-- `mutex_buf.mutex`. -/
inductive Mutex where
  | mutex
deriving DecidableEq

/-- `mutex_lock` is not ended by a signal. -/
inductive Fault where
  | signal

/-- The code asks its environment nothing. -/
def Answer : Empty → Type := nofun

abbrev Code := Prog Mem Mutex Unit Fault Answer

def mutexLock : Code Unit := .lock () .mutex fun signal => if signal then .fail .signal else .ret ()

def mutexUnlock : Code Unit := .unlock .mutex (.ret ())

def update (f : Mem → Mem) : Code Unit := .act f (.ret ())

def loadByte (i : Nat) : Code Byte := .get fun s => .ret (s.buff i)

/-- `copy_to_user`, from byte `i` of the buffer on. -/
def copyToUser : (i n : Nat) → Code (List Byte)
  | _, 0 => return []
  | i, n + 1 => do
      let b ← loadByte i
      let rest ← copyToUser (i + 1) n
      return b :: rest

/-- `copy_from_user`, to byte `i` of the buffer on. -/
def copyFromUser : (i : Nat) → List Byte → Code Unit
  | _, [] => return ()
  | i, b :: rest => do
      update (·.storeByte i b)
      copyFromUser (i + 1) rest

/-- What a call returns, and the new file position. -/
inductive Reply where
  | read (ret : Int) (offt : LoffT) (bytes : List Byte)
  | written (ret : Int) (offt : LoffT)

/-- `int ret = count`. -/
def intOf (count : SizeT) : Int := (count.setWidth 32).toInt

def readFile (size : SizeT) (offt : LoffT) : Code Reply := do
  let count := size
  mutexLock
  let bytes ← copyToUser 0 count.toNat
  let offt := offt + count
  let ret := intOf count
  mutexUnlock
  return .read ret offt bytes

/-- `buf` is the user's memory, from the address that the caller passed. -/
def writeFile (buf : Buf) (size : SizeT) (offt : LoffT) : Code Reply := do
  let count := size
  let data := slice buf 0 count.toNat
  mutexLock
  update (·.begin data)
  copyFromUser 0 data
  update (·.complete)
  let offt := offt + count
  let ret := intOf count
  mutexUnlock
  return .written ret offt

inductive Call where
  | read (size : SizeT) (offt : LoffT)
  | write (buf : Buf) (size : SizeT) (offt : LoffT)

def Call.size : Call → SizeT
  | .read size _ | .write _ size _ => size

def Call.prog : Call → Code Reply
  | .read size offt => readFile size offt
  | .write buf size offt => writeFile buf size offt

/-- A call, and the reply to it. -/
def Call.answered (call : Call) : Code (Call × Reply) := do
  let reply ← call.prog
  return (call, reply)

/-- The module is loaded: the mutex is free, and nothing was written yet. -/
def myInit (initial : Buf) : Mach Mem Mutex := ⟨⟨initial, [], 0⟩, fun _ => none⟩

end Lkm.MutexDevice
