import Mathlib.Algebra.Order.Ring.Nat
import Mathlib.Logic.Function.Basic

/-!
# The kernel's data

The C types keep their widths: `uint32_t` is `UInt32`, `int32_t` is `Int32`.
Counters that the source declares `int` and keeps small (the cursor, the size
of a keyboard buffer) are integers.  Arrays and memories are functions of an
index or an address, so that an access outside an array's bounds is visible as
such.
-/

namespace LinuxOS

/-- The 32-bit pattern of `-1`, which stands for "no such task". -/
def noTask : UInt32 := 0xFFFFFFFF

def oneK : UInt32 := 1024
def fourK : UInt32 := 4096
def eightK : UInt32 := 8192
def fourM : UInt32 := 0x400000
def eightM : UInt32 := 0x800000

structure CString where
  chars : List UInt8
  noNul : ∀ char ∈ chars, char ≠ 0
  short : chars.length < 2 ^ 31

def CString.byte (string : CString) (index : Nat) : UInt8 := string.chars.getD index 0

/-- The bytes a call stores through a pointer, with their addresses, in order. -/
abbrev Stores := List (UInt32 × UInt8)

def Stores.apply (stores : Stores) (memory : UInt32 → UInt8) : UInt32 → UInt8 :=
  stores.foldl (fun written store => Function.update written store.1 store.2) memory

theorem apply_of_forall_ne {stores : Stores} {addr : UInt32}
    (h : ∀ store ∈ stores, store.1 ≠ addr) (memory : UInt32 → UInt8) :
    stores.apply memory addr = memory addr := by
  induction stores generalizing memory with
  | nil => rfl
  | cons store stores ih =>
      rw [List.forall_mem_cons] at h
      have hrest := ih h.2 (Function.update memory store.1 store.2)
      rw [Function.update_of_ne h.1.symm] at hrest
      exact hrest

inductive FopsTable where
  | stdinFops
  | stdoutFops
  | rtcFops
  | dirFops
  | fileFops
  deriving DecidableEq, Repr

structure FileDescriptor where
  fopsTable : Option FopsTable
  inode : UInt32
  filePosition : UInt32
  flags : UInt32
  deriving DecidableEq, Repr

/-- `pcb_t`; the link fields hold `noTask` where there is no child or parent. -/
structure Pcb where
  fd : UInt32 → FileDescriptor
  fileName : Nat → UInt8
  taskId : UInt32
  taskIdChild : UInt32
  taskIdParent : UInt32
  oldEbp : UInt32
  oldEsp : UInt32
  oldEip : UInt32
  argumentBuf : Nat → UInt8

structure Dentry where
  bytes : Fin 64 → UInt8

structure FileSystem where
  memory : UInt32 → UInt8
  bootBlock : UInt32

structure Screen where
  screenX : Int
  screenY : Int
  videoMem : UInt32 → UInt8

structure Terminal where
  keyboardBuffer : Int → UInt8
  cursorPosX : UInt32
  cursorPosY : UInt32
  keyboardBufferSize : Int
  allowTerminalRead : Int
  terminalBuffer : UInt32 → UInt8

/--
The globals of the kernel, the process control blocks by address, the physical
memory behind the user page, and the image.  `pageTableAddr` and
`videoPageAddr` are where the linker put the two page tables.
-/
structure Kernel where
  fs : FileSystem
  tasksRunning : Int32
  taskSlots : UInt32 → UInt32
  exceptionDeath : UInt32
  pcb : UInt32 → Pcb
  pageDirectory : UInt32 → UInt32
  pageTable : UInt32 → UInt32
  pageTableAddr : UInt32
  videoPage : UInt32 → UInt32
  videoPageAddr : UInt32
  tssEsp0 : UInt32
  userMemory : UInt32 → UInt8
  screen : Screen
  terminal : Int32 → Terminal
  displayTerminalId : Int32
  bootupFlag : UInt32
  activeProcess : Int32
  pitCounter : Int
  virtFreq : UInt32
  rtcInterCount : UInt32

end LinuxOS
