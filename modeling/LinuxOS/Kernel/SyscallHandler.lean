import LinuxOS.Kernel.State

/-!
# The entry of system calls: `syscall_handler.S`

The processor is its registers and the words of the kernel stack from `esp` up.
The system calls are compiled from C; what such a function leaves behind its
`ret` is a parameter.
-/

namespace LinuxOS

inductive Reg where
  | eax
  | ebx
  | ecx
  | edx
  | esi
  | edi
  | ebp
  deriving DecidableEq, Repr

/-- The processor in the handler; `stack i` lies `i` words above `esp`. -/
structure Cpu where
  reg : Reg → UInt32
  stack : Nat → UInt32
  interrupts : Bool

structure InterruptFrame where
  eip : UInt32
  cs : UInt32
  eflags : UInt32
  esp : UInt32
  ss : UInt32

structure UserCpu where
  reg : Reg → UInt32
  frame : InterruptFrame

/-! ## The instructions -/

namespace Cpu

def pushl (source : Reg) (cpu : Cpu) : Cpu :=
  { cpu with
    stack := fun i =>
      match i with
      | 0 => cpu.reg source
      | below + 1 => cpu.stack below }

def popl (target : Reg) (cpu : Cpu) : Cpu :=
  { cpu with
    reg := Function.update cpu.reg target (cpu.stack 0)
    stack := fun i => cpu.stack (i + 1) }

def movl (value : UInt32) (target : Reg) (cpu : Cpu) : Cpu :=
  { cpu with reg := Function.update cpu.reg target value }

def sti (cpu : Cpu) : Cpu := { cpu with interrupts := true }

def frame (cpu : Cpu) : InterruptFrame :=
  ⟨cpu.stack 0, cpu.stack 1, cpu.stack 2, cpu.stack 3, cpu.stack 4⟩

def iret (cpu : Cpu) : UserCpu := ⟨cpu.reg, cpu.frame⟩

end Cpu

/-! ## The table -/

inductive SyscallFunction where
  | syscallHalt
  | syscallExecute
  | syscallRead
  | syscallWrite
  | syscallOpen
  | syscallClose
  | syscallGetargs
  | syscallVidmap
  deriving DecidableEq, Repr

def SyscallFunction.number : SyscallFunction → UInt32
  | .syscallHalt => 1
  | .syscallExecute => 2
  | .syscallRead => 3
  | .syscallWrite => 4
  | .syscallOpen => 5
  | .syscallClose => 6
  | .syscallGetargs => 7
  | .syscallVidmap => 8

/-- `syscall_jump`; entry 0 is `NULL`, and two more entries are commented out. -/
def syscallJump : List (Option SyscallFunction) :=
  [none, some .syscallHalt, some .syscallExecute, some .syscallRead, some .syscallWrite,
    some .syscallOpen, some .syscallClose, some .syscallGetargs, some .syscallVidmap]

/-! ## The handler -/

/--
What a compiled function makes of the processor that calls it, with its return
address off the stack again; `none` when it does not come back.
-/
abbrev CompiledCalls := SyscallFunction → Cpu → Option Cpu

inductive Dispatch where
  | rejected (after : UserCpu)
  /-- an entry is called with the processor `given`; `after` is where it comes back -/
  | called (function : SyscallFunction) (given : Cpu) (after : Option UserCpu)
  /-- the word that is called is `NULL`, or lies behind the table -/
  | astray (index : UInt32)

def saveRegisters (entry : Cpu) : Cpu :=
  let saved := ((entry.pushl .ebp).pushl .esi).pushl .edi
  ((saved.pushl .edx).pushl .ecx).pushl .ebx

def complete (cpu : Cpu) : UserCpu :=
  let popped := ((cpu.popl .ebx).popl .ecx).popl .edx
  (((popped.popl .edi).popl .esi).popl .ebp).iret

/-- `syscall_handler_asm`; `jg` and `jl` compare signed numbers. -/
def syscallHandlerAsm (compiled : CompiledCalls) (entry : Cpu) : Dispatch :=
  let saved := saveRegisters entry
  let number := saved.reg .eax
  if number.toInt32 > 10 then .rejected (complete (saved.movl (-1) .eax))
  else if number.toInt32 < 1 then .rejected (complete (saved.movl (-1) .eax))
  else
    match syscallJump[number.toNat]? with
    | some (some function) =>
        .called function saved.sti ((compiled function saved.sti).map complete)
    | some none => .astray number
    | none => .astray number

end LinuxOS
