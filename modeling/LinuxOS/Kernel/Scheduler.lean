import LinuxOS.Foundation.Transition
import LinuxOS.Kernel.Process

/-!
# Timer ticks and the kernel's events

`scheduler.c` and `pit.c`, and the events by which the kernel's state moves:
ticks of the timer, key chords that switch the displayed terminal, and the
running program's `execute`, `halt` and exceptions, each taken atomically.
-/

namespace LinuxOS

open Foundation

def shellName : CString := ⟨[0x73, 0x68, 0x65, 0x6C, 0x6C], by simp, by decide⟩

structure TickFrame where
  bootSwitch : SwitchRegs
  spawnSwitch : SwitchRegs
  execute : ExecuteFrame

/-- After the third shell, the next tick goes back to terminal 0. -/
def bootSwitchBack (regs : SwitchRegs) (tNum : UInt32) (kernel : Kernel) :
    Option (Kernel × UInt32) :=
  if kernel.bootupFlag ≠ 0 then
    (switchDisplayTerminal regs 0 kernel).map fun switched =>
      ({ switched with bootupFlag := 0 }, 0)
  else some (kernel, tNum)

def spawnShell (frame : TickFrame) (tNum : UInt32) (kernel : Kernel) : Option (Kernel × Exit) :=
  let flagged := if tNum = 2 then { kernel with bootupFlag := 1 } else kernel
  (switchDisplayTerminal frame.spawnSwitch tNum flagged).map fun switched =>
    syscallExecute frame.execute shellName switched

def scheduler (frame : TickFrame) (tNum : UInt32) (kernel : Kernel) : Option (Kernel × Exit) :=
  if tNum ≥ 3 then some (kernel, .returned 0)
  else do
    let (booted, tNum) ← bootSwitchBack frame.bootSwitch tNum kernel
    let active ← findBottomTask booted tNum
    let observed := { booted with activeProcess := active }
    if active = -1 then spawnShell frame tNum observed
    else some (observed, .returned 0)

/-- `pit_handler`: the counter moves on only when `scheduler` comes back. -/
def pitHandler (frame : TickFrame) (kernel : Kernel) : Option (Kernel × Exit) :=
  (scheduler frame (UInt32.ofInt kernel.pitCounter) kernel).map fun (ticked, exit) =>
    match exit with
    | .returned value =>
        ({ ticked with
            pitCounter := if ticked.pitCounter + 1 > 2 then 0 else ticked.pitCounter + 1 },
          .returned value)
    | other => (ticked, other)

/-- The events; `schedule` is a call of `scheduler` for a terminal of one's choice. -/
inductive Event where
  | tick (frame : TickFrame)
  | schedule (frame : TickFrame) (tNum : UInt32)
  | chord (regs : SwitchRegs) (tid : UInt32)
  | execute (frame : ExecuteFrame) (command : CString)
  | halt (status : UInt8)
  | exception (message : String)

def whenRunning (kernel : Kernel) (result : Option (Kernel × Exit)) : Option (Kernel × Exit) :=
  if 0 ≤ kernel.tasksRunning then result else none

/--
Perform an event.  A handler that hangs keeps its program from running until
another terminal is displayed; the model lets that program go on, which only
adds runs.
-/
def perform (event : Event) (kernel : Kernel) : Option (Kernel × Exit) :=
  match event with
  | .tick frame => pitHandler frame kernel
  | .schedule frame tNum => scheduler frame tNum kernel
  | .chord regs tid =>
      (switchDisplayTerminal regs tid kernel).map fun switched => (switched, .returned 0)
  | .execute frame command => whenRunning kernel (some (syscallExecute frame command kernel))
  | .halt status => whenRunning kernel (syscallHalt status kernel)
  | .exception message => whenRunning kernel (handleException message kernel)

def step (event : Event) (kernel : Kernel) : Option Kernel :=
  (perform event kernel).map Prod.fst

structure NoTasks (kernel : Kernel) : Prop where
  noSlots : ∀ slot < 6, kernel.taskSlots slot = 0
  noneRunning : kernel.tasksRunning = -1

structure Boot (kernel : Kernel) : Prop extends NoTasks kernel where
  noDeath : kernel.exceptionDeath = 0
  firstDisplayed : kernel.displayTerminalId = 0
  flagClear : kernel.bootupFlag = 0
  counterZero : kernel.pitCounter = 0

end LinuxOS
