import LinuxOS.Kernel.InterruptController
import LinuxOS.Kernel.InterruptTable
import LinuxOS.Machine.Events

/-!
# The machine with its interrupt controllers

Devices ask for interrupts, the controllers choose one, its vector picks a
handler, and the handler uses ports besides the kernel's state.  `pit_handler`
lets interrupts in before it announces the end of the tick, so that a tick has a
state of its own between the two.  A running program may be interrupted at any
time; that user code can have interrupts off only takes runs away.
-/

namespace LinuxOS

open Foundation

/-- `ending` counts the ticks between the `sti` of `pit_handler` and its `send_eoi`. -/
structure Computer where
  console : Console
  board : Board
  ending : Nat

namespace Computer

def withKernel (kernel : Kernel) (computer : Computer) : Computer :=
  { computer with console := { computer.console with kernel := kernel } }

def sendEoi (irqNum : UInt32) (computer : Computer) : Computer :=
  { computer with board := computer.board.sendEoi irqNum }

/-! ## The handlers, with the ports they use -/

/-- The tick is announced before a shell is run, as `syscall_execute` does not come back. -/
def spawnShell (frame : TickFrame) (tNum : UInt32) (computer : Computer) :
    Option (Computer × Exit) :=
  let ended := computer.sendEoi 0
  (LinuxOS.spawnShell frame tNum computer.console.kernel).map fun (kernel, exit) =>
    (ended.withKernel kernel, exit)

def scheduler (frame : TickFrame) (tNum : UInt32) (computer : Computer) :
    Option (Computer × Exit) :=
  if tNum ≥ 3 then some (computer, .returned 0)
  else do
    let (booted, tNum) ← bootSwitchBack frame.bootSwitch tNum computer.console.kernel
    let active ← findBottomTask booted tNum
    let observed := computer.withKernel { booted with activeProcess := active }
    if active = -1 then observed.spawnShell frame tNum else some (observed, .returned 0)

/-- `pit_handler` as far as its `sti`, or as far as `scheduler` when that does not come back. -/
def pitHandler (frame : TickFrame) (computer : Computer) : Option Computer :=
  (computer.scheduler frame (UInt32.ofInt computer.console.kernel.pitCounter)).map
    fun (ticked, exit) =>
      match exit with
      | .returned _ =>
          let kernel := ticked.console.kernel
          let counter := if kernel.pitCounter + 1 > 2 then 0 else kernel.pitCounter + 1
          { ticked.withKernel { kernel with pitCounter := counter } with
            ending := ticked.ending + 1 }
      | _ => ticked

def keyboardDataPort : UInt16 := 0x60

def keyboardHandler (regs : SwitchRegs) (computer : Computer) : Option Computer :=
  let (pressCode, board) := computer.board.inb keyboardDataPort
  let read := { computer with board := board }
  if pressCode > 0xBD then some (read.sendEoi keyboardIrqNum)
  else if pressCode > 0x3D ∧ pressCode < 0x81 then some (read.sendEoi keyboardIrqNum)
  else
    (handleKey regs pressCode computer.console).map fun console =>
      { read with console := console }.sendEoi keyboardIrqNum

def rtcHandler (computer : Computer) : Computer :=
  let counted := computer.withKernel (LinuxOS.rtcHandler computer.console.kernel)
  let (_, board) := (computer.board.outb Board.statusRegC Board.rtcPort).inb Board.cmosPort
  { counted with board := board }.sendEoi rtcIrqNum

/-! ## Interrupts -/

/-- The handler of a vector runs; the controllers deliver no other vectors than these. -/
def handle (frame : TickFrame) (regs : SwitchRegs) (vector : UInt8) (computer : Computer) :
    Option Computer :=
  match idtHandlers.lookup vector with
  | some .pitHandlerAsm => computer.pitHandler frame
  | some .keyboardHandlerAsm => computer.keyboardHandler regs
  | some .rtcHandlerAsm => some computer.rtcHandler
  | _ => none

def interrupt (frame : TickFrame) (regs : SwitchRegs) (computer : Computer) : Option Computer :=
  (computer.board.devices.pics.acknowledge cascadeLine).bind fun (vector, pics) =>
    handle frame regs vector { computer with board.devices.pics := pics }

end Computer

/-- Devices ask, the processor takes an interrupt, a tick ends, or the program goes on. -/
inductive ComputerEvent where
  | timerEdge
  | typed (code : UInt8)
  | clockFlags (flags : UInt8)
  | otherEdge (line : ChipLine)
  | interrupt (frame : TickFrame) (regs : SwitchRegs)
  | tickEnds
  | program (event : MachineEvent)

def computerStep : ComputerEvent → Computer → Option Computer
  | .timerEdge, computer =>
      some { computer with board.devices := computer.board.devices.edge timerLine }
  | .typed code, computer =>
      some { computer with board.devices := computer.board.devices.type code }
  | .clockFlags flags, computer =>
      some { computer with
        board.devices := computer.board.devices.withClock
          (computer.board.devices.clock.setFlags flags) }
  | .otherEdge line, computer =>
      if line ∈ deviceLines then none
      else some { computer with board.devices := computer.board.devices.edge line }
  | .interrupt frame regs, computer => computer.interrupt frame regs
  | .tickEnds, computer =>
      if computer.ending = 0 then none
      else some { computer.sendEoi pitIrqNum with ending := computer.ending - 1 }
  | .program event, computer =>
      if event.byProgram = true ∧ computer.ending = 0 then
        (machineStep event computer.console).map fun console =>
          { computer with console := console }
      else none

/-! ## The handlers do to the kernel what the machine does -/

theorem scheduler_kernel (frame : TickFrame) (tNum : UInt32) (computer : Computer) :
    (computer.scheduler frame tNum).map (fun (ticked, exit) => (ticked.console.kernel, exit)) =
      LinuxOS.scheduler frame tNum computer.console.kernel := by
  unfold Computer.scheduler LinuxOS.scheduler
  split
  · rfl
  cases hboot : bootSwitchBack frame.bootSwitch tNum computer.console.kernel with
  | none => rfl
  | some booted =>
      cases hactive : findBottomTask booted.1 booted.2 with
      | none => simp [hactive]
      | some active =>
          by_cases hnone : active = -1
          · simp [hactive, hnone, Computer.spawnShell, Computer.withKernel, Function.comp_def]
          · simp [hactive, hnone, Computer.withKernel]

theorem pitHandler_kernel (frame : TickFrame) (computer : Computer) :
    (computer.pitHandler frame).map (fun ticked => ticked.console.kernel) =
      (LinuxOS.pitHandler frame computer.console.kernel).map Prod.fst := by
  rw [LinuxOS.pitHandler, ← scheduler_kernel, Computer.pitHandler]
  simp only [Option.map_map]
  congr 1
  funext result
  cases result with
  | mk ticked exit => cases exit <;> rfl

end LinuxOS
