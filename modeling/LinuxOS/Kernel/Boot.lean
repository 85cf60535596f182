import LinuxOS.Kernel.Scheduler

/-!
# The state at boot

What `entry` leaves behind before the first timer tick: the globals have their
initial values and `paging_init` has filled the page tables.  A small image
with a directory and one executable serves as example.
-/

namespace LinuxOS

open Foundation

def emptyPcb : Pcb where
  fd _ := ⟨none, 0, 0, 0⟩
  fileName _ := 0
  taskId := 0
  taskIdChild := 0
  taskIdParent := 0
  oldEbp := 0
  oldEsp := 0
  oldEip := 0
  argumentBuf _ := 0

def emptyTerminal : Terminal where
  keyboardBuffer _ := 0
  cursorPosX := 0
  cursorPosY := 0
  keyboardBufferSize := 0
  allowTerminalRead := 0
  terminalBuffer _ := 0

def bootKernel (fs : FileSystem) : Kernel :=
  pagingInit
    { fs := fs
      tasksRunning := -1
      taskSlots := fun _ => 0
      exceptionDeath := 0
      pcb := fun _ => emptyPcb
      pageDirectory := fun _ => 0
      pageTable := fun _ => 0
      pageTableAddr := 0x404000
      videoPage := fun _ => 0
      videoPageAddr := 0x405000
      tssEsp0 := eightM
      userMemory := fun _ => 0
      screen := ⟨0, 0, fun _ => 0⟩
      terminal := fun _ => emptyTerminal
      displayTerminalId := 0
      bootupFlag := 0
      activeProcess := 0
      pitCounter := 0
      virtFreq := 2
      rtcInterCount := 0 }

theorem boot_bootKernel (fs : FileSystem) : Boot (bootKernel fs) where
  noSlots _ _ := rfl
  noneRunning := rfl
  noDeath := rfl
  firstDisplayed := rfl
  flagClear := rfl
  counterZero := rfl

instance : Inhabited SwitchRegs := ⟨⟨0, 0, 0, 0⟩⟩

instance : Inhabited ExecuteFrame where
  default :=
    { taskName := fun _ => 0
      argument := fun _ => 0
      fileCheck := ⟨fun _ => 0⟩
      buf := 0x7FFF00
      bufNotNull := by decide
      esp := 0x7FFE00
      ebp := 0x7FFFD0 }

instance : Inhabited TickFrame := ⟨⟨default, default, default⟩⟩

def dotName : CString := ⟨[0x2E], by simp, by decide⟩

def shellStores : Stores :=
  storesAt 0x500000 [2, 0, 0, 0, 1, 0, 0, 0, 1, 0, 0, 0] ++
    storesAt 0x500040 dotName.chars ++ storesAt 0x500060 [1] ++
    storesAt 0x500080 shellName.chars ++ storesAt 0x5000A0 [2] ++
    storesAt 0x501000 [40] ++
    storesAt 0x502000 [0x7F, 0x45, 0x4C, 0x46] ++
    storesAt 0x502018 [0xE8, 0x82, 0x04, 0x08]

/-- An image with the directory `.` and the 40-byte executable `shell` in inode 0. -/
def shellImage : FileSystem where
  bootBlock := 0x500000
  memory := Stores.apply shellStores fun _ => 0

/-- Six ticks: the timer spawns the three shells and goes back to terminal 0. -/
def bootTicks : List Event := List.replicate 6 (.tick default)

theorem isSome_run_bootTicks : (run step bootTicks (bootKernel shellImage)).isSome := by
  decide +kernel

/-- The state in which user code of the first shell runs after boot. -/
@[irreducible] def shellsKernel : Kernel :=
  (run step bootTicks (bootKernel shellImage)).get isSome_run_bootTicks

theorem run_bootTicks :
    run step bootTicks (bootKernel shellImage) = some shellsKernel := by
  unfold shellsKernel
  exact (Option.some_get isSome_run_bootTicks).symm

end LinuxOS
