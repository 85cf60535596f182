import LinuxOS.Files.RtcRate
import LinuxOS.Kernel.KeyboardHandler
import LinuxOS.Process.Leftovers
import LinuxOS.Tty.Cursor

/-!
# The whole machine

Interrupts and the running program move one state: timer ticks, key presses as
`keyboard_handler` sees them, interrupts of the clock, the system calls of the
running program, and its own stores, which go through the page tables.
-/

namespace LinuxOS

open Foundation

/-- A byte that user code stores; `none` where the page tables do not let it. -/
def userStore (addr : UInt32) (byte : UInt8) (kernel : Kernel) : Option Kernel :=
  match kernel.tables.walk addr with
  | some (phys, true) =>
      if phys - videoMemAddr < fourK then
        some (kernel.modifyScreen fun screen =>
          { screen with videoMem := Function.update screen.videoMem phys byte })
      else some { kernel with userMemory := Function.update kernel.userMemory phys byte }
  | _ => none

inductive MachineEvent where
  | program (event : ProgramEvent)
  | store (addr : UInt32) (byte : UInt8)
  | key (regs : SwitchRegs) (pressCode : UInt8)
  | clock

/--
`keyboard_handler`, if none of its stores faults.  Where one does, the message of
`exception_page_fault` is printed at the same cell and faults too, and so on for
ever.
-/
def handleKey (regs : SwitchRegs) (pressCode : UInt8) (console : Console) : Option Console :=
  if (keyPress regs pressCode console.keyDown).2.any fun op => op.faults console.kernel then none
  else keyboardHandler regs pressCode console

def machineStep : MachineEvent → Console → Option Console
  | .program event, console =>
      (programStep event (freshPrograms console.kernel)).map fun after =>
        { console with kernel := after.kernel }
  | .store addr byte, console =>
      if 0 ≤ console.kernel.tasksRunning then
        (userStore addr byte console.kernel).map fun kernel => { console with kernel := kernel }
      else none
  | .key regs pressCode, console => handleKey regs pressCode console
  | .clock, console => some { console with kernel := rtcHandler console.kernel }

/-- The running program has taken the step, as opposed to an interrupt. -/
def MachineEvent.byProgram : MachineEvent → Bool
  | .program (.kernel (.tick _)) => false
  | .program (.kernel (.schedule _ _)) => false
  | .program (.kernel (.chord _ _)) => false
  | .program _ => true
  | .store _ _ => true
  | .key _ _ => false
  | .clock => false

/-- The step is not one of the task's own. -/
def NotBy (task : UInt32) (console : Console) (event : MachineEvent) : Prop :=
  event.byProgram = true → console.kernel.running ≠ task

instance (task : UInt32) (console : Console) (event : MachineEvent) :
    Decidable (NotBy task console event) :=
  inferInstanceAs (Decidable (_ = true → _ ≠ _))

/-! ## What a step can be -/

inductive KeyCall : TerminalOp → Prop where
  | clearScreen : KeyCall .clearScreen
  | backspace : KeyCall .backspace
  | bufAdd (char : UInt8) (hchar : char ≠ 0) : KeyCall (.bufAdd char)

inductive Moved (before after : Kernel) : MachineEvent → Prop where
  | kernel {event : Event} {exit : Exit} (hperform : perform event before = some (after, exit)) :
      Moved before after (.program (.kernel event))
  | call {call : Call} {value : Int32} {stores : Stores} (hge : 0 ≤ before.tasksRunning)
      (hcall : call.perform before = some (after, value, stores))
      (hinside : storesInside stores = true) : Moved before after (.program (.call call))
  | refusedVidmap {screenStart : UInt32} (hge : 0 ≤ before.tasksRunning) (hsame : after = before) :
      Moved before after (.program (.vidmap screenStart))
  | vidmap {screenStart : UInt32} (hge : 0 ≤ before.tasksRunning) (stores : Stores)
      (hmapped : after = (videomemMap mem148MB videoMemAddr before).storeUser stores) :
      Moved before after (.program (.vidmap screenStart))
  | store {addr phys : UInt32} {byte : UInt8} (hge : 0 ≤ before.tasksRunning)
      (hwalk : before.tables.walk addr = some (phys, true))
      (hstored : after = { before with
        userMemory := Function.update before.userMemory phys byte }) :
      Moved before after (.store addr byte)
  | storeVideo {addr phys : UInt32} {byte : UInt8} (hge : 0 ≤ before.tasksRunning)
      (hwalk : before.tables.walk addr = some (phys, true))
      (hpage : phys - videoMemAddr < fourK)
      (hscreen : after = before.modifyScreen fun screen =>
        { screen with videoMem := Function.update screen.videoMem phys byte }) :
      Moved before after (.store addr byte)
  | keyIgnored {regs : SwitchRegs} {pressCode : UInt8} (hsame : after = before) :
      Moved before after (.key regs pressCode)
  | keyCall {regs : SwitchRegs} {pressCode : UInt8} (op : TerminalOp) (hop : KeyCall op)
      (hmapped : op.faults before = false) (hperform : op.perform before = some after) :
      Moved before after (.key regs pressCode)
  | keyChord {regs : SwitchRegs} {pressCode : UInt8} (tid : UInt32)
      (hswitch : switchDisplayTerminal regs tid before = some after) :
      Moved before after (.key regs pressCode)
  | clock (hcounted : after = rtcHandler before) : Moved before after .clock

theorem callOfKey_cases {regs : SwitchRegs} {pressCode char : UInt8} {keyDown : KeyDown}
    {op : TerminalOp} (h : callOfKey regs pressCode keyDown char = some op) :
    KeyCall op ∨ ∃ tid, op = .switchDisplay regs tid := by
  unfold callOfKey at h
  split at h
  · cases h
    exact .inl .clearScreen
  split at h
  · cases h
    exact .inl .backspace
  split at h
  · cases h
    exact .inr ⟨0, rfl⟩
  split at h
  · cases h
    exact .inr ⟨1, rfl⟩
  split at h
  · cases h
    exact .inr ⟨2, rfl⟩
  split at h
  · next hchar =>
      cases h
      exact .inl (.bufAdd char hchar)
  · cases h

theorem keyPress_cases {regs : SwitchRegs} {pressCode : UInt8} {keyDown : KeyDown}
    {op : TerminalOp} (h : (keyPress regs pressCode keyDown).2 = some op) :
    KeyCall op ∨ ∃ tid, op = .switchDisplay regs tid := by
  unfold keyPress at h
  split at h
  · cases h
  split at h
  · cases h
  simp only at h
  split at h
  · exact callOfKey_cases h
  · exact callOfKey_cases h

theorem handleKey_moved {regs : SwitchRegs} {pressCode : UInt8} {before after : Console}
    (h : handleKey regs pressCode before = some after) :
    Moved before.kernel after.kernel (.key regs pressCode) := by
  unfold handleKey at h
  split at h
  · cases h
  next hmapped =>
    unfold keyboardHandler at h
    simp only at h
    split at h
    · cases h
      exact .keyIgnored rfl
    · next op hop =>
        obtain ⟨kernel, hperform, rfl⟩ := Option.map_eq_some_iff.mp h
        rw [hop, Option.any_some, Bool.not_eq_true] at hmapped
        rcases keyPress_cases hop with hcall | ⟨tid, rfl⟩
        · exact .keyCall op hcall hmapped hperform
        · exact .keyChord tid hperform

theorem userStore_moved {addr : UInt32} {byte : UInt8} {before after : Kernel}
    (hge : 0 ≤ before.tasksRunning) (h : userStore addr byte before = some after) :
    Moved before after (.store addr byte) := by
  unfold userStore at h
  split at h
  · next phys hwalk =>
      split at h
      · next hpage => exact .storeVideo hge hwalk hpage (Option.some.inj h).symm
      · exact .store hge hwalk (Option.some.inj h).symm
  · cases h

theorem programEvent_moved {event : ProgramEvent} {before : Kernel} {after : Programs}
    (h : programStep event (freshPrograms before) = some after) :
    Moved before after.kernel (.program event) := by
  cases event with
  | kernel event =>
      obtain ⟨kernel, exit, hperform, rfl⟩ := programStep_kernel h
      exact .kernel hperform
  | call call =>
      simp only [programStep] at h
      split at h
      · next hge =>
          obtain ⟨⟨kernel, value, stores⟩, hcall, h⟩ := Option.bind_eq_some_iff.mp h
          simp only at h
          split at h
          · next hinside =>
              cases h
              exact .call hge hcall hinside
          · cases h
      · cases h
  | vidmap screenStart =>
      have hge : 0 ≤ before.tasksRunning := by
        by_contra hidle
        simp [programStep, freshPrograms, hidle] at h
      rcases programStep_vidmap h with rfl | ⟨stores, rfl⟩
      · exact .refusedVidmap hge rfl
      · exact .vidmap hge stores rfl

theorem machineStep_moved {event : MachineEvent} {before after : Console}
    (h : machineStep event before = some after) : Moved before.kernel after.kernel event := by
  cases event with
  | program event =>
      obtain ⟨programs, hstep, rfl⟩ := Option.map_eq_some_iff.mp h
      exact programEvent_moved hstep
  | store addr byte =>
      simp only [machineStep] at h
      split at h
      · next hge =>
          obtain ⟨kernel, hstore, rfl⟩ := Option.map_eq_some_iff.mp h
          exact userStore_moved hge hstore
      · cases h
  | key regs pressCode => exact handleKey_moved h
  | clock =>
      cases h
      exact .clock rfl

/-! ## What a call prints -/

def Call.printed (kernel : Kernel) : Call → List UInt8
  | .writeFd fd source nbytes =>
      if (1 ≤ fd ∧ fd ≤ 7) ∧ (kernel.fdOf fd).flags ≠ 0 ∧
          (kernel.fdOf fd).fopsTable = some .stdoutFops then writtenBytes source nbytes
      else []
  | _ => []

theorem printed_of_closed {kernel : Kernel} {fd : UInt32} {source : Nat → UInt8} {nbytes : Int32}
    (h : (kernel.fdOf fd).fopsTable ≠ some .stdoutFops) :
    (Call.writeFd fd source nbytes).printed kernel = [] :=
  if_neg fun hprints => h hprints.2.2

theorem screen_of_syscallWrite {fd : UInt32} {source : Nat → UInt8} {nbytes value : Int32}
    {kernel after : Kernel} (h : syscallWrite fd source nbytes kernel = some (after, value)) :
    after.screen = puts ((Call.writeFd fd source nbytes).printed kernel) kernel.screen := by
  simp only [syscallWrite] at h
  split at h
  · next hout =>
      cases h
      have hrange : ¬ (1 ≤ fd ∧ fd ≤ 7) := fun hin => hout.elim
        (UInt32.not_lt.mpr hin.2) (UInt32.not_lt.mpr hin.1)
      rw [Call.printed, if_neg fun hprints => hrange hprints.1]
      rfl
  next hin =>
  split at h
  · next hclosed =>
      cases h
      rw [Call.printed, if_neg fun hprints => hprints.2.1 hclosed]
      rfl
  next hopen =>
  cases htable : (kernel.fdOf fd).fopsTable with
  | none => simp [htable] at h
  | some table =>
      rw [htable] at h
      cases table with
      | stdoutFops =>
          rw [not_or, gt_iff_lt, UInt32.not_lt, UInt32.not_lt] at hin
          simp only [terminalWrite_eq] at h
          cases h
          rw [Call.printed, if_pos ⟨⟨hin.2, hin.1⟩, hopen, htable⟩]
          rfl
      | rtcFops =>
          rw [printed_of_closed (by rw [htable]; decide)]
          rcases rtcWrite_cases (wordOfBytes (source 0) (source 1) (source 2) (source 3))
            nbytes.toUInt32 kernel with ⟨-, -, hwrite⟩ | ⟨-, hwrite⟩
          · simp only [hwrite] at h
            cases h
            rfl
          · simp only [hwrite] at h
            cases h
            rfl
      | stdinFops | dirFops | fileFops =>
          cases h
          rw [printed_of_closed (by rw [htable]; decide)]
          rfl

theorem screen_of_perform {call : Call} {kernel after : Kernel} {value : Int32} {stores : Stores}
    (h : call.perform kernel = some (after, value, stores)) :
    after.screen = puts (call.printed kernel) kernel.screen := by
  cases call with
  | openFile filename =>
      obtain ⟨⟨opened, result⟩, hopen, heq⟩ := Option.map_eq_some_iff.mp h
      cases heq
      rcases syscallOpen_cases hopen with rfl | ⟨fd, -, ⟨table, rfl⟩ | ⟨table, entry, rfl⟩⟩
      · rfl
      · rfl
      · cases table <;> rfl
  | readFd interrupts fd buf nbytes =>
      rcases syscallRead_cases h with ⟨_, _, _, rfl⟩ | ⟨-, _, rfl⟩ <;> rfl
  | writeFd fd source nbytes =>
      obtain ⟨⟨written, result⟩, hwrite, heq⟩ := Option.map_eq_some_iff.mp h
      cases heq
      exact screen_of_syscallWrite hwrite
  | closeFd fd =>
      obtain ⟨⟨closed, result⟩, hclose, heq⟩ := Option.map_eq_some_iff.mp h
      cases heq
      obtain ⟨fds, rfl⟩ := syscallClose_withFds hclose
      rfl
  | getargs buf nbytes =>
      rw [syscallGetargs_eq h]
      rfl

theorem TableRead.cursors {interrupts fd buf : UInt32} {nbytes value : Int32}
    {kernel after : Kernel} {table : FopsTable} {stores : Stores}
    (h : TableRead interrupts fd buf nbytes kernel table after value stores)
    (hcursors : CursorsOnPage kernel) : CursorsOnPage after := by
  cases h with
  | screen => exact hcursors
  | terminal hread =>
      obtain ⟨keyboardBuffer, rfl⟩ := terminalRead_cases hread
      have hdrained : CursorsOnPage (kernel.modifyDisplayed fun terminal => { terminal with
          keyboardBuffer := keyboardBuffer
          keyboardBufferSize := 0
          allowTerminalRead := 0 }) :=
        hcursors.modifyDisplayed (hcursors.saved kernel.displayTerminalId)
      exact hdrained.congr rfl rfl
  | clock hread =>
      simp only [rtcRead] at hread
      split at hread
      · cases hread
      split at hread
      · cases hread
      · cases hread
        exact hcursors.congr rfl rfl
  | directory position hread => exact hcursors.congr rfl rfl
  | file position hread => exact hcursors.congr rfl rfl

theorem openDevice_cursors (table : FopsTable) {kernel : Kernel} (h : CursorsOnPage kernel) :
    CursorsOnPage (table.openDevice kernel) := by
  have hfirst : CursorsOnPage { kernel with displayTerminalId := 0 } := h.congr rfl rfl
  have hopened : CursorsOnPage (terminalOpen kernel) := hfirst.modifyDisplayed .home
  cases table with
  | stdinFops => exact hopened
  | stdoutFops => exact hopened
  | rtcFops => exact h.congr rfl rfl
  | dirFops => exact h
  | fileFops => exact h

theorem Call.cursors {call : Call} {kernel after : Kernel} {value : Int32} {stores : Stores}
    (h : call.perform kernel = some (after, value, stores)) (hcursors : CursorsOnPage kernel) :
    CursorsOnPage after := by
  have hlive : after.screen.CursorOnPage := by
    rw [screen_of_perform h]
    exact hcursors.live.puts _
  cases call with
  | openFile filename =>
      obtain ⟨⟨opened, result⟩, hopen, heq⟩ := Option.map_eq_some_iff.mp h
      cases heq
      rcases syscallOpen_cases hopen with rfl | ⟨fd, -, ⟨table, rfl⟩ | ⟨table, entry, rfl⟩⟩
      · exact hcursors
      · exact hcursors.congr rfl rfl
      · exact (openDevice_cursors table hcursors).congr rfl rfl
  | readFd interrupts fd buf nbytes =>
      rcases tableRead_of_syscallRead h with ⟨-, rfl, -, -⟩ | ⟨-, -, table, -, hread⟩
      · exact hcursors
      · exact hread.cursors hcursors
  | writeFd fd source nbytes =>
      obtain ⟨⟨written, result⟩, hwrite, heq⟩ := Option.map_eq_some_iff.mp h
      cases heq
      obtain ⟨screen, virtFreq, interrupts, rfl⟩ := syscallWrite_eq hwrite
      exact hcursors.of_terminal hlive rfl
  | closeFd fd =>
      obtain ⟨⟨closed, result⟩, hclose, heq⟩ := Option.map_eq_some_iff.mp h
      cases heq
      obtain ⟨fds, rfl⟩ := syscallClose_withFds hclose
      exact hcursors.congr rfl rfl
  | getargs buf nbytes =>
      rw [syscallGetargs_eq h]
      exact hcursors.congr rfl rfl

/-! ## What a call writes -/

def KnownTypes (fs : FileSystem) : Prop := ∀ i < 63, (fs.entry i).type ≤ 2

structure SameTables (before after : Kernel) : Prop where
  directory : after.pageDirectory = before.pageDirectory
  table : after.pageTable = before.pageTable
  tableAddr : after.pageTableAddr = before.pageTableAddr
  videoPage : after.videoPage = before.videoPage
  videoAddr : after.videoPageAddr = before.videoPageAddr

/-- Beside the caller's descriptors a call writes devices, and what it stores for its caller. -/
structure CallWrites (stores : Stores) (before after : Kernel) : Prop
    extends CallOnly before after where
  image : after.fs = before.fs
  displayed : after.displayTerminalId = before.displayTerminalId
  tables : SameTables before after
  memory : after.userMemory = (before.storeUser stores).userMemory

theorem SameTables.refl (kernel : Kernel) : SameTables kernel kernel := ⟨rfl, rfl, rfl, rfl, rfl⟩

theorem SameTables.trans {first second third : Kernel} (h : SameTables first second)
    (h' : SameTables second third) : SameTables first third :=
  ⟨h'.directory.trans h.directory, h'.table.trans h.table, h'.tableAddr.trans h.tableAddr,
    h'.videoPage.trans h.videoPage, h'.videoAddr.trans h.videoAddr⟩

theorem CallWrites.refl (kernel : Kernel) : CallWrites [] kernel kernel where
  toCallOnly := .refl kernel
  image := rfl
  displayed := rfl
  tables := .refl kernel
  memory := rfl

theorem CallWrites.modifyFd (kernel : Kernel) (fd : UInt32)
    (change : FileDescriptor → FileDescriptor) (stores : Stores) :
    CallWrites stores kernel ((kernel.modifyFd fd change).storeUser stores) where
  toCallOnly := (CallOnly.modifyFd kernel fd change).trans (.storeUser _ stores)
  image := rfl
  displayed := rfl
  tables := ⟨rfl, rfl, rfl, rfl, rfl⟩
  memory := rfl

theorem CallWrites.withFds (kernel : Kernel) (fds : UInt32 → FileDescriptor) :
    CallWrites [] kernel (kernel.withFds fds) where
  toCallOnly := .withFds kernel fds
  image := rfl
  displayed := rfl
  tables := ⟨rfl, rfl, rfl, rfl, rfl⟩
  memory := rfl

theorem openDevice_writes {type : UInt32} {table : FopsTable} (h : typeFops type = some table)
    (kernel : Kernel) (fd : UInt32) (change : FileDescriptor → FileDescriptor) :
    CallWrites [] kernel ((table.openDevice kernel).modifyFd fd change) where
  toCallOnly := (openDevice_callOnly table kernel).trans (.modifyFd _ fd change)
  image := fs_openDevice table kernel
  displayed := (openDevice_of_typeFops h kernel).2
  tables := by cases table <;> exact ⟨rfl, rfl, rfl, rfl, rfl⟩
  memory := by cases table <;> rfl

theorem syscallOpen_writes {filename : Option CString} {kernel after : Kernel} {value : Int32}
    (htypes : KnownTypes kernel.fs) (h : syscallOpen filename kernel = some (after, value)) :
    CallWrites [] kernel after := by
  cases filename with
  | none =>
      cases h
      exact .refl _
  | some filename =>
      by_cases hname : filename.chars = []
      · rw [syscallOpen_empty hname] at h
        cases h
        exact .refl _
      cases hfree : lowestFree kernel.isFree with
      | none =>
          rw [syscallOpen_full hfree] at h
          cases h
          exact .refl _
      | some fd =>
          cases hlookup : kernel.fs.lookup filename.chars with
          | none =>
              rw [syscallOpen_missing hname hfree hlookup] at h
              cases h
              exact .withFds kernel _
          | some entry =>
              rw [syscallOpen_found hname hfree hlookup] at h
              obtain ⟨i, hi, hentry, -⟩ := lookup_eq_some hlookup
              obtain ⟨table, htable⟩ := exists_typeFops (hentry ▸ htypes i hi)
              rw [tableBehind, htable, Option.some_or, Option.map_some] at h
              cases h
              exact openDevice_writes htable kernel fd _

theorem syscallRead_writes {interrupts fd buf : UInt32} {nbytes value : Int32}
    {kernel after : Kernel} {stores : Stores}
    (h : syscallRead interrupts fd buf nbytes kernel = some (after, value, stores)) :
    CallWrites stores kernel after := by
  have honly := syscallRead_callOnly h
  rcases tableRead_of_syscallRead h with ⟨-, rfl, -, rfl⟩ | ⟨-, -, table, -, hread⟩
  · exact .refl _
  cases hread with
  | screen => exact .refl _
  | terminal hread =>
      simp only [terminalRead] at hread
      split at hread
      · cases hread
      · cases hread
        exact ⟨honly, rfl, rfl, ⟨rfl, rfl, rfl, rfl, rfl⟩, rfl⟩
  | clock hread =>
      simp only [rtcRead] at hread
      split at hread
      · cases hread
      split at hread
      · cases hread
      · cases hread
        exact ⟨honly, rfl, rfl, ⟨rfl, rfl, rfl, rfl, rfl⟩, rfl⟩
  | directory position => exact .modifyFd kernel fd _ stores
  | file position => exact .modifyFd kernel fd _ stores

theorem Call.writes {call : Call} {kernel after : Kernel} {value : Int32} {stores : Stores}
    (htypes : KnownTypes kernel.fs) (h : call.perform kernel = some (after, value, stores)) :
    CallWrites stores kernel after := by
  have honly := Call.callOnly h
  cases call with
  | openFile filename =>
      obtain ⟨⟨opened, result⟩, hopen, heq⟩ := Option.map_eq_some_iff.mp h
      cases heq
      exact syscallOpen_writes htypes hopen
  | readFd interrupts fd buf nbytes => exact syscallRead_writes h
  | writeFd fd source nbytes =>
      obtain ⟨⟨written, result⟩, hwrite, heq⟩ := Option.map_eq_some_iff.mp h
      cases heq
      obtain ⟨screen, virtFreq, interrupts, rfl⟩ := syscallWrite_eq hwrite
      exact ⟨honly, rfl, rfl, ⟨rfl, rfl, rfl, rfl, rfl⟩, rfl⟩
  | closeFd fd =>
      obtain ⟨⟨closed, result⟩, hclose, heq⟩ := Option.map_eq_some_iff.mp h
      cases heq
      obtain ⟨fds, rfl⟩ := syscallClose_withFds hclose
      exact .withFds kernel fds
  | getargs buf nbytes =>
      rw [syscallGetargs_eq h]
      exact ⟨.storeUser kernel stores, rfl, rfl, ⟨rfl, rfl, rfl, rfl, rfl⟩, rfl⟩

/-! ## The rate of the clock -/

theorem validRate_rtcOpen (kernel : Kernel) : ValidRate (rtcOpen kernel).virtFreq :=
  ⟨1, by decide, by decide, rfl⟩

theorem syscallOpen_validRate {filename : Option CString} {kernel after : Kernel} {value : Int32}
    (h : syscallOpen filename kernel = some (after, value)) (hrate : ValidRate kernel.virtFreq) :
    ValidRate after.virtFreq := by
  rcases syscallOpen_cases h with rfl | ⟨fd, -, ⟨table, rfl⟩ | ⟨table, entry, rfl⟩⟩
  · exact hrate
  · exact hrate
  · cases table with
    | rtcFops => exact validRate_rtcOpen kernel
    | _ => exact hrate

theorem syscallWrite_validRate {fd : UInt32} {source : Nat → UInt8} {nbytes value : Int32}
    {kernel after : Kernel} (h : syscallWrite fd source nbytes kernel = some (after, value))
    (hrate : ValidRate kernel.virtFreq) : ValidRate after.virtFreq := by
  simp only [syscallWrite] at h
  split at h
  · cases h
    exact hrate
  split at h
  · cases h
    exact hrate
  split at h
  · cases h
  · cases h
    exact hrate
  · cases h
    exact hrate
  · have hwritten := validRate_perform hrate
      (.writeRtc (wordOfBytes (source 0) (source 1) (source 2) (source 3)) nbytes.toUInt32)
    rw [RtcOp.perform, Option.some.inj h] at hwritten
    exact hwritten
  · cases h
    exact hrate
  · cases h
    exact hrate

theorem syscallRead_rate {interrupts fd buf : UInt32} {nbytes value : Int32}
    {kernel after : Kernel} {stores : Stores}
    (h : syscallRead interrupts fd buf nbytes kernel = some (after, value, stores)) :
    after.virtFreq = kernel.virtFreq := by
  rcases syscallRead_cases h with ⟨terminal, count, memory, rfl⟩ | ⟨-, position, rfl⟩ <;> rfl

theorem Call.validRate {call : Call} {kernel after : Kernel} {value : Int32} {stores : Stores}
    (h : call.perform kernel = some (after, value, stores)) (hrate : ValidRate kernel.virtFreq) :
    ValidRate after.virtFreq := by
  cases call with
  | openFile filename =>
      obtain ⟨⟨opened, result⟩, hopen, heq⟩ := Option.map_eq_some_iff.mp h
      cases heq
      exact syscallOpen_validRate hopen hrate
  | readFd interrupts fd buf nbytes =>
      rw [syscallRead_rate h]
      exact hrate
  | writeFd fd source nbytes =>
      obtain ⟨⟨written, result⟩, hwrite, heq⟩ := Option.map_eq_some_iff.mp h
      cases heq
      exact syscallWrite_validRate hwrite hrate
  | closeFd fd =>
      obtain ⟨⟨closed, result⟩, hclose, heq⟩ := Option.map_eq_some_iff.mp h
      cases heq
      obtain ⟨fds, rfl⟩ := syscallClose_withFds hclose
      exact hrate
  | getargs buf nbytes =>
      rw [syscallGetargs_eq h]
      exact hrate

end LinuxOS
