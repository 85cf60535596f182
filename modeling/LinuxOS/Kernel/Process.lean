import LinuxOS.Kernel.SystemCall

/-!
# Starting and ending programs: `syscall_execute` and `syscall_halt`

`syscall_execute` is the composition of its checks, `find_open_task`, and the
part that claims the slot and starts the program.
-/

namespace LinuxOS

inductive Exit where
  | returned (value : Int32)
  /-- `iret` to the entry point of a new program -/
  | entered (eip : UInt32)
  /-- `iret` to the entry point of a program that may not end -/
  | restarted (eip : UInt32)
  /-- the return from the `syscall_execute` that started the ended program -/
  | resumed (value esp ebp : UInt32)
  | hung
  deriving DecidableEq, Repr

def Exit.value? : Exit → Option UInt32
  | .resumed value _ _ => some value
  | _ => none

def Exit.isEntered : Exit → Bool
  | .entered _ => true
  | _ => false

theorem Exit.exists_entered {exit : Exit} (h : exit.isEntered = true) :
    ∃ eip, exit = .entered eip := by
  cases exit <;> simp [Exit.isEntered] at h
  exact ⟨_, rfl⟩

theorem Exit.exists_resumed {exit : Exit} {value : UInt32} (h : exit.value? = some value) :
    ∃ esp ebp, exit = .resumed value esp ebp := by
  cases exit <;> simp [Exit.value?] at h
  subst h
  exact ⟨_, _, rfl⟩

/-! ## Parsing the command -/

/-- Take bytes until one stops the loop, `limit` at most; also yields what is left. -/
def grab (stop : UInt8 → Bool) : Nat → List UInt8 → List UInt8 × List UInt8
  | 0, rest => ([], rest)
  | _ + 1, [] => ([], [])
  | limit + 1, char :: rest =>
      if stop char then ([], char :: rest)
      else (char :: (grab stop limit rest).1, (grab stop limit rest).2)

theorem grab_append (stop : UInt8 → Bool) (limit : Nat) (bytes : List UInt8) :
    (grab stop limit bytes).1 ++ (grab stop limit bytes).2 = bytes := by
  fun_induction grab stop limit bytes with
  | case1 => rfl
  | case2 => rfl
  | case3 => rfl
  | case4 limit char rest _ ih => simp [ih]

def isSpace (char : UInt8) : Bool := char == 0x20
def isNewline (char : UInt8) : Bool := char == 0x0A
def isDelimiter (char : UInt8) : Bool := isSpace char || isNewline char

def taskNameSize : Nat := 33
def argumentBufSize : Nat := 129

def CString.ofSublist (string : CString) (bytes : List UInt8)
    (h : bytes.Sublist string.chars) : CString where
  chars := bytes
  noNul := fun char hmem => string.noNul char (h.subset hmem)
  short := h.length_le.trans_lt string.short

def commandWord (command : CString) : List UInt8 × List UInt8 :=
  grab isDelimiter (taskNameSize - 1) (command.chars.dropWhile isSpace)

def commandArgument (command : CString) : List UInt8 :=
  (grab isNewline (argumentBufSize - 1) ((commandWord command).2.dropWhile isSpace)).1

theorem commandWord_sublist (command : CString) :
    (commandWord command).1.Sublist command.chars := by
  have happend := grab_append isDelimiter (taskNameSize - 1)
    (command.chars.dropWhile isSpace)
  have hprefix : (commandWord command).1.Sublist (command.chars.dropWhile isSpace) := by
    rw [← happend]
    exact List.sublist_append_left _ _
  exact hprefix.trans (List.dropWhile_sublist _)

def commandName (command : CString) : CString :=
  command.ofSublist (commandWord command).1 (commandWord_sublist command)

def commandTooLong (command : CString) : Bool :=
  (commandWord command).1.length == taskNameSize - 1 &&
    !((commandWord command).2.head?.all isDelimiter)

def commandBlank (command : CString) : Bool :=
  (commandWord command).1.all fun char => !(char != 0x20 || char == 0x0A)

/--
What the uninitialised locals of `syscall_execute` hold before they are
assigned, the address of its local `buf`, and the registers its `asm` reads.
-/
structure ExecuteFrame where
  taskName : Nat → UInt8
  argument : Nat → UInt8
  fileCheck : Dentry
  buf : UInt32
  bufNotNull : buf ≠ 0
  esp : UInt32
  ebp : UInt32

def fillBuffer (stale : Nat → UInt8) (word : List UInt8) (index : Nat) : UInt8 :=
  if index < word.length then word.getD index 0
  else if index = word.length then 0
  else stale index

/-! ## `syscall_execute` -/

/--
The checks of `syscall_execute`: the value it returns early, or the directory
entry of the program.  A failed lookup leaves `file_check` as it was.
-/
def executeCheck (frame : ExecuteFrame) (command : CString) (fs : FileSystem) :
    Except Int32 Dentry :=
  if commandTooLong command then .error (-1)
  else if commandBlank command then .error 0
  else
    let fileCheck := (readDentryByName fs (commandName command)).getD frame.fileCheck
    let (copied, buf) := readData fs fileCheck.inode 0 frame.buf 4
    if copied ≠ 4 then .error (-1)
    else if buf.map Prod.snd ≠ [0x7f, 0x45, 0x4C, 0x46] then .error (-1)
    else .ok fileCheck

def programAddr : UInt32 := 0x08048000
def twoM : UInt32 := 0x200000

def stackTop (taskId : UInt32) : UInt32 := eightK * oneK - eightK * taskId - 4

/-- Load the program and read its entry point, bytes 24..27. -/
def loadProgram (fileCheck : Dentry) (kernel : Kernel) : Kernel × UInt32 :=
  let loaded := kernel.storeUser (readData kernel.fs fileCheck.inode 0 programAddr twoM).2
  (loaded, wordOfBytes (loaded.loadUser (programAddr + 24)) (loaded.loadUser (programAddr + 25))
    (loaded.loadUser (programAddr + 26)) (loaded.loadUser (programAddr + 27)))

/-- `fda_init`: descriptors 0 and 1 are the terminal, 2..7 are free. -/
def fdaInit (kernel : Kernel) : Kernel :=
  kernel.modifyPcb kernel.running fun pcb =>
    { pcb with
      fd := fun i =>
        if i = 0 then ⟨some .stdinFops, 0, 0, 1⟩
        else if i = 1 then ⟨some .stdoutFops, 0, 0, 1⟩
        else if i < 8 then ⟨none, 0, 0, 0⟩
        else pcb.fd i }

def linkParent (oldSlot : UInt32) (kernel : Kernel) : Kernel :=
  { kernel with
    pcb :=
      if kernel.tasksRunning ≥ 3 then
        ((kernel.modifyPcb kernel.running fun pcb =>
          { pcb with taskIdParent := oldSlot }).modifyPcb oldSlot fun pcb =>
            { pcb with taskIdChild := kernel.running }).pcb
      else
        (kernel.modifyPcb kernel.running fun pcb => { pcb with taskIdParent := noTask }).pcb }

def claimSlot (newSlot : UInt32) (kernel : Kernel) : Kernel :=
  syscallPagingSetup (eightM + newSlot * fourM) { kernel with
    tasksRunning := newSlot.toInt32
    taskSlots := Function.update kernel.taskSlots newSlot 1 }

def fillTexts (frame : ExecuteFrame) (command : CString) (eip : UInt32) (pcb : Pcb) : Pcb :=
  { pcb with
    taskIdChild := noTask
    oldEsp := frame.esp
    oldEbp := frame.ebp
    oldEip := eip
    fileName := fun i =>
      if i < taskNameSize then fillBuffer frame.taskName (commandWord command).1 i
      else pcb.fileName i
    argumentBuf := fun i =>
      if i < argumentBufSize then fillBuffer frame.argument (commandArgument command) i
      else pcb.argumentBuf i }

def fillPcb (frame : ExecuteFrame) (command : CString) (newSlot oldSlot eip : UInt32)
    (kernel : Kernel) : Kernel :=
  let named := kernel.modifyPcb newSlot fun pcb => { pcb with taskId := newSlot }
  let linked := linkParent oldSlot named
  let filled := linked.modifyPcb newSlot (fillTexts frame command eip)
  { fdaInit filled with tssEsp0 := stackTop newSlot }

/--
The rest of `syscall_execute`, from the claim of `newSlot` to the `iret`.
Yields the entry point it jumps to.
-/
def executeClaim (frame : ExecuteFrame) (command : CString) (fileCheck : Dentry)
    (newSlot : UInt32) (kernel : Kernel) : Kernel × UInt32 :=
  let (loaded, eip) := loadProgram fileCheck (claimSlot newSlot kernel)
  (fillPcb frame command newSlot kernel.running eip loaded, eip)

def syscallExecute (frame : ExecuteFrame) (command : CString) (kernel : Kernel) :
    Kernel × Exit :=
  match executeCheck frame command kernel.fs with
  | .error value => (kernel, .returned value)
  | .ok fileCheck =>
      let newSlot := (findOpenTask kernel).toUInt32
      if newSlot = noTask then
        (kernel.print "Max programs reached, only valid command: exit\n", .returned (-1))
      else
        let (started, eip) := executeClaim frame command fileCheck newSlot kernel
        (started, .entered eip)

/-! ## `syscall_halt` -/

/--
The loop of `syscall_halt` that closes descriptors: `count` are left, from `i`
on.  `pcb` is the address of the ending program's control block.
-/
def closeRelevantFds (pcb : UInt32) : Nat → UInt32 → Kernel → Option Kernel
  | 0, _, kernel => some kernel
  | count + 1, i, kernel =>
      if ((kernel.pcb pcb).fd i).flags ≠ 0 then
        (syscallClose i.toInt32 kernel).bind fun (closed, _) =>
          closeRelevantFds pcb count (i + 1) closed
      else closeRelevantFds pcb count (i + 1) kernel

/-- `page_directory[37] & 1` decides whether the video page is unmapped. -/
def unmapVideo (kernel : Kernel) : Kernel :=
  if kernel.pageDirectory (mem148MB / fourM) &&& 1 ≠ 0 then videomemUnmap mem148MB kernel
  else kernel

def restoreParent (kernel : Kernel) : Kernel :=
  let parent := (kernel.pcbOf kernel.running).taskIdParent
  let unlinked := kernel.modifyPcb parent fun pcb => { pcb with taskIdChild := noTask }
  unmapVideo (syscallPagingSetup
    (eightM + (unlinked.pcbOf unlinked.running).taskIdParent * fourM) unlinked)

def releaseTask (status : UInt8) (pcb : Pcb) (kernel : Kernel) : Kernel × Exit :=
  ({ kernel with
      taskSlots := Function.update kernel.taskSlots kernel.running 0
      tasksRunning := pcb.taskIdParent.toInt32
      tssEsp0 := pcb.oldEsp
      exceptionDeath := if kernel.exceptionDeath ≠ 0 then 0 else kernel.exceptionDeath },
    .resumed (if kernel.exceptionDeath ≠ 0 then 256 else status.toUInt32) pcb.oldEsp pcb.oldEbp)

/-- The part of `syscall_halt` behind the test for a final shell. -/
def haltChild (status : UInt8) (kernel : Kernel) : Option (Kernel × Exit) :=
  let pcb := getPcb kernel.running
  (closeRelevantFds pcb 8 0 (restoreParent kernel)).map fun closed =>
    releaseTask status (closed.pcb pcb) closed

/--
Before the first task runs there is no control block: `get_pcb(-1)` is 8 MB,
where no page is mapped, so that the read faults and the handler of that fault
comes here again, for ever.
-/
def syscallHalt (status : UInt8) (kernel : Kernel) : Option (Kernel × Exit) :=
  let pcb := kernel.pcbOf kernel.running
  if kernel.running = noTask then none
  else if pcb.taskIdParent = noTask then
    some ({ kernel.print "Halting final shell is not allowed\n" with
        tssEsp0 := stackTop kernel.running },
      .restarted pcb.oldEip)
  else haltChild status kernel

/-- `HANDLE_EXCEPTION`: the handlers differ in their message only. -/
def handleException (message : String) (kernel : Kernel) : Option (Kernel × Exit) :=
  let shown := kernel.print message
  if shown.running ≠ 0 then
    syscallHalt 0 { shown.modifyScreen (putc 0x0A) with exceptionDeath := 1 }
  else some (shown, .hung)

end LinuxOS
