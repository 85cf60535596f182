import LinuxOS.Machine.Events

/-!
# What a step of the machine does

Once the shells are there, a step of the machine has one of a few effects on
the tasks, and these keep the shells, the links, the mapping of the user page
and the page tables as they should be.
-/

namespace LinuxOS

open Foundation

/-! ## The page tables are kept -/

theorem PageFrame.congr {start before after : Kernel} (h : PageFrame start before)
    (hsame : SameTables before after) : PageFrame start after := by
  refine ⟨hsame.tableAddr ▸ h.tableAddr, hsame.videoAddr ▸ h.videoAddr, ?_, ?_, ?_, ?_⟩
  · rw [hsame.directory]
    exact h.directory
  · rw [hsame.table]
    exact h.table
  · rw [hsame.directory]
    exact h.userPage
  · rw [hsame.directory, hsame.videoPage]
    exact h.videoPage

theorem switchDisplayTerminal_eq {regs : SwitchRegs} {tid : UInt32} {kernel after : Kernel}
    (h : switchDisplayTerminal regs tid kernel = some after) :
    after = kernel ∨ ∃ bottom running, after =
      saveRegs regs.nextEsp regs.nextEbp tid (saveRegs regs.prevEsp regs.prevEbp
        kernel.displayTerminalId.toUInt32
        { showTerminal tid bottom kernel with tasksRunning := running }) := by
  simp only [switchDisplayTerminal] at h
  split at h
  · exact .inl (Option.some.inj h).symm
  · obtain ⟨bottom, -, h⟩ := Option.bind_eq_some_iff.mp h
    obtain ⟨⟨switched, result⟩, hmoved, hsaved⟩ := Option.bind_eq_some_iff.mp h
    obtain ⟨task, -, hmoved⟩ := Option.map_eq_some_iff.mp hmoved
    right
    split at hmoved
    · cases hmoved
      exact ⟨bottom, kernel.tasksRunning, (Option.some.inj hsaved).symm⟩
    · cases hmoved
      exact ⟨bottom, task, (Option.some.inj hsaved).symm⟩

theorem PageFrame.switchDisplay {start before after : Kernel} {regs : SwitchRegs} {tid : UInt32}
    (h : PageFrame start before) (hswitch : switchDisplayTerminal regs tid before = some after) :
    PageFrame start after := by
  rcases switchDisplayTerminal_eq hswitch with rfl | ⟨bottom, running, rfl⟩
  · exact h
  · exact (h.setup (eightM + fourM * bottom.toUInt32)).congr ⟨rfl, rfl, rfl, rfl, rfl⟩

theorem PageFrame.executeClaim {start kernel : Kernel} (h : PageFrame start kernel)
    (frame : ExecuteFrame) (command : CString) (fileCheck : Dentry) (slot : UInt32) :
    PageFrame start (executeClaim frame command fileCheck slot kernel).1 :=
  (h.setup (eightM + slot * fourM)).congr ⟨rfl, rfl, rfl, rfl, rfl⟩

theorem haltChild_eq {status : UInt8} {kernel after : Kernel} {exit : Exit}
    (h : haltChild status kernel = some (after, exit)) :
    ∃ fds pcb, after = (releaseTask status pcb ((restoreParent kernel).withFds fds)).1 := by
  obtain ⟨closed, hclosed, hreleased⟩ := Option.map_eq_some_iff.mp h
  rw [← running_restoreParent kernel] at hclosed
  obtain ⟨fds, rfl⟩ := closeRelevantFds_withFds hclosed
  exact ⟨fds, _, (congrArg Prod.fst hreleased).symm⟩

theorem PageFrame.haltChild {start before after : Kernel} {status : UInt8} {exit : Exit}
    (h : PageFrame start before) (hhalt : haltChild status before = some (after, exit)) :
    PageFrame start after := by
  obtain ⟨fds, pcb, rfl⟩ := haltChild_eq hhalt
  have hunlinked : PageFrame start (before.modifyPcb (before.pcbOf before.running).taskIdParent
      fun pcb => { pcb with taskIdChild := noTask }) := h.congr ⟨rfl, rfl, rfl, rfl, rfl⟩
  have hrestored : PageFrame start (restoreParent before) := (hunlinked.setup _).unmap
  exact hrestored.congr ⟨rfl, rfl, rfl, rfl, rfl⟩

/-- What the end of a program leaves as it was. -/
structure EndKept (before after : Kernel) : Prop where
  image : after.fs = before.fs
  screen : after.screen = before.screen
  terminal : after.terminal = before.terminal
  memory : after.userMemory = before.userMemory
  rate : after.virtFreq = before.virtFreq

theorem haltChild_kept {status : UInt8} {before after : Kernel} {exit : Exit}
    (hhalt : haltChild status before = some (after, exit)) : EndKept before after := by
  obtain ⟨fds, pcb, rfl⟩ := haltChild_eq hhalt
  have hrestored : EndKept before (restoreParent before) := by
    simp only [restoreParent, unmapVideo]
    split <;> exact ⟨rfl, rfl, rfl, rfl, rfl⟩
  exact ⟨hrestored.image, hrestored.screen, hrestored.terminal, hrestored.memory, hrestored.rate⟩

theorem CursorsOnPage.haltChild {before after : Kernel} {status : UInt8} {exit : Exit}
    (h : CursorsOnPage before) (hhalt : haltChild status before = some (after, exit)) :
    CursorsOnPage after :=
  h.congr (haltChild_kept hhalt).screen (haltChild_kept hhalt).terminal

/-! ## What every step keeps -/

/--
A property of kernels that the parts of a step keep: output, the variables of
the tick, display switches, the start of a program and the end of one.
-/
structure KeptByParts (inv : Kernel → Prop) : Prop where
  shown : ∀ kernel text tssEsp0 death, inv kernel → inv { kernel with
    screen := puts text kernel.screen, tssEsp0 := tssEsp0, exceptionDeath := death }
  counted : ∀ kernel flag active counter, inv kernel → inv { kernel with
    bootupFlag := flag, activeProcess := active, pitCounter := counter }
  switched : ∀ regs tid before after, inv before →
    switchDisplayTerminal regs tid before = some after → inv after
  claimed : ∀ frame command fileCheck slot kernel, inv kernel →
    inv (executeClaim frame command fileCheck slot kernel).1
  ended : ∀ status before after exit, inv before →
    haltChild status before = some (after, exit) → inv after

namespace KeptByParts

variable {inv : Kernel → Prop} {before after : Kernel} (hparts : KeptByParts inv)
include hparts

theorem execute {frame : ExecuteFrame} {command : CString} {exit : Exit} (h : inv before)
    (hexecute : syscallExecute frame command before = (after, exit)) : inv after := by
  rcases syscallExecute_cases hexecute with ⟨-, text, rfl⟩ | ⟨slot, fileCheck, eip, -, -, rfl⟩
  · exact hparts.shown before text before.tssEsp0 before.exceptionDeath h
  · exact hparts.claimed frame command fileCheck slot before h

theorem halt {status : UInt8} {exit : Exit} (h : inv before)
    (hhalt : syscallHalt status before = some (after, exit)) : inv after := by
  rcases syscallHalt_cases hhalt with ⟨-, ⟨text, rfl⟩, -⟩ | ⟨-, hchild⟩
  · exact hparts.shown before text (stackTop before.running) before.exceptionDeath h
  · exact hparts.ended status before after exit h hchild

theorem scheduler {frame : TickFrame} {tNum : UInt32} {exit : Exit} (h : inv before)
    (htick : LinuxOS.scheduler frame tNum before = some (after, exit)) : inv after :=
  scheduler_invariant
    (fun kernel flag active h => hparts.counted kernel flag active kernel.pitCounter h)
    hparts.switched (fun _ _ _ _ _ h hexecute => hparts.execute h hexecute) h htick

theorem step {event : Event} (h : inv before)
    (hstep : LinuxOS.step event before = some after) : inv after := by
  obtain ⟨exit, hperform⟩ := step_eq_some.mp hstep
  cases performed hperform with
  | tick hpit =>
      obtain ⟨ticked, counter, htick, rfl⟩ := pitHandler_cases hpit
      exact hparts.counted ticked ticked.bootupFlag ticked.activeProcess counter
        (hparts.scheduler h htick)
  | schedule htick => exact hparts.scheduler h htick
  | chord hswitch => exact hparts.switched _ _ _ _ h hswitch
  | execute hge hexecute => exact hparts.execute h hexecute
  | halt hge hhalt => exact hparts.halt h hhalt
  | exception hge hexception =>
      rcases handleException_cases hexception with ⟨-, ⟨text, rfl⟩, -⟩ | ⟨-, text, hhalt⟩
      · exact hparts.shown before text before.tssEsp0 before.exceptionDeath h
      · exact hparts.halt (hparts.shown before text before.tssEsp0 1 h) hhalt

theorem run {events : List Event} (hrun : Foundation.run LinuxOS.step events before = some after)
    (h : inv before) : inv after :=
  run_invariant (fun _ _ _ h hstep => hparts.step h hstep) hrun h

end KeptByParts

theorem keptByParts_cursorsOnPage : KeptByParts CursorsOnPage where
  shown _ text _ _ h := h.of_terminal (h.live.puts text) rfl
  counted _ _ _ _ h := h.congr rfl rfl
  switched _ _ _ _ h hswitch := h.switchDisplay hswitch
  claimed _ _ _ _ _ h := h.congr rfl rfl
  ended _ _ _ _ h hhalt := h.haltChild hhalt

/-! ## Secure states -/

/--
The shells are there, the notions of the current task agree, a task runs, the
page tables are the kernel's own, and `open` knows the type of every file.
-/
structure Secure (kernel : Kernel) : Prop extends Agree kernel where
  active : 0 ≤ kernel.tasksRunning
  framed : ∃ start, Placed start ∧ PageFrame start kernel
  types : KnownTypes kernel.fs

/-- Devices and the scheduler's variables may have changed, and nothing of the tasks. -/
structure Quiet (before after : Kernel) : Prop where
  pcb : after.pcb = before.pcb
  slots : after.taskSlots = before.taskSlots
  running : after.tasksRunning = before.tasksRunning
  image : after.fs = before.fs
  displayed : after.displayTerminalId = before.displayTerminalId
  tables : SameTables before after
  memory : after.userMemory = before.userMemory
  rate : after.virtFreq = before.virtFreq
  cursors : CursorsOnPage before → CursorsOnPage after

theorem Quiet.refl (kernel : Kernel) : Quiet kernel kernel :=
  ⟨rfl, rfl, rfl, rfl, rfl, .refl kernel, rfl, rfl, id⟩

theorem Quiet.trans {first second third : Kernel} (h : Quiet first second)
    (h' : Quiet second third) : Quiet first third :=
  ⟨h'.pcb.trans h.pcb, h'.slots.trans h.slots, h'.running.trans h.running, h'.image.trans h.image,
    h'.displayed.trans h.displayed, h.tables.trans h'.tables, h'.memory.trans h.memory,
    h'.rate.trans h.rate, fun hcursors => h'.cursors (h.cursors hcursors)⟩

theorem Quiet.running_pcbOf {before after : Kernel} (h : Quiet before after) :
    after.pcbOf after.running = before.pcbOf before.running := by
  rw [Kernel.pcbOf, Kernel.pcbOf, Kernel.running, Kernel.running, h.pcb, h.running]

/-- The fields that a quiet step may write, beside the terminals. -/
theorem Quiet.devices {kernel : Kernel} {screen : Screen}
    (hcursor : kernel.screen.CursorOnPage → screen.CursorOnPage)
    (death tssEsp0 bootupFlag : UInt32) (activeProcess : Int32) (pitCounter : Int)
    (rtcInterCount : UInt32) :
    Quiet kernel { kernel with
      screen := screen, exceptionDeath := death, tssEsp0 := tssEsp0, bootupFlag := bootupFlag
      activeProcess := activeProcess, pitCounter := pitCounter
      rtcInterCount := rtcInterCount } :=
  ⟨rfl, rfl, rfl, rfl, rfl, ⟨rfl, rfl, rfl, rfl, rfl⟩, rfl, rfl,
    fun h => h.of_terminal (hcursor h.live) rfl⟩

/-- The effects of a step; the flag says whether the running program takes it. -/
inductive Effect (before after : Kernel) : Bool → Prop where
  | quiet (mine : Bool) (hquiet : Quiet before after) : Effect before after mine
  | switched (regs : SwitchRegs) (tid : UInt32) (switched : Kernel)
      (hswitch : switchDisplayTerminal regs tid before = some switched)
      (hquiet : Quiet switched after) : Effect before after false
  | started (frame : ExecuteFrame) (command : CString) (fileCheck : Dentry) (slot : UInt32)
      (hslot : FirstFree before slot)
      (hafter : after = (executeClaim frame command fileCheck slot before).1) :
      Effect before after true
  | ended (shown : Kernel) (status : UInt8) (exit : Exit) (hquiet : Quiet before shown)
      (hparent : (before.pcbOf before.running).taskIdParent ≠ noTask)
      (hhalt : haltChild status shown = some (after, exit)) : Effect before after true
  | called (stores : Stores) (hwrites : CallWrites stores before after)
      (hchanges : ∀ fd, Changes (before.fdOf fd) (after.fdOf fd))
      (hrate : ValidRate before.virtFreq → ValidRate after.virtFreq)
      (hcursors : CursorsOnPage before → CursorsOnPage after) : Effect before after true
  | mapped (stores : Stores)
      (hmapped : after = (videomemMap mem148MB videoMemAddr before).storeUser stores) :
      Effect before after true
  | stored (addr phys : UInt32) (byte : UInt8) (hwalk : before.tables.walk addr = some (phys, true))
      (hstored : after = { before with
        userMemory := Function.update before.userMemory phys byte }) : Effect before after true

/-! ## Every step has one of the effects -/

/-- With the shells there, a tick switches the display back after boot, and starts nothing. -/
theorem Secure.scheduler_effect {frame : TickFrame} {tNum : UInt32} {before after : Kernel}
    {exit : Exit} (h : Secure before)
    (htick : scheduler frame tNum before = some (after, exit)) : Effect before after false := by
  rcases scheduler_cases htick with
    ⟨-, rfl, -⟩ | ⟨hlt, booted, terminal, active, hboot, hactive, hrest⟩
  · exact .quiet false (.refl _)
  rcases bootSwitchBack_cases hboot with ⟨-, rfl, rfl⟩ | ⟨-, rfl, switched, hswitch, rfl⟩
  · rcases hrest with ⟨-, rfl, -⟩ | ⟨hnone, -⟩
    · exact .quiet false (.devices id ..)
    · exact absurd (h.shells _ hlt) ((h.tree.linked.bottom_eq_neg_one_iff hlt hactive).mp hnone)
  · rcases hrest with ⟨-, rfl, -⟩ | ⟨hnone, -⟩
    · exact .switched frame.bootSwitch 0 switched hswitch (.devices id ..)
    · have hbooted : Agree { switched with bootupFlag := 0 } :=
        (h.toAgree.switchDisplay hswitch).same (.of_pcb rfl rfl rfl) rfl rfl
      have hfree := (hbooted.tree.linked.bottom_eq_neg_one_iff (by decide) hactive).mp hnone
      exact absurd (hbooted.shells 0 (by decide)) hfree

theorem Effect.quietly {before after later : Kernel} (h : Effect before after false)
    (hquiet : Quiet after later) : Effect before later false := by
  cases h with
  | quiet _ hfirst => exact .quiet false (hfirst.trans hquiet)
  | switched regs tid switched hswitch hfirst =>
      exact .switched regs tid switched hswitch (hfirst.trans hquiet)

theorem Quiet.of_screenOnly {before after : Kernel} (h : ScreenOnly before after) :
    Quiet before after := by
  obtain ⟨text, rfl⟩ := h
  exact .devices (fun hcursor => hcursor.puts text) ..

theorem execute_effect {frame : ExecuteFrame} {command : CString} {before after : Kernel}
    {exit : Exit} (hexecute : syscallExecute frame command before = (after, exit)) :
    Effect before after true := by
  rcases syscallExecute_cases hexecute with
    ⟨-, hscreen⟩ | ⟨slot, fileCheck, eip, hslot, -, hafter⟩
  · exact .quiet true (.of_screenOnly hscreen)
  · exact .started frame command fileCheck slot hslot hafter

theorem halt_effect {status : UInt8} {before shown after : Kernel} {exit : Exit}
    (hquiet : Quiet before shown) (hhalt : syscallHalt status shown = some (after, exit)) :
    Effect before after true := by
  rcases syscallHalt_cases hhalt with ⟨-, ⟨text, rfl⟩, -⟩ | ⟨hparent, hchild⟩
  · exact .quiet true (hquiet.trans (.devices (fun hcursor => hcursor.puts text) ..))
  · exact .ended shown status exit hquiet (hquiet.running_pcbOf ▸ hparent) hchild

theorem Secure.perform_effect {event : Event} {before after : Kernel} {exit : Exit}
    (h : Secure before) (hperform : perform event before = some (after, exit)) :
    Effect before after (MachineEvent.program (.kernel event)).byProgram := by
  cases performed hperform with
  | tick hpit =>
      obtain ⟨ticked, counter, htick, rfl⟩ := pitHandler_cases hpit
      exact (h.scheduler_effect htick).quietly (.devices id ..)
  | schedule htick => exact h.scheduler_effect htick
  | chord hswitch => exact .switched _ _ after hswitch (.refl after)
  | execute hge hexecute => exact execute_effect hexecute
  | halt hge hhalt => exact halt_effect (.refl before) hhalt
  | exception hge hexception =>
      rcases handleException_cases hexception with ⟨-, hscreen, -⟩ | ⟨-, text, hhalt⟩
      · exact .quiet true (.of_screenOnly hscreen)
      · have hshown : Quiet before { before with
            screen := puts text before.screen, exceptionDeath := 1 } :=
          .devices (fun hcursor => hcursor.puts text) ..
        exact halt_effect hshown hhalt

theorem quiet_modifyDisplayed {kernel : Kernel} {edit : Screen → Screen}
    {change : Terminal → Terminal}
    (hcursor : CursorsOnPage kernel → (edit kernel.screen).CursorOnPage)
    (hx : (change kernel.displayed).cursorPosX = kernel.displayed.cursorPosX)
    (hy : (change kernel.displayed).cursorPosY = kernel.displayed.cursorPosY) :
    Quiet kernel ((kernel.modifyScreen edit).modifyDisplayed change) where
  pcb := rfl
  slots := rfl
  running := rfl
  image := rfl
  displayed := rfl
  tables := ⟨rfl, rfl, rfl, rfl, rfl⟩
  memory := rfl
  rate := rfl
  cursors h := by
    have hedited : CursorsOnPage (kernel.modifyScreen edit) := h.of_terminal (hcursor h) rfl
    refine hedited.modifyDisplayed ?_
    have hshown : (kernel.modifyScreen edit).displayed = kernel.displayed := rfl
    rw [hshown, hx, hy]
    exact h.saved kernel.displayTerminalId

theorem KeyCall.quiet {op : TerminalOp} {start before after : Kernel} (h : KeyCall op)
    (hplaced : Placed start) (hframe : PageFrame start before)
    (hmapped : op.faults before = false) (hperform : op.perform before = some after) :
    Quiet before after := by
  cases h with
  | clearScreen =>
      cases hperform
      have hhome : (resetPosition (clear before.screen)).CursorOnPage := .home
      exact .devices (fun _ => hhome) ..
  | backspace =>
      cases hperform
      unfold terminalBackspace
      split
      · exact .refl before
      · next hsize =>
          refine quiet_modifyDisplayed (fun hcursors => ?_) rfl rfl
          have hkept : ¬ ErasesBeforePage before := fun herases => by
            have hfaults := (faults_iff hplaced hframe hcursors).mpr ⟨rfl, herases⟩
            rw [hmapped] at hfaults
            cases hfaults
          have hfirst : 0 ≤ before.screen.linear := hcursors.live.first
          have hnot : before.screen.linear ≠ 0 := fun hlinear => hkept ⟨hsize, hlinear⟩
          exact hcursors.live.erase (by omega)
  | bufAdd char hchar =>
      cases hperform
      unfold terminalBufAdd
      split
      · exact .refl before
      split
      · exact quiet_modifyDisplayed (fun hcursors => hcursors.live.putc char) rfl rfl
      · exact quiet_modifyDisplayed (fun hcursors => hcursors.live.putc char) rfl rfl

theorem Secure.effect {event : MachineEvent} {before after : Console}
    (h : Secure before.kernel) (hstep : machineStep event before = some after) :
    Effect before.kernel after.kernel event.byProgram := by
  obtain ⟨start, hplaced, hframe⟩ := h.framed
  cases machineStep_moved hstep with
  | kernel hperform => exact h.perform_effect hperform
  | call hge hcall hinside =>
      exact .called _ (Call.writes h.types hcall) (Call.changes hcall) (Call.validRate hcall)
        (Call.cursors hcall)
  | refusedVidmap hge hsame =>
      rw [hsame]
      exact .quiet true (.refl _)
  | vidmap hge stores hmapped => exact .mapped stores hmapped
  | store hge hwalk hstored => exact .stored _ _ _ hwalk hstored
  | storeVideo hge hwalk hpage hscreen =>
      rw [hscreen]
      refine .quiet true (.devices ?_ ..)
      exact fun hcursor => hcursor
  | keyIgnored hsame =>
      rw [hsame]
      exact .quiet false (.refl _)
  | keyCall op hop hmapped hperform =>
      exact .quiet false (hop.quiet hplaced hframe hmapped hperform)
  | keyChord tid hswitch => exact .switched _ tid _ hswitch (.refl _)
  | clock hcounted =>
      rw [hcounted]
      exact .quiet false (.devices id ..)

/-! ## Secure states stay secure -/

theorem Agree.sameTasks {before after : Kernel} (h : Agree before) (hsame : SameTasks before after)
    (hdisplay : after.displayTerminalId = before.displayTerminalId)
    (hpage : after.userPage = before.userPage) : Agree after where
  shells base hlt := (occupied_congr hsame.slots base).mpr (h.shells base hlt)
  tree := h.tree.sameTasks hsame
  bottom := by
    rw [findBottomTask_congr hsame.slots hsame.links, hdisplay, hsame.running]
    exact h.bottom
  userPage := by
    rw [hpage, hsame.running_eq]
    exact h.userPage

section Kept

variable {before after : Kernel}

theorem Secure.sameTasks (h : Secure before) (hsame : SameTasks before after)
    (himage : after.fs = before.fs)
    (hdisplay : after.displayTerminalId = before.displayTerminalId)
    (hpage : after.userPage = before.userPage)
    (hframed : ∀ start, PageFrame start before → PageFrame start after) : Secure after := by
  obtain ⟨start, hplaced, hframe⟩ := h.framed
  exact {
    h.toAgree.sameTasks hsame hdisplay hpage with
    active := hsame.running ▸ h.active
    framed := ⟨start, hplaced, hframed start hframe⟩
    types := himage ▸ h.types }

theorem userPage_congr (h : SameTables before after) : after.userPage = before.userPage := by
  rw [Kernel.userPage, Kernel.userPage, h.directory]

theorem Secure.quiet (h : Secure before) (hquiet : Quiet before after) : Secure after :=
  h.sameTasks (.of_pcb hquiet.slots hquiet.running hquiet.pcb) hquiet.image hquiet.displayed
    (userPage_congr hquiet.tables) fun _ hframe => hframe.congr hquiet.tables

theorem Secure.switchDisplay {regs : SwitchRegs} {tid : UInt32} (h : Secure before)
    (hswitch : switchDisplayTerminal regs tid before = some after) : Secure after := by
  obtain ⟨start, hplaced, hframe⟩ := h.framed
  have hkept := switchDisplayTerminal_roundKept hswitch
  refine {
    h.toAgree.switchDisplay hswitch with
    active := ?_
    framed := ⟨start, hplaced, hframe.switchDisplay hswitch⟩
    types := hkept.image ▸ h.types }
  rcases switchDisplayTerminal_cases hswitch with ⟨-, rfl⟩ | ⟨hmove, bottom, hfind, hswitched⟩
  · exact h.active
  · rw [hswitched.running]
    split
    · exact h.active
    · next hsome =>
        rcases h.tree.linked.findBottomTask_cases tid with
          ⟨hnone, -⟩ | ⟨task, htask, -, -, hbottom⟩
        · rw [hfind, Option.some.injEq] at hnone
          exact absurd hnone hsome
        · rw [hfind, Option.some.injEq] at htask
          rw [htask]
          exact zero_le_toInt32 hbottom.occupied.1

theorem Secure.started {slot : UInt32} (h : Secure before) (hslot : FirstFree before slot)
    (frame : ExecuteFrame) (command : CString) (fileCheck : Dentry) :
    Secure (executeClaim frame command fileCheck slot before).1 := by
  obtain ⟨start, hplaced, hframe⟩ := h.framed
  have hstarted :=
    (h.tree.chains h.active).executeClaim_started hslot frame command fileCheck
  exact {
    h.toAgree.started h.active hslot hstarted with
    active := by
      rw [hstarted.running]
      exact zero_le_toInt32 hslot.lt
    framed := ⟨start, hplaced, hframe.executeClaim frame command fileCheck slot⟩
    types := hstarted.image ▸ h.types }

theorem Secure.runningEnds {status : UInt8} {exit : Exit} (h : Secure before)
    (hparent : (before.pcbOf before.running).taskIdParent ≠ noTask)
    (hhalt : haltChild status before = some (after, exit)) :
    RunningBelow before (before.links before.running).parent ∧
      Ended status (before.links before.running).parent before after exit := by
  have hsyscall : syscallHalt status before = some (after, exit) := by
    simp only [syscallHalt, if_neg (running_ne_noTask h.active), if_neg hparent]
    exact hhalt
  rcases (h.tree.chains h.active).halt_cases h.active hsyscall with ⟨hnone, -⟩ | hended
  · exact absurd hnone hparent
  · exact hended

theorem Secure.ended {status : UInt8} {exit : Exit} (h : Secure before)
    (hparent : (before.pcbOf before.running).taskIdParent ≠ noTask)
    (hhalt : haltChild status before = some (after, exit)) : Secure after := by
  obtain ⟨start, hplaced, hframe⟩ := h.framed
  obtain ⟨hbelow, hended⟩ := h.runningEnds hparent hhalt
  exact {
    h.toAgree.ended h.active hbelow rfl hended with
    active := by
      rw [hended.running]
      exact zero_le_toInt32 hbelow.occupied.1
    framed := ⟨start, hplaced, hframe.haltChild hhalt⟩
    types := hended.image ▸ h.types }

theorem Secure.kept {mine : Bool} (h : Secure before) (heffect : Effect before after mine) :
    Secure after := by
  cases heffect with
  | quiet _ hquiet => exact h.quiet hquiet
  | switched regs tid switched hswitch hquiet => exact (h.switchDisplay hswitch).quiet hquiet
  | started frame command fileCheck slot hslot hafter =>
      rw [hafter]
      exact h.started hslot frame command fileCheck
  | ended shown status exit hquiet hparent hhalt =>
      exact (h.quiet hquiet).ended (hquiet.running_pcbOf ▸ hparent) hhalt
  | called stores hwrites _ _ _ =>
      exact h.sameTasks hwrites.sameTasks hwrites.image hwrites.displayed
        (userPage_congr hwrites.tables) fun _ hframe => hframe.congr hwrites.tables
  | mapped stores hmapped =>
      rw [hmapped]
      exact h.sameTasks (.of_pcb rfl rfl rfl) rfl rfl
        (userPage_videomemMap videoMemAddr before) fun _ hframe => hframe.map.storeUser stores
  | stored addr phys byte hwalk hstored =>
      rw [hstored]
      exact h.sameTasks (.of_pcb rfl rfl rfl) rfl rfl rfl fun _ hframe =>
        hframe.congr ⟨rfl, rfl, rfl, rfl, rfl⟩

end Kept

theorem Effect.cursors {before after : Kernel} {mine : Bool} (h : Effect before after mine)
    (hcursors : CursorsOnPage before) : CursorsOnPage after := by
  cases h with
  | quiet _ hquiet => exact hquiet.cursors hcursors
  | switched regs tid switched hswitch hquiet =>
      exact hquiet.cursors (hcursors.switchDisplay hswitch)
  | started frame command fileCheck slot hslot hafter =>
      rw [hafter]
      exact hcursors.congr rfl rfl
  | ended shown status exit hquiet hparent hhalt =>
      exact (hquiet.cursors hcursors).haltChild hhalt
  | called stores hwrites hchanges hrate hkept => exact hkept hcursors
  | mapped stores hmapped =>
      rw [hmapped]
      exact hcursors.congr rfl rfl
  | stored addr phys byte hwalk hstored =>
      rw [hstored]
      exact hcursors.congr rfl rfl

theorem Secure.machineStep {event : MachineEvent} {before after : Console}
    (h : Secure before.kernel) (hstep : LinuxOS.machineStep event before = some after) :
    Secure after.kernel :=
  h.kept (h.effect hstep)

/-! ## From boot to a secure state -/

/-- The image and the page tables that the kernel's own steps keep from boot on. -/
structure BootKept (start kernel : Kernel) : Prop where
  image : kernel.fs = start.fs
  frame : PageFrame start kernel

theorem BootKept.congr {start before after : Kernel} (h : BootKept start before)
    (himage : after.fs = before.fs) (htables : SameTables before after) : BootKept start after :=
  ⟨himage.trans h.image, h.frame.congr htables⟩

theorem keptByParts_bootKept (start : Kernel) : KeptByParts (BootKept start) where
  shown _ _ _ _ h := h.congr rfl ⟨rfl, rfl, rfl, rfl, rfl⟩
  counted _ _ _ _ h := h.congr rfl ⟨rfl, rfl, rfl, rfl, rfl⟩
  switched _ _ _ _ h hswitch :=
    ⟨(switchDisplayTerminal_roundKept hswitch).image.trans h.image, h.frame.switchDisplay hswitch⟩
  claimed frame command fileCheck slot _ h :=
    ⟨h.image, h.frame.executeClaim frame command fileCheck slot⟩
  ended _ _ _ _ h hhalt := ⟨(haltChild_kept hhalt).image.trans h.image, h.frame.haltChild hhalt⟩

theorem bootKept_bootKernel (fs : FileSystem) : BootKept (bootKernel fs) (bootKernel fs) where
  image := rfl
  frame := {
    tableAddr := rfl
    videoAddr := rfl
    directory := fun i hi _ _ => by simp only [bootKernel, pagingInit, hi, if_true]
    table := fun i hi => by simp only [bootKernel, pagingInit, hi, if_true]
    userPage := .inl rfl
    videoPage := .inl rfl }

theorem secure_of_run {fs : FileSystem} {events : List Event} {kernel : Kernel}
    (hrun : run step events (bootKernel fs) = some kernel) (htypes : KnownTypes fs)
    (hagree : Agree kernel) (hactive : 0 ≤ kernel.tasksRunning) : Secure kernel := by
  have hkept : BootKept (bootKernel fs) kernel :=
    (keptByParts_bootKept _).run hrun (bootKept_bootKernel fs)
  have himage : kernel.fs = fs := hkept.image
  exact {
    hagree with
    active := hactive
    framed := ⟨_, placed_bootKernel fs, hkept.frame⟩
    types := himage ▸ htypes }

theorem knownTypes_shellImage : KnownTypes shellImage := by
  have hall : (List.range 63).all (fun i =>
      decide ((shellImage.entry (UInt32.ofNat i)).type ≤ 2)) = true := by decide +kernel
  intro i hi
  rw [UInt32.lt_iff_toNat_lt] at hi
  have hentry := List.all_eq_true.mp hall i.toNat (List.mem_range.mpr hi)
  rw [UInt32.ofNat_toNat] at hentry
  exact of_decide_eq_true hentry

theorem image_shellsKernel : shellsKernel.fs = shellImage :=
  ((keptByParts_bootKept _).run run_bootTicks (bootKept_bootKernel shellImage)).image

theorem secure_shellsKernel : Secure shellsKernel :=
  secure_of_run run_bootTicks knownTypes_shellImage agree_shellsKernel (by decide +kernel)

end LinuxOS
