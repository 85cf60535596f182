import LinuxOS.Process.Tree

/-!
# Who is current: the running task, the displayed terminal, the user page

Once the three base shells exist, `tasks_running`, the displayed terminal and
the mapped user page always name the same task.  During boot the mapping can
go wrong, and the last part of the file says exactly when.
-/

namespace LinuxOS

open Foundation

def frameEntry (task : UInt32) : UInt32 := (eightM + fourM * task) ||| 0x87

/-- The three base shells exist and all notions of the current task agree. -/
structure Agree (kernel : Kernel) : Prop where
  shells : ∀ base < 3, Occupied kernel base
  tree : ProcessTree kernel
  bottom : findBottomTask kernel kernel.displayTerminalId.toUInt32 = some kernel.tasksRunning
  userPage : kernel.userPage = frameEntry kernel.running

theorem Agree.isBottom {kernel : Kernel} (h : Agree kernel) (hge : 0 ≤ kernel.tasksRunning) :
    kernel.displayTerminalId.toUInt32 < 3 ∧
      IsBottom kernel kernel.displayTerminalId.toUInt32 kernel.running := by
  rcases h.tree.linked.findBottomTask_cases kernel.displayTerminalId.toUInt32 with
    ⟨hnone, -⟩ | ⟨bottom, hsome, hlt, -, hbottom⟩
  · rw [h.bottom, Option.some.injEq] at hnone
    rw [hnone] at hge
    exact absurd hge (by decide)
  · rw [h.bottom, Option.some.injEq] at hsome
    have hrun : kernel.running = bottom := by simp [Kernel.running, hsome]
    rw [hrun]
    exact ⟨hlt, hbottom⟩

theorem Agree.of_isBottom {kernel : Kernel} (hshells : ∀ base < 3, Occupied kernel base)
    (hchains : Chains kernel) (hdisplay : kernel.displayTerminalId.toUInt32 < 3)
    (hbottom : IsBottom kernel kernel.displayTerminalId.toUInt32 kernel.running)
    (hpage : kernel.userPage = frameEntry kernel.running) : Agree kernel where
  shells := hshells
  tree := hchains.processTree
  bottom := by
    rw [hchains.findBottomTask_eq hdisplay (hshells _ hdisplay) hbottom]
    simp [Kernel.running]
  userPage := hpage

theorem Agree.same {before after : Kernel} (h : Agree before) (hsame : SameTasks before after)
    (hdisplay : after.displayTerminalId = before.displayTerminalId)
    (hpage : after.pageDirectory = before.pageDirectory) : Agree after where
  shells base hlt := (occupied_congr hsame.slots base).mpr (h.shells base hlt)
  tree := h.tree.sameTasks hsame
  bottom := by
    rw [findBottomTask_congr hsame.slots hsame.links, hdisplay, hsame.running]
    exact h.bottom
  userPage := by
    have huser := h.userPage
    simp only [Kernel.userPage, Kernel.running, hpage, hsame.running] at huser ⊢
    exact huser

theorem Agree.started {frame : ExecuteFrame} {slot : UInt32} {before after : Kernel}
    (h : Agree before) (hge : 0 ≤ before.tasksRunning) (hslot : FirstFree before slot)
    (hstarted : Started frame slot before after) : Agree after := by
  have hchains := h.tree.chains hge
  obtain ⟨hdisplay, hbottom⟩ := h.isBottom hge
  have hchild : slot ≥ 3 := by
    by_contra hbase
    exact (h.shells slot (by grind)).2 hslot.free
  have hfree : ¬ Occupied before slot := fun hocc => hocc.2 hslot.free
  have hocc := hstarted.occupied_iff hslot.lt
  have hforest := hstarted.forest_of_child hslot.lt hfree hchild hbottom.occupied
  have hnone := (forest_child_eq_none hbottom.occupied).mpr hbottom.childless
  have hown := hstarted.ownLinks
  refine Agree.of_isBottom ?_ (hchains.started hslot hstarted) ?_ ?_ ?_
  · intro base hlt
    exact (hocc base).mpr (.inr (h.shells base hlt))
  · rw [hstarted.displayed]
    exact hdisplay
  · rw [hstarted.displayed, hstarted.running_eq]
    refine ⟨(hocc slot).mpr (.inl rfl), by rw [hown], ?_⟩
    -- the chain of the displayed terminal goes on to the new task
    rw [hforest]
    exact (Forest.push_above hnone hbottom.above).tail (by simp [Edge, Forest.push])
  · rw [hstarted.userPage, hstarted.running_eq, frameEntry, UInt32.mul_comm]

theorem Agree.ended {status : UInt8} {parent : UInt32} {before after : Kernel} {exit : Exit}
    (h : Agree before) (hge : 0 ≤ before.tasksRunning) (hbelow : RunningBelow before parent)
    (hparent : (before.links before.running).parent = parent)
    (hended : Ended status parent before after exit) : Agree after := by
  have hchains := h.tree.chains hge
  obtain ⟨hdisplay, hbottom⟩ := h.isBottom hge
  have hocc := hended.occupied_iff
  have hbase : ∀ base < 3, base ≠ before.running := by
    rintro base hlt rfl
    rw [h.tree.start _ hlt hbelow.runningOccupied] at hparent
    exact hbelow.occupied.ne_noTask hparent.symm
  have hlink : (forest before).child parent = some before.running :=
    forest_child_eq_some.mpr
      ⟨hbelow.occupied, hbelow.child, hbelow.runningOccupied.ne_noTask⟩
  have hnone := (forest_child_eq_none hbelow.runningOccupied).mpr hbelow.childless
  -- the chain of the displayed terminal reaches the running task through its parent
  have habove : (forest before).Above before.displayTerminalId.toUInt32 parent := by
    rcases Relation.ReflTransGen.cases_tail hbottom.above with heq | ⟨upper, hpath, hedge⟩
    · exact absurd heq.symm (hbase _ hdisplay)
    · rwa [hchains.wellFormed.parent_unique hedge hlink] at hpath
  refine Agree.of_isBottom ?_ (hchains.ended hbelow hended) ?_ ?_ ?_
  · intro base hlt
    exact (hocc base).mpr ⟨h.shells base hlt, hbase base hlt⟩
  · rw [hended.displayed]
    exact hdisplay
  · rw [hended.displayed, hended.running_eq]
    refine ⟨(hocc parent).mpr ⟨hbelow.occupied, hbelow.ne⟩, ?_, ?_⟩
    · rw [hended.links_of_ne hbelow.occupied.1 hbelow.ne, if_pos rfl]
    · rw [hended.forest_eq hbelow]
      exact Forest.pop_above hlink hnone habove hbelow.ne
  · rw [hended.userPage, hended.running_eq, frameEntry, UInt32.mul_comm]

theorem Agree.switchDisplay {regs : SwitchRegs} {tid : UInt32} {before after : Kernel}
    (h : Agree before) (hswitch : switchDisplayTerminal regs tid before = some after) :
    Agree after := by
  rcases switchDisplayTerminal_cases hswitch with ⟨-, rfl⟩ | ⟨hmove, bottom, hfind, hswitched⟩
  · exact h
  · have hlt : tid < 3 := by grind
    have hocc := h.shells tid hlt
    rcases h.tree.linked.findBottomTask_cases tid with
      ⟨-, hfree⟩ | ⟨task, hsome, -, -, htask⟩
    · exact absurd ⟨hlt, hocc⟩ hfree
    · rw [hfind, Option.some.injEq] at hsome
      subst hsome
      have hne := toInt32_ne_neg_one htask.occupied.1
      have hrunning := hswitched.running
      rw [if_neg hne] at hrunning
      have hlinked := h.tree.linked.of_same hswitched.slots hswitched.links
      refine {
        shells := fun base hbase =>
          (occupied_congr hswitched.slots base).mpr (h.shells base hbase)
        tree := hlinked.processTree fun _ => ?_
        bottom := ?_
        userPage := ?_ }
      · rw [Kernel.running, hrunning, occupied_congr hswitched.slots, hswitched.links]
        simpa using ⟨htask.occupied, htask.childless⟩
      · rw [findBottomTask_congr hswitched.slots hswitched.links, hswitched.displayed, hrunning]
        simpa using hfind
      · rw [hswitched.userPage, Kernel.running, hrunning, frameEntry]

theorem Agree.screenOnly {before after : Kernel} (h : Agree before)
    (hscreen : ScreenOnly before after) : Agree after := by
  obtain ⟨text, rfl⟩ := hscreen
  exact h.same (.of_pcb rfl rfl rfl) rfl rfl

theorem Agree.execute {frame : ExecuteFrame} {command : CString} {before after : Kernel}
    {exit : Exit} (h : Agree before) (hge : 0 ≤ before.tasksRunning)
    (hexecute : syscallExecute frame command before = (after, exit)) : Agree after := by
  rcases syscallExecute_cases hexecute with
    ⟨-, hscreen⟩ | ⟨slot, fileCheck, eip, hslot, -, rfl⟩
  · exact h.screenOnly hscreen
  · exact h.started hge hslot
      ((h.tree.chains hge).executeClaim_started hslot frame command fileCheck)

theorem Agree.halt {status : UInt8} {before after : Kernel} {exit : Exit} (h : Agree before)
    (hge : 0 ≤ before.tasksRunning) (hhalt : syscallHalt status before = some (after, exit)) :
    Agree after := by
  rcases (h.tree.chains hge).halt_cases hge hhalt with
    ⟨-, ⟨text, rfl⟩, -⟩ | ⟨hbelow, hended⟩
  · exact h.same (.of_pcb rfl rfl rfl) rfl rfl
  · exact h.ended hge hbelow rfl hended

theorem Agree.exception {message : String} {before after : Kernel} {exit : Exit}
    (h : Agree before) (hge : 0 ≤ before.tasksRunning)
    (hexception : handleException message before = some (after, exit)) : Agree after := by
  rcases handleException_cases hexception with ⟨-, hscreen, -⟩ | ⟨-, text, hhalt⟩
  · exact h.screenOnly hscreen
  · have hshown : Agree { before with
        screen := puts text before.screen, exceptionDeath := 1 } :=
      h.same (.of_pcb rfl rfl rfl) rfl rfl
    exact hshown.halt hge hhalt

theorem Agree.scheduler {frame : TickFrame} {tNum : UInt32} {before after : Kernel}
    {exit : Exit} (h : Agree before)
    (htick : scheduler frame tNum before = some (after, exit)) : Agree after := by
  rcases scheduler_cases htick with
    ⟨-, rfl, -⟩ | ⟨hlt, booted, terminal, active, hboot, hactive, hrest⟩
  · exact h
  · have hbooted : Agree booted ∧ terminal < 3 := by
      rcases bootSwitchBack_cases hboot with ⟨-, rfl, rfl⟩ | ⟨-, rfl, switched, hswitch, rfl⟩
      · exact ⟨h, hlt⟩
      · exact ⟨(h.switchDisplay hswitch).same (.of_pcb rfl rfl rfl) rfl rfl, by decide⟩
    rcases hrest with ⟨-, rfl, -⟩ | ⟨hnone, -⟩
    · exact hbooted.1.same (.of_pcb rfl rfl rfl) rfl rfl
    · have hfree := (hbooted.1.tree.linked.bottom_eq_neg_one_iff hbooted.2 hactive).mp hnone
      exact absurd (hbooted.1.shells terminal hbooted.2) hfree

theorem Agree.step {event : Event} {before after : Kernel} (h : Agree before)
    (hstep : step event before = some after) : Agree after := by
  obtain ⟨exit, hperform⟩ := step_eq_some.mp hstep
  cases performed hperform with
  | tick hpit =>
      obtain ⟨ticked, counter, htick, rfl⟩ := pitHandler_cases hpit
      exact (h.scheduler htick).same (.of_pcb rfl rfl rfl) rfl rfl
  | schedule htick => exact h.scheduler htick
  | chord hswitch => exact h.switchDisplay hswitch
  | execute hge hexecute => exact h.execute hge hexecute
  | halt hge hhalt => exact h.halt hge hhalt
  | exception hge hexception => exact h.exception hge hexception

theorem agree_run {events : List Event} {start final : Kernel}
    (hrun : run LinuxOS.step events start = some final) (hstart : Agree start) : Agree final :=
  run_invariant (fun _ _ _ h hstep => Agree.step h hstep) hrun hstart

theorem agree_shellsKernel : Agree shellsKernel where
  shells base hlt := by
    have hcases : base = 0 ∨ base = 1 ∨ base = 2 := by grind
    rcases hcases with rfl | rfl | rfl <;> decide +kernel
  tree := (chains_of_run run_bootTicks (boot_bootKernel shellImage).toNoTasks).processTree
  bottom := by decide +kernel
  userPage := by decide +kernel

/--
The agreement is kept by every run, so that the displayed terminal is always
the one whose shell is an ancestor of the running task.  Switches of the
display and timer ticks always come back.
-/
theorem agree_of_run {events : List Event} {start final : Kernel}
    (hrun : run step events start = some final) (hstart : Agree start) :
    Agree final ∧
      (0 ≤ final.tasksRunning → final.displayTerminalId.toUInt32 < 3 ∧
        (forest final).Above final.displayTerminalId.toUInt32 final.running) ∧
      (∀ regs tid, ∃ after, switchDisplayTerminal regs tid final = some after) ∧
      ∀ frame tNum, ∃ result, scheduler frame tNum final = some result := by
  have hagree := agree_run hrun hstart
  refine ⟨hagree, fun hge => ?_, fun regs tid => ?_, fun frame tNum => ?_⟩
  · obtain ⟨hdisplay, hbottom⟩ := hagree.isBottom hge
    exact ⟨hdisplay, hbottom.above⟩
  · obtain ⟨after, hswitch, -⟩ := hagree.tree.linked.exists_switchDisplay regs tid
    exact ⟨after, hswitch⟩
  · exact hagree.tree.linked.exists_scheduler frame tNum

theorem agree_of_run_shells :
    ∃ final, run step [.execute default shellName, .chord default 1, .execute default shellName,
        .chord default 0, .halt 7] shellsKernel = some final ∧ Agree final ∧
      (forest final).Above final.displayTerminalId.toUInt32 final.running := by
  have hany : (run step [.execute default shellName, .chord default 1,
      .execute default shellName, .chord default 0, .halt 7] shellsKernel).any
      (fun final => decide (0 ≤ final.tasksRunning)) = true := by decide +kernel
  obtain ⟨final, hrun, hge⟩ := (Option.any_eq_true _ _).mp hany
  obtain ⟨hagree, habove, -⟩ := agree_of_run hrun agree_shellsKernel
  exact ⟨final, hrun, hagree, (habove (of_decide_eq_true hge)).2⟩

/-! ## The user page from boot on -/

def Mapped (kernel : Kernel) : Prop :=
  0 ≤ kernel.tasksRunning → kernel.userPage = frameEntry kernel.running

/--
The display is not switched to a terminal without a task while a task runs:
`switch_display_terminal` maps the frame of `find_bottom_task(tid)` without the
test for `-1` that `switch_running_task` makes.
-/
def SwitchSafe (kernel : Kernel) (tid : UInt32) : Prop :=
  tid > 2 ∨ kernel.displayTerminalId.toUInt32 = tid ∨ kernel.taskSlots tid ≠ 0 ∨
    kernel.tasksRunning < 0

def ShellRuns (frame : ExecuteFrame) (fs : FileSystem) : Prop :=
  ∃ fileCheck, executeCheck frame shellName fs = .ok fileCheck

def tickTerminal (tNum : UInt32) (kernel : Kernel) : UInt32 :=
  if kernel.bootupFlag ≠ 0 then 0 else tNum

def TickSafe (frame : TickFrame) (tNum : UInt32) (kernel : Kernel) : Prop :=
  tNum ≥ 3 ∨ SwitchSafe kernel (tickTerminal tNum kernel) ∨ ShellRuns frame.execute kernel.fs

def KeepsMapping (kernel : Kernel) : Event → Prop
  | .tick frame => TickSafe frame (UInt32.ofInt kernel.pitCounter) kernel
  | .schedule frame tNum => TickSafe frame tNum kernel
  | .chord _ tid => SwitchSafe kernel tid
  | _ => True

theorem mapped_congr {before after : Kernel} (hrunning : after.tasksRunning = before.tasksRunning)
    (hpage : after.pageDirectory = before.pageDirectory) : Mapped after ↔ Mapped before := by
  simp only [Mapped, Kernel.userPage, Kernel.running, hrunning, hpage]

theorem frameEntry_noTask_ne {task : UInt32} (h : task < 6) :
    frameEntry noTask ≠ frameEntry task := by
  have hcases : task = 0 ∨ task = 1 ∨ task = 2 ∨ task = 3 ∨ task = 4 ∨ task = 5 := by grind
  rcases hcases with rfl | rfl | rfl | rfl | rfl | rfl <;> decide

theorem Started.mapped {frame : ExecuteFrame} {slot : UInt32} {before after : Kernel}
    (h : Started frame slot before after) : Mapped after := by
  intro _
  rw [h.userPage, h.running_eq, frameEntry, UInt32.mul_comm]

theorem Ended.mapped {status : UInt8} {parent : UInt32} {before after : Kernel} {exit : Exit}
    (h : Ended status parent before after exit) : Mapped after := by
  intro _
  rw [h.userPage, h.running_eq, frameEntry, UInt32.mul_comm]

theorem mapped_switchDisplay_iff {regs : SwitchRegs} {tid : UInt32} {before after : Kernel}
    (h : Chains before) (hmapped : Mapped before)
    (hswitch : switchDisplayTerminal regs tid before = some after) :
    Mapped after ↔ SwitchSafe before tid := by
  rcases switchDisplayTerminal_cases hswitch with
    ⟨hstay, rfl⟩ | ⟨hmove, bottom, hbottom, hswitched⟩
  · refine iff_of_true hmapped ?_
    rcases hstay with hdisplayed | hinvalid
    · exact .inr (.inl hdisplayed)
    · exact .inl hinvalid
  · rw [not_or] at hmove
    have hrunning := hswitched.running
    rcases h.findBottomTask_cases tid with ⟨hnone, hfree⟩ | ⟨task, hsome, -, hocc, htask⟩
    · rw [hbottom, Option.some.injEq] at hnone
      subst hnone
      rw [if_pos rfl] at hrunning
      have hslot : before.taskSlots tid = 0 := by
        by_contra hused
        exact hfree ⟨by grind, by grind, hused⟩
      have hrun : after.running = before.running := by simp [Kernel.running, hrunning]
      have hpage : after.userPage = frameEntry noTask := hswitched.userPage
      constructor
      · intro hafter
        by_contra hunsafe
        simp only [SwitchSafe, hslot, not_or, Int32.not_lt] at hunsafe
        have hown := hafter (hrunning ▸ hunsafe.2.2.2)
        rw [hpage, hrun] at hown
        exact frameEntry_noTask_ne (h.running hunsafe.2.2.2).1.1 hown
      · rintro (hinvalid | hdisplayed | hused | hidle) hge
        · exact absurd hinvalid hmove.2
        · exact absurd hdisplayed hmove.1
        · exact absurd hslot hused
        · rw [hrunning] at hge
          exact absurd hge (Int32.not_le.mpr hidle)
    · rw [hbottom, Option.some.injEq] at hsome
      subst hsome
      rw [if_neg (toInt32_ne_neg_one htask.occupied.1)] at hrunning
      refine iff_of_true (fun _ => ?_) (.inr (.inr (.inl hocc.2)))
      rw [hswitched.userPage, Kernel.running, hrunning, frameEntry]

theorem switchDisplayTerminal_kept {regs : SwitchRegs} {tid : UInt32} {before after : Kernel}
    (hswitch : switchDisplayTerminal regs tid before = some after) :
    after.fs = before.fs ∧ after.taskSlots = before.taskSlots := by
  rcases switchDisplayTerminal_cases hswitch with ⟨-, rfl⟩ | ⟨-, bottom, -, hswitched⟩
  · exact ⟨rfl, rfl⟩
  · exact ⟨hswitched.image, hswitched.slots⟩

theorem switchDisplayTerminal_displayed {regs : SwitchRegs} {tid : UInt32}
    {before after : Kernel} (hlt : tid < 3)
    (hswitch : switchDisplayTerminal regs tid before = some after) :
    after.displayTerminalId.toUInt32 = tid := by
  rcases switchDisplayTerminal_cases hswitch with
    ⟨hdisplayed | hinvalid, rfl⟩ | ⟨-, bottom, -, hswitched⟩
  · exact hdisplayed
  · grind
  · simp [hswitched.displayed]

theorem mapped_spawn_iff {frame : ExecuteFrame} {before after : Kernel} {exit : Exit}
    (h : Chains before) {slot : UInt32} (hlt : slot < 6) (hfree : before.taskSlots slot = 0)
    (hexecute : syscallExecute frame shellName before = (after, exit)) :
    Mapped after ↔ Mapped before ∨ ShellRuns frame before.fs := by
  cases hcheck : executeCheck frame shellName before.fs with
  | error value =>
      rw [syscallExecute_of_error hcheck] at hexecute
      cases hexecute
      simp [ShellRuns, hcheck]
  | ok fileCheck =>
      rcases syscallExecute_of_ok hcheck with ⟨hall, -⟩ | ⟨fresh, hfresh, heq⟩
      · exact absurd hfree (hall slot hlt)
      · rw [heq] at hexecute
        cases hexecute
        exact iff_of_true (h.executeClaim_started hfresh frame shellName fileCheck).mapped
          (.inr ⟨fileCheck, hcheck⟩)

theorem mapped_bootSwitchBack {regs : SwitchRegs} {tNum terminal : UInt32}
    {before booted : Kernel} (h : Chains before) (hmapped : Mapped before) (hlt : tNum < 3)
    (hboot : bootSwitchBack regs tNum before = some (booted, terminal)) :
    Chains booted ∧ booted.taskSlots = before.taskSlots ∧ booted.fs = before.fs ∧
      terminal = tickTerminal tNum before ∧ terminal < 3 ∧
      (before.bootupFlag = 0 ∧ booted = before ∨
        booted.displayTerminalId.toUInt32 = terminal ∧
          (Mapped booted ↔ SwitchSafe before terminal)) := by
  rcases bootSwitchBack_cases hboot with ⟨hflag, rfl, rfl⟩ | ⟨hflag, rfl, switched, hswitch, rfl⟩
  · exact ⟨h, rfl, rfl, by simp [tickTerminal, hflag], hlt, .inl ⟨hflag, rfl⟩⟩
  · obtain ⟨hfs, hslots⟩ := switchDisplayTerminal_kept hswitch
    refine ⟨(h.switchDisplay hswitch).sameTasks (.of_pcb rfl rfl rfl), hslots, hfs,
      by simp [tickTerminal, hflag], by decide, .inr ?_⟩
    have hdisplayed : switched.displayTerminalId.toUInt32 = 0 :=
      switchDisplayTerminal_displayed (by decide) hswitch
    have hflag : Mapped { switched with bootupFlag := 0 } ↔ Mapped switched :=
      mapped_congr rfl rfl
    exact ⟨hdisplayed, hflag.trans (mapped_switchDisplay_iff h hmapped hswitch)⟩

theorem mapped_spawnTick_iff {regs : SwitchRegs} {frame : ExecuteFrame} {terminal : UInt32}
    {observed switched after : Kernel} {exit : Exit} (h : Chains observed) (hlt : terminal < 6)
    (hfree : observed.taskSlots terminal = 0)
    (hswitch : switchDisplayTerminal regs terminal observed = some switched)
    (hexecute : syscallExecute frame shellName switched = (after, exit)) :
    Mapped after ↔ Mapped switched ∨ ShellRuns frame observed.fs := by
  obtain ⟨hfs, hslots⟩ := switchDisplayTerminal_kept hswitch
  have hfree' : switched.taskSlots terminal = 0 := by rw [hslots, hfree]
  rw [mapped_spawn_iff (h.switchDisplay hswitch) hlt hfree' hexecute, hfs]

theorem mapped_switched_iff {regs : SwitchRegs} {terminal : UInt32}
    {before booted observed switched : Kernel} (h : Chains observed) (hmapped : Mapped before)
    (hsame : SameTasks booted observed) (hpage : Mapped observed ↔ Mapped booted)
    (hdisplay : observed.displayTerminalId = booted.displayTerminalId)
    (hmapping : before.bootupFlag = 0 ∧ booted = before ∨
      booted.displayTerminalId.toUInt32 = terminal ∧ (Mapped booted ↔ SwitchSafe before terminal))
    (hswitch : switchDisplayTerminal regs terminal observed = some switched) :
    Mapped switched ↔ SwitchSafe before terminal := by
  rcases hmapping with ⟨-, rfl⟩ | ⟨hdisplayed, hiff⟩
  · rw [mapped_switchDisplay_iff h (hpage.mpr hmapped) hswitch, SwitchSafe, SwitchSafe, hdisplay,
      hsame.slots, hsame.running]
  · -- the terminal is displayed already, so that the second switch does nothing
    rw [← hdisplay] at hdisplayed
    rw [switchDisplayTerminal_of_stay (.inl hdisplayed), Option.some.injEq] at hswitch
    rw [← hswitch, ← hiff]
    exact hpage

theorem mapped_scheduler_iff {frame : TickFrame} {tNum : UInt32} {before after : Kernel}
    {exit : Exit} (h : Chains before) (hmapped : Mapped before)
    (htick : scheduler frame tNum before = some (after, exit)) :
    Mapped after ↔ TickSafe frame tNum before := by
  rcases scheduler_cases htick with
    ⟨hge, rfl, -⟩ | ⟨hlt, booted, terminal, active, hboot, hactive, hrest⟩
  · exact iff_of_true hmapped (.inl hge)
  · obtain ⟨hchains, hslots, hfs, hterminal, hterminalLt, hmapping⟩ :=
      mapped_bootSwitchBack h hmapped hlt hboot
    have hsafe : TickSafe frame tNum before ↔
        SwitchSafe before terminal ∨ ShellRuns frame.execute before.fs := by
      simp only [TickSafe, ← hterminal]
      grind
    have hbottom := hchains.bottom_eq_neg_one_iff hterminalLt hactive
    rw [hsafe]
    rcases hrest with ⟨hsome, rfl, -⟩ | ⟨hnone, switched, hswitch, hexecute⟩
    · -- the terminal has a task, and no switch to it can be unsafe
      have hocc : Occupied booted terminal := not_not.mp (mt hbottom.mpr hsome)
      have hswitchSafe : SwitchSafe before terminal := .inr (.inr (.inl (hslots ▸ hocc.2)))
      refine iff_of_true ?_ (.inl hswitchSafe)
      rcases hmapping with ⟨-, rfl⟩ | ⟨-, hiff⟩
      · exact (mapped_congr rfl rfl).mpr hmapped
      · exact (mapped_congr rfl rfl).mpr (hiff.mpr hswitchSafe)
    · have hsix : terminal < 6 := by grind
      have hfree : booted.taskSlots terminal = 0 := by
        by_contra hused
        exact hbottom.mp hnone ⟨hsix, hused⟩
      obtain ⟨observed, hobserved⟩ : ∃ observed : Kernel, observed = { booted with
          activeProcess := active
          bootupFlag := if terminal = 2 then 1 else booted.bootupFlag } := ⟨_, rfl⟩
      rw [← hobserved] at hswitch
      have hsame : SameTasks booted observed := by
        rw [hobserved]
        exact .of_pcb rfl rfl rfl
      have hpage : Mapped observed ↔ Mapped booted := by
        rw [hobserved]
        exact mapped_congr rfl rfl
      have hfsObserved : observed.fs = before.fs := by rw [hobserved, ← hfs]
      have hchained := hchains.sameTasks hsame
      rw [mapped_spawnTick_iff hchained hsix (hsame.slots ▸ hfree) hswitch hexecute, hfsObserved]
      exact or_congr_left (mapped_switched_iff hchained hmapped hsame hpage (by rw [hobserved])
        hmapping hswitch)

theorem mapped_halt {status : UInt8} {before after : Kernel} {exit : Exit} (h : Chains before)
    (hge : 0 ≤ before.tasksRunning) (hmapped : Mapped before)
    (hhalt : syscallHalt status before = some (after, exit)) : Mapped after := by
  rcases h.halt_cases hge hhalt with ⟨-, ⟨text, hafter⟩, -⟩ | ⟨-, hended⟩
  · have hsame : Mapped after ↔ Mapped before := by
      rw [hafter]
      exact mapped_congr rfl rfl
    exact hsame.mpr hmapped
  · exact hended.mapped

theorem mapped_step_iff {event : Event} {before after : Kernel} (h : Chains before)
    (hmapped : Mapped before) (hstep : step event before = some after) :
    Mapped after ↔ KeepsMapping before event := by
  obtain ⟨exit, hperform⟩ := step_eq_some.mp hstep
  cases performed hperform with
  | tick hpit =>
      obtain ⟨ticked, counter, htick, rfl⟩ := pitHandler_cases hpit
      have hcounted : Mapped { ticked with pitCounter := counter } ↔ Mapped ticked :=
        mapped_congr rfl rfl
      exact hcounted.trans (mapped_scheduler_iff h hmapped htick)
  | schedule htick => exact mapped_scheduler_iff h hmapped htick
  | chord hswitch => exact mapped_switchDisplay_iff h hmapped hswitch
  | execute hge hexecute =>
      refine iff_of_true ?_ trivial
      rcases syscallExecute_cases hexecute with
        ⟨-, text, rfl⟩ | ⟨slot, fileCheck, eip, hslot, -, rfl⟩
      · exact (mapped_congr rfl rfl).mpr hmapped
      · exact (h.executeClaim_started hslot _ _ fileCheck).mapped
  | halt hge hhalt =>
      refine iff_of_true ?_ trivial
      exact mapped_halt h hge hmapped hhalt
  | exception hge hexception =>
      refine iff_of_true ?_ trivial
      rcases h.exception_cases hge hexception with
        ⟨-, ⟨text, rfl⟩, -⟩ | ⟨-, shown, text, rfl, -, hshown, hgeShown, hhalt⟩
      · exact (mapped_congr rfl rfl).mpr hmapped
      · exact mapped_halt hshown hgeShown hmapped hhalt

/--
In a run from boot the user page is always the running task's own frame
exactly when no step switches the display to a terminal without a task while a
task runs, unless it also starts a shell there.
-/
theorem mapped_iff_keepsMapping {events : List Event} {start final : Kernel}
    (hrun : run step events start = some final) (hstart : Boot start) :
    (∀ visited ∈ statesAlong step events start, Mapped visited) ↔
      ∀ taken ∈ stepsAlong step events start, KeepsMapping taken.1 taken.2 := by
  have hmapped : Mapped start := by
    intro hge
    rw [hstart.noneRunning] at hge
    exact absurd hge (by decide)
  exact forall_safe_iff_of_step_iff (fun _ _ _ h hstep => Chains.step h hstep)
    (fun _ _ _ h hsafe hstep => mapped_step_iff h hsafe hstep) hrun
    hstart.toNoTasks.chains hmapped

theorem mapped_iff_keepsMapping_bootTicks :
    (∀ visited ∈ statesAlong step bootTicks (bootKernel shellImage), Mapped visited) ↔
      ∀ taken ∈ stepsAlong step bootTicks (bootKernel shellImage),
        KeepsMapping taken.1 taken.2 :=
  mapped_iff_keepsMapping run_bootTicks (boot_bootKernel shellImage)

/-- Alt+F2 between the first and the second shell maps the kernel's frame. -/
theorem not_mapped_of_early_chord :
    ∃ final, run step [.tick default, .chord default 1] (bootKernel shellImage) = some final ∧
      final.tasksRunning = 0 ∧ final.userPage = 0x400087 ∧ ¬ Mapped final := by
  have hany : (run step [.tick default, .chord default 1] (bootKernel shellImage)).any
      (fun final => final.tasksRunning = 0 && final.userPage = 0x400087 &&
        final.userPage ≠ frameEntry final.running) = true := by decide
  obtain ⟨final, hrun, hfinal⟩ := (Option.any_eq_true _ _).mp hany
  simp only [Bool.and_eq_true, decide_eq_true_eq] at hfinal
  obtain ⟨⟨hrunning, hpage⟩, hne⟩ := hfinal
  exact ⟨final, hrun, hrunning, hpage, fun hmapped => hne (hmapped (by rw [hrunning]; decide))⟩

end LinuxOS
