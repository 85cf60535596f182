import LinuxOS.Process.Programs

/-!
# The video page and the task that asked for it

One entry of the page directory stands for the video pages of all tasks.
`vidmap` sets it, the halt of a program with a parent clears it, and starting a
program, restarting a base shell and switching the terminal leave it alone.
-/

namespace LinuxOS

open Foundation

def videoMapped (kernel : Kernel) : Bool :=
  entryPresent (kernel.pageDirectory (mem148MB / fourM))

/-- The running task has the video page exactly when it asked for it itself. -/
def OwnMapping (state : Programs) : Prop :=
  videoMapped state.kernel = state.called state.kernel.running

theorem ownMapping_iff {kernel : Kernel} {called : UInt32 → Bool} {task : UInt32}
    (hrunning : kernel.running = task) :
    OwnMapping ⟨kernel, called⟩ ↔ videoMapped kernel = called task := by
  rw [← hrunning]
  exact Iff.rfl

/-! ## The condition -/

def Starts (frame : ExecuteFrame) (command : CString) (kernel : Kernel) : Prop :=
  (∃ fileCheck, executeCheck frame command kernel.fs = .ok fileCheck) ∧
    ∃ slot < 6, kernel.taskSlots slot = 0

/-- The task whose code runs after a halt: the parent, or the restarted base shell. -/
def haltsTo (kernel : Kernel) : UInt32 :=
  if (kernel.links kernel.running).parent = noTask then kernel.running
  else (kernel.links kernel.running).parent

/-- The task that a switch of the display lets run has called `vidmap` as the running one has. -/
def SwitchAgrees (state : Programs) (tid : UInt32) : Prop :=
  state.kernel.displayTerminalId.toUInt32 = tid ∨ tid > 2 ∨
    ∀ bottom ∈ findBottomTask state.kernel tid,
      state.called bottom.toUInt32 = state.called state.kernel.running

/-- The step hands the processor to a task that the entry is right for. -/
def HandsOverRight (state : Programs) : ProgramEvent → Prop
  | .kernel (.execute frame command) =>
      Starts frame command state.kernel → state.called state.kernel.running = false
  | .kernel (.halt _) => state.called (haltsTo state.kernel) = false
  | .kernel (.exception _) =>
      state.kernel.running = 0 ∨ state.called (haltsTo state.kernel) = false
  | .kernel (.chord _ tid) => SwitchAgrees state tid
  | .kernel (.tick _) =>
      UInt32.ofInt state.kernel.pitCounter ≥ 3 ∨ state.kernel.bootupFlag = 0 ∨
        SwitchAgrees state 0
  | .kernel (.schedule _ tNum) =>
      tNum ≥ 3 ∨ state.kernel.bootupFlag = 0 ∨ SwitchAgrees state 0
  | .call _ => True
  | .vidmap _ => True

/-! ## What the paths do to the entry -/

theorem videoMapped_congr {before after : Kernel}
    (h : after.pageDirectory = before.pageDirectory) : videoMapped after = videoMapped before := by
  rw [videoMapped, videoMapped, h]

theorem videoMapped_syscallPagingSetup (addr : UInt32) (kernel : Kernel) :
    videoMapped (syscallPagingSetup addr kernel) = videoMapped kernel := by
  simp [videoMapped, syscallPagingSetup, virtualMem_div_fourM, mem148MB_div_fourM]

theorem videoMapped_executeClaim (frame : ExecuteFrame) (command : CString)
    (fileCheck : Dentry) (slot : UInt32) (kernel : Kernel) :
    videoMapped (executeClaim frame command fileCheck slot kernel).1 = videoMapped kernel :=
  videoMapped_syscallPagingSetup (eightM + slot * fourM) kernel

theorem videoMapped_unmapVideo (kernel : Kernel) : videoMapped (unmapVideo kernel) = false := by
  unfold unmapVideo
  split
  · have hentry : (videomemUnmap mem148MB kernel).pageDirectory (mem148MB / fourM) = 0x2 := by
      simp [videomemUnmap]
    rw [videoMapped, hentry]
    decide
  · next habsent =>
      have hzero := not_not.mp habsent
      simp [videoMapped, entryPresent, hasFlag, hzero]

theorem videoMapped_videomemMap (kernel : Kernel) :
    videoMapped (videomemMap mem148MB videoMemAddr kernel) = true := by
  have hentry : (videomemMap mem148MB videoMemAddr kernel).pageDirectory (mem148MB / fourM) =
      kernel.videoPageAddr ||| 0x7 := by simp [videomemMap]
  rw [videoMapped, hentry, entryPresent, hasFlag_or]
  exact Bool.or_eq_true_iff.mpr (.inr (by decide))

theorem tasksRunning_unmapVideo (kernel : Kernel) :
    (unmapVideo kernel).tasksRunning = kernel.tasksRunning := by
  unfold unmapVideo
  split <;> rfl

theorem running_restoreParent (kernel : Kernel) :
    (restoreParent kernel).running = kernel.running := by
  rw [restoreParent, Kernel.running, tasksRunning_unmapVideo]
  rfl

theorem videoMapped_haltChild {status : UInt8} {kernel after : Kernel} {exit : Exit}
    (h : haltChild status kernel = some (after, exit)) : videoMapped after = false := by
  obtain ⟨closed, hclosed, hreleased⟩ := Option.map_eq_some_iff.mp h
  rw [← running_restoreParent kernel] at hclosed
  obtain ⟨fds, rfl⟩ := closeRelevantFds_withFds hclosed
  have hafter : after.pageDirectory = (restoreParent kernel).pageDirectory := by
    rw [releaseTask, Prod.mk.injEq] at hreleased
    rw [← hreleased.1]
    rfl
  rw [videoMapped_congr hafter]
  exact videoMapped_unmapVideo _

theorem videoMapped_switchDisplay {regs : SwitchRegs} {tid : UInt32} {before after : Kernel}
    (h : switchDisplayTerminal regs tid before = some after) :
    videoMapped after = videoMapped before := by
  simp only [switchDisplayTerminal] at h
  split at h
  · cases h
    rfl
  · obtain ⟨bottom, hbottom, h⟩ := Option.bind_eq_some_iff.mp h
    obtain ⟨⟨switched, result⟩, hswitch, h⟩ := Option.bind_eq_some_iff.mp h
    obtain ⟨task, -, hmoved⟩ := Option.map_eq_some_iff.mp hswitch
    have hpages : switched.pageDirectory =
        (syscallPagingSetup (eightM + fourM * bottom.toUInt32) before).pageDirectory := by
      split at hmoved <;> cases hmoved <;> rfl
    cases h
    have hsaved := videoMapped_congr hpages
    rw [videoMapped_syscallPagingSetup] at hsaved
    exact hsaved

/-! ## One step -/

theorem ownMapping_execute_iff {frame : ExecuteFrame} {command : CString} {before : Programs}
    {kernel : Kernel} {exit : Exit} (hchains : Chains before.kernel) (hown : OwnMapping before)
    (hexecute : syscallExecute frame command before.kernel = (kernel, exit)) :
    OwnMapping ⟨kernel, recordExit exit before.kernel.running kernel.running before.called⟩ ↔
      HandsOverRight before (.kernel (.execute frame command)) := by
  cases executed hexecute with
  | refused value hcheck hafter hexit =>
      subst hafter hexit
      refine iff_of_true hown ?_
      rintro ⟨⟨fileCheck, hok⟩, -⟩
      rw [hcheck] at hok
      cases hok
  | full fileCheck hcheck hall hscreen hexit =>
      obtain ⟨text, rfl⟩ := hscreen
      subst hexit
      refine iff_of_true hown ?_
      rintro ⟨-, slot, hlt, hfree⟩
      exact absurd hfree (hall slot hlt)
  | started fileCheck slot hcheck hslot hafter hexit =>
      subst hafter hexit
      have hstarted := hchains.executeClaim_started hslot frame command fileCheck
      have hstarts : Starts frame command before.kernel :=
        ⟨⟨fileCheck, hcheck⟩, slot, hslot.lt, hslot.free⟩
      have hrun := hstarted.running_eq
      have hhands : HandsOverRight before (.kernel (.execute frame command)) ↔
          before.called before.kernel.running = false :=
        ⟨fun h => h hstarts, fun h _ => h⟩
      have hkept : videoMapped before.kernel = before.called before.kernel.running := hown
      rw [hhands, ownMapping_iff hrun, recordExit, hrun, Function.update_self,
        videoMapped_executeClaim, hkept]

theorem ownMapping_halt_iff {status : UInt8} {before : Programs} {kernel : Kernel} {exit : Exit}
    (hchains : Chains before.kernel) (hge : 0 ≤ before.kernel.tasksRunning)
    (hown : OwnMapping before)
    (hhalt : syscallHalt status before.kernel = some (kernel, exit)) :
    OwnMapping ⟨kernel, recordExit exit before.kernel.running kernel.running before.called⟩ ↔
      before.called (haltsTo before.kernel) = false := by
  have hkept : videoMapped before.kernel = before.called before.kernel.running := hown
  rcases syscallHalt_cases hhalt with ⟨hbase, ⟨text, hkernel⟩, rfl⟩ | ⟨hchild, hended⟩
  · have hto : haltsTo before.kernel = before.kernel.running := if_pos hbase
    have hrun : kernel.running = before.kernel.running := by simp only [Kernel.running, hkernel]
    have hvideo : videoMapped kernel = videoMapped before.kernel :=
      videoMapped_congr (by rw [hkernel])
    rw [hto, ownMapping_iff hrun, recordExit, Function.update_self, hvideo, hkept]
  · have hto : haltsTo before.kernel = (before.kernel.links before.kernel.running).parent :=
      if_neg hchild
    have hgone := videoMapped_haltChild hended
    rcases hchains.halt_cases hge hhalt with ⟨hbase, -⟩ | ⟨hbelow, hended⟩
    · exact absurd hbase hchild
    · rw [hto, ownMapping_iff hended.running_eq, hended.exit, recordExit,
        Function.update_of_ne hbelow.ne, hgone]
      exact eq_comm

theorem ownMapping_exception_iff {message : String} {before : Programs} {kernel : Kernel}
    {exit : Exit} (hchains : Chains before.kernel) (hge : 0 ≤ before.kernel.tasksRunning)
    (hown : OwnMapping before)
    (hexception : handleException message before.kernel = some (kernel, exit)) :
    OwnMapping ⟨kernel, recordExit exit before.kernel.running kernel.running before.called⟩ ↔
      HandsOverRight before (.kernel (.exception message)) := by
  rcases hchains.exception_cases hge hexception with
    ⟨hzero, ⟨text, rfl⟩, rfl⟩ | ⟨hne, shown, text, heq, hsame, hshownChains, hgeShown, hhalt⟩
  · exact iff_of_true hown (.inl hzero)
  · have hrun := hsame.running_eq
    have hto : haltsTo shown = haltsTo before.kernel := by
      simp only [haltsTo, hrun, hsame.links]
    have hvideo : videoMapped shown = videoMapped before.kernel :=
      videoMapped_congr (by rw [heq])
    have hshown : OwnMapping ⟨shown, before.called⟩ := by
      rw [ownMapping_iff hrun, hvideo]
      exact hown
    have hiff := @ownMapping_halt_iff 0 ⟨shown, before.called⟩ kernel exit hshownChains hgeShown
      hshown hhalt
    rw [← hrun, hiff, hto]
    exact ⟨.inr, fun h => h.resolve_left hne⟩

theorem ownMapping_switch_iff {regs : SwitchRegs} {tid : UInt32} {before : Programs}
    {kernel : Kernel} (h : ShellsUp before.kernel) (hown : OwnMapping before)
    (hswitch : switchDisplayTerminal regs tid before.kernel = some kernel) :
    OwnMapping ⟨kernel, before.called⟩ ↔ SwitchAgrees before tid := by
  rcases switchDisplayTerminal_cases hswitch with
    ⟨hstay, rfl⟩ | ⟨hmove, bottom, hbottom, hswitched⟩
  · exact iff_of_true hown (hstay.imp_right .inl)
  · rw [not_or] at hmove
    have hrunning := hswitched.running
    have hlt : tid < 3 := by grind
    have hsome : bottom ≠ -1 := fun hnone =>
      (h.toChains.bottom_eq_neg_one_iff hlt hbottom).mp hnone (h.shells tid hlt)
    rw [if_neg hsome] at hrunning
    have hrun : kernel.running = bottom.toUInt32 := by rw [Kernel.running, hrunning]
    have hvideo := videoMapped_switchDisplay hswitch
    have hkept : videoMapped before.kernel = before.called before.kernel.running := hown
    simp only [SwitchAgrees, hmove, hbottom, Option.mem_def, Option.some.injEq, forall_eq',
      false_or]
    rw [ownMapping_iff hrun, hvideo, hkept]
    exact eq_comm

theorem ownMapping_scheduler_iff {frame : TickFrame} {tNum : UInt32} {before : Programs}
    {kernel : Kernel} {exit : Exit} (h : ShellsUp before.kernel) (hown : OwnMapping before)
    (htick : scheduler frame tNum before.kernel = some (kernel, exit)) :
    exit = .returned 0 ∧ (OwnMapping ⟨kernel, before.called⟩ ↔
      tNum ≥ 3 ∨ before.kernel.bootupFlag = 0 ∨ SwitchAgrees before 0) := by
  rcases scheduler_cases htick with
    ⟨hge, rfl, rfl⟩ | ⟨hlt, booted, terminal, active, hboot, hactive, hrest⟩
  · exact ⟨rfl, iff_of_true hown (.inl hge)⟩
  obtain ⟨hbooted, hkept, -, hterminal⟩ := h.toChains.bootSwitchBack_kept hboot
  rcases hrest with ⟨-, rfl, rfl⟩ | ⟨hnone, -⟩
  · refine ⟨rfl, ?_⟩
    have hnot : ¬ tNum ≥ 3 := UInt32.not_le.mpr hlt
    simp only [hnot, false_or]
    rcases bootSwitchBack_cases hboot with ⟨hflag, rfl, -⟩ | ⟨hflag, -, switched, hswitch, rfl⟩
    · exact iff_of_true hown (.inl hflag)
    · have hiff := ownMapping_switch_iff h hown hswitch
      simp only [hflag, false_or]
      exact hiff
  · have hterminalLt : terminal < 3 := by
      rw [hterminal, tickTerminal]
      grind
    have hocc := (occupied_congr hkept.slots terminal).mpr (h.shells terminal hterminalLt)
    exact absurd hocc ((hbooted.bottom_eq_neg_one_iff hterminalLt hactive).mp hnone)

theorem ownMapping_step_iff {event : ProgramEvent} {before after : Programs}
    (h : ShellsUp before.kernel) (hown : OwnMapping before)
    (hstep : programStep event before = some after) :
    OwnMapping after ↔ HandsOverRight before event := by
  cases event with
  | call call =>
      obtain ⟨-, kernel, value, stores, hperform, rfl⟩ := programStep_call hstep
      have hcall := Call.callOnly hperform
      have hrun := hcall.sameTasks.running_eq
      refine iff_of_true ?_ trivial
      rw [ownMapping_iff hrun, videoMapped_congr hcall.pages]
      exact hown
  | vidmap screenStart =>
      rcases programStep_vidmap hstep with rfl | ⟨stores, rfl⟩
      · exact iff_of_true hown trivial
      · refine iff_of_true ?_ trivial
        have hsame : SameTasks before.kernel
            ((videomemMap mem148MB videoMemAddr before.kernel).storeUser stores) :=
          .of_pcb rfl rfl rfl
        rw [ownMapping_iff hsame.running_eq, Function.update_self]
        exact videoMapped_videomemMap before.kernel
  | kernel event =>
      obtain ⟨kernel, exit, hperform, rfl⟩ := programStep_kernel hstep
      cases performed hperform with
      | tick hpit =>
          obtain ⟨ticked, htick, hcounted⟩ := pitHandler_splits hpit
          obtain ⟨hreturned, hiff⟩ := ownMapping_scheduler_iff h hown htick
          rcases hcounted with ⟨-, rfl⟩ | ⟨hnot, -⟩
          · rw [hreturned]
            exact hiff
          · exact absurd hreturned (hnot 0)
      | schedule htick =>
          obtain ⟨rfl, hiff⟩ := ownMapping_scheduler_iff h hown htick
          exact hiff
      | chord hswitch hexit =>
          subst hexit
          exact ownMapping_switch_iff h hown hswitch
      | execute hge hexecute => exact ownMapping_execute_iff h.toChains hown hexecute
      | halt hge hhalt => exact ownMapping_halt_iff h.toChains hge hown hhalt
      | exception hge hexception =>
          exact ownMapping_exception_iff h.toChains hge hown hexception

/--
In a run after boot, user code finds the video page mapped exactly when its own
task has called `vidmap`, throughout, exactly when no step hands the processor
to a task whose record differs from the entry that it finds.
-/
theorem ownMapping_iff_handsOverRight {events : List ProgramEvent} {start : Kernel}
    {final : Programs} (hrun : run programStep events (freshPrograms start) = some final)
    (hshells : ShellsUp start) (hunmapped : videoMapped start = false) :
    (∀ visited ∈ statesAlong programStep events (freshPrograms start), OwnMapping visited) ↔
      ∀ taken ∈ stepsAlong programStep events (freshPrograms start),
        HandsOverRight taken.1 taken.2 := by
  have hkeep : ∀ event before after, ShellsUp (Programs.kernel before) →
      programStep event before = some after → ShellsUp after.kernel :=
    fun _ _ _ h hstep => h.programStep hstep
  exact forall_safe_iff_of_step_iff hkeep
    (fun _ _ _ h hown hstep => ownMapping_step_iff h hown hstep) hrun hshells hunmapped

def childVidmap : List ProgramEvent :=
  [.kernel (.execute default shellName), .vidmap 0x8000000, .kernel (.halt 0)]

theorem videoMapped_shellsKernel : videoMapped shellsKernel = false := by
  decide +kernel

theorem ownMapping_iff_handsOverRight_childVidmap :
    ∃ final, run programStep childVidmap (freshPrograms shellsKernel) = some final ∧
      ((∀ visited ∈ statesAlong programStep childVidmap (freshPrograms shellsKernel),
          OwnMapping visited) ↔
        ∀ taken ∈ stepsAlong programStep childVidmap (freshPrograms shellsKernel),
          HandsOverRight taken.1 taken.2) := by
  have hsome : (run programStep childVidmap (freshPrograms shellsKernel)).isSome := by
    decide +kernel
  obtain ⟨final, hrun⟩ := Option.isSome_iff_exists.mp hsome
  exact ⟨final, hrun, ownMapping_iff_handsOverRight hrun shellsUp_shellsKernel
    videoMapped_shellsKernel⟩

def vidmapThenExecute : List ProgramEvent :=
  [.vidmap 0x8000000, .kernel (.execute default shellName)]

/-- The child of a shell that has the video page has it too, and its halt takes it away. -/
theorem not_ownMapping_vidmapThenExecute :
    (∃ final, run programStep vidmapThenExecute (freshPrograms shellsKernel) = some final ∧
      videoMapped final.kernel = true ∧ final.called final.kernel.running = false ∧
      ¬ OwnMapping final) ∧
    ∃ final, run programStep (vidmapThenExecute ++ [.kernel (.halt 0)])
        (freshPrograms shellsKernel) = some final ∧
      videoMapped final.kernel = false ∧ final.called final.kernel.running = true ∧
      ¬ OwnMapping final := by
  have hchild : (run programStep vidmapThenExecute (freshPrograms shellsKernel)).any
      (fun final => videoMapped final.kernel && !final.called final.kernel.running) = true := by
    decide +kernel
  have hparent : (run programStep (vidmapThenExecute ++ [.kernel (.halt 0)])
      (freshPrograms shellsKernel)).any
        (fun final => !videoMapped final.kernel && final.called final.kernel.running) = true := by
    decide +kernel
  obtain ⟨running, hrun, hfinal⟩ := (Option.any_eq_true _ _).mp hchild
  obtain ⟨halted, hrun', hfinal'⟩ := (Option.any_eq_true _ _).mp hparent
  simp only [Bool.and_eq_true, Bool.not_eq_true'] at hfinal hfinal'
  refine ⟨⟨running, hrun, hfinal.1, hfinal.2, ?_⟩, halted, hrun', hfinal'.1, hfinal'.2, ?_⟩
  · rw [OwnMapping, hfinal.1, hfinal.2]
    decide
  · rw [OwnMapping, hfinal'.1, hfinal'.2]
    decide

end LinuxOS
