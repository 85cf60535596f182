import LinuxOS.Machine.Effects

/-!
# What a task has to itself

Once the shells are there, nothing but its own steps changes the descriptors,
the texts and the memory of a task, whatever interrupts come and whatever the
other tasks do.
-/

namespace LinuxOS

open Foundation

def taskFrame (task : UInt32) : UInt32 := eightM + fourM * task

/-- What is left of a task by a step that is not its own. -/
structure Untouched (task : UInt32) (before after : Kernel) : Prop where
  pcb : ∃ child esp ebp, after.pcbOf task =
    { before.pcbOf task with taskIdChild := child, oldEsp := esp, oldEbp := ebp }
  memory : ∀ offset < fourM, after.userMemory (taskFrame task + offset) =
    before.userMemory (taskFrame task + offset)

theorem Untouched.refl (task : UInt32) (kernel : Kernel) : Untouched task kernel kernel :=
  ⟨⟨_, _, _, rfl⟩, fun _ _ => rfl⟩

theorem Untouched.trans {task : UInt32} {first second third : Kernel}
    (h : Untouched task first second) (h' : Untouched task second third) :
    Untouched task first third := by
  obtain ⟨child, esp, ebp, hpcb⟩ := h.pcb
  obtain ⟨child', esp', ebp', hpcb'⟩ := h'.pcb
  refine ⟨⟨child', esp', ebp', ?_⟩, fun offset hlt => ?_⟩
  · rw [hpcb', hpcb]
  · rw [h'.memory offset hlt, h.memory offset hlt]

theorem Untouched.of_pcb {task : UInt32} {before after : Kernel} (hpcb : after.pcb = before.pcb)
    (hmemory : after.userMemory = before.userMemory) : Untouched task before after := by
  have hsame : after.pcbOf task = before.pcbOf task := by rw [Kernel.pcbOf, Kernel.pcbOf, hpcb]
  exact ⟨⟨_, _, _, hsame⟩, fun offset _ => by rw [hmemory]⟩

/-! ## The frames of tasks -/

theorem frameEntry_frame {task : UInt32} (h : task < 6) :
    frameEntry task &&& 0xFFC00000 = taskFrame task := by
  have hcases : task = 0 ∨ task = 1 ∨ task = 2 ∨ task = 3 ∨ task = 4 ∨ task = 5 := by grind
  rcases hcases with rfl | rfl | rfl | rfl | rfl | rfl <;> decide

theorem toNat_taskFrame {task : UInt32} (h : task < 6) :
    (taskFrame task).toNat = 0x800000 + 0x400000 * task.toNat := by
  have hcases : task = 0 ∨ task = 1 ∨ task = 2 ∨ task = 3 ∨ task = 4 ∨ task = 5 := by grind
  rcases hcases with rfl | rfl | rfl | rfl | rfl | rfl <;> decide

theorem taskFrame_disjoint {task other offset offset' : UInt32} (h : task < 6) (h' : other < 6)
    (hlt : offset < fourM) (hlt' : offset' < fourM)
    (heq : taskFrame task + offset = taskFrame other + offset') : task = other := by
  have hfour : fourM.toNat = 0x400000 := rfl
  have htask := toNat_taskFrame h
  have hother := toNat_taskFrame h'
  rw [UInt32.lt_iff_toNat_lt, hfour] at hlt hlt'
  rw [UInt32.lt_iff_toNat_lt] at h h'
  have hsix : (6 : UInt32).toNat = 6 := rfl
  have hnat := congrArg UInt32.toNat heq
  rw [UInt32.toNat_add, UInt32.toNat_add, htask, hother] at hnat
  exact UInt32.toNat_inj.mp (by omega)

theorem translate_eq {kernel : Kernel} {task addr phys : UInt32} (htask : task < 6)
    (hpage : kernel.userPage = frameEntry task) (h : kernel.translate addr = some phys) :
    ∃ offset < fourM, phys = taskFrame task + offset := by
  unfold Kernel.translate at h
  split at h
  · next hrange =>
      cases h
      rw [hpage, frameEntry_frame htask]
      refine ⟨addr - virtualMem, ?_, rfl⟩
      have hvirtual : virtualMem.toNat = 0x8000000 := rfl
      have hend : (virtualMem + fourM).toNat = 0x8400000 := rfl
      have hfour : fourM.toNat = 0x400000 := rfl
      rw [UInt32.lt_iff_toNat_lt, UInt32.toNat_sub_of_le _ _ hrange.1]
      rw [UInt32.le_iff_toNat_le, UInt32.lt_iff_toNat_lt] at hrange
      omega
  · cases h

theorem storeUser_memory {kernel : Kernel} {task other offset : UInt32} (htask : task < 6)
    (hother : other < 6) (hne : other ≠ task) (hpage : kernel.userPage = frameEntry task)
    (stores : Stores) (hlt : offset < fourM) :
    (kernel.storeUser stores).userMemory (taskFrame other + offset) =
      kernel.userMemory (taskFrame other + offset) := by
  refine apply_of_forall_ne (fun store hstore heq => hne ?_) kernel.userMemory
  obtain ⟨⟨addr, byte⟩, -, hmapped⟩ := List.mem_filterMap.mp hstore
  obtain ⟨phys, hphys, rfl⟩ := Option.map_eq_some_iff.mp hmapped
  obtain ⟨offset', hlt', rfl⟩ := translate_eq htask hpage hphys
  exact (taskFrame_disjoint htask hother hlt' hlt heq).symm

theorem Secure.running_occupied {kernel : Kernel} (h : Secure kernel) :
    Occupied kernel kernel.running := (h.toAgree.isBottom h.active).2.occupied

/-! ## What user code reaches -/

def InOwnFrame (kernel : Kernel) (phys : UInt32) : Prop :=
  ∃ offset < fourM, phys = taskFrame kernel.running + offset

def InVideoPage (phys : UInt32) : Prop := ∃ offset < fourK, phys = videoMemAddr + offset

theorem remainder_lt (addr : UInt32) : addr % 0x400000 < fourM ∧ addr % 0x1000 < fourK := by
  have hfourM : fourM.toNat = 0x400000 := rfl
  have hfourK : fourK.toNat = 0x1000 := rfl
  have hlarge : (0x400000 : UInt32).toNat = 0x400000 := rfl
  have hsmall : (0x1000 : UInt32).toNat = 0x1000 := rfl
  rw [UInt32.lt_iff_toNat_lt, UInt32.lt_iff_toNat_lt, UInt32.toNat_mod, UInt32.toNat_mod,
    hfourM, hfourK, hlarge, hsmall]
  omega

theorem directoryIndex_of_accessible {addr : UInt32}
    (h : virtualMem ≤ addr ∧ addr < virtualMem + fourM ∨
      mem148MB ≤ addr ∧ addr < mem148MB + fourK) :
    directoryIndex addr = 32 ∨ directoryIndex addr = 37 := by
  have hvirtual : virtualMem.toNat = 0x8000000 := rfl
  have hvirtualEnd : (virtualMem + fourM).toNat = 0x8400000 := rfl
  have hvideo : mem148MB.toNat = 0x9400000 := rfl
  have hvideoEnd : (mem148MB + fourK).toNat = 0x9401000 := rfl
  have h32 : (32 : UInt32).toNat = 32 := rfl
  have h37 : (37 : UInt32).toNat = 37 := rfl
  have hquot := toNat_directoryIndex addr
  simp only [UInt32.lt_iff_toNat_lt, UInt32.le_iff_toNat_le, hvirtual, hvirtualEnd, hvideo,
    hvideoEnd] at h
  rcases h with hpage | hpage
  · exact .inl (UInt32.toNat_inj.mp (by omega))
  · exact .inr (UInt32.toNat_inj.mp (by omega))

theorem Secure.reaches {kernel : Kernel} {addr phys : UInt32} (h : Secure kernel)
    (hwalk : kernel.tables.walk addr = some (phys, true)) :
    InOwnFrame kernel phys ∨ InVideoPage phys := by
  obtain ⟨start, hplaced, hframe⟩ := h.framed
  have haccess : kernel.tables.UserAccessible addr := ⟨phys, hwalk⟩
  obtain ⟨hlarge, hsmall⟩ := remainder_lt addr
  rcases directoryIndex_of_accessible (hframe.accessible hplaced haccess) with h32 | h37
  · left
    have hentry : kernel.tables.directory 32 = frameEntry kernel.running := h.userPage
    have hsix := h.running_occupied.1
    have hflags : entryPresent (frameEntry kernel.running) = true ∧
        entryLarge (frameEntry kernel.running) = true := by
      constructor <;> exact (hasFlag_or ..).trans (Bool.or_eq_true_iff.mpr (.inr (by decide)))
    simp only [PageTables.walk, h32, hentry, hflags.1, hflags.2, Bool.not_true,
      Bool.false_eq_true, if_false, if_true, Option.some.injEq, Prod.mk.injEq] at hwalk
    exact ⟨addr % 0x400000, hlarge, by rw [← hwalk.1, frameEntry_frame hsix]⟩
  · right
    have hindex := hframe.tableIndex_eq_zero hplaced haccess h37
    have hentry : kernel.tables.directory 37 = kernel.pageDirectory 37 := rfl
    rcases hframe.videoPage with hunmapped | ⟨hmapped, hfirst, -⟩
    · have hpresent := haccess.outer.1
      rw [h37, hentry, hunmapped] at hpresent
      exact absurd hpresent (by decide)
    · have htable : kernel.tables.table start.videoPageAddr = kernel.videoPage := by
        simp only [Kernel.tables, hframe.tableAddr, hframe.videoAddr, hplaced.distinct.symm,
          if_true, if_false]
      have hpresent : entryPresent (start.videoPageAddr ||| 0x7) = true :=
        (hasFlag_or ..).trans (Bool.or_eq_true_iff.mpr (.inr (by decide)))
      have hsmallEntry : entryLarge (start.videoPageAddr ||| 0x7) = false := by
        rw [entryLarge, hasFlag_or, hplaced.videoAligned.hasFlag (by decide)]
        decide
      have hinner : entryPresent (videoMemAddr ||| 0x7) = true := by decide
      have hbase : (videoMemAddr ||| 0x7) &&& 0xFFFFF000 = videoMemAddr := by decide
      simp only [PageTables.walk, h37, hentry, hmapped, hpresent, hsmallEntry,
        hplaced.videoAligned.frame (by decide : (0x7 : UInt32) &&& 0xFFFFF000 = 0), htable,
        hindex, hfirst, hinner, hbase, Bool.not_true, Bool.false_eq_true, if_false,
        Option.some.injEq, Prod.mk.injEq] at hwalk
      exact ⟨addr % 0x1000, hsmall, hwalk.1.symm⟩

theorem directoryIndex_virtualMem {offset : UInt32} (h : offset < fourM) :
    directoryIndex (virtualMem + offset) = 32 ∧ (virtualMem + offset) % 0x400000 = offset := by
  have hfourM : fourM.toNat = 0x400000 := rfl
  have hvirtual : virtualMem.toNat = 0x8000000 := rfl
  have hlarge : (0x400000 : UInt32).toNat = 0x400000 := rfl
  have h32 : (32 : UInt32).toNat = 32 := rfl
  rw [UInt32.lt_iff_toNat_lt] at h
  have haddr : (virtualMem + offset).toNat = 0x8000000 + offset.toNat := by
    rw [UInt32.toNat_add, hvirtual]
    omega
  constructor
  · refine UInt32.toNat_inj.mp ?_
    rw [toNat_directoryIndex, haddr]
    omega
  · refine UInt32.toNat_inj.mp ?_
    rw [UInt32.toNat_mod, haddr, hlarge]
    omega

theorem Secure.walk_userPage {kernel : Kernel} (h : Secure kernel) {offset : UInt32}
    (hlt : offset < fourM) :
    kernel.tables.walk (virtualMem + offset) =
      some (taskFrame kernel.running + offset, true) := by
  obtain ⟨hindex, hrest⟩ := directoryIndex_virtualMem hlt
  have hentry : kernel.tables.directory 32 = frameEntry kernel.running := h.userPage
  have hflag : ∀ mask, hasFlag mask 0x87 = true →
      hasFlag mask (frameEntry kernel.running) = true := fun mask hmask =>
    (hasFlag_or ..).trans (Bool.or_eq_true_iff.mpr (.inr hmask))
  have hpresent : entryPresent (frameEntry kernel.running) = true := hflag 1 (by decide)
  have hlarge : entryLarge (frameEntry kernel.running) = true := hflag 0x80 (by decide)
  have huser : entryUser (frameEntry kernel.running) = true := hflag 4 (by decide)
  simp only [PageTables.walk, hindex, hentry, hpresent, hlarge, huser, hrest, Bool.not_true,
    Bool.false_eq_true, if_false, if_true, frameEntry_frame h.running_occupied.1]

theorem taskFrame_ne_video {task offset offset' : UInt32} (h : task < 6) (hlt : offset < fourM)
    (hlt' : offset' < fourK) : taskFrame task + offset ≠ videoMemAddr + offset' := by
  have hfourM : fourM.toNat = 0x400000 := rfl
  have hfourK : fourK.toNat = 0x1000 := rfl
  have hvideo : videoMemAddr.toNat = 0xB8000 := rfl
  have htask := toNat_taskFrame h
  have hsix : (6 : UInt32).toNat = 6 := rfl
  intro heq
  have hnat := congrArg UInt32.toNat heq
  rw [UInt32.lt_iff_toNat_lt] at h hlt hlt'
  rw [UInt32.toNat_add, UInt32.toNat_add, htask, hvideo] at hnat
  omega

/-! ## The steps of others -/

theorem pcbOf_saveRegs (esp ebp saved task : UInt32) (kernel : Kernel) :
    ∃ oldEsp oldEbp, (saveRegs esp ebp saved kernel).pcbOf task =
      { kernel.pcbOf task with oldEsp := oldEsp, oldEbp := oldEbp } := by
  by_cases hsame : getPcb task = getPcb saved
  · refine ⟨esp, ebp, ?_⟩
    simp [saveRegs, Kernel.modifyPcb, Kernel.pcbOf, hsame]
  · exact ⟨_, _, pcbOf_modifyPcb_of_ne _ hsame⟩

section Step

variable {task : UInt32} {before after : Kernel}

theorem Untouched.switchDisplay {regs : SwitchRegs} {tid : UInt32} (task : UInt32)
    (h : switchDisplayTerminal regs tid before = some after) : Untouched task before after := by
  rcases switchDisplayTerminal_eq h with rfl | ⟨bottom, running, rfl⟩
  · exact .refl task _
  · obtain ⟨esp, ebp, hfirst⟩ := pcbOf_saveRegs regs.prevEsp regs.prevEbp
      before.displayTerminalId.toUInt32 task
      { showTerminal tid bottom before with tasksRunning := running }
    obtain ⟨esp', ebp', hsecond⟩ := pcbOf_saveRegs regs.nextEsp regs.nextEbp tid task
      (saveRegs regs.prevEsp regs.prevEbp before.displayTerminalId.toUInt32
        { showTerminal tid bottom before with tasksRunning := running })
    refine ⟨⟨(before.pcbOf task).taskIdChild, esp', ebp', ?_⟩, fun _ _ => rfl⟩
    rw [hsecond, hfirst]
    rfl

theorem Untouched.executeClaim {slot : UInt32} (h : Secure before) (hslot : FirstFree before slot)
    (hocc : Occupied before task) (frame : ExecuteFrame) (command : CString)
    (fileCheck : Dentry) :
    Untouched task before (executeClaim frame command fileCheck slot before).1 := by
  have hne : task ≠ slot := by
    rintro rfl
    exact hocc.2 hslot.free
  have hstarted :=
    (h.tree.chains h.active).executeClaim_started hslot frame command fileCheck
  constructor
  · by_cases hparent : slot ≥ 3 ∧ task = before.running
    · exact ⟨slot, _, _, hparent.2 ▸ hstarted.parentPcb hparent.1⟩
    · exact ⟨_, _, _, hstarted.otherPcb task hocc.1 hne fun hchild heq => hparent ⟨hchild, heq⟩⟩
  · -- the program is loaded through the page of the new task
    intro offset hlt
    have hpage : (claimSlot slot before).userPage = frameEntry slot := by
      rw [frameEntry, UInt32.mul_comm]
      exact userPage_syscallPagingSetup (eightM + slot * fourM) _
    exact storeUser_memory hslot.lt hocc.1 hne hpage _ hlt

theorem Untouched.haltChild {status : UInt8} {exit : Exit} (h : Secure before)
    (hparent : (before.pcbOf before.running).taskIdParent ≠ noTask)
    (hhalt : haltChild status before = some (after, exit)) (hocc : Occupied before task)
    (hne : task ≠ before.running) : Occupied after task ∧ Untouched task before after := by
  obtain ⟨hbelow, hended⟩ := h.runningEnds hparent hhalt
  refine ⟨(hended.occupied_iff task).mpr ⟨hocc, hne⟩, ?_, fun offset _ => ?_⟩
  · by_cases hlauncher : task = (before.links before.running).parent
    · rw [hlauncher]
      exact ⟨noTask, _, _, hended.parentPcb⟩
    · exact ⟨_, _, _, hended.otherPcb task hocc.1 hne hlauncher⟩
  · rw [(haltChild_kept hhalt).memory]

theorem untouched_of_effect {mine : Bool} (h : Secure before)
    (heffect : Effect before after mine) (hocc : Occupied before task)
    (hother : mine = true → before.running ≠ task) :
    Occupied after task ∧ Untouched task before after := by
  have hsix := h.running_occupied.1
  cases heffect with
  | quiet _ hquiet =>
      exact ⟨(occupied_congr hquiet.slots task).mpr hocc, .of_pcb hquiet.pcb hquiet.memory⟩
  | switched regs tid switched hswitch hquiet =>
      have hslots := (switchDisplayTerminal_tasksKept hswitch).1.slots
      have hkept : Untouched task before switched := .switchDisplay task hswitch
      exact ⟨(occupied_congr (hquiet.slots.trans hslots) task).mpr hocc,
        hkept.trans (.of_pcb hquiet.pcb hquiet.memory)⟩
  | started frame command fileCheck slot hslot hafter =>
      rw [hafter]
      have hstarted :=
        (h.tree.chains h.active).executeClaim_started hslot frame command fileCheck
      exact ⟨(hstarted.occupied_iff hslot.lt task).mpr (.inr hocc),
        .executeClaim h hslot hocc frame command fileCheck⟩
  | ended shown status exit hquiet hparent hhalt =>
      have hrunning : shown.running = before.running := by
        rw [Kernel.running, Kernel.running, hquiet.running]
      have hshown : Occupied shown task := (occupied_congr hquiet.slots task).mpr hocc
      obtain ⟨hafter, hkept⟩ := Untouched.haltChild (h.quiet hquiet)
        (hquiet.running_pcbOf ▸ hparent) hhalt hshown (hrunning ▸ (hother rfl).symm)
      have hbefore : Untouched task before shown := .of_pcb hquiet.pcb hquiet.memory
      exact ⟨hafter, hbefore.trans hkept⟩
  | called stores hwrites _ _ =>
      have hne : getPcb task ≠ getPcb before.running := fun heq =>
        hother rfl (getPcb_injective hocc.1 hsix heq).symm
      refine ⟨(occupied_congr hwrites.slots task).mpr hocc,
        ⟨_, _, _, hwrites.pcbOf_of_ne hne⟩, fun offset hlt => ?_⟩
      rw [hwrites.memory]
      exact storeUser_memory hsix hocc.1 (hother rfl).symm h.userPage stores hlt
  | mapped stores hmapped =>
      rw [hmapped]
      refine ⟨hocc, ⟨_, _, _, rfl⟩, fun offset hlt => ?_⟩
      have hpage : (videomemMap mem148MB videoMemAddr before).userPage =
          frameEntry before.running :=
        (userPage_videomemMap videoMemAddr before).trans h.userPage
      exact storeUser_memory hsix hocc.1 (hother rfl).symm hpage stores hlt
  | stored addr phys byte hwalk hstored =>
      rw [hstored]
      refine ⟨hocc, ⟨_, _, _, rfl⟩, fun offset hlt => Function.update_of_ne ?_ _ _⟩
      rintro rfl
      rcases h.reaches hwalk with ⟨offset', hlt', heq⟩ | ⟨offset', hlt', heq⟩
      · exact hother rfl (taskFrame_disjoint hocc.1 hsix hlt hlt' heq).symm
      · exact taskFrame_ne_video hocc.1 hlt hlt' heq

end Step

/-! ## Runs -/

/--
In every state that a run reaches from a secure one, the user page is the whole
frame of the running task, and whatever else user code reaches is the video
page; no byte of it is in another task's frame.
-/
theorem reaches_of_run {events : List MachineEvent} {start final : Console}
    (hrun : run machineStep events start = some final) (hstart : Secure start.kernel) :
    (∀ offset < fourM, final.kernel.tables.walk (virtualMem + offset) =
        some (taskFrame final.kernel.running + offset, true)) ∧
      ∀ addr phys, final.kernel.tables.walk addr = some (phys, true) →
        (InOwnFrame final.kernel phys ∨ InVideoPage phys) ∧
          ∀ other, Occupied final.kernel other → other ≠ final.kernel.running →
            ∀ offset < fourM, phys ≠ taskFrame other + offset := by
  have hkeep : ∀ event before after, Secure (Console.kernel before) →
      machineStep event before = some after → Secure after.kernel :=
    fun _ _ _ h hstep => h.machineStep hstep
  have h : Secure final.kernel := run_invariant hkeep hrun hstart
  refine ⟨fun offset hlt => h.walk_userPage hlt, fun addr phys hwalk => ?_⟩
  have hreached := h.reaches hwalk
  refine ⟨hreached, fun other hocc hne offset hlt heq => ?_⟩
  rcases hreached with ⟨offset', hlt', hown⟩ | ⟨offset', hlt', hvideo⟩
  · exact hne (taskFrame_disjoint hocc.1 h.running_occupied.1 hlt hlt' (heq.symm.trans hown))
  · exact taskFrame_ne_video hocc.1 hlt hlt' (heq.symm.trans hvideo)

def otherTerminal : List MachineEvent :=
  [.program (.kernel (.chord default 1)), .program (.kernel (.execute default shellName)),
    .store 0x8000000 7, .clock, .program (.kernel (.tick default))]

theorem reaches_of_run_otherTerminal :
    ∃ final, run machineStep otherTerminal ⟨shellsKernel, fun _ => 0⟩ = some final ∧
      final.kernel.running = 3 ∧
      (∀ offset < fourM, final.kernel.tables.walk (virtualMem + offset) =
        some (taskFrame final.kernel.running + offset, true)) ∧
      ∀ addr phys, final.kernel.tables.walk addr = some (phys, true) →
        (InOwnFrame final.kernel phys ∨ InVideoPage phys) ∧
          ∀ other, Occupied final.kernel other → other ≠ final.kernel.running →
            ∀ offset < fourM, phys ≠ taskFrame other + offset := by
  have hany : (run machineStep otherTerminal ⟨shellsKernel, fun _ => 0⟩).any (fun final =>
      final.kernel.running == 3) = true := by decide +kernel
  obtain ⟨final, hrun, hrunning⟩ := (Option.any_eq_true _ _).mp hany
  exact ⟨final, hrun, beq_iff_eq.mp hrunning, reaches_of_run hrun secure_shellsKernel⟩

end LinuxOS
