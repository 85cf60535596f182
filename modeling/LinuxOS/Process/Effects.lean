import LinuxOS.Kernel.Scheduler

/-!
# What the kernel's paths do to the tasks

For each path through the kernel the file says once what it does to the task
slots, to the links between the tasks, to `tasks_running`, to the user page, to
`tss.esp0` and to the few other globals that the results about tasks speak of.
-/

namespace LinuxOS

structure TaskLinks where
  taskId : UInt32
  child : UInt32
  parent : UInt32

def Kernel.links (kernel : Kernel) (task : UInt32) : TaskLinks :=
  ⟨(kernel.pcbOf task).taskId, (kernel.pcbOf task).taskIdChild,
    (kernel.pcbOf task).taskIdParent⟩

def Occupied (kernel : Kernel) (task : UInt32) : Prop :=
  task < 6 ∧ kernel.taskSlots task ≠ 0

instance (kernel : Kernel) (task : UInt32) : Decidable (Occupied kernel task) :=
  inferInstanceAs (Decidable (_ ∧ _))

structure SameTasks (before after : Kernel) : Prop where
  slots : after.taskSlots = before.taskSlots
  running : after.tasksRunning = before.tasksRunning
  links : ∀ task, after.links task = before.links task

theorem SameTasks.refl (kernel : Kernel) : SameTasks kernel kernel :=
  ⟨rfl, rfl, fun _ => rfl⟩

theorem SameTasks.running_eq {before after : Kernel} (h : SameTasks before after) :
    after.running = before.running := by
  rw [Kernel.running, Kernel.running, h.running]

theorem SameTasks.trans {first second third : Kernel} (h : SameTasks first second)
    (h' : SameTasks second third) : SameTasks first third :=
  ⟨h'.slots.trans h.slots, h'.running.trans h.running,
    fun task => (h'.links task).trans (h.links task)⟩

theorem links_eq_of_pcb {before after : Kernel} (h : after.pcb = before.pcb) (task : UInt32) :
    after.links task = before.links task := by
  simp only [Kernel.links, Kernel.pcbOf, h]

theorem SameTasks.of_pcb {before after : Kernel} (hslots : after.taskSlots = before.taskSlots)
    (hrunning : after.tasksRunning = before.tasksRunning) (hpcb : after.pcb = before.pcb) :
    SameTasks before after :=
  ⟨hslots, hrunning, links_eq_of_pcb hpcb⟩

/-! ## Process control blocks -/

theorem getPcb_injective {task task' : UInt32} (h : task < 6) (h' : task' < 6)
    (heq : getPcb task = getPcb task') : task = task' := by
  simp only [getPcb, eightK, oneK] at heq
  grind

theorem pcbOf_modifyPcb_self (kernel : Kernel) (task : UInt32) (change : Pcb → Pcb) :
    (kernel.modifyPcb task change).pcbOf task = change (kernel.pcbOf task) := by
  simp [Kernel.modifyPcb, Kernel.pcbOf]

theorem pcbOf_modifyPcb_of_ne {kernel : Kernel} {task other : UInt32}
    (change : Pcb → Pcb) (hne : getPcb other ≠ getPcb task) :
    (kernel.modifyPcb task change).pcbOf other = kernel.pcbOf other := by
  simp [Kernel.modifyPcb, Kernel.pcbOf, hne]

@[simp] theorem running_modifyPcb (kernel : Kernel) (task : UInt32) (change : Pcb → Pcb) :
    (kernel.modifyPcb task change).running = kernel.running := rfl

theorem links_modifyPcb {kernel : Kernel} {change : Pcb → Pcb} (task other : UInt32)
    (hid : ∀ pcb, (change pcb).taskId = pcb.taskId)
    (hchild : ∀ pcb, (change pcb).taskIdChild = pcb.taskIdChild)
    (hparent : ∀ pcb, (change pcb).taskIdParent = pcb.taskIdParent) :
    (kernel.modifyPcb task change).links other = kernel.links other := by
  by_cases heq : getPcb other = getPcb task
  · simp [Kernel.links, Kernel.pcbOf, Kernel.modifyPcb, heq, hid, hchild, hparent]
  · simp [Kernel.links, pcbOf_modifyPcb_of_ne change heq]

/-! ## Finding tasks -/

theorem childOf_eq (kernel : Kernel) (task : UInt32) :
    childOf kernel task =
      if (kernel.links task).child = noTask then none
      else some (kernel.links task).child := rfl

theorem findBottomTask_congr {before after : Kernel} (h : after.taskSlots = before.taskSlots)
    (hlinks : ∀ task, after.links task = before.links task) (task : UInt32) :
    findBottomTask after task = findBottomTask before task := by
  have hchild : childOf after = childOf before := by
    funext other
    rw [childOf_eq, childOf_eq, hlinks]
  have hid : ∀ other, (after.pcbOf other).taskId = (before.pcbOf other).taskId :=
    fun other => congrArg TaskLinks.taskId (hlinks other)
  simp [findBottomTask, hchild, h, hid]

theorem findOpenTaskLoop_eq (taskSlots : UInt32 → UInt32) (count : Nat) (i : UInt32)
    (hbound : i.toNat + count ≤ 6) :
    findOpenTaskLoop taskSlots count i = -1 ∧
        (∀ slot, i ≤ slot → slot.toNat < i.toNat + count → taskSlots slot ≠ 0) ∨
      ∃ slot, findOpenTaskLoop taskSlots count i = slot.toInt32 ∧ i ≤ slot ∧
        slot.toNat < i.toNat + count ∧ taskSlots slot = 0 ∧
        ∀ lower, i ≤ lower → lower < slot → taskSlots lower ≠ 0 := by
  induction count generalizing i with
  | zero =>
      refine .inl ⟨rfl, fun slot hle hlt => ?_⟩
      rw [UInt32.le_iff_toNat_le] at hle
      omega
  | succ count ih =>
      simp only [findOpenTaskLoop]
      split
      · next hfree =>
          refine .inr ⟨i, rfl, UInt32.le_refl i, by omega, hfree, ?_⟩
          intro lower hle hlt
          rw [UInt32.le_iff_toNat_le] at hle
          rw [UInt32.lt_iff_toNat_lt] at hlt
          omega
      · next hused =>
          have hnext : (i + 1).toNat = i.toNat + 1 := by
            rw [UInt32.toNat_add]
            have : (1 : UInt32).toNat = 1 := rfl
            omega
          -- a slot from `i` on is `i` itself or from `i + 1` on
          have hsplit : ∀ slot : UInt32, i ≤ slot → slot ≠ i → i + 1 ≤ slot := by
            intro slot hle hne
            rw [UInt32.le_iff_toNat_le] at hle ⊢
            have : slot.toNat ≠ i.toNat := fun heq => hne (UInt32.toNat_inj.mp heq)
            omega
          rcases ih (i + 1) (by omega) with ⟨heq, hall⟩ | ⟨slot, heq, hle, hlt, hfree, hlower⟩
          · refine .inl ⟨heq, fun slot hle hlt => ?_⟩
            by_cases hslot : slot = i
            · rw [hslot]; exact hused
            · exact hall slot (hsplit slot hle hslot) (by omega)
          · refine .inr ⟨slot, heq, ?_, by omega, hfree, fun lower hle' hlt' => ?_⟩
            · rw [UInt32.le_iff_toNat_le] at hle ⊢
              omega
            · by_cases hslot : lower = i
              · rw [hslot]; exact hused
              · exact hlower lower (hsplit lower hle' hslot) hlt'

theorem findOpenTask_cases (kernel : Kernel) :
    findOpenTask kernel = -1 ∧ (∀ slot < 6, kernel.taskSlots slot ≠ 0) ∨
      ∃ slot < 6, findOpenTask kernel = slot.toInt32 ∧ kernel.taskSlots slot = 0 ∧
        ∀ lower < slot, kernel.taskSlots lower ≠ 0 := by
  have hzero : ∀ slot : UInt32, 0 ≤ slot := fun slot => UInt32.zero_le
  rcases findOpenTaskLoop_eq kernel.taskSlots 6 0 (by decide) with
    ⟨heq, hall⟩ | ⟨slot, heq, -, hlt, hfree, hlower⟩
  · exact .inl ⟨heq, fun slot hlt => hall slot (hzero slot) hlt⟩
  · exact .inr ⟨slot, hlt, heq, hfree, fun lower hlt' => hlower lower (hzero lower) hlt'⟩

/-! ## Descriptors -/

def Kernel.withFds (kernel : Kernel) (fd : UInt32 → FileDescriptor) : Kernel :=
  kernel.modifyPcb kernel.running fun pcb => { pcb with fd := fd }

theorem withFds_self (kernel : Kernel) :
    kernel.withFds (kernel.pcbOf kernel.running).fd = kernel := by
  simp [Kernel.withFds, Kernel.modifyPcb, Kernel.pcbOf]

theorem withFds_withFds (kernel : Kernel) (fd fd' : UInt32 → FileDescriptor) :
    (kernel.withFds fd).withFds fd' = kernel.withFds fd' := by
  have hrunning : (kernel.withFds fd).running = kernel.running := rfl
  simp only [Kernel.withFds] at hrunning ⊢
  rw [hrunning]
  simp [Kernel.modifyPcb, Kernel.pcbOf]

theorem modifyFd_eq (kernel : Kernel) (fd : UInt32)
    (change : FileDescriptor → FileDescriptor) :
    kernel.modifyFd fd change = kernel.withFds
      (Function.update (kernel.pcbOf kernel.running).fd fd (change (kernel.fdOf fd))) := rfl

theorem syscallClose_withFds {fd : Int32} {kernel after : Kernel} {value : Int32}
    (h : syscallClose fd kernel = some (after, value)) :
    ∃ fds, after = kernel.withFds fds := by
  have hself := withFds_self kernel
  simp only [syscallClose] at h
  split at h
  · cases h
    exact ⟨_, hself.symm⟩
  split at h
  · cases h
    exact ⟨_, hself.symm⟩
  split at h
  · simp at h
  all_goals
    cases h
    first
    | exact ⟨_, hself.symm⟩
    | exact ⟨_, modifyFd_eq _ _ _⟩

theorem closeRelevantFds_withFds {count : Nat} {i : UInt32} {kernel after : Kernel}
    (h : closeRelevantFds (getPcb kernel.running) count i kernel = some after) :
    ∃ fds, after = kernel.withFds fds := by
  induction count generalizing i kernel with
  | zero =>
      simp only [closeRelevantFds, Option.some.injEq] at h
      subst h
      exact ⟨_, (withFds_self kernel).symm⟩
  | succ count ih =>
      simp only [closeRelevantFds] at h
      split at h
      · obtain ⟨⟨closed, value⟩, hclose, hrest⟩ := Option.bind_eq_some_iff.mp h
        obtain ⟨fds, rfl⟩ := syscallClose_withFds hclose
        have hnext : closeRelevantFds (getPcb (kernel.withFds fds).running) count (i + 1)
            (kernel.withFds fds) = some after := hrest
        obtain ⟨fds', rfl⟩ := ih hnext
        exact ⟨fds', withFds_withFds _ _ _⟩
      · exact ih h

/-! ## Calls that leave the tasks alone -/

theorem syscallWrite_eq {fd : UInt32} {source : Nat → UInt8} {nbytes value : Int32}
    {kernel after : Kernel} (h : syscallWrite fd source nbytes kernel = some (after, value)) :
    ∃ screen virtFreq interrupts, after =
      { kernel with screen := screen, virtFreq := virtFreq, rtcInterCount := interrupts } := by
  have hsame : ∃ screen virtFreq interrupts, kernel =
      { kernel with screen := screen, virtFreq := virtFreq, rtcInterCount := interrupts } :=
    ⟨_, _, _, rfl⟩
  simp only [syscallWrite] at h
  split at h
  · cases h
    exact hsame
  split at h
  · cases h
    exact hsame
  split at h
  · simp at h
  · cases h
    exact hsame
  · cases h
    exact ⟨_, _, _, rfl⟩
  · simp only [rtcWrite] at h
    split at h
    · cases h
      exact hsame
    split at h <;> cases h <;> exact ⟨_, _, _, rfl⟩
  · cases h
    exact hsame
  · cases h
    exact hsame

theorem syscallRead_cases {interrupts fd buf : UInt32} {nbytes value : Int32}
    {kernel after : Kernel} {stores : Stores}
    (h : syscallRead interrupts fd buf nbytes kernel = some (after, value, stores)) :
    (∃ terminal count memory, after =
      { kernel with terminal := terminal, rtcInterCount := count, userMemory := memory }) ∨
    ((kernel.fdOf fd).flags ≠ 0 ∧ ∃ position, after =
      (kernel.modifyFd fd fun descriptor =>
        { descriptor with filePosition := position }).storeUser stores) := by
  have hsame : ∃ terminal count memory, kernel =
      { kernel with terminal := terminal, rtcInterCount := count, userMemory := memory } :=
    ⟨_, _, _, rfl⟩
  rcases tableRead_of_syscallRead h with ⟨-, rfl, -, -⟩ | ⟨-, hopen, table, -, hread⟩
  · exact .inl hsame
  cases hread with
  | screen => exact .inl hsame
  | terminal hread =>
      simp only [terminalRead] at hread
      split at hread
      · simp at hread
      · cases hread
        exact .inl ⟨_, _, _, rfl⟩
  | clock hread =>
      simp only [rtcRead] at hread
      split at hread
      · simp at hread
      split at hread
      · simp at hread
      · cases hread
        exact .inl ⟨_, _, _, rfl⟩
  | directory position => exact .inr ⟨hopen, position, rfl⟩
  | file position => exact .inr ⟨hopen, position, rfl⟩

theorem syscallGetargs_eq {buf : UInt32} {nbytes value : Int32} {kernel after : Kernel}
    {stores : Stores} (h : syscallGetargs buf nbytes kernel = some (after, value, stores)) :
    after = kernel.storeUser stores := by
  have hsame : kernel = kernel.storeUser [] := rfl
  simp only [syscallGetargs] at h
  split at h
  · cases h
    exact hsame
  obtain ⟨length, -, h⟩ := Option.map_eq_some_iff.mp h
  split at h
  · cases h
    exact hsame
  split at h
  · cases h
    exact hsame
  · cases h
    rfl

/-! ## Execute -/

structure SameGlobals (before after : Kernel) : Prop where
  image : after.fs = before.fs
  displayed : after.displayTerminalId = before.displayTerminalId
  flag : after.bootupFlag = before.bootupFlag
  counter : after.pitCounter = before.pitCounter

/-- A program has been started in a slot, as the child of `before.running` from slot 3 on. -/
structure Started (frame : ExecuteFrame) (slot : UInt32) (before after : Kernel) : Prop
    extends SameGlobals before after where
  slots : after.taskSlots = Function.update before.taskSlots slot 1
  running : after.tasksRunning = slot.toInt32
  userPage : after.userPage = (eightM + slot * fourM) ||| 0x87
  esp0 : after.tssEsp0 = stackTop slot
  death : after.exceptionDeath = before.exceptionDeath
  ownLinks : after.links slot = ⟨slot, noTask, if slot ≥ 3 then before.running else noTask⟩
  ownEsp : (after.pcbOf slot).oldEsp = frame.esp
  parentPcb : slot ≥ 3 →
    after.pcbOf before.running = { before.pcbOf before.running with taskIdChild := slot }
  otherPcb : ∀ task < 6, task ≠ slot → (slot ≥ 3 → task ≠ before.running) →
    after.pcbOf task = before.pcbOf task

theorem toInt32_ge_three_iff {slot : UInt32} (h : slot < 6) :
    slot.toInt32 ≥ 3 ↔ slot ≥ 3 := by
  have hcases : slot = 0 ∨ slot = 1 ∨ slot = 2 ∨ slot = 3 ∨ slot = 4 ∨ slot = 5 := by grind
  rcases hcases with rfl | rfl | rfl | rfl | rfl | rfl <;> decide

@[simp] theorem running_linkParent (old : UInt32) (kernel : Kernel) :
    (linkParent old kernel).running = kernel.running := rfl

theorem linkParent_of_ge {old : UInt32} {kernel : Kernel} (hge : kernel.tasksRunning ≥ 3) :
    linkParent old kernel =
      (kernel.modifyPcb kernel.running fun pcb => { pcb with taskIdParent := old }).modifyPcb old
        fun pcb => { pcb with taskIdChild := kernel.running } := by
  simp only [linkParent, if_pos hge]
  rfl

theorem linkParent_of_lt {old : UInt32} {kernel : Kernel} (hlt : ¬ kernel.tasksRunning ≥ 3) :
    linkParent old kernel =
      kernel.modifyPcb kernel.running fun pcb => { pcb with taskIdParent := noTask } := by
  simp only [linkParent, if_neg hlt]
  rfl

theorem pcbOf_fillPcb (frame : ExecuteFrame) (command : CString)
    (slot old eip task : UInt32) (kernel : Kernel) :
    (fillPcb frame command slot old eip kernel).pcbOf task =
      (fdaInit ((linkParent old (kernel.modifyPcb slot fun pcb =>
        { pcb with taskId := slot })).modifyPcb slot
          (fillTexts frame command eip))).pcbOf task := by
  simp only [fillPcb, Kernel.pcbOf]

theorem fillPcb_self (frame : ExecuteFrame) (command : CString) (eip : UInt32)
    {slot old : UInt32} {kernel : Kernel} (hslot : slot < 6)
    (hrunning : kernel.tasksRunning = slot.toInt32)
    (hparent : slot ≥ 3 → getPcb old ≠ getPcb slot) :
    (fillPcb frame command slot old eip kernel).links slot =
      ⟨slot, noTask, if slot ≥ 3 then old else noTask⟩ ∧
    ((fillPcb frame command slot old eip kernel).pcbOf slot).oldEsp = frame.esp := by
  have hself : kernel.running = slot := by simp [Kernel.running, hrunning]
  have hge := toInt32_ge_three_iff hslot
  rw [Kernel.links, pcbOf_fillPcb, fdaInit]
  simp only [running_modifyPcb, running_linkParent, hself, pcbOf_modifyPcb_self, fillTexts]
  by_cases hbase : slot ≥ 3
  · rw [linkParent_of_ge (hrunning ▸ hge.mpr hbase), running_modifyPcb, hself,
      pcbOf_modifyPcb_of_ne _ (hparent hbase).symm, pcbOf_modifyPcb_self, pcbOf_modifyPcb_self]
    simp [hbase]
  · rw [linkParent_of_lt (hrunning ▸ fun h => hbase (hge.mp h)), running_modifyPcb, hself,
      pcbOf_modifyPcb_self, pcbOf_modifyPcb_self]
    simp [hbase]

theorem pcbOf_fillPcb_parent {frame : ExecuteFrame} {command : CString}
    {slot old eip : UInt32} {kernel : Kernel} (hslot : slot < 6)
    (hrunning : kernel.tasksRunning = slot.toInt32) (hchild : slot ≥ 3)
    (hparent : getPcb old ≠ getPcb slot) :
    (fillPcb frame command slot old eip kernel).pcbOf old =
      { kernel.pcbOf old with taskIdChild := slot } := by
  have hself : kernel.running = slot := by simp [Kernel.running, hrunning]
  have hge := (toInt32_ge_three_iff hslot).mpr hchild
  rw [pcbOf_fillPcb, fdaInit]
  simp only [running_modifyPcb, running_linkParent, hself]
  rw [pcbOf_modifyPcb_of_ne _ hparent, pcbOf_modifyPcb_of_ne _ hparent,
    linkParent_of_ge (hrunning ▸ hge), running_modifyPcb, hself, pcbOf_modifyPcb_self,
    pcbOf_modifyPcb_of_ne _ hparent, pcbOf_modifyPcb_of_ne _ hparent]

theorem pcbOf_fillPcb_of_ne {frame : ExecuteFrame} {command : CString}
    {slot old eip task : UInt32} {kernel : Kernel} (hslot : slot < 6)
    (hrunning : kernel.tasksRunning = slot.toInt32) (hne : getPcb task ≠ getPcb slot)
    (hparent : slot ≥ 3 → getPcb task ≠ getPcb old) :
    (fillPcb frame command slot old eip kernel).pcbOf task = kernel.pcbOf task := by
  have hself : kernel.running = slot := by simp [Kernel.running, hrunning]
  have hge := toInt32_ge_three_iff hslot
  rw [pcbOf_fillPcb, fdaInit]
  simp only [running_modifyPcb, running_linkParent, hself]
  rw [pcbOf_modifyPcb_of_ne _ hne, pcbOf_modifyPcb_of_ne _ hne]
  by_cases hbase : slot ≥ 3
  · rw [linkParent_of_ge (hrunning ▸ hge.mpr hbase), running_modifyPcb, hself,
      pcbOf_modifyPcb_of_ne _ (hparent hbase), pcbOf_modifyPcb_of_ne _ hne,
      pcbOf_modifyPcb_of_ne _ hne]
  · rw [linkParent_of_lt (hrunning ▸ fun h => hbase (hge.mp h)), running_modifyPcb, hself,
      pcbOf_modifyPcb_of_ne _ hne, pcbOf_modifyPcb_of_ne _ hne]

theorem pcbOf_loadProgram_claimSlot (fileCheck : Dentry) (slot task : UInt32) (kernel : Kernel) :
    (loadProgram fileCheck (claimSlot slot kernel)).1.pcbOf task = kernel.pcbOf task := by
  have hpcb : (loadProgram fileCheck (claimSlot slot kernel)).1.pcb = kernel.pcb := rfl
  simp only [Kernel.pcbOf, hpcb]

theorem executeClaim_started {frame : ExecuteFrame} {command : CString} {fileCheck : Dentry}
    {slot : UInt32} {kernel : Kernel} (hslot : slot < 6)
    (hparent : slot ≥ 3 → kernel.running < 6 ∧ kernel.running ≠ slot) :
    Started frame slot kernel (executeClaim frame command fileCheck slot kernel).1 := by
  have hne : slot ≥ 3 → getPcb kernel.running ≠ getPcb slot := fun hchild heq =>
    (hparent hchild).2 (getPcb_injective (hparent hchild).1 hslot heq)
  have hloaded : (loadProgram fileCheck (claimSlot slot kernel)).1.tasksRunning =
      slot.toInt32 := rfl
  have hself := fillPcb_self frame command (loadProgram fileCheck (claimSlot slot kernel)).2
    hslot hloaded hne
  exact {
    image := rfl
    displayed := rfl
    flag := rfl
    counter := rfl
    slots := rfl
    running := rfl
    userPage := userPage_syscallPagingSetup (eightM + slot * fourM) { kernel with
      tasksRunning := slot.toInt32
      taskSlots := Function.update kernel.taskSlots slot 1 }
    esp0 := rfl
    death := rfl
    ownLinks := hself.1
    ownEsp := hself.2
    parentPcb := fun hchild => by
      rw [executeClaim, pcbOf_fillPcb_parent hslot rfl hchild (hne hchild),
        pcbOf_loadProgram_claimSlot]
    otherPcb := fun task htask hother hold => by
      rw [executeClaim, pcbOf_fillPcb_of_ne hslot rfl
        (fun heq => hother (getPcb_injective htask hslot heq))
        (fun hchild heq => hold hchild (getPcb_injective htask (hparent hchild).1 heq)),
        pcbOf_loadProgram_claimSlot] }

/-- At most a text has been printed. -/
def ScreenOnly (before after : Kernel) : Prop :=
  ∃ text, after = { before with screen := puts text before.screen }

structure FirstFree (kernel : Kernel) (slot : UInt32) : Prop where
  lt : slot < 6
  free : kernel.taskSlots slot = 0
  lower : ∀ lower < slot, kernel.taskSlots lower ≠ 0

theorem syscallExecute_of_error {frame : ExecuteFrame} {command : CString} {kernel : Kernel}
    {value : Int32} (h : executeCheck frame command kernel.fs = .error value) :
    syscallExecute frame command kernel = (kernel, .returned value) := by
  simp [syscallExecute, h]

theorem syscallExecute_of_ok {frame : ExecuteFrame} {command : CString} {kernel : Kernel}
    {fileCheck : Dentry} (h : executeCheck frame command kernel.fs = .ok fileCheck) :
    (∀ slot < 6, kernel.taskSlots slot ≠ 0) ∧
        syscallExecute frame command kernel =
          (kernel.print "Max programs reached, only valid command: exit\n", .returned (-1)) ∨
      ∃ slot, FirstFree kernel slot ∧
        syscallExecute frame command kernel =
          ((executeClaim frame command fileCheck slot kernel).1,
            .entered (executeClaim frame command fileCheck slot kernel).2) := by
  rcases findOpenTask_cases kernel with ⟨hopen, hall⟩ | ⟨slot, hlt, hopen, hfree, hlower⟩
  · left
    have hnone : (-1 : Int32).toUInt32 = noTask := by decide
    exact ⟨hall, by simp [syscallExecute, h, hopen, hnone]⟩
  · right
    have hne : slot ≠ noTask := by
      rintro rfl
      exact absurd hlt (by decide)
    exact ⟨slot, ⟨hlt, hfree, hlower⟩, by simp [syscallExecute, h, hopen, hne]⟩

inductive Executed (frame : ExecuteFrame) (command : CString) (before after : Kernel)
    (exit : Exit) : Prop where
  | refused (value : Int32) (hcheck : executeCheck frame command before.fs = .error value)
      (hafter : after = before) (hexit : exit = .returned value)
  | full (fileCheck : Dentry) (hcheck : executeCheck frame command before.fs = .ok fileCheck)
      (hall : ∀ slot < 6, before.taskSlots slot ≠ 0) (hscreen : ScreenOnly before after)
      (hexit : exit = .returned (-1))
  | started (fileCheck : Dentry) (slot : UInt32)
      (hcheck : executeCheck frame command before.fs = .ok fileCheck)
      (hslot : FirstFree before slot)
      (hafter : after = (executeClaim frame command fileCheck slot before).1)
      (hexit : exit = .entered (executeClaim frame command fileCheck slot before).2)

theorem executed {frame : ExecuteFrame} {command : CString} {before after : Kernel} {exit : Exit}
    (h : syscallExecute frame command before = (after, exit)) :
    Executed frame command before after exit := by
  cases hcheck : executeCheck frame command before.fs with
  | error value =>
      rw [syscallExecute_of_error hcheck] at h
      cases h
      exact .refused value hcheck rfl rfl
  | ok fileCheck =>
      rcases syscallExecute_of_ok hcheck with ⟨hall, heq⟩ | ⟨slot, hslot, heq⟩
      · rw [heq] at h
        cases h
        exact .full fileCheck hcheck hall ⟨_, rfl⟩ rfl
      · rw [heq] at h
        cases h
        exact .started fileCheck slot hcheck hslot rfl rfl

theorem syscallExecute_cases {frame : ExecuteFrame} {command : CString}
    {kernel after : Kernel} {exit : Exit}
    (h : syscallExecute frame command kernel = (after, exit)) :
    ((∃ value, exit = .returned value) ∧ ScreenOnly kernel after) ∨
      ∃ slot fileCheck eip, FirstFree kernel slot ∧ exit = .entered eip ∧
        after = (executeClaim frame command fileCheck slot kernel).1 := by
  cases executed h with
  | refused value hcheck hafter hexit => exact .inl ⟨⟨value, hexit⟩, [], hafter⟩
  | full fileCheck hcheck hall hscreen hexit => exact .inl ⟨⟨-1, hexit⟩, hscreen⟩
  | started fileCheck slot hcheck hslot hafter hexit =>
      exact .inr ⟨slot, fileCheck, _, hslot, hexit, hafter⟩

/-! ## Halt -/

/-- The running program has ended, and its parent goes on behind its `execute`. -/
structure Ended (status : UInt8) (parent : UInt32) (before after : Kernel) (exit : Exit) : Prop
    extends SameGlobals before after where
  slots : after.taskSlots = Function.update before.taskSlots before.running 0
  running : after.tasksRunning = parent.toInt32
  userPage : after.userPage = (eightM + parent * fourM) ||| 0x87
  esp0 : after.tssEsp0 = (before.pcbOf before.running).oldEsp
  death : after.exceptionDeath = 0
  parentPcb : after.pcbOf parent = { before.pcbOf parent with taskIdChild := noTask }
  otherPcb : ∀ task < 6, task ≠ before.running → task ≠ parent →
    after.pcbOf task = before.pcbOf task
  exit : exit = .resumed (if before.exceptionDeath ≠ 0 then 256 else status.toUInt32)
    (before.pcbOf before.running).oldEsp (before.pcbOf before.running).oldEbp

theorem unmapVideo_eq (kernel : Kernel) :
    ∃ pageDirectory videoPage, pageDirectory 32 = kernel.userPage ∧
      unmapVideo kernel =
        { kernel with pageDirectory := pageDirectory, videoPage := videoPage } := by
  simp only [unmapVideo]
  split
  · exact ⟨_, _, userPage_videomemUnmap kernel, rfl⟩
  · exact ⟨_, _, rfl, rfl⟩

@[simp] theorem running_withFds (kernel : Kernel) (fd : UInt32 → FileDescriptor) :
    (kernel.withFds fd).running = kernel.running := rfl

theorem pcbOf_withFds_self (kernel : Kernel) (fd : UInt32 → FileDescriptor) :
    (kernel.withFds fd).pcbOf kernel.running =
      { kernel.pcbOf kernel.running with fd := fd } :=
  pcbOf_modifyPcb_self kernel kernel.running _

theorem pcbOf_withFds_of_ne {kernel : Kernel} {task : UInt32}
    (fd : UInt32 → FileDescriptor) (hne : getPcb task ≠ getPcb kernel.running) :
    (kernel.withFds fd).pcbOf task = kernel.pcbOf task :=
  pcbOf_modifyPcb_of_ne _ hne

theorem restoreParent_eq {kernel : Kernel} {parent : UInt32}
    (hparent : (kernel.pcbOf kernel.running).taskIdParent = parent)
    (hne : getPcb kernel.running ≠ getPcb parent) :
    ∃ pageDirectory videoPage,
      pageDirectory 32 = (eightM + parent * fourM) ||| 0x87 ∧
      restoreParent kernel =
        { kernel.modifyPcb parent fun pcb => { pcb with taskIdChild := noTask } with
          pageDirectory := pageDirectory, videoPage := videoPage } := by
  simp only [restoreParent, running_modifyPcb, hparent, pcbOf_modifyPcb_of_ne _ hne]
  obtain ⟨pageDirectory, videoPage, hpage, heq⟩ := unmapVideo_eq
    (syscallPagingSetup (eightM + parent * fourM)
      (kernel.modifyPcb parent fun pcb => { pcb with taskIdChild := noTask }))
  rw [userPage_syscallPagingSetup] at hpage
  exact ⟨pageDirectory, videoPage, hpage, heq⟩

theorem releaseTask_ended {status : UInt8} {kernel closed after : Kernel} {exit : Exit}
    {parent : UInt32} {fds : UInt32 → FileDescriptor} (hrunning : kernel.running < 6)
    (hlt : parent < 6) (hpcb : getPcb kernel.running ≠ getPcb parent)
    (hparent : (kernel.pcbOf kernel.running).taskIdParent = parent)
    (hrun : closed.running = kernel.running) (hglobals : SameGlobals kernel closed)
    (hslots : closed.taskSlots = kernel.taskSlots)
    (hdeath : closed.exceptionDeath = kernel.exceptionDeath)
    (hpage : closed.userPage = (eightM + parent * fourM) ||| 0x87)
    (hother : ∀ task, getPcb task ≠ getPcb kernel.running → closed.pcbOf task =
      (kernel.modifyPcb parent fun pcb => { pcb with taskIdChild := noTask }).pcbOf task)
    (h : releaseTask status { kernel.pcbOf kernel.running with fd := fds } closed =
      (after, exit)) : Ended status parent kernel after exit := by
  simp only [releaseTask, Prod.mk.injEq] at h
  obtain ⟨rfl, rfl⟩ := h
  exact {
    hglobals with
    slots := by simp only [hslots, hrun]
    running := by simp only [hparent]
    userPage := hpage
    esp0 := rfl
    death := by
      split
      · rfl
      · next hzero => simpa using hzero
    parentPcb := (hother parent hpcb.symm).trans (pcbOf_modifyPcb_self _ _ _)
    otherPcb := fun task htask htaskne htaskparent =>
      (hother task fun heq => htaskne (getPcb_injective htask hrunning heq)).trans
        (pcbOf_modifyPcb_of_ne _ fun heq => htaskparent (getPcb_injective htask hlt heq))
    exit := by simp only [hdeath] }

theorem haltChild_ended {status : UInt8} {kernel after : Kernel} {exit : Exit}
    {parent : UInt32} (hrunning : kernel.running < 6)
    (hparent : (kernel.pcbOf kernel.running).taskIdParent = parent) (hlt : parent < 6)
    (hne : parent ≠ kernel.running) (h : haltChild status kernel = some (after, exit)) :
    Ended status parent kernel after exit := by
  have hpcb : getPcb kernel.running ≠ getPcb parent := fun heq =>
    hne (getPcb_injective hrunning hlt heq).symm
  -- unlink, close, release: each writes two control blocks at most, and these are distinct
  obtain ⟨pageDirectory, videoPage, hpage, hrestore⟩ := restoreParent_eq hparent hpcb
  have hrun : (restoreParent kernel).running = kernel.running := by rw [hrestore]; rfl
  have hpcbOf : ∀ task, (restoreParent kernel).pcbOf task =
      (kernel.modifyPcb parent fun pcb => { pcb with taskIdChild := noTask }).pcbOf task := by
    intro task
    simp only [hrestore, Kernel.pcbOf]
  simp only [haltChild, Option.map_eq_some_iff] at h
  obtain ⟨closed, hclosed, hreleased⟩ := h
  rw [← hrun] at hclosed
  obtain ⟨fds, rfl⟩ := closeRelevantFds_withFds hclosed
  have hown : ((restoreParent kernel).withFds fds).pcb (getPcb kernel.running) =
      { kernel.pcbOf kernel.running with fd := fds } := by
    have hself := pcbOf_withFds_self (restoreParent kernel) fds
    rw [hrun, hpcbOf, pcbOf_modifyPcb_of_ne _ hpcb] at hself
    exact hself
  rw [hown] at hreleased
  have hclosedRun : ((restoreParent kernel).withFds fds).running = kernel.running := hrun
  refine releaseTask_ended hrunning hlt hpcb hparent hclosedRun ?_ ?_ ?_ ?_ ?_ hreleased
  · rw [hrestore]
    exact ⟨rfl, rfl, rfl, rfl⟩
  · rw [hrestore]; rfl
  · rw [hrestore]; rfl
  · rw [hrestore]
    exact hpage
  · intro task htask
    rw [← hrun] at htask
    exact (pcbOf_withFds_of_ne fds htask).trans (hpcbOf task)

theorem running_ne_noTask {kernel : Kernel} (h : 0 ≤ kernel.tasksRunning) :
    kernel.running ≠ noTask := by
  intro hnone
  have hvalue : kernel.tasksRunning = noTask.toInt32 := by
    rw [← hnone, Kernel.running, Int32.toInt32_toUInt32]
  rw [hvalue] at h
  exact absurd h (by decide)

theorem syscallHalt_cases {status : UInt8} {kernel after : Kernel} {exit : Exit}
    (h : syscallHalt status kernel = some (after, exit)) :
    ((kernel.pcbOf kernel.running).taskIdParent = noTask ∧
      (∃ text, after = { kernel with
        screen := puts text kernel.screen, tssEsp0 := stackTop kernel.running }) ∧
      exit = .restarted (kernel.pcbOf kernel.running).oldEip) ∨
    ((kernel.pcbOf kernel.running).taskIdParent ≠ noTask ∧
      haltChild status kernel = some (after, exit)) := by
  simp only [syscallHalt] at h
  split at h
  · cases h
  split at h
  · next hbase =>
      cases h
      exact .inl ⟨hbase, ⟨_, rfl⟩, rfl⟩
  · next hchild => exact .inr ⟨hchild, h⟩

theorem handleException_cases {message : String} {kernel after : Kernel} {exit : Exit}
    (h : handleException message kernel = some (after, exit)) :
    (kernel.running = 0 ∧ ScreenOnly kernel after ∧ exit = .hung) ∨
    (kernel.running ≠ 0 ∧ ∃ text,
      syscallHalt 0 { kernel with screen := puts text kernel.screen, exceptionDeath := 1 } =
        some (after, exit)) := by
  simp only [handleException] at h
  have hrunning : (kernel.print message).running = kernel.running := rfl
  rw [hrunning] at h
  split at h
  · next hne =>
      refine .inr ⟨hne, message.toList.map (fun char => UInt8.ofNat char.toNat) ++ [0x0A], ?_⟩
      rw [puts, List.foldl_append]
      exact h
  · next hzero =>
      cases h
      exact .inl ⟨by simpa using hzero, ⟨_, rfl⟩, rfl⟩

/-! ## Switching the displayed terminal -/

structure Switched (tid : UInt32) (bottom : Int32) (before after : Kernel) : Prop where
  image : after.fs = before.fs
  flag : after.bootupFlag = before.bootupFlag
  counter : after.pitCounter = before.pitCounter
  death : after.exceptionDeath = before.exceptionDeath
  slots : after.taskSlots = before.taskSlots
  links : ∀ task, after.links task = before.links task
  displayed : after.displayTerminalId = tid.toInt32
  running : after.tasksRunning = if bottom = -1 then before.tasksRunning else bottom
  userPage : after.userPage = (eightM + fourM * bottom.toUInt32) ||| 0x87

theorem toUInt32_eq_noTask_iff {bottom : Int32} : bottom.toUInt32 = noTask ↔ bottom = -1 := by
  have hnone : (-1 : Int32).toUInt32 = noTask := by decide
  rw [← hnone]
  exact ⟨fun h => by simpa using congrArg UInt32.toInt32 h, fun h => by rw [h]⟩

theorem switchDisplayTerminal_of_stay {regs : SwitchRegs} {tid : UInt32} {kernel : Kernel}
    (h : kernel.displayTerminalId.toUInt32 = tid ∨ tid > 2) :
    switchDisplayTerminal regs tid kernel = some kernel := by
  simp [switchDisplayTerminal, h]

theorem links_saveRegs (esp ebp task other : UInt32) (kernel : Kernel) :
    (saveRegs esp ebp task kernel).links other = kernel.links other :=
  links_modifyPcb task other (fun _ => rfl) (fun _ => rfl) (fun _ => rfl)

theorem links_showTerminal (tid : UInt32) (bottom : Int32) (kernel : Kernel) (task : UInt32) :
    (showTerminal tid bottom kernel).links task = kernel.links task := rfl

theorem Switched.saveRegs {tid : UInt32} {bottom : Int32} {before after : Kernel}
    (h : Switched tid bottom before after) (esp ebp task : UInt32) :
    Switched tid bottom before (saveRegs esp ebp task after) where
  image := h.image
  flag := h.flag
  counter := h.counter
  death := h.death
  slots := h.slots
  links other := (links_saveRegs esp ebp task other after).trans (h.links other)
  displayed := h.displayed
  running := h.running
  userPage := h.userPage

theorem switchRunningTask_eq {tid : UInt32} {bottom : Int32} {kernel : Kernel}
    (h : findBottomTask kernel tid = some bottom) :
    switchRunningTask tid kernel =
      some ({ kernel with
        tasksRunning := if bottom = -1 then kernel.tasksRunning else bottom },
        if bottom = -1 then -1 else 0) := by
  by_cases hnone : bottom = -1
  · simp [switchRunningTask, h, toUInt32_eq_noTask_iff, hnone]
  · simp [switchRunningTask, h, toUInt32_eq_noTask_iff, hnone]

theorem switchDisplayTerminal_of_move (regs : SwitchRegs) {tid : UInt32} {kernel : Kernel}
    {bottom : Int32} (h : ¬ (kernel.displayTerminalId.toUInt32 = tid ∨ tid > 2))
    (hbottom : findBottomTask kernel tid = some bottom) :
    ∃ after, switchDisplayTerminal regs tid kernel = some after ∧
      Switched tid bottom kernel after := by
  have hagain : findBottomTask (showTerminal tid bottom kernel) tid = some bottom := by
    rw [← hbottom]
    exact findBottomTask_congr rfl (links_showTerminal tid bottom kernel) tid
  have hshown : Switched tid bottom kernel { showTerminal tid bottom kernel with
      tasksRunning := if bottom = -1 then kernel.tasksRunning else bottom } := {
    image := rfl
    flag := rfl
    counter := rfl
    death := rfl
    slots := rfl
    links := links_showTerminal tid bottom kernel
    displayed := rfl
    running := rfl
    userPage := userPage_syscallPagingSetup (eightM + fourM * bottom.toUInt32) kernel }
  refine ⟨_, ?_, (hshown.saveRegs regs.prevEsp regs.prevEbp
    kernel.displayTerminalId.toUInt32).saveRegs regs.nextEsp regs.nextEbp tid⟩
  simp only [switchDisplayTerminal, if_neg h, hbottom, Option.bind_eq_bind, Option.bind_some,
    switchRunningTask_eq hagain]
  rfl

theorem switchDisplayTerminal_cases {regs : SwitchRegs} {tid : UInt32} {kernel after : Kernel}
    (h : switchDisplayTerminal regs tid kernel = some after) :
    ((kernel.displayTerminalId.toUInt32 = tid ∨ tid > 2) ∧ after = kernel) ∨
    (¬ (kernel.displayTerminalId.toUInt32 = tid ∨ tid > 2) ∧
      ∃ bottom, findBottomTask kernel tid = some bottom ∧ Switched tid bottom kernel after) := by
  by_cases hstay : kernel.displayTerminalId.toUInt32 = tid ∨ tid > 2
  · rw [switchDisplayTerminal_of_stay hstay, Option.some.injEq] at h
    exact .inl ⟨hstay, h.symm⟩
  · right
    refine ⟨hstay, ?_⟩
    cases hbottom : findBottomTask kernel tid with
    | none => simp [switchDisplayTerminal, hstay, hbottom] at h
    | some bottom =>
        obtain ⟨after', heq, hswitched⟩ :=
          switchDisplayTerminal_of_move regs hstay hbottom
        rw [heq, Option.some.injEq] at h
        exact ⟨bottom, rfl, h ▸ hswitched⟩

/-! ## Timer ticks -/

theorem bootSwitchBack_cases {regs : SwitchRegs} {tNum tNum' : UInt32} {kernel booted : Kernel}
    (h : bootSwitchBack regs tNum kernel = some (booted, tNum')) :
    (kernel.bootupFlag = 0 ∧ booted = kernel ∧ tNum' = tNum) ∨
    (kernel.bootupFlag ≠ 0 ∧ tNum' = 0 ∧ ∃ switched,
      switchDisplayTerminal regs 0 kernel = some switched ∧
      booted = { switched with bootupFlag := 0 }) := by
  simp only [bootSwitchBack] at h
  split at h
  · next hflag =>
      obtain ⟨switched, hswitch, heq⟩ := Option.map_eq_some_iff.mp h
      cases heq
      exact .inr ⟨hflag, rfl, switched, hswitch, rfl⟩
  · next hflag =>
      cases h
      exact .inl ⟨by simpa using hflag, rfl, rfl⟩

theorem scheduler_cases {frame : TickFrame} {tNum : UInt32} {kernel after : Kernel}
    {exit : Exit} (h : scheduler frame tNum kernel = some (after, exit)) :
    (tNum ≥ 3 ∧ after = kernel ∧ exit = .returned 0) ∨
    (tNum < 3 ∧ ∃ booted terminal active,
      bootSwitchBack frame.bootSwitch tNum kernel = some (booted, terminal) ∧
      findBottomTask booted terminal = some active ∧
      ((active ≠ -1 ∧ after = { booted with activeProcess := active } ∧ exit = .returned 0) ∨
        (active = -1 ∧ ∃ switched,
          switchDisplayTerminal frame.spawnSwitch terminal
            { booted with
              activeProcess := active
              bootupFlag := if terminal = 2 then 1 else booted.bootupFlag } = some switched ∧
          syscallExecute frame.execute shellName switched = (after, exit)))) := by
  simp only [scheduler] at h
  split at h
  · next hge =>
      cases h
      exact .inl ⟨hge, rfl, rfl⟩
  · next hlt =>
      right
      refine ⟨by grind, ?_⟩
      obtain ⟨⟨booted, terminal⟩, hboot, h⟩ := Option.bind_eq_some_iff.mp h
      obtain ⟨active, hactive, h⟩ := Option.bind_eq_some_iff.mp h
      refine ⟨booted, terminal, active, hboot, hactive, ?_⟩
      split at h
      · next hnone =>
          right
          refine ⟨hnone, ?_⟩
          obtain ⟨switched, hswitch, hexecute⟩ := Option.map_eq_some_iff.mp h
          refine ⟨switched, ?_, hexecute⟩
          rw [← hswitch]
          congr 1
          split <;> rfl
      · next hsome =>
          cases h
          exact .inl ⟨hsome, rfl, rfl⟩

/-- What display switches, executes and the scheduler's own variables keep, a tick keeps. -/
theorem scheduler_invariant {inv : Kernel → Prop}
    (counters : ∀ kernel flag active, inv kernel →
      inv { kernel with bootupFlag := flag, activeProcess := active })
    (switch : ∀ regs tid before after, inv before →
      switchDisplayTerminal regs tid before = some after → inv after)
    (execute : ∀ frame command before after exit, inv before →
      syscallExecute frame command before = (after, exit) → inv after)
    {frame : TickFrame} {tNum : UInt32} {before after : Kernel} {exit : Exit}
    (hinv : inv before) (h : scheduler frame tNum before = some (after, exit)) : inv after := by
  rcases scheduler_cases h with ⟨-, rfl, -⟩ | ⟨-, booted, terminal, active, hboot, -, hrest⟩
  · exact hinv
  · have hbooted : inv booted := by
      rcases bootSwitchBack_cases hboot with ⟨-, rfl, -⟩ | ⟨-, -, switched, hswitch, rfl⟩
      · exact hinv
      · exact counters switched 0 switched.activeProcess (switch _ _ _ _ hinv hswitch)
    rcases hrest with ⟨-, rfl, -⟩ | ⟨-, switched, hswitch, hexecute⟩
    · exact counters booted booted.bootupFlag active hbooted
    · exact execute _ _ _ _ _
        (switch _ _ _ _ (counters _ _ _ hbooted) hswitch) hexecute

theorem pitHandler_cases {frame : TickFrame} {kernel after : Kernel} {exit : Exit}
    (h : pitHandler frame kernel = some (after, exit)) :
    ∃ ticked counter, scheduler frame (UInt32.ofInt kernel.pitCounter) kernel =
      some (ticked, exit) ∧ after = { ticked with pitCounter := counter } := by
  obtain ⟨⟨ticked, result⟩, htick, h⟩ := Option.map_eq_some_iff.mp h
  refine ⟨ticked, ?_⟩
  cases result <;> cases h <;> exact ⟨_, htick, rfl⟩

/-! ## Events -/

theorem whenRunning_eq_some {kernel after : Kernel} {exit : Exit}
    {result : Option (Kernel × Exit)} (h : whenRunning kernel result = some (after, exit)) :
    0 ≤ kernel.tasksRunning ∧ result = some (after, exit) := by
  simp only [whenRunning] at h
  split at h
  · next hge => exact ⟨hge, h⟩
  · simp at h

inductive Performed (before after : Kernel) (exit : Exit) : Event → Prop where
  | tick {frame : TickFrame} (hpit : pitHandler frame before = some (after, exit)) :
      Performed before after exit (.tick frame)
  | schedule {frame : TickFrame} {tNum : UInt32}
      (htick : scheduler frame tNum before = some (after, exit)) :
      Performed before after exit (.schedule frame tNum)
  | chord {regs : SwitchRegs} {tid : UInt32}
      (hswitch : switchDisplayTerminal regs tid before = some after)
      (hexit : exit = .returned 0) : Performed before after exit (.chord regs tid)
  | execute {frame : ExecuteFrame} {command : CString} (hge : 0 ≤ before.tasksRunning)
      (hexecute : syscallExecute frame command before = (after, exit)) :
      Performed before after exit (.execute frame command)
  | halt {status : UInt8} (hge : 0 ≤ before.tasksRunning)
      (hhalt : syscallHalt status before = some (after, exit)) :
      Performed before after exit (.halt status)
  | exception {message : String} (hge : 0 ≤ before.tasksRunning)
      (hexception : handleException message before = some (after, exit)) :
      Performed before after exit (.exception message)

theorem performed {event : Event} {before after : Kernel} {exit : Exit}
    (h : perform event before = some (after, exit)) : Performed before after exit event := by
  cases event with
  | tick frame => exact .tick h
  | schedule frame tNum => exact .schedule h
  | chord regs tid =>
      obtain ⟨switched, hswitch, heq⟩ := Option.map_eq_some_iff.mp h
      cases heq
      exact .chord hswitch rfl
  | execute frame command =>
      obtain ⟨hge, hexecute⟩ := whenRunning_eq_some h
      exact .execute hge (Option.some.inj hexecute)
  | halt status =>
      obtain ⟨hge, hhalt⟩ := whenRunning_eq_some h
      exact .halt hge hhalt
  | exception message =>
      obtain ⟨hge, hexception⟩ := whenRunning_eq_some h
      exact .exception hge hexception

end LinuxOS
