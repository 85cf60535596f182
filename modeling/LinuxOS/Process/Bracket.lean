import LinuxOS.Files.Opening
import LinuxOS.Process.AddressSpace

/-!
# A program between its `execute` and its `halt`

A call of a running program changes its own descriptors at most; a program and
all that it starts, taken from `execute` to `halt`, leave every task that was
there before as it was.
-/

namespace LinuxOS

open Foundation

structure CallOnly (before after : Kernel) : Prop where
  slots : after.taskSlots = before.taskSlots
  running : after.tasksRunning = before.tasksRunning
  pages : after.pageDirectory = before.pageDirectory
  pcb : ∃ fds, after.pcb = (before.withFds fds).pcb

theorem CallOnly.of_pcb {before after : Kernel} (hslots : after.taskSlots = before.taskSlots)
    (hrunning : after.tasksRunning = before.tasksRunning)
    (hpages : after.pageDirectory = before.pageDirectory) (hpcb : after.pcb = before.pcb) :
    CallOnly before after :=
  ⟨hslots, hrunning, hpages, _, by rw [withFds_self, hpcb]⟩

theorem CallOnly.refl (kernel : Kernel) : CallOnly kernel kernel := .of_pcb rfl rfl rfl rfl

theorem CallOnly.withFds (kernel : Kernel) (fds : UInt32 → FileDescriptor) :
    CallOnly kernel (kernel.withFds fds) := ⟨rfl, rfl, rfl, fds, rfl⟩

theorem withFds_pcb_congr {before after : Kernel}
    (hrunning : after.tasksRunning = before.tasksRunning) (hpcb : after.pcb = before.pcb)
    (fds : UInt32 → FileDescriptor) :
    (after.withFds fds).pcb = (before.withFds fds).pcb := by
  simp only [Kernel.withFds, Kernel.modifyPcb, Kernel.pcbOf, Kernel.running, hrunning, hpcb]

theorem CallOnly.trans {first second third : Kernel} (h : CallOnly first second)
    (h' : CallOnly second third) : CallOnly first third := by
  obtain ⟨fds, hpcb⟩ := h.pcb
  obtain ⟨fds', hpcb'⟩ := h'.pcb
  refine ⟨h'.slots.trans h.slots, h'.running.trans h.running, h'.pages.trans h.pages, fds', ?_⟩
  have hrunning : second.tasksRunning = (first.withFds fds).tasksRunning := h.running
  rw [hpcb', withFds_pcb_congr hrunning hpcb, withFds_withFds]

theorem CallOnly.modifyFd (kernel : Kernel) (fd : UInt32)
    (change : FileDescriptor → FileDescriptor) : CallOnly kernel (kernel.modifyFd fd change) :=
  .withFds kernel _

theorem CallOnly.storeUser (kernel : Kernel) (stores : Stores) :
    CallOnly kernel (kernel.storeUser stores) := .of_pcb rfl rfl rfl rfl

/-! ## The calls -/

theorem syscallClose_callOnly {fd : Int32} {kernel after : Kernel} {value : Int32}
    (h : syscallClose fd kernel = some (after, value)) : CallOnly kernel after := by
  obtain ⟨fds, rfl⟩ := syscallClose_withFds h
  exact .withFds kernel fds

theorem openDevice_callOnly (table : FopsTable) (kernel : Kernel) :
    CallOnly kernel (table.openDevice kernel) := by
  cases table <;> exact .of_pcb rfl rfl rfl rfl

theorem syscallOpen_callOnly {filename : Option CString} {kernel after : Kernel} {value : Int32}
    (h : syscallOpen filename kernel = some (after, value)) : CallOnly kernel after := by
  rcases syscallOpen_cases h with rfl | ⟨fd, -, ⟨table, rfl⟩ | ⟨table, entry, rfl⟩⟩
  · exact .refl _
  · exact .modifyFd kernel fd _
  · exact (openDevice_callOnly table kernel).trans (.modifyFd _ fd _)

theorem syscallRead_callOnly {interrupts fd buf : UInt32} {nbytes value : Int32}
    {kernel after : Kernel} {stores : Stores}
    (h : syscallRead interrupts fd buf nbytes kernel = some (after, value, stores)) :
    CallOnly kernel after := by
  rcases syscallRead_cases h with ⟨terminal, count, memory, hafter⟩ | ⟨-, position, hafter⟩
  · exact .of_pcb (by rw [hafter]) (by rw [hafter]) (by rw [hafter]) (by rw [hafter])
  · rw [hafter]
    exact (CallOnly.modifyFd kernel fd _).trans (.storeUser _ _)

theorem Call.callOnly {call : Call} {kernel after : Kernel} {value : Int32} {stores : Stores}
    (h : call.perform kernel = some (after, value, stores)) : CallOnly kernel after := by
  cases call with
  | openFile filename =>
      obtain ⟨⟨opened, result⟩, hopen, heq⟩ := Option.map_eq_some_iff.mp h
      cases heq
      exact syscallOpen_callOnly hopen
  | readFd interrupts fd buf nbytes => exact syscallRead_callOnly h
  | writeFd fd source nbytes =>
      obtain ⟨⟨written, result⟩, hwrite, heq⟩ := Option.map_eq_some_iff.mp h
      cases heq
      obtain ⟨screen, virtFreq, interrupts, hafter⟩ := syscallWrite_eq hwrite
      exact .of_pcb (by rw [hafter]) (by rw [hafter]) (by rw [hafter]) (by rw [hafter])
  | closeFd fd =>
      obtain ⟨⟨closed, result⟩, hclose, heq⟩ := Option.map_eq_some_iff.mp h
      cases heq
      exact syscallClose_callOnly hclose
  | getargs buf nbytes =>
      rw [syscallGetargs_eq h]
      exact .storeUser kernel stores

theorem CallOnly.pcbOf_self {before after : Kernel} (h : CallOnly before after) :
    ∃ fds, after.pcbOf before.running = { before.pcbOf before.running with fd := fds } := by
  obtain ⟨fds, hpcb⟩ := h.pcb
  refine ⟨fds, ?_⟩
  rw [Kernel.pcbOf, hpcb]
  exact pcbOf_withFds_self before fds

theorem CallOnly.pcbOf_of_ne {before after : Kernel} (h : CallOnly before after)
    {task : UInt32} (hne : getPcb task ≠ getPcb before.running) :
    after.pcbOf task = before.pcbOf task := by
  obtain ⟨fds, hpcb⟩ := h.pcb
  rw [Kernel.pcbOf, hpcb]
  exact pcbOf_withFds_of_ne fds hne

theorem CallOnly.sameTasks {before after : Kernel} (h : CallOnly before after) :
    SameTasks before after where
  slots := h.slots
  running := h.running
  links task := by
    by_cases heq : getPcb task = getPcb before.running
    · obtain ⟨fds, hself⟩ := h.pcbOf_self
      simp only [Kernel.pcbOf, ← heq] at hself
      simp only [Kernel.links, Kernel.pcbOf, hself]
    · simp only [Kernel.links, h.pcbOf_of_ne heq]

/-! ## Nested runs -/

/--
What a program does between two points at which its own code runs: it computes
in its user page, makes calls that store there, has an `execute` refused, or
starts a child that runs in the same way and halts.
-/
inductive NestedRun : Kernel → Kernel → Prop
  | done (kernel : Kernel) : NestedRun kernel kernel
  | compute {before after : Kernel} (userMemory : UInt32 → UInt8) :
      NestedRun { before with userMemory := userMemory } after → NestedRun before after
  | call {before next after : Kernel} {call : Call} {value : Int32} {stores : Stores} :
      call.perform before = some (next, value, stores) → storesInside stores = true →
      NestedRun next after → NestedRun before after
  | refused {before next after : Kernel} {frame : ExecuteFrame} {command : CString}
      {value : Int32} :
      syscallExecute frame command before = (next, .returned value) → NestedRun next after →
      NestedRun before after
  | child {before started ended next after : Kernel} {frame : ExecuteFrame}
      {command : CString} {eip value esp ebp : UInt32} {status : UInt8} :
      syscallExecute frame command before = (started, .entered eip) →
      NestedRun started ended →
      syscallHalt status ended = some (next, .resumed value esp ebp) →
      NestedRun next after → NestedRun before after

/-- All tasks are as before, except for the descriptors of the running one. -/
structure Bracketed (before after : Kernel) : Prop where
  slots : after.taskSlots = before.taskSlots
  running : after.tasksRunning = before.tasksRunning
  userPage : before.userPage = frameEntry before.running →
    after.userPage = frameEntry before.running
  own : ∃ fds, after.pcbOf before.running = { before.pcbOf before.running with fd := fds }
  others : ∀ task, Occupied before task → task ≠ before.running →
    after.pcbOf task = before.pcbOf task

theorem Bracketed.running_eq {before after : Kernel} (h : Bracketed before after) :
    after.running = before.running := by
  simp only [Kernel.running, h.running]

theorem Bracketed.refl (kernel : Kernel) : Bracketed kernel kernel :=
  ⟨rfl, rfl, id, ⟨_, rfl⟩, fun _ _ _ => rfl⟩

theorem Bracketed.trans {first second third : Kernel} (h : Bracketed first second)
    (h' : Bracketed second third) : Bracketed first third where
  slots := h'.slots.trans h.slots
  running := h'.running.trans h.running
  userPage hpage := by
    have hsecond := h.userPage hpage
    rw [← h.running_eq] at hsecond ⊢
    exact h'.userPage hsecond
  own := by
    obtain ⟨fds, hown⟩ := h.own
    obtain ⟨fds', hown'⟩ := h'.own
    rw [h.running_eq, hown] at hown'
    exact ⟨fds', hown'⟩
  others task hocc hne := by
    rw [h'.others task ((occupied_congr h.slots task).mpr hocc) (h.running_eq ▸ hne)]
    exact h.others task hocc hne

theorem CallOnly.bracketed {before after : Kernel} (h : CallOnly before after)
    (hrunning : before.running < 6) : Bracketed before after where
  slots := h.slots
  running := h.running
  userPage hpage := by
    simpa only [Kernel.userPage, h.pages] using hpage
  own := h.pcbOf_self
  others task hocc hne :=
    h.pcbOf_of_ne fun heq => hne (getPcb_injective hocc.1 hrunning heq)

/--
One bracket: a program is started, leaves all tasks but its own descriptors
alone, and halts.  Then every task that was there has its old control block.
-/
theorem bracket {frame : ExecuteFrame} {slot : UInt32} {status : UInt8}
    {before started ended after : Kernel} {value esp ebp : UInt32} (h : Chains before)
    (hshells : ∀ base < 3, Occupied before base) (hge : 0 ≤ before.tasksRunning)
    (hslot : FirstFree before slot) (hstarted : Started frame slot before started)
    (hinner : Bracketed started ended) (hended : Chains ended)
    (hhalt : syscallHalt status ended = some (after, .resumed value esp ebp)) :
    after.taskSlots = before.taskSlots ∧ after.tasksRunning = before.tasksRunning ∧
      after.userPage = frameEntry before.running ∧
      ∀ task, Occupied before task → after.pcbOf task = before.pcbOf task := by
  obtain ⟨hocc, hchildless⟩ := h.running hge
  have hchild : slot ≥ 3 := by
    by_contra hbase
    exact (hshells slot (by grind)).2 hslot.free
  have hne : ∀ task, Occupied before task → task ≠ slot := by
    rintro task htask rfl
    exact htask.2 hslot.free
  have hrun : ended.running = slot := hinner.running_eq.trans hstarted.running_eq
  have hgeEnded : 0 ≤ ended.tasksRunning := by
    rw [hinner.running, hstarted.running]
    exact zero_le_toInt32 hslot.lt
  -- the child still has the task that executed it as its parent
  have hparent : (ended.links ended.running).parent = before.running := by
    obtain ⟨fds, hown⟩ := hinner.own
    have hlinks := hstarted.ownLinks
    rw [if_pos hchild] at hlinks
    rw [hstarted.running_eq] at hown
    rw [hrun, Kernel.links, hown]
    exact congrArg TaskLinks.parent hlinks
  rcases hended.halt_cases hgeEnded hhalt with ⟨-, -, hexit⟩ | ⟨-, hafter⟩
  · simp at hexit
  rw [hparent] at hafter
  have hothers : ∀ task, Occupied before task → ended.pcbOf task = started.pcbOf task := by
    intro task htask
    refine hinner.others task ((hstarted.occupied_iff hslot.lt task).mpr (.inr htask)) ?_
    rw [hstarted.running_eq]
    exact hne task htask
  refine ⟨?_, ?_, ?_, fun task htask => ?_⟩
  · rw [hafter.slots, hrun, hinner.slots, hstarted.slots, Function.update_idem, ← hslot.free,
      Function.update_eq_self]
  · rw [hafter.running]
    simp [Kernel.running]
  · rw [hafter.userPage, frameEntry, UInt32.mul_comm]
  · by_cases hself : task = before.running
    · have hnone : (before.pcbOf before.running).taskIdChild = noTask := hchildless
      rw [hself, hafter.parentPcb, hothers _ hocc, hstarted.parentPcb hchild, ← hnone]
    · rw [hafter.otherPcb task htask.1 (hrun ▸ hne task htask) hself, hothers task htask,
        hstarted.otherPcb task htask.1 (hne task htask) fun _ => hself]

/-- A program's whole run is bracketed; the induction is on the nesting. -/
theorem NestedRun.bracketed {before after : Kernel} (hrun : NestedRun before after)
    (h : Chains before) (hshells : ∀ base < 3, Occupied before base)
    (hge : 0 ≤ before.tasksRunning) : Bracketed before after ∧ Chains after := by
  induction hrun with
  | done kernel => exact ⟨.refl kernel, h⟩
  | @compute before after userMemory _ ih =>
      have hcall : CallOnly before { before with userMemory := userMemory } :=
        .of_pcb rfl rfl rfl rfl
      obtain ⟨hrest, hchains⟩ := ih (h.sameTasks hcall.sameTasks) hshells hge
      exact ⟨(hcall.bracketed (h.running hge).1.1).trans hrest, hchains⟩
  | @call before next after call value stores hcall _ _ ih =>
      have hcall := Call.callOnly hcall
      obtain ⟨hrest, hchains⟩ := ih (h.sameTasks hcall.sameTasks)
        (fun base hlt => (occupied_congr hcall.slots base).mpr (hshells base hlt))
        (hcall.running ▸ hge)
      exact ⟨(hcall.bracketed (h.running hge).1.1).trans hrest, hchains⟩
  | @refused before next after frame command value hexecute _ ih =>
      rcases syscallExecute_cases hexecute with ⟨-, text, rfl⟩ | ⟨_, _, _, -, hexit, -⟩
      · have hcall : CallOnly before { before with screen := puts text before.screen } :=
          .of_pcb rfl rfl rfl rfl
        obtain ⟨hrest, hchains⟩ := ih (h.sameTasks hcall.sameTasks) hshells hge
        exact ⟨(hcall.bracketed (h.running hge).1.1).trans hrest, hchains⟩
      · simp at hexit
  | @child before started ended next after frame command eip value esp ebp status
      hexecute _ hhalt _ ihInner ihRest =>
      obtain ⟨slot, hslot, hstarted⟩ := h.started_of_entered hexecute
      have hgeStarted : 0 ≤ started.tasksRunning := by
        rw [hstarted.running]
        exact zero_le_toInt32 hslot.lt
      obtain ⟨hinner, hended⟩ := ihInner (h.started hslot hstarted)
        (fun base hlt => (hstarted.occupied_iff hslot.lt base).mpr (.inr (hshells base hlt)))
        hgeStarted
      have hgeEnded : 0 ≤ ended.tasksRunning := hinner.running ▸ hgeStarted
      obtain ⟨hslots, hrunning, hpage, hpcb⟩ :=
        bracket h hshells hge hslot hstarted hinner hended hhalt
      have hbracket : Bracketed before next := {
        slots := hslots
        running := hrunning
        userPage := fun _ => hpage
        own := ⟨_, hpcb _ (h.running hge).1⟩
        others := fun task hocc _ => hpcb task hocc }
      obtain ⟨hrest, hchains⟩ := ihRest (hended.halt hgeEnded hhalt)
        (fun base hlt => (occupied_congr hslots base).mpr (hshells base hlt))
        (hrunning ▸ hge)
      exact ⟨hbracket.trans hrest, hchains⟩

/--
From the `execute` of a program to its own halt, with any nested run between
them: the slots, `tasks_running` and every task that was alive are as before,
and the user page is the executing task's own frame.
-/
theorem execute_to_halt {frame : ExecuteFrame} {command : CString} {status : UInt8}
    {before started ended after : Kernel} {eip value esp ebp : UInt32}
    (hshells : ∀ base < 3, Occupied before base) (htree : ProcessTree before)
    (hge : 0 ≤ before.tasksRunning)
    (hexecute : syscallExecute frame command before = (started, .entered eip))
    (hrun : NestedRun started ended)
    (hhalt : syscallHalt status ended = some (after, .resumed value esp ebp)) :
    after.taskSlots = before.taskSlots ∧ after.tasksRunning = before.tasksRunning ∧
      after.userPage = frameEntry before.running ∧
      (before.userPage = frameEntry before.running → after.userPage = before.userPage) ∧
      (after.pcbOf before.running).taskIdChild = noTask ∧
      ∀ task, Occupied before task → after.pcbOf task = before.pcbOf task := by
  have h := htree.chains hge
  obtain ⟨slot, hslot, hstarted⟩ := h.started_of_entered hexecute
  obtain ⟨hinner, hended⟩ := hrun.bracketed (h.started hslot hstarted)
    (fun base hlt => (hstarted.occupied_iff hslot.lt base).mpr (.inr (hshells base hlt)))
    (by rw [hstarted.running]; exact zero_le_toInt32 hslot.lt)
  obtain ⟨hslots, hrunning, hpage, hpcb⟩ :=
    bracket h hshells hge hslot hstarted hinner hended hhalt
  obtain ⟨hocc, hchildless⟩ := h.running hge
  refine ⟨hslots, hrunning, hpage, fun hmapped => hpage.trans hmapped.symm, ?_, hpcb⟩
  rw [hpcb _ hocc]
  exact hchildless

theorem execute_to_halt_shells :
    ∃ started next after eip value esp ebp,
      syscallExecute default shellName shellsKernel = (started, .entered eip) ∧
      (Call.closeFd 2).perform started = some (next, -1, []) ∧
      syscallHalt 3 next = some (after, .resumed value esp ebp) ∧
      after.taskSlots = shellsKernel.taskSlots ∧
      ∀ task, Occupied shellsKernel task → after.pcbOf task = shellsKernel.pcbOf task := by
  have hentered : (syscallExecute default shellName shellsKernel).2.isEntered = true := by
    decide +kernel
  have hclose : ((Call.closeFd 2).perform (syscallExecute default shellName shellsKernel).1).any
      (fun closed => decide (closed.2 = (-1, [])) &&
        (syscallHalt 3 closed.1).any fun halted => decide (halted.2.value? = some 3)) = true := by
    decide +kernel
  have hge : 0 ≤ shellsKernel.tasksRunning := by decide +kernel
  obtain ⟨⟨started, exit⟩, hexecute⟩ : ∃ result,
      syscallExecute default shellName shellsKernel = result := ⟨_, rfl⟩
  rw [hexecute] at hentered hclose
  obtain ⟨eip, rfl⟩ := Exit.exists_entered hentered
  obtain ⟨⟨next, result⟩, hcall, hboth⟩ := (Option.any_eq_true _ _).mp hclose
  rw [Bool.and_eq_true, decide_eq_true_eq] at hboth
  obtain ⟨rfl, hhalted⟩ := hboth
  obtain ⟨⟨after, exit⟩, hhalt, hvalue⟩ := (Option.any_eq_true _ _).mp hhalted
  obtain ⟨esp, ebp, rfl⟩ := Exit.exists_resumed (of_decide_eq_true hvalue)
  obtain ⟨hslots, -, -, -, -, hpcb⟩ := execute_to_halt agree_shellsKernel.shells
    agree_shellsKernel.tree hge hexecute (.call hcall rfl (.done next)) hhalt
  exact ⟨started, next, after, eip, 3, esp, ebp, hexecute, hcall, hhalt, hslots, hpcb⟩

/-- Where another frame than the task's own is mapped, the bracket does not bring it back. -/
theorem userPage_changed_by_bracket :
    ∃ before started after : Kernel, ∃ eip value esp ebp,
      (∀ base < 3, Occupied before base) ∧ ProcessTree before ∧ 0 ≤ before.tasksRunning ∧
      syscallExecute default shellName before = (started, .entered eip) ∧
      NestedRun started started ∧
      syscallHalt 3 started = some (after, .resumed value esp ebp) ∧
      after.pageDirectory 32 ≠ before.pageDirectory 32 := by
  have hentered :
      (syscallExecute default shellName
        (syscallPagingSetup 0 shellsKernel)).2.isEntered = true := by
    decide +kernel
  have hhalted :
      (syscallHalt 3 (syscallExecute default shellName (syscallPagingSetup 0 shellsKernel)).1).any
        (fun halted => decide (halted.2.value? = some 3) &&
          decide (halted.1.pageDirectory 32 ≠
            (syscallPagingSetup 0 shellsKernel).pageDirectory 32)) = true := by
    decide +kernel
  have hge : 0 ≤ (syscallPagingSetup 0 shellsKernel).tasksRunning := by decide +kernel
  have hsame : SameTasks shellsKernel (syscallPagingSetup 0 shellsKernel) := .of_pcb rfl rfl rfl
  generalize syscallPagingSetup 0 shellsKernel = before at *
  obtain ⟨⟨started, exit⟩, hexecute⟩ : ∃ result,
      syscallExecute default shellName before = result := ⟨_, rfl⟩
  rw [hexecute] at hentered hhalted
  obtain ⟨eip, rfl⟩ := Exit.exists_entered hentered
  obtain ⟨⟨after, exit⟩, hhalt, hboth⟩ := (Option.any_eq_true _ _).mp hhalted
  rw [Bool.and_eq_true, decide_eq_true_eq, decide_eq_true_eq] at hboth
  obtain ⟨hvalue, hpage⟩ := hboth
  obtain ⟨esp, ebp, rfl⟩ := Exit.exists_resumed hvalue
  exact ⟨before, started, after, eip, 3, esp, ebp,
    fun base hlt => (occupied_congr hsame.slots base).mpr (agree_shellsKernel.shells base hlt),
    agree_shellsKernel.tree.sameTasks hsame, hge, hexecute, .done started, hhalt, hpage⟩

end LinuxOS
