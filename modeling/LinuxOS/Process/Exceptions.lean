import LinuxOS.Kernel.Exceptions
import LinuxOS.Process.Release

/-!
# What an exception does to the running task

The handler tests `tasks_running` as if 0 stood for "no task".  It ends the
running task through `syscall_halt` from task 1 on, spins for ever under task 0,
and before the first task runs it faults again in `syscall_halt`.
-/

namespace LinuxOS

open Foundation

/-! ## What a handler should do -/

/-- What has become of the running task: restarted, or gone and its parent resumed. -/
inductive Squashed (before after : Kernel) (exit : Exit) : Prop where
  | restarted (hbase : (before.links before.running).parent = noTask)
      (hafter : ∃ screen, after =
        { before with screen := screen, tssEsp0 := stackTop before.running })
      (hexit : exit = .restarted (before.pcbOf before.running).oldEip)
  | resumed (hbelow : RunningBelow before (before.links before.running).parent)
      (hended : Ended 0 (before.links before.running).parent before after exit)

/-- The handler comes to `syscall_halt`, which squashes the running task. -/
def EndsRunning (handler : ExceptionHandler) (kernel : Kernel) : Prop :=
  ∃ shown screen after exit,
    shown = { kernel with screen := screen, exceptionDeath := 1 } ∧
    handler kernel = some (after, exit) ∧ syscallHalt 0 shown = some (after, exit) ∧
    Squashed shown after exit

/--
The handler gets to its end without a control block: none is read or written,
and the slots and the running task stay.
-/
structure LeavesTasks (handler : ExceptionHandler) (kernel : Kernel) : Prop where
  ends : (handler kernel).isSome
  unread : ∀ pcb, handler { kernel with pcb := pcb } =
    (handler kernel).map fun (after, exit) => ({ after with pcb := pcb }, exit)
  slots : ∀ after exit, handler kernel = some (after, exit) → after.taskSlots = kernel.taskSlots
  running : ∀ after exit, handler kernel = some (after, exit) →
    after.tasksRunning = kernel.tasksRunning

structure HandlesException (handler : ExceptionHandler) (kernel : Kernel) : Prop where
  ends : 0 ≤ kernel.tasksRunning → EndsRunning handler kernel
  leaves : kernel.tasksRunning = -1 → LeavesTasks handler kernel

/-! ## An open descriptor has a table -/

theorem lastsAt_table {fd : UInt32} (hfd : fd ≤ 7) :
    LastsAt fd fun descriptor => descriptor.flags ≠ 0 → descriptor.fopsTable ≠ none where
  inside := hfd
  initial := by
    unfold initialFd
    split
    · simp
    split
    · simp
    · simp
  changes before after hchanges h hopen := by
    cases hchanges with
    | kept => exact h hopen
    | traced table hbefore => exact absurd hbefore hopen
    | opened table entry hbefore => simp [FopsTable.openFd]
    | moved position hbefore => exact h hbefore
    | closed hbefore =>
        have htable := h hbefore
        unfold closedBy
        split
        · simpa using htable
        · simpa using htable
        · simpa using htable
        · exact htable

theorem exists_syscallClose {fd : Int32} {kernel : Kernel}
    (htable : (kernel.fdOf fd.toUInt32).flags ≠ 0 →
      (kernel.fdOf fd.toUInt32).fopsTable ≠ none) :
    ∃ closed value, syscallClose fd kernel = some (closed, value) := by
  rw [syscallClose]
  split
  · exact ⟨_, _, rfl⟩
  simp only
  split
  · exact ⟨_, _, rfl⟩
  next hopen =>
    split
    · next hnone => exact absurd hnone (htable hopen)
    all_goals exact ⟨_, _, rfl⟩

def Tabled (kernel : Kernel) : Prop :=
  ∀ fd ≤ 7, (kernel.fdOf fd).flags ≠ 0 → (kernel.fdOf fd).fopsTable ≠ none

theorem Tabled.syscallClose {fd : Int32} {kernel closed : Kernel} {value : Int32}
    (h : Tabled kernel) (hclose : syscallClose fd kernel = some (closed, value)) :
    Tabled closed :=
  fun other hother =>
    (lastsAt_table hother).changes _ _ (syscallClose_changes hclose other) (h other hother)

theorem exists_closeRelevantFds {count : Nat} {i : UInt32} {kernel : Kernel}
    (hbound : i.toNat + count ≤ 8) (h : Tabled kernel) :
    ∃ closed, closeRelevantFds (getPcb kernel.running) count i kernel = some closed := by
  induction count generalizing i kernel with
  | zero => exact ⟨kernel, rfl⟩
  | succ count ih =>
      obtain ⟨hhigh, hstep⟩ := fd_of_remaining hbound
      simp only [closeRelevantFds]
      split
      · have htable := h i hhigh
        rw [← UInt32.toUInt32_toInt32 i] at htable
        obtain ⟨closed, value, hclose⟩ := exists_syscallClose htable
        obtain ⟨fds, heq⟩ := syscallClose_withFds hclose
        have hrun : closed.running = kernel.running := by rw [heq, running_withFds]
        have hnext : (i + 1).toNat + count ≤ 8 := by omega
        obtain ⟨rest, hrest⟩ := ih hnext (h.syscallClose hclose)
        rw [hrun] at hrest
        exact ⟨rest, by rw [hclose]; exact hrest⟩
      · exact ih (by omega) h

theorem exists_syscallHalt {kernel : Kernel} (hge : 0 ≤ kernel.tasksRunning)
    (h : Tabled kernel) (status : UInt8) :
    ∃ after exit, syscallHalt status kernel = some (after, exit) := by
  simp only [syscallHalt, if_neg (running_ne_noTask hge)]
  split
  · exact ⟨_, _, rfl⟩
  have hrun := running_restoreParent kernel
  have hrestored : Tabled (restoreParent kernel) := by
    intro fd hfd
    rw [Kernel.fdOf, hrun, fds_restoreParent]
    exact h fd hfd
  obtain ⟨closed, hclosed⟩ := exists_closeRelevantFds (by decide : (0 : UInt32).toNat + 8 ≤ 8)
    hrestored
  rw [hrun] at hclosed
  rw [haltChild, hclosed]
  exact ⟨_, _, rfl⟩

/-! ## When the handler does it -/

theorem running_eq_zero_iff {kernel : Kernel} : kernel.running = 0 ↔ kernel.tasksRunning = 0 := by
  constructor
  · intro hzero
    have hback := Int32.toInt32_toUInt32 kernel.tasksRunning
    rw [← hback]
    exact congrArg UInt32.toInt32 hzero
  · intro hzero
    rw [Kernel.running, hzero]
    rfl

theorem handleException_of_ne {kernel : Kernel} (hne : kernel.running ≠ 0) (message : String) :
    ∃ screen, handleException message kernel =
      syscallHalt 0 { kernel with screen := screen, exceptionDeath := 1 } := by
  have hshown : (kernel.print message).running ≠ 0 := hne
  rw [handleException, if_pos hshown]
  simp only [Kernel.print, Kernel.modifyScreen]
  exact ⟨_, rfl⟩

theorem endsRunning_of_pos {kernel : Kernel} (hchains : Chains kernel) (htabled : Tabled kernel)
    (hpos : 0 < kernel.tasksRunning) (message : String) :
    EndsRunning (handleException message) kernel := by
  have hne : kernel.running ≠ 0 := by
    rw [Ne, running_eq_zero_iff]
    exact (Int32.ne_of_lt hpos).symm
  obtain ⟨screen, heq⟩ := handleException_of_ne hne message
  have hsame : SameTasks kernel { kernel with screen := screen, exceptionDeath := 1 } :=
    .of_pcb rfl rfl rfl
  have hshown : Tabled { kernel with screen := screen, exceptionDeath := 1 } := htabled
  have hge : 0 ≤ ({ kernel with screen := screen, exceptionDeath := 1 } : Kernel).tasksRunning :=
    Int32.le_of_lt hpos
  obtain ⟨after, exit, hhalt⟩ := exists_syscallHalt hge hshown 0
  refine ⟨_, screen, after, exit, rfl, heq.trans hhalt, hhalt, ?_⟩
  rcases (hchains.sameTasks hsame).halt_cases hge hhalt with
    ⟨hbase, ⟨text, hafter⟩, hexit⟩ | ⟨hbelow, hended⟩
  · exact .restarted hbase ⟨_, hafter⟩ hexit
  · exact .resumed hbelow hended

theorem not_endsRunning_of_zero {kernel : Kernel} (hzero : kernel.tasksRunning = 0)
    (message : String) : ¬ EndsRunning (handleException message) kernel := by
  rintro ⟨shown, screen, after, exit, hshown, hhandler, hhalt, hsquashed⟩
  rcases handleException_cases hhandler with ⟨-, -, rfl⟩ | ⟨hne, -⟩
  · cases hsquashed with
    | restarted hbase hafter hexit => cases hexit
    | resumed hbelow hended => cases hended.exit
  · exact hne (running_eq_zero_iff.mpr hzero)

/-- Without a task, the handler reads a control block where no page is mapped. -/
theorem handleException_of_none {kernel : Kernel} (hnone : kernel.tasksRunning = -1)
    (message : String) : handleException message kernel = none := by
  have hrunning : kernel.running = noTask := by
    rw [Kernel.running, hnone]
    rfl
  have hne : kernel.running ≠ 0 := by
    rw [hrunning]
    decide
  obtain ⟨screen, heq⟩ := handleException_of_ne hne message
  rw [heq]
  exact if_pos hrunning

theorem not_leavesTasks_of_none {kernel : Kernel} (hnone : kernel.tasksRunning = -1)
    (message : String) : ¬ LeavesTasks (handleException message) kernel := by
  intro hleaves
  have hends := hleaves.ends
  rw [handleException_of_none hnone] at hends
  cases hends

theorem handlesException_iff_of_chains {kernel : Kernel} (hchains : Chains kernel)
    (htabled : 0 ≤ kernel.tasksRunning → Tabled kernel) (message : String) :
    HandlesException (handleException message) kernel ↔ 0 < kernel.tasksRunning := by
  constructor
  · intro hhandles
    by_contra hnot
    have hle := Int32.not_lt.mp hnot
    by_cases hge : 0 ≤ kernel.tasksRunning
    · have hzero : kernel.tasksRunning = 0 := Int32.le_antisymm hle hge
      exact not_endsRunning_of_zero hzero message (hhandles.ends hge)
    · have hnone := (hchains.idle (Int32.not_le.mp hge)).1
      exact not_leavesTasks_of_none hnone message (hhandles.leaves hnone)
  · intro hpos
    have hge := Int32.le_of_lt hpos
    refine ⟨fun _ => endsRunning_of_pos hchains (htabled hge) hpos message, fun hnone => ?_⟩
    rw [hnone] at hge
    exact absurd hge (by decide)

/--
In every state that boot and programs can reach, each handler squashes the
running task and leaves the tasks alone where none runs exactly when the task
that runs is not the first shell.
-/
theorem handlesException_iff {events : List ProgramEvent} {start : Kernel} {final : Programs}
    {vector : UInt8} {handler : ExceptionHandler} (hstart : Boot start)
    (hrun : run programStep events (freshPrograms start) = some final)
    (hentry : (vector, handler) ∈ exceptionEntries) :
    HandlesException handler final.kernel ↔ 0 < final.kernel.tasksRunning := by
  obtain ⟨message, rfl⟩ := exists_message hentry
  have hchains : Chains final.kernel :=
    ((lastsAt_table (by decide : (0 : UInt32) ≤ 7)).of_run hstart hrun).1
  refine handlesException_iff_of_chains hchains (fun hge fd hfd => ?_) message
  exact (lastsAt_table hfd).fdOf_of_run hstart hrun hge

def childRunning : List ProgramEvent :=
  bootTicks.map .kernel ++ [.kernel (.execute default shellName)]

theorem handlesException_childRunning :
    ∃ final, run programStep childRunning (freshPrograms (bootKernel shellImage)) = some final ∧
      0 < final.kernel.tasksRunning ∧
      (HandlesException exceptionPageFault final.kernel ↔ 0 < final.kernel.tasksRunning) := by
  have hany : (run programStep childRunning (freshPrograms (bootKernel shellImage))).any
      (fun final => decide (0 < final.kernel.tasksRunning)) = true := by
    decide +kernel
  obtain ⟨final, hrun, hpos⟩ := (Option.any_eq_true _ _).mp hany
  have hentry : ((0x0E : UInt8), exceptionPageFault) ∈ exceptionEntries := by
    simp [exceptionEntries]
  exact ⟨final, hrun, of_decide_eq_true hpos,
    handlesException_iff (boot_bootKernel shellImage) hrun hentry⟩

/-- After boot the first shell runs; a fault of it leaves the handler spinning. -/
theorem not_handlesException_firstShell :
    ∃ final after,
      run programStep (bootTicks.map .kernel) (freshPrograms (bootKernel shellImage)) =
        some final ∧
      final.kernel.tasksRunning = 0 ∧ (0x0E, exceptionPageFault) ∈ exceptionEntries ∧
      exceptionPageFault final.kernel = some (after, .hung) ∧
      ¬ HandlesException exceptionPageFault final.kernel := by
  have hany : (run programStep (bootTicks.map .kernel)
      (freshPrograms (bootKernel shellImage))).any
        (fun final => final.kernel.tasksRunning == 0 &&
          (exceptionPageFault final.kernel).any fun ended => ended.2 == .hung) = true := by
    decide +kernel
  obtain ⟨final, hrun, hfinal⟩ := (Option.any_eq_true _ _).mp hany
  rw [Bool.and_eq_true, beq_iff_eq] at hfinal
  obtain ⟨hzero, hhung⟩ := hfinal
  obtain ⟨⟨after, exit⟩, hhandler, hexit⟩ := (Option.any_eq_true _ _).mp hhung
  obtain rfl : exit = .hung := by simpa using hexit
  have hge : 0 ≤ final.kernel.tasksRunning := by
    rw [hzero]
    decide
  refine ⟨final, after, hrun, hzero, by simp [exceptionEntries], hhandler, fun hhandles => ?_⟩
  exact not_endsRunning_of_zero hzero _ (hhandles.ends hge)

end LinuxOS
