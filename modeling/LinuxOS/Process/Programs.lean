import LinuxOS.Memory.UserPointers
import LinuxOS.Process.Bracket
import LinuxOS.Process.Shells

/-!
# Runs of programs with their calls

The kernel's events and the system calls of the running program.  Beside the
kernel's state the file records which tasks have called `vidmap` in their
current run; no step reads the record.
-/

namespace LinuxOS

open Foundation

inductive ProgramEvent where
  | kernel (event : Event)
  | call (call : Call)
  | vidmap (screenStart : UInt32)

structure Programs where
  kernel : Kernel
  called : UInt32 → Bool

/-- The run that begins or ends with a path through the kernel has no calls to its name. -/
def recordExit (exit : Exit) (running next : UInt32) (called : UInt32 → Bool) : UInt32 → Bool :=
  match exit with
  | .entered _ => Function.update called next false
  | .restarted _ => Function.update called running false
  | .resumed _ _ _ => Function.update called running false
  | .returned _ => called
  | .hung => called

/--
One step.  A call that stores outside its caller's user page may change any of
the kernel's variables, and is no step here.
-/
def programStep : ProgramEvent → Programs → Option Programs
  | .kernel event, state =>
      (perform event state.kernel).map fun (after, exit) =>
        ⟨after, recordExit exit state.kernel.running after.running state.called⟩
  | .call call, state =>
      if 0 ≤ state.kernel.tasksRunning then
        (call.perform state.kernel).bind fun (after, _, stores) =>
          if storesInside stores then some ⟨after, state.called⟩ else none
      else none
  | .vidmap screenStart, state =>
      let (mapped, result, stores) := syscallVidmap screenStart state.kernel
      if 0 ≤ state.kernel.tasksRunning ∧ storesInside stores = true then
        some ⟨mapped, if result = 0 then Function.update state.called state.kernel.running true
          else state.called⟩
      else none

def freshPrograms (kernel : Kernel) : Programs := ⟨kernel, fun _ => false⟩

/-! ## What a step can be -/

theorem programStep_kernel {event : Event} {before after : Programs}
    (h : programStep (.kernel event) before = some after) : ∃ kernel exit,
      perform event before.kernel = some (kernel, exit) ∧
      after = ⟨kernel, recordExit exit before.kernel.running kernel.running before.called⟩ := by
  obtain ⟨⟨kernel, exit⟩, hperform, hafter⟩ := Option.map_eq_some_iff.mp h
  exact ⟨kernel, exit, hperform, hafter.symm⟩

theorem programStep_call {call : Call} {before after : Programs}
    (h : programStep (.call call) before = some after) :
    0 ≤ before.kernel.tasksRunning ∧ ∃ kernel value stores,
      call.perform before.kernel = some (kernel, value, stores) ∧
      after = ⟨kernel, before.called⟩ := by
  simp only [programStep] at h
  split at h
  · next hge =>
    obtain ⟨⟨kernel, value, stores⟩, hperform, h⟩ := Option.bind_eq_some_iff.mp h
    simp only at h
    split at h
    · cases h
      exact ⟨hge, kernel, value, stores, hperform, rfl⟩
    · cases h
  · cases h

theorem programStep_vidmap {screenStart : UInt32} {before after : Programs}
    (h : programStep (.vidmap screenStart) before = some after) :
    after = before ∨ ∃ stores,
      after = ⟨(videomemMap mem148MB videoMemAddr before.kernel).storeUser stores,
        Function.update before.called before.kernel.running true⟩ := by
  by_cases hrefused : screenStart = 0 ∨ screenStart = fourM
  · have hcall : syscallVidmap screenStart before.kernel = (before.kernel, -1, []) :=
      if_pos hrefused
    simp only [programStep, hcall] at h
    split at h
    · cases h
      exact .inl rfl
    · cases h
  · have hcall : syscallVidmap screenStart before.kernel =
        ((videomemMap mem148MB videoMemAddr before.kernel).storeUser
          (storesAt screenStart (bytesOfWord mem148MB)), 0,
          storesAt screenStart (bytesOfWord mem148MB)) := if_neg hrefused
    simp only [programStep, hcall] at h
    split at h
    · cases h
      exact .inr ⟨_, rfl⟩
    · cases h

theorem Chains.programStep {event : ProgramEvent} {before after : Programs}
    (h : Chains before.kernel) (hstep : LinuxOS.programStep event before = some after) :
    Chains after.kernel := by
  cases event with
  | kernel event =>
      obtain ⟨kernel, exit, hperform, rfl⟩ := programStep_kernel hstep
      exact h.perform hperform
  | call call =>
      obtain ⟨-, kernel, value, stores, hperform, rfl⟩ := programStep_call hstep
      exact h.sameTasks (Call.callOnly hperform).sameTasks
  | vidmap screenStart =>
      rcases programStep_vidmap hstep with rfl | ⟨stores, rfl⟩
      · exact h
      · exact h.sameTasks (.of_pcb rfl rfl rfl)

structure ShellsUp (kernel : Kernel) : Prop extends Chains kernel where
  shells : ∀ base < 3, Occupied kernel base

theorem ShellsUp.active {kernel : Kernel} (h : ShellsUp kernel) : 0 ≤ kernel.tasksRunning := by
  by_contra hidle
  exact (h.idle (Int32.not_le.mp hidle)).2 0 (h.shells 0 (by decide))

theorem ShellsUp.programStep {event : ProgramEvent} {before after : Programs}
    (h : ShellsUp before.kernel) (hstep : LinuxOS.programStep event before = some after) :
    ShellsUp after.kernel := by
  refine ⟨h.toChains.programStep hstep, fun base hbase => ?_⟩
  cases event with
  | kernel event =>
      obtain ⟨kernel, exit, hperform, rfl⟩ := programStep_kernel hstep
      exact (baseTaken_step h.toChains (step_eq_some.mpr ⟨exit, hperform⟩)
        ⟨hbase, h.shells base hbase⟩).2
  | call call =>
      obtain ⟨-, kernel, value, stores, hperform, rfl⟩ := programStep_call hstep
      exact (occupied_congr (Call.callOnly hperform).slots base).mpr (h.shells base hbase)
  | vidmap screenStart =>
      rcases programStep_vidmap hstep with rfl | ⟨stores, rfl⟩
      · exact h.shells base hbase
      · exact h.shells base hbase

theorem shellsUp_shellsKernel : ShellsUp shellsKernel where
  toChains := chains_of_run run_bootTicks (boot_bootKernel shellImage).toNoTasks
  shells base hlt := by
    have hcases : base = 0 ∨ base = 1 ∨ base = 2 := by grind
    rcases hcases with rfl | rfl | rfl <;> decide +kernel

end LinuxOS
