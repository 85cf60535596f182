import LinuxOS.Process.Tree

/-!
# The top of the kernel stack

`execute` and the restart of a base shell set `tss.esp0` to the top of the
running task's kernel stack.  `halt` sets it to the stack pointer that was saved
when the ended child was started, which lies below the parent's top; so the
first halt of a child breaks the rule.
-/

namespace LinuxOS

open Foundation

def AtStackTop (kernel : Kernel) : Prop := kernel.tssEsp0 = stackTop kernel.running

/-- Every child was started from below the top of its parent's stack. -/
def SavedBelow (kernel : Kernel) : Prop :=
  ∀ slot, Occupied kernel slot → slot ≥ 3 →
    (kernel.pcbOf slot).oldEsp < stackTop (kernel.links slot).parent

structure PostBoot (kernel : Kernel) : Prop where
  shells : ∀ base < 3, Occupied kernel base
  tree : ProcessTree kernel
  running : 0 ≤ kernel.tasksRunning
  saved : SavedBelow kernel

/--
The steps that the rule is about.  The stack pointer that an `execute` saves
lies below the one with which its system call was entered.
-/
def StackCall (kernel : Kernel) : Event → Prop
  | .execute frame _ => frame.esp < kernel.tssEsp0
  | .halt _ => True
  | _ => False

def HaltsChild (kernel : Kernel) : Event → Prop
  | .halt _ => (kernel.links kernel.running).parent ≠ noTask
  | _ => False

theorem PostBoot.same {before after : Kernel} (h : PostBoot before)
    (hslots : after.taskSlots = before.taskSlots)
    (hrunning : after.tasksRunning = before.tasksRunning) (hpcb : after.pcb = before.pcb) :
    PostBoot after where
  shells base hlt := (occupied_congr hslots base).mpr (h.shells base hlt)
  tree := h.tree.sameTasks (.of_pcb hslots hrunning hpcb)
  running := hrunning ▸ h.running
  saved slot hslot hchild := by
    have hsaved := h.saved slot ((occupied_congr hslots slot).mp hslot) hchild
    rw [links_eq_of_pcb hpcb]
    simpa only [Kernel.pcbOf, hpcb] using hsaved

theorem Started.oldEsp_of_ne {frame : ExecuteFrame} {slot : UInt32} {before after : Kernel}
    (h : Started frame slot before after) {task : UInt32} (hlt : task < 6) (hne : task ≠ slot) :
    (after.pcbOf task).oldEsp = (before.pcbOf task).oldEsp := by
  by_cases hparent : slot ≥ 3 ∧ task = before.running
  · obtain ⟨hchild, rfl⟩ := hparent
    rw [h.parentPcb hchild]
  · rw [h.otherPcb task hlt hne fun hchild heq => hparent ⟨hchild, heq⟩]

theorem PostBoot.started {frame : ExecuteFrame} {slot : UInt32} {before after : Kernel}
    (h : PostBoot before) (htop : AtStackTop before) (hesp : frame.esp < before.tssEsp0)
    (hslot : FirstFree before slot) (hstarted : Started frame slot before after) :
    PostBoot after ∧ AtStackTop after := by
  have hocc := hstarted.occupied_iff hslot.lt
  have hchild : slot ≥ 3 := by
    by_contra hbase
    exact (h.shells slot (by grind)).2 hslot.free
  have hnew : ∀ task, Occupied before task → task ≠ slot := by
    rintro task htask rfl
    exact htask.2 hslot.free
  refine ⟨{
    shells := fun base hlt => (hocc base).mpr (.inr (h.shells base hlt))
    tree := ((h.tree.chains h.running).started hslot hstarted).processTree
    running := by
      rw [hstarted.running]
      exact zero_le_toInt32 hslot.lt
    saved := fun task htask htaskChild => ?_ }, ?_⟩
  · rcases (hocc task).mp htask with rfl | hold
    · -- the new child: its parent is the task that executed it
      rw [hstarted.ownEsp, hstarted.ownLinks, if_pos hchild, ← htop]
      exact hesp
    · rw [hstarted.oldEsp_of_ne hold.1 (hnew task hold),
        (hstarted.kept_of_ne hold.1 (hnew task hold)).2]
      exact h.saved task hold htaskChild
  · rw [AtStackTop, hstarted.esp0, hstarted.running_eq]

theorem PostBoot.execute {frame : ExecuteFrame} {command : CString} {before after : Kernel}
    {exit : Exit} (h : PostBoot before) (htop : AtStackTop before)
    (hesp : frame.esp < before.tssEsp0)
    (hexecute : syscallExecute frame command before = (after, exit)) :
    PostBoot after ∧ AtStackTop after := by
  rcases syscallExecute_cases hexecute with
    ⟨-, text, rfl⟩ | ⟨slot, fileCheck, eip, hslot, -, rfl⟩
  · exact ⟨h.same rfl rfl rfl, htop⟩
  · exact h.started htop hesp hslot
      ((h.tree.chains h.running).executeClaim_started hslot frame command fileCheck)

theorem PostBoot.esp0_lt_of_ended {status : UInt8} {before after : Kernel} {exit : Exit}
    (h : PostBoot before)
    (hbelow : RunningBelow before (before.links before.running).parent)
    (hended : Ended status (before.links before.running).parent before after exit) :
    after.tssEsp0 < stackTop after.running := by
  have hchild : before.running ≥ 3 := by
    by_contra hbase
    exact hbelow.occupied.ne_noTask
      (h.tree.start before.running (by grind) hbelow.runningOccupied)
  rw [hended.esp0, hended.running_eq]
  exact h.saved before.running hbelow.runningOccupied hchild

/--
After boot, `tss.esp0` is the top of the running task's kernel stack throughout
a run of executes and halts exactly when no program with a parent ends.
-/
theorem atStackTop_iff_not_haltsChild {events : List Event} {start final : Kernel}
    (hrun : run step events start = some final) (hstart : PostBoot start)
    (htop : AtStackTop start)
    (hcalls : ∀ taken ∈ stepsAlong step events start, StackCall taken.1 taken.2) :
    (∀ visited ∈ statesAlong step events start, AtStackTop visited) ↔
      ∀ taken ∈ stepsAlong step events start, ¬ HaltsChild taken.1 taken.2 := by
  refine forall_safe_iff_forall_meets StackCall
    (fun kernel event => ¬ HaltsChild kernel event) ?_ ?_ hrun hcalls hstart htop
  -- executes and the halts of base shells set `esp0` to the top
  · intro event before after h htop hcall hnot hstep
    obtain ⟨exit, hperform⟩ := step_eq_some.mp hstep
    cases performed hperform with
    | execute hge hexecute => exact h.execute htop hcall hexecute
    | halt hge hhalt =>
        rcases (h.tree.chains hge).halt_cases hge hhalt with
          ⟨-, ⟨text, hafter⟩, -⟩ | ⟨hbelow, -⟩
        · have hesp0 : after.tssEsp0 = stackTop before.running := by rw [hafter]
          have hrunning : after.running = before.running := by simp only [Kernel.running, hafter]
          refine ⟨?_, by rw [AtStackTop, hesp0, hrunning]⟩
          rw [hafter]
          exact h.same rfl rfl rfl
        · exact absurd hbelow.occupied.ne_noTask hnot
    | _ => exact hcall.elim
  -- a halt restores the stack pointer that the parent's `execute` saved
  · intro event before after h htop hcall hhalts hstep hafter
    obtain ⟨exit, hperform⟩ := step_eq_some.mp hstep
    cases performed hperform with
    | halt hge hhalt =>
        rcases (h.tree.chains hge).halt_cases hge hhalt with ⟨hbase, -⟩ | ⟨hbelow, hended⟩
        · exact hhalts fun hchild => hchild hbase
        · have hlt := h.esp0_lt_of_ended hbelow hended
          rw [hafter] at hlt
          exact absurd hlt (UInt32.lt_irrefl _)
    | _ => exact hhalts id

theorem postBoot_shellsKernel : PostBoot shellsKernel where
  shells base hlt := by
    have hcases : base = 0 ∨ base = 1 ∨ base = 2 := by grind
    rcases hcases with rfl | rfl | rfl <;> decide +kernel
  tree := (chains_of_run run_bootTicks (boot_bootKernel shellImage).toNoTasks).processTree
  running := by decide +kernel
  saved slot hslot hchild := by
    have hfree : shellsKernel.taskSlots 3 = 0 ∧ shellsKernel.taskSlots 4 = 0 ∧
        shellsKernel.taskSlots 5 = 0 := by decide +kernel
    have hcases : slot = 3 ∨ slot = 4 ∨ slot = 5 := by
      have hlt := hslot.1
      grind
    obtain ⟨hthree, hfour, hfive⟩ := hfree
    rcases hcases with rfl | rfl | rfl
    · exact absurd hthree hslot.2
    · exact absurd hfour hslot.2
    · exact absurd hfive hslot.2

theorem atStackTop_shellsKernel : AtStackTop shellsKernel := by
  unfold AtStackTop
  decide +kernel

theorem atStackTop_iff_not_haltsChild_shells :
    ∃ final, run step [.execute default shellName] shellsKernel = some final ∧
      ((∀ visited ∈ statesAlong step [.execute default shellName] shellsKernel,
          AtStackTop visited) ↔
        ∀ taken ∈ stepsAlong step [.execute default shellName] shellsKernel,
          ¬ HaltsChild taken.1 taken.2) := by
  have hsome : (run step [.execute default shellName] shellsKernel).isSome := by decide +kernel
  obtain ⟨final, hrun⟩ := Option.isSome_iff_exists.mp hsome
  refine ⟨final, hrun, atStackTop_iff_not_haltsChild hrun postBoot_shellsKernel
    atStackTop_shellsKernel ?_⟩
  have hsteps : stepsAlong step [.execute default shellName] shellsKernel =
      [(shellsKernel, .execute default shellName)] := by
    obtain ⟨next, hstep, -⟩ := run_cons_eq_some.mp hrun
    rw [stepsAlong_cons hstep, stepsAlong]
  rw [hsteps]
  simp only [List.mem_singleton, forall_eq, StackCall]
  decide +kernel

/--
Each `execute` and halt of a program from the shell moves `tss.esp0` down for
good, although the stack pointer it saves lies below `esp0`.
-/
theorem not_atStackTop_after_halt :
    PostBoot shellsKernel ∧ AtStackTop shellsKernel ∧
      ∃ final, run step [.execute default shellName, .halt 0] shellsKernel = some final ∧
        (∀ taken ∈ stepsAlong step [.execute default shellName, .halt 0] shellsKernel,
          StackCall taken.1 taken.2) ∧
        final.tasksRunning = 0 ∧ final.tssEsp0 = 0x7FFE00 ∧ ¬ AtStackTop final := by
  refine ⟨postBoot_shellsKernel, atStackTop_shellsKernel, ?_⟩
  have hany : (run step [.execute default shellName, .halt 0] shellsKernel).any
      (fun final => final.tasksRunning = 0 && final.tssEsp0 = 0x7FFE00 &&
        final.tssEsp0 ≠ stackTop final.running) = true := by decide +kernel
  have hesp : (default : ExecuteFrame).esp < shellsKernel.tssEsp0 := by decide +kernel
  obtain ⟨final, hrun, hfinal⟩ := (Option.any_eq_true _ _).mp hany
  simp only [Bool.and_eq_true, decide_eq_true_eq] at hfinal
  refine ⟨final, hrun, ?_, hfinal.1.1, hfinal.1.2, hfinal.2⟩
  obtain ⟨started, hexecute, hrest⟩ := run_cons_eq_some.mp hrun
  obtain ⟨halted, hhalt, -⟩ := run_cons_eq_some.mp hrest
  rw [stepsAlong_cons hexecute, stepsAlong_cons hhalt]
  simpa [stepsAlong, StackCall] using hesp

end LinuxOS
