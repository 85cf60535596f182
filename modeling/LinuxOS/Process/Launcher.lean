import LinuxOS.Process.Shells

/-!
# Programs and their launchers

Beside the kernel's state the file records which task executed each program.
The record is read by no step; it is what `task_id_parent` should agree with.
-/

namespace LinuxOS

open Foundation

structure Launches where
  kernel : Kernel
  launcher : UInt32 → Option UInt32

/-- The task that issues a call; the timer is none. -/
def issuer (event : Event) (kernel : Kernel) : Option UInt32 :=
  match event with
  | .execute _ _ => some kernel.running
  | _ => none

def launchStep (event : Event) (state : Launches) : Option Launches :=
  (perform event state.kernel).map fun (after, exit) =>
    { kernel := after
      launcher :=
        if exit.isEntered then
          Function.update state.launcher after.running (issuer event state.kernel)
        else state.launcher }

/--
A user's program has its launcher as parent and a slot from 3 on, and its halt
goes back there; the timer's shells, and they alone, have no parent.
-/
structure ParentIsLauncher (state : Launches) : Prop where
  child : ∀ task launcher, Occupied state.kernel task → state.launcher task = some launcher →
    task ≥ 3 ∧ (state.kernel.links task).parent = launcher
  shell : ∀ task, Occupied state.kernel task →
    ((state.kernel.links task).parent = noTask ↔ state.launcher task = none)
  returns : ∀ launcher status after exit, 0 ≤ state.kernel.tasksRunning →
    state.launcher state.kernel.running = some launcher →
    syscallHalt status state.kernel = some (after, exit) →
      after.running = launcher ∧ exit.value?.isSome

def AfterShells (kernel : Kernel) : Event → Prop
  | .execute frame command =>
      (∃ fileCheck, executeCheck frame command kernel.fs = .ok fileCheck) →
        ∀ base < 3, Occupied kernel base
  | _ => True

/-! ## One step -/

/-- The parts about the tasks' links, from which the rest follows. -/
structure LinksAgree (state : Launches) : Prop where
  child : ∀ task launcher, Occupied state.kernel task → state.launcher task = some launcher →
    task ≥ 3 ∧ (state.kernel.links task).parent = launcher
  shell : ∀ task, Occupied state.kernel task → state.launcher task = none →
    (state.kernel.links task).parent = noTask

theorem LinksAgree.parentIsLauncher {state : Launches} (h : LinksAgree state)
    (hchains : Chains state.kernel) : ParentIsLauncher state where
  child := h.child
  shell task hocc := by
    refine ⟨fun hnone => ?_, h.shell task hocc⟩
    cases hlauncher : state.launcher task with
    | none => rfl
    | some launcher =>
        have hlt := (hchains.base task hocc).mp hnone
        have hge := (h.child task launcher hocc hlauncher).1
        exact absurd hlt (UInt32.not_lt.mpr hge)
  returns launcher status after exit hge hlauncher hhalt := by
    obtain ⟨hocc, -⟩ := hchains.running hge
    obtain ⟨hchild, hparent⟩ := h.child _ launcher hocc hlauncher
    rcases hchains.halt_cases hge hhalt with ⟨hbase, -⟩ | ⟨-, hended⟩
    · exact absurd ((hchains.base _ hocc).mp hbase) (UInt32.not_lt.mpr hchild)
    · rw [hended.running_eq, hparent, hended.exit]
      exact ⟨rfl, rfl⟩

theorem ParentIsLauncher.linksAgree {state : Launches} (h : ParentIsLauncher state) :
    LinksAgree state :=
  ⟨h.child, fun task hocc hnone => (h.shell task hocc).mpr hnone⟩

theorem LinksAgree.of_kept {before : Launches} {after : Kernel} (h : LinksAgree before)
    (hkept : ∀ task, Occupied after task → Occupied before.kernel task ∧
      (after.links task).parent = (before.kernel.links task).parent) :
    LinksAgree ⟨after, before.launcher⟩ where
  child task launcher hocc hlauncher := by
    obtain ⟨hold, hparent⟩ := hkept task hocc
    rw [hparent]
    exact h.child task launcher hold hlauncher
  shell task hocc hnone := by
    obtain ⟨hold, hparent⟩ := hkept task hocc
    rw [hparent]
    exact h.shell task hold hnone

theorem LinksAgree.of_tasksKept {before : Launches} {after : Kernel} (h : LinksAgree before)
    (slots : after.taskSlots = before.kernel.taskSlots)
    (links : ∀ task, after.links task = before.kernel.links task) :
    LinksAgree ⟨after, before.launcher⟩ :=
  h.of_kept fun task hocc => ⟨(occupied_congr slots task).mp hocc, by rw [links]⟩

section Started

variable {state : Launches} {frame : ExecuteFrame} {slot : UInt32} {middle after : Kernel}

theorem LinksAgree.started {issuer : Option UInt32} (h : LinksAgree state)
    (hslots : middle.taskSlots = state.kernel.taskSlots)
    (hlinks : ∀ task, middle.links task = state.kernel.links task)
    (hslot : FirstFree middle slot) (hstarted : Started frame slot middle after)
    (hissuer : issuer = if slot ≥ 3 then some middle.running else none) :
    LinksAgree ⟨after, Function.update state.launcher after.running issuer⟩ := by
  have hocc := hstarted.occupied_iff hslot.lt
  have hparent : (after.links slot).parent = if slot ≥ 3 then middle.running else noTask := by
    rw [hstarted.ownLinks]
  have hold : ∀ task, Occupied middle task → task ≠ slot ∧ Occupied state.kernel task ∧
      (after.links task).parent = (state.kernel.links task).parent := by
    intro task htask
    have hne : task ≠ slot := by
      rintro rfl
      exact htask.2 hslot.free
    refine ⟨hne, (occupied_congr hslots task).mp htask, ?_⟩
    rw [(hstarted.kept_of_ne htask.1 hne).2, hlinks]
  rw [hstarted.running_eq, hissuer]
  -- each time the new task first, then the tasks that were there
  refine ⟨fun task launcher htask hlauncher => ?_, fun task htask hnone => ?_⟩
  · rcases (hocc task).mp htask with rfl | htask
    · simp only [Function.update_self] at hlauncher
      split at hlauncher
      · next hchild =>
          cases hlauncher
          rw [hparent, if_pos hchild]
          exact ⟨hchild, rfl⟩
      · cases hlauncher
    · obtain ⟨hne, hbefore, hkept⟩ := hold task htask
      rw [hkept]
      exact h.child task launcher hbefore (by simpa [hne] using hlauncher)
  · rcases (hocc task).mp htask with rfl | htask
    · simp only [Function.update_self] at hnone
      split at hnone
      · cases hnone
      · next hbase => rw [hparent, if_neg hbase]
    · obtain ⟨hne, hbefore, hkept⟩ := hold task htask
      rw [hkept]
      exact h.shell task hbefore (by simpa [hne] using hnone)

theorem not_parentIsLauncher_of_base {launcher : UInt32} (hslot : slot < 3)
    (hstarted : Started frame slot middle after) :
    ¬ ParentIsLauncher
      ⟨after, Function.update state.launcher after.running (some launcher)⟩ := by
  intro h
  have hocc := (hstarted.occupied_iff (by grind) slot).mpr (.inl rfl)
  have hchild := (h.child slot launcher hocc (by rw [hstarted.running_eq]; simp)).1
  exact absurd hslot (UInt32.not_lt.mpr hchild)

end Started

theorem launchStep_eq_some {event : Event} {before after : Launches}
    (h : launchStep event before = some after) : ∃ kernel exit,
      perform event before.kernel = some (kernel, exit) ∧
      after = ⟨kernel, if exit.isEntered then
        Function.update before.launcher kernel.running (issuer event before.kernel)
        else before.launcher⟩ := by
  obtain ⟨⟨kernel, exit⟩, hperform, hafter⟩ := Option.map_eq_some_iff.mp h
  exact ⟨kernel, exit, hperform, hafter.symm⟩

theorem Chains.launchStep {event : Event} {before after : Launches} (h : Chains before.kernel)
    (hstep : LinuxOS.launchStep event before = some after) : Chains after.kernel := by
  obtain ⟨kernel, exit, hperform, rfl⟩ := launchStep_eq_some hstep
  exact h.perform hperform

theorem LinksAgree.tick {frame : TickFrame} {tNum : UInt32} {before : Launches}
    {after : Kernel} {exit : Exit} (h : LinksAgree before) (hchains : Chains before.kernel)
    (htick : scheduler frame tNum before.kernel = some (after, exit)) :
    LinksAgree ⟨after, if exit.isEntered then
      Function.update before.launcher after.running none else before.launcher⟩ := by
  rcases hchains.scheduler_splits htick with ⟨hwatches, rfl⟩ | ⟨middle, hmiddle, hexecute⟩
  · exact h.of_tasksKept hwatches.kept.slots hwatches.kept.links
  · rcases syscallExecute_cases hexecute with
      ⟨⟨value, rfl⟩, text, rfl⟩ | ⟨slot, fileCheck, eip, hslot, rfl, rfl⟩
    · exact h.of_tasksKept hmiddle.kept.slots hmiddle.kept.links
    · -- the terminal's own slot is free, so that the first free one is below 3
      have hbase : ¬ slot ≥ 3 := by
        intro hge
        have hlt := hmiddle.lt
        refine hslot.lower (tickTerminal tNum before.kernel) (by grind) ?_
        rw [hmiddle.kept.slots]
        exact hmiddle.free
      exact h.started hmiddle.kept.slots hmiddle.kept.links hslot
        (hmiddle.chains.executeClaim_started hslot _ _ fileCheck) (if_neg hbase).symm

theorem LinksAgree.halt {status : UInt8} {before : Launches} {after : Kernel} {exit : Exit}
    (h : LinksAgree before) (hchains : Chains before.kernel)
    (hge : 0 ≤ before.kernel.tasksRunning)
    (hhalt : syscallHalt status before.kernel = some (after, exit)) :
    LinksAgree ⟨after, before.launcher⟩ ∧ ¬ exit.isEntered := by
  rcases hchains.halt_cases hge hhalt with ⟨-, ⟨text, rfl⟩, rfl⟩ | ⟨-, hended⟩
  · exact ⟨h.of_tasksKept rfl (links_eq_of_pcb rfl), by simp [Exit.isEntered]⟩
  · refine ⟨h.of_kept fun task hocc => ?_, by simp [hended.exit, Exit.isEntered]⟩
    obtain ⟨hold, hne⟩ := (hended.occupied_iff task).mp hocc
    exact ⟨hold, (hended.kept_of_ne hold.1 hne).2⟩

theorem LinksAgree.exception {message : String} {before : Launches} {after : Kernel}
    {exit : Exit} (h : LinksAgree before) (hchains : Chains before.kernel)
    (hge : 0 ≤ before.kernel.tasksRunning)
    (hexception : handleException message before.kernel = some (after, exit)) :
    LinksAgree ⟨after, before.launcher⟩ ∧ ¬ exit.isEntered := by
  rcases handleException_cases hexception with ⟨-, ⟨text, rfl⟩, rfl⟩ | ⟨-, text, hhalt⟩
  · exact ⟨h.of_tasksKept rfl (links_eq_of_pcb rfl), by simp [Exit.isEntered]⟩
  · have hshown : LinksAgree
        ⟨{ before.kernel with
          screen := puts text before.kernel.screen, exceptionDeath := 1 }, before.launcher⟩ :=
      h.of_tasksKept rfl (links_eq_of_pcb rfl)
    exact hshown.halt (hchains.sameTasks (.of_pcb rfl rfl rfl)) hge hhalt

theorem LinksAgree.execute_iff {frame : ExecuteFrame} {command : CString} {before : Launches}
    {after : Kernel} {exit : Exit} (h : LinksAgree before) (hchains : Chains before.kernel)
    (hexecute : syscallExecute frame command before.kernel = (after, exit)) :
    ParentIsLauncher ⟨after, if exit.isEntered then
        Function.update before.launcher after.running (some before.kernel.running)
        else before.launcher⟩ ↔
      AfterShells before.kernel (.execute frame command) := by
  have hafter : Chains after := hchains.execute hexecute
  cases executed hexecute with
  | refused value hcheck hsame hexit =>
      subst hsame hexit
      refine iff_of_true (h.parentIsLauncher hchains) ?_
      rintro ⟨fileCheck, hok⟩
      rw [hcheck] at hok
      cases hok
  | full fileCheck hcheck hall hscreen hexit =>
      obtain ⟨text, rfl⟩ := hscreen
      subst hexit
      refine iff_of_true (LinksAgree.parentIsLauncher ?_ hafter)
        fun _ base hlt => ⟨by grind, hall base (by grind)⟩
      exact h.of_tasksKept rfl (links_eq_of_pcb rfl)
  | started fileCheck slot hcheck hslot hclaim hexit =>
      subst hclaim hexit
      have hstarted := hchains.executeClaim_started hslot frame command fileCheck
      by_cases hchild : slot ≥ 3
      · refine iff_of_true ?_ fun _ base hlt => ⟨by grind, hslot.lower base (by grind)⟩
        exact (h.started rfl (fun _ => rfl) hslot hstarted
          (if_pos hchild).symm).parentIsLauncher hafter
      · refine iff_of_false (not_parentIsLauncher_of_base (by grind) hstarted) fun hshells => ?_
        exact (hshells ⟨fileCheck, hcheck⟩ slot (by grind)).2 hslot.free

theorem parentIsLauncher_step_iff {event : Event} {before after : Launches}
    (hchains : Chains before.kernel) (h : ParentIsLauncher before)
    (hstep : launchStep event before = some after) :
    ParentIsLauncher after ↔ AfterShells before.kernel event := by
  have hafter := hchains.launchStep hstep
  have hlinks := h.linksAgree
  obtain ⟨kernel, exit, hperform, rfl⟩ := launchStep_eq_some hstep
  cases performed hperform with
  | tick hpit =>
      refine iff_of_true (LinksAgree.parentIsLauncher ?_ hafter) trivial
      obtain ⟨ticked, htick, hcounted⟩ := pitHandler_splits hpit
      have hticked := hlinks.tick hchains htick
      rcases hcounted with ⟨-, rfl⟩ | ⟨-, rfl⟩
      · exact hticked.of_tasksKept rfl (links_eq_of_pcb rfl)
      · exact hticked
  | schedule htick =>
      exact iff_of_true ((hlinks.tick hchains htick).parentIsLauncher hafter) trivial
  | chord hswitch hexit =>
      subst hexit
      obtain ⟨hkept, -⟩ := switchDisplayTerminal_tasksKept hswitch
      refine iff_of_true (LinksAgree.parentIsLauncher ?_ hafter) trivial
      exact hlinks.of_tasksKept hkept.slots hkept.links
  | execute hge hexecute => exact hlinks.execute_iff hchains hexecute
  | halt hge hhalt =>
      obtain ⟨hagree, hnot⟩ := hlinks.halt hchains hge hhalt
      rw [if_neg hnot] at hafter ⊢
      exact iff_of_true (hagree.parentIsLauncher hafter) trivial
  | exception hge hexception =>
      obtain ⟨hagree, hnot⟩ := hlinks.exception hchains hge hexception
      rw [if_neg hnot] at hafter ⊢
      exact iff_of_true (hagree.parentIsLauncher hafter) trivial

/--
In a run from boot every program that a user starts has its launcher as parent
exactly when no user starts one before the three shells are there.
-/
theorem parentIsLauncher_iff_afterShells {events : List Event} {start final : Launches}
    (hrun : run launchStep events start = some final) (hstart : Boot start.kernel) :
    (∀ visited ∈ statesAlong launchStep events start, ParentIsLauncher visited) ↔
      ∀ taken ∈ stepsAlong launchStep events start, AfterShells taken.1.kernel taken.2 := by
  have hfree : ∀ task, ¬ Occupied start.kernel task := fun task hocc =>
    hocc.2 (hstart.noSlots task hocc.1)
  have hagree : LinksAgree start :=
    ⟨fun task _ hocc => absurd hocc (hfree task), fun task hocc => absurd hocc (hfree task)⟩
  have hchains := hstart.toNoTasks.chains
  have hkeep : ∀ event before after, Chains (Launches.kernel before) →
      launchStep event before = some after → Chains after.kernel :=
    fun _ _ _ h hstep => h.launchStep hstep
  exact forall_safe_iff_of_step_iff hkeep
    (fun _ _ _ h hsafe hstep => parentIsLauncher_step_iff h hsafe hstep) hrun hchains
    (hagree.parentIsLauncher hchains)

def bootLaunches : Launches := ⟨bootKernel shellImage, fun _ => none⟩

theorem parentIsLauncher_iff_afterShells_childOfShell :
    ∃ final, run launchStep (bootTicks ++ [.execute default shellName]) bootLaunches =
        some final ∧ final.launcher 3 = some 0 ∧
      ((∀ visited ∈ statesAlong launchStep (bootTicks ++ [.execute default shellName])
          bootLaunches, ParentIsLauncher visited) ↔
        ∀ taken ∈ stepsAlong launchStep (bootTicks ++ [.execute default shellName])
          bootLaunches, AfterShells taken.1.kernel taken.2) := by
  have hany : (run launchStep (bootTicks ++ [.execute default shellName]) bootLaunches).any
      (fun final => final.launcher 3 = some 0) = true := by decide +kernel
  obtain ⟨final, hrun, hfinal⟩ := (Option.any_eq_true _ _).mp hany
  exact ⟨final, hrun, of_decide_eq_true hfinal,
    parentIsLauncher_iff_afterShells hrun (boot_bootKernel shellImage)⟩

/-- A program that the first shell starts before the second tick gets the second shell's slot. -/
theorem not_parentIsLauncher_of_early_execute :
    ∃ final, run launchStep [.tick default, .execute default shellName] bootLaunches =
        some final ∧ final.launcher 1 = some 0 ∧ Occupied final.kernel 1 ∧
      (final.kernel.links 1).parent = noTask ∧ ¬ ParentIsLauncher final := by
  have hany : (run launchStep [.tick default, .execute default shellName] bootLaunches).any
      (fun final => final.launcher 1 = some 0 && Occupied final.kernel 1 &&
        (final.kernel.links 1).parent = noTask) = true := by decide
  obtain ⟨final, hrun, hfinal⟩ := (Option.any_eq_true _ _).mp hany
  simp only [Bool.and_eq_true, decide_eq_true_eq] at hfinal
  obtain ⟨⟨hlauncher, hocc⟩, hparent⟩ := hfinal
  refine ⟨final, hrun, hlauncher, hocc, hparent, fun h => ?_⟩
  exact absurd (h.child 1 0 hocc hlauncher).1 (by decide)

end LinuxOS
