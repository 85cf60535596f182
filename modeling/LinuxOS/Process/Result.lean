import LinuxOS.Process.Tree

/-!
# What `execute` returns

The cause of a program's death reaches its parent through `exception_death`.
The flag is set by every exception and consumed where a child ends; an
exception of a base shell restarts the shell and leaves the flag behind, for
the next program that ends on any terminal.
-/

namespace LinuxOS

open Foundation

/-- The value that the parent's `execute` should return: 256 after an exception. -/
def resultOf : Event → UInt32
  | .halt status => status.toUInt32
  | _ => 256

def ReturnsResult (kernel : Kernel) (event : Event) : Prop :=
  ∀ after value esp ebp, perform event kernel = some (after, .resumed value esp ebp) →
    value = resultOf event

/-- An exception ends its program, or hangs task 0; it does not restart a base shell. -/
def ConsumesDeath (kernel : Kernel) : Event → Prop
  | .exception _ => (kernel.links kernel.running).parent ≠ noTask ∨ kernel.running = 0
  | _ => True

theorem death_switchDisplay {regs : SwitchRegs} {tid : UInt32} {before after : Kernel}
    (hswitch : switchDisplayTerminal regs tid before = some after) :
    after.exceptionDeath = before.exceptionDeath := by
  rcases switchDisplayTerminal_cases hswitch with ⟨-, rfl⟩ | ⟨-, bottom, -, hswitched⟩
  · rfl
  · exact hswitched.death

theorem death_execute {frame : ExecuteFrame} {command : CString} {before after : Kernel}
    {exit : Exit} (hexecute : syscallExecute frame command before = (after, exit)) :
    after.exceptionDeath = before.exceptionDeath := by
  rcases syscallExecute_cases hexecute with
    ⟨-, text, rfl⟩ | ⟨slot, fileCheck, eip, -, -, rfl⟩
  · rfl
  · rfl

theorem death_scheduler {frame : TickFrame} {tNum death : UInt32} {before after : Kernel}
    {exit : Exit} (hdeath : before.exceptionDeath = death)
    (htick : scheduler frame tNum before = some (after, exit)) :
    after.exceptionDeath = death :=
  scheduler_invariant (fun _ _ _ h => h)
    (fun _ _ _ _ h hswitch => (death_switchDisplay hswitch).trans h)
    (fun _ _ _ _ _ h hexecute => (death_execute hexecute).trans h) hdeath htick

theorem death_halt_iff {status : UInt8} {before after : Kernel} {exit : Exit}
    (h : Chains before) (hge : 0 ≤ before.tasksRunning)
    (hhalt : syscallHalt status before = some (after, exit)) :
    after.exceptionDeath = 0 ↔
      (before.links before.running).parent ≠ noTask ∨ before.exceptionDeath = 0 := by
  rcases h.halt_cases hge hhalt with ⟨hbase, ⟨text, rfl⟩, -⟩ | ⟨hbelow, hended⟩
  · simp [hbase]
  · exact iff_of_true hended.death (.inl hbelow.occupied.ne_noTask)

theorem death_step_iff {event : Event} {before after : Kernel} (h : Chains before)
    (hdeath : before.exceptionDeath = 0) (hstep : step event before = some after) :
    after.exceptionDeath = 0 ↔ ConsumesDeath before event := by
  obtain ⟨exit, hperform⟩ := step_eq_some.mp hstep
  cases performed hperform with
  | tick hpit =>
      obtain ⟨ticked, counter, htick, rfl⟩ := pitHandler_cases hpit
      have hticked : ticked.exceptionDeath = 0 := death_scheduler hdeath htick
      exact iff_of_true hticked trivial
  | schedule htick => exact iff_of_true (death_scheduler hdeath htick) trivial
  | chord hswitch => exact iff_of_true ((death_switchDisplay hswitch).trans hdeath) trivial
  | execute hge hexecute => exact iff_of_true ((death_execute hexecute).trans hdeath) trivial
  | halt hge hhalt =>
      exact iff_of_true ((death_halt_iff h hge hhalt).mpr (.inr hdeath)) trivial
  | exception hge hexception =>
      rcases h.exception_cases hge hexception with
        ⟨hzero, ⟨text, rfl⟩, -⟩ | ⟨hne, shown, text, rfl, -, hshown, hgeShown, hhalt⟩
      · exact iff_of_true hdeath (.inr hzero)
      · have hiff := death_halt_iff hshown hgeShown hhalt
        have hone : (1 : UInt32) ≠ 0 := by decide
        simp only [hone, or_false] at hiff
        rw [hiff, ConsumesDeath, or_iff_left hne]
        exact Iff.rfl

/-! ## The values returned -/

theorem execute_not_resumed {frame : ExecuteFrame} {command : CString} {before after : Kernel}
    {value esp ebp : UInt32} :
    syscallExecute frame command before ≠ (after, .resumed value esp ebp) := by
  intro hexecute
  rcases syscallExecute_cases hexecute with ⟨⟨_, hexit⟩, -⟩ | ⟨_, _, _, -, hexit, -⟩ <;>
    simp at hexit

theorem scheduler_not_resumed {frame : TickFrame} {tNum value esp ebp : UInt32}
    {before after : Kernel} :
    scheduler frame tNum before ≠ some (after, .resumed value esp ebp) := by
  intro htick
  rcases scheduler_cases htick with
    ⟨-, -, hexit⟩ | ⟨-, _, _, _, -, -, ⟨-, -, hexit⟩ | ⟨-, _, -, hexecute⟩⟩
  · simp at hexit
  · simp at hexit
  · exact execute_not_resumed hexecute

theorem halt_value {status : UInt8} {before after : Kernel} {value esp ebp : UInt32}
    (h : Chains before) (hge : 0 ≤ before.tasksRunning)
    (hhalt : syscallHalt status before = some (after, .resumed value esp ebp)) :
    value = if before.exceptionDeath ≠ 0 then 256 else status.toUInt32 := by
  rcases h.halt_cases hge hhalt with ⟨-, -, hexit⟩ | ⟨-, hended⟩
  · simp at hexit
  · have hexit := hended.exit
    simp only [Exit.resumed.injEq] at hexit
    exact hexit.1

theorem resumed_value {event : Event} {kernel after : Kernel} {value esp ebp : UInt32}
    (h : Chains kernel) (hperform : perform event kernel = some (after, .resumed value esp ebp)) :
    value = if kernel.exceptionDeath ≠ 0 then 256 else resultOf event := by
  cases performed hperform with
  | tick hpit =>
      obtain ⟨ticked, counter, htick, -⟩ := pitHandler_cases hpit
      exact absurd htick scheduler_not_resumed
  | schedule htick => exact absurd htick scheduler_not_resumed
  | chord hswitch hexit => cases hexit
  | execute hge hexecute => exact absurd hexecute execute_not_resumed
  | halt hge hhalt => exact halt_value h hge hhalt
  | exception hge hexception =>
      rcases h.exception_cases hge hexception with
        ⟨-, -, hexit⟩ | ⟨-, shown, text, rfl, -, hshown, hgeShown, hhalt⟩
      · simp at hexit
      · rw [halt_value hshown hgeShown hhalt]
        exact (ite_self _).symm

theorem resumed_value_le {event : Event} {kernel after : Kernel} {value esp ebp : UInt32}
    (h : Chains kernel) (hperform : perform event kernel = some (after, .resumed value esp ebp)) :
    value ≤ 256 := by
  have hresult : resultOf event ≤ 256 := by
    cases event with
    | halt status =>
        have hstatus := status.toNat_lt
        rw [resultOf, UInt32.le_iff_toNat_le, UInt8.toNat_toUInt32]
        exact hstatus.le
    | _ => exact UInt32.le_refl 256
  rw [resumed_value h hperform]
  split
  · exact UInt32.le_refl 256
  · exact hresult

theorem returnsResult_of_death {event : Event} {kernel : Kernel} (h : Chains kernel)
    (hdeath : kernel.exceptionDeath = 0) : ReturnsResult kernel event := by
  intro after value esp ebp hperform
  rw [resumed_value h hperform, hdeath]
  rfl

/--
In a run from boot the flag is clear whenever user code runs, and every
`execute` returns the right value, exactly when no exception restarts a base
shell.
-/
theorem returnsResult_iff_consumesDeath {events : List Event} {start final : Kernel}
    (hrun : run step events start = some final) (hstart : Boot start) :
    ((∀ visited ∈ statesAlong step events start, visited.exceptionDeath = 0) ∧
      ∀ taken ∈ stepsAlong step events start, ReturnsResult taken.1 taken.2) ↔
      ∀ taken ∈ stepsAlong step events start, ConsumesDeath taken.1 taken.2 := by
  have hchains := statesAlong_invariant (fun _ _ _ h hstep => Chains.step h hstep) hrun
    hstart.toNoTasks.chains
  have hdeath := forall_safe_iff_of_step_iff (fun _ _ _ h hstep => Chains.step h hstep)
    (fun _ _ _ h hsafe hstep => death_step_iff h hsafe hstep) hrun
    hstart.toNoTasks.chains hstart.noDeath
  rw [← hdeath]
  refine and_iff_left_of_imp fun hclear taken htaken => ?_
  have hsource := mem_statesAlong_of_mem_stepsAlong htaken
  exact returnsResult_of_death (hchains _ hsource) (hclear _ hsource)

theorem returnsResult_iff_consumesDeath_bootTicks :
    ((∀ visited ∈ statesAlong step bootTicks (bootKernel shellImage),
        visited.exceptionDeath = 0) ∧
      ∀ taken ∈ stepsAlong step bootTicks (bootKernel shellImage),
        ReturnsResult taken.1 taken.2) ↔
      ∀ taken ∈ stepsAlong step bootTicks (bootKernel shellImage),
        ConsumesDeath taken.1 taken.2 :=
  returnsResult_iff_consumesDeath run_bootTicks (boot_bootKernel shellImage)

/-- A child halts with 5 after its base shell raised an exception: the shell is told 256. -/
theorem not_returnsResult_after_base_exception :
    ∃ before after exit,
      run step (bootTicks ++ [.chord default 1, .exception "Divide Error",
        .execute default shellName]) (bootKernel shellImage) = some before ∧
      perform (.halt 5) before = some (after, exit) ∧ exit.value? = some 256 ∧
      ¬ ReturnsResult before (.halt 5) := by
  have hany : (run step (bootTicks ++ [.chord default 1, .exception "Divide Error",
      .execute default shellName]) (bootKernel shellImage)).any
      (fun before => (perform (.halt 5) before).any
        fun result => decide (result.2.value? = some 256)) = true := by decide +kernel
  obtain ⟨before, hrun, hhalt⟩ := (Option.any_eq_true _ _).mp hany
  obtain ⟨⟨after, exit⟩, hperform, hvalue⟩ := (Option.any_eq_true _ _).mp hhalt
  obtain ⟨esp, ebp, rfl⟩ := Exit.exists_resumed (of_decide_eq_true hvalue)
  refine ⟨before, after, _, hrun, hperform, rfl, fun hreturns => ?_⟩
  exact absurd (hreturns after 256 esp ebp hperform) (by decide)

end LinuxOS
