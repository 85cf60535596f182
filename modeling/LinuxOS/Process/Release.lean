import LinuxOS.Process.Leftovers

/-!
# What a halt leaves behind

A program with a parent is halted through the code that closes its descriptors
and unmaps the video page.  A base shell is restarted before that code, so that
everything it held stays with its next run.
-/

namespace LinuxOS

open Foundation

inductive Ending where
  | status (status : UInt8)
  | exception (message : String)

def endProgram : Ending → Kernel → Option (Kernel × Exit)
  | .status status, kernel => syscallHalt status kernel
  | .exception message, kernel => handleException message kernel

def AtZero (fds : UInt32 → FileDescriptor) : Prop :=
  ∀ fd ≤ 7, (fds fd).flags = 0 → (fds fd).filePosition = 0

/-- Nothing that the ended run of a task held is left. -/
structure Released (task : UInt32) (called : Bool) (after : Kernel) : Prop where
  closed : ∀ fd, 2 ≤ fd → fd ≤ 7 → ((after.pcbOf task).fd fd).flags = 0
  positions : AtZero (after.pcbOf task).fd
  video : ¬ (videoMapped after = true ∧ called = true)
  death : after.exceptionDeath = 0

/-! ## The condition -/

/--
A program with a parent has no descriptor open but those that `close` frees; a
base shell has none open, no exception against it, and not the video page.
-/
def ReleasesAll (ending : Ending) (state : Programs) : Prop :=
  if (state.kernel.links state.kernel.running).parent = noTask then
    (∀ fd, 2 ≤ fd → fd ≤ 7 → (state.kernel.fdOf fd).flags = 0) ∧
      (∃ status, ending = .status status) ∧ state.kernel.exceptionDeath = 0 ∧
      ¬ (videoMapped state.kernel = true ∧ state.called state.kernel.running = true)
  else
    ∀ fd, 2 ≤ fd → fd ≤ 7 → (state.kernel.fdOf fd).flags ≠ 0 → Closable (state.kernel.fdOf fd)

/-! ## The loop that closes the descriptors -/

/-- What the loop makes of descriptor `fd`; `close` refuses 0 and 1. -/
def swept (fd : UInt32) (descriptor : FileDescriptor) : FileDescriptor :=
  if 2 ≤ fd ∧ descriptor.flags ≠ 0 then closedBy descriptor else descriptor

theorem syscallClose_fdOf {i : UInt32} {kernel closed : Kernel} {value : Int32} (hhigh : i ≤ 7)
    (hopen : (kernel.fdOf i).flags ≠ 0) (h : syscallClose i.toInt32 kernel = some (closed, value)) :
    closed.fdOf = Function.update kernel.fdOf i (swept i (kernel.fdOf i)) := by
  have hclosable := closable_iff i.toInt32
  have hcases := syscallClose_cases h
  rw [UInt32.toUInt32_toInt32] at hclosable hcases
  rcases hcases with ⟨hout | hfree, rfl⟩ | ⟨hrange, -, hfds⟩
  · have hstandard : ¬ (2 ≤ i ∧ (closed.fdOf i).flags ≠ 0) :=
      fun hin => hclosable.mpr ⟨hin.1, hhigh⟩ hout
    rw [swept, if_neg hstandard, Function.update_eq_self]
  · exact absurd hfree hopen
  · rw [hfds, swept, if_pos ⟨(hclosable.mp hrange).1, hopen⟩]

theorem closeRelevantFds_succ {count : Nat} {i : UInt32} {kernel after : Kernel} (hhigh : i ≤ 7)
    (h : closeRelevantFds (getPcb kernel.running) (count + 1) i kernel = some after) :
    ∃ next, closeRelevantFds (getPcb next.running) count (i + 1) next = some after ∧
      next.fdOf = Function.update kernel.fdOf i (swept i (kernel.fdOf i)) := by
  have hread : (kernel.pcb (getPcb kernel.running)).fd i = kernel.fdOf i := rfl
  simp only [closeRelevantFds, hread] at h
  split at h
  · next hopen =>
      obtain ⟨⟨closed, value⟩, hclose, hrest⟩ := Option.bind_eq_some_iff.mp h
      have hfds := syscallClose_fdOf hhigh hopen hclose
      obtain ⟨fds, heq⟩ := syscallClose_withFds hclose
      have hrun : closed.running = kernel.running := by rw [heq, running_withFds]
      refine ⟨closed, ?_, hfds⟩
      rw [hrun]
      exact hrest
  · next hfree =>
      refine ⟨kernel, h, ?_⟩
      rw [swept, if_neg fun hin => hfree hin.2, Function.update_eq_self]

theorem fd_of_remaining {count : Nat} {i : UInt32} (h : i.toNat + (count + 1) ≤ 8) :
    i ≤ 7 ∧ (i + 1).toNat = i.toNat + 1 := by
  have hseven : (7 : UInt32).toNat = 7 := rfl
  have hone : (1 : UInt32).toNat = 1 := rfl
  constructor
  · rw [UInt32.le_iff_toNat_le]
    omega
  · rw [UInt32.toNat_add]
    omega

theorem closeRelevantFds_fdOf {count : Nat} {i : UInt32} {kernel after : Kernel}
    (hbound : i.toNat + count ≤ 8)
    (h : closeRelevantFds (getPcb kernel.running) count i kernel = some after) (fd : UInt32) :
    (i.toNat ≤ fd.toNat → fd.toNat < i.toNat + count →
        after.fdOf fd = swept fd (kernel.fdOf fd)) ∧
      (fd.toNat < i.toNat → after.fdOf fd = kernel.fdOf fd) := by
  induction count generalizing i kernel with
  | zero =>
      cases h
      exact ⟨fun hle hlt => absurd hlt (by omega), fun _ => rfl⟩
  | succ count ih =>
      obtain ⟨hhigh, hstep⟩ := fd_of_remaining hbound
      obtain ⟨next, hrest, hnext⟩ := closeRelevantFds_succ hhigh h
      obtain ⟨hahead, hbehind⟩ := ih (by omega) hrest
      rw [hstep] at hahead hbehind
      by_cases heq : fd = i
      · refine ⟨fun _ _ => ?_, fun hlt => absurd hlt (by rw [heq]; omega)⟩
        rw [hbehind (by rw [heq]; omega), hnext, heq, Function.update_self]
      · have hne : fd.toNat ≠ i.toNat := fun h => heq (UInt32.toNat_inj.mp h)
        have hsame : next.fdOf fd = kernel.fdOf fd := by
          rw [hnext, Function.update_of_ne heq]
        rw [hsame] at hahead hbehind
        exact ⟨fun hle hlt => hahead (by omega) (by omega), fun hlt => hbehind (by omega)⟩

theorem pcb_unmapVideo (kernel : Kernel) : (unmapVideo kernel).pcb = kernel.pcb := by
  unfold unmapVideo
  split <;> rfl

theorem fds_restoreParent (kernel : Kernel) (task : UInt32) :
    ((restoreParent kernel).pcbOf task).fd = (kernel.pcbOf task).fd := by
  have hpcb : (restoreParent kernel).pcb =
      (kernel.modifyPcb (kernel.pcbOf kernel.running).taskIdParent fun pcb =>
        { pcb with taskIdChild := noTask }).pcb := pcb_unmapVideo _
  rw [Kernel.pcbOf, hpcb]
  exact fds_modifyPcb (kernel.pcbOf kernel.running).taskIdParent task fun _ => rfl

theorem haltChild_fds {status : UInt8} {kernel after : Kernel} {exit : Exit}
    (h : haltChild status kernel = some (after, exit)) {fd : UInt32} (hfd : fd ≤ 7) :
    (after.pcbOf kernel.running).fd fd = swept fd (kernel.fdOf fd) := by
  obtain ⟨closed, hclosed, hreleased⟩ := Option.map_eq_some_iff.mp h
  have hrun := running_restoreParent kernel
  rw [← hrun] at hclosed
  obtain ⟨fds, heq⟩ := closeRelevantFds_withFds hclosed
  have hclosedRun : closed.running = kernel.running := by rw [heq, running_withFds, hrun]
  have hpcb : after.pcb = closed.pcb := by
    rw [releaseTask, Prod.mk.injEq] at hreleased
    rw [← hreleased.1]
  have hrestored : (restoreParent kernel).fdOf fd = kernel.fdOf fd := by
    rw [Kernel.fdOf, hrun, fds_restoreParent]
    rfl
  have hseven : (7 : UInt32).toNat = 7 := rfl
  have hzero : (0 : UInt32).toNat = 0 := rfl
  have hle := UInt32.le_iff_toNat_le.mp hfd
  have hswept := (closeRelevantFds_fdOf (by decide) hclosed fd).1 (by omega) (by omega)
  rw [hrestored, Kernel.fdOf, hclosedRun, Kernel.pcbOf, ← hpcb] at hswept
  exact hswept

/-! ## Free descriptors are at position 0 -/

def FreeAtZero (kernel : Kernel) : Prop :=
  ∀ task, Occupied kernel task → AtZero (kernel.pcbOf task).fd

/-! ## What a halt leaves -/

theorem released_child_iff {status : UInt8} {called : Bool} {kernel after : Kernel} {exit : Exit}
    (hdeath : after.exceptionDeath = 0) (hzero : AtZero kernel.fdOf)
    (h : haltChild status kernel = some (after, exit)) :
    Released kernel.running called after ↔
      ∀ fd, 2 ≤ fd → fd ≤ 7 → (kernel.fdOf fd).flags ≠ 0 → Closable (kernel.fdOf fd) := by
  constructor
  · intro hreleased fd hlow hhigh hopen
    have hclosed := hreleased.closed fd hlow hhigh
    rw [haltChild_fds h hhigh, swept, if_pos ⟨hlow, hopen⟩] at hclosed
    exact (flags_closedBy_iff hopen).mp hclosed
  · intro hclosable
    refine ⟨fun fd hlow hhigh => ?_, fun fd hhigh => ?_, ?_, hdeath⟩
    · rw [haltChild_fds h hhigh]
      by_cases hopen : (kernel.fdOf fd).flags = 0
      · rw [swept, if_neg fun hin => hin.2 hopen]
        exact hopen
      · rw [swept, if_pos ⟨hlow, hopen⟩]
        exact (flags_closedBy_iff hopen).mpr (hclosable fd hlow hhigh hopen)
    · rw [haltChild_fds h hhigh, swept]
      split
      · next hin => exact position_closedBy hin.2
      · exact hzero fd hhigh
    · rw [videoMapped_haltChild h]
      simp

theorem released_base_iff {called : Bool} {kernel after : Kernel} {screen : Screen}
    {esp0 : UInt32} (hzero : AtZero kernel.fdOf)
    (hafter : after = { kernel with screen := screen, tssEsp0 := esp0 }) :
    Released kernel.running called after ↔
      (∀ fd, 2 ≤ fd → fd ≤ 7 → (kernel.fdOf fd).flags = 0) ∧ kernel.exceptionDeath = 0 ∧
        ¬ (videoMapped kernel = true ∧ called = true) := by
  have hfds : (after.pcbOf kernel.running).fd = kernel.fdOf := by
    rw [Kernel.pcbOf, hafter]
    rfl
  have hdeath : after.exceptionDeath = kernel.exceptionDeath := by rw [hafter]
  have hvideo : videoMapped after = videoMapped kernel := videoMapped_congr (by rw [hafter])
  constructor
  · intro hreleased
    obtain ⟨hclosed, -, hnone, hclear⟩ := hreleased
    rw [hfds] at hclosed
    rw [hvideo] at hnone
    exact ⟨hclosed, hdeath ▸ hclear, hnone⟩
  · rintro ⟨hclosed, hclear, hnone⟩
    refine ⟨?_, ?_, ?_, hdeath.trans hclear⟩
    · rwa [hfds]
    · rwa [hfds]
    · rwa [hvideo]

theorem released_halt_iff {status : UInt8} {kernel after : Kernel} {exit : Exit} (called : Bool)
    (hchains : Chains kernel) (hge : 0 ≤ kernel.tasksRunning) (hzero : AtZero kernel.fdOf)
    (h : syscallHalt status kernel = some (after, exit)) :
    Released kernel.running called after ↔
      if (kernel.links kernel.running).parent = noTask then
        (∀ fd, 2 ≤ fd → fd ≤ 7 → (kernel.fdOf fd).flags = 0) ∧ kernel.exceptionDeath = 0 ∧
          ¬ (videoMapped kernel = true ∧ called = true)
      else ∀ fd, 2 ≤ fd → fd ≤ 7 → (kernel.fdOf fd).flags ≠ 0 → Closable (kernel.fdOf fd) := by
  rcases syscallHalt_cases h with ⟨hbase, ⟨text, hafter⟩, -⟩ | ⟨hchild, hended⟩
  · have hparent : (kernel.links kernel.running).parent = noTask := hbase
    rw [if_pos hparent]
    exact released_base_iff hzero hafter
  · have hparent : (kernel.links kernel.running).parent ≠ noTask := hchild
    rw [if_neg hparent]
    have hdeath : after.exceptionDeath = 0 := by
      rcases hchains.halt_cases hge h with ⟨hbase, -⟩ | ⟨-, hended⟩
      · exact absurd hbase hparent
      · exact hended.death
    exact released_child_iff hdeath hzero hended

/--
In every state that boot and programs can reach, the end of the running program
leaves nothing of what it held exactly when it had a parent and held what
`close` takes back, or when it was a base shell that held nothing.
-/
theorem released_iff {events : List ProgramEvent} {start after : Kernel} {final : Programs}
    {ending : Ending} {exit : Exit}
    (hrun : run programStep events (freshPrograms start) = some final) (hstart : Boot start)
    (hge : 0 ≤ final.kernel.tasksRunning)
    (hend : endProgram ending final.kernel = some (after, exit)) (hpassed : exit ≠ .hung) :
    Released final.kernel.running (final.called final.kernel.running) after ↔
      ReleasesAll ending final := by
  have hkept : Chains final.kernel ∧ FreeAtZero final.kernel :=
    lasting_position.of_run hstart hrun
  obtain ⟨hchains, hzero⟩ := hkept
  have hown : AtZero final.kernel.fdOf := hzero _ (hchains.running hge).1
  cases ending with
  | status status =>
      rw [released_halt_iff _ hchains hge hown hend, ReleasesAll]
      have hstatus : ∃ status', Ending.status status = .status status' := ⟨status, rfl⟩
      simp only [hstatus, true_and]
  -- an exception halts its task from a state in which `exception_death` is set
  | exception message =>
      rcases hchains.exception_cases hge hend with
        ⟨-, -, hhung⟩ | ⟨-, shown, text, heq, hsame, hshown, hgeShown, hhalt⟩
      · exact absurd hhung hpassed
      have hfds : shown.fdOf = final.kernel.fdOf := by
        rw [heq]
        rfl
      have hflag : shown.exceptionDeath = 1 := by rw [heq]
      have hdeath : shown.exceptionDeath ≠ 0 := by
        rw [hflag]
        decide
      have hiff := released_halt_iff (final.called final.kernel.running) hshown hgeShown
        (hfds ▸ hown) hhalt
      rw [hsame.running_eq, hsame.links, hfds] at hiff
      rw [hiff, ReleasesAll]
      have hstatus : ¬ ∃ status, Ending.exception message = .status status := by
        rintro ⟨status, hstatus⟩
        cases hstatus
      simp only [hdeath, hstatus, false_and, and_false]

def childHolding : List ProgramEvent :=
  bootTicks.map .kernel ++ [.kernel (.execute default shellName),
    .call (.openFile (some shellName)), .vidmap 0x8000000]

theorem released_iff_childHolding :
    ∃ final after exit,
      run programStep childHolding (freshPrograms (bootKernel shellImage)) = some final ∧
      0 ≤ final.kernel.tasksRunning ∧
      endProgram (.status 0) final.kernel = some (after, exit) ∧ exit ≠ .hung ∧
      (Released final.kernel.running (final.called final.kernel.running) after ↔
        ReleasesAll (.status 0) final) := by
  have hany : (run programStep childHolding (freshPrograms (bootKernel shellImage))).any
      (fun final => decide (0 ≤ final.kernel.tasksRunning) &&
        (endProgram (.status 0) final.kernel).any fun ended => ended.2 != .hung) = true := by
    decide +kernel
  obtain ⟨final, hrun, hfinal⟩ := (Option.any_eq_true _ _).mp hany
  rw [Bool.and_eq_true, decide_eq_true_eq] at hfinal
  obtain ⟨⟨after, exit⟩, hend, hpassed⟩ := (Option.any_eq_true _ _).mp hfinal.2
  have hne : exit ≠ .hung := by simpa using hpassed
  exact ⟨final, after, exit, hrun, hfinal.1, hend, hne,
    released_iff hrun (boot_bootKernel shellImage) hfinal.1 hend hne⟩

def shellHolding : List ProgramEvent :=
  bootTicks.map .kernel ++ [.call (.openFile (some shellName)), .vidmap 0x8000000]

/-- The restarted shell still has the file open and the video page mapped. -/
theorem not_released_shellHolding :
    ∃ final after exit,
      run programStep shellHolding (freshPrograms (bootKernel shellImage)) = some final ∧
      endProgram (.status 0) final.kernel = some (after, exit) ∧ exit ≠ .hung ∧
      ((after.pcbOf final.kernel.running).fd 2).flags = 1 ∧ videoMapped after = true ∧
      final.called final.kernel.running = true ∧
      ¬ Released final.kernel.running (final.called final.kernel.running) after := by
  have hany : (run programStep shellHolding (freshPrograms (bootKernel shellImage))).any
      (fun final => (endProgram (.status 0) final.kernel).any fun ended => ended.2 != .hung &&
        ((ended.1.pcbOf final.kernel.running).fd 2).flags == 1 && videoMapped ended.1 &&
          final.called final.kernel.running) = true := by
    decide +kernel
  obtain ⟨final, hrun, hfinal⟩ := (Option.any_eq_true _ _).mp hany
  obtain ⟨⟨after, exit⟩, hend, hended⟩ := (Option.any_eq_true _ _).mp hfinal
  simp only [Bool.and_eq_true, bne_iff_ne, beq_iff_eq] at hended
  obtain ⟨⟨⟨hne, hopen⟩, hvideo⟩, hcalled⟩ := hended
  exact ⟨final, after, exit, hrun, hend, hne, hopen, hvideo, hcalled,
    fun hreleased => hreleased.video ⟨hvideo, hcalled⟩⟩

end LinuxOS
