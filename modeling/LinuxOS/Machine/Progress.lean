import LinuxOS.Machine.Isolation
import LinuxOS.Process.Arguments
import LinuxOS.Process.Exceptions
import LinuxOS.Tty.WriteCount

/-!
# Nothing gets stuck

What holds of the control block of a new program, and is kept by calls and by
the kernel's bookkeeping, holds of every control block whatever the machine
does.  So an open descriptor always has a table and an argument always has an
end, and the paths through the kernel come back: all of them but the reads that
wait for a line or for the clock.
-/

namespace LinuxOS

open Foundation

/-! ## Properties of control blocks -/

structure FreshPcb (pcb : Pcb) : Prop where
  fds : ∀ fd ≤ 7, pcb.fd fd = initialFd fd
  argument : ∃ frame command eip old,
    pcb.argumentBuf = (fillTexts frame command eip old).argumentBuf

/-- A property that fresh control blocks have, and that no step takes away. -/
structure OfPcbs (holds : Pcb → Prop) : Prop where
  fresh : ∀ pcb, FreshPcb pcb → holds pcb
  calls : ∀ pcb fds, (∀ fd, Changes (pcb.fd fd) (fds fd)) → holds pcb →
    holds { pcb with fd := fds }
  kept : ∀ pcb child esp ebp, holds pcb →
    holds { pcb with taskIdChild := child, oldEsp := esp, oldEbp := ebp }

def EveryPcb (holds : Pcb → Prop) (kernel : Kernel) : Prop :=
  ∀ task, Occupied kernel task → holds (kernel.pcbOf task)

theorem freshPcb_executeClaim (frame : ExecuteFrame) (command : CString) (fileCheck : Dentry)
    (slot : UInt32) (kernel : Kernel) :
    FreshPcb ((executeClaim frame command fileCheck slot kernel).1.pcbOf slot) := by
  obtain ⟨loaded, hloaded⟩ :
      ∃ loaded, loadProgram fileCheck (claimSlot slot kernel) = loaded := ⟨_, rfl⟩
  have hrunning : loaded.1.running = slot := by
    rw [← hloaded]
    exact UInt32.toUInt32_toInt32 slot
  have hclaim : (executeClaim frame command fileCheck slot kernel).1 =
      fillPcb frame command slot kernel.running loaded.2 loaded.1 := by
    rw [executeClaim, hloaded]
  have hfilled : (fillPcb frame command slot kernel.running loaded.2 loaded.1).running = slot := by
    rw [← hrunning, Kernel.running, Kernel.running]
    simp only [fillPcb, fdaInit, linkParent, Kernel.modifyPcb]
  rw [hclaim]
  constructor
  · intro fd hfd
    have hlt : fd < 8 := UInt32.lt_of_le_of_lt hfd (by decide)
    have hown : (fillPcb frame command slot kernel.running loaded.2 loaded.1).fdOf fd =
        initialFd fd := by
      rw [fillPcb, fdOf_withEsp0, fdOf_fdaInit, if_pos hlt]
      rfl
    rw [Kernel.fdOf, hfilled] at hown
    exact hown
  · obtain ⟨old, -, htexts⟩ := texts_fillPcb frame command kernel.running loaded.2 hrunning
    rw [hfilled] at htexts
    exact ⟨frame, command, loaded.2, old, htexts⟩

namespace OfPcbs

variable {holds : Pcb → Prop} {before after : Kernel}

theorem untouched (h : OfPcbs holds) {task : UInt32} (hheld : holds (before.pcbOf task))
    (huntouched : Untouched task before after) : holds (after.pcbOf task) := by
  obtain ⟨child, esp, ebp, hpcb⟩ := huntouched.pcb
  rw [hpcb]
  exact h.kept _ child esp ebp hheld

theorem samePcb (hall : EveryPcb holds before) (hslots : after.taskSlots = before.taskSlots)
    (hpcb : after.pcb = before.pcb) : EveryPcb holds after := by
  intro task htask
  rw [Kernel.pcbOf, hpcb]
  exact hall task ((occupied_congr hslots task).mp htask)

theorem called (h : OfPcbs holds) (hall : EveryPcb holds before) {stores : Stores}
    (hwrites : CallWrites stores before after)
    (hchanges : ∀ fd, Changes (before.fdOf fd) (after.fdOf fd))
    (hrunning : Occupied before before.running) : EveryPcb holds after := by
  intro task htask
  have hold := (occupied_congr hwrites.slots task).mp htask
  by_cases hself : task = before.running
  · obtain ⟨fds, hown⟩ := hwrites.pcbOf_self
    have hfds : after.fdOf = fds := by
      funext fd
      rw [Kernel.fdOf, hwrites.sameTasks.running_eq, hown]
    rw [hself, hown]
    exact h.calls _ fds (fun fd => hfds ▸ hchanges fd) (hall _ hrunning)
  · rw [hwrites.pcbOf_of_ne fun heq => hself (getPcb_injective hold.1 hrunning.1 heq)]
    exact hall task hold

theorem effect {mine : Bool} (h : OfPcbs holds) (hsecure : Secure before)
    (heffect : Effect before after mine) (hall : EveryPcb holds before) :
    EveryPcb holds after := by
  cases heffect with
  | quiet _ hquiet => exact samePcb hall hquiet.slots hquiet.pcb
  | switched regs tid switched hswitch hquiet =>
      have hslots := (switchDisplayTerminal_tasksKept hswitch).1.slots
      have hswitched : EveryPcb holds switched := fun task htask =>
        h.untouched (hall task ((occupied_congr hslots task).mp htask))
          (.switchDisplay task hswitch)
      exact samePcb hswitched hquiet.slots hquiet.pcb
  | started frame command fileCheck slot hslot hafter =>
      have hstarted := (hsecure.tree.chains hsecure.active).executeClaim_started hslot frame
        command fileCheck
      rw [hafter]
      intro task htask
      rcases (hstarted.occupied_iff hslot.lt task).mp htask with hself | hold
      · rw [hself]
        exact h.fresh _ (freshPcb_executeClaim frame command fileCheck slot before)
      · exact h.untouched (hall task hold)
          (.executeClaim hsecure hslot hold frame command fileCheck)
  | ended shown status exit hquiet hparent hhalt =>
      have hshown := hsecure.quiet hquiet
      have hheld : EveryPcb holds shown := samePcb hall hquiet.slots hquiet.pcb
      have hparent' := hquiet.running_pcbOf ▸ hparent
      obtain ⟨-, hended⟩ := hshown.runningEnds hparent' hhalt
      intro task htask
      obtain ⟨hold, hne⟩ := (hended.occupied_iff task).mp htask
      exact h.untouched (hheld task hold)
        (Untouched.haltChild hshown hparent' hhalt hold hne).2
  | called stores hwrites hchanges _ _ =>
      exact h.called hall hwrites hchanges hsecure.running_occupied
  | mapped stores hmapped =>
      rw [hmapped]
      exact samePcb hall rfl rfl
  | stored addr phys byte hwalk hstored =>
      rw [hstored]
      exact samePcb hall rfl rfl

end OfPcbs

/-! ## Properties that last -/

def TabledPcb (pcb : Pcb) : Prop :=
  ∀ fd ≤ 7, (pcb.fd fd).flags ≠ 0 → (pcb.fd fd).fopsTable ≠ none

theorem ofPcbs_tabled : OfPcbs TabledPcb where
  fresh pcb h fd hfd := by
    rw [h.fds fd hfd]
    exact (lastsAt_table hfd).initial
  calls pcb fds hchanges h fd hfd := (lastsAt_table hfd).changes _ _ (hchanges fd) (h fd hfd)
  kept _ _ _ _ h := h

def EndedPcb (pcb : Pcb) : Prop := (strlen pcb.argumentBuf).isSome

theorem strlen_fillTexts (frame : ExecuteFrame) (command : CString) (eip : UInt32) (pcb : Pcb) :
    strlen (fillTexts frame command eip pcb).argumentBuf =
      some (UInt32.ofNat (commandArgument command).length) := by
  have hlt := length_commandArgument_lt command
  have hsize : argumentBufSize = 129 := rfl
  have htext : HoldsText (fillTexts frame command eip pcb).argumentBuf
      (commandArgument command) :=
    (terminated_fillBuffer frame.argument (Nat.lt_succ_self _)).congr fun k hk =>
      if_pos (by omega)
  exact htext.strlen (noNul_commandArgument command) (by omega)

theorem ofPcbs_ended : OfPcbs EndedPcb where
  fresh pcb h := by
    obtain ⟨frame, command, eip, old, hargument⟩ := h.argument
    rw [EndedPcb, hargument, strlen_fillTexts]
    rfl
  calls _ _ _ h := h
  kept _ _ _ _ h := h

def IsStdin (descriptor : FileDescriptor) : Prop :=
  descriptor.fopsTable = some .stdinFops ∧ descriptor.flags ≠ 0

theorem lastsAt_stdin : LastsAt 0 IsStdin where
  inside := by decide
  initial := ⟨rfl, by decide⟩
  changes before after hchanges h := by
    cases hchanges with
    | kept => exact h
    | traced table hfree => exact absurd hfree h.2
    | opened table entry hfree => exact absurd hfree h.2
    | moved position hopen => exact h
    | closed hopen =>
        rw [closedBy, h.1]
        exact h

theorem LastsAt.ofPcbs {fd : UInt32} {holds : FileDescriptor → Prop} (h : LastsAt fd holds) :
    OfPcbs fun pcb => holds (pcb.fd fd) where
  fresh pcb hfresh := by
    rw [hfresh.fds fd h.inside]
    exact h.initial
  calls pcb fds hchanges hheld := h.changes _ _ (hchanges fd) hheld
  kept _ _ _ _ hheld := hheld

/-! ## States in which the kernel serves -/

/-- A secure state in which every path through the kernel has what it needs. -/
structure Serving (kernel : Kernel) : Prop extends Secure kernel where
  tabled : EveryPcb TabledPcb kernel
  ended : EveryPcb EndedPcb kernel
  stdin : HoldsAt 0 IsStdin kernel
  stdout : HoldsAt 1 IsStdout kernel
  rate : ValidRate kernel.virtFreq
  cursors : CursorsOnPage kernel
  /-- `strlen` of a name goes on up to the next zero of the memory. -/
  zero : ∃ addr, kernel.fs.memory addr = 0

theorem Effect.image {before after : Kernel} {mine : Bool} (h : Effect before after mine) :
    after.fs = before.fs := by
  cases h with
  | quiet _ hquiet => exact hquiet.image
  | switched regs tid switched hswitch hquiet =>
      exact hquiet.image.trans (switchDisplayTerminal_roundKept hswitch).image
  | started frame command fileCheck slot hslot hafter =>
      rw [hafter]
      rfl
  | ended shown status exit hquiet hparent hhalt =>
      exact (haltChild_kept hhalt).image.trans hquiet.image
  | called stores hwrites _ _ _ => exact hwrites.image
  | mapped stores hmapped =>
      rw [hmapped]
      rfl
  | stored addr phys byte hwalk hstored => rw [hstored]

theorem Effect.validRate {before after : Kernel} {mine : Bool} (h : Effect before after mine)
    (hrate : ValidRate before.virtFreq) : ValidRate after.virtFreq := by
  cases h with
  | quiet _ hquiet => exact hquiet.rate ▸ hrate
  | switched regs tid switched hswitch hquiet =>
      rw [hquiet.rate]
      rcases switchDisplayTerminal_eq hswitch with rfl | ⟨bottom, running, rfl⟩
      · exact hrate
      · exact hrate
  | started frame command fileCheck slot hslot hafter =>
      rw [hafter]
      exact hrate
  | ended shown status exit hquiet hparent hhalt =>
      have hkept : after.virtFreq = before.virtFreq :=
        (haltChild_kept hhalt).rate.trans hquiet.rate
      exact hkept ▸ hrate
  | called stores hwrites _ hkept _ => exact hkept hrate
  | mapped stores hmapped =>
      rw [hmapped]
      exact hrate
  | stored addr phys byte hwalk hstored =>
      rw [hstored]
      exact hrate

theorem Serving.kept {before after : Kernel} {mine : Bool} (h : Serving before)
    (heffect : Effect before after mine) : Serving after :=
  { h.toSecure.kept heffect with
    tabled := ofPcbs_tabled.effect h.toSecure heffect h.tabled
    ended := ofPcbs_ended.effect h.toSecure heffect h.ended
    stdin := lastsAt_stdin.ofPcbs.effect h.toSecure heffect h.stdin
    stdout := lastsAt_stdout.ofPcbs.effect h.toSecure heffect h.stdout
    rate := heffect.validRate h.rate
    cursors := heffect.cursors h.cursors
    zero := heffect.image ▸ h.zero }

theorem Serving.machineStep {event : MachineEvent} {before after : Console}
    (h : Serving before.kernel) (hstep : LinuxOS.machineStep event before = some after) :
    Serving after.kernel :=
  h.kept (h.toSecure.effect hstep)

/-! ## Calls come back -/

/-- A read of a terminal without a line, or of the clock before its interrupts have come. -/
inductive WaitsFor (kernel : Kernel) (interrupts : UInt32) : FopsTable → Prop where
  | line (hline : kernel.displayed.allowTerminalRead = 0) : WaitsFor kernel interrupts .stdinFops
  | clock (hclock : interrupts < 1024 / kernel.virtFreq) : WaitsFor kernel interrupts .rtcFops

theorem not_waitsFor_of_ready {kernel : Kernel} {interrupts : UInt32} {table : FopsTable}
    (hline : table ≠ .stdinFops) (hclock : table ≠ .rtcFops) :
    ¬ WaitsFor kernel interrupts table := by
  intro hwaits
  cases hwaits with
  | line _ => exact hline rfl
  | clock _ => exact hclock rfl

def Call.Waits : Call → Kernel → Prop
  | .readFd interrupts fd _ _, kernel =>
      (fd ≤ 7 ∧ fd ≠ 1) ∧ (kernel.fdOf fd).flags ≠ 0 ∧
        ∃ table, (kernel.fdOf fd).fopsTable = some table ∧ WaitsFor kernel interrupts table
  | _, _ => False

section Returns

variable {kernel : Kernel}

theorem Serving.table (h : Serving kernel) {fd : UInt32} (hfd : fd ≤ 7)
    (hopen : (kernel.fdOf fd).flags ≠ 0) :
    ∃ table, (kernel.fdOf fd).fopsTable = some table :=
  Option.ne_none_iff_exists'.mp (h.tabled _ h.toSecure.running_occupied fd hfd hopen)

theorem isSome_strlen_of_zero {fs : FileSystem} {addr : UInt32} (base : UInt32)
    (h : fs.memory addr = 0) : (strlen (fs.bytesFrom base)).isSome := by
  have hnul : fs.bytesFrom base (addr - base).toNat = 0 := by
    rw [FileSystem.bytesFrom, UInt32.ofNat_toNat, UInt32.add_comm, UInt32.sub_add_cancel]
    exact h
  have hrange := (addr - base).toNat_lt
  obtain ⟨stop, -, hstop⟩ := exists_strlenFrom hnul (2 ^ 32) 0 (Nat.zero_le _) (by omega)
  rw [strlen, hstop]
  rfl

theorem Serving.isSome_directoryRead (h : Serving kernel) (offset buf len : UInt32) :
    (directoryRead kernel.fs offset buf len).isSome := by
  obtain ⟨addr, hzero⟩ := h.zero
  unfold directoryRead
  split
  · rfl
  split
  · rfl
  · rw [Option.isSome_map]
    exact isSome_strlen_of_zero _ hzero

theorem isSome_terminalRead_iff (buf nbytes : UInt32) :
    (terminalRead buf nbytes kernel).isSome ↔ kernel.displayed.allowTerminalRead ≠ 0 := by
  unfold terminalRead
  split
  · next hline => exact iff_of_false (by simp) (not_not.mpr hline)
  · next hline => exact iff_of_true rfl hline

theorem Serving.isSome_rtcRead_iff (h : Serving kernel) (interrupts : UInt32) :
    (rtcRead interrupts kernel).isSome ↔ ¬ interrupts < 1024 / kernel.virtFreq := by
  unfold rtcRead
  rw [if_neg h.rate.ne_zero]
  split
  · next hearly => exact iff_of_false (by simp) (not_not.mpr hearly)
  · next hdone => exact iff_of_true rfl hdone

theorem Serving.isSome_syscallRead_iff (h : Serving kernel) (interrupts fd buf : UInt32)
    (nbytes : Int32) :
    (syscallRead interrupts fd buf nbytes kernel).isSome ↔
      ¬ (Call.readFd interrupts fd buf nbytes).Waits kernel := by
  unfold syscallRead
  split
  · next hout =>
      refine iff_of_true rfl fun hwaits => ?_
      rcases hout with hhigh | hone
      · exact absurd hwaits.1.1 (UInt32.not_le.mpr hhigh)
      · exact hwaits.1.2 hone
  next hin =>
    rw [not_or, gt_iff_lt, UInt32.not_lt] at hin
    simp only
    split
    · next hfree => exact iff_of_true rfl fun hwaits => hwaits.2.1 hfree
    next hopen =>
      obtain ⟨table, htable⟩ := h.table hin.1 hopen
      -- the call waits exactly when the function behind its table does
      have hwaits : (Call.readFd interrupts fd buf nbytes).Waits kernel ↔
          WaitsFor kernel interrupts table := by
        refine ⟨fun hwaits => ?_, fun hwaits => ⟨hin, hopen, table, htable, hwaits⟩⟩
        obtain ⟨-, -, other, hother, hwaits⟩ := hwaits
        rw [htable, Option.some.injEq] at hother
        exact hother ▸ hwaits
      rw [hwaits, htable]
      cases table with
      | stdoutFops => exact iff_of_true rfl (not_waitsFor_of_ready (by decide) (by decide))
      | stdinFops =>
          rw [Option.isSome_map, isSome_terminalRead_iff]
          exact not_congr ⟨.line, fun hwaits => by cases hwaits; assumption⟩
      | rtcFops =>
          rw [Option.isSome_map, h.isSome_rtcRead_iff]
          exact not_congr ⟨.clock, fun hwaits => by cases hwaits; assumption⟩
      | dirFops =>
          rw [Option.isSome_map, dirRead, Option.isSome_map]
          exact iff_of_true (h.isSome_directoryRead _ _ _)
            (not_waitsFor_of_ready (by decide) (by decide))
      | fileFops => exact iff_of_true rfl (not_waitsFor_of_ready (by decide) (by decide))

theorem Serving.isSome_syscallWrite (h : Serving kernel) (fd : UInt32) (source : Nat → UInt8)
    (nbytes : Int32) : (syscallWrite fd source nbytes kernel).isSome := by
  unfold syscallWrite
  split
  · rfl
  next hin =>
    rw [not_or, gt_iff_lt, UInt32.not_lt] at hin
    simp only
    split
    · rfl
    next hopen =>
      obtain ⟨table, htable⟩ := h.table hin.1 hopen
      rw [htable]
      cases table <;> rfl

theorem Serving.isSome_syscallOpen (h : Serving kernel) (filename : Option CString) :
    (syscallOpen filename kernel).isSome := by
  cases filename with
  | none => rfl
  | some filename =>
      by_cases hname : filename.chars = []
      · rw [syscallOpen_empty hname]
        rfl
      cases hfree : lowestFree kernel.isFree with
      | none =>
          rw [syscallOpen_full hfree]
          rfl
      | some fd =>
          cases hlookup : kernel.fs.lookup filename.chars with
          | none =>
              rw [syscallOpen_missing hname hfree hlookup]
              rfl
          | some entry =>
              obtain ⟨i, hi, hentry, -⟩ := lookup_eq_some hlookup
              obtain ⟨table, htable⟩ := exists_typeFops (hentry ▸ h.types i hi)
              rw [syscallOpen_found hname hfree hlookup, tableBehind, htable]
              rfl

theorem Serving.isSome_syscallGetargs (h : Serving kernel) (buf : UInt32) (nbytes : Int32) :
    (syscallGetargs buf nbytes kernel).isSome := by
  unfold syscallGetargs
  split
  · rfl
  · rw [Option.isSome_map]
    exact h.ended _ h.toSecure.running_occupied

theorem Serving.tabledRunning (h : Serving kernel) : Tabled kernel :=
  h.tabled _ h.toSecure.running_occupied

theorem Serving.isSome_perform_iff (h : Serving kernel) (call : Call) :
    (call.perform kernel).isSome ↔ ¬ call.Waits kernel := by
  cases call with
  | readFd interrupts fd buf nbytes => exact h.isSome_syscallRead_iff interrupts fd buf nbytes
  | openFile filename =>
      rw [Call.perform, Option.isSome_map]
      exact iff_of_true (h.isSome_syscallOpen filename) not_false
  | writeFd fd source nbytes =>
      rw [Call.perform, Option.isSome_map]
      exact iff_of_true (h.isSome_syscallWrite fd source nbytes) not_false
  | closeFd fd =>
      rw [Call.perform, Option.isSome_map]
      refine iff_of_true ?_ not_false
      by_cases hin : fd > 7 ∨ fd < 2
      · simp [syscallClose, hin]
      · obtain ⟨closed, value, hclose⟩ :=
          exists_syscallClose (h.tabledRunning _ ((closable_iff fd).mp hin).2)
        rw [hclose]
        rfl
  | getargs buf nbytes => exact iff_of_true (h.isSome_syscallGetargs buf nbytes) not_false

end Returns

theorem everyPcb_of_all {holds : Pcb → Prop} {kernel : Kernel} {test : Pcb → Bool}
    (hsound : ∀ pcb, test pcb = true → holds pcb)
    (hall : (List.range 6).all (fun task => kernel.taskSlots (UInt32.ofNat task) == 0 ||
      test (kernel.pcbOf (UInt32.ofNat task))) = true) : EveryPcb holds kernel := by
  intro task htask
  have hlt := htask.1
  rw [UInt32.lt_iff_toNat_lt] at hlt
  have htest := List.all_eq_true.mp hall task.toNat (List.mem_range.mpr hlt)
  rw [UInt32.ofNat_toNat, Bool.or_eq_true, beq_iff_eq] at htest
  exact hsound _ (htest.resolve_left htask.2)

theorem tabledPcb_of_all {pcb : Pcb}
    (h : (List.range 8).all (fun fd => (pcb.fd (UInt32.ofNat fd)).flags == 0 ||
      (pcb.fd (UInt32.ofNat fd)).fopsTable.isSome) = true) : TabledPcb pcb := by
  intro fd hfd hopen hnone
  have hlt : fd < 8 := UInt32.lt_of_le_of_lt hfd (by decide)
  rw [UInt32.lt_iff_toNat_lt] at hlt
  have htest := List.all_eq_true.mp h fd.toNat (List.mem_range.mpr hlt)
  rw [UInt32.ofNat_toNat, Bool.or_eq_true, beq_iff_eq, hnone] at htest
  exact hopen (htest.resolve_right (by decide))

theorem endedPcb_of_empty {pcb : Pcb} (h : (pcb.argumentBuf 0 == 0) = true) : EndedPcb pcb := by
  have hempty : strlen pcb.argumentBuf = some 0 :=
    strlen_eq_some_iff.mpr ⟨beq_iff_eq.mp h, fun _ hk => absurd hk (Nat.not_lt_zero _)⟩
  rw [EndedPcb, hempty]
  rfl

def servingPcb (pcb : Pcb) : Bool :=
  (List.range 8).all (fun fd => (pcb.fd (UInt32.ofNat fd)).flags == 0 ||
      (pcb.fd (UInt32.ofNat fd)).fopsTable.isSome) &&
    pcb.argumentBuf 0 == 0 &&
    decide ((pcb.fd 0).fopsTable = some .stdinFops ∧ (pcb.fd 0).flags ≠ 0) &&
    decide ((pcb.fd 1).fopsTable = some .stdoutFops ∧ (pcb.fd 1).flags ≠ 0)

theorem servingPcb_sound {pcb : Pcb} (h : servingPcb pcb = true) :
    TabledPcb pcb ∧ EndedPcb pcb ∧ IsStdin (pcb.fd 0) ∧ IsStdout (pcb.fd 1) := by
  rw [servingPcb, Bool.and_eq_true, Bool.and_eq_true, Bool.and_eq_true, decide_eq_true_eq,
    decide_eq_true_eq] at h
  obtain ⟨⟨⟨htabled, hended⟩, hstdin⟩, hstdout⟩ := h
  exact ⟨tabledPcb_of_all htabled, endedPcb_of_empty hended, hstdin, hstdout⟩

theorem serving_shellsKernel : Serving shellsKernel := by
  have htest : ((List.range 6).all (fun task =>
      shellsKernel.taskSlots (UInt32.ofNat task) == 0 ||
        servingPcb (shellsKernel.pcbOf (UInt32.ofNat task))) &&
      decide (shellsKernel.virtFreq.toNat = 2 ^ 1)) = true := by decide +kernel
  rw [Bool.and_eq_true] at htest
  have hpcbs : EveryPcb (fun pcb => TabledPcb pcb ∧ EndedPcb pcb ∧ IsStdin (pcb.fd 0) ∧
      IsStdout (pcb.fd 1)) shellsKernel :=
    everyPcb_of_all (fun _ hheld => servingPcb_sound hheld) htest.1
  exact {
    secure_shellsKernel with
    tabled := fun task htask => (hpcbs task htask).1
    ended := fun task htask => (hpcbs task htask).2.1
    stdin := fun task htask => (hpcbs task htask).2.2.1
    stdout := fun task htask => (hpcbs task htask).2.2.2
    rate := ⟨1, by decide, by decide, of_decide_eq_true htest.2⟩
    cursors := keptByParts_cursorsOnPage.run run_bootTicks (cursorsOnPage_bootKernel shellImage)
    zero := ⟨0, by rw [image_shellsKernel]; rfl⟩ }

end LinuxOS
