import LinuxOS.Process.Leftovers
import LinuxOS.Tty.Screen

/-!
# What a write to the terminal reports

Descriptor 1 of every program is the screen, in whatever state programs have
brought the kernel.  A write to it prints every byte, and counts those that are
no newline.
-/

namespace LinuxOS

open Foundation

def IsStdout (descriptor : FileDescriptor) : Prop :=
  descriptor.fopsTable = some .stdoutFops ∧ descriptor.flags ≠ 0

theorem lastsAt_stdout : LastsAt 1 IsStdout where
  inside := by decide
  initial := ⟨rfl, by decide⟩
  changes before after hchanges h := by
    cases hchanges with
    | kept => exact h
    | traced table hfree => exact absurd hfree h.2
    | opened table entry hfree => exact absurd hfree h.2
    | moved position hopen => exact h
    | closed hopen =>
        rw [closedBy, h.1]
        exact h

def writtenBytes (source : Nat → UInt8) (nbytes : Int32) : List UInt8 :=
  (List.range nbytes.toUInt32.toNat).map source

theorem syscallWrite_stdout {kernel : Kernel} (h : IsStdout (kernel.fdOf 1))
    (source : Nat → UInt8) (nbytes : Int32) :
    syscallWrite 1 source nbytes kernel =
      some (kernel.modifyScreen (puts (writtenBytes source nbytes)),
        Int32.ofNat ((writtenBytes source nbytes).countP (· != 0x0A))) := by
  have hrange : ¬ ((1 : UInt32) > 7 ∨ (1 : UInt32) < 1) := by decide
  obtain ⟨htable, hopen⟩ := h
  rw [syscallWrite, if_neg hrange]
  simp only [if_neg hopen, htable, terminalWrite_eq]
  rfl

def ReportsAll (source : Nat → UInt8) (nbytes : Int32) (kernel : Kernel) : Prop :=
  syscallWrite 1 source nbytes kernel =
    some (kernel.modifyScreen (puts (writtenBytes source nbytes)), nbytes)

theorem ofNat_countP_eq_iff {source : Nat → UInt8} {nbytes : Int32} (hnonneg : 0 ≤ nbytes) :
    Int32.ofNat ((writtenBytes source nbytes).countP (· != 0x0A)) = nbytes ↔
      0x0A ∉ writtenBytes source nbytes := by
  have hbound := (nonneg_iff_toNat_lt nbytes).mp hnonneg
  have hlength : (writtenBytes source nbytes).length = nbytes.toUInt32.toNat := by
    rw [writtenBytes, List.length_map, List.length_range]
  have hcount : (writtenBytes source nbytes).countP (· != 0x0A) ≤ nbytes.toUInt32.toNat :=
    hlength ▸ List.countP_le_length
  have hcounted : (Int32.ofNat ((writtenBytes source nbytes).countP (· != 0x0A))).toInt =
      (writtenBytes source nbytes).countP (· != 0x0A) :=
    Int32.toInt_ofNat_of_lt (hcount.trans_lt hbound)
  rw [← Int32.toInt_inj, hcounted, toInt_of_nonneg hnonneg, Int.natCast_inj, ← hlength,
    List.countP_eq_length]
  constructor
  · exact fun hall hmem => absurd (hall _ hmem) (by decide)
  · exact fun hnone byte hbyte => bne_iff_ne.mpr fun heq => hnone (heq ▸ hbyte)

/--
In every state that boot and programs can reach, a write to descriptor 1 prints
the bytes it is given and returns their number exactly when none of them is a
newline.
-/
theorem reportsAll_iff {events : List ProgramEvent} {start : Kernel} {final : Programs}
    (hrun : run programStep events (freshPrograms start) = some final) (hstart : Boot start)
    (hge : 0 ≤ final.kernel.tasksRunning) (source : Nat → UInt8) {nbytes : Int32}
    (hnonneg : 0 ≤ nbytes) :
    ReportsAll source nbytes final.kernel ↔ 0x0A ∉ writtenBytes source nbytes := by
  have hstdout := lastsAt_stdout.fdOf_of_run hstart hrun hge
  rw [ReportsAll, syscallWrite_stdout hstdout, Option.some.injEq, Prod.mk.injEq,
    and_iff_right rfl]
  exact ofNat_countP_eq_iff hnonneg

/-- The first shell writes `aa`. -/
theorem reportsAll_iff_bootTicks :
    ∃ final, run programStep (bootTicks.map .kernel) (freshPrograms (bootKernel shellImage)) =
        some final ∧
      0 ≤ final.kernel.tasksRunning ∧ (0 : Int32) ≤ 2 ∧
      (ReportsAll (fun _ => 0x61) 2 final.kernel ↔ 0x0A ∉ writtenBytes (fun _ => 0x61) 2) := by
  have hany : (run programStep (bootTicks.map .kernel)
      (freshPrograms (bootKernel shellImage))).any
        (fun final => decide (0 ≤ final.kernel.tasksRunning)) = true := by
    decide +kernel
  obtain ⟨final, hrun, hge⟩ := (Option.any_eq_true _ _).mp hany
  have hrunning := of_decide_eq_true hge
  exact ⟨final, hrun, hrunning, by decide,
    reportsAll_iff hrun (boot_bootKernel shellImage) hrunning (fun _ => 0x61) (by decide)⟩

/-- The first shell writes a newline, and is told that nothing has been written. -/
theorem not_reportsAll_newline :
    ∃ final, run programStep (bootTicks.map .kernel) (freshPrograms (bootKernel shellImage)) =
        some final ∧
      0 ≤ final.kernel.tasksRunning ∧
      (syscallWrite 1 (fun _ => 0x0A) 1 final.kernel).map Prod.snd = some 0 ∧
      ¬ ReportsAll (fun _ => 0x0A) 1 final.kernel := by
  have hany : (run programStep (bootTicks.map .kernel)
      (freshPrograms (bootKernel shellImage))).any
        (fun final => decide (0 ≤ final.kernel.tasksRunning) &&
          (syscallWrite 1 (fun _ => 0x0A) 1 final.kernel).map Prod.snd == some 0) = true := by
    decide +kernel
  obtain ⟨final, hrun, hwritten⟩ := (Option.any_eq_true _ _).mp hany
  rw [Bool.and_eq_true, decide_eq_true_eq, beq_iff_eq] at hwritten
  refine ⟨final, hrun, hwritten.1, hwritten.2, fun hreports => ?_⟩
  rw [hreports, Option.map_some, Option.some.injEq] at hwritten
  have hone : (1 : Int32) = 0 := hwritten.2
  exact absurd hone (by decide)

end LinuxOS
