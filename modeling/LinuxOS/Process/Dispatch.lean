import LinuxOS.Kernel.FileSystem
import LinuxOS.Kernel.SyscallHandler

/-!
# What the entry of system calls does for each number

The handler admits the numbers 1 to 10, and the table ends with entry 8.  Every
other number is served or refused, and the caller gets its registers and its
interrupt frame back from the words that the called function left alone.
-/

namespace LinuxOS

/-! ## What the handler should do -/

structure Restored (entry : Cpu) (after : UserCpu) : Prop where
  registers : ∀ reg ≠ .eax, after.reg reg = entry.reg reg
  frame : after.frame = entry.frame

/-- The outcomes of a dispatch that is total: a refusal, or a call by number. -/
inductive Dispatched (compiled : CompiledCalls) (entry : Cpu) : Dispatch → Prop where
  | rejected (after : UserCpu)
      (hnone : ∀ function : SyscallFunction, function.number ≠ entry.reg .eax)
      (hvalue : after.reg .eax = -1) (hrestored : Restored entry after) :
      Dispatched compiled entry (.rejected after)
  | called (function : SyscallFunction) (given : Cpu) (after : Option UserCpu)
      (hentry : some function ∈ syscallJump) (hnumber : function.number = entry.reg .eax)
      (hfirst : given.stack 0 = entry.reg .ebx) (hsecond : given.stack 1 = entry.reg .ecx)
      (hthird : given.stack 2 = entry.reg .edx)
      (hvalue : after.map (fun back => back.reg .eax) =
        (compiled function given).map fun back => back.reg .eax)
      (hrestored : ∀ back ∈ after, Restored entry back) :
      Dispatched compiled entry (.called function given after)

/-- The six saved registers and the interrupt frame, in words. -/
def savedWords : Nat := 11

/-- The function that is called leaves alone what the handler has on the stack. -/
def KeepsStack (compiled : CompiledCalls) (entry : Cpu) : Prop :=
  ∀ function back, function.number = entry.reg .eax →
    compiled function (saveRegisters entry).sti = some back →
    ∀ i < savedWords, back.stack i = (saveRegisters entry).stack i

/-! ## The table -/

theorem exists_entry {index : Nat} (hlow : 1 ≤ index) (hhigh : index ≤ 8) :
    ∃ function, syscallJump[index]? = some (some function) ∧
      function.number.toNat = index := by
  have hcases : index = 1 ∨ index = 2 ∨ index = 3 ∨ index = 4 ∨ index = 5 ∨ index = 6 ∨
      index = 7 ∨ index = 8 := by
    omega
  rcases hcases with rfl | rfl | rfl | rfl | rfl | rfl | rfl | rfl <;> exact ⟨_, rfl, rfl⟩

theorem toNat_bounds {number : UInt32} (hhigh : ¬ number.toInt32 > 10)
    (hlow : ¬ number.toInt32 < 1) : 1 ≤ number.toNat ∧ number.toNat ≤ 10 := by
  have hbits : number.toInt32.toInt = number.toBitVec.toInt := rfl
  rw [Int32.not_lt, Int32.le_iff_toInt_le, hbits, BitVec.toInt_eq_toNat_cond] at hhigh hlow
  have hten : (10 : Int32).toInt = 10 := rfl
  have hone : (1 : Int32).toInt = 1 := rfl
  have hnat : number.toBitVec.toNat = number.toNat := rfl
  rw [hten, hnat] at hhigh
  rw [hone, hnat] at hlow
  split at hhigh
  · omega
  · omega

def OutOfRange (number : UInt32) : Prop := number.toInt32 > 10 ∨ number.toInt32 < 1

theorem not_outOfRange_number (function : SyscallFunction) : ¬ OutOfRange function.number := by
  unfold OutOfRange
  cases function <;> decide

/-! ## The ways through the handler -/

theorem syscallHandlerAsm_cases (compiled : CompiledCalls) (entry : Cpu) :
    (∃ function, some function ∈ syscallJump ∧ function.number = entry.reg .eax ∧
      syscallHandlerAsm compiled entry = .called function (saveRegisters entry).sti
        ((compiled function (saveRegisters entry).sti).map complete)) ∨
    ((entry.reg .eax = 9 ∨ entry.reg .eax = 10) ∧
      syscallHandlerAsm compiled entry = .astray (entry.reg .eax)) ∨
    (OutOfRange (entry.reg .eax) ∧ syscallHandlerAsm compiled entry =
      .rejected (complete ((saveRegisters entry).movl (-1) .eax))) := by
  have hnumber : (saveRegisters entry).reg .eax = entry.reg .eax := rfl
  simp only [syscallHandlerAsm, hnumber]
  split
  · next habove => exact .inr (.inr ⟨.inl habove, rfl⟩)
  next hhigh =>
    split
    · next hbelow => exact .inr (.inr ⟨.inr hbelow, rfl⟩)
    next hlow =>
      obtain ⟨hfirst, hlast⟩ := toNat_bounds hhigh hlow
      by_cases hserved : (entry.reg .eax).toNat ≤ 8
      · obtain ⟨function, hentry, heq⟩ := exists_entry hfirst hserved
        rw [hentry]
        exact .inl ⟨function, List.mem_of_getElem? hentry, UInt32.toNat_inj.mp heq, rfl⟩
      · have hbehind : syscallJump[(entry.reg .eax).toNat]? = none := by
          rw [List.getElem?_eq_none_iff]
          exact Nat.not_le.mp hserved
        have hcommented : (entry.reg .eax).toNat = 9 ∨ (entry.reg .eax).toNat = 10 := by omega
        rw [hbehind]
        exact .inr (.inl ⟨hcommented.imp UInt32.toNat_inj.mp UInt32.toNat_inj.mp, rfl⟩)

/-! ## The stack -/

def wordsFrom (memory : UInt32 → UInt8) (esp : UInt32) (i : Nat) : UInt32 :=
  wordOfBytes (memory (esp + UInt32.ofNat (4 * i))) (memory (esp + UInt32.ofNat (4 * i + 1)))
    (memory (esp + UInt32.ofNat (4 * i + 2))) (memory (esp + UInt32.ofNat (4 * i + 3)))

theorem restored_complete_iff {entry cpu : Cpu} :
    Restored entry (complete cpu) ↔
      ∀ i < savedWords, cpu.stack i = (saveRegisters entry).stack i := by
  constructor
  · rintro ⟨hregisters, hframe⟩ i hi
    obtain ⟨heip, hcs, heflags, hesp, hss⟩ := InterruptFrame.mk.inj hframe
    match i, hi with
    | 0, _ => exact hregisters .ebx (by decide)
    | 1, _ => exact hregisters .ecx (by decide)
    | 2, _ => exact hregisters .edx (by decide)
    | 3, _ => exact hregisters .edi (by decide)
    | 4, _ => exact hregisters .esi (by decide)
    | 5, _ => exact hregisters .ebp (by decide)
    | 6, _ => exact heip
    | 7, _ => exact hcs
    | 8, _ => exact heflags
    | 9, _ => exact hesp
    | 10, _ => exact hss
  · intro hwords
    refine ⟨fun reg hne => ?_, ?_⟩
    · cases reg with
      | eax => exact absurd rfl hne
      | ebx => exact hwords 0 (by decide)
      | ecx => exact hwords 1 (by decide)
      | edx => exact hwords 2 (by decide)
      | edi => exact hwords 3 (by decide)
      | esi => exact hwords 4 (by decide)
      | ebp => exact hwords 5 (by decide)
    · exact InterruptFrame.mk.injEq .. ▸ ⟨hwords 6 (by decide), hwords 7 (by decide),
        hwords 8 (by decide), hwords 9 (by decide), hwords 10 (by decide)⟩

theorem keepsStack_of_stores {compiled : CompiledCalls} {entry : Cpu} {memory : UInt32 → UInt8}
    {esp : UInt32} (hstack : (saveRegisters entry).stack = wordsFrom memory esp)
    (hstores : ∀ function back, compiled function (saveRegisters entry).sti = some back →
      ∃ stores : Stores, (∀ store ∈ stores, 4 * savedWords ≤ (store.1 - esp).toNat) ∧
        back.stack = wordsFrom (stores.apply memory) esp) :
    KeepsStack compiled entry := by
  intro function back _ hback i hi
  obtain ⟨stores, haway, hafter⟩ := hstores function back hback
  have hkept : ∀ offset < 4 * savedWords, stores.apply memory (esp + UInt32.ofNat offset) =
      memory (esp + UInt32.ofNat offset) := by
    intro offset hoffset
    refine apply_of_forall_ne (fun store hstore heq => ?_) memory
    have hdistance := haway store hstore
    rw [heq, UInt32.add_comm, UInt32.add_sub_cancel, UInt32.toNat_ofNat'] at hdistance
    omega
  rw [hafter, hstack, wordsFrom, wordsFrom, hkept _ (by omega), hkept _ (by omega),
    hkept _ (by omega), hkept _ (by omega)]

/-! ## When a dispatch is total -/

theorem number_injective {function other : SyscallFunction}
    (h : function.number = other.number) : function = other := by
  cases function <;> cases other <;> first | rfl | exact absurd h (by decide)

section Outcomes

variable {compiled : CompiledCalls} {entry : Cpu}

theorem dispatched_called_iff {function : SyscallFunction} (hentry : some function ∈ syscallJump)
    (hnumber : function.number = entry.reg .eax) :
    Dispatched compiled entry (.called function (saveRegisters entry).sti
      ((compiled function (saveRegisters entry).sti).map complete)) ↔
        KeepsStack compiled entry := by
  constructor
  · intro hdispatched other back hother hback
    obtain rfl : other = function := number_injective (hother.trans hnumber.symm)
    cases hdispatched with
    | called _ _ _ _ _ _ _ _ _ hrestored =>
        have hmem : complete back ∈ (compiled other (saveRegisters entry).sti).map complete := by
          rw [hback]
          rfl
        exact restored_complete_iff.mp (hrestored _ hmem)
  · intro hkeeps
    refine .called _ _ _ hentry hnumber rfl rfl rfl ?_ fun after hafter => ?_
    · rw [Option.map_map]
      rfl
    · obtain ⟨back, hback, rfl⟩ := Option.map_eq_some_iff.mp hafter
      exact restored_complete_iff.mpr (hkeeps function back hnumber hback)

theorem not_dispatched_astray (index : UInt32) : ¬ Dispatched compiled entry (.astray index) := by
  intro hdispatched
  cases hdispatched

theorem number_ne_of_outOfRange (hout : OutOfRange (entry.reg .eax)) (function : SyscallFunction) :
    function.number ≠ entry.reg .eax := by
  intro hnumber
  rw [← hnumber] at hout
  exact not_outOfRange_number function hout

theorem dispatched_rejected (hout : OutOfRange (entry.reg .eax)) :
    Dispatched compiled entry (.rejected (complete ((saveRegisters entry).movl (-1) .eax))) :=
  .rejected _ (number_ne_of_outOfRange hout) rfl (restored_complete_iff.mpr fun _ _ => rfl)

theorem keepsStack_of_outOfRange (hout : OutOfRange (entry.reg .eax)) :
    KeepsStack compiled entry :=
  fun function _ hnumber => absurd hnumber (number_ne_of_outOfRange hout function)

end Outcomes

/--
For every number, all arguments and whatever the functions are compiled to, the
handler serves or refuses the call and restores its caller exactly when the
number is neither 9 nor 10 and the function keeps the handler's stack.
-/
theorem dispatched_iff (compiled : CompiledCalls) (entry : Cpu) :
    Dispatched compiled entry (syscallHandlerAsm compiled entry) ↔
      (entry.reg .eax ≠ 9 ∧ entry.reg .eax ≠ 10) ∧ KeepsStack compiled entry := by
  rcases syscallHandlerAsm_cases compiled entry with
    ⟨function, hentry, hnumber, heq⟩ | ⟨hbehind, heq⟩ | ⟨hout, heq⟩
  · have hin : entry.reg .eax ≠ 9 ∧ entry.reg .eax ≠ 10 := by
      rw [← hnumber]
      cases function <;> decide
    rw [heq, dispatched_called_iff hentry hnumber]
    exact (and_iff_right hin).symm
  · rw [heq]
    refine iff_of_false (not_dispatched_astray _) fun hcondition => ?_
    exact hbehind.elim hcondition.1.1 hcondition.1.2
  · have hnine : entry.reg .eax ≠ 9 := by
      intro hnine
      rw [hnine] at hout
      exact absurd hout (by unfold OutOfRange; decide)
    have hten : entry.reg .eax ≠ 10 := by
      intro hten
      rw [hten] at hout
      exact absurd hout (by unfold OutOfRange; decide)
    rw [heq]
    exact iff_of_true (dispatched_rejected hout) ⟨⟨hnine, hten⟩, keepsStack_of_outOfRange hout⟩

def nineEntry : Cpu :=
  ⟨fun reg => if reg = .eax then 9 else 0, fun _ => 0, false⟩

/-- The handler calls what lies behind the table, though every function keeps the stack. -/
theorem not_dispatched_nineEntry :
    syscallHandlerAsm (fun _ cpu => some (cpu.movl 0 .eax)) nineEntry = .astray 9 ∧
      KeepsStack (fun _ cpu => some (cpu.movl 0 .eax)) nineEntry ∧
      ¬ Dispatched (fun _ cpu => some (cpu.movl 0 .eax)) nineEntry
        (syscallHandlerAsm (fun _ cpu => some (cpu.movl 0 .eax)) nineEntry) := by
  have hastray : syscallHandlerAsm (fun _ cpu => some (cpu.movl 0 .eax)) nineEntry =
      .astray 9 := rfl
  refine ⟨hastray, fun function back _ hback i _ => ?_, fun hdispatched => ?_⟩
  · cases hback
    rfl
  · rw [hastray] at hdispatched
    exact not_dispatched_astray 9 hdispatched

end LinuxOS
