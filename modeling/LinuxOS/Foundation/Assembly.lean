import Mathlib.Data.List.Basic
import Mathlib.Logic.Function.Basic

/-!
# Assembly programs

A fragment of i386 assembly in AT&T operand order over flat segments: plain
operations, conditional jumps to labels, and the `rep` prefix.  A program gives
for each label the instructions from there on.  `Finishes` is total correctness
and is computed backwards, one instruction at a time.
-/

namespace LinuxOS.Foundation

inductive Register where
  | eax | ecx | edx | esi | edi
  deriving DecidableEq

inductive Segment where
  | ds | es
  deriving DecidableEq

inductive Operand where
  | imm (value : UInt32)
  | reg (register : Register)

/-- The operations that leave control alone, with `al` and `dx` as parts of `eax` and `edx`. -/
inductive Operation where
  | testl (source : Operand) (target : Register)
  | movl (source : Operand) (target : Register)
  | addl (source : Operand) (target : Register)
  | subl (source : Operand) (target : Register)
  | andl (source : Operand) (target : Register)
  | shrl (count : UInt32) (target : Register)
  | movbLoad (pointer : Register)
  | movbStore (pointer : Register)
  | movwFrom (segment : Segment) (target : Register)
  | movwTo (source : Register) (segment : Segment)
  | cld
  | movsl
  | stosl

inductive Instruction (Label : Type) where
  | op (operation : Operation)
  | jz (label : Label)
  | jmp (label : Label)
  | rep (operation : Operation)

structure Processor where
  registers : Register → UInt32
  segments : Segment → UInt16
  zero : Bool
  direction : Bool
  memory : UInt32 → UInt8

/-! ## Words in memory -/

def wordOf (b0 b1 b2 b3 : UInt8) : UInt32 :=
  b0.toUInt32 ||| b1.toUInt32 <<< 8 ||| b2.toUInt32 <<< 16 ||| b3.toUInt32 <<< 24

def loadWord (memory : UInt32 → UInt8) (addr : UInt32) : UInt32 :=
  wordOf (memory addr) (memory (addr + 1)) (memory (addr + 2)) (memory (addr + 3))

def storeWord (memory : UInt32 → UInt8) (addr word : UInt32) : UInt32 → UInt8 :=
  Function.update (Function.update (Function.update (Function.update memory
    addr word.toUInt8) (addr + 1) (word >>> 8).toUInt8)
    (addr + 2) (word >>> 16).toUInt8) (addr + 3) (word >>> 24).toUInt8

theorem bytes_wordOf (b0 b1 b2 b3 : UInt8) :
    (wordOf b0 b1 b2 b3).toUInt8 = b0 ∧ (wordOf b0 b1 b2 b3 >>> 8).toUInt8 = b1 ∧
      (wordOf b0 b1 b2 b3 >>> 16).toUInt8 = b2 ∧ (wordOf b0 b1 b2 b3 >>> 24).toUInt8 = b3 := by
  simp only [wordOf, ← UInt8.toBitVec_inj]
  refine ⟨?_, ?_, ?_, ?_⟩
  · ext index hindex
    simp
  all_goals
    ext index hindex
    simp
    grind

theorem storeWord_wordOf (memory : UInt32 → UInt8) (addr : UInt32) (b0 b1 b2 b3 : UInt8) :
    storeWord memory addr (wordOf b0 b1 b2 b3) =
      Function.update (Function.update (Function.update (Function.update memory
        addr b0) (addr + 1) b1) (addr + 2) b2) (addr + 3) b3 := by
  obtain ⟨h0, h1, h2, h3⟩ := bytes_wordOf b0 b1 b2 b3
  rw [storeWord, h0, h1, h2, h3]

/-! ## Execution -/

namespace Processor

def value (cpu : Processor) : Operand → UInt32
  | .imm value => value
  | .reg register => cpu.registers register

def set (cpu : Processor) (target : Register) (value : UInt32) : Processor :=
  { cpu with registers := Function.update cpu.registers target value }

def setFlagged (cpu : Processor) (target : Register) (value : UInt32) : Processor :=
  { cpu.set target value with zero := value = 0 }

def advanceWord (cpu : Processor) (pointer : Register) : Processor :=
  cpu.set pointer (if cpu.direction then cpu.registers pointer - 4 else cpu.registers pointer + 4)

def perform (cpu : Processor) : Operation → Processor
  | .testl source target =>
      { cpu with zero := cpu.value source &&& cpu.registers target = 0 }
  | .movl source target => cpu.set target (cpu.value source)
  | .addl source target => cpu.setFlagged target (cpu.registers target + cpu.value source)
  | .subl source target => cpu.setFlagged target (cpu.registers target - cpu.value source)
  | .andl source target => cpu.setFlagged target (cpu.registers target &&& cpu.value source)
  | .shrl count target => cpu.setFlagged target (cpu.registers target >>> count)
  | .movbLoad pointer =>
      cpu.set .eax (cpu.registers .eax &&& 0xFFFFFF00 |||
        (cpu.memory (cpu.registers pointer)).toUInt32)
  | .movbStore pointer =>
      { cpu with
        memory := Function.update cpu.memory (cpu.registers pointer)
          (cpu.registers .eax).toUInt8 }
  | .movwFrom segment target =>
      cpu.set target (cpu.registers target &&& 0xFFFF0000 ||| (cpu.segments segment).toUInt32)
  | .movwTo source segment =>
      { cpu with
        segments := Function.update cpu.segments segment (cpu.registers source).toUInt16 }
  | .cld => { cpu with direction := false }
  | .movsl =>
      ({ cpu with
        memory := storeWord cpu.memory (cpu.registers .edi)
          (loadWord cpu.memory (cpu.registers .esi)) }.advanceWord .esi).advanceWord .edi
  | .stosl =>
      { cpu with
        memory := storeWord cpu.memory (cpu.registers .edi)
          (cpu.registers .eax) }.advanceWord .edi

theorem registers_advanceWord {cpu : Processor} (hforward : cpu.direction = false)
    (pointer : Register) :
    (cpu.advanceWord pointer).registers pointer = cpu.registers pointer + 4 := by
  rw [advanceWord, hforward, if_neg Bool.false_ne_true]
  exact Function.update_self _ _ _

def performAll (cpu : Processor) (operations : List Operation) : Processor :=
  operations.foldl perform cpu

end Processor

variable {Label : Type} {program : Label → List (Instruction Label)}

/--
One step at an instruction in front of `rest`: what is to be executed then. A
`rep` stays in front until `ecx` is 0.
-/
def proceed (program : Label → List (Instruction Label)) (instruction : Instruction Label)
    (rest : List (Instruction Label)) (cpu : Processor) :
    List (Instruction Label) × Processor :=
  match instruction with
  | .op operation => (rest, cpu.perform operation)
  | .jz label => (if cpu.zero then program label else rest, cpu)
  | .jmp label => (program label, cpu)
  | .rep operation =>
      if cpu.registers .ecx = 0 then (rest, cpu)
      else
        let performed := cpu.perform operation
        (.rep operation :: rest, performed.set .ecx (performed.registers .ecx - 1))

def execute (program : Label → List (Instruction Label)) :
    Nat → List (Instruction Label) → Processor → Option Processor
  | _, [], cpu => some cpu
  | 0, _ :: _, _ => none
  | fuel + 1, instruction :: rest, cpu =>
      let next := proceed program instruction rest cpu
      execute program fuel next.1 next.2

def Finishes (program : Label → List (Instruction Label)) (code : List (Instruction Label))
    (cpu : Processor) (post : Processor → Prop) : Prop :=
  ∃ fuel final, execute program fuel code cpu = some final ∧ post final

/-! ## Rules -/

section Rules

variable {rest : List (Instruction Label)} {cpu : Processor} {post : Processor → Prop}

theorem ne_zero_of_toNat {value : UInt32} {left : Nat} (h : value.toNat = left + 1) :
    value ≠ 0 := by
  rintro rfl
  exact absurd h (Nat.succ_ne_zero left).symm

theorem finishes_nil (h : post cpu) : Finishes program [] cpu post :=
  ⟨0, cpu, rfl, h⟩

theorem finishes_cons {instruction : Instruction Label}
    (h : Finishes program (proceed program instruction rest cpu).1
      (proceed program instruction rest cpu).2 post) :
    Finishes program (instruction :: rest) cpu post := by
  obtain ⟨fuel, final, hexecuted, hpost⟩ := h
  exact ⟨fuel + 1, final, hexecuted, hpost⟩

theorem finishes_ops {operations : List Operation}
    (h : Finishes program rest (cpu.performAll operations) post) :
    Finishes program (operations.map .op ++ rest) cpu post := by
  induction operations generalizing cpu with
  | nil => exact h
  | cons operation operations ih => exact finishes_cons (ih h)

theorem finishes_jmp {label : Label} (h : Finishes program (program label) cpu post) :
    Finishes program (.jmp label :: rest) cpu post :=
  finishes_cons h

theorem finishes_testl_jz {source : Operand} {target : Register} {label : Label}
    (hzero : cpu.value source &&& cpu.registers target = 0 →
      Finishes program (program label) { cpu with zero := true } post)
    (hpos : cpu.value source &&& cpu.registers target ≠ 0 →
      Finishes program rest { cpu with zero := false } post) :
    Finishes program (.op (.testl source target) :: .jz label :: rest) cpu post := by
  refine finishes_cons (finishes_cons ?_)
  by_cases h : cpu.value source &&& cpu.registers target = 0
  · simpa [proceed, Processor.perform, h] using hzero h
  · simpa [proceed, Processor.perform, h] using hpos h

theorem finishes_testl_self {target : Register} {label : Label}
    (hzero : cpu.registers target = 0 →
      Finishes program (program label) { cpu with zero := true } post)
    (hpos : cpu.registers target ≠ 0 → Finishes program rest { cpu with zero := false } post) :
    Finishes program (.op (.testl (.reg target) target) :: .jz label :: rest) cpu post := by
  have hself : cpu.value (.reg target) &&& cpu.registers target = cpu.registers target :=
    UInt32.and_self
  refine finishes_testl_jz ?_ ?_
  · rw [hself]
    exact hzero
  · rw [hself]
    exact hpos

/-- A loop that counts a register down to 0 and begins with the test of it. -/
theorem finishes_countdown {counter : Register} {label : Label} {inv : Nat → Processor → Prop}
    (hcount : ∀ left cpu, inv left cpu → (cpu.registers counter).toNat = left)
    (hend : ∀ cpu, inv 0 cpu → Finishes program (program label) { cpu with zero := true } post)
    (hturn : ∀ left cpu, inv (left + 1) cpu →
      (∀ next, inv left next → Finishes program
        (.op (.testl (.reg counter) counter) :: .jz label :: rest) next post) →
      Finishes program rest { cpu with zero := false } post)
    {left : Nat} (hinv : inv left cpu) :
    Finishes program (.op (.testl (.reg counter) counter) :: .jz label :: rest) cpu post := by
  induction left generalizing cpu with
  | zero =>
      have hzero : cpu.registers counter = 0 := UInt32.toNat_inj.mp (hcount 0 cpu hinv)
      exact finishes_testl_self (fun _ => hend cpu hinv) (absurd hzero)
  | succ left ih =>
      have hpos := ne_zero_of_toNat (hcount (left + 1) cpu hinv)
      exact finishes_testl_self (fun hzero => absurd hzero hpos)
        fun _ => hturn left cpu hinv fun _ => ih

/-- A `rep` runs its operation as often as `ecx` says. -/
theorem finishes_rep {operation : Operation} {inv : Nat → Processor → Prop}
    (hcount : ∀ left cpu, inv left cpu → (cpu.registers .ecx).toNat = left)
    (hturn : ∀ left cpu, inv (left + 1) cpu → inv left
      ((cpu.perform operation).set .ecx ((cpu.perform operation).registers .ecx - 1)))
    (hend : ∀ cpu, inv 0 cpu → Finishes program rest cpu post)
    {left : Nat} (hinv : inv left cpu) :
    Finishes program (.rep operation :: rest) cpu post := by
  induction left generalizing cpu with
  | zero =>
      have hzero : cpu.registers .ecx = 0 := UInt32.toNat_inj.mp (hcount 0 cpu hinv)
      refine finishes_cons ?_
      rw [proceed, if_pos hzero]
      exact hend cpu hinv
  | succ left ih =>
      have hpos := ne_zero_of_toNat (hcount (left + 1) cpu hinv)
      refine finishes_cons ?_
      rw [proceed, if_neg hpos]
      exact ih (hturn left cpu hinv)

end Rules

end LinuxOS.Foundation
