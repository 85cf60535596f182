import LinuxOS.Foundation.Assembly
import LinuxOS.Kernel.Copies

/-!
# The word loops of `memcpy` and `memset`

The assembly bodies of the two functions of `lib.c`: single bytes up to a
doubleword boundary of the destination, then doublewords, then the bytes that
are left.  Memory behind them is memory behind the plain copy of bytes.
-/

namespace LinuxOS

open Foundation

/-! ## The code -/

inductive CopyLabel where
  | top | aligned | bottom | done

/-- From `.memcpy_bottom` on; `moveByte` moves one byte and the pointers past it. -/
def copyBottom (moveByte : List Operation) : List (Instruction CopyLabel) :=
  [.op (.testl (.reg .edx) .edx), .jz .done] ++
    (moveByte.map .op ++ [.op (.subl (.imm 1) .edx), .jmp .bottom])

/-- `ecx` counts doublewords, `edx` the bytes behind them, and `es` is `ds`. -/
def splitCount : List Operation :=
  [.movwFrom .ds .edx, .movwTo .edx .es, .movl (.reg .ecx) .edx, .shrl 2 .ecx,
    .andl (.imm 3) .edx, .cld]

/-- From `.memcpy_aligned` on; `moveWord` is the string instruction. -/
def copyAligned (moveByte : List Operation) (moveWord : Operation) :
    List (Instruction CopyLabel) :=
  splitCount.map .op ++ (.rep moveWord :: copyBottom moveByte)

def copyTop (moveByte : List Operation) (moveWord : Operation) : List (Instruction CopyLabel) :=
  [.op (.testl (.reg .ecx) .ecx), .jz .done, .op (.testl (.imm 3) .edi), .jz .aligned] ++
    (moveByte.map .op ++ ([.op (.subl (.imm 1) .ecx), .jmp .top] ++ copyAligned moveByte moveWord))

def copyLoop (moveByte : List Operation) (moveWord : Operation) :
    CopyLabel → List (Instruction CopyLabel)
  | .top => copyTop moveByte moveWord
  | .aligned => copyAligned moveByte moveWord
  | .bottom => copyBottom moveByte
  | .done => []

def memcpyLoop : CopyLabel → List (Instruction CopyLabel) :=
  copyLoop [.movbLoad .esi, .movbStore .edi, .addl (.imm 1) .edi, .addl (.imm 1) .esi] .movsl

def memsetLoop : CopyLabel → List (Instruction CopyLabel) :=
  copyLoop [.movbStore .edi, .addl (.imm 1) .edi] .stosl

def memcpyAsm (fuel : Nat) (dest src n : UInt32) (cpu : Processor) : Option Processor :=
  execute memcpyLoop fuel (memcpyLoop .top)
    (((cpu.set .esi src).set .edi dest).set .ecx n)

/-- The word that `memset` puts in `eax`: `c & 0xFF` four times. -/
def fillWord (c : Int32) : UInt32 :=
  let c := c &&& 0xFF
  (c <<< 24 ||| c <<< 16 ||| c <<< 8 ||| c).toUInt32

def memsetAsm (fuel : Nat) (s : UInt32) (c : Int32) (n : UInt32) (cpu : Processor) :
    Option Processor :=
  execute memsetLoop fuel (memsetLoop .top)
    (((cpu.set .eax (fillWord c)).set .edi s).set .ecx n)

/-! ## Progress of a loop -/

def copiedBytes (source : Nat → UInt8) (dest : UInt32) (count : Nat) (memory : UInt32 → UInt8) :
    UInt32 → UInt8 :=
  Stores.apply ((List.range count).map fun index => (dest + UInt32.ofNat index, source index))
    memory

theorem copiedBytes_succ (source : Nat → UInt8) (dest : UInt32) (count : Nat)
    (memory : UInt32 → UInt8) :
    copiedBytes source dest (count + 1) memory =
      Function.update (copiedBytes source dest count memory) (dest + UInt32.ofNat count)
        (source count) := by
  rw [copiedBytes, List.range_succ, List.map_append, Stores.apply, List.foldl_append]
  rfl

theorem copiedBytes_of_forall_ne {source : Nat → UInt8} {dest addr : UInt32} {count : Nat}
    (memory : UInt32 → UInt8) (hne : ∀ index < count, addr ≠ dest + UInt32.ofNat index) :
    copiedBytes source dest count memory addr = memory addr := by
  induction count with
  | zero => rfl
  | succ count ih =>
      rw [copiedBytes_succ, Function.update_of_ne (hne count (Nat.lt_succ_self count))]
      exact ih fun index hindex => hne index (Nat.lt_succ_of_lt hindex)

theorem add_ofNat_add (addr : UInt32) (count offset : Nat) :
    addr + UInt32.ofNat (count + offset) = addr + UInt32.ofNat count + UInt32.ofNat offset := by
  rw [UInt32.ofNat_add, UInt32.add_assoc]

theorem storeWord_copiedBytes (source : Nat → UInt8) (dest : UInt32) (count : Nat)
    (memory : UInt32 → UInt8) :
    storeWord (copiedBytes source dest count memory) (dest + UInt32.ofNat count)
        (wordOf (source count) (source (count + 1)) (source (count + 2)) (source (count + 3))) =
      copiedBytes source dest (count + 4) memory := by
  rw [storeWord_wordOf, copiedBytes_succ, copiedBytes_succ, copiedBytes_succ, copiedBytes_succ,
    add_ofNat_add dest count 1, add_ofNat_add dest count 2, add_ofNat_add dest count 3]
  rfl

/--
`count` bytes are copied: where `edi` stands and what memory holds. `holds` says
what the loop relies on in `esi` and `eax`.
-/
structure Transferred (holds : Nat → UInt32 → UInt32 → Prop) (source : Nat → UInt8)
    (dest : UInt32) (memory : UInt32 → UInt8) (count : Nat) (cpu : Processor) : Prop where
  edi : cpu.registers .edi = dest + UInt32.ofNat count
  memory : cpu.memory = copiedBytes source dest count memory
  holds : holds count (cpu.registers .esi) (cpu.registers .eax)

structure SameCounters (cpu next : Processor) : Prop where
  ecx : next.registers .ecx = cpu.registers .ecx
  edx : next.registers .edx = cpu.registers .edx
  direction : next.direction = cpu.direction

/-- The two ways the loop moves bytes are steps of a copy of `n` bytes. -/
structure CopySteps (moveByte : List Operation) (moveWord : Operation)
    (holds : Nat → UInt32 → UInt32 → Prop) (source : Nat → UInt8) (dest : UInt32) (n : Nat)
    (memory : UInt32 → UInt8) : Prop where
  byte : ∀ count cpu, count < n → Transferred holds source dest memory count cpu →
    Transferred holds source dest memory (count + 1) (cpu.performAll moveByte)
  byteCounters : ∀ cpu, SameCounters cpu (cpu.performAll moveByte)
  word : ∀ count cpu, count + 4 ≤ n → cpu.direction = false →
    Transferred holds source dest memory count cpu →
    Transferred holds source dest memory (count + 4) (cpu.perform moveWord)
  wordCounters : ∀ cpu, SameCounters cpu (cpu.perform moveWord)

section Loop

variable {holds : Nat → UInt32 → UInt32 → Prop} {source : Nat → UInt8} {dest : UInt32}
  {memory : UInt32 → UInt8} {count n : Nat} {cpu : Processor} {moveByte : List Operation}
  {moveWord : Operation}

theorem Transferred.congr {next : Processor} (h : Transferred holds source dest memory count cpu)
    (hedi : next.registers .edi = cpu.registers .edi)
    (hesi : next.registers .esi = cpu.registers .esi)
    (heax : next.registers .eax = cpu.registers .eax) (hmemory : next.memory = cpu.memory) :
    Transferred holds source dest memory count next where
  edi := hedi.trans h.edi
  memory := hmemory.trans h.memory
  holds := by
    rw [hesi, heax]
    exact h.holds

theorem toNat_sub_one {value : UInt32} {left : Nat} (h : value.toNat = left + 1) :
    (value - 1).toNat = left := by
  have hone : 1 ≤ value := UInt32.le_iff_toNat_le.mpr (h ▸ Nat.le_add_left 1 left)
  rw [UInt32.toNat_sub_of_le _ _ hone, h]
  rfl

/-- `left` bytes are to be moved one by one, and `counter` says so. -/
def BytesLeft (holds : Nat → UInt32 → UInt32 → Prop) (source : Nat → UInt8) (dest : UInt32)
    (memory : UInt32 → UInt8) (n : Nat) (counter : Register) (left : Nat) (cpu : Processor) :
    Prop :=
  ∃ count, count + left = n ∧ (cpu.registers counter).toNat = left ∧
    Transferred holds source dest memory count cpu

theorem BytesLeft.move (hsteps : CopySteps moveByte moveWord holds source dest n memory)
    {counter : Register} (hcounter : counter = .ecx ∨ counter = .edx) {left : Nat}
    (h : BytesLeft holds source dest memory n counter (left + 1) cpu) :
    BytesLeft holds source dest memory n counter left
      (({ cpu with zero := false }.performAll moveByte).perform (.subl (.imm 1) counter)) := by
  obtain ⟨count, hsum, hleft, htransferred⟩ := h
  have hmoved := hsteps.byte count { cpu with zero := false } (by omega)
    (htransferred.congr rfl rfl rfl rfl)
  have hkept := hsteps.byteCounters { cpu with zero := false }
  rcases hcounter with rfl | rfl
  · refine ⟨count + 1, by omega, toNat_sub_one ?_, hmoved.congr rfl rfl rfl rfl⟩
    rw [hkept.ecx]
    exact hleft
  · refine ⟨count + 1, by omega, toNat_sub_one ?_, hmoved.congr rfl rfl rfl rfl⟩
    rw [hkept.edx]
    exact hleft

theorem BytesLeft.memory_eq {counter : Register}
    (h : BytesLeft holds source dest memory n counter 0 cpu) :
    cpu.memory = copiedBytes source dest n memory := by
  obtain ⟨count, hsum, -, htransferred⟩ := h
  rw [← hsum]
  exact htransferred.memory

theorem finishes_bottom (hsteps : CopySteps moveByte moveWord holds source dest n memory)
    {left : Nat} (h : BytesLeft holds source dest memory n .edx left cpu) :
    Finishes (copyLoop moveByte moveWord) (copyBottom moveByte) cpu
      fun final => final.memory = copiedBytes source dest n memory := by
  refine finishes_countdown (fun left cpu hleft => ?_) (fun cpu hend => finishes_nil hend.memory_eq)
    (fun left cpu hleft hagain => ?_) h
  · obtain ⟨count, -, hedx, -⟩ := hleft
    exact hedx
  · exact finishes_ops (finishes_cons (finishes_jmp (hagain _ (hleft.move hsteps (.inr rfl)))))

theorem splitCount_ecx (cpu : Processor) :
    ((cpu.performAll splitCount).registers .ecx).toNat = (cpu.registers .ecx).toNat / 4 := by
  have hshifted : (cpu.performAll splitCount).registers .ecx = cpu.registers .ecx >>> 2 := rfl
  rw [hshifted, UInt32.toNat_shiftRight, Nat.shiftRight_eq_div_pow]
  rfl

theorem splitCount_edx (cpu : Processor) :
    ((cpu.performAll splitCount).registers .edx).toNat = (cpu.registers .ecx).toNat % 4 := by
  have hmasked : (cpu.performAll splitCount).registers .edx = cpu.registers .ecx &&& 3 := rfl
  rw [hmasked, UInt32.toNat_and]
  exact Nat.and_two_pow_sub_one_eq_mod _ 2

/-- At the `rep`: `words` doublewords are to be moved, and the bytes that `edx` counts. -/
def WordsLeft (holds : Nat → UInt32 → UInt32 → Prop) (source : Nat → UInt8) (dest : UInt32)
    (memory : UInt32 → UInt8) (n words : Nat) (cpu : Processor) : Prop :=
  ∃ count, count + 4 * words + (cpu.registers .edx).toNat = n ∧
    (cpu.registers .ecx).toNat = words ∧ cpu.direction = false ∧
    Transferred holds source dest memory count cpu

theorem WordsLeft.move (hsteps : CopySteps moveByte moveWord holds source dest n memory)
    {words : Nat} (h : WordsLeft holds source dest memory n (words + 1) cpu) :
    WordsLeft holds source dest memory n words
      ((cpu.perform moveWord).set .ecx ((cpu.perform moveWord).registers .ecx - 1)) := by
  obtain ⟨count, hsum, hecx, hdirection, hmoved⟩ := h
  have hkept := hsteps.wordCounters cpu
  have hnext := hsteps.word count cpu (by omega) hdirection hmoved
  refine ⟨count + 4, ?_, toNat_sub_one ?_, hkept.direction.trans hdirection,
    hnext.congr rfl rfl rfl rfl⟩
  · have hedx : ((cpu.perform moveWord).registers .edx).toNat = (cpu.registers .edx).toNat :=
      congrArg _ hkept.edx
    change count + 4 + 4 * words + ((cpu.perform moveWord).registers .edx).toNat = n
    omega
  · rw [hkept.ecx]
    exact hecx

theorem finishes_aligned (hsteps : CopySteps moveByte moveWord holds source dest n memory)
    {left : Nat} (h : BytesLeft holds source dest memory n .ecx left cpu) :
    Finishes (copyLoop moveByte moveWord) (copyAligned moveByte moveWord) cpu
      fun final => final.memory = copiedBytes source dest n memory := by
  obtain ⟨count, hsum, hecx, htransferred⟩ := h
  have hsplit : WordsLeft holds source dest memory n ((cpu.registers .ecx).toNat / 4)
      (cpu.performAll splitCount) := by
    refine ⟨count, ?_, splitCount_ecx cpu, rfl, htransferred.congr rfl rfl rfl rfl⟩
    rw [splitCount_edx]
    omega
  refine finishes_ops (finishes_rep ?_ (fun _ _ hleft => hleft.move hsteps) ?_ hsplit)
  · rintro words cpu ⟨count, -, hecx, -, -⟩
    exact hecx
  · rintro cpu ⟨count, hsum, -, -, htransferred⟩
    exact finishes_bottom hsteps ⟨count, by omega, rfl, htransferred⟩

theorem finishes_top (hsteps : CopySteps moveByte moveWord holds source dest n memory)
    {left : Nat} (h : BytesLeft holds source dest memory n .ecx left cpu) :
    Finishes (copyLoop moveByte moveWord) (copyTop moveByte moveWord) cpu
      fun final => final.memory = copiedBytes source dest n memory := by
  refine finishes_countdown (fun left cpu hleft => ?_) (fun cpu hend => finishes_nil hend.memory_eq)
    (fun left cpu hleft hagain => ?_) h
  · obtain ⟨count, -, hecx, -⟩ := hleft
    exact hecx
  · -- the boundary only decides when the doublewords take over
    refine finishes_testl_jz (fun _ => ?_) (fun _ => ?_)
    · obtain ⟨count, hsum, hecx, htransferred⟩ := hleft
      exact finishes_aligned hsteps ⟨count, hsum, hecx, htransferred.congr rfl rfl rfl rfl⟩
    · exact finishes_ops (finishes_cons (finishes_jmp (hagain _ (hleft.move hsteps (.inl rfl)))))

end Loop

/-! ## The two functions -/

theorem toUInt8_low_byte (word : UInt32) (byte : UInt8) :
    (word &&& 0xFFFFFF00 ||| byte.toUInt32).toUInt8 = byte := by
  have hlow : UInt32.toUInt8 0xFFFFFF00 = 0 := rfl
  rw [UInt32.toUInt8_or, UInt32.toUInt8_and, hlow, UInt8.and_zero, UInt8.zero_or,
    UInt8.toUInt8_toUInt32]

def NonOverlapping (dest src n : UInt32) : Prop :=
  ∀ i < n, ∀ j < n, src + i ≠ dest + j

theorem copiedBytes_source {dest src n : UInt32} (hdisjoint : NonOverlapping dest src n)
    (source : Nat → UInt8) (memory : UInt32 → UInt8) {count index : Nat}
    (hcount : count ≤ n.toNat) (hindex : index < n.toNat) :
    copiedBytes source dest count memory (src + UInt32.ofNat index) =
      memory (src + UInt32.ofNat index) := by
  have hbelow : ∀ index < n.toNat, UInt32.ofNat index < n := by
    intro index hlt
    have hrange := n.toNat_lt
    rw [UInt32.lt_iff_toNat_lt, UInt32.toNat_ofNat_of_lt' (by rw [UInt32.size]; omega)]
    exact hlt
  refine copiedBytes_of_forall_ne memory fun written hwritten => ?_
  exact hdisjoint _ (hbelow index hindex) _ (hbelow written (by omega))

theorem memcpy_copySteps {dest src n : UInt32} (hdisjoint : NonOverlapping dest src n)
    (memory : UInt32 → UInt8) :
    CopySteps [.movbLoad .esi, .movbStore .edi, .addl (.imm 1) .edi, .addl (.imm 1) .esi] .movsl
      (fun count esi _ => esi = src + UInt32.ofNat count)
      (fun index => memory (src + UInt32.ofNat index)) dest n.toNat memory where
  byte := by
    intro count cpu hlt h
    have hread : cpu.memory (cpu.registers .esi) = memory (src + UInt32.ofNat count) := by
      rw [h.memory, h.holds, copiedBytes_source hdisjoint _ _ hlt.le hlt]
    refine ⟨?_, ?_, ?_⟩
    · change cpu.registers .edi + 1 = _
      rw [h.edi, add_ofNat_add]
      rfl
    · change Function.update cpu.memory (cpu.registers .edi)
        (cpu.registers .eax &&& 0xFFFFFF00 |||
          (cpu.memory (cpu.registers .esi)).toUInt32).toUInt8 = _
      rw [toUInt8_low_byte, hread, h.edi, h.memory, copiedBytes_succ]
    · change cpu.registers .esi + 1 = _
      rw [h.holds, add_ofNat_add]
      rfl
  byteCounters := fun cpu => ⟨rfl, rfl, rfl⟩
  word := by
    intro count cpu hle hdirection h
    -- the four bytes are read before they are stored, and no earlier step has written them
    have hread : ∀ offset < 4, cpu.memory (cpu.registers .esi + UInt32.ofNat offset) =
        memory (src + UInt32.ofNat (count + offset)) := by
      intro offset hoffset
      rw [h.holds, ← add_ofNat_add, h.memory,
        copiedBytes_source hdisjoint _ _ (by omega) (by omega)]
    have hword : loadWord cpu.memory (cpu.registers .esi) =
        wordOf (memory (src + UInt32.ofNat count)) (memory (src + UInt32.ofNat (count + 1)))
          (memory (src + UInt32.ofNat (count + 2))) (memory (src + UInt32.ofNat (count + 3))) := by
      have hfirst := hread 0 (by omega)
      rw [show UInt32.ofNat 0 = 0 from rfl, UInt32.add_zero, Nat.add_zero] at hfirst
      rw [← hread 1 (by omega), ← hread 2 (by omega), ← hread 3 (by omega), ← hfirst]
      rfl
    refine ⟨?_, ?_, ?_⟩
    · rw [add_ofNat_add, ← h.edi]
      exact Processor.registers_advanceWord hdirection .edi
    · change storeWord cpu.memory (cpu.registers .edi)
        (loadWord cpu.memory (cpu.registers .esi)) = _
      rw [hword, h.edi, h.memory, ← storeWord_copiedBytes]
    · rw [add_ofNat_add, ← h.holds]
      exact Processor.registers_advanceWord hdirection .esi
  wordCounters := fun cpu => ⟨rfl, rfl, rfl⟩

theorem toUInt32_low_byte (c : Int32) :
    (c &&& 0xFF).toUInt32 = (UInt8.ofInt (c.toInt % 256)).toUInt32 := by
  have hbyte : (UInt8.ofInt (c.toInt % 256)).toNat = c.toUInt32.toNat % 256 := by
    rw [UInt8.ofInt, UInt8.toNat_ofNat', toInt_eq_cond]
    split <;> omega
  rw [Int32.toUInt32_and, ← UInt32.toNat_inj, UInt32.toNat_and, UInt8.toNat_toUInt32, hbyte]
  exact Nat.and_two_pow_sub_one_eq_mod _ 8

theorem fillWord_eq (c : Int32) :
    fillWord c = wordOf (UInt8.ofInt (c.toInt % 256)) (UInt8.ofInt (c.toInt % 256))
      (UInt8.ofInt (c.toInt % 256)) (UInt8.ofInt (c.toInt % 256)) := by
  have hshifted : ∀ low : Int32, (low <<< 24 ||| low <<< 16 ||| low <<< 8 ||| low).toUInt32 =
      low.toUInt32 <<< 24 ||| low.toUInt32 <<< 16 ||| low.toUInt32 <<< 8 ||| low.toUInt32 :=
    fun _ => rfl
  have hreversed : ∀ b0 b1 b2 b3 : UInt32, b3 ||| b2 ||| b1 ||| b0 = b0 ||| b1 ||| b2 ||| b3 := by
    intro b0 b1 b2 b3
    rw [UInt32.or_comm _ b0, UInt32.or_comm _ b1, UInt32.or_comm b3, UInt32.or_assoc,
      UInt32.or_assoc]
  rw [fillWord, hshifted, toUInt32_low_byte, wordOf, hreversed]

theorem memset_copySteps (s : UInt32) (c : Int32) (n : Nat) (memory : UInt32 → UInt8) :
    CopySteps [.movbStore .edi, .addl (.imm 1) .edi] .stosl (fun _ _ eax => eax = fillWord c)
      (fun _ => UInt8.ofInt (c.toInt % 256)) s n memory where
  byte := by
    intro count cpu _ h
    refine ⟨?_, ?_, h.holds⟩
    · change cpu.registers .edi + 1 = _
      rw [h.edi, add_ofNat_add]
      rfl
    · change Function.update cpu.memory (cpu.registers .edi) (cpu.registers .eax).toUInt8 = _
      rw [h.holds, fillWord_eq, (bytes_wordOf _ _ _ _).1, h.edi, h.memory, copiedBytes_succ]
  byteCounters := fun cpu => ⟨rfl, rfl, rfl⟩
  word := by
    intro count cpu _ hdirection h
    refine ⟨?_, ?_, h.holds⟩
    · rw [add_ofNat_add, ← h.edi]
      exact Processor.registers_advanceWord hdirection .edi
    · change storeWord cpu.memory (cpu.registers .edi) (cpu.registers .eax) = _
      rw [h.holds, fillWord_eq, h.edi, h.memory, ← storeWord_copiedBytes]
  wordCounters := fun cpu => ⟨rfl, rfl, rfl⟩

theorem memcpyAsm_finishes {dest src n : UInt32} (hdisjoint : NonOverlapping dest src n)
    (cpu : Processor) :
    ∃ fuel final, memcpyAsm fuel dest src n cpu = some final ∧
      final.memory =
        Stores.apply (memcpy (fun index => cpu.memory (src + UInt32.ofNat index)) dest n)
          cpu.memory :=
  finishes_top (memcpy_copySteps hdisjoint cpu.memory) ⟨0, Nat.zero_add n.toNat, rfl,
    (UInt32.add_zero dest).symm, rfl, (UInt32.add_zero src).symm⟩

theorem memsetAsm_finishes (s : UInt32) (c : Int32) (n : UInt32) (cpu : Processor) :
    ∃ fuel final, memsetAsm fuel s c n cpu = some final ∧
      final.memory = Stores.apply (memset s (UInt8.ofInt (c.toInt % 256)) n) cpu.memory :=
  finishes_top (memset_copySteps s c n.toNat cpu.memory) ⟨0, Nat.zero_add n.toNat, rfl,
    (UInt32.add_zero s).symm, rfl, rfl⟩

/--
For every alignment and every length the loops end, and memory behind them is
memory behind the byte copies: `n` bytes are written and no other changes.
-/
theorem word_loops_eq_byte_copies :
    (∀ (dest src n : UInt32) (cpu : Processor), NonOverlapping dest src n →
      ∃ fuel final, memcpyAsm fuel dest src n cpu = some final ∧
        final.memory =
          Stores.apply (memcpy (fun index => cpu.memory (src + UInt32.ofNat index)) dest n)
            cpu.memory ∧
        ∀ addr, final.memory addr =
          if addr - dest < n then cpu.memory (src + (addr - dest)) else cpu.memory addr) ∧
    (∀ (s : UInt32) (c : Int32) (n : UInt32) (cpu : Processor),
      ∃ fuel final, memsetAsm fuel s c n cpu = some final ∧
        final.memory = Stores.apply (memset s (UInt8.ofInt (c.toInt % 256)) n) cpu.memory ∧
        ∀ addr, final.memory addr =
          if addr - s < n then UInt8.ofInt (c.toInt % 256) else cpu.memory addr) := by
  constructor
  · intro dest src n cpu hdisjoint
    obtain ⟨fuel, final, hexecuted, hmemory⟩ := memcpyAsm_finishes hdisjoint cpu
    refine ⟨fuel, final, hexecuted, hmemory, fun addr => ?_⟩
    rw [hmemory, apply_memcpy, UInt32.ofNat_toNat]
  · intro s c n cpu
    obtain ⟨fuel, final, hexecuted, hmemory⟩ := memsetAsm_finishes s c n cpu
    refine ⟨fuel, final, hexecuted, hmemory, fun addr => ?_⟩
    rw [hmemory, apply_memset]

/-- Three bytes up to the boundary, two doublewords, and a byte behind them. -/
theorem word_loops_of_twelve :
    ∃ fuel final,
      memcpyAsm fuel 0x2001 0x1010 12
        ⟨fun _ => 0, fun _ => 0x18, false, true, fun addr => addr.toUInt8⟩ = some final ∧
      final.memory 0x2001 = 0x10 ∧ final.memory 0x200C = 0x1B ∧ final.memory 0x200D = 0x0D := by
  have hdisjoint : NonOverlapping 0x2001 0x1010 12 := by
    intro i hi j hj heq
    grind
  obtain ⟨fuel, final, hexecuted, -, hmemory⟩ := word_loops_eq_byte_copies.1 0x2001 0x1010 12
    ⟨fun _ => 0, fun _ => 0x18, false, true, fun addr => addr.toUInt8⟩ hdisjoint
  exact ⟨fuel, final, hexecuted, hmemory 0x2001, hmemory 0x200C, hmemory 0x200D⟩

end LinuxOS
