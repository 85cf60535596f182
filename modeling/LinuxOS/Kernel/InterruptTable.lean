import LinuxOS.Kernel.Exceptions

/-!
# The interrupt table: `interrupt_table.c` and `x86_desc.h`

An entry is eight bytes of packed fields.  `init_idt` fills all 256 in the same
way, but for the type and the privilege, and then sets the handlers it has.
-/

namespace LinuxOS

structure IdtDesc where
  offset1500 : BitVec 16
  segSelector : BitVec 16
  reserved4 : BitVec 8
  reserved3 : BitVec 1
  reserved2 : BitVec 1
  reserved1 : BitVec 1
  size : BitVec 1
  reserved0 : BitVec 1
  dpl : BitVec 2
  present : BitVec 1
  offset3116 : BitVec 16
  deriving DecidableEq, Repr

def IdtDesc.packed (desc : IdtDesc) : BitVec 64 :=
  (desc.offset3116 ++ desc.present ++ desc.dpl ++ desc.reserved0 ++ desc.size ++ desc.reserved1 ++
    desc.reserved2 ++ desc.reserved3 ++ desc.reserved4 ++ desc.segSelector ++
      desc.offset1500).cast (by decide)

inductive HandlerName where
  /-- the handler that `exceptionEntries` has for the vector -/
  | exception (vector : UInt8)
  | pitHandlerAsm
  | keyboardHandlerAsm
  | rtcHandlerAsm
  | syscallHandlerAsm
  deriving DecidableEq, Repr

def vectorPit : UInt8 := 0x20
def vectorKeyboard : UInt8 := 0x21
def vectorRtc : UInt8 := 0x28
def vectorSyscall : UInt8 := 0x80

def idtHandlers : List (UInt8 × HandlerName) :=
  exceptionEntries.map (fun entry => (entry.1, .exception entry.1)) ++
    [(vectorPit, .pitHandlerAsm), (vectorKeyboard, .keyboardHandlerAsm),
      (vectorRtc, .rtcHandlerAsm), (vectorSyscall, .syscallHandlerAsm)]

def kernelCs : BitVec 16 := 0x0010

def initDesc (i : UInt8) (desc : IdtDesc) : IdtDesc where
  offset1500 := desc.offset1500
  segSelector := kernelCs
  reserved4 := 0
  reserved3 := if i > 31 then 0 else 1
  reserved2 := 1
  reserved1 := 1
  size := 1
  reserved0 := 0
  dpl := if i = vectorSyscall then 3 else 0
  present := 1
  offset3116 := desc.offset3116

def setIdtEntry (handler : BitVec 32) (desc : IdtDesc) : IdtDesc :=
  { desc with
    offset3116 := ((handler &&& 0xFFFF0000) >>> 16).setWidth 16
    offset1500 := (handler &&& 0xFFFF).setWidth 16 }

def initIdt (address : HandlerName → BitVec 32) (idt : UInt8 → IdtDesc) : UInt8 → IdtDesc :=
  idtHandlers.foldl
    (fun idt entry => Function.update idt entry.1 (setIdtEntry (address entry.2) (idt entry.1)))
    fun i => initDesc i (idt i)

def emptyIdt : UInt8 → IdtDesc := fun _ => ⟨0, 0, 0, 0, 0, 0, 0, 0, 0, 0, 0⟩

/-! ## What the processor makes of an entry -/

inductive GateKind where
  /-- interrupts are off in the handler -/
  | interruptGate
  | trapGate
  | otherGate
  deriving DecidableEq, Repr

structure Gate where
  kind : GateKind
  selector : BitVec 16
  offset : BitVec 32
  privilege : BitVec 2
  present : BitVec 1
  deriving DecidableEq, Repr

/-- Bits 41 to 44 are those of a gate, and bit 40 is its kind. -/
def gateOf (entry : BitVec 64) : Gate where
  kind :=
    if entry.extractLsb' 41 1 = 1 ∧ entry.extractLsb' 42 1 = 1 ∧ entry.extractLsb' 43 1 = 1 ∧
        entry.extractLsb' 44 1 = 0 then
      if entry.extractLsb' 40 1 = 0 then .interruptGate else .trapGate
    else .otherGate
  selector := entry.extractLsb' 16 16
  offset := entry.extractLsb' 48 16 ++ entry.extractLsb' 0 16
  privilege := entry.extractLsb' 45 2
  present := entry.extractLsb' 47 1

/-- The vector whose gate `int` takes: without the privilege it is a protection fault. -/
def intVector (idt : UInt8 → IdtDesc) (privilege : BitVec 2) (vector : UInt8) : UInt8 :=
  if (gateOf (idt vector).packed).privilege < privilege then 0x0D else vector

/-! ## The table that `init_idt` leaves -/

theorem gateOf_packed (desc : IdtDesc) :
    gateOf desc.packed =
      { kind :=
          if desc.reserved2 = 1 ∧ desc.reserved1 = 1 ∧ desc.size = 1 ∧ desc.reserved0 = 0 then
            if desc.reserved3 = 0 then .interruptGate else .trapGate
          else .otherGate
        selector := desc.segSelector
        offset := desc.offset3116 ++ desc.offset1500
        privilege := desc.dpl
        present := desc.present } := by
  simp (disch := decide) only [gateOf, IdtDesc.packed, BitVec.extractLsb'_cast,
    BitVec.extractLsb'_append_eq_of_le, BitVec.extractLsb'_append_eq_of_add_le, Nat.reduceSub,
    BitVec.extractLsb'_eq_self]

theorem offset_setIdtEntry (handler : BitVec 32) (desc : IdtDesc) :
    (setIdtEntry handler desc).offset3116 ++ (setIdtEntry handler desc).offset1500 = handler := by
  have hhigh : ((handler &&& 0xFFFF0000) >>> 16).setWidth 16 = handler.extractLsb' 16 16 := by
    ext i hi
    have hmask : ∀ i < 16, (0xFFFF0000#32).getLsbD (16 + i) = true := by decide
    simpa using fun _ => hmask i hi
  have hlow : (handler &&& 0xFFFF).setWidth 16 = handler.extractLsb' 0 16 := by
    ext i hi
    have hmask : ∀ i, (hi : i < 16) → (0xFFFF#16)[i] = true := by decide
    simpa using fun _ => hmask i hi
  rw [setIdtEntry]
  simp only [hhigh, hlow]
  exact BitVec.extractLsb'_append_extractLsb'

theorem foldl_update_apply {α β γ : Type*} [DecidableEq α] (set : γ → β → β)
    {entries : List (α × γ)} (hkeys : (entries.map Prod.fst).Nodup) (table : α → β) (key : α) :
    entries.foldl (fun table entry =>
      Function.update table entry.1 (set entry.2 (table entry.1))) table key =
        (entries.lookup key).elim (table key) fun value => set value (table key) := by
  induction entries generalizing table with
  | nil => rfl
  | cons entry entries ih =>
      obtain ⟨first, value⟩ := entry
      obtain ⟨hfirst, hrest⟩ := List.nodup_cons.mp hkeys
      rw [List.foldl_cons, ih hrest, List.lookup_cons]
      by_cases hkey : key = first
      · subst hkey
        have hnone : entries.lookup key = none := by
          rw [List.lookup_eq_none_iff]
          intro other hother
          have hmem : other.1 ∈ entries.map Prod.fst := List.mem_map_of_mem hother
          have hne : key ≠ other.1 := fun heq => hfirst (heq ▸ hmem)
          simpa using hne
        simp [hnone]
      · have hne : (key == first) = false := by simpa using hkey
        simp [hne, hkey]

theorem initIdt_apply (address : HandlerName → BitVec 32) (idt : UInt8 → IdtDesc) (vector : UInt8) :
    initIdt address idt vector =
      (idtHandlers.lookup vector).elim (initDesc vector (idt vector)) fun name =>
        setIdtEntry (address name) (initDesc vector (idt vector)) := by
  have hkeys : (idtHandlers.map Prod.fst).Nodup := by decide
  rw [initIdt, foldl_update_apply (fun name desc => setIdtEntry (address name) desc) hkeys]

/-- Where the gate of a vector leads; 0 where no handler is set. -/
def targetOf (address : HandlerName → BitVec 32) (vector : UInt8) : BitVec 32 :=
  (idtHandlers.lookup vector).elim 0 address

theorem gateOf_initIdt (address : HandlerName → BitVec 32) (vector : UInt8) :
    gateOf (initIdt address emptyIdt vector).packed =
      { kind := if vector > 31 then .interruptGate else .trapGate
        selector := kernelCs
        offset := targetOf address vector
        privilege := if vector = vectorSyscall then 3 else 0
        present := 1 } := by
  rw [gateOf_packed, initIdt_apply]
  cases hname : idtHandlers.lookup vector with
  | none =>
      simp only [targetOf, hname, Option.elim]
      by_cases hhigh : vector > 31 <;> simp [initDesc, emptyIdt, hhigh]
  | some name =>
      simp only [targetOf, hname, Option.elim, offset_setIdtEntry]
      by_cases hhigh : vector > 31 <;> simp [setIdtEntry, initDesc, hhigh]

/--
In every vector the gate is the kernel's own, present, a trap gate for
exceptions and an interrupt gate from 32 on, and leads to the handler that was
set for it.  User code gets through the gate of system calls; `int` with any
other number ends in the handler of general protection faults.
-/
theorem gates_of_initIdt (address : HandlerName → BitVec 32) (vector : UInt8) :
    gateOf (initIdt address emptyIdt vector).packed =
        { kind := if vector > 31 then .interruptGate else .trapGate
          selector := kernelCs
          offset := targetOf address vector
          privilege := if vector = vectorSyscall then 3 else 0
          present := 1 } ∧
      targetOf address (intVector (initIdt address emptyIdt) 3 vector) =
        if vector = vectorSyscall then address .syscallHandlerAsm else address (.exception 0x0D) := by
  refine ⟨gateOf_initIdt address vector, ?_⟩
  rw [intVector, gateOf_initIdt]
  by_cases hcall : vector = vectorSyscall
  · subst hcall
    simp
    rfl
  · simp [hcall]
    rfl

end LinuxOS
