import LinuxOS.Files.Lookup
import LinuxOS.Foundation.Scan
import LinuxOS.Process.Programs

/-!
# The argument of a program, in two runs

`execute` copies its local array `argument` whole into the control block,
although the command fills only its beginning, and `getargs` copies as many
bytes as it is asked for.  The file compares two runs that differ in what was
on the stack under the local arrays.
-/

namespace LinuxOS

open Foundation

/-- Two calls of `execute` that find different bytes in `task_name` and `argument` at most. -/
structure SameButStale (first second : ExecuteFrame) : Prop where
  fileCheck : second.fileCheck = first.fileCheck
  buf : second.buf = first.buf
  esp : second.esp = first.esp
  ebp : second.ebp = first.ebp

/-- The kernel's own page: its code and variables, the control blocks and the stacks. -/
def InKernelPage (addr : UInt32) : Prop := fourM ≤ addr ∧ addr < eightM

instance : DecidablePred InKernelPage := fun addr =>
  inferInstanceAs (Decidable (fourM ≤ addr ∧ addr < eightM))

def ApartFromKernel (buf : UInt32) (nbytes : Int32) : Prop :=
  ∀ index : Nat, (index : Int) < nbytes.toInt → ¬ InKernelPage (buf + UInt32.ofNat index)

def BufferMapped (kernel : Kernel) (buf : UInt32) (nbytes : Int32) : Prop :=
  ∀ index : Nat, (index : Int) < nbytes.toInt →
    (kernel.tables.physical (buf + UInt32.ofNat index)).isSome = true

/--
A store that a call survives.  Where no page is mapped it faults, and in the
kernel's own page it may hit what the call itself works on: what comes of that
is up to the linker.
-/
def Kernel.storable (kernel : Kernel) (store : UInt32 × UInt8) : Bool :=
  (kernel.tables.physical store.1).isSome && !decide (InKernelPage store.1)

/--
What a program sees of its `getargs`: the result, if the call comes back, and
the bytes at its addresses as the stores leave them.
-/
def argsSeen (buf : UInt32) (nbytes : Int32) (kernel : Kernel) :
    Option (Option Int32 × (UInt32 → UInt8)) :=
  (syscallGetargs buf nbytes kernel).map fun (_, result, stores) =>
    (if stores.all kernel.storable then some result else none,
      Stores.apply (stores.takeWhile kernel.storable) kernel.loadUser)

/--
The call copies nothing, or faults before it does, or copies only bytes that
the command has set, or bytes that happen to agree.
-/
def CopiesNoStale (first second : ExecuteFrame) (command : CString) (kernel : Kernel)
    (buf : UInt32) (nbytes : Int32) : Prop :=
  buf = 0 ∨ commandArgument command = [] ∨
    nbytes.toUInt32.toNat < (commandArgument command).length ∨ ¬ BufferMapped kernel buf nbytes ∨
    ∀ index, (commandArgument command).length < index → index < nbytes.toUInt32.toNat →
      index < argumentBufSize → first.argument index = second.argument index

/-! ## The argument in the control block -/

theorem commandArgument_sublist (command : CString) :
    (commandArgument command).Sublist command.chars := by
  have hword : (commandWord command).2.Sublist (command.chars.dropWhile isSpace) := by
    have happend := grab_append isDelimiter (taskNameSize - 1) (command.chars.dropWhile isSpace)
    rw [← happend]
    exact List.sublist_append_right _ _
  have hargument : (commandArgument command).Sublist
      ((commandWord command).2.dropWhile isSpace) := by
    have happend := grab_append isNewline (argumentBufSize - 1)
      ((commandWord command).2.dropWhile isSpace)
    have hsub := List.sublist_append_left (commandArgument command)
      (grab isNewline (argumentBufSize - 1) ((commandWord command).2.dropWhile isSpace)).2
    rwa [commandArgument, happend] at hsub
  exact hargument.trans ((List.dropWhile_sublist _).trans (hword.trans (List.dropWhile_sublist _)))

theorem length_grab_le (stop : UInt8 → Bool) (limit : Nat) (bytes : List UInt8) :
    (grab stop limit bytes).1.length ≤ limit := by
  fun_induction grab stop limit bytes with
  | case1 => exact Nat.le_refl 0
  | case2 => exact Nat.zero_le _
  | case3 => exact Nat.zero_le _
  | case4 limit char rest _ ih => simpa using ih

theorem length_commandArgument_lt (command : CString) :
    (commandArgument command).length < argumentBufSize := by
  have hle := length_grab_le isNewline (argumentBufSize - 1)
    ((commandWord command).2.dropWhile isSpace)
  have hsize : argumentBufSize = 129 := rfl
  rw [commandArgument]
  omega

def HoldsArgument (frame : ExecuteFrame) (command : CString) (kernel : Kernel) : Prop :=
  ∀ index < argumentBufSize, (kernel.pcbOf kernel.running).argumentBuf index =
    fillBuffer frame.argument (commandArgument command) index

theorem texts_fillPcb (frame : ExecuteFrame) (command : CString) (old eip : UInt32)
    {slot : UInt32} {kernel : Kernel} (hrunning : kernel.running = slot) :
    ∃ pcb, ((fillPcb frame command slot old eip kernel).pcbOf
        (fillPcb frame command slot old eip kernel).running).fileName =
          (fillTexts frame command eip pcb).fileName ∧
      ((fillPcb frame command slot old eip kernel).pcbOf
        (fillPcb frame command slot old eip kernel).running).argumentBuf =
          (fillTexts frame command eip pcb).argumentBuf := by
  have hrun : (fillPcb frame command slot old eip kernel).running = slot := by
    rw [← hrunning, Kernel.running, Kernel.running]
    simp only [fillPcb, fdaInit, linkParent, Kernel.modifyPcb]
  rw [hrun, pcbOf_fillPcb, fdaInit]
  simp only [running_modifyPcb, running_linkParent, hrunning, pcbOf_modifyPcb_self]
  exact ⟨_, rfl, rfl⟩

theorem loadUser_fillPcb (frame : ExecuteFrame) (command : CString) (slot old eip : UInt32)
    (kernel : Kernel) :
    (fillPcb frame command slot old eip kernel).loadUser = kernel.loadUser := by
  have hmemory : (fillPcb frame command slot old eip kernel).userMemory = kernel.userMemory := by
    simp only [fillPcb, fdaInit, linkParent, Kernel.modifyPcb]
  have hpages : (fillPcb frame command slot old eip kernel).pageDirectory =
      kernel.pageDirectory := by
    simp only [fillPcb, fdaInit, linkParent, Kernel.modifyPcb]
  funext addr
  simp only [Kernel.loadUser, Kernel.translate, Kernel.userPage, hmemory, hpages]

theorem tables_fillPcb (frame : ExecuteFrame) (command : CString) (slot old eip : UInt32)
    (kernel : Kernel) :
    (fillPcb frame command slot old eip kernel).tables = kernel.tables := by
  rw [fillPcb]
  rfl

theorem fillBuffer_of_lt {word : List UInt8} (stale : Nat → UInt8) {index : Nat}
    (h : index < word.length) : fillBuffer stale word index = word.get ⟨index, h⟩ := by
  rw [fillBuffer, if_pos h]
  simp [List.getD, h]

theorem fillBuffer_length (stale : Nat → UInt8) (word : List UInt8) :
    fillBuffer stale word word.length = 0 := by
  rw [fillBuffer, if_neg (Nat.lt_irrefl _), if_pos rfl]

theorem fillBuffer_of_gt {word : List UInt8} (stale : Nat → UInt8) {index : Nat}
    (h : word.length < index) : fillBuffer stale word index = stale index := by
  rw [fillBuffer, if_neg (by omega), if_neg (by omega)]

theorem fillBuffer_congr (stale stale' : Nat → UInt8) {word : List UInt8} {index : Nat}
    (h : index ≤ word.length) : fillBuffer stale word index = fillBuffer stale' word index := by
  rcases Nat.lt_or_eq_of_le h with hlt | rfl
  · rw [fillBuffer_of_lt stale hlt, fillBuffer_of_lt stale' hlt]
  · rw [fillBuffer_length, fillBuffer_length]

theorem terminated_fillBuffer (stale : Nat → UInt8) {word : List UInt8} {size : Nat}
    (h : word.length < size) : Terminated 0 size (fillBuffer stale word) 0 word where
  inside := by rwa [Nat.zero_add]
  cell := by
    intro k hk
    rw [Nat.zero_add]
    rcases Nat.lt_or_eq_of_le hk with hlt | rfl
    · rw [fillBuffer_of_lt stale hlt]
      simp [List.getD, hlt]
    · rw [fillBuffer_length]
      simp

def HoldsText (buffer : Nat → UInt8) (text : List UInt8) : Prop :=
  Terminated 0 (text.length + 1) buffer 0 text

theorem HoldsText.strlen {buffer : Nat → UInt8} {text : List UInt8} (h : HoldsText buffer text)
    (htext : ∀ char ∈ text, char ≠ 0) (hshort : text.length < 2 ^ 32) :
    strlen buffer = some (UInt32.ofNat text.length) := by
  have hlength : (UInt32.ofNat text.length).toNat = text.length :=
    UInt32.toNat_ofNat_of_lt' (by rwa [UInt32.size])
  have hcell := h.cell
  simp only [Nat.zero_add] at hcell
  rw [strlen_eq_some_iff, hlength]
  constructor
  · rw [hcell _ (Nat.le_refl _)]
    simp
  · intro k hk
    rw [hcell k hk.le]
    simpa [List.getD, hk] using htext _ (List.getElem_mem hk)

theorem HoldsText.first_eq_zero_iff {buffer : Nat → UInt8} {text : List UInt8}
    (h : HoldsText buffer text) (htext : ∀ char ∈ text, char ≠ 0) : buffer 0 = 0 ↔ text = [] := by
  have hfirst := h.cell 0 (Nat.zero_le _)
  rw [Nat.zero_add] at hfirst
  rw [hfirst]
  cases text with
  | nil => simp
  | cons char text => simpa using htext char List.mem_cons_self

theorem noNul_commandArgument (command : CString) : ∀ char ∈ commandArgument command, char ≠ 0 :=
  fun char hmem => command.noNul char ((commandArgument_sublist command).subset hmem)

theorem HoldsArgument.holdsText {frame : ExecuteFrame} {command : CString} {kernel : Kernel}
    (h : HoldsArgument frame command kernel) :
    HoldsText (kernel.pcbOf kernel.running).argumentBuf (commandArgument command) := by
  have hlt := length_commandArgument_lt command
  exact (terminated_fillBuffer frame.argument (Nat.lt_succ_self _)).congr fun k hk =>
    h k (by omega)

theorem HoldsArgument.strlen {frame : ExecuteFrame} {command : CString} {kernel : Kernel}
    (h : HoldsArgument frame command kernel) :
    LinuxOS.strlen (kernel.pcbOf kernel.running).argumentBuf =
      some (UInt32.ofNat (commandArgument command).length) := by
  have hlt := length_commandArgument_lt command
  have hsize : argumentBufSize = 129 := rfl
  exact h.holdsText.strlen (noNul_commandArgument command) (by omega)

/-! ## What the call shows -/

theorem takeWhile_append_of_not_all {store : UInt32 × UInt8 → Bool} {stores : Stores}
    (rest : Stores) (h : stores.all store = false) :
    (stores ++ rest).takeWhile store = stores.takeWhile store := by
  rw [List.takeWhile_append, if_neg]
  intro hlength
  have hall := List.takeWhile_eq_self_iff.mp
    ((List.takeWhile_prefix store).eq_of_length hlength)
  rw [List.all_eq_true.mpr hall] at h
  cases h

theorem all_storable_iff (kernel : Kernel) {buf : UInt32} {count : Nat}
    (hapart : ∀ index < count, ¬ InKernelPage (buf + UInt32.ofNat index)) (byte : Nat → UInt8) :
    ((List.range count).map fun index => (buf + UInt32.ofNat index, byte index)).all
        kernel.storable = true ↔
      ∀ index < count, (kernel.tables.physical (buf + UInt32.ofNat index)).isSome = true := by
  simp only [List.all_map, List.all_eq_true, List.mem_range, Function.comp_apply,
    Kernel.storable, Bool.and_eq_true, Bool.not_eq_true', decide_eq_false_iff_not]
  exact forall₂_congr fun index hindex => and_iff_left (hapart index hindex)

theorem HoldsArgument.first_eq_zero_iff {frame : ExecuteFrame} {command : CString}
    {kernel : Kernel} (h : HoldsArgument frame command kernel) :
    (kernel.pcbOf kernel.running).argumentBuf 0 = 0 ↔ commandArgument command = [] :=
  h.holdsText.first_eq_zero_iff (noNul_commandArgument command)

theorem toNat_copied {nbytes : Int32} (hnonneg : 0 ≤ nbytes) :
    (if nbytes > argumentSize then argumentSize else nbytes).toUInt32.toNat =
      min nbytes.toUInt32.toNat argumentBufSize := by
  have hsize : argumentBufSize = 129 := rfl
  have hargument : argumentSize.toInt = 129 := rfl
  have hword : argumentSize.toUInt32.toNat = 129 := rfl
  simp only [gt_iff_lt, Int32.lt_iff_toInt_lt, hargument, toInt_of_nonneg hnonneg]
  split <;> omega

def argsStores (buf : UInt32) (nbytes : Int32) (kernel : Kernel) : Stores :=
  memset buf 0 nbytes.toUInt32 ++ memcpy (kernel.pcbOf kernel.running).argumentBuf buf
    (if nbytes > argumentSize then argumentSize else nbytes).toUInt32

section Seen

variable {frame : ExecuteFrame} {command : CString} {kernel : Kernel} {buf : UInt32}
  {nbytes : Int32}

theorem HoldsArgument.argsSeen_of_refused (h : HoldsArgument frame command kernel)
    (hrefused : buf = 0 ∨ commandArgument command = [] ∨
      nbytes.toUInt32.toNat < (commandArgument command).length) :
    argsSeen buf nbytes kernel = some (some (-1), kernel.loadUser) := by
  have hcall : syscallGetargs buf nbytes kernel = some (kernel, -1, []) := by
    rw [syscallGetargs]
    by_cases hbuf : buf = 0
    · rw [if_pos hbuf]
    rw [if_neg hbuf]
    simp only [h.strlen, Option.map_some, h.first_eq_zero_iff]
    rcases hrefused.resolve_left hbuf with hempty | hshort
    · simp [hempty]
    · have hlt := length_commandArgument_lt command
      have hsize : argumentBufSize = 129 := rfl
      have hlength : UInt32.ofNat (commandArgument command).length > nbytes.toUInt32 := by
        rw [gt_iff_lt, UInt32.lt_iff_toNat_lt,
          UInt32.toNat_ofNat_of_lt' (by rw [UInt32.size]; omega)]
        exact hshort
      rw [if_pos hlength]
  rw [argsSeen, hcall]
  rfl

theorem length_lt_iff (hnonneg : 0 ≤ nbytes) (index : Nat) :
    (index : Int) < nbytes.toInt ↔ index < nbytes.toUInt32.toNat := by
  rw [toInt_of_nonneg hnonneg]
  exact Int.ofNat_lt

theorem memset_storable_iff (kernel : Kernel) (hnonneg : 0 ≤ nbytes)
    (hapart : ApartFromKernel buf nbytes) :
    (memset buf 0 nbytes.toUInt32).all kernel.storable = true ↔
      BufferMapped kernel buf nbytes := by
  simp only [ApartFromKernel, BufferMapped, length_lt_iff hnonneg] at hapart ⊢
  exact all_storable_iff kernel hapart fun _ => 0

theorem argsStores_storable_iff (kernel : Kernel) (hnonneg : 0 ≤ nbytes)
    (hapart : ApartFromKernel buf nbytes) :
    (argsStores buf nbytes kernel).all kernel.storable = true ↔
      BufferMapped kernel buf nbytes := by
  rw [argsStores, List.all_append, Bool.and_eq_true, memset_storable_iff kernel hnonneg hapart]
  refine and_iff_left_of_imp fun hmapped => ?_
  have hcopied := toNat_copied hnonneg
  simp only [ApartFromKernel, BufferMapped, length_lt_iff hnonneg] at hapart hmapped
  rw [memcpy, hcopied]
  exact (all_storable_iff kernel (fun index hindex => hapart index (by omega)) _).mpr
    fun index hindex => hmapped index (by omega)

theorem HoldsArgument.argsSeen_of_served (h : HoldsArgument frame command kernel)
    (hbuf : buf ≠ 0) (hne : commandArgument command ≠ [])
    (hlong : (commandArgument command).length ≤ nbytes.toUInt32.toNat) :
    argsSeen buf nbytes kernel =
      some (if (argsStores buf nbytes kernel).all kernel.storable then some 0 else none,
        Stores.apply ((argsStores buf nbytes kernel).takeWhile kernel.storable)
          kernel.loadUser) := by
  have hlt := length_commandArgument_lt command
  have hsize : argumentBufSize = 129 := rfl
  have hlength : ¬ UInt32.ofNat (commandArgument command).length > nbytes.toUInt32 := by
    rw [gt_iff_lt, UInt32.lt_iff_toNat_lt,
      UInt32.toNat_ofNat_of_lt' (by rw [UInt32.size]; omega)]
    omega
  have hcall : syscallGetargs buf nbytes kernel =
      some (kernel.storeUser (argsStores buf nbytes kernel), 0, argsStores buf nbytes kernel) := by
    rw [syscallGetargs, if_neg hbuf]
    simp only [h.strlen, Option.map_some, h.first_eq_zero_iff, if_neg hlength, if_neg hne]
    rfl
  rw [argsSeen, hcall]
  rfl

theorem HoldsArgument.argsSeen_of_unmapped (h : HoldsArgument frame command kernel)
    (hbuf : buf ≠ 0) (hnonneg : 0 ≤ nbytes) (hne : commandArgument command ≠ [])
    (hlong : (commandArgument command).length ≤ nbytes.toUInt32.toNat)
    (hapart : ApartFromKernel buf nbytes) (hout : ¬ BufferMapped kernel buf nbytes) :
    argsSeen buf nbytes kernel =
      some (none, Stores.apply ((memset buf 0 nbytes.toUInt32).takeWhile kernel.storable)
        kernel.loadUser) := by
  have hcleared : (memset buf 0 nbytes.toUInt32).all kernel.storable = false :=
    Bool.eq_false_iff.mpr fun hall => hout ((memset_storable_iff kernel hnonneg hapart).mp hall)
  rw [h.argsSeen_of_served hbuf hne hlong,
    if_neg ((argsStores_storable_iff kernel hnonneg hapart).not.mpr hout), argsStores,
    takeWhile_append_of_not_all _ hcleared]

theorem HoldsArgument.argsSeen_of_mapped (h : HoldsArgument frame command kernel)
    (hbuf : buf ≠ 0) (hnonneg : 0 ≤ nbytes) (hne : commandArgument command ≠ [])
    (hlong : (commandArgument command).length ≤ nbytes.toUInt32.toNat)
    (hapart : ApartFromKernel buf nbytes) (hin : BufferMapped kernel buf nbytes) :
    argsSeen buf nbytes kernel = some (some 0, fun addr =>
      if (addr - buf).toNat < min nbytes.toUInt32.toNat argumentBufSize then
        fillBuffer frame.argument (commandArgument command) (addr - buf).toNat
      else if addr - buf < nbytes.toUInt32 then 0
      else kernel.loadUser addr) := by
  have hcopied := toNat_copied hnonneg
  have hall := (argsStores_storable_iff kernel hnonneg hapart).mpr hin
  rw [h.argsSeen_of_served hbuf hne hlong, hall, if_pos rfl,
    List.takeWhile_eq_self_iff.mpr (List.all_eq_true.mp hall)]
  refine congrArg some (congrArg (Prod.mk (some 0)) (funext fun addr => ?_))
  rw [argsStores, Stores.apply, List.foldl_append, ← Stores.apply, ← Stores.apply, apply_memcpy]
  have hcopy : addr - buf < (if nbytes > argumentSize then argumentSize else nbytes).toUInt32 ↔
      (addr - buf).toNat < min nbytes.toUInt32.toNat argumentBufSize := by
    rw [UInt32.lt_iff_toNat_lt, hcopied]
  simp only [hcopy]
  split
  · next hlt => exact h _ (by omega)
  · exact apply_memset buf 0 nbytes.toUInt32 addr kernel.loadUser

end Seen

/-! ## Two runs -/

theorem argsSeen_eq_iff {first second : ExecuteFrame} {command : CString} {left right : Kernel}
    {buf : UInt32} {nbytes : Int32} (hleft : HoldsArgument first command left)
    (hright : HoldsArgument second command right) (hload : right.loadUser = left.loadUser)
    (htables : right.tables = left.tables) (hnonneg : 0 ≤ nbytes)
    (hapart : ApartFromKernel buf nbytes) :
    argsSeen buf nbytes left = argsSeen buf nbytes right ↔
      CopiesNoStale first second command left buf nbytes := by
  by_cases hrefused : buf = 0 ∨ commandArgument command = [] ∨
      nbytes.toUInt32.toNat < (commandArgument command).length
  · have hsame : argsSeen buf nbytes left = argsSeen buf nbytes right := by
      rw [hleft.argsSeen_of_refused hrefused, hright.argsSeen_of_refused hrefused, hload]
    exact iff_of_true hsame (hrefused.imp_right (.imp_right .inl))
  simp only [not_or, Nat.not_lt] at hrefused
  obtain ⟨hbuf, hne, hlong⟩ := hrefused
  have hmapped : BufferMapped right buf nbytes ↔ BufferMapped left buf nbytes := by
    simp only [BufferMapped, htables]
  -- where the buffer is not mapped, both calls fault at the same byte
  by_cases hin : BufferMapped left buf nbytes
  · have hlt := length_commandArgument_lt command
    have hshort : ¬ nbytes.toUInt32.toNat < (commandArgument command).length := by omega
    simp only [CopiesNoStale, hbuf, hne, hin, hshort, not_true_eq_false, false_or]
    rw [hleft.argsSeen_of_mapped hbuf hnonneg hne hlong hapart hin,
      hright.argsSeen_of_mapped hbuf hnonneg hne hlong hapart (hmapped.mpr hin), hload]
    simp only [Option.some.injEq, Prod.mk.injEq, true_and]
    constructor
    -- a byte behind the NUL is read off at its place in the buffer
    · intro hsame index hbehind hindex hsize
      have hbyte := congrFun hsame (buf + UInt32.ofNat index)
      have hoffset : (buf + UInt32.ofNat index - buf).toNat = index := by
        rw [UInt32.add_comm, UInt32.add_sub_cancel]
        exact UInt32.toNat_ofNat_of_lt' (hindex.trans nbytes.toUInt32.toNat_lt)
      have hcopied : index < min nbytes.toUInt32.toNat argumentBufSize := by omega
      simp only [hoffset, if_pos hcopied, fillBuffer_of_gt _ hbehind] at hbyte
      exact hbyte
    · intro hagree
      funext addr
      split
      · next hcopied =>
          rcases Nat.lt_or_ge (commandArgument command).length (addr - buf).toNat with
            hbehind | hle
          · rw [fillBuffer_of_gt _ hbehind, fillBuffer_of_gt _ hbehind]
            exact hagree _ hbehind (by omega) (by omega)
          · exact fillBuffer_congr _ _ hle
      · rfl
  · have hstorable : right.storable = left.storable := by
      funext store
      rw [Kernel.storable, Kernel.storable, htables]
    have hsame : argsSeen buf nbytes left = argsSeen buf nbytes right := by
      rw [hleft.argsSeen_of_unmapped hbuf hnonneg hne hlong hapart hin,
        hright.argsSeen_of_unmapped hbuf hnonneg hne hlong hapart (hmapped.not.mpr hin), hload,
        hstorable]
    exact iff_of_true hsame (.inr (.inr (.inr (.inl hin))))

theorem executeCheck_congr {first second : ExecuteFrame} (h : SameButStale first second)
    (command : CString) (fs : FileSystem) :
    executeCheck second command fs = executeCheck first command fs := by
  simp only [executeCheck, h.fileCheck, h.buf]

theorem texts_executeClaim (frame : ExecuteFrame) (command : CString) (fileCheck : Dentry)
    (slot : UInt32) (kernel : Kernel) :
    ∃ pcb eip, ((executeClaim frame command fileCheck slot kernel).1.pcbOf
        (executeClaim frame command fileCheck slot kernel).1.running).fileName =
          (fillTexts frame command eip pcb).fileName ∧
      ((executeClaim frame command fileCheck slot kernel).1.pcbOf
        (executeClaim frame command fileCheck slot kernel).1.running).argumentBuf =
          (fillTexts frame command eip pcb).argumentBuf := by
  have htask : (loadProgram fileCheck (claimSlot slot kernel)).1.tasksRunning = slot.toInt32 := rfl
  have hrunning : (loadProgram fileCheck (claimSlot slot kernel)).1.running = slot := by
    rw [Kernel.running, htask, UInt32.toUInt32_toInt32]
  obtain ⟨pcb, htexts⟩ := texts_fillPcb frame command kernel.running
    (loadProgram fileCheck (claimSlot slot kernel)).2 hrunning
  exact ⟨pcb, _, htexts⟩

theorem holdsArgument_executeClaim (frame : ExecuteFrame) (command : CString)
    (fileCheck : Dentry) (slot : UInt32) (kernel : Kernel) :
    HoldsArgument frame command (executeClaim frame command fileCheck slot kernel).1 := by
  intro index hindex
  obtain ⟨pcb, eip, -, hargument⟩ := texts_executeClaim frame command fileCheck slot kernel
  rw [hargument, fillTexts]
  simp only [if_pos hindex]

theorem loadUser_executeClaim (first second : ExecuteFrame) (command : CString)
    (fileCheck : Dentry) (slot : UInt32) (kernel : Kernel) :
    (executeClaim second command fileCheck slot kernel).1.loadUser =
      (executeClaim first command fileCheck slot kernel).1.loadUser := by
  simp only [executeClaim, loadUser_fillPcb]

theorem tables_executeClaim (first second : ExecuteFrame) (command : CString)
    (fileCheck : Dentry) (slot : UInt32) (kernel : Kernel) :
    (executeClaim second command fileCheck slot kernel).1.tables =
      (executeClaim first command fileCheck slot kernel).1.tables := by
  simp only [executeClaim, tables_fillPcb]

theorem FirstFree.unique {kernel : Kernel} {slot slot' : UInt32} (h : FirstFree kernel slot)
    (h' : FirstFree kernel slot') : slot' = slot := by
  have hle : ¬ slot' < slot := fun hlt => h.lower slot' hlt h'.free
  have hge : ¬ slot < slot' := fun hlt => h'.lower slot hlt h.free
  exact UInt32.le_antisymm (UInt32.not_lt.mp hge) (UInt32.not_lt.mp hle)

theorem exists_executed {first second : ExecuteFrame} {command : CString} {kernel left : Kernel}
    {eip : UInt32} (hframes : SameButStale first second)
    (hexecute : syscallExecute first command kernel = (left, .entered eip)) :
    ∃ right, syscallExecute second command kernel = (right, .entered eip) ∧
      HoldsArgument first command left ∧ HoldsArgument second command right ∧
      right.loadUser = left.loadUser ∧ right.tables = left.tables := by
  cases hcheck : executeCheck first command kernel.fs with
  | error value =>
      rw [syscallExecute_of_error hcheck] at hexecute
      cases hexecute
  | ok fileCheck =>
      have hagain := (executeCheck_congr hframes command kernel.fs).trans hcheck
      rcases syscallExecute_of_ok hcheck with ⟨-, heq⟩ | ⟨slot, hslot, heq⟩
      · rw [heq] at hexecute
        cases hexecute
      rcases syscallExecute_of_ok hagain with ⟨hall, -⟩ | ⟨slot', hslot', heq'⟩
      · exact absurd hslot.free (hall slot hslot.lt)
      rw [hslot.unique hslot'] at heq'
      have heip : (executeClaim second command fileCheck slot kernel).2 =
          (executeClaim first command fileCheck slot kernel).2 := by
        simp only [executeClaim]
      rw [heq, Prod.mk.injEq, Exit.entered.injEq] at hexecute
      obtain ⟨hleft, rfl⟩ := hexecute
      refine ⟨_, by rw [heq', heip], ?_⟩
      rw [← hleft]
      exact ⟨holdsArgument_executeClaim first command fileCheck slot kernel,
        holdsArgument_executeClaim second command fileCheck slot kernel,
        loadUser_executeClaim first second command fileCheck slot kernel,
        tables_executeClaim first second command fileCheck slot kernel⟩

/--
Two runs from the same state, in which `execute` finds different bytes under
its local arrays: the started programs see the same of `getargs` exactly when
the call does not copy a byte that the command has left as it was.
-/
theorem argsSeen_iff_copiesNoStale {first second : ExecuteFrame} {command : CString}
    {kernel left : Kernel} {eip buf : UInt32} {nbytes : Int32}
    (hframes : SameButStale first second)
    (hexecute : syscallExecute first command kernel = (left, .entered eip))
    (hnonneg : 0 ≤ nbytes) (hapart : ApartFromKernel buf nbytes) :
    ∃ right, syscallExecute second command kernel = (right, .entered eip) ∧
      (argsSeen buf nbytes left = argsSeen buf nbytes right ↔
        CopiesNoStale first second command left buf nbytes) := by
  obtain ⟨right, hright, hargument, hargument', hload, htables⟩ :=
    exists_executed hframes hexecute
  exact ⟨right, hright, argsSeen_eq_iff hargument hargument' hload htables hnonneg hapart⟩

/-- What can be delivered whatever was on the stack: the argument and its NUL. -/
theorem argsSeen_fixed_iff {frame : ExecuteFrame} {command : CString} {kernel left : Kernel}
    {eip buf : UInt32} {nbytes : Int32}
    (hexecute : syscallExecute frame command kernel = (left, .entered eip))
    (hnonneg : 0 ≤ nbytes) (hapart : ApartFromKernel buf nbytes) :
    (∀ second right, SameButStale frame second →
        syscallExecute second command kernel = (right, .entered eip) →
        argsSeen buf nbytes left = argsSeen buf nbytes right) ↔
      buf = 0 ∨ commandArgument command = [] ∨
        nbytes.toUInt32.toNat < (commandArgument command).length ∨
        ¬ BufferMapped left buf nbytes ∨
        min nbytes.toUInt32.toNat argumentBufSize ≤ (commandArgument command).length + 1 := by
  constructor
  · intro hsame
    -- a second run in which no stale byte is what it is in the first
    obtain ⟨second, hsecond⟩ : ∃ second : ExecuteFrame,
        second = { frame with argument := fun index => frame.argument index + 1 } := ⟨_, rfl⟩
    have hframes : SameButStale frame second := by
      rw [hsecond]
      exact ⟨rfl, rfl, rfl, rfl⟩
    obtain ⟨right, hright, hargument, hargument', hload, htables⟩ :=
      exists_executed hframes hexecute
    have hcopies := (argsSeen_eq_iff hargument hargument' hload htables hnonneg hapart).mp
      (hsame second right hframes hright)
    refine hcopies.imp_right (.imp_right (.imp_right (.imp_right fun hagree => ?_)))
    by_contra hmore
    have hbyte := hagree ((commandArgument command).length + 1) (by omega) (by omega) (by omega)
    rw [hsecond] at hbyte
    grind
  · intro hshort second right hframes hright
    obtain ⟨right', hright', hargument, hargument', hload, htables⟩ :=
      exists_executed hframes hexecute
    rw [hright, Prod.mk.injEq] at hright'
    obtain ⟨rfl, -⟩ := hright'
    refine (argsSeen_eq_iff hargument hargument' hload htables hnonneg hapart).mpr ?_
    refine hshort.imp_right (.imp_right (.imp_right (.imp_right fun hmin => ?_)))
    intro index hbehind hindex hsize
    omega

/-! ## A buffer in the user page -/

theorem inUserPage_of_fits {buf : UInt32} {nbytes : Int32} (hlow : virtualMem ≤ buf)
    (hhigh : (buf.toNat : Int) + nbytes.toInt ≤ (virtualMem + fourM).toNat) {index : Nat}
    (hindex : (index : Int) < nbytes.toInt) : InUserPage (buf + UInt32.ofNat index) := by
  have hvirtual : virtualMem.toNat = 0x8000000 := rfl
  have hend := userPageEnd_toNat
  rw [hend] at hhigh
  rw [UInt32.le_iff_toNat_le, hvirtual] at hlow
  have haddr : (buf + UInt32.ofNat index).toNat = buf.toNat + index := by
    rw [UInt32.toNat_add, UInt32.toNat_ofNat_of_lt' (by rw [UInt32.size]; omega)]
    omega
  rw [InUserPage, UInt32.le_iff_toNat_le, UInt32.lt_iff_toNat_lt, haddr, hvirtual, hend]
  omega

theorem InUserPage.notInKernelPage {addr : UInt32} (h : InUserPage addr) :
    ¬ InKernelPage addr := by
  rintro ⟨-, hhigh⟩
  have hlow := h.1
  have hvirtual : virtualMem.toNat = 0x8000000 := rfl
  have height : eightM.toNat = 0x800000 := rfl
  rw [UInt32.le_iff_toNat_le, hvirtual] at hlow
  rw [UInt32.lt_iff_toNat_lt, height] at hhigh
  omega

theorem apartFromKernel_of_fits {buf : UInt32} {nbytes : Int32} (hlow : virtualMem ≤ buf)
    (hhigh : (buf.toNat : Int) + nbytes.toInt ≤ (virtualMem + fourM).toNat) :
    ApartFromKernel buf nbytes :=
  fun _ hindex => (inUserPage_of_fits hlow hhigh hindex).notInKernelPage

theorem userPageSet_executeClaim (frame : ExecuteFrame) (command : CString) (fileCheck : Dentry)
    (slot : UInt32) (kernel : Kernel) :
    UserPageSet (executeClaim frame command fileCheck slot kernel).1 := by
  have htables : (executeClaim frame command fileCheck slot kernel).1.tables =
      (loadProgram fileCheck (claimSlot slot kernel)).1.tables := by
    simp only [executeClaim, tables_fillPcb]
  have hpage : (executeClaim frame command fileCheck slot kernel).1.userPage =
      (claimSlot slot kernel).userPage := congrFun (congrArg PageTables.directory htables) 32
  rw [UserPageSet, hpage]
  exact userPageSet_setup (eightM + slot * fourM) _

theorem bufferMapped_of_entered {frame : ExecuteFrame} {command : CString}
    {kernel left : Kernel} {eip buf : UInt32} {nbytes : Int32}
    (hexecute : syscallExecute frame command kernel = (left, .entered eip))
    (hlow : virtualMem ≤ buf)
    (hhigh : (buf.toNat : Int) + nbytes.toInt ≤ (virtualMem + fourM).toNat) :
    BufferMapped left buf nbytes := by
  rcases syscallExecute_cases hexecute with ⟨⟨_, hexit⟩, -⟩ | ⟨slot, fileCheck, _, -, -, rfl⟩
  · cases hexit
  · exact fun index hindex =>
      (userPageSet_executeClaim frame command fileCheck slot kernel).mapped
        (inUserPage_of_fits hlow hhigh hindex)

/-- `shell a` -/
def shellCommand : CString :=
  ⟨[0x73, 0x68, 0x65, 0x6C, 0x6C, 0x20, 0x61], by simp, by decide⟩

def staleFrame : ExecuteFrame := { (default : ExecuteFrame) with argument := fun _ => 0x53 }

theorem sameButStale_staleFrame : SameButStale default staleFrame := ⟨rfl, rfl, rfl, rfl⟩

theorem exists_entered_shellCommand : ∃ left eip,
    syscallExecute default shellCommand shellsKernel = (left, .entered eip) := by
  have hentered : (syscallExecute default shellCommand shellsKernel).2.isEntered = true := by
    decide +kernel
  obtain ⟨eip, hexit⟩ := Exit.exists_entered hentered
  exact ⟨_, eip, Prod.ext rfl hexit⟩

theorem argsSeen_iff_copiesNoStale_shellCommand : ∃ left right eip,
    syscallExecute default shellCommand shellsKernel = (left, .entered eip) ∧
    syscallExecute staleFrame shellCommand shellsKernel = (right, .entered eip) ∧
    (argsSeen 0x8000000 2 left = argsSeen 0x8000000 2 right ↔
      CopiesNoStale default staleFrame shellCommand left 0x8000000 2) := by
  obtain ⟨left, eip, hleft⟩ := exists_entered_shellCommand
  have hapart : ApartFromKernel 0x8000000 2 :=
    apartFromKernel_of_fits (by decide) (by decide)
  obtain ⟨right, hright, hiff⟩ : ∃ right,
      syscallExecute staleFrame shellCommand shellsKernel = (right, .entered eip) ∧
        (argsSeen 0x8000000 2 left = argsSeen 0x8000000 2 right ↔
          CopiesNoStale default staleFrame shellCommand left 0x8000000 2) :=
    argsSeen_iff_copiesNoStale sameButStale_staleFrame hleft (by decide) hapart
  exact ⟨left, right, eip, hleft, hright, hiff⟩

/-- Asked for 128 bytes, `getargs` delivers 126 bytes of stack behind the argument `a`. -/
theorem not_argsSeen_staleFrame : ∃ left right eip,
    SameButStale default staleFrame ∧
    syscallExecute default shellCommand shellsKernel = (left, .entered eip) ∧
    syscallExecute staleFrame shellCommand shellsKernel = (right, .entered eip) ∧
    argsSeen 0x8000000 128 left ≠ argsSeen 0x8000000 128 right := by
  obtain ⟨left, eip, hleft⟩ := exists_entered_shellCommand
  obtain ⟨right, hright, hargument, hargument', hload, htables⟩ :=
    exists_executed sameButStale_staleFrame hleft
  have hlength : (commandArgument shellCommand).length = 1 := by decide
  have hapart : ApartFromKernel 0x8000000 128 := apartFromKernel_of_fits (by decide) (by decide)
  have hmapped : BufferMapped left 0x8000000 128 :=
    bufferMapped_of_entered hleft (by decide) (by decide)
  refine ⟨left, right, eip, sameButStale_staleFrame, hleft, hright, fun hsame => ?_⟩
  rcases (argsSeen_eq_iff hargument hargument' hload htables (by decide) hapart).mp hsame with
    hnull | hempty | hshort | hout | hagree
  · exact absurd hnull (by decide)
  · rw [hempty] at hlength
    cases hlength
  · rw [hlength] at hshort
    exact absurd hshort (by decide)
  · exact hout hmapped
  · have hbyte := hagree 2 (by rw [hlength]; decide) (by decide) (by decide)
    exact absurd hbyte (by decide)

end LinuxOS
