import LinuxOS.Kernel.FileSystem
import LinuxOS.Kernel.Keyboard
import LinuxOS.Kernel.Rtc

/-!
# The system calls of `system_call.c`

A call that may spin or fault is an `Option`: `none` stands for a call that
does not come back.  What a call stores through a pointer of its caller is
listed with its addresses; the part that falls into the user page is applied to
the physical frame behind it.

Two things are taken for granted here.  What a call reads through a pointer of
its caller is mapped, and comes as a string or a function.  And no store outside
of the user page faults or meets a variable of the kernel: where that matters,
results ask that there is none (`storesInside`), or follow the stores through
the page tables.
-/

namespace LinuxOS

namespace Kernel

def translate (kernel : Kernel) (addr : UInt32) : Option UInt32 :=
  if virtualMem ≤ addr ∧ addr < virtualMem + fourM then
    some ((kernel.userPage &&& 0xFFC00000) + (addr - virtualMem))
  else none

/-- Stores outside of the user page are left out. -/
def storeUser (kernel : Kernel) (stores : Stores) : Kernel :=
  { kernel with
    userMemory := Stores.apply
      (stores.filterMap fun (addr, byte) => (kernel.translate addr).map fun phys => (phys, byte))
      kernel.userMemory }

def loadUser (kernel : Kernel) (addr : UInt32) : UInt8 :=
  ((kernel.translate addr).map kernel.userMemory).getD 0

/-- `get_pcb(tasks_running)->fd[fd]` -/
def fdOf (kernel : Kernel) (fd : UInt32) : FileDescriptor :=
  (kernel.pcbOf kernel.running).fd fd

def modifyFd (kernel : Kernel) (fd : UInt32) (change : FileDescriptor → FileDescriptor) :
    Kernel :=
  kernel.modifyPcb kernel.running fun pcb =>
    { pcb with fd := Function.update pcb.fd fd (change (pcb.fd fd)) }

end Kernel

/-! ## Descriptors -/

/-- `syscall_read`; `interrupts` is what `rtc_read` counts when it is the one called. -/
def syscallRead (interrupts fd buf : UInt32) (nbytes : Int32) (kernel : Kernel) :
    Option (Kernel × Int32 × Stores) :=
  if fd > 7 ∨ fd = 1 then some (kernel, -1, [])
  else
    let descriptor := kernel.fdOf fd
    if descriptor.flags = 0 then some (kernel, -1, [])
    else
      match descriptor.fopsTable with
      | none => none
      | some .stdoutFops => some (kernel, -1, [])
      | some .stdinFops =>
          (terminalRead buf nbytes.toUInt32 kernel).map fun (kernel, result, stores) =>
            (kernel.storeUser stores, result, stores)
      | some .rtcFops =>
          (rtcRead interrupts kernel).map fun (kernel, result) => (kernel, result, [])
      | some .dirFops =>
          (dirRead kernel.fs descriptor.filePosition buf nbytes.toUInt32).map
            fun (result, position, stores) =>
              ((kernel.modifyFd fd fun descriptor =>
                { descriptor with filePosition := position }).storeUser stores, result, stores)
      | some .fileFops =>
          let (result, position, stores) :=
            fileRead kernel.fs descriptor.inode descriptor.filePosition buf nbytes.toUInt32
          some ((kernel.modifyFd fd fun descriptor =>
            { descriptor with filePosition := position }).storeUser stores, result, stores)

/-- `syscall_write`; `source` is memory from `buf` on. -/
def syscallWrite (fd : UInt32) (source : Nat → UInt8) (nbytes : Int32) (kernel : Kernel) :
    Option (Kernel × Int32) :=
  if fd > 7 ∨ fd < 1 then some (kernel, -1)
  else
    let descriptor := kernel.fdOf fd
    if descriptor.flags = 0 then some (kernel, -1)
    else
      match descriptor.fopsTable with
      | none => none
      | some .stdinFops => some (kernel, -1)
      | some .stdoutFops => some (terminalWrite source nbytes.toUInt32 kernel)
      | some .rtcFops =>
          some (rtcWrite (wordOfBytes (source 0) (source 1) (source 2) (source 3))
            nbytes.toUInt32 kernel)
      | some .dirFops => some (kernel, -1)
      | some .fileFops => some (kernel, -1)

def findFreeFd (fd : UInt32 → FileDescriptor) : Nat → UInt32 → UInt32
  | 0, fdIndex => fdIndex
  | count + 1, fdIndex =>
      if (fd fdIndex).flags = 0 then fdIndex else findFreeFd fd count (fdIndex + 1)

def stdinName : CString := ⟨[0x73, 0x74, 0x64, 0x69, 0x6E], by simp, by decide⟩
def stdoutName : CString := ⟨[0x73, 0x74, 0x64, 0x6F, 0x75, 0x74], by simp, by decide⟩

/-- The table that `syscall_open` sets before it has looked the name up. -/
def standardFops (filename : CString) : Option FopsTable :=
  if strncmp stdinName.byte filename.byte 6 = 0 then some .stdinFops
  else if strncmp stdoutName.byte filename.byte 7 = 0 then some .stdoutFops
  else none

def typeFops (type : UInt32) : Option FopsTable :=
  if type = 0 then some .rtcFops
  else if type = 1 then some .dirFops
  else if type = 2 then some .fileFops
  else none

def Kernel.setFops (kernel : Kernel) (fd : UInt32) : Option FopsTable → Kernel
  | none => kernel
  | some table => kernel.modifyFd fd fun descriptor => { descriptor with fopsTable := some table }

/-- The call through `fops_table->open`: the value it returns, `none` when the table is `NULL`. -/
def callOpen (table : Option FopsTable) (filename : CString) (fd : UInt32) (kernel : Kernel) :
    Option (Kernel × Int32) :=
  match table with
  | none => none
  | some .stdinFops => some (terminalOpen kernel, 0)
  | some .stdoutFops => some (terminalOpen kernel, 0)
  | some .rtcFops => some (rtcOpen kernel, 0)
  | some .dirFops =>
      match dirOpen kernel.fs filename with
      | none => some (kernel, -1)
      | some inode => some (kernel.modifyFd fd fun descriptor =>
          { descriptor with inode := inode }, 0)
  | some .fileFops =>
      match fileOpen kernel.fs filename with
      | none => some (kernel, -1)
      | some inode => some (kernel.modifyFd fd fun descriptor =>
          { descriptor with inode := inode }, 0)

/-- `syscall_open`; the file name is `none` for a `NULL` pointer. -/
def syscallOpen (filename : Option CString) (kernel : Kernel) : Option (Kernel × Int32) :=
  match filename with
  | none => some (kernel, -1)
  | some filename =>
      if filename.chars = [] then some (kernel, -1)
      else
        let fdIndex := findFreeFd (kernel.pcbOf kernel.running).fd 6 2
        if fdIndex > 7 then some (kernel, -1)
        else
          let named := kernel.setFops fdIndex (standardFops filename)
          match readDentryByName kernel.fs filename with
          | none => some (named, -1)
          | some dentry =>
              let typed := named.setFops fdIndex (typeFops dentry.type)
              (callOpen (typed.fdOf fdIndex).fopsTable filename fdIndex typed).map
                fun (opened, result) =>
                  if result = -1 then (opened, -1)
                  else (opened.modifyFd fdIndex fun descriptor =>
                    { descriptor with flags := 1 }, fdIndex.toInt32)

def syscallClose (fd : Int32) (kernel : Kernel) : Option (Kernel × Int32) :=
  if fd > 7 ∨ fd < 2 then some (kernel, -1)
  else
    let descriptor := kernel.fdOf fd.toUInt32
    if descriptor.flags = 0 then some (kernel, -1)
    else
      match descriptor.fopsTable with
      | none => none
      | some .stdinFops => some (kernel, -1)
      | some .stdoutFops => some (kernel, -1)
      | some .rtcFops =>
          some (kernel.modifyFd fd.toUInt32 fun descriptor =>
            { descriptor with filePosition := 0, flags := 0 }, 0)
      | some .dirFops =>
          some (kernel.modifyFd fd.toUInt32 fun descriptor =>
            { descriptor with inode := 0, filePosition := 0, flags := 0 }, 0)
      | some .fileFops =>
          some (kernel.modifyFd fd.toUInt32 fun descriptor =>
            { descriptor with inode := 0, filePosition := 0, flags := 0 }, 0)

/-! ## Arguments and video memory -/

def argumentSize : Int32 := 129

/--
`syscall_getargs`; `none` when `strlen` finds no end of the argument.  Its value
is that of a call none of whose stores faults.
-/
def syscallGetargs (buf : UInt32) (nbytes : Int32) (kernel : Kernel) :
    Option (Kernel × Int32 × Stores) :=
  if buf = 0 then some (kernel, -1, [])
  else
    let pcb := kernel.pcbOf kernel.running
    (strlen pcb.argumentBuf).map fun length =>
      if length > nbytes.toUInt32 then (kernel, -1, [])
      else if pcb.argumentBuf 0 = 0 then (kernel, -1, [])
      else
        let copied := if nbytes > argumentSize then argumentSize else nbytes
        let stores := memset buf 0 nbytes.toUInt32 ++
          memcpy pcb.argumentBuf buf copied.toUInt32
        (kernel.storeUser stores, 0, stores)

def bytesOfWord (word : UInt32) : List UInt8 :=
  [word.toUInt8, (word >>> 8).toUInt8, (word >>> 16).toUInt8, (word >>> 24).toUInt8]

def syscallVidmap (screenStart : UInt32) (kernel : Kernel) : Kernel × Int32 × Stores :=
  if screenStart = 0 ∨ screenStart = fourM then (kernel, -1, [])
  else
    let stores := storesAt screenStart (bytesOfWord mem148MB)
    ((videomemMap mem148MB videoMemAddr kernel).storeUser stores, 0, stores)

/-! ## Calls with their arguments -/

inductive Call where
  | openFile (filename : Option CString)
  | readFd (interrupts fd buf : UInt32) (nbytes : Int32)
  | writeFd (fd : UInt32) (source : Nat → UInt8) (nbytes : Int32)
  | closeFd (fd : Int32)
  | getargs (buf : UInt32) (nbytes : Int32)

def Call.perform (call : Call) (kernel : Kernel) : Option (Kernel × Int32 × Stores) :=
  match call with
  | .openFile filename =>
      (syscallOpen filename kernel).map fun (after, value) => (after, value, [])
  | .readFd interrupts fd buf nbytes => syscallRead interrupts fd buf nbytes kernel
  | .writeFd fd source nbytes =>
      (syscallWrite fd source nbytes kernel).map fun (after, value) => (after, value, [])
  | .closeFd fd => (syscallClose fd kernel).map fun (after, value) => (after, value, [])
  | .getargs buf nbytes => syscallGetargs buf nbytes kernel

/-- Stores in the user page, where they meet no variable of the kernel and do not fault. -/
def storesInside (stores : Stores) : Bool :=
  stores.all fun store => virtualMem ≤ store.1 && store.1 < virtualMem + fourM

/-! ## Reads, by the table of the descriptor -/

inductive TableRead (interrupts fd buf : UInt32) (nbytes : Int32) (kernel : Kernel) :
    FopsTable → Kernel → Int32 → Stores → Prop where
  | screen : TableRead interrupts fd buf nbytes kernel .stdoutFops kernel (-1) []
  | terminal {drained : Kernel} {value : Int32} {stores : Stores}
      (hread : terminalRead buf nbytes.toUInt32 kernel = some (drained, value, stores)) :
      TableRead interrupts fd buf nbytes kernel .stdinFops (drained.storeUser stores) value stores
  | clock {waited : Kernel} {value : Int32}
      (hread : rtcRead interrupts kernel = some (waited, value)) :
      TableRead interrupts fd buf nbytes kernel .rtcFops waited value []
  | directory {value : Int32} {stores : Stores} (position : UInt32)
      (hread : directoryRead kernel.fs (kernel.fdOf fd).filePosition buf nbytes.toUInt32 =
        some (value, stores)) :
      TableRead interrupts fd buf nbytes kernel .dirFops
        ((kernel.modifyFd fd fun descriptor =>
          { descriptor with filePosition := position }).storeUser stores) value stores
  | file {value : Int32} {stores : Stores} (position : UInt32)
      (hread : readData kernel.fs (kernel.fdOf fd).inode (kernel.fdOf fd).filePosition buf
        nbytes.toUInt32 = (value, stores)) :
      TableRead interrupts fd buf nbytes kernel .fileFops
        ((kernel.modifyFd fd fun descriptor =>
          { descriptor with filePosition := position }).storeUser stores) value stores

theorem tableRead_of_syscallRead {interrupts fd buf : UInt32} {nbytes value : Int32}
    {kernel after : Kernel} {stores : Stores}
    (h : syscallRead interrupts fd buf nbytes kernel = some (after, value, stores)) :
    ((fd > 7 ∨ fd = 1 ∨ (kernel.fdOf fd).flags = 0) ∧ after = kernel ∧ value = -1 ∧
        stores = []) ∨
      ((fd ≤ 7 ∧ fd ≠ 1) ∧ (kernel.fdOf fd).flags ≠ 0 ∧
        ∃ table, (kernel.fdOf fd).fopsTable = some table ∧
          TableRead interrupts fd buf nbytes kernel table after value stores) := by
  unfold syscallRead at h
  split at h
  · next hout =>
      cases h
      exact .inl ⟨hout.imp_right .inl, rfl, rfl, rfl⟩
  simp only at h
  split at h
  · next hclosed =>
      cases h
      exact .inl ⟨.inr (.inr hclosed), rfl, rfl, rfl⟩
  next hout hopen =>
    rw [not_or, UInt32.not_lt] at hout
    refine .inr ⟨hout, hopen, ?_⟩
    split at h
    · cases h
    · next htable =>
        cases h
        exact ⟨_, htable, .screen⟩
    · next htable =>
        obtain ⟨⟨drained, result, bytes⟩, hread, heq⟩ := Option.map_eq_some_iff.mp h
        cases heq
        exact ⟨_, htable, .terminal hread⟩
    · next htable =>
        obtain ⟨⟨waited, result⟩, hread, heq⟩ := Option.map_eq_some_iff.mp h
        cases heq
        exact ⟨_, htable, .clock hread⟩
    · next htable =>
        obtain ⟨⟨result, position, bytes⟩, hread, heq⟩ := Option.map_eq_some_iff.mp h
        cases heq
        obtain ⟨⟨listed, names⟩, hdirectory, heq⟩ := Option.map_eq_some_iff.mp hread
        cases heq
        exact ⟨_, htable, .directory _ hdirectory⟩
    · next htable =>
        cases h
        exact ⟨_, htable, .file _ rfl⟩

end LinuxOS
