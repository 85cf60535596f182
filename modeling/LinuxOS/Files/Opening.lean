import Mathlib.Data.List.Find
import LinuxOS.Files.Lookup
import LinuxOS.Process.Effects

/-!
# What `open` does

`syscall_open` writes a table into the free descriptor before it knows whether
the name exists, and calls through the table that is there in the end.
-/

namespace LinuxOS

/-! ## Changes of one descriptor -/

@[simp] theorem fdOf_modifyFd (kernel : Kernel) (fd : UInt32)
    (change : FileDescriptor → FileDescriptor) :
    (kernel.modifyFd fd change).fdOf =
      Function.update kernel.fdOf fd (change (kernel.fdOf fd)) := by
  funext other
  rw [modifyFd_eq, Kernel.fdOf, running_withFds, pcbOf_withFds_self]
  rfl

@[simp] theorem fs_modifyFd (kernel : Kernel) (fd : UInt32)
    (change : FileDescriptor → FileDescriptor) : (kernel.modifyFd fd change).fs = kernel.fs := rfl

theorem modifyFd_eq_withFds (kernel : Kernel) (fd : UInt32)
    (change : FileDescriptor → FileDescriptor) :
    kernel.modifyFd fd change =
      kernel.withFds (Function.update kernel.fdOf fd (change (kernel.fdOf fd))) :=
  modifyFd_eq kernel fd change

theorem modifyFd_congr {kernel : Kernel} {fd : UInt32}
    {change change' : FileDescriptor → FileDescriptor}
    (h : change (kernel.fdOf fd) = change' (kernel.fdOf fd)) :
    kernel.modifyFd fd change = kernel.modifyFd fd change' := by
  rw [modifyFd_eq_withFds, h, ← modifyFd_eq_withFds]

theorem modifyFd_eq_self {kernel : Kernel} {fd : UInt32}
    {change : FileDescriptor → FileDescriptor} (h : change (kernel.fdOf fd) = kernel.fdOf fd) :
    kernel.modifyFd fd change = kernel := by
  rw [modifyFd_eq_withFds, h, Function.update_eq_self]
  exact withFds_self kernel

theorem modifyFd_modifyFd (kernel : Kernel) (fd : UInt32)
    (change change' : FileDescriptor → FileDescriptor) :
    (kernel.modifyFd fd change).modifyFd fd change' =
      kernel.modifyFd fd fun descriptor => change' (change descriptor) := by
  rw [modifyFd_eq_withFds (kernel.modifyFd fd change), fdOf_modifyFd, Function.update_self,
    Function.update_idem, modifyFd_eq_withFds, withFds_withFds, modifyFd_eq_withFds]

/-- A descriptor behind `fops_table = table`, where `none` stands for no assignment. -/
def FileDescriptor.withTable (table : Option FopsTable) (descriptor : FileDescriptor) :
    FileDescriptor := { descriptor with fopsTable := table.or descriptor.fopsTable }

theorem setFops_eq (kernel : Kernel) (fd : UInt32) (table : Option FopsTable) :
    kernel.setFops fd table = kernel.modifyFd fd (.withTable table) := by
  cases table with
  | none => exact (modifyFd_eq_self rfl).symm
  | some table => rfl

/-! ## The search for a free descriptor -/

def lowestFree (free : UInt32 → Bool) : Option UInt32 := [2, 3, 4, 5, 6, 7].find? free

def Kernel.isFree (kernel : Kernel) (fd : UInt32) : Bool := (kernel.fdOf fd).flags == 0

theorem getD_find?_cons {α : Type} (meets : α → Bool) (head default : α) (tail : List α) :
    ((head :: tail).find? meets).getD default =
      if meets head then head else (tail.find? meets).getD default := by
  rw [List.find?_cons]
  cases meets head <;> rfl

theorem findFreeFd_eq (kernel : Kernel) :
    findFreeFd (kernel.pcbOf kernel.running).fd 6 2 = (lowestFree kernel.isFree).getD 8 := by
  have hfree : ∀ fd, ((kernel.pcbOf kernel.running).fd fd).flags = 0 ↔ kernel.isFree fd = true :=
    fun fd => beq_iff_eq.symm
  simp only [findFreeFd, lowestFree, getD_find?_cons, UInt32.reduceAdd, hfree, List.find?_nil,
    Option.getD_none]

theorem bounds_of_mem {fd : UInt32} (h : fd ∈ ([2, 3, 4, 5, 6, 7] : List UInt32)) :
    2 ≤ fd ∧ fd ≤ 7 := by
  simp only [List.mem_cons, List.not_mem_nil, or_false] at h
  grind

theorem lowestFree_congr {free free' : UInt32 → Bool}
    (h : ∀ fd, 2 ≤ fd → fd ≤ 7 → free fd = free' fd) : lowestFree free = lowestFree free' :=
  List.find?_congr fun fd hmem => h fd (bounds_of_mem hmem).1 (bounds_of_mem hmem).2

theorem lowestFree_bounds {free : UInt32 → Bool} {fd : UInt32} (h : lowestFree free = some fd) :
    2 ≤ fd ∧ fd ≤ 7 ∧ free fd = true := by
  obtain ⟨hlow, hhigh⟩ := bounds_of_mem (List.mem_of_find?_eq_some h)
  exact ⟨hlow, hhigh, List.find?_some h⟩

/-! ## The call through the table -/

def FopsTable.openDevice : FopsTable → Kernel → Kernel
  | .stdinFops, kernel => terminalOpen kernel
  | .stdoutFops, kernel => terminalOpen kernel
  | .rtcFops, kernel => rtcOpen kernel
  | .dirFops, kernel => kernel
  | .fileFops, kernel => kernel

def FopsTable.openInode (entry : Dentry) (inode : UInt32) : FopsTable → UInt32
  | .stdinFops => inode
  | .stdoutFops => inode
  | .rtcFops => inode
  | .dirFops => entry.inode
  | .fileFops => entry.inode

theorem openDevice_modifyFd (table : FopsTable) (kernel : Kernel) (fd : UInt32)
    (change : FileDescriptor → FileDescriptor) :
    table.openDevice (kernel.modifyFd fd change) =
      (table.openDevice kernel).modifyFd fd change := by
  cases table <;>
    simp only [FopsTable.openDevice, terminalOpen, rtcOpen, Kernel.modifyDisplayed,
      Kernel.displayed, Kernel.modifyFd, Kernel.modifyPcb, Kernel.pcbOf, Kernel.running]

theorem fs_openDevice (table : FopsTable) (kernel : Kernel) :
    (table.openDevice kernel).fs = kernel.fs := by
  cases table <;> rfl

theorem pcb_openDevice (table : FopsTable) (kernel : Kernel) :
    (table.openDevice kernel).pcb = kernel.pcb := by
  cases table <;> rfl

theorem fdOf_openDevice (table : FopsTable) (kernel : Kernel) :
    (table.openDevice kernel).fdOf = kernel.fdOf := by
  cases table <;> rfl

theorem callOpen_eq {kernel : Kernel} {filename : CString} {entry : Dentry}
    (hfound : readDentryByName kernel.fs filename = some entry) (table : FopsTable)
    (fd : UInt32) :
    callOpen (some table) filename fd kernel =
      some ((table.openDevice kernel).modifyFd fd fun descriptor =>
        { descriptor with inode := table.openInode entry descriptor.inode }, 0) := by
  cases table with
  | stdinFops => exact congrArg (fun opened => some (opened, 0)) (modifyFd_eq_self rfl).symm
  | stdoutFops => exact congrArg (fun opened => some (opened, 0)) (modifyFd_eq_self rfl).symm
  | rtcFops => exact congrArg (fun opened => some (opened, 0)) (modifyFd_eq_self rfl).symm
  | dirFops => simp only [callOpen, dirOpen, hfound, Option.map_some]; rfl
  | fileFops => simp only [callOpen, fileOpen, hfound, Option.map_some]; rfl

/-! ## The call -/

/-- The table in the descriptor when `open` calls through it. -/
def tableBehind (filename : CString) (entry : Dentry) (left : Option FopsTable) :
    Option FopsTable := (typeFops entry.type).or ((standardFops filename).or left)

theorem exists_typeFops {type : UInt32} (htype : type ≤ 2) :
    ∃ table, typeFops type = some table := by
  have hcases : type = 0 ∨ type = 1 ∨ type = 2 := by grind
  rcases hcases with rfl | rfl | rfl
  · exact ⟨.rtcFops, rfl⟩
  · exact ⟨.dirFops, rfl⟩
  · exact ⟨.fileFops, rfl⟩

def FopsTable.openFd (table : FopsTable) (entry : Dentry) (descriptor : FileDescriptor) :
    FileDescriptor :=
  ⟨some table, table.openInode entry descriptor.inode, descriptor.filePosition, 1⟩

section Open

variable {filename : CString} {kernel : Kernel}

theorem syscallOpen_empty (hname : filename.chars = []) :
    syscallOpen (some filename) kernel = some (kernel, -1) := if_pos hname

theorem syscallOpen_full (hfull : lowestFree kernel.isFree = none) :
    syscallOpen (some filename) kernel = some (kernel, -1) := by
  simp only [syscallOpen, findFreeFd_eq, hfull, Option.getD_none]
  split <;> rfl

variable {fd : UInt32}

/-- A name that is not in the directory leaves a trace in the free descriptor. -/
theorem syscallOpen_missing (hname : filename.chars ≠ [])
    (hfree : lowestFree kernel.isFree = some fd)
    (hmissing : kernel.fs.lookup filename.chars = none) :
    syscallOpen (some filename) kernel =
      some (kernel.modifyFd fd (.withTable (standardFops filename)), -1) := by
  obtain ⟨-, hhigh, -⟩ := lowestFree_bounds hfree
  simp only [syscallOpen, if_neg hname, findFreeFd_eq, hfree, Option.getD_some, gt_iff_lt,
    if_neg (UInt32.not_lt.mpr hhigh), readDentryByName_eq, hmissing, setFops_eq]

/-- A name that is there opens whatever table is left, unless that is `NULL`. -/
theorem syscallOpen_found (hname : filename.chars ≠ []) (hfree : lowestFree kernel.isFree = some fd)
    {entry : Dentry} (hfound : kernel.fs.lookup filename.chars = some entry) :
    syscallOpen (some filename) kernel =
      (tableBehind filename entry (kernel.fdOf fd).fopsTable).map fun table =>
        ((table.openDevice kernel).modifyFd fd (table.openFd entry), fd.toInt32) := by
  obtain ⟨-, hhigh, -⟩ := lowestFree_bounds hfree
  obtain ⟨typed, htyped⟩ : ∃ typed, typed = kernel.modifyFd fd fun descriptor =>
    .withTable (typeFops entry.type) (.withTable (standardFops filename) descriptor) := ⟨_, rfl⟩
  have htable : (typed.fdOf fd).fopsTable =
      tableBehind filename entry (kernel.fdOf fd).fopsTable := by
    rw [htyped, fdOf_modifyFd, Function.update_self]
    rfl
  have htypedFound : readDentryByName typed.fs filename = some entry := by
    rw [htyped, fs_modifyFd, readDentryByName_eq, hfound]
  simp only [syscallOpen, if_neg hname, findFreeFd_eq, hfree, Option.getD_some, gt_iff_lt,
    if_neg (UInt32.not_lt.mpr hhigh), readDentryByName_eq, hfound, setFops_eq, modifyFd_modifyFd,
    ← htyped, htable]
  cases hbehind : tableBehind filename entry (kernel.fdOf fd).fopsTable with
  | none => rfl
  | some table =>
      have hzero : (0 : Int32) ≠ -1 := by decide
      rw [callOpen_eq htypedFound]
      simp only [Option.map_some, if_neg hzero, modifyFd_modifyFd, htyped, openDevice_modifyFd]
      refine congrArg (fun opened => some (opened, fd.toInt32)) (modifyFd_congr ?_)
      rw [fdOf_openDevice]
      exact congrArg (fun left => (⟨left, table.openInode entry (kernel.fdOf fd).inode,
        (kernel.fdOf fd).filePosition, 1⟩ : FileDescriptor)) hbehind

end Open

theorem flags_of_lowestFree {kernel : Kernel} {fd : UInt32}
    (h : lowestFree kernel.isFree = some fd) : (kernel.fdOf fd).flags = 0 :=
  beq_iff_eq.mp (lowestFree_bounds h).2.2

theorem syscallOpen_cases {filename : Option CString} {kernel opened : Kernel} {value : Int32}
    (h : syscallOpen filename kernel = some (opened, value)) :
    opened = kernel ∨ ∃ fd, (kernel.fdOf fd).flags = 0 ∧
      ((∃ table, opened = kernel.modifyFd fd (.withTable table)) ∨
        ∃ table entry, opened =
          (FopsTable.openDevice table kernel).modifyFd fd (table.openFd entry)) := by
  cases filename with
  | none =>
      cases h
      exact .inl rfl
  | some filename =>
      by_cases hname : filename.chars = []
      · rw [syscallOpen_empty hname] at h
        cases h
        exact .inl rfl
      cases hfree : lowestFree kernel.isFree with
      | none =>
          rw [syscallOpen_full hfree] at h
          cases h
          exact .inl rfl
      | some fd =>
          refine .inr ⟨fd, flags_of_lowestFree hfree, ?_⟩
          cases hlookup : kernel.fs.lookup filename.chars with
          | none =>
              rw [syscallOpen_missing hname hfree hlookup] at h
              cases h
              exact .inl ⟨_, rfl⟩
          | some entry =>
              rw [syscallOpen_found hname hfree hlookup] at h
              obtain ⟨table, -, heq⟩ := Option.map_eq_some_iff.mp h
              cases heq
              exact .inr ⟨table, entry, rfl⟩

end LinuxOS
