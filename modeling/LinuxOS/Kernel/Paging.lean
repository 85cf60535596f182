import LinuxOS.Kernel.State

/-!
# The page tables of `paging.c`

`flush_TLB` has no effect on the tables and is left out.
-/

namespace LinuxOS

def virtualMem : UInt32 := 0x8000000
def mem148MB : UInt32 := 0x9400000
def videoMemAddr : UInt32 := 0xb8000
def videoMemOffset : UInt32 := 0xb8

def pagingInit (kernel : Kernel) : Kernel :=
  { kernel with
    pageDirectory := fun i =>
      if i = 0 then kernel.pageTableAddr ||| 0x3
      else if i = 1 then (oneK * fourK) ||| 0x83
      else if i < oneK then 0x2
      else kernel.pageDirectory i
    pageTable := fun i =>
      if i = videoMemOffset then (i * fourK) ||| 0x3
      else if i < oneK then (i * fourK) ||| 0x2
      else kernel.pageTable i }

def syscallPagingSetup (addr : UInt32) (kernel : Kernel) : Kernel :=
  { kernel with
    pageDirectory :=
      Function.update kernel.pageDirectory (virtualMem / fourM) (addr ||| 0x87) }

def videomemMap (virt physical : UInt32) (kernel : Kernel) : Kernel :=
  { kernel with
    pageDirectory :=
      Function.update kernel.pageDirectory (virt / fourM) (kernel.videoPageAddr ||| 0x7)
    videoPage := fun j =>
      if j = 0 then physical ||| 0x7
      else if j < oneK then 0x2
      else kernel.videoPage j }

def videomemUnmap (virt : UInt32) (kernel : Kernel) : Kernel :=
  { kernel with
    pageDirectory := Function.update kernel.pageDirectory (virt / fourM) 0x2
    videoPage := Function.update kernel.videoPage 0 0x2 }

def Kernel.userPage (kernel : Kernel) : UInt32 := kernel.pageDirectory 32

theorem virtualMem_div_fourM : virtualMem / fourM = 32 := by decide

theorem mem148MB_div_fourM : mem148MB / fourM = 37 := by decide

@[simp] theorem userPage_syscallPagingSetup (addr : UInt32) (kernel : Kernel) :
    (syscallPagingSetup addr kernel).userPage = addr ||| 0x87 := by
  simp [syscallPagingSetup, Kernel.userPage, virtualMem_div_fourM]

@[simp] theorem userPage_videomemMap (physical : UInt32) (kernel : Kernel) :
    (videomemMap mem148MB physical kernel).userPage = kernel.userPage := by
  simp [videomemMap, Kernel.userPage, mem148MB_div_fourM]

@[simp] theorem userPage_videomemUnmap (kernel : Kernel) :
    (videomemUnmap mem148MB kernel).userPage = kernel.userPage := by
  simp [videomemUnmap, Kernel.userPage, mem148MB_div_fourM]

end LinuxOS
