import LinuxOS.Foundation.PageWalk
import LinuxOS.Kernel.Boot

/-!
# The page tables stay in their frame

Mapping the user page and mapping or unmapping the video page touch the
directory entries 32 and 37 and nothing else.  The word that `vidmap` stores
through its caller's pointer is a store like any other: where the pointer leads
to one of the three tables, it changes an entry.
-/

namespace LinuxOS

open Foundation

/-! ## Stores into the tables -/

/-- The tables that translation uses; other table addresses do not occur. -/
def Kernel.tables (kernel : Kernel) : PageTables where
  directory := kernel.pageDirectory
  table base :=
    if base = kernel.pageTableAddr then kernel.pageTable
    else if base = kernel.videoPageAddr then kernel.videoPage
    else fun _ => 0

def tableBytes (base : UInt32) (entries : UInt32 → UInt32) (addr : UInt32) : UInt8 :=
  (bytesOfWord (entries ((addr - base) / 4))).getD ((addr - base) % 4).toNat 0

def patchTable (base : UInt32) (stores : Stores) (entries : UInt32 → UInt32) (i : UInt32) :
    UInt32 :=
  if i < oneK then
    let memory := stores.apply (tableBytes base entries)
    wordOfBytes (memory (base + 4 * i)) (memory (base + (4 * i + 1)))
      (memory (base + (4 * i + 2))) (memory (base + (4 * i + 3)))
  else entries i

def Kernel.storeTables (kernel : Kernel) (directoryAddr : UInt32) (stores : Stores) : Kernel :=
  { kernel with
    pageDirectory := patchTable directoryAddr stores kernel.pageDirectory
    pageTable := patchTable kernel.pageTableAddr stores kernel.pageTable
    videoPage := patchTable kernel.videoPageAddr stores kernel.videoPage }

def Kernel.physicalStores (kernel : Kernel) (stores : Stores) : Stores :=
  stores.filterMap fun (addr, byte) => (kernel.tables.physical addr).map fun phys => (phys, byte)

/-! ## The operations -/

inductive PagingOp where
  | setup (addr : UInt32)
  | vidmap (screenStart : UInt32)
  | unmapVideo

/-- A `vidmap` counts when it returns 0, its pointer being mapped. -/
def PagingOp.perform (directoryAddr : UInt32) : PagingOp → Kernel → Option Kernel
  | .setup addr, kernel => some (syscallPagingSetup addr kernel)
  | .vidmap screenStart, kernel =>
      let (mapped, result, stores) := syscallVidmap screenStart kernel
      if result = 0 ∧ (stores.all fun store => (mapped.tables.physical store.1).isSome) = true then
        some (mapped.storeTables directoryAddr (mapped.physicalStores stores))
      else none
  | .unmapVideo, kernel => some (LinuxOS.unmapVideo kernel)

def InTable (base addr : UInt32) : Prop := addr - base < fourK

def OutsideTables (directoryAddr : UInt32) (kernel : Kernel) (phys : UInt32) : Prop :=
  ¬ InTable directoryAddr phys ∧ ¬ InTable kernel.pageTableAddr phys ∧
    ¬ InTable kernel.videoPageAddr phys

instance (directoryAddr : UInt32) (kernel : Kernel) (phys : UInt32) :
    Decidable (OutsideTables directoryAddr kernel phys) :=
  inferInstanceAs (Decidable (¬ _ - _ < fourK ∧ ¬ _ - _ < fourK ∧ ¬ _ - _ < fourK))

/-- What the four bytes behind a pointer of `vidmap` lead to lies in none of the tables. -/
def Spares (directoryAddr : UInt32) (kernel : Kernel) : PagingOp → Prop
  | .vidmap screenStart => ∀ k ∈ [0, 1, 2, 3],
      ∀ phys ∈ (videomemMap mem148MB videoMemAddr kernel).tables.physical (screenStart + k),
        OutsideTables directoryAddr kernel phys
  | _ => True

instance (directoryAddr : UInt32) (kernel : Kernel) (op : PagingOp) :
    Decidable (Spares directoryAddr kernel op) :=
  match op with
  | .setup _ => inferInstanceAs (Decidable True)
  | .vidmap screenStart =>
      haveI (k : UInt32) : Decidable (∀ phys ∈
          (videomemMap mem148MB videoMemAddr kernel).tables.physical (screenStart + k),
          OutsideTables directoryAddr kernel phys) :=
        Option.decidableForallMem _
      List.decidableBAll (fun k : UInt32 =>
        ∀ phys ∈ (videomemMap mem148MB videoMemAddr kernel).tables.physical (screenStart + k),
          OutsideTables directoryAddr kernel phys) [0, 1, 2, 3]
  | .unmapVideo => inferInstanceAs (Decidable True)

/-! ## Stores elsewhere leave a table alone -/

theorem wordOfBytes_bytesOfWord (word : UInt32) :
    wordOfBytes word.toUInt8 (word >>> 8).toUInt8 (word >>> 16).toUInt8 (word >>> 24).toUInt8 =
      word := by
  refine UInt32.toNat_inj.mp ?_
  have hlt := word.toNat_lt
  have hbyte : ∀ shift : UInt32, shift < 32 → (word >>> shift).toUInt8.toNat =
      word.toNat / 2 ^ shift.toNat % 256 := by
    intro shift hshift
    rw [UInt32.toNat_toUInt8, UInt32.toNat_shiftRight, Nat.shiftRight_eq_div_pow]
    rw [UInt32.lt_iff_toNat_lt] at hshift
    have h32 : (32 : UInt32).toNat = 32 := rfl
    rw [Nat.mod_eq_of_lt (by omega : shift.toNat < 32)]
  have h0 : word.toUInt8.toNat = word.toNat % 256 := UInt32.toNat_toUInt8 word
  have h8 := hbyte 8 (by decide)
  have h16 := hbyte 16 (by decide)
  have h24 := hbyte 24 (by decide)
  simp only [UInt32.reduceToNat] at h8 h16 h24
  rw [wordOfBytes, UInt32.toNat_ofNat_of_lt'] <;> rw [h0, h8, h16, h24]
  · omega
  · rw [UInt32.size]
    omega

theorem entryByte {i k : UInt32} (hi : i < oneK) (hk : k < 4) :
    4 * i + k < fourK ∧ (4 * i + k) / 4 = i ∧ (4 * i + k) % 4 = k := by
  have hone : oneK.toNat = 1024 := rfl
  have hfour : fourK.toNat = 4096 := rfl
  have h4 : (4 : UInt32).toNat = 4 := rfl
  rw [UInt32.lt_iff_toNat_lt] at hi hk
  have hoffset : (4 * i + k).toNat = 4 * i.toNat + k.toNat := by
    rw [UInt32.toNat_add, UInt32.toNat_mul, h4]
    omega
  refine ⟨?_, UInt32.toNat_inj.mp ?_, UInt32.toNat_inj.mp ?_⟩
  · rw [UInt32.lt_iff_toNat_lt]
    omega
  · rw [UInt32.toNat_div, hoffset, h4]
    omega
  · rw [UInt32.toNat_mod, hoffset, h4]
    omega

theorem patchTable_of_outside {base : UInt32} {stores : Stores} {entries : UInt32 → UInt32}
    (h : ∀ store ∈ stores, ¬ InTable base store.1) : patchTable base stores entries = entries := by
  funext i
  unfold patchTable
  split
  · next hi =>
      have hbyte : ∀ k : UInt32, k < 4 → stores.apply (tableBytes base entries)
          (base + (4 * i + k)) = (bytesOfWord (entries i)).getD k.toNat 0 := by
        intro k hk
        obtain ⟨hlt, hquot, hrem⟩ := entryByte hi hk
        have hoffset : base + (4 * i + k) - base = 4 * i + k := by
          rw [UInt32.add_comm, UInt32.add_sub_cancel]
        have hin : InTable base (base + (4 * i + k)) := by rwa [InTable, hoffset]
        rw [apply_of_forall_ne fun store hstore heq => h store hstore (heq ▸ hin), tableBytes,
          hoffset, hquot, hrem]
      have h0 := hbyte 0 (by decide)
      rw [UInt32.add_zero] at h0
      simp only [h0, hbyte 1 (by decide), hbyte 2 (by decide), hbyte 3 (by decide)]
      exact wordOfBytes_bytesOfWord (entries i)
  · rfl

/-! ## The frame -/

/-- Where the linker puts the two page tables. -/
structure Placed (kernel : Kernel) : Prop where
  tableAligned : PageAligned kernel.pageTableAddr
  videoAligned : PageAligned kernel.videoPageAddr
  distinct : kernel.pageTableAddr ≠ kernel.videoPageAddr

/-- The tables as `paging_init` left them in `start`, but for the entries 32 and 37. -/
structure PageFrame (start kernel : Kernel) : Prop where
  tableAddr : kernel.pageTableAddr = start.pageTableAddr
  videoAddr : kernel.videoPageAddr = start.videoPageAddr
  directory : ∀ i < oneK, i ≠ 32 → i ≠ 37 →
    kernel.pageDirectory i = (pagingInit start).pageDirectory i
  table : ∀ i < oneK, kernel.pageTable i = (pagingInit start).pageTable i
  userPage : kernel.pageDirectory 32 = 0x2 ∨ ∃ addr, kernel.pageDirectory 32 = addr ||| 0x87
  videoPage : kernel.pageDirectory 37 = 0x2 ∨
    kernel.pageDirectory 37 = start.videoPageAddr ||| 0x7 ∧
      kernel.videoPage 0 = videoMemAddr ||| 0x7 ∧ ∀ j < oneK, j ≠ 0 → kernel.videoPage j = 0x2

theorem pageFrame_pagingInit (start : Kernel) : PageFrame start (pagingInit start) where
  tableAddr := rfl
  videoAddr := rfl
  directory _ _ _ _ := rfl
  table _ _ := rfl
  userPage := .inl rfl
  videoPage := .inl rfl

theorem PageFrame.setup {start kernel : Kernel} (h : PageFrame start kernel) (addr : UInt32) :
    PageFrame start (syscallPagingSetup addr kernel) where
  tableAddr := h.tableAddr
  videoAddr := h.videoAddr
  directory i hi h32 h37 := by
    simpa [syscallPagingSetup, virtualMem_div_fourM, h32] using h.directory i hi h32 h37
  table := h.table
  userPage := .inr ⟨addr, by simp [syscallPagingSetup, virtualMem_div_fourM]⟩
  videoPage := by simpa [syscallPagingSetup, virtualMem_div_fourM] using h.videoPage

theorem PageFrame.map {start kernel : Kernel} (h : PageFrame start kernel) :
    PageFrame start (videomemMap mem148MB videoMemAddr kernel) where
  tableAddr := h.tableAddr
  videoAddr := h.videoAddr
  directory i hi h32 h37 := by
    simpa [videomemMap, mem148MB_div_fourM, h37] using h.directory i hi h32 h37
  table := h.table
  userPage := by simpa [videomemMap, mem148MB_div_fourM] using h.userPage
  videoPage := by
    refine .inr ⟨?_, ?_, fun j hj hne => ?_⟩
    · simp [videomemMap, mem148MB_div_fourM, h.videoAddr]
    · simp [videomemMap]
    · simp [videomemMap, hj, hne]

theorem PageFrame.unmap {start kernel : Kernel} (h : PageFrame start kernel) :
    PageFrame start (unmapVideo kernel) := by
  unfold unmapVideo
  split
  · exact {
      tableAddr := h.tableAddr
      videoAddr := h.videoAddr
      directory := fun i hi h32 h37 => by
        simpa [videomemUnmap, mem148MB_div_fourM, h37] using h.directory i hi h32 h37
      table := h.table
      userPage := by simpa [videomemUnmap, mem148MB_div_fourM] using h.userPage
      videoPage := .inl (by simp [videomemUnmap, mem148MB_div_fourM]) }
  · exact h

theorem PageFrame.storeUser {start kernel : Kernel} (h : PageFrame start kernel)
    (stores : Stores) : PageFrame start (kernel.storeUser stores) :=
  ⟨h.tableAddr, h.videoAddr, h.directory, h.table, h.userPage, h.videoPage⟩

/-! ## One operation -/

theorem storeTables_of_outside {kernel : Kernel} {directoryAddr : UInt32} {stores : Stores}
    (h : ∀ store ∈ stores, OutsideTables directoryAddr kernel store.1) :
    kernel.storeTables directoryAddr stores = kernel := by
  unfold Kernel.storeTables
  rw [patchTable_of_outside fun store hstore => (h store hstore).1,
    patchTable_of_outside fun store hstore => (h store hstore).2.1,
    patchTable_of_outside fun store hstore => (h store hstore).2.2]

theorem exists_index_of_mem_vidmapStores {screenStart : UInt32} {store : UInt32 × UInt8}
    (h : store ∈ storesAt screenStart (bytesOfWord mem148MB)) :
    ∃ k ∈ [0, 1, 2, 3], store.1 = screenStart + k := by
  have hstores : storesAt screenStart (bytesOfWord mem148MB) =
      [(screenStart + 0, 0x00), (screenStart + 1, 0x00), (screenStart + 2, 0x40),
        (screenStart + 3, 0x09)] := rfl
  rw [hstores] at h
  simp only [List.mem_cons, List.not_mem_nil, or_false] at h
  rcases h with rfl | rfl | rfl | rfl
  · exact ⟨0, by simp, rfl⟩
  · exact ⟨1, by simp, rfl⟩
  · exact ⟨2, by simp, rfl⟩
  · exact ⟨3, by simp, rfl⟩

theorem syscallVidmap_of_success {screenStart : UInt32} {kernel mapped : Kernel}
    {stores : Stores} (h : syscallVidmap screenStart kernel = (mapped, 0, stores)) :
    stores = storesAt screenStart (bytesOfWord mem148MB) ∧
      mapped = (videomemMap mem148MB videoMemAddr kernel).storeUser stores := by
  unfold syscallVidmap at h
  split at h
  · cases h
  · cases h
    exact ⟨rfl, rfl⟩

theorem perform_vidmap {screenStart directoryAddr : UInt32} {kernel next : Kernel}
    (hspares : Spares directoryAddr kernel (.vidmap screenStart))
    (hperform : PagingOp.perform directoryAddr (.vidmap screenStart) kernel = some next) :
    ∃ stores, next = (videomemMap mem148MB videoMemAddr kernel).storeUser stores := by
  unfold PagingOp.perform at hperform
  obtain ⟨⟨mapped, result, stores⟩, hcall⟩ : ∃ called, syscallVidmap screenStart kernel =
    called := ⟨_, rfl⟩
  simp only [hcall] at hperform
  split at hperform
  · next hsuccess =>
      cases hperform
      rw [hsuccess.1] at hcall
      obtain ⟨hstores, hmapped⟩ := syscallVidmap_of_success hcall
      refine ⟨stores, ?_⟩
      rw [storeTables_of_outside, hmapped]
      -- a stored byte lies behind one of the four addresses at the pointer
      intro store hstore
      obtain ⟨⟨addr, byte⟩, hmem, hphysical⟩ := List.mem_filterMap.mp hstore
      obtain ⟨phys, hwalk, rfl⟩ := Option.map_eq_some_iff.mp hphysical
      obtain ⟨k, hk, haddr⟩ := exists_index_of_mem_vidmapStores (hstores ▸ hmem)
      have hat : (videomemMap mem148MB videoMemAddr kernel).tables.physical
          (screenStart + k) = some phys := by
        rw [← haddr, ← hwalk, hmapped]
        rfl
      have htables : mapped.pageTableAddr = kernel.pageTableAddr ∧
          mapped.videoPageAddr = kernel.videoPageAddr := by
        rw [hmapped]
        exact ⟨rfl, rfl⟩
      rw [OutsideTables, htables.1, htables.2]
      exact hspares k hk phys hat
  · cases hperform

theorem PageFrame.perform {start kernel next : Kernel} {directoryAddr : UInt32} {op : PagingOp}
    (h : PageFrame start kernel) (hspares : Spares directoryAddr kernel op)
    (hperform : op.perform directoryAddr kernel = some next) : PageFrame start next := by
  cases op with
  | setup addr =>
      cases hperform
      exact h.setup addr
  | vidmap screenStart =>
      obtain ⟨stores, rfl⟩ := perform_vidmap hspares hperform
      exact h.map.storeUser stores
  | unmapVideo =>
      cases hperform
      exact h.unmap

/-! ## What user code reaches -/

theorem entryUser_pagingInit {start : Kernel} (hplaced : Placed start) {i : UInt32}
    (hi : i < oneK) : entryUser ((pagingInit start).pageDirectory i) = false := by
  simp only [pagingInit, hi, if_true]
  split
  · rw [entryUser, hasFlag_or, hplaced.tableAligned.hasFlag (by decide)]
    decide
  split <;> decide

theorem toNat_directoryIndex (addr : UInt32) :
    (directoryIndex addr).toNat = addr.toNat / 0x400000 := UInt32.toNat_div addr 0x400000

theorem toNat_tableIndex (addr : UInt32) :
    (tableIndex addr).toNat = addr.toNat / 0x1000 % 1024 := by
  rw [tableIndex, UInt32.toNat_mod, UInt32.toNat_div]
  rfl

theorem PageFrame.physical_eq_none {start kernel : Kernel} (h : PageFrame start kernel)
    {addr : UInt32} (hindex : directoryIndex addr ∉ [0, 1, 32, 37]) :
    kernel.tables.physical addr = none := by
  simp only [List.mem_cons, List.not_mem_nil, or_false, not_or] at hindex
  obtain ⟨h0, h1, h32, h37⟩ := hindex
  have hone : oneK.toNat = 1024 := rfl
  have hlt : directoryIndex addr < oneK := by
    have hrange := addr.toNat_lt
    rw [UInt32.lt_iff_toNat_lt, toNat_directoryIndex]
    omega
  have hentry : kernel.tables.directory (directoryIndex addr) = 0x2 := by
    refine (h.directory _ hlt h32 h37).trans ?_
    simp only [pagingInit, h0, h1, hlt, if_true, if_false]
  have habsent : (!entryPresent 0x2) = true := by decide
  simp only [PageTables.physical, PageTables.walk, hentry, habsent, if_true, Option.map_none]

/-- `get_pcb(-1)` is 8 MB: there is no control block before the first task runs. -/
theorem PageFrame.noTask_unmapped {start kernel : Kernel} (h : PageFrame start kernel)
    {addr : UInt32} (hlow : getPcb noTask ≤ addr) (hhigh : addr < getPcb noTask + eightK) :
    kernel.tables.physical addr = none := by
  have hblock : (getPcb noTask).toNat = 0x800000 := rfl
  have hend : (getPcb noTask + eightK).toNat = 0x802000 := rfl
  have htwo : (2 : UInt32).toNat = 2 := rfl
  rw [UInt32.le_iff_toNat_le, hblock] at hlow
  rw [UInt32.lt_iff_toNat_lt, hend] at hhigh
  have hindex : directoryIndex addr = 2 := by
    refine UInt32.toNat_inj.mp ?_
    rw [toNat_directoryIndex, htwo]
    omega
  exact h.physical_eq_none (by rw [hindex]; decide)

theorem PageFrame.tableIndex_eq_zero {start kernel : Kernel} (h : PageFrame start kernel)
    (hplaced : Placed start) {addr : UInt32} (haddr : kernel.tables.UserAccessible addr)
    (h37 : directoryIndex addr = 37) : tableIndex addr = 0 := by
  have hentry : kernel.tables.directory (directoryIndex addr) = kernel.pageDirectory 37 := by
    rw [h37]
    rfl
  obtain ⟨hpresent, -⟩ := haddr.outer
  rw [hentry] at hpresent
  rcases h.videoPage with hunmapped | ⟨hmapped, -, hothers⟩
  · rw [hunmapped] at hpresent
    exact absurd hpresent (by decide)
  · have hsmall : entryLarge (kernel.tables.directory (directoryIndex addr)) = false := by
      rw [hentry, hmapped, entryLarge, hasFlag_or, hplaced.videoAligned.hasFlag (by decide)]
      decide
    have hinner := haddr.inner hsmall
    have htable : kernel.tables.table start.videoPageAddr = kernel.videoPage := by
      simp only [Kernel.tables, h.tableAddr, h.videoAddr, hplaced.distinct.symm, if_true,
        if_false]
    rw [hentry, hmapped, hplaced.videoAligned.frame (by decide), htable] at hinner
    by_contra hne
    have hindex : tableIndex addr < oneK := by
      have hone : oneK.toNat = 1024 := rfl
      rw [UInt32.lt_iff_toNat_lt, toNat_tableIndex]
      omega
    rw [hothers _ hindex hne] at hinner
    exact absurd hinner (by decide)

theorem PageFrame.accessible {start kernel : Kernel} (h : PageFrame start kernel)
    (hplaced : Placed start) {addr : UInt32} (haddr : kernel.tables.UserAccessible addr) :
    virtualMem ≤ addr ∧ addr < virtualMem + fourM ∨
      mem148MB ≤ addr ∧ addr < mem148MB + fourK := by
  have hvirtual : virtualMem.toNat = 0x8000000 := rfl
  have hvirtualEnd : (virtualMem + fourM).toNat = 0x8400000 := rfl
  have hvideo : mem148MB.toNat = 0x9400000 := rfl
  have hvideoEnd : (mem148MB + fourK).toNat = 0x9401000 := rfl
  have hone : oneK.toNat = 1024 := rfl
  have hlt := addr.toNat_lt
  have hquot := toNat_directoryIndex addr
  simp only [UInt32.lt_iff_toNat_lt, UInt32.le_iff_toNat_le, hvirtual, hvirtualEnd, hvideo,
    hvideoEnd]
  -- entry 32 is a 4 MB page, entry 37 leads to a table; no other entry is the user's
  by_cases h32 : directoryIndex addr = 32
  · left
    have h32' : (32 : UInt32).toNat = 32 := rfl
    rw [h32, h32'] at hquot
    omega
  by_cases h37 : directoryIndex addr = 37
  · right
    have hrem := toNat_tableIndex addr
    rw [h.tableIndex_eq_zero hplaced haddr h37, UInt32.toNat_zero] at hrem
    have h37' : (37 : UInt32).toNat = 37 := rfl
    rw [h37, h37'] at hquot
    omega
  · have hindex : directoryIndex addr < oneK := by
      rw [UInt32.lt_iff_toNat_lt]
      omega
    have hkept : kernel.tables.directory (directoryIndex addr) =
        (pagingInit start).pageDirectory (directoryIndex addr) :=
      h.directory _ hindex h32 h37
    have huser := haddr.outer.2
    rw [hkept, entryUser_pagingInit hplaced hindex] at huser
    cases huser

theorem pageAligned_mul (i : UInt32) : PageAligned (i * fourK) := by
  have hmask : (0xFFF : UInt32).toNat = 2 ^ 12 - 1 := rfl
  have hfour : fourK.toNat = 4096 := rfl
  refine UInt32.toNat_inj.mp ?_
  rw [UInt32.toNat_and, hmask, Nat.and_two_pow_sub_one_eq_mod, UInt32.toNat_mul, hfour,
    UInt32.toNat_zero]
  omega

theorem pageTable_pagingInit (start : Kernel) {i : UInt32} (hi : i < oneK) :
    (entryPresent ((pagingInit start).pageTable i) = true ↔ i = videoMemOffset) ∧
      entryUser ((pagingInit start).pageTable i) = false := by
  have haligned := pageAligned_mul i
  simp only [pagingInit, hi, if_true]
  by_cases hvideo : i = videoMemOffset
  · rw [if_pos hvideo, entryPresent, entryUser, hasFlag_or, hasFlag_or,
      haligned.hasFlag (by decide), haligned.hasFlag (by decide)]
    exact ⟨iff_of_true (by decide) hvideo, by decide⟩
  · rw [if_neg hvideo, entryPresent, entryUser, hasFlag_or, hasFlag_or,
      haligned.hasFlag (by decide), haligned.hasFlag (by decide)]
    exact ⟨iff_of_false (by decide) hvideo, by decide⟩

theorem entryPresent_pagingInit (start : Kernel) {i : UInt32} (hi : i < oneK) :
    entryPresent ((pagingInit start).pageDirectory i) = true ↔ i = 0 ∨ i = 1 := by
  simp only [pagingInit, hi, if_true]
  by_cases hzero : i = 0
  · rw [if_pos hzero, entryPresent, hasFlag_or]
    exact iff_of_true (Bool.or_eq_true_iff.mpr (.inr (by decide))) (.inl hzero)
  by_cases hone : i = 1
  · rw [if_neg hzero, if_pos hone]
    exact iff_of_true (by decide) (.inr hone)
  · rw [if_neg hzero, if_neg hone]
    exact iff_of_false (by decide) (by tauto)

/-! ## Runs -/

def UserPageSet (kernel : Kernel) : Prop :=
  entryPresent kernel.userPage = true ∧ entryUser kernel.userPage = true ∧
    entryLarge kernel.userPage = true

theorem userPageSet_setup (addr : UInt32) (kernel : Kernel) :
    UserPageSet (syscallPagingSetup addr kernel) := by
  unfold UserPageSet
  rw [userPage_syscallPagingSetup, entryPresent, entryUser, entryLarge, hasFlag_or, hasFlag_or,
    hasFlag_or]
  exact ⟨Bool.or_eq_true_iff.mpr (.inr (by decide)), Bool.or_eq_true_iff.mpr (.inr (by decide)),
    Bool.or_eq_true_iff.mpr (.inr (by decide))⟩

theorem userPage_unmapVideo (kernel : Kernel) : (unmapVideo kernel).userPage = kernel.userPage := by
  unfold unmapVideo
  split
  · exact userPage_videomemUnmap kernel
  · rfl

theorem userPageSet_perform {kernel next : Kernel} {directoryAddr : UInt32} {op : PagingOp}
    (hspares : Spares directoryAddr kernel op)
    (hperform : op.perform directoryAddr kernel = some next)
    (hset : UserPageSet kernel ∨ ∃ addr, op = .setup addr) : UserPageSet next := by
  cases op with
  | setup addr =>
      cases hperform
      exact userPageSet_setup addr kernel
  | vidmap screenStart =>
      obtain ⟨stores, rfl⟩ := perform_vidmap hspares hperform
      have hpage : ((videomemMap mem148MB videoMemAddr kernel).storeUser stores).userPage =
          kernel.userPage := userPage_videomemMap videoMemAddr kernel
      rw [UserPageSet, hpage]
      exact hset.resolve_right (by simp)
  | unmapVideo =>
      cases hperform
      rw [UserPageSet, userPage_unmapVideo]
      exact hset.resolve_right (by simp)

theorem pageFrame_run {start kernel final : Kernel} {directoryAddr : UInt32}
    {ops : List PagingOp} (h : PageFrame start kernel)
    (hrun : run (PagingOp.perform directoryAddr) ops kernel = some final)
    (hspares : ∀ taken ∈ stepsAlong (PagingOp.perform directoryAddr) ops kernel,
      Spares directoryAddr taken.1 taken.2) :
    PageFrame start final ∧
      (UserPageSet kernel ∨ (∃ addr, .setup addr ∈ ops) → UserPageSet final) := by
  induction ops generalizing kernel with
  | nil =>
      cases hrun
      exact ⟨h, fun hset => hset.resolve_right (by simp)⟩
  | cons op ops ih =>
      obtain ⟨next, hperform, hrest⟩ := run_cons_eq_some.mp hrun
      rw [stepsAlong_cons hperform, List.forall_mem_cons] at hspares
      obtain ⟨hfinal, hlater⟩ := ih (h.perform hspares.1 hperform) hrest hspares.2
      refine ⟨hfinal, fun hset => hlater ?_⟩
      have hnext := userPageSet_perform hspares.1 hperform
      rcases hset with hset | ⟨addr, haddr⟩
      · exact .inl (hnext (.inl hset))
      · rcases List.mem_cons.mp haddr with rfl | haddr
        · exact .inl (hnext (.inr ⟨addr, rfl⟩))
        · exact .inr ⟨addr, haddr⟩

/--
In a run in which no `vidmap` is given a pointer into the tables: the tables
are those of `paging_init` but for the entries 32 and 37, the user page is one
once it has been set, and user code reaches the user page and one page of video
memory only.
-/
theorem tables_framed_of_spares {start final : Kernel} {directoryAddr : UInt32}
    {ops : List PagingOp} (hplaced : Placed start)
    (hrun : run (PagingOp.perform directoryAddr) ops (pagingInit start) = some final)
    (hspares : ∀ taken ∈ stepsAlong (PagingOp.perform directoryAddr) ops (pagingInit start),
      Spares directoryAddr taken.1 taken.2) :
    PageFrame start final ∧
      (∀ i < oneK, (entryPresent ((pagingInit start).pageDirectory i) = true ↔ i = 0 ∨ i = 1) ∧
        entryUser ((pagingInit start).pageDirectory i) = false) ∧
      (∀ i < oneK, (entryPresent (final.pageTable i) = true ↔ i = videoMemOffset) ∧
        entryUser (final.pageTable i) = false) ∧
      ((∃ addr, .setup addr ∈ ops) → UserPageSet final) ∧
      ∀ addr, final.tables.UserAccessible addr →
        virtualMem ≤ addr ∧ addr < virtualMem + fourM ∨
          mem148MB ≤ addr ∧ addr < mem148MB + fourK := by
  obtain ⟨hframe, hset⟩ := pageFrame_run (pageFrame_pagingInit start) hrun hspares
  refine ⟨hframe, fun i hi => ⟨entryPresent_pagingInit start hi, entryUser_pagingInit hplaced hi⟩,
    fun i hi => ?_, fun hsetup => hset (.inr hsetup), fun addr haddr =>
      hframe.accessible hplaced haddr⟩
  rw [hframe.table i hi]
  exact pageTable_pagingInit start hi

theorem placed_bootKernel (fs : FileSystem) : Placed (bootKernel fs) :=
  ⟨(by decide : (0x404000 : UInt32) &&& 0xFFF = 0), (by decide : (0x405000 : UInt32) &&& 0xFFF = 0),
    (by decide : (0x404000 : UInt32) ≠ 0x405000)⟩

def mapAndUnmap : List PagingOp := [.setup (eightM + fourM), .vidmap 0x08000000, .unmapVideo]

theorem tables_framed_of_spares_mapAndUnmap :
    ∃ final, run (PagingOp.perform 0x403000) mapAndUnmap (pagingInit (bootKernel shellImage)) =
        some final ∧
      PageFrame (bootKernel shellImage) final ∧
      (∀ i < oneK, (entryPresent ((pagingInit (bootKernel shellImage)).pageDirectory i) = true ↔
          i = 0 ∨ i = 1) ∧
        entryUser ((pagingInit (bootKernel shellImage)).pageDirectory i) = false) ∧
      (∀ i < oneK, (entryPresent (final.pageTable i) = true ↔ i = videoMemOffset) ∧
        entryUser (final.pageTable i) = false) ∧
      ((∃ addr, .setup addr ∈ mapAndUnmap) → UserPageSet final) ∧
      ∀ addr, final.tables.UserAccessible addr →
        virtualMem ≤ addr ∧ addr < virtualMem + fourM ∨
          mem148MB ≤ addr ∧ addr < mem148MB + fourK := by
  have hsome : (run (PagingOp.perform 0x403000) mapAndUnmap
      (pagingInit (bootKernel shellImage))).isSome := by decide
  have hspares : (stepsAlong (PagingOp.perform 0x403000) mapAndUnmap
      (pagingInit (bootKernel shellImage))).all (fun taken =>
        decide (Spares 0x403000 taken.1 taken.2)) = true := by decide
  obtain ⟨final, hrun⟩ := Option.isSome_iff_exists.mp hsome
  exact ⟨final, hrun, tables_framed_of_spares (placed_bootKernel shellImage) hrun
    fun taken htaken => of_decide_eq_true (List.all_eq_true.mp hspares taken htaken)⟩

/-- A `vidmap` with a pointer to entry 2 of the page directory returns 0 and overwrites it. -/
theorem not_pageFrame_vidmap_directory :
    ∃ final, run (PagingOp.perform 0x403000) [.vidmap 0x403008]
        (pagingInit (bootKernel shellImage)) = some final ∧
      final.pageDirectory 2 = 0x9400000 ∧ ¬ PageFrame (bootKernel shellImage) final := by
  have hany : (run (PagingOp.perform 0x403000) [.vidmap 0x403008]
      (pagingInit (bootKernel shellImage))).any
        (fun final => final.pageDirectory 2 == 0x9400000) = true := by decide
  obtain ⟨final, hrun, hentry⟩ := (Option.any_eq_true _ _).mp hany
  rw [beq_iff_eq] at hentry
  refine ⟨final, hrun, hentry, fun hframe => ?_⟩
  have hkept := hframe.directory 2 (by decide) (by decide) (by decide)
  rw [hentry] at hkept
  exact absurd hkept (by decide)

end LinuxOS
