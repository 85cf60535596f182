import LinuxOS.Files.ReadData
import LinuxOS.Memory.PageFrame
import LinuxOS.Tty.LineDiscipline
import Mathlib.Data.List.TakeWhile

/-!
# What calls store through their caller's pointers

`read`, `getargs` and `vidmap` hand their pointer to a copy loop that stores
upwards from it.  A store to an address that is not mapped faults, so that a
loop that starts in the user page ends with it; a loop that starts in the
kernel's page writes there.
-/

namespace LinuxOS

open Foundation

/-! ## The calls -/

inductive PointerCall where
  | read (interrupts fd buf : UInt32) (nbytes : Int32)
  | getargs (buf : UInt32) (nbytes : Int32)
  | vidmap (screenStart : UInt32)

namespace PointerCall

def pointer : PointerCall → UInt32
  | .read _ _ buf _ => buf
  | .getargs buf _ => buf
  | .vidmap screenStart => screenStart

def perform (call : PointerCall) (kernel : Kernel) : Option (Kernel × Int32 × Stores) :=
  match call with
  | .read interrupts fd buf nbytes => syscallRead interrupts fd buf nbytes kernel
  | .getargs buf nbytes => syscallGetargs buf nbytes kernel
  | .vidmap screenStart => some (syscallVidmap screenStart kernel)

/-- The page tables when the call stores: `vidmap` has mapped the video page by then. -/
def tables (call : PointerCall) (kernel : Kernel) : PageTables :=
  match call with
  | .vidmap _ => (videomemMap mem148MB videoMemAddr kernel).tables
  | _ => kernel.tables

/-- The copy loops store byte after byte until they fault, `vidmap` stores one word. -/
def written (call : PointerCall) (kernel : Kernel) (stores : Stores) : Stores :=
  let mapped := fun store : UInt32 × UInt8 =>
    ((call.tables kernel).physical store.1).isSome
  match call with
  | .vidmap _ => if stores.all mapped then stores else []
  | _ => stores.takeWhile mapped

end PointerCall

def InUserPage (addr : UInt32) : Prop := virtualMem ≤ addr ∧ addr < virtualMem + fourM

/-- The call fails and writes nothing, or writes into the user page only. -/
def StaysInside (value : Int32) (written : Stores) : Prop :=
  value = -1 ∧ written = [] ∨ ∀ store ∈ written, InUserPage store.1

def FileIdle (fs : FileSystem) (inode offset buf length : UInt32) : Prop :=
  buf = 0 ∨ inode ≥ fs.inodeCount ∨ offset ≥ fs.inodeLength inode ∨ length = 0 ∨
    2 ^ 32 ≤ offset.toNat + length.toNat ∧ (offset + length) / 4096 < offset / 4096

def DirIdle (fs : FileSystem) (offset buf length : UInt32) : Prop :=
  offset ≥ maxFilecount ∨ buf = 0 ∨ length = 0 ∨ fs.bytesFrom (fs.entryAddr offset) 0 = 0

def DescriptorIdle (fs : FileSystem) (descriptor : FileDescriptor) (buf length : UInt32) : Prop :=
  match descriptor.fopsTable with
  | some .stdinFops => length = 0
  | some .dirFops => DirIdle fs descriptor.filePosition buf length
  | some .fileFops => FileIdle fs descriptor.inode descriptor.filePosition buf length
  | _ => True

def PointerCall.Idle (kernel : Kernel) : PointerCall → Prop
  | .read _ fd buf nbytes =>
      fd > 7 ∨ fd = 1 ∨ (kernel.fdOf fd).flags = 0 ∨
        DescriptorIdle kernel.fs (kernel.fdOf fd) buf nbytes.toUInt32
  | .getargs buf nbytes =>
      buf = 0 ∨ (kernel.pcbOf kernel.running).argumentBuf 0 = 0 ∨
        ∀ length ∈ strlen (kernel.pcbOf kernel.running).argumentBuf, length > nbytes.toUInt32
  | .vidmap screenStart => screenStart = 0 ∨ screenStart = fourM

def PointerCall.Faults (kernel : Kernel) (call : PointerCall) : Prop :=
  match call with
  | .vidmap screenStart =>
      ∃ k ∈ [0, 1, 2, 3], (call.tables kernel).physical (screenStart + k) = none
  | call => (call.tables kernel).physical call.pointer = none

/-! ## Ascending stores -/

def addressesFrom (addr : UInt32) : Nat → List UInt32
  | 0 => []
  | count + 1 => addr :: addressesFrom (addr + 1) count

theorem addressesFrom_eq (addr : UInt32) (count : Nat) :
    addressesFrom addr count = (List.range count).map fun index => addr + UInt32.ofNat index := by
  induction count generalizing addr with
  | zero => rfl
  | succ count ih =>
      rw [addressesFrom, ih, List.range_succ_eq_map, List.map_cons, List.map_map]
      congr 1
      · simp
      · refine List.map_congr_left fun index _ => ?_
        simp [UInt32.ofNat_add, UInt32.add_assoc, UInt32.add_comm]

theorem addresses_memcpy (source : Nat → UInt8) (dest n : UInt32) :
    (memcpy source dest n).map Prod.fst = addressesFrom dest n.toNat := by
  rw [addressesFrom_eq, memcpy, List.map_map]
  rfl

theorem addresses_memset (s : UInt32) (c : UInt8) (n : UInt32) :
    (memset s c n).map Prod.fst = addressesFrom s n.toNat := by
  rw [addressesFrom_eq, memset, List.map_map]
  rfl

theorem addresses_storesAt (buf : UInt32) (bytes : List UInt8) :
    (storesAt buf bytes).map Prod.fst = addressesFrom buf bytes.length := by
  rw [addressesFrom_eq, storesAt, List.map_map, List.range_eq_range',
    ← List.zipIdx_map_snd 0 bytes, List.map_map]
  rfl

theorem userPageEnd_toNat : (virtualMem + fourM).toNat = 0x8400000 := rfl

theorem InUserPage.next {addr : UInt32} (h : InUserPage addr) :
    InUserPage (addr + 1) ∨ addr + 1 = virtualMem + fourM := by
  have hvirtual : virtualMem.toNat = 0x8000000 := rfl
  have hone : (1 : UInt32).toNat = 1 := rfl
  have hend := userPageEnd_toNat
  simp only [InUserPage, UInt32.le_iff_toNat_le, UInt32.lt_iff_toNat_lt] at h ⊢
  have hnext : (addr + 1).toNat = addr.toNat + 1 := by
    rw [UInt32.toNat_add]
    omega
  by_cases hlast : addr.toNat + 1 = 0x8400000
  · exact .inr (UInt32.toNat_inj.mp (by omega))
  · exact .inl (by omega)

theorem inUserPage_of_takeWhile {mapped : UInt32 → Bool} (rest : List UInt32)
    (hend : mapped (virtualMem + fourM) = false)
    (hrest : ∀ addr ∈ rest.takeWhile mapped, InUserPage addr) (count : Nat) {start : UInt32}
    (hstart : InUserPage start ∨ start = virtualMem + fourM) :
    ∀ addr ∈ (addressesFrom start count ++ rest).takeWhile mapped, InUserPage addr := by
  induction count generalizing start with
  | zero => simpa [addressesFrom] using hrest
  | succ count ih =>
      rw [addressesFrom, List.cons_append, List.takeWhile_cons]
      split
      · next hmapped =>
          have hinside : InUserPage start := hstart.resolve_right fun heq => by
            rw [heq, hend] at hmapped
            cases hmapped
          intro addr haddr
          rcases List.mem_cons.mp haddr with rfl | haddr
          · exact hinside
          · exact ih hinside.next addr haddr
      · simp

def Ascends (pointer : UInt32) (stores : Stores) : Prop :=
  ∃ first second, stores.map Prod.fst =
    addressesFrom pointer first ++ addressesFrom pointer second ∧ (first = 0 → second = 0)

theorem Ascends.of_eq {pointer : UInt32} {stores : Stores} (count : Nat)
    (h : stores.map Prod.fst = addressesFrom pointer count) : Ascends pointer stores :=
  ⟨count, 0, by rw [h, addressesFrom, List.append_nil], fun _ => rfl⟩

theorem Ascends.nil (pointer : UInt32) : Ascends pointer [] := .of_eq 0 rfl

theorem addresses_takeWhile (mapped : UInt32 → Bool) (stores : Stores) :
    (stores.takeWhile fun store => mapped store.1).map Prod.fst =
      (stores.map Prod.fst).takeWhile mapped := by
  rw [List.takeWhile_map]
  rfl

theorem Ascends.inUserPage {pointer : UInt32} {stores : Stores} (h : Ascends pointer stores)
    (mapped : UInt32 → Bool) (hend : mapped (virtualMem + fourM) = false)
    (hpointer : InUserPage pointer) :
    ∀ store ∈ stores.takeWhile fun store => mapped store.1, InUserPage store.1 := by
  intro store hstore
  obtain ⟨first, second, haddresses, -⟩ := h
  have hmem := List.mem_map_of_mem (f := Prod.fst) hstore
  rw [addresses_takeWhile, haddresses] at hmem
  refine inUserPage_of_takeWhile _ hend ?_ first (.inl hpointer) store.1 hmem
  have hagain := inUserPage_of_takeWhile [] hend (by simp) second (.inl hpointer)
  rwa [List.append_nil] at hagain

theorem Ascends.mem_takeWhile {pointer : UInt32} {stores : Stores} (h : Ascends pointer stores)
    (mapped : UInt32 → Bool) (hne : stores ≠ []) (hmapped : mapped pointer = true) :
    ∃ store ∈ stores.takeWhile fun store => mapped store.1, store.1 = pointer := by
  obtain ⟨first, second, haddresses, hboth⟩ := h
  cases stores with
  | nil => exact absurd rfl hne
  | cons store rest =>
      have hfirst : store.1 = pointer := by
        cases first with
        | zero => simp [hboth rfl, addressesFrom] at haddresses
        | succ count => simpa [addressesFrom] using (List.cons.inj haddresses).1
      refine ⟨store, ?_, hfirst⟩
      rw [List.takeWhile_cons, hfirst, hmapped, if_pos rfl]
      exact List.mem_cons_self

theorem Ascends.takeWhile_eq_nil {pointer : UInt32} {stores : Stores}
    (h : Ascends pointer stores) (mapped : UInt32 → Bool) (hunmapped : mapped pointer = false) :
    (stores.takeWhile fun store => mapped store.1) = [] := by
  obtain ⟨first, second, haddresses, hboth⟩ := h
  rw [← List.map_eq_nil_iff (f := Prod.fst), addresses_takeWhile, haddresses]
  cases first with
  | zero => simp [hboth rfl, addressesFrom]
  | succ count => simp [addressesFrom, hunmapped]

/-! ## Each call stores upwards from its pointer, or nothing -/

theorem memcpy_eq_nil {source : Nat → UInt8} {dest n : UInt32} :
    memcpy source dest n = [] ↔ n = 0 := by
  rw [memcpy, List.map_eq_nil_iff, List.range_eq_nil, ← UInt32.toNat_inj, UInt32.toNat_zero]

theorem ascends_memcpy (source : Nat → UInt8) (dest n : UInt32) :
    Ascends dest (memcpy source dest n) := .of_eq _ (addresses_memcpy source dest n)

theorem readData_stores_of_lt {fs : FileSystem} {inode offset buf length : UInt32} (hbuf : buf ≠ 0)
    (hinode : inode < fs.inodeCount) (hoffset : offset < fs.inodeLength inode)
    (hfit : offset.toNat + length.toNat < 2 ^ 32) :
    Ascends buf (readData fs inode offset buf length).2 ∧
      ((readData fs inode offset buf length).2 = [] ↔ length = 0) := by
  rw [readData_of_lt hbuf hinode hoffset hfit rfl]
  refine ⟨ascends_memcpy _ buf _, ?_⟩
  have hlt := UInt32.lt_iff_toNat_lt.mp hoffset
  have hend : readEnd (fs.inodeLength inode).toNat offset.toNat length.toNat < 2 ^ 32 := by
    have hrange := (fs.inodeLength inode).toNat_lt
    unfold readEnd
    split <;> omega
  rw [memcpy_eq_nil, ← UInt32.toNat_inj, UInt32.toNat_ofNat_of_lt' (by rw [UInt32.size]; omega),
    ← UInt32.toNat_inj, UInt32.toNat_zero]
  unfold readEnd
  split <;> omega

theorem readData_stores_of_wrap {fs : FileSystem} {inode offset buf length : UInt32}
    (hbuf : buf ≠ 0) (hinode : inode < fs.inodeCount) (hoffset : offset < fs.inodeLength inode)
    (hne : length ≠ 0) (hwrap : 2 ^ 32 ≤ offset.toNat + length.toNat) :
    Ascends buf (readData fs inode offset buf length).2 ∧
      ((readData fs inode offset buf length).2 = [] ↔
        (offset + length) / 4096 < offset / 4096) := by
  obtain ⟨source, n, hread, hn⟩ := readData_of_wrap hbuf hinode hoffset hwrap
  rw [hread, memcpy_eq_nil, hn]
  refine ⟨ascends_memcpy source buf _, ?_⟩
  split
  · next hbefore => exact iff_of_true rfl hbefore
  · next hbefore => exact iff_of_false hne hbefore

theorem readData_stores (fs : FileSystem) (inode offset buf length : UInt32) :
    Ascends buf (readData fs inode offset buf length).2 ∧
      ((readData fs inode offset buf length).2 = [] ↔ FileIdle fs inode offset buf length) := by
  by_cases hbuf : buf = 0
  · simp [readData, hbuf, FileIdle, Ascends.nil]
  by_cases hinode : inode ≥ fs.inodeCount
  · rw [readData_of_invalid hinode]
    exact ⟨.nil buf, iff_of_true rfl (.inr (.inl hinode))⟩
  by_cases hoffset : offset ≥ fs.inodeLength inode
  · rw [readData_of_behind hbuf (UInt32.not_le.mp hinode) hoffset]
    exact ⟨.nil buf, iff_of_true rfl (.inr (.inr (.inl hoffset)))⟩
  have hinodeLt := UInt32.not_le.mp hinode
  have hoffsetLt := UInt32.not_le.mp hoffset
  simp only [FileIdle, hbuf, hinode, hoffset, false_or]
  by_cases hfit : offset.toNat + length.toNat < 2 ^ 32
  · have hnot : ¬ 2 ^ 32 ≤ offset.toNat + length.toNat := by omega
    simp only [hnot, false_and, or_false]
    exact readData_stores_of_lt hbuf hinodeLt hoffsetLt hfit
  · -- a length of 0 does not wrap around
    have hwrap : 2 ^ 32 ≤ offset.toNat + length.toNat := by omega
    have hne : length ≠ 0 := by
      rintro rfl
      exact hfit offset.toNat_lt
    simp only [hne, hwrap, true_and, false_or]
    exact readData_stores_of_wrap hbuf hinodeLt hoffsetLt hne hwrap

theorem directoryRead_stores {fs : FileSystem} {offset buf length : UInt32} {value : Int32}
    {stores : Stores} (h : directoryRead fs offset buf length = some (value, stores)) :
    Ascends buf stores ∧ (stores = [] ↔ DirIdle fs offset buf length) := by
  unfold directoryRead at h
  split at h
  · next hbehind =>
      cases h
      exact ⟨.nil buf, iff_of_true rfl (.inl hbehind)⟩
  split at h
  · next hnull =>
      cases h
      exact ⟨.nil buf, iff_of_true rfl (.inr (.inl hnull))⟩
  next hbehind hnull =>
    obtain ⟨nameLength, hlength, heq⟩ := Option.map_eq_some_iff.mp h
    cases heq
    refine ⟨ascends_memcpy _ buf _, ?_⟩
    have hempty := length_eq_zero_iff_of_strlen hlength
    rw [memcpy_eq_nil]
    simp only [DirIdle, hbehind, hnull, false_or, ← hempty, maxFilename]
    grind

theorem terminalRead_stores {buf nbytes : UInt32} {kernel after : Kernel} {value : Int32}
    {stores : Stores} (h : terminalRead buf nbytes kernel = some (after, value, stores)) :
    Ascends buf stores ∧ (stores = [] ↔ nbytes = 0) := by
  obtain ⟨text, htext⟩ : ∃ text, text =
      untilNul (fun k => kernel.displayed.keyboardBuffer k) nbytes.toNat 0 := ⟨_, rfl⟩
  rw [terminalRead_eq (allow_of_terminalRead h) htext] at h
  cases h
  refine ⟨.of_eq _ (addresses_storesAt buf _), ?_⟩
  rw [storesAt, List.map_eq_nil_iff, List.zipIdx_eq_nil_iff, List.append_eq_nil_iff,
    ← UInt32.toNat_inj, UInt32.toNat_zero]
  constructor
  · rintro ⟨rfl, hnul⟩
    by_contra hpos
    rw [List.length_nil, if_pos (Nat.pos_of_ne_zero hpos)] at hnul
    cases hnul
  · intro hzero
    rw [htext, hzero]
    exact ⟨rfl, rfl⟩

theorem syscallRead_stores {interrupts fd buf : UInt32} {nbytes value : Int32}
    {kernel after : Kernel} {stores : Stores}
    (h : syscallRead interrupts fd buf nbytes kernel = some (after, value, stores)) :
    Ascends buf stores ∧
      (stores = [] ↔ PointerCall.Idle kernel (.read interrupts fd buf nbytes)) := by
  rcases tableRead_of_syscallRead h with
    ⟨hrefused, -, -, rfl⟩ | ⟨⟨hle, hne⟩, hopen, table, htable, hread⟩
  · exact ⟨.nil buf, iff_of_true rfl (hrefused.imp_right (.imp_right .inl))⟩
  have hinside : ¬ fd > 7 := UInt32.not_lt.mpr hle
  simp only [PointerCall.Idle, hinside, hne, hopen, false_or, DescriptorIdle, htable]
  cases hread with
  | screen => exact ⟨.nil buf, iff_of_true rfl trivial⟩
  | terminal hread => exact terminalRead_stores hread
  | clock => exact ⟨.nil buf, iff_of_true rfl trivial⟩
  | directory _ hread => exact directoryRead_stores hread
  | file _ hread =>
      have hstores := readData_stores kernel.fs (kernel.fdOf fd).inode
        (kernel.fdOf fd).filePosition buf nbytes.toUInt32
      rw [hread] at hstores
      exact hstores

theorem syscallGetargs_stores {buf : UInt32} {nbytes value : Int32} {kernel after : Kernel}
    {stores : Stores}
    (h : syscallGetargs buf nbytes kernel = some (after, value, stores)) :
    Ascends buf stores ∧ (stores = [] ↔ PointerCall.Idle kernel (.getargs buf nbytes)) := by
  unfold syscallGetargs at h
  split at h
  · next hnull =>
      cases h
      exact ⟨.nil buf, iff_of_true rfl (.inl hnull)⟩
  next hnull =>
    obtain ⟨length, hlength, heq⟩ := Option.map_eq_some_iff.mp h
    simp only [PointerCall.Idle, hnull, hlength, Option.mem_def, Option.some.injEq, forall_eq',
      false_or]
    split at heq
    · next hlong =>
        cases heq
        exact ⟨.nil buf, iff_of_true rfl (.inr hlong)⟩
    split at heq
    · next hempty =>
        cases heq
        exact ⟨.nil buf, iff_of_true rfl (.inl hempty)⟩
    next hfits hsome =>
      cases heq
      have hne : nbytes.toUInt32 ≠ 0 := by
        intro hzero
        have hpos := (length_eq_zero_iff_of_strlen hlength).not.mpr hsome
        rw [hzero] at hfits
        exact hfits (by grind)
      have hneNat : nbytes.toUInt32.toNat ≠ 0 := fun hzero => hne (UInt32.toNat_inj.mp hzero)
      generalize (if nbytes > argumentSize then argumentSize else nbytes).toUInt32 = copied
      refine ⟨⟨nbytes.toUInt32.toNat, copied.toNat, ?_, fun hzero => absurd hzero hneNat⟩,
        iff_of_false (fun hnil => ?_) (by simp only [hsome, hfits, or_self, not_false_eq_true])⟩
      · rw [List.map_append, addresses_memset, addresses_memcpy]
      · have hmemset := (List.append_eq_nil_iff.mp hnil).1
        rw [memset, List.map_eq_nil_iff, List.range_eq_nil] at hmemset
        exact hneNat hmemset

/-! ## The rule about user pointers -/

theorem PageFrame.userPageEnd {start kernel : Kernel} (h : PageFrame start kernel) :
    kernel.tables.physical (virtualMem + fourM) = none :=
  h.physical_eq_none (by decide)

theorem InUserPage.directoryIndex_eq {addr : UInt32} (h : InUserPage addr) :
    directoryIndex addr = 32 := by
  have hvirtual : virtualMem.toNat = 0x8000000 := rfl
  have hend := userPageEnd_toNat
  have h32 : (32 : UInt32).toNat = 32 := rfl
  rw [InUserPage, UInt32.le_iff_toNat_le, UInt32.lt_iff_toNat_lt, hvirtual, hend] at h
  refine UInt32.toNat_inj.mp ?_
  rw [toNat_directoryIndex, h32]
  omega

theorem UserPageSet.mapped {kernel : Kernel} {addr : UInt32} (h : UserPageSet kernel)
    (haddr : InUserPage addr) : (kernel.tables.physical addr).isSome = true := by
  obtain ⟨hpresent, -, hlarge⟩ := h
  have hentry : kernel.tables.directory 32 = kernel.userPage := rfl
  simp only [PageTables.physical, PageTables.walk, haddr.directoryIndex_eq, hentry, hpresent,
    hlarge, Bool.not_true, Bool.false_eq_true, if_false, if_true, Option.map_some,
    Option.isSome_some]

/-- A loop that copies upwards writes into the user page only when it starts there or not at all. -/
theorem Ascends.writtenInside_iff {tables : PageTables} {pointer : UInt32} {stores : Stores}
    {value : Int32} (h : Ascends pointer stores)
    (hend : tables.physical (virtualMem + fourM) = none) :
    StaysInside value (stores.takeWhile fun store => (tables.physical store.1).isSome) ↔
      stores = [] ∨ tables.physical pointer = none ∨ InUserPage pointer := by
  obtain ⟨mapped, hmappedEq⟩ : ∃ mapped : UInt32 → Bool,
      mapped = fun addr => (tables.physical addr).isSome := ⟨_, rfl⟩
  have hmapped : ∀ addr, mapped addr = false ↔ tables.physical addr = none := by
    simp [hmappedEq]
  have hwritten : (stores.takeWhile fun store => (tables.physical store.1).isSome) =
      stores.takeWhile fun store => mapped store.1 := by rw [hmappedEq]
  rw [hwritten, ← hmapped]
  constructor
  · intro hinside
    by_contra hbad
    simp only [not_or, Bool.not_eq_false] at hbad
    obtain ⟨hne, hstart, houtside⟩ := hbad
    obtain ⟨store, hstore, hpointer⟩ := h.mem_takeWhile mapped hne hstart
    rcases hinside with ⟨-, hnone⟩ | hall
    · rw [hnone] at hstore
      cases hstore
    · exact houtside (hpointer ▸ hall store hstore)
  · rintro (rfl | hunmapped | hpointer)
    · exact .inr (by simp)
    · rw [h.takeWhile_eq_nil mapped hunmapped]
      exact .inr (by simp)
    · exact .inr (h.inUserPage mapped ((hmapped _).mpr hend) hpointer)

theorem vidmap_staysInside_iff {tables : PageTables} (screenStart : UInt32) (value : Int32)
    (hend : tables.physical (virtualMem + fourM) = none) :
    StaysInside value
        (if (storesAt screenStart (bytesOfWord mem148MB)).all fun store =>
            (tables.physical store.1).isSome
          then storesAt screenStart (bytesOfWord mem148MB) else []) ↔
      (∃ k ∈ [0, 1, 2, 3], tables.physical (screenStart + k) = none) ∨ InUserPage screenStart := by
  have hascends : Ascends screenStart (storesAt screenStart (bytesOfWord mem148MB)) :=
    .of_eq _ (addresses_storesAt screenStart _)
  have hall : ((storesAt screenStart (bytesOfWord mem148MB)).all fun store =>
      (tables.physical store.1).isSome) = true ↔
        ¬ ∃ k ∈ [0, 1, 2, 3], tables.physical (screenStart + k) = none := by
    have hstores : storesAt screenStart (bytesOfWord mem148MB) =
        [(screenStart + 0, 0x00), (screenStart + 1, 0x00), (screenStart + 2, 0x40),
          (screenStart + 3, 0x09)] := rfl
    simp [hstores, Option.isSome_iff_ne_none]
  by_cases hfaults : ∃ k ∈ [0, 1, 2, 3], tables.physical (screenStart + k) = none
  · rw [if_neg (hall.not.mpr (not_not.mpr hfaults))]
    exact iff_of_true (.inr (by simp)) (.inl hfaults)
  · have hmapped := hall.mpr hfaults
    have hfirst : tables.physical screenStart ≠ none := by
      intro hnone
      exact hfaults ⟨0, by simp, by rwa [UInt32.add_zero]⟩
    have hsome : storesAt screenStart (bytesOfWord mem148MB) ≠ [] := List.cons_ne_nil _ _
    rw [if_pos hmapped, ← List.takeWhile_eq_self_iff.mpr (List.all_eq_true.mp hmapped),
      hascends.writtenInside_iff hend]
    simp only [hsome, hfirst, hfaults, false_or]

/--
While the tables are those of `paging_init` and the kernel's own paging
operations, a call writes nothing outside its caller's user page exactly when it
has nothing to store, its first store faults, or its pointer is in that page.
-/
theorem staysInside_iff {start kernel after : Kernel} {call : PointerCall} {value : Int32}
    {stores : Stores} (hframe : PageFrame start kernel)
    (hperform : call.perform kernel = some (after, value, stores)) :
    StaysInside value (call.written kernel stores) ↔
      call.Idle kernel ∨ call.Faults kernel ∨ InUserPage call.pointer := by
  cases call with
  | read interrupts fd buf nbytes =>
      obtain ⟨hascends, hidle⟩ := syscallRead_stores hperform
      rw [← hidle]
      exact hascends.writtenInside_iff hframe.userPageEnd
  | getargs buf nbytes =>
      obtain ⟨hascends, hidle⟩ := syscallGetargs_stores hperform
      rw [← hidle]
      exact hascends.writtenInside_iff hframe.userPageEnd
  | vidmap screenStart =>
      have hcall := Option.some.inj hperform
      unfold syscallVidmap at hcall
      split at hcall
      · next hrefused =>
          cases hcall
          exact iff_of_true (.inl ⟨rfl, by simp [PointerCall.written]⟩) (.inl hrefused)
      · next haccepted =>
          cases hcall
          have hiff := vidmap_staysInside_iff screenStart 0 hframe.map.userPageEnd
          have hidle : ¬ PointerCall.Idle kernel (.vidmap screenStart) := haccepted
          simp only [hidle, false_or]
          exact hiff

theorem exists_pageFrame_bootKernel (fs : FileSystem) : ∃ start, PageFrame start (bootKernel fs) :=
  ⟨_, pageFrame_pagingInit _⟩

theorem staysInside_iff_vidmap :
    ∃ after stores, (PointerCall.vidmap 0x8000000).perform (bootKernel shellImage) =
        some (after, 0, stores) ∧
      (StaysInside 0 ((PointerCall.vidmap 0x8000000).written (bootKernel shellImage) stores) ↔
        (PointerCall.vidmap 0x8000000).Idle (bootKernel shellImage) ∨
          (PointerCall.vidmap 0x8000000).Faults (bootKernel shellImage) ∨
          InUserPage (PointerCall.vidmap 0x8000000).pointer) := by
  obtain ⟨start, hframe⟩ := exists_pageFrame_bootKernel shellImage
  exact ⟨_, _, rfl, staysInside_iff hframe rfl⟩

/-- `vidmap` with a pointer into the kernel's page returns 0 and writes there. -/
theorem not_staysInside_vidmap_kernel :
    ∃ after stores, (PointerCall.vidmap 0x400004).perform (bootKernel shellImage) =
        some (after, 0, stores) ∧
      (0x400004, 0) ∈ (PointerCall.vidmap 0x400004).written (bootKernel shellImage) stores ∧
      ¬ StaysInside 0
        ((PointerCall.vidmap 0x400004).written (bootKernel shellImage) stores) := by
  have hwritten : (0x400004, 0) ∈ (PointerCall.vidmap 0x400004).written (bootKernel shellImage)
      (storesAt 0x400004 (bytesOfWord mem148MB)) := by decide
  refine ⟨_, _, rfl, hwritten, ?_⟩
  rintro (⟨hfailed, -⟩ | hall)
  · exact absurd hfailed (by decide)
  · exact absurd (hall _ hwritten).1 (by decide)

end LinuxOS
