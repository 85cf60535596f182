import Mathlib.Algebra.Order.Ring.Nat
import Mathlib.Logic.Basic

/-!
# Two-level page tables

The 32-bit translation with pages of 4 KB and of 4 MB: an address selects a
directory entry, which maps 4 MB itself or names a table, and then an entry of
that table.  User code needs permission on both levels.
-/

namespace LinuxOS.Foundation

structure PageTables where
  directory : UInt32 → UInt32
  table : UInt32 → UInt32 → UInt32

def hasFlag (mask entry : UInt32) : Bool := entry &&& mask ≠ 0

def entryPresent (entry : UInt32) : Bool := hasFlag 1 entry
def entryUser (entry : UInt32) : Bool := hasFlag 4 entry
def entryLarge (entry : UInt32) : Bool := hasFlag 0x80 entry

def directoryIndex (addr : UInt32) : UInt32 := addr / 0x400000
def tableIndex (addr : UInt32) : UInt32 := addr / 0x1000 % 1024

/-- The physical address behind an address, and whether user code may use it. -/
def PageTables.walk (tables : PageTables) (addr : UInt32) : Option (UInt32 × Bool) :=
  let outer := tables.directory (directoryIndex addr)
  if !entryPresent outer then none
  else if entryLarge outer then
    some ((outer &&& 0xFFC00000) + addr % 0x400000, entryUser outer)
  else
    let inner := tables.table (outer &&& 0xFFFFF000) (tableIndex addr)
    if !entryPresent inner then none
    else some ((inner &&& 0xFFFFF000) + addr % 0x1000, entryUser outer && entryUser inner)

def PageTables.physical (tables : PageTables) (addr : UInt32) : Option UInt32 :=
  (tables.walk addr).map Prod.fst

def PageTables.UserAccessible (tables : PageTables) (addr : UInt32) : Prop :=
  ∃ phys, tables.walk addr = some (phys, true)

namespace PageTables

variable {tables : PageTables} {addr : UInt32}

theorem UserAccessible.outer (h : tables.UserAccessible addr) :
    entryPresent (tables.directory (directoryIndex addr)) = true ∧
      entryUser (tables.directory (directoryIndex addr)) = true := by
  obtain ⟨phys, hwalk⟩ := h
  unfold walk at hwalk
  simp only at hwalk
  split at hwalk
  · cases hwalk
  · next hpresent =>
      refine ⟨by simpa using hpresent, ?_⟩
      split at hwalk
      · exact congrArg Prod.snd (Option.some.inj hwalk)
      · split at hwalk
        · cases hwalk
        · have hboth := congrArg Prod.snd (Option.some.inj hwalk)
          exact (Bool.and_eq_true_iff.mp hboth).1

theorem UserAccessible.inner (h : tables.UserAccessible addr)
    (hsmall : entryLarge (tables.directory (directoryIndex addr)) = false) :
    entryPresent (tables.table (tables.directory (directoryIndex addr) &&& 0xFFFFF000)
      (tableIndex addr)) = true := by
  obtain ⟨phys, hwalk⟩ := h
  unfold walk at hwalk
  simp only [hsmall] at hwalk
  split at hwalk
  · cases hwalk
  · simp only [Bool.false_eq_true, if_false] at hwalk
    split at hwalk
    · cases hwalk
    · next hpresent => simpa using hpresent

end PageTables

/-! ## Flag bits of a page's address with its flags -/

theorem or_and_distrib (base flags mask : UInt32) :
    (base ||| flags) &&& mask = (base &&& mask) ||| (flags &&& mask) := by
  refine UInt32.toBitVec_inj.mp ?_
  ext i
  simp [Bool.and_or_distrib_right]

theorem hasFlag_or (mask base flags : UInt32) :
    hasFlag mask (base ||| flags) = (hasFlag mask base || hasFlag mask flags) := by
  simp only [hasFlag, or_and_distrib, ne_eq, UInt32.or_eq_zero_iff, Bool.decide_or, not_and_or]

def PageAligned (addr : UInt32) : Prop := addr &&& 0xFFF = 0

theorem PageAligned.hasFlag {addr mask : UInt32} (h : PageAligned addr)
    (hmask : 0xFFF &&& mask = mask) : Foundation.hasFlag mask addr = false := by
  have hzero : addr &&& mask = 0 := by
    rw [← hmask, ← UInt32.and_assoc, show addr &&& 0xFFF = 0 from h, UInt32.zero_and]
  simp [Foundation.hasFlag, hzero]

theorem PageAligned.frame {addr flags : UInt32} (h : PageAligned addr)
    (hflags : flags &&& 0xFFFFF000 = 0) : (addr ||| flags) &&& 0xFFFFF000 = addr := by
  have hall : addr = addr &&& (0xFFF ||| 0xFFFFF000) := by
    rw [show (0xFFF ||| 0xFFFFF000 : UInt32) = -1 by decide, UInt32.and_neg_one]
  rw [or_and_distrib, hflags, UInt32.or_zero]
  conv_rhs => rw [hall, UInt32.and_comm, or_and_distrib, UInt32.and_comm,
    show addr &&& 0xFFF = 0 from h, UInt32.zero_or, UInt32.and_comm]

end LinuxOS.Foundation
