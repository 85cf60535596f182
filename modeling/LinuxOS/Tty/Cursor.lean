import LinuxOS.Tty.Switch
import LinuxOS.Tty.WriteCount

/-!
# The cursor and the video page

`putc` stores where the cursor is, and of the first 4 MB only the page of video
memory is mapped.  Output and switches keep the cursor on that page.  Backspace
leads off it when it is pressed at the first cell with a line to erase: the blank
that `putc` stores there faults.
-/

namespace LinuxOS

open Foundation

/-! ## Cells that are mapped -/

/-- Of the addresses below 4 MB those of the video page are mapped, and no others. -/
theorem PageFrame.low_mapped_iff {start kernel : Kernel} (h : PageFrame start kernel)
    (hplaced : Placed start) {addr : UInt32} (hlow : directoryIndex addr = 0) :
    (kernel.tables.physical addr).isSome = true ↔ tableIndex addr = videoMemOffset := by
  have hentry : kernel.tables.directory (directoryIndex addr) = start.pageTableAddr ||| 0x3 := by
    rw [hlow]
    exact h.directory 0 (by decide) (by decide) (by decide)
  have hpresent : entryPresent (start.pageTableAddr ||| 0x3) = true := by
    rw [entryPresent, hasFlag_or]
    exact Bool.or_eq_true_iff.mpr (.inr (by decide))
  have hsmall : entryLarge (start.pageTableAddr ||| 0x3) = false := by
    rw [entryLarge, hasFlag_or, hplaced.tableAligned.hasFlag (by decide)]
    decide
  have htable : kernel.tables.table start.pageTableAddr = kernel.pageTable := by
    simp only [Kernel.tables, h.tableAddr, if_true]
  have hindex : tableIndex addr < oneK := by
    have hone : oneK.toNat = 1024 := rfl
    rw [UInt32.lt_iff_toNat_lt, toNat_tableIndex]
    omega
  rw [← (pageTable_pagingInit start hindex).1, ← h.table _ hindex]
  simp only [PageTables.physical, PageTables.walk, hentry, hpresent, hsmall,
    hplaced.tableAligned.frame (by decide : (0x3 : UInt32) &&& 0xFFFFF000 = 0), htable,
    Bool.not_true, Bool.false_eq_true, if_false, Option.isSome_map]
  cases entryPresent (kernel.pageTable (tableIndex addr)) <;> simp

theorem index_of_low {addr : UInt32} {page : Nat} (hlow : page * 0x1000 ≤ addr.toNat)
    (hhigh : addr.toNat < (page + 1) * 0x1000) (hpage : page < 1024) :
    directoryIndex addr = 0 ∧ (tableIndex addr).toNat = page := by
  refine ⟨UInt32.toNat_inj.mp ?_, ?_⟩
  · rw [toNat_directoryIndex, UInt32.toNat_zero]
    omega
  · rw [toNat_tableIndex]
    omega

theorem PageFrame.video_mapped {start kernel : Kernel} (h : PageFrame start kernel)
    (hplaced : Placed start) {addr : UInt32} (hvideo : addr - video < 4000) :
    (kernel.tables.physical addr).isSome = true := by
  have hstart : video.toNat = 0xB8000 := rfl
  have hlimit : (4000 : UInt32).toNat = 4000 := rfl
  have hrange := addr.toNat_lt
  rw [UInt32.lt_iff_toNat_lt, UInt32.toNat_sub, hstart, hlimit] at hvideo
  obtain ⟨hdirectory, htable⟩ := @index_of_low addr 0xB8 (by omega) (by omega) (by omega)
  exact (h.low_mapped_iff hplaced hdirectory).mpr (UInt32.toNat_inj.mp htable)

/-! ## The cursor -/

/-- The cell of the cursor is on the page; in a row below the first its column may be negative. -/
structure OnPage (x y : Int) : Prop where
  right : x < 80
  bottom : y < 25
  first : 0 ≤ 80 * y + x

theorem OnPage.home : OnPage 0 0 := ⟨by decide, by decide, by decide⟩

def Screen.CursorOnPage (screen : Screen) : Prop := OnPage screen.screenX screen.screenY

namespace Screen.CursorOnPage

variable {screen : Screen}

theorem linear_lt (h : screen.CursorOnPage) : screen.linear < 2000 := by
  have hright := h.right
  have hbottom := h.bottom
  rw [Screen.linear]
  omega

theorem putc (h : screen.CursorOnPage) (c : UInt8) : (LinuxOS.putc c screen).CursorOnPage := by
  obtain ⟨hright, hbottom, hfirst⟩ := h
  have hscroll : ∀ other : Screen, (scrollUp other).CursorOnPage := fun other =>
    ⟨(by decide : (0 : Int) < 80), (by decide : (24 : Int) < 25),
      (by decide : (0 : Int) ≤ 80 * 24 + 0)⟩
  unfold LinuxOS.putc
  split
  · split
    · exact hscroll screen
    · constructor <;> simp only <;> omega
  · split
    · split
      · exact hscroll _
      · constructor <;> simp only <;> omega
    · constructor <;> simp only <;> omega

theorem puts (h : screen.CursorOnPage) (text : List UInt8) :
    (LinuxOS.puts text screen).CursorOnPage := by
  induction text generalizing screen with
  | nil => exact h
  | cons char text ih => exact ih (h.putc char)

theorem printf (h : screen.CursorOnPage) (message : String) :
    (LinuxOS.printf message screen).CursorOnPage := h.puts _

theorem erase (h : screen.CursorOnPage) (hbehind : 0 < screen.linear) :
    (eraseOnScreen screen).CursorOnPage := by
  obtain ⟨hright, hbottom, hfirst⟩ := h
  obtain ⟨hx, hy⟩ := cursor_eraseOnScreen hright
  rw [Screen.linear] at hbehind
  constructor <;> omega

end Screen.CursorOnPage

structure CursorsOnPage (kernel : Kernel) : Prop where
  live : kernel.screen.CursorOnPage
  saved : ∀ id, OnPage (kernel.terminal id).cursorPosX.toInt32.toInt
    (kernel.terminal id).cursorPosY.toInt32.toInt

namespace CursorsOnPage

variable {before after : Kernel}

theorem of_terminal (h : CursorsOnPage before) (hlive : after.screen.CursorOnPage)
    (hterminal : after.terminal = before.terminal) : CursorsOnPage after :=
  ⟨hlive, hterminal ▸ h.saved⟩

theorem congr (h : CursorsOnPage before) (hscreen : after.screen = before.screen)
    (hterminal : after.terminal = before.terminal) : CursorsOnPage after :=
  h.of_terminal (hscreen ▸ h.live) hterminal

theorem modifyDisplayed (h : CursorsOnPage before) {change : Terminal → Terminal}
    (hsaved : OnPage (change before.displayed).cursorPosX.toInt32.toInt
      (change before.displayed).cursorPosY.toInt32.toInt) :
    CursorsOnPage (before.modifyDisplayed change) where
  live := h.live
  saved id := by
    by_cases hshown : id = before.displayTerminalId
    · simpa [Kernel.modifyDisplayed, hshown] using hsaved
    · simpa [Kernel.modifyDisplayed, hshown] using h.saved id

theorem saveScreen (h : CursorsOnPage before) : CursorsOnPage (LinuxOS.saveScreen before) := by
  obtain ⟨hright, hbottom, hfirst⟩ := h.live
  refine h.modifyDisplayed ?_
  rw [toInt_toInt32_ofInt (by omega) (by omega), toInt_toInt32_ofInt (by omega) (by omega)]
  exact h.live

theorem switchDisplay {regs : SwitchRegs} {tid : UInt32} (h : CursorsOnPage before)
    (hswitch : switchDisplayTerminal regs tid before = some after) : CursorsOnPage after := by
  rcases switchDisplayTerminal_exchanges hswitch with ⟨-, rfl⟩ | ⟨-, hscreen, hterminal, -⟩
  · exact h
  · have hkept := h.saveScreen
    exact ⟨hscreen ▸ hkept.saved tid.toInt32, hterminal ▸ hkept.saved⟩

end CursorsOnPage

/-! ## Keys -/

/-- A byte that `putc` stores while the call runs is not mapped. -/
def TerminalOp.faults (op : TerminalOp) (kernel : Kernel) : Bool :=
  !(op.stores kernel).all fun store => (kernel.tables.physical store.1).isSome

def ErasesBeforePage (kernel : Kernel) : Prop :=
  kernel.displayed.keyboardBufferSize ≠ 0 ∧ kernel.screen.linear = 0

instance (kernel : Kernel) : Decidable (ErasesBeforePage kernel) :=
  inferInstanceAs (Decidable (_ ∧ _))

section Faults

variable {start kernel : Kernel} (hplaced : Placed start) (hframe : PageFrame start kernel)
  (hcursors : CursorsOnPage kernel)
include hplaced hframe

theorem not_faults_of_inTextBuffer {op : TerminalOp} (h : InTextBuffer (op.stores kernel)) :
    op.faults kernel = false := by
  rw [TerminalOp.faults, Bool.not_eq_false']
  exact List.all_eq_true.mpr fun store hstore => hframe.video_mapped hplaced (h store hstore)

theorem faults_eraseAtFirst (hlinear : kernel.screen.linear = 0)
    (hsize : kernel.displayed.keyboardBufferSize ≠ 0) :
    TerminalOp.faults .backspace kernel = true := by
  have hcell : cellAddr (backSpace kernel.screen).screenX (backSpace kernel.screen).screenY =
      0xB7FFE := by
    have hposition : 80 * (backSpace kernel.screen).screenY +
        (backSpace kernel.screen).screenX = -1 := by
      simp only [backSpace]
      rw [Screen.linear] at hlinear
      omega
    rw [cellAddr, hposition]
    decide
  have hunmapped : ¬ (kernel.tables.physical 0xB7FFE).isSome = true := by
    rw [hframe.low_mapped_iff hplaced (by decide)]
    decide
  simp [TerminalOp.faults, TerminalOp.stores, hsize, putcStores, hcell, hunmapped]

include hcursors

/-- With the cursor on the page, no call of a key faults but that Backspace. -/
theorem faults_iff {op : TerminalOp} :
    op.faults kernel = true ↔ op = .backspace ∧ ErasesBeforePage kernel := by
  have hhigh := hcursors.live.linear_lt
  have hlow : 0 ≤ kernel.screen.linear := hcursors.live.first
  have hnone : ∀ {op : TerminalOp}, InTextBuffer (op.stores kernel) →
      (op ≠ .backspace ∨ ¬ ErasesBeforePage kernel) →
      (op.faults kernel = true ↔ op = .backspace ∧ ErasesBeforePage kernel) := by
    intro op hstores hother
    refine iff_of_false ?_ fun herases => hother.elim (· herases.1) (· herases.2)
    rw [not_faults_of_inTextBuffer hplaced hframe hstores]
    decide
  cases op with
  | putc c => exact hnone (inTextBuffer_putcStores hlow hhigh c) (.inl (by simp))
  | bufAdd char =>
      refine hnone ?_ (.inl (by simp))
      simp only [TerminalOp.stores]
      split
      · exact inTextBuffer_nil
      · exact inTextBuffer_putcStores hlow hhigh char
  | backspace =>
      by_cases hsize : kernel.displayed.keyboardBufferSize = 0
      · refine hnone ?_ (.inr fun herases => herases.1 hsize)
        rw [TerminalOp.stores, if_pos hsize]
        exact inTextBuffer_nil
      by_cases hlinear : kernel.screen.linear = 0
      · exact iff_of_true (faults_eraseAtFirst hplaced hframe hlinear hsize)
          ⟨rfl, hsize, hlinear⟩
      · refine hnone ?_ (.inr fun herases => hlinear herases.2)
        have hposition : (backSpace kernel.screen).linear = kernel.screen.linear - 1 := by
          simp only [Screen.linear, backSpace]
          omega
        rw [TerminalOp.stores, if_neg hsize]
        exact inTextBuffer_putcStores (by omega) (by omega) 0x20
  | clearScreen => exact hnone inTextBuffer_nil (.inl (by simp))
  | read buf nbytes => exact hnone inTextBuffer_nil (.inl (by simp))
  | switchDisplay regs tid => exact hnone inTextBuffer_nil (.inl (by simp))

end Faults

theorem cursorsOnPage_bootKernel (fs : FileSystem) : CursorsOnPage (bootKernel fs) :=
  ⟨.home, fun _ => .home⟩

end LinuxOS
