import LinuxOS.Foundation.TextGrid
import LinuxOS.Kernel.Copies
import LinuxOS.Kernel.Printf
import LinuxOS.Tty.Screen

/-!
# The screen as a grid of characters

`putc` refines a terminal of 25 rows and 80 columns that knows nothing of
addresses: it writes at the cursor, goes to the next row at the end of a row
and at a newline, and scrolls behind row 24.
-/

namespace LinuxOS

open Foundation

/-! ## Character cells in video memory -/

def textCell (screen : Screen) (i : Nat) : UInt8 :=
  screen.videoMem (video + UInt32.ofNat (2 * i))

theorem toNat_textAddr {i : Nat} (h : i < 2000) :
    (video + UInt32.ofNat (2 * i)).toNat = 0xB8000 + 2 * i := by
  have hvideo : video.toNat = 0xB8000 := rfl
  rw [UInt32.toNat_add, UInt32.toNat_ofNat_of_lt' (by rw [UInt32.size]; omega), hvideo]
  omega

theorem toNat_textAddr_sub {i : Nat} (h : i < 2000) :
    (video + UInt32.ofNat (2 * i) - video).toNat = 2 * i := by
  rw [UInt32.add_comm, UInt32.add_sub_cancel,
    UInt32.toNat_ofNat_of_lt' (by rw [UInt32.size]; omega)]

theorem cellAddr_eq {x y : Int} {i : Nat} (h : 80 * y + x = i) (hi : i < 2000) :
    cellAddr x y = video + UInt32.ofNat (2 * i) := by
  have hword : UInt32.ofInt ((80 * y + x) * 2) = UInt32.ofNat (2 * i) := by
    refine UInt32.toNat_inj.mp ?_
    rw [toNat_ofInt (by omega) (by omega), UInt32.toNat_ofNat_of_lt' (by rw [UInt32.size]; omega)]
    omega
  rw [cellAddr, hword]

def writeCell (c : UInt8) (x y : Int) (screen : Screen) : Screen :=
  { screen with
    videoMem := Function.update (Function.update screen.videoMem (cellAddr x y) c)
      (cellAddr x y + 1) 0x7 }

theorem textCell_writeCell (c : UInt8) {x y : Int} {screen : Screen} {cursor i : Nat}
    (hcursor : 80 * y + x = cursor) (hinside : cursor < 2000) (hi : i < 2000) :
    textCell (writeCell c x y screen) i = if i = cursor then c else textCell screen i := by
  have hcell := toNat_textAddr hi
  have hwritten := toNat_textAddr hinside
  have hbehind : (video + UInt32.ofNat (2 * cursor) + 1).toNat = 0xB8000 + 2 * cursor + 1 := by
    rw [UInt32.toNat_add, hwritten, UInt32.toNat_one]
    omega
  have hattribute : video + UInt32.ofNat (2 * i) ≠ video + UInt32.ofNat (2 * cursor) + 1 := by
    rw [ne_eq, ← UInt32.toNat_inj]
    omega
  have hsame : video + UInt32.ofNat (2 * i) = video + UInt32.ofNat (2 * cursor) ↔ i = cursor := by
    rw [← UInt32.toNat_inj]
    omega
  rw [textCell, writeCell, cellAddr_eq hcursor hinside]
  simp only [Function.update_apply, if_neg hattribute, hsame]
  rfl

theorem textCell_scrollUp {screen : Screen} {i : Nat} (hi : i < 2000) :
    textCell (scrollUp screen) i = if i < 1920 then textCell screen (i + 80) else 0x20 := by
  have hoffset := toNat_textAddr_sub hi
  have hnext : video + UInt32.ofNat (2 * i) + 160 = video + UInt32.ofNat (2 * (i + 80)) := by
    rw [Nat.mul_add, UInt32.ofNat_add, ← UInt32.add_assoc]
    rfl
  have heven : (video + UInt32.ofNat (2 * i) - video) % 2 = 0 := by
    refine UInt32.toNat_inj.mp ?_
    rw [UInt32.toNat_mod, hoffset]
    exact Nat.mul_mod_right 2 i
  have hlimit : (4000 : UInt32).toNat = 4000 := rfl
  have hmoved : (3840 : UInt32).toNat = 3840 := rfl
  simp only [textCell, scrollUp, UInt32.le_iff_toNat_le, UInt32.lt_iff_toNat_lt, hoffset, hlimit,
    hmoved, heven, hnext]
  by_cases hlast : i < 1920
  · rw [if_neg (by omega), if_pos (by omega), if_pos hlast]
  · rw [if_pos ⟨by omega, by omega, trivial⟩, if_neg hlast]

/-! ## `scroll_up` as the source has it -/

def clearRowStores : Stores :=
  (List.range 80).map fun i => (video + UInt32.ofNat ((1920 + i) * 2), 0x20)

def scrollStores (screen : Screen) : Stores :=
  memcpy (fun k => screen.videoMem (video + 160 + UInt32.ofNat k)) video 3840 ++ clearRowStores

theorem apply_map_const (addrs : List UInt32) (byte : UInt8) (memory : UInt32 → UInt8)
    (addr : UInt32) :
    Stores.apply (addrs.map fun written => (written, byte)) memory addr =
      if addr ∈ addrs then byte else memory addr := by
  induction addrs generalizing memory with
  | nil => rfl
  | cons first addrs ih =>
      have hrest := ih (Function.update memory first byte)
      rw [Function.update_apply] at hrest
      refine hrest.trans ?_
      by_cases hmem : addr ∈ addrs
      · rw [if_pos hmem, if_pos (List.mem_cons_of_mem _ hmem)]
      · rw [if_neg hmem]
        exact if_congr (by simp [hmem]) rfl rfl

theorem mem_clearRow_iff (addr : UInt32) :
    addr ∈ (List.range 80).map (fun i => video + UInt32.ofNat ((1920 + i) * 2)) ↔
      3840 ≤ addr - video ∧ addr - video < 4000 ∧ (addr - video) % 2 = 0 := by
  have hlow : (3840 : UInt32).toNat = 3840 := rfl
  have hhigh : (4000 : UInt32).toNat = 4000 := rfl
  have htwo : (2 : UInt32).toNat = 2 := rfl
  rw [List.mem_map, UInt32.le_iff_toNat_le, UInt32.lt_iff_toNat_lt, ← UInt32.toNat_inj,
    UInt32.toNat_mod, hlow, hhigh, htwo, UInt32.toNat_zero]
  constructor
  · rintro ⟨i, hi, rfl⟩
    have hi := List.mem_range.mp hi
    have hoffset := @toNat_textAddr_sub (1920 + i) (by omega)
    rw [Nat.mul_comm] at hoffset
    omega
  · rintro ⟨hlow, hhigh, heven⟩
    refine ⟨(addr - video).toNat / 2 - 1920, List.mem_range.mpr (by omega), ?_⟩
    have hoffset : (1920 + ((addr - video).toNat / 2 - 1920)) * 2 = (addr - video).toNat := by
      omega
    rw [hoffset, UInt32.ofNat_toNat]
    grind

theorem videoMem_scrollUp (screen : Screen) :
    (scrollUp screen).videoMem =
      clearRowStores.apply (memmove video (video + 160) 3840 screen.videoMem) := by
  funext addr
  have hmoved : memmove video (video + 160) 3840 screen.videoMem addr =
      if addr - video < 3840 then screen.videoMem (addr + 160) else screen.videoMem addr := by
    have hread : video + 160 + UInt32.ofNat (addr - video).toNat = addr + 160 := by
      rw [UInt32.ofNat_toNat]
      grind
    rw [memmove_of_le (by decide) (by decide), apply_memcpy, hread]
  have hcleared := apply_map_const
    ((List.range 80).map fun i => video + UInt32.ofNat ((1920 + i) * 2)) 0x20
    (memmove video (video + 160) 3840 screen.videoMem) addr
  rw [List.map_map] at hcleared
  refine Eq.trans ?_ hcleared.symm
  rw [hmoved]
  exact (if_congr (mem_clearRow_iff addr) rfl rfl).symm

theorem apply_scrollStores (screen : Screen) :
    (scrollStores screen).apply screen.videoMem = (scrollUp screen).videoMem := by
  rw [videoMem_scrollUp, memmove_of_le (by decide) (by decide), scrollStores, Stores.apply,
    List.foldl_append]
  rfl

/-! ## `putc` in steps -/

def EndsRow (c : UInt8) : Prop := c = 0x0A ∨ c = 0x0D

instance : DecidablePred EndsRow := fun _ => inferInstanceAs (Decidable (_ ∨ _))

def nextLine (screen : Screen) : Screen :=
  if screen.screenY = 24 then scrollUp screen
  else { screen with screenY := screen.screenY + 1, screenX := 0 }

def advanceCursor (screen : Screen) : Screen :=
  if screen.screenX = 79 then nextLine screen
  else { screen with screenX := screen.screenX + 1 }

theorem putc_eq (c : UInt8) (screen : Screen) :
    putc c screen =
      if EndsRow c then nextLine screen
      else advanceCursor (writeCell c screen.screenX screen.screenY screen) := by
  unfold putc
  by_cases hrow : EndsRow c
  · exact (if_pos hrow).trans (if_pos hrow).symm
  · refine (if_neg hrow).trans (Eq.trans ?_ (if_neg hrow).symm)
    by_cases hcolumn : screen.screenX = 79
    · simp only [hcolumn, if_true, advanceCursor, writeCell, nextLine]
      split <;> rfl
    · simp only [hcolumn, if_false, advanceCursor, writeCell]

/-! ## The reference terminal -/

abbrev TextScreen := TextGrid 25 80 UInt8

def TextScreen.output (text : List UInt8) (grid : TextScreen) : TextScreen :=
  grid.print 0x20 EndsRow text

structure Shows (screen : Screen) (grid : TextScreen) : Prop where
  column : screen.screenX = grid.column.val
  row : screen.screenY = grid.row.val
  cells : ∀ row column, textCell screen (80 * row.val + column.val) = grid.cells row column

theorem Shows.onGrid {screen : Screen} {grid : TextScreen} (h : Shows screen grid) :
    screen.OnGrid := by
  have hrow := grid.row.isLt
  have hcolumn := grid.column.isLt
  have hx := h.column
  have hy := h.row
  constructor <;> omega

def gridOf (screen : Screen) (h : screen.OnGrid) : TextScreen where
  cells row column := textCell screen (80 * row.val + column.val)
  row := ⟨screen.screenY.toNat, by have := h.top; have := h.bottom; omega⟩
  column := ⟨screen.screenX.toNat, by have := h.left; have := h.right; omega⟩

theorem shows_gridOf {screen : Screen} (h : screen.OnGrid) : Shows screen (gridOf screen h) where
  column := (Int.toNat_of_nonneg h.left).symm
  row := (Int.toNat_of_nonneg h.top).symm
  cells _ _ := rfl

theorem Shows.writeCell {screen : Screen} {grid : TextScreen} (h : Shows screen grid)
    (c : UInt8) :
    Shows (LinuxOS.writeCell c screen.screenX screen.screenY screen) (grid.write c) where
  column := h.column
  row := h.row
  cells row column := by
    have hcolumn := grid.column.isLt
    have hcolumn' := column.isLt
    have hrow := grid.row.isLt
    have hrow' := row.isLt
    have hcursor : 80 * screen.screenY + screen.screenX =
        (80 * grid.row.val + grid.column.val : Nat) := by
      rw [h.row, h.column]
      norm_cast
    have hsame : 80 * row.val + column.val = 80 * grid.row.val + grid.column.val ↔
        row = grid.row ∧ column = grid.column := by
      rw [Fin.ext_iff, Fin.ext_iff]
      omega
    rw [textCell_writeCell c hcursor (by omega) (by omega), TextGrid.cells_write, h.cells]
    exact if_congr hsame rfl rfl

theorem Shows.cells_scrollUp {screen : Screen} {grid : TextScreen} (h : Shows screen grid)
    (row : Fin 25) (column : Fin 80) :
    textCell (scrollUp screen) (80 * row.val + column.val) =
      TextGrid.scrolled 0x20 grid.cells row column := by
  have hcolumn := column.isLt
  have hrow := row.isLt
  rw [textCell_scrollUp (by omega), TextGrid.scrolled]
  by_cases hmoved : row.val + 1 < 25
  · have hbelow : 80 * row.val + column.val + 80 = 80 * (row.val + 1) + column.val := by omega
    rw [if_pos (by omega), dif_pos hmoved, hbelow]
    exact h.cells ⟨row.val + 1, hmoved⟩ column
  · rw [if_neg (by omega), dif_neg hmoved]

theorem Shows.nextLine {screen : Screen} {grid : TextScreen} (h : Shows screen grid) :
    Shows (LinuxOS.nextLine screen) (grid.nextRow 0x20) := by
  have hlast := h.row
  have hbound := grid.row.isLt
  unfold LinuxOS.nextLine TextGrid.nextRow
  by_cases hroom : grid.row.val + 1 < 25
  · rw [if_neg (by omega), dif_pos hroom]
    refine ⟨rfl, ?_, h.cells⟩
    simp only [hlast]
    norm_cast
  · rw [if_pos (by omega), dif_neg hroom]
    refine ⟨rfl, ?_, fun row column => ?_⟩
    · change (24 : Int) = grid.row.val
      omega
    · exact h.cells_scrollUp row column

theorem Shows.advanceCursor {screen : Screen} {grid : TextScreen} (h : Shows screen grid) :
    Shows (LinuxOS.advanceCursor screen) (grid.advance 0x20) := by
  have hcolumn := h.column
  have hbound := grid.column.isLt
  unfold LinuxOS.advanceCursor TextGrid.advance
  by_cases hroom : grid.column.val + 1 < 80
  · rw [if_neg (by omega), dif_pos hroom]
    refine ⟨?_, h.row, h.cells⟩
    simp only [hcolumn]
    norm_cast
  · rw [if_pos (by omega), dif_neg hroom]
    exact h.nextLine

theorem Shows.putc {screen : Screen} {grid : TextScreen} (h : Shows screen grid) (c : UInt8) :
    Shows (LinuxOS.putc c screen) (grid.put 0x20 EndsRow c) := by
  rw [putc_eq, TextGrid.put]
  split
  · exact h.nextLine
  · exact (h.writeCell c).advanceCursor

theorem Shows.output {screen : Screen} {grid : TextScreen} (h : Shows screen grid)
    (text : List UInt8) :
    Shows (text.foldl (fun shown char => LinuxOS.putc char shown) screen) (grid.output text) :=
  TextGrid.print_simulates (fun char _ _ hshows => hshows.putc char) text h

/--
Whatever is written, by `puts`, `terminal_write` or `printf`: the screen shows
what the reference terminal shows, and the cursor is on the grid.
-/
theorem output_refines {kernel : Kernel} (hgrid : kernel.screen.OnGrid) :
    (∀ text, Shows (puts text kernel.screen) ((gridOf kernel.screen hgrid).output text) ∧
      (puts text kernel.screen).OnGrid) ∧
    (∀ source nbytes, Shows (terminalWrite source nbytes kernel).1.screen
      ((gridOf kernel.screen hgrid).output ((List.range nbytes.toNat).map source)) ∧
      (terminalWrite source nbytes kernel).1.screen.OnGrid) ∧
    ∀ frame format screen count, printfArgs frame format kernel.screen = some (screen, count) →
      ∃ text, printfLoop frame format.chars none 0 = some text ∧
        Shows screen ((gridOf kernel.screen hgrid).output text) ∧ screen.OnGrid := by
  have hshows := shows_gridOf hgrid
  refine ⟨fun text => ?_, fun source nbytes => ?_, fun frame format screen count hprint => ?_⟩
  · have houtput := hshows.output text
    exact ⟨houtput, houtput.onGrid⟩
  · have houtput := hshows.output ((List.range nbytes.toNat).map source)
    rw [terminalWrite_eq]
    exact ⟨houtput, houtput.onGrid⟩
  · obtain ⟨text, htext, hscreen⟩ := Option.map_eq_some_iff.mp hprint
    cases hscreen
    have houtput := hshows.output text
    exact ⟨text, htext, houtput, houtput.onGrid⟩

/-- The text `a` and a newline, on the screen of the booted kernel. -/
theorem output_refines_boot :
    Shows (puts [0x61, 0x0A] (bootKernel shellImage).screen)
        ((gridOf (bootKernel shellImage).screen (onGrid_bootKernel shellImage)).output
          [0x61, 0x0A]) ∧
      (puts [0x61, 0x0A] (bootKernel shellImage).screen).OnGrid :=
  (output_refines (onGrid_bootKernel shellImage)).1 [0x61, 0x0A]

end LinuxOS
