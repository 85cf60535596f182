import LinuxOS.Tty.LineDiscipline

/-!
# Editing a line

Backspace clears the cell behind the one it gives up, so that a character stays
in the cell behind the line until a key covers it.  The cells behind that one
are zero; the reader, which stops at a NUL, relies on it.
-/

namespace LinuxOS

open Foundation

/-! ## The keys that edit a line -/

inductive EditKey where
  | press (key : Printable)
  | backspace

def EditKey.perform (kernel : Kernel) : EditKey → Kernel
  | .press key => terminalBufAdd key.char kernel
  | .backspace => terminalBackspace kernel

/-- What a key makes of the line; a line of 126 characters takes no more. -/
def EditKey.edit (line : List UInt8) : EditKey → List UInt8
  | .press key => if line.length < 126 then line ++ [key.char] else line
  | .backspace => line.dropLast

def typeKeys (keys : List EditKey) (kernel : Kernel) : Kernel := keys.foldl EditKey.perform kernel

def editedLine (keys : List EditKey) : List UInt8 := keys.foldl EditKey.edit []

/-! ## Terminals with nothing typed, and with a line being typed -/

structure Blank (terminal : Terminal) : Prop where
  cells : ∀ cell, 0 ≤ cell → cell < 128 → terminal.keyboardBuffer cell = 0
  size : terminal.keyboardBufferSize = 0
  closed : terminal.allowTerminalRead = 0

/-- The line is pending, and the cells behind it are zero except for the first. -/
structure Edits (line : List UInt8) (terminal : Terminal) : Prop where
  nonneg : 0 ≤ terminal.keyboardBufferSize
  pending : terminal.pending = line
  noNul : ∀ char ∈ line, char ≠ 0
  behind : ∀ cell, terminal.keyboardBufferSize < cell → cell < 128 →
    terminal.keyboardBuffer cell = 0

theorem Blank.edits {terminal : Terminal} (h : Blank terminal) : Edits [] terminal where
  nonneg := h.size.ge
  pending := by
    rw [Terminal.pending, h.size]
    rfl
  noNul _ hchar := absurd hchar List.not_mem_nil
  behind cell hcell hlast := by
    rw [h.size] at hcell
    exact h.cells cell hcell.le hlast

theorem Terminal.append_of_ne {terminal : Terminal} {cell : Int}
    (h : cell ≠ terminal.keyboardBufferSize) (char : UInt8) :
    (terminal.append char).keyboardBuffer cell = terminal.keyboardBuffer cell :=
  Function.update_of_ne h _ _

theorem Terminal.erase_of_ne {terminal : Terminal} {cell : Int}
    (h : cell ≠ terminal.keyboardBufferSize) :
    terminal.erase.keyboardBuffer cell = terminal.keyboardBuffer cell :=
  Function.update_of_ne h _ _

section Edits

variable {line : List UInt8} {terminal : Terminal}

theorem Edits.size_eq (h : Edits line terminal) :
    terminal.keyboardBufferSize = line.length := by
  rw [← h.pending, terminal.length_pending, Int.toNat_of_nonneg h.nonneg]

theorem Edits.append (h : Edits line terminal) (char : UInt8) (hchar : char ≠ 0) :
    Edits (line ++ [char]) (terminal.append char) where
  nonneg := Int.le_add_one h.nonneg
  pending := by rw [Terminal.pending_append char h.nonneg, h.pending]
  noNul := by
    intro other hother
    rcases List.mem_append.mp hother with hold | hnew
    · exact h.noNul other hold
    · rw [List.mem_singleton.mp hnew]
      exact hchar
  behind cell hcell hlast := by
    have hpast : terminal.keyboardBufferSize < cell := (Int.lt_succ _).trans hcell
    rw [Terminal.append_of_ne hpast.ne']
    exact h.behind cell hpast hlast

/-- The cell that Backspace clears is the one that is no longer the first behind the line. -/
theorem Edits.erase (h : Edits line terminal) (hsome : 0 < terminal.keyboardBufferSize) :
    Edits line.dropLast terminal.erase where
  nonneg := Int.sub_nonneg_of_le hsome
  pending := by rw [Terminal.pending_erase hsome, h.pending]
  noNul char hchar := h.noNul char (List.mem_of_mem_dropLast hchar)
  behind cell hcell hlast := by
    have hfrom : terminal.keyboardBufferSize ≤ cell := Int.sub_one_lt_iff.mp hcell
    rcases hfrom.eq_or_lt with rfl | hpast
    · exact Function.update_self _ _ _
    · rw [Terminal.erase_of_ne hpast.ne']
      exact h.behind cell hpast hlast

end Edits

theorem Edits.perform {line : List UInt8} {kernel : Kernel} (h : Edits line kernel.displayed)
    (key : EditKey) : Edits (key.edit line) (key.perform kernel).displayed := by
  have hsize := h.size_eq
  have hnonneg := h.nonneg
  cases key with
  | press key =>
      rw [EditKey.perform, EditKey.edit, displayed_terminalBufAdd]
      by_cases hroom : line.length < 126
      · have hspace : kernel.displayed.keyboardBufferSize < 126 := by omega
        rw [if_pos hroom, if_neg (not_le.mpr hspace), if_neg key.noNewline]
        exact h.append key.char key.noNul
      · rw [if_neg hroom, if_pos (by omega)]
        exact h
  | backspace =>
      rw [EditKey.perform, EditKey.edit, displayed_terminalBackspace]
      by_cases hempty : kernel.displayed.keyboardBufferSize = 0
      · have hline : line = [] := List.length_eq_zero_iff.mp (by omega)
        rw [if_pos hempty, hline, List.dropLast_nil, ← hline]
        exact h
      · rw [if_neg hempty]
        exact h.erase (by omega)

theorem Edits.typeKeys {line : List UInt8} {kernel : Kernel} (h : Edits line kernel.displayed)
    (keys : List EditKey) :
    Edits (keys.foldl EditKey.edit line) (LinuxOS.typeKeys keys kernel).displayed := by
  induction keys generalizing line kernel with
  | nil => exact h
  | cons key keys ih => exact ih (h.perform key)

/-! ## Enter and the read -/

def Terminal.complete (terminal : Terminal) : Terminal :=
  { terminal.append 0x0A with allowTerminalRead := 1 }

theorem displayed_enter {kernel : Kernel} (hroom : kernel.displayed.keyboardBufferSize < 126) :
    (terminalBufAdd 0x0A kernel).displayed = kernel.displayed.complete := by
  rw [displayed_terminalBufAdd, if_neg (not_le.mpr hroom), if_pos rfl]
  rfl

theorem untilNul_of_nul {byte : Nat → UInt8} {index : Nat} (h : byte index = 0) (count : Nat) :
    untilNul byte count index = [] := by
  cases count with
  | zero => rfl
  | succ count => rw [untilNul, if_pos h]

/-- The newline covers the stale cell, so the reader's scan ends behind it. -/
theorem Edits.untilNul_complete {line : List UInt8} {terminal : Terminal}
    (h : Edits line terminal) (hroom : terminal.keyboardBufferSize < 126) {count : Nat}
    (hcount : line.length + 1 ≤ count) :
    untilNul (fun k => terminal.complete.keyboardBuffer k) count 0 = line ++ [0x0A] := by
  have hcompleted : Edits (line ++ [0x0A]) (terminal.append 0x0A) :=
    h.append 0x0A (by decide)
  have hsize : (terminal.append 0x0A).keyboardBufferSize.toNat = line.length + 1 := by
    rw [hcompleted.size_eq, List.length_append, List.length_singleton]
    rfl
  have hnul : (terminal.append 0x0A).keyboardBuffer (line.length + 1 : Nat) = 0 := by
    have hline := h.size_eq
    have hne : ((line.length + 1 : Nat) : Int) ≠ terminal.keyboardBufferSize := by omega
    rw [Terminal.append_of_ne hne]
    exact h.behind _ (by omega) (by omega)
  have hend : untilNul (fun k => (terminal.append 0x0A).keyboardBuffer k)
      (count - (line.length + 1)) (line.length + 1) = [] := untilNul_of_nul hnul _
  have hscan := @untilNul_pending (terminal.append 0x0A)
    (by rw [hcompleted.pending]; exact hcompleted.noNul) count
  rw [hsize, hend, List.append_nil, hcompleted.pending,
    List.take_of_length_le (by simpa using hcount)] at hscan
  exact hscan

theorem Edits.blank_drained {line : List UInt8} {terminal : Terminal} (h : Edits line terminal) :
    Blank { terminal.complete with
      keyboardBuffer := drained terminal.complete.keyboardBuffer 0 (line.length + 1)
      keyboardBufferSize := 0
      allowTerminalRead := 0 } where
  cells cell hlow hhigh := by
    have hline := h.size_eq
    by_cases hinside : cell < (0 + (line.length + 1) : Nat)
    · exact if_pos ⟨hlow, hinside⟩
    · have hpast : terminal.keyboardBufferSize < cell := by omega
      change drained (terminal.append 0x0A).keyboardBuffer 0 (line.length + 1) cell = 0
      rw [drained, if_neg fun hin => hinside hin.2, Terminal.append_of_ne hpast.ne']
      exact h.behind cell hpast hhigh
  size := rfl
  closed := rfl

/--
A line that is typed on a blank terminal, edited, completed and read is what
the user sees, and the terminal is blank again.
-/
theorem terminalRead_editedLine {kernel : Kernel} (hblank : Blank kernel.displayed)
    {keys : List EditKey} (hroom : (editedLine keys).length < 126) {buf nbytes : UInt32}
    (hbytes : (editedLine keys).length + 1 ≤ nbytes.toNat) :
    ∃ after,
      terminalRead buf nbytes (terminalBufAdd 0x0A (typeKeys keys kernel)) =
        some (after, Int32.ofNat ((editedLine keys).length + 1),
          storesAt buf (editedLine keys ++ [0x0A] ++
            if (editedLine keys).length + 1 < nbytes.toNat then [0] else [])) ∧
      Blank after.displayed := by
  obtain ⟨typed, htyped⟩ : ∃ typed, typed = typeKeys keys kernel := ⟨_, rfl⟩
  have hedits : Edits (editedLine keys) typed.displayed := htyped ▸ hblank.edits.typeKeys keys
  have hspace : typed.displayed.keyboardBufferSize < 126 := by
    rw [hedits.size_eq]
    exact Int.ofNat_lt.mpr hroom
  have hdisplayed := displayed_enter hspace
  have hallow : (terminalBufAdd 0x0A typed).displayed.allowTerminalRead ≠ 0 := by
    rw [hdisplayed]
    exact one_ne_zero
  have hscan := hedits.untilNul_complete hspace hbytes
  rw [← hdisplayed] at hscan
  have hread := @terminalRead_eq buf nbytes _ _ hallow hscan.symm
  rw [List.length_append, List.length_singleton] at hread
  rw [← htyped]
  refine ⟨_, hread, ?_⟩
  rw [displayed_modifyDisplayed, hdisplayed]
  exact hedits.blank_drained

theorem blank_bootKernel (fs : FileSystem) : Blank (bootKernel fs).displayed where
  cells _ _ _ := rfl
  size := rfl
  closed := rfl

/-- The user types `a`, takes it back, types `b`, and a program reads 128 bytes. -/
theorem terminalRead_editedLine_correction :
    ∃ after,
      terminalRead 0x8000000 128 (terminalBufAdd 0x0A
          (typeKeys [.press keyA, .backspace, .press keyB] (bootKernel shellImage))) =
        some (after, Int32.ofNat 2, storesAt 0x8000000 [0x62, 0x0A, 0]) ∧
      Blank after.displayed :=
  terminalRead_editedLine (blank_bootKernel shellImage) (by decide) (by decide)

/-! ## Enter on a full line -/

structure Completes (before after : Terminal) : Prop where
  readable : after.allowTerminalRead = 1
  text : after.pending = before.pending ++ [0x0A]

structure InRange (terminal : Terminal) : Prop where
  nonneg : 0 ≤ terminal.keyboardBufferSize
  bounded : terminal.keyboardBufferSize ≤ 126
  last : ∀ cell, 126 ≤ cell → cell < 128 → terminal.keyboardBuffer cell = 0

theorem Blank.inRange {terminal : Terminal} (h : Blank terminal) : InRange terminal where
  nonneg := h.size.ge
  bounded := by
    rw [h.size]
    decide
  last cell hlow hhigh := h.cells cell (by omega) hhigh

theorem InRange.append {terminal : Terminal} (h : InRange terminal)
    (hroom : terminal.keyboardBufferSize < 126) (char : UInt8) :
    InRange (terminal.append char) where
  nonneg := Int.le_add_one h.nonneg
  bounded := hroom
  last cell hlow hhigh := by
    rw [Terminal.append_of_ne (hroom.trans_le hlow).ne']
    exact h.last cell hlow hhigh

theorem InRange.erase {terminal : Terminal} (h : InRange terminal)
    (hsome : 0 < terminal.keyboardBufferSize) : InRange terminal.erase where
  nonneg := Int.sub_nonneg_of_le hsome
  bounded := (Int.sub_lt_self _ Int.one_pos).le.trans h.bounded
  last cell hlow hhigh := by
    by_cases hat : cell = terminal.keyboardBufferSize
    · rw [hat]
      exact Function.update_self _ _ _
    · rw [Terminal.erase_of_ne hat]
      exact h.last cell hlow hhigh

theorem InRange.terminalBufAdd {kernel : Kernel} (h : InRange kernel.displayed) (char : UInt8) :
    InRange (LinuxOS.terminalBufAdd char kernel).displayed := by
  rw [displayed_terminalBufAdd]
  split
  · exact h
  next hroom =>
    have happended := h.append (not_le.mp hroom) char
    split
    · exact ⟨happended.nonneg, happended.bounded, happended.last⟩
    · exact happended

theorem InRange.terminalBackspace {kernel : Kernel} (h : InRange kernel.displayed) :
    InRange (LinuxOS.terminalBackspace kernel).displayed := by
  rw [displayed_terminalBackspace]
  split
  · exact h
  next hsome => exact h.erase (lt_of_le_of_ne h.nonneg (Ne.symm hsome))

theorem InRange.terminalRead {buf nbytes : UInt32} {kernel after : Kernel} {result : Int32}
    {stores : Stores} (h : InRange kernel.displayed)
    (hread : LinuxOS.terminalRead buf nbytes kernel = some (after, result, stores)) :
    InRange after.displayed := by
  rw [terminalRead_eq (allow_of_terminalRead hread) rfl] at hread
  cases hread
  rw [displayed_modifyDisplayed]
  refine ⟨Int.le_refl 0, (by decide : (0 : Int) ≤ 126), fun cell hlow hhigh => ?_⟩
  simp only [drained, h.last cell hlow hhigh, ite_self]

theorem InRange.perform {event : LineEvent} {kernel after : Kernel} (h : InRange kernel.displayed)
    (hstep : advance LineEvent.perform event kernel = some after) : InRange after.displayed := by
  obtain ⟨⟨next, answer⟩, hperform, rfl⟩ := Option.map_eq_some_iff.mp hstep
  cases event with
  | press key =>
      cases hperform
      exact h.terminalBufAdd key.char
  | enter =>
      cases hperform
      exact h.terminalBufAdd 0x0A
  | backspace =>
      cases hperform
      exact h.terminalBackspace
  | read buf nbytes =>
      obtain ⟨⟨drained, result, stores⟩, hread, hanswer⟩ := Option.map_eq_some_iff.mp hperform
      cases hanswer
      exact h.terminalRead hread

theorem inRange_of_run {events : List LineEvent} {start final : Kernel}
    (hrun : run (advance LineEvent.perform) events start = some final)
    (hstart : Blank start.displayed) : InRange final.displayed :=
  run_invariant (fun _ _ _ h hstep => InRange.perform h hstep) hrun hstart.inRange

theorem InRange.completes_iff {kernel : Kernel} (h : InRange kernel.displayed) :
    Completes kernel.displayed (LinuxOS.terminalBufAdd 0x0A kernel).displayed ↔
      kernel.displayed.keyboardBufferSize < 126 := by
  constructor
  · intro hcompletes
    by_contra hfull
    have htext := hcompletes.text
    rw [displayed_terminalBufAdd, if_pos (not_lt.mp hfull)] at htext
    have hlength := congrArg List.length htext
    rw [List.length_append, List.length_singleton] at hlength
    omega
  · intro hroom
    rw [displayed_enter hroom]
    exact ⟨rfl, Terminal.pending_append 0x0A h.nonneg⟩

/--
In every state that keys and reads can reach, Enter completes the pending text
exactly when fewer than 126 characters are pending.
-/
theorem completes_enter_iff {events : List LineEvent} {start final : Kernel}
    (hrun : run (advance LineEvent.perform) events start = some final)
    (hstart : Blank start.displayed) :
    Completes final.displayed (terminalBufAdd 0x0A final).displayed ↔
      final.displayed.keyboardBufferSize < 126 :=
  (inRange_of_run hrun hstart).completes_iff

theorem completes_enter_iff_lineThenRead :
    ∃ final, run (advance LineEvent.perform) lineThenRead (bootKernel shellImage) = some final ∧
      (Completes final.displayed (terminalBufAdd 0x0A final).displayed ↔
        final.displayed.keyboardBufferSize < 126) := by
  have hsome : (run (advance LineEvent.perform) lineThenRead (bootKernel shellImage)).isSome := by
    decide
  obtain ⟨final, hrun⟩ := Option.isSome_iff_exists.mp hsome
  exact ⟨final, hrun, completes_enter_iff hrun (blank_bootKernel shellImage)⟩

/-- After 126 characters Enter is dropped, and no reader gets the line. -/
theorem not_completes_fullLine :
    ∃ final,
      run (advance LineEvent.perform) (List.replicate 126 (.press keyA)) (bootKernel shellImage) =
        some final ∧
      (terminalBufAdd 0x0A final).displayed.allowTerminalRead = 0 ∧
      ¬ Completes final.displayed (terminalBufAdd 0x0A final).displayed := by
  have hany : (run (advance LineEvent.perform) (List.replicate 126 (.press keyA))
      (bootKernel shellImage)).any (fun final =>
        (terminalBufAdd 0x0A final).displayed.allowTerminalRead == 0) = true := by
    decide +kernel
  obtain ⟨final, hrun, hallow⟩ := (Option.any_eq_true _ _).mp hany
  have hzero : (terminalBufAdd 0x0A final).displayed.allowTerminalRead = 0 := beq_iff_eq.mp hallow
  refine ⟨final, hrun, hzero, fun hcompletes => ?_⟩
  have hone := hcompletes.readable
  rw [hzero] at hone
  exact absurd hone (by decide)

end LinuxOS
