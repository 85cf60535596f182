import LinuxOS.Files.Lookup
import LinuxOS.Foundation.Refinement

/-!
# Lines from the keyboard to a reader

The keyboard appends to and erases from the buffer that `terminal_read` drains.
A reader gets a prefix of the line that was completed, as long as nobody types
while the line waits and no bytes of an earlier line lie behind it.
-/

namespace LinuxOS

open Foundation

/-! ## The displayed terminal -/

@[simp] theorem displayed_modifyDisplayed (kernel : Kernel) (change : Terminal → Terminal) :
    (kernel.modifyDisplayed change).displayed = change kernel.displayed := by
  simp [Kernel.modifyDisplayed, Kernel.displayed]

@[simp] theorem displayed_modifyScreen (kernel : Kernel) (change : Screen → Screen) :
    (kernel.modifyScreen change).displayed = kernel.displayed := rfl

theorem displayed_terminalBufAdd (char : UInt8) (kernel : Kernel) :
    (terminalBufAdd char kernel).displayed =
      if kernel.displayed.keyboardBufferSize ≥ 126 then kernel.displayed
      else if char = 0x0A then { kernel.displayed.append char with allowTerminalRead := 1 }
      else kernel.displayed.append char := by
  have hlimit : keyboardMaxBuffer - 2 = 126 := rfl
  unfold terminalBufAdd
  rw [hlimit]
  split
  · rfl
  split
  · rw [displayed_modifyDisplayed, displayed_modifyScreen]
  · rw [displayed_modifyDisplayed, displayed_modifyScreen]

def Terminal.erase (terminal : Terminal) : Terminal :=
  { terminal with
    keyboardBuffer := Function.update terminal.keyboardBuffer terminal.keyboardBufferSize 0
    keyboardBufferSize := terminal.keyboardBufferSize - 1 }

theorem displayed_terminalBackspace (kernel : Kernel) :
    (terminalBackspace kernel).displayed =
      if kernel.displayed.keyboardBufferSize = 0 then kernel.displayed
      else kernel.displayed.erase := by
  unfold terminalBackspace
  split
  · rfl
  · rw [displayed_modifyDisplayed, displayed_modifyScreen]
    rfl

/-! ## Pending characters -/

namespace Terminal

def pending (terminal : Terminal) : List UInt8 :=
  (List.range terminal.keyboardBufferSize.toNat).map fun k : Nat => terminal.keyboardBuffer k

theorem length_pending (terminal : Terminal) :
    terminal.pending.length = terminal.keyboardBufferSize.toNat := by
  simp [pending]

theorem pending_append {terminal : Terminal} (char : UInt8)
    (hsize : 0 ≤ terminal.keyboardBufferSize) :
    (terminal.append char).pending = terminal.pending ++ [char] := by
  obtain ⟨size, hsize⟩ := Int.eq_ofNat_of_zero_le hsize
  have hnext : (terminal.append char).keyboardBufferSize.toNat = size + 1 := by
    simp only [append, hsize]
    omega
  rw [pending, pending, hnext, hsize, Int.toNat_natCast, List.range_succ, List.map_append]
  congr 1
  · refine List.map_congr_left fun k hk => ?_
    have hk := List.mem_range.mp hk
    have hne : (k : Int) ≠ size := by omega
    simp [append, hsize, hne]
  · simp [append, hsize]

theorem pending_erase {terminal : Terminal} (hsize : 0 < terminal.keyboardBufferSize) :
    terminal.erase.pending = terminal.pending.dropLast := by
  obtain ⟨size, hsize⟩ : ∃ size : Nat, terminal.keyboardBufferSize = size + 1 :=
    ⟨terminal.keyboardBufferSize.toNat - 1, by omega⟩
  have hnext : terminal.erase.keyboardBufferSize.toNat = size := by
    simp only [erase, hsize]
    omega
  have hnow : terminal.keyboardBufferSize.toNat = size + 1 := by omega
  rw [pending, pending, hnext, hnow, List.range_succ, List.map_append, List.map_singleton,
    List.dropLast_concat]
  refine List.map_congr_left fun k hk => ?_
  have hk := List.mem_range.mp hk
  have hne : (k : Int) ≠ size + 1 := by omega
  simp [erase, hsize, hne]

end Terminal

/-! ## The drain -/

def drained (keyboardBuffer : Int → UInt8) (index length : Nat) (cell : Int) : UInt8 :=
  if index ≤ cell ∧ cell < (index + length : Nat) then 0 else keyboardBuffer cell

theorem drained_zero (keyboardBuffer : Int → UInt8) (index : Nat) :
    drained keyboardBuffer index 0 = keyboardBuffer := by
  funext cell
  rw [drained, if_neg (by omega)]

theorem drained_update (keyboardBuffer : Int → UInt8) (index length : Nat) :
    drained (Function.update keyboardBuffer (index : Int) 0) (index + 1) length =
      drained keyboardBuffer index (length + 1) := by
  funext cell
  rw [drained, drained]
  rcases lt_trichotomy cell index with hlt | rfl | hgt
  · rw [if_neg (by omega), if_neg (by omega), Function.update_of_ne (by omega)]
  · rw [if_neg (by omega), if_pos (by omega), Function.update_self]
  · rw [Function.update_of_ne (by omega)]
    exact if_congr (by omega) rfl rfl

/-- The bytes in front of the first NUL, the NUL when it is reached, and zeros in their place. -/
theorem terminalReadLoop_eq (count index : Nat) (keyboardBuffer : Int → UInt8)
    (buf : List UInt8) (numbytes : Nat) {text : List UInt8}
    (htext : text = untilNul (fun k => keyboardBuffer k) count index) :
    terminalReadLoop count index keyboardBuffer buf numbytes =
      (buf ++ text ++ (if text.length < count then [0] else []), numbytes + text.length,
        drained keyboardBuffer index text.length) := by
  -- the cell that a round clears lies behind the rest of the scan
  induction count generalizing index keyboardBuffer buf numbytes text with
  | zero => simp [htext, terminalReadLoop, untilNul, drained_zero]
  | succ count ih =>
      unfold terminalReadLoop
      by_cases hnul : keyboardBuffer index = 0
      · have hsame : Function.update keyboardBuffer (index : Int) 0 = keyboardBuffer := by
          rw [← hnul, Function.update_eq_self]
        simp [htext, untilNul, hnul, drained_zero, hsame]
      · have hrest : untilNul (fun k => Function.update keyboardBuffer (index : Int) 0 k) count
            (index + 1) = untilNul (fun k => keyboardBuffer k) count (index + 1) := by
          refine untilNul_congr fun k hk _ => ?_
          have hne : (k : Int) ≠ index := by omega
          simp [hne]
        have hnext : ((index + 1 : Nat) : Int) = index + 1 := rfl
        have hloop := ih (index + 1) (Function.update keyboardBuffer index 0)
          (buf ++ [keyboardBuffer index]) (numbytes + 1) rfl
        rw [hrest, drained_update, hnext] at hloop
        rw [untilNul, if_neg hnul] at htext
        simp only [ne_eq, hnul, not_false_eq_true, if_true, hloop, htext, List.length_cons,
          Nat.add_lt_add_iff_right]
        simp [Nat.add_assoc, Nat.add_comm]

theorem terminalRead_eq {buf nbytes : UInt32} {kernel : Kernel} {text : List UInt8}
    (hallow : kernel.displayed.allowTerminalRead ≠ 0)
    (htext : text = untilNul (fun k => kernel.displayed.keyboardBuffer k) nbytes.toNat 0) :
    terminalRead buf nbytes kernel =
      some (kernel.modifyDisplayed fun terminal => { terminal with
          keyboardBuffer := drained kernel.displayed.keyboardBuffer 0 text.length
          keyboardBufferSize := 0
          allowTerminalRead := 0 },
        Int32.ofNat text.length,
        storesAt buf (text ++ if text.length < nbytes.toNat then [0] else [])) := by
  have hloop := terminalReadLoop_eq nbytes.toNat 0 kernel.displayed.keyboardBuffer [] 0 htext
  have hcast : ((0 : Nat) : Int) = 0 := rfl
  rw [hcast, List.nil_append, Nat.zero_add] at hloop
  rw [terminalRead, if_neg hallow, hloop]

theorem allow_of_terminalRead {buf nbytes : UInt32} {kernel : Kernel}
    {outcome : Kernel × Int32 × Stores} (h : terminalRead buf nbytes kernel = some outcome) :
    kernel.displayed.allowTerminalRead ≠ 0 := by
  intro hzero
  rw [terminalRead, if_pos hzero] at h
  cases h

theorem map_snd_storesAt (buf : UInt32) (bytes : List UInt8) :
    (storesAt buf bytes).map Prod.snd = bytes := by
  simp [storesAt, Function.comp_def, List.zipIdx_map_fst]

theorem untilNul_pending {terminal : Terminal} (hchars : ∀ char ∈ terminal.pending, char ≠ 0)
    (count : Nat) :
    untilNul (fun k => terminal.keyboardBuffer k) count 0 =
      terminal.pending.take count ++
        untilNul (fun k => terminal.keyboardBuffer k)
          (count - terminal.keyboardBufferSize.toNat) terminal.keyboardBufferSize.toNat := by
  have hcells : ∀ cell < terminal.keyboardBufferSize.toNat,
      terminal.keyboardBuffer cell ≠ 0 := fun cell hcell =>
    hchars _ (List.mem_map.mpr ⟨cell, List.mem_range.mpr hcell, rfl⟩)
  -- the same from any cell of the pending text on
  have hskip : ∀ count index, index ≤ terminal.keyboardBufferSize.toNat →
      untilNul (fun k => terminal.keyboardBuffer k) count index =
        ((List.range (min count (terminal.keyboardBufferSize.toNat - index))).map
          fun k : Nat => terminal.keyboardBuffer (index + k : Nat)) ++
          untilNul (fun k => terminal.keyboardBuffer k)
            (count - (terminal.keyboardBufferSize.toNat - index))
            terminal.keyboardBufferSize.toNat := by
    intro count
    induction count with
    | zero => intro index _; simp [untilNul]
    | succ count ih =>
        intro index hindex
        by_cases hend : index = terminal.keyboardBufferSize.toNat
        · simp [hend]
        · have hcell := hcells index (by omega)
          have hleft : terminal.keyboardBufferSize.toNat - index =
              terminal.keyboardBufferSize.toNat - (index + 1) + 1 := by omega
          rw [untilNul, if_neg hcell, ih (index + 1) (by omega), hleft, Nat.add_min_add_right,
            List.range_succ_eq_map, List.map_cons, List.map_map, Nat.add_sub_add_right]
          simp only [List.cons_append, Nat.add_zero, Function.comp_def, Nat.succ_eq_add_one,
            Nat.add_assoc, Nat.add_comm 1]
  rw [hskip count 0 (Nat.zero_le _), Terminal.pending, ← List.map_take, List.take_range]
  simp only [Nat.sub_zero, Nat.zero_add]

/-! ## The editor -/

structure Printable where
  char : UInt8
  noNul : char ≠ 0
  noNewline : char ≠ 0x0A

inductive LineEvent where
  | press (key : Printable)
  | enter
  | backspace
  | read (buf nbytes : UInt32)

/-- The line as the user edits it; it is complete from Enter to the next read. -/
structure Editor where
  line : List Printable
  complete : Bool

def Editor.chars (editor : Editor) : List UInt8 := editor.line.map Printable.char

def Editor.text (editor : Editor) : List UInt8 := editor.chars ++ [0x0A]

def Editor.react : LineEvent → Editor → Editor × Option (List UInt8)
  | .press key, editor =>
      (if editor.complete ∨ 126 ≤ editor.line.length then editor
        else { editor with line := editor.line ++ [key] }, none)
  | .enter, editor =>
      (if editor.complete ∨ 126 ≤ editor.line.length then editor
        else { editor with complete := true }, none)
  | .backspace, editor =>
      (if editor.complete then editor else { editor with line := editor.line.dropLast }, none)
  | .read _ _, editor => (⟨[], false⟩, some editor.text)

def returnedBytes (result : Int32) (stores : Stores) : List UInt8 :=
  (stores.map Prod.snd).take result.toInt.toNat

def LineEvent.perform : LineEvent → Kernel → Option (Kernel × Option (List UInt8))
  | .press key, kernel => some (terminalBufAdd key.char kernel, none)
  | .enter, kernel => some (terminalBufAdd 0x0A kernel, none)
  | .backspace, kernel => some (terminalBackspace kernel, none)
  | .read buf nbytes, kernel =>
      (terminalRead buf nbytes kernel).map fun (after, result, stores) =>
        (after, some (returnedBytes result stores))

def Delivers : Option (List UInt8) → Option (List UInt8) → Prop
  | some text, some bytes => bytes <+: text
  | none, none => True
  | _, _ => False

/-! ## The condition -/

/-- A key that is taken while a completed line waits for its reader. -/
def TypesAhead (kernel : Kernel) : LineEvent → Prop
  | .press _ => kernel.displayed.allowTerminalRead ≠ 0 ∧ kernel.displayed.keyboardBufferSize < 126
  | .enter => kernel.displayed.allowTerminalRead ≠ 0 ∧ kernel.displayed.keyboardBufferSize < 126
  | .backspace => kernel.displayed.allowTerminalRead ≠ 0 ∧ kernel.displayed.keyboardBufferSize ≠ 0
  | .read _ _ => False

instance (kernel : Kernel) (event : LineEvent) : Decidable (TypesAhead kernel event) :=
  match event with
  | .press _ => inferInstanceAs (Decidable (_ ∧ _))
  | .enter => inferInstanceAs (Decidable (_ ∧ _))
  | .backspace => inferInstanceAs (Decidable (_ ∧ _))
  | .read _ _ => inferInstanceAs (Decidable False)

/-- A read that goes on behind the line, into what a short read of a longer line has left. -/
def ReadsStale (kernel : Kernel) : LineEvent → Prop
  | .read _ nbytes => kernel.displayed.keyboardBufferSize < nbytes.toNat ∧
      kernel.displayed.keyboardBuffer kernel.displayed.keyboardBufferSize ≠ 0
  | _ => False

/-! ## The terminal holds the edited line -/

structure Holds (editor : Editor) (terminal : Terminal) : Prop where
  nonneg : 0 ≤ terminal.keyboardBufferSize
  bounded : terminal.keyboardBufferSize ≤ 126
  behind : ∀ cell ≥ 126, terminal.keyboardBuffer cell = 0
  pending : terminal.pending = if editor.complete then editor.text else editor.chars
  waiting : terminal.allowTerminalRead ≠ 0 ↔ editor.complete = true

theorem Holds.size_eq {editor : Editor} {terminal : Terminal} (h : Holds editor terminal) :
    terminal.keyboardBufferSize =
      editor.line.length + if editor.complete then 1 else 0 := by
  have hlength := congrArg List.length h.pending
  rw [terminal.length_pending] at hlength
  have hnonneg := h.nonneg
  cases hcomplete : editor.complete <;>
    simp [hcomplete, Editor.text, Editor.chars] at hlength ⊢ <;> omega

theorem Holds.chars_ne_zero {editor : Editor} {terminal : Terminal} (h : Holds editor terminal) :
    ∀ char ∈ terminal.pending, char ≠ 0 := by
  rw [h.pending]
  have hline : ∀ char ∈ editor.chars, char ≠ 0 := by
    intro char hchar
    obtain ⟨key, -, rfl⟩ := List.mem_map.mp hchar
    exact key.noNul
  intro char hchar
  split at hchar
  · rcases List.mem_append.mp hchar with hchar | hchar
    · exact hline char hchar
    · rw [List.mem_singleton.mp hchar]
      decide
  · exact hline char hchar

/-! ## Every step keeps it -/

theorem Holds.behind_append {editor : Editor} {terminal : Terminal} (h : Holds editor terminal)
    (char : UInt8) (hroom : terminal.keyboardBufferSize < 126) :
    ∀ cell ≥ 126, (terminal.append char).keyboardBuffer cell = 0 := by
  intro cell hcell
  have hne : cell ≠ terminal.keyboardBufferSize := by omega
  simpa [Terminal.append, hne] using h.behind cell hcell

theorem Holds.press {editor : Editor} {terminal : Terminal} (h : Holds editor terminal)
    (hopen : editor.complete = false) (key : Printable)
    (hroom : terminal.keyboardBufferSize < 126) :
    Holds { editor with line := editor.line ++ [key] } (terminal.append key.char) where
  nonneg := Int.le_add_one h.nonneg
  bounded := hroom
  behind := h.behind_append key.char hroom
  pending := by
    rw [Terminal.pending_append _ h.nonneg, h.pending]
    simp [hopen, Editor.chars]
  waiting := h.waiting

theorem Holds.enter {editor : Editor} {terminal : Terminal} (h : Holds editor terminal)
    (hopen : editor.complete = false) (hroom : terminal.keyboardBufferSize < 126) :
    Holds { editor with complete := true }
      { terminal.append 0x0A with allowTerminalRead := 1 } where
  nonneg := Int.le_add_one h.nonneg
  bounded := hroom
  behind := h.behind_append 0x0A hroom
  pending := by
    change (terminal.append 0x0A).pending = _
    rw [Terminal.pending_append _ h.nonneg, h.pending]
    simp [hopen, Editor.text, Editor.chars]
  waiting := by simp

theorem Holds.erase {editor : Editor} {terminal : Terminal} (h : Holds editor terminal)
    (hopen : editor.complete = false) (hsize : 0 < terminal.keyboardBufferSize) :
    Holds { editor with line := editor.line.dropLast } terminal.erase where
  nonneg := Int.sub_nonneg_of_le hsize
  bounded := by
    have hbounded := h.bounded
    simp only [Terminal.erase]
    omega
  behind cell hcell := by
    by_cases hat : cell = terminal.keyboardBufferSize
    · simp [Terminal.erase, hat]
    · simpa [Terminal.erase, hat] using h.behind cell hcell
  pending := by
    rw [Terminal.pending_erase hsize, h.pending]
    simp [hopen, Editor.chars]
  waiting := h.waiting

theorem Holds.drain {editor : Editor} {terminal : Terminal} (h : Holds editor terminal)
    {cleared : Int → UInt8}
    (hcleared : ∀ cell, terminal.keyboardBuffer cell = 0 → cleared cell = 0) :
    Holds ⟨[], false⟩ { terminal with
      keyboardBuffer := cleared
      keyboardBufferSize := 0
      allowTerminalRead := 0 } where
  nonneg := Int.le_refl 0
  bounded := (by decide : (0 : Int) ≤ 126)
  behind cell hcell := hcleared cell (h.behind cell hcell)
  pending := rfl
  waiting := by simp

/-- Cell 126 ends every scan. -/
theorem Holds.length_untilNul {editor : Editor} {terminal : Terminal} (h : Holds editor terminal)
    (count : Nat) :
    (untilNul (fun k => terminal.keyboardBuffer k) count 0).length ≤ 126 := by
  have hnul : terminal.keyboardBuffer (126 : Nat) = 0 := h.behind 126 (Int.le_refl _)
  by_contra hlong
  rw [not_le] at hlong
  have hmem : terminal.keyboardBuffer (126 : Nat) ∈
      untilNul (fun k => terminal.keyboardBuffer k) count 0 := by
    rw [untilNul_eq_map]
    refine List.mem_map.mpr ⟨126, List.mem_range.mpr hlong, ?_⟩
    simp
  exact ne_zero_of_mem_untilNul hmem hnul

/-- What lies in front of the NUL is a prefix of the line unless the scan passes the line's end. -/
theorem Holds.untilNul_prefix_iff {editor : Editor} {terminal : Terminal}
    (h : Holds editor terminal) (count : Nat) :
    untilNul (fun k => terminal.keyboardBuffer k) count 0 <+: terminal.pending ↔
      ¬ (terminal.keyboardBufferSize < count ∧
        terminal.keyboardBuffer terminal.keyboardBufferSize ≠ 0) := by
  have hnonneg := h.nonneg
  have hsize : (terminal.keyboardBufferSize.toNat : Int) = terminal.keyboardBufferSize :=
    Int.toNat_of_nonneg hnonneg
  rw [untilNul_pending h.chars_ne_zero]
  by_cases hcount : count ≤ terminal.keyboardBufferSize.toNat
  · rw [Nat.sub_eq_zero_of_le hcount, untilNul, List.append_nil]
    exact iff_of_true (List.take_prefix _ _) fun hstale => by omega
  · obtain ⟨extra, hextra⟩ : ∃ extra, count - terminal.keyboardBufferSize.toNat = extra + 1 :=
      ⟨count - terminal.keyboardBufferSize.toNat - 1, by omega⟩
    have hpast : terminal.keyboardBufferSize < count := by omega
    rw [hextra, List.take_of_length_le (by rw [terminal.length_pending]; omega), untilNul, hsize]
    by_cases hnul : terminal.keyboardBuffer terminal.keyboardBufferSize = 0
    · simp [hnul]
    · rw [if_neg hnul]
      refine iff_of_false (fun hbegins => ?_) (not_not.mpr ⟨hpast, hnul⟩)
      have hlength := hbegins.length_le
      simp at hlength

theorem returnedBytes_storesAt {buf : UInt32} {bytes nul : List UInt8}
    (hlength : bytes.length < 2 ^ 31) :
    returnedBytes (Int32.ofNat bytes.length) (storesAt buf (bytes ++ nul)) = bytes := by
  have hcount : (Int32.ofNat bytes.length).toInt = bytes.length :=
    Int32.toInt_ofNat_of_lt hlength
  rw [returnedBytes, map_snd_storesAt, hcount, Int.toNat_natCast, List.take_left]

theorem Holds.read {editor : Editor} {kernel next : Kernel} {buf nbytes : UInt32}
    {result : Int32} {stores : Stores} (h : Holds editor kernel.displayed)
    (hread : terminalRead buf nbytes kernel = some (next, result, stores)) :
    editor.complete = true ∧ Holds ⟨[], false⟩ next.displayed ∧
      returnedBytes result stores =
        untilNul (fun k => kernel.displayed.keyboardBuffer k) nbytes.toNat 0 := by
  have hallow := allow_of_terminalRead hread
  obtain ⟨text, htext⟩ : ∃ text, text =
      untilNul (fun k => kernel.displayed.keyboardBuffer k) nbytes.toNat 0 := ⟨_, rfl⟩
  have hlength := h.length_untilNul nbytes.toNat
  rw [← htext] at hlength ⊢
  rw [terminalRead_eq hallow htext] at hread
  cases hread
  refine ⟨h.waiting.mp hallow, ?_, returnedBytes_storesAt (by omega)⟩
  rw [displayed_modifyDisplayed]
  refine h.drain fun cell hcell => ?_
  rw [drained, hcell, ite_self]

theorem Holds.length_lt_iff {editor : Editor} {terminal : Terminal} (h : Holds editor terminal)
    (hopen : editor.complete = false) :
    126 ≤ editor.line.length ↔ terminal.keyboardBufferSize ≥ 126 := by
  have hsize := h.size_eq
  simp only [hopen, Bool.false_eq_true, if_false, Int.add_zero] at hsize
  omega

theorem Holds.terminalBufAdd {char : UInt8} {editor stored : Editor} {kernel : Kernel}
    (h : Holds editor kernel.displayed)
    (hahead : ¬ (kernel.displayed.allowTerminalRead ≠ 0 ∧
      kernel.displayed.keyboardBufferSize < 126))
    (hstored : editor.complete = false → kernel.displayed.keyboardBufferSize < 126 →
      Holds stored (if char = 0x0A then
        { kernel.displayed.append char with allowTerminalRead := 1 }
      else kernel.displayed.append char)) :
    Holds (if editor.complete ∨ 126 ≤ editor.line.length then editor else stored)
      (LinuxOS.terminalBufAdd char kernel).displayed := by
  rw [displayed_terminalBufAdd]
  cases hcomplete : editor.complete with
  | true =>
      have hfull : kernel.displayed.keyboardBufferSize ≥ 126 := by
        by_contra hroom
        exact hahead ⟨h.waiting.mpr hcomplete, not_le.mp hroom⟩
      rw [if_pos (.inl rfl), if_pos hfull]
      exact h
  | false =>
      by_cases hfull : kernel.displayed.keyboardBufferSize ≥ 126
      · rw [if_pos (.inr ((h.length_lt_iff hcomplete).mpr hfull)), if_pos hfull]
        exact h
      · rw [if_neg (by simp [h.length_lt_iff hcomplete, hfull]), if_neg hfull]
        exact hstored hcomplete (not_le.mp hfull)

theorem Holds.terminalBackspace {editor : Editor} {kernel : Kernel}
    (h : Holds editor kernel.displayed)
    (hahead : ¬ (kernel.displayed.allowTerminalRead ≠ 0 ∧
      kernel.displayed.keyboardBufferSize ≠ 0)) :
    Holds (if editor.complete then editor else { editor with line := editor.line.dropLast })
      (LinuxOS.terminalBackspace kernel).displayed := by
  have hnonneg := h.nonneg
  have hsize := h.size_eq
  rw [displayed_terminalBackspace]
  by_cases hcomplete : editor.complete = true
  · have hempty : kernel.displayed.keyboardBufferSize = 0 := by
      by_contra hsome
      exact hahead ⟨h.waiting.mpr hcomplete, hsome⟩
    rw [if_pos hempty, if_pos hcomplete]
    exact h
  · have hopen : editor.complete = false := Bool.eq_false_iff.mpr hcomplete
    rw [if_neg hcomplete]
    by_cases hempty : kernel.displayed.keyboardBufferSize = 0
    · have hline : editor.line = [] := by
        rw [hopen, hempty] at hsize
        exact List.length_eq_zero_iff.mp (by simpa using hsize.symm)
      have hsame : editor = { editor with line := editor.line.dropLast } := by
        rw [hline, List.dropLast_nil, ← hline]
      rw [if_pos hempty, ← hsame]
      exact h
    · rw [if_neg hempty]
      exact h.erase hopen (by omega)

/-- One step keeps the line, and a read is right exactly when it stays on the line. -/
theorem holds_perform {event : LineEvent} {editor : Editor} {kernel next : Kernel}
    {answer : Option (List UInt8)} (h : Holds editor kernel.displayed)
    (hahead : ¬ TypesAhead kernel event)
    (hperform : event.perform kernel = some (next, answer)) :
    Holds (editor.react event).1 next.displayed ∧
      (Delivers (editor.react event).2 answer ↔ ¬ ReadsStale kernel event) := by
  cases event with
  | press key =>
      cases hperform
      refine ⟨h.terminalBufAdd hahead fun hopen hroom => ?_, by simp [Editor.react, Delivers,
        ReadsStale]⟩
      rw [if_neg key.noNewline]
      exact h.press hopen key hroom
  | enter =>
      cases hperform
      refine ⟨h.terminalBufAdd hahead fun hopen hroom => ?_, by simp [Editor.react, Delivers,
        ReadsStale]⟩
      rw [if_pos rfl]
      exact h.enter hopen hroom
  | backspace =>
      cases hperform
      exact ⟨h.terminalBackspace hahead, by simp [Editor.react, Delivers, ReadsStale]⟩
  | read buf nbytes =>
      obtain ⟨⟨after, result, stores⟩, hread, hanswer⟩ := Option.map_eq_some_iff.mp hperform
      cases hanswer
      obtain ⟨hcomplete, hnext, hbytes⟩ := h.read hread
      refine ⟨hnext, ?_⟩
      have hpending : kernel.displayed.pending = editor.text := by rw [h.pending, if_pos hcomplete]
      have hbegins := h.untilNul_prefix_iff nbytes.toNat
      rw [hpending, ← hbytes] at hbegins
      exact hbegins

/-! ## Runs -/

theorem Editor.newline_notMem_chars (editor : Editor) : 0x0A ∉ editor.chars := by
  intro hnewline
  obtain ⟨key, -, hkey⟩ := List.mem_map.mp hnewline
  exact key.noNewline hkey

theorem Editor.eq_text_of_newline {editor : Editor} {bytes : List UInt8}
    (hbegins : bytes <+: editor.text) (hnewline : 0x0A ∈ bytes) : bytes = editor.text := by
  rcases List.prefix_concat_iff.mp hbegins with hall | hchars
  · exact hall
  · exact absurd (hchars.subset hnewline) editor.newline_notMem_chars

theorem Editor.newline_notMem_dropLast {editor : Editor} {bytes : List UInt8}
    (hbegins : bytes <+: editor.text) : 0x0A ∉ bytes.dropLast := by
  intro hnewline
  rw [Editor.eq_text_of_newline hbegins (List.mem_of_mem_dropLast hnewline), Editor.text,
    List.dropLast_concat] at hnewline
  exact editor.newline_notMem_chars hnewline

theorem holds_bootKernel (fs : FileSystem) : Holds ⟨[], false⟩ (bootKernel fs).displayed where
  nonneg := Int.le_refl 0
  bounded := (by decide : (0 : Int) ≤ 126)
  behind _ _ := rfl
  pending := rfl
  waiting := by simp [Kernel.displayed, bootKernel, pagingInit, emptyTerminal]

/--
In a run without type-ahead, every read returns a prefix of the line that was
completed before it exactly when no read goes on into the rest of an earlier line.
-/
theorem reads_deliver_iff {events : List LineEvent} {editor : Editor} {kernel final : Kernel}
    {outputs : List (Option (List UInt8))}
    (hrun : answers LineEvent.perform events kernel = some (final, outputs))
    (hstart : Holds editor kernel.displayed)
    (hahead : ∀ taken ∈ stepsAlong (advance LineEvent.perform) events kernel,
      ¬ TypesAhead taken.1 taken.2) :
    List.Forall₂ Delivers (replies Editor.react events editor).2 outputs ↔
      ∀ taken ∈ stepsAlong (advance LineEvent.perform) events kernel,
        ¬ ReadsStale taken.1 taken.2 := by
  have hsimulates : ∀ (event : LineEvent) (machine : Editor) (source next : Kernel)
      (answer : Option (List UInt8)), Holds machine source.displayed →
      ¬ TypesAhead source event → event.perform source = some (next, answer) →
      Holds (machine.react event).1 next.displayed ∧
        (Delivers (machine.react event).2 answer ↔ ¬ ReadsStale source event) :=
    fun _ _ _ _ _ hholds hallowed hperform => holds_perform hholds hallowed hperform
  exact answers_matching_iff (fun source event => ¬ TypesAhead source event)
    (fun source event => ¬ ReadsStale source event) hsimulates hrun hahead hstart

def keyA : Printable := ⟨0x61, by decide, by decide⟩
def keyB : Printable := ⟨0x62, by decide, by decide⟩

def lineThenRead : List LineEvent := [.press keyA, .enter, .read 0x8000000 128]

theorem isSome_answers_lineThenRead :
    (answers LineEvent.perform lineThenRead (bootKernel shellImage)).isSome := by
  decide

theorem reads_deliver_iff_lineThenRead :
    ∃ final outputs,
      answers LineEvent.perform lineThenRead (bootKernel shellImage) = some (final, outputs) ∧
      (List.Forall₂ Delivers (replies Editor.react lineThenRead ⟨[], false⟩).2 outputs ↔
        ∀ taken ∈ stepsAlong (advance LineEvent.perform) lineThenRead (bootKernel shellImage),
          ¬ ReadsStale taken.1 taken.2) := by
  obtain ⟨⟨final, outputs⟩, hrun⟩ := Option.isSome_iff_exists.mp isSome_answers_lineThenRead
  exact ⟨final, outputs, hrun,
    reads_deliver_iff hrun (holds_bootKernel shellImage) (by decide)⟩

/--
Type-ahead joins the lines `a` and `b`, and a read of one byte of `aab` leaves
its `b` behind the line `b` that is typed next: no line begins with what the
last read returns.
-/
theorem not_delivers_joined :
    ((answers LineEvent.perform [.press keyA, .enter, .press keyB, .enter, .read 0x8000000 128]
        (bootKernel shellImage)).map fun served => served.2.getLast?) =
      some (some (some [0x61, 0x0A, 0x62, 0x0A])) ∧
    ((answers LineEvent.perform [.press keyA, .press keyA, .press keyB, .enter,
        .read 0x8000000 1, .press keyB, .enter, .read 0x8000000 128]
        (bootKernel shellImage)).map fun served => served.2.getLast?) =
      some (some (some [0x62, 0x0A, 0x62, 0x0A])) ∧
    ∀ editor : Editor, ¬ [0x61, 0x0A, 0x62, 0x0A] <+: editor.text ∧
      ¬ [0x62, 0x0A, 0x62, 0x0A] <+: editor.text := by
  refine ⟨by decide +kernel, by decide +kernel, fun editor => ⟨fun hbegins => ?_,
    fun hbegins => ?_⟩⟩
  · exact Editor.newline_notMem_dropLast hbegins (by decide)
  · exact Editor.newline_notMem_dropLast hbegins (by decide)

end LinuxOS
