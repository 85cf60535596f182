import LinuxOS.Tty.Editing
import LinuxOS.Tty.Grid

/-!
# Backspace undoes echo

Backspace counts the column down and leaves the row alone, so that the column
is negative after a row break has been erased.  Counted along the rows, the
cursor is where it was before the text, up to the rows that have scrolled away.
-/

namespace LinuxOS

open Foundation

/-! ## All that `putc` stores -/

def videoStores (c : UInt8) (screen : Screen) : Stores :=
  putcStores c screen ++
    if scrolls c screen then
      scrollStores { screen with videoMem := (putcStores c screen).apply screen.videoMem }
    else []

theorem apply_videoStores (c : UInt8) (screen : Screen) :
    (videoStores c screen).apply screen.videoMem = (putc c screen).videoMem := by
  by_cases hscroll : scrolls c screen
  · obtain ⟨written, hwritten⟩ : ∃ written, written =
      { screen with videoMem := (putcStores c screen).apply screen.videoMem } := ⟨_, rfl⟩
    rw [videoStores, if_pos hscroll, videoMem_putc_of_scrolls hscroll, ← hwritten,
      Stores.apply, List.foldl_append]
    have happlied : List.foldl (fun memory store => Function.update memory store.1 store.2)
        screen.videoMem (putcStores c screen) = written.videoMem := by
      rw [hwritten]
      rfl
    rw [happlied]
    exact apply_scrollStores written
  · rw [videoStores, if_neg hscroll, List.append_nil, videoMem_putc hscroll]

theorem inTextBuffer_scrollStores (screen : Screen) : InTextBuffer (scrollStores screen) := by
  have hlimit : (4000 : UInt32).toNat = 4000 := rfl
  have hmoved : (3840 : UInt32).toNat = 3840 := rfl
  intro store hstore
  rw [UInt32.lt_iff_toNat_lt, hlimit]
  rcases List.mem_append.mp hstore with hcopied | hcleared
  · obtain ⟨k, hk, rfl⟩ := List.mem_map.mp hcopied
    have hk := List.mem_range.mp hk
    rw [UInt32.add_comm, UInt32.add_sub_cancel,
      UInt32.toNat_ofNat_of_lt' (by rw [UInt32.size]; omega)]
    omega
  · obtain ⟨i, hi, rfl⟩ := List.mem_map.mp hcleared
    have hi := List.mem_range.mp hi
    have hoffset := @toNat_textAddr_sub (1920 + i) (by omega)
    rw [Nat.mul_comm] at hoffset
    rw [hoffset]
    omega

theorem inTextBuffer_videoStores {screen : Screen} (hlow : 0 ≤ screen.linear)
    (hhigh : screen.linear < 2000) (c : UInt8) : InTextBuffer (videoStores c screen) := by
  intro store hstore
  rcases List.mem_append.mp hstore with hcell | hscroll
  · exact inTextBuffer_putcStores hlow hhigh c store hcell
  · split at hscroll
    · exact inTextBuffer_scrollStores _ store hscroll
    · exact absurd hscroll List.not_mem_nil

/-! ## A character in linear coordinates -/

def scrolled (c : UInt8) (screen : Screen) : Nat := if scrolls c screen then 1 else 0

theorem linear_putc {c : UInt8} {screen : Screen} (hkey : ¬ EndsRow c) :
    (putc c screen).linear + 80 * scrolled c screen = screen.linear + 1 := by
  have hnewline : ¬ c = 0x0A := fun h => hkey (.inl h)
  have hreturn : ¬ c = 0x0D := fun h => hkey (.inr h)
  rw [putc_eq, if_neg hkey, advanceCursor]
  unfold scrolled scrolls
  by_cases hcolumn : screen.screenX = 79
  · by_cases hrow : screen.screenY = 24
    · simp [Screen.linear, writeCell, nextLine, scrollUp, hcolumn, hrow]
    · simp [Screen.linear, writeCell, nextLine, hcolumn, hrow]
      omega
  · simp [Screen.linear, writeCell, hcolumn, hnewline, hreturn]
    omega

theorem linear_of_scrolls {c : UInt8} {screen : Screen} (hkey : ¬ EndsRow c)
    (h : scrolls c screen) : screen.linear = 1999 := by
  obtain ⟨hrow, hnewline | hreturn | hcolumn⟩ := h
  · exact absurd (.inl hnewline) hkey
  · exact absurd (.inr hreturn) hkey
  · rw [Screen.linear, hrow, hcolumn]
    rfl

theorem textCell_putc {c : UInt8} {screen : Screen} (hkey : ¬ EndsRow c) {cursor i : Nat}
    (hcursor : screen.linear = cursor) (hinside : cursor < 2000)
    (hi : i + 80 * scrolled c screen < 2000) :
    textCell (putc c screen) i =
      if i + 80 * scrolled c screen = cursor then c
      else textCell screen (i + 80 * scrolled c screen) := by
  have hwritten : ∀ j, j < 2000 →
      textCell (writeCell c screen.screenX screen.screenY screen) j =
        if j = cursor then c else textCell screen j :=
    fun j hj => textCell_writeCell c hcursor hinside hj
  have hcolumnKept : (writeCell c screen.screenX screen.screenY screen).screenX =
      screen.screenX := rfl
  have hrowKept : (writeCell c screen.screenX screen.screenY screen).screenY =
      screen.screenY := rfl
  rw [putc_eq, if_neg hkey, advanceCursor, hcolumnKept, nextLine, hrowKept]
  -- a scroll takes the written cell up with the others
  by_cases hscroll : scrolls c screen
  · obtain ⟨hrow, hlast⟩ := id hscroll
    have hcolumn : screen.screenX = 79 := by
      rcases hlast with h | h | h
      · exact absurd (.inl h) hkey
      · exact absurd (.inr h) hkey
      · exact h
    rw [scrolled, if_pos hscroll] at hi ⊢
    rw [if_pos hcolumn, if_pos hrow, textCell_scrollUp (by omega), if_pos (by omega)]
    exact hwritten (i + 80) hi
  · rw [scrolled, if_neg hscroll] at hi ⊢
    refine Eq.trans ?_ (hwritten i hi)
    by_cases hcolumn : screen.screenX = 79
    · have hrow : screen.screenY ≠ 24 := fun hrow => hscroll ⟨hrow, .inr (.inr hcolumn)⟩
      rw [if_pos hcolumn, if_neg hrow]
      rfl
    · rw [if_neg hcolumn]
      rfl

/-! ## The calls -/

def TerminalOp.prints : TerminalOp → Kernel → Option (UInt8 × Screen)
  | .putc c, kernel => some (c, kernel.screen)
  | .bufAdd charToPrint, kernel =>
      if kernel.displayed.keyboardBufferSize ≥ keyboardMaxBuffer - 2 then none
      else some (charToPrint, kernel.screen)
  | .backspace, kernel =>
      if kernel.displayed.keyboardBufferSize = 0 then none
      else some (0x20, backSpace kernel.screen)
  | .clearScreen, _ => none
  | .read _ _, _ => none
  | .switchDisplay _ _, _ => none

def TerminalOp.videoStores (op : TerminalOp) (kernel : Kernel) : Stores :=
  match op.prints kernel with
  | some (c, screen) => LinuxOS.videoStores c screen
  | none => []

def TerminalOp.scrolled (op : TerminalOp) (kernel : Kernel) : Nat :=
  match op.prints kernel with
  | some (c, screen) => LinuxOS.scrolled c screen
  | none => 0

def scrollCount (ops : List TerminalOp) (kernel : Kernel) : Nat :=
  ((stepsAlong TerminalOp.perform ops kernel).map fun taken => taken.2.scrolled taken.1).sum

theorem scrollCount_append {before after : List TerminalOp} {kernel middle : Kernel}
    (hbefore : run TerminalOp.perform before kernel = some middle) :
    scrollCount (before ++ after) kernel =
      scrollCount before kernel + scrollCount after middle := by
  rw [scrollCount, stepsAlong_append hbefore, List.map_append, List.sum_append]
  rfl

def StaysInTextBuffer (ops : List TerminalOp) (kernel : Kernel) : Prop :=
  ∀ taken ∈ stepsAlong TerminalOp.perform ops kernel, InTextBuffer (taken.2.videoStores taken.1)

section Cons

variable {op : TerminalOp} {ops : List TerminalOp} {kernel next : Kernel} {c : UInt8}
  {screen : Screen}

theorem scrollCount_cons (hperform : op.perform kernel = some next)
    (hprints : op.prints kernel = some (c, screen)) :
    scrollCount (op :: ops) kernel = scrolled c screen + scrollCount ops next := by
  rw [scrollCount, stepsAlong_cons hperform, List.map_cons, List.sum_cons, TerminalOp.scrolled]
  simp only [hprints]
  rfl

theorem staysInTextBuffer_cons (hperform : op.perform kernel = some next)
    (hprints : op.prints kernel = some (c, screen)) (hlow : 0 ≤ screen.linear)
    (hhigh : screen.linear < 2000) (hrest : StaysInTextBuffer ops next) :
    StaysInTextBuffer (op :: ops) kernel := by
  intro taken htaken
  rw [stepsAlong_cons hperform] at htaken
  rcases List.mem_cons.mp htaken with rfl | htaken
  · simp only [TerminalOp.videoStores, hprints]
    exact inTextBuffer_videoStores hlow hhigh c
  · exact hrest taken htaken

end Cons

structure EchoKey extends Printable where
  noReturn : char ≠ 0x0D

theorem EchoKey.not_endsRow (key : EchoKey) : ¬ EndsRow key.char := by
  rintro (hnewline | hreturn)
  · exact key.noNewline hnewline
  · exact key.noReturn hreturn

def echoKeys (keys : List EchoKey) : List TerminalOp := keys.map fun key => .bufAdd key.char

def eraseKeys (count : Nat) : List TerminalOp := List.replicate count .backspace

/-! ## Echo -/

structure Echoed (count rows : Nat) (before after : Kernel) : Prop where
  size : after.displayed.keyboardBufferSize = before.displayed.keyboardBufferSize + count
  cursor : after.screen.linear + 80 * rows = before.screen.linear + count
  earlier : ∀ i : Nat, i + 80 * rows < before.screen.linear →
    textCell after.screen i = textCell before.screen (i + 80 * rows)
  /-- Behind a scroll the cursor is in row 24. -/
  lastRow : rows = 0 ∨ 1920 ≤ after.screen.linear

theorem echoed_bufAdd {kernel : Kernel} (hgrid : kernel.screen.OnGrid)
    (hroom : kernel.displayed.keyboardBufferSize < 126) (key : EchoKey) :
    Echoed 1 (scrolled key.char kernel.screen) kernel (terminalBufAdd key.char kernel) := by
  have hfull : ¬ kernel.displayed.keyboardBufferSize ≥ keyboardMaxBuffer - 2 := not_le.mpr hroom
  have hscreen := screen_terminalBufAdd key.char kernel
  rw [if_neg hfull] at hscreen
  obtain ⟨hlow, hhigh⟩ := hgrid.linear
  obtain ⟨cursor, hcursor⟩ := Int.eq_ofNat_of_zero_le hlow
  have hprinted := @linear_putc key.char kernel.screen key.not_endsRow
  refine ⟨?_, ?_, fun i hi => ?_, ?_⟩
  · rw [displayed_terminalBufAdd, if_neg (not_le.mpr hroom), if_neg key.noNewline]
    rfl
  · rw [hscreen]
    exact hprinted
  · rw [hscreen, textCell_putc key.not_endsRow hcursor (by omega) (by omega), if_neg (by omega)]
  · by_cases hscroll : scrolls key.char kernel.screen
    · have hrow := hscroll.1
      have hone : scrolled key.char kernel.screen = 1 := if_pos hscroll
      have hlast := linear_of_scrolls key.not_endsRow hscroll
      rw [hscreen]
      omega
    · exact .inl (if_neg hscroll)

theorem Echoed.trans {first second firstRows secondRows : Nat} {before middle after : Kernel}
    (h : Echoed first firstRows before middle) (h' : Echoed second secondRows middle after) :
    Echoed (first + second) (firstRows + secondRows) before after where
  size := by
    rw [h'.size, h.size]
    omega
  cursor := by
    have hfirst := h.cursor
    have hsecond := h'.cursor
    omega
  earlier i hi := by
    have hcursor := h.cursor
    have hrows : i + 80 * (firstRows + secondRows) = i + 80 * secondRows + 80 * firstRows := by
      omega
    rw [h'.earlier i (by omega), h.earlier (i + 80 * secondRows) (by omega), hrows]
  lastRow := by
    have hcursor := h'.cursor
    have hfirst := h.lastRow
    have hsecond := h'.lastRow
    omega

theorem run_echoKeys {keys : List EchoKey} {kernel : Kernel} (hgrid : kernel.screen.OnGrid)
    (hroom : kernel.displayed.keyboardBufferSize + keys.length ≤ 126) :
    ∃ after, run TerminalOp.perform (echoKeys keys) kernel = some after ∧
      after.screen.OnGrid ∧
      Echoed keys.length (scrollCount (echoKeys keys) kernel) kernel after ∧
      StaysInTextBuffer (echoKeys keys) kernel := by
  induction keys generalizing kernel with
  | nil =>
      refine ⟨kernel, rfl, hgrid, ⟨(Int.add_zero _).symm, rfl, fun _ _ => rfl, .inl rfl⟩, ?_⟩
      exact fun _ htaken => absurd htaken List.not_mem_nil
  | cons key keys ih =>
      rw [List.length_cons] at hroom
      have hspace : kernel.displayed.keyboardBufferSize < 126 := by omega
      have hfull : ¬ kernel.displayed.keyboardBufferSize ≥ keyboardMaxBuffer - 2 :=
        not_le.mpr hspace
      have hprints : (TerminalOp.bufAdd key.char).prints kernel =
          some (key.char, kernel.screen) := if_neg hfull
      have hfirst := echoed_bufAdd hgrid hspace key
      have hscreen := screen_terminalBufAdd key.char kernel
      rw [if_neg hfull] at hscreen
      have hnext : (terminalBufAdd key.char kernel).screen.OnGrid := hscreen ▸ hgrid.putc key.char
      obtain ⟨after, hrun, hafter, hechoed, hstores⟩ := ih hnext (by
        rw [hfirst.size]
        omega)
      have hperform : TerminalOp.perform (.bufAdd key.char) kernel =
        some (terminalBufAdd key.char kernel) := rfl
      obtain ⟨hlow, hhigh⟩ := hgrid.linear
      refine ⟨after, run_cons_eq_some.mpr ⟨_, hperform, hrun⟩, hafter, ?_,
        staysInTextBuffer_cons hperform hprints hlow hhigh hstores⟩
      rw [List.length_cons, Nat.add_comm keys.length]
      have hcount : scrollCount (echoKeys (key :: keys)) kernel =
          scrolled key.char kernel.screen +
            scrollCount (echoKeys keys) (terminalBufAdd key.char kernel) :=
        scrollCount_cons hperform hprints
      rw [hcount]
      exact hfirst.trans hechoed

/-! ## Backspace -/

structure Erased (count : Nat) (before after : Kernel) : Prop where
  size : after.displayed.keyboardBufferSize + count = before.displayed.keyboardBufferSize
  cursor : after.screen.linear + count = before.screen.linear
  cells : ∀ i : Nat, i < 2000 → textCell after.screen i =
    if after.screen.linear ≤ i ∧ i < before.screen.linear then 0x20
    else textCell before.screen i

theorem linear_backSpace (screen : Screen) : (backSpace screen).linear = screen.linear - 1 := by
  simp only [Screen.linear, backSpace]
  omega

/-- The space never ends a row: the column it is printed in lies left of column 79. -/
theorem scrolled_space {screen : Screen} (hright : screen.screenX < 80) :
    scrolled 0x20 (backSpace screen) = 0 := by
  refine if_neg ?_
  rintro ⟨-, hlast⟩
  simp only [backSpace] at hlast
  rcases hlast with h | h | h
  · exact absurd h (by decide)
  · exact absurd h (by decide)
  · omega

theorem erased_backspace {kernel : Kernel} (hright : kernel.screen.screenX < 80)
    (hlow : 1 ≤ kernel.screen.linear) (hhigh : kernel.screen.linear ≤ 2000)
    (hsome : kernel.displayed.keyboardBufferSize ≠ 0) :
    Erased 1 kernel (terminalBackspace kernel) := by
  have hscreen := screen_terminalBackspace kernel
  rw [if_neg hsome] at hscreen
  have hspace : ¬ EndsRow 0x20 := by decide
  have hrows := scrolled_space hright
  have hfrom := linear_backSpace kernel.screen
  have hprinted := @linear_putc 0x20 (backSpace kernel.screen) hspace
  have hback := linear_backSpace (putc 0x20 (backSpace kernel.screen))
  rw [hrows] at hprinted
  have hcursor : (terminalBackspace kernel).screen.linear = kernel.screen.linear - 1 := by
    rw [hscreen, eraseOnScreen]
    omega
  have hcell : ∀ i : Nat, i < 2000 → textCell (terminalBackspace kernel).screen i =
      if i = (kernel.screen.linear - 1).toNat then 0x20 else textCell kernel.screen i := by
    intro i hi
    have hputc := @textCell_putc 0x20 (backSpace kernel.screen) hspace
      (kernel.screen.linear - 1).toNat i (by omega) (by omega) (by omega)
    rw [hrows] at hputc
    rw [hscreen]
    exact hputc
  refine ⟨?_, ?_, fun i hi => ?_⟩
  · rw [displayed_terminalBackspace, if_neg hsome]
    exact Int.sub_add_cancel _ _
  · omega
  · rw [hcell i hi]
    exact if_congr (by omega) rfl rfl

theorem Erased.trans {first second : Nat} {before middle after : Kernel}
    (h : Erased first before middle) (h' : Erased second middle after) :
    Erased (first + second) before after where
  size := by
    have hfirst := h.size
    have hsecond := h'.size
    omega
  cursor := by
    have hfirst := h.cursor
    have hsecond := h'.cursor
    omega
  cells i hi := by
    have hfirst := h.cursor
    have hsecond := h'.cursor
    rw [h'.cells i hi, h.cells i hi]
    by_cases hnew : after.screen.linear ≤ i ∧ i < middle.screen.linear
    · rw [if_pos hnew, if_pos (by omega)]
    · rw [if_neg hnew]
      exact if_congr (by omega) rfl rfl

theorem run_eraseKeys {count : Nat} {kernel : Kernel} (hright : kernel.screen.screenX < 80)
    (hlow : count ≤ kernel.screen.linear) (hhigh : kernel.screen.linear ≤ 2000)
    (hsome : count ≤ kernel.displayed.keyboardBufferSize) :
    ∃ after, run TerminalOp.perform (eraseKeys count) kernel = some after ∧
      Erased count kernel after ∧ scrollCount (eraseKeys count) kernel = 0 ∧
      StaysInTextBuffer (eraseKeys count) kernel := by
  induction count generalizing kernel with
  | zero =>
      refine ⟨kernel, rfl, ⟨Int.add_zero _, Int.add_zero _, fun i hi => ?_⟩, rfl, ?_⟩
      · rw [if_neg (by omega)]
      · exact fun _ htaken => absurd htaken List.not_mem_nil
  | succ count ih =>
      have hsize : kernel.displayed.keyboardBufferSize ≠ 0 := by omega
      have hprints : TerminalOp.backspace.prints kernel = some (0x20, backSpace kernel.screen) :=
        if_neg hsize
      have hfirst := erased_backspace hright (by omega) hhigh hsize
      have hscreen := screen_terminalBackspace kernel
      rw [if_neg hsize] at hscreen
      have hcolumn := (cursor_eraseOnScreen hright).1
      have hfirstSize := hfirst.size
      have hfirstCursor := hfirst.cursor
      obtain ⟨after, hrun, herased, hrows, hstores⟩ := @ih (terminalBackspace kernel)
        (by rw [hscreen, hcolumn]; omega) (by omega) (by omega) (by omega)
      have hperform : TerminalOp.perform .backspace kernel = some (terminalBackspace kernel) := rfl
      have hback := linear_backSpace kernel.screen
      refine ⟨after, run_cons_eq_some.mpr ⟨_, hperform, hrun⟩, ?_, ?_,
        staysInTextBuffer_cons hperform hprints (by omega) (by omega) hstores⟩
      · rw [Nat.add_comm]
        exact hfirst.trans herased
      · have hcount : scrollCount (eraseKeys (count + 1)) kernel =
            scrolled 0x20 (backSpace kernel.screen) +
              scrollCount (eraseKeys count) (terminalBackspace kernel) :=
          scrollCount_cons hperform hprints
        rw [hcount, scrolled_space hright, hrows]

/-! ## Echo and Backspace -/

/-- What is left of `count` characters after as many Backspaces, `rows` rows having scrolled. -/
structure Undone (count rows : Nat) (before after : Kernel) : Prop where
  size : after.displayed.keyboardBufferSize = before.displayed.keyboardBufferSize
  cursor : after.screen.linear = before.screen.linear - 80 * rows
  blank : ∀ i : Nat, after.screen.linear ≤ i → i < after.screen.linear + count →
    textCell after.screen i = 0x20
  earlier : ∀ i : Nat, i < after.screen.linear →
    textCell after.screen i = textCell before.screen (i + 80 * rows)

theorem Echoed.undone {count rows : Nat} {before middle after : Kernel}
    (h : Echoed count rows before middle) (h' : Erased count middle after)
    (hinside : middle.screen.linear ≤ 2000) : Undone count rows before after where
  size := by
    have hechoed := h.size
    have herased := h'.size
    omega
  cursor := by
    have hechoed := h.cursor
    have herased := h'.cursor
    omega
  blank i hlow hhigh := by
    have herased := h'.cursor
    rw [h'.cells i (by omega), if_pos (by omega)]
  earlier i hi := by
    have hechoed := h.cursor
    have herased := h'.cursor
    rw [h'.cells i (by omega), if_neg (by omega), h.earlier i (by omega)]

/--
Text that is echoed and erased again: the line buffer and the cursor are where
they were, the erased cells are blank, and what stood before them is still
there, both up to the rows that have scrolled away.
-/
theorem echo_undone {kernel : Kernel} (hgrid : kernel.screen.OnGrid)
    (hsize : 0 ≤ kernel.displayed.keyboardBufferSize) {keys : List EchoKey}
    (hroom : kernel.displayed.keyboardBufferSize + keys.length ≤ 126) :
    ∃ final,
      run TerminalOp.perform (echoKeys keys ++ eraseKeys keys.length) kernel = some final ∧
      Undone keys.length (scrollCount (echoKeys keys ++ eraseKeys keys.length) kernel)
        kernel final ∧
      StaysInTextBuffer (echoKeys keys ++ eraseKeys keys.length) kernel := by
  obtain ⟨typed, htyped, honGrid, hechoed, hstores⟩ := run_echoKeys hgrid hroom
  have hechoedSize := hechoed.size
  have hcursor := hechoed.cursor
  obtain ⟨hlow, hhigh⟩ := hgrid.linear
  obtain ⟨hlow', hhigh'⟩ := honGrid.linear
  have hlastRow := hechoed.lastRow
  obtain ⟨final, hfinal, herased, hrows, hstores'⟩ := @run_eraseKeys keys.length typed
    honGrid.right (by omega) hhigh'.le (by omega)
  refine ⟨final, run_append htyped hfinal, ?_, ?_⟩
  · rw [scrollCount_append htyped, hrows]
    exact hechoed.undone herased hhigh'.le
  · intro taken htaken
    rw [stepsAlong_append htyped] at htaken
    rcases List.mem_append.mp htaken with hfirst | hsecond
    · exact hstores taken hfirst
    · exact hstores' taken hsecond

def ninetyKeys : List EchoKey := List.replicate 90 ⟨keyA, by decide⟩

theorem echo_undone_ninetyKeys :
    ∃ final,
      run TerminalOp.perform (echoKeys ninetyKeys ++ eraseKeys ninetyKeys.length)
        (bootKernel shellImage) = some final ∧
      Undone ninetyKeys.length
        (scrollCount (echoKeys ninetyKeys ++ eraseKeys ninetyKeys.length) (bootKernel shellImage))
        (bootKernel shellImage) final ∧
      StaysInTextBuffer (echoKeys ninetyKeys ++ eraseKeys ninetyKeys.length)
        (bootKernel shellImage) :=
  echo_undone (onGrid_bootKernel shellImage) (Int.le_refl 0) (by decide)

end LinuxOS
