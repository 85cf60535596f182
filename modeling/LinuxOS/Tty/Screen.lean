import LinuxOS.Kernel.Boot
import LinuxOS.Kernel.KeyboardHandler

/-!
# The cursor and the text buffer

Every call that moves the cursor keeps it in the grid of 25 rows of 80 columns,
and `putc` stores into the 4000 bytes of the text buffer only, until a
character is erased with the cursor in column 0.
-/

namespace LinuxOS

open Foundation

structure Screen.OnGrid (screen : Screen) : Prop where
  left : 0 ≤ screen.screenX
  right : screen.screenX < 80
  top : 0 ≤ screen.screenY
  bottom : screen.screenY < 25

instance (screen : Screen) : Decidable screen.OnGrid :=
  decidable_of_iff
    (0 ≤ screen.screenX ∧ screen.screenX < 80 ∧ 0 ≤ screen.screenY ∧ screen.screenY < 25)
    ⟨fun ⟨left, right, top, bottom⟩ => ⟨left, right, top, bottom⟩,
      fun ⟨left, right, top, bottom⟩ => ⟨left, right, top, bottom⟩⟩

def Kernel.SavedOnGrid (kernel : Kernel) : Prop :=
  ∀ tid : UInt32, tid ≤ 2 → (kernel.terminal tid.toInt32).cursorPosX < 80 ∧
    (kernel.terminal tid.toInt32).cursorPosY < 25

/-! ## What `putc` stores -/

def putcStores (c : UInt8) (screen : Screen) : Stores :=
  if c = 0x0A ∨ c = 0x0D then []
  else
    [(cellAddr screen.screenX screen.screenY, c),
      (cellAddr screen.screenX screen.screenY + 1, 0x7)]

def scrolls (c : UInt8) (screen : Screen) : Prop :=
  screen.screenY = 24 ∧ (c = 0x0A ∨ c = 0x0D ∨ screen.screenX = 79)

instance (c : UInt8) (screen : Screen) : Decidable (scrolls c screen) :=
  inferInstanceAs (Decidable (_ ∧ _))

theorem videoMem_putc {c : UInt8} {screen : Screen} (h : ¬ scrolls c screen) :
    (putc c screen).videoMem = (putcStores c screen).apply screen.videoMem := by
  unfold putc putcStores
  unfold scrolls at h
  by_cases hnewline : c = 0x0A ∨ c = 0x0D
  · have hrow : screen.screenY ≠ 24 := fun hrow => h ⟨hrow, by tauto⟩
    rw [if_pos hnewline, if_pos hnewline, if_neg hrow]
    rfl
  · rw [if_neg hnewline, if_neg hnewline]
    by_cases hcolumn : screen.screenX = 79
    · have hrow : screen.screenY ≠ 24 := fun hrow => h ⟨hrow, .inr (.inr hcolumn)⟩
      simp only [hcolumn, hrow, if_true, if_false]
      rfl
    · simp only [hcolumn, if_false]
      rfl

theorem videoMem_putc_of_scrolls {c : UInt8} {screen : Screen} (h : scrolls c screen) :
    (putc c screen).videoMem =
      (scrollUp { screen with
        videoMem := (putcStores c screen).apply screen.videoMem }).videoMem := by
  obtain ⟨hrow, hlast⟩ := h
  unfold putc putcStores
  by_cases hnewline : c = 0x0A ∨ c = 0x0D
  · rw [if_pos hnewline, if_pos hnewline, if_pos hrow]
    rfl
  · have hcolumn : screen.screenX = 79 := by tauto
    rw [if_neg hnewline, if_neg hnewline]
    simp only [hcolumn, hrow, if_true]
    rfl

def InTextBuffer (stores : Stores) : Prop := ∀ store ∈ stores, store.1 - video < 4000

instance (stores : Stores) : Decidable (InTextBuffer stores) :=
  List.decidableBAll (fun store : UInt32 × UInt8 => store.1 - video < 4000) stores

theorem cellAddr_sub_video (x y : Int) :
    cellAddr x y - video = UInt32.ofInt ((80 * y + x) * 2) := by
  rw [cellAddr, UInt32.add_comm, UInt32.add_sub_cancel]

def Screen.linear (screen : Screen) : Int := 80 * screen.screenY + screen.screenX

theorem inTextBuffer_putcStores {screen : Screen} (hlow : 0 ≤ screen.linear)
    (hhigh : screen.linear < 2000) (c : UInt8) : InTextBuffer (putcStores c screen) := by
  have hcell : (cellAddr screen.screenX screen.screenY - video).toNat =
      (screen.linear * 2).toNat := by
    rw [cellAddr_sub_video, ← Screen.linear, toNat_ofInt (by omega) (by omega)]
  have hattribute : cellAddr screen.screenX screen.screenY + 1 - video =
      cellAddr screen.screenX screen.screenY - video + 1 := by grind
  have hlimit : (4000 : UInt32).toNat = 4000 := rfl
  have hone : (1 : UInt32).toNat = 1 := rfl
  intro store hstore
  unfold putcStores at hstore
  split at hstore
  · simp at hstore
  · rw [UInt32.lt_iff_toNat_lt, hlimit]
    rcases List.mem_pair.mp hstore with rfl | rfl
    · rw [hcell]
      omega
    · rw [hattribute, UInt32.toNat_add, hone]
      omega

theorem Screen.OnGrid.linear {screen : Screen} (h : screen.OnGrid) :
    0 ≤ screen.linear ∧ screen.linear < 2000 := by
  obtain ⟨hleft, hright, htop, hbottom⟩ := h
  unfold Screen.linear
  omega

theorem Screen.OnGrid.inTextBuffer {screen : Screen} (h : screen.OnGrid) (c : UInt8) :
    InTextBuffer (putcStores c screen) :=
  inTextBuffer_putcStores h.linear.1 h.linear.2 c

/-! ## The cursor -/

theorem Screen.OnGrid.putc {screen : Screen} (h : screen.OnGrid) (c : UInt8) :
    (LinuxOS.putc c screen).OnGrid := by
  obtain ⟨hleft, hright, htop, hbottom⟩ := h
  have hscroll : ∀ other : Screen, (scrollUp other).OnGrid := fun other =>
    ⟨(by decide : (0 : Int) ≤ 0), (by decide : (0 : Int) < 80), (by decide : (0 : Int) ≤ 24),
      (by decide : (24 : Int) < 25)⟩
  unfold LinuxOS.putc
  split
  · split
    · exact hscroll _
    · constructor <;> simp only <;> omega
  · split
    · split
      · exact hscroll _
      · constructor <;> simp only <;> omega
    · constructor <;> simp only <;> omega

def eraseOnScreen (screen : Screen) : Screen := backSpace (putc 0x20 (backSpace screen))

theorem Screen.OnGrid.backSpace {screen : Screen} (h : screen.OnGrid)
    (hcolumn : screen.screenX ≠ 0) : (LinuxOS.backSpace screen).OnGrid := by
  obtain ⟨hleft, hright, htop, hbottom⟩ := h
  constructor <;> simp only [LinuxOS.backSpace] <;> omega

theorem cursor_eraseOnScreen {screen : Screen} (h : screen.screenX < 80) :
    (eraseOnScreen screen).screenX = screen.screenX - 1 ∧
      (eraseOnScreen screen).screenY = screen.screenY := by
  have hspace : ¬ ((0x20 : UInt8) = 0x0A ∨ (0x20 : UInt8) = 0x0D) := by decide
  have hcolumn : screen.screenX - 1 ≠ 79 := by omega
  simp only [eraseOnScreen, backSpace, putc, hspace, hcolumn, if_false]
  exact ⟨by omega, trivial⟩

theorem Screen.OnGrid.eraseOnScreen_iff {screen : Screen} (h : screen.OnGrid) :
    (eraseOnScreen screen).OnGrid ↔ screen.screenX ≠ 0 := by
  obtain ⟨hx, hy⟩ := cursor_eraseOnScreen h.right
  constructor
  · intro hgrid hcolumn
    have hleft := hgrid.left
    omega
  · intro hcolumn
    obtain ⟨hleft, hright, htop, hbottom⟩ := h
    constructor <;> omega

/-! ## The calls -/

def TerminalOp.stores : TerminalOp → Kernel → Stores
  | .putc c, kernel => putcStores c kernel.screen
  | .bufAdd charToPrint, kernel =>
      if kernel.displayed.keyboardBufferSize ≥ keyboardMaxBuffer - 2 then []
      else putcStores charToPrint kernel.screen
  | .backspace, kernel =>
      if kernel.displayed.keyboardBufferSize = 0 then []
      else putcStores 0x20 (backSpace kernel.screen)
  | .clearScreen, _ => []
  | .read _ _, _ => []
  | .switchDisplay _ _, _ => []

def ErasesColumnZero (kernel : Kernel) : TerminalOp → Prop
  | .backspace => kernel.displayed.keyboardBufferSize ≠ 0 ∧ kernel.screen.screenX = 0
  | _ => False

theorem Kernel.SavedOnGrid.modifyDisplayed {kernel : Kernel} (h : kernel.SavedOnGrid)
    {change : Terminal → Terminal}
    (hx : ∀ terminal, (change terminal).cursorPosX = terminal.cursorPosX)
    (hy : ∀ terminal, (change terminal).cursorPosY = terminal.cursorPosY) :
    (kernel.modifyDisplayed change).SavedOnGrid := by
  intro tid htid
  by_cases hshown : tid.toInt32 = kernel.displayTerminalId
  · have hsaved := h tid htid
    rw [hshown] at hsaved
    simpa [Kernel.modifyDisplayed, hshown, hx, hy, Kernel.displayed] using hsaved
  · simpa [Kernel.modifyDisplayed, hshown] using h tid htid

/-- The screens are exchanged: one is saved in the displayed terminal, that of `tid` comes back. -/
def exchangeScreens (tid : UInt32) (kernel : Kernel) : Kernel :=
  restoreScreen { saveScreen kernel with displayTerminalId := tid.toInt32 }

theorem switchDisplayTerminal_exchanges {regs : SwitchRegs} {tid : UInt32}
    {kernel after : Kernel} (h : switchDisplayTerminal regs tid kernel = some after) :
    ((kernel.displayTerminalId.toUInt32 = tid ∨ tid > 2) ∧ after = kernel) ∨
    (¬ (kernel.displayTerminalId.toUInt32 = tid ∨ tid > 2) ∧
      after.screen = (exchangeScreens tid kernel).screen ∧
      after.terminal = (exchangeScreens tid kernel).terminal ∧
      after.displayTerminalId = tid.toInt32) := by
  unfold switchDisplayTerminal at h
  split at h
  · next hstay => exact .inl ⟨hstay, (Option.some.inj h).symm⟩
  · next hmove =>
      obtain ⟨bottom, -, h⟩ := Option.bind_eq_some_iff.mp h
      obtain ⟨⟨switched, value⟩, hswitched, h⟩ := Option.bind_eq_some_iff.mp h
      obtain ⟨again, -, hagain⟩ := Option.map_eq_some_iff.mp hswitched
      cases h
      right
      refine ⟨hmove, ?_⟩
      split at hagain <;> cases hagain <;> exact ⟨rfl, rfl, rfl⟩

theorem exchangeScreens_onGrid {tid : UInt32} {kernel : Kernel} (htid : tid ≤ 2)
    (hgrid : kernel.screen.OnGrid) (hsaved : kernel.SavedOnGrid) :
    (exchangeScreens tid kernel).screen.OnGrid ∧ (exchangeScreens tid kernel).SavedOnGrid := by
  have hcolumns : (80 : UInt32).toNat = 80 := rfl
  have hrows : (25 : UInt32).toNat = 25 := rfl
  have hkept : (saveScreen kernel).SavedOnGrid := by
    obtain ⟨hleft, hright, htop, hbottom⟩ := hgrid
    have hx : UInt32.ofInt kernel.screen.screenX < 80 := by
      rw [UInt32.lt_iff_toNat_lt, toNat_ofInt hleft (by omega), hcolumns]
      omega
    have hy : UInt32.ofInt kernel.screen.screenY < 25 := by
      rw [UInt32.lt_iff_toNat_lt, toNat_ofInt htop (by omega), hrows]
      omega
    intro other hother
    by_cases hshown : other.toInt32 = kernel.displayTerminalId
    · simp [saveScreen, Kernel.modifyDisplayed, hshown, hx, hy]
    · simpa [saveScreen, Kernel.modifyDisplayed, hshown] using hsaved other hother
  -- the saved words come back as signed numbers
  have hpos : ∀ {pos limit : UInt32}, pos < limit → limit.toNat < 2 ^ 31 →
      pos.toInt32.toInt = pos.toNat ∧ pos.toNat < limit.toNat := by
    intro pos limit hlt hlimit
    rw [UInt32.lt_iff_toNat_lt] at hlt
    rw [toInt_toInt32, if_pos (by omega)]
    exact ⟨rfl, hlt⟩
  obtain ⟨hx, hy⟩ := hkept tid htid
  obtain ⟨hcursorX, hltX⟩ := hpos hx (by decide)
  obtain ⟨hcursorY, hltY⟩ := hpos hy (by decide)
  refine ⟨?_, hkept⟩
  have hscreenX : (exchangeScreens tid kernel).screen.screenX =
      ((saveScreen kernel).terminal tid.toInt32).cursorPosX.toInt32.toInt := rfl
  have hscreenY : (exchangeScreens tid kernel).screen.screenY =
      ((saveScreen kernel).terminal tid.toInt32).cursorPosY.toInt32.toInt := rfl
  rw [hcolumns] at hltX
  rw [hrows] at hltY
  constructor <;> omega

theorem Kernel.SavedOnGrid.terminalBufAdd {kernel : Kernel} (h : kernel.SavedOnGrid)
    (char : UInt8) : (LinuxOS.terminalBufAdd char kernel).SavedOnGrid := by
  have hshown : (kernel.modifyScreen (putc char)).SavedOnGrid := h
  unfold LinuxOS.terminalBufAdd
  split
  · exact h
  split
  · exact hshown.modifyDisplayed (fun _ => rfl) (fun _ => rfl)
  · exact hshown.modifyDisplayed (fun _ => rfl) (fun _ => rfl)

theorem screen_terminalBufAdd (char : UInt8) (kernel : Kernel) :
    (terminalBufAdd char kernel).screen =
      if kernel.displayed.keyboardBufferSize ≥ keyboardMaxBuffer - 2 then kernel.screen
      else putc char kernel.screen := by
  unfold terminalBufAdd
  split
  · rfl
  split <;> rfl

theorem Kernel.SavedOnGrid.terminalBackspace {kernel : Kernel} (h : kernel.SavedOnGrid) :
    (LinuxOS.terminalBackspace kernel).SavedOnGrid := by
  have hshown : (kernel.modifyScreen eraseOnScreen).SavedOnGrid := h
  unfold LinuxOS.terminalBackspace
  split
  · exact h
  · exact hshown.modifyDisplayed (fun _ => rfl) (fun _ => rfl)

theorem screen_terminalBackspace (kernel : Kernel) :
    (terminalBackspace kernel).screen =
      if kernel.displayed.keyboardBufferSize = 0 then kernel.screen
      else eraseOnScreen kernel.screen := by
  unfold terminalBackspace
  split <;> rfl

theorem terminalRead_cases {buf nbytes : UInt32} {kernel after : Kernel} {result : Int32}
    {stores : Stores} (h : terminalRead buf nbytes kernel = some (after, result, stores)) :
    ∃ keyboardBuffer, after = kernel.modifyDisplayed fun terminal => { terminal with
      keyboardBuffer := keyboardBuffer
      keyboardBufferSize := 0
      allowTerminalRead := 0 } := by
  unfold terminalRead at h
  split at h
  · cases h
  · cases h
    exact ⟨_, rfl⟩

theorem inTextBuffer_nil : InTextBuffer [] := by simp [InTextBuffer]

theorem inTextBuffer_stores {op : TerminalOp} {kernel : Kernel} (hgrid : kernel.screen.OnGrid)
    (hcolumn : ¬ ErasesColumnZero kernel op) : InTextBuffer (op.stores kernel) := by
  cases op with
  | putc c => exact hgrid.inTextBuffer c
  | bufAdd char =>
      simp only [TerminalOp.stores]
      split
      · exact inTextBuffer_nil
      · exact hgrid.inTextBuffer char
  | backspace =>
      simp only [TerminalOp.stores]
      split
      · exact inTextBuffer_nil
      · next hsize =>
          have hgrid' := hgrid.backSpace fun hzero => hcolumn ⟨hsize, hzero⟩
          exact hgrid'.inTextBuffer 0x20
  | clearScreen => exact inTextBuffer_nil
  | read buf nbytes => exact inTextBuffer_nil
  | switchDisplay regs tid => exact inTextBuffer_nil

theorem onGrid_perform {op : TerminalOp} {kernel next : Kernel} (hgrid : kernel.screen.OnGrid)
    (hsaved : kernel.SavedOnGrid) (hperform : op.perform kernel = some next) :
    next.SavedOnGrid ∧ (next.screen.OnGrid ↔ ¬ ErasesColumnZero kernel op) := by
  cases op with
  | putc c =>
      cases hperform
      exact ⟨hsaved, iff_of_true (hgrid.putc c) not_false⟩
  | bufAdd char =>
      cases hperform
      refine ⟨hsaved.terminalBufAdd char, iff_of_true ?_ not_false⟩
      rw [screen_terminalBufAdd]
      split
      · exact hgrid
      · exact hgrid.putc char
  | backspace =>
      cases hperform
      refine ⟨hsaved.terminalBackspace, ?_⟩
      rw [screen_terminalBackspace]
      unfold ErasesColumnZero
      split
      · next hempty => exact iff_of_true hgrid fun herase => herase.1 hempty
      · next hsize => rw [hgrid.eraseOnScreen_iff, not_and, imp_iff_right hsize]
  | clearScreen =>
      cases hperform
      have hhome : (LinuxOS.clearScreen kernel).screen.OnGrid :=
        ⟨(by decide : (0 : Int) ≤ 0), (by decide : (0 : Int) < 80), (by decide : (0 : Int) ≤ 0),
          (by decide : (0 : Int) < 25)⟩
      exact ⟨hsaved, iff_of_true hhome not_false⟩
  | read buf nbytes =>
      obtain ⟨⟨after, result, stores⟩, hread, hafter⟩ := Option.map_eq_some_iff.mp hperform
      obtain ⟨keyboardBuffer, rfl⟩ := terminalRead_cases hread
      cases hafter
      exact ⟨hsaved.modifyDisplayed (fun _ => rfl) (fun _ => rfl), iff_of_true hgrid not_false⟩
  | switchDisplay regs tid =>
      rcases switchDisplayTerminal_exchanges hperform with
        ⟨-, rfl⟩ | ⟨hmove, hscreen, hterminal, -⟩
      · exact ⟨hsaved, iff_of_true hgrid not_false⟩
      · obtain ⟨hshown, hkept⟩ := exchangeScreens_onGrid
          (UInt32.not_lt.mp fun hlt => hmove (.inr hlt)) hgrid hsaved
        refine ⟨?_, iff_of_true (hscreen ▸ hshown) not_false⟩
        unfold Kernel.SavedOnGrid at hkept ⊢
        rw [hterminal]
        exact hkept

/-! ## Key events -/

inductive ScreenEvent where
  | write (c : UInt8)
  | key (regs : SwitchRegs) (pressCode : UInt8)
  | switchDisplay (regs : SwitchRegs) (tid : UInt32)

def ScreenEvent.call : ScreenEvent → KeyDown → Option TerminalOp
  | .write c, _ => some (.putc c)
  | .key regs pressCode, keyDown => (keyPress regs pressCode keyDown).2
  | .switchDisplay regs tid, _ => some (.switchDisplay regs tid)

def ScreenEvent.perform : ScreenEvent → Console → Option Console
  | .write c, console => some { console with kernel := console.kernel.modifyScreen (putc c) }
  | .key regs pressCode, console => keyboardHandler regs pressCode console
  | .switchDisplay regs tid, console =>
      (switchDisplayTerminal regs tid console.kernel).map fun kernel =>
        { console with kernel := kernel }

def ScreenEvent.stores (event : ScreenEvent) (console : Console) : Stores :=
  ((event.call console.keyDown).map fun op => op.stores console.kernel).getD []

theorem ScreenEvent.perform_cases {event : ScreenEvent} {console next : Console}
    (h : event.perform console = some next) :
    (event.call console.keyDown = none ∧ next.kernel = console.kernel) ∨
      ∃ op, event.call console.keyDown = some op ∧
        op.perform console.kernel = some next.kernel := by
  cases event with
  | write c =>
      cases h
      exact .inr ⟨_, rfl, rfl⟩
  | key regs pressCode =>
      simp only [ScreenEvent.perform, keyboardHandler] at h
      cases hcall : (keyPress regs pressCode console.keyDown).2 with
      | none =>
          rw [hcall] at h
          cases h
          exact .inl ⟨hcall, rfl⟩
      | some op =>
          rw [hcall] at h
          obtain ⟨kernel, hop, rfl⟩ := Option.map_eq_some_iff.mp h
          exact .inr ⟨op, hcall, hop⟩
  | switchDisplay regs tid =>
      obtain ⟨kernel, hswitch, rfl⟩ := Option.map_eq_some_iff.mp h
      exact .inr ⟨_, rfl, hswitch⟩

/--
Backspace is pressed outside Ctrl+L, with a character to erase and the cursor
in column 0.
-/
def ErasesAtMargin (console : Console) : ScreenEvent → Prop
  | .key _ pressCode =>
      pressCode = 0x0E ∧ ¬ (console.keyDown.isDown leftCtrl ∧ console.keyDown.isDown 0x26) ∧
        console.kernel.displayed.keyboardBufferSize ≠ 0 ∧ console.kernel.screen.screenX = 0
  | _ => False

theorem callOfKey_eq_backspace {regs : SwitchRegs} {pressCode char : UInt8} {keyDown : KeyDown} :
    callOfKey regs pressCode keyDown char = some .backspace ↔
      pressCode = 0x0E ∧ ¬ (keyDown.isDown leftCtrl ∧ keyDown.isDown 0x26) := by
  unfold callOfKey
  by_cases hclear : keyDown.isDown leftCtrl ∧ keyDown.isDown 0x26
  · simp [hclear]
  · by_cases hcode : pressCode = 0x0E
    · simp [hclear, hcode]
    · rw [if_neg hclear, if_neg hcode]
      refine iff_of_false ?_ fun h => hcode h.1
      repeat' split
      all_goals simp

theorem keyPress_eq_backspace {regs : SwitchRegs} {pressCode : UInt8} {keyDown : KeyDown} :
    (keyPress regs pressCode keyDown).2 = some .backspace ↔
      pressCode = 0x0E ∧ ¬ (keyDown.isDown leftCtrl ∧ keyDown.isDown 0x26) := by
  by_cases hcode : pressCode = 0x0E
  · subst hcode
    have hpress : keyPress regs 0x0E keyDown =
        (Function.update keyDown 14 1, callOfKey regs 0x0E (Function.update keyDown 14 1)
          (charOfKey 0x0E (Function.update keyDown 14 1))) := rfl
    have hctrl : KeyDown.isDown (Function.update keyDown 14 1) leftCtrl ↔
        keyDown.isDown leftCtrl := by
      simp [KeyDown.isDown, leftCtrl]
    have hl : KeyDown.isDown (Function.update keyDown 14 1) 0x26 ↔ keyDown.isDown 0x26 := by
      simp [KeyDown.isDown]
    rw [hpress, callOfKey_eq_backspace, hctrl, hl]
  · refine iff_of_false ?_ fun h => hcode h.1
    unfold keyPress
    split
    · simp
    split
    · simp
    split
    · exact fun h => hcode (callOfKey_eq_backspace.mp h).1
    · exact fun h => hcode (callOfKey_eq_backspace.mp h).1

theorem erasesAtMargin_iff {console : Console} {event : ScreenEvent} :
    ErasesAtMargin console event ↔
      ∃ op, event.call console.keyDown = some op ∧ ErasesColumnZero console.kernel op := by
  cases event with
  | write c => simp [ErasesAtMargin, ScreenEvent.call, ErasesColumnZero]
  | switchDisplay regs tid => simp [ErasesAtMargin, ScreenEvent.call, ErasesColumnZero]
  | key regs pressCode =>
      constructor
      · rintro ⟨hcode, hclear, hcolumn⟩
        exact ⟨.backspace, keyPress_eq_backspace.mpr ⟨hcode, hclear⟩, hcolumn⟩
      · rintro ⟨op, hcall, herase⟩
        cases op with
        | backspace =>
            obtain ⟨hcode, hclear⟩ := keyPress_eq_backspace.mp hcall
            exact ⟨hcode, hclear, herase⟩
        | putc c => exact herase.elim
        | bufAdd char => exact herase.elim
        | clearScreen => exact herase.elim
        | read buf nbytes => exact herase.elim
        | switchDisplay regs tid => exact herase.elim

theorem inTextBuffer_event {event : ScreenEvent} {console : Console}
    (hgrid : console.kernel.screen.OnGrid) (herase : ¬ ErasesAtMargin console event) :
    InTextBuffer (event.stores console) := by
  unfold ScreenEvent.stores
  cases hcall : event.call console.keyDown with
  | none => exact inTextBuffer_nil
  | some op =>
      exact inTextBuffer_stores hgrid fun hcolumn =>
        herase (erasesAtMargin_iff.mpr ⟨op, hcall, hcolumn⟩)

theorem onGrid_event {event : ScreenEvent} {console next : Console}
    (hgrid : console.kernel.screen.OnGrid) (hsaved : console.kernel.SavedOnGrid)
    (hperform : event.perform console = some next) :
    next.kernel.SavedOnGrid ∧
      (next.kernel.screen.OnGrid ↔ ¬ ErasesAtMargin console event) := by
  rw [erasesAtMargin_iff]
  rcases ScreenEvent.perform_cases hperform with ⟨hcall, hkernel⟩ | ⟨op, hcall, hop⟩
  · rw [hcall, hkernel]
    exact ⟨hsaved, iff_of_true hgrid (by simp)⟩
  · obtain ⟨hnext, hiff⟩ := onGrid_perform hgrid hsaved hop
    rw [hcall]
    exact ⟨hnext, by simpa using hiff⟩

theorem terminalWriteLoop_eq (source : Nat → UInt8) (count i : Nat) (numbytes : Int32)
    (screen : Screen) :
    terminalWriteLoop source count i numbytes screen =
      (puts ((List.range' i count).map source) screen,
        numbytes + Int32.ofNat (((List.range' i count).map source).countP (· != 0x0A))) := by
  induction count generalizing i numbytes screen with
  | zero => exact Prod.ext rfl (Int32.add_zero numbytes).symm
  | succ count ih =>
      rw [terminalWriteLoop, ih, List.range'_succ, List.map_cons, List.countP_cons]
      refine Prod.ext rfl ?_
      by_cases hnewline : source i = 0x0A
      · simp [hnewline]
      · simp [hnewline, Int32.ofNat_add, Int32.add_assoc, Int32.add_comm]

theorem terminalWrite_eq (source : Nat → UInt8) (nbytes : UInt32) (kernel : Kernel) :
    terminalWrite source nbytes kernel =
      (kernel.modifyScreen (puts ((List.range nbytes.toNat).map source)),
        Int32.ofNat (((List.range nbytes.toNat).map source).countP (· != 0x0A))) := by
  rw [terminalWrite, terminalWriteLoop_eq, ← List.range_eq_range', Int32.zero_add]
  rfl

/-! ## Runs -/

/--
From a cursor on the grid: the cursor stays there and `putc` stores into the
text buffer only, in a whole run, exactly when no event of the run erases a
character at the margin.
-/
theorem onGrid_iff_not_erasesAtMargin {events : List ScreenEvent} {console final : Console}
    (hrun : run ScreenEvent.perform events console = some final)
    (hgrid : console.kernel.screen.OnGrid) (hsaved : console.kernel.SavedOnGrid) :
    ((∀ visited ∈ statesAlong ScreenEvent.perform events console,
        visited.kernel.screen.OnGrid) ∧
      ∀ taken ∈ stepsAlong ScreenEvent.perform events console,
        InTextBuffer (taken.2.stores taken.1)) ↔
      ∀ taken ∈ stepsAlong ScreenEvent.perform events console,
        ¬ ErasesAtMargin taken.1 taken.2 := by
  have keep : ∀ (event : ScreenEvent) (source next : Console), source.kernel.SavedOnGrid →
      source.kernel.screen.OnGrid → True → ¬ ErasesAtMargin source event →
      event.perform source = some next →
      next.kernel.SavedOnGrid ∧ next.kernel.screen.OnGrid := by
    intro event source next hinv hsafe _ hmeets hstep
    obtain ⟨hnext, hiff⟩ := onGrid_event hsafe hinv hstep
    exact ⟨hnext, hiff.mpr hmeets⟩
  have broken : ∀ (event : ScreenEvent) (source next : Console), source.kernel.SavedOnGrid →
      source.kernel.screen.OnGrid → True → ¬ ¬ ErasesAtMargin source event →
      event.perform source = some next → ¬ next.kernel.screen.OnGrid := by
    intro event source next hinv hsafe _ hmeets hstep hnext
    exact hmeets ((onGrid_event hsafe hinv hstep).2.mp hnext)
  have hcursor := forall_safe_iff_forall_meets (fun _ _ => True)
    (fun console event => ¬ ErasesAtMargin console event) keep broken hrun
    (fun _ _ => trivial) hsaved hgrid
  rw [hcursor]
  refine ⟨And.left, fun herase => ⟨herase, fun taken htaken => ?_⟩⟩
  exact inTextBuffer_event (hcursor.mpr herase taken.1 (mem_statesAlong_of_mem_stepsAlong htaken))
    (herase taken htaken)

theorem onGrid_bootKernel (fs : FileSystem) : (bootKernel fs).screen.OnGrid :=
  (by decide : Screen.OnGrid ⟨0, 0, fun _ => 0⟩)

theorem savedOnGrid_bootKernel (fs : FileSystem) : (bootKernel fs).SavedOnGrid :=
  fun _ _ => ⟨(by decide : (0 : UInt32) < 80), (by decide : (0 : UInt32) < 25)⟩

def bootConsole (fs : FileSystem) : Console := ⟨bootKernel fs, fun _ => 0⟩

def strokes (codes : List UInt8) : List ScreenEvent :=
  codes.flatMap fun code => [.key default code, .key default (code + pressReleaseOffset)]

def typeAndErase : List ScreenEvent := strokes [0x1E, 0x30, 0x0E, 0x0E]

theorem isSome_run_typeAndErase :
    (run ScreenEvent.perform typeAndErase (bootConsole shellImage)).isSome := by
  decide

theorem onGrid_iff_not_erasesAtMargin_typeAndErase :
    ((∀ visited ∈ statesAlong ScreenEvent.perform typeAndErase (bootConsole shellImage),
        visited.kernel.screen.OnGrid) ∧
      ∀ taken ∈ stepsAlong ScreenEvent.perform typeAndErase (bootConsole shellImage),
        InTextBuffer (taken.2.stores taken.1)) ↔
      ∀ taken ∈ stepsAlong ScreenEvent.perform typeAndErase (bootConsole shellImage),
        ¬ ErasesAtMargin taken.1 taken.2 := by
  obtain ⟨final, hrun⟩ := Option.isSome_iff_exists.mp isSome_run_typeAndErase
  exact onGrid_iff_not_erasesAtMargin hrun (onGrid_bootKernel shellImage)
    (savedOnGrid_bootKernel shellImage)

/-- A key that repeats until its line wraps, and Backspace. -/
def wrapThenErase : List ScreenEvent :=
  List.replicate 80 (.key default 0x1E) ++ [.key default 0x0E]

/-- The last of the 80 characters is erased in the row above, from column -1. -/
theorem not_onGrid_wrapThenErase :
    ∃ visited ∈ statesAlong ScreenEvent.perform wrapThenErase (bootConsole shellImage),
      ¬ visited.kernel.screen.OnGrid := by
  have hcursor : (statesAlong ScreenEvent.perform wrapThenErase (bootConsole shellImage)).any
      (fun visited => !decide visited.kernel.screen.OnGrid) = true := by decide +kernel
  obtain ⟨visited, hvisited, hoff⟩ := List.any_eq_true.mp hcursor
  exact ⟨visited, hvisited, by simpa using hoff⟩

end LinuxOS
