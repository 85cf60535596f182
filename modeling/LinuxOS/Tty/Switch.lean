import LinuxOS.Tty.LineDiscipline
import LinuxOS.Tty.Screen

/-!
# Three terminals on one screen

A terminal is seen on the live screen while it is displayed and in its saved
copy otherwise.  No call changes what is seen of a terminal that is not
displayed, and a switch changes what is seen of none.
-/

namespace LinuxOS

open Foundation

/-- What is seen of a terminal: its 4000 bytes of text, its cursor and its line buffer. -/
@[ext] structure TerminalView where
  text : UInt32 → UInt8
  cursorX : Int
  cursorY : Int
  keyboardBuffer : Int → UInt8
  keyboardBufferSize : Int
  allowTerminalRead : Int

def Kernel.shown (kernel : Kernel) : UInt32 := kernel.displayTerminalId.toUInt32

def Terminal.savedView (terminal : Terminal) : TerminalView where
  text offset := if offset < terminalSize then terminal.terminalBuffer offset else 0
  cursorX := terminal.cursorPosX.toInt32.toInt
  cursorY := terminal.cursorPosY.toInt32.toInt
  keyboardBuffer := terminal.keyboardBuffer
  keyboardBufferSize := terminal.keyboardBufferSize
  allowTerminalRead := terminal.allowTerminalRead

def Screen.liveView (screen : Screen) (terminal : Terminal) : TerminalView where
  text offset := if offset < terminalSize then screen.videoMem (video + offset) else 0
  cursorX := screen.screenX
  cursorY := screen.screenY
  keyboardBuffer := terminal.keyboardBuffer
  keyboardBufferSize := terminal.keyboardBufferSize
  allowTerminalRead := terminal.allowTerminalRead

def Kernel.view (kernel : Kernel) (tid : UInt32) : TerminalView :=
  if kernel.shown = tid then kernel.screen.liveView kernel.displayed
  else (kernel.terminal tid.toInt32).savedView

theorem view_shown (kernel : Kernel) :
    kernel.view kernel.shown = kernel.screen.liveView kernel.displayed := if_pos rfl

theorem view_of_ne {kernel : Kernel} {tid : UInt32} (h : kernel.shown ≠ tid) :
    kernel.view tid = (kernel.terminal tid.toInt32).savedView := if_neg h

theorem toInt32_ne_of_shown_ne {kernel : Kernel} {tid : UInt32} (h : kernel.shown ≠ tid) :
    tid.toInt32 ≠ kernel.displayTerminalId := by
  rintro heq
  rw [Kernel.shown, ← heq] at h
  exact h (UInt32.toUInt32_toInt32 tid)

/-! ## The cursor survives the switch -/

/--
The cursor fits a 32-bit word although it may be left of column 0: every erased
character has been typed, so that column and pending characters stay in step.
-/
structure TerminalView.InRange (view : TerminalView) : Prop where
  nonneg : 0 ≤ view.keyboardBufferSize
  bounded : view.keyboardBufferSize ≤ 126
  left : view.keyboardBufferSize - 126 ≤ view.cursorX
  right : view.cursorX < 80
  top : 0 ≤ view.cursorY
  bottom : view.cursorY < 25

structure Kernel.ViewsInRange (kernel : Kernel) : Prop where
  shown : kernel.shown ≤ 2
  views : ∀ tid ≤ 2, (kernel.view tid).InRange

theorem toInt_toInt32_ofInt {value : Int} (hlow : -2 ^ 31 ≤ value) (hhigh : value < 2 ^ 31) :
    (UInt32.ofInt value).toInt32.toInt = value := by
  have hword : (UInt32.ofInt value).toNat = (value % 2 ^ 32).toNat := by
    rw [UInt32.ofInt, UInt32.toNat_ofNat_of_lt']
    rw [UInt32.size]
    omega
  rw [toInt_toInt32, hword]
  split <;> omega

theorem cursor_putc (c : UInt8) {screen : Screen} (hright : screen.screenX < 80)
    (htop : 0 ≤ screen.screenY) (hbottom : screen.screenY < 25) :
    ((putc c screen).screenX = 0 ∨ (putc c screen).screenX = screen.screenX + 1) ∧
      (putc c screen).screenX < 80 ∧ 0 ≤ (putc c screen).screenY ∧
      (putc c screen).screenY < 25 := by
  have hscroll : ∀ other : Screen, (scrollUp other).screenX = 0 ∧ (scrollUp other).screenY = 24 :=
    fun other => ⟨rfl, rfl⟩
  unfold putc
  split
  · split
    · rw [(hscroll screen).1, (hscroll screen).2]
      omega
    · refine ⟨.inl rfl, (by decide : (0 : Int) < 80), ?_, ?_⟩ <;> simp only <;> omega
  · split
    · split
      · rw [(hscroll _).1, (hscroll _).2]
        omega
      · refine ⟨.inl rfl, (by decide : (0 : Int) < 80), ?_, ?_⟩ <;> simp only <;> omega
    · refine ⟨.inr rfl, ?_, ?_, ?_⟩ <;> simp only <;> omega

/-! ## Calls on the displayed terminal -/

def TerminalOp.isSwitch : TerminalOp → Prop
  | .switchDisplay _ _ => True
  | _ => False

instance (op : TerminalOp) : Decidable op.isSwitch :=
  match op with
  | .switchDisplay _ _ => inferInstanceAs (Decidable True)
  | .putc _ => inferInstanceAs (Decidable False)
  | .bufAdd _ => inferInstanceAs (Decidable False)
  | .backspace => inferInstanceAs (Decidable False)
  | .clearScreen => inferInstanceAs (Decidable False)
  | .read _ _ => inferInstanceAs (Decidable False)

structure OnShown (before after : Kernel) : Prop where
  shown : after.displayTerminalId = before.displayTerminalId
  others : ∀ tid ≠ before.displayTerminalId, after.terminal tid = before.terminal tid

theorem OnShown.modifyDisplayed (kernel : Kernel) (change : Terminal → Terminal) :
    OnShown kernel (kernel.modifyDisplayed change) where
  shown := rfl
  others tid hne := by simp [Kernel.modifyDisplayed, hne]

theorem OnShown.of_screen {before after : Kernel} {screen : Screen}
    (h : OnShown { before with screen := screen } after) : OnShown before after := ⟨h.1, h.2⟩

theorem OnShown.refl (kernel : Kernel) : OnShown kernel kernel := ⟨rfl, fun _ _ => rfl⟩

theorem OnShown.shown_eq {before after : Kernel} (h : OnShown before after) :
    after.shown = before.shown := by rw [Kernel.shown, h.shown, Kernel.shown]

theorem OnShown.view_eq {before after : Kernel} (h : OnShown before after) {tid : UInt32}
    (hne : before.shown ≠ tid) : after.view tid = before.view tid := by
  rw [view_of_ne hne, view_of_ne (h.shown_eq ▸ hne), h.others _ (toInt32_ne_of_shown_ne hne)]

theorem Kernel.ViewsInRange.onShown {before after : Kernel} (h : before.ViewsInRange)
    (hon : OnShown before after)
    (hrange : (after.screen.liveView after.displayed).InRange) : after.ViewsInRange where
  shown := hon.shown_eq ▸ h.shown
  views tid htid := by
    by_cases hshown : after.shown = tid
    · rw [← hshown, view_shown]
      exact hrange
    · rw [hon.view_eq (hon.shown_eq ▸ hshown)]
      exact h.views tid htid

theorem Kernel.ViewsInRange.live {kernel : Kernel} (h : kernel.ViewsInRange) :
    (kernel.screen.liveView kernel.displayed).InRange := by
  rw [← view_shown]
  exact h.views _ h.shown

theorem onShown_terminalBufAdd (char : UInt8) (kernel : Kernel) :
    OnShown kernel (terminalBufAdd char kernel) := by
  unfold terminalBufAdd
  split
  · exact .refl kernel
  split
  · exact .of_screen (.modifyDisplayed (kernel.modifyScreen (putc char)) _)
  · exact .of_screen (.modifyDisplayed (kernel.modifyScreen (putc char)) _)

theorem onShown_terminalBackspace (kernel : Kernel) :
    OnShown kernel (terminalBackspace kernel) := by
  unfold terminalBackspace
  split
  · exact .refl kernel
  · exact .of_screen (.modifyDisplayed (kernel.modifyScreen eraseOnScreen) _)

theorem inRange_terminalBufAdd (char : UInt8) {kernel : Kernel}
    (h : (kernel.screen.liveView kernel.displayed).InRange) :
    ((terminalBufAdd char kernel).screen.liveView
      (terminalBufAdd char kernel).displayed).InRange := by
  obtain ⟨hnonneg, hbounded, hleft, hright, htop, hbottom⟩ := h
  have hlimit : keyboardMaxBuffer - 2 = 126 := rfl
  simp only [Screen.liveView] at hnonneg hbounded hleft hright htop hbottom
  rw [screen_terminalBufAdd, displayed_terminalBufAdd, hlimit]
  by_cases hfull : kernel.displayed.keyboardBufferSize ≥ 126
  · rw [if_pos hfull, if_pos hfull]
    exact ⟨hnonneg, hbounded, hleft, hright, htop, hbottom⟩
  · rw [if_neg hfull, if_neg hfull]
    obtain ⟨hx, hx', hy, hy'⟩ := cursor_putc char hright htop hbottom
    have hsize : (if char = 0x0A then { kernel.displayed.append char with allowTerminalRead := 1 }
        else kernel.displayed.append char).keyboardBufferSize =
        kernel.displayed.keyboardBufferSize + 1 := by split <;> rfl
    constructor <;> simp only [Screen.liveView, hsize] <;> omega

theorem inRange_terminalBackspace {kernel : Kernel}
    (h : (kernel.screen.liveView kernel.displayed).InRange) :
    ((terminalBackspace kernel).screen.liveView (terminalBackspace kernel).displayed).InRange := by
  obtain ⟨hnonneg, hbounded, hleft, hright, htop, hbottom⟩ := h
  simp only [Screen.liveView] at hnonneg hbounded hleft hright htop hbottom
  rw [screen_terminalBackspace, displayed_terminalBackspace]
  by_cases hempty : kernel.displayed.keyboardBufferSize = 0
  · rw [if_pos hempty, if_pos hempty]
    exact ⟨hnonneg, hbounded, hleft, hright, htop, hbottom⟩
  · rw [if_neg hempty, if_neg hempty]
    obtain ⟨hx, hy⟩ := cursor_eraseOnScreen hright
    constructor <;> simp only [Screen.liveView, Terminal.erase] <;> omega

theorem inRange_drain {screen : Screen} {terminal : Terminal}
    (h : (screen.liveView terminal).InRange) (keyboardBuffer : Int → UInt8) :
    (screen.liveView { terminal with
      keyboardBuffer := keyboardBuffer
      keyboardBufferSize := 0
      allowTerminalRead := 0 }).InRange := by
  obtain ⟨hnonneg, hbounded, hleft, hright, htop, hbottom⟩ := h
  simp only [Screen.liveView] at hnonneg hbounded hleft hright htop hbottom
  constructor <;> simp only [Screen.liveView] <;> omega

/-! ## The switch -/

theorem shown_toInt32 {after : Kernel} {tid : UInt32} (h : after.displayTerminalId = tid.toInt32) :
    after.shown = tid := by
  rw [Kernel.shown, h, UInt32.toUInt32_toInt32]

theorem savedView_saveScreen {kernel : Kernel}
    (h : (kernel.screen.liveView kernel.displayed).InRange) :
    ((saveScreen kernel).terminal kernel.displayTerminalId).savedView =
      kernel.screen.liveView kernel.displayed := by
  obtain ⟨hnonneg, hbounded, hleft, hright, htop, hbottom⟩ := h
  simp only [Screen.liveView] at hnonneg hbounded hleft hright htop hbottom
  have hx := toInt_toInt32_ofInt (by omega : -2 ^ 31 ≤ kernel.screen.screenX) (by omega)
  have hy := toInt_toInt32_ofInt (by omega : -2 ^ 31 ≤ kernel.screen.screenY) (by omega)
  have hsaved : (saveScreen kernel).terminal kernel.displayTerminalId =
      { kernel.displayed with
        cursorPosX := UInt32.ofInt kernel.screen.screenX
        cursorPosY := UInt32.ofInt kernel.screen.screenY
        terminalBuffer := fun k =>
          if k < terminalSize then kernel.screen.videoMem (video + k)
          else kernel.displayed.terminalBuffer k } := by
    simp [saveScreen, Kernel.modifyDisplayed]
  rw [hsaved]
  ext
  · simp only [Terminal.savedView, Screen.liveView]
    split <;> simp_all
  · exact hx
  · exact hy
  · rfl
  · rfl
  · rfl

theorem liveView_restoreScreen (kernel : Kernel) :
    (restoreScreen kernel).screen.liveView (restoreScreen kernel).displayed =
      kernel.displayed.savedView := by
  ext
  · next offset =>
      have hoffset : video + offset - video = offset := by
        rw [UInt32.add_comm, UInt32.add_sub_cancel]
      simp only [restoreScreen, Kernel.modifyScreen, Screen.liveView, Terminal.savedView,
        setScreenPos, hoffset]
      split <;> rfl
  · rfl
  · rfl
  · rfl
  · rfl
  · rfl

theorem view_exchangeScreens {kernel : Kernel} {tid : UInt32} (hrange : kernel.ViewsInRange)
    (hmove : kernel.shown ≠ tid) (other : UInt32) :
    (exchangeScreens tid kernel).view other = kernel.view other := by
  have hshown : (exchangeScreens tid kernel).shown = tid := shown_toInt32 rfl
  by_cases htid : tid = other
  · have hbrought : (exchangeScreens tid kernel).view other =
        ((saveScreen kernel).terminal tid.toInt32).savedView :=
      (if_pos (hshown.trans htid)).trans
        (liveView_restoreScreen { saveScreen kernel with displayTerminalId := tid.toInt32 })
    rw [hbrought, ← htid, view_of_ne hmove, saveScreen,
      (OnShown.modifyDisplayed kernel _).others _ (toInt32_ne_of_shown_ne hmove)]
  · rw [view_of_ne (hshown ▸ htid)]
    change ((saveScreen kernel).terminal other.toInt32).savedView = kernel.view other
    by_cases hother : kernel.shown = other
    · have hword : other.toInt32 = kernel.displayTerminalId := by
        rw [← hother, Kernel.shown, Int32.toInt32_toUInt32]
      rw [hword, savedView_saveScreen hrange.live, ← hother, view_shown]
    · rw [view_of_ne hother, saveScreen,
        (OnShown.modifyDisplayed kernel _).others _ (toInt32_ne_of_shown_ne hother)]

theorem view_congr {before after : Kernel} (hshown : after.displayTerminalId =
    before.displayTerminalId) (hscreen : after.screen = before.screen)
    (hterminal : after.terminal = before.terminal) (tid : UInt32) :
    after.view tid = before.view tid := by
  have hsame : after.shown = before.shown := congrArg Int32.toUInt32 hshown
  have hdisplayed : after.displayed = before.displayed := by
    rw [Kernel.displayed, hshown, hterminal, Kernel.displayed]
  rw [Kernel.view, Kernel.view, hsame, hdisplayed, hscreen, hterminal]

theorem view_switchDisplayTerminal {regs : SwitchRegs} {tid : UInt32} {kernel after : Kernel}
    (hrange : kernel.ViewsInRange)
    (h : switchDisplayTerminal regs tid kernel = some after) (other : UInt32) :
    after.view other = kernel.view other := by
  rcases switchDisplayTerminal_exchanges h with ⟨-, rfl⟩ | ⟨hmove, hscreen, hterminal, hshown⟩
  · rfl
  · rw [view_congr hshown hscreen hterminal, view_exchangeScreens hrange fun h => hmove (.inl h)]

/-! ## Every call -/

theorem Kernel.ViewsInRange.switchDisplay {regs : SwitchRegs} {tid : UInt32}
    {kernel after : Kernel} (hrange : kernel.ViewsInRange)
    (h : switchDisplayTerminal regs tid kernel = some after) : after.ViewsInRange where
  shown := by
    rcases switchDisplayTerminal_exchanges h with ⟨-, rfl⟩ | ⟨hmove, -, -, hshown⟩
    · exact hrange.shown
    · rw [shown_toInt32 hshown]
      exact UInt32.not_lt.mp fun hlt => hmove (.inr hlt)
  views other hother := by
    rw [view_switchDisplayTerminal hrange h]
    exact hrange.views other hother

theorem onShown_perform {op : TerminalOp} {kernel next : Kernel} (hrange : kernel.ViewsInRange)
    (hswitch : ¬ op.isSwitch) (hperform : op.perform kernel = some next) :
    OnShown kernel next ∧ next.ViewsInRange := by
  have hlive := hrange.live
  cases op with
  | putc c =>
      cases hperform
      have hon : OnShown kernel (kernel.modifyScreen (putc c)) := .of_screen (.refl _)
      refine ⟨hon, hrange.onShown hon ?_⟩
      obtain ⟨hnonneg, hbounded, hleft, hright, htop, hbottom⟩ := hlive
      obtain ⟨hx, hx', hy, hy'⟩ := cursor_putc c hright htop hbottom
      simp only [Screen.liveView] at hnonneg hbounded hleft
      rw [displayed_modifyScreen]
      constructor <;> simp only [Screen.liveView, Kernel.modifyScreen] <;> omega
  | bufAdd char =>
      cases hperform
      exact ⟨onShown_terminalBufAdd char kernel,
        hrange.onShown (onShown_terminalBufAdd char kernel) (inRange_terminalBufAdd char hlive)⟩
  | backspace =>
      cases hperform
      exact ⟨onShown_terminalBackspace kernel,
        hrange.onShown (onShown_terminalBackspace kernel) (inRange_terminalBackspace hlive)⟩
  | clearScreen =>
      cases hperform
      have hon : OnShown kernel (LinuxOS.clearScreen kernel) := .of_screen (.refl _)
      refine ⟨hon, hrange.onShown hon ?_⟩
      obtain ⟨hnonneg, hbounded, -, -, -, -⟩ := hlive
      simp only [Screen.liveView] at hnonneg hbounded
      rw [LinuxOS.clearScreen, displayed_modifyScreen]
      constructor <;> simp only [Screen.liveView, Kernel.modifyScreen, resetPosition] <;> omega
  | read buf nbytes =>
      obtain ⟨⟨after, result, stores⟩, hread, hafter⟩ := Option.map_eq_some_iff.mp hperform
      obtain ⟨keyboardBuffer, rfl⟩ := terminalRead_cases hread
      cases hafter
      refine ⟨.modifyDisplayed kernel _, hrange.onShown (.modifyDisplayed kernel _) ?_⟩
      rw [displayed_modifyDisplayed]
      exact inRange_drain hlive keyboardBuffer
  | switchDisplay regs tid => exact absurd trivial hswitch

/-- A call changes what is seen of no terminal but the displayed one; a switch, of none. -/
theorem view_perform {op : TerminalOp} {kernel next : Kernel} (hrange : kernel.ViewsInRange)
    (hperform : op.perform kernel = some next) :
    next.ViewsInRange ∧
      ∀ tid, (kernel.shown = tid → op.isSwitch) → next.view tid = kernel.view tid := by
  by_cases hswitch : op.isSwitch
  · cases op with
    | switchDisplay regs tid =>
        exact ⟨hrange.switchDisplay hperform,
          fun other _ => view_switchDisplayTerminal hrange hperform other⟩
    | putc c => exact hswitch.elim
    | bufAdd char => exact hswitch.elim
    | backspace => exact hswitch.elim
    | clearScreen => exact hswitch.elim
    | read buf nbytes => exact hswitch.elim
  · obtain ⟨hon, hnext⟩ := onShown_perform hrange hswitch hperform
    exact ⟨hnext, fun tid haway => hon.view_eq fun hshown => hswitch (haway hshown)⟩

theorem viewsInRange_run {events : List TerminalOp} {start final : Kernel}
    (hstart : start.ViewsInRange) (hrun : run TerminalOp.perform events start = some final) :
    final.ViewsInRange :=
  run_invariant (fun _ _ _ hrange hperform => (view_perform hrange hperform).1) hrun hstart

theorem view_run {events : List TerminalOp} {source final : Kernel} {tid : UInt32}
    (hrange : source.ViewsInRange) (hrun : run TerminalOp.perform events source = some final)
    (haway : ∀ taken ∈ stepsAlong TerminalOp.perform events source,
      taken.1.shown = tid → taken.2.isSwitch) : final.view tid = source.view tid := by
  induction events generalizing source with
  | nil =>
      cases hrun
      rfl
  | cons op events ih =>
      obtain ⟨next, hperform, hrest⟩ := run_cons_eq_some.mp hrun
      rw [stepsAlong_cons hperform, List.forall_mem_cons] at haway
      obtain ⟨hfirst, hothers⟩ := haway
      obtain ⟨hnext, hview⟩ := view_perform hrange hperform
      rw [ih hnext hrest hothers, hview tid hfirst]

/-! ## From boot -/

def emptyView : TerminalView := ⟨fun _ => 0, 0, 0, fun _ => 0, 0, 0⟩

/-- The terminals as they are at boot; the screen may show anything. -/
structure FreshTerminals (kernel : Kernel) : Prop where
  firstShown : kernel.shown = 0
  home : kernel.screen.screenX = 0 ∧ kernel.screen.screenY = 0
  empty : ∀ tid : UInt32, tid ≤ 2 → kernel.terminal tid.toInt32 = emptyTerminal

theorem FreshTerminals.view_eq {kernel : Kernel} (h : FreshTerminals kernel) {tid : UInt32}
    (htid : tid ≤ 2) (hne : tid ≠ 0) : kernel.view tid = emptyView := by
  rw [view_of_ne (h.firstShown ▸ hne.symm), h.empty tid htid]
  ext
  · simp [Terminal.savedView, emptyTerminal, emptyView]
  all_goals rfl

theorem FreshTerminals.viewsInRange {kernel : Kernel} (h : FreshTerminals kernel) :
    kernel.ViewsInRange where
  shown := by rw [h.firstShown]; decide
  views tid htid := by
    by_cases hne : tid = 0
    · have hword : kernel.displayTerminalId = (0 : UInt32).toInt32 := by
        rw [← h.firstShown, Kernel.shown, Int32.toInt32_toUInt32]
      have hdisplayed : kernel.displayed = emptyTerminal := by
        rw [Kernel.displayed, hword, h.empty 0 (by decide)]
      rw [hne, ← h.firstShown, view_shown, hdisplayed]
      obtain ⟨hx, hy⟩ := h.home
      constructor <;> simp [Screen.liveView, emptyTerminal, hx, hy]
    · rw [h.view_eq htid hne]
      constructor <;> simp [emptyView]

/--
While a terminal is not displayed, and across the switches by which it goes and
comes back, nothing that is seen of it changes; a terminal that has never been
displayed is empty; and a switch to the displayed terminal, or to none of the
three, changes nothing at all.
-/
theorem terminals_isolated {start source final : Kernel} {earlier events : List TerminalOp}
    {tid : UInt32} (hstart : FreshTerminals start) (htid : tid ≤ 2)
    (hreach : run TerminalOp.perform earlier start = some source)
    (hrun : run TerminalOp.perform events source = some final)
    (haway : ∀ taken ∈ stepsAlong TerminalOp.perform events source,
      taken.1.shown = tid → taken.2.isSwitch) :
    final.view tid = source.view tid ∧ (tid ≠ 0 → start.view tid = emptyView) ∧
      ∀ regs other, source.shown = other ∨ other > 2 →
        (TerminalOp.switchDisplay regs other).perform source = some source := by
  have hrange := viewsInRange_run hstart.viewsInRange hreach
  refine ⟨view_run hrange hrun haway, hstart.view_eq htid, fun regs other hstay => ?_⟩
  have hswitch : switchDisplayTerminal regs other source = some source := by
    unfold switchDisplayTerminal
    exact if_pos hstay
  exact hswitch

theorem freshTerminals_bootKernel (fs : FileSystem) : FreshTerminals (bootKernel fs) where
  firstShown := rfl
  home := ⟨rfl, rfl⟩
  empty _ _ := rfl

def roundTrip : List TerminalOp :=
  [.switchDisplay default 1, .bufAdd 0x62, .switchDisplay default 0]

theorem terminals_isolated_roundTrip :
    ∃ source final, run TerminalOp.perform [.bufAdd 0x61] (bootKernel shellImage) = some source ∧
      run TerminalOp.perform roundTrip source = some final ∧
      final.view 0 = source.view 0 ∧
      ((0 : UInt32) ≠ 0 → (bootKernel shellImage).view 0 = emptyView) ∧
      ∀ regs other, source.shown = other ∨ other > 2 →
        (TerminalOp.switchDisplay regs other).perform source = some source := by
  have hany : (run TerminalOp.perform [.bufAdd 0x61] (bootKernel shellImage)).any (fun source =>
      (run TerminalOp.perform roundTrip source).isSome ∧
        ∀ taken ∈ stepsAlong TerminalOp.perform roundTrip source,
          taken.1.shown = 0 → taken.2.isSwitch) = true := by
    decide
  obtain ⟨source, hreach, hsource⟩ := (Option.any_eq_true _ _).mp hany
  obtain ⟨hsome, haway⟩ := of_decide_eq_true hsource
  obtain ⟨final, hrun⟩ := Option.isSome_iff_exists.mp hsome
  exact ⟨source, final, hreach, hrun,
    terminals_isolated (freshTerminals_bootKernel shellImage) (by decide) hreach hrun haway⟩

end LinuxOS
