import LinuxOS.Devices.Setup
import LinuxOS.Machine.Interrupts

/-!
# Every interrupt is acknowledged

Between two steps of the running program no line is in service, so that no
device is shut out, and a device asks exactly while it has something to say.
The exception is a device whose line is high as the controllers are initialised:
it waits for somebody to read it, and its line does not rise again.
-/

namespace LinuxOS

open Foundation

/-! ## The invariant -/

/--
The keyboard and the clock ask exactly while they are heard and there is a code
or a flag to be read; one that is not heard always has one.
-/
structure Asking (keyHeard clockHeard : Prop) (devices : Devices) : Prop where
  key : devices.pics.first.requested 1 = true ↔ keyHeard ∧ devices.waiting ≠ []
  clock : devices.pics.second.requested 0 = true ↔ clockHeard ∧ devices.clock.Raises
  keyStuck : ¬ keyHeard → devices.waiting ≠ []
  clockStuck : ¬ clockHeard → devices.clock.Raises

structure Attended (keyHeard clockHeard : Prop) (computer : Computer) : Prop where
  mirrored : Mirrored computer.board
  opened : computer.board.opened = fun line => decide (line ∈ deviceLines)
  service : ∀ line, computer.board.devices.pics.first.inService line = true →
    line = 0 ∧ 0 < computer.ending
  service' : computer.board.devices.pics.second.inService = noLines
  asking : Asking keyHeard clockHeard computer.board.devices

variable {keyHeard clockHeard : Prop}

theorem Attended.idle_of_free {computer : Computer} (h : Attended keyHeard clockHeard computer)
    (hfree : computer.board.devices.pics.first.inService 0 = false) :
    computer.board.devices.pics.Idle := by
  refine ⟨funext fun line => ?_, h.service'⟩
  cases hline : computer.board.devices.pics.first.inService line with
  | false => rfl
  | true =>
      obtain ⟨rfl, -⟩ := h.service line hline
      rw [hfree] at hline
      cases hline

theorem Attended.idle {computer : Computer} (h : Attended keyHeard clockHeard computer)
    (hending : computer.ending = 0) :
    computer.board.devices.pics.Idle := by
  refine h.idle_of_free (Bool.eq_false_iff.mpr fun hserved => ?_)
  have hpositive := (h.service 0 hserved).2
  omega

theorem Attended.open_first {computer : Computer} (h : Attended keyHeard clockHeard computer)
    (line : Fin 8) :
    computer.board.devices.pics.first.masked line = false ↔ ChipLine.first line ∈ deviceLines := by
  have hopened : (!linesOf computer.board.masterMask line) =
      decide (ChipLine.first line ∈ deviceLines) := congrFun h.opened (.first line)
  rw [h.mirrored.master, ← Bool.not_eq_true', hopened, decide_eq_true_iff]

theorem Attended.open_second {computer : Computer} (h : Attended keyHeard clockHeard computer)
    (line : Fin 8) :
    computer.board.devices.pics.second.masked line = false ↔
      ChipLine.second line ∈ deviceLines := by
  have hopened : (!linesOf computer.board.slaveMask line) =
      decide (ChipLine.second line ∈ deviceLines) := congrFun h.opened (.second line)
  rw [h.mirrored.slave, ← Bool.not_eq_true', hopened, decide_eq_true_iff]

theorem Attended.waits_iff {computer : Computer} (h : Attended keyHeard clockHeard computer)
    (line : ChipLine) :
    computer.board.devices.pics.Waits cascadeLine line ↔
      (line = .first 0 ∧ computer.board.devices.pics.first.requested 0 = true) ∨
      (line = .first 1 ∧ keyHeard ∧ computer.board.devices.waiting ≠ []) ∨
      (line = .second 0 ∧ clockHeard ∧ computer.board.devices.clock.Raises) := by
  rw [← h.asking.key, ← h.asking.clock]
  constructor
  · intro hwaits
    cases hwaits with
    | @first line hne hrequested hopen =>
        have hmem := (h.open_first line).mp hopen
        simp only [deviceLines, timerLine, List.mem_cons, List.not_mem_nil, or_false,
          ChipLine.first.injEq, reduceCtorEq] at hmem
        rcases hmem with rfl | rfl | rfl
        · exact .inl ⟨rfl, hrequested⟩
        · exact .inr (.inl ⟨rfl, hrequested⟩)
        · exact absurd rfl hne
    | @second line hlink hrequested hopen =>
        have hmem := (h.open_second line).mp hopen
        simp only [deviceLines, timerLine, List.mem_cons, List.not_mem_nil, or_false,
          ChipLine.second.injEq, reduceCtorEq, false_or] at hmem
        subst hmem
        exact .inr (.inr ⟨rfl, hrequested⟩)
  · rintro (⟨rfl, hrequested⟩ | ⟨rfl, hrequested⟩ | ⟨rfl, hrequested⟩)
    · exact .first (by decide) hrequested ((h.open_first 0).mpr (by decide))
    · exact .first (by decide) hrequested ((h.open_first 1).mpr (by decide))
    · exact .second ((h.open_first cascadeLine).mpr (by decide)) hrequested
        ((h.open_second 0).mpr (by decide))

theorem Attended.idle_of_delivers {computer : Computer}
    (h : Attended keyHeard clockHeard computer) {line : ChipLine}
    (hdelivers : computer.board.devices.pics.Delivers cascadeLine line) :
    computer.board.devices.pics.Idle := by
  refine h.idle_of_free (Bool.eq_false_iff.mpr fun hserved => ?_)
  exact Cascade.not_delivers_of_first hserved hdelivers

/-- What a step must keep, when it changes devices only in what is requested and in service. -/
theorem Attended.of_devices {before after : Computer} {devices : Devices}
    (h : Attended keyHeard clockHeard before)
    (hboard : after.board = { before.board with devices := devices })
    (hsame : before.board.devices.pics.SameSetup devices.pics)
    (hservice : ∀ line, devices.pics.first.inService line = true → line = 0 ∧ 0 < after.ending)
    (hservice' : devices.pics.second.inService = noLines)
    (hasking : Asking keyHeard clockHeard devices) : Attended keyHeard clockHeard after := by
  have hopened : after.board.opened = before.board.opened := by
    rw [hboard]
    rfl
  refine ⟨?_, hopened.trans h.opened, ?_, ?_, ?_⟩ <;> rw [hboard]
  · exact h.mirrored.same hsame
  · exact hservice
  · exact hservice'
  · exact hasking

theorem Attended.asks {before after : Computer} {devices : Devices}
    (h : Attended keyHeard clockHeard before)
    (hboard : after.board = { before.board with devices := devices })
    (hpics : devices.pics = before.board.devices.pics ∨
      ∃ line, devices.pics = before.board.devices.pics.request line)
    (hending : after.ending = before.ending) (hasking : Asking keyHeard clockHeard devices) :
    Attended keyHeard clockHeard after := by
  have hkept : before.board.devices.pics.SameSetup devices.pics ∧
      devices.pics.first.inService = before.board.devices.pics.first.inService ∧
      devices.pics.second.inService = before.board.devices.pics.second.inService := by
    rcases hpics with hpics | ⟨line, hpics⟩
    · rw [hpics]
      exact ⟨.refl _, rfl, rfl⟩
    · rw [hpics]
      cases line <;> exact ⟨.request _, rfl, rfl⟩
  refine h.of_devices hboard hkept.1 (fun line hline => ?_) (hkept.2.2.trans h.service') hasking
  rw [hending]
  exact h.service line (hkept.2.1 ▸ hline)

theorem type_cases (code : UInt8) (devices : Devices) :
    (devices.type code).waiting = devices.waiting ++ [code] ∧
      ((devices.type code).pics = devices.pics ∨
        ∃ line, (devices.type code).pics = devices.pics.request line) := by
  unfold Devices.type
  dsimp only
  split
  · exact ⟨rfl, .inr ⟨.first 1, rfl⟩⟩
  · exact ⟨rfl, .inl rfl⟩

theorem withClock_cases (clock : ClockChip) (devices : Devices) :
    (devices.withClock clock).waiting = devices.waiting ∧
      ((devices.withClock clock).pics = devices.pics ∨
        ∃ line, (devices.withClock clock).pics = devices.pics.request line) := by
  unfold Devices.withClock
  split
  · exact ⟨rfl, .inr ⟨.second 0, rfl⟩⟩
  · exact ⟨rfl, .inl rfl⟩

theorem service_of_idle {pics : Cascade} {ending : Nat} (h : pics.Idle) :
    (∀ line, pics.first.inService line = true → line = 0 ∧ 0 < ending) ∧
      pics.second.inService = noLines := by
  refine ⟨fun line hline => ?_, h.second⟩
  rw [h.first] at hline
  cases hline

/-! ## Requests -/

theorem ClockChip.raises_setFlags {clock : ClockChip} (flags : UInt8) (h : clock.Raises) :
    (clock.setFlags flags).Raises := by
  intro hzero
  apply h
  apply UInt8.toNat_inj.mp
  have hbits := congrArg UInt8.toNat hzero
  simp only [ClockChip.setFlags, UInt8.toNat_and, UInt8.toNat_or,
    Nat.and_or_distrib_right] at hbits ⊢
  exact (Nat.or_eq_zero_iff.mp hbits).1

namespace Asking

variable {devices : Devices} (h : Asking keyHeard clockHeard devices)

include h

theorem edge {line : ChipLine} (hkey : line ≠ .first 1) (hclock : line ≠ .second 0) :
    Asking keyHeard clockHeard (devices.edge line) := by
  refine ⟨?_, ?_, h.keyStuck, h.clockStuck⟩
  · cases line with
    | first line =>
        have hne : (1 : Fin 8) ≠ line := fun heq => hkey (congrArg _ heq.symm)
        simpa [Devices.edge, Cascade.request, Chip.request, hne] using h.key
    | second line => exact h.key
  · cases line with
    | first line => exact h.clock
    | second line =>
        have hne : (0 : Fin 8) ≠ line := fun heq => hclock (congrArg _ heq.symm)
        simpa [Devices.edge, Cascade.request, Chip.request, hne] using h.clock

theorem type (code : UInt8) : Asking keyHeard clockHeard (devices.type code) := by
  unfold Devices.type
  by_cases hempty : devices.waiting = []
  · have hheard : keyHeard := by
      by_contra hdeaf
      exact h.keyStuck hdeaf hempty
    simp only [if_pos hempty]
    refine ⟨?_, h.clock, fun _ => ?_, h.clockStuck⟩ <;>
      simp [Devices.edge, Cascade.request, Chip.request, hheard]
  · simp only [if_neg hempty]
    refine ⟨?_, h.clock, fun _ => by simp, h.clockStuck⟩
    simpa [hempty] using h.key

theorem setFlags (flags : UInt8) :
    Asking keyHeard clockHeard (devices.withClock (devices.clock.setFlags flags)) := by
  have hkept := KeptLines.withClock (devices.clock.setFlags flags) devices
  have hstays := @ClockChip.raises_setFlags devices.clock flags
  have hstuck := h.clockStuck
  refine ⟨?_, ?_, ?_, ?_⟩
  · rw [hkept.requested, hkept.waiting]
    exact h.key
  · rw [requested_withClock, Devices.withClock_clock, h.clock]
    tauto
  · rw [hkept.waiting]
    exact h.keyStuck
  · rw [Devices.withClock_clock]
    tauto

theorem serveTimer : Asking keyHeard clockHeard
    { devices with pics := devices.pics.serve cascadeLine timerLine } := by
  refine ⟨?_, h.clock, h.keyStuck, h.clockStuck⟩
  simpa [Cascade.serve, Chip.serve, timerLine] using h.key

theorem finish (line : ChipLine) : Asking keyHeard clockHeard
    { devices with pics := devices.pics.finish cascadeLine line } := by
  cases line <;> exact ⟨h.key, h.clock, h.keyStuck, h.clockStuck⟩

end Asking

/-- The controllers behind a read of the keyboard: another code that waits is a new edge. -/
def keyEdge : List UInt8 → Cascade → Cascade
  | [], pics => pics
  | _ :: _, pics => pics.request keyboardLine

theorem readKey_cons {devices : Devices} {code : UInt8} {codes : List UInt8}
    (h : devices.waiting = code :: codes) :
    devices.readKey =
      (code, { devices with
        pics := keyEdge codes devices.pics, waiting := codes, last := code }) := by
  cases codes with
  | nil => simp [Devices.readKey, h, keyEdge]
  | cons next codes => simp [Devices.readKey, h, keyEdge, keyboardLine, Devices.edge]

theorem sameSetup_keyEdge (codes : List UInt8) (pics : Cascade) :
    pics.SameSetup (keyEdge codes pics) := by
  cases codes with
  | nil => exact .refl pics
  | cons code codes => exact .request keyboardLine

theorem inService_keyEdge (codes : List UInt8) (pics : Cascade) :
    (keyEdge codes pics).first.inService = pics.first.inService ∧
      (keyEdge codes pics).second = pics.second := by
  cases codes with
  | nil => exact ⟨rfl, rfl⟩
  | cons code codes => exact ⟨rfl, rfl⟩

theorem Asking.serveKey {devices : Devices} (h : Asking keyHeard clockHeard devices)
    (hheard : keyHeard) (code : UInt8) (codes : List UInt8) :
    Asking keyHeard clockHeard { devices with
      pics := keyEdge codes (devices.pics.serve cascadeLine (.first 1))
      waiting := codes, last := code } := by
  refine ⟨?_, ?_, fun hdeaf => absurd hheard hdeaf, h.clockStuck⟩
  · cases codes <;>
      simp [keyEdge, keyboardLine, hheard, Cascade.serve, Cascade.request, Chip.request, Chip.serve]
  · rw [(inService_keyEdge codes _).2]
    exact h.clock

def ClockChip.readFlags (clock : ClockChip) : ClockChip := { clock with index := 0x0C, flags := 0 }

theorem not_raises_readFlags (clock : ClockChip) : ¬ clock.readFlags.Raises := by
  simp [ClockChip.Raises, ClockChip.readFlags]

theorem inb_statusRegC (board : Board) :
    ((board.outb Board.statusRegC Board.rtcPort).inb Board.cmosPort).2 =
      { board with devices.clock := board.devices.clock.readFlags } := by
  have hindex : (board.devices.clock.select Board.statusRegC).index = 0x0C := by
    have hselect : Board.statusRegC &&& 0x7F = 0x0C := by decide
    simpa [ClockChip.select] using hselect
  have hread : (board.devices.clock.select Board.statusRegC).read.2 =
      board.devices.clock.readFlags := by
    rw [ClockChip.read, if_pos hindex]
    exact congrArg (fun index => { board.devices.clock with index := index, flags := 0 }) hindex
  simp [Board.inb, Devices.inb, Board.cmosPort, hread, Devices.withClock, not_raises_readFlags]

theorem Asking.serveClock {devices : Devices} (h : Asking keyHeard clockHeard devices)
    (hheard : clockHeard) :
    Asking keyHeard clockHeard { devices with
      pics := devices.pics.serve cascadeLine (.second 0)
      clock := devices.clock.readFlags } := by
  refine ⟨?_, ?_, h.keyStuck, fun hdeaf => absurd hheard hdeaf⟩
  · simpa [Cascade.serve, Chip.serve, cascadeLine] using h.key
  · simp [Cascade.serve, Chip.serve, not_raises_readFlags]

/-! ## The handlers -/

theorem computerScheduler_cases {frame : TickFrame} {tNum : UInt32} {computer ticked : Computer}
    {exit : Exit} (h : computer.scheduler frame tNum = some (ticked, exit)) :
    ticked.console.keyDown = computer.console.keyDown ∧ ticked.ending = computer.ending ∧
      ((ticked.board = computer.board ∧ exit = .returned 0) ∨
        ticked.board = computer.board.sendEoi 0) := by
  unfold Computer.scheduler at h
  split at h
  · cases h
    exact ⟨rfl, rfl, .inl ⟨rfl, rfl⟩⟩
  obtain ⟨⟨booted, tNum⟩, -, h⟩ := Option.bind_eq_some_iff.mp h
  obtain ⟨active, -, h⟩ := Option.bind_eq_some_iff.mp h
  split at h
  · obtain ⟨⟨kernel, spawned⟩, -, hspawned⟩ := Option.map_eq_some_iff.mp h
    cases hspawned
    exact ⟨rfl, rfl, .inr rfl⟩
  · cases h
    exact ⟨rfl, rfl, .inl ⟨rfl, rfl⟩⟩

/-- A tick that `scheduler` comes back from ends later; one that runs a shell has been ended. -/
theorem computerPitHandler_cases {frame : TickFrame} {computer after : Computer}
    (h : computer.pitHandler frame = some after) :
    after.console.keyDown = computer.console.keyDown ∧
      ((after.board = computer.board ∧ after.ending = computer.ending + 1) ∨
        after.board = computer.board.sendEoi 0) := by
  obtain ⟨⟨ticked, exit⟩, hticked, hafter⟩ := Option.map_eq_some_iff.mp h
  obtain ⟨hkeys, hending, hcases⟩ := computerScheduler_cases hticked
  have hkept : after.console.keyDown = ticked.console.keyDown ∧ after.board = ticked.board := by
    subst hafter
    cases exit <;> exact ⟨rfl, rfl⟩
  refine ⟨hkept.1.trans hkeys, ?_⟩
  rcases hcases with ⟨hboard, rfl⟩ | hboard
  · subst hafter
    exact .inl ⟨hboard, congrArg (· + 1) hending⟩
  · exact .inr (hkept.2.trans hboard)

theorem pitHandler_machineStep {frame : TickFrame} {computer after : Computer}
    (h : computer.pitHandler frame = some after) :
    machineStep (.program (.kernel (.tick frame))) computer.console = some after.console := by
  obtain ⟨hkeys, -⟩ := computerPitHandler_cases h
  have hkernel := pitHandler_kernel frame computer
  rw [h, Option.map_some] at hkernel
  obtain ⟨⟨kernel, exit⟩, hpit, hsame⟩ := Option.map_eq_some_iff.mp hkernel.symm
  simp only [machineStep, programStep, freshPrograms, perform, hpit, Option.map_some, ← hkeys]
  simp only at hsame
  rw [hsame]

/-- The codes that are out of range call nothing either way. -/
theorem keyboardHandler_eq {regs : SwitchRegs} {computer after : Computer} {code : UInt8}
    {codes : List UInt8} (hwaiting : computer.board.devices.waiting = code :: codes)
    (h : computer.keyboardHandler regs = some after) :
    machineStep (.key regs code) computer.console = some after.console ∧
      after.ending = computer.ending ∧
      after.board = { computer.board with
        devices :=
          { computer.board.devices with
            pics := (keyEdge codes computer.board.devices.pics).finish cascadeLine (.first 1)
            waiting := codes, last := code } } := by
  have hread : computer.board.inb Computer.keyboardDataPort =
      (code, { computer.board with
        devices :=
          { computer.board.devices with
            pics := keyEdge codes computer.board.devices.pics
            waiting := codes
            last := code } }) := by
    simp [Board.inb, Devices.inb, Computer.keyboardDataPort, readKey_cons hwaiting]
  have heoi := sendEoi_irqOf { computer.board with
    devices :=
      { computer.board.devices with
        pics := keyEdge codes computer.board.devices.pics
        waiting := codes
        last := code } } (.first 1)
  simp only [Computer.keyboardHandler, hread] at h
  split at h
  · next hrange =>
      cases h
      refine ⟨?_, rfl, heoi⟩
      simp [machineStep, handleKey, LinuxOS.keyboardHandler, keyPress, hrange, Computer.sendEoi]
  split at h
  · next hlow hrange =>
      cases h
      refine ⟨?_, rfl, heoi⟩
      simp [machineStep, handleKey, LinuxOS.keyboardHandler, keyPress, hlow, hrange, Computer.sendEoi]
  · obtain ⟨console, hconsole, rfl⟩ := Option.map_eq_some_iff.mp h
    exact ⟨hconsole, rfl, heoi⟩

theorem rtcHandler_eq (computer : Computer) :
    machineStep .clock computer.console = some computer.rtcHandler.console ∧
      computer.rtcHandler.ending = computer.ending ∧
      computer.rtcHandler.board = { computer.board with
        devices :=
          { computer.board.devices with
            pics := computer.board.devices.pics.finish cascadeLine (.second 0)
            clock := computer.board.devices.clock.readFlags } } := by
  have heoi := sendEoi_irqOf { computer.board with
    devices.clock := computer.board.devices.clock.readFlags } (.second 0)
  refine ⟨rfl, rfl, ?_⟩
  simp only [Computer.rtcHandler, Computer.sendEoi, inb_statusRegC]
  exact heoi

/-! ## One step -/

def MachineEvent.pressCode : MachineEvent → Option UInt8
  | .key _ pressCode => some pressCode
  | _ => none

def ComputerEvent.typedCode : ComputerEvent → Option UInt8
  | .typed code => some code
  | _ => none

structure Heard (keyHeard clockHeard : Prop) (event : MachineEvent) : Prop where
  key : event.pressCode ≠ none → keyHeard
  clock : event = .clock → clockHeard

/-- What an interrupt is for the machine, and the code that it takes from the keyboard. -/
structure Taken (event : MachineEvent) (before after : Computer) : Prop where
  machine : machineStep event before.console = some after.console
  waiting : before.board.devices.waiting =
    event.pressCode.toList ++ after.board.devices.waiting

theorem idle_keyEdge_finish {pics : Cascade} (h : pics.Idle) (codes : List UInt8) :
    ((keyEdge codes (pics.serve cascadeLine (.first 1))).finish cascadeLine (.first 1)).Idle := by
  have hfinished := h.finish_serve cascadeLine (.first 1)
  obtain ⟨hfirst, hsecond⟩ := inService_keyEdge codes (pics.serve cascadeLine (.first 1))
  refine ⟨?_, ?_⟩
  · simp only [Cascade.finish, Chip.finish, hfirst]
    exact hfinished.first
  · exact (congrArg Chip.inService hsecond).trans hfinished.second

/-- The processor has taken the interrupt of a line, and the handler has not begun. -/
def Computer.taking (line : ChipLine) (computer : Computer) : Computer :=
  { computer with
    board.devices.pics := computer.board.devices.pics.serve cascadeLine line }

section Take

variable {before after : Computer} (h : Attended keyHeard clockHeard before)
  (hidle : before.board.devices.pics.Idle)

include h hidle

theorem Attended.takeTimer {frame : TickFrame}
    (hpit : (before.taking timerLine).pitHandler frame = some after) :
    Attended keyHeard clockHeard after ∧
      ∃ event, Heard keyHeard clockHeard event ∧ Taken event before after := by
  have hmachine := pitHandler_machineStep hpit
  have heard : Heard keyHeard clockHeard (.program (.kernel (.tick frame))) :=
    ⟨fun hkey => absurd rfl hkey, fun hclock => by cases hclock⟩
  obtain ⟨-, ⟨hboard, hending⟩ | hboard⟩ := computerPitHandler_cases hpit
  · refine ⟨h.of_devices hboard (.serve cascadeLine timerLine) (fun line hline => ?_) h.service'
      h.asking.serveTimer, _, heard, hmachine, ?_⟩
    · -- the line of the timer is the only one that is in service now
      have hother : line ≠ 0 → before.board.devices.pics.first.inService line = true := by
        intro hne
        by_cases hauto : before.board.devices.pics.first.autoEnd <;>
          simpa [Cascade.serve, Chip.serve, timerLine, hauto, hne] using hline
      refine ⟨?_, hending ▸ Nat.succ_pos _⟩
      by_contra hne
      have hserved := hother hne
      rw [hidle.first] at hserved
      cases hserved
    · rw [hboard]
      rfl
  · have heoi := hboard.trans (sendEoi_irqOf _ timerLine)
    obtain ⟨hservice, hservice'⟩ := service_of_idle (hidle.finish_serve cascadeLine timerLine)
    refine ⟨h.of_devices heoi
      ((Cascade.SameSetup.serve cascadeLine timerLine).trans (.finish cascadeLine timerLine))
      hservice hservice' (h.asking.serveTimer.finish timerLine), _, heard, hmachine, ?_⟩
    rw [heoi]
    rfl

theorem Attended.takeKey {regs : SwitchRegs}
    (hheard : keyHeard) (hnonempty : before.board.devices.waiting ≠ [])
    (hkey : (before.taking (.first 1)).keyboardHandler regs = some after) :
    Attended keyHeard clockHeard after ∧
      ∃ event, Heard keyHeard clockHeard event ∧ Taken event before after := by
  obtain ⟨code, codes, hwaiting⟩ := List.exists_cons_of_ne_nil hnonempty
  have htaken : (before.taking (.first 1)).board.devices.waiting = code :: codes := hwaiting
  obtain ⟨hmachine, hending, hboard⟩ := keyboardHandler_eq htaken hkey
  obtain ⟨hservice, hservice'⟩ := service_of_idle (idle_keyEdge_finish hidle codes)
  refine ⟨h.of_devices hboard
    (((Cascade.SameSetup.serve cascadeLine (.first 1)).trans (sameSetup_keyEdge codes _)).trans
      (.finish cascadeLine (.first 1)))
    hservice hservice' ((h.asking.serveKey hheard code codes).finish (.first 1)), _,
    ⟨fun _ => hheard, fun hclock => by cases hclock⟩, hmachine, ?_⟩
  rw [hboard, hwaiting]
  rfl

theorem Attended.takeClock (hheard : clockHeard)
    (hclock : (before.taking (.second 0)).rtcHandler = after) :
    Attended keyHeard clockHeard after ∧
      ∃ event, Heard keyHeard clockHeard event ∧ Taken event before after := by
  obtain ⟨hmachine, hending, hboard⟩ := rtcHandler_eq (before.taking (.second 0))
  rw [hclock] at hmachine hending hboard
  obtain ⟨hservice, hservice'⟩ := service_of_idle (hidle.finish_serve cascadeLine (.second 0))
  refine ⟨h.of_devices hboard
    ((Cascade.SameSetup.serve cascadeLine (.second 0)).trans (.finish cascadeLine (.second 0)))
    hservice hservice' ((h.asking.serveClock hheard).finish (.second 0)), _,
    ⟨fun hkey => absurd rfl hkey, fun _ => hheard⟩, hmachine, ?_⟩
  rw [hboard]
  rfl

end Take

theorem Attended.interrupt {frame : TickFrame} {regs : SwitchRegs} {before after : Computer}
    (h : Attended keyHeard clockHeard before) (hstep : before.interrupt frame regs = some after) :
    Attended keyHeard clockHeard after ∧
      ∃ event, Heard keyHeard clockHeard event ∧ Taken event before after := by
  obtain ⟨⟨vector, pics⟩, hacknowledge, hhandle⟩ := Option.bind_eq_some_iff.mp hstep
  obtain ⟨line, hdelivers, rfl, rfl⟩ :=
    (Cascade.acknowledge_eq_some_iff h.mirrored.ready).mp hacknowledge
  have hidle := h.idle_of_delivers hdelivers
  obtain ⟨rfl, -⟩ | ⟨rfl, hheard, hnonempty⟩ | ⟨rfl, hheard, -⟩ :=
    (h.waits_iff line).mp hdelivers.waits
  · exact h.takeTimer hidle hhandle
  · exact h.takeKey hidle hheard hnonempty hhandle
  · exact h.takeClock hidle hheard (Option.some.inj hhandle)

/-- The machine takes the events, all of devices that are heard, and codes move on in order. -/
structure Carried (keyHeard clockHeard : Prop) (typed : List UInt8) (events : List MachineEvent)
    (before after : Computer) : Prop where
  heard : ∀ event ∈ events, Heard keyHeard clockHeard event
  machine : run machineStep events before.console = some after.console
  keys : before.board.devices.waiting ++ typed =
    events.filterMap MachineEvent.pressCode ++ after.board.devices.waiting

theorem Taken.carried {event : MachineEvent} {before after : Computer}
    (hheard : Heard keyHeard clockHeard event) (h : Taken event before after) :
    Carried keyHeard clockHeard [] [event] before after where
  heard other hother := by
    rw [List.mem_singleton.mp hother]
    exact hheard
  machine := by simp [run, h.machine]
  keys := by
    rw [List.append_nil, h.waiting]
    cases hcode : event.pressCode <;> simp [hcode]

theorem heard_of_byProgram {event : MachineEvent} (h : event.byProgram = true) :
    event.pressCode = none ∧ Heard keyHeard clockHeard event := by
  have hcode : event.pressCode = none := by
    cases event with
    | key regs pressCode => cases h
    | _ => rfl
  refine ⟨hcode, fun hkey => absurd hcode hkey, fun hclock => ?_⟩
  rw [hclock] at h
  cases h

theorem carried_nil {typed : List UInt8} {before after : Computer}
    (hconsole : after.console = before.console)
    (hkeys : after.board.devices.waiting = before.board.devices.waiting ++ typed) :
    Carried keyHeard clockHeard typed [] before after where
  heard _ hmem := by cases hmem
  machine := by rw [hconsole, run_nil]
  keys := by rw [hkeys, List.filterMap_nil, List.nil_append]

theorem Attended.step {event : ComputerEvent} {before after : Computer}
    (h : Attended keyHeard clockHeard before) (hstep : computerStep event before = some after) :
    Attended keyHeard clockHeard after ∧
      ∃ events, Carried keyHeard clockHeard event.typedCode.toList events before after := by
  cases event with
  | timerEdge =>
      cases hstep
      exact ⟨h.asks rfl (.inr ⟨timerLine, rfl⟩) rfl (h.asking.edge (by decide) (by decide)), [],
        carried_nil rfl (List.append_nil _).symm⟩
  | typed code =>
      cases hstep
      obtain ⟨hwaiting, hpics⟩ := type_cases code before.board.devices
      exact ⟨h.asks rfl hpics rfl (h.asking.type code), [], carried_nil rfl hwaiting⟩
  | clockFlags flags =>
      cases hstep
      obtain ⟨hwaiting, hpics⟩ :=
        withClock_cases (before.board.devices.clock.setFlags flags) before.board.devices
      exact ⟨h.asks rfl hpics rfl (h.asking.setFlags flags), [],
        carried_nil rfl (hwaiting.trans (List.append_nil _).symm)⟩
  | otherEdge line =>
      simp only [computerStep] at hstep
      split at hstep
      · cases hstep
      · next hother =>
          cases hstep
          have hkey : line ≠ .first 1 := fun heq => hother (heq ▸ by decide)
          have hclock : line ≠ .second 0 := fun heq => hother (heq ▸ by decide)
          exact ⟨h.asks rfl (.inr ⟨line, rfl⟩) rfl (h.asking.edge hkey hclock), [],
            carried_nil rfl (List.append_nil _).symm⟩
  | interrupt frame regs =>
      obtain ⟨hattended, taken, hheard, htaken⟩ := h.interrupt hstep
      exact ⟨hattended, [taken], htaken.carried hheard⟩
  | tickEnds =>
      simp only [computerStep] at hstep
      split at hstep
      · cases hstep
      · have heoi : before.board.sendEoi pitIrqNum = _ := sendEoi_irqOf before.board timerLine
        have hwaiting : (before.board.sendEoi pitIrqNum).devices.waiting =
            before.board.devices.waiting := by rw [heoi]
        cases hstep
        refine ⟨h.of_devices heoi (.finish cascadeLine timerLine) (fun line hline => ?_) h.service'
          (h.asking.finish timerLine), [],
          carried_nil rfl (hwaiting.trans (List.append_nil _).symm)⟩
        -- the line of the timer was the only one in service
        by_cases hfirst : line = 0
        · subst hfirst
          simp [Cascade.finish, Chip.finish, timerLine] at hline
        · have hserved : before.board.devices.pics.first.inService line = true := by
            simpa [Cascade.finish, Chip.finish, timerLine, hfirst] using hline
          exact absurd (h.service line hserved).1 hfirst
  | program event =>
      simp only [computerStep] at hstep
      split at hstep
      · next hmine =>
          obtain ⟨console, hconsole, rfl⟩ := Option.map_eq_some_iff.mp hstep
          obtain ⟨hcode, hheard⟩ := heard_of_byProgram hmine.1
          refine ⟨⟨h.mirrored, h.opened, h.service, h.service', h.asking⟩, [event],
            fun other hother => ?_, ?_, ?_⟩
          · rw [List.mem_singleton.mp hother]
            exact hheard
          · simp [run, hconsole]
          · simp [ComputerEvent.typedCode, hcode]
      · cases hstep

/-! ## Runs -/

theorem Attended.run {events : List ComputerEvent} {start final : Computer}
    (h : Attended keyHeard clockHeard start) (hrun : run computerStep events start = some final) :
    Attended keyHeard clockHeard final ∧
      ∃ taken, Carried keyHeard clockHeard (events.filterMap ComputerEvent.typedCode) taken start
        final := by
  induction events generalizing start with
  | nil =>
      cases hrun
      exact ⟨h, [], carried_nil rfl (List.append_nil _).symm⟩
  | cons event events ih =>
      obtain ⟨next, hstep, hrest⟩ := run_cons_eq_some.mp hrun
      obtain ⟨hnext, taken, hcarried⟩ := h.step hstep
      obtain ⟨hfinal, others, hcarried'⟩ := ih hnext hrest
      have htyped : (event :: events).filterMap ComputerEvent.typedCode =
          event.typedCode.toList ++ events.filterMap ComputerEvent.typedCode := by
        cases hcode : event.typedCode <;> simp [hcode]
      refine ⟨hfinal, taken ++ others, fun other hother => ?_,
        run_append hcarried.machine hcarried'.machine, ?_⟩
      · rcases List.mem_append.mp hother with hother | hother
        · exact hcarried.heard other hother
        · exact hcarried'.heard other hother
      · rw [htyped, ← List.append_assoc, hcarried.keys, List.append_assoc, hcarried'.keys,
          List.filterMap_append, List.append_assoc]

/-! ## From `entry` on -/

theorem ClockEnabled.raises {before after : ClockChip} (h : ClockEnabled before after)
    (hraises : before.Raises) : after.Raises := by
  intro hzero
  apply hraises
  apply UInt8.toNat_inj.mp
  rw [h.flags, h.periodic] at hzero
  have hbits := congrArg UInt8.toNat hzero
  simp only [UInt8.toNat_and, UInt8.toNat_or, Nat.and_or_distrib_left,
    Nat.and_or_distrib_right] at hbits ⊢
  exact (Nat.or_eq_zero_iff.mp hbits).1

def bootComputer (console : Console) (devices : Devices) : Computer where
  console := console
  board := (bootBoard devices).entry
  ending := 0

theorem attended_bootComputer (console : Console) (devices : Devices) :
    Attended (devices.waiting = []) (¬ devices.clock.Raises) (bootComputer console devices) := by
  have hsetUp := setUp_entry devices
  obtain ⟨hservice, hservice'⟩ := service_of_idle hsetUp.idle
  refine ⟨hsetUp.mirrored, hsetUp.opened, hservice, hservice', ⟨?_, ?_, ?_, ?_⟩⟩ <;>
    simp only [bootComputer]
  · rw [hsetUp.noKeys, hsetUp.waiting]
    simp [noLines]
  · rw [hsetUp.clockRequest, and_comm]
  · rw [hsetUp.waiting]
    exact id
  · exact fun hstuck => hsetUp.clock.raises (not_not.mp hstuck)

/--
What runs above the controllers is the machine: the codes that were in the
keyboard at `entry` and those typed since are handled once each and in order,
but none at all if there were any at `entry`, and no interrupt of the clock if
it was raised then.
-/
theorem machine_of_boot (console : Console) (devices : Devices) (events : List ComputerEvent)
    (final : Computer)
    (hrun : run computerStep events (bootComputer console devices) = some final) :
    ∃ taken,
      run machineStep taken console = some final.console ∧
      devices.waiting ++ events.filterMap ComputerEvent.typedCode =
        taken.filterMap MachineEvent.pressCode ++ final.board.devices.waiting ∧
      (devices.waiting ≠ [] → taken.filterMap MachineEvent.pressCode = []) ∧
      (devices.clock.Raises → MachineEvent.clock ∉ taken) := by
  obtain ⟨-, taken, hcarried⟩ := (attended_bootComputer console devices).run hrun
  have hwaiting : (bootComputer console devices).board.devices.waiting = devices.waiting :=
    (setUp_entry devices).waiting
  refine ⟨taken, hcarried.machine, hwaiting ▸ hcarried.keys, fun hdeaf => ?_, fun hstuck hmem => ?_⟩
  · refine List.filterMap_eq_nil_iff.mpr fun event hmem => ?_
    by_contra hcode
    exact hdeaf ((hcarried.heard event hmem).key hcode)
  · exact (hcarried.heard _ hmem).clock rfl hstuck

def quietChip : Chip where
  expects := .masks
  single := false
  withMode := false
  base := 0
  wiring := 0
  autoEnd := false
  masked := noLines
  requested := noLines
  inService := noLines

def quietDevices : Devices where
  pics := ⟨quietChip, quietChip⟩
  clock := ⟨0, fun _ => 0, 0⟩
  timer := ⟨0, none, 0⟩
  waiting := []
  last := 0

theorem machine_of_boot_typed :
    ∃ taken,
      run machineStep taken ⟨shellsKernel, fun _ => 0⟩ = some ⟨shellsKernel, fun _ => 0⟩ ∧
      [0x1E] = taken.filterMap MachineEvent.pressCode ++
        ((bootBoard quietDevices).entry.devices.type 0x1E).waiting := by
  obtain ⟨taken, hmachine, hkeys, -⟩ :=
    machine_of_boot ⟨shellsKernel, fun _ => 0⟩ quietDevices [.typed 0x1E] _ rfl
  exact ⟨taken, hmachine, hkeys⟩

/-! ## Whose turn it is -/

theorem Attended.vector_eq {computer : Computer} (h : Attended keyHeard clockHeard computer)
    (hidle : computer.board.devices.pics.Idle) {line : ChipLine}
    (hwaits : computer.board.devices.pics.Waits cascadeLine line)
    (hbefore : ∀ other, computer.board.devices.pics.Waits cascadeLine other → other ≠ line →
      (Cascade.rank cascadeLine line).1 < (Cascade.rank cascadeLine other).1) :
    (computer.board.devices.pics.acknowledge cascadeLine).map Prod.fst =
      some (Cascade.vector masterVector slaveVector line) := by
  obtain ⟨served, hdelivers⟩ := hidle.exists_delivers hwaits
  have hserved : served = line := by
    by_contra hne
    have hlt := hbefore served hdelivers.waits hne
    rcases hidle.rank_le hdelivers hwaits with hrank | ⟨hrank, -⟩ <;> omega
  subst hserved
  rw [(Cascade.acknowledge_eq_some_iff h.mirrored.ready).mpr ⟨served, hdelivers, rfl, rfl⟩]
  rfl

/-- The handler that is to run behind `entry`: the timer's, the keyboard's or the clock's. -/
theorem turn_of_boot (console : Console) (devices : Devices) (events : List ComputerEvent)
    (final : Computer)
    (hrun : run computerStep events (bootComputer console devices) = some final)
    (hending : final.ending = 0) :
    (final.board.devices.pics.acknowledge cascadeLine).map Prod.fst =
      if final.board.devices.pics.first.requested 0 = true then some vectorPit
      else if devices.waiting = [] ∧ final.board.devices.waiting ≠ [] then some vectorKeyboard
      else if ¬ devices.clock.Raises ∧ final.board.devices.clock.Raises then some vectorRtc
      else none := by
  obtain ⟨hattended, -⟩ := (attended_bootComputer console devices).run hrun
  have hidle := hattended.idle hending
  have hwaits := hattended.waits_iff
  split_ifs with htimer hkey hclock
  · refine hattended.vector_eq hidle ((hwaits (.first 0)).mpr (.inl ⟨rfl, htimer⟩)) ?_
    intro other hother hne
    obtain ⟨rfl, -⟩ | ⟨rfl, -⟩ | ⟨rfl, -⟩ := (hwaits other).mp hother
    · exact absurd rfl hne
    · decide
    · decide
  · refine hattended.vector_eq hidle ((hwaits (.first 1)).mpr (.inr (.inl ⟨rfl, hkey⟩))) ?_
    intro other hother hne
    obtain ⟨rfl, hrequested⟩ | ⟨rfl, -⟩ | ⟨rfl, -⟩ := (hwaits other).mp hother
    · exact absurd hrequested htimer
    · exact absurd rfl hne
    · decide
  · refine hattended.vector_eq hidle ((hwaits (.second 0)).mpr (.inr (.inr ⟨rfl, hclock⟩))) ?_
    intro other hother hne
    obtain ⟨rfl, hrequested⟩ | ⟨rfl, hcodes⟩ | ⟨rfl, -⟩ := (hwaits other).mp hother
    · exact absurd hrequested htimer
    · exact absurd hcodes hkey
    · exact absurd rfl hne
  · rw [Option.map_eq_none_iff, Option.eq_none_iff_forall_ne_some]
    rintro ⟨vector, after⟩ hacknowledge
    obtain ⟨line, hdelivers, -⟩ :=
      (Cascade.acknowledge_eq_some_iff hattended.mirrored.ready).mp hacknowledge
    obtain ⟨-, hrequested⟩ | ⟨-, hcodes⟩ | ⟨-, hraises⟩ := (hwaits line).mp hdelivers.waits
    · exact htimer hrequested
    · exact hkey hcodes
    · exact hclock hraises

theorem turn_of_boot_tick :
    (((bootBoard quietDevices).entry.devices.edge timerLine).pics.acknowledge cascadeLine).map
      Prod.fst = some vectorPit :=
  (turn_of_boot ⟨shellsKernel, fun _ => 0⟩ quietDevices [.timerEdge] _ rfl rfl).trans (if_pos rfl)

end LinuxOS
