import LinuxOS.Devices.Masks
import LinuxOS.Files.RtcRate

/-!
# The devices as `entry` leaves them

Registers of the clock are selected through one port and used through another.
Whatever the firmware has left in the devices, afterwards three lines and the
one between the controllers are open, the clock interrupts 1024 times a second,
and the timer has its reload value.
-/

namespace LinuxOS

open Foundation

/-! ## Registers of the clock -/

def ClockChip.hold (register value : UInt8) (clock : ClockChip) : ClockChip :=
  { clock with index := register, register := Function.update clock.register register value }

theorem ClockChip.select_select (byte : UInt8) (clock : ClockChip) :
    (clock.select byte).select byte = clock.select byte := rfl

@[simp] theorem Devices.withClock_clock (clock : ClockChip) (devices : Devices) :
    (devices.withClock clock).clock = clock := by
  unfold withClock
  split <;> rfl

namespace Board

@[simp] theorem outb_rtcPort (data : UInt8) (board : Board) :
    board.outb data rtcPort =
      { board with devices.clock := board.devices.clock.select data } := by
  have hsame : ¬ ((board.devices.clock.select data).Raises ∧ ¬ board.devices.clock.Raises) :=
    fun h => h.2 h.1
  simp [outb, Devices.outb, rtcPort, Devices.withClock, hsame]

@[simp] theorem outb_cmosPort (data : UInt8) (board : Board) :
    board.outb data cmosPort =
      { board with devices := board.devices.withClock (board.devices.clock.write data) } := by
  simp [outb, Devices.outb, cmosPort]

theorem inb_cmosPort {board : Board} (h : board.devices.clock.index ≠ 0x0C) :
    board.inb cmosPort = (board.devices.clock.register board.devices.clock.index, board) := by
  have hsame : ¬ (board.devices.clock.Raises ∧ ¬ board.devices.clock.Raises) := fun h => h.2 h.1
  simp [inb, Devices.inb, cmosPort, ClockChip.read, h, Devices.withClock, hsame]

theorem changeRegister (select register : UInt8) (hselect : select &&& 0x7F = register)
    (hflags : register ≠ 0x0C) (hreadOnly : register ≠ 0x0D) (value : UInt8) (board : Board) :
    ((board.outb select rtcPort).inb cmosPort).1 = board.devices.clock.register register ∧
      ((((board.outb select rtcPort).inb cmosPort).2.outb select rtcPort).outb value cmosPort) =
        { board with
          devices := board.devices.withClock (board.devices.clock.hold register value) } := by
  have hread : (board.outb select rtcPort).inb cmosPort =
      (board.devices.clock.register register, board.outb select rtcPort) := by
    rw [inb_cmosPort] <;> simp [ClockChip.select, hselect, hflags]
  have hwrite : (board.devices.clock.select select).write value =
      board.devices.clock.hold register value := by
    simp [ClockChip.select, ClockChip.write, hselect, hflags, hreadOnly, ClockChip.hold]
  rw [hread]
  refine ⟨rfl, ?_⟩
  simp only [outb_rtcPort, outb_cmosPort, ClockChip.select_select, hwrite]
  rfl

end Board

/-! ## The rate -/

theorem rateOf_or {prev code : UInt8} : rateOf ((prev &&& 0xF0) ||| code) = rateOf code := by
  have hlow : ((prev &&& 0xF0) ||| code) &&& 0x0F = code &&& 0x0F := by
    apply UInt8.toNat_inj.mp
    simp only [UInt8.toNat_and, UInt8.toNat_or]
    rw [Nat.and_or_distrib_right, Nat.and_assoc]
    simp
  rw [rateOf, rateOf, hlow]

theorem high_or {prev code : UInt8} (h : code &&& 0xF0 = 0) :
    ((prev &&& 0xF0) ||| code) &&& 0xF0 = prev &&& 0xF0 := by
  have hcode := congrArg UInt8.toNat h
  apply UInt8.toNat_inj.mp
  simp only [UInt8.toNat_and, UInt8.toNat_or] at hcode ⊢
  rw [Nat.and_or_distrib_right, Nat.and_assoc, hcode]
  simp

theorem mem_rtcCodes {rate : UInt32} {code : UInt8} (h : (rate, code) ∈ Board.rtcCodes) :
    rateOf code = rate.toNat ∧ code &&& 0xF0 = 0 ∧ ValidRate rate := by
  have hall : ∀ entry ∈ Board.rtcCodes, rateOf entry.2 = entry.1.toNat ∧ entry.2 &&& 0xF0 = 0 ∧
      entry.1 ≤ 1024 ∧ entry.1 ≥ 2 ∧ entry.1 &&& (entry.1 - 1) = 0 := by
    simp only [Board.rtcCodes, List.forall_mem_cons, List.not_mem_nil, false_implies,
      implies_true, and_true]
    decide
  obtain ⟨hrate, hcode, hvalid⟩ := hall _ h
  exact ⟨hrate, hcode, (validRate_iff rate).mpr hvalid⟩

theorem lookup_rtcCodes {rate : UInt32} (h : ValidRate rate) :
    ∃ code, Board.rtcCodes.lookup rate = some code := by
  have hall : ∀ k : Fin 11, 1 ≤ k.val →
      (Board.rtcCodes.lookup (UInt32.ofNat (2 ^ k.val))).isSome = true := by
    decide
  obtain ⟨k, hlow, hhigh, hrate⟩ := h
  have hsome := hall ⟨k, by omega⟩ hlow
  rw [← hrate, UInt32.ofNat_toNat] at hsome
  exact Option.isSome_iff_exists.mp hsome

theorem mem_of_lookup {rate : UInt32} {code : UInt8}
    (h : Board.rtcCodes.lookup rate = some code) : (rate, code) ∈ Board.rtcCodes := by
  obtain ⟨before, after, heq, -⟩ := List.lookup_eq_some_iff.mp h
  simp [heq]

/-- Only the rate changes: the other half of register A, and all other registers, stay. -/
structure RateSet (rate : Nat) (before after : ClockChip) : Prop where
  rate : rateOf (after.register 0x0A) = rate
  divider : after.register 0x0A &&& 0xF0 = before.register 0x0A &&& 0xF0
  others : ∀ register ≠ 0x0A, after.register register = before.register register
  flags : after.flags = before.flags

def ClockChip.withRate (code : UInt8) (clock : ClockChip) : ClockChip :=
  clock.hold 0x0A ((clock.register 0x0A &&& 0xF0) ||| code)

theorem rateSet_withRate {code : UInt8} (h : code &&& 0xF0 = 0) (clock : ClockChip) :
    RateSet (rateOf code) clock (clock.withRate code) where
  rate := by simp [ClockChip.withRate, ClockChip.hold, rateOf_or]
  divider := by simp [ClockChip.withRate, ClockChip.hold, high_or h]
  others register hne := by simp [ClockChip.withRate, ClockChip.hold, hne]
  flags := rfl

theorem RateSet.raises_iff {rate : Nat} {before after : ClockChip} (h : RateSet rate before after) :
    after.Raises ↔ before.Raises := by
  rw [ClockChip.Raises, ClockChip.Raises, h.flags, h.others 0x0B (by decide)]

theorem rtcSetFrequency_of_lookup {newFrequency : UInt32} {code : UInt8}
    (h : Board.rtcCodes.lookup newFrequency = some code) (board : Board) :
    board.rtcSetFrequency newFrequency =
      ({ board with devices.clock := board.devices.clock.withRate code }, 0) := by
  obtain ⟨-, hhigh, -⟩ := mem_rtcCodes (mem_of_lookup h)
  obtain ⟨hread, hwritten⟩ := Board.changeRegister Board.statusRegA 0x0A
    (by decide) (by decide) (by decide)
    ((board.devices.clock.register 0x0A &&& 0xF0) ||| code) board
  have hsame : ¬ ((board.devices.clock.withRate code).Raises ∧ ¬ board.devices.clock.Raises) :=
    fun hrises => hrises.2 ((rateSet_withRate hhigh _).raises_iff.mp hrises.1)
  simp only [Board.rtcSetFrequency, h, hread, hwritten]
  rw [← ClockChip.withRate, Devices.withClock, if_neg hsame]

/--
`rtc_set_frequency` takes the rates that `rtc_write` takes, and the clock then
interrupts at that rate; it refuses others and touches nothing.
-/
theorem rtcSetFrequency_cases (newFrequency : UInt32) (board : Board) :
    (ValidRate newFrequency ∧ ∃ clock,
      board.rtcSetFrequency newFrequency = ({ board with devices.clock := clock }, 0) ∧
      RateSet newFrequency.toNat board.devices.clock clock) ∨
    (¬ ValidRate newFrequency ∧ board.rtcSetFrequency newFrequency = (board, 0xFFFFFFFF)) := by
  cases hlookup : Board.rtcCodes.lookup newFrequency with
  | none =>
      refine .inr ⟨fun hvalid => ?_, by simp [Board.rtcSetFrequency, hlookup]⟩
      obtain ⟨code, hcode⟩ := lookup_rtcCodes hvalid
      rw [hlookup] at hcode
      cases hcode
  | some code =>
      obtain ⟨hrate, hhigh, hvalid⟩ := mem_rtcCodes (mem_of_lookup hlookup)
      have hset := rateSet_withRate hhigh board.devices.clock
      rw [hrate] at hset
      exact .inl ⟨hvalid, _, rtcSetFrequency_of_lookup hlookup board, hset⟩

/-! ## The three devices -/

theorem Mirrored.withClock {board : Board} (h : Mirrored board) (clock : ClockChip) :
    Mirrored { board with devices := board.devices.withClock clock } := by
  refine h.same ?_
  unfold Devices.withClock
  split
  · exact .request (.second 0)
  · exact .refl _

theorem keyboardInit_eq {board : Board} (h : Mirrored board) :
    ∃ masterMask slaveMask, board.keyboardInit = board.remask masterMask slaveMask ∧
      board.keyboardInit.opened =
        fun line => if irqOf line = keyboardIrqNum then true else board.opened line :=
  h.changeMask sets_enable keyboardIrqNum

/-- The clock interrupts 1024 times a second; only that half register A and one bit are new. -/
structure ClockEnabled (before after : ClockChip) : Prop where
  rate : rateOf (after.register 0x0A) = 1024
  divider : after.register 0x0A &&& 0xF0 = before.register 0x0A &&& 0xF0
  periodic : after.register 0x0B = before.register 0x0B ||| 0x40
  others : ∀ register ≠ 0x0A, register ≠ 0x0B → after.register register = before.register register
  flags : after.flags = before.flags

def ClockChip.enabled (code : UInt8) (clock : ClockChip) : ClockChip :=
  (clock.hold 0x0B (clock.register 0x0B ||| 0x40)).withRate code

theorem clockEnabled_enabled {code : UInt8} (hcode : code &&& 0xF0 = 0) (hrate : rateOf code = 1024)
    (clock : ClockChip) : ClockEnabled clock (clock.enabled code) where
  rate := by
    rw [← hrate]
    exact (rateSet_withRate hcode _).rate
  divider := (rateSet_withRate hcode (clock.hold 0x0B (clock.register 0x0B ||| 0x40))).divider
  periodic := by simp [ClockChip.enabled, ClockChip.withRate, ClockChip.hold]
  others register hne hne' := by
    simp [ClockChip.enabled, ClockChip.withRate, ClockChip.hold, hne, hne']
  flags := rfl

theorem withClock_withRate {code : UInt8} (h : code &&& 0xF0 = 0) (clock : ClockChip)
    (devices : Devices) :
    devices.withClock (clock.withRate code) =
      { devices.withClock clock with clock := clock.withRate code } := by
  simp only [Devices.withClock, (rateSet_withRate h clock).raises_iff]
  split <;> rfl

theorem rtcInit_eq {board : Board} (h : Mirrored board) :
    ∃ clock masterMask slaveMask,
      board.rtcInit =
        { board with devices := board.devices.withClock clock }.remask masterMask slaveMask ∧
      ClockEnabled board.devices.clock clock ∧
      board.rtcInit.opened =
        fun line => if irqOf line = rtcIrqNum then true else board.opened line := by
  obtain ⟨hread, hwritten⟩ := Board.changeRegister Board.statusRegB 0x0B
    (by decide) (by decide) (by decide) (board.devices.clock.register 0x0B ||| 0x40) board
  have hlookup : Board.rtcCodes.lookup 1024 = some 0x06 := by decide
  have henabled := h.withClock (board.devices.clock.enabled 0x06)
  obtain ⟨masterMask, slaveMask, hmasks, hopened⟩ := henabled.changeMask sets_enable rtcIrqNum
  have hinit : board.rtcInit =
      { board with devices := board.devices.withClock (board.devices.clock.enabled 0x06) }.enableIrq
        rtcIrqNum := by
    simp only [Board.rtcInit, hread, hwritten, rtcSetFrequency_of_lookup hlookup]
    rw [ClockChip.enabled, withClock_withRate (by decide)]
    simp [Devices.withClock_clock]
  refine ⟨board.devices.clock.enabled 0x06, masterMask, slaveMask, hinit.trans hmasks,
    clockEnabled_enabled (by decide) (by decide) _, ?_⟩
  rw [hinit]
  exact hopened

def loadedTimer : TimerChip := ⟨Board.pitCommand, none, 23863⟩

theorem load_timer (timer : TimerChip) :
    ((timer.writeCommand Board.pitCommand).writeData (Board.reloadVal &&& 0xFF).toUInt8).writeData
      (Board.reloadVal >>> 8).toUInt8 = loadedTimer := by
  have hcommand : timer.writeCommand Board.pitCommand = ⟨Board.pitCommand, none, timer.reload⟩ := by
    rw [TimerChip.writeCommand, if_pos (by decide)]
  have hboth : Board.pitCommand &&& 0x30 = 0x30 := by decide
  have hlow : (⟨Board.pitCommand, none, timer.reload⟩ : TimerChip).writeData
      (Board.reloadVal &&& 0xFF).toUInt8 =
        ⟨Board.pitCommand, some (Board.reloadVal &&& 0xFF).toUInt8, timer.reload⟩ := by
    rw [TimerChip.writeData, if_pos hboth]
  rw [hcommand, hlow, TimerChip.writeData, if_pos hboth]
  rfl

theorem pitInit_eq {board : Board} (h : Mirrored board) :
    ∃ masterMask slaveMask,
      board.pitInit = { board with devices.timer := loadedTimer }.remask masterMask slaveMask ∧
      board.pitInit.opened =
        fun line => if irqOf line = pitIrqNum then true else board.opened line := by
  have hloaded : Mirrored { board with devices.timer := loadedTimer } :=
    ⟨h.ready, h.master, h.slave⟩
  obtain ⟨masterMask, slaveMask, hmasks, hopened⟩ := hloaded.changeMask sets_enable pitIrqNum
  have hinit : board.pitInit =
      { board with devices.timer := loadedTimer }.enableIrq pitIrqNum := by
    rw [← load_timer board.devices.timer]
    rfl
  refine ⟨masterMask, slaveMask, hinit.trans hmasks, ?_⟩
  rw [hinit]
  exact hopened

/-! ## All together -/

structure KeptLines (before after : Devices) : Prop where
  service : after.pics.first.inService = before.pics.first.inService
  service' : after.pics.second.inService = before.pics.second.inService
  requested : after.pics.first.requested = before.pics.first.requested
  waiting : after.waiting = before.waiting

theorem KeptLines.trans {first second third : Devices} (h : KeptLines first second)
    (h' : KeptLines second third) : KeptLines first third :=
  ⟨h'.service.trans h.service, h'.service'.trans h.service', h'.requested.trans h.requested,
    h'.waiting.trans h.waiting⟩

theorem KeptLines.remask (masterMask slaveMask : UInt8) (board : Board) :
    KeptLines board.devices (board.remask masterMask slaveMask).devices :=
  ⟨rfl, rfl, rfl, rfl⟩

theorem KeptLines.withClock (clock : ClockChip) (devices : Devices) :
    KeptLines devices (devices.withClock clock) := by
  unfold Devices.withClock
  split
  · exact ⟨rfl, rfl, rfl, rfl⟩
  · exact ⟨rfl, rfl, rfl, rfl⟩

theorem requested_withClock (clock : ClockChip) (devices : Devices) :
    (devices.withClock clock).pics.second.requested 0 = true ↔
      (clock.Raises ∧ ¬ devices.clock.Raises) ∨ devices.pics.second.requested 0 = true := by
  unfold Devices.withClock
  split
  · next hrises => simp [Devices.edge, Cascade.request, Chip.request, hrises]
  · next hsame => simp [hsame]

structure SetUp (before : Devices) (after : Board) : Prop where
  mirrored : Mirrored after
  opened : after.opened = fun line => decide (line ∈ deviceLines)
  idle : after.devices.pics.Idle
  noKeys : after.devices.pics.first.requested = noLines
  clockRequest : after.devices.pics.second.requested 0 = true ↔
    after.devices.clock.Raises ∧ ¬ before.clock.Raises
  clock : ClockEnabled before.clock after.devices.clock
  timer : after.devices.timer = loadedTimer
  waiting : after.devices.waiting = before.waiting

theorem opened_bootBoard (devices : Devices) :
    (bootBoard devices).opened = fun line => decide (line = .first 2) := by
  funext line
  cases line with
  | first line =>
      have hmask : ∀ line : Fin 8,
          (!linesOf 0xFB line) = decide (ChipLine.first line = .first 2) := by
        decide
      exact hmask line
  | second line =>
      have hmask : ∀ line : Fin 8,
          (!linesOf 0xFF line) = decide (ChipLine.second line = .first 2) := by
        decide
      exact hmask line

theorem mem_deviceLines (line : ChipLine) :
    (if irqOf line = pitIrqNum then true
      else if irqOf line = rtcIrqNum then true
      else if irqOf line = keyboardIrqNum then true
      else decide (line = .first 2)) = decide (line ∈ deviceLines) := by
  cases line with
  | first line => revert line; decide
  | second line => revert line; decide

theorem setUp_entry (devices : Devices) : SetUp devices (bootBoard devices).entry := by
  obtain ⟨pics, hinit, -, hidle, hnoKeys, hnoClock⟩ := i8259Init_eq (bootBoard devices)
  obtain ⟨hmirrored, hopened⟩ := i8259Init_mirrored (bootBoard devices)
  obtain ⟨mask₁, mask₁', hkeyboard, hopened₁⟩ := keyboardInit_eq hmirrored
  have hmirrored₁ : Mirrored (bootBoard devices).i8259Init.keyboardInit := by
    rw [hkeyboard]
    exact hmirrored.remask mask₁ mask₁'
  obtain ⟨clock, mask₂, mask₂', hrtc, henabled, hopened₂⟩ := rtcInit_eq hmirrored₁
  have hmirrored₂ : Mirrored (bootBoard devices).i8259Init.keyboardInit.rtcInit := by
    rw [hrtc]
    exact (hmirrored₁.withClock clock).remask mask₂ mask₂'
  obtain ⟨mask₃, mask₃', hpit, hopened₃⟩ := pitInit_eq hmirrored₂
  -- the controllers and the clock in front of `rtc_init` are those behind `i8259_init`
  have hchips : (bootBoard devices).i8259Init.keyboardInit.devices.clock = devices.clock ∧
      (bootBoard devices).i8259Init.keyboardInit.devices.pics.second.requested = noLines := by
    rw [hkeyboard, hinit]
    exact ⟨rfl, hnoClock⟩
  have hkept : KeptLines { devices with pics := pics } (bootBoard devices).entry.devices := by
    rw [Board.entry, hpit]
    refine .trans ?_ (.remask mask₃ mask₃' _)
    have hkeyboardKept : KeptLines { devices with pics := pics }
        (bootBoard devices).i8259Init.keyboardInit.devices := by
      rw [hkeyboard, hinit]
      exact .remask mask₁ mask₁' { bootBoard devices with devices.pics := pics }
    have hrtcKept := hkeyboardKept.trans (.withClock clock _)
    rw [hrtc]
    exact ⟨hrtcKept.service, hrtcKept.service', hrtcKept.requested, hrtcKept.waiting⟩
  have hclock : (bootBoard devices).entry.devices.clock = clock ∧
      (bootBoard devices).entry.devices.pics.second.requested =
        ((bootBoard devices).i8259Init.keyboardInit.devices.withClock
          clock).pics.second.requested := by
    rw [Board.entry, hpit, hrtc]
    exact ⟨Devices.withClock_clock clock _, rfl⟩
  refine ⟨?_, ?_, ⟨hkept.service.trans hidle.first, hkept.service'.trans hidle.second⟩,
    hkept.requested.trans hnoKeys, ?_, ?_, ?_, hkept.waiting⟩
  · have hloaded : Mirrored { (bootBoard devices).i8259Init.keyboardInit.rtcInit with
        devices.timer := loadedTimer } := ⟨hmirrored₂.ready, hmirrored₂.master, hmirrored₂.slave⟩
    rw [Board.entry, hpit]
    exact hloaded.remask mask₃ mask₃'
  · rw [Board.entry, hopened₃, hopened₂, hopened₁, hopened, opened_bootBoard]
    exact funext mem_deviceLines
  · rw [hclock.2, requested_withClock, hchips.1, hchips.2, hclock.1]
    simp [noLines]
  · rw [hclock.1, ← hchips.1]
    exact henabled
  · rw [Board.entry, hpit]
    rfl

end LinuxOS
