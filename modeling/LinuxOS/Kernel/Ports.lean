import LinuxOS.Foundation.Interrupts

/-!
# The devices behind the ports

Two interrupt controllers, the clock with its registers, the timer and the
keyboard.  A device asks for an interrupt by a rising edge on its line.
-/

namespace LinuxOS

open Foundation

/-- The line of the first controller that the second is wired to. -/
def cascadeLine : Fin 8 := 2

def timerLine : ChipLine := .first 0

def keyboardLine : ChipLine := .first 1

def deviceLines : List ChipLine := [timerLine, .first 1, .first cascadeLine, .second 0]

/-! ## The clock -/

/-- The chip of the real-time clock; `flags` are those that its register C shows. -/
structure ClockChip where
  index : UInt8
  register : UInt8 → UInt8
  flags : UInt8

def rateOf (registerA : UInt8) : Nat :=
  match (registerA &&& 0x0F).toNat with
  | 0 => 0
  | 1 => 256
  | 2 => 128
  | code => 32768 >>> (code - 1)

namespace ClockChip

/-- A flag is set whose interrupt register B enables. -/
def Raises (clock : ClockChip) : Prop := clock.flags &&& clock.register 0x0B &&& 0x70 ≠ 0

instance (clock : ClockChip) : Decidable clock.Raises := inferInstanceAs (Decidable (_ ≠ _))

/-- The high bit of the index is not the chip's. -/
def select (byte : UInt8) (clock : ClockChip) : ClockChip :=
  { clock with index := byte &&& 0x7F }

def read (clock : ClockChip) : UInt8 × ClockChip :=
  if clock.index = 0x0C then
    (clock.flags ||| (if clock.Raises then 0x80 else 0), { clock with flags := 0 })
  else (clock.register clock.index, clock)

/-- Registers C and D cannot be written. -/
def write (byte : UInt8) (clock : ClockChip) : ClockChip :=
  if clock.index = 0x0C ∨ clock.index = 0x0D then clock
  else { clock with register := Function.update clock.register clock.index byte }

def setFlags (flags : UInt8) (clock : ClockChip) : ClockChip :=
  { clock with flags := clock.flags ||| flags }

end ClockChip

/-! ## The timer -/

/-- Channel 0 of the timer; `low` holds a low byte that waits for its high byte. -/
structure TimerChip where
  command : UInt8
  low : Option UInt8
  reload : UInt16
  deriving DecidableEq, Repr

namespace TimerChip

/-- The two high bits name the channel, and without access bits a count is latched. -/
def writeCommand (byte : UInt8) (timer : TimerChip) : TimerChip :=
  if byte &&& 0xC0 = 0 ∧ byte &&& 0x30 ≠ 0 then { timer with command := byte, low := none }
  else timer

def writeData (byte : UInt8) (timer : TimerChip) : TimerChip :=
  if timer.command &&& 0x30 = 0x30 then
    match timer.low with
    | none => { timer with low := some byte }
    | some low =>
        { timer with low := none, reload := byte.toUInt16 <<< 8 ||| low.toUInt16 }
  else if timer.command &&& 0x30 = 0x20 then { timer with reload := byte.toUInt16 <<< 8 }
  else { timer with reload := byte.toUInt16 }

end TimerChip

/-! ## All devices -/

/-- `waiting` are the codes of the keyboard that have not been read; `last` is the last that was. -/
structure Devices where
  pics : Cascade
  clock : ClockChip
  timer : TimerChip
  waiting : List UInt8
  last : UInt8

namespace Devices

def edge (devices : Devices) (line : ChipLine) : Devices :=
  { devices with pics := devices.pics.request line }

/-- The clock's line, which is line 0 of the second controller, follows the clock. -/
def withClock (clock : ClockChip) (devices : Devices) : Devices :=
  if clock.Raises ∧ ¬ devices.clock.Raises then
    { devices.edge (.second 0) with clock := clock }
  else { devices with clock := clock }

/-- The keyboard's line rises when a code takes the place of none, or of one that was read. -/
def type (code : UInt8) (devices : Devices) : Devices :=
  let queued := { devices with waiting := devices.waiting ++ [code] }
  if devices.waiting = [] then queued.edge (.first 1) else queued

def readKey (devices : Devices) : UInt8 × Devices :=
  match devices.waiting with
  | [] => (devices.last, devices)
  | [code] => (code, { devices with waiting := [], last := code })
  | code :: codes => (code, { devices with waiting := codes, last := code }.edge (.first 1))

def outb (data : UInt8) (port : UInt16) (devices : Devices) : Devices :=
  if port = 0x20 then { devices with pics.first := devices.pics.first.writeCommand data }
  else if port = 0x21 then { devices with pics.first := devices.pics.first.writeData data }
  else if port = 0xA0 then { devices with pics.second := devices.pics.second.writeCommand data }
  else if port = 0xA1 then { devices with pics.second := devices.pics.second.writeData data }
  else if port = 0x70 then devices.withClock (devices.clock.select data)
  else if port = 0x71 then devices.withClock (devices.clock.write data)
  else if port = 0x43 then { devices with timer := devices.timer.writeCommand data }
  else if port = 0x40 then { devices with timer := devices.timer.writeData data }
  else devices

def inb (port : UInt16) (devices : Devices) : UInt8 × Devices :=
  if port = 0x60 then devices.readKey
  else if port = 0x71 then
    let (value, clock) := devices.clock.read
    (value, devices.withClock clock)
  else (0, devices)

end Devices

end LinuxOS
