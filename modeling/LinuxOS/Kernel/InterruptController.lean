import LinuxOS.Kernel.Ports

/-!
# The interrupt controllers and the set-up of the devices

`i8259.c`, and what `keyboard_init`, `rtc_init` and `pit_init` write to ports.
The kernel keeps a copy of both mask registers, which cannot be read back.
-/

namespace LinuxOS

open Foundation

def master8259Port : UInt16 := 0x20
def master8259Data : UInt16 := 0x21
def slave8259Port : UInt16 := 0xA0
def slave8259Data : UInt16 := 0xA1

def icw1 : UInt8 := 0x11
def icw2Master : UInt8 := 0x20
def icw2Slave : UInt8 := 0x28
def icw3Master : UInt8 := 0x04
def icw3Slave : UInt8 := 0x02
def icw4 : UInt8 := 0x01
def eoi : UInt32 := 0x60

def allMask : UInt8 := 0xFF

def keyboardIrqNum : UInt32 := 1
def rtcIrqNum : UInt32 := 8
def pitIrqNum : UInt32 := 0

structure Board where
  masterMask : UInt8
  slaveMask : UInt8
  devices : Devices

def bootBoard (devices : Devices) : Board where
  masterMask := 0xFB
  slaveMask := 0xFF
  devices := devices

namespace Board

def outb (data : UInt8) (port : UInt16) (board : Board) : Board :=
  { board with devices := board.devices.outb data port }

def inb (port : UInt16) (board : Board) : UInt8 × Board :=
  let (value, devices) := board.devices.inb port
  (value, { board with devices := devices })

/-! ## `i8259.c` -/

def i8259Init (board : Board) : Board :=
  let masked := (board.outb allMask master8259Data).outb allMask slave8259Data
  let master := (((masked.outb icw1 master8259Port).outb icw2Master master8259Data).outb
    icw3Master master8259Data).outb icw4 master8259Data
  let slave := (((master.outb icw1 slave8259Port).outb icw2Slave slave8259Data).outb
    icw3Slave slave8259Data).outb icw4 slave8259Data
  (slave.outb board.masterMask master8259Data).outb board.slaveMask slave8259Data

/-- `change` makes the next mask from the copy of the last and the bit of the line. -/
def changeMask (change : UInt8 → UInt8 → UInt8) (irqNum : UInt32) (board : Board) : Board :=
  if irqNum < 8 then
    let masterMask := change board.masterMask ((1 : UInt8) <<< irqNum.toUInt8)
    { board with masterMask := masterMask }.outb masterMask master8259Data
  else if irqNum < 16 then
    let slaveMask := change board.slaveMask ((1 : UInt8) <<< (irqNum - 8).toUInt8)
    { board with slaveMask := slaveMask }.outb slaveMask slave8259Data
  else board

def enableIrq : UInt32 → Board → Board := changeMask fun mask bit => mask &&& (0xFF - bit)

def disableIrq : UInt32 → Board → Board := changeMask fun mask bit => mask ||| (0x00 + bit)

def sendEoi (irqNum : UInt32) (board : Board) : Board :=
  if irqNum < 8 then board.outb (eoi ||| irqNum).toUInt8 master8259Port
  else if irqNum < 16 then
    (board.outb (eoi ||| (irqNum - 8)).toUInt8 slave8259Port).outb (eoi ||| 0x2).toUInt8
      master8259Port
  else board

/-! ## The devices -/

def keyboardInit (board : Board) : Board := board.enableIrq keyboardIrqNum

def rtcPort : UInt16 := 0x70
def cmosPort : UInt16 := 0x71
def statusRegA : UInt8 := 0x8A
def statusRegB : UInt8 := 0x8B
def statusRegC : UInt8 := 0x8C

def rtcCodes : List (UInt32 × UInt8) :=
  [(2, 0x0F), (4, 0x0E), (8, 0x0D), (16, 0x0C), (32, 0x0B), (64, 0x0A), (128, 0x09), (256, 0x08),
    (512, 0x07), (1024, 0x06)]

def rtcSetFrequency (newFrequency : UInt32) (board : Board) : Board × UInt32 :=
  match rtcCodes.lookup newFrequency with
  | none => (board, 0xFFFFFFFF)
  | some sendRtcFreq =>
      let (prev, read) := (board.outb statusRegA rtcPort).inb cmosPort
      (((read.outb statusRegA rtcPort).outb ((prev &&& 0xF0) ||| sendRtcFreq) cmosPort), 0)

def rtcInit (board : Board) : Board :=
  let (prev, read) := (board.outb statusRegB rtcPort).inb cmosPort
  let enabled := (read.outb statusRegB rtcPort).outb (prev ||| 0x40) cmosPort
  (enabled.rtcSetFrequency 1024).1.enableIrq rtcIrqNum

def pitChannel0 : UInt16 := 0x40
def pitCmdReg : UInt16 := 0x43
def pitCommand : UInt8 := 0x36
def reloadVal : UInt32 := 23863

def pitInit (board : Board) : Board :=
  let loaded := ((board.outb pitCommand pitCmdReg).outb (reloadVal &&& 0xFF).toUInt8
    pitChannel0).outb (reloadVal >>> 8).toUInt8 pitChannel0
  loaded.enableIrq pitIrqNum

/-- The devices as `entry` sets them up, when no interrupt is taken meanwhile. -/
def entry (board : Board) : Board := board.i8259Init.keyboardInit.rtcInit.pitInit

end Board

end LinuxOS
