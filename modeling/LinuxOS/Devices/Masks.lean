import LinuxOS.Kernel.InterruptController

/-!
# The mask registers and their copies

The kernel cannot read a mask register, and computes the next mask from its own
copy.  Whatever the controllers hold when they are initialised, and whatever
calls follow, the registers, the copies and the set of lines that have been
enabled agree.
-/

namespace LinuxOS

open Foundation

/-! ## Bits of a mask -/

/-- `change` gives the line of the bit the value `shut`, and keeps the others. -/
def Sets (change : UInt8 → UInt8 → UInt8) (shut : Bool) : Prop :=
  ∀ (mask : UInt8) (line other : Fin 8),
    linesOf (change mask ((1 : UInt8) <<< UInt8.ofNat line)) other =
      if other = line then shut else linesOf mask other

theorem sets_enable : Sets (fun mask bit => mask &&& (0xFF - bit)) false := by
  intro mask line other
  have hbit : linesOf (0xFF - (1 : UInt8) <<< UInt8.ofNat line) other =
      !decide (other = line) := by
    revert line other
    decide
  simp only [linesOf, UInt8.toNat_and, Nat.testBit_and] at hbit ⊢
  rw [hbit]
  by_cases hother : other = line <;> simp [hother]

theorem sets_disable : Sets (fun mask bit => mask ||| (0x00 + bit)) true := by
  intro mask line other
  have hbit : linesOf (0x00 + (1 : UInt8) <<< UInt8.ofNat line) other =
      decide (other = line) := by
    revert line other
    decide
  simp only [linesOf, UInt8.toNat_or, Nat.testBit_or] at hbit ⊢
  rw [hbit]
  by_cases hother : other = line <;> simp [hother]

/-! ## Numbers of lines -/

/-- The number of a line: the second controller has 8 to 15. -/
def irqOf : ChipLine → UInt32
  | .first line => UInt32.ofNat line
  | .second line => 8 + UInt32.ofNat line

theorem irqOf_injective {line other : ChipLine} (h : irqOf line = irqOf other) : line = other := by
  cases line with
  | first line =>
      cases other with
      | first other => revert line other; decide
      | second other => revert line other; decide
  | second line =>
      cases other with
      | first other => revert line other; decide
      | second other => revert line other; decide

theorem irqOf_lt (line : ChipLine) : irqOf line < 16 := by
  cases line with
  | first line => revert line; decide
  | second line => revert line; decide

theorem exists_line_of_lt {irqNum : UInt32} (h : irqNum < 8) :
    ∃ line : Fin 8, irqNum = UInt32.ofNat line := by
  refine ⟨⟨irqNum.toNat, UInt32.lt_iff_toNat_lt.mp h⟩, ?_⟩
  simp

theorem exists_line_of_ge {irqNum : UInt32} (hge : ¬ irqNum < 8) (hlt : irqNum < 16) :
    ∃ line : Fin 8, irqNum = 8 + UInt32.ofNat line ∧ irqNum - 8 = UInt32.ofNat line := by
  have hlow : 8 ≤ irqNum.toNat := UInt32.le_iff_toNat_le.mp (UInt32.not_lt.mp hge)
  have hhigh : irqNum.toNat < 16 := UInt32.lt_iff_toNat_lt.mp hlt
  have hsub : (irqNum - 8).toNat = irqNum.toNat - 8 :=
    UInt32.toNat_sub_of_le _ _ (UInt32.le_iff_toNat_le.mpr hlow)
  have hline : irqNum - 8 = UInt32.ofNat (irqNum.toNat - 8) := by
    rw [← hsub]
    simp
  refine ⟨⟨irqNum.toNat - 8, by omega⟩, ?_, hline⟩
  rw [← hline, UInt32.add_comm, UInt32.sub_add_cancel]

/-! ## The ports of the controllers -/

namespace Devices

@[simp] theorem outb_masterPort (data : UInt8) (devices : Devices) :
    devices.outb data master8259Port =
      { devices with pics.first := devices.pics.first.writeCommand data } := by
  simp [outb, master8259Port]

@[simp] theorem outb_masterData (data : UInt8) (devices : Devices) :
    devices.outb data master8259Data =
      { devices with pics.first := devices.pics.first.writeData data } := by
  simp [outb, master8259Data]

@[simp] theorem outb_slavePort (data : UInt8) (devices : Devices) :
    devices.outb data slave8259Port =
      { devices with pics.second := devices.pics.second.writeCommand data } := by
  simp [outb, slave8259Port]

@[simp] theorem outb_slaveData (data : UInt8) (devices : Devices) :
    devices.outb data slave8259Data =
      { devices with pics.second := devices.pics.second.writeData data } := by
  simp [outb, slave8259Data]

end Devices

/-! ## The registers and the copies -/

def masterVector : UInt8 := 0x20
def slaveVector : UInt8 := 0x28

structure Mirrored (board : Board) : Prop where
  ready : board.devices.pics.Ready cascadeLine masterVector slaveVector
  master : board.devices.pics.first.masked = linesOf board.masterMask
  slave : board.devices.pics.second.masked = linesOf board.slaveMask

def Board.opened (board : Board) : ChipLine → Bool
  | .first line => !linesOf board.masterMask line
  | .second line => !linesOf board.slaveMask line

theorem i8259Init_eq (board : Board) :
    ∃ pics : Cascade, board.i8259Init = { board with devices.pics := pics } ∧
      Mirrored { board with devices.pics := pics } ∧ pics.Idle ∧
      pics.first.requested = noLines ∧ pics.second.requested = noLines := by
  obtain ⟨master, hmaster, -, hrequested, hserved, heq⟩ :=
    Chip.ready_initialised icw1 icw2Master icw3Master icw4
      (board.devices.pics.first.writeData allMask) (by decide) (by decide) (by decide) (by decide)
      (by decide)
  obtain ⟨slave, hslave, -, hrequested', hserved', heq'⟩ :=
    Chip.ready_initialised icw1 icw2Slave icw3Slave icw4
      (board.devices.pics.second.writeData allMask) (by decide) (by decide) (by decide) (by decide)
      (by decide)
  refine ⟨⟨{ master with masked := linesOf board.masterMask },
    { slave with masked := linesOf board.slaveMask }⟩, ?_, ?_, ⟨hserved, hserved'⟩, hrequested,
    hrequested'⟩
  · simp only [Board.i8259Init, Board.outb, Devices.outb_masterData, Devices.outb_slaveData,
      Devices.outb_masterPort, Devices.outb_slavePort, heq, heq', hmaster.writeData,
      hslave.writeData]
  · exact ⟨⟨⟨_, ⟨hmaster.masks, hmaster.base, hmaster.wiring, hmaster.announced⟩, by decide⟩,
      ⟨_, ⟨hslave.masks, hslave.base, hslave.wiring, hslave.announced⟩, by decide⟩⟩, rfl, rfl⟩

theorem i8259Init_mirrored (board : Board) :
    Mirrored board.i8259Init ∧ board.i8259Init.opened = board.opened := by
  obtain ⟨pics, heq, hmirrored, -⟩ := i8259Init_eq board
  rw [heq]
  exact ⟨hmirrored, rfl⟩

/-! ## Calls of the driver -/

def Board.remask (masterMask slaveMask : UInt8) (board : Board) : Board where
  masterMask := masterMask
  slaveMask := slaveMask
  devices :=
    { board.devices with
      pics :=
        ⟨{ board.devices.pics.first with masked := linesOf masterMask },
          { board.devices.pics.second with masked := linesOf slaveMask }⟩ }

section Mirrored

variable {board : Board} (h : Mirrored board)

include h

theorem Mirrored.remask (masterMask slaveMask : UInt8) :
    Mirrored (board.remask masterMask slaveMask) := by
  obtain ⟨⟨⟨wiring, hfirst, hwired⟩, wiring', hsecond, hnamed⟩, -, -⟩ := h
  exact ⟨⟨⟨wiring, ⟨hfirst.masks, hfirst.base, hfirst.wiring, hfirst.announced⟩, hwired⟩,
    ⟨wiring', ⟨hsecond.masks, hsecond.base, hsecond.wiring, hsecond.announced⟩, hnamed⟩⟩, rfl, rfl⟩

theorem Mirrored.writeMaster (mask : UInt8) :
    { board with masterMask := mask }.outb mask master8259Data =
      board.remask mask board.slaveMask := by
  obtain ⟨wiring, hfirst, -⟩ := h.ready.first
  simp [Board.outb, Board.remask, hfirst.writeData, ← h.slave]

theorem Mirrored.writeSlave (mask : UInt8) :
    { board with slaveMask := mask }.outb mask slave8259Data =
      board.remask board.masterMask mask := by
  obtain ⟨wiring, hsecond, -⟩ := h.ready.second
  simp [Board.outb, Board.remask, hsecond.writeData, ← h.master]

theorem Mirrored.remask_self : board.remask board.masterMask board.slaveMask = board := by
  simp [Board.remask, ← h.master, ← h.slave]

theorem Mirrored.changeMask {change : UInt8 → UInt8 → UInt8} {shut : Bool}
    (hsets : Sets change shut) (irqNum : UInt32) :
    ∃ masterMask slaveMask, board.changeMask change irqNum = board.remask masterMask slaveMask ∧
      (board.changeMask change irqNum).opened =
        fun line => if irqOf line = irqNum then !shut else board.opened line := by
  unfold Board.changeMask
  split
  · next hlt =>
      obtain ⟨line, rfl⟩ := exists_line_of_lt hlt
      simp only [h.writeMaster]
      refine ⟨_, _, rfl, funext fun other => ?_⟩
      have hirq : irqOf other = UInt32.ofNat line ↔ other = .first line :=
        ⟨fun heq => @irqOf_injective other (.first line) heq, fun heq => heq ▸ rfl⟩
      cases other with
      | first other =>
          simp only [Board.opened, Board.remask, UInt32.toUInt8_ofNat', hsets board.masterMask line,
            hirq, ChipLine.first.injEq]
          by_cases hother : other = line <;> simp [hother]
      | second other => simp [Board.opened, Board.remask, hirq]
  split
  · next hge hlt =>
      obtain ⟨line, hnum, hsub⟩ := exists_line_of_ge hge hlt
      simp only [h.writeSlave, hsub]
      refine ⟨_, _, rfl, funext fun other => ?_⟩
      have hirq : irqOf other = irqNum ↔ other = .second line :=
        ⟨fun heq => @irqOf_injective other (.second line) (heq.trans hnum),
          fun heq => heq ▸ hnum.symm⟩
      cases other with
      | first other => simp [Board.opened, Board.remask, hirq]
      | second other =>
          simp only [Board.opened, Board.remask, UInt32.toUInt8_ofNat', hsets board.slaveMask line,
            hirq, ChipLine.second.injEq]
          by_cases hother : other = line <;> simp [hother]
  · next hge hge' =>
      refine ⟨_, _, h.remask_self.symm, funext fun other => ?_⟩
      have hne : irqOf other ≠ irqNum := fun heq => hge' (heq ▸ irqOf_lt other)
      simp [hne]

theorem Mirrored.mirrored_changeMask {change : UInt8 → UInt8 → UInt8} {shut : Bool}
    (hsets : Sets change shut) (irqNum : UInt32) : Mirrored (board.changeMask change irqNum) := by
  obtain ⟨masterMask, slaveMask, hmasks, -⟩ := h.changeMask hsets irqNum
  rw [hmasks]
  exact h.remask masterMask slaveMask

theorem Mirrored.opened_changeMask {change : UInt8 → UInt8 → UInt8} {shut : Bool}
    (hsets : Sets change shut) (irqNum : UInt32) :
    (board.changeMask change irqNum).opened =
      fun line => if irqOf line = irqNum then !shut else board.opened line := by
  obtain ⟨masterMask, slaveMask, -, hopened⟩ := h.changeMask hsets irqNum
  exact hopened

end Mirrored

theorem sendEoi_irqOf (board : Board) (line : ChipLine) :
    board.sendEoi (irqOf line) =
      { board with devices.pics := board.devices.pics.finish cascadeLine line } := by
  have heoi : ∀ line : Fin 8, (eoi ||| UInt32.ofNat line).toUInt8 = 0x60 ||| UInt8.ofNat line := by
    decide
  have hlink : (eoi ||| 0x2).toUInt8 = 0x60 ||| UInt8.ofNat cascadeLine := by decide
  cases line with
  | first line =>
      have hlt : ∀ line : Fin 8, UInt32.ofNat line < 8 := by decide
      simp [Board.sendEoi, irqOf, hlt line, heoi, Board.outb, Chip.writeCommand_end, Cascade.finish]
  | second line =>
      have hbounds : ∀ line : Fin 8, ¬ 8 + UInt32.ofNat line < 8 ∧ 8 + UInt32.ofNat line < 16 ∧
          8 + UInt32.ofNat line - 8 = UInt32.ofNat line := by decide
      obtain ⟨hge, hlt, hsub⟩ := hbounds line
      simp only [Board.sendEoi, irqOf, if_neg hge, if_pos hlt, hsub, heoi, hlink, Board.outb,
        Devices.outb_masterPort, Devices.outb_slavePort, Chip.writeCommand_end, Cascade.finish]

theorem exists_irqOf {irqNum : UInt32} (h : irqNum < 16) : ∃ line, irqNum = irqOf line := by
  by_cases hlow : irqNum < 8
  · obtain ⟨line, hline⟩ := exists_line_of_lt hlow
    exact ⟨.first line, hline⟩
  · obtain ⟨line, hline, -⟩ := exists_line_of_ge hlow h
    exact ⟨.second line, hline⟩

theorem sendEoi_of_ge {irqNum : UInt32} (h : ¬ irqNum < 16) (board : Board) :
    board.sendEoi irqNum = board := by
  have hlow : ¬ irqNum < 8 := by
    rw [UInt32.not_lt] at h ⊢
    exact UInt32.le_trans (by decide) h
  rw [Board.sendEoi, if_neg hlow, if_neg h]

theorem Mirrored.same {board : Board} {devices : Devices} (h : Mirrored board)
    (hsame : board.devices.pics.SameSetup devices.pics) :
    Mirrored { board with devices := devices } where
  ready := h.ready.same hsame
  master := hsame.first.masked.trans h.master
  slave := hsame.second.masked.trans h.slave

theorem Mirrored.sendEoi {board : Board} (h : Mirrored board) (irqNum : UInt32) :
    Mirrored (board.sendEoi irqNum) ∧ (board.sendEoi irqNum).opened = board.opened := by
  by_cases hlt : irqNum < 16
  · obtain ⟨line, rfl⟩ := exists_irqOf hlt
    rw [sendEoi_irqOf]
    exact ⟨h.same (.finish cascadeLine line), rfl⟩
  · rw [sendEoi_of_ge hlt]
    exact ⟨h, rfl⟩

/-! ## Sequences of calls -/

inductive DriverCall where
  | init
  | enable (irqNum : UInt32)
  | disable (irqNum : UInt32)
  | eoi (irqNum : UInt32)

def DriverCall.perform : DriverCall → Board → Board
  | .init => Board.i8259Init
  | .enable irqNum => Board.enableIrq irqNum
  | .disable irqNum => Board.disableIrq irqNum
  | .eoi irqNum => Board.sendEoi irqNum

/-- The driver as a set of open lines. -/
def DriverCall.reopen : DriverCall → (ChipLine → Bool) → ChipLine → Bool
  | .init, opened => opened
  | .enable irqNum, opened => fun line => if irqOf line = irqNum then true else opened line
  | .disable irqNum, opened => fun line => if irqOf line = irqNum then false else opened line
  | .eoi _, opened => opened

theorem Mirrored.perform {board : Board} (h : Mirrored board) (call : DriverCall) :
    Mirrored (call.perform board) ∧ (call.perform board).opened = call.reopen board.opened := by
  cases call with
  | init => exact i8259Init_mirrored board
  | enable irqNum =>
      exact ⟨h.mirrored_changeMask sets_enable irqNum, h.opened_changeMask sets_enable irqNum⟩
  | disable irqNum =>
      exact ⟨h.mirrored_changeMask sets_disable irqNum, h.opened_changeMask sets_disable irqNum⟩
  | eoi irqNum => exact h.sendEoi irqNum

/--
From the first `i8259_init` on, whatever the controllers held before and in
whatever order the driver is called, they stay ready, their masks are the
copies, and the open lines are those that were last enabled.
-/
theorem masks_of_calls (board : Board) (calls : List DriverCall) :
    Mirrored (calls.foldl (fun board call => call.perform board) board.i8259Init) ∧
      (calls.foldl (fun board call => call.perform board) board.i8259Init).opened =
        calls.foldl (fun opened call => call.reopen opened) board.opened := by
  obtain ⟨hmirrored, hopened⟩ := i8259Init_mirrored board
  rw [← hopened]
  generalize board.i8259Init = start at hmirrored
  induction calls generalizing start with
  | nil => exact ⟨hmirrored, rfl⟩
  | cons call calls ih =>
      obtain ⟨hnext, hreopened⟩ := hmirrored.perform call
      obtain ⟨hfinal, hlast⟩ := ih (call.perform start) hnext
      rw [List.foldl_cons, List.foldl_cons, ← hreopened]
      exact ⟨hfinal, hlast⟩

end LinuxOS
