import LinuxOS.Kernel.State

/-!
# The library functions of `lib.c`

Strings and copies, and the text screen.
-/

namespace LinuxOS

/-! ## Strings and copies -/

/-- `strlen` from an index on; `none` when the scan meets no NUL within `fuel` bytes. -/
def strlenFrom (string : Nat → UInt8) : Nat → Nat → Option Nat
  | 0, _ => none
  | fuel + 1, index =>
      if string index = 0 then some index else strlenFrom string fuel (index + 1)

def strlen (string : Nat → UInt8) : Option UInt32 :=
  (strlenFrom string (2 ^ 32) 0).map UInt32.ofNat

def strncmpFrom (s1 s2 : Nat → UInt8) : Nat → Nat → Int
  | 0, _ => 0
  | count + 1, index =>
      if s1 index ≠ s2 index ∨ s1 index = 0 then
        (s1 index).toInt8.toInt - (s2 index).toInt8.toInt
      else strncmpFrom s1 s2 count (index + 1)

def strncmp (s1 s2 : Nat → UInt8) (n : UInt32) : Int := strncmpFrom s1 s2 n.toNat 0

/-- The stores of `memcpy(dest, src, n)`, where `source` is memory from `src` on. -/
def memcpy (source : Nat → UInt8) (dest n : UInt32) : Stores :=
  (List.range n.toNat).map fun index => (dest + UInt32.ofNat index, source index)

def memset (s : UInt32) (c : UInt8) (n : UInt32) : Stores :=
  (List.range n.toNat).map fun index => (s + UInt32.ofNat index, c)

/-! ## Words as integers -/

theorem toInt_toInt32 (value : UInt32) :
    value.toInt32.toInt =
      if value.toNat < 2 ^ 31 then (value.toNat : Int) else value.toNat - 2 ^ 32 := by
  have hcond : value.toInt32.toInt = _ := BitVec.toInt_eq_toNat_cond value.toBitVec
  rw [hcond, UInt32.toNat_toBitVec]
  exact if_congr (by omega) rfl rfl

theorem toInt_eq_cond (value : Int32) :
    value.toInt =
      if value.toUInt32.toNat < 2 ^ 31 then (value.toUInt32.toNat : Int)
      else value.toUInt32.toNat - 2 ^ 32 := by
  rw [← toInt_toInt32, Int32.toInt32_toUInt32]

theorem nonneg_iff_toNat_lt (value : Int32) : 0 ≤ value ↔ value.toUInt32.toNat < 2 ^ 31 := by
  have hvalue := toInt_eq_cond value
  have hrange := value.toUInt32.toNat_lt
  rw [Int32.le_iff_toInt_le, Int32.toInt_zero]
  split at hvalue <;> omega

theorem toInt_of_nonneg {value : Int32} (h : 0 ≤ value) :
    value.toInt = value.toUInt32.toNat := by
  rw [toInt_eq_cond, if_pos ((nonneg_iff_toNat_lt value).mp h)]

theorem toNat_ofInt {value : Int} (hnonneg : 0 ≤ value) (hlt : value < 2 ^ 32) :
    (UInt32.ofInt value).toNat = value.toNat := by
  rw [UInt32.ofInt, Int.emod_eq_of_lt hnonneg hlt, UInt32.toNat_ofNat_of_lt']
  rw [UInt32.size]
  omega

/-! ## The screen -/

def video : UInt32 := 0xB8000

/-- Character cell `(x, y)`: two bytes, the character and its attribute. -/
def cellAddr (x y : Int) : UInt32 := video + UInt32.ofInt ((80 * y + x) * 2)

def clear (screen : Screen) : Screen :=
  { screen with
    videoMem := fun addr =>
      if addr - video < 4000 then (if (addr - video) % 2 = 0 then 0x20 else 0x7)
      else screen.videoMem addr }

def scrollUp (screen : Screen) : Screen :=
  let moved := fun addr =>
    if addr - video < 3840 then screen.videoMem (addr + 160) else screen.videoMem addr
  { screenX := 0
    screenY := 24
    videoMem := fun addr =>
      if 3840 ≤ addr - video ∧ addr - video < 4000 ∧ (addr - video) % 2 = 0 then 0x20
      else moved addr }

def backSpace (screen : Screen) : Screen := { screen with screenX := screen.screenX - 1 }

def setScreenPos (x y : Int) (screen : Screen) : Screen :=
  { screen with screenX := x, screenY := y }

def resetPosition (screen : Screen) : Screen := { screen with screenX := 0, screenY := 0 }

def putc (c : UInt8) (screen : Screen) : Screen :=
  if c = 0x0A ∨ c = 0x0D then
    if screen.screenY = 24 then scrollUp screen
    else { screen with screenY := screen.screenY + 1, screenX := 0 }
  else
    let addr := cellAddr screen.screenX screen.screenY
    let written := { screen with
      videoMem := Function.update (Function.update screen.videoMem addr c) (addr + 1) 0x7 }
    if screen.screenX = 79 then
      if screen.screenY = 24 then scrollUp { written with screenX := 0 }
      else { written with screenX := 0, screenY := screen.screenY + 1 }
    else { written with screenX := screen.screenX + 1 }

def puts (chars : List UInt8) (screen : Screen) : Screen :=
  chars.foldl (fun shown char => putc char shown) screen

/-- `printf` of a format without conversions: its characters, one after the other. -/
def printf (format : String) (screen : Screen) : Screen :=
  puts (format.toList.map fun char => UInt8.ofNat char.toNat) screen

end LinuxOS
