import LinuxOS.Foundation.Scan
import LinuxOS.Kernel.Lib

/-!
# Formatted output

`itoa`, `strrev` and `printf` of `lib.c`.  A local array has its size; an access
outside of it, as a division by zero, has no value.
-/

namespace LinuxOS

open Foundation

/-! ## `itoa` -/

def itoaLookup : List UInt8 :=
  [0x30, 0x31, 0x32, 0x33, 0x34, 0x35, 0x36, 0x37, 0x38, 0x39, 0x41, 0x42, 0x43,
   0x44, 0x45, 0x46, 0x47, 0x48, 0x49, 0x4A, 0x4B, 0x4C, 0x4D, 0x4E, 0x4F, 0x50,
   0x51, 0x52, 0x53, 0x54, 0x55, 0x56, 0x57, 0x58, 0x59, 0x5A, 0]

/-- The loop of `itoa`: `room` cells of the array are left, from `newbuf` on. -/
def itoaLoop (radix : UInt32) : Nat → UInt32 → Nat → (Nat → UInt8) →
    Option (Nat × (Nat → UInt8))
  | 0, newval, newbuf, cells => if newval = 0 then some (newbuf, cells) else none
  | room + 1, newval, newbuf, cells =>
      if newval = 0 then some (newbuf, cells)
      else itoaLookup[(newval % radix).toNat]?.bind fun char =>
        itoaLoop radix room (newval / radix) (newbuf + 1) (Function.update cells newbuf char)

def strlenCells (size : Nat) (cells : Nat → UInt8) (s : Nat) : Option Nat :=
  strlenFrom (fun k => cells (s + k)) (size - s) 0

def strrevLoop (size s : Nat) : Nat → Nat → Nat → (Nat → UInt8) → Option (Nat → UInt8)
  | 0, _, _, cells => some cells
  | count + 1, beg, last, cells =>
      if beg < last then
        (loadCell size cells (s + last)).bind fun tmp =>
          (loadCell size cells (s + beg)).bind fun first =>
            (storeCell size cells (s + last) first).bind fun moved =>
              (storeCell size moved (s + beg) tmp).bind fun swapped =>
                strrevLoop size s count (beg + 1) (last - 1) swapped
      else some cells

/-- `strrev`; of an empty string, whose `end` is -1, the loop has no round either. -/
def strrev (size : Nat) (cells : Nat → UInt8) (s : Nat) : Option (Nat → UInt8) :=
  (strlenCells size cells s).bind fun length => strrevLoop size s length 0 (length - 1) cells

def itoa (size : Nat) (value : UInt32) (cells : Nat → UInt8) (buf : Nat) (radix : Int32) :
    Option (Nat → UInt8) :=
  if value = 0 then
    (storeCell size cells buf 0x30).bind fun written => storeCell size written (buf + 1) 0
  else if radix = 0 then none
  else
    (itoaLoop radix.toUInt32 (size - buf) value buf cells).bind fun (newbuf, written) =>
      (storeCell size written newbuf 0).bind fun terminated => strrev size terminated buf

/-! ## The conversions of `printf` -/

def putsCells (size : Nat) (cells : Nat → UInt8) (s : Nat) : Option (List UInt8) :=
  (strlenCells size cells s).map fun length => (List.range length).map fun k => cells (s + k)

def putsMemory (memory : UInt32 → UInt8) (s : UInt32) : Option (List UInt8) :=
  (strlenFrom (fun k => memory (s + UInt32.ofNat k)) (2 ^ 32) 0).map fun length =>
    (List.range length).map fun k => memory (s + UInt32.ofNat k)

def convertUnsigned (size : Nat) (radix : Int32) (convBuf : Nat → UInt8) (word : UInt32) :
    Option (List UInt8) :=
  (itoa size word convBuf 0 radix).bind fun converted => putsCells size converted 0

def convertSigned (convBuf : Nat → UInt8) (word : UInt32) : Option (List UInt8) :=
  if word.toInt32 < 0 then
    (storeCell 36 convBuf 0 0x2D).bind fun signed =>
      (itoa 36 (-word.toInt32).toUInt32 signed 1 10).bind fun converted =>
        putsCells 36 converted 0
  else convertUnsigned 36 10 convBuf word

/-- `while (i < 8) conv_buf[i++] = '0';`: `count` rounds are left. -/
def padZeros (size : Nat) : Nat → Nat → (Nat → UInt8) → Option (Nat → UInt8)
  | 0, _, cells => some cells
  | count + 1, i, cells =>
      (storeCell size cells i 0x30).bind fun padded => padZeros size count (i + 1) padded

/-- `%#x`: the length of the numeral is also the index at which the padding starts. -/
def convertAlternate (convBuf : Nat → UInt8) (word : UInt32) : Option (List UInt8) :=
  (itoa 64 word convBuf 8 16).bind fun converted =>
    (strlenCells 64 converted 8).bind fun startingIndex =>
      (padZeros 64 (8 - startingIndex) startingIndex converted).bind fun padded =>
        putsCells 64 padded startingIndex

def convert (memory : UInt32 → UInt8) (convBuf : Nat → UInt8) (alternate : Bool)
    (specifier : UInt8) (word : UInt32) : Option (List UInt8 × Nat) :=
  if specifier = 0x25 then some ([0x25], 0)
  else if specifier = 0x78 then
    (if alternate then convertAlternate convBuf word
      else convertUnsigned 64 16 convBuf word).map fun output => (output, 1)
  else if specifier = 0x75 then (convertUnsigned 36 10 convBuf word).map fun output => (output, 1)
  else if specifier = 0x64 then (convertSigned convBuf word).map fun output => (output, 1)
  else if specifier = 0x63 then some ([word.toUInt8], 1)
  else if specifier = 0x73 then (putsMemory memory word).map fun output => (output, 1)
  else some ([], 0)

/-! ## `printf` -/

/-- What `printf` finds: memory, the words behind the format, and its uninitialised locals. -/
structure PrintfFrame where
  memory : UInt32 → UInt8
  args : Nat → UInt32
  convBuf : Nat → Nat → UInt8

/--
The loop of `printf`: what it gives to `putc` from here on.  `conversion` is the
value of `alternate` behind a `%`; a format that ends there is read on behind
its NUL, which has no value here.
-/
def printfLoop (frame : PrintfFrame) : List UInt8 → Option Bool → Nat → Option (List UInt8)
  | [], none, _ => some []
  | [], some _, _ => none
  | char :: format, none, esp =>
      if char = 0x25 then printfLoop frame format (some false) esp
      else (printfLoop frame format none esp).map fun output => char :: output
  | char :: format, some alternate, esp =>
      if char = 0x23 then printfLoop frame format (some true) esp
      else
        (convert frame.memory (frame.convBuf esp) alternate char (frame.args esp)).bind
          fun (converted, taken) =>
            (printfLoop frame format none (esp + taken)).map fun output => converted ++ output

def printfArgs (frame : PrintfFrame) (format : CString) (screen : Screen) :
    Option (Screen × Int32) :=
  (printfLoop frame format.chars none 0).map fun output =>
    (output.foldl (fun shown char => putc char shown) screen, Int32.ofNat format.chars.length)

end LinuxOS
