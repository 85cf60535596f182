import LinuxOS.Kernel.State

/-!
# The real-time clock: `rtc.c`

The device registers behind the ports are not part of the kernel's state.
-/

namespace LinuxOS

def rtcInit (kernel : Kernel) : Kernel := { kernel with virtFreq := 2, rtcInterCount := 0 }

def rtcHandler (kernel : Kernel) : Kernel :=
  { kernel with rtcInterCount := kernel.rtcInterCount + 1 }

def rtcOpen (kernel : Kernel) : Kernel := { kernel with virtFreq := 2 }

def rtcWrite (word nbytes : UInt32) (kernel : Kernel) : Kernel × Int32 :=
  if nbytes ≠ 4 then (kernel, -1)
  else if word ≤ 1024 ∧ word ≥ 2 ∧ word &&& (word - 1) = 0 then
    ({ kernel with rtcInterCount := 0, virtFreq := word }, 0)
  else (kernel, -1)

/--
`rtc_read`, when `interrupts` interrupts have been counted as its spin loop
ends; `none` when the loop does not end there, or divides by zero.
-/
def rtcRead (interrupts : UInt32) (kernel : Kernel) : Option (Kernel × Int32) :=
  if kernel.virtFreq = 0 then none
  else if interrupts < 1024 / kernel.virtFreq then none
  else some ({ kernel with rtcInterCount := interrupts }, 0)

/-! ## `rtc_read` against interrupts -/

/-- Where a call of `rtc_read` has got to; an interrupt can come at each of these places. -/
inductive RtcReader where
  /-- in front of `rtc_inter_count = 0` -/
  | entered
  /-- in front of the test of the loop -/
  | testing
  /-- the test has loaded `rtc_inter_count` -/
  | loaded (count : UInt32)
  | returned
deriving DecidableEq

structure RtcReading where
  kernel : Kernel
  reader : RtcReader

inductive RtcReadEvent where
  | interrupt
  | proceed
deriving DecidableEq

def RtcReadEvent.perform : RtcReadEvent → RtcReading → Option RtcReading
  | .interrupt, reading => some { reading with kernel := rtcHandler reading.kernel }
  | .proceed, ⟨kernel, .entered⟩ => some ⟨{ kernel with rtcInterCount := 0 }, .testing⟩
  | .proceed, ⟨kernel, .testing⟩ => some ⟨kernel, .loaded kernel.rtcInterCount⟩
  | .proceed, ⟨kernel, .loaded count⟩ =>
      if kernel.virtFreq = 0 then none
      else if count < 1024 / kernel.virtFreq then some ⟨kernel, .testing⟩
      else some ⟨kernel, .returned⟩
  | .proceed, ⟨kernel, .returned⟩ => some ⟨kernel, .returned⟩

end LinuxOS
