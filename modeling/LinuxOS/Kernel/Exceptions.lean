import LinuxOS.Kernel.Process

/-!
# The exception handlers of `interrupt_table.c`

Each is `HANDLE_EXCEPTION` with its message.  `init_idt` sets them for the
vectors 0x00 to 0x13, of which 0x0F has none.
-/

namespace LinuxOS

abbrev ExceptionHandler := Kernel → Option (Kernel × Exit)

def exceptionDivideError : ExceptionHandler := handleException "DIVIDE ERROR"
def debugIntelOnly : ExceptionHandler := handleException "DEBUG INTEL ONLY"
def exceptionNmiInterrupt : ExceptionHandler := handleException "NMI INTERRUPT"
def exceptionBreakpoint : ExceptionHandler := handleException "BREAKPOINT"
def exceptionOverflow : ExceptionHandler := handleException "OVERFLOW"
def exceptionBoundRangeExceeded : ExceptionHandler := handleException "BOUND RANGE EXCEEDED"
def exceptionInvalidOpcode : ExceptionHandler := handleException "INVALID OPCODE"
def exceptionDeviceNotAvailable : ExceptionHandler := handleException "DEVICE NOT AVAILABLE"
def exceptionDoubleFault : ExceptionHandler := handleException "DOUBLE FAULT"
def exceptionCoprocessorSegmentOverrun : ExceptionHandler :=
  handleException "COPROCESSOR SEGMENT OVERRUN"
def exceptionInvalidTss : ExceptionHandler := handleException "INVALID TSS"
def exceptionSegmentNotPresent : ExceptionHandler := handleException "SEGMENT NOT PRESENT"
def exceptionStackSegmentFault : ExceptionHandler := handleException "STACK SEGMENT FAULT"
def exceptionGeneralProtection : ExceptionHandler := handleException "GENERAL PROTECTION"
def exceptionPageFault : ExceptionHandler := handleException "PAGE FAULT"
def exceptionX87FpuError : ExceptionHandler := handleException "X87 FPU FLOATING POINT ERROR"
def exceptionAlignmentCheck : ExceptionHandler := handleException "ALIGNMENT CHECK"
def exceptionMachineCheck : ExceptionHandler := handleException "MACHINE CHECK"
def exceptionSimdFloatingPoint : ExceptionHandler :=
  handleException "SIMD FLOATING POINT EXCEPTION"

def exceptionEntries : List (UInt8 × ExceptionHandler) :=
  [(0x00, exceptionDivideError),
    (0x01, debugIntelOnly),
    (0x02, exceptionNmiInterrupt),
    (0x03, exceptionBreakpoint),
    (0x04, exceptionOverflow),
    (0x05, exceptionBoundRangeExceeded),
    (0x06, exceptionInvalidOpcode),
    (0x07, exceptionDeviceNotAvailable),
    (0x08, exceptionDoubleFault),
    (0x09, exceptionCoprocessorSegmentOverrun),
    (0x0A, exceptionInvalidTss),
    (0x0B, exceptionSegmentNotPresent),
    (0x0C, exceptionStackSegmentFault),
    (0x0D, exceptionGeneralProtection),
    (0x0E, exceptionPageFault),
    (0x10, exceptionX87FpuError),
    (0x11, exceptionAlignmentCheck),
    (0x12, exceptionMachineCheck),
    (0x13, exceptionSimdFloatingPoint)]

theorem exists_message {vector : UInt8} {handler : ExceptionHandler}
    (h : (vector, handler) ∈ exceptionEntries) :
    ∃ message, handler = handleException message := by
  have hhandler : handler ∈ exceptionEntries.map Prod.snd := List.mem_map_of_mem h
  simp only [exceptionEntries, List.map_cons, List.map_nil, List.mem_cons, List.not_mem_nil,
    or_false] at hhandler
  rcases hhandler with h | h | h | h | h | h | h | h | h | h | h | h | h | h | h | h | h | h | h
    <;> exact ⟨_, h⟩

end LinuxOS
