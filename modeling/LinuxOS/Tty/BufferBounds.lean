import LinuxOS.Tty.Editing

/-!
# The bounds of the line buffer

`terminal_read` has no bound of its own but the caller's `nbytes`: that it stops
inside the 128 cells rests on the last two, which stay zero.
-/

namespace LinuxOS

open Foundation

inductive BufferCall where
  | add (char : UInt8)
  | backspace
  | read (buf nbytes : UInt32)

def BufferCall.perform : BufferCall → Kernel → Option Kernel
  | .add char, kernel => some (terminalBufAdd char kernel)
  | .backspace, kernel => some (terminalBackspace kernel)
  | .read buf nbytes, kernel => (terminalRead buf nbytes kernel).map fun (after, _, _) => after

/-! ## The cells that a call uses -/

/-- The cells that the loop of `terminal_read` reads and clears, in order. -/
def terminalReadIndices : Nat → Int → (Int → UInt8) → List Int
  | 0, _, _ => []
  | count + 1, i, keyboardBuffer =>
      if keyboardBuffer i ≠ 0 then
        i :: terminalReadIndices count (i + 1) (Function.update keyboardBuffer i 0)
      else [i]

def BufferCall.indices : BufferCall → Terminal → List Int
  | .add _, terminal =>
      if terminal.keyboardBufferSize ≥ keyboardMaxBuffer - 2 then []
      else [terminal.keyboardBufferSize]
  | .backspace, terminal =>
      if terminal.keyboardBufferSize = 0 then [] else [terminal.keyboardBufferSize]
  | .read _ nbytes, terminal => terminalReadIndices nbytes.toNat 0 terminal.keyboardBuffer

theorem terminalReadLoop_frame {count : Nat} {i cell : Int} {keyboardBuffer : Int → UInt8}
    {buf : List UInt8} {numbytes : Nat}
    (h : cell ∉ terminalReadIndices count i keyboardBuffer) :
    (terminalReadLoop count i keyboardBuffer buf numbytes).2.2 cell = keyboardBuffer cell := by
  induction count generalizing i keyboardBuffer buf numbytes with
  | zero => rfl
  | succ count ih =>
      rw [terminalReadIndices] at h
      rw [terminalReadLoop]
      by_cases hchar : keyboardBuffer i = 0
      · rw [if_neg (not_not.mpr hchar), List.mem_singleton] at h
        rw [if_neg (not_not.mpr hchar)]
        exact Function.update_of_ne h _ _
      · rw [if_pos hchar, List.mem_cons, not_or] at h
        rw [if_pos hchar, ih h.2]
        exact Function.update_of_ne h.1 _ _

theorem terminalReadLoop_congr {count : Nat} {i : Int} {keyboardBuffer other : Int → UInt8}
    {buf : List UInt8} {numbytes : Nat}
    (h : ∀ cell ∈ terminalReadIndices count i keyboardBuffer,
      other cell = keyboardBuffer cell) :
    (terminalReadLoop count i other buf numbytes).1 =
        (terminalReadLoop count i keyboardBuffer buf numbytes).1 ∧
      (terminalReadLoop count i other buf numbytes).2.1 =
        (terminalReadLoop count i keyboardBuffer buf numbytes).2.1 := by
  induction count generalizing i keyboardBuffer other buf numbytes with
  | zero => exact ⟨rfl, rfl⟩
  | succ count ih =>
      rw [terminalReadIndices] at h
      rw [terminalReadLoop, terminalReadLoop]
      by_cases hchar : keyboardBuffer i = 0
      · rw [if_neg (not_not.mpr hchar), List.forall_mem_singleton] at h
        rw [h, if_neg (not_not.mpr hchar), if_neg (not_not.mpr hchar)]
        exact ⟨rfl, rfl⟩
      · rw [if_pos hchar, List.forall_mem_cons] at h
        rw [h.1, if_pos hchar, if_pos hchar]
        refine ih fun cell hcell => ?_
        by_cases hsame : cell = i
        · rw [hsame, Function.update_self, Function.update_self]
        · rw [Function.update_of_ne hsame, Function.update_of_ne hsame]
          exact h.2 cell hcell

theorem mem_terminalReadIndices {count : Nat} {i stop cell : Int} {keyboardBuffer : Int → UInt8}
    (hstop : keyboardBuffer stop = 0) (hfrom : i ≤ stop)
    (h : cell ∈ terminalReadIndices count i keyboardBuffer) : i ≤ cell ∧ cell ≤ stop := by
  induction count generalizing i keyboardBuffer with
  | zero => exact absurd h List.not_mem_nil
  | succ count ih =>
      rw [terminalReadIndices] at h
      split at h
      · next hchar =>
          have hne : stop ≠ i := fun hsame => hchar (hsame ▸ hstop)
          rcases List.mem_cons.mp h with rfl | h
          · exact ⟨Int.le_refl cell, hfrom⟩
          · have hrest := ih (i := i + 1) (by rw [Function.update_of_ne hne, hstop]) (by omega) h
            omega
      · rw [List.mem_singleton.mp h]
        exact ⟨Int.le_refl i, hfrom⟩

theorem InRange.indices {terminal : Terminal} (h : InRange terminal) (call : BufferCall) :
    ∀ cell ∈ call.indices terminal, 0 ≤ cell ∧ cell < 128 := by
  have hnonneg := h.nonneg
  have hbounded := h.bounded
  intro cell hcell
  cases call with
  | add char =>
      simp only [BufferCall.indices] at hcell
      split at hcell
      · exact absurd hcell List.not_mem_nil
      · rw [List.mem_singleton.mp hcell]
        omega
  | backspace =>
      simp only [BufferCall.indices] at hcell
      split at hcell
      · exact absurd hcell List.not_mem_nil
      · rw [List.mem_singleton.mp hcell]
        omega
  | read buf nbytes =>
      have hscan := mem_terminalReadIndices (h.last 126 (by decide) (by decide)) (by decide) hcell
      omega

/-! ## What a read returns -/

theorem length_untilNul_le_of_nul {string : Nat → UInt8} {count index stop : Nat}
    (hstop : string stop = 0) (hfrom : index ≤ stop) :
    (untilNul string count index).length ≤ stop - index := by
  induction count generalizing index with
  | zero => exact Nat.zero_le _
  | succ count ih =>
      rw [untilNul]
      by_cases hnul : string index = 0
      · rw [if_pos hnul]
        exact Nat.zero_le _
      · have hne : index ≠ stop := fun hsame => hnul (hsame ▸ hstop)
        have hrest := @ih (index + 1) (by omega)
        rw [if_neg hnul, List.length_cons]
        omega

theorem InRange.result {buf nbytes : UInt32} {kernel after : Kernel} {result : Int32}
    {stores : Stores} (h : InRange kernel.displayed)
    (hread : LinuxOS.terminalRead buf nbytes kernel = some (after, result, stores)) :
    0 ≤ result ∧ result ≤ 126 ∧ stores.length ≤ 127 := by
  obtain ⟨text, htext⟩ : ∃ text, text =
    untilNul (fun k => kernel.displayed.keyboardBuffer k) nbytes.toNat 0 := ⟨_, rfl⟩
  have hlength : text.length ≤ 126 - 0 := by
    rw [htext]
    exact length_untilNul_le_of_nul (h.last 126 (by decide) (by decide)) (by decide)
  rw [terminalRead_eq (allow_of_terminalRead hread) htext] at hread
  cases hread
  have hresult : (Int32.ofNat text.length).toInt = text.length :=
    Int32.toInt_ofNat_of_lt (by omega)
  have hlimit : (126 : Int32).toInt = 126 := rfl
  refine ⟨?_, ?_, ?_⟩
  · rw [Int32.le_iff_toInt_le, hresult, Int32.toInt_zero]
    omega
  · rw [Int32.le_iff_toInt_le, hresult, hlimit]
    omega
  · rw [storesAt, List.length_map, List.length_zipIdx, List.length_append]
    split
    · rw [List.length_singleton]
      omega
    · rw [List.length_nil]
      omega

/-! ## Runs -/

theorem InRange.call {call : BufferCall} {kernel after : Kernel} (h : InRange kernel.displayed)
    (hstep : call.perform kernel = some after) : InRange after.displayed := by
  cases call with
  | add char =>
      cases hstep
      exact h.terminalBufAdd char
  | backspace =>
      cases hstep
      exact h.terminalBackspace
  | read buf nbytes =>
      obtain ⟨⟨drained, result, stores⟩, hread, hafter⟩ := Option.map_eq_some_iff.mp hstep
      cases hafter
      exact h.terminalRead hread

/--
In every state that the three functions reach, with any bytes typed and any
`nbytes`: the size is in range, the last two cells are zero, whatever is called
next uses cells below 128 only, and a read returns 126 at most.
-/
theorem keyboardBuffer_inBounds {calls : List BufferCall} {start final : Kernel}
    (hrun : run BufferCall.perform calls start = some final) (hstart : Blank start.displayed) :
    InRange final.displayed ∧
      (∀ call : BufferCall, ∀ cell ∈ call.indices final.displayed, 0 ≤ cell ∧ cell < 128) ∧
      ∀ buf nbytes after result stores,
        terminalRead buf nbytes final = some (after, result, stores) →
          0 ≤ result ∧ result ≤ 126 ∧ stores.length ≤ 127 := by
  have hrange : InRange final.displayed :=
    run_invariant (fun _ _ _ h hstep => InRange.call h hstep) hrun hstart.inRange
  exact ⟨hrange, hrange.indices, fun _ _ _ _ _ hread => hrange.result hread⟩

def shortReads : List BufferCall :=
  [.add 0x61, .add 0x0A, .read 0x8000000 0, .add 0x62, .add 0x0A, .read 0x8000000 0xFFFFFFFF]

theorem keyboardBuffer_inBounds_shortReads :
    ∃ final, run BufferCall.perform shortReads (bootKernel shellImage) = some final ∧
      InRange final.displayed ∧
      (∀ call : BufferCall, ∀ cell ∈ call.indices final.displayed, 0 ≤ cell ∧ cell < 128) ∧
      ∀ buf nbytes after result stores,
        terminalRead buf nbytes final = some (after, result, stores) →
          0 ≤ result ∧ result ≤ 126 ∧ stores.length ≤ 127 := by
  have hsome : (run BufferCall.perform shortReads (bootKernel shellImage)).isSome := by
    decide
  obtain ⟨final, hrun⟩ := Option.isSome_iff_exists.mp hsome
  exact ⟨final, hrun, keyboardBuffer_inBounds hrun (blank_bootKernel shellImage)⟩

end LinuxOS
