import LinuxOS.Tty.ScanCodes
import LinuxOS.Tty.Screen

/-!
# Chords and the rows of the table

`scan_codes` has 61 rows, and F3 has the code 61.  Its presses and releases are
recorded behind the table, and the test for Alt+F3 reads there.
-/

namespace LinuxOS

open Foundation

/-! ## The rows that the handler uses -/

/-- The rows of `scan_codes[first][3] == 1 && scan_codes[second][3] == 1`. -/
def rowsOfAnd (first second : UInt8) (keyDown : KeyDown) : List UInt8 :=
  if keyDown.isDown first then [first, second] else [first]

def rowsOfShift (keyDown : KeyDown) : List UInt8 :=
  if keyDown.isDown leftshift then [leftshift] else [leftshift, rightshift]

def rowsOfRecord (pressCode : UInt8) : List UInt8 :=
  if pressCode ≤ function3Key then [pressCode]
  else if pressCode ≠ 0xBA then [pressCode - pressReleaseOffset]
  else []

def rowsOfToggle (pressCode : UInt8) : List UInt8 :=
  if pressCode = capsLock then [pressCode, pressCode] else []

def rowsOfChar (pressCode : UInt8) (keyDown : KeyDown) : List UInt8 :=
  [capsLock] ++ (if keyDown capsLock.toNat = 0 then rowsOfShift keyDown ++ [pressCode] else []) ++
    [capsLock] ++ (if keyDown.isDown capsLock then rowsOfShift keyDown ++ [pressCode] else [])

def rowsOfCall (pressCode : UInt8) (keyDown : KeyDown) : List UInt8 :=
  rowsOfAnd leftCtrl 0x26 keyDown ++
    if keyDown.isDown leftCtrl ∧ keyDown.isDown 0x26 then []
    else if pressCode = 0x0E then []
    else rowsOfAnd leftAlt function1Key keyDown ++
      if keyDown.isDown leftAlt ∧ keyDown.isDown function1Key then []
      else rowsOfAnd leftAlt function2Key keyDown ++
        if keyDown.isDown leftAlt ∧ keyDown.isDown function2Key then []
        else rowsOfAnd leftAlt function3Key keyDown

def rowsUsed (pressCode : UInt8) (keyDown : KeyDown) : List UInt8 :=
  if Admitted pressCode then
    rowsOfRecord pressCode ++
      (if pressCode ≤ capsLock then
        rowsOfToggle pressCode ++ rowsOfChar pressCode (noteKey pressCode keyDown)
      else []) ++
      rowsOfCall pressCode (noteKey pressCode keyDown)
  else []

def RowsInside (rows : List UInt8) : Prop := ∀ row ∈ rows, row.toNat < 61

instance : DecidablePred RowsInside := fun rows =>
  List.decidableBAll (fun row : UInt8 => row.toNat < 61) rows

/-! ## Which of them lie in the table -/

theorem rowsInside_append {first second : List UInt8} :
    RowsInside (first ++ second) ↔ RowsInside first ∧ RowsInside second :=
  List.forall_mem_append

theorem rowsInside_rowsOfAnd {first second : UInt8} (hfirst : first.toNat < 61)
    {keyDown : KeyDown} :
    RowsInside (rowsOfAnd first second keyDown) ↔
      (keyDown.isDown first → second.toNat < 61) := by
  unfold rowsOfAnd RowsInside
  by_cases hdown : keyDown.isDown first <;> simp [hdown, hfirst]

theorem rowsInside_rowsOfRecord {pressCode : UInt8} (hin : Admitted pressCode) :
    RowsInside (rowsOfRecord pressCode) ↔
      pressCode ≠ function3Key ∧ pressCode ≠ function3Key + pressReleaseOffset := by
  have hlast : function3Key.toNat = 61 := rfl
  have hbreak : (function3Key + pressReleaseOffset).toNat = 189 := rfl
  have hhigh : ¬ 189 < pressCode.toNat := hin.1
  rw [ne_eq, ne_eq, ← UInt8.toNat_inj, ← UInt8.toNat_inj, hlast, hbreak]
  unfold rowsOfRecord RowsInside
  by_cases hmake : pressCode ≤ function3Key
  · have hbound : pressCode.toNat ≤ 61 := UInt8.le_iff_toNat_le.mp hmake
    rw [if_pos hmake, List.forall_mem_singleton]
    omega
  · have hrow := toNat_of_release hin hmake
    have hbound : ¬ pressCode.toNat ≤ 61 := fun h => hmake (UInt8.le_iff_toNat_le.mpr h)
    rw [if_neg hmake]
    by_cases hlock : pressCode = 0xBA
    · subst hlock
      rw [if_neg (not_not.mpr rfl)]
      exact iff_of_true (List.forall_mem_nil _) ⟨by decide, by decide⟩
    · rw [if_pos hlock, List.forall_mem_singleton]
      omega

theorem rowsInside_rowsOfChar {pressCode : UInt8} (hmake : pressCode ≤ capsLock)
    (keyDown : KeyDown) : RowsInside (rowsOfToggle pressCode ++ rowsOfChar pressCode keyDown) := by
  have hcode : pressCode.toNat < 61 :=
    (UInt8.le_iff_toNat_le.mp hmake).trans_lt (by decide)
  have hshift : RowsInside (rowsOfShift keyDown) := by
    unfold rowsOfShift
    split <;> decide
  have hpress : RowsInside (rowsOfShift keyDown ++ [pressCode]) :=
    rowsInside_append.mpr ⟨hshift, List.forall_mem_singleton.mpr hcode⟩
  have hcaps : RowsInside [capsLock] := by decide
  have hnone : RowsInside [] := by decide
  unfold rowsOfToggle rowsOfChar
  simp only [rowsInside_append]
  refine ⟨?_, ⟨⟨hcaps, ?_⟩, hcaps⟩, ?_⟩
  · split
    · exact List.forall_mem_cons.mpr ⟨hcode, List.forall_mem_singleton.mpr hcode⟩
    · exact hnone
  · split
    · exact hpress
    · exact hnone
  · split
    · exact hpress
    · exact hnone

def TestsF3 (pressCode : UInt8) (keyDown : KeyDown) : Prop :=
  ¬ (keyDown.isDown leftCtrl ∧ keyDown.isDown 0x26) ∧ pressCode ≠ 0x0E ∧
    keyDown.isDown leftAlt ∧ ¬ keyDown.isDown function1Key ∧ ¬ keyDown.isDown function2Key

theorem rowsInside_rowsOfCall (pressCode : UInt8) (keyDown : KeyDown) :
    RowsInside (rowsOfCall pressCode keyDown) ↔ ¬ TestsF3 pressCode keyDown := by
  have hnone : RowsInside [] := by decide
  have hclear : RowsInside (rowsOfAnd leftCtrl 0x26 keyDown) :=
    (rowsInside_rowsOfAnd (by decide)).mpr fun _ => by decide
  have hfirst : RowsInside (rowsOfAnd leftAlt function1Key keyDown) :=
    (rowsInside_rowsOfAnd (by decide)).mpr fun _ => by decide
  have hsecond : RowsInside (rowsOfAnd leftAlt function2Key keyDown) :=
    (rowsInside_rowsOfAnd (by decide)).mpr fun _ => by decide
  have hthird : RowsInside (rowsOfAnd leftAlt function3Key keyDown) ↔ ¬ keyDown.isDown leftAlt := by
    rw [rowsInside_rowsOfAnd (by decide)]
    exact imp_congr_right fun _ => iff_of_false (by decide) not_false
  -- the handler's tests in their order; the first that holds ends them
  unfold rowsOfCall TestsF3
  rw [rowsInside_append, and_iff_right hclear]
  by_cases hboth : keyDown.isDown leftCtrl ∧ keyDown.isDown 0x26
  · rw [if_pos hboth]
    exact iff_of_true hnone fun h => h.1 hboth
  rw [if_neg hboth]
  by_cases hback : pressCode = 0x0E
  · rw [if_pos hback]
    exact iff_of_true hnone fun h => h.2.1 hback
  rw [if_neg hback, rowsInside_append, and_iff_right hfirst]
  by_cases hone : keyDown.isDown leftAlt ∧ keyDown.isDown function1Key
  · rw [if_pos hone]
    exact iff_of_true hnone fun h => h.2.2.2.1 hone.2
  rw [if_neg hone, rowsInside_append, and_iff_right hsecond]
  by_cases htwo : keyDown.isDown leftAlt ∧ keyDown.isDown function2Key
  · rw [if_pos htwo]
    exact iff_of_true hnone fun h => h.2.2.2.2 htwo.2
  rw [if_neg htwo, hthird]
  constructor
  · exact fun halt h => halt h.2.2.1
  · exact fun h halt => h ⟨hboth, hback, halt, fun hdown => hone ⟨halt, hdown⟩,
      fun hdown => htwo ⟨halt, hdown⟩⟩

theorem rowsInside_rowsUsed {pressCode : UInt8} (hin : Admitted pressCode) (keyDown : KeyDown) :
    RowsInside (rowsUsed pressCode keyDown) ↔
      (pressCode ≠ function3Key ∧ pressCode ≠ function3Key + pressReleaseOffset) ∧
        ¬ TestsF3 pressCode (noteKey pressCode keyDown) := by
  rw [rowsUsed, if_pos hin, rowsInside_append, rowsInside_append, rowsInside_rowsOfRecord hin,
    rowsInside_rowsOfCall]
  refine and_congr (and_iff_left ?_) Iff.rfl
  split
  · next hmake => exact rowsInside_rowsOfChar hmake _
  · exact fun _ hrow => absurd hrow List.not_mem_nil

/-! ## What a switch is requested for -/

theorem alt_up_of_not_testsF3 {pressCode : UInt8} {keyDown : KeyDown}
    (htest : ¬ TestsF3 pressCode keyDown)
    (hboth : ¬ (keyDown.isDown leftCtrl ∧ keyDown.isDown 0x26)) (hback : pressCode ≠ 0x0E)
    (hone : ¬ (keyDown.isDown leftAlt ∧ keyDown.isDown function1Key))
    (htwo : ¬ (keyDown.isDown leftAlt ∧ keyDown.isDown function2Key)) :
    ¬ keyDown.isDown leftAlt := fun halt =>
  htest ⟨hboth, hback, halt, fun hdown => hone ⟨halt, hdown⟩, fun hdown => htwo ⟨halt, hdown⟩⟩

theorem callOfKey_switch {regs : SwitchRegs} {pressCode char : UInt8} {keyDown : KeyDown}
    (htest : ¬ TestsF3 pressCode keyDown) (tid : UInt32) :
    callOfKey regs pressCode keyDown char = some (.switchDisplay regs tid) ↔
      ¬ (keyDown.isDown leftCtrl ∧ keyDown.isDown 0x26) ∧ pressCode ≠ 0x0E ∧
        keyDown.isDown leftAlt ∧
        (tid = 0 ∧ keyDown.isDown function1Key ∨
          tid = 1 ∧ ¬ keyDown.isDown function1Key ∧ keyDown.isDown function2Key) := by
  unfold callOfKey
  by_cases hboth : keyDown.isDown leftCtrl ∧ keyDown.isDown 0x26
  · simp [hboth]
  by_cases hback : pressCode = 0x0E
  · simp [hboth, hback]
  rw [if_neg hboth, if_neg hback]
  by_cases hone : keyDown.isDown leftAlt ∧ keyDown.isDown function1Key
  · rw [if_pos hone]
    simp [hboth, hback, hone, eq_comm]
  by_cases htwo : keyDown.isDown leftAlt ∧ keyDown.isDown function2Key
  · rw [if_neg hone, if_pos htwo]
    have hfirst : ¬ keyDown.isDown function1Key := fun h => hone ⟨htwo.1, h⟩
    simp [hboth, hback, htwo, hfirst, eq_comm]
  · have halt := alt_up_of_not_testsF3 htest hboth hback hone htwo
    rw [if_neg hone, if_neg htwo, if_neg fun h => halt h.1]
    refine iff_of_false ?_ fun h => halt h.2.2.1
    split <;> simp

theorem callOfKey_congr {regs : SwitchRegs} {pressCode char : UInt8} {keyDown other : KeyDown}
    (htest : ¬ TestsF3 pressCode keyDown)
    (hsame : ∀ key : UInt8, Tracked key → key.toNat < 61 →
      (other.isDown key ↔ keyDown.isDown key)) :
    callOfKey regs pressCode other char = callOfKey regs pressCode keyDown char := by
  have hctrl := hsame leftCtrl (by decide) (by decide)
  have hl := hsame 0x26 (by decide) (by decide)
  have halt := hsame leftAlt (by decide) (by decide)
  have hfirst := hsame function1Key (by decide) (by decide)
  have hsecond := hsame function2Key (by decide) (by decide)
  unfold callOfKey
  simp only [hctrl, hl, halt, hfirst, hsecond]
  by_cases hboth : keyDown.isDown leftCtrl ∧ keyDown.isDown 0x26
  · rw [if_pos hboth, if_pos hboth]
  by_cases hback : pressCode = 0x0E
  · rw [if_neg hboth, if_pos hback, if_neg hboth, if_pos hback]
  by_cases hone : keyDown.isDown leftAlt ∧ keyDown.isDown function1Key
  · simp only [if_neg hboth, if_neg hback, if_pos hone]
  by_cases htwo : keyDown.isDown leftAlt ∧ keyDown.isDown function2Key
  · simp only [if_neg hboth, if_neg hback, if_neg hone, if_pos htwo]
  · have hup := alt_up_of_not_testsF3 htest hboth hback hone htwo
    simp only [hup, false_and, if_false]

/-! ## Streams -/

/-- The key that selects terminal 0, 1 or 2 is the first of F1, F2, F3 that is down. -/
def FirstFunctionKey (codes : List UInt8) (tid : UInt32) : Prop :=
  (tid = 0 ∧ held function1Key codes) ∨
  (tid = 1 ∧ ¬ held function1Key codes ∧ held function2Key codes) ∨
  (tid = 2 ∧ ¬ held function1Key codes ∧ ¬ held function2Key codes ∧ held function3Key codes)

def SwitchWanted (codes : List UInt8) (pressCode : UInt8) (tid : UInt32) : Prop :=
  ¬ (held leftCtrl codes ∧ held 0x26 codes) ∧ pressCode ≠ 0x0E ∧ held leftAlt codes ∧
    FirstFunctionKey codes tid

/-- On every event of the stream, the keys and the table alone decide what the handler does. -/
structure ChordsByKeys (keyDown : KeyDown) (codes : List UInt8) : Prop where
  inside : ∀ seen pressCode, seen ++ [pressCode] <+: codes →
    RowsInside (rowsUsed pressCode (keysAfter seen keyDown))
  requested : ∀ seen pressCode, seen ++ [pressCode] <+: codes → Admitted pressCode →
    ∀ regs tid, (keyPress regs pressCode (keysAfter seen keyDown)).2 =
      some (.switchDisplay regs tid) ↔ SwitchWanted (seen ++ [pressCode]) pressCode tid
  independent : ∀ other : KeyDown, (∀ row < 61, other row = keyDown row) →
    ∀ seen pressCode, seen ++ [pressCode] <+: codes →
      ∀ regs, (keyPress regs pressCode (keysAfter seen other)).2 =
        (keyPress regs pressCode (keysAfter seen keyDown)).2

/-- Neither F3 itself nor Alt without F1 and F2, outside Ctrl+L and Backspace. -/
def KeepsOffF3 (codes : List UInt8) (pressCode : UInt8) : Prop :=
  pressCode ≠ function3Key ∧ pressCode ≠ function3Key + pressReleaseOffset ∧
    ¬ (¬ (held leftCtrl codes ∧ held 0x26 codes) ∧ pressCode ≠ 0x0E ∧ held leftAlt codes ∧
      ¬ held function1Key codes ∧ ¬ held function2Key codes)

theorem not_held_of_notMem {key : UInt8} {codes : List UInt8} (h : key ∉ codes) :
    held key codes = false := by
  induction codes using List.reverseRecOn with
  | nil => rfl
  | append_singleton codes pressCode ih =>
      rw [List.mem_append, List.mem_singleton, not_or] at h
      rw [held_concat, if_neg (Ne.symm h.2), ih h.1, ite_self]

section Fresh

variable {keyDown : KeyDown} (hfresh : Fresh keyDown)

include hfresh

theorem isDown_iff_held {key : UInt8} (hkey : Tracked key) (hrow : key.toNat < 61)
    (codes : List UInt8) : (keysAfter codes keyDown).isDown key ↔ held key codes = true :=
  isDown_keysAfter codes hkey (hfresh _ hrow)

theorem testsF3_keysAfter (codes : List UInt8) (pressCode : UInt8) :
    TestsF3 pressCode (keysAfter codes keyDown) ↔
      ¬ (held leftCtrl codes ∧ held 0x26 codes) ∧ pressCode ≠ 0x0E ∧ held leftAlt codes ∧
        ¬ held function1Key codes ∧ ¬ held function2Key codes := by
  rw [TestsF3, isDown_iff_held hfresh (by decide) (by decide),
    isDown_iff_held hfresh (by decide) (by decide), isDown_iff_held hfresh (by decide) (by decide),
    isDown_iff_held hfresh (by decide) (by decide), isDown_iff_held hfresh (by decide) (by decide)]

theorem rowsInside_iff_keepsOffF3 {seen : List UInt8} {pressCode : UInt8}
    (hin : Admitted pressCode) :
    RowsInside (rowsUsed pressCode (keysAfter seen keyDown)) ↔
      KeepsOffF3 (seen ++ [pressCode]) pressCode := by
  rw [rowsInside_rowsUsed hin, ← keysAfter_concat, testsF3_keysAfter hfresh, KeepsOffF3, and_assoc]

theorem switch_iff_wanted {seen : List UInt8} {pressCode : UInt8} (hin : Admitted pressCode)
    (hkeeps : KeepsOffF3 (seen ++ [pressCode]) pressCode)
    (hup : held function3Key (seen ++ [pressCode]) = false) (regs : SwitchRegs) (tid : UInt32) :
    (keyPress regs pressCode (keysAfter seen keyDown)).2 = some (.switchDisplay regs tid) ↔
      SwitchWanted (seen ++ [pressCode]) pressCode tid := by
  have htest : ¬ TestsF3 pressCode (keysAfter (seen ++ [pressCode]) keyDown) := fun htests =>
    hkeeps.2.2 ((testsF3_keysAfter hfresh _ _).mp htests)
  simp only [keyPress_eq, if_pos hin, ← keysAfter_concat]
  rw [callOfKey_switch htest, isDown_iff_held hfresh (by decide) (by decide),
    isDown_iff_held hfresh (by decide) (by decide), isDown_iff_held hfresh (by decide) (by decide),
    isDown_iff_held hfresh (by decide) (by decide), isDown_iff_held hfresh (by decide) (by decide)]
  simp [SwitchWanted, FirstFunctionKey, hup]

theorem call_independent {other : KeyDown} (hother : Fresh other) {seen : List UInt8}
    {pressCode : UInt8} (hin : Admitted pressCode)
    (hkeeps : KeepsOffF3 (seen ++ [pressCode]) pressCode) (regs : SwitchRegs) :
    (keyPress regs pressCode (keysAfter seen other)).2 =
      (keyPress regs pressCode (keysAfter seen keyDown)).2 := by
  have htest : ¬ TestsF3 pressCode (keysAfter (seen ++ [pressCode]) keyDown) := fun htests =>
    hkeeps.2.2 ((testsF3_keysAfter hfresh _ _).mp htests)
  have hchar : charToPrint pressCode (keysAfter (seen ++ [pressCode]) other) =
      charToPrint pressCode (keysAfter (seen ++ [pressCode]) keyDown) := by
    by_cases hmake : pressCode ≤ capsLock
    · rw [charToPrint_keysAfter hother hmake, charToPrint_keysAfter hfresh hmake]
    · rw [charToPrint, charToPrint, if_neg hmake, if_neg hmake]
  simp only [keyPress_eq, if_pos hin, ← keysAfter_concat]
  rw [hchar]
  refine callOfKey_congr htest fun key hkey hrow => ?_
  rw [isDown_iff_held hfresh hkey hrow, isDown_iff_held hother hkey hrow]

/--
The handler stays in the table, requests the switches that the keys ask for,
and does not depend on what lies behind the table, on every event of a stream,
exactly when no event records or tests F3.
-/
theorem chordsByKeys_iff (codes : List UInt8) :
    ChordsByKeys keyDown codes ↔
      ∀ seen pressCode, seen ++ [pressCode] <+: codes → Admitted pressCode →
        KeepsOffF3 (seen ++ [pressCode]) pressCode := by
  constructor
  · intro hchords seen pressCode hseen hin
    exact (rowsInside_iff_keepsOffF3 hfresh hin).mp (hchords.inside seen pressCode hseen)
  intro hkeeps
  -- a press of F3 would itself be recorded in row 61
  have hnever : function3Key ∉ codes := by
    intro hmem
    obtain ⟨before, after, hsplit⟩ := List.append_of_mem hmem
    have hseen : before ++ [function3Key] <+: codes :=
      ⟨after, by rw [hsplit, List.append_assoc, List.singleton_append]⟩
    exact (hkeeps before function3Key hseen (by decide)).1 rfl
  refine ⟨fun seen pressCode hseen => ?_, fun seen pressCode hseen hin => ?_,
    fun other hsame seen pressCode hseen regs => ?_⟩
  · by_cases hin : Admitted pressCode
    · exact (rowsInside_iff_keepsOffF3 hfresh hin).mpr (hkeeps seen pressCode hseen hin)
    · rw [rowsUsed, if_neg hin]
      exact fun _ hrow => absurd hrow List.not_mem_nil
  · exact switch_iff_wanted hfresh hin (hkeeps seen pressCode hseen hin)
      (not_held_of_notMem fun hmem => hnever (hseen.subset hmem))
  · by_cases hin : Admitted pressCode
    · have hother : Fresh other := fun row hrow => (hsame row hrow).trans (hfresh row hrow)
      exact call_independent hfresh hother hin (hkeeps seen pressCode hseen hin) regs
    · simp only [keyPress_eq, if_neg hin]

end Fresh

theorem chordsByKeys_iff_altF1 :
    ChordsByKeys (fun _ => 0) [0x3B, 0x38] ↔
      ∀ seen pressCode, seen ++ [pressCode] <+: [0x3B, 0x38] → Admitted pressCode →
        KeepsOffF3 (seen ++ [pressCode]) pressCode :=
  chordsByKeys_iff (fun _ _ => rfl) [0x3B, 0x38]

/--
F3 is recorded in row 61; and where row 61 happens to hold 1, Alt alone
switches to terminal 2.
-/
theorem not_chordsByKeys_row61 :
    ¬ RowsInside (rowsUsed function3Key fun _ => 0) ∧
    ¬ ChordsByKeys (fun _ => 0) [function3Key] ∧
    (keyPress ⟨0, 0, 0, 0⟩ leftAlt (Function.update (fun _ => 0) 61 1)).2 =
      some (.switchDisplay ⟨0, 0, 0, 0⟩ 2) ∧
    ¬ SwitchWanted [leftAlt] leftAlt 2 := by
  have hrows : ¬ RowsInside (rowsUsed function3Key fun _ => 0) := by decide
  refine ⟨hrows, fun hchords => ?_, rfl, ?_⟩
  · exact hrows (hchords.inside [] function3Key (List.prefix_refl _))
  · unfold SwitchWanted FirstFunctionKey
    decide

end LinuxOS
