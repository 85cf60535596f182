import LinuxOS.Kernel.KeyboardHandler

/-!
# Which keys are down

The table of keys against the stream of scan codes: a key is down when its last
make or break code was a make.  Caps Lock is cleared in the event that sets it,
and F3 is recorded behind the table.
-/

namespace LinuxOS

/-! ## The keys that a stream of codes leaves down -/

def Admitted (pressCode : UInt8) : Prop :=
  ¬ pressCode > 0xBD ∧ ¬ (pressCode > 0x3D ∧ pressCode < 0x81)

instance : DecidablePred Admitted := fun _ => inferInstanceAs (Decidable (_ ∧ _))

def noteKey (pressCode : UInt8) (keyDown : KeyDown) : KeyDown :=
  if Admitted pressCode then
    if pressCode ≤ capsLock then toggleCapsLock pressCode (recordKey pressCode keyDown)
    else recordKey pressCode keyDown
  else keyDown

def charToPrint (pressCode : UInt8) (keyDown : KeyDown) : UInt8 :=
  if pressCode ≤ capsLock then charOfKey pressCode keyDown else 0

theorem keyPress_eq (regs : SwitchRegs) (pressCode : UInt8) (keyDown : KeyDown) :
    keyPress regs pressCode keyDown =
      (noteKey pressCode keyDown,
        if Admitted pressCode then
          callOfKey regs pressCode (noteKey pressCode keyDown)
            (charToPrint pressCode (noteKey pressCode keyDown))
        else none) := by
  unfold keyPress noteKey charToPrint
  by_cases hhigh : pressCode > 0xBD
  · have hout : ¬ Admitted pressCode := fun h => h.1 hhigh
    rw [if_pos hhigh, if_neg hout, if_neg hout]
  by_cases hgap : pressCode > 0x3D ∧ pressCode < 0x81
  · have hout : ¬ Admitted pressCode := fun h => h.2 hgap
    rw [if_neg hhigh, if_pos hgap, if_neg hout, if_neg hout]
  · have hin : Admitted pressCode := ⟨hhigh, hgap⟩
    simp only [if_neg hhigh, if_neg hgap, if_pos hin]
    by_cases hchar : pressCode ≤ capsLock
    · simp only [if_pos hchar]
    · simp only [if_neg hchar]

def keysAfter (codes : List UInt8) (keyDown : KeyDown) : KeyDown :=
  codes.foldl (fun keyDown pressCode => noteKey pressCode keyDown) keyDown

theorem keysAfter_concat (codes : List UInt8) (pressCode : UInt8) (keyDown : KeyDown) :
    keysAfter (codes ++ [pressCode]) keyDown = noteKey pressCode (keysAfter codes keyDown) := by
  rw [keysAfter, List.foldl_append]
  rfl

/-- Nothing has been pressed; what lies behind the 61 rows is left open. -/
def Fresh (keyDown : KeyDown) : Prop := ∀ row < 61, keyDown row = 0

def held (key : UInt8) (codes : List UInt8) : Bool :=
  codes.foldl (fun down pressCode =>
    if pressCode = key then true
    else if pressCode = key + pressReleaseOffset then false
    else down) false

theorem held_concat (key : UInt8) (codes : List UInt8) (pressCode : UInt8) :
    held key (codes ++ [pressCode]) =
      if pressCode = key then true
      else if pressCode = key + pressReleaseOffset then false
      else held key codes := by
  rw [held, List.foldl_append]
  rfl

/-- The keys with a make and a break code of their own, Caps Lock apart. -/
def Tracked (key : UInt8) : Prop := 0 < key ∧ key ≤ function3Key ∧ key ≠ capsLock

instance : DecidablePred Tracked := fun _ => inferInstanceAs (Decidable (_ ∧ _ ∧ _))

theorem admitted_make {key : UInt8} (h : key ≤ function3Key) : Admitted key := by
  have hbound : key.toNat ≤ 61 := UInt8.le_iff_toNat_le.mp h
  refine ⟨fun hhigh => ?_, fun hgap => ?_⟩
  · have hhigh : 189 < key.toNat := hhigh
    omega
  · have hgap : 61 < key.toNat := hgap.1
    omega

theorem toggleCapsLock_of_ne {row : Nat} (h : row ≠ capsLock.toNat) (pressCode : UInt8)
    (keyDown : KeyDown) : toggleCapsLock pressCode keyDown row = keyDown row := by
  unfold toggleCapsLock
  split
  · next hcode =>
      rw [hcode]
      split <;> exact Function.update_of_ne h _ _
  · rfl

theorem toNat_add_offset {key : UInt8} (h : key ≤ function3Key) :
    (key + pressReleaseOffset).toNat = key.toNat + 128 := by
  have hbound : key.toNat ≤ 61 := UInt8.le_iff_toNat_le.mp h
  have hoffset : pressReleaseOffset.toNat = 128 := rfl
  rw [UInt8.toNat_add, hoffset, Nat.mod_eq_of_lt (by omega)]

theorem admitted_release {key : UInt8} (h : Tracked key) :
    Admitted (key + pressReleaseOffset) := by
  have hadd := toNat_add_offset h.2.1
  have hlow : 0 < key.toNat := h.1
  have hbound : key.toNat ≤ 61 := UInt8.le_iff_toNat_le.mp h.2.1
  refine ⟨fun hhigh => ?_, fun hgap => ?_⟩
  · have hhigh : 189 < (key + pressReleaseOffset).toNat := hhigh
    omega
  · have hgap : (key + pressReleaseOffset).toNat < 129 := hgap.2
    omega

theorem toNat_of_release {pressCode : UInt8} (hin : Admitted pressCode)
    (hmake : ¬ pressCode ≤ function3Key) :
    pressCode.toNat = (pressCode - pressReleaseOffset).toNat + 128 := by
  have hgap : ¬ (61 < pressCode.toNat ∧ pressCode.toNat < 129) := hin.2
  have hmake : ¬ pressCode.toNat ≤ 61 := fun h => hmake (UInt8.le_iff_toNat_le.mpr h)
  have hoffset : pressReleaseOffset.toNat = 128 := rfl
  have hle : pressReleaseOffset ≤ pressCode := by
    rw [UInt8.le_iff_toNat_le]
    omega
  rw [UInt8.toNat_sub_of_le _ _ hle]
  omega

theorem recordKey_make {pressCode : UInt8} (h : pressCode ≤ function3Key) (keyDown : KeyDown) :
    recordKey pressCode keyDown = Function.update keyDown pressCode.toNat 1 := if_pos h

theorem recordKey_release {key : UInt8} (hkey : Tracked key) (keyDown : KeyDown) :
    recordKey (key + pressReleaseOffset) keyDown = Function.update keyDown key.toNat 0 := by
  obtain ⟨hlow, hhigh, hcaps⟩ := hkey
  have hadd := toNat_add_offset hhigh
  have hmake : ¬ key + pressReleaseOffset ≤ function3Key := by
    rw [UInt8.le_iff_toNat_le, hadd]
    exact Nat.not_le.mpr (Nat.lt_of_lt_of_le (by decide) (Nat.le_add_left 128 key.toNat))
  have hlock : key + pressReleaseOffset ≠ 0xBA := by
    intro h
    rw [← UInt8.toNat_inj, hadd] at h
    exact hcaps (UInt8.toNat_inj.mp (Nat.add_right_cancel h))
  rw [recordKey, if_neg hmake, if_pos hlock, UInt8.add_sub_cancel]

theorem recordKey_other {key pressCode : UInt8} (hpress : pressCode ≠ key)
    (hrelease : pressCode ≠ key + pressReleaseOffset) (keyDown : KeyDown) :
     recordKey pressCode keyDown key.toNat = keyDown key.toNat := by
  unfold recordKey
  by_cases hmake : pressCode ≤ function3Key
  · rw [if_pos hmake]
    exact Function.update_of_ne (fun h => hpress (UInt8.toNat_inj.mp h).symm) _ _
  rw [if_neg hmake]
  split
  · refine Function.update_of_ne (fun h => hrelease ?_) _ _
    rw [UInt8.toNat_inj.mp h, UInt8.sub_add_cancel]
  · rfl

theorem noteKey_tracked {key : UInt8} (hkey : Tracked key) (pressCode : UInt8)
    (keyDown : KeyDown) :
    noteKey pressCode keyDown key.toNat =
      if pressCode = key then 1
      else if pressCode = key + pressReleaseOffset then 0
      else keyDown key.toNat := by
  have hrow : key.toNat ≠ capsLock.toNat := fun h => hkey.2.2 (UInt8.toNat_inj.mp h)
  -- the toggle touches the row of Caps Lock alone
  have hrecorded : noteKey pressCode keyDown key.toNat =
      if Admitted pressCode then recordKey pressCode keyDown key.toNat else keyDown key.toNat := by
    unfold noteKey
    split
    · split
      · exact toggleCapsLock_of_ne hrow _ _
      · rfl
    · rfl
  rw [hrecorded]
  by_cases hpress : pressCode = key
  · subst hpress
    rw [if_pos rfl, if_pos (admitted_make hkey.2.1), recordKey_make hkey.2.1,
      Function.update_self]
  rw [if_neg hpress]
  by_cases hrelease : pressCode = key + pressReleaseOffset
  · rw [if_pos hrelease, hrelease, if_pos (admitted_release hkey), recordKey_release hkey,
      Function.update_self]
  rw [if_neg hrelease]
  split
  · exact recordKey_other hpress hrelease keyDown
  · rfl

/-- The press of Caps Lock is recorded first, so the toggle always clears the row. -/
theorem noteKey_capsLock (pressCode : UInt8) (keyDown : KeyDown) :
    noteKey pressCode keyDown capsLock.toNat =
      if pressCode = capsLock then 0 else keyDown capsLock.toNat := by
  by_cases hpress : pressCode = capsLock
  · subst hpress
    rfl
  rw [if_neg hpress, noteKey]
  split
  · have htoggle : toggleCapsLock pressCode (recordKey pressCode keyDown) =
        recordKey pressCode keyDown := if_neg hpress
    have hkept : recordKey pressCode keyDown capsLock.toNat = keyDown capsLock.toNat := by
      by_cases hrelease : pressCode = capsLock + pressReleaseOffset
      · rw [hrelease]
        rfl
      · exact recordKey_other hpress hrelease keyDown
    rw [htoggle, ite_self, hkept]
  · rfl

section Streams

variable {keyDown : KeyDown} (codes : List UInt8)

theorem keysAfter_tracked {key : UInt8} (hkey : Tracked key) (hup : keyDown key.toNat = 0) :
    keysAfter codes keyDown key.toNat = if held key codes then 1 else 0 := by
  induction codes using List.reverseRecOn with
  | nil => exact hup
  | append_singleton codes pressCode ih =>
      rw [keysAfter_concat, noteKey_tracked hkey, ih, held_concat]
      split
      · rfl
      split <;> rfl

theorem isDown_keysAfter {key : UInt8} (hkey : Tracked key) (hup : keyDown key.toNat = 0) :
    (keysAfter codes keyDown).isDown key ↔ held key codes = true := by
  rw [KeyDown.isDown, keysAfter_tracked codes hkey hup]
  cases held key codes <;> decide

theorem keysAfter_capsLock (hup : keyDown capsLock.toNat = 0) :
    keysAfter codes keyDown capsLock.toNat = 0 := by
  induction codes using List.reverseRecOn with
  | nil => exact hup
  | append_singleton codes pressCode ih =>
      rw [keysAfter_concat, noteKey_capsLock, ih, ite_self]

end Streams

/-! ## Caps Lock and Shift -/

def CapsOn (codes : List UInt8) : Prop := codes.count capsLock % 2 = 1

instance : DecidablePred CapsOn := fun _ => inferInstanceAs (Decidable (_ = _))

def ShiftHeld (codes : List UInt8) : Prop :=
  held leftshift codes = true ∨ held rightshift codes = true

instance : DecidablePred ShiftHeld := fun _ => inferInstanceAs (Decidable (_ ∨ _))

def LetterKey (pressCode : UInt8) : Prop :=
  0x61 ≤ (scanCodes.getD pressCode.toNat (0, 0, 0)).1 ∧
    (scanCodes.getD pressCode.toNat (0, 0, 0)).1 ≤ 0x7A

instance : DecidablePred LetterKey := fun _ => inferInstanceAs (Decidable (_ ∧ _))

/-- What a key is to type: a letter in upper case iff Caps Lock xor Shift, else its symbol. -/
def expectedChar (caps shift : Prop) [Decidable caps] [Decidable shift] (pressCode : UInt8) :
    UInt8 :=
  let (plain, shifted, _) := scanCodes.getD pressCode.toNat (0, 0, 0)
  if LetterKey pressCode then
    if (caps ∧ ¬ shift) ∨ (¬ caps ∧ shift) then plain - 0x20 else plain
  else if shift then shifted
  else plain

theorem shifted_of_letterKey {pressCode : UInt8} (h : LetterKey pressCode) :
    (scanCodes.getD pressCode.toNat (0, 0, 0)).2.1 =
      (scanCodes.getD pressCode.toNat (0, 0, 0)).1 - 0x20 := by
  have hrows : scanCodes.all (fun row =>
      !(decide (0x61 ≤ row.1) && decide (row.1 ≤ 0x7A)) || row.2.1 == row.1 - 0x20) = true := by
    decide
  obtain ⟨row, hrow⟩ : ∃ row, row = scanCodes.getD pressCode.toNat (0, 0, 0) := ⟨_, rfl⟩
  rw [LetterKey, ← hrow] at h
  rw [← hrow]
  have hmem : row ∈ scanCodes := by
    rw [List.getD_eq_getElem?_getD] at hrow
    cases hget : scanCodes[pressCode.toNat]? with
    | none =>
        rw [hrow, hget] at h
        exact absurd h.1 (by decide)
    | some found =>
        rw [hrow, hget]
        exact List.mem_of_getElem? hget
  have hentry := List.all_eq_true.mp hrows row hmem
  rw [decide_eq_true h.1, decide_eq_true h.2] at hentry
  exact eq_of_beq hentry

theorem charToPrint_keysAfter {codes : List UInt8} {keyDown : KeyDown} (hfresh : Fresh keyDown)
    {pressCode : UInt8} (hchar : pressCode ≤ capsLock) :
    charToPrint pressCode (keysAfter codes keyDown) =
      if ShiftHeld codes then (scanCodes.getD pressCode.toNat (0, 0, 0)).2.1
      else (scanCodes.getD pressCode.toNat (0, 0, 0)).1 := by
  have hcaps := keysAfter_capsLock codes (hfresh capsLock.toNat (by decide))
  have hoff : ¬ (keysAfter codes keyDown).isDown capsLock := by
    rw [KeyDown.isDown, hcaps]
    decide
  have hleft := @isDown_keysAfter keyDown codes leftshift (by decide)
    (hfresh leftshift.toNat (by decide))
  have hright := @isDown_keysAfter keyDown codes rightshift (by decide)
    (hfresh rightshift.toNat (by decide))
  rw [charToPrint, if_pos hchar]
  simp only [charOfKey, hcaps, if_neg hoff, hleft, hright]
  rfl

theorem callOfKey_bufAdd {regs : SwitchRegs} {pressCode typed char : UInt8} {keyDown : KeyDown}
    (h : callOfKey regs pressCode keyDown typed = some (.bufAdd char)) :
    char = typed ∧ typed ≠ 0 := by
  unfold callOfKey at h
  repeat' split at h
  all_goals cases h
  next hchar => exact ⟨rfl, hchar⟩

theorem char_of_bufAdd {keyDown : KeyDown} (hfresh : Fresh keyDown) {codes : List UInt8}
    {regs : SwitchRegs} {pressCode char : UInt8}
    (hcall : (keyPress regs pressCode (keysAfter codes keyDown)).2 = some (.bufAdd char)) :
    char = if ShiftHeld (codes ++ [pressCode]) then
        (scanCodes.getD pressCode.toNat (0, 0, 0)).2.1
      else (scanCodes.getD pressCode.toNat (0, 0, 0)).1 := by
  rw [keyPress_eq, ← keysAfter_concat] at hcall
  split at hcall
  · obtain ⟨hchar, htyped⟩ := callOfKey_bufAdd hcall
    have hmake : pressCode ≤ capsLock := by
      by_contra hout
      exact htyped (if_neg hout)
    rw [hchar, charToPrint_keysAfter hfresh hmake]
  · cases hcall

/--
What reaches `terminal_buf_add` is the character that Caps Lock and Shift ask
for exactly when the key is no letter or Caps Lock has been pressed an even
number of times.
-/
theorem types_expected_iff {keyDown : KeyDown} (hfresh : Fresh keyDown) {codes : List UInt8}
    {regs : SwitchRegs} {pressCode char : UInt8}
    (hcall : (keyPress regs pressCode (keysAfter codes keyDown)).2 = some (.bufAdd char)) :
    char = expectedChar (CapsOn (codes ++ [pressCode])) (ShiftHeld (codes ++ [pressCode]))
        pressCode ↔
      ¬ LetterKey pressCode ∨ ¬ CapsOn (codes ++ [pressCode]) := by
  have hchar := char_of_bufAdd hfresh hcall
  obtain ⟨seen, hseen⟩ : ∃ seen, seen = codes ++ [pressCode] := ⟨_, rfl⟩
  rw [← hseen] at hchar ⊢
  simp only [expectedChar]
  by_cases hletter : LetterKey pressCode
  · have hshifted := shifted_of_letterKey hletter
    obtain ⟨plain, hplain⟩ : ∃ plain,
      plain = (scanCodes.getD pressCode.toNat (0, 0, 0)).1 := ⟨_, rfl⟩
    have hcases : plain ≠ plain - 0x20 := by
      intro hsame
      have hdiff : plain - (plain - 0x20) = 0x20 := by grind
      rw [← hsame, UInt8.sub_self] at hdiff
      exact absurd hdiff (by decide)
    rw [hshifted, ← hplain] at hchar
    rw [if_pos hletter, ← hplain, hchar]
    by_cases hcaps : CapsOn seen <;> by_cases hshift : ShiftHeld seen <;>
      simp [hletter, hcaps, hshift, hcases, hcases.symm]
  · rw [if_neg hletter, hchar]
    by_cases hshift : ShiftHeld seen <;> simp [hletter, hshift]

/-- Caps Lock is pressed and released, and with Shift held the key `a` types `A`. -/
theorem types_expected_iff_capsShiftA :
    (0x41 : UInt8) = expectedChar (CapsOn [0x3A, 0xBA, 0x2A, 0x1E])
        (ShiftHeld [0x3A, 0xBA, 0x2A, 0x1E]) 0x1E ↔
      ¬ LetterKey 0x1E ∨ ¬ CapsOn [0x3A, 0xBA, 0x2A, 0x1E] :=
  @types_expected_iff (fun _ => 0) (fun _ _ => rfl) [0x3A, 0xBA, 0x2A] ⟨0, 0, 0, 0⟩ 0x1E 0x41 rfl

/-- Caps Lock is pressed and released; then the key `a` types a lower-case letter. -/
theorem not_types_expected_capsLock :
    (keyPress ⟨0, 0, 0, 0⟩ 0x1E (keysAfter [0x3A, 0xBA] fun _ => 0)).2 = some (.bufAdd 0x61) ∧
      expectedChar (CapsOn ([0x3A, 0xBA] ++ [0x1E])) (ShiftHeld ([0x3A, 0xBA] ++ [0x1E])) 0x1E =
        0x41 :=
  ⟨rfl, by decide⟩

end LinuxOS
