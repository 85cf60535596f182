import LinuxOS.Foundation.Numeral
import LinuxOS.Kernel.Printf

/-!
# Numbers as text

`itoa` writes the canonical numeral, for every value and every radix, and
`printf` prints it.  The local arrays hold what the stack has left in them; none
of it shows.
-/

namespace LinuxOS

open Foundation

/-! ## Strings in arrays -/

section Strings

variable {size s : Nat} {cells : Nat → UInt8} {text : List UInt8}

theorem strlenFrom_terminated {index : Nat} (h : Terminated 0 size cells (s + index) text)
    (hchars : ∀ char ∈ text, char ≠ 0) :
    strlenFrom (fun k => cells (s + k)) (size - (s + index)) index =
      some (index + text.length) := by
  induction text generalizing index with
  | nil =>
      have hlt := h.lt
      have hfuel : size - (s + index) = size - (s + index) - 1 + 1 := by omega
      rw [hfuel, strlenFrom, if_pos h.stopped]
      rfl
  | cons char text ih =>
      have hlt := h.lt
      have hfuel : size - (s + index) = size - (s + (index + 1)) + 1 := by omega
      have hchar : cells (s + index) ≠ 0 := h.head ▸ hchars char List.mem_cons_self
      rw [hfuel, strlenFrom, if_neg hchar,
        ih h.tail fun other hother => hchars other (List.mem_cons_of_mem _ hother),
        List.length_cons]
      exact congrArg some (by omega)

theorem strlenCells_eq (h : Terminated 0 size cells s text) (hchars : ∀ char ∈ text, char ≠ 0) :
    strlenCells size cells s = some text.length := by
  have hlength := @strlenFrom_terminated size s cells text 0 h hchars
  rwa [Nat.zero_add] at hlength

theorem putsCells_eq (h : Terminated 0 size cells s text) (hchars : ∀ char ∈ text, char ≠ 0) :
    putsCells size cells s = some text := by
  rw [putsCells, strlenCells_eq h hchars, Option.map_some]
  refine congrArg some (List.ext_getElem (by simp) fun k hk hk' => ?_)
  rw [List.getElem_map, List.getElem_range, h.cell k hk'.le,
    List.getD_eq_getElem?_getD, List.getElem?_eq_getElem hk', Option.getD_some]

end Strings

/-! ## `strrev` -/

def reversedCells (cells : Nat → UInt8) (low high k : Nat) : UInt8 :=
  if low ≤ k ∧ k ≤ high then cells (low + high - k) else cells k

theorem reversedCells_swap (cells : Nat → UInt8) {low high low' high' : Nat}
    (h : low < high ∧ low' = low + 1 ∧ high' + 1 = high) (k : Nat) :
    reversedCells (Function.update (Function.update cells high (cells low)) low (cells high))
        low' high' k = reversedCells cells low high k := by
  obtain ⟨hlt, rfl, rfl⟩ := h
  by_cases hlow : k = low
  · rw [hlow, reversedCells, if_neg (by omega), Function.update_self, reversedCells,
      if_pos (by omega)]
    exact congrArg cells (by omega)
  by_cases hhigh : k = high' + 1
  · rw [hhigh, reversedCells, if_neg (by omega), Function.update_of_ne (by omega),
      Function.update_self, reversedCells, if_pos (by omega)]
    exact congrArg cells (by omega)
  rw [reversedCells, reversedCells]
  by_cases hinside : low + 1 ≤ k ∧ k ≤ high'
  · rw [if_pos hinside, if_pos (by omega), Function.update_of_ne (by omega),
      Function.update_of_ne (by omega)]
    exact congrArg cells (by omega)
  · rw [if_neg hinside, if_neg (by omega), Function.update_of_ne hlow,
      Function.update_of_ne hhigh]

theorem strrevLoop_eq {size s count beg last : Nat} {cells : Nat → UInt8}
    (hlast : s + last < size) (hcount : last ≤ beg + count) :
    strrevLoop size s count beg last cells =
      some (reversedCells cells (s + beg) (s + last)) := by
  -- a round exchanges the two ends and leaves what lies between them
  induction count generalizing beg last cells with
  | zero =>
      rw [strrevLoop]
      refine congrArg some (funext fun k => ?_)
      rw [reversedCells]
      split
      · exact congrArg cells (by omega)
      · rfl
  | succ count ih =>
      rw [strrevLoop]
      by_cases hmore : beg < last
      · rw [if_pos hmore, loadCell, if_pos hlast, Option.bind_some, loadCell, if_pos (by omega),
          Option.bind_some, storeCell, if_pos hlast, Option.bind_some, storeCell,
          if_pos (by omega), Option.bind_some, ih (by omega) (by omega)]
        refine congrArg some (funext fun k => ?_)
        exact reversedCells_swap cells (by omega) k
      · rw [if_neg hmore]
        refine congrArg some (funext fun k => ?_)
        rw [reversedCells]
        split
        · exact congrArg cells (by omega)
        · rfl

theorem strrev_eq {size s : Nat} {cells : Nat → UInt8} {text : List UInt8}
    (h : Terminated 0 size cells s text) (hchars : ∀ char ∈ text, char ≠ 0) (hsome : text ≠ []) :
    ∃ written, strrev size cells s = some written ∧
      Terminated 0 size written s text.reverse ∧
      ∀ k, ¬ (s ≤ k ∧ k ≤ s + text.length) → written k = cells k := by
  have hinside := h.inside
  have hlength := List.length_pos_iff.mpr hsome
  refine ⟨reversedCells cells (s + 0) (s + (text.length - 1)), ?_, ?_, fun k hk => ?_⟩
  · rw [strrev, strlenCells_eq h hchars, Option.bind_some]
    exact strrevLoop_eq (by omega) (by omega)
  · refine ⟨by rwa [List.length_reverse], fun k hk => ?_⟩
    rw [List.length_reverse] at hk
    rw [reversedCells]
    by_cases hend : k = text.length
    · rw [if_neg (by omega), h.cell k hk, hend]
      simp
    · have hmirror : s + 0 + (s + (text.length - 1)) - (s + k) = s + (text.length - 1 - k) := by
        omega
      rw [if_pos (by omega), hmirror, h.cell _ (by omega), List.getD_eq_getElem?_getD,
        List.getD_eq_getElem?_getD, List.getElem?_reverse (by omega)]
  · rw [reversedCells, if_neg (by omega)]

/-! ## Digits -/

def digitChar (digit : Nat) : UInt8 := itoaLookup.getD digit 0

def digitValue (char : UInt8) : Nat :=
  if char ≤ 0x39 then char.toNat - 0x30 else char.toNat - 0x41 + 10

def IsDigit (char : UInt8) : Prop :=
  (0x30 ≤ char ∧ char ≤ 0x39) ∨ (0x41 ≤ char ∧ char ≤ 0x5A)

instance : DecidablePred IsDigit := fun _ => inferInstanceAs (Decidable (_ ∨ _))

theorem digitChar_spec {digit : Nat} (h : digit < 36) :
    IsDigit (digitChar digit) ∧ digitValue (digitChar digit) = digit := by
  have hall : (List.range 36).all (fun digit =>
      decide (IsDigit (digitChar digit)) && decide (digitValue (digitChar digit) = digit)) = true :=
    by decide
  have hdigit := List.all_eq_true.mp hall digit (List.mem_range.mpr h)
  simpa using hdigit

theorem IsDigit.digitChar_digitValue {char : UInt8} (h : IsDigit char) :
    digitChar (digitValue char) = char := by
  have hall : (List.range 256).all (fun code => !decide (IsDigit (UInt8.ofNat code)) ||
      decide (digitChar (digitValue (UInt8.ofNat code)) = UInt8.ofNat code)) = true := by
    decide +kernel
  have hchar := List.all_eq_true.mp hall char.toNat (List.mem_range.mpr char.toNat_lt)
  rw [UInt8.ofNat_toNat, decide_eq_true h] at hchar
  exact of_decide_eq_true hchar

theorem IsDigit.ne_zero {char : UInt8} (h : IsDigit char) : char ≠ 0 := by
  rintro rfl
  exact absurd h (by decide)

structure IsNumeral (radix n : Nat) (text : List UInt8) : Prop where
  digits : ∀ char ∈ text, IsDigit char
  canonical : Canonical radix (text.map digitValue)
  value : valueOf radix (text.map digitValue) = n

def numeralText (radix n : Nat) : List UInt8 := (numeral radix n).map digitChar

theorem isNumeral_numeralText {radix : Nat} (hlow : 2 ≤ radix) (hhigh : radix ≤ 36) (n : Nat) :
    IsNumeral radix n (numeralText radix n) := by
  have hcanonical := canonical_numeral hlow n
  have hbound : ∀ digit ∈ numeral radix n, digit < 36 := fun digit hdigit =>
    (hcanonical.lt digit hdigit).trans_le hhigh
  have hmap : (numeralText radix n).map digitValue = numeral radix n := by
    rw [numeralText, List.map_map]
    exact (List.map_congr_left fun digit hdigit =>
      (digitChar_spec (hbound digit hdigit)).2).trans (List.map_id _)
  refine ⟨fun char hchar => ?_, hmap.symm ▸ hcanonical, ?_⟩
  · obtain ⟨digit, hdigit, rfl⟩ := List.mem_map.mp hchar
    exact (digitChar_spec (hbound digit hdigit)).1
  · rw [hmap, valueOf_numeral]

theorem IsNumeral.eq_numeralText {radix n : Nat} {text : List UInt8} (hradix : 2 ≤ radix)
    (h : IsNumeral radix n text) : text = numeralText radix n := by
  have hdigits := h.canonical.eq_numeral hradix
  rw [h.value] at hdigits
  rw [numeralText, ← hdigits, List.map_map]
  exact (List.map_id _).symm.trans
    (List.map_congr_left fun char hchar => (h.digits char hchar).digitChar_digitValue.symm)

/-! ## `itoa` -/

theorem itoaLoop_eq {radix : UInt32} (hlow : 2 ≤ radix.toNat) (hhigh : radix.toNat ≤ 36)
    {room newbuf : Nat} {newval : UInt32} {cells : Nat → UInt8}
    (hroom : (Nat.digits radix.toNat newval.toNat).length ≤ room) :
    itoaLoop radix room newval newbuf cells =
      some (newbuf + (Nat.digits radix.toNat newval.toNat).length,
        overwrite ((Nat.digits radix.toNat newval.toNat).map digitChar) newbuf cells) := by
  -- one digit a round, and `newval / radix` is left
  induction room generalizing newbuf newval cells with
  | zero =>
      have hnone : Nat.digits radix.toNat newval.toNat = [] :=
        List.length_eq_zero_iff.mp (Nat.le_zero.mp hroom)
      have hzero : newval = 0 := UInt32.toNat_inj.mp (Nat.digits_eq_nil_iff_eq_zero.mp hnone)
      rw [hnone, itoaLoop, if_pos hzero]
      rfl
  | succ room ih =>
      rw [itoaLoop]
      by_cases hzero : newval = 0
      · rw [if_pos hzero, hzero, UInt32.toNat_zero, Nat.digits_zero]
        rfl
      have hpos : newval.toNat ≠ 0 := fun h => hzero (UInt32.toNat_inj.mp h)
      have hdigits : Nat.digits radix.toNat newval.toNat =
          (newval % radix).toNat :: Nat.digits radix.toNat (newval / radix).toNat := by
        rw [UInt32.toNat_mod, UInt32.toNat_div]
        exact Nat.digits_def' hlow (Nat.pos_of_ne_zero hpos)
      have hdigit : (newval % radix).toNat < 36 := by
        rw [UInt32.toNat_mod]
        exact (Nat.mod_lt _ (Nat.lt_of_lt_of_le (by decide) hlow)).trans_le hhigh
      have hlookup : itoaLookup[(newval % radix).toNat]? =
          some (digitChar (newval % radix).toNat) := by
        have hlength : (newval % radix).toNat < itoaLookup.length :=
          hdigit.trans_le (by decide)
        rw [digitChar, List.getD_eq_getElem?_getD, List.getElem?_eq_getElem hlength,
          Option.getD_some]
      rw [hdigits, List.length_cons] at hroom
      rw [if_neg hzero, hlookup, Option.bind_some, ih (Nat.le_of_succ_le_succ hroom), hdigits,
        List.length_cons, List.map_cons, overwrite]
      exact congrArg some (Prod.ext (by omega) rfl)

theorem numeralText_ne_zero {radix n : Nat} (hlow : 2 ≤ radix) (hhigh : radix ≤ 36) :
    ∀ char ∈ numeralText radix n, char ≠ 0 := fun char hchar =>
  ((isNumeral_numeralText hlow hhigh n).digits char hchar).ne_zero

theorem length_numeralText_pos {radix n : Nat} (hlow : 2 ≤ radix) :
    0 < (numeralText radix n).length := by
  rw [numeralText, List.length_map]
  exact List.length_pos_iff.mpr (canonical_numeral hlow n).nonempty

/-- The digits are stored in reverse and a NUL behind them; `strrev` turns them round. -/
theorem itoa_of_ne_zero {size buf : Nat} {value : UInt32} {cells : Nat → UInt8} {radix : Int32}
    (hlow : 2 ≤ radix.toUInt32.toNat) (hhigh : radix.toUInt32.toNat ≤ 36) (hne : value ≠ 0)
    {digits : List UInt8}
    (hdigits : digits = (Nat.digits radix.toUInt32.toNat value.toNat).map digitChar)
    (hroom : buf + digits.length < size) :
    itoa size value cells buf radix =
      strrev size (Function.update (overwrite digits buf cells) (buf + digits.length) 0) buf := by
  have hradix : radix ≠ 0 := by
    rintro rfl
    exact absurd hlow (by decide)
  have hlength : digits.length = (Nat.digits radix.toUInt32.toNat value.toNat).length := by
    rw [hdigits, List.length_map]
  rw [itoa, if_neg hne, if_neg hradix, itoaLoop_eq hlow hhigh (by omega), Option.bind_some]
  simp only [← hdigits, ← hlength]
  rw [storeCell, if_pos hroom, Option.bind_some]

theorem itoa_eq {size buf : Nat} {value : UInt32} {cells : Nat → UInt8} {radix : Int32}
    (hlow : 2 ≤ radix.toUInt32.toNat) (hhigh : radix.toUInt32.toNat ≤ 36)
    (hroom : buf + (numeralText radix.toUInt32.toNat value.toNat).length < size) :
    ∃ written, itoa size value cells buf radix = some written ∧
      Terminated 0 size written buf (numeralText radix.toUInt32.toNat value.toNat) ∧
      ∀ k, ¬ (buf ≤ k ∧ k ≤ buf + (numeralText radix.toUInt32.toNat value.toNat).length) →
        written k = cells k := by
  by_cases hzero : value = 0
  · -- `itoa` writes "0" itself
    subst hzero
    rw [itoa, if_pos rfl]
    have hroom : buf + 1 < size := hroom
    refine ⟨Function.update (overwrite [0x30] buf cells) (buf + 1) 0, ?_,
      Terminated.of_overwrite hroom cells, fun k hk => ?_⟩
    · rw [storeCell, if_pos (by omega), Option.bind_some, storeCell, if_pos hroom]
      rfl
    · have hout : ¬ (buf ≤ k ∧ k ≤ buf + 1) := hk
      rw [Function.update_of_ne (by omega), overwrite, overwrite, Function.update_of_ne (by omega)]
  · have hpos : value.toNat ≠ 0 := fun h => hzero (UInt32.toNat_inj.mp h)
    obtain ⟨digits, hdigits⟩ : ∃ digits,
      digits = (Nat.digits radix.toUInt32.toNat value.toNat).map digitChar := ⟨_, rfl⟩
    have htext : numeralText radix.toUInt32.toNat value.toNat = digits.reverse := by
      rw [numeralText, numeral_of_ne_zero _ hpos, List.map_reverse, hdigits]
    rw [htext, List.length_reverse] at hroom ⊢
    have hchars : ∀ char ∈ digits, char ≠ 0 := fun char hchar =>
      numeralText_ne_zero hlow hhigh char (htext ▸ List.mem_reverse.mpr hchar)
    have hsome : digits ≠ [] := by
      have hpositive := @length_numeralText_pos _ value.toNat hlow
      rw [htext, List.length_reverse] at hpositive
      exact List.length_pos_iff.mp hpositive
    obtain ⟨written, hreversed, hterminated, hframe⟩ :=
      strrev_eq (Terminated.of_overwrite hroom cells) hchars hsome
    refine ⟨written, ?_, hterminated, fun k hk => ?_⟩
    · rw [itoa_of_ne_zero hlow hhigh hzero hdigits hroom]
      exact hreversed
    · rw [hframe k hk, Function.update_of_ne (by omega)]
      by_cases hbefore : k < buf
      · exact overwrite_of_lt cells hbefore
      · exact overwrite_of_ge cells (by omega)

theorem length_numeralText_le {radix count : Nat} (value : UInt32) (hlow : 2 ≤ radix)
    (hcount : 0 < count) (hpow : 2 ^ 32 ≤ radix ^ count) :
    (numeralText radix value.toNat).length ≤ count := by
  rw [numeralText, List.length_map]
  exact length_numeral_le hlow hcount (value.toNat_lt.trans_le hpow)

/-! ## The conversions of `printf` -/

theorem convertUnsigned_eq {size : Nat} {radix : Int32} {word : UInt32}
    (convBuf : Nat → UInt8) (hlow : 2 ≤ radix.toUInt32.toNat) (hhigh : radix.toUInt32.toNat ≤ 36)
    (hroom : (numeralText radix.toUInt32.toNat word.toNat).length < size) :
    convertUnsigned size radix convBuf word =
      some (numeralText radix.toUInt32.toNat word.toNat) := by
  obtain ⟨written, hitoa, hterminated, -⟩ :=
    @itoa_eq size 0 word convBuf radix hlow hhigh (by omega)
  rw [convertUnsigned, hitoa, Option.bind_some]
  exact putsCells_eq hterminated (numeralText_ne_zero hlow hhigh)

/-- Two's-complement negation gives the distance to 0, for -2^31 too. -/
theorem toNat_neg_toInt32 {word : UInt32} (h : word.toInt32 < 0) :
    (-word.toInt32).toUInt32.toNat = word.toInt32.toInt.natAbs := by
  have hsigned := toInt_toInt32 word
  have hrange := word.toNat_lt
  rw [Int32.lt_iff_toInt_lt, Int32.toInt_zero] at h
  have hneg : (-word.toInt32).toUInt32 = -word := rfl
  rw [hneg, UInt32.toNat_neg]
  split at hsigned
  · omega
  · rw [UInt32.size, Nat.mod_eq_of_lt (by omega)]
    omega

def signedText (value : Int) : List UInt8 :=
  if value < 0 then 0x2D :: numeralText 10 value.natAbs else numeralText 10 value.natAbs

theorem convertSigned_eq (convBuf : Nat → UInt8) (word : UInt32) :
    convertSigned convBuf word = some (signedText word.toInt32.toInt) := by
  have hten : (10 : Int32).toUInt32.toNat = 10 := rfl
  rw [convertSigned, signedText]
  -- the sign goes in front, and `itoa` has the rest of the array
  by_cases hnegative : word.toInt32 < 0
  · have hless : word.toInt32.toInt < 0 := by
      rwa [Int32.lt_iff_toInt_lt, Int32.toInt_zero] at hnegative
    have hvalue := toNat_neg_toInt32 hnegative
    have hlength := @length_numeralText_le 10 10 (-word.toInt32).toUInt32 (by decide) (by decide)
      (by decide)
    obtain ⟨written, hitoa, hterminated, hframe⟩ :=
      @itoa_eq 36 1 (-word.toInt32).toUInt32 (Function.update convBuf 0 0x2D) 10 (by decide)
        (by decide) (by rw [hten]; omega)
    have hsign : written 0 = 0x2D := by
      rw [hframe 0 (by omega)]
      rfl
    rw [hten, hvalue] at hterminated
    have hchars : ∀ char ∈ (0x2D :: numeralText 10 word.toInt32.toInt.natAbs), char ≠ 0 :=
      List.forall_mem_cons.mpr ⟨by decide, numeralText_ne_zero (by decide) (by decide)⟩
    rw [if_pos hnegative, if_pos hless, storeCell, if_pos (by decide), Option.bind_some, hitoa,
      Option.bind_some]
    exact putsCells_eq (hterminated.cons hsign) hchars
  · have hless : ¬ word.toInt32.toInt < 0 := by
      rwa [Int32.lt_iff_toInt_lt, Int32.toInt_zero] at hnegative
    have hvalue : word.toInt32.toInt.natAbs = word.toNat := by
      have hsigned := toInt_toInt32 word
      have hrange := word.toNat_lt
      split at hsigned <;> omega
    have hlength := @length_numeralText_le 10 10 word (by decide) (by decide) (by decide)
    rw [if_neg hnegative, if_neg hless, hvalue]
    exact convertUnsigned_eq convBuf (by decide) (by decide) (by rw [hten]; omega)

theorem padZeros_eq {size count i : Nat} {cells : Nat → UInt8} (h : i + count ≤ size) :
    padZeros size count i cells = some (overwrite (List.replicate count 0x30) i cells) := by
  induction count generalizing i cells with
  | zero => rfl
  | succ count ih =>
      rw [padZeros, storeCell, if_pos (by omega), Option.bind_some, ih (by omega),
        List.replicate_succ, overwrite]

def paddedText (word : UInt32) : List UInt8 :=
  List.replicate (8 - (numeralText 16 word.toNat).length) 0x30 ++ numeralText 16 word.toNat

theorem convertAlternate_eq (convBuf : Nat → UInt8) (word : UInt32) :
    convertAlternate convBuf word = some (paddedText word) := by
  have hsixteen : (16 : Int32).toUInt32.toNat = 16 := rfl
  have hlength := @length_numeralText_le 16 8 word (by decide) (by decide) (by decide)
  have hchars := @numeralText_ne_zero 16 word.toNat (by decide) (by decide)
  obtain ⟨written, hitoa, hterminated, -⟩ :=
    @itoa_eq 64 8 word convBuf 16 (by decide) (by decide) (by rw [hsixteen]; omega)
  rw [hsixteen] at hterminated
  obtain ⟨text, htext⟩ : ∃ text, text = numeralText 16 word.toNat := ⟨_, rfl⟩
  rw [paddedText]
  rw [← htext] at hterminated hlength hchars ⊢
  have hstart : text.length + (List.replicate (8 - text.length) (0x30 : UInt8)).length = 8 := by
    rw [List.length_replicate]
    omega
  have hpadded : Terminated 0 64 written
      (text.length + (List.replicate (8 - text.length) (0x30 : UInt8)).length) text := by
    rwa [hstart]
  have hall : ∀ char ∈ List.replicate (8 - text.length) 0x30 ++ text, char ≠ 0 := by
    intro char hchar
    rcases List.mem_append.mp hchar with hzero | hdigit
    · rw [List.eq_of_mem_replicate hzero]
      decide
    · exact hchars char hdigit
  rw [convertAlternate, hitoa, Option.bind_some, strlenCells_eq hterminated hchars,
    Option.bind_some, padZeros_eq (by omega), Option.bind_some]
  exact putsCells_eq hpadded.prepend hall

/-! ## What is printed -/

def IsSignedNumeral (value : Int) (text : List UInt8) : Prop :=
  if value < 0 then ∃ digits, text = 0x2D :: digits ∧ IsNumeral 10 value.natAbs digits
  else IsNumeral 10 value.natAbs text

theorem isSignedNumeral_signedText (value : Int) : IsSignedNumeral value (signedText value) := by
  have hnumeral := @isNumeral_numeralText 10 (by decide) (by decide) value.natAbs
  unfold IsSignedNumeral signedText
  split
  · exact ⟨_, rfl, hnumeral⟩
  · exact hnumeral

structure EightDigits (word : UInt32) (text : List UInt8) : Prop where
  length : text.length = 8
  digits : ∀ char ∈ text, IsDigit char ∧ digitValue char < 16
  value : valueOf 16 (text.map digitValue) = word.toNat

theorem eightDigits_paddedText (word : UInt32) : EightDigits word (paddedText word) := by
  have hnumeral := @isNumeral_numeralText 16 (by decide) (by decide) word.toNat
  have hlength := @length_numeralText_le 16 8 word (by decide) (by decide) (by decide)
  have hzero : digitValue 0x30 = 0 := rfl
  refine ⟨?_, fun char hchar => ?_, ?_⟩
  · rw [paddedText, List.length_append, List.length_replicate]
    omega
  · rcases List.mem_append.mp hchar with hpadding | hdigit
    · rw [List.eq_of_mem_replicate hpadding]
      decide
    · exact ⟨hnumeral.digits char hdigit,
        hnumeral.canonical.lt _ (List.mem_map.mpr ⟨char, hdigit, rfl⟩)⟩
  · rw [paddedText, List.map_append, List.map_replicate, hzero, valueOf_zeros, hnumeral.value]

/-- At this place of a format, a conversion takes one argument and prints the text. -/
def Prints (frame : PrintfFrame) (esp : Nat) (conversion text : List UInt8) : Prop :=
  ∀ format, printfLoop frame (conversion ++ format) none esp =
    (printfLoop frame format none (esp + 1)).map fun output => text ++ output

theorem prints_of_convert {frame : PrintfFrame} {esp : Nat} {specifier : UInt8}
    {text : List UInt8} (hflag : specifier ≠ 0x23)
    (h : convert frame.memory (frame.convBuf esp) false specifier (frame.args esp) =
      some (text, 1)) : Prints frame esp [0x25, specifier] text := by
  intro format
  rw [List.cons_append, printfLoop, if_pos rfl, List.singleton_append, printfLoop, if_neg hflag, h]
  rfl

theorem prints_of_convertAlternate {frame : PrintfFrame} {esp : Nat} {specifier : UInt8}
    {text : List UInt8} (hflag : specifier ≠ 0x23)
    (h : convert frame.memory (frame.convBuf esp) true specifier (frame.args esp) =
      some (text, 1)) : Prints frame esp [0x25, 0x23, specifier] text := by
  intro format
  rw [List.cons_append, printfLoop, if_pos rfl, List.cons_append, printfLoop, if_pos rfl,
    List.singleton_append, printfLoop, if_neg hflag, h]
  rfl

theorem prints_number (frame : PrintfFrame) (esp : Nat) :
    Prints frame esp [0x25, 0x75] (numeralText 10 (frame.args esp).toNat) ∧
    Prints frame esp [0x25, 0x78] (numeralText 16 (frame.args esp).toNat) ∧
    Prints frame esp [0x25, 0x64] (signedText (frame.args esp).toInt32.toInt) ∧
    Prints frame esp [0x25, 0x23, 0x78] (paddedText (frame.args esp)) := by
  have hdecimal := @length_numeralText_le 10 10 (frame.args esp) (by decide) (by decide) (by decide)
  have hhex := @length_numeralText_le 16 8 (frame.args esp) (by decide) (by decide) (by decide)
  have hu : convertUnsigned 36 10 (frame.convBuf esp) (frame.args esp) =
      some (numeralText 10 (frame.args esp).toNat) :=
    convertUnsigned_eq _ (by decide) (by decide) (Nat.lt_of_le_of_lt hdecimal (by decide))
  have hx : convertUnsigned 64 16 (frame.convBuf esp) (frame.args esp) =
      some (numeralText 16 (frame.args esp).toNat) :=
    convertUnsigned_eq _ (by decide) (by decide) (Nat.lt_of_le_of_lt hhex (by decide))
  refine ⟨prints_of_convert (by decide) ?_, prints_of_convert (by decide) ?_,
    prints_of_convert (by decide) ?_, prints_of_convertAlternate (by decide) ?_⟩
  · exact congrArg (Option.map fun output => (output, 1)) hu
  · exact congrArg (Option.map fun output => (output, 1)) hx
  · exact congrArg (Option.map fun output => (output, 1)) (convertSigned_eq _ _)
  · exact congrArg (Option.map fun output => (output, 1)) (convertAlternate_eq _ _)

/--
`itoa` writes the canonical numeral of every word in every radix, 32 digits at
most and a NUL, into any array with room for it; and `printf` prints every word
exactly, in decimal with and without sign and in hexadecimal with and without
padding.
-/
theorem numbers_formatted :
    (∀ (value : UInt32) (radix : Int32), 2 ≤ radix → radix ≤ 36 →
      ∃ text, IsNumeral radix.toInt.toNat value.toNat text ∧ text.length ≤ 32 ∧
        ∀ size buf cells, buf + text.length < size →
          ∃ written, itoa size value cells buf radix = some written ∧
            Terminated 0 size written buf text ∧
            ∀ k, ¬ (buf ≤ k ∧ k ≤ buf + text.length) → written k = cells k) ∧
    ∀ (frame : PrintfFrame) (esp : Nat),
      (∃ text, Prints frame esp [0x25, 0x75] text ∧
        IsNumeral 10 (frame.args esp).toNat text) ∧
      (∃ text, Prints frame esp [0x25, 0x78] text ∧
        IsNumeral 16 (frame.args esp).toNat text) ∧
      (∃ text, Prints frame esp [0x25, 0x64] text ∧
        IsSignedNumeral (frame.args esp).toInt32.toInt text) ∧
      ∃ text, Prints frame esp [0x25, 0x23, 0x78] text ∧ EightDigits (frame.args esp) text := by
  refine ⟨fun value radix hlow hhigh => ?_, fun frame esp => ?_⟩
  · have hradix : radix.toInt = radix.toUInt32.toNat :=
      toInt_of_nonneg (Int32.le_trans (by decide) hlow)
    rw [Int32.le_iff_toInt_le, hradix] at hlow hhigh
    have htwo : (2 : Int32).toInt = 2 := rfl
    have hlimit : (36 : Int32).toInt = 36 := rfl
    have hlow : 2 ≤ radix.toUInt32.toNat := by omega
    have hhigh : radix.toUInt32.toNat ≤ 36 := by omega
    have hpow : 2 ^ 32 ≤ radix.toUInt32.toNat ^ 32 := Nat.pow_le_pow_left hlow 32
    rw [hradix, Int.toNat_natCast]
    exact ⟨_, isNumeral_numeralText hlow hhigh value.toNat,
      length_numeralText_le value hlow (by decide) hpow,
      fun _ _ _ hroom => itoa_eq hlow hhigh hroom⟩
  · obtain ⟨hu, hx, hd, halternate⟩ := prints_number frame esp
    exact ⟨⟨_, hu, isNumeral_numeralText (by decide) (by decide) _⟩,
      ⟨_, hx, isNumeral_numeralText (by decide) (by decide) _⟩,
      ⟨_, hd, isSignedNumeral_signedText _⟩, ⟨_, halternate, eightDigits_paddedText _⟩⟩

example : signedText (-2 ^ 31) = "-2147483648".toList.map fun char => UInt8.ofNat char.toNat := by
  decide

end LinuxOS
