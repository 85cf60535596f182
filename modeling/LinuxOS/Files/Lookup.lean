import LinuxOS.Files.ReadData

/-!
# Names in the directory

A name field holds its name up to the first NUL, or 32 characters without one.
`read_dentry_by_name` finds the first slot with a given name, although its
comparison length grows from slot to slot; `directory_read` lists the same name,
although its `strlen` may run on behind the field.
-/

namespace LinuxOS

/-! ## Strings in memory -/

/-- The bytes from `index` on, up to the first NUL, `count` at most. -/
def untilNul (bytes : Nat → UInt8) : Nat → Nat → List UInt8
  | 0, _ => []
  | count + 1, index =>
      if bytes index = 0 then [] else bytes index :: untilNul bytes count (index + 1)

theorem untilNul_take (bytes : Nat → UInt8) (count limit index : Nat) :
    (untilNul bytes count index).take limit = untilNul bytes (min limit count) index := by
  induction count generalizing limit index with
  | zero => simp [untilNul]
  | succ count ih =>
      cases limit with
      | zero => simp [untilNul]
      | succ limit =>
          rw [Nat.succ_min_succ]
          unfold untilNul
          split
          · rfl
          · rw [List.take_succ_cons, ih]

theorem length_untilNul_le (bytes : Nat → UInt8) (count index : Nat) :
    (untilNul bytes count index).length ≤ count := by
  induction count generalizing index with
  | zero => exact Nat.le_refl 0
  | succ count ih =>
      unfold untilNul
      split
      · exact Nat.zero_le _
      · exact Nat.succ_le_succ (ih (index + 1))

theorem untilNul_congr {bytes bytes' : Nat → UInt8} {count index : Nat}
    (h : ∀ k, index ≤ k → k < index + count → bytes k = bytes' k) :
    untilNul bytes count index = untilNul bytes' count index := by
  induction count generalizing index with
  | zero => rfl
  | succ count ih =>
      unfold untilNul
      rw [h index (by omega) (by omega), ih fun k hle hlt => h k (by omega) (by omega)]

theorem ne_zero_of_mem_untilNul {bytes : Nat → UInt8} {count index : Nat} {char : UInt8}
    (h : char ∈ untilNul bytes count index) : char ≠ 0 := by
  induction count generalizing index with
  | zero => simp [untilNul] at h
  | succ count ih =>
      unfold untilNul at h
      split at h
      · simp at h
      · next hchar =>
          rcases List.mem_cons.mp h with rfl | h
          · exact hchar
          · exact ih h

theorem untilNul_eq_map (bytes : Nat → UInt8) (count index : Nat) :
    untilNul bytes count index =
      (List.range (untilNul bytes count index).length).map fun k => bytes (index + k) := by
  induction count generalizing index with
  | zero => rfl
  | succ count ih =>
      unfold untilNul
      split
      · rfl
      · rw [List.length_cons, List.range_succ_eq_map, List.map_cons, List.map_map]
        congr 1
        conv_lhs => rw [ih]
        refine List.map_congr_left fun k _ => ?_
        exact congrArg bytes (by omega)

theorem untilNul_chars (chars : List UInt8) (hchars : ∀ char ∈ chars, char ≠ 0)
    (count index : Nat) :
    untilNul (fun k => chars.getD k 0) count index = (chars.drop index).take count := by
  induction count generalizing index with
  | zero => simp [untilNul]
  | succ count ih =>
      unfold untilNul
      by_cases hindex : index < chars.length
      · have hchar : chars.getD index 0 = chars[index] := by simp [hindex]
        rw [hchar, if_neg (hchars _ (List.getElem_mem hindex)), ih,
          List.drop_eq_getElem_cons hindex, List.take_succ_cons]
      · have hnul : chars.getD index 0 = 0 := by simp [Nat.not_lt.mp hindex]
        rw [if_pos hnul, List.drop_eq_nil_of_le (Nat.not_lt.mp hindex), List.take_nil]

/-! ## `strncmp` and `strlen` -/

theorem toInt_toInt8_injective {a b : UInt8} (h : a.toInt8.toInt = b.toInt8.toInt) : a = b := by
  have hcast : a.toInt8.toUInt8 = b.toInt8.toUInt8 := congrArg Int8.toUInt8 (Int8.toInt_inj.mp h)
  simpa using hcast

theorem strncmpFrom_eq_zero_iff (s1 s2 : Nat → UInt8) (count index : Nat) :
    strncmpFrom s1 s2 count index = 0 ↔ untilNul s1 count index = untilNul s2 count index := by
  induction count generalizing index with
  | zero => simp [strncmpFrom, untilNul]
  | succ count ih =>
      unfold strncmpFrom untilNul
      by_cases hsame : s1 index = s2 index
      · by_cases hnul : s2 index = 0
        · simp [hsame, hnul]
        · simp [hsame, hnul, ih]
      · have hdiff : (s1 index).toInt8.toInt - (s2 index).toInt8.toInt ≠ 0 := fun h =>
          hsame (toInt_toInt8_injective (Int.sub_eq_zero.mp h))
        rw [if_pos (.inl hsame)]
        refine iff_of_false hdiff ?_
        split <;> split <;> simp_all

theorem length_untilNul_of_strlenFrom {string : Nat → UInt8} {fuel index stop : Nat}
    (h : strlenFrom string fuel index = some stop) (count : Nat) :
    index ≤ stop ∧ (untilNul string count index).length = min count (stop - index) := by
  induction fuel generalizing index count with
  | zero => simp [strlenFrom] at h
  | succ fuel ih =>
      unfold strlenFrom at h
      split at h
      · next hnul =>
          cases h
          cases count with
          | zero => simp [untilNul]
          | succ count => simp [untilNul, hnul]
      · next hchar =>
          cases count with
          | zero =>
              obtain ⟨hle, -⟩ := ih h 0
              exact ⟨by omega, by simp [untilNul]⟩
          | succ count =>
              obtain ⟨hle, hlength⟩ := ih h count
              refine ⟨by omega, ?_⟩
              rw [untilNul, if_neg hchar, List.length_cons, hlength]
              omega

theorem exists_strlenFrom {string : Nat → UInt8} {nul : Nat} (hnul : string nul = 0)
    (fuel index : Nat) (hindex : index ≤ nul) (hfuel : nul < index + fuel) :
    ∃ stop ≤ nul, strlenFrom string fuel index = some stop := by
  induction fuel generalizing index with
  | zero => omega
  | succ fuel ih =>
      unfold strlenFrom
      by_cases hhere : string index = 0
      · exact ⟨index, hindex, if_pos hhere⟩
      · have hne : index ≠ nul := fun heq => hhere (heq ▸ hnul)
        rw [if_neg hhere]
        exact ih (index + 1) (by omega) (by omega)

theorem strlenFrom_first {string : Nat → UInt8} {fuel index stop : Nat}
    (h : strlenFrom string fuel index = some stop) :
    stop < index + fuel ∧ string stop = 0 ∧ ∀ k, index ≤ k → k < stop → string k ≠ 0 := by
  induction fuel generalizing index with
  | zero => simp [strlenFrom] at h
  | succ fuel ih =>
      unfold strlenFrom at h
      split at h
      · next hnul =>
          cases h
          exact ⟨by omega, hnul, fun k hle hlt => by omega⟩
      · next hchar =>
          obtain ⟨hlt, hnul, hbefore⟩ := ih h
          refine ⟨by omega, hnul, fun k hle hk => ?_⟩
          by_cases hhere : k = index
          · rw [hhere]
            exact hchar
          · exact hbefore k (by omega) hk

theorem strlen_eq_some_iff {string : Nat → UInt8} {length : UInt32} :
    strlen string = some length ↔
      string length.toNat = 0 ∧ ∀ k < length.toNat, string k ≠ 0 := by
  constructor
  · intro h
    obtain ⟨stop, hstop, rfl⟩ := Option.map_eq_some_iff.mp h
    obtain ⟨hlt, hnul, hbefore⟩ := strlenFrom_first hstop
    rw [UInt32.toNat_ofNat_of_lt' (by rw [UInt32.size]; omega)]
    exact ⟨hnul, fun k hk => hbefore k (Nat.zero_le k) hk⟩
  · rintro ⟨hnul, hbefore⟩
    have hrange := length.toNat_lt
    obtain ⟨stop, hle, hstop⟩ := exists_strlenFrom hnul (2 ^ 32) 0 (Nat.zero_le _) (by omega)
    have hsame : stop = length.toNat := by
      have hzero := (strlenFrom_first hstop).2.1
      by_contra hne
      exact hbefore stop (by omega) hzero
    rw [strlen, hstop, hsame, Option.map_some, UInt32.ofNat_toNat]

theorem length_eq_zero_iff_of_strlen {string : Nat → UInt8} {length : UInt32}
    (h : strlen string = some length) : length = 0 ↔ string 0 = 0 := by
  obtain ⟨hnul, hbefore⟩ := strlen_eq_some_iff.mp h
  constructor
  · rintro rfl
    exact hnul
  · intro hzero
    refine UInt32.toNat_inj.mp ?_
    by_contra hne
    rw [UInt32.toNat_zero] at hne
    exact hbefore 0 (by omega) hzero

/-! ## Labels -/

def Dentry.label (dentry : Dentry) : List UInt8 :=
  untilNul dentry.byte 32 0

theorem label_entry (fs : FileSystem) (i : UInt32) :
    (fs.entry i).label = untilNul (fs.bytesFrom (fs.entryAddr i)) 32 0 := by
  refine untilNul_congr fun k _ hk => ?_
  simp only [Dentry.byte, FileSystem.entry, Fin.val_ofNat]
  rw [Nat.mod_eq_of_lt (by omega)]

theorem length_label_le (dentry : Dentry) : dentry.label.length ≤ 32 :=
  length_untilNul_le _ 32 0

def Dentry.nameString (dentry : Dentry) : CString where
  chars := dentry.label
  noNul := fun _ hchar => ne_zero_of_mem_untilNul hchar
  short := (length_label_le dentry).trans_lt (by decide)

@[simp] theorem Dentry.nameString_chars (dentry : Dentry) :
    dentry.nameString.chars = dentry.label := rfl

theorem label_entry_eq_map (fs : FileSystem) (i : UInt32) :
    (fs.entry i).label =
      (List.range (fs.entry i).label.length).map (fs.bytesFrom (fs.entryAddr i)) := by
  conv_lhs => rw [label_entry, untilNul_eq_map, ← label_entry]
  simp only [Nat.zero_add]

theorem getD_label {fs : FileSystem} {i : UInt32} {k : Nat} (hk : k < (fs.entry i).label.length) :
    (fs.entry i).label.getD k 0 = fs.bytesFrom (fs.entryAddr i) k := by
  conv_lhs => rw [label_entry_eq_map]
  simp [hk]

theorem untilNul_byte (string : CString) (count : Nat) :
    untilNul string.byte count 0 = string.chars.take count :=
  untilNul_chars string.chars string.noNul count 0

theorem strncmp_entry_eq_zero_iff {fs : FileSystem} {fname : CString} {n : UInt32}
    (hlength : fname.chars.length ≤ n.toNat) (hn : n.toNat ≤ 32)
    (hnul : fname.chars.length < n.toNat ∨ n.toNat = 32) (i : UInt32) :
    strncmp fname.byte (fs.bytesFrom (fs.entryAddr i)) n = 0 ↔
      (fs.entry i).label = fname.chars := by
  have htake : untilNul (fs.bytesFrom (fs.entryAddr i)) n.toNat 0 =
      (fs.entry i).label.take n.toNat := by
    rw [label_entry, untilNul_take, Nat.min_eq_left hn]
  rw [strncmp, strncmpFrom_eq_zero_iff, untilNul_byte, List.take_of_length_le hlength, htake]
  rcases hnul with hlt | hfull
  · constructor
    · intro heq
      have hshort : ((fs.entry i).label.take n.toNat).length < n.toNat := heq ▸ hlt
      rw [List.length_take] at hshort
      rw [heq, List.take_of_length_le (by omega)]
    · intro heq
      rw [heq, List.take_of_length_le hlength]
  · rw [hfull, List.take_of_length_le (length_label_le _), eq_comm]

/-! ## Lookup -/

def FileSystem.lookup (fs : FileSystem) (name : List UInt8) : Option Dentry :=
  ((List.range 63).map fun i => fs.entry (UInt32.ofNat i)).find? fun dentry =>
    dentry.label = name

theorem readDentryByNameLoop_eq {fs : FileSystem} {fname : CString} (count : Nat)
    (i fnameLength : UInt32) (hlength : fname.chars.length ≤ fnameLength.toNat)
    (hn : fnameLength.toNat ≤ 32) :
    readDentryByNameLoop fs fname count i fnameLength =
      ((List.range count).map fun k => fs.entry (i + UInt32.ofNat k)).find? fun dentry =>
        dentry.label = fname.chars := by
  induction count generalizing i fnameLength with
  | zero => rfl
  | succ count ih =>
      -- the length that is compared grows with the slots, up to 32
      obtain ⟨next, hnext, hnextNat⟩ : ∃ next : UInt32,
          (if fnameLength < maxFilename then fnameLength + 1 else fnameLength) = next ∧
            next.toNat = min (fnameLength.toNat + 1) 32 := by
        refine ⟨_, rfl, ?_⟩
        have hmax : maxFilename.toNat = 32 := rfl
        split
        · next hlt =>
            rw [UInt32.lt_iff_toNat_lt, hmax] at hlt
            simp only [UInt32.toNat_add, UInt32.reduceToNat]
            omega
        · next hge =>
            rw [UInt32.lt_iff_toNat_lt, hmax] at hge
            omega
      have hshift : ((List.range count).map fun k => fs.entry (i + 1 + UInt32.ofNat k)) =
          (List.range count).map fun k => fs.entry (i + UInt32.ofNat (k + 1)) := by
        refine List.map_congr_left fun k _ => ?_
        rw [UInt32.ofNat_add, UInt32.add_assoc, UInt32.add_comm 1 (UInt32.ofNat k)]
        rfl
      unfold readDentryByNameLoop
      rw [hnext, List.range_succ_eq_map, List.map_cons, List.map_map]
      have hfirst : i + UInt32.ofNat 0 = i := UInt32.add_zero i
      by_cases hmatch : (fs.entry i).label = fname.chars
      · rw [if_pos ((strncmp_entry_eq_zero_iff (by omega) (by omega) (by omega) i).mpr hmatch),
          hfirst, List.find?_cons_of_pos (by simpa using hmatch)]
      · rw [if_neg fun h => hmatch
            ((strncmp_entry_eq_zero_iff (by omega) (by omega) (by omega) i).mp h),
          hfirst, List.find?_cons_of_neg (by simpa using hmatch),
          ih (i + 1) next (by omega) (by omega), hshift]
        rfl

theorem readDentryByName_eq (fs : FileSystem) (fname : CString) :
    readDentryByName fs fname = fs.lookup fname.chars := by
  have hshort := fname.short
  have hlength : (UInt32.ofNat fname.chars.length).toNat = fname.chars.length :=
    UInt32.toNat_ofNat_of_lt' (by rw [UInt32.size]; omega)
  have hlong : (UInt32.ofNat fname.chars.length).toInt32 > maxFilename.toInt32 ↔
      32 < fname.chars.length := by
    have hmax : maxFilename.toInt32.toInt = 32 := rfl
    rw [gt_iff_lt, Int32.lt_iff_toInt_lt, hmax, toInt_toInt32, hlength, if_pos (by omega)]
    omega
  rw [readDentryByName]
  by_cases hfits : 32 < fname.chars.length
  · rw [if_pos (hlong.mpr hfits), eq_comm, FileSystem.lookup, List.find?_eq_none]
    intro dentry hmem heq
    have hle := length_label_le dentry
    rw [of_decide_eq_true heq] at hle
    omega
  · rw [if_neg fun h => hfits (hlong.mp h),
      readDentryByNameLoop_eq _ _ _ (by omega) (by omega), FileSystem.lookup]
    simp only [UInt32.zero_add]
    rfl

theorem lookup_eq_some {fs : FileSystem} {name : List UInt8} {dentry : Dentry}
    (h : fs.lookup name = some dentry) : ∃ i < 63, dentry = fs.entry i ∧ dentry.label = name := by
  unfold FileSystem.lookup at h
  have hlabel := List.find?_some h
  obtain ⟨k, hk, rfl⟩ := List.mem_map.mp (List.mem_of_find?_eq_some h)
  refine ⟨UInt32.ofNat k, ?_, rfl, of_decide_eq_true hlabel⟩
  have hlt := List.mem_range.mp hk
  rw [UInt32.lt_iff_toNat_lt, UInt32.toNat_ofNat_of_lt' (by rw [UInt32.size]; omega)]
  exact hlt

theorem lookup_label {fs : FileSystem} {i : UInt32} (hi : i < 63)
    (hfirst : ∀ j < i, (fs.entry j).label ≠ (fs.entry i).label) :
    fs.lookup (fs.entry i).label = some (fs.entry i) := by
  have hlt : i.toNat < 63 := UInt32.lt_iff_toNat_lt.mp hi
  have hfound : (List.range 63).find? ((fun dentry => decide (dentry.label =
      (fs.entry i).label)) ∘ fun k => fs.entry (UInt32.ofNat k)) = some i.toNat := by
    rw [List.find?_range_eq_some]
    refine ⟨by simp, List.mem_range.mpr hlt, fun k hk => ?_⟩
    have hk32 : (UInt32.ofNat k).toNat = k :=
      UInt32.toNat_ofNat_of_lt' (by rw [UInt32.size]; omega)
    have hbelow : UInt32.ofNat k < i := by
      rw [UInt32.lt_iff_toNat_lt, hk32]
      exact hk
    simpa using hfirst (UInt32.ofNat k) hbelow
  rw [FileSystem.lookup, List.find?_map, hfound, Option.map_some, UInt32.ofNat_toNat]

theorem lookup_eq_none_iff {fs : FileSystem} {name : List UInt8} :
    fs.lookup name = none ↔ ∀ i < 63, (fs.entry i).label ≠ name := by
  rw [FileSystem.lookup, List.find?_eq_none]
  constructor
  · intro h i hi heq
    have hmem : fs.entry i ∈ (List.range 63).map fun k => fs.entry (UInt32.ofNat k) :=
      List.mem_map.mpr ⟨i.toNat, List.mem_range.mpr (UInt32.lt_iff_toNat_lt.mp hi), by
        rw [UInt32.ofNat_toNat]⟩
    exact h _ hmem (decide_eq_true heq)
  · intro h dentry hmem heq
    obtain ⟨k, hk, rfl⟩ := List.mem_map.mp hmem
    have hlt := List.mem_range.mp hk
    refine h (UInt32.ofNat k) ?_ (of_decide_eq_true heq)
    rw [UInt32.lt_iff_toNat_lt, UInt32.toNat_ofNat_of_lt' (by rw [UInt32.size]; omega)]
    exact hlt

/-! ## Listing -/

theorem directoryRead_eq {fs : FileSystem} {i buf : UInt32} (hi : i < 63) (hbuf : buf ≠ 0)
    {nul : Nat} (hnul : fs.bytesFrom (fs.entryAddr i) nul = 0) (hspace : nul < 2 ^ 32)
    (len : UInt32) :
    directoryRead fs i buf len =
      some (Int32.ofNat (min len.toNat (fs.entry i).label.length),
        memcpy (fs.bytesFrom (fs.entryAddr i)) buf
          (UInt32.ofNat (min len.toNat (fs.entry i).label.length))) := by
  obtain ⟨stop, hstop, hscan⟩ := exists_strlenFrom hnul (2 ^ 32) 0 (Nat.zero_le _) (by omega)
  have hlabel : (fs.entry i).label.length = min 32 stop := by
    rw [label_entry]
    exact (length_untilNul_of_strlenFrom hscan 32).2
  have hstop32 : (UInt32.ofNat stop).toNat = stop :=
    UInt32.toNat_ofNat_of_lt' (by rw [UInt32.size]; omega)
  have hmax : maxFilename.toNat = 32 := rfl
  obtain ⟨clipped, hclipped, hclippedNat⟩ : ∃ clipped : UInt32,
      (if len > maxFilename then maxFilename else len) = clipped ∧
        clipped.toNat = min len.toNat 32 := by
    refine ⟨_, rfl, ?_⟩
    split
    · next hlt =>
        rw [gt_iff_lt, UInt32.lt_iff_toNat_lt, hmax] at hlt
        omega
    · next hge =>
        rw [gt_iff_lt, UInt32.lt_iff_toNat_lt, hmax] at hge
        omega
  -- the two comparisons leave the least of the length, 32 and the scan
  have hlen : (if clipped > UInt32.ofNat stop then UInt32.ofNat stop else clipped) =
      UInt32.ofNat (min len.toNat (fs.entry i).label.length) := by
    rw [hlabel]
    split
    · next hlt =>
        rw [gt_iff_lt, UInt32.lt_iff_toNat_lt, hstop32] at hlt
        congr 1
        omega
    · next hge =>
        rw [gt_iff_lt, UInt32.lt_iff_toNat_lt, hstop32] at hge
        rw [show min len.toNat (min 32 stop) = clipped.toNat by omega, UInt32.ofNat_toNat]
  have hcount : ¬ i ≥ maxFilecount := UInt32.not_le.mpr hi
  rw [directoryRead, if_neg hcount, if_neg hbuf, strlen, hscan]
  simp only [Option.map_some, hclipped, hlen]
  rfl

theorem exists_nul_of_dirEntries {fs : FileSystem} (hdir : fs.dirEntries ≤ 63) (addr : UInt32) :
    ∃ nul < 2 ^ 32, fs.bytesFrom addr nul = 0 := by
  have hbyte : fs.memory (fs.bootBlock + 1) = 0 := by
    rw [UInt32.le_iff_toNat_le, FileSystem.dirEntries, FileSystem.word, wordOfBytes] at hdir
    have h0 := (fs.memory fs.bootBlock).toNat_lt
    have h1 := (fs.memory (fs.bootBlock + 1)).toNat_lt
    have h2 := (fs.memory (fs.bootBlock + 2)).toNat_lt
    have h3 := (fs.memory (fs.bootBlock + 3)).toNat_lt
    rw [UInt32.toNat_ofNat_of_lt' (by rw [UInt32.size]; omega)] at hdir
    have hmax : (63 : UInt32).toNat = 63 := rfl
    exact UInt8.toNat_inj.mp (by simp; omega)
  refine ⟨(fs.bootBlock + 1 - addr).toNat, UInt32.toNat_lt _, ?_⟩
  rw [FileSystem.bytesFrom, UInt32.ofNat_toNat, UInt32.add_comm, UInt32.sub_add_cancel, hbyte]

/--
Every file that the directory lists can be found by the name that is listed, the
bytes in the buffer followed by a NUL: as the entry with that index.
-/
theorem lookup_of_listed {fs : FileSystem} {i buf len : UInt32} (hdir : fs.dirEntries ≤ 63)
    (hi : i < fs.dirEntries) (hname : (fs.entry i).name 0 ≠ 0)
    (hfirst : ∀ j < i, (fs.entry j).label ≠ (fs.entry i).label) (hbuf : buf ≠ 0)
    (hlen : 32 ≤ len) (memory : UInt32 → UInt8) :
    ∃ r stores, directoryRead fs i buf len = some (r, stores) ∧ 1 ≤ r.toInt ∧ r.toInt ≤ 32 ∧
      ∃ fname : CString,
        fname.chars = (List.range r.toInt.toNat).map (fun k =>
          Stores.apply stores memory (buf + UInt32.ofNat k)) ∧
        readDentryByName fs fname = some (fs.entry i) ∧
        readDentryByIndex fs i = some (fs.entry i) := by
  have hi63 : i < 63 := by
    rw [UInt32.lt_iff_toNat_lt] at hi ⊢
    rw [UInt32.le_iff_toNat_le] at hdir
    omega
  have hlen32 : 32 ≤ len.toNat := UInt32.le_iff_toNat_le.mp hlen
  obtain ⟨nul, hspace, hnul⟩ := exists_nul_of_dirEntries hdir (fs.entryAddr i)
  have hshort := length_label_le (fs.entry i)
  have hread := directoryRead_eq hi63 hbuf hnul hspace len
  rw [Nat.min_eq_right (by omega)] at hread
  have hcount : (Int32.ofNat (fs.entry i).label.length).toInt = (fs.entry i).label.length :=
    Int32.toInt_ofNat_of_lt (by omega)
  have hcount32 : (UInt32.ofNat (fs.entry i).label.length).toNat = (fs.entry i).label.length :=
    UInt32.toNat_ofNat_of_lt' (by rw [UInt32.size]; omega)
  have hnonempty : 1 ≤ (fs.entry i).label.length := by
    have hfirstByte : (fs.entry i).byte 0 ≠ 0 := hname
    rw [Dentry.label, untilNul, if_neg hfirstByte, List.length_cons]
    omega
  refine ⟨_, _, hread, by omega, by omega, (fs.entry i).nameString, ?_, ?_, ?_⟩
  -- the bytes in the buffer are those of the name
  · rw [hcount, Int.toNat_natCast, Dentry.nameString_chars]
    conv_lhs => rw [label_entry_eq_map]
    refine List.map_congr_left fun k hk => ?_
    have hk := List.mem_range.mp hk
    have hk32 : (UInt32.ofNat k).toNat = k :=
      UInt32.toNat_ofNat_of_lt' (by rw [UInt32.size]; omega)
    have hindex : buf + UInt32.ofNat k - buf = UInt32.ofNat k := by
      rw [UInt32.add_comm, UInt32.add_sub_cancel]
    rw [apply_memcpy, hindex, if_pos (by rw [UInt32.lt_iff_toNat_lt, hk32, hcount32]; exact hk),
      hk32]
  · rw [readDentryByName_eq, Dentry.nameString_chars, lookup_label hi63 hfirst]
  · rw [readDentryByIndex, if_neg (UInt32.not_le.mpr hi)]

theorem lookup_of_listed_shell :
    ∃ r stores, directoryRead shellImage 1 0x08000000 32 = some (r, stores) ∧
      1 ≤ r.toInt ∧ r.toInt ≤ 32 ∧
      ∃ fname : CString,
        fname.chars = (List.range r.toInt.toNat).map (fun k =>
          Stores.apply stores (fun _ => 0xFF) (0x08000000 + UInt32.ofNat k)) ∧
        readDentryByName shellImage fname = some (shellImage.entry 1) ∧
        readDentryByIndex shellImage 1 = some (shellImage.entry 1) := by
  refine lookup_of_listed ?_ ?_ ?_ (fun j hj => ?_) ?_ ?_ _
  · decide
  · decide
  · decide
  · obtain rfl : j = 0 := by grind
    decide
  · decide
  · decide

end LinuxOS
