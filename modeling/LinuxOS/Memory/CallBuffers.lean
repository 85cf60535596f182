import LinuxOS.Memory.UserPointers
import LinuxOS.Process.Commands

/-!
# Buffers and their lengths

`read` and `getargs` get a signed length and hand it on as an unsigned one.
The file says for which lengths what they store stays in the buffer, and for
which `getargs` delivers the whole argument.
-/

namespace LinuxOS

open Foundation

/-! ## `read` -/

/--
The call keeps to the first `nbytes` bytes of its buffer, and to none when
`nbytes` is negative.  A place in the buffer is its distance from `buf`.
-/
structure WithinBuffer (buf : UInt32) (nbytes result : Int32) (stores : Stores) : Prop where
  count : stores.length ≤ nbytes.toInt.toNat
  inside : ∀ store ∈ stores, (store.1 - buf).toNat < nbytes.toInt.toNat
  result : result.toInt ≤ max 0 nbytes.toInt

structure Readable (kernel : Kernel) (fd : UInt32) : Prop where
  index : fd ≤ 7 ∧ fd ≠ 1
  opened : (kernel.fdOf fd).flags ≠ 0
  table : (kernel.fdOf fd).fopsTable = some .stdinFops ∨
    (kernel.fdOf fd).fopsTable = some .dirFops ∨ (kernel.fdOf fd).fopsTable = some .fileFops

structure Copied (buf length : UInt32) (result : Int32) (stores : Stores) : Prop where
  addresses : stores.map Prod.fst = addressesFrom buf stores.length
  result : result.toInt ≤ stores.length
  bounded : length.toNat < 2 ^ 31 → stores.length ≤ length.toNat

theorem Copied.refused {buf length : UInt32} {result : Int32} (h : result.toInt ≤ 0) :
    Copied buf length result [] := ⟨rfl, h, fun _ => Nat.zero_le _⟩

theorem toInt_toInt32_le (n : UInt32) : n.toInt32.toInt ≤ n.toNat := by
  have hrange := n.toNat_lt
  rw [toInt_toInt32]
  split <;> omega

theorem toInt_ofNat_le (n : Nat) : (Int32.ofNat n).toInt ≤ n := by
  have hcount : (Int32.ofNat n).toInt = (n : Int).bmod (2 ^ 32) := Int32.toInt_ofNat'
  rw [hcount, Int.bmod]
  split <;> omega

theorem length_memcpy (source : Nat → UInt8) (dest n : UInt32) :
    (memcpy source dest n).length = n.toNat := by
  rw [memcpy, List.length_map, List.length_range]

theorem Copied.memcpy {buf length n : UInt32} (source : Nat → UInt8)
    (h : length.toNat < 2 ^ 31 → n.toNat ≤ length.toNat) :
    Copied buf length n.toInt32 (memcpy source buf n) where
  addresses := by rw [addresses_memcpy, length_memcpy]
  result := by
    rw [length_memcpy]
    exact toInt_toInt32_le n
  bounded := by rwa [length_memcpy]

theorem readData_copied (fs : FileSystem) (inode offset buf length : UInt32) :
    Copied buf length (readData fs inode offset buf length).1
      (readData fs inode offset buf length).2 := by
  by_cases hbuf : buf = 0
  · simp only [readData, if_pos hbuf]
    exact .refused (by decide)
  by_cases hinode : inode ≥ fs.inodeCount
  · rw [readData_of_invalid hinode]
    exact .refused (by decide)
  by_cases hoffset : offset ≥ fs.inodeLength inode
  · rw [readData_of_behind hbuf (UInt32.not_le.mp hinode) hoffset]
    exact .refused (by decide)
  have hinodeLt := UInt32.not_le.mp hinode
  have hoffsetLt := UInt32.not_le.mp hoffset
  by_cases hfit : offset.toNat + length.toNat < 2 ^ 32
  · rw [readData_of_lt hbuf hinodeLt hoffsetLt hfit rfl]
    refine .memcpy _ fun _ => ?_
    have hend : readEnd (fs.inodeLength inode).toNat offset.toNat length.toNat ≤
        offset.toNat + length.toNat := by
      unfold readEnd
      split <;> omega
    rw [UInt32.toNat_ofNat_of_lt' (by rw [UInt32.size]; omega)]
    omega
  · obtain ⟨source, n, hread, hn⟩ := readData_of_wrap hbuf hinodeLt hoffsetLt (not_lt.mp hfit)
    rw [hread]
    refine .memcpy source fun _ => ?_
    rw [hn]
    split
    · exact Nat.zero_le _
    · exact Nat.le_refl _

theorem directoryRead_copied {fs : FileSystem} {offset buf length : UInt32} {result : Int32}
    {stores : Stores} (h : directoryRead fs offset buf length = some (result, stores)) :
    Copied buf length result stores := by
  unfold directoryRead at h
  split at h
  · cases h
    exact .refused (by decide)
  split at h
  · cases h
    exact .refused (by decide)
  obtain ⟨nameLength, -, heq⟩ := Option.map_eq_some_iff.mp h
  cases heq
  refine .memcpy _ fun _ => ?_
  have hclip : ∀ limit most : UInt32, (if limit > most then most else limit).toNat ≤
      limit.toNat := by
    intro limit most
    split
    · next hlong => exact (UInt32.lt_iff_toNat_lt.mp hlong).le
    · exact Nat.le_refl _
  exact (hclip _ nameLength).trans (hclip length maxFilename)

theorem terminalRead_copied {buf nbytes : UInt32} {kernel after : Kernel} {result : Int32}
    {stores : Stores} (h : terminalRead buf nbytes kernel = some (after, result, stores)) :
    Copied buf nbytes result stores := by
  obtain ⟨text, htext⟩ : ∃ text, text =
      untilNul (fun k => kernel.displayed.keyboardBuffer k) nbytes.toNat 0 := ⟨_, rfl⟩
  have hshort : text.length ≤ nbytes.toNat := by
    rw [htext]
    exact length_untilNul_le _ _ _
  have hrange := nbytes.toNat_lt
  rw [terminalRead_eq (allow_of_terminalRead h) htext] at h
  cases h
  have hlength : (storesAt buf (text ++ if text.length < nbytes.toNat then [0] else [])).length =
      if text.length < nbytes.toNat then text.length + 1 else text.length := by
    rw [storesAt, List.length_map, List.length_zipIdx, List.length_append]
    split <;> rfl
  constructor
  · rw [addresses_storesAt, hlength, List.length_append]
    split <;> rfl
  · have hcount := toInt_ofNat_le text.length
    rw [hlength]
    split <;> omega
  · intro _
    rw [hlength]
    split <;> omega

theorem syscallRead_copied {interrupts fd buf : UInt32} {nbytes result : Int32}
    {kernel after : Kernel} {stores : Stores} (hfd : Readable kernel fd)
    (h : syscallRead interrupts fd buf nbytes kernel = some (after, result, stores)) :
    Copied buf nbytes.toUInt32 result stores := by
  rcases tableRead_of_syscallRead h with
    ⟨hout | hone | hclosed, -⟩ | ⟨-, -, table, htable, hread⟩
  · exact absurd hfd.index.1 (UInt32.not_le.mpr hout)
  · exact absurd hone hfd.index.2
  · exact absurd hclosed hfd.opened
  have hknown := hfd.table
  rw [htable] at hknown
  cases hread with
  | screen => simp at hknown
  | terminal hread => exact terminalRead_copied hread
  | clock => simp at hknown
  | directory _ hread => exact directoryRead_copied hread
  | file _ hread =>
      have hcopied := readData_copied kernel.fs (kernel.fdOf fd).inode
        (kernel.fdOf fd).filePosition buf nbytes.toUInt32
      rw [hread] at hcopied
      exact hcopied

theorem mem_addressesFrom {buf addr : UInt32} {count : Nat} (h : addr ∈ addressesFrom buf count) :
    (addr - buf).toNat < count := by
  rw [addressesFrom_eq] at h
  obtain ⟨k, hk, rfl⟩ := List.mem_map.mp h
  have hlt := List.mem_range.mp hk
  have hle : (UInt32.ofNat k).toNat ≤ k := by
    rw [UInt32.toNat_ofNat']
    exact Nat.mod_le _ _
  rw [UInt32.add_comm, UInt32.add_sub_cancel]
  omega

theorem Copied.withinBuffer {buf : UInt32} {nbytes result : Int32} {stores : Stores}
    (h : Copied buf nbytes.toUInt32 result stores)
    (hfits : stores.length ≤ nbytes.toInt.toNat) : WithinBuffer buf nbytes result stores where
  count := hfits
  inside := by
    intro store hstore
    have hmem := List.mem_map_of_mem (f := Prod.fst) hstore
    rw [h.addresses] at hmem
    exact (mem_addressesFrom hmem).trans_le hfits
  result := by
    have hresult := h.result
    omega

/--
What `read` stores stays in its buffer when the length is not negative; a
negative one stays without consequences only where there is nothing to copy.
-/
theorem withinBuffer_iff {interrupts fd buf : UInt32} {nbytes result : Int32}
    {kernel after : Kernel} {stores : Stores} (hfd : Readable kernel fd)
    (h : syscallRead interrupts fd buf nbytes kernel = some (after, result, stores)) :
    WithinBuffer buf nbytes result stores ↔
      0 ≤ nbytes ∨ DescriptorIdle kernel.fs (kernel.fdOf fd) buf nbytes.toUInt32 := by
  have hcopied := syscallRead_copied hfd h
  have hidle := (syscallRead_stores h).2
  simp only [PointerCall.Idle, gt_iff_lt, UInt32.not_lt.mpr hfd.index.1, hfd.index.2, hfd.opened,
    false_or] at hidle
  rw [← hidle]
  constructor
  · intro hwithin
    have hcount := hwithin.count
    by_cases hneg : 0 ≤ nbytes
    · exact .inl hneg
    · rw [Int32.le_iff_toInt_le, Int32.toInt_zero] at hneg
      exact .inr (List.length_eq_zero_iff.mp (by omega))
  · rintro (hnonneg | rfl)
    · have hbounded := hcopied.bounded ((nonneg_iff_toNat_lt nbytes).mp hnonneg)
      have hvalue := toInt_of_nonneg hnonneg
      exact hcopied.withinBuffer (by omega)
    · exact hcopied.withinBuffer (Nat.zero_le _)

theorem exists_listing (nbytes : Int32)
    (h : (syscallOpen (some dotName) shellsKernel).any (fun opened =>
      opened.2 = 2 && (opened.1.fdOf 2).flags ≠ 0 &&
        (opened.1.fdOf 2).fopsTable = some .dirFops &&
        (syscallRead 0 2 0x8000000 nbytes opened.1).any fun read => read.2.1 = 1) = true) :
    ∃ opened after stores, syscallOpen (some dotName) shellsKernel = some (opened, 2) ∧
      Readable opened 2 ∧
      syscallRead 0 2 0x8000000 nbytes opened = some (after, 1, stores) := by
  obtain ⟨⟨opened, fd⟩, hopen, hread⟩ := (Option.any_eq_true _ _).mp h
  simp only [Bool.and_eq_true, decide_eq_true_eq] at hread
  obtain ⟨⟨⟨rfl, hflags⟩, htable⟩, hread⟩ := hread
  obtain ⟨⟨after, value, stores⟩, hread, hvalue⟩ := (Option.any_eq_true _ _).mp hread
  obtain rfl := of_decide_eq_true hvalue
  exact ⟨opened, after, stores, hopen, ⟨by decide, hflags, .inr (.inl htable)⟩, hread⟩

theorem withinBuffer_iff_listing : ∃ opened after stores,
    syscallOpen (some dotName) shellsKernel = some (opened, 2) ∧
      syscallRead 0 2 0x8000000 32 opened = some (after, 1, stores) ∧
      (WithinBuffer 0x8000000 32 1 stores ↔ (0 : Int32) ≤ 32 ∨
        DescriptorIdle opened.fs (opened.fdOf 2) 0x8000000 (32 : Int32).toUInt32) := by
  obtain ⟨opened, after, stores, hopen, hfd, hread⟩ := exists_listing 32 (by decide +kernel)
  exact ⟨opened, after, stores, hopen, hread, withinBuffer_iff hfd hread⟩

/-- Asked for -1 bytes, `read` delivers the name `.`. -/
theorem not_withinBuffer_negative : ∃ opened after stores,
    run step bootTicks (bootKernel shellImage) = some shellsKernel ∧
      syscallOpen (some dotName) shellsKernel = some (opened, 2) ∧ Readable opened 2 ∧
      syscallRead 0 2 0x8000000 (-1) opened = some (after, 1, stores) ∧
      ¬ WithinBuffer 0x8000000 (-1) 1 stores := by
  obtain ⟨opened, after, stores, hopen, hfd, hread⟩ := exists_listing (-1) (by decide +kernel)
  exact ⟨opened, after, stores, run_bootTicks, hopen, hfd, hread,
    fun h => absurd h.result (by decide)⟩

/-! ## `getargs` -/

def ArgumentFits (argument : List UInt8) (nbytes : Int32) : Prop :=
  argument ≠ [] ∧ (argument.length : Int) + 1 ≤ nbytes.toInt

structure GetsArgument (argument : List UInt8) (buf : UInt32) (nbytes result : Int32)
    (stores : Stores) : Prop where
  served : result = 0 ↔ ArgumentFits argument nbytes
  text : ArgumentFits argument nbytes → ∀ memory,
    HoldsText (fun index => Stores.apply stores memory (buf + UInt32.ofNat index)) argument
  inside : ArgumentFits argument nbytes →
    ∀ store ∈ stores, (store.1 - buf).toNat < nbytes.toInt.toNat
  refused : ¬ ArgumentFits argument nbytes → result = -1 ∧ stores = []

section Getargs

variable {argument : List UInt8} {buf : UInt32} {nbytes : Int32} {kernel : Kernel}

theorem syscallGetargs_eq_of_holdsText (hbuf : buf ≠ 0) (hchars : ∀ char ∈ argument, char ≠ 0)
    (hshort : argument.length ≤ 128)
    (htext : HoldsText (kernel.pcbOf kernel.running).argumentBuf argument) :
    syscallGetargs buf nbytes kernel =
      if argument = [] ∨ nbytes.toUInt32.toNat < argument.length then some (kernel, -1, [])
      else some (kernel.storeUser (argsStores buf nbytes kernel), 0,
        argsStores buf nbytes kernel) := by
  have hlength : UInt32.ofNat argument.length > nbytes.toUInt32 ↔
      nbytes.toUInt32.toNat < argument.length := by
    rw [gt_iff_lt, UInt32.lt_iff_toNat_lt,
      UInt32.toNat_ofNat_of_lt' (by rw [UInt32.size]; omega)]
  rw [syscallGetargs, if_neg hbuf]
  simp only [htext.strlen hchars (by omega), Option.map_some, hlength,
    htext.first_eq_zero_iff hchars]
  by_cases hlong : nbytes.toUInt32.toNat < argument.length
  · simp [hlong]
  by_cases hempty : argument = []
  · simp [hempty]
  · simp [hlong, hempty, argsStores]

theorem argsStores_inside (hnonneg : 0 ≤ nbytes) :
    ∀ store ∈ argsStores buf nbytes kernel, (store.1 - buf).toNat < nbytes.toUInt32.toNat := by
  intro store hstore
  have hcopied := toNat_copied hnonneg
  rcases List.mem_append.mp hstore with hclear | hcopy
  · have hmem := List.mem_map_of_mem (f := Prod.fst) hclear
    rw [addresses_memset] at hmem
    exact mem_addressesFrom hmem
  · have hmem := List.mem_map_of_mem (f := Prod.fst) hcopy
    rw [addresses_memcpy] at hmem
    have hlt := mem_addressesFrom hmem
    omega

theorem argsStores_text (hnonneg : 0 ≤ nbytes) (hshort : argument.length ≤ 128)
    (hfits : argument.length < nbytes.toUInt32.toNat)
    (htext : HoldsText (kernel.pcbOf kernel.running).argumentBuf argument)
    (memory : UInt32 → UInt8) :
    HoldsText (fun index => Stores.apply (argsStores buf nbytes kernel) memory
      (buf + UInt32.ofNat index)) argument := by
  have hcopied := toNat_copied hnonneg
  have hsize : argumentBufSize = 129 := rfl
  refine htext.congr fun k hk => ?_
  have hk32 : (UInt32.ofNat k).toNat = k :=
    UInt32.toNat_ofNat_of_lt' (by rw [UInt32.size]; omega)
  have hindex : buf + UInt32.ofNat k - buf = UInt32.ofNat k := by
    rw [UInt32.add_comm, UInt32.add_sub_cancel]
  rw [argsStores, Stores.apply, List.foldl_append, ← Stores.apply, ← Stores.apply, apply_memcpy,
    hindex, if_pos, hk32]
  rw [UInt32.lt_iff_toNat_lt, hk32, hcopied]
  omega

theorem GetsArgument.of_refused (h : ¬ ArgumentFits argument nbytes) :
    GetsArgument argument buf nbytes (-1) [] where
  served := iff_of_false (by decide) h
  text hfits := absurd hfits h
  inside hfits := absurd hfits h
  refused _ := ⟨rfl, rfl⟩

theorem GetsArgument.of_served (hshort : argument.length ≤ 128)
    (htext : HoldsText (kernel.pcbOf kernel.running).argumentBuf argument)
    (h : ArgumentFits argument nbytes) :
    GetsArgument argument buf nbytes 0 (argsStores buf nbytes kernel) := by
  have hlast := h.2
  have hnonneg : 0 ≤ nbytes := by
    rw [Int32.le_iff_toInt_le, Int32.toInt_zero]
    omega
  have hvalue := toInt_of_nonneg hnonneg
  have hnat : nbytes.toInt.toNat = nbytes.toUInt32.toNat := by omega
  have hbehind : argument.length < nbytes.toUInt32.toNat := by omega
  refine ⟨iff_of_true rfl h, fun _ => ?_, fun _ => ?_, fun hsmall => absurd h hsmall⟩
  · exact argsStores_text hnonneg hshort hbehind htext
  · rw [hnat]
    exact argsStores_inside hnonneg

theorem argumentFits_iff (hne : argument ≠ [])
    (hlong : ¬ nbytes.toUInt32.toNat < argument.length) :
    ArgumentFits argument nbytes ↔ 0 ≤ nbytes ∧ nbytes.toInt ≠ argument.length := by
  have hvalue := toInt_eq_cond nbytes
  have hrange := nbytes.toUInt32.toNat_lt
  rw [ArgumentFits, and_iff_right hne, Int32.le_iff_toInt_le, Int32.toInt_zero]
  split at hvalue <;> omega

theorem getsArgument_iff_of_served (hne : argument ≠ [])
    (hlong : ¬ nbytes.toUInt32.toNat < argument.length) (hshort : argument.length ≤ 128)
    (htext : HoldsText (kernel.pcbOf kernel.running).argumentBuf argument)
    (hapart : ApartFromKernel buf nbytes) :
    (argsStores buf nbytes kernel).all kernel.storable = true ∧
        GetsArgument argument buf nbytes 0 (argsStores buf nbytes kernel) ↔
      (0 ≤ nbytes ∧ nbytes.toInt ≠ argument.length) ∧ BufferMapped kernel buf nbytes := by
  rw [← argumentFits_iff hne hlong]
  constructor
  · rintro ⟨hstored, hcontract⟩
    have hfits := hcontract.served.mp rfl
    have hnonneg := ((argumentFits_iff hne hlong).mp hfits).1
    exact ⟨hfits, (argsStores_storable_iff kernel hnonneg hapart).mp hstored⟩
  · rintro ⟨hfits, hmapped⟩
    have hnonneg := ((argumentFits_iff hne hlong).mp hfits).1
    exact ⟨(argsStores_storable_iff kernel hnonneg hapart).mpr hmapped,
      .of_served hshort htext hfits⟩

/--
`getargs` comes back with its contract kept when there is no argument, and for
every length that is neither negative nor the argument's own, as far as the
buffer it clears is mapped: the NUL is not counted, and a negative length passes
for a large one.
-/
theorem getsArgument_iff (hbuf : buf ≠ 0) (hchars : ∀ char ∈ argument, char ≠ 0)
    (hshort : argument.length ≤ 128)
    (htext : HoldsText (kernel.pcbOf kernel.running).argumentBuf argument)
    (hapart : ApartFromKernel buf nbytes) :
    (∃ after result stores, syscallGetargs buf nbytes kernel = some (after, result, stores) ∧
        stores.all kernel.storable = true ∧ GetsArgument argument buf nbytes result stores) ↔
      argument = [] ∨ (0 ≤ nbytes ∧ nbytes.toInt ≠ argument.length) ∧
        (nbytes.toInt < argument.length ∨ BufferMapped kernel buf nbytes) := by
  have hcall : syscallGetargs buf nbytes kernel = _ :=
    syscallGetargs_eq_of_holdsText hbuf hchars hshort htext
  have hvalue := toInt_eq_cond nbytes
  have hrange := nbytes.toUInt32.toNat_lt
  -- the call compares unsigned numbers, the contract signed ones
  by_cases hrefused : argument = [] ∨ nbytes.toUInt32.toNat < argument.length
  · rw [if_pos hrefused] at hcall
    have hsmall : ¬ ArgumentFits argument nbytes := by
      rintro ⟨hne, hfits⟩
      have hlong := hrefused.resolve_left hne
      split at hvalue <;> omega
    refine iff_of_true ⟨kernel, -1, [], hcall, rfl, .of_refused hsmall⟩ ?_
    refine hrefused.imp_right fun hlong => ?_
    rw [nonneg_iff_toNat_lt]
    split at hvalue <;> omega
  · rw [if_neg hrefused] at hcall
    rw [not_or] at hrefused
    obtain ⟨hne, hlong⟩ := hrefused
    have hserved : (∃ after result stores,
        syscallGetargs buf nbytes kernel = some (after, result, stores) ∧
          stores.all kernel.storable = true ∧ GetsArgument argument buf nbytes result stores) ↔
        (argsStores buf nbytes kernel).all kernel.storable = true ∧
          GetsArgument argument buf nbytes 0 (argsStores buf nbytes kernel) := by
      rw [hcall]
      constructor
      · rintro ⟨after, result, stores, hread, hcontract⟩
        cases hread
        exact hcontract
      · exact fun hcontract => ⟨_, 0, _, rfl, hcontract⟩
    rw [or_iff_right hne, hserved, getsArgument_iff_of_served hne hlong hshort htext hapart]
    refine and_congr_right fun hnonneg => (or_iff_right ?_).symm
    rw [nonneg_iff_toNat_lt] at hnonneg
    split at hvalue <;> omega

end Getargs

theorem holdsText_shellCommand {left : Kernel} {eip : UInt32}
    (h : syscallExecute default shellCommand shellsKernel = (left, .entered eip)) :
    HoldsText (left.pcbOf left.running).argumentBuf [0x61] := by
  have hargument : argumentOf shellCommand.chars = [0x61] := by decide
  rw [← hargument]
  exact (holdsTexts_of_entered h).2

/-- The shell `a` asks for its argument: two bytes hold it with its NUL, one does not. -/
theorem getsArgument_iff_shellCommand : ∃ left eip,
    syscallExecute default shellCommand shellsKernel = (left, .entered eip) ∧
    ((∃ after result stores, syscallGetargs 0x8000000 2 left = some (after, result, stores) ∧
        stores.all left.storable = true ∧ GetsArgument [0x61] 0x8000000 2 result stores) ↔
      ([0x61] : List UInt8) = [] ∨
        ((0 : Int32) ≤ 2 ∧ (2 : Int32).toInt ≠ ([0x61] : List UInt8).length) ∧
          ((2 : Int32).toInt < ([0x61] : List UInt8).length ∨ BufferMapped left 0x8000000 2)) := by
  obtain ⟨left, eip, hleft⟩ := exists_entered_shellCommand
  exact ⟨left, eip, hleft, getsArgument_iff (by decide) (by simp) (by decide)
    (holdsText_shellCommand hleft) (apartFromKernel_of_fits (by decide) (by decide))⟩

/-- Into one byte `getargs` delivers the argument `a` without its NUL, and returns 0. -/
theorem not_getsArgument_shellCommand : ∃ left eip,
    syscallExecute default shellCommand shellsKernel = (left, .entered eip) ∧
    HoldsText (left.pcbOf left.running).argumentBuf [0x61] ∧
    ∃ after stores, syscallGetargs 0x8000000 1 left = some (after, 0, stores) ∧
      stores.all left.storable = true ∧ ¬ GetsArgument [0x61] 0x8000000 1 0 stores := by
  obtain ⟨left, eip, hleft⟩ := exists_entered_shellCommand
  have htext := holdsText_shellCommand hleft
  have hcall : syscallGetargs 0x8000000 1 left = _ :=
    syscallGetargs_eq_of_holdsText (by decide) (by simp) (by decide) htext
  rw [if_neg (by decide)] at hcall
  have hapart : ApartFromKernel 0x8000000 1 := apartFromKernel_of_fits (by decide) (by decide)
  have hmapped : BufferMapped left 0x8000000 1 :=
    bufferMapped_of_entered hleft (by decide) (by decide)
  refine ⟨left, eip, hleft, htext, _, _, hcall,
    (argsStores_storable_iff left (by decide) hapart).mpr hmapped, fun h => ?_⟩
  exact absurd (h.served.mp rfl).2 (by decide)

end LinuxOS
