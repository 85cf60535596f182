import LinuxOS.User.Reading

/-!
# `cat` and `ls`

What these programs print and the status they return, as functions of the
image and of the argument; from the `execute` that starts them on, whatever
interrupts come meanwhile.
-/

namespace LinuxOS

open Foundation

/-! ## The start of a program -/

theorem own_of_entered {frame : ExecuteFrame} {command : CString} {before started : Kernel}
    {eip : UInt32} (hserving : Serving before)
    (hexecute : syscallExecute frame command before = (started, .entered eip))
    (keyDown : KeyDown) (printed : List UInt8) (delivered : List (List UInt8)) :
    FreshFds (started.pcbOf started.running).fd ∧
      HoldsText (started.pcbOf started.running).argumentBuf (argumentOf command.chars) ∧
      Own started.running before.fs (started.pcbOf started.running).argumentBuf
        (started.pcbOf started.running).fd printed ⟨⟨started, keyDown⟩, printed, delivered⟩ := by
  have heffect := execute_effect hexecute
  have hstarted := hserving.kept heffect
  have hown := @own_of_serving started.running ⟨⟨started, keyDown⟩, printed, delivered⟩ hstarted
    hstarted.toSecure.running_occupied
  refine ⟨?_, (holdsTexts_of_entered hexecute).2, { hown with image := heffect.image }⟩
  rcases syscallExecute_cases hexecute with ⟨⟨_, hexit⟩, -⟩ | ⟨slot, fileCheck, _, hslot, -, rfl⟩
  · cases hexit
  · have hclaimed := (hserving.tree.chains hserving.active).executeClaim_started hslot frame
      command fileCheck
    rw [Kernel.running, hclaimed.running, UInt32.toUInt32_toInt32]
    exact (freshPcb_executeClaim frame command fileCheck slot before).fds

/-! ## `ece391cat.c` -/

def catEach (cnt : Int32) (buf : LocalArray) : UserProgram (LocalArray ⊕ Int32) := do
  let written ← ece391Write 1 buf.cells cnt
  if written = -1 then return .inr 3
  else return .inl buf

/-- `main`; `none` when `fuel` rounds are too few, or the name goes on behind the array. -/
def cat (fuel : Nat) (buf : LocalArray) : UserProgram (Option Int32) := do
  let (result, buf) ← ece391Getargs buf 1024
  if result ≠ 0 then
    ece391Fdputs 1 (literal "could not read arguments\n")
    return some 3
  else
    match stringIn 1024 buf.cells with
    | none => return none
    | some name =>
        printEntry name 1024 "file not found\n" "file read failed\n" catEach fuel buf

def catEntry (fs : FileSystem) (entry : Dentry) : Int32 × List UInt8 :=
  if entry.type = 0 then (0, [])
  else if entry.type = 1 then
    (if fs.namesEnd 0 = 0 then 0 else 3,
      (fs.namesFrom 0).flatten ++ lastMessage (fs.namesEnd 0) "file read failed\n")
  else if entry.inode ≥ fs.inodeCount then (3, literal "file read failed\n")
  else (0, shownBytes fs entry.inode 0)

def catOutcome (fs : FileSystem) (text : List UInt8) : Int32 × List UInt8 :=
  if text = [] then (3, literal "could not read arguments\n")
  else
    match fs.lookup text with
    | none => (2, literal "file not found\n")
    | some entry => catEntry fs entry

section Cat

variable {task : UInt32} {fs : FileSystem} {argument : Nat → UInt8}
  {fds : UInt32 → FileDescriptor} {printed : List UInt8} {world : World}

theorem emits_catEach (base : LocalArray) : Emits task fs argument base 1024 catEach id := by
  intro array count fds printed world haddr hpos hcount hstdout h
  have hlimit : (1024 : Int32).toUInt32.toNat = 1024 := rfl
  have hshort : count < 2 ^ 31 := by omega
  have hnonneg : 0 ≤ Int32.ofNat count := by
    rw [nonneg_iff_toNat_lt, toNat_ofNat_of_short hshort]
    exact hshort
  refine meets_seq (meets_write array.cells h hstdout hnonneg) ?_
  rintro written next ⟨hwritten, hnext⟩
  rw [writtenBytes, toNat_ofNat_of_short hshort] at hnext
  rw [if_neg hwritten]
  exact ⟨array, rfl, haddr, hnext⟩

theorem length_namesFrom_le (fs : FileSystem) (first : Nat) :
    (fs.namesFrom first).length ≤ 63 := by
  have htake : (fs.namesFrom first).length ≤ (fs.labels.drop first).length :=
    (List.takeWhile_sublist _).length_le
  rw [List.length_drop, FileSystem.labels, List.length_map, List.length_range] at htake
  omega

theorem printsAs_catEntry {buf zero : UInt32} {entry : Dentry} (hzero : fs.memory zero = 0)
    (hbuf : buf ≠ 0) (htype : entry.type ≤ 2)
    (hfile : (fs.inodeLength entry.inode).toNat ≤ 1023 * 4096) {fuel : Nat}
    (hfuel : 4096 ≤ fuel) :
    PrintsAs fs buf 1024 "file read failed\n" id fuel entry (catEntry fs entry) := by
  intro descriptor htable hinode hposition
  have hcases : entry.type = 0 ∨ entry.type = 1 ∨ entry.type = 2 := by grind
  have hfirst : descriptor.filePosition.toNat = 0 := by rw [hposition]; rfl
  have hlimit : 32 ≤ (1024 : Int32).toUInt32.toNat := by decide
  rcases hcases with hclock | hdirectory | hregular
  · rw [hclock] at htable
    refine ⟨[], 0, .last (.clock htable) (.inl rfl), Nat.lt_of_lt_of_le (by decide) hfuel, ?_⟩
    rw [catEntry, if_pos hclock]
    rfl
  · rw [hdirectory] at htable
    have hyields := yields_directory hzero hbuf hlimit htable (hfirst ▸ Nat.zero_le 63)
    have hfew := length_namesFrom_le fs 0
    rw [hfirst] at hyields
    refine ⟨_, _, hyields, by omega, ?_⟩
    have hclock : ¬ entry.type = 0 := by rw [hdirectory]; decide
    rw [catEntry, if_neg hclock, if_pos hdirectory, List.flatMap_id]
  · rw [hregular] at htable
    have hown := hinode hregular
    have hothers : ¬ entry.type = 0 ∧ ¬ entry.type = 1 := by rw [hregular]; decide
    rw [catEntry, if_neg hothers.1, if_neg hothers.2]
    by_cases hvalid : entry.inode ≥ fs.inodeCount
    · have hread : fileRead fs descriptor.inode descriptor.filePosition buf
          (1024 : Int32).toUInt32 = (-1, descriptor.filePosition, []) := by
        rw [fileRead, readData_of_invalid (hown ▸ hvalid)]
        rfl
      refine ⟨[], -1, .last (.file htable hread) (.inr rfl), Nat.lt_of_lt_of_le (by decide) hfuel, ?_⟩
      rw [if_pos hvalid]
      rfl
    · have hstop : AtStop (fs.inodeLength descriptor.inode).toNat
          descriptor.filePosition.toNat := .inl (hfirst ▸ Nat.dvd_zero 1024)
      obtain ⟨pieces, hyields, hbytes, hrounds⟩ := yields_file hbuf htable
        (hown ▸ UInt32.not_le.mp hvalid) (hown ▸ hfile) hstop
      have hshown : shownEnd (fs.inodeLength descriptor.inode).toNat ≤ 1023 * 4096 := by
        rw [shownEnd, hown]
        split <;> omega
      refine ⟨pieces, 0, hyields, by omega, ?_⟩
      rw [if_neg hvalid, List.flatMap_id, hbytes, hown, hfirst]
      exact congrArg (Prod.mk 0) (List.append_nil _)

theorem short_messages :
    (literal "could not read arguments\n").length < 2 ^ 31 ∧
      (literal "file not found\n").length < 2 ^ 31 ∧
      (literal "file read failed\n").length < 2 ^ 31 := by
  decide

theorem meets_cat {text : List UInt8} {buf : LocalArray} {fuel : Nat}
    (h : Own task fs argument fds printed world) (hfresh : FreshFds fds)
    (htext : HoldsText argument text) (hchars : ∀ char ∈ text, char ≠ 0)
    (hshort : text.length ≤ 128) (hfits : buf.Fits 1024)
    (hfile : ∀ entry, fs.lookup text = some entry →
      (fs.inodeLength entry.inode).toNat ≤ 1023 * 4096) (hfuel : 4096 ≤ fuel) :
    Meets (taskService task) (fun status next => status = some (catOutcome fs text).1 ∧
      next.printed = printed ++ (catOutcome fs text).2) (cat fuel buf) world := by
  obtain ⟨hargs, hmissing, hread⟩ := short_messages
  have hlimit : (1024 : Int32).toUInt32.toNat = 1024 := rfl
  obtain ⟨name, rfl⟩ : ∃ name : CString, name.chars = text := ⟨⟨text, hchars, by omega⟩, rfl⟩
  refine meets_seq (meets_getargs 1024 h htext hchars hshort hfits (by decide) hlimit.le
    (by omega)) ?_
  rintro ⟨result, array⟩ next ⟨hnext, haddr, hanswer⟩
  simp only at haddr hanswer ⊢
  by_cases hempty : name.chars = []
  · rw [if_pos hempty] at hanswer
    have hfailed : result ≠ 0 := by rw [hanswer]; decide
    rw [if_pos hfailed, catOutcome, if_pos hempty]
    refine meets_seq (meets_fdputs hnext hfresh.stdout hargs) fun _ last hlast => ?_
    exact ⟨rfl, hlast.printed⟩
  · rw [if_neg hempty] at hanswer
    obtain ⟨hserved, hheld⟩ := hanswer
    have hname := stringIn_of_holdsText hheld (show name.chars.length < 1024 by omega) (by decide)
    rw [if_neg (not_not.mpr hserved), hname]
    refine meets_printEntry hnext hfresh hempty (emits_catEach buf) hfits hlimit.le hmissing hread
      haddr ?_
    rw [catOutcome, if_neg hempty]
    cases hlookup : fs.lookup name.chars with
    | none => rfl
    | some entry =>
        obtain ⟨i, hi, hentry, -⟩ := lookup_eq_some hlookup
        have hknown := h.serving.types i hi
        rw [h.image, ← hentry] at hknown
        obtain ⟨zero, hzero⟩ := h.serving.zero
        exact printsAs_catEntry (h.image ▸ hzero) hfits.addr_ne_zero hknown (hfile entry hlookup)
          hfuel

theorem length_argumentOf_le (command : CString) : (argumentOf command.chars).length ≤ 128 := by
  have hshort := length_argumentOf_lt command.chars
  have hsize : argumentBufSize = 129 := rfl
  omega

theorem noNul_argumentOf (command : CString) : ∀ char ∈ argumentOf command.chars, char ≠ 0 := by
  have hsublist : (argumentOf command.chars).Sublist command.chars :=
    ((List.take_sublist _ _).trans (List.takeWhile_sublist _)).trans
      (afterGap_sublist command.chars)
  exact fun char hmem => command.noNul char (hsublist.subset hmem)

/--
`cat`, from the `execute` of its command on and whatever interrupts come: the
argument of the command decides what it prints and how it ends.
-/
theorem cat_of_entered {frame : ExecuteFrame} {command : CString} {before started : Kernel}
    {eip : UInt32} {keyDown : KeyDown} {printed : List UInt8} {delivered : List (List UInt8)}
    {buf : LocalArray} {fuel : Nat}
    (hserving : Serving before)
    (hexecute : syscallExecute frame command before = (started, .entered eip))
    (hfits : buf.Fits 1024)
    (hfile : ∀ entry, before.fs.lookup (argumentOf command.chars) = some entry →
      (before.fs.inodeLength entry.inode).toNat ≤ 1023 * 4096) (hfuel : 4096 ≤ fuel) :
    Meets (taskService started.running) (fun status final =>
      status = some (catOutcome before.fs (argumentOf command.chars)).1 ∧
      final.printed = printed ++ (catOutcome before.fs (argumentOf command.chars)).2)
      (cat fuel buf) ⟨⟨started, keyDown⟩, printed, delivered⟩ := by
  obtain ⟨hfresh, htext, hown⟩ := own_of_entered hserving hexecute keyDown printed delivered
  exact meets_cat hown hfresh htext (noNul_argumentOf command) (length_argumentOf_le command)
    hfits hfile hfuel

theorem shownBytes_eq_fileRest_iff {inode : UInt32} :
    shownBytes fs inode 0 = fileRest fs inode 0 ↔
      (fs.inodeLength inode).toNat % 4096 ≤ 3072 := by
  have hlength : (shownBytes fs inode 0).length = shownEnd (fs.inodeLength inode).toNat := by
    rw [shownBytes, List.length_map, List.length_range, Nat.sub_zero]
  constructor
  · intro heq
    rw [heq, length_fileRest, Nat.sub_zero, shownEnd] at hlength
    split at hlength <;> omega
  · intro hlast
    rw [shownBytes, shownEnd, if_neg (Nat.not_lt.mpr hlast), fileRest]

/--
`cat` copies a file to the screen byte by byte exactly when the file does not
end in the last quarter of a block.
-/
theorem cat_copies_iff {frame : ExecuteFrame} {command : CString} {before started : Kernel}
    {eip : UInt32} {keyDown : KeyDown} {delivered : List (List UInt8)} {buf : LocalArray}
    {fuel : Nat} {entry : Dentry}
    (hserving : Serving before)
    (hexecute : syscallExecute frame command before = (started, .entered eip))
    (hfits : buf.Fits 1024) (hfuel : 4096 ≤ fuel) (hargument : argumentOf command.chars ≠ [])
    (hfound : before.fs.lookup (argumentOf command.chars) = some entry)
    (hregular : entry.type = 2) (hvalid : entry.inode < before.fs.inodeCount)
    (hfile : (before.fs.inodeLength entry.inode).toNat ≤ 1023 * 4096) :
    Meets (taskService started.running) (fun status final =>
      (status = some 0 ∧ final.printed = printed ++ fileRest before.fs entry.inode 0) ↔
        (before.fs.inodeLength entry.inode).toNat % 4096 ≤ 3072)
      (cat fuel buf) ⟨⟨started, keyDown⟩, printed, delivered⟩ := by
  have hlengths : ∀ other, before.fs.lookup (argumentOf command.chars) = some other →
      (before.fs.inodeLength other.inode).toNat ≤ 1023 * 4096 := by
    intro other hother
    rw [hfound] at hother
    cases hother
    exact hfile
  have hclasses : ¬ entry.type = 0 ∧ ¬ entry.type = 1 := by rw [hregular]; decide
  have houtcome : catOutcome before.fs (argumentOf command.chars) =
      (0, shownBytes before.fs entry.inode 0) := by
    rw [catOutcome, if_neg hargument, hfound]
    simp only [catEntry, if_neg hclasses.1, if_neg hclasses.2, ge_iff_le,
      if_neg (UInt32.not_le.mpr hvalid)]
  obtain ⟨hfresh, htext, hown⟩ := own_of_entered hserving hexecute keyDown printed delivered
  refine meets_mono ?_ (meets_cat hown hfresh htext (noNul_argumentOf command)
    (length_argumentOf_le command) hfits hlengths hfuel)
  rintro status final ⟨hstatus, hprinted⟩
  rw [houtcome] at hstatus hprinted
  rw [hprinted, List.append_cancel_left_eq, shownBytes_eq_fileRest_iff]
  exact and_iff_right hstatus

def selfCommand : CString :=
  ⟨[0x73, 0x68, 0x65, 0x6C, 0x6C, 0x20, 0x73, 0x68, 0x65, 0x6C, 0x6C], by simp, by decide⟩

theorem exists_entered_of_isEntered {frame : ExecuteFrame} {command : CString} {kernel : Kernel}
    (h : (syscallExecute frame command kernel).2.isEntered = true) :
    ∃ started eip, syscallExecute frame command kernel = (started, .entered eip) := by
  obtain ⟨eip, hexit⟩ := Exit.exists_entered h
  exact ⟨_, eip, Prod.ext rfl hexit⟩

theorem isEntered_shellsKernel :
    (syscallExecute default shellName shellsKernel).2.isEntered = true ∧
      (syscallExecute default selfCommand shellsKernel).2.isEntered = true := by
  decide +kernel

theorem lookups_shellImage :
    (∃ entry, shellImage.lookup dotName.chars = some entry ∧ entry.type = 1) ∧
      ∃ entry, shellImage.lookup (argumentOf selfCommand.chars) = some entry ∧
        shellImage.inodeLength entry.inode = 40 ∧ entry.type = 2 ∧
        entry.inode < shellImage.inodeCount := by
  have hany : ((shellImage.lookup dotName.chars).any (fun entry => decide (entry.type = 1)) &&
      (shellImage.lookup (argumentOf selfCommand.chars)).any (fun entry =>
        decide (shellImage.inodeLength entry.inode = 40 ∧ entry.type = 2 ∧
          entry.inode < shellImage.inodeCount))) = true := by decide
  simpa only [Bool.and_eq_true, Option.any_eq_true, decide_eq_true_eq] using hany

theorem catOutcome_selfCommand :
    catOutcome shellsKernel.fs (argumentOf selfCommand.chars) =
      (0, [0x7F, 0x45, 0x4C, 0x46] ++ List.replicate 20 0 ++ [0xE8, 0x82, 0x04, 0x08] ++
        List.replicate 12 0) := by
  rw [image_shellsKernel]
  decide

theorem cat_of_entered_selfCommand : ∃ started eip,
    syscallExecute default selfCommand shellsKernel = (started, .entered eip) ∧
    Meets (taskService started.running) (fun status final => status = some 0 ∧
      final.printed = [0x7F, 0x45, 0x4C, 0x46] ++ List.replicate 20 0 ++
        [0xE8, 0x82, 0x04, 0x08] ++ List.replicate 12 0)
      (cat 4096 ⟨0x83FF000, fun _ => 0⟩) ⟨⟨started, fun _ => 0⟩, [], []⟩ := by
  obtain ⟨started, eip, hexecute⟩ := exists_entered_of_isEntered isEntered_shellsKernel.2
  obtain ⟨-, entry, hfound, hlength, -⟩ := lookups_shellImage
  rw [← image_shellsKernel] at hfound hlength
  refine ⟨started, eip, hexecute, ?_⟩
  have hfile : ∀ other, shellsKernel.fs.lookup (argumentOf selfCommand.chars) = some other →
      (shellsKernel.fs.inodeLength other.inode).toNat ≤ 1023 * 4096 := by
    intro other hother
    rw [hfound, Option.some.injEq] at hother
    rw [← hother, hlength]
    decide
  have hmeets := @cat_of_entered default selfCommand shellsKernel started eip (fun _ => 0) [] []
    ⟨0x83FF000, fun _ => 0⟩ 4096 serving_shellsKernel hexecute ⟨by decide, by decide⟩ hfile
    (Nat.le_refl _)
  rw [catOutcome_selfCommand] at hmeets
  exact hmeets

theorem cat_copies_iff_selfCommand : ∃ started eip entry,
    syscallExecute default selfCommand shellsKernel = (started, .entered eip) ∧
    shellsKernel.fs.lookup (argumentOf selfCommand.chars) = some entry ∧
    Meets (taskService started.running) (fun status final =>
      (status = some 0 ∧ final.printed = fileRest shellsKernel.fs entry.inode 0) ↔
        (shellsKernel.fs.inodeLength entry.inode).toNat % 4096 ≤ 3072)
      (cat 4096 ⟨0x83FF000, fun _ => 0⟩) ⟨⟨started, fun _ => 0⟩, [], []⟩ := by
  obtain ⟨started, eip, hexecute⟩ := exists_entered_of_isEntered isEntered_shellsKernel.2
  obtain ⟨-, entry, hfound, hlength, hregular, hvalid⟩ := lookups_shellImage
  rw [← image_shellsKernel] at hfound hlength hvalid
  refine ⟨started, eip, entry, hexecute, hfound, ?_⟩
  exact cat_copies_iff serving_shellsKernel hexecute ⟨by decide, by decide⟩
    (Nat.le_refl _) (by decide) hfound hregular hvalid (by rw [hlength]; decide)

end Cat

/-! ## `ece391ls.c` -/

def lsEach (cnt : Int32) (buf : LocalArray) : UserProgram (LocalArray ⊕ Int32) := do
  let buf := buf.set cnt.toUInt32.toNat 0x0A
  let written ← ece391Write 1 buf.cells (cnt + 1)
  if written = -1 then return .inr 3
  else return .inl buf

def ls (fuel : Nat) (buf : LocalArray) : UserProgram (Option Int32) :=
  printEntry dotName 32 "directory open failed\n" "directory entry read failed\n" lsEach fuel buf

/-- The status of `ls` and what it prints, unless `.` is a regular file. -/
def lsOutcome (fs : FileSystem) : Int32 × List UInt8 :=
  match fs.lookup dotName.chars with
  | none => (2, literal "directory open failed\n")
  | some entry =>
      if entry.type = 0 then (0, [])
      else
        (if fs.namesEnd 0 = 0 then 0 else 3,
          (fs.namesFrom 0).flatMap (· ++ [0x0A]) ++
            lastMessage (fs.namesEnd 0) "directory entry read failed\n")

section Ls

variable {task : UInt32} {fs : FileSystem} {argument : Nat → UInt8}
  {fds : UInt32 → FileDescriptor} {printed : List UInt8} {world : World}

theorem map_set_concat (array : LocalArray) (count : Nat) (byte : UInt8) :
    (List.range (count + 1)).map (array.set count byte).cells =
      (List.range count).map array.cells ++ [byte] := by
  rw [List.range_succ, List.map_append, List.map_singleton]
  have hlast : (array.set count byte).cells count = byte := by simp [LocalArray.set]
  rw [hlast]
  refine congrArg (· ++ [byte]) (List.map_congr_left fun k hk => ?_)
  exact Function.update_of_ne (List.mem_range.mp hk).ne _ _

theorem emits_lsEach (base : LocalArray) :
    Emits task fs argument base 32 lsEach fun piece => piece ++ [0x0A] := by
  intro array count fds printed world haddr hpos hcount hstdout h
  have hlimit : (32 : Int32).toUInt32.toNat = 32 := rfl
  have hnext : Int32.ofNat count + 1 = Int32.ofNat (count + 1) := (Int32.ofNat_add ..).symm
  have hnonneg : 0 ≤ Int32.ofNat count + 1 := by
    rw [hnext, nonneg_iff_toNat_lt, toNat_ofNat_of_short (by omega)]
    omega
  have hindex : (Int32.ofNat count).toUInt32.toNat = count := toNat_ofNat_of_short (by omega)
  rw [lsEach, hindex]
  refine meets_seq (meets_write (array.set count 0x0A).cells h hstdout hnonneg) ?_
  rintro written next ⟨hwritten, hprinted⟩
  rw [writtenBytes, hnext, toNat_ofNat_of_short (by omega), map_set_concat] at hprinted
  rw [if_neg hwritten]
  exact ⟨array.set count 0x0A, rfl, haddr, hprinted⟩

theorem printsAs_dot {buf zero : UInt32} {entry : Dentry} (hzero : fs.memory zero = 0)
    (hbuf : buf ≠ 0) (htype : entry.type ≤ 1) {fuel : Nat} (hfuel : 64 ≤ fuel) :
    PrintsAs fs buf 32 "directory entry read failed\n" (· ++ [0x0A]) fuel entry
      (if entry.type = 0 then (0, [])
      else (if fs.namesEnd 0 = 0 then 0 else 3, (fs.namesFrom 0).flatMap (· ++ [0x0A]) ++
        lastMessage (fs.namesEnd 0) "directory entry read failed\n")) := by
  intro descriptor htable _ hposition
  have hcases : entry.type = 0 ∨ entry.type = 1 := by grind
  have hfirst : descriptor.filePosition.toNat = 0 := by rw [hposition]; rfl
  rcases hcases with hclock | hdirectory
  · rw [hclock] at htable
    refine ⟨[], 0, .last (.clock htable) (.inl rfl), Nat.lt_of_lt_of_le (by decide) hfuel, ?_⟩
    rw [if_pos hclock]
    rfl
  · rw [hdirectory] at htable
    have hlimit : 32 ≤ (32 : Int32).toUInt32.toNat := by decide
    have hyields := yields_directory hzero hbuf hlimit htable (hfirst ▸ Nat.zero_le 63)
    have hfew := length_namesFrom_le fs 0
    have hclock : ¬ entry.type = 0 := by rw [hdirectory]; decide
    rw [hfirst] at hyields
    rw [if_neg hclock]
    exact ⟨_, _, hyields, by omega, rfl⟩

theorem meets_ls {buf : LocalArray} {fuel : Nat} (h : Own task fs argument fds printed world)
    (hfresh : FreshFds fds) (hfits : buf.Fits 33)
    (hdot : ∀ entry, fs.lookup dotName.chars = some entry → entry.type ≤ 1) (hfuel : 64 ≤ fuel) :
    Meets (taskService task) (fun status next => status = some (lsOutcome fs).1 ∧
      next.printed = printed ++ (lsOutcome fs).2) (ls fuel buf) world := by
  have hlimit : (32 : Int32).toUInt32.toNat ≤ 33 := by decide
  have hshort : (literal "directory open failed\n").length < 2 ^ 31 ∧
      (literal "directory entry read failed\n").length < 2 ^ 31 := by decide
  have hname : dotName.chars ≠ [] := by simp [dotName]
  refine meets_printEntry h hfresh hname (emits_lsEach buf) hfits hlimit hshort.1 hshort.2 rfl ?_
  rw [lsOutcome]
  cases hlookup : fs.lookup dotName.chars with
  | none => rfl
  | some entry =>
      obtain ⟨zero, hzero⟩ := h.serving.zero
      exact printsAs_dot (h.image ▸ hzero) hfits.addr_ne_zero (hdot entry hlookup) hfuel

/-! ### The used entries -/

def FileSystem.usedNames (fs : FileSystem) : List (List UInt8) :=
  (List.range fs.dirEntries.toNat).map fun k => (fs.entry (UInt32.ofNat k)).label

theorem labels_of_tidy {fs : FileSystem} (h : TidyDirectory fs) :
    fs.labels = fs.usedNames ++ List.replicate (63 - fs.dirEntries.toNat) [] := by
  have hfew := UInt32.le_iff_toNat_le.mp h.few
  have hmax : (63 : UInt32).toNat = 63 := rfl
  have hsplit : 63 = fs.dirEntries.toNat + (63 - fs.dirEntries.toNat) := by omega
  have hunused : ∀ k < 63 - fs.dirEntries.toNat,
      (fs.entry (UInt32.ofNat (fs.dirEntries.toNat + k))).label = [] := by
    intro k hk
    have hslot : (UInt32.ofNat (fs.dirEntries.toNat + k)).toNat = fs.dirEntries.toNat + k :=
      UInt32.toNat_ofNat_of_lt' (by rw [UInt32.size]; omega)
    refine h.label_eq_nil ?_ ?_
    · rw [UInt32.lt_iff_toNat_lt, hslot]
      omega
    · rw [UInt32.le_iff_toNat_le, hslot]
      exact Nat.le_add_right _ _
  rw [FileSystem.labels]
  conv_lhs => rw [hsplit]
  rw [List.range_add, List.map_append, List.map_map]
  refine congrArg (fs.usedNames ++ ·) (List.eq_replicate_iff.mpr ⟨by simp, fun name hname => ?_⟩)
  obtain ⟨k, hk, rfl⟩ := List.mem_map.mp hname
  exact hunused k (List.mem_range.mp hk)

theorem names_of_tidy {fs : FileSystem} (h : TidyDirectory fs) :
    fs.namesFrom 0 = fs.usedNames ∧ (fs.namesEnd 0 = 0 ↔ fs.dirEntries < 63) := by
  have hmax : (63 : UInt32).toNat = 63 := rfl
  have hnames : ∀ name ∈ fs.usedNames, name ≠ [] := by
    intro name hname
    obtain ⟨k, hk, rfl⟩ := List.mem_map.mp hname
    have hk := List.mem_range.mp hk
    have hrange := fs.dirEntries.toNat_lt
    refine h.used _ ?_
    rw [UInt32.lt_iff_toNat_lt, UInt32.toNat_ofNat_of_lt' (by rw [UInt32.size]; omega)]
    exact hk
  constructor
  · rw [FileSystem.namesFrom, List.drop_zero, labels_of_tidy h,
      List.takeWhile_append_of_pos fun name hname => by simpa using hnames name hname]
    cases 63 - fs.dirEntries.toNat <;> simp [List.replicate_succ]
  · have hend : [] ∈ fs.labels ↔ fs.dirEntries < 63 := by
      rw [labels_of_tidy h, List.mem_append, List.mem_replicate, UInt32.lt_iff_toNat_lt]
      have hnone : [] ∉ fs.usedNames := fun hmem => hnames [] hmem rfl
      constructor
      · rintro (hmem | ⟨hpos, -⟩)
        · exact absurd hmem hnone
        · omega
      · intro hlt
        exact .inr ⟨by omega, rfl⟩
    rw [FileSystem.namesEnd, List.drop_zero, ← hend]
    have hminus : ¬ (-1 : Int32) = 0 := by decide
    split <;> simp_all

/-- `ls`, from the `execute` of its command on and whatever interrupts come. -/
theorem ls_of_entered {frame : ExecuteFrame} {command : CString} {before started : Kernel}
    {eip : UInt32} {keyDown : KeyDown} {printed : List UInt8} {delivered : List (List UInt8)}
    {buf : LocalArray} {fuel : Nat}
    (hserving : Serving before)
    (hexecute : syscallExecute frame command before = (started, .entered eip))
    (hfits : buf.Fits 33)
    (hdot : ∀ entry, before.fs.lookup dotName.chars = some entry → entry.type ≤ 1)
    (hfuel : 64 ≤ fuel) :
    Meets (taskService started.running) (fun status final =>
      status = some (lsOutcome before.fs).1 ∧
      final.printed = printed ++ (lsOutcome before.fs).2)
      (ls fuel buf) ⟨⟨started, keyDown⟩, printed, delivered⟩ := by
  obtain ⟨hfresh, -, hown⟩ := own_of_entered hserving hexecute keyDown printed delivered
  exact meets_ls hown hfresh hfits hdot hfuel

theorem ls_of_entered_shell : ∃ started eip,
    syscallExecute default shellName shellsKernel = (started, .entered eip) ∧
    Meets (taskService started.running) (fun status final => status = some 0 ∧
      final.printed = dotName.chars ++ [0x0A] ++ shellName.chars ++ [0x0A])
      (ls 64 ⟨0x83FF000, fun _ => 0⟩) ⟨⟨started, fun _ => 0⟩, [], []⟩ := by
  obtain ⟨started, eip, hexecute⟩ := exists_entered_of_isEntered isEntered_shellsKernel.1
  have houtcome : lsOutcome shellsKernel.fs =
      (0, dotName.chars ++ [0x0A] ++ shellName.chars ++ [0x0A]) := by
    rw [image_shellsKernel]
    decide
  obtain ⟨⟨entry, hfound, hdirectory⟩, -⟩ := lookups_shellImage
  rw [← image_shellsKernel] at hfound
  refine ⟨started, eip, hexecute, ?_⟩
  have hdot : ∀ other, shellsKernel.fs.lookup dotName.chars = some other → other.type ≤ 1 := by
    intro other hother
    rw [hfound, Option.some.injEq] at hother
    rw [← hother, hdirectory]
    exact UInt32.le_refl 1
  have hmeets := @ls_of_entered default shellName shellsKernel started eip (fun _ => 0) [] []
    ⟨0x83FF000, fun _ => 0⟩ 64 serving_shellsKernel hexecute ⟨by decide, by decide⟩ hdot
    (Nat.le_refl _)
  rw [houtcome] at hmeets
  exact hmeets

/--
`ls` prints the names of the used entries, one a line, and succeeds, exactly
when the directory is not full.
-/
theorem ls_lists_iff {frame : ExecuteFrame} {command : CString} {before started : Kernel}
    {eip : UInt32} {keyDown : KeyDown} {delivered : List (List UInt8)} {buf : LocalArray}
    {fuel : Nat} {entry : Dentry}
    (hserving : Serving before)
    (hexecute : syscallExecute frame command before = (started, .entered eip))
    (hfits : buf.Fits 33) (hfuel : 64 ≤ fuel) (htidy : TidyDirectory before.fs)
    (hfound : before.fs.lookup dotName.chars = some entry) (hdirectory : entry.type = 1) :
    Meets (taskService started.running) (fun status final =>
      (status = some 0 ∧
        final.printed = printed ++ before.fs.usedNames.flatMap (· ++ [0x0A])) ↔
        before.fs.dirEntries < 63) (ls fuel buf) ⟨⟨started, keyDown⟩, printed, delivered⟩ := by
  obtain ⟨hnames, hend⟩ := names_of_tidy htidy
  have hdot : ∀ other, before.fs.lookup dotName.chars = some other → other.type ≤ 1 := by
    intro other hother
    rw [hfound] at hother
    cases hother
    exact hdirectory ▸ UInt32.le_refl 1
  have hclock : ¬ entry.type = 0 := by rw [hdirectory]; decide
  obtain ⟨hfresh, -, hown⟩ := own_of_entered hserving hexecute keyDown printed delivered
  refine meets_mono ?_ (meets_ls hown hfresh hfits hdot hfuel)
  rintro status final ⟨hstatus, hprinted⟩
  simp only [lsOutcome, hfound, if_neg hclock, hnames, hend] at hstatus hprinted
  by_cases hroom : before.fs.dirEntries < 63
  · rw [if_pos hroom] at hstatus
    have hvalue := hend.mpr hroom
    rw [hvalue] at hprinted
    refine iff_of_true ⟨hstatus, ?_⟩ hroom
    rw [hprinted]
    exact congrArg (printed ++ ·) (List.append_nil _)
  · rw [if_neg hroom] at hstatus
    have hthree : ¬ some (3 : Int32) = some 0 := by decide
    exact iff_of_false (fun h => hthree (hstatus.symm.trans h.1)) hroom

theorem ls_lists_iff_shell : ∃ started eip,
    syscallExecute default shellName shellsKernel = (started, .entered eip) ∧
    Meets (taskService started.running) (fun status final =>
      (status = some 0 ∧ final.printed = shellsKernel.fs.usedNames.flatMap (· ++ [0x0A])) ↔
        shellsKernel.fs.dirEntries < 63) (ls 64 ⟨0x83FF000, fun _ => 0⟩)
      ⟨⟨started, fun _ => 0⟩, [], []⟩ := by
  obtain ⟨started, eip, hexecute⟩ := exists_entered_of_isEntered isEntered_shellsKernel.1
  obtain ⟨⟨entry, hfound, hdirectory⟩, -⟩ := lookups_shellImage
  rw [← image_shellsKernel] at hfound
  have htidy : TidyDirectory shellsKernel.fs := image_shellsKernel ▸ tidyDirectory_shellImage
  refine ⟨started, eip, hexecute, ?_⟩
  exact ls_lists_iff serving_shellsKernel hexecute ⟨by decide, by decide⟩ (Nat.le_refl _) htidy
    hfound hdirectory

end Ls

end LinuxOS
