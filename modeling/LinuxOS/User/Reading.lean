import LinuxOS.Files.Directory
import LinuxOS.User.Calls

/-!
# Reading on to the end

The programs that print a file or a directory read in a loop until a read is
empty or fails.  What comes is a list of pieces; a directory yields its names,
a file its bytes in blocks.
-/

namespace LinuxOS

open Foundation

/-! ## The pieces -/

/-- The pieces that reads of `nbytes` yield one after another, and the value of the last read. -/
inductive Yields (fs : FileSystem) (buf : UInt32) (nbytes : Int32) :
    FileDescriptor → List (List UInt8) → Int32 → Prop where
  | last {descriptor : FileDescriptor} {value : Int32}
      (hreads : Reads fs descriptor buf nbytes value descriptor.filePosition [])
      (hlast : value = 0 ∨ value = -1) : Yields fs buf nbytes descriptor [] value
  | piece {descriptor : FileDescriptor} {position : UInt32} {source : Nat → UInt8} {count : Nat}
      {pieces : List (List UInt8)} {value : Int32} (hpos : 0 < count)
      (hfit : count ≤ nbytes.toUInt32.toNat)
      (hreads : Reads fs descriptor buf nbytes (Int32.ofNat count) position
        (memcpy source buf (UInt32.ofNat count)))
      (hrest : Yields fs buf nbytes { descriptor with filePosition := position } pieces value) :
      Yields fs buf nbytes descriptor ((List.range count).map source :: pieces) value

/-! ## Files -/

/--
Where reads of 1024 bytes from the beginning on end: a file that ends in the
last quarter of a block is followed by the rest of the block.
-/
def shownEnd (fileLength : Nat) : Nat :=
  if 3072 < fileLength % 4096 then (fileLength / 4096 + 1) * 4096 else fileLength

def shownBytes (fs : FileSystem) (inode : UInt32) (position : Nat) : List UInt8 :=
  (List.range (shownEnd (fs.inodeLength inode).toNat - position)).map fun index =>
    fs.fileByte inode (position + index)

/-- Reads of 1024 bytes stop at multiples of 1024 and at the end. -/
def AtStop (fileLength position : Nat) : Prop :=
  1024 ∣ position ∨ position = shownEnd fileLength

theorem AtStop.shownEnd_le {fileLength position : Nat} (h : AtStop fileLength position)
    (hbehind : fileLength ≤ position) : shownEnd fileLength ≤ position := by
  rcases h with hstop | rfl
  · rw [shownEnd]
    split <;> omega
  · exact Nat.le_refl _

theorem AtStop.readEnd_eq {fileLength position : Nat} (h : AtStop fileLength position)
    (hinside : position < fileLength) :
    readEnd fileLength position 1024 = min (shownEnd fileLength) (position + 1024) := by
  rcases h with hstop | rfl
  · rw [readEnd, shownEnd]
    split <;> split <;> omega
  · rw [shownEnd] at hinside
    split at hinside <;> omega

theorem AtStop.next {fileLength position : Nat} (h : AtStop fileLength position)
    (hinside : position < fileLength) :
    AtStop fileLength (readEnd fileLength position 1024) ∧
      position < readEnd fileLength position 1024 ∧
      readEnd fileLength position 1024 ≤ position + 1024 ∧
      readEnd fileLength position 1024 ≤ shownEnd fileLength := by
  have hshown : fileLength ≤ shownEnd fileLength := by
    rw [shownEnd]
    split <;> omega
  rw [h.readEnd_eq hinside]
  refine ⟨?_, by omega, by omega, by omega⟩
  rcases h with hstop | rfl
  · rcases Nat.le_total (shownEnd fileLength) (position + 1024) with hend | hmore
    · exact .inr (Nat.min_eq_left hend)
    · rw [Nat.min_eq_right hmore]
      exact .inl (by omega)
  · omega

theorem shownBytes_add {fs : FileSystem} {inode offset : UInt32} {count : Nat}
    (h : offset.toNat + count ≤ shownEnd (fs.inodeLength inode).toNat) :
    shownBytes fs inode offset.toNat =
      (List.range count).map (fs.fileFrom inode offset) ++
        shownBytes fs inode (offset.toNat + count) := by
  have hsplit : shownEnd (fs.inodeLength inode).toNat - offset.toNat =
      count + (shownEnd (fs.inodeLength inode).toNat - (offset.toNat + count)) := by omega
  simp only [shownBytes]
  rw [hsplit, List.range_add, List.map_append, List.map_map]
  refine congrArg₂ (· ++ ·) rfl (List.map_congr_left fun index _ => ?_)
  simp [Nat.add_assoc]

theorem fileRead_of_lt {fs : FileSystem} {inode offset buf : UInt32} (hbuf : buf ≠ 0)
    (hinode : inode < fs.inodeCount) (hfile : (fs.inodeLength inode).toNat ≤ 1023 * 4096)
    (hoffset : offset.toNat < (fs.inodeLength inode).toNat) {count : Nat} (hpos : 0 < count)
    (hend : offset.toNat + count = readEnd (fs.inodeLength inode).toNat offset.toNat 1024)
    (hcount : count ≤ 1024) :
    fileRead fs inode offset buf 1024 = (Int32.ofNat count, offset + UInt32.ofNat count,
      memcpy (fs.fileFrom inode offset) buf (UInt32.ofNat count)) := by
  have hlength : (1024 : UInt32).toNat = 1024 := rfl
  have hcopied : UInt32.ofNat count = UInt32.ofNat
      (readEnd (fs.inodeLength inode).toNat offset.toNat (1024 : UInt32).toNat - offset.toNat) :=
    congrArg UInt32.ofNat (by rw [hlength]; omega)
  have hread := readData_of_lt hbuf hinode (UInt32.lt_iff_toNat_lt.mpr hoffset)
    (by rw [hlength]; omega) hcopied
  have hvalue : (UInt32.ofNat count).toInt32 = Int32.ofNat count := rfl
  have hmore : Int32.ofNat count > 0 := by
    rw [gt_iff_lt, Int32.lt_iff_toInt_lt, Int32.toInt_ofNat_of_lt (by omega), Int32.toInt_zero]
    omega
  have hback : (Int32.ofNat count).toUInt32 = UInt32.ofNat count := rfl
  rw [fileRead, hread, hvalue]
  simp only [if_pos hmore, hback]

theorem rounds_succ {shown position count rounds : Nat} (hpos : 0 < count)
    (hcount : position + count = min shown (position + 1024))
    (hrounds : 1024 * rounds ≤ shown - (position + count) + 1023) :
    1024 * (rounds + 1) ≤ shown - position + 1023 := by
  omega

theorem yields_file {fs : FileSystem} {buf : UInt32} (hbuf : buf ≠ 0)
    {descriptor : FileDescriptor} (htable : descriptor.fopsTable = some .fileFops)
    (hinode : descriptor.inode < fs.inodeCount)
    (hfile : (fs.inodeLength descriptor.inode).toNat ≤ 1023 * 4096)
    (hstop : AtStop (fs.inodeLength descriptor.inode).toNat descriptor.filePosition.toNat) :
    ∃ pieces, Yields fs buf 1024 descriptor pieces 0 ∧
      pieces.flatten = shownBytes fs descriptor.inode descriptor.filePosition.toNat ∧
      1024 * pieces.length ≤
        shownEnd (fs.inodeLength descriptor.inode).toNat - descriptor.filePosition.toNat + 1023 := by
  obtain ⟨fileLength, hlength⟩ : ∃ fileLength,
    fileLength = (fs.inodeLength descriptor.inode).toNat := ⟨_, rfl⟩
  have hrequest : (1024 : Int32).toUInt32 = 1024 := rfl
  induction hleft : fileLength - descriptor.filePosition.toNat using Nat.strong_induction_on
    generalizing descriptor with
  | h left ih =>
      by_cases hinside : descriptor.filePosition.toNat < fileLength
      · obtain ⟨hnext, hlt, hle, hshown⟩ := (hlength ▸ hstop).next hinside
        obtain ⟨count, hcount⟩ : ∃ count, descriptor.filePosition.toNat + count =
          readEnd fileLength descriptor.filePosition.toNat 1024 := ⟨_, Nat.add_sub_cancel' hlt.le⟩
        have hposition : (descriptor.filePosition + UInt32.ofNat count).toNat =
            descriptor.filePosition.toNat + count := by
          rw [UInt32.toNat_add, UInt32.toNat_ofNat_of_lt' (by rw [UInt32.size]; omega)]
          omega
        have hread := fileRead_of_lt hbuf hinode hfile (hlength ▸ hinside) (by omega)
          (hlength ▸ hcount) (by omega)
        obtain ⟨pieces, hyields, hbytes, hrounds⟩ :=
          @ih (fileLength - (descriptor.filePosition.toNat + count)) (by omega)
            { descriptor with filePosition := descriptor.filePosition + UInt32.ofNat count }
            htable hinode hfile (by rw [hposition, hcount, ← hlength]; exact hnext) hlength
            (by rw [hposition])
        simp only [hposition, ← hlength] at hbytes hrounds
        have hfit : descriptor.filePosition.toNat + count ≤
            shownEnd (fs.inodeLength descriptor.inode).toNat := hlength ▸ hcount.trans_le hshown
        refine ⟨_, .piece (by omega) (by rw [hrequest]; exact (by omega : count ≤ 1024))
          (.file htable (hrequest ▸ hread)) hyields, ?_, ?_⟩
        · rw [List.flatten_cons, hbytes, shownBytes_add hfit]
        · have hmin := (hlength ▸ hstop).readEnd_eq hinside
          rw [← hcount] at hmin
          rw [List.length_cons, ← hlength]
          exact rounds_succ (by omega) hmin hrounds
      · have hend := (hlength ▸ hstop).shownEnd_le (Nat.not_lt.mp hinside)
        have hnone : shownBytes fs descriptor.inode descriptor.filePosition.toNat = [] := by
          rw [shownBytes, ← hlength, Nat.sub_eq_zero_of_le hend]
          rfl
        have hread : fileRead fs descriptor.inode descriptor.filePosition buf
            (1024 : Int32).toUInt32 = (0, descriptor.filePosition, []) := by
          rw [fileRead, readData_of_behind hbuf hinode]
          · rfl
          · rw [ge_iff_le, UInt32.le_iff_toNat_le]
            omega
        refine ⟨[], .last (.file htable hread) (.inl rfl), hnone.symm, ?_⟩
        rw [List.length_nil, Nat.mul_zero]
        exact Nat.zero_le _

/-! ## Directories -/

def FileSystem.labels (fs : FileSystem) : List (List UInt8) :=
  (List.range 63).map fun k => (fs.entry (UInt32.ofNat k)).label

/-- The names that reading on finds from slot `first` on: up to an empty one. -/
def FileSystem.namesFrom (fs : FileSystem) (first : Nat) : List (List UInt8) :=
  (fs.labels.drop first).takeWhile (· != [])

/-- Behind the last slot a read fails; an empty name in front of it ends the reading. -/
def FileSystem.namesEnd (fs : FileSystem) (first : Nat) : Int32 :=
  if [] ∈ fs.labels.drop first then 0 else -1

theorem drop_labels (fs : FileSystem) {first : Nat} (h : first < 63) :
    fs.labels.drop first =
      (fs.entry (UInt32.ofNat first)).label :: fs.labels.drop (first + 1) := by
  have hlength : first < fs.labels.length := by simpa [FileSystem.labels] using h
  rw [List.drop_eq_getElem_cons hlength]
  simp [FileSystem.labels]

theorem dirRead_of_slot {fs : FileSystem} {i buf len zero : UInt32} (hzero : fs.memory zero = 0)
    (hbuf : buf ≠ 0) (hlen : 32 ≤ len.toNat) (hi : i < 63) :
    dirRead fs i buf len = some (Int32.ofNat (fs.entry i).label.length,
      if (fs.entry i).label = [] then i else i + 1,
      memcpy (fs.bytesFrom (fs.entryAddr i)) buf (UInt32.ofNat (fs.entry i).label.length)) := by
  have hnul : fs.bytesFrom (fs.entryAddr i) (zero - fs.entryAddr i).toNat = 0 := by
    rw [FileSystem.bytesFrom, UInt32.ofNat_toNat, UInt32.add_comm, UInt32.sub_add_cancel]
    exact hzero
  have hshort := length_label_le (fs.entry i)
  have hcount : (Int32.ofNat (fs.entry i).label.length).toInt = (fs.entry i).label.length :=
    Int32.toInt_ofNat_of_lt (by omega)
  have hmore : Int32.ofNat (fs.entry i).label.length > 0 ↔ (fs.entry i).label ≠ [] := by
    rw [gt_iff_lt, Int32.lt_iff_toInt_lt, hcount, Int32.toInt_zero, ← List.length_pos_iff]
    omega
  rw [dirRead, directoryRead_eq hi hbuf hnul (UInt32.toNat_lt _), Nat.min_eq_right (by omega)]
  simp only [Option.map_some, hmore, ne_eq, ite_not]

theorem dirRead_behind (fs : FileSystem) {i : UInt32} (hi : 63 ≤ i) (buf len : UInt32) :
    dirRead fs i buf len = some (-1, i, []) := by
  have hbehind : i ≥ maxFilecount := hi
  have hnone : ¬ (-1 : Int32) > 0 := by decide
  simp only [dirRead, directoryRead, if_pos hbehind, Option.map_some, if_neg hnone]

theorem yields_directory {fs : FileSystem} {buf zero : UInt32} {nbytes : Int32}
    (hzero : fs.memory zero = 0) (hbuf : buf ≠ 0) (hnbytes : 32 ≤ nbytes.toUInt32.toNat)
    {descriptor : FileDescriptor} (htable : descriptor.fopsTable = some .dirFops)
    (hposition : descriptor.filePosition.toNat ≤ 63) :
    Yields fs buf nbytes descriptor (fs.namesFrom descriptor.filePosition.toNat)
      (fs.namesEnd descriptor.filePosition.toNat) := by
  induction hleft : 63 - descriptor.filePosition.toNat generalizing descriptor with
  | zero =>
      have hend : descriptor.filePosition.toNat = 63 := by omega
      have hread := dirRead_behind fs (UInt32.le_iff_toNat_le.mpr hend.ge) buf nbytes.toUInt32
      have hnone : fs.labels.drop 63 = [] := List.drop_eq_nil_of_le (by simp [FileSystem.labels])
      rw [FileSystem.namesFrom, FileSystem.namesEnd, hend, hnone]
      exact .last (.directory htable hread) (.inr rfl)
  | succ left ih =>
      have hslot : descriptor.filePosition < 63 :=
        UInt32.lt_iff_toNat_lt.mpr (by simp only [UInt32.reduceToNat]; omega)
      have hread := dirRead_of_slot hzero hbuf hnbytes hslot
      have hlabels := drop_labels fs (UInt32.lt_iff_toNat_lt.mp hslot)
      rw [UInt32.ofNat_toNat] at hlabels
      by_cases hlabel : (fs.entry descriptor.filePosition).label = []
      · rw [hlabel, if_pos rfl] at hread
        rw [FileSystem.namesFrom, FileSystem.namesEnd, hlabels, hlabel]
        exact .last (.directory htable hread) (.inl rfl)
      · rw [if_neg hlabel] at hread
        have hnext : (descriptor.filePosition + 1).toNat = descriptor.filePosition.toNat + 1 := by
          simp only [UInt32.toNat_add, UInt32.reduceToNat]
          omega
        have hrest := @ih { descriptor with filePosition := descriptor.filePosition + 1 } htable
          (by rw [hnext]; omega) (by rw [hnext]; omega)
        have hnames : fs.namesFrom descriptor.filePosition.toNat =
            (fs.entry descriptor.filePosition).label ::
              fs.namesFrom (descriptor.filePosition.toNat + 1) := by
          rw [FileSystem.namesFrom, hlabels, List.takeWhile_cons, if_pos (by simpa using hlabel)]
          rfl
        have hvalue : fs.namesEnd descriptor.filePosition.toNat =
            fs.namesEnd (descriptor.filePosition.toNat + 1) := by
          rw [FileSystem.namesEnd, hlabels]
          simp [FileSystem.namesEnd, List.mem_cons, Ne.symm hlabel]
        simp only [hnext] at hrest
        have hshort := length_label_le (fs.entry descriptor.filePosition)
        rw [hnames, hvalue, label_entry_eq_map fs descriptor.filePosition]
        exact .piece (List.length_pos_iff.mpr hlabel) (by omega) (.directory htable hread) hrest

/-! ## The loop of the programs -/

/--
`while (0 != (cnt = ece391_read(fd, buf, nbytes))) { if (-1 == cnt) .. }`: each
piece goes to the rest of the loop's body, which goes on with the array or
leaves with a status.
-/
def readLoop (fd nbytes : Int32) (message : String)
    (each : Int32 → LocalArray → UserProgram (LocalArray ⊕ Int32)) :
    Nat → LocalArray → UserProgram (Option Int32) :=
  Client.loop fun buf => do
    let (cnt, buf) ← ece391Read fd buf 0 nbytes
    if cnt = 0 then return .inr 0
    else if cnt = -1 then
      ece391Fdputs 1 (literal message)
      return .inr 3
    else each cnt buf

theorem ofNat_ne_of_pos {count : Nat} (hpos : 0 < count) (hshort : count < 2 ^ 31) :
    Int32.ofNat count ≠ 0 ∧ Int32.ofNat count ≠ -1 := by
  refine ⟨fun hzero => ?_, ofNat_ne_neg_one hshort⟩
  have hcount := Int32.toInt_ofNat_of_lt hshort
  rw [hzero, Int32.toInt_zero] at hcount
  omega

def lastMessage (value : Int32) (message : String) : List UInt8 :=
  if value = -1 then literal message else []

section ReadLoop

variable {task : UInt32} {fs : FileSystem} {argument : Nat → UInt8}
  {fds : UInt32 → FileDescriptor} {printed : List UInt8} {world : World}

/-- The rule of the rest of the body: a piece that has been read is printed as `emit` says. -/
def Emits (task : UInt32) (fs : FileSystem) (argument : Nat → UInt8) (base : LocalArray)
    (nbytes : Int32) (each : Int32 → LocalArray → UserProgram (LocalArray ⊕ Int32))
    (emit : List UInt8 → List UInt8) : Prop :=
  ∀ (array : LocalArray) (count : Nat) (fds : UInt32 → FileDescriptor) (printed : List UInt8)
    (world : World), array.addr = base.addr → 0 < count → count ≤ nbytes.toUInt32.toNat →
    IsStdout (fds 1) → Own task fs argument fds printed world →
    Meets (taskService task) (fun result next => ∃ array', result = .inl array' ∧
      array'.addr = base.addr ∧
      Own task fs argument fds (printed ++ emit ((List.range count).map array.cells)) next)
      (each (Int32.ofNat count) array) world

/-- Between two rounds: `bound` pieces are still to come, `total` is what is printed in the end. -/
inductive ReadsOn (task : UInt32) (fs : FileSystem) (argument : Nat → UInt8) (base : LocalArray)
    (fd nbytes value : Int32) (emit : List UInt8 → List UInt8) (total : List UInt8) :
    Nat → LocalArray → World → Prop where
  | between {fds : UInt32 → FileDescriptor} {printed : List UInt8} {rest : List (List UInt8)}
      {array : LocalArray} {world : World} (hown : Own task fs argument fds printed world)
      (haddr : array.addr = base.addr) (hstdout : IsStdout (fds 1))
      (hopen : (fds fd.toUInt32).flags ≠ 0)
      (hyields : Yields fs base.addr nbytes (fds fd.toUInt32) rest value)
      (htotal : printed ++ rest.flatMap emit = total) :
      ReadsOn task fs argument base fd nbytes value emit total rest.length array world

theorem ReadsOn.round {fd nbytes value : Int32} {message : String} {base array : LocalArray}
    {each : Int32 → LocalArray → UserProgram (LocalArray ⊕ Int32)}
    {emit : List UInt8 → List UInt8} {total : List UInt8} {bound size : Nat}
    (heach : Emits task fs argument base nbytes each emit) (hfits : base.Fits size)
    (hsize : nbytes.toUInt32.toNat ≤ size) (hmessage : (literal message).length < 2 ^ 31)
    (hfd : fd.toUInt32 ≤ 7 ∧ fd.toUInt32 ≠ 1)
    (h : ReadsOn task fs argument base fd nbytes value emit total bound array world) :
    Meets (taskService task) (fun result next => result.elim
      (fun array' => ∃ lower < bound,
        ReadsOn task fs argument base fd nbytes value emit total lower array' next)
      fun status => status = (if value = 0 then 0 else 3) ∧
        next.printed = total ++ lastMessage value message)
      (do
        let (cnt, buf) ← ece391Read fd array 0 nbytes
        if cnt = 0 then return .inr 0
        else if cnt = -1 then
          ece391Fdputs 1 (literal message)
          return .inr 3
        else each cnt buf) world := by
  obtain @⟨fds, _, _, _, _, hown, haddr, hstdout, hopen, hyields, htotal⟩ := h
  have hfirst : array.addr + UInt32.ofNat 0 = base.addr := array.addr_first.trans haddr
  cases hyields with
  | last hreads hlast =>
      rw [← hfirst] at hreads
      refine meets_seq (meets_read hown hfd hopen hreads rfl) ?_
      rintro _ next ⟨rfl, hnext⟩
      rw [Function.update_eq_self] at hnext
      rw [List.flatMap_nil, List.append_nil] at htotal
      rcases hlast with rfl | rfl
      · refine ⟨rfl, ?_⟩
        rw [hnext.printed, ← htotal]
        exact (List.append_nil _).symm
      · refine meets_seq (meets_fdputs hnext hstdout hmessage) fun _ last hprinted => ?_
        exact ⟨rfl, by rw [hprinted.printed, ← htotal]; rfl⟩
  | @piece _ position source count pieces _ hpos hfit hreads hrest =>
      have hsmall := hfits.size_le
      have hcount : (UInt32.ofNat count).toNat = count :=
        UInt32.toNat_ofNat_of_lt' (by rw [UInt32.size]; omega)
      have hinside : storesInside (memcpy source base.addr (UInt32.ofNat count)) = true := by
        rw [← base.addr_first]
        exact hfits.copyInside (by omega) source
      rw [← hfirst] at hreads
      refine meets_seq (meets_read hown hfd hopen hreads (hfirst ▸ hinside)) ?_
      rintro _ next ⟨rfl, hnext⟩
      obtain ⟨hzero, hminus⟩ := ofNat_ne_of_pos hpos (by omega : count < 2 ^ 31)
      simp only [if_neg hzero, if_neg hminus]
      obtain ⟨array', harray⟩ : ∃ array' : LocalArray,
        array' = array.written (memcpy source (array.addr + UInt32.ofNat 0)
          (UInt32.ofNat count)) := ⟨_, rfl⟩
      have haddr' : array'.addr = base.addr := harray ▸ haddr
      have hpiece : (List.range count).map array'.cells = (List.range count).map source := by
        refine List.map_congr_left fun k hk => ?_
        have hk := List.mem_range.mp hk
        rw [harray, LocalArray.cells_written_memcpy _ _ (by omega) (by omega), if_pos (by omega),
          Nat.sub_zero]
      rw [← harray]
      have hstdout' := hstdout
      rw [← Function.update_of_ne hfd.2.symm _ fds] at hstdout'
      refine meets_mono ?_ (heach array' count _ _ next haddr' hpos hfit hstdout' hnext)
      rintro _ last ⟨array'', rfl, haddr'', hlast⟩
      refine ⟨pieces.length, Nat.lt_succ_self _, .between hlast haddr'' hstdout' ?_ ?_ ?_⟩
      · rw [Function.update_self]
        exact hopen
      · rw [Function.update_self]
        exact hrest
      · rw [hpiece, ← htotal, List.flatMap_cons, List.append_assoc]

theorem meets_readLoop {fd nbytes value : Int32} {message : String} {base buf : LocalArray}
    {each : Int32 → LocalArray → UserProgram (LocalArray ⊕ Int32)}
    {emit : List UInt8 → List UInt8} {pieces : List (List UInt8)} {size fuel : Nat}
    (heach : Emits task fs argument base nbytes each emit) (hfits : base.Fits size)
    (hsize : nbytes.toUInt32.toNat ≤ size) (hmessage : (literal message).length < 2 ^ 31)
    (hfd : fd.toUInt32 ≤ 7 ∧ fd.toUInt32 ≠ 1) (hbuf : buf.addr = base.addr)
    (h : Own task fs argument fds printed world) (hstdout : IsStdout (fds 1))
    (hopen : (fds fd.toUInt32).flags ≠ 0)
    (hyields : Yields fs base.addr nbytes (fds fd.toUInt32) pieces value)
    (hfuel : pieces.length < fuel) :
    Meets (taskService task) (fun status next =>
      status = some (if value = 0 then 0 else 3) ∧
        next.printed = printed ++ pieces.flatMap emit ++ lastMessage value message)
      (readLoop fd nbytes message each fuel buf) world := by
  have hstart : ReadsOn task fs argument base fd nbytes value emit
      (printed ++ pieces.flatMap emit) pieces.length buf world :=
    .between h hbuf hstdout hopen hyields rfl
  have hloop : Meets (taskService task) (fun result next => ∃ status, result = some status ∧
      status = (if value = 0 then 0 else 3) ∧
      next.printed = printed ++ pieces.flatMap emit ++ lastMessage value message)
      (readLoop fd nbytes message each fuel buf) world :=
    meets_loop (fun _ _ _ hon => hon.round heach hfits hsize hmessage hfd) hfuel hstart
  refine meets_mono ?_ hloop
  rintro _ next ⟨status, rfl, rfl, hprinted⟩
  exact ⟨rfl, hprinted⟩

end ReadLoop

/-! ## A program that prints one entry of the directory -/

def FreshFds (fds : UInt32 → FileDescriptor) : Prop := ∀ fd ≤ 7, fds fd = initialFd fd

theorem FreshFds.stdout {fds : UInt32 → FileDescriptor} (h : FreshFds fds) : IsStdout (fds 1) := by
  rw [h 1 (by decide)]
  exact ⟨rfl, by decide⟩

theorem FreshFds.lowestFree_eq {fds : UInt32 → FileDescriptor} (h : FreshFds fds) :
    lowestFree (fun fd => (fds fd).flags == 0) = some 2 := by
  have hinitial : lowestFree (fun fd => (initialFd fd).flags == 0) = some 2 := by decide
  rw [← hinitial]
  refine lowestFree_congr fun fd _ hfd => ?_
  rw [h fd hfd]

def printEntry (filename : CString) (nbytes : Int32) (missing message : String)
    (each : Int32 → LocalArray → UserProgram (LocalArray ⊕ Int32)) (fuel : Nat)
    (buf : LocalArray) : UserProgram (Option Int32) := do
  let fd ← ece391Open filename
  if fd = -1 then
    ece391Fdputs 1 (literal missing)
    return some 2
  else readLoop fd nbytes message each fuel buf

def PrintsAs (fs : FileSystem) (buf : UInt32) (nbytes : Int32) (message : String)
    (emit : List UInt8 → List UInt8) (fuel : Nat) (entry : Dentry)
    (outcome : Int32 × List UInt8) : Prop :=
  ∀ descriptor : FileDescriptor, descriptor.fopsTable = typeFops entry.type →
    (entry.type = 2 → descriptor.inode = entry.inode) → descriptor.filePosition = 0 →
    ∃ pieces value, Yields fs buf nbytes descriptor pieces value ∧ pieces.length < fuel ∧
      (if value = 0 then (0 : Int32) else 3,
        pieces.flatMap emit ++ lastMessage value message) = outcome

section PrintEntry

variable {task : UInt32} {fs : FileSystem} {argument : Nat → UInt8}
  {fds : UInt32 → FileDescriptor} {printed : List UInt8} {world : World}

theorem meets_printEntry {filename : CString} {nbytes : Int32} {missing message : String}
    {each : Int32 → LocalArray → UserProgram (LocalArray ⊕ Int32)}
    {emit : List UInt8 → List UInt8} {base buf : LocalArray} {size fuel : Nat}
    {outcome : Int32 × List UInt8} (h : Own task fs argument fds printed world)
    (hfresh : FreshFds fds) (hname : filename.chars ≠ [])
    (heach : Emits task fs argument base nbytes each emit) (hfits : base.Fits size)
    (hsize : nbytes.toUInt32.toNat ≤ size) (hmissing : (literal missing).length < 2 ^ 31)
    (hmessage : (literal message).length < 2 ^ 31) (hbuf : buf.addr = base.addr)
    (houtcome : match fs.lookup filename.chars with
      | none => (2, literal missing) = outcome
      | some entry => PrintsAs fs base.addr nbytes message emit fuel entry outcome) :
    Meets (taskService task) (fun status next => status = some outcome.1 ∧
      next.printed = printed ++ outcome.2)
      (printEntry filename nbytes missing message each fuel buf) world := by
  cases hlookup : fs.lookup filename.chars with
  | none =>
      rw [hlookup] at houtcome
      cases houtcome
      have hopens := Opens.missing hname hfresh.lowestFree_eq hlookup
      refine meets_seq (meets_open h hopens) ?_
      rintro _ opened ⟨rfl, hopened⟩
      have hstdout : IsStdout (Function.update fds 2
          ((fds 2).withTable (standardFops filename)) 1) := hfresh.stdout
      refine meets_seq (meets_fdputs hopened hstdout hmissing) fun _ last hlast => ?_
      exact ⟨rfl, hlast.printed⟩
  | some entry =>
      rw [hlookup] at houtcome
      obtain ⟨i, hi, hentry, -⟩ := lookup_eq_some hlookup
      have htype : entry.type ≤ 2 := by
        have hknown := h.serving.types i hi
        rwa [h.image, ← hentry] at hknown
      obtain ⟨table, htable⟩ := exists_typeFops htype
      refine meets_seq (meets_open h (.found hname hfresh.lowestFree_eq hlookup htable)) ?_
      rintro _ opened ⟨rfl, hopened⟩
      have hfd : ¬ (2 : UInt32).toInt32 = -1 := by decide
      rw [if_neg hfd]
      obtain ⟨fds', hfds'⟩ : ∃ fds', Function.update fds 2 (table.openFd entry (fds 2)) = fds' :=
        ⟨_, rfl⟩
      have hsecond : fds' 2 = table.openFd entry (initialFd 2) := by
        rw [← hfds', Function.update_self, hfresh 2 (by decide)]
      rw [hfds'] at hopened
      have hstdout : IsStdout (fds' 1) := by
        rw [← hfds', Function.update_of_ne (by decide)]
        exact hfresh.stdout
      have hopen : (fds' 2).flags ≠ 0 := by
        rw [hsecond]
        exact (by decide : (1 : UInt32) ≠ 0)
      obtain ⟨pieces, value, hyields, hrounds, hall⟩ := houtcome (fds' 2)
        (by rw [hsecond, htable]; rfl)
        (fun hregular => by
          rw [hsecond]
          exact openInode_of_typeFops htable hregular)
        (by rw [hsecond]; rfl)
      refine meets_mono (fun status last hlast => ?_)
        (meets_readLoop heach hfits hsize hmessage (by decide) hbuf hopened hstdout hopen hyields
          hrounds)
      rw [← hall, ← List.append_assoc]
      exact hlast

end PrintEntry

end LinuxOS
