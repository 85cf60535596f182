import LinuxOS.Files.Opening
import LinuxOS.Foundation.Refinement

/-!
# Descriptors as open files

What the descriptor calls are for: a process has a table of open files, each an
entry of the directory with a position.  The calls of the kernel keep its
descriptor array in step with that table, although `open` writes no position and
leaves traces in a descriptor when it fails.
-/

namespace LinuxOS

open Foundation

/-! ## The table of open files -/

structure OpenFile where
  entry : Dentry
  position : UInt32

/-- The open files of a process, by descriptor; 0 and 1 are the terminal and not listed. -/
abbrev OpenFiles := UInt32 → Option OpenFile

/-- What a call replies; `device` where the terminal or the clock has the answer. -/
inductive Reply where
  | value (result : Int32) (stores : Stores)
  | device

def Reply.Matches : Reply → Int32 × Stores → Prop
  | .value result stores, answer => answer = (result, stores)
  | .device, _ => True

namespace OpenFiles

def free (files : OpenFiles) : Option UInt32 :=
  [2, 3, 4, 5, 6, 7].find? fun fd => (files fd).isNone

def openName (fs : FileSystem) (filename : Option CString) (files : OpenFiles) :
    OpenFiles × Reply :=
  match filename with
  | none => (files, .value (-1) [])
  | some filename =>
      if filename.chars = [] then (files, .value (-1) [])
      else
        match files.free, fs.lookup filename.chars with
        | some fd, some entry =>
            (Function.update files fd (some ⟨entry, 0⟩), .value fd.toInt32 [])
        | _, _ => (files, .value (-1) [])

/-- The bytes of a file from the position on; behind the end of the file as `read_data` has it. -/
def fileReply (fs : FileSystem) (inode position buf : UInt32) (nbytes : Int32) :
    Int32 × Stores :=
  if buf ≠ 0 ∧ 0 ≤ nbytes ∧
      position.toNat + nbytes.toUInt32.toNat ≤ (fs.inodeLength inode).toNat then
    (nbytes, memcpy (fs.fileFrom inode position) buf nbytes.toUInt32)
  else readData fs inode position buf nbytes.toUInt32

def listReply (fs : FileSystem) (position buf nbytes : UInt32) : Int32 × Stores :=
  if position ≥ 63 ∨ buf = 0 then (-1, [])
  else
    let label := (fs.entry position).label
    let count := min nbytes.toNat label.length
    (Int32.ofNat count, memcpy (fun k => label.getD k 0) buf (UInt32.ofNat count))

def advance (files : OpenFiles) (fd : UInt32) (file : OpenFile) (result : Int32)
    (distance : UInt32) : OpenFiles :=
  if result > 0 then
    Function.update files fd (some { file with position := file.position + distance })
  else files

def readFrom (fs : FileSystem) (fd buf : UInt32) (nbytes : Int32) (files : OpenFiles) :
    OpenFiles × Reply :=
  if fd = 0 then (files, .device)
  else
    match files fd with
    | none => (files, .value (-1) [])
    | some file =>
        if file.entry.type = 0 then (files, .device)
        else if file.entry.type = 1 then
          let (result, stores) := listReply fs file.position buf nbytes.toUInt32
          (files.advance fd file result 1, .value result stores)
        else
          let (result, stores) := fileReply fs file.entry.inode file.position buf nbytes
          (files.advance fd file result result.toUInt32, .value result stores)

def writeTo (fd : UInt32) (files : OpenFiles) : OpenFiles × Reply :=
  if fd = 1 then (files, .device)
  else
    match files fd with
    | none => (files, .value (-1) [])
    | some file => (files, if file.entry.type = 0 then .device else .value (-1) [])

def close (fd : UInt32) (files : OpenFiles) : OpenFiles × Reply :=
  match files fd with
  | none => (files, .value (-1) [])
  | some _ => (Function.update files fd none, .value 0 [])

/-- The reply to a call; `getargs` has nothing to do with files. -/
def call (fs : FileSystem) : Call → OpenFiles → OpenFiles × Reply
  | .openFile filename, files => files.openName fs filename
  | .readFd _ fd buf nbytes, files => files.readFrom fs fd buf nbytes
  | .writeFd fd _ _, files => files.writeTo fd
  | .closeFd fd, files => files.close fd.toUInt32
  | .getargs _ _, files => (files, .device)

end OpenFiles

/-! ## What the kernel's array has to do with it -/

/-- The image: entries are of the three types, and files have valid inodes and lengths. -/
structure WellFormed (fs : FileSystem) : Prop where
  types : ∀ i < 63, (fs.entry i).type ≤ 2
  inodes : ∀ i < 63, (fs.entry i).type = 2 → (fs.entry i).inode < fs.inodeCount
  lengths : ∀ i < 63, (fs.entry i).type = 2 →
    (fs.inodeLength (fs.entry i).inode).toNat < 1023 * 4096

/-- A descriptor of the kernel stands for an open file, or for none. -/
def Describes (fs : FileSystem) (descriptor : FileDescriptor) : Option OpenFile → Prop
  | none => descriptor.flags = 0 ∧ descriptor.filePosition = 0
  | some file => descriptor.flags = 1 ∧ descriptor.filePosition = file.position ∧
      descriptor.fopsTable = typeFops file.entry.type ∧
      (file.entry.type = 2 → descriptor.inode = file.entry.inode) ∧
      ∃ i < 63, file.entry = fs.entry i

structure Represents (fs : FileSystem) (files : OpenFiles) (kernel : Kernel) : Prop where
  image : kernel.fs = fs
  outside : ∀ fd, ¬ (2 ≤ fd ∧ fd ≤ 7) → files fd = none
  descriptors : ∀ fd, 2 ≤ fd → fd ≤ 7 → Describes fs (kernel.fdOf fd) (files fd)
  stdin : (kernel.fdOf 0).fopsTable = some .stdinFops

/-! ## Changes of one descriptor -/

theorem fdOf_storeUser (kernel : Kernel) (stores : Stores) :
    (kernel.storeUser stores).fdOf = kernel.fdOf := rfl

theorem Represents.same {fs : FileSystem} {files : OpenFiles} {kernel after : Kernel}
    (h : Represents fs files kernel) (hfs : after.fs = kernel.fs)
    (hfds : after.fdOf = kernel.fdOf) : Represents fs files after where
  image := hfs.trans h.image
  outside := h.outside
  descriptors := hfds ▸ h.descriptors
  stdin := hfds ▸ h.stdin

theorem Represents.update {fs : FileSystem} {files : OpenFiles} {kernel after : Kernel}
    {fd : UInt32} {descriptor : FileDescriptor} {file : Option OpenFile}
    (h : Represents fs files kernel) (hlow : 2 ≤ fd) (hhigh : fd ≤ 7)
    (hfs : after.fs = kernel.fs)
    (hfds : after.fdOf = Function.update kernel.fdOf fd descriptor)
    (hdescribes : Describes fs descriptor file) :
    Represents fs (Function.update files fd file) after where
  image := hfs.trans h.image
  outside other hother := by
    have hne : other ≠ fd := by
      rintro rfl
      exact hother ⟨hlow, hhigh⟩
    rw [Function.update_of_ne hne, h.outside other hother]
  descriptors other holow hohigh := by
    rw [hfds]
    by_cases heq : other = fd
    · rw [heq, Function.update_self, Function.update_self]
      exact hdescribes
    · rw [Function.update_of_ne heq, Function.update_of_ne heq]
      exact h.descriptors other holow hohigh
  stdin := by
    have hne : (0 : UInt32) ≠ fd := by grind
    rw [hfds, Function.update_of_ne hne]
    exact h.stdin

theorem Represents.modifyFd {fs : FileSystem} {files : OpenFiles} {kernel : Kernel} {fd : UInt32}
    {change : FileDescriptor → FileDescriptor} {file : Option OpenFile}
    (h : Represents fs files kernel) (hlow : 2 ≤ fd) (hhigh : fd ≤ 7)
    (hdescribes : Describes fs (change (kernel.fdOf fd)) file) :
    Represents fs (Function.update files fd file) (kernel.modifyFd fd change) :=
  h.update hlow hhigh (fs_modifyFd kernel fd change) (fdOf_modifyFd kernel fd change) hdescribes

theorem Represents.storeUser {fs : FileSystem} {files : OpenFiles} {kernel : Kernel}
    (h : Represents fs files kernel) (stores : Stores) :
    Represents fs files (kernel.storeUser stores) :=
  h.same rfl (fdOf_storeUser kernel stores)

theorem Represents.updateFree {fs : FileSystem} {files : OpenFiles} {kernel after : Kernel}
    {fd : UInt32} {descriptor : FileDescriptor} (h : Represents fs files kernel) (hlow : 2 ≤ fd)
    (hhigh : fd ≤ 7) (hfree : files fd = none) (hfs : after.fs = kernel.fs)
    (hfds : after.fdOf = Function.update kernel.fdOf fd descriptor)
    (hdescribes : Describes fs descriptor none) : Represents fs files after := by
  have hupdate := h.update hlow hhigh hfs hfds hdescribes
  rwa [← hfree, Function.update_eq_self] at hupdate

theorem Represents.flags_eq_zero_iff {fs : FileSystem} {files : OpenFiles} {kernel : Kernel}
    {fd : UInt32} (h : Represents fs files kernel) (hlow : 2 ≤ fd) (hhigh : fd ≤ 7) :
    (kernel.fdOf fd).flags = 0 ↔ files fd = none := by
  have hdescribes := h.descriptors fd hlow hhigh
  cases hfile : files fd with
  | none =>
      rw [hfile] at hdescribes
      simp [hdescribes.1]
  | some file =>
      rw [hfile] at hdescribes
      simp [hdescribes.1]

theorem Represents.open_cases {fs : FileSystem} {files : OpenFiles} {kernel : Kernel}
    {fd : UInt32} {file : OpenFile} (hfs : WellFormed fs) (h : Represents fs files kernel)
    (hlow : 2 ≤ fd) (hhigh : fd ≤ 7) (hfile : files fd = some file) :
    (kernel.fdOf fd).flags ≠ 0 ∧ (kernel.fdOf fd).filePosition = file.position ∧
      (file.entry.type = 0 ∧ (kernel.fdOf fd).fopsTable = some .rtcFops ∨
        file.entry.type = 1 ∧ (kernel.fdOf fd).fopsTable = some .dirFops ∨
        file.entry.type = 2 ∧ (kernel.fdOf fd).fopsTable = some .fileFops ∧
          (kernel.fdOf fd).inode = file.entry.inode ∧ file.entry.inode < fs.inodeCount ∧
          (fs.inodeLength file.entry.inode).toNat < 1023 * 4096) := by
  have hdescribes := h.descriptors fd hlow hhigh
  rw [hfile] at hdescribes
  obtain ⟨hflags, hposition, htable, hinode, i, hi, hentry⟩ := hdescribes
  have hopen : (kernel.fdOf fd).flags ≠ 0 := by simp [hflags]
  refine ⟨hopen, hposition, ?_⟩
  rw [htable]
  have htype := hfs.types i hi
  have hvalid := hfs.inodes i hi
  have hlength := hfs.lengths i hi
  rw [← hentry] at htype hvalid hlength
  have hcases : file.entry.type = 0 ∨ file.entry.type = 1 ∨ file.entry.type = 2 := by grind
  rcases hcases with hrtc | hdir | hregular
  · exact .inl ⟨hrtc, by rw [hrtc]; rfl⟩
  · exact .inr (.inl ⟨hdir, by rw [hdir]; rfl⟩)
  · exact .inr (.inr ⟨hregular, by rw [hregular]; rfl, hinode hregular, hvalid hregular,
      hlength hregular⟩)

/-! ## Calls that are served -/

/-- A call has come back unless a device holds it, and what it has done agrees with the reply. -/
structure Serves (fs : FileSystem) (outcome : Option (Kernel × Int32 × Stores))
    (next : OpenFiles × Reply) : Prop where
  returns : next.2 ≠ .device → outcome.isSome
  agrees : ∀ after answer, outcome = some (after, answer) →
    Represents fs next.1 after ∧ next.2.Matches answer

theorem Serves.value {fs : FileSystem} {files : OpenFiles} {after : Kernel} {result : Int32}
    {stores : Stores} {outcome : Option (Kernel × Int32 × Stores)}
    (houtcome : outcome = some (after, result, stores)) (h : Represents fs files after) :
    Serves fs outcome (files, .value result stores) where
  returns _ := by rw [houtcome]; rfl
  agrees after' answer heq := by
    rw [houtcome] at heq
    cases heq
    exact ⟨h, rfl⟩

theorem Serves.device {fs : FileSystem} {files : OpenFiles}
    {outcome : Option (Kernel × Int32 × Stores)}
    (h : ∀ after answer, outcome = some (after, answer) → Represents fs files after) :
    Serves fs outcome (files, .device) where
  returns hne := absurd rfl hne
  agrees after answer heq := ⟨h after answer heq, trivial⟩

/-! ## `open` -/

theorem Represents.isFree_eq {fs : FileSystem} {files : OpenFiles} {kernel : Kernel}
    (h : Represents fs files kernel) {fd : UInt32} (hlow : 2 ≤ fd) (hhigh : fd ≤ 7) :
    kernel.isFree fd = (files fd).isNone := by
  rw [Bool.eq_iff_iff, Kernel.isFree, beq_iff_eq, h.flags_eq_zero_iff hlow hhigh,
    Option.isNone_iff_eq_none]

theorem Represents.lowestFree_eq {fs : FileSystem} {files : OpenFiles} {kernel : Kernel}
    (h : Represents fs files kernel) : lowestFree kernel.isFree = files.free :=
  lowestFree_congr fun _ hlow hhigh => h.isFree_eq hlow hhigh

theorem OpenFiles.free_eq_some {files : OpenFiles} {fd : UInt32} (h : files.free = some fd) :
    2 ≤ fd ∧ fd ≤ 7 ∧ files fd = none := by
  obtain ⟨hlow, hhigh, hnone⟩ := lowestFree_bounds h
  exact ⟨hlow, hhigh, Option.isNone_iff_eq_none.mp hnone⟩

theorem openInode_of_typeFops {entry : Dentry} {table : FopsTable} {inode : UInt32}
    (htable : typeFops entry.type = some table) (htype : entry.type = 2) :
    table.openInode entry inode = entry.inode := by
  rw [htype] at htable
  cases htable
  rfl

theorem Represents.openName {fs : FileSystem} {files : OpenFiles} {kernel : Kernel}
    (hfs : WellFormed fs) (h : Represents fs files kernel) (filename : Option CString) :
    Serves fs ((Call.openFile filename).perform kernel) (files.openName fs filename) := by
  cases filename with
  | none => exact .value rfl h
  | some filename =>
      rw [OpenFiles.openName, Call.perform]
      by_cases hname : filename.chars = []
      · rw [if_pos hname, syscallOpen_empty hname]
        exact .value rfl h
      rw [if_neg hname]
      cases hfree : files.free with
      | none =>
          rw [syscallOpen_full (h.lowestFree_eq.trans hfree)]
          exact .value rfl h
      | some fd =>
          obtain ⟨hlow, hhigh, hnone⟩ := OpenFiles.free_eq_some hfree
          have hclosed := h.descriptors fd hlow hhigh
          rw [hnone] at hclosed
          have hlowest := h.lowestFree_eq.trans hfree
          cases hlookup : fs.lookup filename.chars with
          | none =>
              -- the trace of a failed lookup is in a free descriptor
              rw [syscallOpen_missing hname hlowest (h.image ▸ hlookup)]
              exact .value rfl (h.updateFree hlow hhigh hnone (fs_modifyFd _ _ _)
                (fdOf_modifyFd _ _ _) hclosed)
          | some entry =>
              obtain ⟨i, hi, hentry, -⟩ := lookup_eq_some hlookup
              obtain ⟨table, htable⟩ := exists_typeFops (hentry ▸ hfs.types i hi)
              have hbehind : tableBehind filename entry (kernel.fdOf fd).fopsTable =
                  some table := by
                rw [tableBehind, htable, Option.some_or]
              rw [syscallOpen_found hname hlowest (h.image ▸ hlookup), hbehind]
              have hfds : ((table.openDevice kernel).modifyFd fd (table.openFd entry)).fdOf =
                  Function.update kernel.fdOf fd (table.openFd entry (kernel.fdOf fd)) := by
                rw [fdOf_modifyFd, fdOf_openDevice]
              exact .value rfl (h.update hlow hhigh (fs_openDevice table kernel) hfds
                ⟨rfl, hclosed.2, htable.symm, openInode_of_typeFops htable, i, hi, hentry⟩)

/-! ## `read` -/

theorem WellFormed.exists_nul {fs : FileSystem} (hfs : WellFormed fs) {i : UInt32} (hi : i < 63) :
    fs.bytesFrom (fs.entryAddr i) 33 = 0 := by
  have htype := UInt32.le_iff_toNat_le.mp (hfs.types i hi)
  have htwo : (2 : UInt32).toNat = 2 := rfl
  rw [Dentry.type, wordOfBytes, htwo] at htype
  have h0 := ((fs.entry i).bytes 32).toNat_lt
  have h1 := ((fs.entry i).bytes 33).toNat_lt
  have h2 := ((fs.entry i).bytes 34).toNat_lt
  have h3 := ((fs.entry i).bytes 35).toNat_lt
  rw [UInt32.toNat_ofNat_of_lt' (by rw [UInt32.size]; omega)] at htype
  have hbyte : (fs.entry i).bytes 33 = 0 := UInt8.toNat_inj.mp (by simp; omega)
  exact hbyte

theorem dirRead_eq {fs : FileSystem} (hfs : WellFormed fs) (position buf nbytes : UInt32) :
    dirRead fs position buf nbytes =
      some ((OpenFiles.listReply fs position buf nbytes).1,
        if (OpenFiles.listReply fs position buf nbytes).1 > 0 then position + 1 else position,
        (OpenFiles.listReply fs position buf nbytes).2) := by
  have hread : directoryRead fs position buf nbytes =
      some (OpenFiles.listReply fs position buf nbytes) := by
    by_cases hend : position ≥ 63
    · have hcount : position ≥ maxFilecount := hend
      rw [directoryRead, if_pos hcount, OpenFiles.listReply, if_pos (.inl hend)]
    by_cases hbuf : buf = 0
    · have hcount : ¬ position ≥ maxFilecount := hend
      rw [directoryRead, if_neg hcount, if_pos hbuf, OpenFiles.listReply, if_pos (.inr hbuf)]
    have hposition : position < 63 := UInt32.not_le.mp hend
    have hcopy : ∀ n : UInt32, n.toNat ≤ (fs.entry position).label.length →
        memcpy (fs.bytesFrom (fs.entryAddr position)) buf n =
          memcpy (fun k => (fs.entry position).label.getD k 0) buf n := by
      intro n hn
      exact memcpy_congr (fun k hk => (getD_label (hk.trans_le hn)).symm) buf
    have hshort := length_label_le (fs.entry position)
    rw [directoryRead_eq hposition hbuf (hfs.exists_nul hposition) (by decide) nbytes, hcopy]
    · rw [OpenFiles.listReply, if_neg (by simp [hbuf, hposition])]
    · rw [UInt32.toNat_ofNat_of_lt' (by rw [UInt32.size]; omega)]
      exact Nat.min_le_right _ _
  rw [dirRead, hread]
  rfl

theorem readData_eq_fileReply {fs : FileSystem} {inode : UInt32} (hinode : inode < fs.inodeCount)
    (hlength : (fs.inodeLength inode).toNat < 1023 * 4096) (position buf : UInt32)
    (nbytes : Int32) :
    readData fs inode position buf nbytes.toUInt32 =
      OpenFiles.fileReply fs inode position buf nbytes := by
  rw [OpenFiles.fileReply]
  split
  · next hwithin =>
      obtain ⟨hbuf, -, hend⟩ := hwithin
      have hvalue : nbytes.toUInt32.toInt32 = nbytes := Int32.toInt32_toUInt32 nbytes
      by_cases hoffset : position < fs.inodeLength inode
      · have hlt := UInt32.lt_iff_toNat_lt.mp hoffset
        have hcount : nbytes.toUInt32 = UInt32.ofNat
            (readCount (fs.inodeLength inode).toNat position.toNat nbytes.toUInt32.toNat) := by
          rw [readCount, Nat.min_eq_left (by omega), UInt32.ofNat_toNat]
        have hends : EndsInFile fs inode position nbytes.toUInt32 := ⟨by omega, by omega⟩
        rw [readData_of_endsInFile hbuf hinode hoffset hends hcount, hvalue]
      · have hbehind := UInt32.not_lt.mp hoffset
        have hle := UInt32.le_iff_toNat_le.mp hbehind
        have hzero : nbytes.toUInt32 = 0 := UInt32.toNat_inj.mp (by simp; omega)
        rw [readData_of_behind hbuf hinode hbehind, ← hvalue, hzero]
        rfl
  · rfl

theorem Represents.advance {fs : FileSystem} {files : OpenFiles} {kernel : Kernel} {fd : UInt32}
    {file : OpenFile} (h : Represents fs files kernel) (hlow : 2 ≤ fd) (hhigh : fd ≤ 7)
    (hfile : files fd = some file) (result : Int32) (distance : UInt32) (stores : Stores) :
    Represents fs (files.advance fd file result distance)
      ((kernel.modifyFd fd fun descriptor => { descriptor with
        filePosition := if result > 0 then file.position + distance else file.position }).storeUser
          stores) := by
  have hdescribes := h.descriptors fd hlow hhigh
  rw [hfile] at hdescribes
  obtain ⟨hflags, hposition, htable, hinode, hentry⟩ := hdescribes
  refine Represents.storeUser ?_ stores
  rw [OpenFiles.advance]
  split
  · exact h.modifyFd hlow hhigh ⟨hflags, rfl, htable, hinode, hentry⟩
  · have hkept : Describes fs { kernel.fdOf fd with filePosition := file.position }
        (some file) := ⟨hflags, rfl, htable, hinode, hentry⟩
    have hmodified : Represents fs (Function.update files fd (some file))
        (kernel.modifyFd fd fun descriptor =>
          { descriptor with filePosition := file.position }) := h.modifyFd hlow hhigh hkept
    rwa [← hfile, Function.update_eq_self] at hmodified

theorem Represents.terminalRead {fs : FileSystem} {files : OpenFiles} {kernel drained : Kernel}
    {buf nbytes : UInt32} {result : Int32} {stores : Stores} (h : Represents fs files kernel)
    (hread : LinuxOS.terminalRead buf nbytes kernel = some (drained, result, stores)) :
    Represents fs files drained := by
  unfold LinuxOS.terminalRead at hread
  split at hread
  · simp at hread
  · cases hread
    exact h.same rfl rfl

theorem Represents.rtcRead {fs : FileSystem} {files : OpenFiles} {kernel waited : Kernel}
    {interrupts : UInt32} {result : Int32} (h : Represents fs files kernel)
    (hread : LinuxOS.rtcRead interrupts kernel = some (waited, result)) :
    Represents fs files waited := by
  unfold LinuxOS.rtcRead at hread
  split at hread
  · simp at hread
  split at hread
  · simp at hread
  · cases hread
    exact h.same rfl rfl

theorem Represents.readStdin {fs : FileSystem} {files : OpenFiles} {kernel : Kernel}
    (h : Represents fs files kernel) (interrupts buf : UInt32) (nbytes : Int32) :
    Serves fs (syscallRead interrupts 0 buf nbytes kernel) (files, .device) := by
  refine .device fun after answer houtcome => ?_
  simp only [syscallRead, h.stdin] at houtcome
  split at houtcome
  · cases houtcome
    exact h
  split at houtcome
  · cases houtcome
    exact h
  · obtain ⟨⟨drained, result, stores⟩, hread, houtcome⟩ := Option.map_eq_some_iff.mp houtcome
    cases houtcome
    exact (h.terminalRead hread).storeUser stores

theorem Represents.readFrom {fs : FileSystem} {files : OpenFiles} {kernel : Kernel}
    (hfs : WellFormed fs) (h : Represents fs files kernel) (interrupts fd buf : UInt32)
    (nbytes : Int32) :
    Serves fs ((Call.readFd interrupts fd buf nbytes).perform kernel)
      (files.readFrom fs fd buf nbytes) := by
  rw [Call.perform, OpenFiles.readFrom]
  by_cases hzero : fd = 0
  · rw [hzero, if_pos rfl]
    exact h.readStdin interrupts buf nbytes
  rw [if_neg hzero]
  by_cases hrange : fd > 7 ∨ fd = 1
  · have houtside : files fd = none := h.outside fd (by grind)
    rw [syscallRead, if_pos hrange, houtside]
    exact .value rfl h
  have hlow : 2 ≤ fd := by grind
  have hhigh : fd ≤ 7 := by grind
  rw [syscallRead, if_neg hrange]
  cases hfile : files fd with
  | none =>
      rw [if_pos ((h.flags_eq_zero_iff hlow hhigh).mpr hfile)]
      exact .value rfl h
  | some file =>
      obtain ⟨hopen, hposition, hcases⟩ := h.open_cases hfs hlow hhigh hfile
      rw [if_neg hopen]
      -- the clock, a directory, a regular file
      rcases hcases with ⟨hrtc, htable⟩ | ⟨hdir, htable⟩ |
        ⟨hregular, htable, hinode, hvalid, hlength⟩
      · simp only [hrtc, htable, if_pos]
        refine .device fun after answer houtcome => ?_
        obtain ⟨⟨waited, result⟩, hread, houtcome⟩ := Option.map_eq_some_iff.mp houtcome
        cases houtcome
        exact h.rtcRead hread
      · have hne : file.entry.type ≠ 0 := by simp [hdir]
        simp only [htable, if_neg hne, if_pos hdir, h.image, hposition, dirRead_eq hfs]
        exact .value rfl (h.advance hlow hhigh hfile _ 1 _)
      · have hne : file.entry.type ≠ 0 := by simp [hregular]
        have hne' : file.entry.type ≠ 1 := by simp [hregular]
        simp only [htable, if_neg hne, if_neg hne', h.image, hposition, hinode, fileRead,
          readData_eq_fileReply hvalid hlength]
        exact .value rfl (h.advance hlow hhigh hfile _ _ _)

/-! ## `write` and `close` -/

theorem syscallWrite_fds {fd : UInt32} {source : Nat → UInt8} {nbytes value : Int32}
    {kernel after : Kernel} (h : syscallWrite fd source nbytes kernel = some (after, value)) :
    after.fs = kernel.fs ∧ after.fdOf = kernel.fdOf := by
  obtain ⟨screen, virtFreq, interrupts, rfl⟩ := syscallWrite_eq h
  exact ⟨rfl, rfl⟩

theorem Represents.writeTo {fs : FileSystem} {files : OpenFiles} {kernel : Kernel}
    (hfs : WellFormed fs) (h : Represents fs files kernel) (fd : UInt32)
    (source : Nat → UInt8) (nbytes : Int32) :
    Serves fs ((Call.writeFd fd source nbytes).perform kernel) (files.writeTo fd) := by
  have hdevice : Serves fs ((Call.writeFd fd source nbytes).perform kernel) (files, .device) := by
    refine .device fun after answer houtcome => ?_
    obtain ⟨⟨written, result⟩, hwrite, houtcome⟩ := Option.map_eq_some_iff.mp houtcome
    cases houtcome
    obtain ⟨hsameFs, hsameFds⟩ := syscallWrite_fds hwrite
    exact h.same hsameFs hsameFds
  unfold OpenFiles.writeTo
  by_cases hone : fd = 1
  · rw [if_pos hone]
    exact hdevice
  rw [if_neg hone]
  by_cases hrange : fd > 7 ∨ fd < 1
  · have houtside : files fd = none := h.outside fd (by grind)
    simp only [Call.perform, syscallWrite, if_pos hrange, houtside]
    exact .value rfl h
  have hlow : 2 ≤ fd := by grind
  have hhigh : fd ≤ 7 := by grind
  cases hfile : files fd with
  | none =>
      have hclosed := (h.flags_eq_zero_iff hlow hhigh).mpr hfile
      simp only [Call.perform, syscallWrite, if_neg hrange, if_pos hclosed]
      exact .value rfl h
  | some file =>
      obtain ⟨hopen, -, hcases⟩ := h.open_cases hfs hlow hhigh hfile
      -- the clock takes a rate; directories and files cannot be written
      rcases hcases with ⟨hrtc, -⟩ | ⟨hdir, htable⟩ | ⟨hregular, htable, -⟩
      · simp only [hrtc, if_pos]
        exact hdevice
      · have hne : file.entry.type ≠ 0 := by simp [hdir]
        simp only [Call.perform, syscallWrite, if_neg hrange, if_neg hopen, htable, if_neg hne]
        exact .value rfl h
      · have hne : file.entry.type ≠ 0 := by simp [hregular]
        simp only [Call.perform, syscallWrite, if_neg hrange, if_neg hopen, htable, if_neg hne]
        exact .value rfl h

theorem closable_iff (fd : Int32) :
    ¬ (fd > 7 ∨ fd < 2) ↔ 2 ≤ fd.toUInt32 ∧ fd.toUInt32 ≤ 7 := by
  have htwo : (2 : Int32).toInt = 2 := rfl
  have hseven : (7 : Int32).toInt = 7 := rfl
  have htwo' : (2 : UInt32).toNat = 2 := rfl
  have hseven' : (7 : UInt32).toNat = 7 := rfl
  have hvalue := toInt_eq_cond fd
  have hrange := fd.toUInt32.toNat_lt
  rw [gt_iff_lt, Int32.lt_iff_toInt_lt, Int32.lt_iff_toInt_lt, UInt32.le_iff_toNat_le,
    UInt32.le_iff_toNat_le, htwo, hseven, htwo', hseven', hvalue]
  split <;> omega

theorem Represents.close {fs : FileSystem} {files : OpenFiles} {kernel : Kernel}
    (hfs : WellFormed fs) (h : Represents fs files kernel) (fd : Int32) :
    Serves fs ((Call.closeFd fd).perform kernel) (files.close fd.toUInt32) := by
  simp only [Call.perform, syscallClose, OpenFiles.close]
  by_cases hrange : fd > 7 ∨ fd < 2
  · have houtside : files fd.toUInt32 = none :=
      h.outside _ fun hin => (closable_iff fd).mpr hin hrange
    rw [if_pos hrange, houtside]
    exact .value rfl h
  rw [if_neg hrange]
  obtain ⟨hlow, hhigh⟩ := (closable_iff fd).mp hrange
  cases hfile : files fd.toUInt32 with
  | none =>
      rw [if_pos ((h.flags_eq_zero_iff hlow hhigh).mpr hfile)]
      exact .value rfl h
  | some file =>
      obtain ⟨hopen, -, hcases⟩ := h.open_cases hfs hlow hhigh hfile
      rw [if_neg hopen]
      rcases hcases with ⟨-, htable⟩ | ⟨-, htable⟩ | ⟨-, htable, -⟩
      all_goals
        simp only [htable, Option.map_some]
        exact .value rfl (h.modifyFd hlow hhigh ⟨rfl, rfl⟩)

/-! ## Runs of a process -/

theorem Represents.getargs {fs : FileSystem} {files : OpenFiles} {kernel : Kernel}
    (h : Represents fs files kernel) (buf : UInt32) (nbytes : Int32) :
    Serves fs ((Call.getargs buf nbytes).perform kernel) (files, .device) := by
  refine .device fun after answer houtcome => ?_
  rw [syscallGetargs_eq houtcome]
  exact h.storeUser _

theorem Represents.call {fs : FileSystem} {files : OpenFiles} {kernel : Kernel}
    (hfs : WellFormed fs) (h : Represents fs files kernel) (call : Call) :
    Serves fs (call.perform kernel) (files.call fs call) := by
  cases call with
  | openFile filename => exact h.openName hfs filename
  | readFd interrupts fd buf nbytes => exact h.readFrom hfs interrupts fd buf nbytes
  | writeFd fd source nbytes => exact h.writeTo hfs fd source nbytes
  | closeFd fd => exact h.close hfs fd
  | getargs buf nbytes => exact h.getargs buf nbytes

structure Interlude where
  change : Kernel → Kernel
  image : ∀ kernel, (change kernel).fs = kernel.fs
  descriptors : ∀ kernel, (change kernel).fdOf = kernel.fdOf

def Interlude.keyPress (char : UInt8) : Interlude where
  change := terminalBufAdd char
  image kernel := by
    unfold terminalBufAdd
    split
    · rfl
    split <;> rfl
  descriptors kernel := by
    unfold terminalBufAdd
    split
    · rfl
    split <;> rfl

inductive Move where
  | call (call : Call)
  | meanwhile (interlude : Interlude)

/-- A call that stores outside its caller's page may hit the descriptors, or fault: no move. -/
def Move.perform : Move → Kernel → Option (Kernel × Int32 × Stores)
  | .call request, kernel =>
      (request.perform kernel).filter fun (_, _, stores) => storesInside stores
  | .meanwhile interlude, kernel => some (interlude.change kernel, 0, [])

def OpenFiles.move (fs : FileSystem) : Move → OpenFiles → OpenFiles × Reply
  | .call request, files => files.call fs request
  | .meanwhile _, files => (files, .device)

def noOpenFiles : OpenFiles := fun _ => none

theorem fdOf_fdaInit (kernel : Kernel) (fd : UInt32) :
    (fdaInit kernel).fdOf fd =
      if fd = 0 then ⟨some .stdinFops, 0, 0, 1⟩
      else if fd = 1 then ⟨some .stdoutFops, 0, 0, 1⟩
      else if fd < 8 then ⟨none, 0, 0, 0⟩
      else kernel.fdOf fd := by
  rw [fdaInit, Kernel.fdOf, running_modifyPcb, pcbOf_modifyPcb_self]
  rfl

theorem represents_fdaInit {fs : FileSystem} {kernel : Kernel} (himage : kernel.fs = fs) :
    Represents fs noOpenFiles (fdaInit kernel) where
  image := himage
  outside _ _ := rfl
  descriptors fd hlow hhigh := by
    have hne : fd ≠ 0 := by grind
    have hne' : fd ≠ 1 := by grind
    have hlt : fd < 8 := by grind
    rw [fdOf_fdaInit, if_neg hne, if_neg hne', if_pos hlt]
    exact ⟨rfl, rfl⟩
  stdin := by
    rw [fdOf_fdaInit, if_pos rfl]

theorem fdOf_withEsp0 (kernel : Kernel) (esp0 : UInt32) :
    { kernel with tssEsp0 := esp0 }.fdOf = kernel.fdOf := rfl

theorem represents_fillPcb (frame : ExecuteFrame) (command : CString)
    (newSlot oldSlot eip : UInt32) (kernel : Kernel) :
    Represents kernel.fs noOpenFiles (fillPcb frame command newSlot oldSlot eip kernel) := by
  have himage : ((linkParent oldSlot (kernel.modifyPcb newSlot fun pcb =>
      { pcb with taskId := newSlot })).modifyPcb newSlot (fillTexts frame command eip)).fs =
        kernel.fs := rfl
  rw [fillPcb]
  exact (represents_fdaInit himage).same rfl (fdOf_withEsp0 _ _)

theorem represents_executeClaim (frame : ExecuteFrame) (command : CString) (fileCheck : Dentry)
    (slot : UInt32) (kernel : Kernel) :
    Represents kernel.fs noOpenFiles (executeClaim frame command fileCheck slot kernel).1 := by
  have himage : (loadProgram fileCheck (claimSlot slot kernel)).1.fs = kernel.fs := rfl
  rw [executeClaim, ← himage]
  exact represents_fillPcb frame command slot kernel.running _ _

theorem represents_of_entered {frame : ExecuteFrame} {command : CString} {before start : Kernel}
    {eip : UInt32} (hexecute : syscallExecute frame command before = (start, .entered eip)) :
    Represents before.fs noOpenFiles start := by
  rcases syscallExecute_cases hexecute with ⟨⟨_, hexit⟩, -⟩ | ⟨slot, fileCheck, _, -, -, rfl⟩
  · cases hexit
  · exact represents_executeClaim frame command fileCheck slot before

/--
The descriptor calls of a process refine the table of open files: from its
`execute` on, in every run of calls that store in the user page, their results
are the replies of the table, and a call to which the table has such a reply
comes back.
-/
theorem descriptors_refine {frame : ExecuteFrame} {command : CString} {before start : Kernel}
    {eip : UInt32} (hfs : WellFormed before.fs)
    (hexecute : syscallExecute frame command before = (start, .entered eip))
    {moves : List Move} {final : Kernel} {results : List (Int32 × Stores)}
    (hrun : answers Move.perform moves start = some (final, results)) :
    Represents before.fs (replies (OpenFiles.move before.fs) moves noOpenFiles).1 final ∧
      List.Forall₂ Reply.Matches
        (replies (OpenFiles.move before.fs) moves noOpenFiles).2 results ∧
      ∀ call result stores,
        ((replies (OpenFiles.move before.fs) moves noOpenFiles).1.call before.fs call).2 =
          .value result stores →
        storesInside stores = true → ((Move.call call).perform final).isSome := by
  have hstart := represents_of_entered hexecute
  have hsimulates : ∀ (move : Move) (files : OpenFiles) (kernel next : Kernel)
      (answer : Int32 × Stores), Represents before.fs files kernel →
      move.perform kernel = some (next, answer) →
      Represents before.fs (OpenFiles.move before.fs move files).1 next ∧
        (OpenFiles.move before.fs move files).2.Matches answer := by
    intro move files kernel next answer h hmove
    cases move with
    | call call =>
        exact (h.call hfs call).agrees next answer (Option.filter_eq_some_iff.mp hmove).1
    | meanwhile interlude =>
        cases hmove
        exact ⟨h.same (interlude.image kernel) (interlude.descriptors kernel), trivial⟩
  obtain ⟨hfinal, hresults⟩ := answers_refine hsimulates hrun hstart
  refine ⟨hfinal, hresults, fun call result stores hreply hinside => ?_⟩
  have hserves := hfinal.call hfs call
  obtain ⟨⟨after, answer⟩, hperform⟩ :=
    Option.isSome_iff_exists.mp (hserves.returns (by rw [hreply]; exact Reply.noConfusion))
  -- the answer is the reply, so that its stores are those of the reply
  have hmatches := (hserves.agrees after answer hperform).2
  rw [hreply] at hmatches
  have hanswer : answer = (result, stores) := hmatches
  rw [hanswer] at hperform
  rw [Move.perform, hperform, Option.filter_some, if_pos hinside, Option.isSome_some]

theorem wellFormed_shellImage : WellFormed shellImage := by
  have hall : ∀ k : Fin 63, (shellImage.entry (UInt32.ofNat k)).type ≤ 2 ∧
      ((shellImage.entry (UInt32.ofNat k)).type = 2 →
        (shellImage.entry (UInt32.ofNat k)).inode = 0) := by decide
  have heach : ∀ i < 63, (shellImage.entry i).type ≤ 2 ∧
      ((shellImage.entry i).type = 2 → (shellImage.entry i).inode = 0) := by
    intro i hi
    have hk := hall ⟨i.toNat, UInt32.lt_iff_toNat_lt.mp hi⟩
    rwa [UInt32.ofNat_toNat] at hk
  obtain ⟨hcount, hlength⟩ := shellImage_lengths
  refine ⟨fun i hi => (heach i hi).1, fun i hi htype => ?_, fun i hi htype => ?_⟩
  · rw [(heach i hi).2 htype, hcount]
    decide
  · rw [(heach i hi).2 htype, hlength]
    decide

theorem exists_entered {image : FileSystem}
    (h : (syscallExecute default shellName (bootKernel image)).2.isEntered = true) :
    ∃ start eip, syscallExecute default shellName (bootKernel image) = (start, .entered eip) := by
  obtain ⟨⟨start, exit⟩, hexecute⟩ :
      ∃ outcome, syscallExecute default shellName (bootKernel image) = outcome := ⟨_, rfl⟩
  rw [hexecute] at h
  obtain ⟨eip, rfl⟩ := Exit.exists_entered h
  exact ⟨start, eip, hexecute⟩

def shellMoves : List Move :=
  [.call (.openFile (some shellName)), .meanwhile (.keyPress 0x61),
    .call (.readFd 0 2 0x08000000 4), .call (.closeFd 2)]

theorem descriptors_refine_shellMoves :
    ∃ start eip final results,
      syscallExecute default shellName (bootKernel shellImage) = (start, .entered eip) ∧
      answers Move.perform shellMoves start = some (final, results) ∧
      Represents shellImage (replies (OpenFiles.move shellImage) shellMoves noOpenFiles).1 final ∧
      List.Forall₂ Reply.Matches
        (replies (OpenFiles.move shellImage) shellMoves noOpenFiles).2 results := by
  obtain ⟨start, eip, hexecute⟩ := @exists_entered shellImage (by decide)
  have hsome : (answers Move.perform shellMoves
      (syscallExecute default shellName (bootKernel shellImage)).1).isSome := by decide +kernel
  rw [hexecute] at hsome
  obtain ⟨⟨final, results⟩, hrun⟩ := Option.isSome_iff_exists.mp hsome
  have hfs : WellFormed (bootKernel shellImage).fs := wellFormed_shellImage
  have hrefines := descriptors_refine hfs hexecute hrun
  exact ⟨start, eip, final, results, hexecute, hrun, hrefines.1, hrefines.2.1⟩

end LinuxOS
