import LinuxOS.Memory.CallBuffers
import LinuxOS.Process.Commands
import LinuxOS.Process.Result
import LinuxOS.User.Requests

/-!
# What the library functions do for a program

One rule for each `ece391_*` function: from what a task has to itself before
the call follows what it has afterwards, and what the function returns.
-/

namespace LinuxOS

open Foundation

/-! ## Stores in the user page -/

theorem storesInside_append (first second : Stores) :
    storesInside (first ++ second) = (storesInside first && storesInside second) :=
  List.all_append

theorem userPage_toNat : virtualMem.toNat = 0x8000000 ∧ (virtualMem + fourM).toNat = 0x8400000 :=
  ⟨rfl, rfl⟩

theorem storesInside_range_iff {buf : UInt32} {count : Nat} (hpos : 0 < count)
    (hshort : count < 2 ^ 31) (byte : Nat → UInt8) :
    storesInside ((List.range count).map fun index => (buf + UInt32.ofNat index, byte index)) =
        true ↔
      virtualMem ≤ buf ∧ buf.toNat + count ≤ (virtualMem + fourM).toNat := by
  obtain ⟨hstart, hend⟩ := userPage_toNat
  have hrange := buf.toNat_lt
  have haddr : ∀ index < count, (buf + UInt32.ofNat index).toNat =
      (buf.toNat + index) % 2 ^ 32 := by
    intro index hindex
    rw [UInt32.toNat_add, UInt32.toNat_ofNat_of_lt' (by rw [UInt32.size]; omega)]
  simp only [storesInside, List.all_map, List.all_eq_true, List.mem_range, Function.comp_apply,
    Bool.and_eq_true, decide_eq_true_eq, UInt32.le_iff_toNat_le, UInt32.lt_iff_toNat_lt]
  rw [hstart, hend]
  constructor
  · intro hall
    have hfirst := hall 0 hpos
    rw [haddr 0 hpos] at hfirst
    refine ⟨by omega, ?_⟩
    by_contra hover
    have hlast := hall (0x8400000 - buf.toNat) (by omega)
    rw [haddr _ (by omega)] at hlast
    omega
  · rintro ⟨hlow, hhigh⟩ index hindex
    rw [haddr index hindex]
    omega

/-! ## Local arrays -/

structure LocalArray.Fits (array : LocalArray) (size : Nat) : Prop where
  low : virtualMem ≤ array.addr
  high : array.addr.toNat + size ≤ (virtualMem + fourM).toNat

namespace LocalArray

variable {array : LocalArray} {size : Nat}

@[simp] theorem addr_written (array : LocalArray) (stores : Stores) :
    (array.written stores).addr = array.addr := rfl

@[simp] theorem addr_set (array : LocalArray) (index : Nat) (byte : UInt8) :
    (array.set index byte).addr = array.addr := rfl

@[simp] theorem cells_set (array : LocalArray) (index : Nat) (byte : UInt8) :
    (array.set index byte).cells = Function.update array.cells index byte := rfl

@[simp] theorem addr_first (array : LocalArray) : array.addr + UInt32.ofNat 0 = array.addr :=
  UInt32.add_zero _

theorem Fits.written (h : array.Fits size) (stores : Stores) : (array.written stores).Fits size :=
  ⟨h.low, h.high⟩

theorem Fits.set (h : array.Fits size) (index : Nat) (byte : UInt8) :
    (array.set index byte).Fits size := ⟨h.low, h.high⟩

theorem Fits.size_le (h : array.Fits size) : size ≤ 0x400000 := by
  obtain ⟨hstart, hend⟩ := userPage_toNat
  have hlow := UInt32.le_iff_toNat_le.mp h.low
  have hhigh := h.high
  omega

theorem Fits.ne_zero (h : array.Fits size) {start : Nat} (hstart : start ≤ size) :
    array.addr + UInt32.ofNat start ≠ 0 := by
  obtain ⟨hvirtual, hend⟩ := userPage_toNat
  have hlow := UInt32.le_iff_toNat_le.mp h.low
  have hhigh := h.high
  have hsmall := h.size_le
  intro hzero
  have hnat := congrArg UInt32.toNat hzero
  rw [UInt32.toNat_add, UInt32.toNat_ofNat_of_lt' (by rw [UInt32.size]; omega),
    UInt32.toNat_zero] at hnat
  omega

theorem Fits.addr_ne_zero (h : array.Fits size) : array.addr ≠ 0 := by
  have hne := h.ne_zero (Nat.zero_le size)
  rwa [array.addr_first] at hne

theorem Fits.copyInside (h : array.Fits size) {start : Nat} {n : UInt32}
    (hfit : start + n.toNat ≤ size) (source : Nat → UInt8) :
    storesInside (memcpy source (array.addr + UInt32.ofNat start) n) = true := by
  obtain ⟨hvirtual, hend⟩ := userPage_toNat
  have hsmall := h.size_le
  have hlow := UInt32.le_iff_toNat_le.mp h.low
  have hhigh := h.high
  by_cases hzero : n.toNat = 0
  · rw [memcpy, hzero]
    rfl
  have haddr : (array.addr + UInt32.ofNat start).toNat = array.addr.toNat + start := by
    rw [UInt32.toNat_add, UInt32.toNat_ofNat_of_lt' (by rw [UInt32.size]; omega)]
    omega
  refine (storesInside_range_iff (Nat.pos_of_ne_zero hzero) (by omega) source).mpr ⟨?_, ?_⟩
  · rw [UInt32.le_iff_toNat_le, haddr]
    omega
  · rw [haddr]
    omega

theorem written_append (array : LocalArray) (first second : Stores) :
    array.written (first ++ second) = (array.written first).written second := by
  have hcells : (fun addr => (array.written first).cells (addr - array.addr).toNat) =
      Stores.apply first fun addr => array.cells (addr - array.addr).toNat := by
    funext addr
    simp only [written, UInt32.ofNat_toNat, UInt32.add_comm array.addr, UInt32.sub_add_cancel]
  simp only [written] at hcells ⊢
  rw [hcells]
  simp only [Stores.apply, List.foldl_append]

theorem cells_written_memcpy (array : LocalArray) (source : Nat → UInt8) {start index : Nat}
    {n : UInt32} (hfit : start + n.toNat ≤ 2 ^ 31) (hindex : index < 2 ^ 31) :
    (array.written (memcpy source (array.addr + UInt32.ofNat start) n)).cells index =
      if start ≤ index ∧ index < start + n.toNat then source (index - start)
      else array.cells index := by
  have hstart : (UInt32.ofNat start).toNat = start :=
    UInt32.toNat_ofNat_of_lt' (by rw [UInt32.size]; omega)
  have hcell : (UInt32.ofNat index).toNat = index :=
    UInt32.toNat_ofNat_of_lt' (by rw [UInt32.size]; omega)
  have hown : array.addr + UInt32.ofNat index - array.addr = UInt32.ofNat index := by
    rw [UInt32.add_comm, UInt32.add_sub_cancel]
  have hoffset : array.addr + UInt32.ofNat index - (array.addr + UInt32.ofNat start) =
      UInt32.ofNat index - UInt32.ofNat start := by
    refine UInt32.toNat_inj.mp ?_
    simp only [UInt32.toNat_sub, UInt32.toNat_add]
    omega
  have hmemory := apply_memcpy source (array.addr + UInt32.ofNat start) n
    (array.addr + UInt32.ofNat index) fun addr => array.cells (addr - array.addr).toNat
  rw [hoffset, hown, hcell] at hmemory
  refine hmemory.trans ?_
  by_cases hbefore : index < start
  · have hlarge : ¬ UInt32.ofNat index - UInt32.ofNat start < n := by
      rw [UInt32.lt_iff_toNat_lt, UInt32.toNat_sub, hstart, hcell]
      omega
    rw [if_neg hlarge, if_neg (by omega)]
  · have hsub : (UInt32.ofNat index - UInt32.ofNat start).toNat = index - start := by
      rw [UInt32.toNat_sub, hstart, hcell]
      omega
    refine if_congr ?_ (by rw [hsub]) rfl
    rw [UInt32.lt_iff_toNat_lt, hsub]
    omega

end LocalArray

/-! ## Writing -/

section Calls

variable {task : UInt32} {fs : FileSystem} {argument : Nat → UInt8}
  {fds : UInt32 → FileDescriptor} {printed : List UInt8} {world : World}

theorem printed_stdout {kernel : Kernel} (h : IsStdout (kernel.fdOf 1)) (source : Nat → UInt8)
    (nbytes : Int32) : (Call.writeFd 1 source nbytes).printed kernel =
      writtenBytes source nbytes :=
  if_pos ⟨⟨by decide, by decide⟩, h.2, h.1⟩

theorem ofNat_ne_neg_one {count : Nat} (hshort : count < 2 ^ 31) : Int32.ofNat count ≠ -1 := by
  intro hvalue
  have hint := congrArg Int32.toInt hvalue
  rw [Int32.toInt_ofNat_of_lt hshort] at hint
  have hminus : (-1 : Int32).toInt = -1 := rfl
  omega

theorem countP_ne_neg_one {source : Nat → UInt8} {nbytes : Int32} (hnonneg : 0 ≤ nbytes) :
    Int32.ofNat ((writtenBytes source nbytes).countP (· != 0x0A)) ≠ -1 := by
  have hbound := (nonneg_iff_toNat_lt nbytes).mp hnonneg
  have hlength : (writtenBytes source nbytes).length = nbytes.toUInt32.toNat := by
    rw [writtenBytes, List.length_map, List.length_range]
  have hcount : (writtenBytes source nbytes).countP (· != 0x0A) ≤ nbytes.toUInt32.toNat :=
    hlength ▸ List.countP_le_length
  exact ofNat_ne_neg_one (by omega)

theorem meets_write (source : Nat → UInt8) {nbytes : Int32}
    (h : Own task fs argument fds printed world) (hstdout : IsStdout (fds 1))
    (hnonneg : 0 ≤ nbytes) :
    Meets (taskService task) (fun value next => value ≠ -1 ∧
      Own task fs argument fds (printed ++ writtenBytes source nbytes) next)
      (ece391Write 1 source nbytes) world := by
  have hrequest : Meets (taskService task)
      (fun reply next => reply = (Int32.ofNat ((writtenBytes source nbytes).countP (· != 0x0A)),
        []) ∧ Own task fs argument fds (printed ++ writtenBytes source nbytes) next)
      (Client.request (.writeFd 1 source nbytes)) world := by
    refine meets_request h ⟨_, .writeFd 1 source nbytes⟩ rfl
      fun kernel call _ _ _ _ hfds hcall _ => ?_
    cases hcall
    have hopen : IsStdout (kernel.fdOf 1) := hfds ▸ hstdout
    exact ⟨kernel.modifyScreen (puts (writtenBytes source nbytes)),
      congrArg (Option.map _) (syscallWrite_stdout hopen source nbytes), hfds,
      printed_stdout hopen source nbytes⟩
  refine meets_seq hrequest ?_
  rintro ⟨value, stores⟩ next ⟨hreply, hnext⟩
  cases hreply
  exact ⟨countP_ne_neg_one hnonneg, hnext⟩

theorem toNat_ofNat_of_short {length : Nat} (hshort : length < 2 ^ 31) :
    (Int32.ofNat length).toUInt32.toNat = length := by
  have hvalue : (Int32.ofNat length).toUInt32 = UInt32.ofNat length := rfl
  rw [hvalue, UInt32.toNat_ofNat_of_lt' (by rw [UInt32.size]; omega)]

theorem writtenBytes_getD {bytes : List UInt8} (hshort : bytes.length < 2 ^ 31) :
    writtenBytes (fun index => bytes.getD index 0) (Int32.ofNat bytes.length) = bytes := by
  rw [writtenBytes, toNat_ofNat_of_short hshort]
  exact List.ext_getElem (by simp) fun k hk hk' => by simp [List.getD, hk']

theorem meets_fdputs {s : List UInt8} (h : Own task fs argument fds printed world)
    (hstdout : IsStdout (fds 1)) (hshort : s.length < 2 ^ 31) :
    Meets (taskService task) (fun _ next => Own task fs argument fds (printed ++ s) next)
      (ece391Fdputs 1 s) world := by
  have hnonneg : 0 ≤ Int32.ofNat s.length := by
    rw [nonneg_iff_toNat_lt, toNat_ofNat_of_short hshort]
    exact hshort
  have hwrite := meets_write (fun index => s.getD index 0) h hstdout hnonneg
  refine meets_seq hwrite fun value next hnext => ?_
  have hown := hnext.2
  rw [writtenBytes_getD hshort] at hown
  exact hown

/-! ## The argument -/

theorem HoldsText.untilNul_eq {cells : Nat → UInt8} {text : List UInt8} (h : HoldsText cells text)
    (htext : ∀ char ∈ text, char ≠ 0) {size : Nat} (hsize : text.length < size) :
    untilNul cells size 0 = text := by
  have hfirst : untilNul cells (text.length + 1) 0 = text := by
    have hsame : untilNul cells (text.length + 1) 0 =
        untilNul (fun k => text.getD k 0) (text.length + 1) 0 := by
      refine untilNul_congr fun k _ hk => ?_
      have hcell := h.cell k (by omega)
      rwa [Nat.zero_add] at hcell
    rw [hsame, untilNul_chars text htext, List.drop_zero, List.take_of_length_le (by omega)]
  have htake := untilNul_take cells size (text.length + 1) 0
  rw [Nat.min_eq_left (by omega), hfirst] at htake
  have hlength := congrArg List.length htake
  rw [List.length_take] at hlength
  rwa [List.take_of_length_le (by omega)] at htake

theorem stringIn_of_holdsText {cells : Nat → UInt8} {name : CString}
    (h : HoldsText cells name.chars) {size : Nat} (hsize : name.chars.length < size)
    (hshort : size ≤ 2 ^ 31) : stringIn size cells = some name := by
  have hchars := h.untilNul_eq name.noNul hsize
  rw [stringIn, dif_pos ⟨by rwa [hchars], hshort⟩]
  exact congrArg some (CString.ext hchars)

theorem holdsText_written {text : List UInt8} {source : Nat → UInt8} {n : UInt32}
    (h : HoldsText source text) (hfit : text.length < n.toNat) (hshort : n.toNat ≤ 2 ^ 31)
    (array : LocalArray) (first : Stores) :
    HoldsText (array.written (first ++ memcpy source array.addr n)).cells text := by
  refine h.congr fun k hk => ?_
  have hcell := LocalArray.cells_written_memcpy (array.written first) source
    (show 0 + n.toNat ≤ 2 ^ 31 by omega) (show k < 2 ^ 31 by omega)
  rw [LocalArray.addr_first, LocalArray.addr_written, if_pos (by omega), Nat.sub_zero] at hcell
  rw [LocalArray.written_append, hcell]

def argumentStores (buf : UInt32) (nbytes : Int32) (argument : Nat → UInt8) : Stores :=
  memset buf 0 nbytes.toUInt32 ++
    memcpy argument buf (if nbytes > argumentSize then argumentSize else nbytes).toUInt32

theorem argumentStores_inside {buf : LocalArray} {nbytes : Int32} {size : Nat}
    (h : buf.Fits size) (hnonneg : 0 ≤ nbytes) (hsize : nbytes.toUInt32.toNat ≤ size)
    (argument : Nat → UInt8) : storesInside (argumentStores buf.addr nbytes argument) = true := by
  have hcopied := toNat_copied hnonneg
  have hstart := buf.addr_first.symm
  have hclear : storesInside (memset buf.addr 0 nbytes.toUInt32) = true := by
    rw [hstart]
    exact h.copyInside (by omega) fun _ => 0
  rw [argumentStores, storesInside_append, hclear, hstart, Bool.true_and]
  exact h.copyInside (by omega) argument

theorem meets_getargs {text : List UInt8} {buf : LocalArray} (nbytes : Int32) {size : Nat}
    (h : Own task fs argument fds printed world) (htext : HoldsText argument text)
    (hchars : ∀ char ∈ text, char ≠ 0) (hshort : text.length ≤ 128) (hfits : buf.Fits size)
    (hnonneg : 0 ≤ nbytes) (hsize : nbytes.toUInt32.toNat ≤ size)
    (hroom : text.length < nbytes.toUInt32.toNat) :
    Meets (taskService task) (fun reply next => Own task fs argument fds printed next ∧
      reply.2.addr = buf.addr ∧ if text = [] then reply.1 = -1
        else reply.1 = 0 ∧ HoldsText reply.2.cells text) (ece391Getargs buf nbytes) world := by
  obtain ⟨value, stores, hanswer⟩ : ∃ (value : Int32) (stores : Stores), (value, stores) =
    if text = [] then (-1, []) else (0, argumentStores buf.addr nbytes argument) :=
      ⟨_, _, rfl⟩
  have hinside : storesInside stores = true := by
    split at hanswer
    · cases hanswer
      rfl
    · cases hanswer
      exact argumentStores_inside hfits hnonneg hsize argument
  have hrequest : Meets (taskService task) (fun reply next => reply = (value, stores) ∧
      Own task fs argument fds (printed ++ []) next)
      (Client.request (.getargs buf.addr nbytes)) world := by
    refine meets_request h ⟨_, .getargs buf.addr nbytes⟩ hinside
      fun kernel call _ hrunning _ hargument hfds hcall _ => ?_
    cases hcall
    have hheld : HoldsText (kernel.pcbOf kernel.running).argumentBuf text := by
      rw [hrunning, hargument]
      exact htext
    have hstores : argsStores buf.addr nbytes kernel =
        argumentStores buf.addr nbytes argument := by
      rw [argsStores, hrunning, hargument]
      rfl
    have hserved : ¬ nbytes.toUInt32.toNat < text.length := by omega
    rw [Call.perform, syscallGetargs_eq_of_holdsText hfits.addr_ne_zero hchars hshort hheld, hstores]
    split at hanswer
    · next hempty =>
        cases hanswer
        rw [if_pos (.inl hempty)]
        exact ⟨kernel, rfl, hfds, rfl⟩
    · next hsome =>
        cases hanswer
        rw [if_neg fun hrefused => hrefused.elim hsome hserved]
        exact ⟨_, rfl, hfds, rfl⟩
  refine meets_seq hrequest ?_
  rintro _ next ⟨rfl, hnext⟩
  rw [List.append_nil] at hnext
  refine ⟨hnext, rfl, ?_⟩
  split at hanswer
  · next hempty =>
      cases hanswer
      rw [if_pos hempty]
  · next hsome =>
      cases hanswer
      have hcopied := toNat_copied hnonneg
      have hlimit : argumentBufSize = 129 := rfl
      rw [if_neg hsome]
      exact ⟨rfl, holdsText_written htext (by omega) (by omega) buf _⟩

/-! ## Opening -/

/-- What `open` returns to a program with these descriptors, and what it makes of them. -/
inductive Opens (fs : FileSystem) (fds : UInt32 → FileDescriptor) (filename : CString) :
    Int32 → (UInt32 → FileDescriptor) → Prop where
  | empty (hname : filename.chars = []) : Opens fs fds filename (-1) fds
  | full (hfull : lowestFree (fun fd => (fds fd).flags == 0) = none) :
      Opens fs fds filename (-1) fds
  | missing {fd : UInt32} (hname : filename.chars ≠ [])
      (hfree : lowestFree (fun fd => (fds fd).flags == 0) = some fd)
      (hmissing : fs.lookup filename.chars = none) :
      Opens fs fds filename (-1)
        (Function.update fds fd ((fds fd).withTable (standardFops filename)))
  | found {fd : UInt32} {entry : Dentry} {table : FopsTable} (hname : filename.chars ≠ [])
      (hfree : lowestFree (fun fd => (fds fd).flags == 0) = some fd)
      (hfound : fs.lookup filename.chars = some entry) (htable : typeFops entry.type = some table) :
      Opens fs fds filename fd.toInt32 (Function.update fds fd (table.openFd entry (fds fd)))

theorem Opens.perform {filename : CString} {value : Int32} {fds' : UInt32 → FileDescriptor}
    {kernel : Kernel} (h : Opens fs fds filename value fds') (himage : kernel.fs = fs)
    (hfds : kernel.fdOf = fds) :
    ∃ after, syscallOpen (some filename) kernel = some (after, value) ∧ after.fdOf = fds' := by
  have hisFree : kernel.isFree = fun fd => (fds fd).flags == 0 := by
    rw [← hfds]
    rfl
  cases h with
  | empty hname => exact ⟨kernel, syscallOpen_empty hname, hfds⟩
  | full hfull => exact ⟨kernel, syscallOpen_full (hisFree ▸ hfull), hfds⟩
  | missing hname hfree hmissing =>
      refine ⟨_, syscallOpen_missing hname (hisFree ▸ hfree) (himage ▸ hmissing), ?_⟩
      rw [fdOf_modifyFd, hfds]
  | found hname hfree hfound htable =>
      have hopen := syscallOpen_found hname (hisFree ▸ hfree) (himage ▸ hfound)
      rw [tableBehind, htable] at hopen
      refine ⟨_, hopen, ?_⟩
      rw [fdOf_modifyFd, fdOf_openDevice, hfds]

theorem meets_open {filename : CString} {value : Int32} {fds' : UInt32 → FileDescriptor}
    (h : Own task fs argument fds printed world) (hopens : Opens fs fds filename value fds') :
    Meets (taskService task) (fun result next => result = value ∧
      Own task fs argument fds' printed next) (ece391Open filename) world := by
  have hrequest : Meets (taskService task) (fun reply next => reply = (value, []) ∧
      Own task fs argument fds' (printed ++ []) next)
      (Client.request (.openFile filename)) world := by
    refine meets_request h ⟨_, .openFile filename⟩ rfl
      fun kernel call _ _ himage _ hfds hcall _ => ?_
    cases hcall
    obtain ⟨after, hopen, hafter⟩ := hopens.perform himage hfds
    exact ⟨after, congrArg (Option.map _) hopen, hafter, rfl⟩
  refine meets_seq hrequest ?_
  rintro _ next ⟨rfl, hnext⟩
  rw [List.append_nil] at hnext
  exact ⟨rfl, hnext⟩

/-! ## Reading -/

/-- A read of an open file, directory or clock: its value, the position behind it, its stores. -/
inductive Reads (fs : FileSystem) (descriptor : FileDescriptor) (buf : UInt32) (nbytes : Int32) :
    Int32 → UInt32 → Stores → Prop where
  | clock (htable : descriptor.fopsTable = some .rtcFops) :
      Reads fs descriptor buf nbytes 0 descriptor.filePosition []
  | directory {value : Int32} {position : UInt32} {stores : Stores}
      (htable : descriptor.fopsTable = some .dirFops)
      (hread : dirRead fs descriptor.filePosition buf nbytes.toUInt32 =
        some (value, position, stores)) : Reads fs descriptor buf nbytes value position stores
  | file {value : Int32} {position : UInt32} {stores : Stores}
      (htable : descriptor.fopsTable = some .fileFops)
      (hread : fileRead fs descriptor.inode descriptor.filePosition buf nbytes.toUInt32 =
        (value, position, stores)) : Reads fs descriptor buf nbytes value position stores

theorem Reads.perform {fd buf interrupts position : UInt32} {nbytes value : Int32}
    {stores : Stores} {kernel : Kernel} (h : Reads fs (fds fd) buf nbytes value position stores)
    (hserving : Serving kernel) (himage : kernel.fs = fs) (hfds : kernel.fdOf = fds)
    (hfd : fd ≤ 7 ∧ fd ≠ 1) (hopen : (fds fd).flags ≠ 0)
    (hwaits : ¬ (Call.readFd interrupts fd buf nbytes).Waits kernel) :
    ∃ after, syscallRead interrupts fd buf nbytes kernel = some (after, value, stores) ∧
      after.fdOf = Function.update fds fd { fds fd with filePosition := position } := by
  have hinside : ¬ (fd > 7 ∨ fd = 1) := fun hout =>
    hout.elim (UInt32.not_lt.mpr hfd.1) hfd.2
  cases h with
  | clock htable =>
      have hcounted : ¬ interrupts < 1024 / kernel.virtFreq := fun hearly =>
        hwaits ⟨hfd, hfds ▸ hopen, .rtcFops, hfds ▸ htable, .clock hearly⟩
      refine ⟨{ kernel with rtcInterCount := interrupts }, ?_, ?_⟩
      · simp only [syscallRead, if_neg hinside, hfds, if_neg hopen, htable, rtcRead,
          if_neg hserving.rate.ne_zero, if_neg hcounted, Option.map_some]
      · exact hfds.trans (Function.update_eq_self fd fds).symm
  | directory htable hread =>
      refine ⟨(kernel.modifyFd fd fun descriptor =>
        { descriptor with filePosition := position }).storeUser stores, ?_, ?_⟩
      · simp only [syscallRead, if_neg hinside, himage, hfds, if_neg hopen, htable, hread,
          Option.map_some]
      · rw [fdOf_storeUser, fdOf_modifyFd, hfds]
  | file htable hread =>
      refine ⟨(kernel.modifyFd fd fun descriptor =>
        { descriptor with filePosition := position }).storeUser stores, ?_, ?_⟩
      · simp only [syscallRead, if_neg hinside, himage, hfds, if_neg hopen, htable, hread]
      · rw [fdOf_storeUser, fdOf_modifyFd, hfds]

theorem meets_read {fd : Int32} {buf : LocalArray} {start : Nat} {nbytes value : Int32}
    {position : UInt32} {stores : Stores} (h : Own task fs argument fds printed world)
    (hfd : fd.toUInt32 ≤ 7 ∧ fd.toUInt32 ≠ 1) (hopen : (fds fd.toUInt32).flags ≠ 0)
    (hreads : Reads fs (fds fd.toUInt32) (buf.addr + UInt32.ofNat start) nbytes value position
      stores) (hinside : storesInside stores = true) :
    Meets (taskService task) (fun reply next => reply = (value, buf.written stores) ∧
      Own task fs argument (Function.update fds fd.toUInt32
        { fds fd.toUInt32 with filePosition := position }) printed next)
      (ece391Read fd buf start nbytes) world := by
  have hrequest : Meets (taskService task) (fun reply next => reply = (value, stores) ∧
      Own task fs argument (Function.update fds fd.toUInt32
        { fds fd.toUInt32 with filePosition := position }) (printed ++ []) next)
      (Client.request (.readFd fd (buf.addr + UInt32.ofNat start) nbytes)) world := by
    refine meets_request h ⟨_, .readFd 0 fd _ nbytes⟩ hinside
      fun kernel call hserving _ himage _ hfds hcall hwaits => ?_
    cases hcall
    obtain ⟨after, hread, hafter⟩ := hreads.perform hserving himage hfds hfd hopen hwaits
    exact ⟨after, hread, hafter, rfl⟩
  refine meets_seq hrequest ?_
  rintro _ next ⟨rfl, hnext⟩
  rw [List.append_nil] at hnext
  exact ⟨rfl, hnext⟩

/-! ## Lines from the keyboard -/

theorem storesAt_eq_memcpy {bytes : List UInt8} (hshort : bytes.length < 2 ^ 32)
    (buf : UInt32) :
    storesAt buf bytes =
      memcpy (fun index => bytes.getD index 0) buf (UInt32.ofNat bytes.length) := by
  have hcount : (UInt32.ofNat bytes.length).toNat = bytes.length :=
    UInt32.toNat_ofNat_of_lt' hshort
  refine List.ext_getElem (by simp [memcpy, storesAt, hcount]) fun k hk hk' => ?_
  have hlt : k < bytes.length := by simpa [storesAt] using hk
  simp [memcpy, storesAt, List.getD, hlt]

structure ReadsLine (buf : LocalArray) (limit : Nat) (text : List UInt8)
    (reply : Int32 × LocalArray) : Prop where
  value : reply.1 = Int32.ofNat text.length
  addr : reply.2.addr = buf.addr
  fits : text.length ≤ limit
  noNul : ∀ char ∈ text, char ≠ 0
  cells : ∀ index < text.length, reply.2.cells index = text.getD index 0

theorem readsLine_written {buf : LocalArray} {text nul : List UInt8} {limit : Nat}
    (hfits : (text ++ nul).length ≤ limit) (hlimit : limit < 2 ^ 31)
    (hnoNul : ∀ char ∈ text, char ≠ 0) :
    ReadsLine buf limit text
      (Int32.ofNat text.length, buf.written (storesAt buf.addr (text ++ nul))) where
  value := rfl
  addr := rfl
  fits := by
    rw [List.length_append] at hfits
    omega
  noNul := hnoNul
  cells index hindex := by
    have hall : text.length ≤ (text ++ nul).length := by simp
    have hcount : (UInt32.ofNat (text ++ nul).length).toNat = (text ++ nul).length :=
      UInt32.toNat_ofNat_of_lt' (by rw [UInt32.size]; omega)
    have hcell := buf.cells_written_memcpy (fun index => (text ++ nul).getD index 0)
      (show 0 + (UInt32.ofNat (text ++ nul).length).toNat ≤ 2 ^ 31 by omega)
      (show index < 2 ^ 31 by omega)
    rw [buf.addr_first, if_pos (by omega), Nat.sub_zero] at hcell
    rw [storesAt_eq_memcpy (by omega), hcell]
    simp only [List.getD, List.getElem?_append_left hindex]

theorem exists_terminalRead {kernel : Kernel} {buf nbytes : UInt32}
    (hline : kernel.displayed.allowTerminalRead ≠ 0) :
    ∃ text nul after, terminalRead buf nbytes kernel =
        some (after, Int32.ofNat text.length, storesAt buf (text ++ nul)) ∧
      (text ++ nul).length ≤ nbytes.toNat ∧ (∀ char ∈ text, char ≠ 0) ∧
      after.fdOf = kernel.fdOf := by
  obtain ⟨text, htext⟩ : ∃ text, text =
    untilNul (fun k => kernel.displayed.keyboardBuffer k) nbytes.toNat 0 := ⟨_, rfl⟩
  have hshort : text.length ≤ nbytes.toNat := htext ▸ length_untilNul_le _ _ _
  refine ⟨text, _, _, terminalRead_eq hline htext, ?_, ?_, rfl⟩
  · rw [List.length_append]
    split
    · simp only [List.length_singleton]
      omega
    · simpa using hshort
  · exact fun char hchar => ne_zero_of_mem_untilNul (htext ▸ hchar)

theorem exists_read_stdin {kernel : Kernel} {buf : LocalArray} {interrupts : UInt32}
    {nbytes : Int32} {size : Nat} (hstdin : IsStdin (kernel.fdOf 0)) (hfits : buf.Fits size)
    (hsize : nbytes.toUInt32.toNat ≤ size)
    (hwaits : ¬ (Call.readFd interrupts 0 (buf.addr + UInt32.ofNat 0) nbytes).Waits kernel) :
    ∃ after value stores,
      Call.perform (.readFd interrupts 0 (buf.addr + UInt32.ofNat 0) nbytes) kernel =
        some (after, value, stores) ∧ storesInside stores = true ∧
      (∃ text, ReadsLine buf nbytes.toUInt32.toNat text (value, buf.written stores) ∧
        Call.delivered kernel value stores
          (.readFd interrupts 0 (buf.addr + UInt32.ofNat 0) nbytes) = [text]) ∧
      after.fdOf = kernel.fdOf ∧
      Call.printed kernel (.readFd interrupts 0 (buf.addr + UInt32.ofNat 0) nbytes) = [] := by
  have hroom := hfits.size_le
  have hrange : (0 : UInt32) ≤ 7 ∧ (0 : UInt32) ≠ 1 := by decide
  have hout : ¬ ((0 : UInt32) > 7 ∨ (0 : UInt32) = 1) := by decide
  obtain ⟨text, nul, after, hread, hlength, hnoNul, hfds⟩ :=
    @exists_terminalRead kernel (buf.addr + UInt32.ofNat 0) nbytes.toUInt32 fun hnone =>
      hwaits ⟨hrange, hstdin.2, .stdinFops, hstdin.1, .line hnone⟩
  have hcount : (UInt32.ofNat (text ++ nul).length).toNat = (text ++ nul).length :=
    UInt32.toNat_ofNat_of_lt' (by rw [UInt32.size]; omega)
  refine ⟨after.storeUser (storesAt (buf.addr + UInt32.ofNat 0) (text ++ nul)),
    Int32.ofNat text.length, storesAt (buf.addr + UInt32.ofNat 0) (text ++ nul), ?_, ?_,
    ⟨text, ?_, ?_⟩, hfds, rfl⟩
  · simp only [Call.perform, syscallRead, if_neg hout, if_neg hstdin.2, hstdin.1, hread,
      Option.map_some]
  · rw [storesAt_eq_memcpy (by omega)]
    exact hfits.copyInside (by omega) _
  · rw [buf.addr_first]
    exact readsLine_written hlength (by omega) hnoNul
  · rw [List.length_append] at hlength
    rw [Call.delivered, if_pos ⟨hrange, hstdin.2, hstdin.1⟩, returnedBytes_storesAt (by omega)]

theorem meets_readLine {buf : LocalArray} {nbytes : Int32} {size : Nat}
    (h : Own task fs argument fds printed world) (hstdin : IsStdin (fds 0)) (hfits : buf.Fits size)
    (hsize : nbytes.toUInt32.toNat ≤ size) :
    Meets (taskService task) (fun reply next => ∃ text,
      ReadsLine buf nbytes.toUInt32.toNat text reply ∧ next.delivered = world.delivered ++ [text] ∧
        Own task fs argument fds printed next) (ece391Read 0 buf 0 nbytes) world := by
  have hroom := hfits.size_le
  have hrequest : Meets (taskService task) (fun reply next => ∃ lines,
      (∃ text, ReadsLine buf nbytes.toUInt32.toNat text (reply.1, buf.written reply.2) ∧
        lines = [text]) ∧ next.delivered = world.delivered ++ lines ∧
        Own task fs argument fds (printed ++ []) next)
      (Client.request (.readFd 0 (buf.addr + UInt32.ofNat 0) nbytes)) world := by
    refine meets_call h ⟨_, .readFd 0 0 _ nbytes⟩ fun kernel call _ _ _ _ hfds hcall hwaits => ?_
    cases hcall with
    | readFd interrupts =>
        rw [← hfds] at hstdin ⊢
        exact exists_read_stdin hstdin hfits hsize hwaits
  refine meets_seq hrequest ?_
  rintro ⟨value, stores⟩ next ⟨lines, ⟨text, hline, rfl⟩, hdelivered, hnext⟩
  rw [List.append_nil] at hnext
  exact ⟨text, hline, hdelivered, hnext⟩

/-! ## Starting programs -/

/-- What `execute` of a command may return, with this image. -/
inductive Executes (fs : FileSystem) (command : CString) : Int32 → Prop where
  | blank (hblank : wordOf command.chars = []) : Executes fs command 0
  | refused (hword : wordOf command.chars ≠ []) : Executes fs command (-1)
  | ended {value : UInt32} (hword : wordOf command.chars ≠ [])
      (hprogram : ∀ entry, fs.lookup (wordOf command.chars) = some entry → Executable fs entry)
      (hvalue : value ≤ 256) : Executes fs command value.toInt32

theorem executes_of_returned {frame : ExecuteFrame} {command : CString} {kernel after : Kernel}
    {value : Int32}
    (hexecute : syscallExecute frame command kernel = (after, .returned value)) :
    Executes fs command value := by
  cases executed hexecute with
  | refused error hcheck hafter hexit =>
      cases hexit
      rcases value_of_executeCheck hcheck with ⟨hblank, rfl⟩ | ⟨hword, rfl⟩
      · exact .blank hblank
      · exact .refused hword
  | full fileCheck hcheck hall hscreen hexit =>
      cases hexit
      exact .refused (word_of_executeCheck hcheck).1
  | started fileCheck slot hcheck hslot hafter hexit => cases hexit

theorem executes_of_resumed {frame : ExecuteFrame} {command : CString}
    {kernel started last after : Kernel} {event : Event} {eip value esp ebp : UInt32}
    (himage : kernel.fs = fs)
    (hexecute : syscallExecute frame command kernel = (started, .entered eip))
    (hchains : Chains last) (hperform : perform event last = some (after, .resumed value esp ebp)) :
    Executes fs command value.toInt32 := by
  cases executed hexecute with
  | refused error hcheck hafter hexit => cases hexit
  | full fileCheck hcheck hall hscreen hexit => cases hexit
  | started fileCheck slot hcheck hslot hafter hexit =>
      obtain ⟨hword, -, hexecutable⟩ := word_of_executeCheck hcheck
      rw [himage] at hexecutable
      refine .ended hword (fun entry hentry => ?_) (resumed_value_le hchains hperform)
      rwa [hentry, Option.getD_some] at hexecutable

theorem Own.executed {command : CString} {reply : Int32 × Stores} {after : World}
    (h : Own task fs argument fds printed world)
    (hanswer : Answered task world after (.execute command) reply) :
    Executes fs command reply.1 ∧ Own task fs argument fds printed after := by
  cases hanswer with
  | called hcall => cases hcall
  | refused frame hexecute hafter =>
      have hspared := spared_of_execute h.serving h.occupied hexecute
      rw [hafter]
      exact ⟨executes_of_returned hexecute, h.spared hspared rfl⟩
  | ended frame hexecute hrun hothers hother hperform hback hafter =>
      have hstarted := spared_of_execute h.serving h.occupied hexecute
      have hlast := spared_of_run hstarted.serving hstarted.occupied hrun
        fun taken htaken => (hothers taken htaken).1
      have hended := spared_of_effect hlast.serving hlast.occupied
        (hlast.serving.toSecure.perform_effect hperform) hother
      have hchains := hlast.serving.tree.chains hlast.serving.active
      rw [hafter]
      exact ⟨executes_of_resumed h.image hexecute hchains hperform,
        h.spared (hstarted.trans (hlast.trans hended)) rfl⟩

theorem meets_execute {command : CString} (h : Own task fs argument fds printed world) :
    Meets (taskService task) (fun value next => Executes fs command value ∧
      Own task fs argument fds printed next) (ece391Execute command) world := by
  intro ready hinterrupted
  have hready := h.interrupted hinterrupted
  constructor
  · obtain ⟨kernel, exit, hexecute⟩ : ∃ kernel exit,
      syscallExecute default command ready.console.kernel = (kernel, exit) := ⟨_, _, rfl⟩
    rcases syscallExecute_cases hexecute with ⟨⟨value, rfl⟩, -⟩ | ⟨_, _, eip, -, rfl, -⟩
    · exact .inr ⟨_, _, .refused default hexecute rfl⟩
    · exact .inl (.execute default hexecute)
  · exact fun after reply hanswer => hready.executed hanswer

end Calls

end LinuxOS
