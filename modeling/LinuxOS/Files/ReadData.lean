import LinuxOS.Kernel.Boot
import LinuxOS.Kernel.Copies

/-!
# What `read_data` returns and stores

The blocks to visit come from the requested length, the length is cut down to
the file afterwards.  So a request that ends in a later block than the file
copies the rest of the file's last block, and blocks behind it.
-/

namespace LinuxOS

/-! ## The file -/

namespace FileSystem

def fileByte (fs : FileSystem) (inode : UInt32) (position : Nat) : UInt8 :=
  fs.bytesFrom (fs.dataAddr (fs.dataBlock inode (UInt32.ofNat (position / 4096))))
    (position % 4096)

def fileFrom (fs : FileSystem) (inode offset : UInt32) (index : Nat) : UInt8 :=
  fs.fileByte inode (offset.toNat + index)

end FileSystem

theorem memcpy_block (fs : FileSystem) (inode i start len dest : UInt32)
    (hfit : start.toNat + len.toNat ≤ 4096) :
    memcpy (fs.bytesFrom (fs.dataAddr (fs.dataBlock inode i) + start)) dest len =
      memcpy (fun index => fs.fileByte inode (i.toNat * 4096 + start.toNat + index)) dest len := by
  refine memcpy_congr (fun index hindex => ?_) dest
  have hblock : (i.toNat * 4096 + start.toNat + index) / 4096 = i.toNat := by omega
  have hrest : (i.toNat * 4096 + start.toNat + index) % 4096 = start.toNat + index := by omega
  rw [FileSystem.fileByte, hblock, hrest, FileSystem.bytesFrom, FileSystem.bytesFrom,
    UInt32.ofNat_add, UInt32.ofNat_toNat, UInt32.ofNat_toNat, UInt32.add_assoc]

theorem copy_block {fs : FileSystem} {inode i offset buf copied start len : UInt32}
    (hposition : offset.toNat + copied.toNat = i.toNat * 4096 + start.toNat)
    (hblock : start.toNat + len.toNat ≤ 4096) (hfit : copied.toNat + len.toNat < 2 ^ 32) :
    memcpy (fs.fileFrom inode offset) buf copied ++
        memcpy (fs.bytesFrom (fs.dataAddr (fs.dataBlock inode i) + start)) (buf + copied) len =
      memcpy (fs.fileFrom inode offset) buf (copied + len) := by
  have hpart : memcpy (fun index => fs.fileByte inode (i.toNat * 4096 + start.toNat + index))
      (buf + copied) len =
        memcpy (fun index => fs.fileFrom inode offset (copied.toNat + index)) (buf + copied)
          len := by
    refine memcpy_congr (fun index _ => ?_) _
    rw [FileSystem.fileFrom, ← hposition, Nat.add_assoc]
  rw [memcpy_add _ _ _ _ hfit, memcpy_block fs inode i start len _ hblock, hpart]

/-! ## The block loop -/

/-- Where the loop stops: in front of a last block that begins behind the file. -/
def stopPosition (fileLength lastBlock endOffset : Nat) : Nat :=
  if fileLength < lastBlock * 4096 then lastBlock * 4096 else lastBlock * 4096 + endOffset

/-- The loop is at block `i`: what is copied reaches from `offset` to its start, or is nothing. -/
def AtBlock (offset i copied : UInt32) : Prop :=
  (i = offset / 4096 ∧ copied = 0) ∨
    (offset / 4096 < i ∧ offset.toNat + copied.toNat = i.toNat * 4096)

theorem AtBlock.exists_start {offset i copied : UInt32} (h : AtBlock offset i copied) :
    ∃ start : UInt32, (if i = offset / 4096 then offset % 4096 else 0) = start ∧
      start.toNat < 4096 ∧ offset.toNat + copied.toNat = i.toNat * 4096 + start.toNat := by
  refine ⟨_, rfl, ?_⟩
  rcases h with ⟨rfl, rfl⟩ | ⟨hlt, hsum⟩
  · rw [if_pos rfl]
    simp only [UInt32.toNat_mod, UInt32.toNat_div, UInt32.reduceToNat]
    omega
  · rw [if_neg (by grind)]
    simpa using hsum

theorem toNat_blockRest {start : UInt32} (h : start.toNat < 4096) :
    (4096 - start).toNat = 4096 - start.toNat := by
  rw [UInt32.toNat_sub_of_le _ _ (by rw [UInt32.le_iff_toNat_le]; simp; omega)]
  rfl

theorem AtBlock.next {offset i copied start : UInt32} (h : AtBlock offset i copied)
    (hblocks : i.toNat + 1 < 2 ^ 20) (hstart : start.toNat < 4096)
    (hcopied : offset.toNat + copied.toNat = i.toNat * 4096 + start.toNat) :
    AtBlock offset (i + 1) (copied + (4096 - start)) := by
  have hlen := toNat_blockRest hstart
  have hsum : (copied + (4096 - start)).toNat = copied.toNat + (4096 - start.toNat) := by
    rw [UInt32.toNat_add, hlen]
    omega
  have hnext : (i + 1).toNat = i.toNat + 1 := by
    simp only [UInt32.toNat_add, UInt32.reduceToNat]
    omega
  have hfirst : (offset / 4096).toNat ≤ i.toNat := by
    rcases h with ⟨rfl, -⟩ | ⟨hfirst, -⟩
    · exact Nat.le_refl _
    · exact (UInt32.lt_iff_toNat_lt.mp hfirst).le
  refine .inr ⟨?_, ?_⟩
  · rw [UInt32.lt_iff_toNat_lt, hnext]
    omega
  · rw [hsum, hnext]
    omega

theorem lastBlock_gt_iff {lastBlock fileLength : UInt32} (hlast : lastBlock.toNat < 2 ^ 20) :
    lastBlock * 4096 > fileLength ↔ fileLength.toNat < lastBlock.toNat * 4096 := by
  have hmul : (lastBlock * 4096).toNat = lastBlock.toNat * 4096 := by
    simp only [UInt32.toNat_mul, UInt32.reduceToNat]
    omega
  rw [gt_iff_lt, UInt32.lt_iff_toNat_lt, hmul]

theorem exists_lastLength {endOffset start : UInt32}
    (hle : start.toNat ≤ endOffset.toNat % 4096) :
    ∃ len : UInt32, endOffset % 4096 - start = len ∧
      len.toNat + start.toNat = endOffset.toNat % 4096 := by
  refine ⟨_, rfl, ?_⟩
  have hend : (endOffset % 4096).toNat = endOffset.toNat % 4096 := by
    simp only [UInt32.toNat_mod, UInt32.reduceToNat]
  rw [UInt32.toNat_sub_of_le _ _ (by rw [UInt32.le_iff_toNat_le]; omega), hend]
  omega

theorem readDataLoop_last {fs : FileSystem} {inode offset length i copied : UInt32} {stop : Nat}
    (buf : UInt32) (hlast : i.toNat < 2 ^ 20)
    (hstop : stop = stopPosition (fs.inodeLength inode).toNat i.toNat
      ((offset + length).toNat % 4096))
    (hposition : AtBlock offset i copied) (hbehind : offset.toNat + copied.toNat ≤ stop) :
    readDataLoop fs inode offset buf length (offset / 4096) i 1 i copied
        (memcpy (fs.fileFrom inode offset) buf copied) =
      (UInt32.ofNat (stop - offset.toNat),
        memcpy (fs.fileFrom inode offset) buf (UInt32.ofNat (stop - offset.toNat))) := by
  obtain ⟨start, hstart, hstartLt, hcopied⟩ := hposition.exists_start
  unfold readDataLoop
  simp only [hstart, lastBlock_gt_iff hlast, true_and, if_true]
  by_cases hbreak : (fs.inodeLength inode).toNat < i.toNat * 4096
  · rw [stopPosition, if_pos hbreak] at hstop
    rw [if_pos hbreak]
    have hall : UInt32.ofNat (stop - offset.toNat) = copied := by
      rw [show stop - offset.toNat = copied.toNat by omega, UInt32.ofNat_toNat]
    rw [hall]
  · rw [stopPosition, if_neg hbreak] at hstop
    obtain ⟨len, hlen, hlenNat⟩ : ∃ len : UInt32, (offset + length) % 4096 - start = len ∧
        len.toNat + start.toNat = (offset + length).toNat % 4096 :=
      exists_lastLength (by omega)
    have hrange := offset.toNat_lt
    have hall : UInt32.ofNat (stop - offset.toNat) = copied + len := by
      rw [show stop - offset.toNat = copied.toNat + len.toNat by omega, UInt32.ofNat_add,
        UInt32.ofNat_toNat, UInt32.ofNat_toNat]
    rw [if_neg hbreak, hlen, readDataLoop, copy_block hcopied (by omega) (by omega), hall]

theorem readDataLoop_eq {fs : FileSystem} {inode offset length lastBlock : UInt32}
    {stop : Nat} (buf : UInt32) (hlast : lastBlock.toNat < 2 ^ 20)
    (hstop : stop = stopPosition (fs.inodeLength inode).toNat lastBlock.toNat
      ((offset + length).toNat % 4096))
    (count : Nat) (i copied : UInt32) (hcount : i.toNat + count = lastBlock.toNat + 1)
    (hmore : 0 < count) (hposition : AtBlock offset i copied)
    (hbehind : offset.toNat + copied.toNat ≤ stop) :
    readDataLoop fs inode offset buf length (offset / 4096) lastBlock count i copied
        (memcpy (fs.fileFrom inode offset) buf copied) =
      (UInt32.ofNat (stop - offset.toNat),
        memcpy (fs.fileFrom inode offset) buf (UInt32.ofNat (stop - offset.toNat))) := by
  -- `AtBlock` is what a round keeps; only the last block decides where the loop stops
  induction count generalizing i copied with
  | zero => omega
  | succ count ih =>
      by_cases hend : i = lastBlock
      · subst hend
        obtain rfl : count = 0 := by omega
        exact readDataLoop_last buf hlast hstop hposition hbehind
      · -- an earlier block is copied to its end
        obtain ⟨start, hstart, hstartLt, hcopied⟩ := hposition.exists_start
        unfold readDataLoop
        simp only [hstart]
        have hlt : i.toNat < lastBlock.toNat := by
          have hne : i.toNat ≠ lastBlock.toNat := fun h => hend (UInt32.toNat_inj.mp h)
          omega
        have hnext := hposition.next (by omega) hstartLt hcopied
        have hinext : (i + 1).toNat = i.toNat + 1 := by
          simp only [UInt32.toNat_add, UInt32.reduceToNat]
          omega
        have hreach : (i.toNat + 1) * 4096 ≤ stop := by
          rw [hstop, stopPosition]
          split <;> omega
        have hlen := toNat_blockRest hstartLt
        have hwithin : offset.toNat + (copied + (4096 - start)).toNat ≤ stop := by
          rw [UInt32.toNat_add, hlen]
          omega
        rw [if_neg fun h => hend h.1, if_neg hend,
          copy_block hcopied (by omega) (by omega)]
        exact ih (i + 1) (copied + (4096 - start)) (by omega) (by omega) hnext hwithin

/-! ## `read_data` -/

/-- The position at which `read_data` ends when `offset + length` does not wrap around. -/
def readEnd (fileLength offset length : Nat) : Nat :=
  if fileLength < (offset + length) / 4096 * 4096 then (offset + length) / 4096 * 4096
  else min fileLength (offset + length)

theorem clamped_end {fileLength offset length : UInt32} (hoffset : offset < fileLength)
    (hfit : offset.toNat + length.toNat < 2 ^ 32) :
    (offset + if offset + length > fileLength then fileLength - offset else length).toNat =
      min fileLength.toNat (offset.toNat + length.toNat) := by
  have hsum : (offset + length).toNat = offset.toNat + length.toNat := by
    rw [UInt32.toNat_add, Nat.mod_eq_of_lt hfit]
  have hlt := UInt32.lt_iff_toNat_lt.mp hoffset
  split
  · next hover =>
      have hoverNat := UInt32.lt_iff_toNat_lt.mp hover
      have hrange := fileLength.toNat_lt
      rw [UInt32.toNat_add, UInt32.toNat_sub_of_le _ _ (UInt32.le_of_lt hoffset)]
      omega
  · next hwithin =>
      have hwithinNat : ¬ fileLength.toNat < (offset + length).toNat := fun h =>
        hwithin (UInt32.lt_iff_toNat_lt.mpr h)
      omega

theorem readData_of_lt {fs : FileSystem} {inode offset buf length : UInt32} (hbuf : buf ≠ 0)
    (hinode : inode < fs.inodeCount) (hoffset : offset < fs.inodeLength inode)
    (hfit : offset.toNat + length.toNat < 2 ^ 32) {copied : UInt32}
    (hcopied : copied = UInt32.ofNat
      (readEnd (fs.inodeLength inode).toNat offset.toNat length.toNat - offset.toNat)) :
    readData fs inode offset buf length =
      (copied.toInt32, memcpy (fs.fileFrom inode offset) buf copied) := by
  have hsum : (offset + length).toNat = offset.toNat + length.toNat := by
    rw [UInt32.toNat_add, Nat.mod_eq_of_lt hfit]
  have hlt := UInt32.lt_iff_toNat_lt.mp hoffset
  have hlast : ((offset + length) / 4096).toNat = (offset.toNat + length.toNat) / 4096 := by
    simp only [UInt32.toNat_div, hsum, UInt32.reduceToNat]
  have hfirst : (offset / 4096).toNat = offset.toNat / 4096 := by
    simp only [UInt32.toNat_div, UInt32.reduceToNat]
  have hend := clamped_end hoffset hfit
  -- the position at which the loop stops
  have hstop : readEnd (fs.inodeLength inode).toNat offset.toNat length.toNat =
      stopPosition (fs.inodeLength inode).toNat ((offset + length) / 4096).toNat
        ((offset + if offset + length > fs.inodeLength inode then fs.inodeLength inode - offset
          else length).toNat % 4096) := by
    rw [readEnd, stopPosition, hlast, hend]
    split
    · rfl
    · omega
  have hloop := readDataLoop_eq buf (by omega) hstop
    (((offset + length) / 4096).toNat + 1 - (offset / 4096).toNat) (offset / 4096) 0
    (by omega) (by omega) (.inl ⟨rfl, rfl⟩) (by
      simp only [UInt32.toNat_zero, Nat.add_zero, readEnd]
      split <;> omega)
  rw [← hcopied] at hloop
  have hnone : memcpy (fs.fileFrom inode offset) buf 0 = [] := rfl
  rw [hnone] at hloop
  simp only [readData, if_neg hbuf, if_neg (UInt32.not_le.mpr hinode),
    if_neg (UInt32.not_le.mpr hoffset), ge_iff_le, hloop]

theorem readData_of_wrap {fs : FileSystem} {inode offset buf length : UInt32} (hbuf : buf ≠ 0)
    (hinode : inode < fs.inodeCount) (hoffset : offset < fs.inodeLength inode)
    (hwrap : 2 ^ 32 ≤ offset.toNat + length.toNat) :
    ∃ source n, readData fs inode offset buf length = (n.toInt32, memcpy source buf n) ∧
      n = if (offset + length) / 4096 < offset / 4096 then 0 else length := by
  have hlt := UInt32.lt_iff_toNat_lt.mp hoffset
  have hrange := length.toNat_lt
  have hlimit := offset.toNat_lt
  have hsum : (offset + length).toNat = offset.toNat + length.toNat - 2 ^ 32 := by
    rw [UInt32.toNat_add]
    omega
  have hwithin : ¬ offset + length > fs.inodeLength inode := by
    rw [gt_iff_lt, UInt32.lt_iff_toNat_lt, hsum]
    omega
  have hlast : ((offset + length) / 4096).toNat = (offset + length).toNat / 4096 := by
    simp only [UInt32.toNat_div, UInt32.reduceToNat]
  have hfirst : (offset / 4096).toNat = offset.toNat / 4096 := by
    simp only [UInt32.toNat_div, UInt32.reduceToNat]
  simp only [readData, if_neg hbuf, ge_iff_le, if_neg (UInt32.not_le.mpr hinode),
    if_neg (UInt32.not_le.mpr hoffset), if_neg hwithin]
  -- the end lies in an earlier block than the start, or in front of it in the same block
  by_cases hbefore : (offset + length) / 4096 < offset / 4096
  · have hnone : ((offset + length) / 4096).toNat + 1 - (offset / 4096).toNat = 0 := by
      rw [UInt32.lt_iff_toNat_lt] at hbefore
      omega
    rw [hnone, if_pos hbefore]
    exact ⟨fun _ => 0, 0, rfl, rfl⟩
  · have hsame : (offset + length) / 4096 = offset / 4096 := by
      rw [UInt32.lt_iff_toNat_lt] at hbefore
      exact UInt32.toNat_inj.mp (by omega)
    have hover : ¬ offset / 4096 * 4096 > fs.inodeLength inode := by
      rw [gt_iff_lt, UInt32.lt_iff_toNat_lt, UInt32.toNat_mul, hfirst]
      simp only [UInt32.reduceToNat]
      omega
    have hone : (offset / 4096).toNat + 1 - (offset / 4096).toNat = 1 := by omega
    have hquot := congrArg UInt32.toNat hsame
    rw [hlast, hfirst, hsum] at hquot
    have hback : (offset + length) % 4096 - offset % 4096 = length := by
      refine UInt32.toNat_inj.mp ?_
      simp only [UInt32.toNat_sub, UInt32.toNat_mod, UInt32.reduceToNat, hsum]
      omega
    -- a single round, whose count is the distance modulo 2 ^ 32
    rw [if_neg hbefore, hsame, hone]
    simp only [readDataLoop, hover, and_false, if_false, if_true, UInt32.zero_add, UInt32.add_zero,
      List.nil_append, hback]
    exact ⟨_, length, rfl, rfl⟩

theorem readData_nonpos_of_wrap {fs : FileSystem} {inode offset buf length : UInt32}
    (hbuf : buf ≠ 0) (hinode : inode < fs.inodeCount) (hoffset : offset < fs.inodeLength inode)
    (hfile : (fs.inodeLength inode).toNat < 2 ^ 31)
    (hwrap : 2 ^ 32 ≤ offset.toNat + length.toNat) :
    (readData fs inode offset buf length).1.toInt ≤ 0 := by
  have hlt := UInt32.lt_iff_toNat_lt.mp hoffset
  have hrange := length.toNat_lt
  obtain ⟨source, n, hread, hn⟩ := readData_of_wrap hbuf hinode hoffset hwrap
  rw [hread, toInt_toInt32, hn]
  split
  · exact Int.le_refl 0
  · rw [if_neg (by omega)]
    omega

/-! ## Exactness -/

def readCount (fileLength offset length : Nat) : Nat := min length (fileLength - offset)

/--
What a caller of `read_data` relies on: -1 exactly for an invalid inode, and
else the bytes of the file that the request covers, their number, and no store
behind them.
-/
structure ReadsExactly (fs : FileSystem) (inode offset buf length : UInt32) : Prop where
  failure : (readData fs inode offset buf length).1 = -1 ↔ inode ≥ fs.inodeCount
  count : inode < fs.inodeCount → (readData fs inode offset buf length).1.toInt =
    readCount (fs.inodeLength inode).toNat offset.toNat length.toNat
  bytes : inode < fs.inodeCount → ∀ memory addr,
    Stores.apply (readData fs inode offset buf length).2 memory addr =
      if (addr - buf).toNat < readCount (fs.inodeLength inode).toNat offset.toNat length.toNat then
        fs.fileFrom inode offset (addr - buf).toNat
      else memory addr

def EndsInFile (fs : FileSystem) (inode offset length : UInt32) : Prop :=
  offset.toNat + length.toNat < 2 ^ 32 ∧
    (offset.toNat + length.toNat) / 4096 ≤ (fs.inodeLength inode).toNat / 4096

theorem readData_of_invalid {fs : FileSystem} {inode offset buf length : UInt32}
    (hinode : inode ≥ fs.inodeCount) : readData fs inode offset buf length = (-1, []) := by
  simp only [readData, if_pos hinode, ite_self]

theorem readsExactly_of_invalid {fs : FileSystem} {inode offset buf length : UInt32}
    (hinode : inode ≥ fs.inodeCount) : ReadsExactly fs inode offset buf length where
  failure := by
    simp only [readData_of_invalid hinode, hinode]
  count h := absurd hinode (UInt32.not_le.mpr h)
  bytes h := absurd hinode (UInt32.not_le.mpr h)

theorem readData_of_behind {fs : FileSystem} {inode offset buf length : UInt32} (hbuf : buf ≠ 0)
    (hinode : inode < fs.inodeCount) (hoffset : offset ≥ fs.inodeLength inode) :
    readData fs inode offset buf length = (0, []) := by
  simp only [readData, if_neg hbuf, ge_iff_le, if_neg (UInt32.not_le.mpr hinode), if_pos hoffset]

theorem readsExactly_of_behind {fs : FileSystem} {inode offset buf length : UInt32}
    (hbuf : buf ≠ 0) (hinode : inode < fs.inodeCount) (hoffset : offset ≥ fs.inodeLength inode) :
    ReadsExactly fs inode offset buf length := by
  have hnone : readCount (fs.inodeLength inode).toNat offset.toNat length.toNat = 0 := by
    rw [readCount, Nat.sub_eq_zero_of_le (UInt32.le_iff_toNat_le.mp hoffset), Nat.min_zero]
  have hread : readData fs inode offset buf length = (0, []) :=
    readData_of_behind hbuf hinode hoffset
  refine ⟨?_, fun _ => ?_, fun _ memory addr => ?_⟩
  · simp only [hread, ge_iff_le, UInt32.not_le.mpr hinode, iff_false]
    decide
  · rw [hread, hnone]
    rfl
  · rw [hread, hnone, if_neg (Nat.not_lt_zero _)]
    rfl

theorem EndsInFile.readEnd_eq {fs : FileSystem} {inode offset length : UInt32}
    (h : EndsInFile fs inode offset length) :
    readEnd (fs.inodeLength inode).toNat offset.toNat length.toNat =
      min (fs.inodeLength inode).toNat (offset.toNat + length.toNat) := by
  have hblock := h.2
  rw [readEnd, if_neg (by omega)]

theorem readData_of_endsInFile {fs : FileSystem} {inode offset buf length : UInt32}
    (hbuf : buf ≠ 0) (hinode : inode < fs.inodeCount) (hoffset : offset < fs.inodeLength inode)
    (hends : EndsInFile fs inode offset length) {copied : UInt32}
    (hcopied : copied = UInt32.ofNat
      (readCount (fs.inodeLength inode).toNat offset.toNat length.toNat)) :
    readData fs inode offset buf length =
      (copied.toInt32, memcpy (fs.fileFrom inode offset) buf copied) := by
  have hlt := UInt32.lt_iff_toNat_lt.mp hoffset
  refine readData_of_lt hbuf hinode hoffset hends.1 ?_
  rw [hcopied, hends.readEnd_eq, readCount]
  exact congrArg UInt32.ofNat (by omega)

theorem readsExactly_of_endsInFile {fs : FileSystem} {inode offset buf length : UInt32}
    (hfile : (fs.inodeLength inode).toNat ≤ 1023 * 4096) (hbuf : buf ≠ 0)
    (hinode : inode < fs.inodeCount) (hoffset : offset < fs.inodeLength inode)
    (hends : EndsInFile fs inode offset length) : ReadsExactly fs inode offset buf length := by
  obtain ⟨copied, hcopied⟩ : ∃ copied, copied = UInt32.ofNat
      (readCount (fs.inodeLength inode).toNat offset.toNat length.toNat) := ⟨_, rfl⟩
  have hread := readData_of_endsInFile hbuf hinode hoffset hends hcopied
  have hcount : copied.toNat =
      readCount (fs.inodeLength inode).toNat offset.toNat length.toNat := by
    rw [hcopied, UInt32.toNat_ofNat_of_lt']
    rw [readCount, UInt32.size]
    omega
  have hsmall : copied.toNat < 2 ^ 31 := by
    rw [hcount, readCount]
    omega
  have hvalue : copied.toInt32.toInt = copied.toNat := by
    rw [toInt_toInt32, if_pos hsmall]
  refine ⟨?_, fun _ => ?_, fun _ memory addr => ?_⟩
  · simp only [hread, ge_iff_le, UInt32.not_le.mpr hinode, iff_false]
    intro hminus
    rw [hminus] at hvalue
    have hone : (-1 : Int32).toInt = -1 := rfl
    omega
  · rw [hread, hvalue, hcount]
  · rw [hread, apply_memcpy, ← hcount]
    exact if_congr UInt32.lt_iff_toNat_lt rfl rfl

theorem not_readsExactly {fs : FileSystem} {inode offset buf length : UInt32}
    (hfile : (fs.inodeLength inode).toNat ≤ 1023 * 4096) (hbuf : buf ≠ 0)
    (hinode : inode < fs.inodeCount) (hoffset : offset < fs.inodeLength inode)
    (hends : ¬ EndsInFile fs inode offset length) : ¬ ReadsExactly fs inode offset buf length := by
  intro hexact
  have hcount := hexact.count hinode
  have hlt := UInt32.lt_iff_toNat_lt.mp hoffset
  have hrange := length.toNat_lt
  rw [readCount] at hcount
  by_cases hfit : offset.toNat + length.toNat < 2 ^ 32
  · -- the copy ends at the start of a block behind the file
    have hblock : ¬ (offset.toNat + length.toNat) / 4096 ≤
        (fs.inodeLength inode).toNat / 4096 := fun h => hends ⟨hfit, h⟩
    rw [readData_of_lt hbuf hinode hoffset hfit rfl] at hcount
    have hend : readEnd (fs.inodeLength inode).toNat offset.toNat length.toNat =
        (offset.toNat + length.toNat) / 4096 * 4096 := by
      rw [readEnd, if_pos (by omega)]
    rw [hend, toInt_toInt32, UInt32.toNat_ofNat_of_lt' (by rw [UInt32.size]; omega)] at hcount
    split at hcount <;> omega
  · have hwrap := readData_nonpos_of_wrap hbuf hinode hoffset (by omega) (not_lt.mp hfit)
    omega

/--
`read_data` is exact for an invalid inode, a request that begins behind the
file, and one that ends in the file's last block or before it, and for no other.
-/
theorem readsExactly_iff {fs : FileSystem} {inode : UInt32}
    (hfile : inode < fs.inodeCount → (fs.inodeLength inode).toNat ≤ 1023 * 4096)
    (offset length : UInt32) {buf : UInt32} (hbuf : buf ≠ 0) :
    ReadsExactly fs inode offset buf length ↔
      inode ≥ fs.inodeCount ∨ offset ≥ fs.inodeLength inode ∨
        EndsInFile fs inode offset length := by
  by_cases hinode : inode < fs.inodeCount
  · by_cases hoffset : offset < fs.inodeLength inode
    · simp only [ge_iff_le, UInt32.not_le.mpr hinode, UInt32.not_le.mpr hoffset, false_or]
      constructor
      · intro hexact
        by_contra hends
        exact not_readsExactly (hfile hinode) hbuf hinode hoffset hends hexact
      · exact readsExactly_of_endsInFile (hfile hinode) hbuf hinode hoffset
    · have hbehind := UInt32.not_lt.mp hoffset
      simp only [ge_iff_le, hbehind, true_or, or_true, iff_true]
      exact readsExactly_of_behind hbuf hinode hbehind
  · have hinvalid := UInt32.not_lt.mp hinode
    simp only [ge_iff_le, hinvalid, true_or, iff_true]
    exact readsExactly_of_invalid hinvalid

/-! ## Whole files -/

/--
A program that reads a file from a position to its end through a buffer of
`chunk` bytes, as `cat` does; `none` when a read fails or `fuel` reads are too few.
-/
def readToEnd (fs : FileSystem) (inode buf chunk : UInt32) : Nat → UInt32 → Option (List UInt8)
  | 0, _ => none
  | fuel + 1, offset =>
      let (result, position, stores) := fileRead fs inode offset buf chunk
      if result < 0 then none
      else if result = 0 then some []
      else (readToEnd fs inode buf chunk fuel position).map (stores.map Prod.snd ++ ·)

def fileRest (fs : FileSystem) (inode : UInt32) (offset : Nat) : List UInt8 :=
  (List.range ((fs.inodeLength inode).toNat - offset)).map fun index =>
    fs.fileByte inode (offset + index)

theorem map_snd_memcpy (source : Nat → UInt8) (dest n : UInt32) :
    (memcpy source dest n).map Prod.snd = (List.range n.toNat).map source := by
  simp only [memcpy, List.map_map, Function.comp_def]

theorem fileRest_add {fs : FileSystem} {inode offset : UInt32} {count : Nat}
    (h : offset.toNat + count ≤ (fs.inodeLength inode).toNat) :
    fileRest fs inode offset.toNat =
      (List.range count).map (fs.fileFrom inode offset) ++
        fileRest fs inode (offset.toNat + count) := by
  have hsplit : (fs.inodeLength inode).toNat - offset.toNat =
      count + ((fs.inodeLength inode).toNat - (offset.toNat + count)) := by omega
  simp only [fileRest]
  rw [hsplit, List.range_add, List.map_append, List.map_map]
  refine congrArg₂ (· ++ ·) rfl (List.map_congr_left fun index _ => ?_)
  simp [Nat.add_assoc]

theorem readToEnd_of_behind {fs : FileSystem} {inode buf chunk offset : UInt32} (hbuf : buf ≠ 0)
    (hinode : inode < fs.inodeCount) (hoffset : offset ≥ fs.inodeLength inode) {fuel : Nat}
    (hfuel : 0 < fuel) : readToEnd fs inode buf chunk fuel offset = some [] := by
  obtain ⟨fuel, rfl⟩ := Nat.exists_eq_add_one_of_ne_zero hfuel.ne'
  have hnotNeg : ¬ (0 : Int32) < 0 := by decide
  simp only [readToEnd, fileRead, readData_of_behind hbuf hinode hoffset, if_neg hnotNeg, if_true]

theorem readToEnd_succ {fs : FileSystem} {inode buf chunk offset copied : UInt32}
    (hread : readData fs inode offset buf chunk =
      (copied.toInt32, memcpy (fs.fileFrom inode offset) buf copied))
    (hcopied : 0 < copied.toNat) (hsmall : copied.toNat < 2 ^ 31) (fuel : Nat) :
    readToEnd fs inode buf chunk (fuel + 1) offset =
      (readToEnd fs inode buf chunk fuel (offset + copied)).map
        ((List.range copied.toNat).map (fs.fileFrom inode offset) ++ ·) := by
  have hvalue : copied.toInt32.toInt = copied.toNat := by
    rw [toInt_toInt32, if_pos hsmall]
  have hpos : copied.toInt32 > 0 := by
    rw [gt_iff_lt, Int32.lt_iff_toInt_lt, hvalue]
    simpa using hcopied
  have hnotNeg : ¬ copied.toInt32 < 0 := Int32.not_lt.mpr (Int32.le_of_lt hpos)
  have hnotZero : ¬ copied.toInt32 = 0 := by
    intro hzero
    rw [hzero] at hpos
    exact absurd hpos (by decide)
  simp only [readToEnd, fileRead, hread, if_neg hnotNeg, if_neg hnotZero, if_pos hpos,
    UInt32.toUInt32_toInt32, map_snd_memcpy]

def lastRequestEnd (fileLength chunk : Nat) : Nat := (fileLength + chunk - 1) / chunk * chunk

theorem lastRequestEnd_eq {fileLength chunk k : Nat} (hbegin : k * chunk < fileLength)
    (hend : fileLength ≤ k * chunk + chunk) :
    lastRequestEnd fileLength chunk = k * chunk + chunk := by
  have hpos : 0 < chunk := by omega
  have hcount : (fileLength + chunk - 1) / chunk = k + 1 := by
    rw [Nat.div_eq_iff hpos, Nat.add_mul, Nat.one_mul]
    omega
  rw [lastRequestEnd, hcount, Nat.add_mul, Nat.one_mul]

theorem length_fileRest (fs : FileSystem) (inode : UInt32) (position : Nat) :
    (fileRest fs inode position).length = (fs.inodeLength inode).toNat - position := by
  simp only [fileRest, List.length_map, List.length_range]

section LastRequest

variable {fs : FileSystem} {inode buf chunk offset : UInt32}

theorem readToEnd_ne_of_overrun (hbuf : buf ≠ 0) (hinode : inode < fs.inodeCount)
    (hoffset : offset < fs.inodeLength inode) (hfit : offset.toNat + chunk.toNat < 2 ^ 32)
    (hblock : (fs.inodeLength inode).toNat / 4096 < (offset.toNat + chunk.toNat) / 4096)
    (fuel : Nat) :
    readToEnd fs inode buf chunk (fuel + 1) offset ≠ some (fileRest fs inode offset.toNat) := by
  intro hall
  have hlt := UInt32.lt_iff_toNat_lt.mp hoffset
  obtain ⟨copied, hcopied⟩ : ∃ copied, copied = UInt32.ofNat
    (readEnd (fs.inodeLength inode).toNat offset.toNat chunk.toNat - offset.toNat) := ⟨_, rfl⟩
  have hread := readData_of_lt hbuf hinode hoffset hfit hcopied
  have hmany : copied.toNat > (fs.inodeLength inode).toNat - offset.toNat := by
    rw [hcopied, UInt32.toNat_ofNat_of_lt'] <;> rw [readEnd, if_pos (by omega)]
    · omega
    · rw [UInt32.size]
      omega
  by_cases hsmall : copied.toNat < 2 ^ 31
  · rw [readToEnd_succ hread (by omega) hsmall] at hall
    obtain ⟨rest, -, happend⟩ := Option.map_eq_some_iff.mp hall
    have hlength := congrArg List.length happend
    rw [length_fileRest, List.length_append, List.length_map, List.length_range] at hlength
    omega
  · have hneg : copied.toInt32 < 0 := by
      rw [Int32.lt_iff_toInt_lt, toInt_toInt32, if_neg hsmall]
      have hrange := copied.toNat_lt
      simp only [Int32.toInt_zero]
      omega
    simp [readToEnd, fileRead, hread, hneg] at hall

theorem readToEnd_ne_of_wrap (hfile : (fs.inodeLength inode).toNat ≤ 1023 * 4096)
    (hbuf : buf ≠ 0) (hinode : inode < fs.inodeCount) (hoffset : offset < fs.inodeLength inode)
    (hwraps : 2 ^ 32 ≤ offset.toNat + chunk.toNat) (fuel : Nat) :
    readToEnd fs inode buf chunk (fuel + 1) offset ≠ some (fileRest fs inode offset.toNat) := by
  intro hall
  have hlt := UInt32.lt_iff_toNat_lt.mp hoffset
  have hwrap := readData_nonpos_of_wrap hbuf hinode hoffset (by omega) hwraps
  obtain ⟨⟨result, stores⟩, hread⟩ : ∃ read, readData fs inode offset buf chunk = read := ⟨_, rfl⟩
  rw [hread] at hwrap
  simp only [readToEnd, fileRead, hread] at hall
  by_cases hneg : result < 0
  · simp [hneg] at hall
  · have hzero : result = 0 := by
      refine Int32.le_antisymm ?_ (Int32.not_lt.mp hneg)
      rw [Int32.le_iff_toInt_le]
      simpa using hwrap
    rw [if_neg hneg, if_pos hzero] at hall
    have hlength := congrArg List.length (Option.some.inj hall)
    rw [length_fileRest, List.length_nil] at hlength
    omega

theorem readToEnd_ne_of_not_endsInFile (hfile : (fs.inodeLength inode).toNat ≤ 1023 * 4096)
    (hbuf : buf ≠ 0) (hinode : inode < fs.inodeCount) (hoffset : offset < fs.inodeLength inode)
    (hends : ¬ EndsInFile fs inode offset chunk) (fuel : Nat) :
    readToEnd fs inode buf chunk (fuel + 1) offset ≠ some (fileRest fs inode offset.toNat) := by
  by_cases hfit : offset.toNat + chunk.toNat < 2 ^ 32
  · exact readToEnd_ne_of_overrun hbuf hinode hoffset hfit
      (not_le.mp fun hblock => hends ⟨hfit, hblock⟩) fuel
  · exact readToEnd_ne_of_wrap hfile hbuf hinode hoffset (not_lt.mp hfit) fuel

theorem readToEnd_of_last (hfile : (fs.inodeLength inode).toNat ≤ 1023 * 4096) (hbuf : buf ≠ 0)
    (hinode : inode < fs.inodeCount) (hoffset : offset < fs.inodeLength inode)
    (hends : EndsInFile fs inode offset chunk)
    (hlast : (fs.inodeLength inode).toNat ≤ offset.toNat + chunk.toNat) {fuel : Nat}
    (hfuel : 0 < fuel) :
    readToEnd fs inode buf chunk (fuel + 1) offset = some (fileRest fs inode offset.toNat) := by
  have hlt := UInt32.lt_iff_toNat_lt.mp hoffset
  obtain ⟨copied, hcopied⟩ : ∃ copied, copied = UInt32.ofNat
    (readCount (fs.inodeLength inode).toNat offset.toNat chunk.toNat) := ⟨_, rfl⟩
  have hread := readData_of_endsInFile hbuf hinode hoffset hends hcopied
  have hcount : copied.toNat = (fs.inodeLength inode).toNat - offset.toNat := by
    rw [hcopied, readCount, Nat.min_eq_right (by omega), UInt32.toNat_ofNat_of_lt']
    rw [UInt32.size]
    omega
  have hsum : offset.toNat + copied.toNat = (fs.inodeLength inode).toNat := by omega
  have hbehind : offset + copied ≥ fs.inodeLength inode := by
    rw [ge_iff_le, UInt32.le_iff_toNat_le, UInt32.toNat_add, hsum]
    omega
  have hnone : fileRest fs inode (fs.inodeLength inode).toNat = [] := by
    rw [fileRest, Nat.sub_self]
    rfl
  rw [readToEnd_succ hread (by omega) (by omega), readToEnd_of_behind hbuf hinode hbehind hfuel,
    Option.map_some, fileRest_add (Nat.le_of_eq hsum), hsum, hnone]

end LastRequest

theorem readToEnd_iff_of_lt {fs : FileSystem} {inode buf chunk : UInt32}
    (hfile : (fs.inodeLength inode).toNat ≤ 1023 * 4096) (hbuf : buf ≠ 0)
    (hinode : inode < fs.inodeCount) (hchunk : 0 < chunk.toNat) (fuel : Nat) :
    ∀ (offset : UInt32) (k : Nat), offset.toNat = k * chunk.toNat →
      offset < fs.inodeLength inode → (fs.inodeLength inode).toNat - offset.toNat < fuel →
      (readToEnd fs inode buf chunk (fuel + 1) offset = some (fileRest fs inode offset.toNat) ↔
        lastRequestEnd (fs.inodeLength inode).toNat chunk.toNat < 2 ^ 32 ∧
          lastRequestEnd (fs.inodeLength inode).toNat chunk.toNat / 4096 ≤
            (fs.inodeLength inode).toNat / 4096) := by
  -- every request but the last takes a whole chunk, so that the offset stays a multiple of it
  induction fuel with
  | zero => exact fun offset k _ _ hfuel => absurd hfuel (Nat.not_lt_zero _)
  | succ fuel ih =>
      intro offset k hk hoffset hfuel
      have hlt := UInt32.lt_iff_toNat_lt.mp hoffset
      by_cases hmore : offset.toNat + chunk.toNat < (fs.inodeLength inode).toNat
      · -- a whole chunk, and the next request
        have hends : EndsInFile fs inode offset chunk := ⟨by omega, by omega⟩
        have hcopied : chunk = UInt32.ofNat (readCount (fs.inodeLength inode).toNat offset.toNat
            chunk.toNat) := by
          rw [readCount, Nat.min_eq_left (by omega), UInt32.ofNat_toNat]
        have hread := readData_of_endsInFile hbuf hinode hoffset hends hcopied
        have hnext : (offset + chunk).toNat = offset.toNat + chunk.toNat := by
          rw [UInt32.toNat_add, Nat.mod_eq_of_lt hends.1]
        rw [readToEnd_succ hread hchunk (by omega),
          ← ih (offset + chunk) (k + 1) (by rw [hnext, hk, Nat.add_mul, Nat.one_mul])
            (by rw [UInt32.lt_iff_toNat_lt, hnext]; exact hmore) (by omega),
          fileRest_add (Nat.le_of_lt hmore), hnext]
        constructor
        · intro hall
          obtain ⟨rest, hrest, happend⟩ := Option.map_eq_some_iff.mp hall
          rw [hrest, List.append_cancel_left happend]
        · intro hrest
          rw [hrest, Option.map_some]
      · have hlast : lastRequestEnd (fs.inodeLength inode).toNat chunk.toNat =
            k * chunk.toNat + chunk.toNat := lastRequestEnd_eq (by omega) (by omega)
        rw [hlast, ← hk]
        by_cases hends : EndsInFile fs inode offset chunk
        · exact iff_of_true (readToEnd_of_last hfile hbuf hinode hoffset hends (not_lt.mp hmore)
            (Nat.succ_pos fuel)) hends
        · exact iff_of_false
            (readToEnd_ne_of_not_endsInFile hfile hbuf hinode hoffset hends _) hends

theorem readToEnd_iff {fs : FileSystem} {inode buf chunk : UInt32}
    (hfile : (fs.inodeLength inode).toNat ≤ 1023 * 4096) (hbuf : buf ≠ 0)
    (hinode : inode < fs.inodeCount) (hchunk : 0 < chunk.toNat) {fuel : Nat}
    (hfuel : (fs.inodeLength inode).toNat < fuel) :
    readToEnd fs inode buf chunk (fuel + 1) 0 = some (fileRest fs inode 0) ↔
      lastRequestEnd (fs.inodeLength inode).toNat chunk.toNat < 2 ^ 32 ∧
        lastRequestEnd (fs.inodeLength inode).toNat chunk.toNat / 4096 ≤
          (fs.inodeLength inode).toNat / 4096 := by
  by_cases hempty : fs.inodeLength inode = 0
  · have hnoRequest : lastRequestEnd 0 chunk.toNat = 0 := by
      rw [lastRequestEnd, Nat.div_eq_of_lt (by omega), Nat.zero_mul]
    have hbehind : (0 : UInt32) ≥ fs.inodeLength inode := by
      rw [hempty]
      exact UInt32.le_refl 0
    rw [readToEnd_of_behind hbuf hinode hbehind (Nat.succ_pos fuel)]
    simp [fileRest, hempty, hnoRequest]
  · have hnonempty : (0 : UInt32) < fs.inodeLength inode := by
      have hne : (fs.inodeLength inode).toNat ≠ 0 := fun h => hempty (UInt32.toNat_inj.mp h)
      rw [UInt32.lt_iff_toNat_lt, UInt32.toNat_zero]
      omega
    exact readToEnd_iff_of_lt hfile hbuf hinode hchunk fuel 0 0 (by simp) hnonempty
      (by simpa using hfuel)

/--
The single reads and the whole files that are exact: a request must end in the
file's last block at the latest, for a whole file the last request.
-/
theorem readData_exact_iff {fs : FileSystem} {inode buf : UInt32}
    (hfile : inode < fs.inodeCount → (fs.inodeLength inode).toNat ≤ 1023 * 4096)
    (hbuf : buf ≠ 0) :
    (∀ offset length, ReadsExactly fs inode offset buf length ↔
      inode ≥ fs.inodeCount ∨ offset ≥ fs.inodeLength inode ∨
        EndsInFile fs inode offset length) ∧
      (inode < fs.inodeCount → ∀ chunk : UInt32, 0 < chunk.toNat →
        ∀ fuel > (fs.inodeLength inode).toNat,
          (readToEnd fs inode buf chunk (fuel + 1) 0 = some (fileRest fs inode 0) ↔
            lastRequestEnd (fs.inodeLength inode).toNat chunk.toNat < 2 ^ 32 ∧
              lastRequestEnd (fs.inodeLength inode).toNat chunk.toNat / 4096 ≤
                (fs.inodeLength inode).toNat / 4096)) :=
  ⟨fun offset length => readsExactly_iff hfile offset length hbuf,
    fun hinode _ hchunk _ hfuel => readToEnd_iff (hfile hinode) hbuf hinode hchunk hfuel⟩

theorem shellImage_lengths : shellImage.inodeCount = 1 ∧ shellImage.inodeLength 0 = 40 := by
  decide

theorem readData_exact_iff_shellImage :
    ReadsExactly shellImage 0 0 0x08000000 40 ↔
      (0 : UInt32) ≥ shellImage.inodeCount ∨ (0 : UInt32) ≥ shellImage.inodeLength 0 ∨
        EndsInFile shellImage 0 0 40 := by
  have hfile : (0 : UInt32) < shellImage.inodeCount →
      (shellImage.inodeLength 0).toNat ≤ 1023 * 4096 := by
    rw [shellImage_lengths.2]
    decide
  exact (readData_exact_iff hfile (by decide)).1 0 40

/-- A request of 4096 bytes from a file of 40 is answered with 4096 bytes. -/
theorem not_readsExactly_shellImage :
    (∀ inode < shellImage.inodeCount, shellImage.inodeLength inode = 40 ∧
      shellImage.dataBlock inode 0 = 0 ∧ shellImage.word (shellImage.bootBlock + 8) = 1) ∧
      (readData shellImage 0 0 0x08000000 4096).1 = 4096 ∧
      ¬ ReadsExactly shellImage 0 0 0x08000000 4096 := by
  have hvalue : (readData shellImage 0 0 0x08000000 4096).1 = 4096 := by decide
  refine ⟨fun inode hinode => ?_, hvalue, fun hexact => ?_⟩
  · rw [shellImage_lengths.1] at hinode
    obtain rfl : inode = 0 := by grind
    decide
  · have hcount := hexact.count (by rw [shellImage_lengths.1]; decide)
    rw [hvalue, shellImage_lengths.2] at hcount
    exact absurd hcount (by decide)

end LinuxOS
