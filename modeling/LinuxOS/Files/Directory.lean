import LinuxOS.Files.Descriptors

/-!
# The directory by name, by index and by reading on

Three ways lead to a directory entry.  The search for a name looks at all 63
slots, an index is held against `dir_entries`, and reading on ends where a name
is empty or the slots are used up.
-/

namespace LinuxOS

open Foundation

/-! ## By name -/

structure FirstNamed (fs : FileSystem) (name : List UInt8) (i : UInt32) : Prop where
  slot : i < 63
  label : (fs.entry i).label = name
  lower : ∀ j < i, (fs.entry j).label ≠ name

/-- `read_dentry_by_name(fname, &dentry)`: the result, and what `dentry` holds then. -/
def dentryByName (fs : FileSystem) (fname : CString) (dentry : Dentry) : Int32 × Dentry :=
  match readDentryByName fs fname with
  | some found => (0, found)
  | none => (-1, dentry)

theorem FirstNamed.lookup_eq {fs : FileSystem} {name : List UInt8} {i : UInt32}
    (h : FirstNamed fs name i) : fs.lookup name = some (fs.entry i) := by
  have hlower : ∀ j < i, (fs.entry j).label ≠ (fs.entry i).label := by
    rw [h.label]
    exact h.lower
  rw [← h.label, lookup_label h.slot hlower]

theorem exists_firstNamed {fs : FileSystem} {name : List UInt8}
    (h : ∃ i < 63, (fs.entry i).label = name) : ∃ i, FirstNamed fs name i := by
  obtain ⟨i, hi, hlabel⟩ := h
  induction hslot : i.toNat using Nat.strong_induction_on generalizing i with
  | h slot ih =>
      by_cases hlower : ∀ j < i, (fs.entry j).label ≠ name
      · exact ⟨i, hi, hlabel, hlower⟩
      · obtain ⟨j, hj, hjlabel⟩ : ∃ j < i, (fs.entry j).label = name := by
          simpa using hlower
        have hjslot : j.toNat < slot := hslot ▸ UInt32.lt_iff_toNat_lt.mp hj
        exact ih j.toNat hjslot j (UInt32.lt_trans hj hi) hjlabel rfl

theorem lookup_eq_some_iff {fs : FileSystem} {name : List UInt8} {dentry : Dentry} :
    fs.lookup name = some dentry ↔ ∃ i, FirstNamed fs name i ∧ dentry = fs.entry i := by
  constructor
  · intro h
    obtain ⟨i, hi, rfl, hlabel⟩ := lookup_eq_some h
    obtain ⟨first, hfirst⟩ := exists_firstNamed ⟨i, hi, hlabel⟩
    rw [hfirst.lookup_eq] at h
    exact ⟨first, hfirst, (Option.some.inj h).symm⟩
  · rintro ⟨i, hfirst, rfl⟩
    exact hfirst.lookup_eq

/--
The search by name is exact: it finds the lowest slot whose name is the string,
whatever bytes the slots hold, and nothing else.
-/
theorem lookup_exact (fs : FileSystem) (fname : CString) (dentry : Dentry) :
    ((dentryByName fs fname dentry).1 = 0 ↔
      fname.chars.length ≤ 32 ∧ ∃ i < 63, (fs.entry i).label = fname.chars) ∧
    (∀ i, FirstNamed fs fname.chars i → dentryByName fs fname dentry = (0, fs.entry i)) ∧
    (¬ (fname.chars.length ≤ 32 ∧ ∃ i < 63, (fs.entry i).label = fname.chars) →
      dentryByName fs fname dentry = (-1, dentry)) ∧
    ∀ i < 63, fname.chars ≠ (fs.entry i).label →
      fname.chars <+: (fs.entry i).label ∨ (fs.entry i).label <+: fname.chars →
        readDentryByName fs fname ≠ some (fs.entry i) := by
  have hfits : (∃ i < 63, (fs.entry i).label = fname.chars) →
      fname.chars.length ≤ 32 := by
    rintro ⟨i, -, hlabel⟩
    rw [← hlabel]
    exact length_label_le _
  have hfound : ∀ i, FirstNamed fs fname.chars i →
      dentryByName fs fname dentry = (0, fs.entry i) := by
    intro i hfirst
    rw [dentryByName, readDentryByName_eq, hfirst.lookup_eq]
  have hmissing : ¬ (fname.chars.length ≤ 32 ∧ ∃ i < 63, (fs.entry i).label = fname.chars) →
      dentryByName fs fname dentry = (-1, dentry) := by
    intro hnone
    have hlookup : fs.lookup fname.chars = none := lookup_eq_none_iff.mpr fun i hi hlabel =>
      hnone ⟨hfits ⟨i, hi, hlabel⟩, i, hi, hlabel⟩
    rw [dentryByName, readDentryByName_eq, hlookup]
  refine ⟨⟨fun hzero => ?_, fun hsome => ?_⟩, hfound, hmissing, ?_⟩
  · by_contra hnone
    rw [hmissing hnone] at hzero
    have hminus : (-1 : Int32) = 0 := hzero
    exact absurd hminus (by decide)
  · obtain ⟨i, hfirst⟩ := exists_firstNamed hsome.2
    rw [hfound i hfirst]
  · intro i hi hne _ heq
    rw [readDentryByName_eq] at heq
    obtain ⟨-, -, -, hlabel⟩ := lookup_eq_some heq
    exact hne hlabel.symm

/-! ## By name and by index -/

/--
The search for a name finds the entry with the least index that has it, among
the entries that an index leads to.
-/
def SameByIndex (fs : FileSystem) (fname : CString) : Prop :=
  ∀ dentry, readDentryByName fs fname = some dentry ↔
    ∃ i, readDentryByIndex fs i = some dentry ∧ dentry.label = fname.chars ∧
      ∀ j < i, ∀ lower, readDentryByIndex fs j = some lower → lower.label ≠ fname.chars

theorem readDentryByIndex_eq_some {fs : FileSystem} {i : UInt32} {dentry : Dentry} :
    readDentryByIndex fs i = some dentry ↔ i < fs.dirEntries ∧ fs.entry i = dentry := by
  rw [readDentryByIndex]
  split
  · next hbehind =>
      exact iff_of_false (by simp) fun h => UInt32.not_lt.mpr hbehind h.1
  · next hinside =>
      rw [Option.some.injEq]
      exact (and_iff_right (UInt32.not_le.mp hinside)).symm

theorem SameByIndex.lt_dirEntries {fs : FileSystem} {fname : CString} (h : SameByIndex fs fname)
    {i : UInt32} (hfirst : FirstNamed fs fname.chars i) : i < fs.dirEntries := by
  have hfound : readDentryByName fs fname = some (fs.entry i) := by
    rw [readDentryByName_eq, hfirst.lookup_eq]
  obtain ⟨k, hindex, -, -⟩ := (h (fs.entry i)).mp hfound
  obtain ⟨hk, hentry⟩ := readDentryByIndex_eq_some.mp hindex
  by_contra hunused
  have hki : k < i := UInt32.lt_of_lt_of_le hk (UInt32.not_lt.mp hunused)
  refine hfirst.lower k hki ?_
  rw [hentry, hfirst.label]

/--
Name and index agree on a name exactly when the lowest of all slots with that
name, if there is one, is a slot that the directory uses.
-/
theorem sameByIndex_iff {fs : FileSystem} (hdir : fs.dirEntries ≤ 63) (fname : CString) :
    SameByIndex fs fname ↔ ∀ i, FirstNamed fs fname.chars i → i < fs.dirEntries := by
  refine ⟨fun hsame i => hsame.lt_dirEntries, fun hused dentry => ?_⟩
  simp only [readDentryByName_eq, lookup_eq_some_iff, readDentryByIndex_eq_some]
  constructor
  · rintro ⟨i, hfirst, rfl⟩
    refine ⟨i, ⟨hused i hfirst, rfl⟩, hfirst.label, ?_⟩
    rintro j hj lower ⟨-, rfl⟩
    exact hfirst.lower j hj
  · rintro ⟨i, ⟨hi, rfl⟩, hlabel, hlower⟩
    refine ⟨i, ⟨UInt32.lt_of_lt_of_le hi hdir, hlabel, fun j hj => ?_⟩, rfl⟩
    exact hlower j hj _ ⟨UInt32.lt_trans hj hi, rfl⟩

theorem sameByIndex_iff_shell :
    SameByIndex shellImage shellName ↔
      ∀ i, FirstNamed shellImage shellName.chars i → i < shellImage.dirEntries :=
  sameByIndex_iff (by decide) shellName

def emptyName : CString := ⟨[], by simp, by decide⟩

/-- The search for the empty name finds an unused slot, which has no index. -/
theorem not_sameByIndex_emptyName : ¬ SameByIndex shellImage emptyName := by
  intro h
  have hfirst : FirstNamed shellImage [] 2 := by
    refine ⟨by decide, by decide, fun j hj => ?_⟩
    have hcases : j = 0 ∨ j = 1 := by grind
    rcases hcases with rfl | rfl <;> decide
  exact absurd (h.lt_dirEntries hfirst) (by decide)

/-! ## By reading on -/

structure TidyDirectory (fs : FileSystem) : Prop where
  few : fs.dirEntries ≤ 63
  used : ∀ i < fs.dirEntries, (fs.entry i).label ≠ []
  unused : ∀ i < 63, fs.dirEntries ≤ i → ∀ k, (fs.entry i).bytes k = 0

structure NameRead where
  buf : UInt32
  nbytes : Int32
  bufNotNull : buf ≠ 0
  nameFits : 32 ≤ nbytes

def NameRead.perform (fd : UInt32) (read : NameRead) (kernel : Kernel) :
    Option (Kernel × Int32 × Stores) := syscallRead 0 fd read.buf read.nbytes kernel

structure ReadTimes (fd : UInt32) (count : Nat) (kernel : Kernel) : Prop where
  index : fd ≤ 7 ∧ fd ≠ 1
  opened : (kernel.fdOf fd).flags ≠ 0
  table : (kernel.fdOf fd).fopsTable = some .dirFops
  position : (kernel.fdOf fd).filePosition.toNat = min count kernel.fs.dirEntries.toNat

def FileSystem.listed (fs : FileSystem) (k : Nat) : List UInt8 :=
  if k < fs.dirEntries.toNat then (fs.entry (UInt32.ofNat k)).label else []

/-- What a program that lists the directory expects of its `k`-th read. -/
def FileSystem.listing (fs : FileSystem) (item : NameRead × Nat) : Int32 × Stores :=
  (Int32.ofNat (fs.listed item.2).length, storesAt item.1.buf (fs.listed item.2))

/-- What it gets: a full directory does not end with an empty name. -/
def FileSystem.outcome (fs : FileSystem) (item : NameRead × Nat) : Int32 × Stores :=
  if item.2 < fs.dirEntries.toNat ∨ fs.dirEntries < 63 then fs.listing item else (-1, [])

theorem memcpy_label (fs : FileSystem) (i buf : UInt32) :
    memcpy (fs.bytesFrom (fs.entryAddr i)) buf (UInt32.ofNat (fs.entry i).label.length) =
      storesAt buf (fs.entry i).label := by
  have hshort := length_label_le (fs.entry i)
  have hlength : (UInt32.ofNat (fs.entry i).label.length).toNat = (fs.entry i).label.length :=
    UInt32.toNat_ofNat_of_lt' (by rw [UInt32.size]; omega)
  refine List.ext_getElem (by simp [memcpy, storesAt, hlength]) fun k hk hk' => ?_
  have hlt : k < (fs.entry i).label.length := by simpa [storesAt] using hk'
  have hbyte := getD_label hlt
  simp only [memcpy, storesAt, List.getElem_map, List.getElem_range, List.getElem_zipIdx,
    Nat.zero_add, ← hbyte]
  simp [List.getD, hlt]

theorem TidyDirectory.label_eq_nil {fs : FileSystem} (h : TidyDirectory fs) {i : UInt32}
    (hi : i < 63) (hunused : fs.dirEntries ≤ i) : (fs.entry i).label = [] := by
  have hzero : (fs.entry i).byte 0 = 0 := h.unused i hi hunused _
  rw [Dentry.label, untilNul, if_pos hzero]

theorem dirRead_slot {fs : FileSystem} (hdir : fs.dirEntries ≤ 63) {i : UInt32} (hi : i < 63)
    (read : NameRead) :
    dirRead fs i read.buf read.nbytes.toUInt32 =
      some (Int32.ofNat (fs.entry i).label.length,
        if (fs.entry i).label = [] then i else i + 1,
        storesAt read.buf (fs.entry i).label) := by
  obtain ⟨nul, hspace, hnul⟩ := exists_nul_of_dirEntries hdir (fs.entryAddr i)
  have hshort := length_label_le (fs.entry i)
  have hfits : 32 ≤ read.nbytes.toUInt32.toNat := by
    have hvalue := toInt_of_nonneg (Int32.le_trans (by decide) read.nameFits)
    have hnbytes := Int32.le_iff_toInt_le.mp read.nameFits
    have h32 : (32 : Int32).toInt = 32 := rfl
    omega
  have hcount : (Int32.ofNat (fs.entry i).label.length).toInt = (fs.entry i).label.length :=
    Int32.toInt_ofNat_of_lt (by omega)
  have hmore : Int32.ofNat (fs.entry i).label.length > 0 ↔ (fs.entry i).label ≠ [] := by
    rw [gt_iff_lt, Int32.lt_iff_toInt_lt, hcount, Int32.toInt_zero, ← List.length_pos_iff]
    omega
  rw [dirRead, directoryRead_eq hi read.bufNotNull hnul hspace, Nat.min_eq_right (by omega),
    memcpy_label]
  simp only [Option.map_some, hmore, ne_eq, ite_not]

theorem ReadTimes.perform_eq {fd position : UInt32} {count : Nat} {kernel : Kernel}
    {read : NameRead} {result : Int32} {stores : Stores} (h : ReadTimes fd count kernel)
    (hread : dirRead kernel.fs (kernel.fdOf fd).filePosition read.buf read.nbytes.toUInt32 =
      some (result, position, stores))
    (hposition : position.toNat = min (count + 1) kernel.fs.dirEntries.toNat) :
    ∃ next, read.perform fd kernel = some (next, result, stores) ∧ next.fs = kernel.fs ∧
      ReadTimes fd (count + 1) next := by
  obtain ⟨next, hnext⟩ : ∃ next, next = (kernel.modifyFd fd fun descriptor =>
      { descriptor with filePosition := position }).storeUser stores := ⟨_, rfl⟩
  have hinside : ¬ (fd > 7 ∨ fd = 1) := fun hout =>
    hout.elim (UInt32.not_lt.mpr h.index.1) h.index.2
  have hfd : next.fdOf fd = { kernel.fdOf fd with filePosition := position } := by
    rw [hnext, fdOf_storeUser, fdOf_modifyFd, Function.update_self]
  have hfs : next.fs = kernel.fs := by rw [hnext]; rfl
  refine ⟨next, ?_, hfs, h.index, by rw [hfd]; exact h.opened, by rw [hfd]; exact h.table, ?_⟩
  · rw [NameRead.perform, syscallRead, if_neg hinside]
    simp only [if_neg h.opened, h.table, hread, Option.map_some, ← hnext]
  · rw [hfd, hfs]
    exact hposition

theorem ReadTimes.step_used {fd : UInt32} {count : Nat} {kernel : Kernel}
    (h : ReadTimes fd count kernel) (htidy : TidyDirectory kernel.fs) (read : NameRead)
    (hused : count < kernel.fs.dirEntries.toNat) :
    ∃ next, read.perform fd kernel = some (next, kernel.fs.outcome (read, count)) ∧
      next.fs = kernel.fs ∧ ReadTimes fd (count + 1) next := by
  have hposition := h.position
  obtain ⟨position, heq⟩ : ∃ position, position = (kernel.fdOf fd).filePosition := ⟨_, rfl⟩
  rw [← heq] at hposition
  have hslot : position = UInt32.ofNat count := by
    refine UInt32.toNat_inj.mp ?_
    rw [UInt32.toNat_ofNat_of_lt' (Nat.lt_trans hused kernel.fs.dirEntries.toNat_lt)]
    omega
  have hlt : position < kernel.fs.dirEntries := by
    rw [UInt32.lt_iff_toNat_lt]
    omega
  have hread := dirRead_slot htidy.few (UInt32.lt_of_lt_of_le hlt htidy.few) read
  rw [if_neg (htidy.used position hlt), heq] at hread
  rw [FileSystem.outcome, if_pos (.inl hused), FileSystem.listing, FileSystem.listed,
    if_pos hused, ← hslot, heq]
  refine h.perform_eq hread ?_
  have hfew := UInt32.le_iff_toNat_le.mp htidy.few
  have h63 : (63 : UInt32).toNat = 63 := rfl
  have hone : (1 : UInt32).toNat = 1 := rfl
  rw [← heq, UInt32.toNat_add]
  omega

section Behind

variable {fd : UInt32} {count : Nat} {kernel : Kernel}

theorem ReadTimes.position_eq (h : ReadTimes fd count kernel)
    (hall : ¬ count < kernel.fs.dirEntries.toNat) :
    (kernel.fdOf fd).filePosition = kernel.fs.dirEntries := by
  have hposition := h.position
  exact UInt32.toNat_inj.mp (by omega)

theorem ReadTimes.step_unused (h : ReadTimes fd count kernel) (htidy : TidyDirectory kernel.fs)
    (read : NameRead) (hall : ¬ count < kernel.fs.dirEntries.toNat)
    (hroom : kernel.fs.dirEntries < 63) :
    ∃ next, read.perform fd kernel = some (next, kernel.fs.outcome (read, count)) ∧
      next.fs = kernel.fs ∧ ReadTimes fd (count + 1) next := by
  have hstay : kernel.fs.dirEntries.toNat = min (count + 1) kernel.fs.dirEntries.toNat := by omega
  have hempty := htidy.label_eq_nil hroom (UInt32.le_refl _)
  have hread := dirRead_slot htidy.few hroom read
  rw [if_pos hempty, hempty] at hread
  rw [FileSystem.outcome, if_pos (.inr hroom), FileSystem.listing, FileSystem.listed,
    if_neg hall]
  exact h.perform_eq ((h.position_eq hall).symm ▸ hread) hstay

theorem ReadTimes.step_behind (h : ReadTimes fd count kernel) (read : NameRead)
    (hall : ¬ count < kernel.fs.dirEntries.toNat) (hfull : ¬ kernel.fs.dirEntries < 63) :
    ∃ next, read.perform fd kernel = some (next, kernel.fs.outcome (read, count)) ∧
      next.fs = kernel.fs ∧ ReadTimes fd (count + 1) next := by
  have hstay : kernel.fs.dirEntries.toNat = min (count + 1) kernel.fs.dirEntries.toNat := by omega
  have hmax : kernel.fs.dirEntries ≥ maxFilecount := UInt32.not_lt.mp hfull
  have hread : dirRead kernel.fs kernel.fs.dirEntries read.buf read.nbytes.toUInt32 =
      some (-1, kernel.fs.dirEntries, []) := by
    rw [dirRead, directoryRead, if_pos hmax]
    rfl
  rw [FileSystem.outcome, if_neg (by simp [hall, hfull])]
  exact h.perform_eq ((h.position_eq hall).symm ▸ hread) hstay

end Behind

theorem ReadTimes.step {fd : UInt32} {count : Nat} {kernel : Kernel}
    (h : ReadTimes fd count kernel) (htidy : TidyDirectory kernel.fs) (read : NameRead) :
    ∃ next, read.perform fd kernel = some (next, kernel.fs.outcome (read, count)) ∧
      next.fs = kernel.fs ∧ ReadTimes fd (count + 1) next := by
  by_cases hused : count < kernel.fs.dirEntries.toNat
  · exact h.step_used htidy read hused
  by_cases hroom : kernel.fs.dirEntries < 63
  · exact h.step_unused htidy read hused hroom
  · exact h.step_behind read hused hroom

theorem ReadTimes.answers_eq {fd : UInt32} {kernel : Kernel} (h : ReadTimes fd 0 kernel)
    (htidy : TidyDirectory kernel.fs) (reads : List NameRead) :
    ∃ final, answers (NameRead.perform fd) reads kernel =
      some (final, reads.zipIdx.map kernel.fs.outcome) := by
  have hstep : ∀ {count : Nat} {state : Kernel} (read : NameRead),
      state.fs = kernel.fs ∧ ReadTimes fd count state →
      ∃ next, read.perform fd state = some (next, kernel.fs.outcome (read, count)) ∧
        next.fs = kernel.fs ∧ ReadTimes fd (count + 1) next := by
    rintro count state read ⟨hfs, htimes⟩
    obtain ⟨next, hnext, hsame, hbehind⟩ := htimes.step (hfs ▸ htidy) read
    rw [hfs] at hnext hsame
    exact ⟨next, hnext, hsame, hbehind⟩
  exact answers_of_place hstep reads ⟨rfl, h⟩

theorem TidyDirectory.outcome_eq_iff {fs : FileSystem} (h : TidyDirectory fs)
    (item : NameRead × Nat) :
    fs.outcome item = fs.listing item ↔ fs.dirEntries < 63 ∨ item.2 < 63 := by
  have hfew := UInt32.le_iff_toNat_le.mp h.few
  have h63 : (63 : UInt32).toNat = 63 := rfl
  by_cases hgood : item.2 < fs.dirEntries.toNat ∨ fs.dirEntries < 63
  · rw [FileSystem.outcome, if_pos hgood]
    refine iff_of_true rfl (hgood.symm.imp_right fun hused => ?_)
    omega
  · rw [not_or] at hgood
    obtain ⟨hbehind, hfull⟩ := hgood
    rw [FileSystem.outcome, if_neg (by simp [hbehind, hfull]), FileSystem.listing,
      FileSystem.listed, if_neg hbehind]
    rw [UInt32.lt_iff_toNat_lt] at hfull ⊢
    refine iff_of_false (fun heq => ?_) (by omega)
    have hminus : (-1 : Int32) = 0 := congrArg Prod.fst heq
    exact absurd hminus (by decide)

theorem TidyDirectory.map_outcome_eq_iff {fs : FileSystem} (h : TidyDirectory fs)
    (reads : List NameRead) :
    reads.zipIdx.map fs.outcome = reads.zipIdx.map fs.listing ↔
      fs.dirEntries < 63 ∨ reads.length ≤ 63 := by
  rw [List.map_inj_left]
  constructor
  · intro hall
    by_contra hfull
    rw [not_or, Nat.not_le] at hfull
    -- the 64th read
    have hmem : (reads.get ⟨63, hfull.2⟩, 63) ∈ reads.zipIdx := by
      rw [List.mk_mem_zipIdx_iff_getElem?]
      simp [hfull.2]
    rcases (h.outcome_eq_iff _).mp (hall _ hmem) with hroom | hslot
    · exact hfull.1 hroom
    · exact absurd hslot (Nat.lt_irrefl 63)
  · rintro hgood ⟨read, k⟩ hmem
    refine (h.outcome_eq_iff _).mpr (hgood.imp_right fun hfew => ?_)
    obtain ⟨-, hk, -⟩ := List.mem_zipIdx hmem
    change k < 63
    omega

/--
Reading on lists every used slot once and then returns 0, for any number of
reads exactly when a slot is unused: behind a full directory the reads fail.
-/
theorem lists_iff {fd : UInt32} {kernel : Kernel} (hfresh : ReadTimes fd 0 kernel)
    (htidy : TidyDirectory kernel.fs) (reads : List NameRead) :
    (∃ final, answers (NameRead.perform fd) reads kernel =
        some (final, reads.zipIdx.map kernel.fs.listing)) ↔
      kernel.fs.dirEntries < 63 ∨ reads.length ≤ 63 := by
  obtain ⟨final, hanswers⟩ := hfresh.answers_eq htidy reads
  rw [← htidy.map_outcome_eq_iff reads, hanswers]
  constructor
  · rintro ⟨final', hlisted⟩
    rw [Option.some.injEq, Prod.mk.injEq] at hlisted
    exact hlisted.2
  · intro heq
    exact ⟨final, by rw [heq]⟩

/-! ### A directory that has just been opened -/

theorem readTimes_of_open {kernel : Kernel} {filename : CString} {fd : UInt32} {entry : Dentry}
    (hname : filename.chars ≠ []) (hfree : lowestFree kernel.isFree = some fd)
    (hfound : kernel.fs.lookup filename.chars = some entry) (htype : entry.type = 1)
    (hposition : (kernel.fdOf fd).filePosition = 0) :
    ∃ opened, syscallOpen (some filename) kernel = some (opened, fd.toInt32) ∧
      opened.fs = kernel.fs ∧ ReadTimes fd 0 opened := by
  obtain ⟨hlow, hhigh, -⟩ := lowestFree_bounds hfree
  have hbehind : tableBehind filename entry (kernel.fdOf fd).fopsTable = some .dirFops := by
    rw [tableBehind, htype]
    rfl
  have hopen := syscallOpen_found hname hfree hfound
  rw [hbehind] at hopen
  refine ⟨_, hopen, rfl, ⟨hhigh, by rintro rfl; exact absurd hlow (by decide)⟩, ?_, ?_, ?_⟩
  all_goals
    rw [fdOf_modifyFd, fdOf_openDevice, Function.update_self, FopsTable.openFd]
  · have hone : (1 : UInt32) ≠ 0 := by decide
    exact hone
  · rw [hposition]
    exact (Nat.zero_min _).symm

theorem exists_opened {image : FileSystem} {start : Kernel} {eip : UInt32}
    (hexecute : syscallExecute default shellName (bootKernel image) = (start, .entered eip))
    (hdot : (image.lookup dotName.chars).any (fun entry => entry.type == 1) = true) :
    ∃ opened, syscallOpen (some dotName) start = some (opened, 2) ∧ opened.fs = image ∧
      ReadTimes 2 0 opened := by
  have hstart : Represents image noOpenFiles start := represents_of_entered hexecute
  obtain ⟨entry, hfound, htype⟩ := (Option.any_eq_true _ _).mp hdot
  have hclosed := hstart.descriptors 2 (by decide) (by decide)
  have hname : dotName.chars ≠ [] := by simp [dotName]
  have hopened := readTimes_of_open hname (hstart.lowestFree_eq.trans (by decide))
    (hstart.image ▸ hfound) (beq_iff_eq.mp htype) hclosed.2
  rw [hstart.image] at hopened
  exact hopened

theorem shellImage_unused {addr : UInt32} (hlow : 0x5000C0 ≤ addr) (hhigh : addr < 0x501000) :
    shellImage.memory addr = 0 := by
  have hall : shellStores.all (fun store =>
      decide (store.1 < 0x5000C0 ∨ 0x501000 ≤ store.1)) = true := by decide
  refine apply_of_forall_ne (fun store hstore heq => ?_) fun _ => 0
  have hfar := of_decide_eq_true (List.all_eq_true.mp hall store hstore)
  rw [heq] at hfar
  exact hfar.elim (UInt32.not_lt.mpr hlow) (UInt32.not_le.mpr hhigh)

theorem tidyDirectory_shellImage : TidyDirectory shellImage where
  few := by decide
  used i hi := by
    have htwo : shellImage.dirEntries = 2 := by decide
    rw [htwo] at hi
    have hcases : i = 0 ∨ i = 1 := by grind
    rcases hcases with rfl | rfl <;> decide
  unused i hi hbehind k := by
    have htwo : shellImage.dirEntries = 2 := by decide
    obtain ⟨addr, haddr⟩ : ∃ addr, addr = shellImage.entryAddr i + UInt32.ofNat k := ⟨_, rfl⟩
    have hslot := UInt32.lt_iff_toNat_lt.mp hi
    have hused := UInt32.le_iff_toNat_le.mp hbehind
    have hk := k.isLt
    have hvalue : addr.toNat = 0x500040 + 64 * i.toNat + k := by
      have hboot : shellImage.bootBlock = 0x500000 := rfl
      rw [haddr, FileSystem.entryAddr, hboot]
      simp only [UInt32.toNat_add, UInt32.toNat_mul, UInt32.toNat_ofNat',
        UInt32.reduceToNat] at hslot ⊢
      omega
    rw [htwo] at hused
    have hzero : shellImage.memory addr = 0 := by
      apply shellImage_unused
      · rw [UInt32.le_iff_toNat_le, hvalue]
        simp only [UInt32.reduceToNat] at hused ⊢
        omega
      · rw [UInt32.lt_iff_toNat_lt, hvalue]
        simp only [UInt32.reduceToNat] at hslot ⊢
        omega
    rwa [haddr] at hzero

def nameRead : NameRead := ⟨0x8000000, 32, by decide, by decide⟩

/-- Three reads list the two entries of the image and end. -/
theorem lists_iff_shellImage : ∃ start eip opened,
    syscallExecute default shellName (bootKernel shellImage) = (start, .entered eip) ∧
      syscallOpen (some dotName) start = some (opened, 2) ∧
      ReadTimes 2 0 opened ∧ TidyDirectory opened.fs ∧
      ((∃ final, answers (NameRead.perform 2) (List.replicate 3 nameRead) opened =
          some (final, (List.replicate 3 nameRead).zipIdx.map opened.fs.listing)) ↔
        opened.fs.dirEntries < 63 ∨ (List.replicate 3 nameRead).length ≤ 63) := by
  obtain ⟨start, eip, hexecute⟩ := @exists_entered shellImage (by decide)
  obtain ⟨opened, hopen, hfs, hfresh⟩ := exists_opened hexecute (by decide)
  have htidy : TidyDirectory opened.fs := hfs ▸ tidyDirectory_shellImage
  exact ⟨start, eip, opened, hexecute, hopen, hfresh, htidy, lists_iff hfresh htidy _⟩

/-- The image with all 63 slots in use: 61 more names, of one letter each. -/
def fullImage : FileSystem where
  bootBlock := 0x500000
  memory addr :=
    if addr = 0x500000 then 63
    else if 0x5000C0 ≤ addr ∧ addr < 0x501000 then
      if addr % 64 = 0 then 0x40 + ((addr - 0x500040) / 64).toUInt8
      else if addr % 64 = 32 then 2
      else 0
    else shellImage.memory addr

theorem dirEntries_fullImage : fullImage.dirEntries = 63 := by decide

theorem tidyDirectory_fullImage : TidyDirectory fullImage where
  few := by decide
  used i hi := by
    have hall : ∀ k : Fin 63, (fullImage.entry (UInt32.ofNat k)).label ≠ [] := by decide
    rw [dirEntries_fullImage] at hi
    have hk := hall ⟨i.toNat, UInt32.lt_iff_toNat_lt.mp hi⟩
    rwa [UInt32.ofNat_toNat] at hk
  unused i hi hbehind := by
    rw [dirEntries_fullImage] at hbehind
    exact absurd hi (UInt32.not_lt.mpr hbehind)

/-- The 64th read of the full directory fails. -/
theorem not_lists_fullImage : ∃ start eip opened,
    syscallExecute default shellName (bootKernel fullImage) = (start, .entered eip) ∧
      syscallOpen (some dotName) start = some (opened, 2) ∧
      ReadTimes 2 0 opened ∧ TidyDirectory opened.fs ∧
      ¬ ∃ final, answers (NameRead.perform 2) (List.replicate 64 nameRead) opened =
        some (final, (List.replicate 64 nameRead).zipIdx.map opened.fs.listing) := by
  obtain ⟨start, eip, hexecute⟩ := @exists_entered fullImage (by decide)
  obtain ⟨opened, hopen, hfs, hfresh⟩ := exists_opened hexecute (by decide)
  have htidy : TidyDirectory opened.fs := hfs ▸ tidyDirectory_fullImage
  refine ⟨start, eip, opened, hexecute, hopen, hfresh, htidy, ?_⟩
  rintro ⟨final, hlisted⟩
  obtain ⟨final', hanswers⟩ := hfresh.answers_eq htidy (List.replicate 64 nameRead)
  rw [hanswers, Option.some.injEq, Prod.mk.injEq, htidy.map_outcome_eq_iff, hfs,
    dirEntries_fullImage, List.length_replicate] at hlisted
  exact absurd hlisted.2 (by decide)

end LinuxOS
