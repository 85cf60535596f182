import LinuxOS.Process.Arguments

/-!
# The command of `execute`

`syscall_execute` cuts the command into a word and an argument with loops that
share two indices, looks the word up and loads the file.  The file compares
the loops with the word and the argument as the command line means them, and
says when a command is refused without a trace.
-/

namespace LinuxOS

open Foundation

/-! ## What a command line means -/

def wordOf (chars : List UInt8) : List UInt8 :=
  (chars.dropWhile isSpace).takeWhile fun char => !isDelimiter char

/-- The rest of the line behind the word and the spaces that follow it, 128 bytes at most. -/
def argumentOf (chars : List UInt8) : List UInt8 :=
  ((((chars.dropWhile isSpace).dropWhile fun char => !isDelimiter char).dropWhile
    isSpace).takeWhile fun char => !isNewline char).take 128

/-! ## The loops of `syscall_execute` -/

structure ParsedCommand where
  taskName : Nat → UInt8
  argument : Nat → UInt8

def inWord (char : UInt8) : Bool := !isSpace char && !isNewline char && char != 0
def inGap (char : UInt8) : Bool := !isNewline char && isSpace char && char != 0
def inArgument (char : UInt8) : Bool := !isNewline char && char != 0

/-- The test behind the word: `task_name` is full and the word goes on. -/
def wordGoesOn (size : Nat) (command : Nat → UInt8) (i j : Nat) : Option Bool :=
  if j = taskNameSize - 1 then (loadCell size command i).map inWord else some false

/-- The loop that sets `blank_cmd_flag`; `count` bytes of `task_name` are left. -/
def blankCmdFlag (taskName : Nat → UInt8) : Nat → Nat → Bool → Option Bool
  | 0, _, flag => some flag
  | count + 1, i, flag =>
      (loadCell taskNameSize taskName i).bind fun char =>
        blankCmdFlag taskName count (i + 1) (flag || char != 0x20 || char == 0x0A)

/--
The part of `syscall_execute` in front of the lookup, for a command of which
`size` bytes may be read.  It has no value when an access is out of range.
-/
def parseCommand (frame : ExecuteFrame) (size : Nat) (command : Nat → UInt8) :
    Option (Except Int32 ParsedCommand) := do
  let i ← scanWhile isSpace size command 0
  let (i, j, word) ← copyWhile inWord size taskNameSize command i 0 frame.taskName
  if ← wordGoesOn size command i j then
    return .error (-1)
  let taskName ← storeCell taskNameSize word j 0
  let i ← scanWhile inGap size command i
  let (_, j, rest) ← copyWhile inArgument size argumentBufSize command i 0 frame.argument
  let argument ← storeCell argumentBufSize rest j 0
  let length ← scanWhile (· != 0) taskNameSize taskName 0
  let flag ← blankCmdFlag taskName length 0 false
  return if flag then .ok ⟨taskName, argument⟩ else .error 0

/-- The loops that copy the local arrays to `file_name` and `argument_buf`. -/
def copyTexts (parsed : ParsedCommand) (pcb : Pcb) : Option Pcb := do
  let fileName ← copyCells taskNameSize taskNameSize parsed.taskName taskNameSize 0 pcb.fileName
  let start ← copyCells argumentBufSize argumentBufSize parsed.argument taskNameSize 0
    pcb.argumentBuf
  let argumentBuf ← copyCells argumentBufSize argumentBufSize parsed.argument
    (argumentBufSize - taskNameSize) taskNameSize start
  return { pcb with fileName := fileName, argumentBuf := argumentBuf }

/-! ## The word and the argument -/

theorem grab_eq (stop : UInt8 → Bool) (limit : Nat) (bytes : List UInt8) :
    (grab stop limit bytes).1 = (bytes.takeWhile fun char => !stop char).take limit := by
  fun_induction grab stop limit bytes with
  | case1 => simp
  | case2 => simp
  | case3 limit char rest hstop => simp [hstop]
  | case4 limit char rest hgo ih => simp [hgo, ih]

theorem grab_rest (stop : UInt8 → Bool) (limit : Nat) (bytes : List UInt8) :
    (grab stop limit bytes).2 = bytes.drop (grab stop limit bytes).1.length := by
  have happend := grab_append stop limit bytes
  calc (grab stop limit bytes).2
      = ((grab stop limit bytes).1 ++ (grab stop limit bytes).2).drop
          (grab stop limit bytes).1.length := List.drop_left.symm
    _ = bytes.drop (grab stop limit bytes).1.length := by rw [happend]

theorem commandWord_fst (command : CString) :
    (commandWord command).1 = (wordOf command.chars).take 32 := grab_eq _ _ _

theorem commandWord_snd {command : CString} (h : (wordOf command.chars).length ≤ 32) :
    (commandWord command).2 =
      (command.chars.dropWhile isSpace).dropWhile fun char => !isDelimiter char := by
  have hword := commandWord_fst command
  rw [List.take_of_length_le h] at hword
  rw [← drop_length_takeWhile]
  change _ = (command.chars.dropWhile isSpace).drop (wordOf command.chars).length
  rw [← hword]
  exact grab_rest _ _ _

theorem commandTooLong_iff (command : CString) :
    commandTooLong command = true ↔ 32 < (wordOf command.chars).length := by
  have hsize : taskNameSize - 1 = 32 := rfl
  have hlength : (commandWord command).1.length = min 32 (wordOf command.chars).length := by
    rw [commandWord_fst, List.length_take]
  have hnext : ∀ rest : List UInt8,
      (!(rest.head?.all isDelimiter)) = !isDelimiter (rest.headD 0x20) := by
    intro rest
    cases rest <;> rfl
  have hpasses : (!isDelimiter ((commandWord command).2.headD 0x20)) =
      decide ((commandWord command).1.length < (wordOf command.chars).length) := by
    rw [commandWord, grab_rest]
    exact @passes_headD_drop _ (fun char => !isDelimiter char) 0x20 rfl _ _
      (hlength ▸ Nat.min_le_right _ _)
  rw [commandTooLong, hnext, hpasses, hsize, hlength]
  simp only [Bool.and_eq_true, beq_iff_eq, decide_eq_true_eq]
  omega

theorem mem_wordOf {chars : List UInt8} {char : UInt8} (h : char ∈ wordOf chars) :
    isDelimiter char = false := by
  simpa using List.mem_takeWhile_imp h

theorem commandBlank_iff {command : CString} (h : (wordOf command.chars).length ≤ 32) :
    commandBlank command = true ↔ wordOf command.chars = [] := by
  have hword := commandWord_fst command
  rw [List.take_of_length_le h] at hword
  rw [commandBlank, hword, List.all_eq_true]
  constructor
  · intro hall
    cases hchars : wordOf command.chars with
    | nil => rfl
    | cons char rest =>
        have hmem : char ∈ wordOf command.chars := hchars ▸ List.mem_cons_self
        have hdelimiter := mem_wordOf hmem
        have hblank := hall char hmem
        simp [isDelimiter, isSpace, isNewline] at hdelimiter hblank
        exact absurd hblank.1 hdelimiter.1
  · intro hnil char hmem
    rw [hnil] at hmem
    cases hmem

/-! ## The loops cut out the word and the argument -/

theorem takeWhile_and_ne_zero {passes : UInt8 → Bool} {chars : List UInt8}
    (h : ∀ char ∈ chars, char ≠ 0) :
    (chars.takeWhile fun char => passes char && char != 0) = chars.takeWhile passes := by
  induction chars with
  | nil => rfl
  | cons char chars ih =>
      have hchar : (char != 0) = true := bne_iff_ne.mpr (h char List.mem_cons_self)
      rw [List.takeWhile_cons, List.takeWhile_cons, hchar, Bool.and_true,
        ih fun other hmem => h other (List.mem_cons_of_mem _ hmem)]

section Loops

variable {chars : List UInt8}

theorem inWord_eq : inWord = fun char => !isDelimiter char && char != 0 := by
  funext char
  simp [inWord, isDelimiter, Bool.not_or]

theorem inGap_eq : inGap = fun char => isSpace char && char != 0 := by
  funext char
  have hspace : (!isNewline char && isSpace char) = isSpace char := by
    by_cases h : char = 0x20 <;> simp [isNewline, isSpace, h]
  rw [inGap, hspace]

def afterWord (chars : List UInt8) : List UInt8 :=
  (chars.dropWhile isSpace).dropWhile fun char => !isDelimiter char

def afterGap (chars : List UInt8) : List UInt8 := (afterWord chars).dropWhile isSpace

theorem wordOf_sublist (chars : List UInt8) : (wordOf chars).Sublist chars :=
  (List.takeWhile_sublist _).trans (List.dropWhile_sublist _)

theorem afterWord_sublist (chars : List UInt8) : (afterWord chars).Sublist chars :=
  (List.dropWhile_sublist _).trans (List.dropWhile_sublist _)

theorem afterGap_sublist (chars : List UInt8) : (afterGap chars).Sublist chars :=
  (List.dropWhile_sublist _).trans (afterWord_sublist chars)

theorem argumentOf_eq (chars : List UInt8) :
    argumentOf chars = ((afterGap chars).takeWhile fun char => !isNewline char).take 128 := rfl

theorem update_overwrite (stale : Nat → UInt8) (word : List UInt8) :
    Function.update (overwrite word 0 stale) word.length 0 = fillBuffer stale word := by
  funext index
  rcases Nat.lt_trichotomy index word.length with hlt | rfl | hgt
  · have hcell := @overwrite_add _ _ 0 _ stale hlt
    rw [Nat.zero_add] at hcell
    rw [Function.update_of_ne (by omega), hcell, fillBuffer_of_lt stale hlt]
  · rw [Function.update_self, fillBuffer_length]
  · rw [Function.update_of_ne (by omega), overwrite_of_ge stale (by omega),
      fillBuffer_of_gt stale hgt]

theorem blankCmdFlag_eq {taskName : Nat → UInt8} {count i : Nat} {flag : Bool}
    (hinside : i + count ≤ taskNameSize)
    (hword : ∀ k < count, taskName (i + k) ≠ 0x20) :
    blankCmdFlag taskName count i flag = some (flag || decide (0 < count)) := by
  induction count generalizing i flag with
  | zero => simp [blankCmdFlag]
  | succ count ih =>
      have hfirst : (taskName i != 0x20) = true := bne_iff_ne.mpr (hword 0 (Nat.succ_pos _))
      rw [blankCmdFlag, loadCell, if_pos (by omega), Option.bind_some, hfirst, Bool.or_true,
        Bool.true_or, ih (by omega)]
      · simp
      · intro k hk
        rw [Nat.add_assoc, Nat.add_comm 1]
        exact hword (k + 1) (by omega)

theorem copyWhile_inWord {size i : Nat} {command target : Nat → UInt8}
    (hchars : ∀ char ∈ chars, char ≠ 0)
    (h : Terminated 0 size command i (chars.dropWhile isSpace)) :
    copyWhile inWord size taskNameSize command i 0 target =
      some (i + ((wordOf chars).take 32).length, ((wordOf chars).take 32).length,
        overwrite ((wordOf chars).take 32) 0 target) := by
  have hrest : ∀ char ∈ chars.dropWhile isSpace, char ≠ 0 :=
    fun char hmem => hchars char ((List.dropWhile_sublist _).subset hmem)
  have hcopy := h.copyWhile_eq inWord rfl taskNameSize 0 target
  rw [inWord_eq, takeWhile_and_ne_zero hrest] at hcopy
  rw [inWord_eq]
  simpa [wordOf, taskNameSize] using hcopy

theorem wordGoesOn_eq {size i : Nat} {command : Nat → UInt8}
    (hchars : ∀ char ∈ chars, char ≠ 0)
    (h : Terminated 0 size command i (chars.dropWhile isSpace)) :
    wordGoesOn size command (i + ((wordOf chars).take 32).length)
      ((wordOf chars).take 32).length = some (decide (32 < (wordOf chars).length)) := by
  have hrest : ∀ char ∈ chars.dropWhile isSpace, char ≠ 0 :=
    fun char hmem => hchars char ((List.dropWhile_sublist _).subset hmem)
  have htake : (chars.dropWhile isSpace).takeWhile inWord = wordOf chars := by
    rw [inWord_eq, takeWhile_and_ne_zero hrest, wordOf]
  have hlength : ((wordOf chars).take 32).length = min 32 (wordOf chars).length :=
    List.length_take
  have hle : ((wordOf chars).take 32).length ≤
      ((chars.dropWhile isSpace).takeWhile inWord).length := by
    rw [htake, hlength]
    exact Nat.min_le_right _ _
  have hnext := @passes_headD_drop _ inWord 0 rfl _ _ hle
  have hload := (h.drop (hle.trans (List.takeWhile_prefix inWord).length_le)).load
  rw [htake, hlength] at hnext
  rw [hlength] at hload
  have hsize : taskNameSize - 1 = 32 := rfl
  rw [wordGoesOn, hlength, hload, Option.map_some, hnext, hsize]
  split
  · next hfull => rw [hfull]
  · next hshort =>
      have hfits : ¬ 32 < (wordOf chars).length := by omega
      rw [decide_eq_false hfits]

theorem scanWhile_inGap {size i : Nat} {command : Nat → UInt8}
    (hchars : ∀ char ∈ chars, char ≠ 0)
    (h : Terminated 0 size command i (afterWord chars)) :
    ∃ i', scanWhile inGap size command i = some i' ∧
      Terminated 0 size command i' (afterGap chars) := by
  have hrest : ∀ char ∈ afterWord chars, char ≠ 0 :=
    fun char hmem => hchars char ((afterWord_sublist chars).subset hmem)
  have htake : (afterWord chars).takeWhile inGap = (afterWord chars).takeWhile isSpace := by
    rw [inGap_eq, takeWhile_and_ne_zero hrest]
  have hscan := h.scanWhile_eq inGap rfl
  rw [htake] at hscan
  exact ⟨_, hscan, h.behind isSpace⟩

theorem copyWhile_inArgument {size i : Nat} {command target : Nat → UInt8}
    (hchars : ∀ char ∈ chars, char ≠ 0)
    (h : Terminated 0 size command i (afterGap chars)) :
    copyWhile inArgument size argumentBufSize command i 0 target =
      some (i + (argumentOf chars).length, (argumentOf chars).length,
        overwrite (argumentOf chars) 0 target) := by
  have hrest : ∀ char ∈ afterGap chars, char ≠ 0 :=
    fun char hmem => hchars char ((afterGap_sublist chars).subset hmem)
  have hcopy := h.copyWhile_eq inArgument rfl argumentBufSize 0 target
  have htake : (afterGap chars).takeWhile inArgument =
      (afterGap chars).takeWhile fun char => !isNewline char := takeWhile_and_ne_zero hrest
  rw [htake] at hcopy
  simpa [argumentOf_eq, argumentBufSize] using hcopy

theorem storeCell_fillBuffer {size : Nat} (stale : Nat → UInt8) {word : List UInt8}
    (h : word.length < size) :
    storeCell size (overwrite word 0 stale) word.length 0 = some (fillBuffer stale word) := by
  rw [storeCell, if_pos h, update_overwrite]

theorem scanWhile_taskName {stale : Nat → UInt8} {word : List UInt8}
    (hword : ∀ char ∈ word, char ≠ 0) (h : word.length < taskNameSize) :
    scanWhile (· != 0) taskNameSize (fillBuffer stale word) 0 = some word.length := by
  have hall : word.takeWhile (· != 0) = word :=
    List.takeWhile_eq_self_iff.mpr fun char hmem => bne_iff_ne.mpr (hword char hmem)
  rw [(terminated_fillBuffer stale h).scanWhile_eq (· != 0) rfl, hall, Nat.zero_add]

theorem blankCmdFlag_taskName {stale : Nat → UInt8} {word : List UInt8}
    (hword : ∀ char ∈ word, isDelimiter char = false) (h : word.length < taskNameSize) :
    blankCmdFlag (fillBuffer stale word) word.length 0 false =
      some (decide (0 < word.length)) := by
  rw [blankCmdFlag_eq (by omega), Bool.false_or]
  intro k hk hspace
  rw [Nat.zero_add, fillBuffer_of_lt _ hk] at hspace
  have hdelimiter := hword _ (List.get_mem word ⟨k, hk⟩)
  rw [hspace] at hdelimiter
  exact absurd hdelimiter (by decide)

theorem length_argumentOf_lt (chars : List UInt8) :
    (argumentOf chars).length < argumentBufSize := by
  have hle : (argumentOf chars).length ≤ 128 := List.length_take_le _ _
  exact Nat.lt_succ_of_le hle

/-- No loop leaves the command or its array, and they cut out the word and the argument. -/
theorem parseCommand_eq (frame : ExecuteFrame) (hchars : ∀ char ∈ chars, char ≠ 0) :
    parseCommand frame (chars.length + 1) (fun index => chars.getD index 0) =
      some (if 32 < (wordOf chars).length then .error (-1)
        else if wordOf chars = [] then .error 0
        else .ok ⟨fillBuffer frame.taskName (wordOf chars),
          fillBuffer frame.argument (argumentOf chars)⟩) := by
  have hstart : Terminated 0 (chars.length + 1) (fun index => chars.getD index 0) 0 chars :=
    ⟨by omega, fun k _ => by rw [Nat.zero_add]⟩
  have hline := hstart.behind isSpace
  simp only [parseCommand, hstart.scanWhile_eq isSpace rfl, Option.bind_eq_bind,
    Option.bind_some, copyWhile_inWord hchars hline, wordGoesOn_eq hchars hline]
  by_cases hlong : 32 < (wordOf chars).length
  · simp [hlong]
  have hfits : (wordOf chars).take 32 = wordOf chars := List.take_of_length_le (by omega)
  have hname : (wordOf chars).length < taskNameSize := Nat.lt_succ_of_le (Nat.not_lt.mp hlong)
  have hword : ∀ char ∈ wordOf chars, char ≠ 0 :=
    fun char hmem => hchars char ((wordOf_sublist chars).subset hmem)
  obtain ⟨i, hgap, hargument⟩ := scanWhile_inGap hchars
    (hline.behind fun char => !isDelimiter char)
  rw [← wordOf] at hgap
  rw [hfits, if_neg (by simpa using hlong), if_neg hlong]
  simp only [storeCell_fillBuffer _ hname, hgap, copyWhile_inArgument hchars hargument,
    storeCell_fillBuffer _ (length_argumentOf_lt chars), scanWhile_taskName hword hname,
    blankCmdFlag_taskName (fun _ => mem_wordOf) hname, Option.bind_some, Option.pure_def]
  simp [List.length_pos_iff]

end Loops

theorem copyTexts_eq (parsed : ParsedCommand) (pcb : Pcb) :
    copyTexts parsed pcb = some { pcb with
      fileName := fun i => if i < taskNameSize then parsed.taskName i else pcb.fileName i
      argumentBuf := fun i =>
        if i < argumentBufSize then parsed.argument i else pcb.argumentBuf i } := by
  have hsizes : taskNameSize = 33 ∧ argumentBufSize = 129 := ⟨rfl, rfl⟩
  simp only [copyTexts, Option.bind_eq_bind, Option.pure_def]
  rw [copyCells_eq (by omega) (by omega), Option.bind_some, copyCells_eq (by omega) (by omega),
    Option.bind_some, copyCells_eq (by omega) (by omega), Option.bind_some]
  refine congrArg some ?_
  congr 1 <;> funext i
  · exact if_congr (by omega) rfl rfl
  · rcases Nat.lt_or_ge i taskNameSize with hlt | hge
    · rw [if_neg (by omega), if_pos (by omega), if_pos (by omega)]
    · rw [if_neg (show ¬ (0 ≤ i ∧ i < 0 + taskNameSize) by omega)]
      exact if_congr (by omega) rfl rfl

/-! ## `execute` and its command -/

def programCheck (frame : ExecuteFrame) (fs : FileSystem) (found : Option Dentry) :
    Except Int32 Dentry :=
  let fileCheck := found.getD frame.fileCheck
  let (copied, buf) := readData fs fileCheck.inode 0 frame.buf 4
  if copied ≠ 4 then .error (-1)
  else if buf.map Prod.snd ≠ elfMagic then .error (-1)
  else .ok fileCheck

theorem executeCheck_of_long {frame : ExecuteFrame} {command : CString} {fs : FileSystem}
    (h : 32 < (wordOf command.chars).length) : executeCheck frame command fs = .error (-1) := by
  rw [executeCheck, if_pos ((commandTooLong_iff command).mpr h)]

theorem executeCheck_of_blank {frame : ExecuteFrame} {command : CString} {fs : FileSystem}
    (h : wordOf command.chars = []) : executeCheck frame command fs = .error 0 := by
  have hfits : (wordOf command.chars).length ≤ 32 := by simp [h]
  have hshort : ¬ commandTooLong command = true := by
    rw [commandTooLong_iff]
    omega
  rw [executeCheck, if_neg hshort, if_pos ((commandBlank_iff hfits).mpr h)]

theorem CString.ext {first second : CString} (h : first.chars = second.chars) :
    first = second := by
  cases first
  cases second
  cases h
  rfl

theorem executeCheck_of_word {frame : ExecuteFrame} {command name : CString} {fs : FileSystem}
    (hne : wordOf command.chars ≠ []) (hfits : (wordOf command.chars).length ≤ 32)
    (hname : name.chars = wordOf command.chars) :
    executeCheck frame command fs = programCheck frame fs (readDentryByName fs name) := by
  have hshort : ¬ commandTooLong command = true := by
    rw [commandTooLong_iff]
    omega
  have hsame : commandName command = name := by
    refine CString.ext ?_
    rw [hname]
    exact (commandWord_fst command).trans (List.take_of_length_le hfits)
  rw [executeCheck, if_neg hshort, if_neg fun h => hne ((commandBlank_iff hfits).mp h), hsame]
  rfl

theorem commandArgument_eq {command : CString} (h : (wordOf command.chars).length ≤ 32) :
    commandArgument command = argumentOf command.chars := by
  rw [commandArgument, grab_eq, commandWord_snd h]
  rfl

theorem copyTexts_parseCommand {frame : ExecuteFrame} {command : CString}
    (hne : wordOf command.chars ≠ []) (hfits : (wordOf command.chars).length ≤ 32) :
    ∃ parsed, parseCommand frame (command.chars.length + 1) command.byte = some (.ok parsed) ∧
      ∀ eip pcb, copyTexts parsed pcb = some { pcb with
        fileName := (fillTexts frame command eip pcb).fileName
        argumentBuf := (fillTexts frame command eip pcb).argumentBuf } := by
  have hparse := parseCommand_eq frame command.noNul
  rw [if_neg (by omega), if_neg hne] at hparse
  refine ⟨_, hparse, fun eip pcb => ?_⟩
  have hword : (commandWord command).1 = wordOf command.chars :=
    (commandWord_fst command).trans (List.take_of_length_le hfits)
  rw [copyTexts_eq]
  simp only [fillTexts, hword, commandArgument_eq hfits]

theorem holdsTexts_of_entered {frame : ExecuteFrame} {command : CString}
    {kernel started : Kernel} {eip : UInt32}
    (h : syscallExecute frame command kernel = (started, .entered eip)) :
    HoldsText (started.pcbOf started.running).fileName (wordOf command.chars) ∧
      HoldsText (started.pcbOf started.running).argumentBuf (argumentOf command.chars) := by
  have hfits : (wordOf command.chars).length ≤ 32 := by
    by_contra hlong
    rw [syscallExecute_of_error (executeCheck_of_long (by omega))] at h
    cases h
  rcases syscallExecute_cases h with ⟨⟨value, hexit⟩, -⟩ | ⟨slot, fileCheck, -, -, -, rfl⟩
  · cases hexit
  obtain ⟨pcb, entry, hname, hargument⟩ := texts_executeClaim frame command fileCheck slot kernel
  have hword : (commandWord command).1 = wordOf command.chars :=
    (commandWord_fst command).trans (List.take_of_length_le hfits)
  have hroom := length_argumentOf_lt command.chars
  have hsizes : taskNameSize = 33 ∧ argumentBufSize = 129 := ⟨rfl, rfl⟩
  rw [hname, hargument, fillTexts, hword, commandArgument_eq hfits]
  constructor
  · refine (terminated_fillBuffer frame.taskName (Nat.lt_succ_self _)).congr fun k hk => ?_
    simp only [if_pos (show k < taskNameSize by omega)]
  · refine (terminated_fillBuffer frame.argument (Nat.lt_succ_self _)).congr fun k hk => ?_
    simp only [if_pos (show k < argumentBufSize by omega)]

/--
`execute` reads a command line as it is meant: no access of its loops is out of
range, whatever the length of the command, a word that is too long or missing
ends it early, and the word is looked up and passed on with the argument.
-/
theorem command_parsed (frame : ExecuteFrame) (kernel : Kernel) :
    (∀ chars : List UInt8, (∀ char ∈ chars, char ≠ 0) →
      parseCommand frame (chars.length + 1) (fun index => chars.getD index 0) =
        some (if 32 < (wordOf chars).length then .error (-1)
          else if wordOf chars = [] then .error 0
          else .ok ⟨fillBuffer frame.taskName (wordOf chars),
            fillBuffer frame.argument (argumentOf chars)⟩)) ∧
    ∀ command : CString,
      (32 < (wordOf command.chars).length →
        syscallExecute frame command kernel = (kernel, .returned (-1))) ∧
      (wordOf command.chars = [] →
        syscallExecute frame command kernel = (kernel, .returned 0)) ∧
      (wordOf command.chars ≠ [] → (wordOf command.chars).length ≤ 32 →
        ∀ name : CString, name.chars = wordOf command.chars →
          executeCheck frame command kernel.fs =
            programCheck frame kernel.fs (readDentryByName kernel.fs name)) ∧
      (wordOf command.chars ≠ [] → (wordOf command.chars).length ≤ 32 →
        ∃ parsed, parseCommand frame (command.chars.length + 1) command.byte =
            some (.ok parsed) ∧
          ∀ eip pcb, copyTexts parsed pcb = some { pcb with
            fileName := (fillTexts frame command eip pcb).fileName
            argumentBuf := (fillTexts frame command eip pcb).argumentBuf }) ∧
      ∀ started eip, syscallExecute frame command kernel = (started, .entered eip) →
        HoldsText (started.pcbOf started.running).fileName (wordOf command.chars) ∧
          HoldsText (started.pcbOf started.running).argumentBuf (argumentOf command.chars) := by
  refine ⟨fun chars => parseCommand_eq frame,
    fun command => ⟨fun hlong => ?_, fun hblank => ?_, ?_, ?_, ?_⟩⟩
  · exact syscallExecute_of_error (executeCheck_of_long hlong)
  · exact syscallExecute_of_error (executeCheck_of_blank hblank)
  · exact fun hne hfits name hname => executeCheck_of_word hne hfits hname
  · exact copyTexts_parseCommand
  · exact fun started eip => holdsTexts_of_entered

/-! ## Refused commands -/

structure Refused (before after : Kernel) (exit : Exit) : Prop where
  result : exit = .returned (-1)
  running : after.tasksRunning = before.tasksRunning
  slots : after.taskSlots = before.taskSlots
  pages : after.pageDirectory = before.pageDirectory
  esp0 : after.tssEsp0 = before.tssEsp0
  pcb : after.pcb = before.pcb
  memory : after.userMemory = before.userMemory

def AllTaken (kernel : Kernel) : Prop := ∀ slot < 6, kernel.taskSlots slot ≠ 0

def NamesProgram (fs : FileSystem) (word : List UInt8) : Prop :=
  ∃ i < 63, (fs.entry i).label = word ∧ Executable fs (fs.entry i)

/-- A word that names no program is refused, and so is every command when no slot is free. -/
def RefusesRest (frame : ExecuteFrame) (command : CString) (kernel : Kernel) : Prop :=
  wordOf command.chars ≠ [] ∧ ¬ NamesProgram kernel.fs (wordOf command.chars) ∨
      AllTaken kernel →
    Refused kernel (syscallExecute frame command kernel).1
      (syscallExecute frame command kernel).2

/--
The command is not blank while no slot is free; and where nothing has its word
as a name, the bytes under `file_check` are not an entry that could be started.
-/
def LookupDecides (frame : ExecuteFrame) (command : CString) (kernel : Kernel) : Prop :=
  (wordOf command.chars = [] → ¬ AllTaken kernel) ∧
    (wordOf command.chars ≠ [] → (wordOf command.chars).length ≤ 32 →
      (∀ i < 63, (kernel.fs.entry i).label ≠ wordOf command.chars) →
      Executable kernel.fs frame.fileCheck → AllTaken kernel)

theorem programCheck_of_executable {frame : ExecuteFrame} {fs : FileSystem}
    {found : Option Dentry} (h : Executable fs (found.getD frame.fileCheck)) :
    programCheck frame fs found = .ok (found.getD frame.fileCheck) := by
  have hmagic : (memcpy (fs.bytesFrom (fs.dataAddr
      (fs.dataBlock (found.getD frame.fileCheck).inode 0))) frame.buf 4).map Prod.snd =
        elfMagic := by
    rw [memcpy, List.map_map]
    exact h.magic
  simp [programCheck, h.readData_eq frame.bufNotNull, hmagic]

theorem programCheck_of_not_executable {frame : ExecuteFrame} {fs : FileSystem}
    {found : Option Dentry} (h : ¬ Executable fs (found.getD frame.fileCheck)) :
    programCheck frame fs found = .error (-1) := by
  obtain ⟨dentry, hdentry⟩ : ∃ dentry, dentry = found.getD frame.fileCheck := ⟨_, rfl⟩
  rw [programCheck, ← hdentry]
  rw [← hdentry] at h
  by_cases hinode : dentry.inode < fs.inodeCount
  · by_cases hlength : 4 ≤ fs.inodeLength dentry.inode
    · have hmagic : (memcpy (fs.bytesFrom (fs.dataAddr (fs.dataBlock dentry.inode 0))) frame.buf
          4).map Prod.snd ≠ elfMagic := by
        intro heq
        rw [memcpy, List.map_map] at heq
        exact h ⟨hinode, hlength, heq⟩
      simp [readData_head frame.bufNotNull hinode, hlength, hmagic]
    · have hcount : (fs.inodeLength dentry.inode).toInt32 ≠ 4 := by
        intro heq
        refine hlength ?_
        rw [← UInt32.toUInt32_toInt32 (fs.inodeLength dentry.inode), heq]
        decide
      simp [readData_head frame.bufNotNull hinode, hlength, hcount]
  · rw [readData_of_invalid (UInt32.not_lt.mp hinode)]
    rfl

theorem refused_of_error {frame : ExecuteFrame} {command : CString} {kernel : Kernel}
    (h : executeCheck frame command kernel.fs = .error (-1)) :
    Refused kernel (syscallExecute frame command kernel).1
      (syscallExecute frame command kernel).2 := by
  rw [syscallExecute_of_error h]
  exact ⟨rfl, rfl, rfl, rfl, rfl, rfl, rfl⟩

theorem Refused.ne_entered {before after : Kernel} {exit : Exit} (h : Refused before after exit)
    (eip : UInt32) : exit ≠ .entered eip := by
  rw [h.result]
  intro heq
  cases heq

theorem refused_iff_of_ok {frame : ExecuteFrame} {command : CString} {kernel : Kernel}
    {fileCheck : Dentry} (h : executeCheck frame command kernel.fs = .ok fileCheck) :
    Refused kernel (syscallExecute frame command kernel).1
      (syscallExecute frame command kernel).2 ↔ AllTaken kernel := by
  rcases syscallExecute_of_ok h with ⟨hall, heq⟩ | ⟨slot, hslot, heq⟩
  · refine iff_of_true ?_ hall
    obtain ⟨screen, hscreen⟩ : ∃ screen,
        kernel.print "Max programs reached, only valid command: exit\n" =
          { kernel with screen := screen } := ⟨_, rfl⟩
    rw [heq, hscreen]
    exact ⟨rfl, rfl, rfl, rfl, rfl, rfl, rfl⟩
  · refine iff_of_false ?_ fun hall => hall slot hslot.lt hslot.free
    rw [heq]
    exact fun hrefused => hrefused.ne_entered _ rfl

theorem not_refused_of_blank {frame : ExecuteFrame} {command : CString} {kernel : Kernel}
    (h : wordOf command.chars = []) :
    ¬ Refused kernel (syscallExecute frame command kernel).1
      (syscallExecute frame command kernel).2 := by
  rw [syscallExecute_of_error (executeCheck_of_blank h)]
  intro hrefused
  have hzero : (0 : Int32) = -1 := Exit.returned.inj hrefused.result
  exact absurd hzero (by decide)

theorem executeCheck_cases {frame : ExecuteFrame} {command : CString} {fs : FileSystem}
    (hne : wordOf command.chars ≠ []) (hfits : (wordOf command.chars).length ≤ 32) :
    executeCheck frame command fs =
      programCheck frame fs (fs.lookup (wordOf command.chars)) := by
  have hname : (commandName command).chars = wordOf command.chars :=
    (commandWord_fst command).trans (List.take_of_length_le hfits)
  rw [executeCheck_of_word hne hfits hname, readDentryByName_eq, hname]

theorem value_of_executeCheck {frame : ExecuteFrame} {command : CString} {fs : FileSystem}
    {value : Int32} (h : executeCheck frame command fs = .error value) :
    (wordOf command.chars = [] ∧ value = 0) ∨ (wordOf command.chars ≠ [] ∧ value = -1) := by
  by_cases hblank : wordOf command.chars = []
  · rw [executeCheck_of_blank hblank, Except.error.injEq] at h
    exact .inl ⟨hblank, h.symm⟩
  by_cases hlong : 32 < (wordOf command.chars).length
  · rw [executeCheck_of_long hlong, Except.error.injEq] at h
    exact .inr ⟨hblank, h.symm⟩
  rw [executeCheck_cases hblank (by omega)] at h
  by_cases hexecutable : Executable fs ((fs.lookup (wordOf command.chars)).getD frame.fileCheck)
  · rw [programCheck_of_executable hexecutable] at h
    cases h
  · rw [programCheck_of_not_executable hexecutable, Except.error.injEq] at h
    exact .inr ⟨hblank, h.symm⟩

theorem word_of_executeCheck {frame : ExecuteFrame} {command : CString} {fs : FileSystem}
    {fileCheck : Dentry} (h : executeCheck frame command fs = .ok fileCheck) :
    wordOf command.chars ≠ [] ∧ (wordOf command.chars).length ≤ 32 ∧
      Executable fs ((fs.lookup (wordOf command.chars)).getD frame.fileCheck) := by
  have hword : wordOf command.chars ≠ [] := by
    intro hblank
    rw [executeCheck_of_blank hblank] at h
    cases h
  have hfits : (wordOf command.chars).length ≤ 32 := by
    by_contra hlong
    rw [executeCheck_of_long (by omega)] at h
    cases h
  refine ⟨hword, hfits, ?_⟩
  by_contra hrefused
  rw [executeCheck_cases hword hfits, programCheck_of_not_executable hrefused] at h
  cases h

theorem refused_iff_of_word {frame : ExecuteFrame} {command : CString} {kernel : Kernel}
    (hne : wordOf command.chars ≠ []) (hfits : (wordOf command.chars).length ≤ 32) :
    Refused kernel (syscallExecute frame command kernel).1
        (syscallExecute frame command kernel).2 ↔
      (Executable kernel.fs
        ((kernel.fs.lookup (wordOf command.chars)).getD frame.fileCheck) → AllTaken kernel) := by
  have hcheck := @executeCheck_cases frame command kernel.fs hne hfits
  by_cases hexecutable : Executable kernel.fs
      ((kernel.fs.lookup (wordOf command.chars)).getD frame.fileCheck)
  · rw [programCheck_of_executable hexecutable] at hcheck
    rw [refused_iff_of_ok hcheck]
    exact ⟨fun hall _ => hall, fun h => h hexecutable⟩
  · rw [programCheck_of_not_executable hexecutable] at hcheck
    exact iff_of_true (refused_of_error hcheck) fun h => absurd h hexecutable

/--
Commands that name no program, and all commands when no slot is free, are
refused without a trace exactly when the directory decides: a lookup that finds
nothing is not noticed, and the program under `file_check` is started instead.
-/
theorem refusesRest_iff_lookupDecides (frame : ExecuteFrame) (command : CString)
    (kernel : Kernel) : RefusesRest frame command kernel ↔ LookupDecides frame command kernel := by
  -- a command is blank, too long, or looked up
  by_cases hblank : wordOf command.chars = []
  · have hrefused := @not_refused_of_blank frame command kernel hblank
    simp only [RefusesRest, LookupDecides, hblank, ne_eq, not_true_eq_false, false_and, false_or,
      false_implies, and_true, true_implies]
    exact ⟨fun h hall => hrefused (h hall), fun h hall => absurd hall h⟩
  by_cases hlong : 32 < (wordOf command.chars).length
  · have hrefused : Refused kernel (syscallExecute frame command kernel).1
        (syscallExecute frame command kernel).2 := refused_of_error (executeCheck_of_long hlong)
    exact iff_of_true (fun _ => hrefused)
      ⟨fun h => absurd h hblank, fun _ hfits => absurd hfits (Nat.not_le.mpr hlong)⟩
  have hfits : (wordOf command.chars).length ≤ 32 := Nat.not_lt.mp hlong
  rw [RefusesRest, refused_iff_of_word hblank hfits]
  cases hfound : kernel.fs.lookup (wordOf command.chars) with
  | some dentry =>
      obtain ⟨i, hi, rfl, hlabel⟩ := lookup_eq_some hfound
      refine iff_of_true (fun h hexecutable => ?_)
        ⟨fun h => absurd h hblank, fun _ _ hnone => absurd hlabel (hnone i hi)⟩
      exact h.resolve_left fun hunknown => hunknown.2 ⟨i, hi, hlabel, hexecutable⟩
  | none =>
      have hnone := lookup_eq_none_iff.mp hfound
      have hunknown : ¬ NamesProgram kernel.fs (wordOf command.chars) :=
        fun ⟨i, hi, hlabel, _⟩ => hnone i hi hlabel
      constructor
      · exact fun h => ⟨fun hempty => absurd hempty hblank,
          fun _ _ _ => h (.inl ⟨hblank, hunknown⟩)⟩
      · exact fun h _ => h.2 hblank hfits hnone

def unknownCommand : CString := ⟨[0x78], by simp, by decide⟩

/-- A stack on which `file_check` still holds the entry of `shell`. -/
def usedFrame : ExecuteFrame := { (default : ExecuteFrame) with fileCheck := shellImage.entry 1 }

/-- After boot, `execute` of an unknown word starts another shell. -/
theorem not_refusesRest_unknownCommand :
    run step bootTicks (bootKernel shellImage) = some shellsKernel ∧
      ¬ RefusesRest usedFrame unknownCommand shellsKernel := by
  refine ⟨run_bootTicks, fun h => ?_⟩
  have hentered : (syscallExecute usedFrame unknownCommand shellsKernel).2.isEntered = true := by
    decide +kernel
  obtain ⟨eip, hexit⟩ := Exit.exists_entered hentered
  have hunknown : shellsKernel.fs.lookup (wordOf unknownCommand.chars) = none := by
    decide +kernel
  refine (h (.inl ⟨by decide, ?_⟩)).ne_entered eip hexit
  rintro ⟨i, hi, hlabel, -⟩
  exact lookup_eq_none_iff.mp hunknown i hi hlabel

end LinuxOS
