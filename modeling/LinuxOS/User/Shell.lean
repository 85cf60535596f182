import LinuxOS.User.Cat

/-!
# The shell

The shell reads a line, has it executed and tells how the program has ended.
In its own eyes it never fails: whatever its reads deliver and whatever the
programs do that it starts, it goes on until a line is `exit`.
-/

namespace LinuxOS

open Foundation

/-! ## `ece391shell.c` -/

/-- `ece391_strcmp` of a string and of the one with the bytes `s2`, from `index` on. -/
def ece391Strcmp (s1 : Nat → UInt8) : List UInt8 → Nat → Int32
  | [], index => if s1 index = 0 then 0 else Int32.ofNat (s1 index).toNat
  | char :: s2, index =>
      if s1 index = char then
        if s1 index = 0 then 0 else ece391Strcmp s1 s2 (index + 1)
      else Int32.ofNat (s1 index).toNat - Int32.ofNat char.toNat

/-- `if (cnt > 0 && '\n' == buf[cnt - 1]) cnt--; buf[cnt] = '\0';` -/
def cutLine (cnt : Int32) (buf : LocalArray) : LocalArray :=
  let cnt := if cnt > 0 ∧ buf.cells (cnt - 1).toUInt32.toNat = 0x0A then cnt - 1 else cnt
  buf.set cnt.toUInt32.toNat 0

def shellReport (rval : Int32) : UserProgram Unit :=
  if rval = -1 then ece391Fdputs 1 (literal "no such command\n")
  else if rval = 256 then ece391Fdputs 1 (literal "program terminated by exception\n")
  else if rval ≠ 0 then ece391Fdputs 1 (literal "program terminated abnormally\n")
  else return ()

/-- A round of the loop; it leaves with no status where a string goes on behind the array. -/
def shellRound (buf : LocalArray) : UserProgram (LocalArray ⊕ Option Int32) := do
  ece391Fdputs 1 (literal "391OS> ")
  let (cnt, buf) ← ece391Read 0 buf 0 1023
  if cnt = -1 then
    ece391Fdputs 1 (literal "read from keyboard failed\n")
    return .inr (some 3)
  else
    let buf := cutLine cnt buf
    if ece391Strcmp buf.cells (literal "exit") 0 = 0 then return .inr (some 0)
    else if buf.cells 0 = 0 then return .inl buf
    else
      match stringIn 1024 buf.cells with
      | none => return .inr none
      | some command =>
          let rval ← ece391Execute command
          shellReport rval
          return .inl buf

/-- `main`; `none` when it goes on after `fuel` rounds. -/
def shell (fuel : Nat) (buf : LocalArray) : UserProgram (Option (Option Int32)) := do
  ece391Fdputs 1 (literal "Starting 391 Shell\n")
  Client.loop shellRound fuel buf

/-! ## Lines -/

def lineOf (text : List UInt8) : List UInt8 :=
  if text.getLast? = some 0x0A then text.dropLast else text

theorem lineOf_sublist (text : List UInt8) : (lineOf text).Sublist text := by
  unfold lineOf
  split
  · exact List.dropLast_sublist text
  · exact List.Sublist.refl text

theorem sub_ofNat_eq_zero_iff {first second : UInt8} :
    Int32.ofNat first.toNat - Int32.ofNat second.toNat = 0 ↔ first = second := by
  have hfirst := first.toNat_lt
  have hsecond := second.toNat_lt
  constructor
  · intro hzero
    have hsum := Int32.sub_add_cancel (Int32.ofNat first.toNat) (Int32.ofNat second.toNat)
    rw [hzero, Int32.zero_add] at hsum
    have hint := congrArg Int32.toInt hsum
    rw [Int32.toInt_ofNat_of_lt (by omega), Int32.toInt_ofNat_of_lt (by omega)] at hint
    exact UInt8.toNat_inj.mp (by omega)
  · rintro rfl
    exact Int32.sub_self _

theorem strcmp_eq_zero_iff {s1 : Nat → UInt8} {s2 : List UInt8} (hs2 : ∀ char ∈ s2, char ≠ 0)
    (index : Nat) :
    ece391Strcmp s1 s2 index = 0 ↔ ∀ k ≤ s2.length, s1 (index + k) = s2.getD k 0 := by
  induction s2 generalizing index with
  | nil =>
      have hzero := @sub_ofNat_eq_zero_iff (s1 index) 0
      have hnul : Int32.ofNat (0 : UInt8).toNat = 0 := rfl
      rw [hnul, Int32.sub_zero] at hzero
      simp [ece391Strcmp, hzero]
  | cons char s2 ih =>
      obtain ⟨hchar, hrest⟩ := List.forall_mem_cons.mp hs2
      have hnext : ∀ k, index + (k + 1) = index + 1 + k := fun k => by omega
      have hsplit : (∀ k ≤ (char :: s2).length, s1 (index + k) = (char :: s2).getD k 0) ↔
          s1 index = char ∧ ∀ k ≤ s2.length, s1 (index + 1 + k) = s2.getD k 0 := by
        constructor
        · intro hall
          refine ⟨hall 0 (Nat.zero_le _), fun k hk => ?_⟩
          exact hnext k ▸ hall (k + 1) (Nat.succ_le_succ hk)
        · rintro ⟨hfirst, hall⟩ k hk
          cases k with
          | zero => exact hfirst
          | succ k => exact hnext k ▸ hall k (Nat.le_of_succ_le_succ hk)
      rw [hsplit, ece391Strcmp]
      by_cases hsame : s1 index = char
      · rw [if_pos hsame, if_neg (hsame ▸ hchar), ih hrest]
        exact (and_iff_right hsame).symm
      · rw [if_neg hsame, sub_ofNat_eq_zero_iff]
        exact iff_of_false hsame fun h => hsame h.1

theorem strcmp_of_holdsText {cells : Nat → UInt8} {line s2 : List UInt8} (h : HoldsText cells line)
    (hline : ∀ char ∈ line, char ≠ 0) (hs2 : ∀ char ∈ s2, char ≠ 0) :
    ece391Strcmp cells s2 0 = 0 ↔ line = s2 := by
  rw [strcmp_eq_zero_iff hs2]
  constructor
  · intro hsame
    have hheld : HoldsText cells s2 := ⟨by omega, hsame⟩
    have hfirst := h.untilNul_eq hline (show line.length < line.length + s2.length + 1 by omega)
    have hsecond := hheld.untilNul_eq hs2 (show s2.length < line.length + s2.length + 1 by omega)
    exact hfirst.symm.trans hsecond
  · rintro rfl
    exact h.cell

theorem holdsText_set {array : LocalArray} {line : List UInt8}
    (h : ∀ index < line.length, array.cells index = line.getD index 0) :
    HoldsText (array.set line.length 0).cells line where
  inside := by omega
  cell k hk := by
    rw [Nat.zero_add, LocalArray.cells_set]
    rcases Nat.lt_or_eq_of_le hk with hlt | rfl
    · rw [Function.update_of_ne hlt.ne, h k hlt]
    · simp

theorem lineOf_concat (line : List UInt8) (char : UInt8) :
    lineOf (line ++ [char]) = if char = 0x0A then line else line ++ [char] := by
  simp [lineOf]

theorem holdsText_cutLine {buf : LocalArray} {text : List UInt8} {limit : Nat}
    {reply : Int32 × LocalArray} (hlimit : limit < 2 ^ 31) (h : ReadsLine buf limit text reply) :
    HoldsText (cutLine reply.1 reply.2).cells (lineOf text) := by
  have hfits := h.fits
  have hcount : reply.1.toUInt32.toNat = text.length := by
    rw [h.value, toNat_ofNat_of_short (by omega)]
  rcases List.eq_nil_or_concat' text with rfl | ⟨line, char, rfl⟩
  · have hnone : ¬ reply.1 > 0 := by
      rw [h.value]
      decide
    rw [cutLine, if_neg fun hcut => hnone hcut.1, hcount]
    exact holdsText_set fun index hindex => absurd hindex (Nat.not_lt_zero _)
  · rw [List.length_append, List.length_singleton] at hfits hcount
    have hsome : reply.1 > 0 := by
      rw [h.value, gt_iff_lt, Int32.lt_iff_toInt_lt, List.length_append, List.length_singleton,
        Int32.toInt_ofNat_of_lt (by omega), Int32.toInt_zero]
      omega
    have hlast : (reply.1 - 1).toUInt32.toNat = line.length := by
      rw [h.value, List.length_append, List.length_singleton, Int32.ofNat_add]
      have hone : Int32.ofNat 1 = 1 := rfl
      rw [hone, Int32.add_sub_cancel, toNat_ofNat_of_short (by omega)]
    have hchar : reply.2.cells line.length = char := by
      rw [h.cells _ (by simp)]
      simp
    rw [cutLine, hlast, hchar, lineOf_concat]
    by_cases hnewline : char = 0x0A
    · rw [if_pos ⟨hsome, hnewline⟩, if_pos hnewline, hlast]
      refine holdsText_set fun index hindex => ?_
      rw [h.cells index (by simp; omega)]
      simp [List.getD, List.getElem?_append_left hindex]
    · rw [if_neg fun hcut => hnewline hcut.2, if_neg hnewline, hcount]
      have hheld := holdsText_set h.cells
      rwa [List.length_append, List.length_singleton] at hheld

/-! ## Rounds -/

def shellMessage (rval : Int32) : List UInt8 :=
  if rval = -1 then literal "no such command\n"
  else if rval = 256 then literal "program terminated by exception\n"
  else if rval ≠ 0 then literal "program terminated abnormally\n"
  else []

/-- What is shown of a round in which this text has been read. -/
inductive LineShown (fs : FileSystem) (text : List UInt8) : List UInt8 → Prop where
  | blank (hline : lineOf text = []) : LineShown fs text (literal "391OS> ")
  | command {command : CString} {value : Int32} (hline : command.chars = lineOf text)
      (hsome : lineOf text ≠ []) (hexit : lineOf text ≠ literal "exit")
      (hexecutes : Executes fs command value) :
      LineShown fs text (literal "391OS> " ++ shellMessage value)

section Shell

variable {task : UInt32} {fs : FileSystem} {argument : Nat → UInt8}
  {fds : UInt32 → FileDescriptor} {printed : List UInt8} {world : World}

theorem asks_fdputs (s : List UInt8) : (ece391Fdputs 1 s).Asks Request.NoRead :=
  ⟨fun _ _ _ => Request.noConfusion, fun _ => trivial⟩

theorem asks_execute (command : CString) : (ece391Execute command).Asks Request.NoRead :=
  ⟨fun _ _ _ => Request.noConfusion, fun _ => trivial⟩

theorem asks_shellReport (rval : Int32) : (shellReport rval).Asks Request.NoRead := by
  unfold shellReport
  split
  · exact asks_fdputs _
  split
  · exact asks_fdputs _
  split
  · exact asks_fdputs _
  · trivial

theorem meets_shellReport (h : Own task fs argument fds printed world)
    (hstdout : IsStdout (fds 1)) (rval : Int32) :
    Meets (taskService task) (fun _ next => Own task fs argument fds
      (printed ++ shellMessage rval) next) (shellReport rval) world := by
  have hshort : (literal "no such command\n").length < 2 ^ 31 ∧
      (literal "program terminated by exception\n").length < 2 ^ 31 ∧
      (literal "program terminated abnormally\n").length < 2 ^ 31 := by decide
  unfold shellReport shellMessage
  split
  · exact meets_fdputs h hstdout hshort.1
  split
  · exact meets_fdputs h hstdout hshort.2.1
  split
  · exact meets_fdputs h hstdout hshort.2.2
  · exact (List.append_nil printed).symm ▸ h

theorem meets_shellRound {buf : LocalArray} (h : Own task fs argument fds printed world)
    (hstdin : IsStdin (fds 0)) (hstdout : IsStdout (fds 1)) (hfits : buf.Fits 1024) :
    Meets (taskService task) (fun result next => ∃ text,
      next.delivered = world.delivered ++ [text] ∧ result.elim
        (fun array => array.addr = buf.addr ∧ ∃ shown, LineShown fs text shown ∧
          Own task fs argument fds (printed ++ shown) next)
        (fun status => status = some 0 ∧ lineOf text = literal "exit" ∧
          next.printed = printed ++ literal "391OS> ")) (shellRound buf) world := by
  have hlimit : (1023 : Int32).toUInt32.toNat = 1023 := rfl
  have hprompt : (literal "391OS> ").length < 2 ^ 31 := by decide
  refine meets_seq (meets_noRead (asks_fdputs _) (meets_fdputs h hstdout hprompt)) ?_
  rintro _ prompted ⟨hprompted, hkept⟩
  refine meets_seq (meets_readLine hprompted hstdin hfits (by omega)) ?_
  rintro ⟨cnt, array⟩ ready ⟨text, hread, hdelivered, hready⟩
  rw [hkept] at hdelivered
  have hheld := holdsText_cutLine (by omega) hread
  have hnoNul : ∀ char ∈ lineOf text, char ≠ 0 :=
    fun char hchar => hread.noNul char ((lineOf_sublist text).subset hchar)
  have hshort : (lineOf text).length ≤ text.length := (lineOf_sublist text).length_le
  have hfew := hread.fits
  have hread' : cnt ≠ -1 := by
    rw [show cnt = Int32.ofNat text.length from hread.value]
    exact ofNat_ne_neg_one (by omega)
  have hword : ∀ char ∈ literal "exit", char ≠ 0 := by simp [literal]
  have hstrcmp := strcmp_of_holdsText hheld hnoNul hword
  have hfirst := hheld.first_eq_zero_iff hnoNul
  simp only [if_neg hread', hstrcmp, hfirst]
  by_cases hexit : lineOf text = literal "exit"
  · rw [if_pos hexit]
    exact ⟨text, hdelivered, rfl, hexit, hready.printed⟩
  rw [if_neg hexit]
  by_cases hblank : lineOf text = []
  · rw [if_pos hblank]
    exact ⟨text, hdelivered, hread.addr, _, .blank hblank, hready⟩
  obtain ⟨command, hcommand⟩ : ∃ command : CString, command.chars = lineOf text :=
    ⟨⟨lineOf text, hnoNul, by omega⟩, rfl⟩
  have hstring : stringIn 1024 (cutLine cnt array).cells = some command :=
    stringIn_of_holdsText (hcommand ▸ hheld) (by rw [hcommand]; omega) (by decide)
  rw [if_neg hblank, hstring]
  refine meets_seq (meets_noRead (asks_execute command) (meets_execute hready)) ?_
  rintro rval ran ⟨⟨hexecutes, hran⟩, hkeptRan⟩
  refine meets_seq (meets_noRead (asks_shellReport rval) (meets_shellReport hran hstdout rval)) ?_
  rintro _ told ⟨htold, hkeptTold⟩
  rw [List.append_assoc] at htold
  exact ⟨text, hkeptTold.trans (hkeptRan.trans hdelivered), hread.addr, _,
    .command hcommand hblank hexit hexecutes, htold⟩

/-! ## The dialogue -/

/-- What a shell reads and shows in at most `fuel` rounds, and how it ends. -/
inductive ShellRun (fs : FileSystem) (fuel : Nat) :
    List (List UInt8) → List UInt8 → Option (Option Int32) → Prop where
  | goesOn {rounds : List (List UInt8 × List UInt8)}
      (hshows : ∀ round ∈ rounds, LineShown fs round.1 round.2) (hcount : rounds.length = fuel) :
      ShellRun fs fuel (rounds.map Prod.fst)
        (literal "Starting 391 Shell\n" ++ rounds.flatMap Prod.snd) none
  | exits {rounds : List (List UInt8 × List UInt8)} {text : List UInt8}
      (hshows : ∀ round ∈ rounds, LineShown fs round.1 round.2) (hcount : rounds.length < fuel)
      (hexit : lineOf text = literal "exit") :
      ShellRun fs fuel (rounds.map Prod.fst ++ [text])
        (literal "Starting 391 Shell\n" ++ rounds.flatMap Prod.snd ++ literal "391OS> ")
        (some (some 0))

def InDialogue (task : UInt32) (fs : FileSystem) (argument : Nat → UInt8)
    (fds : UInt32 → FileDescriptor) (start : World) (fuel left : Nat) (array : LocalArray)
    (world : World) : Prop :=
  array.Fits 1024 ∧ ∃ rounds : List (List UInt8 × List UInt8), rounds.length + left = fuel ∧
    (∀ round ∈ rounds, LineShown fs round.1 round.2) ∧
    world.delivered = start.delivered ++ rounds.map Prod.fst ∧
    Own task fs argument fds (start.printed ++
      (literal "Starting 391 Shell\n" ++ rounds.flatMap Prod.snd)) world

def ShellEnds (fs : FileSystem) (fuel : Nat) (start : World) (status : Option (Option Int32))
    (final : World) : Prop :=
  ∃ read shown, ShellRun fs fuel read shown status ∧ final.delivered = start.delivered ++ read ∧
    final.printed = start.printed ++ shown

theorem InDialogue.round {start : World} {fuel left : Nat} {array : LocalArray}
    (h : InDialogue task fs argument fds start fuel (left + 1) array world)
    (hstdin : IsStdin (fds 0)) (hstdout : IsStdout (fds 1)) :
    Meets (taskService task) (fun result next => result.elim
      (fun array => InDialogue task fs argument fds start fuel left array next)
      (fun status => ShellEnds fs fuel start (some status) next)) (shellRound array) world := by
  obtain ⟨hfits, rounds, hcount, hshows, hdelivered, hown⟩ := h
  refine meets_mono ?_ (meets_shellRound hown hstdin hstdout hfits)
  rintro result next ⟨text, hread, hresult⟩
  rw [hdelivered, List.append_assoc] at hread
  cases result with
  | inl array' =>
      obtain ⟨haddr, shown, hround, hnext⟩ := hresult
      refine ⟨⟨haddr ▸ hfits.low, haddr ▸ hfits.high⟩, rounds ++ [(text, shown)], ?_, ?_, ?_, ?_⟩
      · rw [List.length_append, List.length_singleton]
        omega
      · intro round hmem
        rcases List.mem_append.mp hmem with hold | hnew
        · exact hshows round hold
        · cases List.mem_singleton.mp hnew
          exact hround
      · rw [hread, List.map_append, List.map_singleton]
      · rw [List.flatMap_append, List.flatMap_singleton]
        simpa only [List.append_assoc] using hnext
  | inr status =>
      obtain ⟨rfl, hexit, hprinted⟩ := hresult
      refine ⟨_, _, .exits hshows (by omega) hexit, hread, ?_⟩
      simpa only [List.append_assoc] using hprinted

end Shell

end LinuxOS
