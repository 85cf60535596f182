import LinuxOS.Process.AddressSpace

/-!
# The base shells

Slots 0, 1 and 2 belong to the terminals of the same numbers.  The timer looks
at the terminals in turn and stays with one until it has a task, so that a
shell spawned for terminal `t` finds the slots below `t` taken and gets slot
`t`.  The parent of a program that a user starts depends on its slot alone,
which makes the time before the third shell a special one.
-/

namespace LinuxOS

open Foundation

/-! ## The image's shell -/

def elfMagic : List UInt8 := [0x7f, 0x45, 0x4C, 0x46]

structure Executable (fs : FileSystem) (dentry : Dentry) : Prop where
  inode : dentry.inode < fs.inodeCount
  length : 4 ≤ fs.inodeLength dentry.inode
  magic : (List.range 4).map (fs.bytesFrom (fs.dataAddr (fs.dataBlock dentry.inode 0))) = elfMagic

def HasShell (fs : FileSystem) : Prop :=
  ∃ dentry, readDentryByName fs shellName = some dentry ∧ Executable fs dentry

theorem readData_head {fs : FileSystem} {inode buf : UInt32} (hbuf : buf ≠ 0)
    (hinode : inode < fs.inodeCount) :
    let count := if 4 ≤ fs.inodeLength inode then 4 else fs.inodeLength inode
    readData fs inode 0 buf 4 = (count.toInt32,
      memcpy (fs.bytesFrom (fs.dataAddr (fs.dataBlock inode 0))) buf count) := by
  have hvalid : ¬ inode ≥ fs.inodeCount := UInt32.not_le.mpr hinode
  obtain ⟨length, hlength⟩ : ∃ length, length = fs.inodeLength inode := ⟨_, rfl⟩
  rw [← hlength]
  by_cases hlong : 4 ≤ length
  · have hshort : ¬ (4 : UInt32) > length := UInt32.not_lt.mpr hlong
    have hinside : ¬ (0 : UInt32) ≥ length := by grind
    have hblock : ¬ (0 : UInt32) > length := by grind
    simp [readData, hbuf, hvalid, ← hlength, hlong, hshort, hinside, hblock, readDataLoop]
  have hshort : (4 : UInt32) > length := UInt32.not_le.mp hlong
  by_cases hempty : (0 : UInt32) ≥ length
  · obtain rfl : length = 0 := by grind
    simp [readData, hbuf, hvalid, ← hlength, memcpy]
  · have hblock : ¬ (0 : UInt32) > length := by grind
    have hmod : length % 4096 = length := by
      rw [gt_iff_lt, UInt32.lt_iff_toNat_lt] at hshort
      have hfour : (4 : UInt32).toNat = 4 := rfl
      have hblockSize : (4096 : UInt32).toNat = 4096 := rfl
      refine UInt32.toNat_inj.mp ?_
      rw [UInt32.toNat_mod, hblockSize]
      omega
    simp [readData, hbuf, hvalid, ← hlength, hlong, hshort, hempty, hblock, readDataLoop, hmod]

theorem Executable.readData_eq {fs : FileSystem} {dentry : Dentry} (h : Executable fs dentry)
    {buf : UInt32} (hbuf : buf ≠ 0) :
    readData fs dentry.inode 0 buf 4 =
      (4, memcpy (fs.bytesFrom (fs.dataAddr (fs.dataBlock dentry.inode 0))) buf 4) := by
  rw [readData_head hbuf h.inode, if_pos h.length]
  rfl

theorem HasShell.runs {fs : FileSystem} (h : HasShell fs) (frame : ExecuteFrame) :
    ShellRuns frame fs := by
  obtain ⟨dentry, hlookup, hexecutable⟩ := h
  have hname : commandName shellName = shellName := rfl
  have hfits : commandTooLong shellName = false := by decide
  have hword : commandBlank shellName = false := by decide
  have hmagic : (memcpy (fs.bytesFrom (fs.dataAddr (fs.dataBlock dentry.inode 0))) frame.buf
      4).map Prod.snd = [0x7f, 0x45, 0x4C, 0x46] := by
    rw [memcpy, List.map_map]
    exact hexecutable.magic
  refine ⟨dentry, ?_⟩
  simp [executeCheck, hfits, hword, hname, hlookup, hexecutable.readData_eq frame.bufNotNull,
    hmagic]

theorem hasShell_shellImage : HasShell shellImage := by
  have hany : (readDentryByName shellImage shellName).any (fun dentry =>
      dentry.inode < shellImage.inodeCount && 4 ≤ shellImage.inodeLength dentry.inode &&
        (List.range 4).map (shellImage.bytesFrom
          (shellImage.dataAddr (shellImage.dataBlock dentry.inode 0))) = elfMagic) = true := by
    decide
  obtain ⟨dentry, hlookup, hfile⟩ := (Option.any_eq_true _ _).mp hany
  simp only [Bool.and_eq_true, decide_eq_true_eq] at hfile
  exact ⟨dentry, hlookup, hfile.1.1, hfile.1.2, hfile.2⟩

/-! ## Base slots stay taken -/

def BaseTaken (kernel : Kernel) (base : UInt32) : Prop := base < 3 ∧ Occupied kernel base

/-- What the running program's calls and the key chords leave to the timer. -/
structure RoundKept (before after : Kernel) : Prop where
  image : after.fs = before.fs
  flag : after.bootupFlag = before.bootupFlag
  counter : after.pitCounter = before.pitCounter
  bases : ∀ base, BaseTaken before base → BaseTaken after base

theorem RoundKept.of_slots {before after : Kernel} (image : after.fs = before.fs)
    (flag : after.bootupFlag = before.bootupFlag)
    (counter : after.pitCounter = before.pitCounter)
    (slots : after.taskSlots = before.taskSlots) : RoundKept before after :=
  ⟨image, flag, counter, fun base h => ⟨h.1, (occupied_congr slots base).mpr h.2⟩⟩

theorem switchDisplayTerminal_roundKept {regs : SwitchRegs} {tid : UInt32}
    {before after : Kernel} (h : switchDisplayTerminal regs tid before = some after) :
    RoundKept before after := by
  rcases switchDisplayTerminal_cases h with ⟨-, rfl⟩ | ⟨-, bottom, -, hswitched⟩
  · exact .of_slots rfl rfl rfl rfl
  · exact .of_slots hswitched.image hswitched.flag hswitched.counter hswitched.slots

theorem Started.roundKept {frame : ExecuteFrame} {slot : UInt32} {before after : Kernel}
    (h : Started frame slot before after) (hlt : slot < 6) : RoundKept before after :=
  ⟨h.image, h.flag, h.counter,
    fun base hbase => ⟨hbase.1, (h.occupied_iff hlt base).mpr (.inr hbase.2)⟩⟩

theorem Chains.execute_roundKept {frame : ExecuteFrame} {command : CString}
    {before after : Kernel} {exit : Exit} (h : Chains before)
    (hexecute : syscallExecute frame command before = (after, exit)) :
    RoundKept before after := by
  rcases syscallExecute_cases hexecute with
    ⟨-, text, rfl⟩ | ⟨slot, fileCheck, eip, hslot, -, rfl⟩
  · exact .of_slots rfl rfl rfl rfl
  · exact (h.executeClaim_started hslot frame command fileCheck).roundKept hslot.lt

theorem Chains.halt_roundKept {status : UInt8} {before after : Kernel} {exit : Exit}
    (h : Chains before) (hge : 0 ≤ before.tasksRunning)
    (hhalt : syscallHalt status before = some (after, exit)) : RoundKept before after := by
  rcases h.halt_cases hge hhalt with ⟨-, ⟨text, rfl⟩, -⟩ | ⟨hbelow, hended⟩
  · exact .of_slots rfl rfl rfl rfl
  · refine ⟨hended.image, hended.flag, hended.counter, fun base hbase => ⟨hbase.1, ?_⟩⟩
    rw [hended.occupied_iff]
    refine ⟨hbase.2, ?_⟩
    rintro rfl
    exact hbelow.occupied.ne_noTask ((h.base before.running hbase.2).mpr hbase.1)

theorem Chains.exception_roundKept {message : String} {before after : Kernel} {exit : Exit}
    (h : Chains before) (hge : 0 ≤ before.tasksRunning)
    (hexception : handleException message before = some (after, exit)) :
    RoundKept before after := by
  rcases h.exception_cases hge hexception with
    ⟨-, ⟨text, rfl⟩, -⟩ | ⟨-, shown, text, rfl, -, hshown, hgeShown, hhalt⟩
  · exact .of_slots rfl rfl rfl rfl
  · have hkept := hshown.halt_roundKept hgeShown hhalt
    exact ⟨hkept.image, hkept.flag, hkept.counter, hkept.bases⟩

theorem baseTaken_scheduler {frame : TickFrame} {tNum base : UInt32}
    {before after : Kernel} {exit : Exit} (h : Chains before) (hbase : BaseTaken before base)
    (htick : scheduler frame tNum before = some (after, exit)) : BaseTaken after base := by
  have hcounters : ∀ kernel flag active, Chains kernel ∧ BaseTaken kernel base →
      Chains { kernel with bootupFlag := flag, activeProcess := active } ∧
        BaseTaken { kernel with bootupFlag := flag, activeProcess := active } base :=
    fun kernel flag active h => ⟨h.1.sameTasks (.of_pcb rfl rfl rfl), h.2⟩
  refine (scheduler_invariant hcounters ?_ ?_ ⟨h, hbase⟩ htick).2
  · intro regs tid before after h hswitch
    exact ⟨h.1.switchDisplay hswitch, (switchDisplayTerminal_roundKept hswitch).bases _ h.2⟩
  · intro frame command before after exit h hexecute
    exact ⟨h.1.execute hexecute, (h.1.execute_roundKept hexecute).bases _ h.2⟩

theorem baseTaken_step {event : Event} {base : UInt32} {before after : Kernel}
    (h : Chains before) (hstep : step event before = some after)
    (hbase : BaseTaken before base) : BaseTaken after base := by
  obtain ⟨exit, hperform⟩ := step_eq_some.mp hstep
  cases performed hperform with
  | tick hpit =>
      obtain ⟨ticked, counter, htick, rfl⟩ := pitHandler_cases hpit
      have hticked : BaseTaken ticked base := baseTaken_scheduler h hbase htick
      exact hticked
  | schedule htick => exact baseTaken_scheduler h hbase htick
  | chord hswitch => exact (switchDisplayTerminal_roundKept hswitch).bases base hbase
  | execute hge hexecute => exact (h.execute_roundKept hexecute).bases base hbase
  | halt hge hhalt => exact (h.halt_roundKept hge hhalt).bases base hbase
  | exception hge hexception => exact (h.exception_roundKept hge hexception).bases base hbase

/-! ## What a tick does -/

structure TasksKept (before after : Kernel) : Prop where
  slots : after.taskSlots = before.taskSlots
  links : ∀ task, after.links task = before.links task
  image : after.fs = before.fs
  counter : after.pitCounter = before.pitCounter

theorem TasksKept.trans {first second third : Kernel} (h : TasksKept first second)
    (h' : TasksKept second third) : TasksKept first third :=
  ⟨h'.slots.trans h.slots, fun task => (h'.links task).trans (h.links task),
    h'.image.trans h.image, h'.counter.trans h.counter⟩

theorem switchDisplayTerminal_tasksKept {regs : SwitchRegs} {tid : UInt32}
    {before after : Kernel} (h : switchDisplayTerminal regs tid before = some after) :
    TasksKept before after ∧ after.bootupFlag = before.bootupFlag := by
  rcases switchDisplayTerminal_cases h with ⟨-, rfl⟩ | ⟨-, bottom, -, hswitched⟩
  · exact ⟨⟨rfl, fun _ => rfl, rfl, rfl⟩, rfl⟩
  · exact ⟨⟨hswitched.slots, hswitched.links, hswitched.image, hswitched.counter⟩,
      hswitched.flag⟩

theorem Chains.bootSwitchBack_kept {regs : SwitchRegs} {tNum terminal : UInt32}
    {before booted : Kernel} (h : Chains before)
    (hboot : bootSwitchBack regs tNum before = some (booted, terminal)) :
    Chains booted ∧ TasksKept before booted ∧ booted.bootupFlag = 0 ∧
      terminal = tickTerminal tNum before := by
  rcases bootSwitchBack_cases hboot with ⟨hflag, rfl, rfl⟩ | ⟨hflag, rfl, switched, hswitch, rfl⟩
  · exact ⟨h, ⟨rfl, fun _ => rfl, rfl, rfl⟩, hflag, by simp [tickTerminal, hflag]⟩
  · obtain ⟨hkept, -⟩ := switchDisplayTerminal_tasksKept hswitch
    refine ⟨(h.switchDisplay hswitch).sameTasks (.of_pcb rfl rfl rfl), ?_, rfl,
      by simp [tickTerminal, hflag]⟩
    exact ⟨hkept.slots, fun task => (links_eq_of_pcb rfl task).trans (hkept.links task),
      hkept.image, hkept.counter⟩

structure TickWatches (tNum : UInt32) (before after : Kernel) : Prop where
  kept : TasksKept before after
  flag : after.bootupFlag = 0 ∨ after = before
  taken : tNum ≥ 3 ∨ Occupied before (tickTerminal tNum before)

/-- The terminal has no task; `middle` is the state in which the tick executes `shell`. -/
structure TickExecutes (tNum : UInt32) (before middle : Kernel) : Prop where
  chains : Chains middle
  kept : TasksKept before middle
  flag : middle.bootupFlag = if tickTerminal tNum before = 2 then 1 else 0
  lt : tickTerminal tNum before < 3
  free : before.taskSlots (tickTerminal tNum before) = 0

theorem Chains.scheduler_splits {frame : TickFrame} {tNum : UInt32} {before after : Kernel}
    {exit : Exit} (h : Chains before)
    (htick : LinuxOS.scheduler frame tNum before = some (after, exit)) :
    (TickWatches tNum before after ∧ exit = .returned 0) ∨
      ∃ middle, TickExecutes tNum before middle ∧
        syscallExecute frame.execute shellName middle = (after, exit) := by
  rcases scheduler_cases htick with
    ⟨hge, rfl, rfl⟩ | ⟨hlt, booted, terminal, active, hboot, hactive, hrest⟩
  · exact .inl ⟨⟨⟨rfl, fun _ => rfl, rfl, rfl⟩, .inr rfl, .inl hge⟩, rfl⟩
  · obtain ⟨hchains, hkept, hflag, rfl⟩ := h.bootSwitchBack_kept hboot
    have hterminal : tickTerminal tNum before < 3 := by
      unfold tickTerminal
      grind
    rcases hrest with ⟨hsome, rfl, rfl⟩ | ⟨hnone, switched, hswitch, hexecute⟩
    · left
      refine ⟨⟨?_, .inl hflag, .inr ?_⟩, rfl⟩
      · exact hkept.trans ⟨rfl, links_eq_of_pcb rfl, rfl, rfl⟩
      · have hocc := not_not.mp (mt (hchains.bottom_eq_neg_one_iff hterminal hactive).mpr hsome)
        exact (occupied_congr hkept.slots _).mp hocc
    · right
      obtain ⟨hswitched, hswitchedFlag⟩ := switchDisplayTerminal_tasksKept hswitch
      refine ⟨switched, ⟨?_, ?_, ?_, hterminal, ?_⟩, hexecute⟩
      · have hobserved : Chains { booted with
            activeProcess := active
            bootupFlag := if tickTerminal tNum before = 2 then 1 else booted.bootupFlag } :=
          hchains.sameTasks (.of_pcb rfl rfl rfl)
        exact hobserved.switchDisplay hswitch
      · refine hkept.trans (TasksKept.trans ?_ hswitched)
        exact ⟨rfl, links_eq_of_pcb rfl, rfl, rfl⟩
      · rw [hswitchedFlag, hflag]
      · rw [← hkept.slots]
        by_contra hused
        have hfree := (hchains.bottom_eq_neg_one_iff hterminal hactive).mp hnone
        exact hfree ⟨by grind, hused⟩

theorem pitHandler_splits {frame : TickFrame} {before after : Kernel} {exit : Exit}
    (h : pitHandler frame before = some (after, exit)) :
    ∃ ticked, scheduler frame (UInt32.ofInt before.pitCounter) before = some (ticked, exit) ∧
      ((∃ value, exit = .returned value) ∧ after =
          { ticked with
            pitCounter := if ticked.pitCounter + 1 > 2 then 0 else ticked.pitCounter + 1 } ∨
        (∀ value, exit ≠ .returned value) ∧ after = ticked) := by
  obtain ⟨⟨ticked, result⟩, htick, h⟩ := Option.map_eq_some_iff.mp h
  refine ⟨ticked, ?_⟩
  cases result <;> cases h <;> exact ⟨htick, by simp⟩

/-! ## The timer's round -/

/--
The terminals in front of the counter have their shells, and all three have when
the next tick is to go back to terminal 0.
-/
structure Round (kernel : Kernel) : Prop extends Chains kernel where
  image : HasShell kernel.fs
  counterNonneg : 0 ≤ kernel.pitCounter
  counterLe : kernel.pitCounter ≤ 2
  passed : ∀ base < 3, (base.toNat : Int) < kernel.pitCounter → Occupied kernel base
  flagged : kernel.bootupFlag ≠ 0 → ∀ base < 3, Occupied kernel base

structure ShellSpawned (terminal : UInt32) (before after : Kernel) : Prop where
  lt : terminal < 3
  free : before.taskSlots terminal = 0
  slots : after.taskSlots = Function.update before.taskSlots terminal 1
  running : after.running = terminal
  links : after.links terminal = ⟨terminal, noTask, noTask⟩

theorem Round.of_kept {before after : Kernel} (h : Round before) (hchains : Chains after)
    (hkept : RoundKept before after) : Round after :=
  { hchains with
    image := hkept.image ▸ h.image
    counterNonneg := hkept.counter ▸ h.counterNonneg
    counterLe := hkept.counter ▸ h.counterLe
    passed := fun base hlt hpassed =>
      (hkept.bases base ⟨hlt, h.passed base hlt (hkept.counter ▸ hpassed)⟩).2
    flagged := fun hflag base hlt =>
      (hkept.bases base ⟨hlt, h.flagged (hkept.flag ▸ hflag) base hlt⟩).2 }

theorem Round.toNat_counter {kernel : Kernel} (h : Round kernel) :
    ((UInt32.ofInt kernel.pitCounter).toNat : Int) = kernel.pitCounter := by
  have hnonneg := h.counterNonneg
  have hle := h.counterLe
  rw [toNat_ofInt hnonneg (by omega)]
  omega

theorem Round.counter_lt {kernel : Kernel} (h : Round kernel) :
    UInt32.ofInt kernel.pitCounter < 3 := by
  have hnat := h.toNat_counter
  have hle := h.counterLe
  have h3 : (3 : UInt32).toNat = 3 := rfl
  rw [UInt32.lt_iff_toNat_lt]
  omega

theorem Round.tickTerminal_cases {kernel : Kernel} (h : Round kernel) :
    (kernel.bootupFlag = 0 ∧ tickTerminal (UInt32.ofInt kernel.pitCounter) kernel =
        UInt32.ofInt kernel.pitCounter) ∨
      ∀ base < 3, Occupied kernel base := by
  by_cases hflag : kernel.bootupFlag = 0
  · exact .inl ⟨hflag, by simp [tickTerminal, hflag]⟩
  · exact .inr (h.flagged hflag)

theorem Round.watches {before ticked : Kernel} (h : Round before) (hchains : Chains ticked)
    (hwatches : TickWatches (UInt32.ofInt before.pitCounter) before ticked) :
    Round { ticked with
      pitCounter := if ticked.pitCounter + 1 > 2 then 0 else ticked.pitCounter + 1 } := by
  have hocc := occupied_congr hwatches.kept.slots
  have hcounter := hwatches.kept.counter
  have hnonneg := h.counterNonneg
  have htoNat := h.toNat_counter
  -- the tick spawned nothing, so the counter's terminal has its shell
  have hcurrent : Occupied before (UInt32.ofInt before.pitCounter) := by
    rcases h.tickTerminal_cases with ⟨-, hterminal⟩ | hall
    · rcases hwatches.taken with hge | htaken
      · exact absurd h.counter_lt (UInt32.not_lt.mpr hge)
      · rwa [hterminal] at htaken
    · exact hall _ h.counter_lt
  refine { hchains.sameTasks (.of_pcb rfl rfl rfl) with
    image := hwatches.kept.image ▸ h.image
    counterNonneg := ?_
    counterLe := ?_
    passed := fun base hlt hpassed => ?_
    flagged := fun hflag base hlt => ?_ }
  · simp only
    split <;> omega
  · simp only
    split <;> omega
  · refine (hocc base).mpr ?_
    simp only [hcounter] at hpassed
    by_cases heq : (base.toNat : Int) = before.pitCounter
    · have hbase : UInt32.ofInt before.pitCounter = base := UInt32.toNat_inj.mp (by omega)
      rwa [hbase] at hcurrent
    · refine h.passed base hlt ?_
      split at hpassed <;> omega
  · refine (hocc base).mpr ?_
    rcases hwatches.flag with hzero | rfl
    · exact absurd hzero hflag
    · exact h.flagged hflag base hlt

theorem Round.occupied_of_lt {kernel : Kernel} {base : UInt32} (h : Round kernel)
    (hbase : base < 3) (hlt : base < UInt32.ofInt kernel.pitCounter) : Occupied kernel base := by
  have hcounter := h.toNat_counter
  rw [UInt32.lt_iff_toNat_lt] at hlt
  exact h.passed base hbase (by omega)

theorem Round.firstFree_eq {before middle : Kernel} {slot : UInt32} (h : Round before)
    (hslots : middle.taskSlots = before.taskSlots)
    (hfree : middle.taskSlots (UInt32.ofInt before.pitCounter) = 0)
    (hslot : FirstFree middle slot) :
    slot = UInt32.ofInt before.pitCounter := by
  have hcounter := h.counter_lt
  have hle : ¬ UInt32.ofInt before.pitCounter < slot := fun hlower =>
    hslot.lower _ hlower hfree
  have hge : ¬ slot < UInt32.ofInt before.pitCounter := fun hlower =>
    ((occupied_congr hslots slot).mpr (h.occupied_of_lt (by grind) hlower)).2 hslot.free
  grind

theorem Round.started {frame : ExecuteFrame} {before middle after : Kernel} (h : Round before)
    (hchains : Chains middle) (hkept : TasksKept before middle)
    (hflag : middle.bootupFlag = if UInt32.ofInt before.pitCounter = 2 then 1 else 0)
    (hslot : FirstFree middle (UInt32.ofInt before.pitCounter))
    (hstarted : Started frame (UInt32.ofInt before.pitCounter) middle after) : Round after := by
  have hocc := occupied_congr hkept.slots
  have hafter := hstarted.occupied_iff hslot.lt
  refine { hchains.started hslot hstarted with
    image := hstarted.image ▸ hkept.image ▸ h.image
    counterNonneg := ?_
    counterLe := ?_
    passed := fun base hbase hpassed => ?_
    flagged := fun hset base hbase => ?_ }
  · rw [hstarted.counter, hkept.counter]
    exact h.counterNonneg
  · rw [hstarted.counter, hkept.counter]
    exact h.counterLe
  · rw [hstarted.counter, hkept.counter] at hpassed
    exact (hafter base).mpr (.inr ((hocc base).mpr (h.passed base hbase hpassed)))
  · -- the flag is set for terminal 2, whose shell is the last of the three
    rw [hstarted.flag, hflag] at hset
    have htwo : UInt32.ofInt before.pitCounter = 2 := by
      by_contra hne
      exact hset (if_neg hne)
    rw [hafter, htwo]
    by_cases hlast : base = 2
    · exact .inl hlast
    · have hlower : base < UInt32.ofInt before.pitCounter := by
        rw [htwo]
        grind
      exact .inr ((hocc base).mpr (h.occupied_of_lt hbase hlower))

theorem Round.executes {frame : ExecuteFrame} {before middle after : Kernel} {exit : Exit}
    (h : Round before) (hmiddle : TickExecutes (UInt32.ofInt before.pitCounter) before middle)
    (hexecute : syscallExecute frame shellName middle = (after, exit)) :
    exit.isEntered ∧ ShellSpawned (UInt32.ofInt before.pitCounter) before after ∧ Round after := by
  have hlt := h.counter_lt
  have hfree := hmiddle.free
  have hterminalLt := hmiddle.lt
  have hflag := hmiddle.flag
  obtain ⟨-, hterminal⟩ := h.tickTerminal_cases.resolve_right fun hall =>
    (hall _ hterminalLt).2 hfree
  rw [hterminal] at hfree hflag
  rw [← hmiddle.kept.slots] at hfree
  have hshell : HasShell middle.fs := hmiddle.kept.image ▸ h.image
  obtain ⟨fileCheck, hcheck⟩ := hshell.runs frame
  rcases syscallExecute_of_ok hcheck with ⟨hall, -⟩ | ⟨slot, hslot, heq⟩
  · exact absurd hfree (hall _ (by grind))
  rw [heq] at hexecute
  cases hexecute
  have hstarted := hmiddle.chains.executeClaim_started hslot frame shellName fileCheck
  have hown := h.firstFree_eq hmiddle.kept.slots hfree hslot
  subst hown
  have hchild : ¬ UInt32.ofInt before.pitCounter ≥ 3 := UInt32.not_le.mpr hlt
  have hlinks := hstarted.ownLinks
  rw [if_neg hchild] at hlinks
  have hspawned : ShellSpawned (UInt32.ofInt before.pitCounter) before _ :=
    ⟨hlt, hmiddle.kept.slots ▸ hfree, hmiddle.kept.slots ▸ hstarted.slots,
      hstarted.running_eq, hlinks⟩
  exact ⟨rfl, hspawned, h.started hmiddle.chains hmiddle.kept hflag hslot hstarted⟩

theorem Round.pitHandler {frame : TickFrame} {before after : Kernel} {exit : Exit}
    (h : Round before) (htick : LinuxOS.pitHandler frame before = some (after, exit)) :
    Round after ∧
      (exit.isEntered → ShellSpawned (UInt32.ofInt before.pitCounter) before after) := by
  obtain ⟨ticked, hscheduler, hcounted⟩ := pitHandler_splits htick
  have hchains := h.toChains.scheduler hscheduler
  rcases h.toChains.scheduler_splits hscheduler with
    ⟨hwatches, rfl⟩ | ⟨middle, hmiddle, hexecute⟩
  · rcases hcounted with ⟨-, rfl⟩ | ⟨hnot, -⟩
    · exact ⟨h.watches hchains hwatches, by simp [Exit.isEntered]⟩
    · exact absurd rfl (hnot 0)
  · obtain ⟨hentered, hspawned, hround⟩ := h.executes hmiddle hexecute
    obtain ⟨eip, rfl⟩ := Exit.exists_entered hentered
    rcases hcounted with ⟨⟨value, hreturned⟩, -⟩ | ⟨-, rfl⟩
    · cases hreturned
    · exact ⟨hround, fun _ => hspawned⟩

/-- The kernel's steps, of which only the timer calls `scheduler`. -/
def timedStep (event : Event) (kernel : Kernel) : Option Kernel :=
  match event with
  | .schedule _ _ => none
  | other => step other kernel

def spawnedFor (taken : Kernel × Event) : Option UInt32 :=
  match taken.2 with
  | .tick frame =>
      if (pitHandler frame taken.1).any fun result => result.2.isEntered then
        some (UInt32.ofInt taken.1.pitCounter)
      else none
  | _ => none

theorem step_of_timedStep {event : Event} {before after : Kernel}
    (h : timedStep event before = some after) : step event before = some after := by
  cases event with
  | schedule frame tNum => simp [timedStep] at h
  | _ => exact h

theorem Round.timedStep {event : Event} {before after : Kernel} (h : Round before)
    (hstep : timedStep event before = some after) : Round after := by
  have hchains := h.toChains.step (step_of_timedStep hstep)
  obtain ⟨exit, hperform⟩ := step_eq_some.mp (step_of_timedStep hstep)
  cases performed hperform with
  | tick hpit => exact (h.pitHandler hpit).1
  | schedule htick => simp [LinuxOS.timedStep] at hstep
  | chord hswitch => exact h.of_kept hchains (switchDisplayTerminal_roundKept hswitch)
  | execute hge hexecute => exact h.of_kept hchains (h.toChains.execute_roundKept hexecute)
  | halt hge hhalt => exact h.of_kept hchains (h.toChains.halt_roundKept hge hhalt)
  | exception hge hexception =>
      exact h.of_kept hchains (h.toChains.exception_roundKept hge hexception)

theorem Round.shellSpawned {event : Event} {before after : Kernel} {terminal : UInt32}
    (h : Round before) (hstep : LinuxOS.timedStep event before = some after)
    (hspawn : spawnedFor (before, event) = some terminal) :
    ShellSpawned terminal before after := by
  obtain ⟨exit, hperform⟩ := step_eq_some.mp (step_of_timedStep hstep)
  cases event with
  | tick frame =>
      have htick : LinuxOS.pitHandler frame before = some (after, exit) := hperform
      simp only [spawnedFor, htick, Option.any_some] at hspawn
      split at hspawn
      · next hentered =>
          cases hspawn
          exact (h.pitHandler htick).2 hentered
      · simp at hspawn
  | _ => simp [spawnedFor] at hspawn

theorem Boot.round {kernel : Kernel} (h : Boot kernel) (hshell : HasShell kernel.fs) :
    Round kernel :=
  { h.toNoTasks.chains with
    image := hshell
    counterNonneg := by rw [h.counterZero]
    counterLe := by
      rw [h.counterZero]
      decide
    passed := fun base _ hpassed => by
      rw [h.counterZero] at hpassed
      omega
    flagged := fun hflag => absurd h.flagClear hflag }

/--
In every run from boot with a valid `shell` in the image, a shell that the timer
spawns for terminal `t` gets slot `t`, which was free; no terminal gets a second
one; and a base slot that is taken stays taken.
-/
theorem shells_of_run {events : List Event} {start final : Kernel}
    (hrun : run timedStep events start = some final) (hstart : Boot start)
    (hshell : HasShell start.fs) :
    (∀ taken ∈ stepsAlong timedStep events start, ∀ terminal,
        spawnedFor taken = some terminal → ∃ after,
          timedStep taken.2 taken.1 = some after ∧ ShellSpawned terminal taken.1 after) ∧
      ((stepsAlong timedStep events start).filterMap spawnedFor).Nodup ∧
      (statesAlong timedStep events start).Pairwise fun earlier later =>
        ∀ base, BaseTaken earlier base → BaseTaken later base := by
  have hround := hstart.round hshell
  have hkeep : ∀ event before after, Round before → timedStep event before = some after →
      Round after := fun _ _ _ h hstep => h.timedStep hstep
  have hkept : ∀ event before after base, Round before → timedStep event before = some after →
      BaseTaken before base → BaseTaken after base := fun _ _ _ _ h hstep =>
    baseTaken_step h.toChains (step_of_timedStep hstep)
  refine ⟨?_, ?_, statesAlong_pairwise hkeep hkept hrun hround⟩
  · intro taken htaken terminal hspawn
    obtain ⟨after, hstep⟩ := exists_step_of_mem_stepsAlong hrun htaken
    have hsource := statesAlong_invariant hkeep hrun hround taken.1
      (mem_statesAlong_of_mem_stepsAlong htaken)
    exact ⟨after, hstep, hsource.shellSpawned hstep hspawn⟩
  · refine filterMap_stepsAlong_nodup hkeep hkept ?_ hrun hround
    intro event before after terminal h hstep hspawn
    have hspawned := h.shellSpawned hstep hspawn
    have hlt := hspawned.lt
    refine ⟨fun hbefore => hbefore.2.2 hspawned.free, hlt, by grind, ?_⟩
    rw [hspawned.slots, Function.update_self]
    decide

theorem shells_of_run_bootTicks :
    (stepsAlong timedStep bootTicks (bootKernel shellImage)).filterMap spawnedFor = [0, 1, 2] ∧
      ∀ taken ∈ stepsAlong timedStep bootTicks (bootKernel shellImage), ∀ terminal,
        spawnedFor taken = some terminal → ∃ after,
          timedStep taken.2 taken.1 = some after ∧ ShellSpawned terminal taken.1 after := by
  have hsome : (run timedStep bootTicks (bootKernel shellImage)).isSome := by decide +kernel
  have hspawned : (stepsAlong timedStep bootTicks (bootKernel shellImage)).filterMap
      spawnedFor = [0, 1, 2] := by decide +kernel
  obtain ⟨final, hrun⟩ := Option.isSome_iff_exists.mp hsome
  exact ⟨hspawned, (shells_of_run hrun (boot_bootKernel shellImage) hasShell_shellImage).1⟩

end LinuxOS
