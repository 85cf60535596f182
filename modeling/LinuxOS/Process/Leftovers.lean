import LinuxOS.Files.Descriptors
import LinuxOS.Memory.Vidmap

/-!
# What is left in a descriptor

A call changes a descriptor in one of a few ways, and `execute` fills a whole
array afresh.  What these steps keep of a single descriptor holds of every
descriptor of every program.  From that follows on what the next `open` depends.
-/

namespace LinuxOS

open Foundation

/-! ## What a call does to a descriptor -/

def Closable (descriptor : FileDescriptor) : Prop :=
  descriptor.fopsTable = some .rtcFops ∨ descriptor.fopsTable = some .dirFops ∨
    descriptor.fopsTable = some .fileFops

def closedBy (descriptor : FileDescriptor) : FileDescriptor :=
  match descriptor.fopsTable with
  | some .rtcFops => { descriptor with filePosition := 0, flags := 0 }
  | some .dirFops => { descriptor with inode := 0, filePosition := 0, flags := 0 }
  | some .fileFops => { descriptor with inode := 0, filePosition := 0, flags := 0 }
  | _ => descriptor

theorem flags_closedBy_iff {descriptor : FileDescriptor} (hopen : descriptor.flags ≠ 0) :
    (closedBy descriptor).flags = 0 ↔ Closable descriptor := by
  unfold closedBy Closable
  split <;> simp_all

theorem position_closedBy {descriptor : FileDescriptor} (hopen : descriptor.flags ≠ 0)
    (hclosed : (closedBy descriptor).flags = 0) : (closedBy descriptor).filePosition = 0 := by
  rcases (flags_closedBy_iff hopen).mp hclosed with htable | htable | htable <;>
    simp [closedBy, htable]

inductive Changes (descriptor : FileDescriptor) : FileDescriptor → Prop where
  | kept : Changes descriptor descriptor
  | traced (table : Option FopsTable) (hfree : descriptor.flags = 0) :
      Changes descriptor (descriptor.withTable table)
  | opened (table : FopsTable) (entry : Dentry) (hfree : descriptor.flags = 0) :
      Changes descriptor (table.openFd entry descriptor)
  | moved (position : UInt32) (hopen : descriptor.flags ≠ 0) :
      Changes descriptor { descriptor with filePosition := position }
  | closed (hopen : descriptor.flags ≠ 0) : Changes descriptor (closedBy descriptor)

theorem Changes.update {before after : UInt32 → FileDescriptor} {fd : UInt32}
    {descriptor : FileDescriptor} (h : Changes (before fd) descriptor)
    (hafter : after = Function.update before fd descriptor) (other : UInt32) :
    Changes (before other) (after other) := by
  by_cases heq : other = fd
  · rw [hafter, heq, Function.update_self]
    exact h
  · rw [hafter, Function.update_of_ne heq]
    exact .kept

theorem syscallOpen_changes {filename : Option CString} {kernel opened : Kernel} {value : Int32}
    (h : syscallOpen filename kernel = some (opened, value)) (fd : UInt32) :
    Changes (kernel.fdOf fd) (opened.fdOf fd) := by
  rcases syscallOpen_cases h with rfl | ⟨free, hflags, ⟨table, rfl⟩ | ⟨table, entry, rfl⟩⟩
  · exact .kept
  · have htraced := Changes.traced table hflags
    exact htraced.update (fdOf_modifyFd _ _ _) fd
  · have hopened := Changes.opened table entry hflags
    refine hopened.update ?_ fd
    rw [fdOf_modifyFd, fdOf_openDevice]

theorem syscallRead_changes {interrupts fd buf : UInt32} {nbytes value : Int32}
    {stores : Stores} {kernel after : Kernel}
    (h : syscallRead interrupts fd buf nbytes kernel = some (after, value, stores))
    (other : UInt32) : Changes (kernel.fdOf other) (after.fdOf other) := by
  rcases syscallRead_cases h with ⟨terminal, count, memory, rfl⟩ | ⟨hopen, position, rfl⟩
  · exact .kept
  · have hmoved := Changes.moved position hopen
    refine hmoved.update ?_ other
    rw [fdOf_storeUser, fdOf_modifyFd]

theorem syscallClose_cases {fd : Int32} {kernel closed : Kernel} {value : Int32}
    (h : syscallClose fd kernel = some (closed, value)) :
    ((fd > 7 ∨ fd < 2) ∨ (kernel.fdOf fd.toUInt32).flags = 0) ∧ closed = kernel ∨
      ¬ (fd > 7 ∨ fd < 2) ∧ (kernel.fdOf fd.toUInt32).flags ≠ 0 ∧
        closed.fdOf = Function.update kernel.fdOf fd.toUInt32
          (closedBy (kernel.fdOf fd.toUInt32)) := by
  rw [syscallClose] at h
  split at h
  · next hrange =>
      cases h
      exact .inl ⟨.inl hrange, rfl⟩
  next hrange =>
    simp only at h
    split at h
    · next hfree =>
        cases h
        exact .inl ⟨.inr hfree, rfl⟩
    next hopen =>
      refine .inr ⟨hrange, hopen, ?_⟩
      split at h
      · cases h
      all_goals
        next htable =>
          cases h
          simp [closedBy, htable]

theorem syscallClose_changes {fd : Int32} {kernel closed : Kernel} {value : Int32}
    (h : syscallClose fd kernel = some (closed, value)) (other : UInt32) :
    Changes (kernel.fdOf other) (closed.fdOf other) := by
  rcases syscallClose_cases h with ⟨-, rfl⟩ | ⟨-, hopen, hfds⟩
  · exact .kept
  · exact (Changes.closed hopen).update hfds other

theorem Call.changes {call : Call} {kernel after : Kernel} {value : Int32} {stores : Stores}
    (h : call.perform kernel = some (after, value, stores)) (fd : UInt32) :
    Changes (kernel.fdOf fd) (after.fdOf fd) := by
  cases call with
  | openFile filename =>
      obtain ⟨⟨opened, result⟩, hopen, heq⟩ := Option.map_eq_some_iff.mp h
      cases heq
      exact syscallOpen_changes hopen fd
  | readFd interrupts index buf nbytes => exact syscallRead_changes h fd
  | writeFd index source nbytes =>
      obtain ⟨⟨written, result⟩, hwrite, heq⟩ := Option.map_eq_some_iff.mp h
      cases heq
      rw [(syscallWrite_fds hwrite).2]
      exact .kept
  | closeFd index =>
      obtain ⟨⟨closed, result⟩, hclose, heq⟩ := Option.map_eq_some_iff.mp h
      cases heq
      exact syscallClose_changes hclose fd
  | getargs buf nbytes =>
      rw [syscallGetargs_eq h, fdOf_storeUser]
      exact .kept

/-! ## What lasts -/

/-- A property of single descriptors that `fda_init` makes true and that calls keep. -/
structure Lasting (holds : FileDescriptor → Prop) : Prop where
  fresh : ∀ table flags, holds ⟨table, 0, 0, flags⟩
  changes : ∀ before after, Changes before after → holds before → holds after

def Everywhere (holds : FileDescriptor → Prop) (kernel : Kernel) : Prop :=
  ∀ task, Occupied kernel task → ∀ fd ≤ 7, holds ((kernel.pcbOf task).fd fd)

def initialFd (fd : UInt32) : FileDescriptor :=
  if fd = 0 then ⟨some .stdinFops, 0, 0, 1⟩
  else if fd = 1 then ⟨some .stdoutFops, 0, 0, 1⟩
  else ⟨none, 0, 0, 0⟩

/-- A property of one descriptor of every program that `fda_init` and calls keep. -/
structure LastsAt (fd : UInt32) (holds : FileDescriptor → Prop) : Prop where
  inside : fd ≤ 7
  initial : holds (initialFd fd)
  changes : ∀ before after, Changes before after → holds before → holds after

def HoldsAt (fd : UInt32) (holds : FileDescriptor → Prop) (kernel : Kernel) : Prop :=
  ∀ task, Occupied kernel task → holds ((kernel.pcbOf task).fd fd)

section Steps

variable {fd : UInt32} {holds : FileDescriptor → Prop} {before after : Kernel}

theorem HoldsAt.of_fds (h : HoldsAt fd holds before)
    (hslots : after.taskSlots = before.taskSlots)
    (hfds : ∀ task, (after.pcbOf task).fd = (before.pcbOf task).fd) :
    HoldsAt fd holds after := by
  intro task htask
  rw [hfds]
  exact h task ((occupied_congr hslots task).mp htask)

theorem HoldsAt.of_pcb (h : HoldsAt fd holds before)
    (hslots : after.taskSlots = before.taskSlots) (hpcb : after.pcb = before.pcb) :
    HoldsAt fd holds after :=
  h.of_fds hslots fun task => by rw [Kernel.pcbOf, Kernel.pcbOf, hpcb]

theorem fds_modifyPcb {kernel : Kernel} {change : Pcb → Pcb} (task other : UInt32)
    (hfd : ∀ pcb, (change pcb).fd = pcb.fd) :
    ((kernel.modifyPcb task change).pcbOf other).fd = (kernel.pcbOf other).fd := by
  by_cases heq : getPcb other = getPcb task
  · simp [Kernel.pcbOf, Kernel.modifyPcb, heq, hfd]
  · rw [pcbOf_modifyPcb_of_ne change heq]

theorem HoldsAt.switchDisplay {regs : SwitchRegs} {tid : UInt32}
    (h : HoldsAt fd holds before) (hswitch : switchDisplayTerminal regs tid before = some after) :
    HoldsAt fd holds after := by
  simp only [switchDisplayTerminal] at hswitch
  split at hswitch
  · cases hswitch
    exact h
  · obtain ⟨bottom, -, hswitch⟩ := Option.bind_eq_some_iff.mp hswitch
    obtain ⟨⟨switched, result⟩, hmoved, hsaved⟩ := Option.bind_eq_some_iff.mp hswitch
    obtain ⟨task, -, hmoved⟩ := Option.map_eq_some_iff.mp hmoved
    have hswitched : HoldsAt fd holds switched := by
      split at hmoved <;> cases hmoved <;> exact h.of_pcb rfl rfl
    cases hsaved
    have hprev : HoldsAt fd holds
        (saveRegs regs.prevEsp regs.prevEbp before.displayTerminalId.toUInt32 switched) :=
      hswitched.of_fds rfl fun other => fds_modifyPcb _ other fun _ => rfl
    exact hprev.of_fds rfl fun other => fds_modifyPcb _ other fun _ => rfl

theorem Started.fds_of_ne {frame : ExecuteFrame} {slot task : UInt32}
    (h : Started frame slot before after) (hlt : task < 6) (hne : task ≠ slot) :
    (after.pcbOf task).fd = (before.pcbOf task).fd := by
  by_cases hparent : slot ≥ 3 ∧ task = before.running
  · have hpcb := h.parentPcb hparent.1
    rw [← hparent.2] at hpcb
    rw [hpcb]
  · rw [h.otherPcb task hlt hne fun hchild heq => hparent ⟨hchild, heq⟩]

theorem Ended.fds_of_ne {status : UInt8} {parent task : UInt32} {exit : Exit}
    (h : Ended status parent before after exit) (hlt : task < 6)
    (hne : task ≠ before.running) : (after.pcbOf task).fd = (before.pcbOf task).fd := by
  by_cases hparent : task = parent
  · rw [hparent, h.parentPcb]
  · rw [h.otherPcb task hlt hne hparent]

theorem HoldsAt.halt {status : UInt8} {exit : Exit} (h : HoldsAt fd holds before)
    (hchains : Chains before) (hge : 0 ≤ before.tasksRunning)
    (hhalt : syscallHalt status before = some (after, exit)) : HoldsAt fd holds after := by
  rcases hchains.halt_cases hge hhalt with ⟨-, ⟨text, hafter⟩, -⟩ | ⟨-, hended⟩
  · exact h.of_pcb (by rw [hafter]) (by rw [hafter])
  intro task htask
  obtain ⟨hold, hself⟩ := (hended.occupied_iff task).mp htask
  rw [hended.fds_of_ne hold.1 hself]
  exact h task hold

theorem LastsAt.fillPcb (hlasts : LastsAt fd holds) (frame : ExecuteFrame) (command : CString)
    (slot old eip : UInt32) (kernel : Kernel) :
    holds ((fillPcb frame command slot old eip kernel).fdOf fd) := by
  have hlt : fd < 8 := UInt32.lt_of_le_of_lt hlasts.inside (by decide)
  have hinitial := hlasts.initial
  rw [LinuxOS.fillPcb, fdOf_withEsp0, fdOf_fdaInit, if_pos hlt]
  exact hinitial

theorem LastsAt.execute {frame : ExecuteFrame} {command : CString} {exit : Exit}
    (hlasts : LastsAt fd holds) (h : HoldsAt fd holds before) (hchains : Chains before)
    (hexecute : syscallExecute frame command before = (after, exit)) :
    HoldsAt fd holds after := by
  rcases syscallExecute_cases hexecute with
    ⟨-, text, hafter⟩ | ⟨slot, fileCheck, eip, hslot, -, hafter⟩
  · exact h.of_pcb (by rw [hafter]) (by rw [hafter])
  have hstarted := hchains.executeClaim_started hslot frame command fileCheck
  have hown : holds (after.fdOf fd) := by
    rw [hafter, executeClaim]
    exact hlasts.fillPcb _ _ _ _ _ _
  rw [← hafter] at hstarted
  intro task htask
  by_cases hself : task = slot
  · rw [hself, ← hstarted.running_eq]
    exact hown
  · have hold := ((hstarted.occupied_iff hslot.lt task).mp htask).resolve_left hself
    rw [hstarted.fds_of_ne hold.1 hself]
    exact h task hold

theorem LastsAt.perform {event : Event} {exit : Exit} (hlasts : LastsAt fd holds)
    (h : HoldsAt fd holds before) (hchains : Chains before)
    (hperform : perform event before = some (after, exit)) : HoldsAt fd holds after := by
  -- a tick is made of display switches and one `execute`
  have htick : ∀ {frame : TickFrame} {tNum : UInt32} {ticked : Kernel} {result : Exit},
      scheduler frame tNum before = some (ticked, result) → HoldsAt fd holds ticked := by
    intro frame tNum ticked result hticked
    have hboth : Chains ticked ∧ HoldsAt fd holds ticked :=
      scheduler_invariant
        (fun kernel _ _ (h : Chains kernel ∧ HoldsAt fd holds kernel) =>
          ⟨h.1.sameTasks (.of_pcb rfl rfl rfl), h.2.of_pcb rfl rfl⟩)
        (fun _ _ _ _ h hswitch => ⟨h.1.switchDisplay hswitch, h.2.switchDisplay hswitch⟩)
        (fun _ _ _ _ _ h hexecute =>
          ⟨h.1.execute hexecute, hlasts.execute h.2 h.1 hexecute⟩)
        ⟨hchains, h⟩ hticked
    exact hboth.2
  cases performed hperform with
  | tick hpit =>
      obtain ⟨ticked, counter, hticked, rfl⟩ := pitHandler_cases hpit
      exact (htick hticked).of_pcb rfl rfl
  | schedule hticked => exact htick hticked
  | chord hswitch => exact h.switchDisplay hswitch
  | execute hge hexecute => exact hlasts.execute h hchains hexecute
  | halt hge hhalt => exact h.halt hchains hge hhalt
  | exception hge hexception =>
      rcases hchains.exception_cases hge hexception with
        ⟨-, ⟨text, hafter⟩, -⟩ | ⟨-, shown, text, heq, -, hshown, hgeShown, hhalt⟩
      · exact h.of_pcb (by rw [hafter]) (by rw [hafter])
      · have hkept : HoldsAt fd holds shown := h.of_pcb (by rw [heq]) (by rw [heq])
        exact hkept.halt hshown hgeShown hhalt

theorem LastsAt.call {call : Call} {value : Int32} {stores : Stores} (hlasts : LastsAt fd holds)
    (h : HoldsAt fd holds before) (hrunning : Occupied before before.running)
    (hcall : call.perform before = some (after, value, stores)) : HoldsAt fd holds after := by
  have honly := Call.callOnly hcall
  have hrun := honly.sameTasks.running_eq
  intro task htask
  have hold := (occupied_congr honly.slots task).mp htask
  by_cases hself : task = before.running
  · rw [hself, ← hrun]
    exact hlasts.changes _ _ (Call.changes hcall fd) (h before.running hrunning)
  · rw [honly.pcbOf_of_ne fun heq => hself (getPcb_injective hold.1 hrunning.1 heq)]
    exact h task hold

theorem LastsAt.programStep {event : ProgramEvent} {before after : Programs}
    (hlasts : LastsAt fd holds) (h : HoldsAt fd holds before.kernel)
    (hchains : Chains before.kernel) (hstep : programStep event before = some after) :
    HoldsAt fd holds after.kernel := by
  cases event with
  | kernel event =>
      obtain ⟨kernel, exit, hperform, rfl⟩ := programStep_kernel hstep
      exact hlasts.perform h hchains hperform
  | call call =>
      obtain ⟨hge, kernel, value, stores, hperform, rfl⟩ := programStep_call hstep
      exact hlasts.call h (hchains.running hge).1 hperform
  | vidmap screenStart =>
      rcases programStep_vidmap hstep with rfl | ⟨stores, rfl⟩
      · exact h
      · exact h.of_pcb rfl rfl

end Steps

theorem LastsAt.of_run {fd : UInt32} {holds : FileDescriptor → Prop} {events : List ProgramEvent}
    {start : Kernel} {final : Programs} (hlasts : LastsAt fd holds) (hstart : Boot start)
    (hrun : run LinuxOS.programStep events (freshPrograms start) = some final) :
    Chains final.kernel ∧ HoldsAt fd holds final.kernel := by
  have hkeep : ∀ event before after,
      Chains (Programs.kernel before) ∧ HoldsAt fd holds before.kernel →
      LinuxOS.programStep event before = some after →
      Chains after.kernel ∧ HoldsAt fd holds after.kernel :=
    fun _ _ _ h hstep => ⟨h.1.programStep hstep, hlasts.programStep h.2 h.1 hstep⟩
  have hfree : ∀ task, ¬ Occupied start task := fun task htask =>
    htask.2 (hstart.noSlots task htask.1)
  have hfirst : Chains (freshPrograms start).kernel ∧ HoldsAt fd holds start :=
    ⟨hstart.toNoTasks.chains, fun task htask => absurd htask (hfree task)⟩
  exact run_invariant hkeep hrun hfirst

theorem LastsAt.fdOf_of_run {fd : UInt32} {holds : FileDescriptor → Prop}
    {events : List ProgramEvent} {start : Kernel} {final : Programs} (hlasts : LastsAt fd holds)
    (hstart : Boot start)
    (hrun : run LinuxOS.programStep events (freshPrograms start) = some final)
    (hge : 0 ≤ final.kernel.tasksRunning) : holds (final.kernel.fdOf fd) := by
  obtain ⟨hchains, hkept⟩ := hlasts.of_run hstart hrun
  exact hkept _ (hchains.running hge).1

theorem Lasting.lastsAt {holds : FileDescriptor → Prop} (h : Lasting holds) {fd : UInt32}
    (hfd : fd ≤ 7) : LastsAt fd holds where
  inside := hfd
  initial := by
    unfold initialFd
    split
    · exact h.fresh _ _
    split
    · exact h.fresh _ _
    · exact h.fresh _ _
  changes := h.changes

theorem Lasting.of_run {holds : FileDescriptor → Prop} {events : List ProgramEvent}
    {start : Kernel} {final : Programs} (hlasting : Lasting holds) (hstart : Boot start)
    (hrun : run LinuxOS.programStep events (freshPrograms start) = some final) :
    Chains final.kernel ∧ Everywhere holds final.kernel := by
  have hlasts : ∀ fd ≤ 7, Chains final.kernel ∧ HoldsAt fd holds final.kernel :=
    fun fd hfd => (@Lasting.lastsAt holds hlasting fd hfd).of_run hstart hrun
  exact ⟨(hlasts 0 (by decide)).1, fun task htask fd hfd => (hlasts fd hfd).2 task htask⟩

theorem Lasting.fdOf_of_run {holds : FileDescriptor → Prop} {events : List ProgramEvent}
    {start : Kernel} {final : Programs} (hlasting : Lasting holds) (hstart : Boot start)
    (hrun : run LinuxOS.programStep events (freshPrograms start) = some final)
    (hge : 0 ≤ final.kernel.tasksRunning) {fd : UInt32} (hfd : fd ≤ 7) :
    holds (final.kernel.fdOf fd) :=
  (hlasting.lastsAt hfd).fdOf_of_run hstart hrun hge

theorem lasting_position :
    Lasting fun descriptor => descriptor.flags = 0 → descriptor.filePosition = 0 where
  fresh _ _ _ := rfl
  changes before after hchanges h hfree := by
    cases hchanges with
    | kept => exact h hfree
    | traced table hbefore => exact h hbefore
    | opened table entry hbefore => exact absurd hfree (by simp [FopsTable.openFd])
    | moved position hopen => exact absurd hfree hopen
    | closed hopen => exact position_closedBy hopen hfree

theorem lasting_inode : Lasting fun descriptor =>
    descriptor.flags = 0 ∨ descriptor.fopsTable = some .rtcFops → descriptor.inode = 0 where
  fresh _ _ _ := rfl
  changes before after hchanges h hafter := by
    cases hchanges with
    | kept => exact h hafter
    | traced table hbefore => exact h (.inl hbefore)
    | opened table entry hbefore =>
        have htable : table = .rtcFops := by simpa [FopsTable.openFd] using hafter
        rw [htable]
        exact h (.inl hbefore)
    | moved position hopen => exact h hafter
    | closed hopen =>
        unfold closedBy at hafter ⊢
        split at hafter <;> simp_all

/-! ## What `open` depends on -/

structure NewFile where
  fd : UInt32
  table : FopsTable
  inode : UInt32

/-- The answer that name, image and free descriptors determine; `none` for a refusal. -/
def openAnswer (fs : FileSystem) (free : UInt32 → Bool) (filename : Option CString) :
    Option NewFile :=
  filename.bind fun filename =>
    if filename.chars = [] then none
    else
      (lowestFree free).bind fun fd =>
        (fs.lookup filename.chars).bind fun entry =>
          (typeFops entry.type).map fun table => ⟨fd, table, table.openInode entry 0⟩

/-- A call of `open` with this answer, which touches nothing else that is in use. -/
structure OpensAs (answer : Option NewFile) (kernel opened : Kernel) (result : Int32) : Prop where
  result : result = (answer.map fun file => file.fd.toInt32).getD (-1)
  descriptor : ∀ file ∈ answer, opened.fdOf file.fd = ⟨some file.table, file.inode, 0, 1⟩
  others : ∀ task fd, ((kernel.pcbOf task).fd fd).flags ≠ 0 →
    (opened.pcbOf task).fd fd = (kernel.pcbOf task).fd fd
  terminals : opened.terminal = kernel.terminal
  displayed : opened.displayTerminalId = kernel.displayTerminalId

def OpensByName (filename : Option CString) (kernel : Kernel) : Prop :=
  ∃ opened result, syscallOpen filename kernel = some (opened, result) ∧
    OpensAs (openAnswer kernel.fs kernel.isFree filename) kernel opened result

/-- If the lookup is made and finds an entry, it is one of a type that has a table. -/
def TypeKnown (filename : Option CString) (kernel : Kernel) : Prop :=
  ∀ name entry, filename = some name → name.chars ≠ [] → (lowestFree kernel.isFree).isSome →
    kernel.fs.lookup name.chars = some entry → entry.type ≤ 2

/-- A free descriptor as every history leaves it, but for the table. -/
structure Cleared (descriptor : FileDescriptor) : Prop where
  position : descriptor.filePosition = 0
  inode : descriptor.inode = 0

theorem flags_modifyFd_of_free {kernel : Kernel} {fd : UInt32}
    {change : FileDescriptor → FileDescriptor} (hfree : (kernel.fdOf fd).flags = 0)
    {task other : UInt32} (hopen : ((kernel.pcbOf task).fd other).flags ≠ 0) :
    ((kernel.modifyFd fd change).pcbOf task).fd other = (kernel.pcbOf task).fd other := by
  rw [modifyFd_eq_withFds]
  by_cases htask : getPcb task = getPcb kernel.running
  · have hown : kernel.pcbOf task = kernel.pcbOf kernel.running := by
      rw [Kernel.pcbOf, htask, Kernel.pcbOf]
    have hownBehind : (kernel.withFds (Function.update kernel.fdOf fd
        (change (kernel.fdOf fd)))).pcbOf task = (kernel.withFds (Function.update kernel.fdOf fd
          (change (kernel.fdOf fd)))).pcbOf kernel.running := by
      rw [Kernel.pcbOf, htask, Kernel.pcbOf]
    have hne : other ≠ fd := by
      rintro rfl
      rw [hown] at hopen
      exact hopen hfree
    rw [hownBehind, pcbOf_withFds_self, hown]
    exact Function.update_of_ne hne _ _
  · rw [pcbOf_withFds_of_ne _ htask]

theorem OpensAs.refused (kernel : Kernel) : OpensAs none kernel kernel (-1) :=
  ⟨rfl, fun _ h => (nomatch h), fun _ _ _ => rfl, rfl, rfl⟩

theorem typeFops_eq_none_iff {type : UInt32} : typeFops type = none ↔ ¬ type ≤ 2 := by
  constructor
  · intro hnone hle
    obtain ⟨table, htable⟩ := exists_typeFops hle
    rw [hnone] at htable
    cases htable
  · intro hgt
    have hne : ∀ known ≤ 2, type ≠ known := fun known hknown heq => hgt (heq ▸ hknown)
    rw [typeFops, if_neg (hne 0 (by decide)), if_neg (hne 1 (by decide)),
      if_neg (hne 2 (by decide))]

theorem openDevice_of_typeFops {type : UInt32} {table : FopsTable} (h : typeFops type = some table)
    (kernel : Kernel) : (table.openDevice kernel).terminal = kernel.terminal ∧
      (table.openDevice kernel).displayTerminalId = kernel.displayTerminalId := by
  unfold typeFops at h
  split at h
  · cases h
    exact ⟨rfl, rfl⟩
  split at h
  · cases h
    exact ⟨rfl, rfl⟩
  split at h
  · cases h
    exact ⟨rfl, rfl⟩
  · cases h

section Answers

variable {kernel : Kernel} {filename : CString} {fd : UInt32} {entry : Dentry}

theorem OpensByName.of_refused {filename : Option CString}
    (hopen : syscallOpen filename kernel = some (kernel, -1))
    (hanswer : openAnswer kernel.fs kernel.isFree filename = none) :
    OpensByName filename kernel :=
  ⟨kernel, -1, hopen, by rw [hanswer]; exact .refused kernel⟩

theorem openAnswer_of_free (hname : filename.chars ≠ [])
    (hfree : lowestFree kernel.isFree = some fd) :
    openAnswer kernel.fs kernel.isFree (some filename) =
      (kernel.fs.lookup filename.chars).bind fun entry =>
        (typeFops entry.type).map fun table => ⟨fd, table, table.openInode entry 0⟩ := by
  rw [openAnswer, Option.bind_some, if_neg hname, hfree, Option.bind_some]

theorem opensByName_of_missing (hname : filename.chars ≠ [])
    (hfree : lowestFree kernel.isFree = some fd)
    (hmissing : kernel.fs.lookup filename.chars = none) :
    OpensByName (some filename) kernel := by
  refine ⟨_, _, syscallOpen_missing hname hfree hmissing, ?_⟩
  rw [openAnswer_of_free hname hfree, hmissing, Option.bind_none]
  exact ⟨rfl, fun _ h => (nomatch h),
    fun _ _ hopen => flags_modifyFd_of_free (flags_of_lowestFree hfree) hopen, rfl, rfl⟩

theorem opensByName_of_known (hname : filename.chars ≠ [])
    (hfree : lowestFree kernel.isFree = some fd) (hcleared : Cleared (kernel.fdOf fd))
    (hfound : kernel.fs.lookup filename.chars = some entry) (htype : entry.type ≤ 2) :
    OpensByName (some filename) kernel := by
  obtain ⟨table, htable⟩ := exists_typeFops htype
  obtain ⟨hterminal, hdisplayed⟩ := openDevice_of_typeFops htable kernel
  have hbehind : tableBehind filename entry (kernel.fdOf fd).fopsTable = some table := by
    rw [tableBehind, htable, Option.some_or]
  have hopen := syscallOpen_found hname hfree hfound
  rw [hbehind] at hopen
  refine ⟨_, _, hopen, ?_⟩
  rw [openAnswer_of_free hname hfree, hfound, Option.bind_some, htable]
  refine ⟨rfl, ?_, fun task other hother => ?_, hterminal, hdisplayed⟩
  · rintro file ⟨⟩
    rw [fdOf_modifyFd, fdOf_openDevice, Function.update_self, FopsTable.openFd,
      hcleared.position, hcleared.inode]
  · have hflags : ((table.openDevice kernel).fdOf fd).flags = 0 := by
      rw [fdOf_openDevice]
      exact flags_of_lowestFree hfree
    have hpcb : (table.openDevice kernel).pcbOf task = kernel.pcbOf task := by
      rw [Kernel.pcbOf, pcb_openDevice]
      rfl
    rw [← hpcb] at hother
    rw [flags_modifyFd_of_free hflags hother, hpcb]

theorem not_opensByName_of_unknown (hname : filename.chars ≠ [])
    (hfree : lowestFree kernel.isFree = some fd)
    (hfound : kernel.fs.lookup filename.chars = some entry) (htype : ¬ entry.type ≤ 2) :
    ¬ OpensByName (some filename) kernel := by
  rintro ⟨opened, result, hopen, hopens⟩
  have hresult := hopens.result
  rw [openAnswer_of_free hname hfree, hfound, Option.bind_some,
    typeFops_eq_none_iff.mpr htype] at hresult
  rw [syscallOpen_found hname hfree hfound] at hopen
  obtain ⟨table, -, heq⟩ := Option.map_eq_some_iff.mp hopen
  cases heq
  obtain ⟨-, hhigh, -⟩ := lowestFree_bounds hfree
  have hminus : fd.toInt32 = -1 := hresult
  have hfd : fd = (-1 : Int32).toUInt32 := by rw [← hminus, UInt32.toUInt32_toInt32]
  rw [hfd] at hhigh
  exact absurd hhigh (by decide)

end Answers

theorem opensByName_iff_of_cleared {kernel : Kernel}
    (hcleared : ∀ fd ≤ 7, (kernel.fdOf fd).flags = 0 → Cleared (kernel.fdOf fd))
    (filename : Option CString) : OpensByName filename kernel ↔ TypeKnown filename kernel := by
  cases filename with
  | none => exact iff_of_true (.of_refused rfl rfl) fun _ _ h => nomatch h
  | some filename =>
      by_cases hname : filename.chars = []
      · refine iff_of_true (.of_refused (syscallOpen_empty hname) (if_pos hname)) ?_
        rintro name entry ⟨⟩ hne
        exact absurd hname hne
      cases hfree : lowestFree kernel.isFree with
      | none =>
          refine iff_of_true (.of_refused (syscallOpen_full hfree) ?_) ?_
          · rw [openAnswer, Option.bind_some, if_neg hname, hfree, Option.bind_none]
          · rintro name entry - - hsome
            rw [hfree] at hsome
            cases hsome
      | some fd =>
          obtain ⟨-, hhigh, -⟩ := lowestFree_bounds hfree
          cases hlookup : kernel.fs.lookup filename.chars with
          | none =>
              refine iff_of_true (opensByName_of_missing hname hfree hlookup) ?_
              rintro name entry ⟨⟩ - - hfound
              rw [hlookup] at hfound
              cases hfound
          | some entry =>
              by_cases htype : entry.type ≤ 2
              · refine iff_of_true (opensByName_of_known hname hfree
                  (hcleared fd hhigh (flags_of_lowestFree hfree)) hlookup htype) ?_
                rintro name found ⟨⟩ - - hfound
                rw [hlookup] at hfound
                cases hfound
                exact htype
              · refine iff_of_false (not_opensByName_of_unknown hname hfree hlookup htype) ?_
                intro hknown
                exact htype (hknown filename entry rfl hname (by rw [hfree]; rfl) hlookup)

/--
In every state that boot and programs can reach, `open` does what the name, the
image and the free descriptors say exactly when the name does not lead to an
entry of an unknown type.
-/
theorem opensByName_iff {events : List ProgramEvent} {start : Kernel} {final : Programs}
    (hrun : run programStep events (freshPrograms start) = some final) (hstart : Boot start)
    (hge : 0 ≤ final.kernel.tasksRunning) (filename : Option CString) :
    OpensByName filename final.kernel ↔ TypeKnown filename final.kernel :=
  opensByName_iff_of_cleared (fun _ hfd hfree =>
    ⟨lasting_position.fdOf_of_run hstart hrun hge hfd hfree,
      lasting_inode.fdOf_of_run hstart hrun hge hfd (.inl hfree)⟩) filename

def failedOpen : List ProgramEvent :=
  bootTicks.map .kernel ++ [.call (.openFile (some stdinName))]

theorem opensByName_iff_failedOpen :
    ∃ final, run programStep failedOpen (freshPrograms (bootKernel shellImage)) = some final ∧
      0 ≤ final.kernel.tasksRunning ∧
      (OpensByName (some shellName) final.kernel ↔ TypeKnown (some shellName) final.kernel) := by
  have hany : (run programStep failedOpen (freshPrograms (bootKernel shellImage))).any
      (fun final => decide (0 ≤ final.kernel.tasksRunning)) = true := by
    decide +kernel
  obtain ⟨final, hrun, hge⟩ := (Option.any_eq_true _ _).mp hany
  have hrunning := of_decide_eq_true hge
  exact ⟨final, hrun, hrunning,
    opensByName_iff hrun (boot_bootKernel shellImage) hrunning (some shellName)⟩

def oddName : CString := ⟨[0x79], by simp, by decide⟩

/-- The image with a third entry, `y` of type 3. -/
def oddImage : FileSystem :=
  { shellImage with
    memory := Stores.apply (storesAt 0x500000 [3] ++ storesAt 0x5000C0 oddName.chars ++
      storesAt 0x5000E0 [3]) shellImage.memory }

/-- After the failed `open` the entry is opened as the terminal; before it, `NULL` is called. -/
theorem not_opensByName_failedOpen :
    (∃ booted, run programStep (bootTicks.map .kernel) (freshPrograms (bootKernel oddImage)) =
        some booted ∧ syscallOpen (some oddName) booted.kernel = none) ∧
      ∃ final opened,
        run programStep failedOpen (freshPrograms (bootKernel oddImage)) = some final ∧
        0 ≤ final.kernel.tasksRunning ∧
        syscallOpen (some oddName) final.kernel = some (opened, 2) ∧
        (opened.fdOf 2).fopsTable = some .stdinFops ∧
        ¬ OpensByName (some oddName) final.kernel := by
  have hbooted : (run programStep (bootTicks.map .kernel)
      (freshPrograms (bootKernel oddImage))).any
        (fun booted => (syscallOpen (some oddName) booted.kernel).isNone) = true := by
    decide +kernel
  have hfinal : (run programStep failedOpen (freshPrograms (bootKernel oddImage))).any
      (fun final => decide (0 ≤ final.kernel.tasksRunning) &&
        (openAnswer final.kernel.fs final.kernel.isFree (some oddName)).isNone &&
        (syscallOpen (some oddName) final.kernel).any fun opened =>
          opened.2 == 2 && (opened.1.fdOf 2).fopsTable = some .stdinFops) = true := by
    decide +kernel
  obtain ⟨booted, hrunBooted, hnull⟩ := (Option.any_eq_true _ _).mp hbooted
  obtain ⟨final, hrun, hopen⟩ := (Option.any_eq_true _ _).mp hfinal
  simp only [Bool.and_eq_true, decide_eq_true_eq, Option.isNone_iff_eq_none] at hnull hopen
  obtain ⟨⟨hge, hanswer⟩, hopen⟩ := hopen
  obtain ⟨⟨opened, result⟩, hopen, htable⟩ := (Option.any_eq_true _ _).mp hopen
  simp only [Bool.and_eq_true, beq_iff_eq, decide_eq_true_eq] at htable
  obtain ⟨rfl, htable⟩ := htable
  refine ⟨⟨booted, hrunBooted, hnull⟩, final, opened, hrun, hge, hopen, htable, ?_⟩
  rintro ⟨opened', result, hopen', hopens⟩
  rw [hopen, Option.some.injEq, Prod.mk.injEq] at hopen'
  have hresult := hopens.result
  rw [hanswer, ← hopen'.2] at hresult
  exact absurd hresult (by decide)

end LinuxOS
