import LinuxOS.Foundation.Client
import LinuxOS.Machine.Progress
import LinuxOS.Tty.LineDiscipline
import LinuxOS.Tty.WriteCount

/-!
# User programs as clients of the kernel

The library functions `ece391_*` ask the kernel, and in between interrupts move
the machine.  Other programs run only while the task waits for one that it has
started.  A local array of a program is a value with an address: nobody else
reaches the task's memory, so that the array changes by the program's own stores
and by those of the calls it makes.
-/

namespace LinuxOS

open Foundation

/-! ## Requests -/

inductive Request where
  | getargs (buf : UInt32) (nbytes : Int32)
  | openFile (filename : CString)
  | readFd (fd : Int32) (buf : UInt32) (nbytes : Int32)
  | writeFd (fd : Int32) (source : Nat → UInt8) (nbytes : Int32)
  | execute (command : CString)

/-- The call that the kernel performs; how many interrupts a read waits for is not the program's. -/
inductive Request.IsCall : Request → Call → Prop where
  | getargs (buf : UInt32) (nbytes : Int32) : IsCall (.getargs buf nbytes) (.getargs buf nbytes)
  | openFile (filename : CString) : IsCall (.openFile filename) (.openFile (some filename))
  | readFd (interrupts : UInt32) (fd : Int32) (buf : UInt32) (nbytes : Int32) :
      IsCall (.readFd fd buf nbytes) (.readFd interrupts fd.toUInt32 buf nbytes)
  | writeFd (fd : Int32) (source : Nat → UInt8) (nbytes : Int32) :
      IsCall (.writeFd fd source nbytes) (.writeFd fd.toUInt32 source nbytes)

abbrev UserProgram (α : Type) := Client Request (Int32 × Stores) α

structure LocalArray where
  addr : UInt32
  cells : Nat → UInt8

def LocalArray.set (array : LocalArray) (index : Nat) (byte : UInt8) : LocalArray :=
  { array with cells := Function.update array.cells index byte }

def LocalArray.written (array : LocalArray) (stores : Stores) : LocalArray :=
  { array with
    cells := fun index => Stores.apply stores (fun addr => array.cells (addr - array.addr).toNat)
      (array.addr + UInt32.ofNat index) }

/-- The string at the beginning of an array, if it ends in the first `size` cells. -/
def stringIn (size : Nat) (cells : Nat → UInt8) : Option CString :=
  if h : (untilNul cells size 0).length < size ∧ size ≤ 2 ^ 31 then
    some {
      chars := untilNul cells size 0
      noNul := fun _ => ne_zero_of_mem_untilNul
      short := h.1.trans_le h.2 }
  else none

/-! ## `ece391syscall.S` and `ece391support.c` -/

def ece391Getargs (buf : LocalArray) (nbytes : Int32) : UserProgram (Int32 × LocalArray) := do
  let (value, stores) ← Client.request (.getargs buf.addr nbytes)
  return (value, buf.written stores)

def ece391Open (filename : CString) : UserProgram Int32 := do
  let (value, _) ← Client.request (.openFile filename)
  return value

def ece391Read (fd : Int32) (buf : LocalArray) (start : Nat) (nbytes : Int32) :
    UserProgram (Int32 × LocalArray) := do
  let (value, stores) ← Client.request (.readFd fd (buf.addr + UInt32.ofNat start) nbytes)
  return (value, buf.written stores)

def ece391Write (fd : Int32) (source : Nat → UInt8) (nbytes : Int32) : UserProgram Int32 := do
  let (value, _) ← Client.request (.writeFd fd source nbytes)
  return value

def ece391Execute (command : CString) : UserProgram Int32 := do
  let (value, _) ← Client.request (.execute command)
  return value

def literal (text : String) : List UInt8 := text.toList.map fun char => UInt8.ofNat char.toNat

def ece391Fdputs (fd : Int32) (s : List UInt8) : UserProgram Unit := do
  let _ ← ece391Write fd (fun index => s.getD index 0) (Int32.ofNat s.length)

/-! ## The kernel as a service -/

/-- The machine, with what the program has had printed and what its reads have delivered. -/
structure World where
  console : Console
  printed : List UInt8
  delivered : List (List UInt8)

def Call.delivered (kernel : Kernel) (value : Int32) (stores : Stores) : Call → List (List UInt8)
  | .readFd _ fd _ _ =>
      if (fd ≤ 7 ∧ fd ≠ 1) ∧ (kernel.fdOf fd).flags ≠ 0 ∧
          (kernel.fdOf fd).fopsTable = some .stdinFops then [returnedBytes value stores]
      else []
  | _ => []

/--
The step does not switch the display.  Behind a switch the processor goes on at
the same instruction with another frame mapped, so that the program that ran is
no longer there.
-/
def NoSwitch (console : Console) (event : MachineEvent) : Prop :=
  ∀ after, machineStep event console = some after →
    after.kernel.displayTerminalId = console.kernel.displayTerminalId

/-- Interrupts have come, and the task runs on. -/
structure Interrupted (task : UInt32) (before after : World) : Prop where
  run : ∃ events, run machineStep events before.console = some after.console ∧
    ∀ taken ∈ stepsAlong machineStep events before.console,
      taken.2.byProgram = false ∧ NoSwitch taken.1 taken.2
  running : after.console.kernel.running = task
  printed : after.printed = before.printed
  delivered : after.delivered = before.delivered

/--
The running task's request is performed as a step of the machine.  An `execute`
that starts a program is answered when a step of that program, or of one that it
has started, goes back to the task that asked.
-/
inductive Answered (task : UInt32) (before after : World) : Request → Int32 × Stores → Prop where
  | called {request : Request} {call : Call} {kernel : Kernel} {value : Int32} {stores : Stores}
      (hcall : request.IsCall call)
      (hperform : call.perform before.console.kernel = some (kernel, value, stores))
      (hstep : machineStep (.program (.call call)) before.console = some after.console)
      (hkernel : after.console.kernel = kernel)
      (hprinted : after.printed = before.printed ++ call.printed before.console.kernel)
      (hdelivered : after.delivered =
        before.delivered ++ call.delivered before.console.kernel value stores) :
      Answered task before after request (value, stores)
  | refused {command : CString} {kernel : Kernel} {value : Int32} (frame : ExecuteFrame)
      (hexecute : syscallExecute frame command before.console.kernel = (kernel, .returned value))
      (hafter : after = { before with console := { before.console with kernel := kernel } }) :
      Answered task before after (.execute command) (value, [])
  | ended {command : CString} {started kernel : Kernel} {eip value esp ebp : UInt32}
      {events : List MachineEvent} {event : Event} {last : Console} (frame : ExecuteFrame)
      (hexecute : syscallExecute frame command before.console.kernel = (started, .entered eip))
      (hrun : run machineStep events { before.console with kernel := started } = some last)
      (hothers : ∀ taken ∈ stepsAlong machineStep events
        { before.console with kernel := started },
          NotBy task taken.1 taken.2 ∧ NoSwitch taken.1 taken.2)
      (hother : NotBy task last (.program (.kernel event)))
      (hperform : perform event last.kernel = some (kernel, .resumed value esp ebp))
      (hback : kernel.running = task)
      (hafter : after = { before with console := { last with kernel := kernel } }) :
      Answered task before after (.execute command) (value.toInt32, [])

/-- A read that waits, or a program that may run for ever. -/
inductive Request.Waits (kernel : Kernel) : Request → Prop where
  | call {request : Request} {call : Call} (hcall : request.IsCall call)
      (hwaits : call.Waits kernel) : Waits kernel request
  | execute {command : CString} {started : Kernel} {eip : UInt32} (frame : ExecuteFrame)
      (hexecute : syscallExecute frame command kernel = (started, .entered eip)) :
      Waits kernel (.execute command)

def taskService (task : UInt32) : Service World Request (Int32 × Stores) where
  between := Interrupted task
  answers request before after reply := Answered task before after request reply
  waits request world := request.Waits world.console.kernel

/-! ## What a program has to itself -/

/-- The state of a task between two of its requests. -/
structure Own (task : UInt32) (fs : FileSystem) (argument : Nat → UInt8)
    (fds : UInt32 → FileDescriptor) (printed : List UInt8) (world : World) : Prop where
  serving : Serving world.console.kernel
  occupied : Occupied world.console.kernel task
  image : world.console.kernel.fs = fs
  argument : (world.console.kernel.pcbOf task).argumentBuf = argument
  fds : (world.console.kernel.pcbOf task).fd = fds
  printed : world.printed = printed

section Own

variable {task : UInt32} {fs : FileSystem} {argument : Nat → UInt8}
  {fds fds' : UInt32 → FileDescriptor} {printed : List UInt8} {world : World}

theorem own_of_serving (hserving : Serving world.console.kernel)
    (hoccupied : Occupied world.console.kernel task) :
    Own task world.console.kernel.fs (world.console.kernel.pcbOf task).argumentBuf
      (world.console.kernel.pcbOf task).fd world.printed world where
  serving := hserving
  occupied := hoccupied
  image := rfl
  argument := rfl
  fds := rfl
  printed := rfl

structure Spared (task : UInt32) (before after : Kernel) : Prop where
  serving : Serving after
  occupied : Occupied after task
  untouched : Untouched task before after
  image : after.fs = before.fs

theorem Spared.trans {first second third : Kernel} (h : Spared task first second)
    (h' : Spared task second third) : Spared task first third :=
  ⟨h'.serving, h'.occupied, h.untouched.trans h'.untouched, h'.image.trans h.image⟩

theorem spared_of_effect {before after : Kernel} {mine : Bool} (hserving : Serving before)
    (hoccupied : Occupied before task) (heffect : Effect before after mine)
    (hother : mine = true → before.running ≠ task) : Spared task before after := by
  obtain ⟨hafter, hkept⟩ := untouched_of_effect hserving.toSecure heffect hoccupied hother
  exact ⟨hserving.kept heffect, hafter, hkept, heffect.image⟩

theorem spared_of_run {events : List MachineEvent} {start final : Console}
    (hserving : Serving start.kernel) (hoccupied : Occupied start.kernel task)
    (hrun : run machineStep events start = some final)
    (hothers : ∀ taken ∈ stepsAlong machineStep events start, NotBy task taken.1 taken.2) :
    Spared task start.kernel final.kernel := by
  have hrelates : ∀ event before after,
      (Serving (Console.kernel before) ∧ Occupied before.kernel task) →
      NotBy task before event → machineStep event before = some after →
      (Serving after.kernel ∧ Occupied after.kernel task) ∧
        (Untouched task before.kernel after.kernel ∧ after.kernel.fs = before.kernel.fs) := by
    intro event before after hbefore hnot hstep
    have hspared := spared_of_effect hbefore.1 hbefore.2
      (hbefore.1.toSecure.effect hstep) hnot
    exact ⟨⟨hspared.serving, hspared.occupied⟩, hspared.untouched, hspared.image⟩
  have hrefl : ∀ console : Console, Untouched task console.kernel console.kernel ∧
      console.kernel.fs = console.kernel.fs := fun console => ⟨.refl task console.kernel, rfl⟩
  have htrans : ∀ first second third : Console,
      (Untouched task first.kernel second.kernel ∧ second.kernel.fs = first.kernel.fs) →
      (Untouched task second.kernel third.kernel ∧ third.kernel.fs = second.kernel.fs) →
      Untouched task first.kernel third.kernel ∧ third.kernel.fs = first.kernel.fs :=
    fun _ _ _ h h' => ⟨h.1.trans h'.1, h'.2.trans h.2⟩
  obtain ⟨⟨hserving', hoccupied'⟩, huntouched, himage⟩ :=
    run_relates hrefl htrans hrelates hrun hothers ⟨hserving, hoccupied⟩
  exact ⟨hserving', hoccupied', huntouched, himage⟩

theorem spared_of_execute {frame : ExecuteFrame} {command : CString} {before after : Kernel}
    {exit : Exit} (hserving : Serving before) (hoccupied : Occupied before task)
    (hexecute : syscallExecute frame command before = (after, exit)) :
    Spared task before after := by
  have heffect := execute_effect hexecute
  have hserved := hserving.kept heffect
  rcases syscallExecute_cases hexecute with
    ⟨-, text, rfl⟩ | ⟨slot, fileCheck, eip, hslot, -, rfl⟩
  · exact ⟨hserved, hoccupied, .of_pcb rfl rfl, heffect.image⟩
  · have hstarted := (hserving.tree.chains hserving.active).executeClaim_started hslot frame
      command fileCheck
    exact ⟨hserved, (hstarted.occupied_iff hslot.lt task).mpr (.inr hoccupied),
      .executeClaim hserving.toSecure hslot hoccupied frame command fileCheck, heffect.image⟩

theorem Own.spared {after : World} (h : Own task fs argument fds printed world)
    (hspared : Spared task world.console.kernel after.console.kernel)
    (hprinted : after.printed = world.printed) : Own task fs argument fds printed after := by
  obtain ⟨child, esp, ebp, hpcb⟩ := hspared.untouched.pcb
  exact {
    serving := hspared.serving
    occupied := hspared.occupied
    image := hspared.image.trans h.image
    argument := by
      rw [hpcb]
      exact h.argument
    fds := by
      rw [hpcb]
      exact h.fds
    printed := hprinted.trans h.printed }

theorem Own.interrupted {ready : World} (h : Own task fs argument fds printed world)
    (hinterrupted : Interrupted task world ready) : Own task fs argument fds printed ready := by
  obtain ⟨events, hrun, hinterrupts⟩ := hinterrupted.run
  have hothers : ∀ taken ∈ stepsAlong machineStep events world.console,
      NotBy task taken.1 taken.2 := by
    intro taken htaken hmine
    rw [(hinterrupts taken htaken).1] at hmine
    cases hmine
  exact h.spared (spared_of_run h.serving h.occupied hrun hothers) hinterrupted.printed

theorem Own.called {call : Call} {kernel : Kernel} {value : Int32} {stores : Stores} {after : World}
    (h : Own task fs argument fds printed world) (hrunning : world.console.kernel.running = task)
    (hcall : call.perform world.console.kernel = some (kernel, value, stores))
    (hstep : machineStep (.program (.call call)) world.console = some after.console)
    (hkernel : after.console.kernel = kernel) (hfds : kernel.fdOf = fds')
    (hprinted : after.printed = printed ++ call.printed world.console.kernel) :
    Own task fs argument fds' (printed ++ call.printed world.console.kernel) after := by
  have hwrites := Call.writes h.serving.types hcall
  obtain ⟨fds'', hpcb⟩ := hwrites.pcbOf_self
  rw [hrunning] at hpcb
  have hrunning' : kernel.running = task := hwrites.sameTasks.running_eq.trans hrunning
  refine {
    serving := h.serving.machineStep hstep
    occupied := ?_
    image := ?_
    argument := ?_
    fds := ?_
    printed := hprinted }
  · rw [hkernel]
    exact (occupied_congr hwrites.slots task).mpr h.occupied
  · rw [hkernel, hwrites.image]
    exact h.image
  · rw [hkernel, hpcb]
    exact h.argument
  · rw [hkernel, ← hfds, ← hrunning']
    rfl

theorem Own.fdOf (h : Own task fs argument fds printed world)
    (hrunning : world.console.kernel.running = task) : world.console.kernel.fdOf = fds := by
  rw [← h.fds, ← hrunning]
  rfl

/--
The rule of calls.  If the running task's call, unless it waits, comes back with
a good reply, then so does the request, whenever the task gets to make it.
-/
theorem meets_call {request : Request} {good : Int32 × Stores → List (List UInt8) → Prop}
    {bytes : List UInt8}
    (h : Own task fs argument fds printed world) (hrequest : ∃ call, request.IsCall call)
    (hperform : ∀ kernel call, Serving kernel → kernel.running = task → kernel.fs = fs →
      (kernel.pcbOf task).argumentBuf = argument → kernel.fdOf = fds → request.IsCall call →
      ¬ call.Waits kernel → ∃ after value stores,
        call.perform kernel = some (after, value, stores) ∧ storesInside stores = true ∧
        good (value, stores) (call.delivered kernel value stores) ∧
        after.fdOf = fds' ∧ call.printed kernel = bytes) :
    Meets (taskService task) (fun reply next => ∃ lines, good reply lines ∧
      next.delivered = world.delivered ++ lines ∧ Own task fs argument fds' (printed ++ bytes) next)
      (Client.request request) world := by
  intro ready hinterrupted
  have hready := h.interrupted hinterrupted
  have hserving := hready.serving
  have hrunning := hinterrupted.running
  have hback := fun call => hperform ready.console.kernel call hserving hrunning hready.image
    hready.argument (hready.fdOf hrunning)
  constructor
  · obtain ⟨call, hcall⟩ := hrequest
    by_cases hwaits : call.Waits ready.console.kernel
    · exact .inl (.call hcall hwaits)
    · obtain ⟨after, value, stores, hafter, hinside, -⟩ := hback call hcall hwaits
      have hstep : machineStep (.program (.call call)) ready.console =
          some { ready.console with kernel := after } := by
        simp only [machineStep, programStep, freshPrograms, hserving.active, hafter, hinside,
          if_true, Option.bind_some, Option.map_some]
      exact .inr ⟨⟨{ ready.console with kernel := after },
        ready.printed ++ call.printed ready.console.kernel,
        ready.delivered ++ call.delivered ready.console.kernel value stores⟩, (value, stores),
        .called hcall hafter hstep rfl rfl rfl⟩
  · intro after reply hanswer
    cases hanswer with
    | called hcall hafter hstep hkernel hprinted hdelivered =>
        -- the call has come back, so that it does not wait
        have hwaits := (hserving.isSome_perform_iff _).mp (by rw [hafter]; rfl)
        obtain ⟨after', value', stores', hafter', -, hgood, hfds, hbytes⟩ :=
          hback _ hcall hwaits
        rw [hafter', Option.some.injEq, Prod.mk.injEq, Prod.mk.injEq] at hafter
        obtain ⟨rfl, rfl, rfl⟩ := hafter
        rw [hready.printed] at hprinted
        refine ⟨_, hgood, hdelivered.trans (congrArg (· ++ _) hinterrupted.delivered), ?_⟩
        rw [← hbytes]
        exact hready.called hrunning hafter' hstep hkernel hfds hprinted
    | refused =>
        obtain ⟨call, hcall⟩ := hrequest
        cases hcall
    | ended =>
        obtain ⟨call, hcall⟩ := hrequest
        cases hcall

theorem meets_request {request : Request} {value : Int32} {stores : Stores} {bytes : List UInt8}
    (h : Own task fs argument fds printed world) (hrequest : ∃ call, request.IsCall call)
    (hinside : storesInside stores = true)
    (hperform : ∀ kernel call, Serving kernel → kernel.running = task → kernel.fs = fs →
      (kernel.pcbOf task).argumentBuf = argument → kernel.fdOf = fds → request.IsCall call →
      ¬ call.Waits kernel → ∃ after, call.perform kernel = some (after, value, stores) ∧
        after.fdOf = fds' ∧ call.printed kernel = bytes) :
    Meets (taskService task) (fun reply next => reply = (value, stores) ∧
      Own task fs argument fds' (printed ++ bytes) next) (Client.request request) world := by
  have hanswer : Meets (taskService task) (fun reply next => ∃ lines, reply = (value, stores) ∧
      next.delivered = world.delivered ++ lines ∧ Own task fs argument fds' (printed ++ bytes) next)
      (Client.request request) world := by
    refine meets_call h hrequest fun kernel call hserving hrunning himage hargument hfds hcall
      hwaits => ?_
    obtain ⟨after, hafter, hkept, hbytes⟩ :=
      hperform kernel call hserving hrunning himage hargument hfds hcall hwaits
    exact ⟨after, value, stores, hafter, hinside, rfl, hkept, hbytes⟩
  exact meets_mono (fun reply next ⟨_, hreply, _, hnext⟩ => ⟨hreply, hnext⟩) hanswer

def Request.NoRead (request : Request) : Prop :=
  ∀ fd buf nbytes, request ≠ .readFd fd buf nbytes

theorem delivered_of_noRead {request : Request} {ready after : World} {reply : Int32 × Stores}
    (hnoRead : request.NoRead) (hanswer : Answered task ready after request reply) :
    after.delivered = ready.delivered := by
  cases hanswer with
  | called hcall _ _ _ _ hdelivered =>
      cases hcall with
      | readFd interrupts fd buf nbytes => exact absurd rfl (hnoRead fd buf nbytes)
      | _ => exact hdelivered.trans (List.append_nil _)
  | refused _ _ hafter => rw [hafter]
  | ended _ _ _ _ _ _ _ hafter => rw [hafter]

theorem meets_noRead {α : Type} {post : α → World → Prop} {program : UserProgram α}
    (hnoRead : program.Asks Request.NoRead) (h : Meets (taskService task) post program world) :
    Meets (taskService task) (fun value next => post value next ∧ next.delivered = world.delivered)
      program world := by
  have hbetween : ∀ next ready : World, Interrupted task next ready → next.delivered = world.delivered →
      ready.delivered = world.delivered := fun _ _ hinterrupted hkept => hinterrupted.delivered.trans hkept
  have hanswers : ∀ (request : Request) (ready after : World) (reply : Int32 × Stores),
      request.NoRead → Answered task ready after request reply → ready.delivered = world.delivered →
      after.delivered = world.delivered :=
    fun _ _ _ _ hrequest hanswer hkept => (delivered_of_noRead hrequest hanswer).trans hkept
  exact meets_frame hbetween hanswers hnoRead rfl h

end Own

end LinuxOS
