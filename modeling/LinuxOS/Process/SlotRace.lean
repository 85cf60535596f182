import LinuxOS.Kernel.Boot
import LinuxOS.Process.AddressSpace

/-!
# Two executes under interrupts

The system-call entry enables interrupts, so that the search for a free slot
and its claim are separate steps of an `execute`.  Between them another
`execute` may run, behind a timer tick that spawns a shell or behind a switch
of the display to another terminal's task.

That a switch lets the task of the other terminal go on with its `execute` is
the order of steps asked about, not a step of `switch_display_terminal`: its
last assembly loads no stack pointers of the next task, so that the function
by itself comes back to its caller.
-/

namespace LinuxOS

open Foundation

/-- How far an `execute` has come: `found` holds its local `new_slot`. -/
inductive Phase where
  | waiting
  | found (newSlot : Int32)
  | started (slot : UInt32)
  | refused
  deriving DecidableEq

structure Race where
  kernel : Kernel
  phase : Bool → Phase

inductive RaceEvent where
  | find (caller : Bool)
  | claim (caller : Bool) (frame : ExecuteFrame) (command : CString) (fileCheck : Dentry)
  | chord (regs : SwitchRegs) (tid : UInt32)
  /-- a tick that comes back; the shell that a tick spawns is one of the two executes -/
  | tick (frame : TickFrame)

/-- `new_slot = find_open_task()` -/
def findSlot (caller : Bool) (race : Race) : Option Race :=
  match race.phase caller with
  | .waiting =>
      some { race with
        phase := Function.update race.phase caller (.found (findOpenTask race.kernel)) }
  | _ => none

def claimFound (caller : Bool) (frame : ExecuteFrame) (command : CString) (fileCheck : Dentry)
    (race : Race) : Option Race :=
  match race.phase caller with
  | .found newSlot =>
      if newSlot.toUInt32 = noTask then
        some { race with phase := Function.update race.phase caller .refused }
      else
        some {
          kernel := (executeClaim frame command fileCheck newSlot.toUInt32 race.kernel).1
          phase := Function.update race.phase caller (.started newSlot.toUInt32) }
  | _ => none

def quietTick (frame : TickFrame) (kernel : Kernel) : Option Kernel :=
  (pitHandler frame kernel).bind fun (ticked, exit) =>
    match exit with
    | .returned _ => some ticked
    | _ => none

def raceStep (event : RaceEvent) (race : Race) : Option Race :=
  match event with
  | .find caller => findSlot caller race
  | .claim caller frame command fileCheck => claimFound caller frame command fileCheck race
  | .chord regs tid =>
      (switchDisplayTerminal regs tid race.kernel).map fun kernel => { race with kernel := kernel }
  | .tick frame => (quietTick frame race.kernel).map fun kernel => { race with kernel := kernel }

def bothWaiting (kernel : Kernel) : Race := ⟨kernel, fun _ => .waiting⟩

/-- Without an interrupt, search and claim are what `syscall_execute` does behind its checks. -/
theorem syscallExecute_eq_find_claim {frame : ExecuteFrame} {command : CString}
    {fileCheck : Dentry} {race found claimed : Race} {caller : Bool} {eip : UInt32}
    {after : Kernel} (hcheck : executeCheck frame command race.kernel.fs = .ok fileCheck)
    (hfind : raceStep (.find caller) race = some found)
    (hclaim : raceStep (.claim caller frame command fileCheck) found = some claimed)
    (hexecute : syscallExecute frame command race.kernel = (after, .entered eip)) :
    claimed.kernel = after := by
  simp only [raceStep, findSlot] at hfind
  split at hfind <;> cases hfind
  simp only [raceStep, claimFound, Function.update_self] at hclaim
  simp only [syscallExecute, hcheck] at hexecute
  split at hexecute
  · simp at hexecute
  · next hfree =>
      rw [if_neg hfree] at hclaim
      cases hclaim
      exact (Prod.mk.inj hexecute).1

def Phase.slot? : Phase → Option UInt32
  | .waiting => none
  | .found newSlot => some newSlot.toUInt32
  | .started slot => some slot
  | .refused => some noTask

def Phase.isFound : Phase → Bool
  | .found _ => true
  | _ => false

/-- No `execute` looks for a slot while the other is between its search and its claim. -/
def FindsAlone (race : Race) : RaceEvent → Prop
  | .find caller => (race.phase !caller).isFound = false
  | _ => True

structure Serial (race : Race) : Prop where
  found : ∀ caller newSlot, race.phase caller = .found newSlot →
    newSlot = findOpenTask race.kernel ∧ (race.phase !caller).isFound = false
  started : ∀ caller slot, race.phase caller = .started slot →
    slot < 6 ∧ race.kernel.taskSlots slot ≠ 0
  distinct : ∀ caller slot slot', race.phase caller = .started slot →
    race.phase (!caller) = .started slot' → slot ≠ slot'

structure Clashed (race : Race) : Prop where
  same : ∀ caller, (race.phase caller).slot? = (race.phase !caller).slot?
  both : ∀ caller, (race.phase caller).slot? ≠ none

/-! ## Steps that leave the slots alone -/

theorem quietTick_slots {frame : TickFrame} {before after : Kernel}
    (h : quietTick frame before = some after) : after.taskSlots = before.taskSlots := by
  obtain ⟨⟨ticked, exit⟩, hpit, hexit⟩ := Option.bind_eq_some_iff.mp h
  obtain ⟨scheduled, counter, htick, rfl⟩ := pitHandler_cases hpit
  cases exit with
  | returned value =>
      cases hexit
      rcases scheduler_cases htick with
        ⟨-, rfl, -⟩ | ⟨-, booted, terminal, active, hboot, -, hrest⟩
      · rfl
      have hbooted : booted.taskSlots = before.taskSlots := by
        rcases bootSwitchBack_cases hboot with ⟨-, rfl, -⟩ | ⟨-, -, switched, hswitch, rfl⟩
        · rfl
        · exact (switchDisplayTerminal_kept hswitch).2
      rcases hrest with ⟨-, rfl, -⟩ | ⟨-, switched, hswitch, hexecute⟩
      · exact hbooted
      · have hswitched := (switchDisplayTerminal_kept hswitch).2.trans hbooted
        rcases syscallExecute_cases hexecute with ⟨-, text, rfl⟩ | ⟨_, _, _, -, hentered, -⟩
        · exact hswitched
        · simp at hentered
  | _ => simp at hexit

theorem findOpenTask_congr {before after : Kernel} (h : after.taskSlots = before.taskSlots) :
    findOpenTask after = findOpenTask before := by
  simp only [findOpenTask, h]

theorem Serial.of_slots {race : Race} {kernel : Kernel} (h : Serial race)
    (hslots : kernel.taskSlots = race.kernel.taskSlots) :
    Serial { race with kernel := kernel } where
  found caller newSlot hphase := by
    rw [findOpenTask_congr hslots]
    exact h.found caller newSlot hphase
  started caller slot hphase := by
    rw [hslots]
    exact h.started caller slot hphase
  distinct := h.distinct

/-! ## The search -/

theorem findSlot_eq_some {caller : Bool} {race next : Race}
    (h : findSlot caller race = some next) :
    race.phase caller = .waiting ∧
      next = { race with
        phase := Function.update race.phase caller (.found (findOpenTask race.kernel)) } := by
  simp only [findSlot] at h
  split at h
  · next hphase =>
      cases h
      exact ⟨hphase, rfl⟩
  · simp at h

theorem started_of_update {phases : Bool → Phase} {caller other : Bool} {phase : Phase}
    {slot : UInt32} (hnot : ∀ slot, phase ≠ .started slot)
    (h : Function.update phases caller phase other = .started slot) :
    phases other = .started slot := by
  have hne : other ≠ caller := by
    rintro rfl
    rw [Function.update_self] at h
    exact hnot slot h
  rwa [Function.update_of_ne hne] at h

theorem Serial.find {caller : Bool} {race next : Race} (h : Serial race)
    (halone : (race.phase !caller).isFound = false) (hfind : findSlot caller race = some next) :
    Serial next := by
  obtain ⟨hwaiting, rfl⟩ := findSlot_eq_some hfind
  refine ⟨fun other newSlot hphase => ?_, fun other slot hphase => ?_,
    fun other slot slot' hphase hphase' => ?_⟩
  · by_cases heq : other = caller
    · subst heq
      simp only [Function.update_self, Phase.found.injEq] at hphase
      simpa [hphase] using halone
    · obtain rfl : other = !caller := Bool.eq_not_of_ne heq
      simp only [Function.update_of_ne heq] at hphase
      simp [hphase, Phase.isFound] at halone
  · exact h.started other slot (started_of_update (by simp) hphase)
  · exact h.distinct other slot slot' (started_of_update (by simp) hphase)
      (started_of_update (by simp) hphase')

theorem Serial.find_clashed {caller : Bool} {race next : Race} (h : Serial race)
    (hoverlap : (race.phase !caller).isFound ≠ false)
    (hfind : findSlot caller race = some next) : Clashed next := by
  obtain ⟨hwaiting, rfl⟩ := findSlot_eq_some hfind
  cases hother : race.phase !caller with
  | found newSlot =>
      obtain ⟨rfl, -⟩ := h.found (!caller) newSlot hother
      have hslot : ∀ other, (Function.update race.phase caller
          (.found (findOpenTask race.kernel)) other).slot? =
            some (findOpenTask race.kernel).toUInt32 := by
        intro other
        by_cases heq : other = caller
        · simp [heq, Phase.slot?]
        · obtain rfl : other = !caller := Bool.eq_not_of_ne heq
          simp [hother, Phase.slot?]
      refine ⟨fun other => ?_, fun other => ?_⟩
      · simp only [hslot]
      · simp only [hslot, ne_eq, reduceCtorEq, not_false_eq_true]
  | _ => simp [hother, Phase.isFound] at hoverlap

/-! ## The claim -/

theorem claimFound_cases {caller : Bool} {frame : ExecuteFrame} {command : CString}
    {fileCheck : Dentry} {race next : Race}
    (h : claimFound caller frame command fileCheck race = some next) :
    ∃ newSlot, race.phase caller = .found newSlot ∧
      ((newSlot.toUInt32 = noTask ∧
          next = { race with phase := Function.update race.phase caller .refused }) ∨
        (newSlot.toUInt32 ≠ noTask ∧
          next.kernel.taskSlots =
            Function.update race.kernel.taskSlots newSlot.toUInt32 1 ∧
          next.phase = Function.update race.phase caller (.started newSlot.toUInt32))) := by
  simp only [claimFound] at h
  split at h
  · next newSlot hphase =>
      refine ⟨newSlot, hphase, ?_⟩
      split at h
      · next hfull =>
          cases h
          exact .inl ⟨hfull, rfl⟩
      · next hfree =>
          cases h
          exact .inr ⟨hfree, rfl, rfl⟩
  · simp at h

theorem Serial.refuse {caller : Bool} {race : Race} (h : Serial race)
    (hother : ∀ other newSlot, other ≠ caller → race.phase other ≠ .found newSlot) :
    Serial { race with phase := Function.update race.phase caller .refused } := by
  refine ⟨fun other newSlot hphase => ?_, fun other slot hphase => ?_,
    fun other slot slot' hphase hphase' => ?_⟩
  · by_cases heq : other = caller
    · simp [heq] at hphase
    · simp only [Function.update_of_ne heq] at hphase
      exact absurd hphase (hother other newSlot heq)
  · exact h.started other slot (started_of_update (by simp) hphase)
  · exact h.distinct other slot slot' (started_of_update (by simp) hphase)
      (started_of_update (by simp) hphase')

theorem Serial.start {caller : Bool} {slot : UInt32} {race next : Race} (h : Serial race)
    (hother : ∀ other newSlot, other ≠ caller → race.phase other ≠ .found newSlot)
    (hlt : slot < 6) (hfree : race.kernel.taskSlots slot = 0)
    (hslots : next.kernel.taskSlots = Function.update race.kernel.taskSlots slot 1)
    (hphases : next.phase = Function.update race.phase caller (.started slot)) :
    Serial next := by
  have hdistinct : ∀ other old, race.phase other = .started old → old ≠ slot := by
    rintro other old hphase rfl
    exact (h.started other old hphase).2 hfree
  -- no slot is in hand, the started slots are taken, and they differ
  refine ⟨fun other newSlot hphase => ?_, fun other old hphase => ?_,
    fun other old old' hphase hphase' => ?_⟩
  · rw [hphases] at hphase
    by_cases heq : other = caller
    · simp [heq] at hphase
    · simp only [Function.update_of_ne heq] at hphase
      exact absurd hphase (hother other newSlot heq)
  · rw [hphases] at hphase
    rw [hslots]
    by_cases heq : other = caller
    · simp only [heq, Function.update_self, Phase.started.injEq] at hphase
      simp [← hphase, hlt]
    · simp only [Function.update_of_ne heq] at hphase
      rw [Function.update_of_ne (hdistinct other old hphase)]
      exact h.started other old hphase
  · rw [hphases] at hphase hphase'
    by_cases heq : other = caller
    · have hne : (!other) ≠ caller := by simp [heq]
      simp only [heq, Function.update_self, Phase.started.injEq] at hphase
      simp only [Function.update_of_ne hne] at hphase'
      rw [← hphase]
      exact (hdistinct (!other) old' hphase').symm
    · obtain rfl : other = !caller := Bool.eq_not_of_ne heq
      simp only [Function.update_of_ne heq] at hphase
      simp only [Bool.not_not, Function.update_self, Phase.started.injEq] at hphase'
      rw [← hphase']
      exact hdistinct (!caller) old hphase

theorem Serial.claim {caller : Bool} {frame : ExecuteFrame} {command : CString}
    {fileCheck : Dentry} {race next : Race} (h : Serial race)
    (hclaim : claimFound caller frame command fileCheck race = some next) : Serial next := by
  obtain ⟨newSlot, hfound, hrest⟩ := claimFound_cases hclaim
  obtain ⟨hopen, halone⟩ := h.found caller newSlot hfound
  have hother : ∀ other newSlot', other ≠ caller → race.phase other ≠ .found newSlot' := by
    intro other newSlot' hne hphase
    obtain rfl : other = !caller := Bool.eq_not_of_ne hne
    simp [hphase, Phase.isFound] at halone
  rcases hrest with ⟨-, rfl⟩ | ⟨hfree, hslots, hphases⟩
  · exact h.refuse hother
  · rcases findOpenTask_cases race.kernel with ⟨hnone, -⟩ | ⟨slot, hlt, hsome, hslotFree, -⟩
    · rw [hopen, hnone] at hfree
      exact absurd rfl hfree
    · have hslotEq : newSlot.toUInt32 = slot := by simp [hopen, hsome]
      rw [hslotEq] at hslots hphases
      exact h.start hother hlt hslotFree hslots hphases

theorem claimFound_slot {caller : Bool} {frame : ExecuteFrame} {command : CString}
    {fileCheck : Dentry} {race next : Race}
    (h : claimFound caller frame command fileCheck race = some next) (other : Bool) :
    (next.phase other).slot? = (race.phase other).slot? := by
  obtain ⟨newSlot, hfound, hrest⟩ := claimFound_cases h
  by_cases heq : other = caller
  · subst heq
    rcases hrest with ⟨hfull, rfl⟩ | ⟨-, -, hphases⟩
    · simp [hfound, Phase.slot?, hfull]
    · simp [hphases, hfound, Phase.slot?]
  · rcases hrest with ⟨-, rfl⟩ | ⟨-, -, hphases⟩
    · simp [heq]
    · simp [hphases, heq]

/-! ## Runs -/

theorem serial_bothWaiting (kernel : Kernel) : Serial (bothWaiting kernel) where
  found caller newSlot h := by simp [bothWaiting] at h
  started caller slot h := by simp [bothWaiting] at h
  distinct caller slot slot' h := by simp [bothWaiting] at h

theorem raceStep_chord_cases {regs : SwitchRegs} {tid : UInt32} {race next : Race}
    (h : raceStep (.chord regs tid) race = some next) :
    ∃ kernel, kernel.taskSlots = race.kernel.taskSlots ∧
      next = { race with kernel := kernel } := by
  obtain ⟨kernel, hswitch, rfl⟩ := Option.map_eq_some_iff.mp h
  exact ⟨kernel, (switchDisplayTerminal_kept hswitch).2, rfl⟩

theorem raceStep_tick_cases {frame : TickFrame} {race next : Race}
    (h : raceStep (.tick frame) race = some next) :
    ∃ kernel, kernel.taskSlots = race.kernel.taskSlots ∧
      next = { race with kernel := kernel } := by
  obtain ⟨kernel, htick, rfl⟩ := Option.map_eq_some_iff.mp h
  exact ⟨kernel, quietTick_slots htick, rfl⟩

theorem Serial.step {event : RaceEvent} {race next : Race} (h : Serial race)
    (halone : FindsAlone race event) (hstep : raceStep event race = some next) :
    Serial next := by
  cases event with
  | find caller => exact h.find halone hstep
  | claim caller frame command fileCheck => exact h.claim hstep
  | chord regs tid =>
      obtain ⟨kernel, hslots, rfl⟩ := raceStep_chord_cases hstep
      exact h.of_slots hslots
  | tick frame =>
      obtain ⟨kernel, hslots, rfl⟩ := raceStep_tick_cases hstep
      exact h.of_slots hslots

theorem Serial.step_clashed {event : RaceEvent} {race next : Race} (h : Serial race)
    (hoverlap : ¬ FindsAlone race event) (hstep : raceStep event race = some next) :
    Clashed next := by
  cases event with
  | find caller => exact h.find_clashed hoverlap hstep
  | _ => exact absurd trivial hoverlap

theorem Clashed.step {event : RaceEvent} {race next : Race} (h : Clashed race)
    (hstep : raceStep event race = some next) : Clashed next := by
  cases event with
  | find caller =>
      -- both searches are over
      obtain ⟨hwaiting, -⟩ := findSlot_eq_some hstep
      exact absurd (by rw [hwaiting]; rfl) (h.both caller)
  | claim caller frame command fileCheck =>
      have hslot := claimFound_slot hstep
      exact ⟨fun other => by rw [hslot, hslot, h.same], fun other => by
        rw [hslot]
        exact h.both other⟩
  | chord regs tid =>
      obtain ⟨kernel, -, rfl⟩ := raceStep_chord_cases hstep
      exact ⟨h.same, h.both⟩
  | tick frame =>
      obtain ⟨kernel, -, rfl⟩ := raceStep_tick_cases hstep
      exact ⟨h.same, h.both⟩

theorem Serial.run_cases {events : List RaceEvent} {start final : Race} (h : Serial start)
    (hrun : run raceStep events start = some final) :
    ((∀ taken ∈ stepsAlong raceStep events start, FindsAlone taken.1 taken.2) ∧ Serial final) ∨
      (¬ (∀ taken ∈ stepsAlong raceStep events start, FindsAlone taken.1 taken.2) ∧
        Clashed final) := by
  induction events generalizing start with
  | nil =>
      cases hrun
      exact .inl ⟨by simp [stepsAlong], h⟩
  | cons event events ih =>
      obtain ⟨next, hstep, hrest⟩ := run_cons_eq_some.mp hrun
      rw [stepsAlong_cons hstep, List.forall_mem_cons]
      by_cases halone : FindsAlone start event
      · rcases ih (h.step halone hstep) hrest with ⟨hall, hfinal⟩ | ⟨hnot, hfinal⟩
        · exact .inl ⟨⟨halone, hall⟩, hfinal⟩
        · exact .inr ⟨fun hall => hnot hall.2, hfinal⟩
      · refine .inr ⟨fun hall => halone hall.1, ?_⟩
        have hclashed : Clashed next := h.step_clashed halone hstep
        exact run_invariant (fun _ _ _ hclash => hclash.step) hrest hclashed

/--
The tasks that two executes start have different slots exactly when neither of
the two searches for a slot lies between the other's search and claim.
-/
theorem slots_differ_iff_findsAlone {events : List RaceEvent} {kernel : Kernel} {final : Race}
    {first second : UInt32} (hrun : run raceStep events (bothWaiting kernel) = some final)
    (hfirst : final.phase false = .started first)
    (hsecond : final.phase true = .started second) :
    first ≠ second ↔
      ∀ taken ∈ stepsAlong raceStep events (bothWaiting kernel), FindsAlone taken.1 taken.2 := by
  rcases (serial_bothWaiting kernel).run_cases hrun with ⟨halone, hserial⟩ | ⟨hnot, hclash⟩
  · exact ⟨fun _ => halone, fun _ => hserial.distinct false first second hfirst hsecond⟩
  · have hsame := hclash.same false
    rw [Bool.not_false, hfirst, hsecond] at hsame
    exact ⟨fun hne => absurd (Option.some.inj hsame) hne, fun hall => absurd hall hnot⟩

/-- Two executes one after the other, the second behind a switch to terminal 1. -/
theorem slots_differ_iff_findsAlone_shells :
    ∃ final,
      run raceStep [.find false, .claim false default shellName ⟨fun _ => 0⟩, .chord default 1,
        .find true, .claim true default shellName ⟨fun _ => 0⟩] (bothWaiting shellsKernel) =
          some final ∧
      ((3 : UInt32) ≠ 4 ↔
        ∀ taken ∈ stepsAlong raceStep [.find false,
          .claim false default shellName ⟨fun _ => 0⟩, .chord default 1,
          .find true, .claim true default shellName ⟨fun _ => 0⟩] (bothWaiting shellsKernel),
          FindsAlone taken.1 taken.2) := by
  have hany : (run raceStep [.find false, .claim false default shellName ⟨fun _ => 0⟩,
      .chord default 1, .find true, .claim true default shellName ⟨fun _ => 0⟩]
      (bothWaiting shellsKernel)).any
      (fun final => final.phase false = .started 3 && final.phase true = .started 4) =
        true := by decide +kernel
  obtain ⟨final, hrun, hfinal⟩ := (Option.any_eq_true _ _).mp hany
  simp only [Bool.and_eq_true, decide_eq_true_eq] at hfinal
  exact ⟨final, hrun, slots_differ_iff_findsAlone hrun hfinal.1 hfinal.2⟩

/--
Between the search and the claim of the first `execute`, terminal 1 comes up and
its shell executes; both programs are started in slot 3.
-/
theorem slots_equal_of_overlap :
    ∃ final,
      run raceStep [.find false, .chord default 1, .find true,
        .claim true default shellName ⟨fun _ => 0⟩, .chord default 0,
        .claim false default shellName ⟨fun _ => 0⟩] (bothWaiting shellsKernel) =
          some final ∧
      final.phase false = .started 3 ∧ final.phase true = .started 3 := by
  have hany : (run raceStep [.find false, .chord default 1, .find true,
      .claim true default shellName ⟨fun _ => 0⟩, .chord default 0,
      .claim false default shellName ⟨fun _ => 0⟩] (bothWaiting shellsKernel)).any
      (fun final => final.phase false = .started 3 && final.phase true = .started 3) =
        true := by decide +kernel
  obtain ⟨final, hrun, hfinal⟩ := (Option.any_eq_true _ _).mp hany
  simp only [Bool.and_eq_true, decide_eq_true_eq] at hfinal
  exact ⟨final, hrun, hfinal.1, hfinal.2⟩

end LinuxOS
