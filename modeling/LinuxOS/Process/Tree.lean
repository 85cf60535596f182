import LinuxOS.Foundation.Forest
import LinuxOS.Kernel.Boot
import LinuxOS.Process.Effects
import Mathlib.Data.FinEnum
import Mathlib.Data.Set.Finite.Lattice

/-!
# The process tree

The occupied slots and the links in their control blocks form a forest of
chains.  Starting a program starts a chain or extends one at its end, ending a
program removes the end of its chain, and every other path leaves the forest
alone; so the invariant is that of `Foundation.Forest` over whole runs.
-/

namespace LinuxOS

open Foundation

def link (task : UInt32) : Option UInt32 := if task = noTask then none else some task

def forest (kernel : Kernel) : Forest UInt32 where
  live := {task | Occupied kernel task}
  parent task := if Occupied kernel task then link (kernel.links task).parent else none
  child task := if Occupied kernel task then link (kernel.links task).child else none

/--
The process-tree invariant.  `taskId` is its part (a), `parentLink` and
`childLink` are (b), the next three fields are (c), and `running` is (d).  A
chain starts at a task that has no parent.
-/
structure ProcessTree (kernel : Kernel) : Prop where
  taskId : ∀ slot, Occupied kernel slot → (kernel.links slot).taskId = slot
  parentLink : ∀ slot, Occupied kernel slot → slot ≥ 3 →
    Occupied kernel (kernel.links slot).parent ∧
      (kernel.links (kernel.links slot).parent).child = slot
  childLink : ∀ slot, Occupied kernel slot → (kernel.links slot).child ≠ noTask →
    Occupied kernel (kernel.links slot).child ∧
      (kernel.links (kernel.links slot).child).parent = slot
  start : ∀ base < 3, Occupied kernel base → (kernel.links base).parent = noTask
  oneChain : ∀ slot, Occupied kernel slot →
    ∃! base, base < 3 ∧ Occupied kernel base ∧ (forest kernel).Above base slot
  acyclic : ∀ slot, ¬ Relation.TransGen (Edge (forest kernel).child) slot slot
  running : 0 ≤ kernel.tasksRunning →
    Occupied kernel kernel.running ∧ (kernel.links kernel.running).child = noTask

structure Linked (kernel : Kernel) : Prop where
  wellFormed : (forest kernel).WellFormed
  taskId : ∀ slot, Occupied kernel slot → (kernel.links slot).taskId = slot
  base : ∀ slot, Occupied kernel slot → ((kernel.links slot).parent = noTask ↔ slot < 3)

/-- The whole invariant, with what holds before the first task runs. -/
structure Chains (kernel : Kernel) : Prop extends Linked kernel where
  running : 0 ≤ kernel.tasksRunning →
    Occupied kernel kernel.running ∧ (kernel.links kernel.running).child = noTask
  idle : kernel.tasksRunning < 0 →
    kernel.tasksRunning = -1 ∧ ∀ slot, ¬ Occupied kernel slot

/-! ## Links of occupied slots -/

theorem Occupied.ne_noTask {kernel : Kernel} {task : UInt32} (h : Occupied kernel task) :
    task ≠ noTask := by
  rintro rfl
  exact absurd h.1 (by decide)

theorem link_eq_some {task other : UInt32} :
    link task = some other ↔ task = other ∧ other ≠ noTask := by
  unfold link
  grind

theorem link_eq_none {task : UInt32} : link task = none ↔ task = noTask := by
  unfold link
  grind

theorem forest_child_eq_some {kernel : Kernel} {task other : UInt32} :
    (forest kernel).child task = some other ↔
      Occupied kernel task ∧ (kernel.links task).child = other ∧ other ≠ noTask := by
  by_cases h : Occupied kernel task <;> simp [forest, h, link_eq_some]

theorem forest_parent_eq_some {kernel : Kernel} {task other : UInt32} :
    (forest kernel).parent task = some other ↔
      Occupied kernel task ∧ (kernel.links task).parent = other ∧ other ≠ noTask := by
  by_cases h : Occupied kernel task <;> simp [forest, h, link_eq_some]

theorem forest_child_eq_none {kernel : Kernel} {task : UInt32} (h : Occupied kernel task) :
    (forest kernel).child task = none ↔ (kernel.links task).child = noTask := by
  simp [forest, h, link_eq_none]

theorem forest_parent_eq_none {kernel : Kernel} {task : UInt32} (h : Occupied kernel task) :
    (forest kernel).parent task = none ↔ (kernel.links task).parent = noTask := by
  simp [forest, h, link_eq_none]

theorem finite_live (kernel : Kernel) : (forest kernel).live.Finite := Set.toFinite _

/-! ## The two statements of the invariant -/

theorem ProcessTree.wellFormed {kernel : Kernel} (h : ProcessTree kernel) :
    (forest kernel).WellFormed where
  linked first second := by
    rw [forest_child_eq_some, forest_parent_eq_some]
    constructor
    · rintro ⟨hfirst, rfl, hne⟩
      obtain ⟨hsecond, hback⟩ := h.childLink first hfirst hne
      exact ⟨hsecond, hback, hfirst.ne_noTask⟩
    · rintro ⟨hsecond, rfl, hne⟩
      have hchild : second ≥ 3 := by
        by_contra hbase
        exact hne (h.start second (by grind) hsecond)
      obtain ⟨hfirst, hback⟩ := h.parentLink second hsecond hchild
      exact ⟨hfirst, hback, hsecond.ne_noTask⟩
  child_live first second hchild := by
    obtain ⟨hfirst, rfl, hne⟩ := forest_child_eq_some.mp hchild
    exact ⟨hfirst, (h.childLink first hfirst hne).1⟩
  rooted node hlive := by
    obtain ⟨base, ⟨hlt, hbase, hpath⟩, -⟩ := h.oneChain node hlive
    exact ⟨base, hbase, (forest_parent_eq_none hbase).mpr (h.start base hlt hbase), hpath⟩

theorem ProcessTree.linked {kernel : Kernel} (h : ProcessTree kernel) : Linked kernel where
  wellFormed := h.wellFormed
  taskId := h.taskId
  base slot hslot := by
    constructor
    · intro hnone
      by_contra hchild
      exact (h.parentLink slot hslot (by grind)).1.ne_noTask hnone
    · intro hlt
      exact h.start slot hlt hslot

theorem ProcessTree.chains {kernel : Kernel} (h : ProcessTree kernel)
    (hrunning : 0 ≤ kernel.tasksRunning) : Chains kernel :=
  { h.linked with
    running := h.running
    idle := fun hidle => absurd hrunning (Int32.not_le.mpr hidle) }

theorem Linked.processTree {kernel : Kernel} (h : Linked kernel)
    (hrunning : 0 ≤ kernel.tasksRunning →
      Occupied kernel kernel.running ∧ (kernel.links kernel.running).child = noTask) :
    ProcessTree kernel where
  taskId := h.taskId
  parentLink slot hslot hchild := by
    have hne : (kernel.links slot).parent ≠ noTask := by
      rw [Ne, h.base slot hslot]
      grind
    have hparent := forest_parent_eq_some.mpr ⟨hslot, rfl, hne⟩
    obtain ⟨hlive, hback, -⟩ := forest_child_eq_some.mp ((h.wellFormed.linked _ _).mpr hparent)
    exact ⟨hlive, hback⟩
  childLink slot hslot hne := by
    have hchild := forest_child_eq_some.mpr ⟨hslot, rfl, hne⟩
    obtain ⟨hlive, hback, -⟩ := forest_parent_eq_some.mp ((h.wellFormed.linked _ _).mp hchild)
    exact ⟨hlive, hback⟩
  start base hlt hbase := (h.base base hbase).mpr hlt
  oneChain slot hslot := by
    -- the root of the chain is a base shell, and a chain has one root
    obtain ⟨root, hroot, hparent, hpath⟩ := h.wellFormed.rooted slot hslot
    have hlt := (h.base root hroot).mp ((forest_parent_eq_none hroot).mp hparent)
    refine ⟨root, ⟨hlt, hroot, hpath⟩, ?_⟩
    rintro base ⟨hbaselt, hbase, hbasepath⟩
    have hbaseparent := (forest_parent_eq_none hbase).mpr ((h.base base hbase).mpr hbaselt)
    exact h.wellFormed.root_unique hbaseparent hparent hbasepath hpath
  acyclic slot hcycle := by
    obtain ⟨below, hedge, -⟩ := Relation.TransGen.head'_iff.mp hcycle
    exact h.wellFormed.acyclic (h.wellFormed.child_live _ _ hedge).1 hcycle
  running := hrunning

theorem Chains.processTree {kernel : Kernel} (h : Chains kernel) : ProcessTree kernel :=
  h.toLinked.processTree h.running

/-! ## The bottom of a chain -/

theorem card_uint32_le : Fintype.card UInt32 ≤ 2 ^ 32 := by
  have hle := Fintype.card_le_of_injective UInt32.toFin fun _ _ h => UInt32.toFin_inj.mp h
  simpa using hle

theorem path_childOf {kernel : Kernel} {first second : UInt32}
    (hpath : (forest kernel).Above first second) :
    Relation.ReflTransGen (Edge (childOf kernel)) first second := by
  refine Relation.ReflTransGen.mono (fun upper lower hedge => ?_) first second hpath
  obtain ⟨-, hchild, hne⟩ := forest_child_eq_some.mp hedge
  exact link_eq_some.mpr ⟨hchild, hne⟩

theorem findBottomTask_of_free {kernel : Kernel} {task : UInt32}
    (h : ¬ (task < 3 ∧ Occupied kernel task)) : findBottomTask kernel task = some (-1) := by
  by_cases hlt : task > 2
  · simp [findBottomTask, hlt]
  · have hfree : kernel.taskSlots task = 0 := by
      by_contra hused
      exact h ⟨by grind, by grind, hused⟩
    simp [findBottomTask, hfree]

structure IsBottom (kernel : Kernel) (task bottom : UInt32) : Prop where
  occupied : Occupied kernel bottom
  childless : (kernel.links bottom).child = noTask
  above : (forest kernel).Above task bottom

theorem IsBottom.unique {kernel : Kernel} {task bottom bottom' : UInt32}
    (h : IsBottom kernel task bottom) (h' : IsBottom kernel task bottom') : bottom = bottom' :=
  Forest.bottom_unique h.above ((forest_child_eq_none h.occupied).mpr h.childless) h'.above
    ((forest_child_eq_none h'.occupied).mpr h'.childless)

theorem Linked.exists_bottom {kernel : Kernel} (h : Linked kernel) {task : UInt32}
    (htask : Occupied kernel task) : ∃ bottom, IsBottom kernel task bottom := by
  obtain ⟨bottom, hpath, hnone⟩ := h.wellFormed.exists_bottom (finite_live kernel) htask
  have hocc := h.wellFormed.above_live hpath htask
  exact ⟨bottom, hocc, (forest_child_eq_none hocc).mp hnone, hpath⟩

theorem Linked.findBottomTask_eq {kernel : Kernel} (h : Linked kernel) {task bottom : UInt32}
    (hlt : task < 3) (htask : Occupied kernel task) (hbottom : IsBottom kernel task bottom) :
    findBottomTask kernel task = some bottom.toInt32 := by
  have hnot : ¬ task > 2 := by grind
  have hlast : childOf kernel bottom = none := link_eq_none.mpr hbottom.childless
  have hchase := (chase_eq_some_iff card_uint32_le).mpr ⟨path_childOf hbottom.above, hlast⟩
  have hid : (kernel.pcbOf bottom).taskId = bottom := h.taskId bottom hbottom.occupied
  simp only [findBottomTask, if_neg hnot, if_neg htask.2, hchase, Option.map_some, hid]

theorem Linked.findBottomTask_cases {kernel : Kernel} (h : Linked kernel) (task : UInt32) :
    (findBottomTask kernel task = some (-1) ∧ ¬ (task < 3 ∧ Occupied kernel task)) ∨
      ∃ bottom, findBottomTask kernel task = some bottom.toInt32 ∧ task < 3 ∧
        Occupied kernel task ∧ IsBottom kernel task bottom := by
  by_cases hbase : task < 3 ∧ Occupied kernel task
  · obtain ⟨hlt, htask⟩ := hbase
    obtain ⟨bottom, hbottom⟩ := h.exists_bottom htask
    exact .inr ⟨bottom, h.findBottomTask_eq hlt htask hbottom, hlt, htask, hbottom⟩
  · exact .inl ⟨findBottomTask_of_free hbase, hbase⟩

theorem zero_le_toInt32 {slot : UInt32} (h : slot < 6) : 0 ≤ slot.toInt32 := by
  have hcases : slot = 0 ∨ slot = 1 ∨ slot = 2 ∨ slot = 3 ∨ slot = 4 ∨ slot = 5 := by grind
  rcases hcases with rfl | rfl | rfl | rfl | rfl | rfl <;> decide

theorem toInt32_ne_neg_one {slot : UInt32} (h : slot < 6) : slot.toInt32 ≠ -1 := by
  intro heq
  have hge := zero_le_toInt32 h
  rw [heq] at hge
  exact absurd hge (by decide)

theorem Linked.exists_findBottomTask {kernel : Kernel} (h : Linked kernel) (task : UInt32) :
    ∃ bottom, findBottomTask kernel task = some bottom := by
  rcases h.findBottomTask_cases task with ⟨hnone, -⟩ | ⟨bottom, hsome, -⟩
  · exact ⟨_, hnone⟩
  · exact ⟨_, hsome⟩

theorem Linked.bottom_eq_neg_one_iff {kernel : Kernel} (h : Linked kernel) {task : UInt32}
    {bottom : Int32} (hlt : task < 3) (hfind : findBottomTask kernel task = some bottom) :
    bottom = -1 ↔ ¬ Occupied kernel task := by
  rcases h.findBottomTask_cases task with ⟨hnone, hfree⟩ | ⟨last, hsome, -, hocc, hlast⟩
  · rw [hfind, Option.some.injEq] at hnone
    exact iff_of_true hnone fun hocc => hfree ⟨hlt, hocc⟩
  · rw [hfind, Option.some.injEq] at hsome
    refine iff_of_false (fun hnone => ?_) (not_not.mpr hocc)
    rw [hsome] at hnone
    exact toInt32_ne_neg_one hlast.occupied.1 hnone

/-! ## What the paths do to the tree -/

theorem occupied_congr {before after : Kernel} (h : after.taskSlots = before.taskSlots)
    (task : UInt32) : Occupied after task ↔ Occupied before task := by
  simp only [Occupied, h]

theorem forest_congr {before after : Kernel} (h : after.taskSlots = before.taskSlots)
    (hlinks : ∀ task, after.links task = before.links task) : forest after = forest before := by
  have hocc := occupied_congr h
  simp only [forest, hlinks, hocc]

theorem Linked.of_same {before after : Kernel} (h : Linked before)
    (hslots : after.taskSlots = before.taskSlots)
    (hlinks : ∀ task, after.links task = before.links task) : Linked after where
  wellFormed := by
    rw [forest_congr hslots hlinks]
    exact h.wellFormed
  taskId slot hslot := by
    rw [hlinks]
    exact h.taskId slot ((occupied_congr hslots slot).mp hslot)
  base slot hslot := by
    rw [hlinks]
    exact h.base slot ((occupied_congr hslots slot).mp hslot)

theorem Chains.move {before after : Kernel} (h : Chains before)
    (hslots : after.taskSlots = before.taskSlots)
    (hlinks : ∀ task, after.links task = before.links task)
    (hrunning : 0 ≤ after.tasksRunning →
      Occupied before after.running ∧ (before.links after.running).child = noTask)
    (hidle : after.tasksRunning < 0 →
      after.tasksRunning = -1 ∧ ∀ slot, ¬ Occupied before slot) : Chains after :=
  { h.toLinked.of_same hslots hlinks with
    running := fun hge => by
      rw [hlinks, occupied_congr hslots]
      exact hrunning hge
    idle := fun hlt => by
      obtain ⟨hnone, hfree⟩ := hidle hlt
      exact ⟨hnone, fun slot => by rw [occupied_congr hslots]; exact hfree slot⟩ }

theorem ProcessTree.sameTasks {before after : Kernel} (h : ProcessTree before)
    (hsame : SameTasks before after) : ProcessTree after := by
  refine (h.linked.of_same hsame.slots hsame.links).processTree fun hge => ?_
  have hrun : after.running = before.running := by simp [Kernel.running, hsame.running]
  rw [hrun, occupied_congr hsame.slots, hsame.links]
  exact h.running (hsame.running ▸ hge)

theorem Chains.sameTasks {before after : Kernel} (h : Chains before)
    (hsame : SameTasks before after) : Chains after := by
  have hrun : after.running = before.running := by simp [Kernel.running, hsame.running]
  refine h.move hsame.slots hsame.links ?_ ?_
  · rw [hsame.running, hrun]
    exact h.running
  · rw [hsame.running]
    exact h.idle

theorem Chains.switched {before after : Kernel} {tid : UInt32} {bottom : Int32}
    (h : Chains before) (hbottom : findBottomTask before tid = some bottom)
    (hswitched : Switched tid bottom before after) : Chains after := by
  have hrunning := hswitched.running
  rcases h.findBottomTask_cases tid with ⟨hnone, -⟩ | ⟨task, hsome, -, -, htask⟩
  · rw [hbottom, Option.some.injEq] at hnone
    rw [if_pos hnone] at hrunning
    exact h.sameTasks ⟨hswitched.slots, hrunning, hswitched.links⟩
  · rw [hbottom, Option.some.injEq] at hsome
    subst hsome
    have hge := zero_le_toInt32 htask.occupied.1
    rw [if_neg (toInt32_ne_neg_one htask.occupied.1)] at hrunning
    have hrun : after.running = task := by simp [Kernel.running, hrunning]
    refine h.move hswitched.slots hswitched.links (fun _ => ?_) (fun hlt => ?_)
    · rw [hrun]
      exact ⟨htask.occupied, htask.childless⟩
    · rw [hrunning] at hlt
      exact absurd hge (Int32.not_le.mpr hlt)

/-! ## Starting a program -/

section Started

variable {frame : ExecuteFrame} {slot : UInt32} {before after : Kernel}

/-- From slot 3 on there are base shells, so that a task runs and can be the parent. -/
theorem Chains.parent_of_firstFree (h : Chains before) (hslot : FirstFree before slot)
    (hchild : slot ≥ 3) :
    Occupied before before.running ∧ (before.links before.running).child = noTask := by
  refine h.running ?_
  by_contra hidle
  have hzero : Occupied before 0 := ⟨by decide, hslot.lower 0 (by grind)⟩
  exact (h.idle (Int32.not_le.mp hidle)).2 0 hzero

theorem Chains.executeClaim_started (h : Chains before) (hslot : FirstFree before slot)
    (frame : ExecuteFrame) (command : CString) (fileCheck : Dentry) :
    Started frame slot before (executeClaim frame command fileCheck slot before).1 := by
  refine LinuxOS.executeClaim_started hslot.lt fun hchild => ?_
  obtain ⟨hocc, -⟩ := h.parent_of_firstFree hslot hchild
  exact ⟨hocc.1, fun heq => hocc.2 (heq ▸ hslot.free)⟩

theorem Started.occupied_iff (h : Started frame slot before after) (hlt : slot < 6)
    (task : UInt32) : Occupied after task ↔ task = slot ∨ Occupied before task := by
  by_cases heq : task = slot
  · simp [Occupied, h.slots, heq, hlt]
  · simp [Occupied, h.slots, heq]

theorem Started.running_eq (h : Started frame slot before after) : after.running = slot := by
  simp [Kernel.running, h.running]

theorem Started.links_of_ne (h : Started frame slot before after) {task : UInt32}
    (hlt : task < 6) (hne : task ≠ slot) :
    after.links task =
      if slot ≥ 3 ∧ task = before.running then { before.links task with child := slot }
      else before.links task := by
  split
  · next hparent =>
      obtain ⟨hchild, rfl⟩ := hparent
      simp only [Kernel.links, h.parentPcb hchild]
  · next hother =>
      have hpcb := h.otherPcb task hlt hne fun hchild heq => hother ⟨hchild, heq⟩
      simp only [Kernel.links, hpcb]

theorem Started.kept_of_ne (h : Started frame slot before after) {task : UInt32}
    (hlt : task < 6) (hne : task ≠ slot) :
    (after.links task).taskId = (before.links task).taskId ∧
      (after.links task).parent = (before.links task).parent := by
  rw [h.links_of_ne hlt hne]
  split <;> exact ⟨rfl, rfl⟩

theorem Started.forest_of_base (h : Started frame slot before after) (hlt : slot < 6)
    (hfree : ¬ Occupied before slot) (hbase : slot < 3) :
    forest after = (forest before).addRoot slot := by
  have hocc := h.occupied_iff hlt
  have hlinks : ∀ task, Occupied before task → after.links task = before.links task := by
    intro task htask
    have hne : task ≠ slot := by
      rintro rfl
      exact hfree htask
    rw [h.links_of_ne htask.1 hne, if_neg (by grind)]
  have hown := h.ownLinks
  rw [if_neg (by grind)] at hown
  simp only [forest, Forest.addRoot, Forest.mk.injEq]
  refine ⟨?_, ?_, ?_⟩
  · ext task
    simp [hocc]
  · funext task
    by_cases heq : task = slot
    · simp [heq, hfree, hown, link_eq_none]
    · by_cases htask : Occupied before task
      · simp [hocc, htask, hlinks]
      · simp [hocc, htask, heq]
  · funext task
    by_cases heq : task = slot
    · simp [heq, hfree, hown, link_eq_none]
    · by_cases htask : Occupied before task
      · simp [hocc, htask, hlinks]
      · simp [hocc, htask, heq]

theorem Started.forest_of_child (h : Started frame slot before after) (hlt : slot < 6)
    (hfree : ¬ Occupied before slot) (hchild : slot ≥ 3)
    (hparent : Occupied before before.running) :
    forest after = (forest before).push before.running slot := by
  have hocc := h.occupied_iff hlt
  have hown := h.ownLinks
  rw [if_pos hchild] at hown
  have hslot : slot ≠ noTask := by
    rintro rfl
    exact absurd hlt (by decide)
  have hne : ∀ task, Occupied before task → task ≠ slot := by
    rintro task htask rfl
    exact hfree htask
  simp only [forest, Forest.push, Forest.mk.injEq]
  refine ⟨?_, ?_, ?_⟩
  · ext task
    simp [hocc]
  · funext task
    by_cases heq : task = slot
    · simp [heq, hocc, hown, link_eq_some, hparent.ne_noTask]
    · by_cases htask : Occupied before task
      · simp [hocc, htask, heq, (h.kept_of_ne htask.1 heq).2]
      · simp [hocc, htask, heq]
  · funext task
    by_cases heq : task = slot
    · simp [heq, hocc, hown, hfree, link_eq_none, (hne _ hparent).symm]
    · by_cases htask : Occupied before task
      · have hlinks := h.links_of_ne htask.1 heq
        by_cases hrun : task = before.running
        · rw [if_pos ⟨hchild, hrun⟩] at hlinks
          rw [if_pos ((hocc task).mpr (.inr htask)), hlinks, hrun]
          simp [link_eq_some, hslot]
        · rw [if_neg fun hboth => hrun hboth.2] at hlinks
          simp [hocc, htask, hlinks, hrun]
      · have hrun : task ≠ before.running := by
          rintro rfl
          exact htask hparent
        simp [hocc, htask, heq, hrun]

theorem Chains.started (h : Chains before) (hslot : FirstFree before slot)
    (hstarted : Started frame slot before after) : Chains after := by
  have hfree : ¬ Occupied before slot := fun hocc => hocc.2 hslot.free
  have hocc := hstarted.occupied_iff hslot.lt
  have hrun := hstarted.running_eq
  have hown := hstarted.ownLinks
  have hne : ∀ task, Occupied before task → task ≠ slot := by
    rintro task htask rfl
    exact hfree htask
  have hge : 0 ≤ after.tasksRunning := by
    rw [hstarted.running]
    exact zero_le_toInt32 hslot.lt
  refine {
    wellFormed := ?_
    taskId := ?_
    base := ?_
    running := fun _ => ?_
    idle := fun hlt => absurd hge (Int32.not_le.mpr hlt) }
  -- a base shell begins a chain, any other program goes below the running task
  · by_cases hchild : slot ≥ 3
    · obtain ⟨hparent, hnone⟩ := h.parent_of_firstFree hslot hchild
      rw [hstarted.forest_of_child hslot.lt hfree hchild hparent]
      exact h.wellFormed.push hparent ((forest_child_eq_none hparent).mpr hnone) hfree
    · rw [hstarted.forest_of_base hslot.lt hfree (by grind)]
      exact h.wellFormed.addRoot hfree
  · intro task htask
    rcases (hocc task).mp htask with rfl | hold
    · rw [hown]
    · rw [(hstarted.kept_of_ne hold.1 (hne task hold)).1]
      exact h.taskId task hold
  · intro task htask
    rcases (hocc task).mp htask with rfl | hold
    · rw [hown]
      by_cases hchild : task ≥ 3
      · have hparent := (h.parent_of_firstFree hslot hchild).1.ne_noTask
        simp only [hchild, if_true, hparent, false_iff]
        grind
      · simp only [hchild, if_false, true_iff]
        grind
    · rw [(hstarted.kept_of_ne hold.1 (hne task hold)).2]
      exact h.base task hold
  · rw [hrun, hocc, hown]
    exact ⟨.inl rfl, rfl⟩

end Started

/-! ## Ending a program -/

section Ended

variable {status : UInt8} {parent : UInt32} {before after : Kernel} {exit : Exit}

structure RunningBelow (kernel : Kernel) (parent : UInt32) : Prop where
  occupied : Occupied kernel parent
  runningOccupied : Occupied kernel kernel.running
  child : (kernel.links parent).child = kernel.running
  childless : (kernel.links kernel.running).child = noTask
  ne : parent ≠ kernel.running

theorem Chains.runningBelow {kernel : Kernel} (h : Chains kernel)
    (hge : 0 ≤ kernel.tasksRunning)
    (hparent : (kernel.links kernel.running).parent ≠ noTask) :
    RunningBelow kernel (kernel.links kernel.running).parent := by
  obtain ⟨hocc, hchild⟩ := h.running hge
  have hlink := (h.wellFormed.linked _ _).mpr (forest_parent_eq_some.mpr ⟨hocc, rfl, hparent⟩)
  obtain ⟨hparentOcc, hback, -⟩ := forest_child_eq_some.mp hlink
  refine ⟨hparentOcc, hocc, hback, hchild, fun heq => ?_⟩
  rw [heq, hchild] at hback
  exact hocc.ne_noTask hback.symm

theorem Ended.occupied_iff (h : Ended status parent before after exit) (task : UInt32) :
    Occupied after task ↔ Occupied before task ∧ task ≠ before.running := by
  by_cases heq : task = before.running
  · simp [Occupied, h.slots, heq]
  · simp [Occupied, h.slots, heq]

theorem Ended.running_eq (h : Ended status parent before after exit) :
    after.running = parent := by
  simp [Kernel.running, h.running]

theorem Ended.links_of_ne (h : Ended status parent before after exit) {task : UInt32}
    (hlt : task < 6) (hne : task ≠ before.running) :
    after.links task =
      if task = parent then { before.links task with child := noTask }
      else before.links task := by
  split
  · next heq =>
      subst heq
      simp only [Kernel.links, h.parentPcb]
  · next hother =>
      have hpcb := h.otherPcb task hlt hne hother
      simp only [Kernel.links, hpcb]

theorem Ended.kept_of_ne (h : Ended status parent before after exit) {task : UInt32}
    (hlt : task < 6) (hne : task ≠ before.running) :
    (after.links task).taskId = (before.links task).taskId ∧
      (after.links task).parent = (before.links task).parent := by
  rw [h.links_of_ne hlt hne]
  split <;> exact ⟨rfl, rfl⟩

theorem Ended.forest_eq (h : Ended status parent before after exit)
    (hbelow : RunningBelow before parent) :
    forest after = (forest before).pop parent before.running := by
  have hocc := h.occupied_iff
  simp only [forest, Forest.pop, Forest.mk.injEq]
  refine ⟨?_, ?_, ?_⟩
  · ext task
    simp [hocc]
  · funext task
    by_cases heq : task = before.running
    · simp [heq, hocc]
    · by_cases htask : Occupied before task
      · simp [hocc, htask, heq, (h.kept_of_ne htask.1 heq).2]
      · simp [hocc, htask, heq]
  · funext task
    by_cases heq : task = before.running
    · simp [heq, hocc, hbelow.ne.symm, hbelow.childless, link]
    · by_cases htask : Occupied before task
      · have hlinks := h.links_of_ne htask.1 heq
        by_cases hparent : task = parent
        · rw [if_pos hparent] at hlinks
          rw [if_pos ((hocc task).mpr ⟨htask, heq⟩), hlinks, hparent]
          simp [link_eq_none]
        · rw [if_neg hparent] at hlinks
          simp [hocc, htask, hlinks, hparent, heq]
      · have hparent : task ≠ parent := by
          rintro rfl
          exact htask hbelow.occupied
        simp [hocc, htask, hparent]

theorem Chains.ended (h : Chains before) (hbelow : RunningBelow before parent)
    (hended : Ended status parent before after exit) : Chains after := by
  have hocc := hended.occupied_iff
  have hrun := hended.running_eq
  have hge : 0 ≤ after.tasksRunning := by
    rw [hended.running]
    exact zero_le_toInt32 hbelow.occupied.1
  have hkept : ∀ task, Occupied after task →
      Occupied before task ∧ (after.links task).taskId = (before.links task).taskId ∧
        (after.links task).parent = (before.links task).parent := by
    intro task htask
    obtain ⟨hold, hne⟩ := (hocc task).mp htask
    exact ⟨hold, hended.kept_of_ne hold.1 hne⟩
  refine {
    wellFormed := ?_
    taskId := fun task htask => ?_
    base := fun task htask => ?_
    running := fun _ => ?_
    idle := fun hlt => absurd hge (Int32.not_le.mpr hlt) }
  · rw [hended.forest_eq hbelow]
    exact h.wellFormed.pop
      (forest_child_eq_some.mpr
        ⟨hbelow.occupied, hbelow.child, hbelow.runningOccupied.ne_noTask⟩)
      ((forest_child_eq_none hbelow.runningOccupied).mpr hbelow.childless)
  · obtain ⟨hold, hid, -⟩ := hkept task htask
    rw [hid]
    exact h.taskId task hold
  · obtain ⟨hold, -, hparent⟩ := hkept task htask
    rw [hparent]
    exact h.base task hold
  · rw [hrun, hocc, hended.links_of_ne hbelow.occupied.1 hbelow.ne, if_pos rfl]
    exact ⟨⟨hbelow.occupied, hbelow.ne⟩, rfl⟩

end Ended

/-! ## Events and runs -/

theorem ScreenOnly.sameTasks {before after : Kernel} (h : ScreenOnly before after) :
    SameTasks before after := by
  obtain ⟨text, rfl⟩ := h
  exact .of_pcb rfl rfl rfl

theorem Chains.execute {frame : ExecuteFrame} {command : CString} {before after : Kernel}
    {exit : Exit} (h : Chains before)
    (hexecute : syscallExecute frame command before = (after, exit)) : Chains after := by
  rcases syscallExecute_cases hexecute with
    ⟨-, hscreen⟩ | ⟨slot, fileCheck, eip, hslot, -, rfl⟩
  · exact h.sameTasks hscreen.sameTasks
  · exact h.started hslot (h.executeClaim_started hslot frame command fileCheck)

theorem Chains.started_of_entered {frame : ExecuteFrame} {command : CString}
    {before after : Kernel} {eip : UInt32} (h : Chains before)
    (hexecute : syscallExecute frame command before = (after, .entered eip)) :
    ∃ slot, FirstFree before slot ∧ Started frame slot before after := by
  rcases syscallExecute_cases hexecute with
    ⟨⟨_, hexit⟩, -⟩ | ⟨slot, fileCheck, _, hslot, -, hclaim⟩
  · simp at hexit
  · rw [hclaim]
    exact ⟨slot, hslot, h.executeClaim_started hslot frame command fileCheck⟩

theorem Chains.halt_cases {status : UInt8} {before after : Kernel} {exit : Exit}
    (h : Chains before) (hge : 0 ≤ before.tasksRunning)
    (hhalt : syscallHalt status before = some (after, exit)) :
    ((before.links before.running).parent = noTask ∧
      (∃ text, after = { before with
        screen := puts text before.screen, tssEsp0 := stackTop before.running }) ∧
      exit = .restarted (before.pcbOf before.running).oldEip) ∨
    (RunningBelow before (before.links before.running).parent ∧
      Ended status (before.links before.running).parent before after exit) := by
  rcases syscallHalt_cases hhalt with ⟨hbase, hafter, hexit⟩ | ⟨hchild, hhalt⟩
  · exact .inl ⟨hbase, hafter, hexit⟩
  · have hbelow := h.runningBelow hge hchild
    exact .inr ⟨hbelow, haltChild_ended hbelow.runningOccupied.1 rfl hbelow.occupied.1
      hbelow.ne hhalt⟩

theorem Chains.halt {status : UInt8} {before after : Kernel} {exit : Exit}
    (h : Chains before) (hge : 0 ≤ before.tasksRunning)
    (hhalt : syscallHalt status before = some (after, exit)) : Chains after := by
  rcases h.halt_cases hge hhalt with ⟨-, ⟨text, rfl⟩, -⟩ | ⟨hbelow, hended⟩
  · exact h.sameTasks (.of_pcb rfl rfl rfl)
  · exact h.ended hbelow hended

theorem Chains.exception_cases {message : String} {before after : Kernel} {exit : Exit}
    (h : Chains before) (hge : 0 ≤ before.tasksRunning)
    (hexception : handleException message before = some (after, exit)) :
    (before.running = 0 ∧ ScreenOnly before after ∧ exit = .hung) ∨
    (before.running ≠ 0 ∧ ∃ shown text,
      shown = { before with screen := puts text before.screen, exceptionDeath := 1 } ∧ SameTasks before shown ∧
      Chains shown ∧ 0 ≤ shown.tasksRunning ∧ syscallHalt 0 shown = some (after, exit)) := by
  rcases handleException_cases hexception with hhung | ⟨hne, text, hhalt⟩
  · exact .inl hhung
  · have hsame : SameTasks before
        { before with screen := puts text before.screen, exceptionDeath := 1 } :=
      .of_pcb rfl rfl rfl
    exact .inr ⟨hne, _, text, rfl, hsame, h.sameTasks hsame, hge, hhalt⟩

theorem Chains.exception {message : String} {before after : Kernel} {exit : Exit}
    (h : Chains before) (hge : 0 ≤ before.tasksRunning)
    (hexception : handleException message before = some (after, exit)) : Chains after := by
  rcases h.exception_cases hge hexception with
    ⟨-, hscreen, -⟩ | ⟨-, shown, text, -, -, hshown, hgeShown, hhalt⟩
  · exact h.sameTasks hscreen.sameTasks
  · exact hshown.halt hgeShown hhalt

theorem Chains.switchDisplay {regs : SwitchRegs} {tid : UInt32} {before after : Kernel}
    (h : Chains before) (hswitch : switchDisplayTerminal regs tid before = some after) :
    Chains after := by
  rcases switchDisplayTerminal_cases hswitch with ⟨-, rfl⟩ | ⟨-, bottom, hbottom, hswitched⟩
  · exact h
  · exact h.switched hbottom hswitched

theorem Linked.exists_switchDisplay {kernel : Kernel} (h : Linked kernel) (regs : SwitchRegs)
    (tid : UInt32) : ∃ after, switchDisplayTerminal regs tid kernel = some after ∧
      Linked after := by
  by_cases hstay : kernel.displayTerminalId.toUInt32 = tid ∨ tid > 2
  · exact ⟨kernel, switchDisplayTerminal_of_stay hstay, h⟩
  · obtain ⟨bottom, hbottom⟩ := h.exists_findBottomTask tid
    obtain ⟨after, hswitch, hswitched⟩ :=
      switchDisplayTerminal_of_move regs hstay hbottom
    exact ⟨after, hswitch, h.of_same hswitched.slots hswitched.links⟩

theorem Linked.exists_bootSwitchBack {kernel : Kernel} (h : Linked kernel) (regs : SwitchRegs)
    (tNum : UInt32) : ∃ booted terminal,
      bootSwitchBack regs tNum kernel = some (booted, terminal) ∧ Linked booted := by
  by_cases hflag : kernel.bootupFlag = 0
  · exact ⟨kernel, tNum, by simp [bootSwitchBack, hflag], h⟩
  · obtain ⟨switched, hswitch, hlinked⟩ := h.exists_switchDisplay regs 0
    refine ⟨{ switched with bootupFlag := 0 }, 0, ?_,
      hlinked.of_same rfl (links_eq_of_pcb rfl)⟩
    simp [bootSwitchBack, hflag, hswitch]

theorem Linked.exists_spawnShell {kernel : Kernel} (h : Linked kernel) (frame : TickFrame)
    (tNum : UInt32) : ∃ result, spawnShell frame tNum kernel = some result := by
  simp only [spawnShell]
  have hflagged : Linked (if tNum = 2 then { kernel with bootupFlag := 1 } else kernel) := by
    split
    · exact h.of_same rfl (links_eq_of_pcb rfl)
    · exact h
  obtain ⟨switched, hswitch, -⟩ := hflagged.exists_switchDisplay frame.spawnSwitch tNum
  exact ⟨_, by rw [hswitch, Option.map_some]⟩

theorem Linked.exists_scheduler {kernel : Kernel} (h : Linked kernel) (frame : TickFrame)
    (tNum : UInt32) : ∃ result, scheduler frame tNum kernel = some result := by
  simp only [scheduler]
  split
  · exact ⟨_, rfl⟩
  · obtain ⟨booted, terminal, hboot, hlinked⟩ := h.exists_bootSwitchBack frame.bootSwitch tNum
    obtain ⟨active, hactive⟩ := hlinked.exists_findBottomTask terminal
    simp only [hboot, hactive, Option.bind_eq_bind, Option.bind_some]
    split
    · have hobserved : Linked { booted with activeProcess := active } :=
        hlinked.of_same rfl (links_eq_of_pcb rfl)
      exact hobserved.exists_spawnShell frame terminal
    · exact ⟨_, rfl⟩

theorem Chains.scheduler {frame : TickFrame} {tNum : UInt32} {before after : Kernel}
    {exit : Exit} (h : Chains before)
    (htick : scheduler frame tNum before = some (after, exit)) : Chains after :=
  scheduler_invariant (fun _ _ _ h => h.sameTasks (.of_pcb rfl rfl rfl))
    (fun _ _ _ _ h hswitch => h.switchDisplay hswitch)
    (fun _ _ _ _ _ h hexecute => h.execute hexecute) h htick

theorem Chains.perform {event : Event} {before after : Kernel} {exit : Exit}
    (h : Chains before) (hperform : perform event before = some (after, exit)) :
    Chains after := by
  cases performed hperform with
  | tick hpit =>
      obtain ⟨ticked, counter, htick, rfl⟩ := pitHandler_cases hpit
      exact (h.scheduler htick).sameTasks (.of_pcb rfl rfl rfl)
  | schedule htick => exact h.scheduler htick
  | chord hswitch => exact h.switchDisplay hswitch
  | execute hge hexecute => exact h.execute hexecute
  | halt hge hhalt => exact h.halt hge hhalt
  | exception hge hexception => exact h.exception hge hexception

theorem step_eq_some {event : Event} {before after : Kernel} :
    step event before = some after ↔ ∃ exit, perform event before = some (after, exit) := by
  simp [step]

theorem Chains.step {event : Event} {before after : Kernel} (h : Chains before)
    (hstep : step event before = some after) : Chains after := by
  obtain ⟨exit, hperform⟩ := step_eq_some.mp hstep
  exact h.perform hperform

theorem NoTasks.chains {kernel : Kernel} (h : NoTasks kernel) : Chains kernel := by
  have hfree : ∀ slot, ¬ Occupied kernel slot := fun slot hocc =>
    hocc.2 (h.noSlots slot hocc.1)
  have hnone : ∀ first second, (forest kernel).child first ≠ some second := by
    intro first second hchild
    exact hfree first (forest_child_eq_some.mp hchild).1
  have hrunning : ¬ 0 ≤ kernel.tasksRunning := by
    rw [h.noneRunning]
    decide
  refine {
    wellFormed := {
      linked := fun first second => ?_
      child_live := fun first second hchild => absurd hchild (hnone first second)
      rooted := fun node hlive => absurd hlive (hfree node) }
    taskId := fun slot hslot => absurd hslot (hfree slot)
    base := fun slot hslot => absurd hslot (hfree slot)
    running := fun hge => absurd hge hrunning
    idle := fun _ => ⟨h.noneRunning, hfree⟩ }
  refine ⟨fun hchild => absurd hchild (hnone first second), fun hparent => ?_⟩
  exact absurd (forest_parent_eq_some.mp hparent).1 (hfree second)

theorem chains_of_run {events : List Event} {start final : Kernel}
    (hrun : run LinuxOS.step events start = some final) (hstart : NoTasks start) :
    Chains final :=
  run_invariant (fun _ _ _ h hstep => h.step hstep) hrun hstart.chains

/--
The process tree holds in every state that can be reached from boot, and there
`find_bottom_task` comes back with `-1` or the only childless task of a chain.
-/
theorem processTree_of_run {events : List Event} {start final : Kernel}
    (hrun : run step events start = some final) (hstart : NoTasks start) :
    ProcessTree final ∧ ∀ task, ∃ result, findBottomTask final task = some result ∧
      (result = -1 ↔ task > 2 ∨ final.taskSlots task = 0) ∧
      (result ≠ -1 → ∃ bottom, result = bottom.toInt32 ∧ IsBottom final task bottom ∧
        ∀ other, IsBottom final task other → other = bottom) := by
  have hchains := chains_of_run hrun hstart
  refine ⟨hchains.processTree, fun task => ?_⟩
  rcases hchains.findBottomTask_cases task with ⟨hnone, hfree⟩ | ⟨bottom, hsome, hlt, hocc, hbottom⟩
  · refine ⟨-1, hnone, ?_, fun hne => absurd rfl hne⟩
    simp only [true_iff]
    by_contra hboth
    rw [not_or] at hboth
    exact hfree ⟨by grind, by grind, hboth.2⟩
  · refine ⟨bottom.toInt32, hsome, ?_, fun _ =>
      ⟨bottom, rfl, hbottom, fun other hother => hother.unique hbottom⟩⟩
    have hne := toInt32_ne_neg_one hbottom.occupied.1
    have hused := hocc.2
    grind

theorem processTree_of_run_ticks :
    ∃ final, run step [.tick default, .tick default, .tick default, .execute default shellName]
        (bootKernel shellImage) = some final ∧ ProcessTree final ∧
      ∀ task, ∃ result, findBottomTask final task = some result ∧
        (result = -1 ↔ task > 2 ∨ final.taskSlots task = 0) := by
  have hsome : (run step
      [.tick default, .tick default, .tick default, .execute default shellName]
      (bootKernel shellImage)).isSome := by decide +kernel
  obtain ⟨final, hrun⟩ := Option.isSome_iff_exists.mp hsome
  obtain ⟨htree, hbottom⟩ := processTree_of_run hrun (boot_bootKernel shellImage).toNoTasks
  refine ⟨final, hrun, htree, fun task => ?_⟩
  obtain ⟨result, hresult, hiff, -⟩ := hbottom task
  exact ⟨result, hresult, hiff⟩

end LinuxOS
