import LinuxOS.Foundation.Chase
import LinuxOS.Kernel.State

/-!
# Task slots and process control blocks

The part of `system_call.c` that finds tasks: where a process control block
lies, the first free slot, and the end of a chain of children.
-/

namespace LinuxOS

open Foundation

/-- The address of a process control block: the bottom of the task's 8 KB kernel stack. -/
def getPcb (grabTaskId : UInt32) : UInt32 :=
  eightK * oneK - eightK * (grabTaskId + 1)

namespace Kernel

def pcbOf (kernel : Kernel) (taskId : UInt32) : Pcb := kernel.pcb (getPcb taskId)

def modifyPcb (kernel : Kernel) (taskId : UInt32) (change : Pcb → Pcb) : Kernel :=
  { kernel with
    pcb := Function.update kernel.pcb (getPcb taskId) (change (kernel.pcbOf taskId)) }

/-- `tasks_running` where the source uses it as an index or an unsigned number. -/
def running (kernel : Kernel) : UInt32 := kernel.tasksRunning.toUInt32

end Kernel

def findOpenTaskLoop (taskSlots : UInt32 → UInt32) : Nat → UInt32 → Int32
  | 0, _ => -1
  | count + 1, i =>
      if taskSlots i = 0 then i.toInt32 else findOpenTaskLoop taskSlots count (i + 1)

def findOpenTask (kernel : Kernel) : Int32 := findOpenTaskLoop kernel.taskSlots 6 0

def childOf (kernel : Kernel) (taskId : UInt32) : Option UInt32 :=
  if (kernel.pcbOf taskId).taskIdChild = noTask then none
  else some (kernel.pcbOf taskId).taskIdChild

/--
`find_bottom_task`.  The loop follows `task_id_child` and is bounded by the
number of task numbers there are, so that `none` means that it never ends.
-/
def findBottomTask (kernel : Kernel) (taskNum : UInt32) : Option Int32 :=
  if taskNum > 2 then some (-1)
  else if kernel.taskSlots taskNum = 0 then some (-1)
  else (chase (childOf kernel) (2 ^ 32) taskNum).map fun last =>
    (kernel.pcbOf last).taskId.toInt32

def switchRunningTask (taskNum : UInt32) (kernel : Kernel) : Option (Kernel × Int32) :=
  (findBottomTask kernel taskNum).map fun newTaskNum =>
    if newTaskNum.toUInt32 = noTask then (kernel, -1)
    else ({ kernel with tasksRunning := newTaskNum }, 0)

end LinuxOS
