import Mathlib.Logic.Function.Basic

namespace HitOs

/-!
# Tasks with private memories

The meaning of `fork` without sharing: every task has a memory of its own, a
fork copies the parent's memory at once, and a store changes the memory of the
storing task alone.
-/

namespace EagerCopy

variable {Task Offset β : Type} [DecidableEq Task]

/-- What each task reads at each offset, if anything. -/
abbrev Views (Task Offset β : Type) :=
  Task → Offset → Option β

/-- The child's memory becomes a copy of the parent's, in a range. -/
def fork
    (parent child : Task)
    (copied : Offset → Bool)
    (views : Views Task Offset β) :
    Views Task Offset β :=
  Function.update views child fun offset =>
    if copied offset then views parent offset else none

/-- A store by one task. -/
def write
    [DecidableEq Offset]
    (task : Task)
    (offset : Offset)
    (value : β)
    (views : Views Task Offset β) :
    Views Task Offset β :=
  Function.update views task
    (Function.update (views task) offset (some value))

/-- A task gives up a range of its memory. -/
def exit
    (task : Task)
    (released : Offset → Bool)
    (views : Views Task Offset β) :
    Views Task Offset β :=
  Function.update views task fun offset =>
    if released offset then none else views task offset

end EagerCopy

end HitOs
