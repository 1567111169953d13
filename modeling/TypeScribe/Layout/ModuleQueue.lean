/-!
# Queue of modules

Declarations that are to be written later, in waves. A declaration is known by its route, the way
from the top of the unit to its node, so equal declarations at two places are two declarations. It
is accepted once; a wave is all that was accepted since the last one.
-/
namespace TypeScribe
set_option autoImplicit false

/-- The way from the top of a unit to a node: the place taken at each step, the last one first. -/
abbrev Route := List Nat

structure ModuleQueue (α : Type) where
  pending : List (Route × α) := []
  seen : List Route := []

namespace ModuleQueue

variable {α : Type}

def accepts (q : ModuleQueue α) (route : Route) : Bool := !q.seen.contains route

/-- Queues a declaration, unless it was queued before. -/
def enqueue (q : ModuleQueue α) (route : Route) (a : α) : ModuleQueue α :=
  if q.accepts route then
    { pending := q.pending ++ [(route, a)], seen := route :: q.seen }
  else q

def enqueueMany (q : ModuleQueue α) (entries : List (Route × α)) : ModuleQueue α :=
  entries.foldl (fun q entry => q.enqueue entry.1 entry.2) q

def isEmpty (q : ModuleQueue α) : Bool := q.pending.isEmpty

def size (q : ModuleQueue α) : Nat := q.pending.length

/-- What is pending, and the queue without it. -/
def takeWave (q : ModuleQueue α) : List (Route × α) × ModuleQueue α :=
  (q.pending, { q with pending := [] })

end ModuleQueue
end TypeScribe
