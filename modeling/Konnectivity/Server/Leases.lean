import Konnectivity.Lib.GoMap
import Konnectivity.Lib.Threads

/-!
# Garbage collection of leases

Every proxy server runs a `GarbageCollectionController` over the leases of one
namespace. A pass lists the leases its selector matches and then, one by one,
compares each with the clock and deletes it if it has expired, on condition
that it still has the `resourceVersion` it was listed with.

The API server is outside: it stores the leases, refuses a delete whose
precondition does not hold, and gives every write a `resourceVersion` that the
name has not had before. Times are nanoseconds, and so is a `time.Duration`;
an `int32` of seconds is not too many of them.
-/

namespace Konnectivity.Server.Leases

open Lib

/-- A `time.Time`, in nanoseconds. -/
abbrev Time := Int

def second : Int := 1000000000

/-- A `coordinationv1.Lease`. -/
structure Lease where
  name : String
  labels : List (String × String) := []
  resourceVersion : String
  renewTime : Option Time := none
  acquireTime : Option Time := none
  leaseDurationSeconds : Option Int := none
  deriving DecidableEq, Repr

/-- `IsLeaseValid`; `none` is a nil `LeaseDurationSeconds`. -/
def isLeaseValid (now : Time) (lease : Lease) : Option Bool :=
  let valid := fun lastRenewTime =>
    lease.leaseDurationSeconds.map fun d => decide (now < lastRenewTime + d * second)
  match lease.renewTime with
  | some t => valid t
  | none =>
      match lease.acquireTime with
      | some t => valid t
      | none => some false

/-- A proxy server with its controller. -/
abbrev Controller := Nat

/-- What `Delete` returned. -/
inductive DeleteResult where
  | deleted
  | notFound
  | conflict
  /-- Any other error. -/
  | failed
  deriving DecidableEq, Repr

inductive Event where
  | listed (k : Controller) (items : List Lease)
  | checked (k : Controller) (lease : Lease) (valid : Bool)
  | attempted (k : Controller) (lease : Lease) (result : DeleteResult)
  /-- The API server deleted the object for the controller, whose clock shows `now`. -/
  | deleted (k : Controller) (stored : Lease) (now : Time)
  /-- A lease was created, renewed or changed in some other way. -/
  | written (name : String)
  deriving DecidableEq, Repr

structure GcState where
  leases : GoMap String Lease := ∅
  /-- The resource versions that have been given out. -/
  used : List (String × String) := []
  clock : Controller → Time := fun _ => 0
  log : List Event := []
  panic : Bool := false

@[simps]
def GcState.record (s : GcState) (e : Event) : GcState := { s with log := e :: s.log }

inductive Op where
  | list
  | check (lease : Lease)
  | delete (lease : Lease)
  deriving DecidableEq, Repr

/-- How far a request to the API server gets. -/
inductive Request where
  | answered
  /-- It fails before it has any effect. -/
  | lost
  /-- Its effect takes place and the answer is lost. -/
  | answerLost
  deriving DecidableEq, Repr

/-- A delete with an `RVDeletionPrecondition`, at the API server. -/
def GcState.apiDelete (s : GcState) (k : Controller) (name resourceVersion : String) :
    GcState × DeleteResult :=
  match s.leases.lookup name with
  | none => (s, .notFound)
  | some stored =>
      if stored.resourceVersion = resourceVersion then
        ({ s with leases := s.leases.erase name }.record (.deleted k stored (s.clock k)), .deleted)
      else (s, .conflict)

/-- One operation of a pass of `gc`, by a controller with the given selector. -/
def exec (selects : Controller → List (String × String) → Bool) (s : GcState) (k : Controller)
    (request : Request) : Op → Option (GcState × List Op × Option (Controller × List Op))
  | .list =>
      if request = .answered then
        let items := s.leases.values.filter fun lease => selects k lease.labels
        some (s.record (.listed k items), items.map .check, none)
      else some (s, [], none)
  | .check lease =>
      match isLeaseValid (s.clock k) lease with
      | none => some ({ s with panic := true }, [], none)
      | some valid =>
          some (s.record (.checked k lease valid), if valid then [] else [.delete lease], none)
  | .delete lease =>
      match request with
      | .lost => some (s.record (.attempted k lease .failed), [], none)
      | .answered =>
          let (s', result) := s.apiDelete k lease.name lease.resourceVersion
          some (s'.record (.attempted k lease result), [], none)
      | .answerLost =>
          let (s', _) := s.apiDelete k lease.name lease.resourceVersion
          some (s'.record (.attempted k lease .failed), [], none)

inductive GcAction where
  /-- The next pass of a controller. -/
  | gc (k : Controller)
  | tick (k : Controller) (d : Nat)
  /-- Anybody creates or updates a lease. -/
  | write (lease : Lease)
  /-- Anybody else deletes one. -/
  | remove (name : String)
  deriving DecidableEq, Repr

def arrive (s : GcState) : GcAction → Option (GcState × Option (Controller × List Op))
  | .gc k => some (s, some (k, [.list]))
  | .tick k d => some ({ s with clock := Function.update s.clock k (s.clock k + d) }, none)
  | .write lease =>
      if (lease.name, lease.resourceVersion) ∈ s.used then none
      else
        let leases := s.leases.insert lease.name lease
        let used := (lease.name, lease.resourceVersion) :: s.used
        some ({ s with leases := leases, used := used }.record (.written lease.name), none)
  | .remove name => some ({ s with leases := s.leases.erase name }, none)

/-- The controllers over one API server. -/
def controllers (selects : Controller → List (String × String) → Bool) :
    System GcState Controller Op GcAction Request where
  exec := exec selects
  arrive := arrive
  halted := fun s => s.panic

def newControllers : System.State GcState Controller Op := ⟨{}, fun _ => []⟩

end Konnectivity.Server.Leases
