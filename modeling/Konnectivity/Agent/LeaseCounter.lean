import Konnectivity.Server.Leases

/-!
# The lease counter of an agent

`ServerLeaseCounter.Count` counts the valid leases of a listing to tell how many
proxy servers there are. The listing and the clock are inputs of a call; the
clock is read anew for every lease. `none` is the panic of a nil
`LeaseDurationSeconds`.
-/

namespace Konnectivity.Agent

open Server.Leases

/-- What one call of `Count` is given. -/
structure CountCall where
  /-- The leases the lister returned, unless it failed. -/
  leases : Option (List Lease)
  /-- The clock when the leases are looked at. -/
  now : Nat → Time

structure ServerLeaseCounter where
  fallbackCount : Nat
  deriving DecidableEq, Repr

/-- `NewServerLeaseCounter`. -/
def newServerLeaseCounter : ServerLeaseCounter := ⟨1⟩

/-- The loop over the leases, from the one at index `i` on. -/
def countValid (now : Nat → Time) : Nat → List Lease → Option Nat
  | _, [] => some 0
  | i, lease :: leases => do
      let valid ← isLeaseValid (now i) lease
      let count ← countValid now (i + 1) leases
      return if valid then count + 1 else count

/-- `Count`. -/
def ServerLeaseCounter.count (lc : ServerLeaseCounter) (call : CountCall) :
    Option (Nat × ServerLeaseCounter) :=
  match call.leases with
  | none => some (lc.fallbackCount, lc)
  | some leases => do
      let valid ← countValid call.now 0 leases
      let count := if valid = 0 then 1 else valid
      return (count, if count ≠ lc.fallbackCount then ⟨count⟩ else lc)

/-- The results of one call after the other. -/
def ServerLeaseCounter.counts (lc : ServerLeaseCounter) : List CountCall → Option (List Nat)
  | [] => some []
  | call :: calls => do
      let (n, lc) ← lc.count call
      let ns ← lc.counts calls
      return n :: ns

end Konnectivity.Agent
