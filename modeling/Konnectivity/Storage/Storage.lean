import Konnectivity.Lib.GoMap
import Konnectivity.Storage.Backend

/-!
# The backend storage

`DefaultBackendStorage` of `pkg/server/backend_manager.go`: a map from
identifiers to the backends registered under them, and, for the two managers
that route at random, the identifiers split by the draining state of their
first backend.

The draining flags are atomics outside the storage's lock. A storage
operation that reads one is given the flags as it finds them.
-/

namespace Konnectivity

open Lib

structure BackendStorage where
  backends : GoMap String (List BackendId) := ∅
  nonDrainingAgentIDs : List String := []
  drainingAgentIDs : List String := []
  maintainRandomRoutingIndex : Bool
  idTypes : List IdentifierType
  proxyStrategy : ProxyStrategy

/-- `NewDefaultBackendStorage`. -/
def newDefaultBackendStorage (idTypes : List IdentifierType)
    (proxyStrategy : ProxyStrategy) : BackendStorage where
  maintainRandomRoutingIndex :=
    proxyStrategy = .default || proxyStrategy = .defaultRoute
  idTypes := idTypes
  proxyStrategy := proxyStrategy

/-- `removeIdentifier`: replace the first occurrence by the final element and
shorten the slice. -/
def removeIdentifier (identifiers : List String) (identifier : String) :
    List String :=
  match identifiers.idxOf? identifier, identifiers.getLast? with
  | some i, some last => (identifiers.set i last).dropLast
  | _, _ => identifiers

namespace BackendStorage

variable (s : BackendStorage) (draining : BackendId → Bool)

/-- `refreshIdentifierState`. -/
def refreshIdentifierState (identifier : String) : BackendStorage :=
  match (s.backends.lookup identifier).getD [] with
  | [] =>
      { s with
        nonDrainingAgentIDs := removeIdentifier s.nonDrainingAgentIDs identifier
        drainingAgentIDs := removeIdentifier s.drainingAgentIDs identifier }
  | primary :: _ =>
      if draining primary then
        let s := { s with
          nonDrainingAgentIDs := removeIdentifier s.nonDrainingAgentIDs identifier }
        if identifier ∈ s.drainingAgentIDs then s
        else { s with drainingAgentIDs := s.drainingAgentIDs ++ [identifier] }
      else
        let s := { s with
          drainingAgentIDs := removeIdentifier s.drainingAgentIDs identifier }
        if identifier ∈ s.nonDrainingAgentIDs then s
        else { s with nonDrainingAgentIDs := s.nonDrainingAgentIDs ++ [identifier] }

/-- `addBackend`. -/
def addBackend (identifier : String) (idType : IdentifierType)
    (backend : BackendId) : BackendStorage :=
  if idType ∉ s.idTypes then s
  else
    match s.backends.lookup identifier with
    | some bes =>
        if backend ∈ bes then s
        else { s with backends := s.backends.insert identifier (bes ++ [backend]) }
    | none =>
        let s := { s with backends := s.backends.insert identifier [backend] }
        if s.maintainRandomRoutingIndex then
          if draining backend then
            { s with drainingAgentIDs := s.drainingAgentIDs ++ [identifier] }
          else
            { s with nonDrainingAgentIDs := s.nonDrainingAgentIDs ++ [identifier] }
        else s

/-- `markIdentifierBackendDraining`. -/
def markIdentifierBackendDraining (identifier : String) (idType : IdentifierType)
    (backend : BackendId) : BackendStorage :=
  if idType ∉ s.idTypes then s
  else
    match s.backends.lookup identifier with
    | some (primary :: _) =>
        if primary = backend then s.refreshIdentifierState draining identifier else s
    | _ => s

/-- `append(a[:i], a[i+1:]...)` on a slice that views the first `len` elements
of `arr`: the tail moves down inside the same array and the last element of
the old view stays behind as garbage. Slicing from `i+1` past `len` panics. -/
def deleteAt (arr : List BackendId) (len i : Nat) : Option (List BackendId × Nat) :=
  if i + 1 ≤ len then
    some (arr.take i ++ (arr.take len).drop (i + 1) ++ arr.drop (len - 1), len - 1)
  else none

/-- The loop of `removeBackend`. It ranges over the slice as it was on entry,
so it visits every index of the array, but reads each element only when it
gets there, after the deletions made so far. -/
def removeLoop (backend : BackendId) :
    List Nat → List BackendId → Nat → Option (List BackendId × Nat)
  | [], arr, len => some (arr, len)
  | i :: is, arr, len =>
      match arr[i]? with
      | none => none
      | some b =>
          if b = backend then
            match deleteAt arr len i with
            | none => none
            | some (arr', len') => removeLoop backend is arr' len'
          else removeLoop backend is arr len

/-- Store a slice back under its identifier; the key goes when it is empty. -/
def putBackends (identifier : String) (bes : List BackendId) : BackendStorage :=
  { s with
    backends :=
      if bes.length = 0 then s.backends.erase identifier
      else s.backends.insert identifier bes }

/-- `removeBackend`. `none` is an index out of range in its loop. -/
def removeBackend (identifier : String) (idType : IdentifierType)
    (backend : BackendId) : Option BackendStorage :=
  if idType ∉ s.idTypes then some s
  else
    match s.backends.lookup identifier with
    | none => some s
    | some bes =>
        match removeLoop backend (List.range bes.length) bes bes.length with
        | none => none
        | some (arr, len) =>
            let s := s.putBackends identifier (arr.take len)
            if s.maintainRandomRoutingIndex then
              some (s.refreshIdentifierState draining identifier)
            else some s

end BackendStorage

end Konnectivity
