import Konnectivity.Lib.Machine
import Konnectivity.Storage.Select

/-!
# The backend managers under concurrent agents

`ProxyServer.addBackend`, `removeBackend` and `markBackendDraining` walk all
managers, and a manager walks the identifiers of the backend, taking the
storage's lock anew for every one of them. Between two such steps any other
goroutine may run. The registry machine makes every locked section one step:
a backend's `connect` goroutine has the steps of its `AddBackend` or
`RemoveBackend` still to do (`Phase`), its dispatcher those of a
`markBackendDraining` (`marks`), and selections of any manager come in
between.

The log is history the code does not keep: which backend was filed under
which identifier of which manager, and taken out again, newest event first.
-/

namespace Konnectivity

open Lib

/-- One locked section: manager, identifier and identifier type. -/
structure MicroStep where
  manager : Nat
  identifier : String
  idType : IdentifierType
  deriving DecidableEq, Repr

/-- Where a backend's `connect` goroutine is. -/
inductive Phase where
  | absent
  | adding (rest : List MicroStep)
  | added
  | removing (rest : List MicroStep)
  deriving DecidableEq, Repr

inductive RegEvent where
  | add (manager : Nat) (identifier : String) (backend : BackendId)
  | remove (manager : Nat) (identifier : String) (backend : BackendId)
  deriving DecidableEq, Repr

structure Registry where
  managers : List BackendManager
  draining : BackendId → Bool := fun _ => false
  phase : BackendId → Phase := fun _ => .absent
  marks : BackendId → List MicroStep := fun _ => []
  log : List RegEvent := []
  panicked : Bool := false

/-- `NewProxyServer`: one manager per strategy. -/
def newProxyServer (strategies : List ProxyStrategy) : Registry where
  managers := strategies.map newBackendManager

inductive RegAction where
  | addBackend (b : BackendId)
  | removeBackend (b : BackendId)
  | connectStep (b : BackendId)
  | setDraining (b : BackendId)
  | markBackendDraining (b : BackendId)
  | markStep (b : BackendId)
  | backend (manager : Nat) (reqHost : String) (env : SelectEnv)

/-- The locked sections of one walk over the managers. -/
def microSteps (strategies : List ProxyStrategy) (info : BackendInfo) : List MicroStep :=
  strategies.zipIdx.flatMap fun x =>
    (advertised x.1 info).map fun y => ⟨x.2, y.1, y.2⟩

/-- `markBackendDraining` skips the managers that keep no routing index. -/
def markSteps (strategies : List ProxyStrategy) (info : BackendInfo) : List MicroStep :=
  strategies.zipIdx.flatMap fun x =>
    if x.1 = .destHost then [] else (advertised x.1 info).map fun y => ⟨x.2, y.1, y.2⟩

namespace Registry

variable (strategies : List ProxyStrategy) (info : BackendId → BackendInfo)

def setPhase (s : Registry) (b : BackendId) (p : Phase) : Registry :=
  { s with phase := Function.update s.phase b p }

def setStorage (s : Registry) (i : Nat) (st : BackendStorage) : Registry :=
  { s with managers := s.managers.modify i fun m => { m with storage := st } }

/-- One locked section of `AddBackend`. -/
def addStep (s : Registry) (b : BackendId) (st : MicroStep) : Option Registry :=
  match s.managers[st.manager]? with
  | none => none
  | some m =>
      some { s.setStorage st.manager
              (m.storage.addBackend s.draining st.identifier st.idType b) with
        log := .add st.manager st.identifier b :: s.log }

/-- One locked section of `RemoveBackend`. -/
def removeStep (s : Registry) (b : BackendId) (st : MicroStep) : Option Registry :=
  match s.managers[st.manager]? with
  | none => none
  | some m =>
      match m.storage.removeBackend s.draining st.identifier st.idType b with
      | none => some { s with panicked := true }
      | some storage =>
          some { s.setStorage st.manager storage with
            log := .remove st.manager st.identifier b :: s.log }

/-- One locked section of `markBackendDraining`. -/
def markStep (s : Registry) (b : BackendId) (st : MicroStep) : Option Registry :=
  match s.managers[st.manager]? with
  | none => none
  | some m =>
      some (s.setStorage st.manager
        (m.storage.markIdentifierBackendDraining s.draining st.identifier st.idType b))

/-- A selection by one manager, with the flags that are set meanwhile. -/
def select (s : Registry) (i : Nat) (reqHost : String) (env : SelectEnv) :
    Option Registry :=
  match s.managers[i]? with
  | none => none
  | some m =>
      match genContext reqHost strategies with
      | .error _ => some { s with panicked := true }
      | .ok ctx =>
          match m.backend env s.draining ctx {} with
          | .error _ => some { s with panicked := true }
          | .ok (m', _, _) =>
              some { s.setStorage i m'.storage with
                draining := env.flagsAfter s.draining }

def step (s : Registry) (a : RegAction) : Option Registry :=
  if s.panicked then none
  else
    match a with
    | .addBackend b =>
        match s.phase b with
        | .absent | .added => some (s.setPhase b (.adding (microSteps strategies (info b))))
        | _ => none
    | .removeBackend b =>
        match s.phase b with
        | .absent | .added => some (s.setPhase b (.removing (microSteps strategies (info b))))
        | _ => none
    | .connectStep b =>
        match s.phase b with
        | .adding [] => some (s.setPhase b .added)
        | .adding (st :: rest) => (s.setPhase b (.adding rest)).addStep b st
        | .removing [] => some (s.setPhase b .absent)
        | .removing (st :: rest) => (s.setPhase b (.removing rest)).removeStep b st
        | _ => none
    | .setDraining b => some { s with draining := Function.update s.draining b true }
    | .markBackendDraining b =>
        some { s with
          draining := Function.update s.draining b true
          marks := Function.update s.marks b
            (s.marks b ++ markSteps strategies (info b)) }
    | .markStep b =>
        match s.marks b with
        | [] => none
        | st :: rest =>
            { s with marks := Function.update s.marks b rest }.markStep b st
    | .backend i reqHost env => s.select strategies i reqHost env

end Registry

/-- A state of the managers that some run reaches. -/
def Registry.Reachable (strategies : List ProxyStrategy)
    (info : BackendId → BackendInfo) (s : Registry) : Prop :=
  Reach (Registry.step strategies info) anyStep (newProxyServer strategies) s

end Konnectivity
