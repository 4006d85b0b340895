import Konnectivity.Storage.Host
import Konnectivity.Storage.Storage

/-!
# Choosing a backend

The three backend managers and `ProxyServer.getBackend`. A selection holds
the storage's lock, but three things still come from outside while it runs:
the numbers the random source draws, the draining flags other goroutines set
between two reads, and the load figures of the candidates. They are the
environment of a call (`SelectEnv`), which lists every flag that is set
during the call with the flag read it precedes. Flags are only ever set.

The retry loop of `GetRandomBackend` runs on fuel; an index out of range, a
failed type assertion and exhausted fuel are faults, kept apart from the
regular answer "no agent available" (`none`).
-/

namespace Konnectivity

open Lib

inductive Fault where
  | outOfRange
  | typeAssertion
  | outOfFuel
  deriving DecidableEq, Repr

/-- `l[i]`. -/
def index {α : Type} (l : List α) (i : Nat) : Except Fault α :=
  match l[i]? with
  | some a => .ok a
  | none => .error .outOfRange

/-- `rand.Intn(n)`, which panics unless `n > 0`. -/
def intn (n draw : Nat) : Except Fault Nat :=
  if n = 0 then .error .outOfRange else .ok (draw % n)

structure SelectEnv where
  /-- The random source: the number behind each draw. -/
  draws : Nat → Nat
  /-- `SetDraining` calls made meanwhile: `(k, b)` lands before flag read `k`. -/
  sets : List (Nat × BackendId)
  stats : BackendId → DialStats
  now : Int
  /-- The comparison of two receive-channel occupancies, which are floats. -/
  occupancyLt : BackendId → BackendId → Bool

/-- The draining flags as flag read `k` of the call finds them. -/
def SelectEnv.flags (env : SelectEnv) (draining : BackendId → Bool) (k : Nat)
    (b : BackendId) : Bool :=
  draining b || env.sets.any fun x => decide (x.1 ≤ k) && decide (x.2 = b)

/-- The draining flags once the call is over. -/
def SelectEnv.flagsAfter (env : SelectEnv) (draining : BackendId → Bool)
    (b : BackendId) : Bool :=
  draining b || env.sets.any fun x => decide (x.2 = b)

/-- How far a call has got: flags read and numbers drawn so far. -/
structure Cursor where
  reads : Nat := 0
  draws : Nat := 0
  deriving DecidableEq, Repr

/-- How a backend was chosen. -/
inductive Pick where
  | sole (first : BackendId)
  | preferred (first second selected : BackendId)
  | fallback (backend : BackendId)
  | destHost (backend : BackendId)
  deriving DecidableEq, Repr

def Pick.backend : Pick → BackendId
  | .sole b => b
  | .preferred _ _ b => b
  | .fallback b => b
  | .destHost b => b

/-! ## Random selection -/

/-- `lessOccupiedBackend`. -/
def lessOccupiedBackend (env : SelectEnv) (draw : Nat) (first second : BackendId) :
    BackendId :=
  if env.occupancyLt first second then first
  else if env.occupancyLt second first then second
  else if draw % 2 = 0 then first
  else second

/-- `preferredBackend`. -/
def preferredBackend (env : SelectEnv) (draw : Nat) (first second : BackendId) :
    BackendId :=
  let firstCost := (env.stats first).dialCost env.now
  let secondCost := (env.stats second).dialCost env.now
  if 2 * firstCost ≤ secondCost then first
  else if 2 * secondCost ≤ firstCost then second
  else lessOccupiedBackend env draw first second

namespace BackendStorage

/-- `s.backends[identifier]`, nil for a missing key. -/
def registered (s : BackendStorage) (identifier : String) : List BackendId :=
  (s.backends.lookup identifier).getD []

/-- The end of `GetRandomBackend`: no non-draining agent is left. -/
def selectDraining (s : BackendStorage) (env : SelectEnv) (c : Cursor) :
    Except Fault (BackendStorage × Cursor × Option Pick) :=
  if 0 < s.drainingAgentIDs.length then do
    let i ← intn s.drainingAgentIDs.length (env.draws c.draws)
    let agentID ← index s.drainingAgentIDs i
    let backend ← index (s.registered agentID) 0
    return (s, { c with draws := c.draws + 1 }, some (.fallback backend))
  else
    return (s, c, none)

/-- The loop of `GetRandomBackend`. -/
def selectLoop (env : SelectEnv) (draining : BackendId → Bool) :
    Nat → BackendStorage → Cursor →
      Except Fault (BackendStorage × Cursor × Option Pick)
  | 0, _, _ => .error .outOfFuel
  | fuel + 1, s, c =>
      if s.nonDrainingAgentIDs.length = 0 then s.selectDraining env c
      else do
        let firstIndex ← intn s.nonDrainingAgentIDs.length (env.draws c.draws)
        let firstAgentID ← index s.nonDrainingAgentIDs firstIndex
        let first ← index (s.registered firstAgentID) 0
        if env.flags draining c.reads first then
          -- A stale entry: repair the index and draw again.
          selectLoop env draining fuel
            (s.refreshIdentifierState (env.flags draining (c.reads + 1)) firstAgentID)
            ⟨c.reads + 2, c.draws + 1⟩
        else if s.nonDrainingAgentIDs.length = 1 then
          return (s, ⟨c.reads + 1, c.draws + 1⟩, some (.sole first))
        else do
          let drawn ← intn (s.nonDrainingAgentIDs.length - 1) (env.draws (c.draws + 1))
          let secondIndex := if firstIndex ≤ drawn then drawn + 1 else drawn
          let secondAgentID ← index s.nonDrainingAgentIDs secondIndex
          let second ← index (s.registered secondAgentID) 0
          if env.flags draining (c.reads + 1) second then
            selectLoop env draining fuel
              (s.refreshIdentifierState (env.flags draining (c.reads + 2)) secondAgentID)
              ⟨c.reads + 3, c.draws + 2⟩
          else
            let selected := preferredBackend env (env.draws (c.draws + 2)) first second
            return (s, ⟨c.reads + 2, c.draws + 3⟩,
              some (.preferred first second selected))

/-- `GetRandomBackend`. The fuel is the number of entries the loop can still
find stale, and one more round. -/
def getRandomBackend (s : BackendStorage) (env : SelectEnv)
    (draining : BackendId → Bool) (c : Cursor) :
    Except Fault (BackendStorage × Cursor × Option Pick) :=
  if s.backends.size = 0 then return (s, c, none)
  else selectLoop env draining (s.nonDrainingAgentIDs.length + 1) s c

/-! ## Selection by destination host -/

/-- The loop of `DestHostBackendManager.Backend`: the first backend observed
non-draining, else the first of all. -/
def destHostLoop (env : SelectEnv) (draining : BackendId → Bool) :
    List BackendId → Nat → Option BackendId → Option BackendId × Nat
  | [], k, firstDrainingBackend => (firstDrainingBackend, k)
  | b :: bes, k, firstDrainingBackend =>
      if !env.flags draining k b then (some b, k + 1)
      else destHostLoop env draining bes (k + 1) (firstDrainingBackend.orElse fun _ => some b)

/-- `DestHostBackendManager.Backend`. The context holds the destination host
unless `genContext` did not set it. -/
def destHostBackend (s : BackendStorage) (env : SelectEnv)
    (draining : BackendId → Bool) (ctx : Option String) (c : Cursor) :
    Except Fault (BackendStorage × Cursor × Option Pick) :=
  if s.backends.size = 0 then return (s, c, none)
  else
    match ctx with
    | none => .error .typeAssertion
    | some destHost =>
        if destHost ≠ "" then
          match s.backends.lookup destHost with
          | some bes =>
              let (backend, k) := destHostLoop env draining bes c.reads none
              return (s, { c with reads := k }, backend.map .destHost)
          | none => return (s, c, none)
        else return (s, c, none)

end BackendStorage

/-! ## The managers -/

structure BackendManager where
  strategy : ProxyStrategy
  storage : BackendStorage

/-- `NewDefaultBackendManager`, `NewDestHostBackendManager` and
`NewDefaultRouteBackendManager`. -/
def newBackendManager : ProxyStrategy → BackendManager
  | .default => ⟨.default, newDefaultBackendStorage [.uid] .default⟩
  | .destHost => ⟨.destHost, newDefaultBackendStorage [.ipv4, .ipv6, .host] .destHost⟩
  | .defaultRoute => ⟨.defaultRoute, newDefaultBackendStorage [.defaultRoute] .defaultRoute⟩

/-- The identifiers under which a manager files a backend, in the order its
`AddBackend` and `RemoveBackend` go through them. -/
def advertised (strategy : ProxyStrategy) (info : BackendInfo) :
    List (String × IdentifierType) :=
  match strategy with
  | .default => [(info.id, .uid)]
  | .defaultRoute => if info.idents.defaultRoute then [(info.id, .defaultRoute)] else []
  | .destHost =>
      info.idents.ipv4.map (·, .ipv4) ++ info.idents.ipv6.map (·, .ipv6) ++
        info.idents.host.map (·, .host)

/-- `BackendManager.Backend`. -/
def BackendManager.backend (m : BackendManager) (env : SelectEnv)
    (draining : BackendId → Bool) (ctx : Option String) (c : Cursor) :
    Except Fault (BackendManager × Cursor × Option Pick) := do
  let (s, c, pick) ←
    match m.strategy with
    | .default | .defaultRoute => m.storage.getRandomBackend env draining c
    | .destHost => m.storage.destHostBackend env draining ctx c
  return (⟨m.strategy, s⟩, c, pick)

/-- `genContext`: the destination host, set once per `destHost` strategy. -/
def genContext (reqHost : String) : List ProxyStrategy → Except Fault (Option String)
  | [] => .ok none
  | .destHost :: rest => do
      match removePortFromHost reqHost with
      | none => .error .outOfRange
      | some addr =>
          let ctx ← genContext reqHost rest
          return some (ctx.getD addr)
  | _ :: rest => genContext reqHost rest

/-- The loop of `ProxyServer.getBackend` over the managers. -/
def getBackendLoop (env : SelectEnv) (draining : BackendId → Bool)
    (ctx : Option String) :
    List BackendManager → Cursor →
      Except Fault (List BackendManager × Cursor × Option Pick)
  | [], c => .ok ([], c, none)
  | bm :: bms, c => do
      let (bm, c, pick) ← bm.backend env draining ctx c
      match pick with
      | some _ => return (bm :: bms, c, pick)
      | none =>
          let (bms, c, pick) ← getBackendLoop env draining ctx bms c
          return (bm :: bms, c, pick)

/-- `ProxyServer.getBackend`; `none` is `ErrNotFound`. -/
def getBackend (strategies : List ProxyStrategy) (managers : List BackendManager)
    (env : SelectEnv) (draining : BackendId → Bool) (reqHost : String) :
    Except Fault (List BackendManager × Cursor × Option Pick) := do
  let ctx ← genContext reqHost strategies
  getBackendLoop env draining ctx managers {}

end Konnectivity
