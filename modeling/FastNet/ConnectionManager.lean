import FastNet.Keyed
import FastNet.Machine
import FastNet.Numerals

/-!
`ConnectionManager`. Every call holds the mutex from its beginning to its end, so that a run
is a list of calls. Times and durations are counted in nanoseconds. The counters of pending
requests, which a call raises and lowers again under the mutex, and the times that are only
reported are left out.
-/

namespace FastNet.ConnectionManager

open Keyed

inductive LoadBalancingStrategy where
  | roundRobin | random | leastConnections | weightedRoundRobin | ipHash
  deriving DecidableEq, Repr

structure BackendServer where
  host : Bytes
  port : Nat
  weight : Int := 1
  healthy : Bool := true
  activeConnections : Nat := 0
  failureCount : Nat := 0
  currentWeight : Int := 0
  lastFailureTime : Int := 0
  deriving DecidableEq

def BackendServer.address (b : BackendServer) : Bytes × Nat := (b.host,b.port)

inductive CircuitBreakerState where
  | closed | opened | halfOpen
  deriving DecidableEq, Repr

structure CircuitBreakerStats where
  state : CircuitBreakerState := .closed
  failureCount : Nat := 0
  successCount : Nat := 0
  timeoutCount : Nat := 0
  lastFailureTime : Int := 0
  deriving DecidableEq

structure ConnectionInfo where
  id : Nat
  service : Bytes
  remoteHost : Bytes
  remotePort : Nat
  lastUsed : Int
  isActive : Bool
  deriving DecidableEq

def ConnectionInfo.address (c : ConnectionInfo) : Bytes × Nat := (c.remoteHost,c.remotePort)

/-- A service with the name under which it stands in `services`. -/
structure ServiceState where
  name : Bytes
  backends : List BackendServer := []
  idleConnections : List Nat := []
  strategy : LoadBalancingStrategy := .roundRobin
  circuitBreaker : CircuitBreakerStats := {}
  roundRobinIndex : Nat := 0
  maxPoolSize : Nat := 0
  totalConnections : Nat := 0
  deriving DecidableEq

/-- The options that the manager reads, and the hash of the standard library. -/
structure Configuration where
  connectionTimeout : Int := 30000
  recoveryTimeout : Int := 60000
  circuitBreakerEnabled : Bool := true
  failureThreshold : Int := 5
  halfOpenAttempts : Int := 3
  maxConnections : Int := 1024
  loadBalancingStrategy : Bytes := ascii "RoundRobin"
  hash : Bytes → Nat

def milliseconds (n : Int) : Int := n*1000000

def normalizeStrategyName (text : Bytes) : Bytes := (text.filter Ctype.isAlnum).map Ctype.toLower

def parseStrategy (strategyName : Bytes) : LoadBalancingStrategy :=
  let normalized := normalizeStrategyName strategyName
  if normalized = ascii "random" then .random
  else if normalized = ascii "leastconnections" then .leastConnections
  else if normalized = ascii "weightedroundrobin" then .weightedRoundRobin
  else if normalized = ascii "iphash" then .ipHash
  else .roundRobin

namespace Configuration

variable (config : Configuration)

/-- The members of `Impl` that come from the options. -/
def idleTimeout : Int := milliseconds config.connectionTimeout

def recovery : Int := milliseconds config.recoveryTimeout

def threshold : Nat := (max 1 config.failureThreshold).toNat

def attempts : Nat := (max 1 config.halfOpenAttempts).toNat

end Configuration

def applyBackendStatus (success : Bool) (failureThreshold : Nat) (now : Int) (backend : BackendServer) : BackendServer :=
  if success then { backend with failureCount := 0, healthy := true, currentWeight := 0 }
  else
    let backend := { backend with failureCount := backend.failureCount+1, lastFailureTime := now }
    if failureThreshold ≤ backend.failureCount then { backend with healthy := false, currentWeight := 0 } else backend

def applyExecutionResult (success : Bool) (failureThreshold halfOpenAttempts : Nat) (now : Int)
    (breaker : CircuitBreakerStats) : CircuitBreakerStats :=
  if success then
    let breaker := { breaker with successCount := breaker.successCount+1, timeoutCount := 0 }
    if breaker.state = .halfOpen ∧ halfOpenAttempts ≤ breaker.successCount then
      { breaker with state := .closed, failureCount := 0, successCount := 0 }
    else if breaker.state = .closed then { breaker with failureCount := 0 }
    else breaker
  else
    let breaker := { breaker with
      failureCount := breaker.failureCount+1, timeoutCount := breaker.timeoutCount+1, lastFailureTime := now }
    if breaker.state = .halfOpen ∨ failureThreshold ≤ breaker.failureCount then
      { breaker with state := .opened, successCount := 0 }
    else breaker

/-! ### The choice of a backend -/

def healthyBackends (backends : List BackendServer) : List Nat :=
  (backends.zipIdx.filter (fun b => b.1.healthy)).map Prod.snd

/-- The order of `LeastConnections`. -/
def fewerConnections (lhs rhs : BackendServer) : Bool :=
  if lhs.activeConnections = rhs.activeConnections then rhs.weight < lhs.weight
  else lhs.activeConnections < rhs.activeConnections

/-- `std::min_element`: the first of the least. -/
def leastConnections : List (BackendServer × Nat) → Option (BackendServer × Nat) → Option Nat
  | [], smallest => smallest.map Prod.snd
  | b :: rest, none => leastConnections rest (some b)
  | b :: rest, some smallest =>
    leastConnections rest (some (if fewerConnections b.1 smallest.1 then b else smallest))

def BackendServer.effectiveWeight (b : BackendServer) : Int := max 1 b.weight

/-- A result of type `int`, as the machine keeps it. The language leaves a result that does not
fit undefined. -/
def int (n : Int) : Int := n.bmod (2^32)

/-- The test with which the loop of `WeightedRoundRobin` takes a new best backend. -/
def outweighs (backend best : BackendServer) : Bool :=
  best.currentWeight < backend.currentWeight ||
    (backend.currentWeight = best.currentWeight && backend.activeConnections < best.activeConnections)

/-- The loop of `WeightedRoundRobin`, with the place it has come to, the best backend so far
and the sum of the weights so far. -/
def weightedLoop : List BackendServer → Nat → Option (BackendServer × Nat) → Int →
    List BackendServer × Option (BackendServer × Nat) × Int
  | [], _, best, totalWeight => ([],best,totalWeight)
  | backend :: rest, i, best, totalWeight =>
    if backend.healthy then
      let backend' := { backend with currentWeight := int (backend.currentWeight+backend.effectiveWeight) }
      let best := match best with
        | none => (backend',i)
        | some b => if outweighs backend' b.1 then (backend',i) else b
      let (rest,result) := weightedLoop rest (i+1) (some best) (int (totalWeight+backend.effectiveWeight))
      (backend' :: rest,result)
    else
      let (rest,result) := weightedLoop rest (i+1) best totalWeight
      (backend :: rest,result)

def weightedRoundRobin (backends : List BackendServer) : List BackendServer × Option Nat :=
  match weightedLoop backends 0 none 0 with
  | (backends,none,_) => (backends,none)
  | (backends,some (_,i),totalWeight) =>
    (backends.modify i (fun b => { b with currentWeight := int (b.currentWeight-totalWeight) }),some i)

def nextInTurn (s : ServiceState) : ServiceState × Option Nat :=
  let healthy := healthyBackends s.backends
  ({ s with roundRobinIndex := (s.roundRobinIndex+1) % 2^64 },healthy[s.roundRobinIndex % healthy.length]?)

/-- The chosen backend is given by its place. `random` is what the generator yields. -/
def selectBackendLocked (config : Configuration) (s : ServiceState) (affinityKey : Bytes) (random : Nat) :
    ServiceState × Option Nat :=
  let healthy := healthyBackends s.backends
  if healthy = [] then (s,none)
  else
    match s.strategy with
    | .random => (s,healthy[random % healthy.length]?)
    | .leastConnections => (s,leastConnections (s.backends.zipIdx.filter (fun b => b.1.healthy)) none)
    | .weightedRoundRobin =>
      let (backends,picked) := weightedRoundRobin s.backends
      ({ s with backends },picked)
    | .ipHash => if affinityKey = [] then nextInTurn s else (s,healthy[config.hash affinityKey % healthy.length]?)
    | .roundRobin => nextInTurn s

def getActiveConnectionCountLocked (s : ServiceState) : Nat := (s.backends.map BackendServer.activeConnections).sum

def CircuitBreakerStats.tryAgain (breaker : CircuitBreakerStats) : CircuitBreakerStats :=
  { breaker with state := .halfOpen, successCount := 0, timeoutCount := 0 }

/-- The time check of `prepareCircuitBreakerLocked`. -/
def checkTime (config : Configuration) (now : Int) (breaker : CircuitBreakerStats) : CircuitBreakerStats :=
  if breaker.state = .opened ∧ ¬ (0 < config.recovery ∧ now-breaker.lastFailureTime < config.recovery) then
    breaker.tryAgain
  else breaker

def prepareCircuitBreakerLocked (config : Configuration) (now : Int) (s : ServiceState) : ServiceState × Bool :=
  if !config.circuitBreakerEnabled then (s,true)
  else
    let s := { s with circuitBreaker := checkTime config now s.circuitBreaker }
    if s.circuitBreaker.state = .opened then (s,false)
    else (s,!(s.circuitBreaker.state = .halfOpen && config.attempts ≤ getActiveConnectionCountLocked s))

/-! ### The manager -/

structure Impl where
  connections : List ConnectionInfo := []
  services : List ServiceState := []
  nextConnectionId : Nat := 1

namespace Impl

variable (m : Impl) (config : Configuration)

def connection (id : Nat) : Option ConnectionInfo := find ConnectionInfo.id id m.connections

def service (name : Bytes) : Option ServiceState := find ServiceState.name name m.services

def modifyService (name : Bytes) (f : ServiceState → ServiceState) : Impl :=
  { m with services := modify ServiceState.name name f m.services }

def store (c : ConnectionInfo) : Impl :=
  { m with connections := modify ConnectionInfo.id c.id (fun _ => c) m.connections }

/-- `services[service]`, which makes an empty state when there is none. -/
def openService (name : Bytes) : Impl :=
  match m.service name with
  | some _ => m
  | none => { m with services := m.services ++ [{ name }] }

def ensureServiceStateLocked (name : Bytes) : Impl :=
  (m.openService name).modifyService name (fun s =>
    if s.maxPoolSize = 0 then
      { s with
        maxPoolSize := (max 1 config.maxConnections).toNat
        strategy := parseStrategy config.loadBalancingStrategy }
    else s)

/-- What `createConnectionLocked` counts: a connection to the backend at place `i`. -/
def enlist (i : Nat) (s : ServiceState) : ServiceState :=
  { s with
    backends := s.backends.modify i (fun b => { b with activeConnections := b.activeConnections+1 })
    totalConnections := s.totalConnections+1 }

def newConnection (id : Nat) (name : Bytes) (b : BackendServer) (now : Int) : ConnectionInfo :=
  { id, service := name, remoteHost := b.host, remotePort := b.port, lastUsed := now, isActive := true }

/-- The new connection goes to the backend `b`, which stands at place `i`. -/
def createConnectionLocked (name : Bytes) (i : Nat) (b : BackendServer) (now : Int) : Impl × Nat :=
  let info := newConnection m.nextConnectionId name b now
  let m := { m with nextConnectionId := (m.nextConnectionId+1) % 2^64 }
  let m := m.modifyService name (enlist i)
  ({ m with connections := put ConnectionInfo.id info m.connections },info.id)

/-- What `removeConnectionLocked` changes in the service of the connection. The counters are
lowered only above 0. -/
def forget (c : ConnectionInfo) (s : ServiceState) : ServiceState :=
  { s with
    idleConnections := s.idleConnections.filter (fun id => id ≠ c.id)
    backends :=
      if c.isActive then
        modifyFirst BackendServer.address c.address
          (fun b => { b with activeConnections := b.activeConnections-1 }) s.backends
      else s.backends
    totalConnections := s.totalConnections-1 }

def removeConnectionLocked (c : ConnectionInfo) : Impl :=
  let m := m.modifyService c.service (forget c)
  { m with connections := erase ConnectionInfo.id c.id m.connections }

def removeWhere (gone : ConnectionInfo → Bool) : Impl :=
  m.connections.foldl (fun m c => if gone c then m.removeConnectionLocked c else m) m

def pruneIdleConnectionsLocked (s : ServiceState) : ServiceState :=
  { s with
    idleConnections := s.idleConnections.filter (fun id =>
      match m.connection id with
      | none => false
      | some c => !c.isActive) }

def cleanupExpiredConnectionsLocked (now : Int) : Impl :=
  let m := m.removeWhere (fun c =>
    !(c.isActive || config.idleTimeout = 0 || now-c.lastUsed ≤ config.idleTimeout))
  { m with services := m.services.map m.pruneIdleConnectionsLocked }

def recovered (now lastFailureTime : Int) : Bool :=
  config.recovery = 0 || config.recovery ≤ now-lastFailureTime

def checkHealth (now : Int) (s : ServiceState) : ServiceState :=
  { s with
    circuitBreaker :=
      if s.circuitBreaker.state = .opened ∧ recovered config now s.circuitBreaker.lastFailureTime then
        s.circuitBreaker.tryAgain
      else s.circuitBreaker
    backends := s.backends.map (fun b =>
      if !b.healthy && recovered config now b.lastFailureTime then
        { b with healthy := true, failureCount := 0, currentWeight := 0 }
      else b) }

def performHealthCheckLocked (now : Int) : Impl :=
  { m with services := m.services.map (fun s => m.pruneIdleConnectionsLocked (checkHealth config now s)) }

/-! ### The calls -/

def popIdle (s : ServiceState) : ServiceState := { s with idleConnections := s.idleConnections.tail }

def engage (a : Bytes × Nat) (s : ServiceState) : ServiceState :=
  { s with
    backends := modifyFirst BackendServer.address a
      (fun b => { b with activeConnections := b.activeConnections+1 }) s.backends }

/-- The loop over the idle connections, with as many turns as there are idle connections. -/
def acquireIdle (name : Bytes) (now : Int) : Nat → Impl → Impl × Option Nat
  | 0, m => (m,none)
  | turns+1, m =>
    match m.service name with
    | none => (m,none)
    | some s =>
      match s.idleConnections with
      | [] => (m,none)
      | candidateId :: _ =>
        let m := m.modifyService name popIdle
        match m.connection candidateId with
        | none => acquireIdle name now turns m
        | some c =>
          if c.isActive then acquireIdle name now turns m
          else if 0 < config.idleTimeout ∧ config.idleTimeout < now-c.lastUsed then
            acquireIdle name now turns (m.removeConnectionLocked c)
          else
            let c := { c with isActive := true, lastUsed := now }
            let m := m.store c
            match find BackendServer.address c.address s.backends with
            | none => acquireIdle name now turns (m.removeConnectionLocked c)
            | some b =>
              if !b.healthy then acquireIdle name now turns (m.removeConnectionLocked c)
              else (m.modifyService name (engage c.address),some candidateId)

/-- The rest of `acquireConnection`, when no idle connection has been found. -/
def acquireNew (name affinityKey : Bytes) (now : Int) (random : Nat) : Impl × Nat :=
  match m.service name with
  | none => (m,0)
  | some s =>
    if s.maxPoolSize ≤ s.totalConnections then (m,0)
    else
      let (s',picked) := selectBackendLocked config s affinityKey random
      let m := m.modifyService name (fun s => (selectBackendLocked config s affinityKey random).1)
      match picked.bind (fun i => s'.backends[i]?.map (fun b => (i,b))) with
      | none => (m,0)
      | some (i,b) => m.createConnectionLocked name i b now

def acquireConnection (name affinityKey : Bytes) (now : Int) (random : Nat) : Impl × Nat :=
  if name = [] then (m,0)
  else
    let m := m.ensureServiceStateLocked config name
    match m.service name with
    | none => (m,0)
    | some s =>
      let ready := (prepareCircuitBreakerLocked config now s).2
      let m := m.modifyService name (fun s => (prepareCircuitBreakerLocked config now s).1)
      if !ready then (m,0)
      else
        match acquireIdle config name now s.idleConnections.length m with
        | (m,some id) => (m,id)
        | (m,none) => m.acquireNew config name affinityKey now random

def releaseConnection (id : Nat) (now : Int) : Impl :=
  match m.connection id with
  | none => m
  | some c =>
    if !c.isActive then m
    else
      match m.service c.service with
      | none => m.removeConnectionLocked c
      | some s =>
        match find BackendServer.address c.address s.backends with
        | none => m.removeConnectionLocked c
        | some b =>
          if !b.healthy then m.removeConnectionLocked c
          else
            (m.store { c with isActive := false, lastUsed := now }).modifyService c.service (fun s =>
              { s with
                idleConnections := s.idleConnections ++ [id]
                backends := modifyFirst BackendServer.address c.address
                  (fun b => { b with activeConnections := b.activeConnections-1 }) s.backends })

def closeConnection (id : Nat) : Impl :=
  match m.connection id with
  | none => m
  | some c => m.removeConnectionLocked c

def register (host : Bytes) (port : Nat) (weight : Int) (s : ServiceState) : ServiceState :=
  match find BackendServer.address (host,port) s.backends with
  | some _ =>
    { s with
      backends := modifyFirst BackendServer.address (host,port)
        (fun b => { b with weight := max 1 weight, healthy := true, currentWeight := 0 }) s.backends }
  | none => { s with backends := s.backends ++ [{ host, port, weight := max 1 weight }] }

def addBackendServer (name host : Bytes) (port : Nat) (weight : Int) : Impl :=
  if name = [] ∨ host = [] ∨ port = 0 then m
  else (m.ensureServiceStateLocked config name).modifyService name (register host port weight)

def idleAt (name : Bytes) (address : Bytes × Nat) (c : ConnectionInfo) : Bool :=
  c.service = name && c.address = address && !c.isActive

def unregister (host : Bytes) (port : Nat) (s : ServiceState) : ServiceState :=
  let backends := erase BackendServer.address (host,port) s.backends
  { s with
    backends
    roundRobinIndex :=
      if backends.length ≤ s.roundRobinIndex ∧ backends ≠ [] then s.roundRobinIndex % backends.length
      else s.roundRobinIndex }

def removeBackendServer (name host : Bytes) (port : Nat) : Impl :=
  match m.service name with
  | none => m
  | some _ => (m.modifyService name (unregister host port)).removeWhere (idleAt name (host,port))

def updateBackendWeight (name host : Bytes) (port : Nat) (weight : Int) : Impl :=
  m.modifyService name (fun s =>
    { s with
      backends := modifyFirst BackendServer.address (host,port)
        (fun b => { b with weight := max 1 weight, currentWeight := 0 }) s.backends })

def setLoadBalancingStrategy (name : Bytes) (strategy : LoadBalancingStrategy) : Impl :=
  (m.ensureServiceStateLocked config name).modifyService name (fun s => { s with strategy })

/-- The body of both forms of `reportBackendStatus` for one service: no address stands twice
among the backends of a service. -/
def reportTo (name host : Bytes) (port : Nat) (success : Bool) (now : Int) : Impl :=
  match (m.service name).bind (fun s => find BackendServer.address (host,port) s.backends) with
  | none => m
  | some b =>
    let m := m.modifyService name (fun s =>
      { s with
        backends := modifyFirst BackendServer.address (host,port)
          (applyBackendStatus success config.threshold now) s.backends })
    if b.healthy && !(applyBackendStatus success config.threshold now b).healthy then
      m.removeWhere (idleAt name (host,port))
    else m

def reportBackendStatus (host : Bytes) (port : Nat) (success : Bool) (now : Int) : Impl :=
  if host = [] ∨ port = 0 then m
  else m.services.foldl (fun m s => m.reportTo config s.name host port success now) m

def reportServiceBackendStatus (name host : Bytes) (port : Nat) (success : Bool) (now : Int) : Impl :=
  if name = [] ∨ host = [] ∨ port = 0 then m else m.reportTo config name host port success now

def report (success : Bool) (now : Int) (s : ServiceState) : ServiceState :=
  { s with circuitBreaker := applyExecutionResult success config.threshold config.attempts now s.circuitBreaker }

def reportExecution (success : Bool) (now : Int) : Impl :=
  if !config.circuitBreakerEnabled then m else { m with services := m.services.map (report config success now) }

def reportServiceExecution (name : Bytes) (success : Bool) (now : Int) : Impl :=
  if !config.circuitBreakerEnabled then m else m.modifyService name (report config success now)

/-- A turn of `maintenanceLoop`. -/
def maintain (now : Int) : Impl := (m.cleanupExpiredConnectionsLocked config now).performHealthCheckLocked config now

def cleanup : Impl := { m with connections := [], services := [] }

end Impl

inductive Call where
  | acquireConnection (service affinityKey : Bytes) (now : Int) (random : Nat)
  | releaseConnection (id : Nat) (now : Int)
  | closeConnection (id : Nat)
  | addBackendServer (service host : Bytes) (port : Nat) (weight : Int)
  | removeBackendServer (service host : Bytes) (port : Nat)
  | updateBackendWeight (service host : Bytes) (port : Nat) (weight : Int)
  | setLoadBalancingStrategy (service : Bytes) (strategy : LoadBalancingStrategy)
  | reportBackendStatus (host : Bytes) (port : Nat) (success : Bool) (now : Int)
  | reportServiceBackendStatus (service host : Bytes) (port : Nat) (success : Bool) (now : Int)
  | reportExecution (success : Bool) (now : Int)
  | reportServiceExecution (service : Bytes) (success : Bool) (now : Int)
  | maintenance (now : Int)
  | cleanup

def step (config : Configuration) (m : Impl) : Call → Impl
  | .acquireConnection service affinityKey now random => (m.acquireConnection config service affinityKey now random).1
  | .releaseConnection id now => m.releaseConnection id now
  | .closeConnection id => m.closeConnection id
  | .addBackendServer service host port weight => m.addBackendServer config service host port weight
  | .removeBackendServer service host port => m.removeBackendServer service host port
  | .updateBackendWeight service host port weight => m.updateBackendWeight service host port weight
  | .setLoadBalancingStrategy service strategy => m.setLoadBalancingStrategy config service strategy
  | .reportBackendStatus host port success now => m.reportBackendStatus config host port success now
  | .reportServiceBackendStatus service host port success now =>
    m.reportServiceBackendStatus config service host port success now
  | .reportExecution success now => m.reportExecution config success now
  | .reportServiceExecution service success now => m.reportServiceExecution config service success now
  | .maintenance now => m.maintain config now
  | .cleanup => m.cleanup

end FastNet.ConnectionManager
