import FastNet.ConnectionAccounting

/-!
`ConnectionManager`: the circuit breaker of a service, driven by a list of signals.
-/

namespace FastNet.ConnectionManager

open Machine Impl CircuitBreakerStats List Option

variable {config : Configuration} {m m' : Impl} {name : Bytes}
variable {f : ServiceState → ServiceState} {g : CircuitBreakerStats → CircuitBreakerStats}
variable {call : Call} {calls : List Call}

/-! ### The signals that calls send -/

inductive Signal where
  | report (success : Bool) (now : Int)
  | attempt (now : Int)
  | healthCheck (now : Int)
  deriving DecidableEq

def Signal.time : Signal → Int
  | .report _ now | .attempt now | .healthCheck now => now

/-- What a call tells the breaker of a service. An attempt without a name is turned away at
once. -/
def signal (name : Bytes) : Call → Option Signal
  | .reportExecution success now => some (.report success now)
  | .reportServiceExecution service success now => if service = name then some (.report success now) else none
  | .acquireConnection service _ now _ => if service = name ∧ service ≠ [] then some (.attempt now) else none
  | .maintenance now => some (.healthCheck now)
  | _ => none

def CircuitBreakerStats.meet (config : Configuration) (breaker : CircuitBreakerStats) : Signal → CircuitBreakerStats
  | .report success now => applyExecutionResult success config.threshold config.attempts now breaker
  | .attempt now => checkTime config now breaker
  | .healthCheck now =>
    if breaker.state = .opened ∧ recovered config now breaker.lastFailureTime then breaker.tryAgain else breaker

def Impl.breaker (m : Impl) (name : Bytes) : Option CircuitBreakerStats := (m.service name).map ServiceState.circuitBreaker

def SameBreakers (m m' : Impl) : Prop := ∀ name, m'.breaker name = m.breaker name

theorem SameBreakers.trans {m'' : Impl} (h : SameBreakers m m') (h' : SameBreakers m' m'') : SameBreakers m m'' :=
  fun name => (h' name).trans (h name)

theorem sameBreakers_modifyService (m : Impl) (service : Bytes)
    (hname : ∀ s, (f s).name = s.name) (hbr : ∀ s, (f s).circuitBreaker = s.circuitBreaker) :
    SameBreakers m (m.modifyService service f) :=
  seen_modifyService m service hname hbr

theorem sameBreakers_remove (m : Impl) (c : ConnectionInfo) : SameBreakers m (m.removeConnectionLocked c) :=
  sameBreakers_modifyService m c.service (f := forget c) (fun _ => rfl) (fun _ => rfl)

theorem sameBreakers_removeWhere (m : Impl) (gone : ConnectionInfo → Bool) : SameBreakers m (m.removeWhere gone) := by
  unfold removeWhere
  generalize m.connections = l
  induction l generalizing m with
  | nil => exact fun _ => rfl
  | cons c l ih =>
    rw [foldl_cons]
    cases gone c with
    | true => exact (sameBreakers_remove m c).trans (ih _)
    | false => exact ih m

theorem sameBreakers_acquireIdle (config : Configuration) (name : Bytes) (now : Int) (turns : Nat) (m : Impl) :
    SameBreakers m (acquireIdle config name now turns m).1 :=
  seen_acquireIdle config (fun _ => rfl) (fun _ _ => rfl) (fun _ _ => rfl) name now turns m

theorem sameBreakers_acquireNew (m : Impl) (config : Configuration) (name affinityKey : Bytes) (now : Int) (random : Nat) :
    SameBreakers m (m.acquireNew config name affinityKey now random).1 := by
  have hsel := sameBreakers_modifyService m name
    (fun s => (selectBackend_same config s affinityKey random).1)
    (fun s => (selectBackend_same config s affinityKey random).2.2.2.2.2)
  simp only [acquireNew]
  split
  · exact fun _ => rfl
  · split
    · exact fun _ => rfl
    · split
      · exact hsel
      · refine hsel.trans (fun name' => ?_)
        exact sameBreakers_modifyService _ name (f := enlist _) (fun _ => rfl) (fun _ => rfl) name'

theorem breaker_ensureServiceState (m : Impl) (config : Configuration) (service name : Bytes) :
    (m.ensureServiceStateLocked config service).breaker name =
      if name = service then some ((m.breaker name).getD {}) else m.breaker name := by
  have hens : (m.ensureServiceStateLocked config service).breaker name = (m.openService service).breaker name := by
    refine sameBreakers_modifyService _ service (fun s => ?_) (fun s => ?_) name
    · split <;> rfl
    · split <;> rfl
  rw [hens]
  cases hser : m.service service with
  | some s =>
    have hopen : m.openService service = m := by simp [openService,hser]
    rw [hopen]
    split
    · rename_i hname
      rw [hname,breaker,hser]
      rfl
    · rfl
  | none =>
    have hopen : (m.openService service).services = m.services ++ [{ name := service }] := by
      simp [openService,hser]
    rw [breaker,Impl.service,hopen,Keyed.find,find?_append]
    split
    · rename_i hname
      subst hname
      have hnone : m.breaker name = none := by rw [breaker,hser]; rfl
      have hfind : m.services.find? (fun s => s.name = name) = none := hser
      rw [hfind,hnone]
      simp
    · rename_i hname
      have hsin : ([{ name := service }] : List ServiceState).find? (fun s => s.name = name) = none := by
        simp [Ne.symm hname]
      rw [hsin,or_none]
      rfl

theorem sameBreakers_reportTo (m : Impl) (config : Configuration) (service host : Bytes) (port : Nat) (success : Bool)
    (now : Int) : SameBreakers m (m.reportTo config service host port success now) := by
  unfold reportTo
  split
  · exact fun _ => rfl
  · have hmod : SameBreakers m (m.modifyService service (fun s =>
        { s with
          backends := Keyed.modifyFirst BackendServer.address (host,port)
            (applyBackendStatus success config.threshold now) s.backends })) := by
      refine sameBreakers_modifyService m service (fun s => ?_) (fun s => ?_)
      · rfl
      · rfl
    simp only
    split
    · exact hmod.trans (sameBreakers_removeWhere _ _)
    · exact hmod

theorem breaker_modifyService (m : Impl) (service : Bytes) (hname : ∀ s, (f s).name = s.name)
    (hbr : ∀ s, (f s).circuitBreaker = g s.circuitBreaker) (name : Bytes) :
    (m.modifyService service f).breaker name = (m.breaker name).map (fun b => if name = service then g b else b) := by
  rw [breaker,Impl.service,modifyService,Keyed.find_modify hname,Option.map_map,breaker,Option.map_map]
  refine congrArg (fun g => Option.map g (m.service name)) (funext fun s => ?_)
  simp only [Function.comp_apply]
  split
  · exact hbr s
  · rfl

theorem breaker_map (m : Impl)
    (hname : ∀ s, (f s).name = s.name) (hbr : ∀ s, (f s).circuitBreaker = g s.circuitBreaker) (name : Bytes) :
    ({ m with services := m.services.map f } : Impl).breaker name = (m.breaker name).map g := by
  simp only [breaker,service]
  generalize m.services = services
  induction services with
  | nil => rfl
  | cons s services ih =>
    rw [map_cons,Keyed.find_cons,Keyed.find_cons,hname]
    split
    · exact congrArg some (hbr s)
    · exact ih

theorem prepareCircuitBreaker_breaker (henab : config.circuitBreakerEnabled = true) (now : Int) (s : ServiceState) :
    (prepareCircuitBreakerLocked config now s).1.circuitBreaker = checkTime config now s.circuitBreaker := by
  simp only [prepareCircuitBreakerLocked,henab,Bool.not_true,Bool.false_eq_true,if_false]
  split <;> rfl

variable {b : CircuitBreakerStats}

theorem breaker_acquireConnection (henab : config.circuitBreakerEnabled = true) (m : Impl) (name service affinityKey : Bytes)
    (now : Int) (random : Nat) :
    (m.acquireConnection config service affinityKey now random).1.breaker name =
      if service = name ∧ service ≠ [] then some (checkTime config now ((m.breaker name).getD {})) else m.breaker name := by
  unfold acquireConnection
  split
  · rename_i hempty
    simp [hempty]
  · rename_i hnon
    have hens := breaker_ensureServiceState m config service
    have hprep : ((m.ensureServiceStateLocked config service).modifyService service
        (fun s => (prepareCircuitBreakerLocked config now s).1)).breaker name =
          if service = name ∧ service ≠ [] then some (checkTime config now ((m.breaker name).getD {}))
          else m.breaker name := by
      rw [breaker_modifyService _ service (fun s => (prepareCircuitBreaker_same config now s).1)
        (prepareCircuitBreaker_breaker henab now),hens]
      by_cases hname : name = service
      · simp [hname,hnon]
      · simp [hname,Ne.symm hname]
    simp only
    split
    · rename_i hnone
      have hopen := hens service
      rw [breaker,hnone] at hopen
      simp at hopen
    · rename_i s hser
      have hidle := sameBreakers_acquireIdle config service now s.idleConnections.length
        ((m.ensureServiceStateLocked config service).modifyService service
          (fun s => (prepareCircuitBreakerLocked config now s).1)) name
      split
      · exact hprep
      · split
        · rename_i m' id hfound
          rw [hfound] at hidle
          exact hidle.trans hprep
        · rename_i m' hfound
          rw [hfound] at hidle
          exact (sameBreakers_acquireNew m' config service affinityKey now random name).trans (hidle.trans hprep)

def opens (name : Bytes) : Call → Bool
  | .acquireConnection service _ _ _ => service = name ∧ service ≠ []
  | .addBackendServer service host port _ => service = name ∧ ¬ (service = [] ∨ host = [] ∨ port = 0)
  | .setLoadBalancingStrategy service _ => service = name
  | _ => false

def Impl.told (m : Impl) (config : Configuration) (name : Bytes) (call : Call) : Option CircuitBreakerStats :=
  (if opens name call then some ((m.breaker name).getD {}) else m.breaker name).map
    (fun b => ((signal name call).map (b.meet config)).getD b)

theorem told_silent (hopens : opens name call = false) (hsig : signal name call = none) :
    m.told config name call = m.breaker name := by
  simp [told,hopens,hsig]

theorem breaker_step (henab : config.circuitBreakerEnabled = true) (hcl : call ≠ .cleanup)
    (m : Impl) (name : Bytes) : (step config m call).breaker name = m.told config name call := by
  cases call with
  | acquireConnection service affinityKey now random =>
    refine (breaker_acquireConnection henab m name service affinityKey now random).trans ?_
    by_cases hmine : service = name ∧ service ≠ []
    · simp [told,opens,signal,hmine.1,hmine.1 ▸ hmine.2,meet]
    · have hopens : opens name (.acquireConnection service affinityKey now random) = false := decide_eq_false hmine
      rw [if_neg hmine,told_silent hopens (if_neg hmine)]
  | releaseConnection id now =>
    rw [told_silent rfl rfl]
    simp only [step,releaseConnection]
    split
    · rfl
    · split
      · rfl
      · split
        · exact sameBreakers_remove m _ name
        · split
          · exact sameBreakers_remove m _ name
          · split
            · exact sameBreakers_remove m _ name
            · refine sameBreakers_modifyService (m.store _) _ (fun s => ?_) (fun s => ?_) name
              · rfl
              · rfl
  | closeConnection id =>
    rw [told_silent rfl rfl]
    simp only [step,closeConnection]
    split
    · rfl
    · exact sameBreakers_remove m _ name
  | addBackendServer service host port weight =>
    simp only [step,addBackendServer]
    split
    · rename_i hbad
      have hopens : opens name (.addBackendServer service host port weight) = false :=
        decide_eq_false (fun h => h.2 hbad)
      rw [told_silent hopens rfl]
    · rename_i hgood
      refine (sameBreakers_modifyService _ service (fun s => ?_) (fun s => ?_) name).trans ?_
      · unfold register
        split <;> rfl
      · unfold register
        split <;> rfl
      · rw [breaker_ensureServiceState]
        by_cases hname : name = service
        · subst hname
          simp [told,opens,signal,hgood]
        · simp [told,opens,signal,hname,Ne.symm hname]
  | removeBackendServer service host port =>
    rw [told_silent rfl rfl]
    simp only [step,removeBackendServer]
    split
    · rfl
    · have hmod := sameBreakers_modifyService m service (f := unregister host port) (fun _ => rfl) (fun _ => rfl)
      exact hmod.trans (sameBreakers_removeWhere _ _) name
  | updateBackendWeight service host port weight =>
    rw [told_silent rfl rfl]
    refine sameBreakers_modifyService m service (fun s => ?_) (fun s => ?_) name
    · rfl
    · rfl
  | setLoadBalancingStrategy service strategy =>
    refine (sameBreakers_modifyService _ service (fun s => ?_) (fun s => ?_) name).trans ?_
    · rfl
    · rfl
    · rw [breaker_ensureServiceState]
      by_cases hname : name = service
      · simp [told,opens,signal,hname]
      · simp [told,opens,signal,hname,Ne.symm hname]
  | reportBackendStatus host port success now =>
    rw [told_silent rfl rfl]
    simp only [step,reportBackendStatus]
    split
    · rfl
    · generalize m.services = services
      induction services generalizing m with
      | nil => rfl
      | cons s services ih => exact (ih _).trans (sameBreakers_reportTo m config s.name host port success now name)
  | reportServiceBackendStatus service host port success now =>
    rw [told_silent rfl rfl]
    simp only [step,reportServiceBackendStatus]
    split
    · rfl
    · exact sameBreakers_reportTo m config service host port success now name
  | reportExecution success now =>
    simp only [step,reportExecution,henab,Bool.not_true,Bool.false_eq_true,if_false]
    refine breaker_map m (g := fun b => b.meet config (.report success now)) (fun s => ?_) (fun s => ?_) name
    · rfl
    · rfl
  | reportServiceExecution service success now =>
    simp only [step,reportServiceExecution,henab,Bool.not_true,Bool.false_eq_true,if_false]
    refine (breaker_modifyService m (g := fun b => b.meet config (.report success now)) service (fun s => ?_) (fun s => ?_)
      name).trans ?_
    · rfl
    · rfl
    · by_cases hname : service = name
      · simp [told,opens,signal,hname]
      · simp [told,opens,signal,hname,Ne.symm hname]
  | maintenance now =>
    have hclean : (m.cleanupExpiredConnectionsLocked config now).breaker name = m.breaker name := by
      unfold cleanupExpiredConnectionsLocked
      refine (breaker_map _ (g := id) (fun s => ?_) (fun s => ?_) name).trans ?_
      · rfl
      · rfl
      · rw [sameBreakers_removeWhere m _ name,Option.map_id_fun,id]
    refine (breaker_map _ (g := fun b => b.meet config (.healthCheck now)) (fun s => ?_) (fun s => ?_) name).trans ?_
    · rfl
    · rfl
    · rw [hclean]
      rfl
  | cleanup => exact absurd rfl hcl

theorem told_some (hb : m.breaker name = some b) :
    m.told config name call = some (((signal name call).map (b.meet config)).getD b) := by
  simp [told,hb]

theorem told_none (config : Configuration) (call : Call) (hnone : m.breaker name = none) :
    m.told config name call = none ∨ m.told config name call = some {} := by
  cases hopens : opens name call with
  | false => exact .inl (by simp [told,hopens,hnone])
  | true =>
    right
    cases call with
    | acquireConnection service affinityKey now random =>
      obtain ⟨rfl,hmine⟩ : service = name ∧ service ≠ [] := of_decide_eq_true hopens
      have hchec (now : Int) : checkTime config now {} = {} := if_neg (fun h => nomatch h.1)
      simp [told,hopens,hnone,signal,hmine,meet,hchec]
    | addBackendServer service host port weight => simp [told,hopens,hnone,signal]
    | setLoadBalancingStrategy service strategy => simp [told,hopens,hnone,signal]
    | _ => cases hopens

/-! ### The history of a breaker -/

structure Entry where
  signal : Signal
  before : CircuitBreakerState
  after : CircuitBreakerState
  deriving DecidableEq

namespace Entry

variable (e : Entry)

def isFailure : Bool :=
  match e.signal with
  | .report false _ => true
  | _ => false

def isSuccess : Bool :=
  match e.signal with
  | .report true _ => true
  | _ => false

def becameClosed : Bool := e.before ≠ .closed && e.after = .closed

def becameHalfOpen : Bool := e.before ≠ .halfOpen && e.after = .halfOpen

end Entry

def entries (config : Configuration) (name : Bytes) (m : Impl) (call : Call) : List Entry :=
  match m.breaker name, signal name call with
  | some b, some signal =>
    [{ signal, before := b.state, after := ((step config m call).breaker name).elim .closed state }]
  | _, _ => []

def history (config : Configuration) (name : Bytes) (calls : List Call) : List Entry :=
  outputs (step config) (entries config name) {} calls

def consecutiveFailures (past : List Entry) : Nat :=
  (past.rtakeWhile (fun e => !e.becameClosed && !e.isSuccess)).countP Entry.isFailure

def sinceHalfOpen (past : List Entry) : List Entry := past.rtakeWhile (fun e => !e.becameHalfOpen)

def lastFailure (past : List Entry) : Option Int :=
  (past.filter Entry.isFailure).getLast?.map (fun e => e.signal.time)

structure Linked (config : Configuration) (past : List Entry) (b : CircuitBreakerStats) : Prop where
  closed : b.state = .closed → b.failureCount = consecutiveFailures past ∧ b.failureCount < config.threshold
  halfOpen : b.state = .halfOpen → b.successCount = (sinceHalfOpen past).countP Entry.isSuccess ∧
    b.successCount < config.attempts ∧ ∀ e ∈ sinceHalfOpen past, e.isFailure = false
  opened : b.state = .opened → lastFailure past = some b.lastFailureTime

variable {past : List Entry} {e : Entry}

theorem threshold_pos (config : Configuration) : 0 < config.threshold := by
  unfold Configuration.threshold
  omega

theorem attempts_pos (config : Configuration) : 0 < config.attempts := by
  unfold Configuration.attempts
  omega

theorem consecutiveFailures_reset (he : e.becameClosed = true ∨ e.isSuccess = true) :
    consecutiveFailures (past ++ [e]) = 0 := by
  rw [consecutiveFailures,rtakeWhile_concat_neg]
  · rfl
  · rcases he with he | he <;> simp [he]

theorem consecutiveFailures_more (hclos : e.becameClosed = false) (hsuc : e.isSuccess = false) :
    consecutiveFailures (past ++ [e]) = consecutiveFailures past+(if e.isFailure then 1 else 0) := by
  rw [consecutiveFailures,rtakeWhile_concat_pos,countP_append,countP_singleton,consecutiveFailures]
  simp [hclos,hsuc]

theorem sinceHalfOpen_reset (he : e.becameHalfOpen = true) : sinceHalfOpen (past ++ [e]) = [] :=
  rtakeWhile_concat_neg _ _ _ (by simp [he])

theorem sinceHalfOpen_more (he : e.becameHalfOpen = false) : sinceHalfOpen (past ++ [e]) = sinceHalfOpen past ++ [e] :=
  rtakeWhile_concat_pos _ _ _ (by simp [he])

theorem lastFailure_more (he : e.isFailure = false) : lastFailure (past ++ [e]) = lastFailure past := by
  simp [lastFailure,filter_append,he]

theorem lastFailure_now (he : e.isFailure = true) : lastFailure (past ++ [e]) = some e.signal.time := by
  simp [lastFailure,filter_append,he]

theorem linked_nil (config : Configuration) : Linked config [] {} where
  closed := fun _ => ⟨rfl,threshold_pos config⟩
  halfOpen := nofun
  opened := nofun

theorem linked_success (h : Linked config past b) (now : Int) :
    Linked config (past ++ [⟨.report true now,b.state,(b.meet config (.report true now)).state⟩])
      (b.meet config (.report true now)) := by
  simp only [meet,applyExecutionResult,if_true]
  cases hstate : b.state with
  | closed =>
    refine ⟨fun _ => ?_,fun hhalf => ?_,fun hopen => ?_⟩
    · rw [consecutiveFailures_reset (.inr rfl)]
      exact ⟨by simp,by simpa using threshold_pos config⟩
    · simp at hhalf
    · simp at hopen
  | opened =>
    refine ⟨fun hclos => ?_,fun hhalf => ?_,fun _ => ?_⟩
    · simp at hclos
    · simp at hhalf
    · rw [lastFailure_more rfl]
      simpa [hstate] using h.opened hstate
  | halfOpen =>
    obtain ⟨hcount,hatt,hnone⟩ := h.halfOpen hstate
    by_cases hlast : config.attempts ≤ b.successCount+1
    · -- the success that closes the breaker ends the failures in a row
      refine ⟨fun _ => ?_,fun hhalf => ?_,fun hopen => ?_⟩
      · rw [consecutiveFailures_reset (.inr rfl)]
        exact ⟨by simp [hlast],by simpa [hlast] using threshold_pos config⟩
      · simp [hlast] at hhalf
      · simp [hlast] at hopen
    · refine ⟨fun hclos => ?_,fun _ => ?_,fun hopen => ?_⟩
      · simp [hlast] at hclos
      · rw [sinceHalfOpen_more rfl,countP_append,← hcount]
        refine ⟨?_,?_,fun e he => ?_⟩
        · simp [hlast,Entry.isSuccess]
        · simpa [hlast] using Nat.lt_of_not_le hlast
        · rcases mem_append.mp he with he | he
          · exact hnone e he
          · rw [mem_singleton.mp he]
            rfl
      · simp [hlast] at hopen

theorem linked_failure (h : Linked config past b) (now : Int) :
    Linked config (past ++ [⟨.report false now,b.state,(b.meet config (.report false now)).state⟩])
      (b.meet config (.report false now)) := by
  have hlast : (b.meet config (.report false now)).lastFailureTime = now := by
    simp only [meet,applyExecutionResult,Bool.false_eq_true,if_false]
    split <;> rfl
  refine ⟨fun hclos => ?_,fun hhalf => ?_,fun _ => ?_⟩
  · simp only [meet,applyExecutionResult,Bool.false_eq_true,if_false] at hclos ⊢
    split at hclos
    · cases hclos
    · rename_i hfew
      have hfew' : b.failureCount+1 < config.threshold := by
        simp only [not_or] at hfew
        omega
      rw [if_neg hfew,consecutiveFailures_more]
      · exact ⟨congrArg (fun n => n+1) (h.closed hclos).1,hfew'⟩
      · simp_all [Entry.becameClosed]
      · rfl
  · simp only [meet,applyExecutionResult,Bool.false_eq_true,if_false] at hhalf
    split at hhalf
    · cases hhalf
    · rename_i hfew
      exact absurd (.inl hhalf) hfew
  · rw [lastFailure_now rfl,hlast]
    rfl

theorem linked_look (h : Linked config past b) {e : Entry} {b' : CircuitBreakerStats} (hbef : e.before = b.state)
    (hafter : e.after = b'.state) (hfail : e.isFailure = false) (hsuc : e.isSuccess = false)
    (hlook : b' = b ∨ b.state = .opened ∧ b' = b.tryAgain) : Linked config (past ++ [e]) b' := by
  rcases hlook with rfl | ⟨hop,rfl⟩
  · have hsame : e.becameClosed = false ∧ e.becameHalfOpen = false := by
      simp only [Entry.becameClosed,Entry.becameHalfOpen,hbef,hafter]
      cases b'.state <;> decide
    refine ⟨fun hclos => ?_,fun hhalf => ?_,fun hopen => ?_⟩
    · rw [consecutiveFailures_more hsame.1 hsuc,hfail]
      exact h.closed hclos
    · obtain ⟨hcount,hatt,hnone⟩ := h.halfOpen hhalf
      rw [sinceHalfOpen_more hsame.2,countP_append,countP_singleton,hsuc]
      refine ⟨hcount,hatt,fun e' he' => ?_⟩
      rcases mem_append.mp he' with he' | he'
      · exact hnone e' he'
      · rw [mem_singleton.mp he']
        exact hfail
    · rw [lastFailure_more hfail]
      exact h.opened hopen
  · refine ⟨nofun,fun _ => ?_,nofun⟩
    have hbec : e.becameHalfOpen = true := by
      rw [Entry.becameHalfOpen,hbef,hafter,hop]
      rfl
    rw [sinceHalfOpen_reset hbec]
    exact ⟨rfl,attempts_pos config,nofun⟩

theorem checkTime_cases (config : Configuration) (now : Int) (b : CircuitBreakerStats) :
    checkTime config now b = b ∨ b.state = .opened ∧ checkTime config now b = b.tryAgain := by
  unfold checkTime
  split
  · rename_i h
    exact .inr ⟨h.1,rfl⟩
  · exact .inl rfl

theorem healthCheck_cases (config : Configuration) (now : Int) (b : CircuitBreakerStats) :
    b.meet config (.healthCheck now) = b ∨ b.state = .opened ∧ b.meet config (.healthCheck now) = b.tryAgain := by
  unfold meet
  simp only
  split
  · rename_i h
    exact .inr ⟨h.1,rfl⟩
  · exact .inl rfl

theorem linked_meet (h : Linked config past b) (signal : Signal) :
    Linked config (past ++ [⟨signal,b.state,(b.meet config signal).state⟩]) (b.meet config signal) := by
  cases signal with
  | report success now =>
    cases success with
    | true => exact linked_success h now
    | false => exact linked_failure h now
  | attempt now => exact linked_look h rfl rfl rfl rfl (checkTime_cases config now b)
  | healthCheck now => exact linked_look h rfl rfl rfl rfl (healthCheck_cases config now b)

/-- What holds of the breaker of a service behind a run: the history is the one of this breaker. -/
def Tracked (config : Configuration) (name : Bytes) (past : List Entry) (m : Impl) : Prop :=
  match m.breaker name with
  | none => past = []
  | some b => Linked config past b

theorem tracked_step (henab : config.circuitBreakerEnabled = true) (hcl : call ≠ .cleanup)
    (h : Tracked config name past m) :
    Tracked config name (past ++ entries config name m call) (step config m call) := by
  unfold Tracked at h ⊢
  rw [entries,breaker_step henab hcl m name]
  cases hb : m.breaker name with
  | none =>
    rw [hb] at h
    subst h
    rcases told_none config call hb with htold | htold
    · rw [htold]
      rfl
    · rw [htold]
      exact linked_nil config
  | some b =>
    rw [hb] at h
    rw [told_some hb]
    cases signal name call with
    | none => simpa using h
    | some signal => exact linked_meet h signal

theorem tracked_history (henab : config.circuitBreakerEnabled = true) (name : Bytes)
    (hcalls : ∀ call ∈ calls, call ≠ .cleanup) :
    Tracked config name (history config name calls) (runs (step config) {} calls) := by
  have hmeets : Meets (step config) (fun _ call => call ≠ .cleanup) {} calls :=
    meets_of_events (fun _ _ h => h) hcalls
  have hstart : Tracked config name [] {} := rfl
  exact outputs_invariant (fun _ _ _ h hcl => tracked_step henab hcl h) hstart hmeets

/-! ### The moves of a breaker -/

theorem meet_opens (h : Linked config past b) (hclos : b.state = .closed) (signal : Signal) :
    (b.meet config signal).state = .opened ↔
      (∃ now, signal = .report false now) ∧ consecutiveFailures past+1 = config.threshold := by
  obtain ⟨hcount,hfew⟩ := h.closed hclos
  cases signal with
  | report success now =>
    cases success with
    | true => simp [meet,applyExecutionResult,hclos]
    | false =>
      by_cases hlast : config.threshold ≤ b.failureCount+1
      · have hall : consecutiveFailures past+1 = config.threshold := by omega
        simp [meet,applyExecutionResult,hlast,hall]
      · have hall : consecutiveFailures past+1 ≠ config.threshold := by omega
        simp [meet,applyExecutionResult,hclos,hlast,hall]
  | attempt now => simp [meet,checkTime,hclos]
  | healthCheck now => simp [meet,hclos]

theorem meet_closed (hclos : b.state = .closed) (signal : Signal) : (b.meet config signal).state ≠ .halfOpen := by
  cases signal with
  | report success now =>
    cases success with
    | true => simp [meet,applyExecutionResult,hclos]
    | false =>
      by_cases hlast : config.threshold ≤ b.failureCount+1
      · simp [meet,applyExecutionResult,hlast]
      · simp [meet,applyExecutionResult,hclos,hlast]
  | attempt now => simp [meet,checkTime,hclos]
  | healthCheck now => simp [meet,hclos]

theorem meet_halfOpen_failure (hhalf : b.state = .halfOpen) (now : Int) :
    (b.meet config (.report false now)).state = .opened := by
  simp [meet,applyExecutionResult,hhalf]

theorem meet_halfOpen_opens (hhalf : b.state = .halfOpen) {signal : Signal}
    (hopen : (b.meet config signal).state = .opened) : ∃ now, signal = .report false now := by
  cases signal with
  | report success now =>
    cases success with
    | true =>
      simp only [meet,applyExecutionResult,if_true,hhalf] at hopen
      split at hopen <;> simp at hopen
    | false => exact ⟨now,rfl⟩
  | attempt now => simp [meet,checkTime,hhalf] at hopen
  | healthCheck now => simp [meet,hhalf] at hopen

theorem meet_closes (h : Linked config past b) (hhalf : b.state = .halfOpen) (signal : Signal) :
    (b.meet config signal).state = .closed ↔ (∃ now, signal = .report true now) ∧
      (sinceHalfOpen past).countP Entry.isSuccess+1 = config.attempts := by
  obtain ⟨hcount,hfew,-⟩ := h.halfOpen hhalf
  cases signal with
  | report success now =>
    cases success with
    | true =>
      by_cases hlast : config.attempts ≤ b.successCount+1
      · have hall : (sinceHalfOpen past).countP Entry.isSuccess+1 = config.attempts := by omega
        simp [meet,applyExecutionResult,hhalf,hlast,hall]
      · have hall : (sinceHalfOpen past).countP Entry.isSuccess+1 ≠ config.attempts := by omega
        simp [meet,applyExecutionResult,hhalf,hlast,hall]
    | false => simp [meet,applyExecutionResult,hhalf]
  | attempt now => simp [meet,checkTime,hhalf]
  | healthCheck now => simp [meet,hhalf]

theorem meet_opened (config : Configuration) (hopen : b.state = .opened) (signal : Signal) :
    (b.meet config signal).state = .opened ∨
      (b.meet config signal).state = .halfOpen ∧
        (signal = .attempt signal.time ∨ signal = .healthCheck signal.time) ∧
        (config.recovery ≤ 0 ∨ config.recovery ≤ signal.time-b.lastFailureTime) := by
  cases signal with
  | report success now =>
    left
    cases success with
    | true => simp [meet,applyExecutionResult,hopen]
    | false =>
      simp only [meet,applyExecutionResult,Bool.false_eq_true,if_false]
      split
      · rfl
      · exact hopen
  | attempt now =>
    simp only [meet,checkTime,hopen,true_and]
    split
    · rename_i htime
      refine .inr ⟨rfl,.inl rfl,?_⟩
      simp only [Signal.time]
      omega
    · exact .inl hopen
  | healthCheck now =>
    simp only [meet,hopen,true_and]
    split
    · rename_i htime
      refine .inr ⟨rfl,.inr rfl,?_⟩
      simp only [recovered,Bool.or_eq_true,decide_eq_true_eq] at htime
      simp only [Signal.time]
      omega
    · exact .inl hopen

def Call.time : Call → Option Int
  | .acquireConnection _ _ now _ | .releaseConnection _ now | .reportBackendStatus _ _ _ now
  | .reportServiceBackendStatus _ _ _ _ now | .reportExecution _ now | .reportServiceExecution _ _ now
  | .maintenance now => some now
  | _ => none

theorem signal_time {sig : Signal} (hsig : signal name call = some sig) : call.time = some sig.time := by
  cases call <;> simp only [signal,ite_none_right_eq_some,some.injEq,reduceCtorEq] at hsig
  case acquireConnection => rw [← hsig.2]; rfl
  case reportExecution => rw [← hsig]; rfl
  case reportServiceExecution => rw [← hsig.2]; rfl
  case maintenance => rw [← hsig]; rfl

theorem lastFailure_time {t : Int} (ht : lastFailure (history config name calls) = some t) :
    t ∈ calls.filterMap Call.time := by
  obtain ⟨e,he,rfl⟩ := map_eq_some_iff.mp ht
  have hmem := (mem_filter.mp (mem_of_getLast? he)).1
  obtain ⟨m,call,hcall,hentry⟩ := mem_outputs hmem
  refine mem_filterMap.mpr ⟨call,hcall,?_⟩
  unfold entries at hentry
  split at hentry
  · rename_i b sig _ hsig
    rw [mem_singleton.mp hentry]
    exact signal_time hsig
  · cases hentry

theorem acquire_opened (henab : config.circuitBreakerEnabled = true) (m : Impl) (name affinityKey : Bytes) (now : Int)
    (random : Nat)
    (hopen : ((m.acquireConnection config name affinityKey now random).1.breaker name).map state =
      some .opened) : (m.acquireConnection config name affinityKey now random).2 = 0 := by
  rw [breaker_acquireConnection henab] at hopen
  unfold acquireConnection
  split
  · rfl
  · rename_i hnon
    simp only [hnon,not_false_eq_true,and_self,ne_eq,if_true,map_some,some.injEq] at hopen
    have hens := breaker_ensureServiceState m config name name
    rw [if_pos rfl] at hens
    simp only
    split
    · rfl
    · rename_i s hser
      have hs : s.circuitBreaker = (m.breaker name).getD {} := by
        rw [breaker,hser] at hens
        exact some.inj hens
      rw [← hs] at hopen
      have hready : (prepareCircuitBreakerLocked config now s).2 = false := by
        simp [prepareCircuitBreakerLocked,henab,hopen]
      rw [hready]
      rfl

/-- Where the breaker of a service is and where a further call leaves it, with the history of
the signals that it has met before. -/
theorem circuitBreaker_trace (henabled : config.circuitBreakerEnabled = true) {name : Bytes} {calls : List Call} {call : Call}
    (hcalls : ∀ c ∈ calls ++ [call], c ≠ .cleanup) (hclock : ((calls ++ [call]).filterMap Call.time).Pairwise (· ≤ ·))
    {b b' : CircuitBreakerStats} (hb : (Machine.runs (step config) {} calls).breaker name = some b)
    (hb' : (Machine.runs (step config) {} (calls ++ [call])).breaker name = some b') :
    (b.state = .closed → (b'.state = .opened ↔ (∃ now, signal name call = some (.report false now)) ∧
      consecutiveFailures (history config name calls)+1 = config.threshold)) ∧
    (b.state = .closed → b'.state ≠ .halfOpen) ∧
    (b.state = .opened → b'.state = .halfOpen → ∃ now last,
      (signal name call = some (.attempt now) ∨ signal name call = some (.healthCheck now)) ∧
      lastFailure (history config name calls) = some last ∧ config.recovery ≤ now-last) ∧
    (b.state = .opened → b'.state ≠ .closed) ∧
    (b.state = .halfOpen → (b'.state = .opened ↔ ∃ now, signal name call = some (.report false now))) ∧
    (b.state = .halfOpen → (b'.state = .closed ↔ (∃ now, signal name call = some (.report true now)) ∧
      (sinceHalfOpen (history config name calls)).countP Entry.isSuccess+1 = config.attempts)) ∧
    (b.state = .halfOpen → ∀ e ∈ sinceHalfOpen (history config name calls), e.isFailure = false) ∧
    ∀ affinityKey now random,
      (((Machine.runs (step config) {} calls).acquireConnection config name affinityKey now random).1.breaker name).map
        CircuitBreakerStats.state = some .opened →
      ((Machine.runs (step config) {} calls).acquireConnection config name affinityKey now random).2 = 0 := by
  have hlin : Linked config (history config name calls) b := by
    have htrac := tracked_history henabled name (fun c hc => hcalls c (List.mem_append_left [call] hc))
    unfold Tracked at htrac
    rw [hb] at htrac
    exact htrac
  have hmet : b' = ((signal name call).map (b.meet config)).getD b := by
    rw [Machine.runs_append] at hb'
    have hstep := breaker_step henabled (hcalls call (by simp)) (Machine.runs (step config) {} calls) name
    rw [told_some hb] at hstep
    exact Option.some.inj (hb'.symm.trans hstep)
  refine ⟨fun hclos => ?_,fun hclos => ?_,fun hopen hhalf => ?_,fun hopen => ?_,fun hhalf => ?_,fun hhalf => ?_,
    fun hhalf => (hlin.halfOpen hhalf).2.2,fun affinityKey now random => acquire_opened henabled _ name affinityKey now random⟩
  · cases hsig : signal name call with
    | none => simp [hmet,hsig,hclos]
    | some sig => simpa [hmet,hsig] using meet_opens hlin hclos sig
  · cases hsig : signal name call with
    | none => simp [hmet,hsig,hclos]
    | some sig => simpa [hmet,hsig] using meet_closed hclos sig
  · cases hsig : signal name call with
    | none => simp [hmet,hsig,hopen] at hhalf
    | some sig =>
      have hlast := hlin.opened hopen
      -- the clock has not gone back since the last failure
      have hlater : b.lastFailureTime ≤ sig.time := by
        rw [List.filterMap_append,List.pairwise_append] at hclock
        exact hclock.2.2 _ (lastFailure_time hlast) _ (by simp [signal_time hsig])
      rcases meet_opened config hopen sig with hstill | ⟨-,hlook,htime⟩
      · simp [hmet,hsig,hstill] at hhalf
      · refine ⟨sig.time,b.lastFailureTime,?_,hlast,by omega⟩
        exact hlook.imp (congrArg some) (congrArg some)
  · cases hsig : signal name call with
    | none => simp [hmet,hsig,hopen]
    | some sig =>
      rcases meet_opened config hopen sig with hstill | ⟨hhalf,-⟩
      · simp [hmet,hsig,hstill]
      · simp [hmet,hsig,hhalf]
  · cases hsig : signal name call with
    | none => simp [hmet,hsig,hhalf]
    | some sig =>
      simp only [hmet,hsig,Option.map_some,Option.getD_some,Option.some.injEq]
      refine ⟨meet_halfOpen_opens hhalf,?_⟩
      rintro ⟨now,rfl⟩
      exact meet_halfOpen_failure hhalf now
  · cases hsig : signal name call with
    | none => simp [hmet,hsig,hhalf]
    | some sig => simpa [hmet,hsig] using meet_closes hlin hhalf sig

def briefly : Configuration :=
  { hash := length, circuitBreakerEnabled := true, failureThreshold := 2, recoveryTimeout := 1 }

def twoFailures : List Call :=
  [.addBackendServer [1] [2] 80 1,.reportExecution false 0,.reportServiceExecution [1] false 5]

theorem circuitBreaker_trace_twoFailures :
    ∃ now last, (signal [1] (.acquireConnection [1] [] 1000005 0) = some (.attempt now) ∨
        signal [1] (.acquireConnection [1] [] 1000005 0) = some (.healthCheck now)) ∧
      lastFailure (history briefly [1] twoFailures) = some last ∧ briefly.recovery ≤ now-last := by
  have hcalls : ∀ c ∈ twoFailures ++ [.acquireConnection [1] [] 1000005 0], c ≠ .cleanup := by
    intro c hc
    fin_cases hc <;> nofun
  have hb : (Machine.runs (step briefly) {} twoFailures).breaker [1] =
      some { state := .opened, failureCount := 2, timeoutCount := 2, lastFailureTime := 5 } := by decide
  have hb' : (Machine.runs (step briefly) {} (twoFailures ++ [.acquireConnection [1] [] 1000005 0])).breaker [1] =
      some { state := .halfOpen, failureCount := 2, lastFailureTime := 5 } := by decide
  exact (circuitBreaker_trace rfl hcalls (by decide) hb hb').2.2.1 rfl rfl

end FastNet.ConnectionManager
