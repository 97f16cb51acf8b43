import FastNet.ServiceRecords

/-!
`ConnectionManager`: the calls keep the records of the services right.
-/

namespace FastNet.ConnectionManager

open List Impl Keyed

variable {exact : Prop} {exempt : ConnectionInfo → Prop} {own : List ConnectionInfo} {m : Impl} {s : ServiceState}
  {c : ConnectionInfo} {name : Bytes} {a : Bytes × Nat}
variable (l : List BackendServer) (gone : ConnectionInfo → Bool) (config : Configuration)

/-! ### What is seen of the services -/

section

variable {β : Type} {view : ServiceState → β} {f : ServiceState → ServiceState}

theorem seen_modifyService (m : Impl) (service : Bytes) (hname : ∀ s, (f s).name = s.name)
    (hview : ∀ s, view (f s) = view s) (name : Bytes) :
    ((m.modifyService service f).service name).map view = (m.service name).map view := by
  rw [Impl.service,modifyService,find_modify hname,Option.map_map]
  refine congrArg (fun g => Option.map g (m.service name)) (funext fun s => ?_)
  simp only [Function.comp_apply]
  split
  · exact hview s
  · rfl

theorem seen_acquireIdle (hpop : ∀ s, view (popIdle s) = view s) (hforget : ∀ c s, view (forget c s) = view s)
    (hengage : ∀ a s, view (engage a s) = view s) (service : Bytes) (now : Int) (turns : Nat) (m : Impl) (name : Bytes) :
    ((acquireIdle config service now turns m).1.service name).map view = (m.service name).map view := by
  induction turns generalizing m with
  | zero => rfl
  | succ turns ih =>
    have hpop' := seen_modifyService m service (f := popIdle) (fun _ => rfl) hpop name
    have hrem (m : Impl) (c : ConnectionInfo) : ((m.removeConnectionLocked c).service name).map view =
        (m.service name).map view := seen_modifyService m c.service (f := forget c) (fun _ => rfl) (hforget c) name
    simp only [acquireIdle]
    split
    · rfl
    · split
      · rfl
      · split
        · exact (ih _).trans hpop'
        · split
          · exact (ih _).trans hpop'
          · split
            · exact ((ih _).trans (hrem _ _)).trans hpop'
            · split
              · exact ((ih _).trans (hrem _ _)).trans hpop'
              · split
                · exact ((ih _).trans (hrem _ _)).trans hpop'
                · exact (seen_modifyService _ service (f := engage _) (fun _ => rfl) (hengage _) name).trans hpop'

end

theorem Accounted.remove_popped (h : Accounted exact exempt m) (hs : s ∈ m.services) {rest : List Nat}
    (hidle : s.idleConnections = c.id :: rest) (hserv : c.service = s.name) :
    (m.modifyService s.name popIdle).removeConnectionLocked c = m.removeConnectionLocked c := by
  have hser : Keyed.modify ServiceState.name s.name (forget c)
      (Keyed.modify ServiceState.name s.name popIdle m.services) =
        Keyed.modify ServiceState.name s.name (forget c) m.services := by
    rw [Keyed.modify_modify (g := popIdle) (fun s => rfl)]
    refine Keyed.modify_congr (fun s' hs' hname => ?_)
    obtain rfl := inj_on_of_nodup_map h.names hs' hs hname
    simp [forget,popIdle,hidle]
  simp only [removeConnectionLocked,modifyService,hserv,hser]

theorem Accounted.activate (h : Accounted exact exempt m) (hs : s ∈ m.services) (hc : c ∈ m.connections) {rest : List Nat}
    (hidle : s.idleConnections = c.id :: rest) (hser : c.service = s.name) (hinac : c.isActive = false) (now : Int) :
    Accounted exact exempt (((m.modifyService s.name Impl.popIdle).store
      { c with isActive := true, lastUsed := now }).modifyService s.name (Impl.engage c.address)) := by
  have hstor := @Accounted.store _ _ c m (fun s => Impl.engage c.address (Impl.popIdle s)) h hc
    { c with isActive := true, lastUsed := now } rfl rfl (fun s => rfl) (fun s' hs' hname hkept => ?_)
  · simp only [Impl.modifyService,Impl.store,hser] at hstor ⊢
    rw [modify_modify (g := Impl.popIdle) (fun s => rfl)]
    exact hstor
  · obtain rfl := inj_on_of_nodup_map h.names hs' hs (hname.trans hser)
    have hact := hkept.activate (h.ids_connectionsOf _) (mem_connectionsOf.mpr ⟨hc,hser⟩) hidle hinac now
    simpa only [Impl.engage,Impl.popIdle,hidle,tail_cons] using hact

/-- The connection `id` belongs to the service and goes to `a`, a registered and healthy backend. -/
def Impl.Reaches (m : Impl) (name : Bytes) (id : Nat) (a : Bytes × Nat) : Prop :=
  ∃ c ∈ m.connectionsOf name, c.id = id ∧ c.address = a ∧
    ∃ s ∈ m.services, s.name = name ∧ ∃ b ∈ s.backends, b.address = a ∧ b.healthy = true

theorem Accounted.acquireIdle (h : Accounted exact (fun _ => False) m) (config : Configuration) (name : Bytes) (now : Int)
    (turns : Nat) :
    let (m',picked) := acquireIdle config name now turns m
    Accounted exact (fun _ => False) m' ∧ m'.nextConnectionId = m.nextConnectionId ∧
      ∀ id, picked = some id → ∃ c ∈ m.connectionsOf name, c.id = id ∧ c.isActive = false ∧ m'.Reaches name id c.address := by
  induction turns generalizing m with
  | zero => exact ⟨h,rfl,fun id hid => by cases hid⟩
  | succ turns ih =>
    cases hser : m.service name with
    | none =>
      simp only [acquireIdle,hser]
      exact ⟨h,trivial,fun id hid => by cases hid⟩
    | some s =>
      obtain ⟨hs,rfl⟩ := find_some hser
      cases hidle : s.idleConnections with
      | nil =>
        simp only [acquireIdle,hser,hidle]
        exact ⟨h,trivial,fun id hid => by cases hid⟩
      | cons candidateId rest =>
        obtain ⟨c,hc,hcid,hinac⟩ := ((h.kept s hs).idle candidateId).mp (hidle ▸ mem_cons_self)
        subst hcid
        obtain ⟨hmem,hname⟩ := mem_connectionsOf.mp hc
        have hfind : (m.modifyService s.name popIdle).connection c.id = some c := find_of_mem h.ids hmem rfl
        simp only [acquireIdle,hser,hidle,hfind,hinac,Bool.false_eq_true,if_false]
        split
        · -- the connection has been idle for too long
          rw [h.remove_popped hs hidle hname]
          obtain ⟨hacc,hnext,hpic⟩ := ih (h.remove hmem)
          refine ⟨hacc,hnext,fun id hid => ?_⟩
          obtain ⟨c',hc',hfound⟩ := hpic id hid
          obtain ⟨hc',hname'⟩ := mem_connectionsOf.mp hc'
          exact ⟨c',mem_connectionsOf.mpr ⟨(mem_erase.mp hc').1,hname'⟩,hfound⟩
        · obtain ⟨b,hb,hba,hheal⟩ := (h.kept s hs).served c hc hinac not_false
          have hbac : find BackendServer.address
              ({ c with isActive := true, lastUsed := now } : ConnectionInfo).address s.backends = some b :=
            find_of_mem (h.kept s hs).addresses hb hba
          simp only [hbac,hheal,Bool.not_true,Bool.false_eq_true,if_false]
          refine ⟨h.activate hs hmem hidle hname hinac now,rfl,fun id hid => ?_⟩
          obtain rfl := Option.some.inj hid
          refine ⟨c,hc,rfl,hinac,{ c with isActive := true, lastUsed := now },?_,rfl,rfl,_,
            mem_modify.mpr (.inr ⟨_,mem_modify.mpr (.inr ⟨s,hs,rfl,rfl⟩),rfl,rfl⟩),rfl,?_⟩
          · exact mem_connectionsOf.mpr ⟨mem_modify.mpr (.inr ⟨c,hmem,rfl,rfl⟩),hname⟩
          · show ∃ b ∈ modifyFirst BackendServer.address c.address _ s.backends, _
            rw [modifyFirst_reload (h.kept s hs).addresses c.address (· + 1)]
            exact served_map (fun b => reload_address _ _ b) (fun b _ hb => (reload_healthy _ _ b).trans hb)
              ⟨b,hb,hba,hheal⟩

theorem weightedLoop_loads (i : Nat) (best : Option (BackendServer × Nat)) (totalWeight : Int) :
    (weightedLoop l i best totalWeight).1.map BackendServer.load = l.map BackendServer.load := by
  induction l generalizing i best totalWeight with
  | nil => rfl
  | cons b l ih =>
    rw [weightedLoop]
    split
    · simp only [map_cons,ih]
      rfl
    · simp only [map_cons,ih]

theorem modify_loads {f : BackendServer → BackendServer} (hf : ∀ b, (f b).load = b.load) (i : Nat) (l : List BackendServer) :
    (l.modify i f).map BackendServer.load = l.map BackendServer.load := by
  induction l generalizing i with
  | nil => simp
  | cons b l ih =>
    cases i with
    | zero => simp [hf]
    | succ i => simp [ih]

theorem weightedRoundRobin_loads :
    (weightedRoundRobin l).1.map BackendServer.load = l.map BackendServer.load := by
  have hloop := weightedLoop_loads l 0 none 0
  unfold weightedRoundRobin
  split
  · rename_i hres
    rw [hres] at hloop
    exact hloop
  · rename_i hres
    rw [hres] at hloop
    refine (modify_loads (fun b => ?_) _ _).trans hloop
    rfl

theorem selectBackend_same (s : ServiceState) (affinityKey : Bytes) (random : Nat) :
    let s' := (selectBackendLocked config s affinityKey random).1
    s'.name = s.name ∧ s'.backends.map BackendServer.load = s.backends.map BackendServer.load ∧
      s'.idleConnections = s.idleConnections ∧ s'.totalConnections = s.totalConnections ∧
      s'.maxPoolSize = s.maxPoolSize ∧ s'.circuitBreaker = s.circuitBreaker := by
  unfold selectBackendLocked
  simp only
  split
  · exact ⟨rfl,rfl,rfl,rfl,rfl,rfl⟩
  · split
    · exact ⟨rfl,rfl,rfl,rfl,rfl,rfl⟩
    · exact ⟨rfl,rfl,rfl,rfl,rfl,rfl⟩
    · exact ⟨rfl,weightedRoundRobin_loads s.backends,rfl,rfl,rfl,rfl⟩
    · split <;> exact ⟨rfl,rfl,rfl,rfl,rfl,rfl⟩
    · exact ⟨rfl,rfl,rfl,rfl,rfl,rfl⟩

theorem Accounted.select (h : Accounted exact exempt m) (config : Configuration) (name affinityKey : Bytes) (random : Nat) :
    Accounted exact exempt (m.modifyService name (fun s => (selectBackendLocked config s affinityKey random).1)) := by
  refine h.keep (fun s => (selectBackend_same config s affinityKey random).1) (fun own s hs => ?_)
  obtain ⟨-,hloads,hidle,htotal,hmax,-⟩ := selectBackend_same config s affinityKey random
  exact hs.same hloads hidle htotal hmax

theorem Accounted.acquireNew (h : Accounted exact exempt m) (hnext : m.nextConnectionId+1 < 2^64) (config : Configuration)
    (name affinityKey : Bytes) (now : Int) (random : Nat) :
    let r := m.acquireNew config name affinityKey now random
    Accounted exact exempt r.1 ∧ r.1.nextConnectionId ≤ m.nextConnectionId+1 ∧ (r.2 = 0 ∨ r.2 = m.nextConnectionId) := by
  cases hser : m.service name with
  | none =>
    simp only [Impl.acquireNew,hser]
    exact ⟨h,Nat.le_succ _,.inl trivial⟩
  | some s =>
    obtain ⟨hs,rfl⟩ := find_some hser
    simp only [Impl.acquireNew,hser]
    split
    · exact ⟨h,Nat.le_succ _,.inl rfl⟩
    · rename_i hroom
      have hsel := h.select config s.name affinityKey random
      split
      · exact ⟨hsel,Nat.le_succ _,.inl rfl⟩
      · rename_i i b hpic
        obtain ⟨hname,-,-,htotal,hmax,-⟩ := selectBackend_same config s affinityKey random
        have hs' : (selectBackendLocked config s affinityKey random).1 ∈
            (m.modifyService s.name (fun s => (selectBackendLocked config s affinityKey random).1)).services :=
          mem_modify.mpr (.inr ⟨s,hs,rfl,rfl⟩)
        have hb : (selectBackendLocked config s affinityKey random).1.backends[i]? = some b := by
          obtain ⟨j,-,hj⟩ := Option.bind_eq_some_iff.mp hpic
          obtain ⟨b',hb',heq⟩ := Option.map_eq_some_iff.mp hj
          obtain ⟨rfl,rfl⟩ := Prod.mk.inj heq
          exact hb'
        have hcr := hsel.create hs' (by omega) hb hnext now
        rw [hname] at hcr
        exact ⟨hcr,Nat.mod_le _ _,.inr rfl⟩

theorem prepareCircuitBreaker_same (now : Int) (s : ServiceState) :
    let s' := (prepareCircuitBreakerLocked config now s).1
    s'.name = s.name ∧ s'.backends = s.backends ∧ s'.idleConnections = s.idleConnections ∧
      s'.totalConnections = s.totalConnections ∧ s'.maxPoolSize = s.maxPoolSize ∧ s'.strategy = s.strategy := by
  unfold prepareCircuitBreakerLocked
  split
  · exact ⟨rfl,rfl,rfl,rfl,rfl,rfl⟩
  · simp only
    split <;> exact ⟨rfl,rfl,rfl,rfl,rfl,rfl⟩

theorem nextConnectionId_ensureServiceState (m : Impl) (config : Configuration) (name : Bytes) :
    (m.ensureServiceStateLocked config name).nextConnectionId = m.nextConnectionId := by
  show (m.openService name).nextConnectionId = _
  unfold openService
  split <;> rfl

theorem connections_ensureServiceState (m : Impl) (config : Configuration) (name : Bytes) :
    (m.ensureServiceStateLocked config name).connections = m.connections := by
  show (m.openService name).connections = _
  unfold openService
  split <;> rfl

theorem Accounted.prepared (h : Accounted exact exempt m) (config : Configuration) (name : Bytes) (now : Int) :
    Accounted exact exempt ((m.ensureServiceStateLocked config name).modifyService name
      (fun s => (prepareCircuitBreakerLocked config now s).1)) := by
  refine (h.ensureServiceState config name).keep (fun s => (prepareCircuitBreaker_same config now s).1)
    (fun own s hs => ?_)
  obtain ⟨-,hbac,hidle,htotal,hmax,-⟩ := prepareCircuitBreaker_same config now s
  exact hs.same (congrArg _ hbac) hidle htotal hmax

theorem Accounted.acquireConnection (h : Accounted exact (fun _ => False) m) (hnext : m.nextConnectionId+1 < 2^64)
    (config : Configuration) (name affinityKey : Bytes) (now : Int) (random : Nat) :
    let r := m.acquireConnection config name affinityKey now random
    Accounted exact (fun _ => False) r.1 ∧ r.1.nextConnectionId ≤ m.nextConnectionId+1 ∧
      ∀ c ∈ m.connections, c.id = r.2 → c.isActive = false := by
  have hzero (c : ConnectionInfo) (hc : c ∈ m.connections) (hid : c.id = 0) : c.isActive = false :=
    absurd hid (h.fresh c hc).1.ne'
  unfold Impl.acquireConnection
  split
  · exact ⟨h,Nat.le_succ _,hzero⟩
  · have hens := h.ensureServiceState config name
    have hnext' := nextConnectionId_ensureServiceState m config name
    have hcon := connections_ensureServiceState m config name
    simp only
    split
    · exact ⟨hens,hnext'.trans_le (Nat.le_succ _),hzero⟩
    · rename_i s hser
      have hprep := h.prepared config name now
      split
      · exact ⟨hprep,hnext'.trans_le (Nat.le_succ _),hzero⟩
      · have hidle := hprep.acquireIdle config name now s.idleConnections.length
        split
        · rename_i m' id hfound
          rw [hfound] at hidle
          obtain ⟨hacc,hsame,hpic⟩ := hidle
          refine ⟨hacc,?_,fun c hc hid => ?_⟩
          · exact (hsame.trans hnext').trans_le (Nat.le_succ _)
          · obtain ⟨c',hc',hcid',hinac,-⟩ := hpic id rfl
            have hc' : c' ∈ m.connections := hcon ▸ (mem_connectionsOf.mp hc').1
            rw [inj_on_of_nodup_map h.ids hc hc' (hid.trans hcid'.symm)]
            exact hinac
        · rename_i m' hfound
          rw [hfound] at hidle
          obtain ⟨hacc,hsame,-⟩ := hidle
          have hsame : m'.nextConnectionId = m.nextConnectionId := hsame.trans hnext'
          obtain ⟨hac,hlast,hid⟩ := hacc.acquireNew (hsame ▸ hnext) config name affinityKey now random
          refine ⟨hac,hsame ▸ hlast,fun c hc hcid => ?_⟩
          have hfresh := h.fresh c hc
          rw [hcid] at hfresh
          rcases hid with hid | hid
          · rw [hid] at hfresh
            omega
          · rw [hid] at hfresh
            omega

theorem Accounted.releaseConnection (h : Accounted exact exempt m) (id : Nat) (now : Int) :
    Accounted exact exempt (m.releaseConnection id now) := by
  unfold Impl.releaseConnection
  split
  · exact h
  · rename_i c hfind
    obtain ⟨hc,rfl⟩ := find_some hfind
    split
    · exact h
    · rename_i hact
      split
      · exact h.remove hc
      · rename_i s hser
        obtain ⟨hs,hname⟩ := find_some hser
        split
        · exact h.remove hc
        · rename_i b hbac
          obtain ⟨hb,hba⟩ := find_some hbac
          split
          · exact h.remove hc
          · rename_i hheal
            refine h.store hc rfl rfl (fun _ => rfl) (fun s' hs' hname' hkept => ?_)
            obtain rfl := inj_on_of_nodup_map h.names hs' hs (hname'.trans hname.symm)
            exact hkept.release (h.ids_connectionsOf _) (mem_connectionsOf.mpr ⟨hc,hname.symm⟩) (by simpa using hact) hb
              hba (by simpa using hheal) now

theorem Accounted.closeConnection (h : Accounted exact exempt m) (id : Nat) :
    Accounted exact exempt (m.closeConnection id) := by
  unfold Impl.closeConnection
  split
  · exact h
  · rename_i c hfind
    exact h.remove (find_some hfind).1

def Impl.registered (m : Impl) (name : Bytes) (a : Bytes × Nat) : Bool :=
  (m.service name).any (fun s => s.backends.any (fun b => b.address = a))

def Impl.load (m : Impl) (name : Bytes) (a : Bytes × Nat) : Nat :=
  (m.connectionsOf name).countP (ConnectionInfo.uses a)

theorem Accounted.registered_ensureServiceState (h : Accounted exact exempt m) (config : Configuration)
    (hreg : m.registered name a = true) (hs : s ∈ (m.ensureServiceStateLocked config name).services)
    (hname : s.name = name) : ∃ b ∈ s.backends, b.address = a := by
  cases hser : m.service name with
  | none => simp [Impl.registered,hser] at hreg
  | some s' =>
    obtain ⟨hs',hname'⟩ := find_some hser
    have hb : ∃ b ∈ s'.backends, b.address = a := by simpa [Impl.registered,hser] using hreg
    have hopen : m.openService name = m := by simp [Impl.openService,hser]
    rw [Impl.ensureServiceStateLocked,hopen] at hs
    rcases mem_modify.mp hs with ⟨-,hne⟩ | ⟨s'',hs'',hname'',rfl⟩
    · exact absurd hname hne
    · obtain rfl := inj_on_of_nodup_map h.names hs'' hs' (hname''.trans hname'.symm)
      split <;> exact hb

theorem Accounted.addBackendServer (h : Accounted exact exempt m) (config : Configuration) (name host : Bytes) (port : Nat)
    (weight : Int) (hunc : exact → m.registered name (host,port) = true ∨ m.load name (host,port) = 0) :
    Accounted exact exempt (m.addBackendServer config name host port weight) := by
  unfold Impl.addBackendServer
  split
  · exact h
  · have hens := h.ensureServiceState config name
    refine hens.modify (fun s => ?_) (fun s hs hname hkept => ?_) (fun _ _ _ hc => hc)
    · unfold Impl.register
      split <;> rfl
    · refine hkept.register host port weight (fun hexact hnone => ?_)
      rcases hunc hexact with hreg | hload
      · obtain ⟨b,hb,hba⟩ := h.registered_ensureServiceState config hreg hs hname
        exact absurd hba (hnone b hb)
      · rw [Impl.connectionsOf,connections_ensureServiceState,hname]
        exact hload

theorem Accounted.removeBackendServer (h : Accounted exact (fun _ => False) m) (name host : Bytes) (port : Nat) :
    Accounted exact (fun _ => False) (m.removeBackendServer name host port) := by
  unfold Impl.removeBackendServer
  split
  · exact h
  · refine Accounted.removeExempt (h.modify (fun _ => rfl) (fun s hs hname hkept => ?_) (fun _ _ _ hc => hc.elim))
    refine hkept.unregister host port (fun c hc hinac ha => ?_)
    simp [Impl.idleAt,(mem_connectionsOf.mp hc).2,hname,ha,hinac]

theorem applyBackendStatus_same (success : Bool) (failureThreshold : Nat) (now : Int) (b : BackendServer) :
    (applyBackendStatus success failureThreshold now b).address = b.address ∧
      (applyBackendStatus success failureThreshold now b).activeConnections = b.activeConnections := by
  unfold applyBackendStatus
  split
  · exact ⟨rfl,rfl⟩
  · simp only
    split <;> exact ⟨rfl,rfl⟩

theorem Accounted.reportTo (h : Accounted exact (fun _ => False) m) (config : Configuration) (name host : Bytes) (port : Nat)
    (success : Bool) (now : Int) : Accounted exact (fun _ => False) (m.reportTo config name host port success now) := by
  unfold Impl.reportTo
  split
  · exact h
  · rename_i b hfind
    obtain ⟨s,hser,hbac⟩ := Option.bind_eq_some_iff.mp hfind
    obtain ⟨hs,hname⟩ := find_some hser
    obtain ⟨hb,hba⟩ := find_some hbac
    simp only
    split
    · refine Accounted.removeExempt (h.modify (fun _ => rfl) (fun s hs hname hkept => ?_) (fun _ _ _ hc => hc.elim))
      refine hkept.demote (host,port) (fun b => (applyBackendStatus_same success config.threshold now b).1)
        (fun b => (applyBackendStatus_same success config.threshold now b).2) (fun c hc hinac ha => ?_)
      simp [Impl.idleAt,(mem_connectionsOf.mp hc).2,hname,ha,hinac]
    · rename_i hhe
      refine h.modify (fun _ => rfl) (fun s' hs' hname' hkept => ?_) (fun _ _ _ hc => hc)
      refine hkept.change (host,port) (fun b => (applyBackendStatus_same success config.threshold now b).1)
        (fun b' hb' hba' hheal => ?_) (fun b => (applyBackendStatus_same success config.threshold now b).2)
      obtain rfl := inj_on_of_nodup_map h.names hs' hs (hname'.trans hname.symm)
      obtain rfl := inj_on_of_nodup_map hkept.addresses hb' hb (hba'.trans hba.symm)
      simpa [hheal] using hhe

theorem Accounted.reportBackendStatus (h : Accounted exact (fun _ => False) m) (config : Configuration) (host : Bytes)
    (port : Nat) (success : Bool) (now : Int) :
    Accounted exact (fun _ => False) (m.reportBackendStatus config host port success now) := by
  unfold Impl.reportBackendStatus
  split
  · exact h
  · generalize m.services = services
    induction services generalizing m with
    | nil => exact h
    | cons s services ih => exact ih (h.reportTo config s.name host port success now)

theorem Accounted.cleanupExpiredConnections (h : Accounted exact exempt m) (config : Configuration) (now : Int) :
    Accounted exact exempt (m.cleanupExpiredConnectionsLocked config now) := by
  unfold cleanupExpiredConnectionsLocked
  have hrem := (h.removeWhere (fun c =>
    !(c.isActive || config.idleTimeout = 0 || now-c.lastUsed ≤ config.idleTimeout))).1
  refine hrem.keep_all (fun _ => rfl) (fun s hs hkept => ?_)
  rw [hrem.prune hs rfl]
  exact hkept

theorem Accounted.performHealthCheck (h : Accounted exact exempt m) (config : Configuration) (now : Int) :
    Accounted exact exempt (m.performHealthCheckLocked config now) := by
  refine h.keep_all (fun _ => rfl) (fun s hs hkept => ?_)
  have hprun : m.pruneIdleConnectionsLocked (checkHealth config now s) = checkHealth config now s :=
    h.prune hs rfl
  rw [hprun]
  refine hkept.keep _ rfl rfl rfl le_rfl (fun b => ?_) (fun b _ hb => ?_) (fun b => ?_)
  · split <;> rfl
  · split
    · rfl
    · exact hb
  · split <;> rfl

theorem nextConnectionId_removeAll (l : List ConnectionInfo) (m : Impl) :
    (l.foldl (fun m c => if gone c then m.removeConnectionLocked c else m) m).nextConnectionId = m.nextConnectionId := by
  induction l generalizing m with
  | nil => rfl
  | cons c l ih =>
    rw [foldl_cons,ih]
    split <;> rfl

theorem nextConnectionId_removeWhere (m : Impl) :
    (m.removeWhere gone).nextConnectionId = m.nextConnectionId :=
  nextConnectionId_removeAll gone m.connections m

theorem nextConnectionId_reportTo (m : Impl) (config : Configuration) (name host : Bytes) (port : Nat) (success : Bool)
    (now : Int) : (m.reportTo config name host port success now).nextConnectionId = m.nextConnectionId := by
  unfold reportTo
  split
  · rfl
  · simp only
    split
    · exact nextConnectionId_removeWhere _ _
    · rfl

theorem nextConnectionId_step (m : Impl) (call : Call)
    (hcall : ∀ service affinityKey now random, call ≠ .acquireConnection service affinityKey now random) :
    (step config m call).nextConnectionId = m.nextConnectionId := by
  cases call with
  | acquireConnection service affinityKey now random => exact absurd rfl (hcall service affinityKey now random)
  | releaseConnection id now =>
    simp only [step,releaseConnection]
    repeat' split
    all_goals rfl
  | closeConnection id =>
    simp only [step,closeConnection]
    split <;> rfl
  | addBackendServer service host port weight =>
    simp only [step,addBackendServer]
    split
    · rfl
    · exact nextConnectionId_ensureServiceState m config service
  | removeBackendServer service host port =>
    simp only [step,removeBackendServer]
    split
    · rfl
    · exact nextConnectionId_removeWhere _ _
  | updateBackendWeight service host port weight => rfl
  | setLoadBalancingStrategy service strategy => exact nextConnectionId_ensureServiceState m config service
  | reportBackendStatus host port success now =>
    simp only [step,reportBackendStatus]
    split
    · rfl
    · generalize m.services = services
      induction services generalizing m with
      | nil => rfl
      | cons s services ih =>
        rw [foldl_cons,ih]
        exact nextConnectionId_reportTo m config s.name host port success now
  | reportServiceBackendStatus service host port success now =>
    simp only [step,reportServiceBackendStatus]
    split
    · rfl
    · exact nextConnectionId_reportTo m config service host port success now
  | reportExecution success now =>
    simp only [step,reportExecution]
    split <;> rfl
  | reportServiceExecution service success now =>
    simp only [step,reportServiceExecution]
    split <;> rfl
  | maintenance now => exact nextConnectionId_removeWhere _ _
  | cleanup => rfl

/-- A new backend is registered only where no active connection of the service goes to its
address. -/
def Unclaimed (m : Impl) : Call → Prop
  | .addBackendServer service host port _ =>
    service = [] ∨ host = [] ∨ port = 0 ∨ m.registered service (host,port) = true ∨ m.load service (host,port) = 0
  | _ => True

instance (m : Impl) (call : Call) : Decidable (Unclaimed m call) := by
  unfold Unclaimed
  split <;> infer_instance

theorem Accounted.step (h : Accounted exact (fun _ => False) m) (hnext : m.nextConnectionId+1 < 2^64)
    (config : Configuration) (call : Call) (hunc : exact → Unclaimed m call) :
    Accounted exact (fun _ => False) (step config m call) := by
  cases call with
  | acquireConnection service affinityKey now random =>
    exact (h.acquireConnection hnext config service affinityKey now random).1
  | releaseConnection id now => exact h.releaseConnection id now
  | closeConnection id => exact h.closeConnection id
  | addBackendServer service host port weight =>
    by_cases hvalid : service = [] ∨ host = [] ∨ port = 0
    · simpa [ConnectionManager.step,Impl.addBackendServer,hvalid] using h
    · refine h.addBackendServer config service host port weight (fun hexact => ?_)
      have hcall := hunc hexact
      simp only [Unclaimed] at hcall
      tauto
  | removeBackendServer service host port => exact h.removeBackendServer service host port
  | updateBackendWeight service host port weight =>
    refine h.keep (fun _ => rfl) (fun own s hs => ?_)
    exact hs.change (host,port) (fun _ => rfl) (fun _ _ _ hb => hb) (fun _ => rfl)
  | setLoadBalancingStrategy service strategy =>
    exact (h.ensureServiceState config service).keep (fun _ => rfl) (fun own s hs => hs.same rfl rfl rfl rfl)
  | reportBackendStatus host port success now => exact h.reportBackendStatus config host port success now
  | reportServiceBackendStatus service host port success now =>
    simp only [ConnectionManager.step,Impl.reportServiceBackendStatus]
    split
    · exact h
    · exact h.reportTo config service host port success now
  | reportExecution success now =>
    simp only [ConnectionManager.step,Impl.reportExecution]
    split
    · exact h
    · exact h.keep_all (fun _ => rfl) (fun s _ hs => hs.same rfl rfl rfl rfl)
  | reportServiceExecution service success now =>
    simp only [ConnectionManager.step,Impl.reportServiceExecution]
    split
    · exact h
    · exact h.keep (fun _ => rfl) (fun own s hs => hs.same rfl rfl rfl rfl)
  | maintenance now => exact (h.cleanupExpiredConnections config now).performHealthCheck config now
  | cleanup => exact ⟨nodup_nil,by simp [ConnectionManager.step,Impl.cleanup],h.positive,nodup_nil,
      by simp [ConnectionManager.step,Impl.cleanup],by simp [ConnectionManager.step,Impl.cleanup]⟩

theorem nextConnectionId_le (h : Accounted exact (fun _ => False) m) (hnext : m.nextConnectionId+1 < 2^64)
    (config : Configuration) (call : Call) : (step config m call).nextConnectionId ≤ m.nextConnectionId+1 := by
  by_cases hcall : ∀ service affinityKey now random, call ≠ .acquireConnection service affinityKey now random
  · rw [nextConnectionId_step config m call hcall]
    exact Nat.le_succ _
  · simp only [not_forall,not_not] at hcall
    obtain ⟨service,affinityKey,now,random,rfl⟩ := hcall
    exact (h.acquireConnection hnext config service affinityKey now random).2.1

theorem accounted_fresh (exact : Prop) : Accounted exact (fun _ => False) {} :=
  ⟨nodup_nil,by simp,Nat.one_pos,nodup_nil,by simp,by simp⟩

/-- What a run keeps. A number is given at most once per call, so that `nextConnectionId` does
not come round in it. -/
theorem Accounted.runs (h : Accounted exact (fun _ => False) m) (config : Configuration) {calls : List Call}
    (hlen : m.nextConnectionId+calls.length < 2^64)
    (hunc : exact → Machine.Meets (ConnectionManager.step config) Unclaimed m calls) :
    let m' := Machine.runs (ConnectionManager.step config) m calls
    Accounted exact (fun _ => False) m' ∧ m'.nextConnectionId ≤ m.nextConnectionId+calls.length := by
  induction calls generalizing m with
  | nil => exact ⟨h,le_rfl⟩
  | cons call calls ih =>
    rw [length_cons] at hlen
    have hnext : m.nextConnectionId+1 < 2^64 := by omega
    have hle := nextConnectionId_le h hnext config call
    obtain ⟨hacc,hlast⟩ := ih (h.step hnext config call (fun hexact => (hunc hexact).1)) (by omega)
      (fun hexact => (hunc hexact).2)
    refine ⟨hacc,hlast.trans ?_⟩
    rw [length_cons]
    omega

/-- In every state that calls lead to, each service records how many connections it has, no
more than its limit, and which of them are idle; and what `acquireConnection` returns is no
active connection. -/
theorem pool_accounting (config : Configuration) (calls : List Call) (hlength : calls.length+2 < 2^64) :
    let m := Machine.runs (step config) {} calls
    (m.services.map ServiceState.name).Nodup ∧
      (∀ s ∈ m.services, s.totalConnections = (m.connectionsOf s.name).length ∧ s.totalConnections ≤ s.maxPoolSize ∧
        s.idleConnections.Nodup ∧
        ∀ id, id ∈ s.idleConnections ↔ ∃ c ∈ m.connectionsOf s.name, c.id = id ∧ c.isActive = false) ∧
      ∀ service affinityKey now random, ∀ c ∈ m.connections,
        c.id = (m.acquireConnection config service affinityKey now random).2 → c.isActive = false := by
  intro m
  have hroom : ({} : Impl).nextConnectionId+calls.length < 2^64 := by
    simp only
    omega
  obtain ⟨hacc,hnext⟩ := (accounted_fresh False).runs config hroom (fun h => h.elim)
  refine ⟨hacc.names,fun s hs => ?_,fun service affinityKey now random => ?_⟩
  · have hkept := hacc.kept s hs
    exact ⟨hkept.total,hkept.limit,hkept.nodup,hkept.idle⟩
  · refine (hacc.acquireConnection ?_ config service affinityKey now random).2.2
    simp only at hnext
    omega

def twoUsers : List Call :=
  [.addBackendServer [1] [2] 80 1,.acquireConnection [1] [] 0 0,.acquireConnection [1] [] 1 0,.releaseConnection 1 2]

theorem pool_accounting_twoUsers :
    let m := Machine.runs (step { hash := List.length }) {} twoUsers
    ∀ s ∈ m.services, s.totalConnections = (m.connectionsOf s.name).length :=
  fun s hs => ((pool_accounting { hash := List.length } twoUsers (by decide)).2.1 s hs).1

/-! ### The load of the backends -/

def LoadsRight (m : Impl) : Prop :=
  ∀ s ∈ m.services, ∀ b ∈ s.backends, b.activeConnections = m.load s.name b.address

theorem Accounted.loadsRight (h : Accounted True exempt m) : LoadsRight m :=
  fun s hs b hb => (h.kept s hs).counted trivial b hb

theorem exists_ensureServiceState (m : Impl) (config : Configuration) (name : Bytes) :
    ∃ s ∈ (m.ensureServiceStateLocked config name).services, s.name = name ∧
      ∀ b ∈ s.backends, m.registered name b.address = true := by
  have hopen : ∃ s ∈ (m.openService name).services, s.name = name ∧
      ∀ b ∈ s.backends, m.registered name b.address = true := by
    cases hser : m.service name with
    | none =>
      refine ⟨{ name },?_,rfl,by simp⟩
      simp [openService,hser]
    | some s =>
      obtain ⟨hs,hname⟩ := find_some hser
      refine ⟨s,?_,hname,fun b hb => ?_⟩
      · simpa [openService,hser] using hs
      · simp only [registered,hser,Option.any_some,any_eq_true,decide_eq_true_eq]
        exact ⟨b,hb,rfl⟩
  obtain ⟨s,hs,hname,hb⟩ := hopen
  refine ⟨_,mem_modify.mpr (.inr ⟨s,hs,hname,rfl⟩),?_,?_⟩
  · split <;> exact hname
  · split <;> exact hb

theorem unclaimed_of_loadsRight {config : Configuration} {call : Call} (h : LoadsRight (step config m call)) :
    Unclaimed m call := by
  cases call with
  | addBackendServer service host port weight =>
    by_contra hcl
    simp only [Unclaimed,not_or] at hcl
    obtain ⟨hser,hhost,hport,hreg,hload⟩ := hcl
    obtain ⟨s,hs,rfl,hbac⟩ := exists_ensureServiceState m config service
    have hnew : find BackendServer.address (host,port) s.backends = none := by
      refine find_none.mpr (fun b hb hba => hreg ?_)
      rw [← hba]
      exact hbac b hb
    have hadded : register host port weight s =
        { s with backends := s.backends ++ [{ host, port, weight := max 1 weight }] } := by
      simp [register,hnew]
    have hs' : register host port weight s ∈ (step config m (.addBackendServer s.name host port weight)).services := by
      simp only [step,addBackendServer,hser,hhost,hport,or_self,if_false]
      exact mem_modify.mpr (.inr ⟨s,hs,rfl,rfl⟩)
    have hcon : (step config m (.addBackendServer s.name host port weight)).connections = m.connections := by
      simp only [step,addBackendServer,hser,hhost,hport,or_self,if_false]
      exact connections_ensureServiceState m config s.name
    have hright := h _ hs' { host, port, weight := max 1 weight } (by simp [hadded])
    simp only [hadded,load,connectionsOf,hcon] at hright
    exact hload hright.symm
  | _ => trivial

/-- The loads are right behind every call of a run if, and only if, no backend is registered
anew while active connections go to its address. -/
theorem load_accounting_iff (config : Configuration) (calls : List Call) (hlength : calls.length+1 < 2^64) :
    Machine.Meets (step config) (fun m call => LoadsRight (step config m call)) {} calls ↔
      Machine.Meets (step config) Unclaimed {} calls := by
  have hrun (m : Impl) (h : Accounted True (fun _ => False) m) (hroom : m.nextConnectionId+calls.length < 2^64) :
      Machine.Meets (step config) (fun m call => LoadsRight (step config m call)) m calls ↔
        Machine.Meets (step config) Unclaimed m calls := by
    clear hlength
    induction calls generalizing m with
    | nil => exact Iff.rfl
    | cons call calls ih =>
      rw [List.length_cons] at hroom
      have hnext : m.nextConnectionId+1 < 2^64 := by omega
      have hle := nextConnectionId_le h hnext config call
      have hstep (hunc : Unclaimed m call) : Accounted True (fun _ => False) (step config m call) :=
        h.step hnext config call (fun _ => hunc)
      constructor
      · rintro ⟨hright,hrest⟩
        have hunc := unclaimed_of_loadsRight hright
        exact ⟨hunc,(ih _ (hstep hunc) (by omega)).mp hrest⟩
      · rintro ⟨hunc,hrest⟩
        exact ⟨(hstep hunc).loadsRight,(ih _ (hstep hunc) (by omega)).mpr hrest⟩
  refine hrun {} (accounted_fresh True) ?_
  simp only
  omega

def recovery : List Call :=
  [.addBackendServer [1] [2] 80 1,.acquireConnection [1] [] 0 0,.reportServiceBackendStatus [1] [2] 80 false 1,
    .reportServiceBackendStatus [1] [2] 80 true 2,.releaseConnection 1 3,.acquireConnection [1] [] 4 0]

theorem load_accounting_recovery :
    Machine.Meets (step { hash := List.length, failureThreshold := 1 })
      (fun m call => LoadsRight (step { hash := List.length, failureThreshold := 1 } m call)) {} recovery :=
  (load_accounting_iff { hash := List.length, failureThreshold := 1 } recovery (by decide)).mpr (by decide)

def comeback : List Call :=
  [.addBackendServer [1] [2] 80 1,.acquireConnection [1] [] 0 0,.removeBackendServer [1] [2] 80,
    .addBackendServer [1] [2] 80 1]

/-- The backend has no load then, and one active connection goes to it. -/
theorem comeback_load :
    let m := Machine.runs (step { hash := List.length }) {} comeback
    m.services.map (fun s => s.backends.map BackendServer.activeConnections) = [[0]] ∧ m.load [1] ([2],80) = 1 := by
  decide

end FastNet.ConnectionManager
