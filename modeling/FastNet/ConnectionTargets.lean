import FastNet.ConnectionAccounting
import FastNet.WeightedRoundRobin

/-!
`ConnectionManager`: the backends to which connections are handed out.
-/

namespace FastNet.ConnectionManager

open List Impl Keyed BackendServer

variable {exact : Prop} {exempt : ConnectionInfo → Prop} {m : Impl} {s : ServiceState} {l : List BackendServer}
  {b : BackendServer} {i : Nat} {name : Bytes} {a : Bytes × Nat} (config : Configuration)

/-! ### The choice -/

theorem mem_healthyBackends (h : i ∈ healthyBackends l) : i ∈ places l := by
  obtain ⟨⟨b,j⟩,hb,rfl⟩ := mem_map.mp h
  obtain ⟨hb,hheal⟩ := mem_filter.mp hb
  exact mem_places.mpr ⟨b,mk_mem_zipIdx_iff_getElem?.mp hb,hheal⟩

theorem leastConnections_mem {candidates : List (BackendServer × Nat)} {smallest : Option (BackendServer × Nat)}
    (h : leastConnections candidates smallest = some i) : i ∈ (smallest.toList ++ candidates).map Prod.snd := by
  induction candidates generalizing smallest with
  | nil =>
    obtain ⟨b,rfl,rfl⟩ := Option.map_eq_some_iff.mp h
    simp
  | cons b candidates ih =>
    cases smallest with
    | none => exact ih h
    | some top =>
      have hmem := ih h
      split at hmem
      · exact mem_cons_of_mem _ hmem
      · simp only [Option.toList_some,singleton_append,map_cons,mem_cons] at hmem ⊢
        tauto

theorem weightedRoundRobin_places (h : (weightedRoundRobin l).2 = some i) (hsome : healthyBackends l ≠ []) :
    i ∈ places l := by
  obtain ⟨k,hk⟩ := exists_mem_of_ne_nil _ hsome
  obtain ⟨b,hb,hheal⟩ := mem_places.mp (mem_healthyBackends hk)
  obtain ⟨j,top,hbest,hj,htop,-⟩ := weightedLoop_top l 0 0 ⟨b,mem_of_getElem? hb,hheal⟩
  unfold weightedRoundRobin at h
  split at h
  · cases h
  · rename_i hres
    rw [hres] at hbest
    obtain ⟨-,rfl⟩ := Prod.mk.inj (Option.some.inj hbest)
    rw [← Option.some.inj h,Nat.zero_add]
    exact mem_places.mpr ⟨top,hj,htop⟩

theorem selectBackend_places {affinityKey : Bytes} {random : Nat}
    (h : (selectBackendLocked config s affinityKey random).2 = some i) : i ∈ places s.backends := by
  unfold selectBackendLocked at h
  simp only at h
  split at h
  · cases h
  · rename_i hsome
    split at h
    · exact mem_healthyBackends (mem_of_getElem? h)
    · exact mem_healthyBackends (leastConnections_mem h)
    · exact weightedRoundRobin_places h hsome
    · split at h <;> exact mem_healthyBackends (mem_of_getElem? h)
    · exact mem_healthyBackends (mem_of_getElem? h)

def ServiceState.healthyAddresses (s : ServiceState) : List (Bytes × Nat) := (s.backends.filter healthy).map address

/-- The backend that `IPHash` takes for the key. -/
def ServiceState.hashed (s : ServiceState) (affinityKey : Bytes) : Option (Bytes × Nat) :=
  s.healthyAddresses[config.hash affinityKey % s.healthyAddresses.length]?

theorem selectBackend_hashed {affinityKey : Bytes} {random : Nat}
    (h : (selectBackendLocked config s affinityKey random).2 = some i) (hstr : s.strategy = .ipHash)
    (hkey : affinityKey ≠ []) (hb : s.backends[i]? = some b) : s.hashed config affinityKey = some b.address := by
  have hfst : (s.backends.zipIdx.filter (fun b => b.1.healthy)).map Prod.fst = s.backends.filter healthy := by
    have hzip := filter_map (f := Prod.fst) (p := healthy) (l := s.backends.zipIdx)
    rw [zipIdx_map_fst] at hzip
    exact hzip.symm
  have hlen : s.healthyAddresses.length = (healthyBackends s.backends).length := by
    rw [ServiceState.healthyAddresses,← hfst,healthyBackends]
    simp
  simp only [selectBackendLocked,hstr,hkey,if_false] at h
  split at h
  · cases h
  · rw [healthyBackends,getElem?_map] at h
    obtain ⟨⟨b',j⟩,hj,rfl⟩ := Option.map_eq_some_iff.mp h
    have hb' := mk_mem_zipIdx_iff_getElem?.mp (mem_filter.mp (mem_of_getElem? hj)).1
    rw [hb] at hb'
    rw [ServiceState.hashed,hlen,ServiceState.healthyAddresses,← hfst,getElem?_map,getElem?_map,
      healthyBackends,hj,Option.some.inj hb']
    rfl

/-! ### The connection that is handed out -/

theorem acquireNew_reaches (affinityKey : Bytes) (now : Int) (random : Nat) :
    let r := m.acquireNew config name affinityKey now random
    r.2 = 0 ∨ ∃ s a, m.service name = some s ∧ r.1.Reaches name r.2 a ∧
      (s.strategy = .ipHash → affinityKey ≠ [] → s.hashed config affinityKey = some a) := by
  cases hser : m.service name with
  | none =>
    simp only [Impl.acquireNew,hser]
    exact .inl trivial
  | some s =>
    obtain ⟨hs,rfl⟩ := find_some hser
    simp only [Impl.acquireNew,hser]
    split
    · exact .inl rfl
    · split
      · exact .inl rfl
      · rename_i i b hpic
        obtain ⟨hname,hloads,-⟩ := selectBackend_same config s affinityKey random
        obtain ⟨j,hj,hmap⟩ := Option.bind_eq_some_iff.mp hpic
        obtain ⟨b',hb',heq⟩ := Option.map_eq_some_iff.mp hmap
        obtain ⟨rfl,rfl⟩ := Prod.mk.inj heq
        -- the selection leaves the address and the health of the backend as they were
        obtain ⟨b,hb,hheal⟩ := mem_places.mp (selectBackend_places config hj)
        have hload := congrArg (fun l => l[j]?) hloads
        simp only [getElem?_map,hb,hb',Option.map_some,Option.some.injEq,BackendServer.load,Prod.mk.injEq] at hload
        refine .inr ⟨s,b'.address,rfl,?_,fun hstr hkey => ?_⟩
        · refine ⟨newConnection m.nextConnectionId s.name b' now,?_,rfl,rfl,_,mem_modify.mpr
            (.inr ⟨_,mem_modify.mpr (.inr ⟨s,hs,rfl,rfl⟩),hname,rfl⟩),hname,?_⟩
          · exact mem_connectionsOf.mpr ⟨mem_append_right _ (mem_singleton_self _),rfl⟩
          · refine ⟨{ b' with activeConnections := b'.activeConnections+1 },mem_of_getElem? (i := j) ?_,rfl,?_⟩
            · simp [enlist,hb']
            · exact hload.2.1.trans hheal
        · rw [hload.1]
          exact selectBackend_hashed config hj hstr hkey hb

theorem Accounted.acquire_reaches (h : Accounted exact (fun _ => False) m) (affinityKey : Bytes) (now : Int)
    (random : Nat) :
    let r := m.acquireConnection config name affinityKey now random
    r.2 = 0 ∨ ∃ a, r.1.Reaches name r.2 a := by
  unfold Impl.acquireConnection
  split
  · exact .inl rfl
  · simp only
    split
    · exact .inl rfl
    · rename_i s hser
      have hidle := (h.prepared config name now).acquireIdle config name now s.idleConnections.length
      split
      · exact .inl rfl
      · split
        · rename_i m' id hfound
          rw [hfound] at hidle
          obtain ⟨c,-,-,-,hreach⟩ := hidle.2.2 id rfl
          exact .inr ⟨c.address,hreach⟩
        · rcases acquireNew_reaches config affinityKey now random with hzero | ⟨-,a,-,hreach,-⟩
          · exact .inl hzero
          · exact .inr ⟨a,hreach⟩

theorem accounted_runs (config : Configuration) {calls : List Call} (hlength : calls.length+1 < 2^64) :
    Accounted False (fun _ => False) (Machine.runs (step config) {} calls) := by
  refine ((accounted_fresh False).runs config ?_ (fun h => h.elim)).1
  simp only
  omega

/-- In every state that calls lead to, each idle connection goes to a healthy backend of its
service, and what `acquireConnection` returns, other than 0, goes to one too. -/
theorem only_healthy_targets (config : Configuration) (calls : List Call) (hlength : calls.length+1 < 2^64) :
    let m := Machine.runs (step config) {} calls
    (∀ c ∈ m.connections, c.isActive = false → m.Reaches c.service c.id c.address) ∧
      ∀ service affinityKey now random, let r := m.acquireConnection config service affinityKey now random
        r.2 = 0 ∨ ∃ a, r.1.Reaches service r.2 a := by
  intro m
  have hacc : Accounted False (fun _ => False) m := accounted_runs config hlength
  refine ⟨fun c hc hinac => ?_,fun service affinityKey now random => ?_⟩
  · obtain ⟨s,hs,hname⟩ := mem_map.mp (hacc.known c hc)
    have hown : c ∈ m.connectionsOf s.name := mem_connectionsOf.mpr ⟨hc,hname.symm⟩
    exact ⟨c,hname ▸ hown,rfl,rfl,s,hs,hname,(hacc.kept s hs).served c hown hinac not_false⟩
  · exact hacc.acquire_reaches config affinityKey now random

theorem only_healthy_targets_recovery :
    let m := Machine.runs (step { hash := List.length, failureThreshold := 1 }) {} recovery
    ∀ c ∈ m.connections, c.isActive = false → m.Reaches c.service c.id c.address :=
  (only_healthy_targets { hash := List.length, failureThreshold := 1 } recovery (by decide)).1

/-! ### The same backend for the same key -/

/-- The service, as a call finds it, uses `IPHash` and has no idle connection, and its healthy
backends are `addresses`. -/
def Hashing (m : Impl) (name : Bytes) (addresses : List (Bytes × Nat)) : Prop :=
  ∃ s, (m.ensureServiceStateLocked config name).service name = some s ∧ s.strategy = .ipHash ∧
    s.idleConnections = [] ∧ s.healthyAddresses = addresses

theorem Hashing.acquire {affinityKey : Bytes} {addresses : List (Bytes × Nat)} (h : Hashing config m name addresses)
    (hkey : affinityKey ≠ []) (now : Int) (random : Nat) :
    let r := m.acquireConnection config name affinityKey now random
    r.2 = 0 ∨ ∃ a, r.1.Reaches name r.2 a ∧ addresses[config.hash affinityKey % addresses.length]? = some a := by
  obtain ⟨s,hser,hstr,hidle,rfl⟩ := h
  unfold Impl.acquireConnection
  split
  · exact .inl rfl
  · simp only [hser,hidle,length_nil,acquireIdle]
    split
    · exact .inl rfl
    · refine (acquireNew_reaches config affinityKey now random).imp_right ?_
      rintro ⟨s',a,hser',hreach,hhash⟩
      rw [service,modifyService,find_modify (fun s => (prepareCircuitBreaker_same config now s).1)] at hser'
      obtain ⟨s'',hs'',rfl⟩ := Option.map_eq_some_iff.mp hser'
      obtain rfl : s'' = s := Option.some.inj (hs''.symm.trans hser)
      rw [if_pos rfl] at hhash
      obtain ⟨-,hbac,-,-,-,hsame⟩ := prepareCircuitBreaker_same config now s''
      refine ⟨a,hreach,?_⟩
      rw [← hhash (hsame.trans hstr) hkey,ServiceState.hashed,ServiceState.healthyAddresses,
        ServiceState.healthyAddresses,hbac]

/-- Two successful calls with one key give the same backend when the healthy backends are the
same and no connection is idle. -/
theorem affinity_without_idle (config : Configuration) {m m' : Impl} {name affinityKey : Bytes}
    (addresses : List (Bytes × Nat)) (h : Hashing config m name addresses) (h' : Hashing config m' name addresses)
    (hkey : affinityKey ≠ []) (now now' : Int) (random random' : Nat) :
    let r := m.acquireConnection config name affinityKey now random
    let r' := m'.acquireConnection config name affinityKey now' random'
    r.2 = 0 ∨ r'.2 = 0 ∨ ∃ a, r.1.Reaches name r.2 a ∧ r'.1.Reaches name r'.2 a := by
  rcases h.acquire config hkey now random with hzero | ⟨a,hreach,ha⟩
  · exact .inl hzero
  · refine .inr ((h'.acquire config hkey now' random').imp_right ?_)
    rintro ⟨a',hreach',ha'⟩
    obtain rfl : a = a' := Option.some.inj (ha.symm.trans ha')
    exact ⟨a,hreach,hreach'⟩

def hashing : List Call :=
  [.addBackendServer [1] [2] 80 1,.addBackendServer [1] [3] 80 1,.setLoadBalancingStrategy [1] .ipHash]

theorem affinity_without_idle_hashing :
    let m := Machine.runs (step { hash := List.length }) {} hashing
    let m' := step { hash := List.length } m (.acquireConnection [1] [7,7] 0 0)
    let r := m.acquireConnection { hash := List.length } [1] [7] 0 0
    let r' := m'.acquireConnection { hash := List.length } [1] [7] 1 0
    r.2 = 0 ∨ r'.2 = 0 ∨ ∃ a, r.1.Reaches [1] r.2 a ∧ r'.1.Reaches [1] r'.2 a :=
  affinity_without_idle { hash := List.length } [([2],80),([3],80)] ⟨_,rfl,rfl,rfl,rfl⟩
    ⟨_,rfl,rfl,rfl,rfl⟩ (by decide) 0 1 0 0

/-- The first connection for the key goes to the second backend. Then another client gives back
its connection to the first backend, and the next one for the key is that connection. -/
theorem affinity_lost :
    let m := Machine.runs (step { hash := List.length }) {} (hashing ++ [.acquireConnection [1] [7] 0 0,
      .acquireConnection [1] [7,7] 1 0,.releaseConnection 2 2])
    m.connections.map (fun c => (c.id,c.address)) = [(1,([3],80)),(2,([2],80))] ∧
      (m.acquireConnection { hash := List.length } [1] [7] 3 0).2 = 2 := by
  decide

end FastNet.ConnectionManager
