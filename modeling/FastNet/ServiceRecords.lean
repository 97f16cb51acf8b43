import FastNet.ConnectionManager

/-!
`ConnectionManager`: what the services record about their connections.
-/

namespace FastNet.ConnectionManager

open List Impl Keyed BackendServer

variable {exact : Prop} {exempt : ConnectionInfo → Prop} {own : List ConnectionInfo} {s : ServiceState}
  {c : ConnectionInfo} {b : BackendServer} {a : Bytes × Nat}
variable {g : BackendServer → BackendServer} {l : List BackendServer} {i : Nat} {s' : ServiceState}

/-! ### One service -/

def ConnectionInfo.uses (a : Bytes × Nat) (c : ConnectionInfo) : Bool := c.isActive && c.address = a

theorem uses_of_active (h : c.isActive = true) (a : Bytes × Nat) : c.uses a = decide (c.address = a) := by
  rw [ConnectionInfo.uses,h,Bool.true_and]

theorem uses_of_idle (h : c.isActive = false) (a : Bytes × Nat) : c.uses a = false := by
  rw [ConnectionInfo.uses,h,Bool.false_and]

/-- What a service records agrees with its own connections. Idle connections that are not
exempt go to a healthy backend, and the load of the backends is looked at if `exact`. -/
structure Kept (exact : Prop) (exempt : ConnectionInfo → Prop) (own : List ConnectionInfo) (s : ServiceState) : Prop where
  total : s.totalConnections = own.length
  limit : s.totalConnections ≤ s.maxPoolSize
  nodup : s.idleConnections.Nodup
  idle : ∀ id, id ∈ s.idleConnections ↔ ∃ c ∈ own, c.id = id ∧ c.isActive = false
  addresses : (s.backends.map BackendServer.address).Nodup
  served : ∀ c ∈ own, c.isActive = false → ¬ exempt c → ∃ b ∈ s.backends, b.address = c.address ∧ b.healthy = true
  counted : exact → ∀ b ∈ s.backends, b.activeConnections = own.countP (ConnectionInfo.uses b.address)

theorem map_addresses (hg : ∀ b, (g b).address = b.address) (l : List BackendServer) :
    (l.map g).map address = l.map address := by
  rw [map_map]
  exact map_congr_left (fun b _ => hg b)

theorem served_map (hg : ∀ b, (g b).address = b.address)
    (hheal : ∀ b ∈ l, b.healthy = true → (g b).healthy = true) (h : ∃ b ∈ l, b.address = a ∧ b.healthy = true) :
    ∃ b ∈ l.map g, b.address = a ∧ b.healthy = true := by
  obtain ⟨b,hb,ha,hb'⟩ := h
  exact ⟨g b,mem_map_of_mem hb,(hg b).trans ha,hheal b hb hb'⟩

def reload (a : Bytes × Nat) (load : Nat → Nat) (b : BackendServer) : BackendServer :=
  if b.address = a then { b with activeConnections := load b.activeConnections } else b

@[simp] theorem reload_address (a : Bytes × Nat) (load : Nat → Nat) (b : BackendServer) :
    (reload a load b).address = b.address := by
  unfold reload
  split <;> rfl

@[simp] theorem reload_healthy (a : Bytes × Nat) (load : Nat → Nat) (b : BackendServer) :
    (reload a load b).healthy = b.healthy := by
  unfold reload
  split <;> rfl

theorem reload_activeConnections (a : Bytes × Nat) (load : Nat → Nat) (b : BackendServer) :
    (reload a load b).activeConnections = if b.address = a then load b.activeConnections else b.activeConnections := by
  unfold reload
  split <;> rfl

theorem modifyFirst_reload (hl : (l.map address).Nodup) (a : Bytes × Nat)
    (load : Nat → Nat) :
    modifyFirst address a (fun b => { b with activeConnections := load b.activeConnections }) l =
      l.map (reload a load) :=
  modifyFirst_eq hl a _

theorem Kept.keep (h : Kept exact exempt own s) (g : BackendServer → BackendServer)
    (hbac : s'.backends = s.backends.map g) (hidle : s'.idleConnections = s.idleConnections)
    (htotal : s'.totalConnections = s.totalConnections) (hmax : s.maxPoolSize ≤ s'.maxPoolSize)
    (hadd : ∀ b, (g b).address = b.address) (hheal : ∀ b ∈ s.backends, b.healthy = true → (g b).healthy = true)
    (hact : ∀ b, (g b).activeConnections = b.activeConnections) : Kept exact exempt own s' := by
  refine ⟨htotal.trans h.total,?_,?_,?_,?_,fun c hc hidle hnot => ?_,fun hexact b hb => ?_⟩
  · rw [htotal]
    exact h.limit.trans hmax
  · rw [hidle]
    exact h.nodup
  · rw [hidle]
    exact h.idle
  · rw [hbac,map_addresses hadd]
    exact h.addresses
  · rw [hbac]
    exact served_map hadd hheal (h.served c hc hidle hnot)
  · rw [hbac] at hb
    obtain ⟨b',hb',rfl⟩ := mem_map.mp hb
    rw [hact,hadd]
    exact h.counted hexact b' hb'

def BackendServer.load (b : BackendServer) : (Bytes × Nat) × Bool × Nat := (b.address,b.healthy,b.activeConnections)

theorem Kept.same (h : Kept exact exempt own s)
    (hloads : s'.backends.map load = s.backends.map load)
    (hidle : s'.idleConnections = s.idleConnections) (htotal : s'.totalConnections = s.totalConnections)
    (hmax : s'.maxPoolSize = s.maxPoolSize) : Kept exact exempt own s' := by
  have hmem {b : BackendServer} (l l' : List BackendServer) (hl : l'.map load = l.map load)
      (hb : b ∈ l) : ∃ b' ∈ l', b'.load = b.load := by
    have hload := mem_map_of_mem (f := load) hb
    rw [← hl] at hload
    exact mem_map.mp hload
  refine ⟨htotal.trans h.total,?_,?_,?_,?_,fun c hc hinac hnot => ?_,fun hexact b hb => ?_⟩
  · rw [htotal,hmax]
    exact h.limit
  · rw [hidle]
    exact h.nodup
  · rw [hidle]
    exact h.idle
  · have hadd := congrArg (map Prod.fst) hloads
    rw [map_map,map_map] at hadd
    exact hadd ▸ h.addresses
  · obtain ⟨b,hb,hba,hheal⟩ := h.served c hc hinac hnot
    obtain ⟨b',hb',hload⟩ := hmem _ _ hloads hb
    simp only [load,Prod.mk.injEq] at hload
    exact ⟨b',hb',hload.1.trans hba,hload.2.1.trans hheal⟩
  · obtain ⟨b',hb',hload⟩ := hmem _ _ hloads.symm hb
    simp only [load,Prod.mk.injEq] at hload
    rw [← hload.2.2,← hload.1]
    exact h.counted hexact b' hb'

theorem Kept.reloaded {own' : List ConnectionInfo} {load : Nat → Nat} (h : Kept exact exempt own s)
    (hbac : s'.backends = s.backends.map (reload a load)) (htotal : s'.totalConnections = own'.length)
    (hlimit : s'.totalConnections ≤ s'.maxPoolSize) (hnodup : s'.idleConnections.Nodup)
    (hidle : ∀ id, id ∈ s'.idleConnections ↔ ∃ c ∈ own', c.id = id ∧ c.isActive = false)
    (hserved : ∀ c ∈ own', c.isActive = false → ¬ exempt c →
      ∃ b ∈ s.backends, b.address = c.address ∧ b.healthy = true)
    (huses : ∀ a', own'.countP (ConnectionInfo.uses a') =
      if a' = a then load (own.countP (ConnectionInfo.uses a')) else own.countP (ConnectionInfo.uses a')) :
    Kept exact exempt own' s' := by
  refine ⟨htotal,hlimit,hnodup,hidle,?_,fun c hc hinac hnot => ?_,fun hexact b hb => ?_⟩
  · rw [hbac,map_addresses (fun b => reload_address _ _ b)]
    exact h.addresses
  · rw [hbac]
    exact served_map (fun b => reload_address _ _ b) (fun b _ hb => (reload_healthy _ _ b).trans hb)
      (hserved c hc hinac hnot)
  · rw [hbac] at hb
    obtain ⟨b',hb',rfl⟩ := mem_map.mp hb
    rw [reload_address,reload_activeConnections,huses,h.counted hexact b' hb']

theorem Kept.forget (h : Kept exact exempt own s) (hids : (own.map ConnectionInfo.id).Nodup) (hc : c ∈ own) :
    Kept exact exempt (erase ConnectionInfo.id c.id own) (Impl.forget c s) := by
  have hcount := countP_erase hids hc
  have hlen : (erase ConnectionInfo.id c.id own).length+1 = own.length := by
    simpa [countP_true] using hcount (fun _ => true)
  have hbac : (Impl.forget c s).backends =
      s.backends.map (reload c.address (if c.isActive then (· - 1) else id)) := by
    cases hact : c.isActive with
    | true =>
      simp only [Impl.forget,hact,if_true]
      exact modifyFirst_reload h.addresses c.address (· - 1)
    | false =>
      have hsame : reload c.address id = id := by
        funext b
        unfold reload
        split <;> rfl
      simp [Impl.forget,hact,hsame]
  have htotal := h.total
  have hlimit := h.limit
  refine h.reloaded hbac ?_ ?_ (h.nodup.filter _) (fun id => ?_)
    (fun c' hc' => h.served c' (mem_erase.mp hc').1) (fun a => ?_)
  · show s.totalConnections-1 = _
    omega
  · show s.totalConnections-1 ≤ s.maxPoolSize
    omega
  · have hid := h.idle id
    simp only [Impl.forget,mem_filter,decide_eq_true_eq,mem_erase,hid]
    constructor
    · rintro ⟨⟨c',hc',rfl,hidle⟩,hne⟩
      exact ⟨c',⟨hc',hne⟩,rfl,hidle⟩
    · rintro ⟨c',⟨hc',hne⟩,rfl,hidle⟩
      exact ⟨⟨c',hc',rfl,hidle⟩,hne⟩
  · have huses := hcount (ConnectionInfo.uses a)
    cases hact : c.isActive with
    | true =>
      rw [uses_of_active hact] at huses
      by_cases ha : a = c.address
      · simp only [ha,decide_true,if_true] at huses ⊢
        omega
      · simpa [ha,Ne.symm ha] using huses
    | false =>
      rw [uses_of_idle hact] at huses
      simpa using huses

theorem uses_store (hids : (own.map ConnectionInfo.id).Nodup) (hc : c ∈ own) (c' : ConnectionInfo) (a : Bytes × Nat) :
    (modify ConnectionInfo.id c.id (fun _ => c') own).countP (ConnectionInfo.uses a)+(if c.uses a then 1 else 0) =
      own.countP (ConnectionInfo.uses a)+(if c'.uses a then 1 else 0) :=
  countP_modify hids hc (fun _ => c') (ConnectionInfo.uses a)

theorem Kept.activate (h : Kept exact exempt own s) (hids : (own.map ConnectionInfo.id).Nodup) (hc : c ∈ own)
    {rest : List Nat} (hidle : s.idleConnections = c.id :: rest) (hact : c.isActive = false) (now : Int) :
    Kept exact exempt (Keyed.modify ConnectionInfo.id c.id (fun _ => { c with isActive := true, lastUsed := now }) own)
      { s with
        idleConnections := rest
        backends := Keyed.modifyFirst address c.address
          (fun b => { b with activeConnections := b.activeConnections+1 }) s.backends } := by
  have hnodup := h.nodup
  rw [hidle,nodup_cons] at hnodup
  refine h.reloaded (modifyFirst_reload h.addresses c.address (· + 1)) ?_ h.limit hnodup.2 (fun id => ?_)
    (fun c' hc' hidle' hnot => ?_) (fun a => ?_)
  · rw [Keyed.modify,length_map]
    exact h.total
  · have hid := h.idle id
    rw [hidle,mem_cons] at hid
    constructor
    · intro hmem
      obtain ⟨c',hc',rfl,hinac⟩ := hid.mp (.inr hmem)
      have hne : c'.id ≠ c.id := by
        intro heq
        rw [heq] at hmem
        exact hnodup.1 hmem
      exact ⟨c',Keyed.mem_modify.mpr (.inl ⟨hc',hne⟩),rfl,hinac⟩
    · rintro ⟨c',hc',rfl,hinac⟩
      rcases Keyed.mem_modify.mp hc' with ⟨hc',hne⟩ | ⟨c'',-,-,rfl⟩
      · exact (hid.mpr ⟨c',hc',rfl,hinac⟩).resolve_left hne
      · cases hinac
  · rcases Keyed.mem_modify.mp hc' with ⟨hc',-⟩ | ⟨c'',-,-,rfl⟩
    · exact h.served c' hc' hidle' hnot
    · cases hidle'
  · have huses := uses_store hids hc { c with isActive := true, lastUsed := now } a
    have hadd : ({ c with isActive := true, lastUsed := now } : ConnectionInfo).address = c.address := rfl
    rw [uses_of_idle hact,uses_of_active rfl,hadd] at huses
    by_cases ha : a = c.address
    · simpa [ha] using huses
    · simpa [ha,Ne.symm ha] using huses

theorem Kept.release (h : Kept exact exempt own s) (hids : (own.map ConnectionInfo.id).Nodup) (hc : c ∈ own)
    (hact : c.isActive = true) (hb : b ∈ s.backends) (hba : b.address = c.address) (hheal : b.healthy = true)
    (now : Int) :
    Kept exact exempt (Keyed.modify ConnectionInfo.id c.id (fun _ => { c with isActive := false, lastUsed := now }) own)
      { s with
        idleConnections := s.idleConnections ++ [c.id]
        backends := Keyed.modifyFirst address c.address
          (fun b => { b with activeConnections := b.activeConnections-1 }) s.backends } := by
  have hnew : c.id ∉ s.idleConnections := by
    intro hmem
    obtain ⟨c',hc',hid,hinac⟩ := (h.idle c.id).mp hmem
    rw [inj_on_of_nodup_map hids hc' hc hid,hact] at hinac
    cases hinac
  refine h.reloaded (modifyFirst_reload h.addresses c.address (· - 1)) ?_ h.limit ?_ (fun id => ?_)
    (fun c' hc' hidle hnot => ?_) (fun a => ?_)
  · rw [Keyed.modify,length_map]
    exact h.total
  · refine h.nodup.append (nodup_singleton _) (fun id hid hid' => ?_)
    rw [mem_singleton.mp hid'] at hid
    exact hnew hid
  · rw [mem_append,mem_singleton,h.idle id]
    constructor
    · rintro (⟨c',hc',rfl,hinac⟩ | rfl)
      · have hne : c'.id ≠ c.id := fun heq => hnew (heq ▸ (h.idle c'.id).mpr ⟨c',hc',rfl,hinac⟩)
        exact ⟨c',Keyed.mem_modify.mpr (.inl ⟨hc',hne⟩),rfl,hinac⟩
      · exact ⟨_,Keyed.mem_modify.mpr (.inr ⟨c,hc,rfl,rfl⟩),rfl,rfl⟩
    · rintro ⟨c',hc',rfl,hinac⟩
      rcases Keyed.mem_modify.mp hc' with ⟨hc',-⟩ | ⟨c'',-,-,rfl⟩
      · exact .inl ⟨c',hc',rfl,hinac⟩
      · exact .inr rfl
  · rcases Keyed.mem_modify.mp hc' with ⟨hc',-⟩ | ⟨c'',-,-,rfl⟩
    · exact h.served c' hc' hidle hnot
    · exact ⟨b,hb,hba,hheal⟩
  · have huses := uses_store hids hc { c with isActive := false, lastUsed := now } a
    rw [uses_of_active hact,uses_of_idle rfl] at huses
    by_cases ha : a = c.address
    · simp only [ha,decide_true,if_true,if_false,Bool.false_eq_true] at huses ⊢
      omega
    · simpa [ha,Ne.symm ha] using huses

theorem Kept.create (h : Kept exact exempt own s) {info : ConnectionInfo} (hact : info.isActive = true) (hroom : s.totalConnections < s.maxPoolSize) (hb : s.backends[i]? = some b) (hadd : info.address = b.address) :
    Kept exact exempt (own ++ [info]) (enlist i s) := by
  refine h.reloaded (modify_at h.addresses hb _) ?_ hroom h.nodup (fun id => ?_)
    (fun c hc hidle hnot => ?_) (fun a => ?_)
  · rw [length_append,length_singleton,← h.total]
    rfl
  · refine (h.idle id).trans ⟨?_,?_⟩
    · rintro ⟨c,hc,rfl,hinac⟩
      exact ⟨c,mem_append_left _ hc,rfl,hinac⟩
    · rintro ⟨c,hc,rfl,hinac⟩
      rcases mem_append.mp hc with hc | hc
      · exact ⟨c,hc,rfl,hinac⟩
      · rw [mem_singleton.mp hc,hact] at hinac
        cases hinac
  · rcases mem_append.mp hc with hc | hc
    · exact h.served c hc hidle hnot
    · rw [mem_singleton.mp hc,hact] at hidle
      cases hidle
  · rw [countP_append,countP_singleton,uses_of_active hact,hadd]
    by_cases ha : a = b.address
    · simp [ha]
    · simp [ha,Ne.symm ha]

theorem Kept.weaken {exempt' : ConnectionInfo → Prop} (h : Kept exact exempt own s)
    (hexem : ∀ c ∈ own, exempt c → exempt' c) : Kept exact exempt' own s := by
  obtain ⟨htotal,hlimit,hnodup,hidle,hadd,hser,hcoun⟩ := h
  exact ⟨htotal,hlimit,hnodup,hidle,hadd,
    fun c hc hinac hnot => hser c hc hinac (fun hc' => hnot (hexem c hc hc')),hcoun⟩

theorem Kept.change (h : Kept exact exempt own s) (a : Bytes × Nat) {f : BackendServer → BackendServer}
    (hadd : ∀ b, (f b).address = b.address)
    (hheal : ∀ b ∈ s.backends, b.address = a → b.healthy = true → (f b).healthy = true)
    (hact : ∀ b, (f b).activeConnections = b.activeConnections) :
    Kept exact exempt own { s with backends := modifyFirst address a f s.backends } := by
  refine h.keep (fun b => if b.address = a then f b else b) (modifyFirst_eq h.addresses a f) rfl rfl le_rfl
    (fun b => ?_) (fun b hmem hb => ?_) (fun b => ?_)
  · split
    · exact hadd b
    · rfl
  · split
    · rename_i ha
      exact hheal b hmem ha hb
    · exact hb
  · split
    · exact hact b
    · rfl

theorem Kept.demote (h : Kept exact (fun _ => False) own s) (a : Bytes × Nat) {f : BackendServer → BackendServer}
    (hadd : ∀ b, (f b).address = b.address) (hact : ∀ b, (f b).activeConnections = b.activeConnections)
    (hexem : ∀ c ∈ own, c.isActive = false → c.address = a → exempt c) :
    Kept exact exempt own { s with backends := modifyFirst address a f s.backends } := by
  have hbac := modifyFirst_eq h.addresses a f
  refine ⟨h.total,h.limit,h.nodup,h.idle,?_,fun c hc hinac hnot => ?_,fun hexact b hb => ?_⟩
  · rw [hbac,map_key_modify hadd]
    exact h.addresses
  · obtain ⟨b,hb,hba,hheal⟩ := h.served c hc hinac not_false
    refine ⟨b,?_,hba,hheal⟩
    rw [hbac]
    exact mem_modify.mpr (.inl ⟨hb,fun ha => hnot (hexem c hc hinac (hba.symm.trans ha))⟩)
  · rw [hbac] at hb
    rcases mem_modify.mp hb with ⟨hb,-⟩ | ⟨b',hb',-,rfl⟩
    · exact h.counted hexact b hb
    · rw [hact,hadd]
      exact h.counted hexact b' hb'

theorem Kept.unregister (h : Kept exact (fun _ => False) own s) (host : Bytes) (port : Nat)
    (hexem : ∀ c ∈ own, c.isActive = false → c.address = (host,port) → exempt c) :
    Kept exact exempt own (unregister host port s) := by
  refine ⟨h.total,h.limit,h.nodup,h.idle,nodup_erase h.addresses _,fun c hc hinac hnot => ?_,
    fun hexact b hb => h.counted hexact b (mem_erase.mp hb).1⟩
  obtain ⟨b,hb,hba,hheal⟩ := h.served c hc hinac not_false
  refine ⟨b,mem_erase.mpr ⟨hb,fun ha => hnot (hexem c hc hinac (hba.symm.trans ha))⟩,hba,hheal⟩

theorem Kept.register (h : Kept exact exempt own s) (host : Bytes) (port : Nat) (weight : Int)
    (hunus : exact → (∀ b ∈ s.backends, b.address ≠ (host,port)) → own.countP (ConnectionInfo.uses (host,port)) = 0) :
    Kept exact exempt own (Impl.register host port weight s) := by
  unfold Impl.register
  split
  · exact h.change (host,port) (fun _ => rfl) (fun _ _ _ _ => rfl) (fun _ => rfl)
  · rename_i hfind
    have hnone := find_none.mp hfind
    refine ⟨h.total,h.limit,h.nodup,h.idle,?_,fun c hc hinac hnot => ?_,fun hexact b hb => ?_⟩
    · rw [map_append,map_singleton]
      refine h.addresses.append (nodup_singleton _) (fun a ha ha' => ?_)
      obtain ⟨b,hb,rfl⟩ := mem_map.mp ha
      exact hnone b hb (mem_singleton.mp ha')
    · obtain ⟨b,hb,hba,hheal⟩ := h.served c hc hinac hnot
      exact ⟨b,mem_append_left _ hb,hba,hheal⟩
    · rcases mem_append.mp hb with hb | hb
      · exact h.counted hexact b hb
      · rw [mem_singleton.mp hb]
        exact (hunus hexact hnone).symm

/-! ### The manager -/

variable {exempt' : ConnectionInfo → Prop} {m : Impl} {name : Bytes} {f : ServiceState → ServiceState}

def Impl.connectionsOf (m : Impl) (name : Bytes) : List ConnectionInfo := m.connections.filter (fun c => c.service = name)

theorem mem_connectionsOf : c ∈ m.connectionsOf name ↔ c ∈ m.connections ∧ c.service = name := by simp [connectionsOf]

structure Accounted (exact : Prop) (exempt : ConnectionInfo → Prop) (m : Impl) : Prop where
  ids : (m.connections.map ConnectionInfo.id).Nodup
  fresh : ∀ c ∈ m.connections, 0 < c.id ∧ c.id < m.nextConnectionId
  positive : 0 < m.nextConnectionId
  names : (m.services.map ServiceState.name).Nodup
  known : ∀ c ∈ m.connections, c.service ∈ m.services.map ServiceState.name
  kept : ∀ s ∈ m.services, Kept exact exempt (m.connectionsOf s.name) s

section

variable (h : Accounted exact exempt m)
include h

theorem Accounted.ids_connectionsOf (name : Bytes) : ((m.connectionsOf name).map ConnectionInfo.id).Nodup :=
  (filter_sublist.map _).nodup h.ids

theorem Accounted.of_services {services : List ServiceState}
    (hnames : services.map ServiceState.name = m.services.map ServiceState.name)
    (hkept : ∀ s ∈ services, Kept exact exempt' (m.connectionsOf s.name) s) : Accounted exact exempt' { m with services } := by
  refine ⟨h.ids,h.fresh,h.positive,?_,?_,hkept⟩
  · rw [hnames]
    exact h.names
  · rw [hnames]
    exact h.known

section

variable (hname : ∀ s, (f s).name = s.name)
include hname

theorem Accounted.modify
    (hkept : ∀ s ∈ m.services, s.name = name → Kept exact exempt (m.connectionsOf s.name) s → Kept exact exempt' (m.connectionsOf s.name) (f s))
    (hexem : ∀ c ∈ m.connections, c.service ≠ name → exempt c → exempt' c) :
    Accounted exact exempt' (m.modifyService name f) := by
  refine h.of_services (map_key_modify hname name _) (fun s hs => ?_)
  rcases mem_modify.mp hs with ⟨hs,hne⟩ | ⟨s',hs',hk,rfl⟩
  · refine (h.kept s hs).weaken (fun c hc => hexem c (mem_connectionsOf.mp hc).1 ?_)
    rw [(mem_connectionsOf.mp hc).2]
    exact hne
  · rw [hname]
    exact hkept s' hs' hk (h.kept s' hs')

theorem Accounted.keep
    (hkept : ∀ own s, Kept exact exempt own s → Kept exact exempt own (f s)) :
    Accounted exact exempt (m.modifyService name f) :=
  h.modify hname (fun _ _ _ hs => hkept _ _ hs) (fun _ _ _ hc => hc)

theorem Accounted.keep_all
    (hkept : ∀ s ∈ m.services, Kept exact exempt (m.connectionsOf s.name) s → Kept exact exempt (m.connectionsOf s.name) (f s)) :
    Accounted exact exempt { m with services := m.services.map f } := by
  refine h.of_services ?_ (fun s hs => ?_)
  · rw [map_map]
    exact map_congr_left (fun s _ => hname s)
  · obtain ⟨s',hs',rfl⟩ := mem_map.mp hs
    rw [hname]
    exact hkept s' hs' (h.kept s' hs')

end

theorem Accounted.remove (hc : c ∈ m.connections) :
    Accounted exact exempt (m.removeConnectionLocked c) := by
  have hnames : (Keyed.modify ServiceState.name c.service (forget c) m.services).map ServiceState.name =
      m.services.map ServiceState.name :=
    Keyed.map_key_modify (fun s => (rfl : (forget c s).name = s.name)) _ _
  have hown (name : Bytes) : (m.removeConnectionLocked c).connectionsOf name = Keyed.erase ConnectionInfo.id c.id (m.connectionsOf name) :=
    filter_comm _ _ _
  refine ⟨Keyed.nodup_erase h.ids _,fun c' hc' => h.fresh c' (Keyed.mem_erase.mp hc').1,h.positive,?_,
    fun c' hc' => ?_,fun s hs => ?_⟩
  · exact hnames ▸ h.names
  · exact hnames ▸ h.known c' (Keyed.mem_erase.mp hc').1
  · rw [hown]
    rcases Keyed.mem_modify.mp hs with ⟨hs,hne⟩ | ⟨s',hs',hk,rfl⟩
    · rw [Keyed.erase_of_not_mem]
      · exact h.kept s hs
      · intro c' hc' hid
        obtain ⟨hc',hser⟩ := mem_connectionsOf.mp hc'
        rw [inj_on_of_nodup_map h.ids hc' hc hid] at hser
        exact hne hser.symm
    · exact (h.kept s' hs').forget (h.ids_connectionsOf _) (mem_connectionsOf.mpr ⟨hc,hk.symm⟩)

theorem Accounted.store (hc : c ∈ m.connections) {c' : ConnectionInfo} (hid : c'.id = c.id)
    (hserv : c'.service = c.service) (hname : ∀ s, (f s).name = s.name)
    (hkept : ∀ s ∈ m.services, s.name = c.service → Kept exact exempt (m.connectionsOf s.name) s →
      Kept exact exempt (Keyed.modify ConnectionInfo.id c.id (fun _ => c') (m.connectionsOf s.name)) (f s)) :
    Accounted exact exempt ((m.store c').modifyService c.service f) := by
  have hnames : (Keyed.modify ServiceState.name c.service f m.services).map ServiceState.name =
      m.services.map ServiceState.name := Keyed.map_key_modify hname _ _
  have hids : ((Keyed.modify ConnectionInfo.id c.id (fun _ => c') m.connections).map ConnectionInfo.id) =
      m.connections.map ConnectionInfo.id := by
    rw [Keyed.modify,map_map]
    refine map_congr_left (fun a _ => ?_)
    simp only [Function.comp_apply]
    split
    · rename_i ha
      rw [hid,ha]
    · rfl
  have hown (name : Bytes) : ((m.store c').modifyService c.service f).connectionsOf name =
      Keyed.modify ConnectionInfo.id c.id (fun _ => c') (m.connectionsOf name) := by
    show (Keyed.modify ConnectionInfo.id c'.id (fun _ => c') m.connections).filter _ = _
    rw [hid,Keyed.modify,filter_map,connectionsOf,Keyed.modify]
    refine congrArg (map _) (filter_congr (fun a ha => ?_))
    simp only [Function.comp_apply]
    split
    · rename_i hida
      rw [hserv,inj_on_of_nodup_map h.ids ha hc hida]
    · rfl
  have hmem {a : ConnectionInfo} (ha : a ∈ Keyed.modify ConnectionInfo.id c.id (fun _ => c') m.connections) :
      ∃ a' ∈ m.connections, a'.id = a.id ∧ a'.service = a.service := by
    rcases Keyed.mem_modify.mp ha with ⟨ha,-⟩ | ⟨a',-,-,rfl⟩
    · exact ⟨a,ha,rfl,rfl⟩
    · exact ⟨c,hc,hid.symm,hserv.symm⟩
  have hcon : ((m.store c').modifyService c.service f).connections =
      Keyed.modify ConnectionInfo.id c.id (fun _ => c') m.connections := by
    rw [← hid]
    rfl
  refine ⟨?_,fun a ha => ?_,h.positive,hnames ▸ h.names,fun a ha => ?_,fun s hs => ?_⟩
  · rw [hcon,hids]
    exact h.ids
  · rw [hcon] at ha
    obtain ⟨a',ha',hida,-⟩ := hmem ha
    rw [← hida]
    exact h.fresh a' ha'
  · rw [hcon] at ha
    obtain ⟨a',ha',-,hser⟩ := hmem ha
    rw [← hser]
    exact hnames ▸ h.known a' ha'
  · rw [hown]
    rcases Keyed.mem_modify.mp hs with ⟨hs,hne⟩ | ⟨s',hs',hk,rfl⟩
    · rw [Keyed.modify_of_not_mem]
      · exact h.kept s hs
      · intro a ha hida
        obtain ⟨ha,hser⟩ := mem_connectionsOf.mp ha
        rw [inj_on_of_nodup_map h.ids ha hc hida] at hser
        exact hne hser.symm
    · rw [hname]
      exact hkept s' hs' hk (h.kept s' hs')

theorem Accounted.create (hs : s ∈ m.services) (hroom : s.totalConnections < s.maxPoolSize) (hb : s.backends[i]? = some b) (hnext : m.nextConnectionId+1 < 2^64) (now : Int) :
    Accounted exact exempt (m.createConnectionLocked s.name i b now).1 := by
  have hnew : ∀ c ∈ m.connections, c.id ≠ (newConnection m.nextConnectionId s.name b now).id :=
    fun c hc => (h.fresh c hc).2.ne
  have hput : (m.createConnectionLocked s.name i b now).1.connections =
      m.connections ++ [newConnection m.nextConnectionId s.name b now] := by
    show put ConnectionInfo.id _ m.connections = _
    rw [put,erase_of_not_mem hnew]
  have hids : ((m.createConnectionLocked s.name i b now).1.connections.map ConnectionInfo.id).Nodup :=
    nodup_put h.ids _
  have hnames : (m.createConnectionLocked s.name i b now).1.services.map ServiceState.name =
      m.services.map ServiceState.name := by
    refine map_key_modify (fun s => ?_) _ _
    rfl
  have hnum : (m.createConnectionLocked s.name i b now).1.nextConnectionId = m.nextConnectionId+1 :=
    Nat.mod_eq_of_lt hnext
  refine ⟨hids,fun c hc => ?_,?_,hnames ▸ h.names,fun c hc => ?_,fun s' hs' => ?_⟩
  · rw [hput] at hc
    rw [hnum]
    rcases mem_append.mp hc with hc | hc
    · have hfresh := h.fresh c hc
      omega
    · rw [mem_singleton.mp hc]
      exact ⟨h.positive,Nat.lt_succ_self _⟩
  · rw [hnum]
    exact Nat.succ_pos _
  · rw [hput] at hc
    rw [hnames]
    rcases mem_append.mp hc with hc | hc
    · exact h.known c hc
    · rw [mem_singleton.mp hc]
      exact mem_map_of_mem hs
  · rw [connectionsOf,hput,filter_append]
    rcases mem_modify.mp hs' with ⟨hs',hne⟩ | ⟨s'',hs'',hk,rfl⟩
    · have hother : [newConnection m.nextConnectionId s.name b now].filter (fun c => c.service = s'.name) = [] := by
        simp [newConnection,Ne.symm hne]
      rw [hother,append_nil]
      exact h.kept s' hs'
    · obtain rfl := inj_on_of_nodup_map h.names hs'' hs hk
      have hown : [newConnection m.nextConnectionId s''.name b now].filter
          (fun c => c.service = (enlist i s'').name) = [newConnection m.nextConnectionId s''.name b now] := by
        simp [newConnection,enlist]
      rw [hown]
      exact (h.kept s'' hs).create rfl hroom hb rfl

theorem Accounted.openService (name : Bytes) : Accounted exact exempt (m.openService name) := by
  unfold Impl.openService
  split
  · exact h
  · rename_i hnone
    have hnone := find_none.mp hnone
    have hown : m.connectionsOf name = [] := by
      refine filter_eq_nil_iff.mpr (fun c hc hser => ?_)
      obtain ⟨s,hs,hname⟩ := mem_map.mp (h.known c hc)
      exact hnone s hs (hname.trans (by simpa using hser))
    refine ⟨h.ids,h.fresh,h.positive,?_,fun c hc => ?_,fun s hs => ?_⟩
    · rw [map_append,map_singleton]
      refine h.names.append (nodup_singleton _) (fun n hn hn' => ?_)
      obtain ⟨s,hs,rfl⟩ := mem_map.mp hn
      exact hnone s hs (mem_singleton.mp hn')
    · rw [map_append]
      exact mem_append_left _ (h.known c hc)
    · rcases mem_append.mp hs with hs | hs
      · exact h.kept s hs
      · rw [mem_singleton.mp hs]
        show Kept exact exempt (m.connectionsOf name) _
        rw [hown]
        exact ⟨rfl,le_rfl,nodup_nil,by simp,nodup_nil,by simp,by simp⟩

theorem Accounted.ensureServiceState (config : Configuration) (name : Bytes) :
    Accounted exact exempt (m.ensureServiceStateLocked config name) := by
  refine (h.openService name).keep (fun s => ?_) (fun own s hs => ?_)
  · split <;> rfl
  · split
    · rename_i hmax
      exact hs.keep id (map_id _).symm rfl rfl (hmax ▸ Nat.zero_le _) (fun _ => rfl) (fun _ _ hb => hb)
        (fun _ => rfl)
    · exact hs

theorem Accounted.removeAll (gone : ConnectionInfo → Bool) {l : List ConnectionInfo}
    (hl : ∀ c ∈ l, c ∈ m.connections) (hids : (l.map ConnectionInfo.id).Nodup) :
    let m' := l.foldl (fun m c => if gone c then m.removeConnectionLocked c else m) m
    Accounted exact exempt m' ∧ ∀ c ∈ m'.connections, c ∈ m.connections ∧ (c ∈ l → gone c = false) := by
  induction l generalizing m with
  | nil => exact ⟨h,fun c hc => ⟨hc,fun hmem => by cases hmem⟩⟩
  | cons c l ih =>
    rw [map_cons,nodup_cons] at hids
    have hc := hl c mem_cons_self
    cases hgone : gone c with
    | true =>
      have hl' : ∀ c' ∈ l, c' ∈ (m.removeConnectionLocked c).connections := by
        intro c' hc'
        refine mem_erase.mpr ⟨hl c' (mem_cons_of_mem c hc'),fun hid => hids.1 ?_⟩
        rw [← hid]
        exact mem_map_of_mem hc'
      obtain ⟨hacc,hcon⟩ := ih (h.remove hc) hl' hids.2
      simp only [foldl_cons,hgone,if_true]
      refine ⟨hacc,fun c' hc' => ?_⟩
      obtain ⟨hmem,hnot⟩ := hcon c' hc'
      obtain ⟨hmem,hne⟩ := mem_erase.mp hmem
      refine ⟨hmem,fun hcons => ?_⟩
      rcases mem_cons.mp hcons with rfl | hcons
      · exact absurd rfl hne
      · exact hnot hcons
    | false =>
      obtain ⟨hacc,hcon⟩ := ih h (fun c' hc' => hl c' (mem_cons_of_mem c hc')) hids.2
      simp only [foldl_cons,hgone,Bool.false_eq_true,if_false]
      refine ⟨hacc,fun c' hc' => ?_⟩
      obtain ⟨hmem,hnot⟩ := hcon c' hc'
      refine ⟨hmem,fun hcons => ?_⟩
      rcases mem_cons.mp hcons with rfl | hcons
      · exact hgone
      · exact hnot hcons

theorem Accounted.removeWhere (gone : ConnectionInfo → Bool) :
    Accounted exact exempt (m.removeWhere gone) ∧ ∀ c ∈ (m.removeWhere gone).connections, gone c = false := by
  obtain ⟨hacc,hcon⟩ := h.removeAll gone (fun c hc => hc) h.ids
  exact ⟨hacc,fun c hc => (hcon c hc).2 (hcon c hc).1⟩

end

theorem Accounted.removeExempt {gone : ConnectionInfo → Bool} (h : Accounted exact (fun c => gone c = true) m) :
    Accounted exact (fun _ => False) (m.removeWhere gone) := by
  obtain ⟨hacc,hcon⟩ := h.removeWhere gone
  obtain ⟨hids,hfresh,hpo,hnames,hknown,hkept⟩ := hacc
  refine ⟨hids,hfresh,hpo,hnames,hknown,fun s hs => (hkept s hs).weaken (fun c hc hgone => ?_)⟩
  rw [hcon c (mem_connectionsOf.mp hc).1] at hgone
  cases hgone

theorem Accounted.prune (h : Accounted exact exempt m) (hs : s ∈ m.services)
    (hidle : s'.idleConnections = s.idleConnections) : m.pruneIdleConnectionsLocked s' = s' := by
  rw [pruneIdleConnectionsLocked,filter_eq_self.mpr]
  intro id hid
  rw [hidle] at hid
  obtain ⟨c,hc,hcid,hinac⟩ := ((h.kept s hs).idle id).mp hid
  have hfind : m.connection id = some c := find_of_mem h.ids (mem_connectionsOf.mp hc).1 hcid
  simp [hfind,hinac]

end FastNet.ConnectionManager
