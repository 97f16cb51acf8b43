import FastNet.TcpConnectionPool

/-!
`TcpConnectionPool`: the counters, and the limit `maxConnections`.
-/

namespace FastNet.TcpConnectionPool

open Multiset TcpConnectionPool Move

variable {p p' : Pool} {env : Env} {m : Move} {others pending : Multiset Move} {next : List Move}
  {outside : Multiset Nat} {c : Nat} {owner : Owner} {user : Nat}

/-! ### The connections of the pool and their counter -/

/-- Every connection of the pool has its place, in the idle queue or outside of it, and
`currentConnections_` counts them. -/
structure Sound (p : Pool) (outside : Multiset Nat) : Prop where
  places : (p.connections : Multiset Nat) = p.idleConnections + outside
  nodup : p.connections.Nodup
  fresh : ∀ c ∈ p.connections, c < p.nextConnection
  counted : p.currentConnections = p.connections.length % 2^32

theorem Sound.of_eq (h : Sound p outside) (hcon : p'.connections = p.connections)
    (hidle : p'.idleConnections = p.idleConnections) (hnext : p'.nextConnection = p.nextConnection)
    (hcur : p'.currentConnections = p.currentConnections) : Sound p' outside := by
  obtain ⟨hplac,hnodup,hfresh,hcoun⟩ := h
  refine ⟨?_,?_,?_,?_⟩
  · rw [hcon,hidle]
    exact hplac
  · rw [hcon]
    exact hnodup
  · rw [hcon,hnext]
    exact hfresh
  · rw [hcon,hcur]
    exact hcoun

theorem filter_ne_places {l : List Nat} {rest : Multiset Nat} (hl : (l : Multiset Nat) = c ::ₘ rest) (hnodup : l.Nodup) :
    ((l.filter (fun c' => c' ≠ c) : List Nat) : Multiset Nat) = rest := by
  have hmul : ((l.filter (fun c' => c' ≠ c) : List Nat) : Multiset Nat) =
      (l : Multiset Nat).filter (fun c' => c' ≠ c) := by
    rw [filter_coe]
  have hnodup : (c ::ₘ rest).Nodup := by
    rw [← hl]
    exact coe_nodup.mpr hnodup
  rw [hmul,hl,filter_cons_of_neg rest (by simp),filter_eq_self]
  rintro c' hc' rfl
  exact (nodup_cons.mp hnodup).1 hc'

theorem Sound.removeConnection (h : Sound p (c ::ₘ outside)) : Sound (p.removeConnection c) outside := by
  obtain ⟨hplac,hnodup,hfresh,hcoun⟩ := h
  rw [add_cons] at hplac
  have hrem := filter_ne_places hplac hnodup
  refine ⟨hrem,hnodup.filter _,fun c' hc' => hfresh c' (List.mem_of_mem_filter hc'),?_⟩
  have hleng := congrArg card hplac
  have hlen := congrArg card hrem
  rw [card_cons,coe_card] at hleng
  rw [coe_card] at hlen
  show decrement p.currentConnections = (p.connections.filter (fun c' => c' ≠ c)).length % 2^32
  rw [decrement]
  omega

theorem sound_tryAcquireIdle (env : Env) {idle : List Nat} (p : Pool)
    (h : Sound { p with idleConnections := idle } outside) :
    Sound (Pool.tryAcquireIdle env idle p).1 ((Pool.tryAcquireIdle env idle p).2.toList + outside) := by
  induction idle generalizing p with
  | nil =>
    rw [Pool.tryAcquireIdle]
    simpa using h
  | cons c rest ih =>
    have hpop : Sound { p with idleConnections := rest } (c ::ₘ outside) := by
      refine ⟨?_,h.nodup,h.fresh,h.counted⟩
      have hplac := h.places
      rw [← cons_coe,cons_add] at hplac
      rw [add_cons]
      exact hplac
    rw [Pool.tryAcquireIdle]
    split
    · exact hpop
    · exact ih _ (hpop.removeConnection.of_eq rfl rfl rfl rfl)

theorem sound_removeAll (gone : List Nat) (h : Sound p (gone + outside)) :
    Sound (gone.foldl Pool.removeConnection p) outside := by
  induction gone generalizing p with
  | nil => simpa using h
  | cons c rest ih =>
    refine ih (Sound.removeConnection (c := c) ?_)
    rw [← cons_add,cons_coe]
    exact h

theorem Sound.pushIdle (h : Sound p (c ::ₘ outside)) : Sound (p.pushIdle c) outside := by
  refine ⟨?_,h.nodup,h.fresh,h.counted⟩
  rw [idle_pushIdle,cons_add,← add_cons]
  exact h.places

theorem Sound.create (h : Sound p outside) (states : Nat → PooledConnectionState) :
    Sound { p with
      states, connections := p.connections ++ [p.nextConnection]
      currentConnections := increment p.currentConnections
      nextConnection := p.nextConnection+1 } (p.nextConnection ::ₘ outside) := by
  obtain ⟨hplac,hnodup,hfresh,hcoun⟩ := h
  refine ⟨?_,?_,fun c hc => ?_,?_⟩
  · show ((p.connections ++ [p.nextConnection] : List Nat) : Multiset Nat) =
      p.idleConnections + p.nextConnection ::ₘ outside
    rw [← coe_add,hplac,coe_singleton,add_cons,add_comm,singleton_add]
  · refine List.Nodup.append hnodup (List.nodup_singleton _) (fun c hc hc' => ?_)
    have hlt := hfresh c hc
    rw [List.mem_singleton.mp hc'] at hlt
    omega
  · rcases List.mem_append.mp hc with hc | hc
    · have hlt := hfresh c hc
      show c < p.nextConnection+1
      omega
    · rw [List.mem_singleton.mp hc]
      exact Nat.lt_succ_self _
  · show increment p.currentConnections = (p.connections ++ [p.nextConnection]).length % 2^32
    rw [increment,hcoun,List.length_append,List.length_singleton]
    omega

def Move.carries : Move → Multiset Nat
  | .created _ c | .addIdle c | .releaseLocked c _ | .closeConnection c | .removeConnection c => {c}
  | _ => 0

def transit (pending : Multiset Move) : Multiset Nat := (pending.map carries).sum

@[simp] theorem transit_cons (m : Move) (others : Multiset Move) :
    transit (m ::ₘ others) = m.carries + transit others := by
  rw [transit,map_cons,sum_cons,transit]

@[simp] theorem transit_add (next : List Move) (others : Multiset Move) :
    transit (next + others) = (next.map carries).sum + transit others := by
  rw [transit,map_add,sum_add,transit]
  rfl

/-- Every connection of the pool is in one place: in the idle queue, with a user, or with a
thread that takes it from one to the other. -/
def Exclusive (p : Pool) (pending : Multiset Move) : Prop := Sound p (p.out + transit pending)

def OwnRelease (p : Pool) : Move → Prop
  | .release user c => (user,c) ∈ p.held
  | _ => True

section

variable (h : Exclusive p (m ::ₘ others))
include h

theorem Exclusive.keep (hcon : p'.connections = p.connections)
    (hidle : p'.idleConnections = p.idleConnections) (hnext : p'.nextConnection = p.nextConnection)
    (hcur : p'.currentConnections = p.currentConnections) (hheld : p'.held = p.held)
    (hcar : (next.map carries).sum = m.carries) : Exclusive p' (next + others) := by
  have hout : p'.out + transit (next + others) = p.out + transit (m ::ₘ others) := by
    rw [transit_add,transit_cons,hcar,out_of_held hheld]
  rw [Exclusive,hout]
  exact Sound.of_eq h hcon hidle hnext hcur

theorem Exclusive.acquired (hm : m.carries = 0) (user : Nat)
    (hc : p.tryAcquireIdleLocked env = (p',some c)) : Exclusive (p'.hand user c) (([] : List Move) + others) := by
  have hsound := sound_tryAcquireIdle env p h
  have hout := out_of_held (tryAcquireIdle_same env p.idleConnections p).1
  unfold Pool.tryAcquireIdleLocked at hc
  rw [hc] at hsound hout
  rw [transit_cons,hm,zero_add] at hsound
  have hplac : (p'.hand user c).out + transit (([] : List Move) + others) = c ::ₘ (p.out + transit others) := by
    rw [out_hand,hout,cons_add]
    simp
  rw [Exclusive,hplac]
  exact hsound.of_eq rfl rfl rfl rfl

theorem Exclusive.notAcquired (hm : m.carries = 0)
    (hc : p.tryAcquireIdleLocked env = (p',none)) {p'' : Pool} (hcon : p''.connections = p'.connections)
    (hidle : p''.idleConnections = p'.idleConnections) (hnext : p''.nextConnection = p'.nextConnection)
    (hcur : p''.currentConnections = p'.currentConnections) (hheld : p''.held = p'.held)
    (hcar : (next.map carries).sum = 0) : Exclusive p'' (next + others) := by
  have hsound := sound_tryAcquireIdle env p h
  have hout := out_of_held (tryAcquireIdle_same env p.idleConnections p).1
  unfold Pool.tryAcquireIdleLocked at hc
  rw [hc] at hsound hout
  rw [transit_cons,hm] at hsound
  rw [Exclusive,transit_add,hcar,out_of_held hheld,hout]
  exact Sound.of_eq (by simpa using hsound) hcon hidle hnext hcur

theorem Exclusive.carried (hm : m.carries = {c}) :
    Sound p (c ::ₘ (p.out + transit others)) := by
  have hplac : p.out + transit (m ::ₘ others) = c ::ₘ (p.out + transit others) := by
    rw [transit_cons,hm,singleton_add,add_cons]
  rw [← hplac]
  exact h

theorem Exclusive.pushed (hm : m.carries = {c})
    (hcar : (next.map carries).sum = 0) : Exclusive (p.pushIdle c) (next + others) := by
  rw [Exclusive,transit_add,hcar,zero_add]
  exact (h.carried hm).pushIdle

theorem Exclusive.handed (hm : m.carries = {c}) (user : Nat)
    (hcon : p'.connections = p.connections) (hidle : p'.idleConnections = p.idleConnections)
    (hnext : p'.nextConnection = p.nextConnection) (hcur : p'.currentConnections = p.currentConnections)
    (hheld : p'.held = p.held) : Exclusive (p'.hand user c) (([] : List Move) + others) := by
  have hplac : (p'.hand user c).out + transit (([] : List Move) + others) = c ::ₘ (p.out + transit others) := by
    rw [out_hand,out_of_held hheld,cons_add]
    simp
  rw [Exclusive,hplac]
  exact (h.carried hm).of_eq hcon hidle hnext hcur

end

theorem Exclusive.create (h : Exclusive p (.createConnection owner ::ₘ others)) (states : Nat → PooledConnectionState) :
    Exclusive { p with
      states, connections := p.connections ++ [p.nextConnection]
      currentConnections := increment p.currentConnections
      nextConnection := p.nextConnection+1 } (([.created owner p.nextConnection] : List Move) + others) := by
  have hplac : p.out + transit (([.created owner p.nextConnection] : List Move) + others) =
      p.nextConnection ::ₘ (p.out + transit (.createConnection owner ::ₘ others)) := by
    rw [transit_add,transit_cons,← add_cons,← singleton_add]
    simp [carries]
  have hcr := Sound.create h states
  rw [← hplac] at hcr
  exact hcr

theorem Exclusive.released (h : Exclusive p (.release user c ::ₘ others)) (hheld : (user,c) ∈ p.held)
    (reusable : Bool) :
    Exclusive { p with held := p.held.erase (user,c) } (([.releaseLocked c reusable] : List Move) + others) := by
  have hplac : ({ p with held := p.held.erase (user,c) } : Pool).out +
      transit (([.releaseLocked c reusable] : List Move) + others) = p.out + transit (.release user c ::ₘ others) := by
    rw [transit_add,transit_cons,out_release hheld,cons_add,← add_cons,← singleton_add]
    simp [carries]
  rw [Exclusive,hplac]
  exact Sound.of_eq h rfl rfl rfl rfl

theorem Exclusive.cleaned (h : Exclusive p (.cleanupIdleConnections ::ₘ others)) (env : Env) :
    Exclusive ((p.sortIdle env p.idleConnections [] []).2.foldl Pool.removeConnection
      { p with idleConnections := (p.sortIdle env p.idleConnections [] []).1 })
      (([.closeStale (p.sortIdle env p.idleConnections [] []).2] : List Move) + others) := by
  have hsor := sortIdle_places p env p.idleConnections [] []
  have hsound : Sound { p with idleConnections := (p.sortIdle env p.idleConnections [] []).1 }
      ((p.sortIdle env p.idleConnections [] []).2 + (p.out + transit others)) := by
    refine ⟨?_,h.nodup,h.fresh,h.counted⟩
    have hplac := h.places
    show (p.connections : Multiset Nat) = ((p.sortIdle env p.idleConnections [] []).1 : Multiset Nat) + _
    rw [hplac,← add_assoc _ _ (p.out + transit others),hsor]
    simp [carries]
  have hout : ((p.sortIdle env p.idleConnections [] []).2.foldl Pool.removeConnection
      { p with idleConnections := (p.sortIdle env p.idleConnections [] []).1 }).out = p.out :=
    out_of_held (removeAll_same _ _).1
  rw [Exclusive,transit_add,hout]
  simpa [carries] using sound_removeAll _ hsound

theorem Exclusive.removed (h : Exclusive p (.removeConnection c ::ₘ others)) :
    Exclusive (p.removeConnection c) (([] : List Move) + others) := by
  have hrem := (h.carried rfl).removeConnection
  have hout : (p.removeConnection c).out = p.out := rfl
  rw [Exclusive,transit_add,hout]
  simpa using hrem

theorem Exclusive.perform (h : Exclusive p (m ::ₘ others)) (hok : OwnRelease p m) :
    Exclusive (perform p env m).1 ((perform p env m).2 + others) := by
  cases m with
  | initializePool =>
    simp only [perform]
    split <;> exact h.keep rfl rfl rfl rfl rfl (by simp [carries])
  | initializeLoop left =>
    cases left <;> exact h.keep rfl rfl rfl rfl rfl (by simp [carries,perform])
  | acquire user =>
    simp only [perform]
    split
    · rename_i hfound
      exact h.acquired rfl user hfound
    · rename_i hfound
      split <;> exact h.notAcquired rfl hfound rfl rfl rfl rfl rfl (by simp [carries])
  | acquireSync user =>
    simp only [perform]
    split
    · rename_i hfound
      exact h.acquired rfl user hfound
    · rename_i hfound
      split
      · exact h.notAcquired rfl hfound rfl rfl rfl rfl rfl (by simp [carries])
      · refine h.notAcquired rfl hfound rfl rfl rfl rfl rfl ?_
        split <;> simp [carries]
  | createConnection owner =>
    simp only [perform]
    split
    · exact h.create _
    · exact h.keep rfl rfl rfl rfl rfl (by simp [carries])
  | created owner c =>
    cases owner with
    | initializer left => exact h.pushed rfl rfl
    | acquirer user => exact h.handed rfl user rfl rfl rfl rfl rfl
    | maintenance => exact h.keep rfl rfl rfl rfl rfl (by simp [carries,perform])
  | notCreated owner =>
    cases owner with
    | initializer left => exact h.keep rfl rfl rfl rfl rfl (by simp [carries,perform])
    | acquirer user =>
      refine h.keep rfl rfl rfl rfl rfl ?_
      simp only [perform]
      split <;> simp [carries]
    | maintenance => exact h.keep rfl rfl rfl rfl rfl (by simp [carries,perform])
  | addIdle c => exact h.pushed rfl rfl
  | cleanupIdleConnections => exact h.cleaned env
  | closeStale stale =>
    obtain ⟨hcon,hidle,hnext,hheld,hcur,-⟩ := closeAll_same stale p
    exact h.keep hcon hidle hnext hcur hheld (by simp [carries,perform])
  | loadCreating current =>
    refine h.keep rfl rfl rfl rfl rfl ?_
    simp only [perform]
    split <;> simp [carries]
  | release user c => exact h.released hok _
  | releaseLocked c reusable =>
    simp only [perform]
    split
    · split
      · exact h.handed rfl _ rfl rfl rfl rfl rfl
      · exact h.pushed rfl rfl
    · exact h.keep rfl rfl rfl rfl rfl (by simp [carries])
  | removeConnection c => exact h.removed
  | _ => exact h.keep rfl rfl rfl rfl rfl (by simp [carries,perform])

/-! ### The limit -/

theorem length_tryAcquireIdle (env : Env) (idle : List Nat) (p : Pool) :
    (Pool.tryAcquireIdle env idle p).1.connections.length ≤ p.connections.length := by
  induction idle generalizing p with
  | nil => exact le_rfl
  | cons c rest ih =>
    rw [Pool.tryAcquireIdle]
    split
    · exact le_rfl
    · exact (ih _).trans (List.length_filter_le _ _)

theorem length_removeAll (gone : List Nat) (p : Pool) :
    (gone.foldl Pool.removeConnection p).connections.length ≤ p.connections.length := by
  induction gone generalizing p with
  | nil => exact le_rfl
  | cons c rest ih => exact (ih _).trans (List.length_filter_le _ _)

namespace Move

@[simp] def creates : Move → Nat
  | .createConnection _ => 1
  | _ => 0

/-- The thread has raised `creatingConnections_` and not lowered it. -/
@[simp] def reserves : Move → Nat
  | .createConnection (.initializer _) | .created (.initializer _) _ | .notCreated (.initializer _) => 0
  | .createConnection _ | .created _ _ | .notCreated _ => 1
  | _ => 0

/-- The connections that `initialize` goes on to create. -/
@[simp] def left : Move → Nat
  | .initializeLoop left | .createConnection (.initializer left) | .created (.initializer left) _ => left
  | _ => 0

/-- `initialize` is in its loop. -/
@[simp] def initializes : Move → Bool
  | .initializeLoop _ | .createConnection (.initializer _) | .created (.initializer _) _ => true
  | _ => false

/-- The moves of the thread that calls `initialize` and of the maintenance thread. -/
@[simp] def keeper : Move → Nat
  | .initializeLoop _ | .createConnection (.initializer _) | .created (.initializer _) _ | .notCreated (.initializer _) => 1
  | .createConnection .maintenance | .created .maintenance _ | .notCreated .maintenance => 1
  | .addIdle _ | .maintenanceLoop | .cleanupIdleConnections | .closeStale _ => 1
  | .ensureMinimumConnections | .loadCreating _ | .raiseCreating => 1
  | _ => 0

/-- `ensureMinimumConnections` has loaded one of the counters. -/
@[simp] def loads : Move → Bool
  | .loadCreating _ => true
  | _ => false

/-- `ensureMinimumConnections` has found that a connection is missing. -/
@[simp] def raises : Move → Bool
  | .raiseCreating => true
  | _ => false

end Move

variable {weight : Move → Nat}

def total (weight : Move → Nat) (pending : Multiset Move) : Nat := (pending.map weight).sum

@[simp] theorem total_cons (m : Move) (others : Multiset Move) :
    total weight (m ::ₘ others) = weight m+total weight others := by
  rw [total,map_cons,sum_cons,total]

@[simp] theorem total_add (next : List Move) (others : Multiset Move) :
    total weight (next + others) = (next.map weight).sum+total weight others := by
  rw [total,map_add,sum_add,total]
  rfl

theorem le_total (weight : Move → Nat) (hm : m ∈ pending) : weight m ≤ total weight pending :=
  le_sum_of_mem (mem_map_of_mem weight hm)

theorem left_of_initializes (hm : m.initializes = false) : m.left = 0 := by
  cases m with
  | initializeLoop left => cases hm
  | createConnection owner => cases owner <;> first | rfl | cases hm
  | created owner c => cases owner <;> first | rfl | cases hm
  | _ => rfl

theorem creates_of_initializes (hm : m.initializes = false) : m.creates ≤ m.reserves := by
  cases m with
  | createConnection owner => cases owner <;> first | exact le_rfl | cases hm
  | _ => exact Nat.zero_le _

theorem initializes_of_keeper (hm : m.keeper = 0) : m.initializes = false := by
  cases m with
  | initializeLoop left => cases hm
  | createConnection owner => cases owner <;> first | rfl | cases hm
  | created owner c => cases owner <;> first | rfl | cases hm
  | _ => rfl

theorem totals_of_initializes (h : ∀ m ∈ pending, m.initializes = false) :
    total left pending = 0 ∧ total creates pending ≤ total reserves pending := by
  refine ⟨?_,sum_map_le_sum_map _ _ (fun m hm => creates_of_initializes (h m hm))⟩
  rw [total,sum_eq_zero_iff]
  intro n hn
  obtain ⟨m,hm,rfl⟩ := mem_map.mp hn
  exact left_of_initializes (h m hm)

def Pool.extent (p : Pool) (pending : Multiset Move) : Nat := p.connections.length+total creates pending

/-- What the limit relies on: `initialize` finds room for its connections, no acquirer reserves
one while `initialize` creates its own or while the maintenance thread is going to reserve one,
no connect of an acquirer succeeds while the maintenance thread is between its two loads, and
users release what they hold. -/
def Careful (p : Pool) (pending : Multiset Move) (env : Env) : Move → Prop
  | .initializePool => p.initialized = true ∨ p.extent pending+p.minConnections ≤ p.maxConnections
  | .acquireSync _ =>
    (p.tryAcquireIdleLocked env).2.isSome ∨ p.maxConnections ≤ (p.tryAcquireIdleLocked env).1.totalInFlight ∨
      ∀ m ∈ pending, m.initializes = false ∧ m.raises = false
  | .createConnection (.acquirer _) => env.connects = false ∨ ∀ m ∈ pending, m.loads = false
  | .release user c => (user,c) ∈ p.held
  | _ => True

instance (p : Pool) (pending : Multiset Move) (env : Env) (m : Move) : Decidable (Careful p pending env m) := by
  unfold Careful
  split <;> infer_instance

structure Limited (p : Pool) (pending : Multiset Move) : Prop where
  exclusive : Exclusive p pending
  bounds : p.minConnections ≤ p.maxConnections ∧ p.maxConnections < 2^32
  creating : p.creatingConnections = total reserves pending
  keeper : total Move.keeper pending ≤ 1
  started : p.initialized = false → total Move.keeper pending = 0
  limit : p.extent pending+total left pending ≤ p.maxConnections
  loading : ∀ current, .loadCreating current ∈ pending → p.connections.length ≤ current
  raising : .raiseCreating ∈ pending → p.extent pending < p.maxConnections

theorem Limited.current (h : Limited p pending) : p.currentConnections = p.connections.length := by
  have hlimit := h.limit
  have hmax := h.bounds.2
  rw [Pool.extent] at hlimit
  rw [h.exclusive.counted]
  exact Nat.mod_eq_of_lt (by omega)

section

variable (h : Limited p (m ::ₘ others))
include h

theorem Limited.alone (hm : m.keeper = 1) {m' : Move} (hm' : m' ∈ others) :
    m'.keeper = 0 := by
  have hkeep := h.keeper
  have hle := le_total Move.keeper hm'
  rw [total_cons] at hkeep
  omega

theorem Limited.not_loading (hm : m.keeper = 1) (current : Nat) :
    .loadCreating current ∉ others :=
  fun hmem => Nat.one_ne_zero (h.alone hm hmem)

theorem Limited.not_raising (hm : m.keeper = 1) : .raiseCreating ∉ others :=
  fun hmem => Nat.one_ne_zero (h.alone hm hmem)

theorem Limited.change (hexc : Exclusive p' (next + others))
    (hmin : p'.minConnections = p.minConnections) (hmax : p'.maxConnections = p.maxConnections)
    (hin : p'.initialized = p.initialized)
    (hcr : p'.creatingConnections+m.reserves = p.creatingConnections+(next.map reserves).sum)
    (hke : (next.map Move.keeper).sum ≤ m.keeper)
    (hlimit : p'.extent (next + others)+total left (next + others) ≤ p.maxConnections)
    (hload : p'.connections.length ≤ p.connections.length ∨ ∀ current, .loadCreating current ∉ others)
    (hrais : p'.extent (next + others) ≤ p.extent (m ::ₘ others) ∨ .raiseCreating ∉ others)
    (hloads : ∀ current, .loadCreating current ∈ next → p'.connections.length ≤ current)
    (hra : .raiseCreating ∈ next → p'.extent (next + others) < p.maxConnections) : Limited p' (next + others) := by
  have hres := h.creating
  have hkeep := h.keeper
  rw [total_cons] at hres hkeep
  refine ⟨hexc,?_,?_,?_,fun hinit => ?_,?_,fun current hmem => ?_,fun hmem => ?_⟩
  · rw [hmin,hmax]
    exact h.bounds
  · rw [total_add]
    omega
  · rw [total_add]
    omega
  · rw [hin] at hinit
    have hnone := h.started hinit
    rw [total_cons] at hnone
    rw [total_add]
    omega
  · rw [hmax]
    exact hlimit
  · rcases mem_add.mp hmem with hmem | hmem
    · exact hloads current hmem
    · have hlen := hload.resolve_right (fun hnot => hnot current hmem)
      exact hlen.trans (h.loading current (mem_cons_of_mem hmem))
  · rw [hmax]
    rcases mem_add.mp hmem with hmem | hmem
    · exact hra hmem
    · have hext := hrais.resolve_right (fun hnot => hnot hmem)
      exact hext.trans_lt (h.raising (mem_cons_of_mem hmem))

end

structure Quiet (m : Move) (next : List Move) : Prop where
  keeper : (next.map Move.keeper).sum ≤ m.keeper
  creates : (next.map creates).sum ≤ m.creates
  left : (next.map left).sum ≤ m.left
  tests : ∀ m' ∈ next, m'.loads = false ∧ m'.raises = false

theorem Quiet.nil : Quiet m [] := by
  constructor <;> simp

theorem Quiet.one {m' : Move} (hkeep : m'.keeper ≤ m.keeper) (hcr : m'.creates ≤ m.creates)
    (hleft : m'.left ≤ m.left) (htests : m'.loads = false ∧ m'.raises = false) : Quiet m [m'] := by
  refine ⟨by simpa using hkeep,by simpa using hcr,by simpa using hleft,fun m'' hm'' => ?_⟩
  obtain rfl := List.mem_singleton.mp hm''
  exact htests

theorem Limited.keep (h : Limited p (m ::ₘ others)) (hexc : Exclusive p' (next + others))
    (hlen : p'.connections.length ≤ p.connections.length)
    (hcr : p'.creatingConnections+m.reserves = p.creatingConnections+(next.map reserves).sum)
    (hmin : p'.minConnections = p.minConnections) (hmax : p'.maxConnections = p.maxConnections)
    (hinit : p'.initialized = p.initialized) (hquiet : Quiet m next) : Limited p' (next + others) := by
  obtain ⟨hqk,hqcr,hqleft,hqtes⟩ := hquiet
  have hext : p'.extent (next + others) ≤ p.extent (m ::ₘ others) := by
    rw [Pool.extent,Pool.extent,total_add,total_cons]
    omega
  refine h.change hexc hmin hmax hinit hcr hqk ?_ (.inl hlen) (.inl hext)
    (fun current hmem => ?_) (fun hmem => ?_)
  · have hlimit := h.limit
    rw [total_cons] at hlimit
    rw [total_add]
    omega
  · cases (hqtes _ hmem).1
  · cases (hqtes _ hmem).2

theorem Limited.reserve (h : Limited p (.acquireSync user ::ₘ others))
    (hc : p.tryAcquireIdleLocked env = (p',none)) (hroom : p'.totalInFlight < p'.maxConnections)
    (hfree : ∀ m ∈ others, m.initializes = false ∧ m.raises = false)
    (hexc : Exclusive { p' with creatingConnections := p'.creatingConnections+1 }
      (([.createConnection (.acquirer user)] : List Move) + others)) :
    Limited { p' with creatingConnections := p'.creatingConnections+1 }
      (([.createConnection (.acquirer user)] : List Move) + others) := by
  have hlen := length_tryAcquireIdle env p.idleConnections p
  obtain ⟨-,-,hcr,hmin,hmax,hinit⟩ := tryAcquireIdle_same env p.idleConnections p
  unfold Pool.tryAcquireIdleLocked at hc
  rw [hc] at hlen hcr hmin hmax hinit
  simp only at hlen hcr hmin hmax hinit
  obtain ⟨hleft,hcreat⟩ := totals_of_initializes (fun m hm => (hfree m hm).1)
  have hcur : p'.connections.length+p'.creatingConnections < p.maxConnections := by
    have hcoun : p'.currentConnections = p'.connections.length % 2^32 := hexc.counted
    have hlimit := h.limit
    have hboun := h.bounds
    simp only [Pool.extent] at hlimit
    simp only [Pool.totalInFlight] at hroom
    rw [Nat.mod_eq_of_lt (by omega)] at hcoun
    omega
  have hres := h.creating
  rw [total_cons] at hres
  simp only [reserves] at hres
  refine h.change hexc hmin hmax hinit ?_ ?_ ?_ (.inl hlen) (.inr fun hmem => ?_) ?_ ?_
  · simp [reserves,hcr]
  · simp [Move.keeper]
  · simp only [Pool.extent,total_add,List.map_cons,List.map_nil,List.sum_cons,List.sum_nil,creates,left]
    omega
  · cases (hfree _ hmem).2
  · simp
  · simp

theorem Limited.create (h : Limited p (.createConnection owner ::ₘ others)) (states : Nat → PooledConnectionState)
    (hloads : ∀ current, .loadCreating current ∉ others)
    (hexc : Exclusive { p with
      states, connections := p.connections ++ [p.nextConnection]
      currentConnections := increment p.currentConnections
      nextConnection := p.nextConnection+1 } (([.created owner p.nextConnection] : List Move) + others)) :
    Limited { p with
      states, connections := p.connections ++ [p.nextConnection]
      currentConnections := increment p.currentConnections
      nextConnection := p.nextConnection+1 } (([.created owner p.nextConnection] : List Move) + others) := by
  have hext : Pool.extent { p with
      states, connections := p.connections ++ [p.nextConnection]
      currentConnections := increment p.currentConnections
      nextConnection := p.nextConnection+1 } (([.created owner p.nextConnection] : List Move) + others) =
        p.extent (.createConnection owner ::ₘ others) := by
    simp only [Pool.extent,total_add,total_cons,List.length_append,List.length_singleton,List.map_cons,List.map_nil,
      List.sum_cons,List.sum_nil,creates]
    omega
  refine h.change hexc rfl rfl rfl ?_ ?_ ?_ (.inr hloads) (.inl hext.le) ?_ ?_
  · cases owner <;> simp [reserves]
  · cases owner <;> simp [Move.keeper]
  · have hlimit := h.limit
    rw [total_cons] at hlimit
    rw [hext,total_add]
    cases owner <;> simpa [left] using hlimit
  · simp
  · simp

theorem Limited.initializePool (h : Limited p (.initializePool ::ₘ others)) (hfirst : p.initialized = false)
    (hroom : p.extent (.initializePool ::ₘ others)+p.minConnections ≤ p.maxConnections)
    (hexc : Exclusive { p with initialized := true } (([.initializeLoop p.minConnections] : List Move) + others)) :
    Limited { p with initialized := true } (([.initializeLoop p.minConnections] : List Move) + others) := by
  have hkeep := h.started hfirst
  have hres := h.creating
  simp only [total_cons,Move.keeper,reserves] at hkeep hres
  have hnone (m : Move) (hm : m ∈ others) : m.keeper = 0 := by
    have hle := le_total Move.keeper hm
    omega
  have hleft := (totals_of_initializes (fun m hm => initializes_of_keeper (hnone m hm))).1
  have hcr : p.extent (.initializePool ::ₘ others) = p.connections.length+total creates others := by
    simp [Pool.extent,creates]
  refine ⟨hexc,h.bounds,?_,?_,(fun hinit => by cases hinit),?_,fun current hmem => ?_,fun hmem => ?_⟩
  · simpa [reserves] using hres
  · simpa [Move.keeper] using hkeep
  · simp only [Pool.extent,total_add,List.map_cons,List.map_nil,List.sum_cons,List.sum_nil,creates,left]
    omega
  · rcases mem_add.mp hmem with hmem | hmem
    · simp at hmem
    · cases hnone _ hmem
  · rcases mem_add.mp hmem with hmem | hmem
    · simp at hmem
    · cases hnone _ hmem

theorem Limited.initializeLoop {left : Nat} (h : Limited p (.initializeLoop (left+1) ::ₘ others))
    (hexc : Exclusive p (([.createConnection (.initializer left)] : List Move) + others)) :
    Limited p (([.createConnection (.initializer left)] : List Move) + others) := by
  refine h.change hexc rfl rfl rfl ?_ ?_ ?_ (.inl le_rfl) (.inr (h.not_raising rfl)) ?_ ?_
  · simp [reserves]
  · simp [Move.keeper]
  · have hlimit := h.limit
    simp only [Pool.extent,total_add,total_cons,List.map_cons,List.map_nil,List.sum_cons,List.sum_nil,creates,
      Move.left] at hlimit ⊢
    omega
  · simp
  · simp

theorem Limited.loadCurrent (h : Limited p (.ensureMinimumConnections ::ₘ others))
    (hexc : Exclusive p (([.loadCreating p.currentConnections] : List Move) + others)) :
    Limited p (([.loadCreating p.currentConnections] : List Move) + others) := by
  have hext : p.extent (([.loadCreating p.currentConnections] : List Move) + others) =
      p.extent (.ensureMinimumConnections ::ₘ others) := by
    simp [Pool.extent,creates]
  refine h.change hexc rfl rfl rfl ?_ ?_ ?_ (.inl le_rfl) (.inl hext.le) (fun current hmem => ?_) ?_
  · simp [reserves]
  · simp [Move.keeper]
  · have hlimit := h.limit
    rw [hext]
    simpa [left] using hlimit
  · obtain rfl : current = p.currentConnections := by simpa using hmem
    exact h.current.ge
  · simp

theorem Limited.loadCreating {current : Nat} (h : Limited p (.loadCreating current ::ₘ others))
    (hmis : current+p.creatingConnections < p.minConnections)
    (hexc : Exclusive p (([.raiseCreating] : List Move) + others)) :
    Limited p (([.raiseCreating] : List Move) + others) := by
  have hext : p.extent (([.raiseCreating] : List Move) + others) = p.extent (.loadCreating current ::ₘ others) := by
    simp [Pool.extent,creates]
  have hcr := (totals_of_initializes (fun m hm => initializes_of_keeper (h.alone rfl hm))).2
  refine h.change hexc rfl rfl rfl ?_ ?_ ?_ (.inl le_rfl) (.inl hext.le) ?_ (fun _ => ?_)
  · simp [reserves]
  · simp [Move.keeper]
  · have hlimit := h.limit
    rw [hext]
    simpa [left] using hlimit
  · simp
  · have hload := h.loading current (mem_cons_self _ _)
    have hres := h.creating
    have hboun := h.bounds
    simp only [total_cons,reserves] at hres
    simp only [Pool.extent,total_add,List.map_cons,List.map_nil,List.sum_cons,List.sum_nil,creates]
    omega

theorem Limited.raiseCreating (h : Limited p (.raiseCreating ::ₘ others))
    (hexc : Exclusive { p with creatingConnections := p.creatingConnections+1 }
      (([.createConnection .maintenance] : List Move) + others)) :
    Limited { p with creatingConnections := p.creatingConnections+1 }
      (([.createConnection .maintenance] : List Move) + others) := by
  have hleft := (totals_of_initializes (fun m hm => initializes_of_keeper (h.alone rfl hm))).1
  refine h.change hexc rfl rfl rfl ?_ ?_ ?_ (.inl le_rfl) (.inr (h.not_raising rfl)) ?_ ?_
  · simp [reserves]
  · simp [Move.keeper]
  · have hroom := h.raising (mem_cons_self _ _)
    simp only [Pool.extent,total_cons,creates] at hroom
    simp only [Pool.extent,total_add,List.map_cons,List.map_nil,List.sum_cons,List.sum_nil,creates,left]
    omega
  · simp
  · simp

section

variable (h : Limited p (m ::ₘ others))
include h

theorem Limited.notAcquired (hc : p.tryAcquireIdleLocked env = (p',none))
    (waiting : List Nat) (hm : m.reserves = 0) (hres : (next.map reserves).sum = 0) (hquiet : Quiet m next)
    (hexc : Exclusive { p' with pendingAcquires := waiting } (next + others)) :
    Limited { p' with pendingAcquires := waiting } (next + others) := by
  have hlen := length_tryAcquireIdle env p.idleConnections p
  obtain ⟨-,-,hcr,hmin,hmax,hinit⟩ := tryAcquireIdle_same env p.idleConnections p
  unfold Pool.tryAcquireIdleLocked at hc
  rw [hc] at hlen hcr hmin hmax hinit
  refine h.keep hexc hlen ?_ hmin hmax hinit hquiet
  rw [hm,hres]
  exact congrArg (· + 0) hcr

theorem Limited.acquired (hc : p.tryAcquireIdleLocked env = (p',some c))
    (hm : m.reserves = 0) (hexc : Exclusive (p'.hand user c) (([] : List Move) + others)) :
    Limited (p'.hand user c) (([] : List Move) + others) := by
  have hlen := length_tryAcquireIdle env p.idleConnections p
  obtain ⟨-,-,hcr,hmin,hmax,hinit⟩ := tryAcquireIdle_same env p.idleConnections p
  unfold Pool.tryAcquireIdleLocked at hc
  rw [hc] at hlen hcr hmin hmax hinit
  refine h.keep hexc hlen ?_ hmin hmax hinit .nil
  rw [hm]
  exact congrArg (· + 0) hcr

theorem Limited.lowered (hm : m.reserves = 1) :
    p.creatingConnections-1+m.reserves = p.creatingConnections := by
  have hres := h.creating
  rw [total_cons] at hres
  omega

end

theorem OwnRelease.of_careful (hok : Careful p pending env m) : OwnRelease p m := by
  cases m <;> first | exact hok | trivial

theorem Limited.of_exclusive (h : Limited p (m ::ₘ others)) (hok : Careful p (m ::ₘ others) env m) :
    Exclusive (perform p env m).1 ((perform p env m).2 + others) →
      Limited (perform p env m).1 ((perform p env m).2 + others) := by
  cases m with
  | initializePool =>
    simp only [perform]
    split
    · intro hexc
      exact h.keep hexc le_rfl rfl rfl rfl rfl .nil
    · rename_i hfirst
      have hfirst : p.initialized = false := by simpa using hfirst
      refine h.initializePool hfirst (hok.resolve_left ?_)
      simp [hfirst]
  | initializeLoop left =>
    cases left with
    | zero =>
      intro hexc
      exact h.keep hexc le_rfl rfl rfl rfl rfl (.one le_rfl le_rfl le_rfl ⟨rfl,rfl⟩)
    | succ left => exact h.initializeLoop
  | acquire user =>
    simp only [perform]
    split
    · rename_i hfound
      exact h.acquired hfound rfl
    · rename_i p' hfound
      split
      · exact h.notAcquired hfound _ rfl rfl .nil
      · exact h.notAcquired hfound p'.pendingAcquires rfl rfl (.one le_rfl le_rfl le_rfl ⟨rfl,rfl⟩)
  | acquireSync user =>
    simp only [perform]
    split
    · rename_i hfound
      exact h.acquired hfound rfl
    · rename_i p' hfound
      split
      · rename_i hroom
        have hfree : ∀ m ∈ acquireSync user ::ₘ others, m.initializes = false ∧ m.raises = false := by
          rcases hok with hsome | hfull | hfree
          · rw [hfound] at hsome
            cases hsome
          · rw [hfound] at hfull
            obtain ⟨-,-,-,-,hmax,-⟩ := tryAcquireIdle_same env p.idleConnections p
            unfold Pool.tryAcquireIdleLocked at hfound
            rw [hfound] at hmax
            simp only at hmax hfull
            omega
          · exact hfree
        exact h.reserve hfound hroom (fun m hm => hfree m (mem_cons_of_mem hm))
      · split
        · exact h.notAcquired hfound p'.pendingAcquires rfl rfl (.one le_rfl le_rfl le_rfl ⟨rfl,rfl⟩)
        · exact h.notAcquired hfound p'.pendingAcquires rfl rfl .nil
  | createConnection owner =>
    simp only [perform]
    split
    · rename_i hcon
      refine h.create _ (fun current hmem => ?_)
      cases owner with
      | initializer left => exact h.not_loading rfl current hmem
      | acquirer user =>
        rcases hok with hfails | hloads
        · rw [hfails] at hcon
          cases hcon
        · cases hloads _ (mem_cons_of_mem hmem)
      | maintenance => exact h.not_loading rfl current hmem
    · intro hexc
      refine h.keep hexc le_rfl ?_ rfl rfl rfl ?_
      · cases owner <;> rfl
      · cases owner <;> constructor <;> simp
  | created owner c =>
    intro hexc
    cases owner with
    | initializer left => exact h.keep hexc le_rfl rfl rfl rfl rfl (.one le_rfl le_rfl le_rfl ⟨rfl,rfl⟩)
    | acquirer user => exact h.keep hexc le_rfl (h.lowered rfl) rfl rfl rfl .nil
    | maintenance => exact h.keep hexc le_rfl (h.lowered rfl) rfl rfl rfl (.one le_rfl le_rfl le_rfl ⟨rfl,rfl⟩)
  | notCreated owner =>
    intro hexc
    cases owner with
    | initializer left => exact h.keep hexc le_rfl rfl rfl rfl rfl (.one le_rfl le_rfl le_rfl ⟨rfl,rfl⟩)
    | acquirer user =>
      revert hexc
      simp only [perform]
      split
      · intro hexc
        exact h.keep hexc le_rfl (h.lowered rfl) rfl rfl rfl (.one le_rfl le_rfl le_rfl ⟨rfl,rfl⟩)
      · intro hexc
        exact h.keep hexc le_rfl (h.lowered rfl) rfl rfl rfl .nil
    | maintenance => exact h.keep hexc le_rfl (h.lowered rfl) rfl rfl rfl (.one le_rfl le_rfl le_rfl ⟨rfl,rfl⟩)
  | addIdle c =>
    intro hexc
    exact h.keep hexc le_rfl rfl rfl rfl rfl (.one le_rfl le_rfl le_rfl ⟨rfl,rfl⟩)
  | maintenanceLoop =>
    intro hexc
    exact h.keep hexc le_rfl rfl rfl rfl rfl (.one le_rfl le_rfl le_rfl ⟨rfl,rfl⟩)
  | cleanupIdleConnections =>
    intro hexc
    obtain ⟨-,-,-,hcr,hmin,hmax,hinit⟩ := removeAll_same (p.sortIdle env p.idleConnections [] []).2
      { p with idleConnections := (p.sortIdle env p.idleConnections [] []).1 }
    exact h.keep hexc (length_removeAll _ _) hcr hmin hmax hinit
      (.one le_rfl le_rfl le_rfl ⟨rfl,rfl⟩)
  | closeStale stale =>
    intro hexc
    obtain ⟨hconn,-,-,-,-,hcr,hmin,hmax,hinit⟩ := closeAll_same stale p
    exact h.keep hexc (congrArg List.length hconn).le hcr hmin hmax hinit
      (.one le_rfl le_rfl le_rfl ⟨rfl,rfl⟩)
  | ensureMinimumConnections => exact h.loadCurrent
  | loadCreating current =>
    simp only [perform]
    split
    · rename_i hmis
      exact h.loadCreating hmis
    · intro hexc
      exact h.keep hexc le_rfl rfl rfl rfl rfl (.one le_rfl le_rfl le_rfl ⟨rfl,rfl⟩)
  | raiseCreating => exact h.raiseCreating
  | release user c =>
    intro hexc
    exact h.keep hexc le_rfl rfl rfl rfl rfl (.one le_rfl le_rfl le_rfl ⟨rfl,rfl⟩)
  | releaseLocked c reusable =>
    simp only [perform]
    split
    · split
      · intro hexc
        exact h.keep hexc le_rfl rfl rfl rfl rfl .nil
      · intro hexc
        exact h.keep hexc le_rfl rfl rfl rfl rfl .nil
    · intro hexc
      exact h.keep hexc le_rfl rfl rfl rfl rfl (.one le_rfl le_rfl le_rfl ⟨rfl,rfl⟩)
  | closeConnection c =>
    intro hexc
    exact h.keep hexc le_rfl rfl rfl rfl rfl (.one le_rfl le_rfl le_rfl ⟨rfl,rfl⟩)
  | removeConnection c =>
    intro hexc
    exact h.keep hexc (List.length_filter_le _ _) rfl rfl rfl rfl .nil

theorem Limited.perform (h : Limited p (m ::ₘ others)) (hok : Careful p (m ::ₘ others) env m) :
    Limited (perform p env m).1 ((perform p env m).2 + others) :=
  h.of_exclusive hok (h.exclusive.perform (OwnRelease.of_careful hok))

theorem Limited.call (h : Limited p others) (entry : Entry) : Limited p (entry.moves + others) := by
  have hcar : (entry.moves.map carries).sum = 0 := by cases entry <;> rfl
  have hres : (entry.moves.map reserves).sum = 0 := by cases entry <;> rfl
  have hkeep : (entry.moves.map Move.keeper).sum = 0 := by cases entry <;> rfl
  have hcr : (entry.moves.map creates).sum = 0 := by cases entry <;> rfl
  have hleft : (entry.moves.map left).sum = 0 := by cases entry <;> rfl
  have hext : p.extent (entry.moves + others) = p.extent others := by
    rw [Pool.extent,Pool.extent,total_add,hcr,zero_add]
  refine ⟨?_,h.bounds,?_,?_,fun hinit => ?_,?_,fun current hmem => ?_,fun hmem => ?_⟩
  · rw [Exclusive,transit_add,hcar,zero_add]
    exact h.exclusive
  · rw [total_add,hres,zero_add]
    exact h.creating
  · rw [total_add,hkeep,zero_add]
    exact h.keeper
  · rw [total_add,hkeep,zero_add]
    exact h.started hinit
  · rw [hext,total_add,hleft,zero_add]
    exact h.limit
  · refine h.loading current ((mem_add.mp hmem).resolve_left ?_)
    cases entry <;> simp [Entry.moves]
  · rw [hext]
    refine h.raising ((mem_add.mp hmem).resolve_left ?_)
    cases entry <;> simp [Entry.moves]

/-- `initialize` creates a connection, a user gets it, another reserves one of their own, and
the maintenance thread makes its round. -/
def busyPool : List Event :=
  [.call .initializePool,.move 0 {},.move 0 {},.move 0 {},.move 0 {},.move 0 {},.call (.acquireSync 1),.move 1 {},
    .call (.acquireSync 2),.move 2 {},.move 0 {},.move 0 {},.move 0 {},.move 0 {},.move 0 {},.move 2 {},.move 2 {},
    .call (.release 1 0),.move 3 {},.move 3 {}]

instance (p : Pool) (m : Move) : Decidable (OwnRelease p m) := by
  induction m using Move.casesOn <;> first | exact isTrue trivial | exact inferInstanceAs (Decidable (_ ∈ _))

/-- As long as users release what they hold, the pool loses no connection, has none in two
places, and counts them. -/
theorem connections_conserved (least most : Nat) {events : List Event}
    (hown : Machine.Meets step (Threads.Allowed (fun _ => True) (fun p _ _ m => OwnRelease p m))
      (fresh least most) events) :
    let pool := Machine.runs step (fresh least most) events
    Exclusive pool.shared pool.pending := by
  refine @Threads.invariant _ _ _ _ _ _ Exclusive (fun _ => True) _ (fun p others entry _ h => ?_)
    (fun p others env m hok h => h.perform hok) _ ⟨rfl,List.nodup_nil,by simp [fresh],rfl⟩ _ hown
  have hcar : (entry.moves.map carries).sum = 0 := by cases entry <;> rfl
  rw [Exclusive,transit_add,hcar,zero_add]
  exact h

theorem connections_conserved_busy :
    let pool := Machine.runs step (fresh 1 2) busyPool
    Exclusive pool.shared pool.pending :=
  connections_conserved 1 2 (by decide)

end FastNet.TcpConnectionPool
