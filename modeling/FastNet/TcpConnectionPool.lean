import FastNet.Threads

/-!
`TcpConnectionPool`. The calls are cut into moves where they take or give back `mutex_`,
read or change an atomic counter, or wait for a connect. Whether a connection is connected
and has been used lately enough is up to the network and the clock.
-/

namespace FastNet.TcpConnectionPool

open Multiset TcpConnectionPool

inductive PooledConnectionState where
  | idle | inUse | closing | closed | error
  deriving DecidableEq, Repr

/-- Connections and users are numbers. `held` lists who has received which connection and has
not released it. -/
structure Pool where
  minConnections : Nat
  maxConnections : Nat
  initialized : Bool := false
  connections : List Nat := []
  idleConnections : List Nat := []
  /-- the users whose callbacks wait -/
  pendingAcquires : List Nat := []
  states : Nat → PooledConnectionState := fun _ => .idle
  currentConnections : Nat := 0
  creatingConnections : Nat := 0
  nextConnection : Nat := 0
  held : List (Nat × Nat) := []

/-- What a move meets: which connections are connected and not out of date, whether a connect
works, and whether a wait ends before its deadline. -/
structure Env where
  usable : Nat → Bool := fun _ => true
  connects : Bool := true
  retries : Bool := false

/-- `fetch_add` and `fetch_sub` of 1 on 32 bits. -/
def increment (n : Nat) : Nat := (n+1) % 2^32

def decrement (n : Nat) : Nat := (n+(2^32-1)) % 2^32

namespace Pool

variable (p : Pool) (env : Env)

def canReuse (c : Nat) : Bool :=
  env.usable c && p.states c ≠ .closing && p.states c ≠ .closed && p.states c ≠ .error

def setState (c : Nat) (state : PooledConnectionState) : Pool :=
  { p with states := Function.update p.states c state }

/-- Takes a connection out of `connections_`, and lowers the counter in any case. -/
def removeConnection (c : Nat) : Pool :=
  { p with
    connections := p.connections.filter (fun c' => c' ≠ c)
    currentConnections := decrement p.currentConnections }

/-- The loop of `tryAcquireIdleLocked` over the idle queue. -/
def tryAcquireIdle (env : Env) : List Nat → Pool → Pool × Option Nat
  | [], p => ({ p with idleConnections := [] },none)
  | c :: rest, p =>
    if p.canReuse env c then ({ p with idleConnections := rest },some c)
    else tryAcquireIdle env rest ((p.setState c .closed).removeConnection c)

def tryAcquireIdleLocked : Pool × Option Nat := tryAcquireIdle env p.idleConnections p

def totalInFlight : Nat := p.currentConnections+p.creatingConnections

def hand (user c : Nat) : Pool :=
  { p.setState c .inUse with held := p.held ++ [(user,c)] }

def pushIdle (c : Nat) : Pool :=
  { p.setState c .idle with idleConnections := p.idleConnections ++ [c] }

/-- The loop of `cleanupIdleConnections`: what it retains and what it takes out. -/
def sortIdle : List Nat → List Nat → List Nat → List Nat × List Nat
  | [], retained, stale => (retained,stale)
  | c :: rest, retained, stale =>
    if ¬ retained.length+stale.length+1 ≤ p.minConnections ∧ p.canReuse env c = false then
      sortIdle rest retained (stale ++ [c])
    else sortIdle rest (retained ++ [c]) stale

end Pool

/-- Who calls `createConnection`; `initialize` has some more connections to create. -/
inductive Owner where
  | initializer (left : Nat)
  | acquirer (user : Nat)
  | maintenance

inductive Move where
  | initializePool
  | initializeLoop (left : Nat)
  /-- the locked part of `acquire`, and that of a turn of `acquireSync` -/
  | acquire (user : Nat)
  | acquireSync (user : Nat)
  /-- `createConnection` waits for the connect -/
  | createConnection (owner : Owner)
  | created (owner : Owner) (c : Nat)
  | notCreated (owner : Owner)
  | addIdle (c : Nat)
  | maintenanceLoop
  | cleanupIdleConnections
  | closeStale (stale : List Nat)
  /-- the test of `ensureMinimumConnections`, which loads one counter behind the other -/
  | ensureMinimumConnections
  | loadCreating (current : Nat)
  | raiseCreating
  /-- `release` in front of the lock, and its locked parts -/
  | release (user c : Nat)
  | releaseLocked (c : Nat) (reusable : Bool)
  | closeConnection (c : Nat)
  | removeConnection (c : Nat)

def perform (p : Pool) (env : Env) : Move → Pool × List Move
  | .initializePool =>
    if p.initialized then (p,[]) else ({ p with initialized := true },[.initializeLoop p.minConnections])
  -- the thread goes on as the maintenance thread
  | .initializeLoop 0 => (p,[.maintenanceLoop])
  | .initializeLoop (left+1) => (p,[.createConnection (.initializer left)])
  | .acquire user =>
    match p.tryAcquireIdleLocked env with
    | (p,some c) => (p.hand user c,[])
    | (p,none) =>
      if p.maxConnections ≤ p.totalInFlight then ({ p with pendingAcquires := p.pendingAcquires ++ [user] },[])
      else (p,[.acquireSync user])
  | .acquireSync user =>
    match p.tryAcquireIdleLocked env with
    | (p,some c) => (p.hand user c,[])
    | (p,none) =>
      if p.totalInFlight < p.maxConnections then
        ({ p with creatingConnections := p.creatingConnections+1 },[.createConnection (.acquirer user)])
      else (p,if env.retries then [.acquireSync user] else [])
  | .createConnection owner =>
    if env.connects then
      ({ p.setState p.nextConnection .idle with
        connections := p.connections ++ [p.nextConnection]
        currentConnections := increment p.currentConnections
        nextConnection := p.nextConnection+1 },[.created owner p.nextConnection])
    else (p,[.notCreated owner])
  | .created (.initializer left) c => (p.pushIdle c,[.initializeLoop left])
  | .created (.acquirer user) c =>
    ({ p with creatingConnections := p.creatingConnections-1 }.hand user c,[])
  | .created .maintenance c => ({ p with creatingConnections := p.creatingConnections-1 },[.addIdle c])
  | .notCreated (.initializer _) => (p,[.maintenanceLoop])
  | .notCreated (.acquirer user) =>
    ({ p with creatingConnections := p.creatingConnections-1 },if env.retries then [.acquireSync user] else [])
  | .notCreated .maintenance => ({ p with creatingConnections := p.creatingConnections-1 },[.maintenanceLoop])
  | .addIdle c => (p.pushIdle c,[.ensureMinimumConnections])
  | .maintenanceLoop => (p,[.cleanupIdleConnections])
  | .cleanupIdleConnections =>
    let (retained,stale) := p.sortIdle env p.idleConnections [] []
    (stale.foldl Pool.removeConnection { p with idleConnections := retained },[.closeStale stale])
  | .closeStale stale => (stale.foldl (fun p c => p.setState c .closed) p,[.ensureMinimumConnections])
  | .ensureMinimumConnections => (p,[.loadCreating p.currentConnections])
  | .loadCreating current =>
    (p,if current+p.creatingConnections < p.minConnections then [.raiseCreating] else [.maintenanceLoop])
  | .raiseCreating =>
    ({ p with creatingConnections := p.creatingConnections+1 },[.createConnection .maintenance])
  | .release user c =>
    ({ p with held := p.held.erase (user,c) },[.releaseLocked c (p.canReuse env c)])
  | .releaseLocked c reusable =>
    if reusable then
      match p.pendingAcquires with
      | user :: rest => ({ p with pendingAcquires := rest }.hand user c,[])
      | [] => (p.pushIdle c,[])
    else (p,[.closeConnection c])
  | .closeConnection c => (p.setState c .closed,[.removeConnection c])
  | .removeConnection c => (p.removeConnection c,[])

inductive Entry where
  | initializePool
  | acquire (user : Nat)
  | acquireSync (user : Nat)
  | release (user c : Nat)

def Entry.moves : Entry → List Move
  | .initializePool => [.initializePool]
  | .acquire user => [.acquire user]
  | .acquireSync user => [.acquireSync user]
  | .release user c => [.release user c]

abbrev Event := Threads.Event Entry Env

def step : Threads.Pool Pool Move → Event → Threads.Pool Pool Move := Threads.step Entry.moves perform

def fresh (minConnections maxConnections : Nat) : Threads.Pool Pool Move :=
  { shared := { minConnections, maxConnections } }

variable {p p' : Pool} {env : Env} {m : Move} {others : Multiset Move} {c : Nat} {owner : Owner}

/-! ### What the loops leave as it is -/

theorem tryAcquireIdle_same (env : Env) (idle : List Nat) (p : Pool) :
    let p' := (Pool.tryAcquireIdle env idle p).1
    p'.held = p.held ∧ p'.nextConnection = p.nextConnection ∧ p'.creatingConnections = p.creatingConnections ∧
      p'.minConnections = p.minConnections ∧ p'.maxConnections = p.maxConnections ∧ p'.initialized = p.initialized := by
  induction idle generalizing p with
  | nil => exact ⟨rfl,rfl,rfl,rfl,rfl,rfl⟩
  | cons c rest ih =>
    simp only [Pool.tryAcquireIdle]
    split
    · exact ⟨rfl,rfl,rfl,rfl,rfl,rfl⟩
    · exact ih _

theorem closeAll_same (gone : List Nat) (p : Pool) :
    let p' := gone.foldl (fun p c => p.setState c .closed) p
    p'.connections = p.connections ∧ p'.idleConnections = p.idleConnections ∧ p'.nextConnection = p.nextConnection ∧
      p'.held = p.held ∧ p'.currentConnections = p.currentConnections ∧
      p'.creatingConnections = p.creatingConnections ∧ p'.minConnections = p.minConnections ∧
      p'.maxConnections = p.maxConnections ∧ p'.initialized = p.initialized := by
  induction gone generalizing p with
  | nil => exact ⟨rfl,rfl,rfl,rfl,rfl,rfl,rfl,rfl,rfl⟩
  | cons c rest ih => exact ih (p.setState c .closed)

theorem removeAll_same (gone : List Nat) (p : Pool) :
    let p' := gone.foldl Pool.removeConnection p
    p'.held = p.held ∧ p'.idleConnections = p.idleConnections ∧ p'.nextConnection = p.nextConnection ∧
      p'.creatingConnections = p.creatingConnections ∧ p'.minConnections = p.minConnections ∧
      p'.maxConnections = p.maxConnections ∧ p'.initialized = p.initialized := by
  induction gone generalizing p with
  | nil => exact ⟨rfl,rfl,rfl,rfl,rfl,rfl,rfl⟩
  | cons c rest ih => exact ih (p.removeConnection c)

theorem sortIdle_places (p : Pool) (env : Env) (idle retained stale : List Nat) :
    ((p.sortIdle env idle retained stale).1 : Multiset Nat) + (p.sortIdle env idle retained stale).2 =
      idle + (retained + stale) := by
  induction idle generalizing retained stale with
  | nil => simp [Pool.sortIdle]
  | cons c rest ih =>
    have hsnoc (l : List Nat) : ((l ++ [c] : List Nat) : Multiset Nat) = l + {c} := (coe_add l [c]).symm
    have hcons : ((c :: rest : List Nat) : Multiset Nat) = {c} + rest := (singleton_add c rest).symm
    rw [Pool.sortIdle]
    split
    · rw [ih,hsnoc,hcons]
      abel
    · rw [ih,hsnoc,hcons]
      abel

def Pool.out (p : Pool) : Multiset Nat := (p.held.map Prod.snd : List Nat)

theorem out_of_held (hheld : p'.held = p.held) : p'.out = p.out := by rw [Pool.out,Pool.out,hheld]

@[simp] theorem out_hand (p : Pool) (user c : Nat) : (p.hand user c).out = c ::ₘ p.out := by
  rw [Pool.out,Pool.out,Pool.hand,List.map_append,List.map_singleton,← coe_add,coe_singleton,add_comm,singleton_add]

theorem out_release {user : Nat} (hheld : (user,c) ∈ p.held) :
    p.out = c ::ₘ ({ p with held := p.held.erase (user,c) } : Pool).out := by
  rw [Pool.out,Pool.out,cons_coe]
  exact coe_eq_coe.mpr ((List.perm_cons_erase hheld).map Prod.snd)

theorem idle_pushIdle (p : Pool) (c : Nat) :
    ((p.pushIdle c).idleConnections : Multiset Nat) = c ::ₘ p.idleConnections := by
  rw [Pool.pushIdle,← coe_add,coe_singleton,add_comm,singleton_add]

/-! ### Exclusive use -/

def Move.brings : Move → Multiset Nat
  | .created _ c | .addIdle c | .releaseLocked c true => {c}
  | _ => 0

/-- Where a user can get a connection from or has it from: the idle queue, the users, and the
threads that bring connections to them. -/
def places (p : Pool) (pending : Multiset Move) : Multiset Nat :=
  p.idleConnections + (p.out + (pending.map Move.brings).sum)

@[simp] theorem places_cons (p : Pool) (m : Move) (others : Multiset Move) :
    places p (m ::ₘ others) = m.brings + places p others := by
  rw [places,places,map_cons,sum_cons]
  abel

@[simp] theorem places_add (p : Pool) (next : List Move) (others : Multiset Move) :
    places p (next + others) = (next.map Move.brings).sum + places p others := by
  rw [places,places,map_add,sum_add,map_coe,sum_coe]
  abel

theorem places_hand (p : Pool) (user c : Nat) (others : Multiset Move) :
    places (p.hand user c) others = c ::ₘ places p others := by
  rw [places,places,out_hand,cons_add,add_cons]
  rfl

theorem places_pushIdle (p : Pool) (c : Nat) (others : Multiset Move) :
    places (p.pushIdle c) others = c ::ₘ places p others := by
  rw [places,places,idle_pushIdle,cons_add]
  rfl

theorem places_of_eq (hidle : p'.idleConnections = p.idleConnections) (hheld : p'.held = p.held) (others : Multiset Move) :
    places p' others = places p others := by
  rw [places,places,out_of_held hheld,hidle]

theorem idle_tryAcquireIdle (env : Env) (idle : List Nat) (p : Pool) :
    ((Pool.tryAcquireIdle env idle p).1.idleConnections : Multiset Nat) + (Pool.tryAcquireIdle env idle p).2.toList ≤
      idle := by
  induction idle generalizing p with
  | nil => simp [Pool.tryAcquireIdle]
  | cons c rest ih =>
    rw [Pool.tryAcquireIdle]
    split
    · rw [← cons_coe,← singleton_add,add_comm]
      exact le_rfl
    · exact (ih _).trans (coe_le.mpr (List.sublist_cons_self c rest).subperm)

theorem places_tryAcquireIdle (env : Env) (p : Pool) (others : Multiset Move) :
    (p.tryAcquireIdleLocked env).2.toList + places (p.tryAcquireIdleLocked env).1 others ≤ places p others := by
  have hout := out_of_held (tryAcquireIdle_same env p.idleConnections p).1
  have hidle := idle_tryAcquireIdle env p.idleConnections p
  unfold Pool.tryAcquireIdleLocked
  rw [places,places,hout,← add_assoc,
    add_comm (_ : Multiset Nat) ((Pool.tryAcquireIdle env _ p).1.idleConnections : Multiset Nat)]
  exact Multiset.add_le_add_right hidle

/-- A connection is released by a user that has received it and not released it yet, or it
cannot be used again. -/
def SafeRelease (p : Pool) (_pending : Multiset Move) (env : Env) : Move → Prop
  | .release user c => (user,c) ∈ p.held ∨ p.canReuse env c = false
  | _ => True

instance (p : Pool) (user c : Nat) : Decidable ((user,c) ∈ p.held) := inferInstance

instance (p : Pool) (pending : Multiset Move) (env : Env) (m : Move) : Decidable (SafeRelease p pending env m) := by
  induction m using Move.casesOn <;> first | exact isTrue trivial | exact inferInstanceAs (Decidable (_ ∨ _))

structure Apart (p : Pool) (pending : Multiset Move) : Prop where
  nodup : (places p pending).Nodup
  fresh : ∀ c ∈ places p pending, c < p.nextConnection

variable {pending pending' : Multiset Move} {next : List Move}

theorem Apart.of_le (h : Apart p pending) (hle : places p' pending' ≤ places p pending)
    (hnext : p'.nextConnection = p.nextConnection) : Apart p' pending' := by
  refine ⟨nodup_of_le hle h.nodup,fun c hc => ?_⟩
  rw [hnext]
  exact h.fresh c (mem_of_le hle hc)

section

variable (h : Apart p (m ::ₘ others))
include h

theorem Apart.keep (hidle : p'.idleConnections = p.idleConnections)
    (hheld : p'.held = p.held) (hnext : p'.nextConnection = p.nextConnection)
    (hbrin : (next.map Move.brings).sum ≤ m.brings) : Apart p' (next + others) := by
  refine h.of_le ?_ hnext
  rw [places_add,places_cons,places_of_eq hidle hheld]
  exact Multiset.add_le_add_right hbrin

theorem Apart.pushed (hm : m.brings = {c}) (hnext : (next.map Move.brings).sum = 0) :
    Apart (p.pushIdle c) (next + others) := by
  refine h.of_le ?_ rfl
  rw [places_add,places_cons,hnext,hm,places_pushIdle,singleton_add,zero_add]

theorem Apart.handed (hm : m.brings = {c}) (user : Nat)
    (hidle : p'.idleConnections = p.idleConnections) (hheld : p'.held = p.held)
    (hnext : p'.nextConnection = p.nextConnection) : Apart (p'.hand user c) (([] : List Move) + others) := by
  refine h.of_le ?_ hnext
  rw [places_add,places_cons,hm,places_hand,places_of_eq hidle hheld,singleton_add]
  simp

theorem Apart.acquired (user : Nat) (hc : p.tryAcquireIdleLocked env = (p',some c)) :
    Apart (p'.hand user c) (([] : List Move) + others) := by
  have hplac := places_tryAcquireIdle env p others
  have hnext := (tryAcquireIdle_same env p.idleConnections p).2.1
  unfold Pool.tryAcquireIdleLocked at hc hplac
  rw [hc] at hplac hnext
  refine h.of_le ?_ hnext
  rw [places_add,places_hand,places_cons]
  refine le_trans ?_ (hplac.trans (le_add_left _ _))
  simp

theorem Apart.notAcquired (hc : p.tryAcquireIdleLocked env = (p',none)) {p'' : Pool}
    (hidle : p''.idleConnections = p'.idleConnections) (hheld : p''.held = p'.held)
    (hnext : p''.nextConnection = p'.nextConnection) (hbrin : (next.map Move.brings).sum = 0) :
    Apart p'' (next + others) := by
  have hplac := places_tryAcquireIdle env p others
  have hnext' := (tryAcquireIdle_same env p.idleConnections p).2.1
  unfold Pool.tryAcquireIdleLocked at hc hplac
  rw [hc] at hplac hnext'
  refine h.of_le ?_ (hnext.trans hnext')
  rw [places_add,hbrin,places_cons,places_of_eq hidle hheld]
  refine le_trans ?_ (hplac.trans (le_add_left _ _))
  simp

end

theorem Apart.create (h : Apart p (.createConnection owner ::ₘ others)) (current : Nat) (connections : List Nat)
    (states : Nat → PooledConnectionState) :
    Apart { p with states, connections, currentConnections := current, nextConnection := p.nextConnection+1 }
      (([.created owner p.nextConnection] : List Move) + others) := by
  have hplac : places { p with states, connections, currentConnections := current, nextConnection := p.nextConnection+1 }
      (([.created owner p.nextConnection] : List Move) + others) =
        p.nextConnection ::ₘ places p (.createConnection owner ::ₘ others) := by
    rw [places_add,places_cons,← singleton_add]
    simp [Move.brings,places,Pool.out]
  refine ⟨?_,fun c hc => ?_⟩
  · rw [hplac]
    exact nodup_cons.mpr ⟨fun hmem => Nat.lt_irrefl _ (h.fresh _ hmem),h.nodup⟩
  · rw [hplac] at hc
    rcases mem_cons.mp hc with rfl | hc
    · exact Nat.lt_succ_self _
    · exact Nat.lt_succ_of_lt (h.fresh c hc)

theorem Apart.released {user : Nat} (h : Apart p (.release user c ::ₘ others))
    (hok : (user,c) ∈ p.held ∨ p.canReuse env c = false) :
    Apart { p with held := p.held.erase (user,c) }
      (([.releaseLocked c (p.canReuse env c)] : List Move) + others) := by
  refine h.of_le ?_ rfl
  rw [places_add,places_cons]
  by_cases hheld : (user,c) ∈ p.held
  · have hbrin : ([Move.releaseLocked c (p.canReuse env c)].map Move.brings).sum ≤ {c} := by
      cases p.canReuse env c <;> simp [Move.brings]
    refine (Multiset.add_le_add_right hbrin).trans (le_of_eq ?_)
    rw [places,places,out_release hheld,cons_add,add_cons,singleton_add]
    simp [Move.brings]
  · have hreuse := hok.resolve_left hheld
    rw [hreuse,places,places,Pool.out,List.erase_of_not_mem hheld]
    simp [Move.brings,Pool.out]

theorem Apart.cleaned (h : Apart p (.cleanupIdleConnections ::ₘ others)) (env : Env) :
    Apart ((p.sortIdle env p.idleConnections [] []).2.foldl Pool.removeConnection
      { p with idleConnections := (p.sortIdle env p.idleConnections [] []).1 })
      (([.closeStale (p.sortIdle env p.idleConnections [] []).2] : List Move) + others) := by
  obtain ⟨hheld,hidle,hnext,-⟩ := removeAll_same (p.sortIdle env p.idleConnections [] []).2
    { p with idleConnections := (p.sortIdle env p.idleConnections [] []).1 }
  have hret : ((p.sortIdle env p.idleConnections [] []).1 : Multiset Nat) ≤ p.idleConnections := by
    have hsor := sortIdle_places p env p.idleConnections [] []
    simp only [coe_nil,add_zero] at hsor
    rw [← hsor]
    exact le_add_right _ _
  refine h.of_le ?_ hnext
  rw [places_add,places_cons,places_of_eq hidle hheld,places,places]
  simpa [Move.brings,Pool.out] using hret

theorem Apart.perform (h : Apart p (m ::ₘ others)) (hok : SafeRelease p (m ::ₘ others) env m) :
    Apart (perform p env m).1 ((perform p env m).2 + others) := by
  cases m with
  | initializePool =>
    simp only [perform]
    split <;> exact h.keep rfl rfl rfl (by simp [Move.brings])
  | initializeLoop left =>
    cases left <;> exact h.keep rfl rfl rfl (by simp [Move.brings,perform])
  | acquire user =>
    simp only [perform]
    split
    · rename_i hfound
      exact h.acquired user hfound
    · rename_i hfound
      split <;> exact h.notAcquired hfound rfl rfl rfl (by simp [Move.brings])
  | acquireSync user =>
    simp only [perform]
    split
    · rename_i hfound
      exact h.acquired user hfound
    · rename_i hfound
      split
      · exact h.notAcquired hfound rfl rfl rfl (by simp [Move.brings])
      · refine h.notAcquired hfound rfl rfl rfl ?_
        split <;> simp [Move.brings]
  | createConnection owner =>
    simp only [perform]
    split
    · exact h.create _ _ _
    · exact h.keep rfl rfl rfl (by simp [Move.brings])
  | created owner c =>
    cases owner with
    | initializer left => exact h.pushed rfl rfl
    | acquirer user => exact h.handed rfl user rfl rfl rfl
    | maintenance => exact h.keep rfl rfl rfl (by simp [Move.brings,perform])
  | notCreated owner =>
    cases owner with
    | initializer left => exact h.keep rfl rfl rfl (by simp [Move.brings,perform])
    | acquirer user =>
      refine h.keep rfl rfl rfl ?_
      simp only [perform]
      split <;> simp [Move.brings]
    | maintenance => exact h.keep rfl rfl rfl (by simp [Move.brings,perform])
  | addIdle c => exact h.pushed rfl rfl
  | cleanupIdleConnections => exact h.cleaned env
  | closeStale stale =>
    obtain ⟨-,hidle,hnext,hheld,-⟩ := closeAll_same stale p
    exact h.keep hidle hheld hnext (by simp [Move.brings,perform])
  | loadCreating current =>
    refine h.keep rfl rfl rfl ?_
    simp only [perform]
    split <;> simp [Move.brings]
  | release user c => exact h.released hok
  | releaseLocked c reusable =>
    cases reusable with
    | true =>
      simp only [perform,if_true]
      split
      · exact h.handed rfl _ rfl rfl rfl
      · exact h.pushed rfl rfl
    | false => exact h.keep rfl rfl rfl (by simp [Move.brings,perform])
  | removeConnection c => exact h.keep rfl rfl rfl (by simp [perform])
  | _ => exact h.keep rfl rfl rfl (by simp [Move.brings,perform])

/-- However the calls of the users and the maintenance come in between each other: as long as
no connection is released that its user does not hold and that could be used again, the idle
queue has no connection twice, and no two users hold one connection. -/
theorem exclusive_use (minConnections maxConnections : Nat) (events : List Event)
    (hreleases : Machine.Meets step (Threads.Allowed (fun _ => True) SafeRelease) (fresh minConnections maxConnections)
      events) :
    let p := (Machine.runs step (fresh minConnections maxConnections) events).shared
    p.idleConnections.Nodup ∧ (p.held.map Prod.snd).Nodup := by
  have hapart : Apart (Machine.runs step (fresh minConnections maxConnections) events).shared
      (Machine.runs step (fresh minConnections maxConnections) events).pending := by
    refine Threads.invariant (fun _ => True) SafeRelease (fun p others entry _ h => ?_)
      (fun p others env m hok h => h.perform hok) ⟨?_,?_⟩ hreleases
    · refine h.of_le ?_ rfl
      rw [places_add]
      cases entry <;> simp [Entry.moves,Move.brings]
    · simp [places,fresh,Pool.out,Threads.Pool.pending]
    · simp [places,fresh,Pool.out,Threads.Pool.pending]
  have hidle := Multiset.nodup_of_le (Multiset.le_add_right _ _) hapart.nodup
  have hoth := Multiset.nodup_of_le (Multiset.le_add_left _ _) hapart.nodup
  have hout := Multiset.nodup_of_le (Multiset.le_add_right _ _) hoth
  exact ⟨Multiset.coe_nodup.mp hidle,Multiset.coe_nodup.mp hout⟩

def oneUse : List Event :=
  [.call (.acquireSync 1),.move 0 {},.move 0 {},.move 0 {},.call (.release 1 0),.move 1 {},.move 1 {}]

theorem exclusive_use_oneUse :
    let p := (Machine.runs step (fresh 0 2) oneUse).shared
    p.idleConnections.Nodup ∧ (p.held.map Prod.snd).Nodup :=
  exclusive_use 0 2 oneUse (by decide)

def twoReleases : List Event := oneUse ++ [.call (.release 1 0),.move 2 {},.move 2 {}]

/-- The connection is in the idle queue twice then, and the next two users receive it both. -/
theorem twoReleases_shared :
    (Machine.runs step (fresh 0 2) twoReleases).shared.idleConnections = [0, 0] ∧
      (Machine.runs step (fresh 0 2) (twoReleases ++
        [.call (.acquireSync 2), .move 3 {}, .call (.acquireSync 3), .move 4 {}])).shared.held = [(2, 0), (3, 0)] := by
  decide

end FastNet.TcpConnectionPool
