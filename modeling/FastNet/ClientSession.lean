import FastNet.Guarded
import FastNet.SharedSessionTypes

/-!
The life of one session of `TcpServer`, from `adoptAcceptedSocket` to its end, and the two
callbacks that tell of it. `start` runs without `callbackMutex_`, the handlers of the poller
and `close` hold it. What the handlers read and write is left out here: it may end in a
close, by the transport or by user code that is called back.
-/

namespace FastNet.ClientSession

open Machine List ClientSession

inductive Callback where
  | clientConnected | clientDisconnected
  deriving DecidableEq, Repr

structure Session where
  /-- the server has an `SSLContext` -/
  tls : Bool
  /-- `nextConnectionId_` has given the id away -/
  adopted : Bool := false
  /-- the id is in `sessions_` -/
  listed : Bool := false
  running : Bool := false
  ready : Bool := false
  socketOpen : Bool := true
  tlsState : TlsState := .disabled
  /-- the callbacks for this id so far, the oldest first -/
  callbacks : List Callback := []

/-- What a move meets. `closes` says that the session is closed by the transport or by user
code that the move calls back. -/
structure Env where
  full : Bool := false
  works : Bool := true
  initialized : Bool := true
  handshake : Handshake := .wantRead
  closes : Bool := false

/-- The moves without `callbackMutex_`. -/
inductive Move where
  /-- `adoptAcceptedSocket`, and its part under `sessionsMutex_` -/
  | adopt
  | insert
  /-- `start` up to the registration with the poller, and its further parts -/
  | start
  | run
  | secure
  | initializeTls
  | driveTlsHandshake
  | markReady
  | readyCallback
  | abortStartup
  /-- `adoptAcceptedSocket` behind a `start` that has failed -/
  | erase
  | disconnectClient
  | stop
  | expire
  | handleEvent
  | close
  deriving DecidableEq

/-- The moves of a thread that holds `callbackMutex_`. -/
inductive Locked where
  | abortStartup
  /-- `handleRead` and `handleWrite` -/
  | handleEvent
  | driveTlsHandshake
  | transfer
  | markReady
  | readyCallback
  /-- `close`, and its parts -/
  | close
  | unready
  | release
  | onSessionClosed (wasReady : Bool)
  | disconnectedCallback
  | storeUnready
  deriving DecidableEq

/-- A turn of the handshake under `tlsMutex_`, and how it ends. -/
def Session.handshakeTurn (s : Session) (handshake : Handshake) : Session × Handshake :=
  if s.tlsState ≠ .handshaking then (s,.wantRead)
  else
    match handshake with
    | .done => ({ s with tlsState := .ready },.done)
    | other => (s,other)

def free (s : Session) (env : Env) : Move → Session × List Move × List Locked
  -- a later connection has another id
  | .adopt => if s.adopted || env.full then (s,[],[]) else ({ s with adopted := true },[.insert],[])
  | .insert => if env.full then (s,[],[]) else ({ s with listed := true },[.start],[])
  | .start =>
    if s.socketOpen && env.works then (s,[.run],[]) else ({ s with socketOpen := false },[.erase],[])
  | .run => ({ s with running := true },[.secure],[])
  | .secure => (s,if s.tls then [.initializeTls] else [.markReady],[])
  | .initializeTls =>
    if env.initialized then ({ s with tlsState := .handshaking },[.driveTlsHandshake],[])
    else (s,[.abortStartup,.erase],[])
  | .driveTlsHandshake =>
    let (s,handshake) := s.handshakeTurn env.handshake
    match handshake with
    | .done => (s,[.markReady],[])
    | .failed => (s,[.abortStartup,.erase],[])
    | _ => (s,[],[])
  | .markReady => if s.ready then (s,[],[]) else ({ s with ready := true },[.readyCallback],[])
  | .readyCallback =>
    ({ s with callbacks := s.callbacks ++ [.clientConnected] },if env.closes then [.close] else [],[])
  | .abortStartup => (s,[],[.abortStartup])
  | .erase => ({ s with listed := false },[],[])
  | .disconnectClient => (s,if s.listed then [.close] else [],[])
  | .stop => ({ s with listed := false },if s.listed then [.close] else [],[])
  -- the timers
  | .expire => (s,if s.running || s.ready then [.close] else [],[])
  | .handleEvent => (s,[],[.handleEvent])
  | .close => (s,[],[.close])

def guarded (s : Session) (env : Env) : Locked → Session × List Locked
  | .abortStartup =>
    ({ s with running := false, ready := false, tlsState := .disabled, socketOpen := false },[])
  | .handleEvent =>
    if !s.running then (s,[])
    else if s.tlsState = .handshaking then (s,[.driveTlsHandshake])
    else (s,[.transfer])
  | .driveTlsHandshake =>
    let (s,handshake) := s.handshakeTurn env.handshake
    match handshake with
    | .done => (s,[.markReady])
    | .failed => (s,[.close])
    | _ => (s,[])
  | .transfer => (s,if env.closes then [.close] else [])
  | .markReady => if s.ready then (s,[]) else ({ s with ready := true },[.readyCallback])
  | .readyCallback =>
    ({ s with callbacks := s.callbacks ++ [.clientConnected] },if env.closes then [.close] else [])
  | .close =>
    if s.running then ({ s with running := false },[.unready]) else (s,[.release,.storeUnready])
  | .unready => ({ s with ready := false },[.release,.onSessionClosed s.ready])
  | .release => ({ s with tlsState := .disabled, socketOpen := false },[])
  | .onSessionClosed wasReady => ({ s with listed := false },if wasReady then [.disconnectedCallback] else [])
  | .disconnectedCallback =>
    ({ s with callbacks := s.callbacks ++ [.clientDisconnected] },if env.closes then [.close] else [])
  | .storeUnready => ({ s with ready := false },[])

/-- The calls of users, of the poller and of the timers; `close` stands for the other ways to
close the session, such as its end. -/
inductive Entry where
  | acceptNewConnections
  | disconnectClient
  | stop
  | expire
  | handleEvent
  | close

def Entry.moves : Entry → List Move
  | .acceptNewConnections => [.adopt]
  | .disconnectClient => [.disconnectClient]
  | .stop => [.stop]
  | .expire => [.expire]
  | .handleEvent => [.handleEvent]
  | .close => [.close]

abbrev Event := Threads.Event Entry Env

abbrev Pool := Guarded.Pool Session Move Locked

def step : Pool → Event → Pool := Guarded.step Entry.moves free guarded

def unborn (tls : Bool) : Pool := { shared := { tls } }

variable {s : Session} {env : Env} {m : Move} {g : Locked} {rest block : List Locked} {others : Multiset Move}

theorem handshakeTurn_cases (s : Session) (handshake : Handshake) :
    ((s.handshakeTurn handshake).1 = s ∧ (s.handshakeTurn handshake).2 ≠ .done) ∨
      (s.tlsState = .handshaking ∧ s.handshakeTurn handshake = ({ s with tlsState := .ready },.done)) := by
  unfold Session.handshakeTurn
  split
  · exact .inl ⟨rfl,by simp⟩
  · rename_i hstate
    cases handshake with
    | done => exact .inr ⟨by simpa using hstate,rfl⟩
    | _ => exact .inl ⟨rfl,by simp⟩

/-! ### Each callback is invoked once at most -/

def connections (s : Session) : Nat :=
  s.callbacks.count .clientConnected+(if s.adopted then 0 else 1)+(if s.tlsState = .handshaking then 1 else 0)

def Move.connects : Move → Nat
  | .insert | .start | .run | .secure | .initializeTls | .markReady | .readyCallback => 1
  | _ => 0

def Locked.connects : Locked → Nat
  | .markReady | .readyCallback => 1
  | _ => 0

theorem free_connections (s : Session) (env : Env) (m : Move) :
    connections (free s env m).1+((free s env m).2.1.map Move.connects).sum+
      ((free s env m).2.2.map Locked.connects).sum ≤ connections s+m.connects := by
  cases m with
  | driveTlsHandshake =>
    simp only [free]
    rcases handshakeTurn_cases s env.handshake with ⟨hsame,hopen⟩ | ⟨hstate,hdone⟩
    · cases hturn : (s.handshakeTurn env.handshake).2 <;> simp_all [connections,Move.connects]
    · simp [hdone,connections,hstate,Move.connects]
  | _ => grind [free,connections,Move.connects,Locked.connects]

theorem guarded_connections (s : Session) (env : Env) (g : Locked) :
    connections (guarded s env g).1+((guarded s env g).2.map Locked.connects).sum ≤ connections s+g.connects := by
  cases g with
  | driveTlsHandshake =>
    simp only [guarded]
    rcases handshakeTurn_cases s env.handshake with ⟨hsame,hopen⟩ | ⟨hstate,hdone⟩
    · cases hturn : (s.handshakeTurn env.handshake).2 <;> simp_all [connections,Locked.connects]
    · simp [hdone,connections,hstate,Locked.connects]
  | _ => grind [guarded,connections,Locked.connects]

def disconnections (s : Session) : Nat :=
  s.callbacks.count .clientDisconnected+(if s.adopted then 0 else 1)+(if s.running then 1 else 0)

def Move.disconnects : Move → Nat
  | .insert | .start | .run => 1
  | _ => 0

def Locked.disconnects : Locked → Nat
  | .unready | .onSessionClosed true | .disconnectedCallback => 1
  | _ => 0

theorem handshakeTurn_disconnections (s : Session) (handshake : Handshake) :
    disconnections (s.handshakeTurn handshake).1 = disconnections s := by
  rcases handshakeTurn_cases s handshake with ⟨hsame,-⟩ | ⟨-,hdone⟩
  · rw [hsame]
  · rw [hdone]
    rfl

theorem free_disconnections (s : Session) (env : Env) (m : Move) :
    disconnections (free s env m).1+((free s env m).2.1.map Move.disconnects).sum+
      ((free s env m).2.2.map Locked.disconnects).sum ≤ disconnections s+m.disconnects := by
  cases m with
  | driveTlsHandshake =>
    have hsame := handshakeTurn_disconnections s env.handshake
    simp only [free]
    cases (s.handshakeTurn env.handshake).2 <;> simp [hsame,Move.disconnects]
  | _ => grind [free,disconnections,Move.disconnects,Locked.disconnects]

theorem guarded_disconnections (s : Session) (env : Env) (g : Locked) :
    disconnections (guarded s env g).1+((guarded s env g).2.map Locked.disconnects).sum ≤
      disconnections s+g.disconnects := by
  cases g with
  | driveTlsHandshake =>
    have hsame := handshakeTurn_disconnections s env.handshake
    simp only [guarded]
    cases (s.handshakeTurn env.handshake).2 <;> simp [hsame,Locked.disconnects]
  | unready => cases hready : s.ready <;> simp [guarded,hready,disconnections,Locked.disconnects]
  | onSessionClosed wasReady => cases wasReady <;> simp [guarded,disconnections,Locked.disconnects]
  | _ => grind [guarded,disconnections,Locked.disconnects]

theorem entry_weights (entry : Entry) :
    (entry.moves.map Move.connects).sum = 0 ∧ (entry.moves.map Move.disconnects).sum = 0 := by
  cases entry <;> exact ⟨rfl,rfl⟩

theorem callbacks_once (tls : Bool) (events : List Event) (callback : Callback) :
    (runs step (unborn tls) events).shared.callbacks.count callback ≤ 1 := by
  cases callback with
  | clientConnected =>
    have hrun : connections (runs step (unborn tls) events).shared ≤ connections (unborn tls).shared :=
      Guarded.bounded connections Move.connects Locked.connects (fun entry => (entry_weights entry).1)
      free_connections guarded_connections rfl rfl events
    have hone : connections (unborn tls).shared = 1 := rfl
    rw [hone,connections] at hrun
    exact Nat.le_trans (by omega) hrun
  | clientDisconnected =>
    have hrun : disconnections (runs step (unborn tls) events).shared ≤ disconnections (unborn tls).shared :=
      Guarded.bounded disconnections Move.disconnects Locked.disconnects
      (fun entry => (entry_weights entry).2) free_disconnections guarded_disconnections rfl rfl events
    have hone : disconnections (unborn tls).shared = 1 := rfl
    rw [hone,disconnections] at hrun
    exact Nat.le_trans (by omega) hrun

/-! ### Their order -/

def InOrder (callbacks : List Callback) : Prop :=
  ∀ past, past ++ [.clientDisconnected] <+: callbacks → .clientConnected ∈ past

theorem inOrder_snoc {callbacks : List Callback} (h : InOrder callbacks) {callback : Callback}
    (hcon : callback = .clientDisconnected → .clientConnected ∈ callbacks) :
    InOrder (callbacks ++ [callback]) := by
  intro past hpast
  rcases prefix_concat_iff.mp hpast with hlast | hear
  · obtain ⟨rfl,hcal⟩ := append_inj' hlast rfl
    exact hcon (cons.inj hcal).1.symm
  · exact h past hear

/-- No close finds the session ready before the thread that starts it has invoked the connected
callback. -/
def NoEarlyClose (s : Session) (_block : List Locked) (others : Multiset Move) (_env : Env) : Move ⊕ Locked → Prop
  | .inr .unready => s.ready = true → .readyCallback ∉ others
  | _ => True

instance (s : Session) (block : List Locked) (others : Multiset Move) (env : Env) (move : Move ⊕ Locked) :
    Decidable (NoEarlyClose s block others env move) := by
  unfold NoEarlyClose
  split <;> infer_instance

structure Ordered (s : Session) (block : List Locked) (others : Multiset Move) : Prop where
  announced : s.ready = true → .clientConnected ∈ s.callbacks ∨ .readyCallback ∈ others ∨ .readyCallback ∈ block
  behind : .onSessionClosed true ∈ block ∨ .disconnectedCallback ∈ block → .clientConnected ∈ s.callbacks
  first : .readyCallback ∉ block.tail
  order : InOrder s.callbacks

theorem handshakeTurn_same (s : Session) (handshake : Handshake) :
    (s.handshakeTurn handshake).1.callbacks = s.callbacks ∧ (s.handshakeTurn handshake).1.ready = s.ready := by
  rcases handshakeTurn_cases s handshake with ⟨hsame,-⟩ | ⟨-,hdone⟩
  · rw [hsame]
    exact ⟨rfl,rfl⟩
  · rw [hdone]
    exact ⟨rfl,rfl⟩

section

variable (h : Ordered s (g :: rest) others)
include h

/-- The thread with the mutex goes on with `next`, and neither the flag nor the callbacks have
changed but to the better. -/
theorem Ordered.go {s' : Session} {next : List Locked}
    (hcal : s'.callbacks = s.callbacks) (hready : s'.ready = true → s.ready = true)
    (hg : g ≠ .readyCallback) (htail : .readyCallback ∉ next.tail)
    (hnext : .onSessionClosed true ∈ next ∨ .disconnectedCallback ∈ next → .clientConnected ∈ s.callbacks) :
    Ordered s' (next ++ rest) others := by
  have hrest : .readyCallback ∉ rest := h.first
  refine ⟨fun hnow => ?_,fun hbeh => ?_,?_,hcal ▸ h.order⟩
  · rw [hcal]
    rcases h.announced (hready hnow) with hcon | hoth | hblock
    · exact .inl hcon
    · exact .inr (.inl hoth)
    · rcases mem_cons.mp hblock with hg' | hblock
      · exact absurd hg'.symm hg
      · exact absurd hblock hrest
  · rw [hcal]
    rcases hbeh with hbeh | hbeh <;> rcases mem_append.mp hbeh with hbeh | hbeh
    · exact hnext (.inl hbeh)
    · exact h.behind (.inl (mem_cons_of_mem g hbeh))
    · exact hnext (.inr hbeh)
    · exact h.behind (.inr (mem_cons_of_mem g hbeh))
  · cases next with
    | nil => exact fun hmem => hrest (mem_of_mem_tail hmem)
    | cons m ms =>
      intro hmem
      rcases mem_append.mp hmem with hmem | hmem
      · exact htail hmem
      · exact hrest hmem

theorem Ordered.invoke (callback : Callback)
    (hcon : .clientConnected ∈ s.callbacks ++ [callback])
    (horder : callback = .clientDisconnected → .clientConnected ∈ s.callbacks) (closes : Bool) :
    Ordered { s with callbacks := s.callbacks ++ [callback] } ((if closes then [.close] else []) ++ rest) others := by
  refine ⟨fun _ => .inl hcon,fun _ => hcon,?_,inOrder_snoc h.order horder⟩
  have hrest : .readyCallback ∉ rest := h.first
  cases closes with
  | true => exact hrest
  | false => exact fun hmem => hrest (mem_of_mem_tail hmem)

theorem Ordered.guarded (hok : NoEarlyClose s (g :: rest) others env (.inr g)) :
    Ordered (guarded s env g).1 ((guarded s env g).2 ++ rest) others := by
  cases g with
  | abortStartup => exact h.go rfl nofun (by simp) (by simp [guarded]) (by simp [guarded])
  | handleEvent =>
    simp only [guarded]
    split
    · exact h.go rfl id (by simp) (by simp) (by simp)
    · split <;> exact h.go rfl id (by simp) (by simp) (by simp)
  | driveTlsHandshake =>
    have hsame := handshakeTurn_same s env.handshake
    simp only [guarded]
    cases (s.handshakeTurn env.handshake).2 <;>
      exact h.go hsame.1 (fun hready => hsame.2 ▸ hready) (by simp) (by simp) (by simp)
  | transfer =>
    simp only [guarded]
    split <;> exact h.go rfl id (by simp) (by simp) (by simp)
  | markReady =>
    simp only [guarded]
    split
    · exact h.go rfl id (by simp) (by simp) (by simp)
    · refine ⟨fun _ => .inr (.inr mem_cons_self),fun hbeh => h.behind ?_,h.first,h.order⟩
      simpa using hbeh
  | readyCallback => exact h.invoke .clientConnected (by simp) (by simp) env.closes
  | close =>
    simp only [guarded]
    split <;> exact h.go rfl id (by simp) (by simp) (by simp)
  | unready =>
    refine h.go rfl nofun (by simp) (by simp [guarded]) (fun hbeh => ?_)
    have hready : s.ready = true := by simpa [guarded] using hbeh
    rcases h.announced hready with hcon | hoth | hblock
    · exact hcon
    · exact absurd hoth (hok hready)
    · rcases mem_cons.mp hblock with hunr | hrest
      · cases hunr
      · exact absurd hrest h.first
  | release => exact h.go rfl id (by simp) (by simp [guarded]) (by simp [guarded])
  | onSessionClosed wasReady =>
    cases wasReady with
    | true =>
      have hcon := h.behind (.inl mem_cons_self)
      exact h.go rfl id (by simp) (by simp [guarded]) (fun _ => hcon)
    | false => exact h.go rfl id (by simp) (by simp [guarded]) (by simp [guarded])
  | disconnectedCallback =>
    have hcon := h.behind (.inr mem_cons_self)
    exact h.invoke .clientDisconnected (mem_append_left _ hcon) (fun _ => hcon) env.closes
  | storeUnready => exact h.go rfl nofun (by simp) (by simp [guarded]) (by simp [guarded])

end

theorem Ordered.free (h : Ordered s block (m ::ₘ others)) :
    Ordered (free s env m).1 block ((free s env m).2.1 + others) := by
  have hkeep {s' : Session} {next : List Move} (hcal : s'.callbacks = s.callbacks)
      (hready : s'.ready = s.ready) (hm : m ≠ .readyCallback) : Ordered s' block (next + others) := by
    refine ⟨fun hnow => ?_,hcal ▸ h.behind,h.first,hcal ▸ h.order⟩
    rw [hcal]
    rcases h.announced (hready ▸ hnow) with hcon | hoth | hblock
    · exact .inl hcon
    · rcases Multiset.mem_cons.mp hoth with hm' | hoth
      · exact absurd hm'.symm hm
      · exact .inr (.inl (Multiset.mem_add.mpr (.inr hoth)))
    · exact .inr (.inr hblock)
  cases m with
  | adopt =>
    simp only [free]
    split <;> exact hkeep rfl rfl (by simp)
  | insert =>
    simp only [free]
    split <;> exact hkeep rfl rfl (by simp)
  | start =>
    simp only [free]
    split <;> exact hkeep rfl rfl (by simp)
  | initializeTls =>
    simp only [free]
    split <;> exact hkeep rfl rfl (by simp)
  | driveTlsHandshake =>
    have hsame := handshakeTurn_same s env.handshake
    simp only [free]
    cases (s.handshakeTurn env.handshake).2 <;> exact hkeep hsame.1 hsame.2 (by simp)
  | markReady =>
    simp only [free]
    split
    · exact hkeep rfl rfl (by simp)
    · exact ⟨fun _ => .inr (.inl (Multiset.mem_add.mpr (.inl (Multiset.mem_coe.mpr mem_cons_self)))),h.behind,
        h.first,h.order⟩
  | readyCallback =>
    have hcon : .clientConnected ∈ s.callbacks ++ [.clientConnected] := by simp
    exact ⟨fun _ => .inl hcon,fun _ => hcon,h.first,inOrder_snoc h.order nofun⟩
  | _ => exact hkeep rfl rfl (by simp)

theorem free_enters (s : Session) (env : Env) (m : Move) :
    (free s env m).2.2 = [] ∨ (free s env m).2.2 = [.abortStartup] ∨ (free s env m).2.2 = [.handleEvent] ∨
      (free s env m).2.2 = [.close] := by
  cases m with
  | driveTlsHandshake =>
    simp only [free]
    cases (s.handshakeTurn env.handshake).2 <;> exact .inl rfl
  | _ => grind [free]

theorem Ordered.enter (h : Ordered s [] (m ::ₘ others)) :
    Ordered (ClientSession.free s env m).1 (ClientSession.free s env m).2.2
      ((ClientSession.free s env m).2.1 + others) := by
  have hfree : Ordered (ClientSession.free s env m).1 [] ((ClientSession.free s env m).2.1 + others) := h.free
  have hone (g : Locked) (hg : g ≠ .onSessionClosed true ∧ g ≠ .disconnectedCallback) :
      Ordered (ClientSession.free s env m).1 [g] ((ClientSession.free s env m).2.1 + others) := by
    refine ⟨fun hready => ?_,fun hbeh => ?_,by simp,hfree.order⟩
    · exact (hfree.announced hready).imp id (fun hpen => .inl (by simpa using hpen))
    · simp only [mem_singleton] at hbeh
      exact (hbeh.elim (fun heq => hg.1 heq.symm) (fun heq => hg.2 heq.symm)).elim
  rcases free_enters s env m with hblock | hblock | hblock | hblock
  · rw [hblock]
    exact hfree
  · rw [hblock]
    exact hone _ (by simp)
  · rw [hblock]
    exact hone _ (by simp)
  · rw [hblock]
    exact hone _ (by simp)

theorem ordered_run (tls : Bool) {events : List Event}
    (hok : Meets step (Guarded.Allowed (fun _ => True) NoEarlyClose) (unborn tls) events) :
    let p := runs step (unborn tls) events
    Ordered p.shared p.block p.pending := by
  refine Guarded.invariant (fun _ => True) NoEarlyClose (fun s block others entry _ h => ?_)
    (fun s block others env m _ h _ => h.free) (fun s others env m _ h => h.enter)
    (fun s rest others env g hok h => h.guarded hok) ?_ hok
  · refine ⟨fun hready => ?_,h.behind,h.first,h.order⟩
    exact (h.announced hready).imp id (fun hpen => hpen.imp (fun hoth => Multiset.mem_add.mpr (.inr hoth)) id)
  · exact ⟨nofun,by simp [unborn],by simp [unborn],by simp [unborn,InOrder]⟩

/-- For every id and in every run in which no close comes between the session getting ready and
its connected callback, the two callbacks are invoked once at most and in their order. -/
theorem callbacks_in_order (tls : Bool) {events : List Event}
    (hok : Machine.Meets step (Guarded.Allowed (fun _ => True) NoEarlyClose) (unborn tls) events) :
    let callbacks := (Machine.runs step (unborn tls) events).shared.callbacks
    callbacks.count .clientConnected ≤ 1 ∧ callbacks.count .clientDisconnected ≤ 1 ∧ InOrder callbacks :=
  ⟨callbacks_once tls events .clientConnected,callbacks_once tls events .clientDisconnected,(ordered_run tls hok).order⟩

def visit : List Event :=
  [.call .acceptNewConnections,.move 0 {},.move 0 {},.move 0 {},.move 0 {},.move 0 {},.move 0 {},.move 0 {},
    .call .stop,.move 1 {},.move 1 {},.move 1 {},.move 1 {},.move 1 {},.move 1 {},.move 1 {}]

theorem callbacks_in_order_visit :
    Machine.Meets step (Guarded.Allowed (fun _ => True) NoEarlyClose) (unborn false) visit ∧
      (Machine.runs step (unborn false) visit).shared.callbacks = [.clientConnected, .clientDisconnected] ∧
      InOrder (Machine.runs step (unborn false) visit).shared.callbacks :=
  have hok : Machine.Meets step (Guarded.Allowed (fun _ => True) NoEarlyClose) (unborn false) visit := by decide
  ⟨hok,by decide,(callbacks_in_order false hok).2.2⟩

def hastyStop : List Event :=
  [.call .acceptNewConnections,.move 0 {},.move 0 {},.move 0 {},.move 0 {},.move 0 {},.move 0 {},
    .call .stop,.move 1 {},.move 1 {},.move 1 {},.move 1 {},.move 1 {},.move 1 {},.move 1 {},.move 0 {}]

theorem hastyStop_callbacks :
    (Machine.runs step (unborn false) hastyStop).shared.callbacks = [.clientDisconnected, .clientConnected] := by
  decide

end FastNet.ClientSession
