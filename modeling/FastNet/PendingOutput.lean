import FastNet.TcpClientStream
import FastNet.TcpServerStream

/-!
Output that waits for the poller: when it is written in the end.
-/

namespace FastNet

open Machine List TcpServer Threads

namespace TcpServer

structure Session.Waiting (s : Session) : Prop where
  ready : s.ready = true
  output : s.sendQueue ≠ []
  idle : s.flushRunning = false

def Session.awaited (s : Session) : Entry := if s.writeWait = .read then .handleRead else .handleWrite

def Session.registered (s : Session) : Entry → Prop
  | .handleRead => True
  | .handleWrite => s.writeInterestEnabled = true
  | _ => False

def Session.Served (s : Session) : Prop :=
  s.registered s.awaited ∧ Threads.Leads perform s s.awaited.moves .flush

variable {s : Session} {env : Env} {m : Move}

def Interest (s : Session) : Prop := s.closing = none → s.writeInterestEnabled = s.shouldEnableWrite

theorem interest_refresh (s : Session) : Interest s.refreshInterestLocked := by
  intro hclos
  have hclos : s.closing = none := hclos
  simp [Session.refreshInterestLocked,hclos,Session.shouldEnableWrite]

theorem interest_dispatchFlush (h : Interest s) : Interest s.dispatchFlush.1 := by
  simp only [Session.dispatchFlush,Session.markFlushScheduledLocked]
  split
  · exact h
  · split <;> exact h

theorem interest_closeIfFlushed (s : Session) (otherwise : List Move) : Interest (s.closeIfFlushed otherwise).1 := by
  unfold Session.closeIfFlushed
  split <;> exact interest_refresh _

theorem setEntry_isEmpty (s : Session) (i : Nat) (send : PendingSend) :
    (s.setEntry i send).sendQueue.isEmpty = s.sendQueue.isEmpty := by
  simp [Session.setEntry]

theorem Interest.perform (h : Interest s) (hclear : m = .clearQueuesAndWaits → s.closing ≠ none) :
    Interest (perform s env m).1 := by
  cases m with
  | enqueue entries => exact interest_dispatchFlush (interest_refresh _)
  | schedule => exact interest_dispatchFlush h
  | setReadWait wait => exact interest_refresh _
  | setWriteWait wait => exact interest_refresh _
  | discard i => exact interest_closeIfFlushed _ _
  | settle i => exact interest_closeIfFlushed _ _
  | look =>
    simp only [perform]
    split
    · exact interest_closeIfFlushed _ _
    · exact h
  | write i =>
    simp only [perform]
    split
    · intro hclos
      have hsame := h hclos
      simp only [Session.shouldEnableWrite,setEntry_isEmpty] at hsame ⊢
      exact hsame
    · exact h
  | closeAfterPendingWrites =>
    simp only [perform]
    split
    · exact h
    · exact interest_refresh _
  | clearQueuesAndWaits => exact fun hclos => absurd hclos (hclear rfl)
  | close cause =>
    cases hclos : s.closing with
    | none => simp [perform,hclos,Interest]
    | some begun => simpa [perform,hclos] using h
  | _ => grind [perform,Interest,Session.shouldEnableWrite]

theorem interest_run (tls : Bool) (events : List Event) : Interest (runs step (started tls) events).shared := by
  have hrun := @invariant_always _ _ _ _ Entry.moves perform (fun s pending => Lasting s pending ∧ Interest s)
    (fun _ _ entry h => ⟨h.1.call entry,h.2⟩) (fun s others env m h => ⟨h.1.perform env,h.2.perform ?_⟩) (started tls)
    ⟨lasting_started tls,fun _ => rfl⟩ events
  · exact hrun.2
  · rintro rfl hclos
    exact (h.1.running hclos).relies _ (Multiset.mem_cons_self _ _)

/-- The moves that `handleRead` is made of, up to a close. -/
def Move.reads : Move → Bool
  | .handleRead | .receive | .setReadWait _ | .close _ | .unready | .clearQueuesAndWaits | .closeSocket => true
  | _ => false

theorem perform_reads (h : m.reads = true) : ∀ m' ∈ (perform s env m).2, m'.reads = true := by
  cases m with
  | handleRead =>
    simp only [perform]
    split <;> simp [Move.reads]
  | receive =>
    simp only [perform]
    cases (if s.socketOpen then env.receive else .failed) with
    | bytes full => cases full <;> simp [readMoves,Move.reads]
    | _ => simp [readMoves,Move.reads]
  | setReadWait wait => simp [perform]
  | close cause => cases hclos : s.closing <;> simp [perform,hclos,Move.reads]
  | unready => simp [perform]
  | clearQueuesAndWaits => simp [perform]
  | closeSocket => simp [perform]
  | _ => cases h

theorem awaited_avoids_flush (h : s.closing = none → s.writeWait = .read) (envs : List Env) :
    (alone perform s s.awaited.moves envs).2.head? ≠ some .flush := by
  refine alone_avoids
    (fun s moves => (∀ m ∈ moves, m.reads = true) ∨ (moves = [.handleWrite] ∧ s.closing ≠ none)) (fun _ => True)
    (fun s env m rest _ hinv => .inl ?_) (fun s rest hinv => ?_) ?_ (fun _ _ => trivial)
  · rcases hinv with hreads | ⟨hmoves,hclos⟩
    · intro m' hm'
      rcases mem_append.mp hm' with hm' | hm'
      · exact perform_reads (hreads m mem_cons_self) m' hm'
      · exact hreads m' (mem_cons_of_mem m hm')
    · obtain ⟨rfl,rfl⟩ := cons.inj hmoves
      simp [perform,hclos]
  · rcases hinv with hreads | ⟨hmoves,-⟩
    · exact absurd (hreads _ mem_cons_self) (by simp [Move.reads])
    · cases (cons.inj hmoves).1
  · unfold Session.awaited
    split
    · exact .inl (by simp [Entry.moves,Move.reads])
    · rename_i hwait
      exact .inr ⟨rfl,fun hclos => hwait (h hclos)⟩

theorem leads_flush (hclos : s.closing = none) (hidle : s.flushRunning = false) :
    Threads.Leads perform s Entry.handleWrite.moves .flush := by
  have hhan (env : Env) : perform s env .handleWrite = (s,[.schedule]) := by simp [perform,hclos]
  exact leads_move hhan
    (leads_move (fun env => dispatchFlush_idle hclos hidle) (leads_now _ _))

theorem Session.Waiting.served_iff (h : s.Waiting) (hint : Interest s) :
    s.Served ↔ s.closing = none ∧ s.writeWait ≠ .read := by
  constructor
  · rintro ⟨-,hleads⟩
    by_contra hnot
    refine not_leads {} (fun n => awaited_avoids_flush (fun hclos => ?_) _) hleads
    by_contra hwait
    exact hnot ⟨hclos,hwait⟩
  · rintro ⟨hclos,hwait⟩
    have haw : s.awaited = .handleWrite := if_neg hwait
    rw [Session.Served,haw]
    refine ⟨?_,leads_flush hclos h.idle⟩
    show s.writeInterestEnabled = true
    rw [hint hclos]
    simp [Session.shouldEnableWrite,h.output,hwait]

end TcpServer

namespace TcpClient

structure Client.Waiting (c : Client) : Prop where
  connected : c.connected = true
  output : c.sendQueue ≠ []
  idle : c.flushRunning = false

def Client.awaited (c : Client) : Locked := if c.writeWait = .read then .handleRead else .handleWrite

def Client.registered (c : Client) : Locked → Prop
  | .handleRead => True
  | .handleWrite => c.writeInterestEnabled = true
  | _ => False

def Client.Served (c : Client) : Prop := c.registered c.awaited ∧ Threads.Leads guarded c [c.awaited] .flush

variable {c c' : Client} {env : Env} {g : Locked} {rest : List Locked}

def Interest (c : Client) : Prop :=
  c.closing = none → c.tlsState ≠ .handshaking → c.writeInterestEnabled = c.shouldEnableWrite

theorem interest_refresh (c : Client) : Interest c.refreshInterestLocked := by
  intro hclos _
  have hclos : c.closing = none := hclos
  simp [Client.refreshInterestLocked,hclos,Client.shouldEnableWrite]

theorem interest_dispatchFlush (h : Interest c) : Interest c.dispatchFlush.1 := by
  simp only [Client.dispatchFlush,Client.markFlushScheduledLocked]
  split
  · exact h
  · split <;> exact h

theorem interest_closeIfFlushed (c : Client) (otherwise : List Locked) : Interest (c.closeIfFlushed otherwise).1 := by
  unfold Client.closeIfFlushed
  split <;> exact interest_refresh _

theorem interest_checkPendingWrites (h : Interest c) : Interest c.checkPendingWrites.1 := by
  unfold Client.checkPendingWrites
  split
  · exact h
  · exact interest_refresh _

theorem interest_settle (c : Client) (size bytes : Nat) : Interest (c.settle size bytes).1 := by
  simp only [Client.settle]
  split
  · exact interest_refresh _
  · exact interest_closeIfFlushed _ _

theorem Interest.guarded (h : Interest c) (hcl : g.closes = true → c.closing ≠ none) :
    Interest (guarded c env g).1 := by
  cases g with
  | enqueue data => exact interest_dispatchFlush (interest_refresh _)
  | startTls =>
    simp only [TcpClient.guarded]
    split
    · exact h
    · split
      · exact h
      · split
        · exact fun _ hstate => absurd rfl hstate
        · exact h
  | driveTlsHandshake =>
    simp only [TcpClient.guarded]
    split
    · exact h
    · cases env.handshake with
      | done => exact interest_refresh _
      | wantRead => exact h
      | wantWrite => exact h
      | failed => exact h
  | setHandshakeWait wait => exact interest_refresh _
  | setReadWait wait => exact interest_refresh _
  | schedule => exact interest_dispatchFlush h
  | look =>
    simp only [TcpClient.guarded]
    split
    · exact interest_closeIfFlushed _ _
    · exact h
  | wrote size bytes => exact interest_refresh _
  | settle size bytes => exact interest_settle c size bytes
  | blocked wait => exact interest_refresh _
  | check => exact interest_checkPendingWrites h
  | close cause =>
    simp only [TcpClient.guarded]
    split
    · exact h
    · split
      · rintro ⟨⟩
      · exact h
  | unconnect => exact fun hclos => absurd hclos (hcl rfl)
  | clearQueuesAndWaits => exact fun hclos => absurd hclos (hcl rfl)
  | closeSocket => exact fun hclos => absurd hclos (hcl rfl)
  | _ => grind [TcpClient.guarded,Interest,Client.shouldEnableWrite]

theorem interest_free (h : Interest c) (m : Move) : Interest (free c env m).1 := by
  cases m with
  | check => exact interest_checkPendingWrites h
  | _ => exact h

theorem Inv.closes (h : Inv c (g :: rest)) (hg : g.closes = true) : c.closing ≠ none := by
  rcases h with hrun | hclos
  · have hrel := hrun.relies g rfl
    cases g <;> first | exact hrel.elim | cases hg
  · exact hclos.closing

theorem interest_run (tls : Bool) (events : List Event) :
    Interest (runs step (connectedClient tls) events).shared := by
  have hrun := @Guarded.invariant_always _ _ _ _ _ Entry.moves free guarded (fun c block _ => Inv c block ∧ Interest c)
    (fun c block others entry h => h)
    (fun c block others env m h _ => ⟨(same_free c env m).inv h.1,interest_free h.2 m⟩)
    (fun c others env m h => ⟨(same_free c env m).inv (h.1.enter m),interest_free h.2 m⟩)
    (fun c rest others env g h => ⟨h.1.guarded,h.2.guarded h.1.closes⟩) (connectedClient tls)
    ⟨inv_connected tls,fun _ _ => by cases tls <;> rfl⟩ events
  exact hrun.2

/-- The moves that `handleRead` and the handshake are made of, up to a close. -/
def Locked.reads : Locked → Bool
  | .handleRead | .driveTlsHandshake | .setHandshakeWait _ | .readLoop | .receive | .setReadWait _ | .close _
  | .unconnect | .clearQueuesAndWaits | .closeSocket | .callback => true
  | _ => false

theorem guarded_reads (hcalls : env.calls = []) (h : g.reads = true) : ∀ g' ∈ (guarded c env g).2, g'.reads = true := by
  cases g with
  | handleRead =>
    simp only [guarded]
    split
    · simp
    · split <;> simp [Locked.reads]
  | driveTlsHandshake =>
    simp only [guarded]
    split
    · simp
    · cases env.handshake <;> simp [Locked.reads]
  | setHandshakeWait wait => simp [guarded]
  | readLoop =>
    simp only [guarded]
    split <;> simp [Locked.reads]
  | receive =>
    simp only [guarded]
    cases (if c.socketOpen then env.receive else .failed) with
    | bytes full => cases full <;> simp [readMoves,Locked.reads]
    | _ => simp [readMoves,Locked.reads]
  | setReadWait wait => simp [guarded]
  | close cause =>
    simp only [guarded]
    split
    · simp [Locked.reads]
    · split <;> simp [Locked.reads]
  | unconnect => simp [guarded]
  | clearQueuesAndWaits => simp [guarded]
  | closeSocket => simp [guarded]
  | callback => simp [guarded,hcalls]
  | _ => cases h

theorem awaited_avoids_flush (h : c.closing = none → c.tlsState ≠ .handshaking → c.writeWait = .read) {envs : List Env}
    (henvs : ∀ env ∈ envs, env.calls = []) : (alone guarded c [c.awaited] envs).2.head? ≠ some .flush := by
  refine alone_avoids
    (fun c moves => (∀ g ∈ moves, g.reads = true) ∨
      (moves = [.handleWrite] ∧ (c.closing ≠ none ∨ c.tlsState = .handshaking))) (fun env => env.calls = [])
    (fun c env g rest hcalls hinv => .inl ?_) (fun c rest hinv => ?_) ?_ henvs
  · rcases hinv with hreads | ⟨hmoves,hstate⟩
    · intro g' hg'
      rcases mem_append.mp hg' with hg' | hg'
      · exact guarded_reads hcalls (hreads g mem_cons_self) g' hg'
      · exact hreads g' (mem_cons_of_mem g hg')
    · obtain ⟨rfl,rfl⟩ := cons.inj hmoves
      simp only [guarded]
      split
      · simp
      · rename_i hclos
        rw [if_pos (hstate.resolve_left hclos)]
        simp [Locked.reads]
  · rcases hinv with hreads | ⟨hmoves,-⟩
    · exact absurd (hreads _ mem_cons_self) (by simp [Locked.reads])
    · cases (cons.inj hmoves).1
  · unfold Client.awaited
    split
    · exact .inl (by simp [Locked.reads])
    · rename_i hwait
      refine .inr ⟨rfl,?_⟩
      by_contra hnot
      rw [not_or,not_not] at hnot
      exact hwait (h hnot.1 hnot.2)

theorem leads_flush (hclos : c.closing = none) (hstate : c.tlsState ≠ .handshaking) (hidle : c.flushRunning = false) :
    Threads.Leads guarded c [.handleWrite] .flush := by
  have hhan (env : Env) : guarded c env .handleWrite = (c,[.schedule]) := by simp [guarded,hclos,hstate]
  exact leads_move hhan
    (leads_move (fun env => dispatchFlush_idle hclos hidle) (leads_now _ _))

theorem Client.Waiting.served_iff (h : c.Waiting) (hint : Interest c) :
    c.Served ↔ c.closing = none ∧ c.tlsState ≠ .handshaking ∧ c.writeWait ≠ .read := by
  constructor
  · rintro ⟨-,hleads⟩
    by_contra hnot
    refine not_leads {} (fun n => awaited_avoids_flush (fun hclos hstate => ?_) ?_) hleads
    rotate_left
    · intro env henv
      rw [eq_of_mem_replicate henv]
    by_contra hwait
    exact hnot ⟨hclos,hstate,hwait⟩
  · rintro ⟨hclos,hstate,hwait⟩
    have haw : c.awaited = .handleWrite := if_neg hwait
    rw [Client.Served,haw]
    refine ⟨?_,leads_flush hclos hstate h.idle⟩
    show c.writeInterestEnabled = true
    rw [hint hclos hstate]
    simp [Client.shouldEnableWrite,h.output,hwait,hstate]

end TcpClient

/-- Output that waits is served in every run, for sessions of the server and for clients,
exactly when nothing of the three stands against it. -/
theorem output_served_iff (tls : Bool) (sessionEvents : List TcpServer.Event) (clientEvents : List TcpClient.Event) :
    let s := (Machine.runs TcpServer.step (TcpServer.started tls) sessionEvents).shared
    let c := (Machine.runs TcpClient.step (TcpClient.connectedClient tls) clientEvents).shared
    (s.Waiting → (s.Served ↔ s.closing = none ∧ s.writeWait ≠ .read)) ∧
      (c.Waiting → (c.Served ↔ c.closing = none ∧ c.tlsState ≠ .handshaking ∧ c.writeWait ≠ .read)) := by
  intro s c
  refine ⟨fun h => ?_,fun h => ?_⟩
  · exact h.served_iff (TcpServer.interest_run tls sessionEvents)
  · exact h.served_iff (TcpClient.interest_run tls clientEvents)

def blockedSend (wantRead : Bool) : List TcpServer.Event :=
  [.call (.send [104]),.move 0 {},.move 0 {},.move 0 {},.move 0 {},.move 0 {},.move 0 {},
    .move 0 { transfer := .wouldBlock wantRead },.move 0 {},.move 0 {}]

theorem output_served_plain :
    let s := (Machine.runs TcpServer.step (TcpServer.started true) (blockedSend false)).shared
    s.Waiting ∧ s.Served := by
  have hwait : (Machine.runs TcpServer.step (TcpServer.started true) (blockedSend false)).shared.Waiting :=
    ⟨by decide,List.ne_nil_of_length_pos (by decide),by decide⟩
  refine ⟨hwait,((output_served_iff true (blockedSend false) []).1 hwait).mpr ⟨by decide,by decide⟩⟩

/-- TLS has to read before it can write: the session waits for an event to read, and whatever
the handler of that event meets, it does not come to a flush. -/
theorem output_stuck :
    let s := (Machine.runs TcpServer.step (TcpServer.started true) (blockedSend true)).shared
    s.Waiting ∧ s.closing = none ∧ s.awaited = .handleRead ∧ s.writeInterestEnabled = false ∧
      ∀ envs, (Threads.alone TcpServer.perform s s.awaited.moves envs).2.head? ≠ some .flush := by
  refine ⟨⟨by decide,?_,by decide⟩,by decide,?_,by decide,TcpServer.awaited_avoids_flush (fun _ => by decide)⟩
  · exact List.ne_nil_of_length_pos (by decide)
  · exact if_pos (by decide)

end FastNet
