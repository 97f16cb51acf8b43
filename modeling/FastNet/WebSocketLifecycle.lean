import FastNet.WebSocketClient

/-!
The life of a `WebSocketClient` between two calls of `connect`.
-/

namespace FastNet.WebSocketClient

open OffsetBuffer List Client

namespace Notice

def isConnect : Notice → Bool
  | .connect _ _ _ => true
  | _ => false

/-- The callback that was passed to `connect` is told. -/
def isOneShot : Notice → Bool
  | .connect oneShot _ _ => oneShot
  | _ => false

def isClose : Notice → Bool
  | .close _ _ => true
  | _ => false

def isMessage : Notice → Bool
  | .text _ => true
  | .binary _ => true
  | _ => false

end Notice

namespace Item

def isClose : Item → Bool
  | .frame .close _ => true
  | _ => false

def isData : Item → Bool
  | .frame .text _ => true
  | .frame .binary _ => true
  | _ => false

end Item

section Records

variable {c c' c'' : Client} {notices notices' : List Notice} {items items' : List Item}
  {frames frames' : List (WSFrameType × Bytes)}

/-- What a part of a run adds to the records of a client. The flags of the callbacks go
along with it. -/
structure Adds (c c' : Client) (notices : List Notice) (items : List Item)
    (frames : List (WSFrameType × Bytes)) : Prop where
  log : c'.log = c.log ++ notices
  queued : c'.queued = c.queued ++ items
  handled : c'.handled = c.handled ++ frames
  closes : notices.countP Notice.isClose + c.closeNotified.toNat = c'.closeNotified.toNat
  oneShots : notices.countP Notice.isOneShot + c'.pendingConnectCallback.toNat =
    c.pendingConnectCallback.toNat
  answered : 0 < notices.countP Notice.isConnect → c'.pendingConnectCallback = false

theorem Adds.refl (c : Client) : Adds c c [] [] [] := by
  constructor <;> simp

theorem Adds.trans (h : Adds c c' notices items frames) (h' : Adds c' c'' notices' items' frames') :
    Adds c c'' (notices ++ notices') (items ++ items') (frames ++ frames') := by
  have hcl := h.closes
  have hclos := h'.closes
  have honeShots := h.oneShots
  have honeShots' := h'.oneShots
  constructor
  · rw [h'.log,h.log,append_assoc]
  · rw [h'.queued,h.queued,append_assoc]
  · rw [h'.handled,h.handled,append_assoc]
  · rw [countP_append]
    omega
  · rw [countP_append]
    omega
  · intro hpos
    rw [countP_append] at hpos
    rcases Nat.eq_zero_or_pos (notices.countP Notice.isConnect) with hzero | hpos'
    · exact h'.answered (by omega)
    · have hans := h.answered hpos'
      rw [hans] at honeShots'
      cases hp : c''.pendingConnectCallback with
      | false => rfl
      | true =>
        rw [hp] at honeShots'
        simp at honeShots'

theorem adds_tell (c : Client) (notice : Notice) (hclose : notice.isClose = false)
    (hcon : notice.isConnect = false) (honeShot : notice.isOneShot = false) :
    Adds c (c.tell notice) [notice] [] [] := by
  constructor <;> simp [Client.tell,hclose,hcon,honeShot]

theorem adds_notifyConnect (c : Client) (success : Bool) (message : Bytes) :
    Adds c (c.notifyConnect success message) [.connect c.pendingConnectCallback success message] [] [] := by
  constructor <;> simp [Client.notifyConnect,Client.tell,Notice.isClose,Notice.isOneShot]
  cases c.pendingConnectCallback <;> simp

end Records

section HangsUp

variable {c c' c'' : Client}

/-- The `TcpClient` holds the callback of `connect` only while it is connecting. -/
def Held (c : Client) : Prop := c.tcpCallback = true → c.transport = .connecting

/-- The transport is closed: the callback that the `TcpClient` still holds is told of the
failure, and a connection that was there is reported as ended. -/
structure HangsUp (c c' : Client) : Prop where
  adds : ∃ notices, Adds c c' notices [] [] ∧ (∀ n ∈ notices, n.isMessage = false) ∧
    notices.countP Notice.isConnect = c.tcpCallback.toNat
  reading : c'.reading = c.reading
  transport : c'.transport = .idle
  tcpCallback : c'.tcpCallback = false
  open_ : c.transport = .connected → c'.state = .disconnected ∧ c'.closeFrameSent = false ∧ c'.buffer = []
  closed : c.transport ≠ .connected →
    c'.state = c.state ∧ c'.closeFrameSent = c.closeFrameSent ∧ c'.buffer = c.buffer ∧ c'.connected = c.connected

theorem HangsUp.trans (h : HangsUp c c') (h' : HangsUp c' c'') : HangsUp c c'' := by
  obtain ⟨notices,hadds,hmess,hco⟩ := h.adds
  obtain ⟨notices',hadds',hmes,hconn⟩ := h'.adds
  have hidle : c'.transport ≠ .connected := by simp [h.transport]
  obtain ⟨hstate,hsent,hbuf,hcon⟩ := h'.closed hidle
  constructor
  · refine ⟨notices ++ notices',hadds.trans hadds',?_,?_⟩
    · intro n hn
      rcases mem_append.mp hn with hn | hn
      · exact hmess n hn
      · exact hmes n hn
    · rw [countP_append,hco,hconn,h.tcpCallback]
      rfl
  · rw [h'.reading,h.reading]
  · exact h'.transport
  · exact h'.tcpCallback
  · rw [hstate,hsent,hbuf]
    exact h.open_
  · rw [hstate,hsent,hbuf,hcon]
    exact h.closed

theorem HangsUp.told {message : Bytes} (h : HangsUp (c.tell (.error message)) c') : HangsUp c c' := by
  obtain ⟨notices,hadds,hmes,hcon⟩ := h.adds
  refine ⟨⟨.error message :: notices,(adds_tell c (.error message) rfl rfl rfl).trans hadds,?_,?_⟩,
    h.reading,h.transport,h.tcpCallback,h.open_,h.closed⟩
  · intro n hn
    rcases mem_cons.mp hn with rfl | hn
    · rfl
    · exact hmes n hn
  · rw [countP_cons,hcon]
    rfl

theorem adds_notifyClose (c : Client) (code : Nat) (reason : Bytes) :
    ∃ notices, Adds c (c.notifyClose code reason) notices [] [] ∧ (∀ n ∈ notices, n.isMessage = false) ∧
      notices.countP Notice.isConnect = 0 := by
  unfold Client.notifyClose
  split
  · exact ⟨[],.refl c,by simp,rfl⟩
  · rename_i h
    refine ⟨[.close code reason],?_,by simp [Notice.isMessage],rfl⟩
    constructor <;> simp_all [Client.tell,Notice.isClose,Notice.isOneShot,Notice.isConnect]

theorem adds_closed (c : Client) (payload : Bytes) (code : Nat) (reason : Bytes) :
    ∃ notices, Adds c (notifyClose { c with handled := c.handled ++ [(.close,payload)] } code reason) notices []
        [(.close,payload)] ∧
      (∀ n ∈ notices, n.isMessage = false) ∧ notices.countP Notice.isConnect = 0 := by
  have hhan : Adds c { c with handled := c.handled ++ [(.close,payload)] } [] [] [(.close,payload)] := by
    constructor <;> simp
  obtain ⟨notices,hadds,hquiet⟩ :=
    adds_notifyClose { c with handled := c.handled ++ [(.close,payload)] } code reason
  exact ⟨notices,hhan.trans hadds,hquiet⟩

theorem adds_message (c : Client) (frame : WSFrameType × Bytes) {notice : Notice} (h : notice.isMessage = true) :
    Adds c (Client.tell { c with handled := c.handled ++ [frame] } notice) [notice] [] [frame] := by
  constructor <;> cases notice <;>
    simp_all [Client.tell,Notice.isMessage,Notice.isClose,Notice.isOneShot,Notice.isConnect]

theorem notifyClose_frame (c : Client) (code : Nat) (reason : Bytes) :
    (c.notifyClose code reason).reading = c.reading ∧ (c.notifyClose code reason).transport = c.transport ∧
      (c.notifyClose code reason).tcpCallback = c.tcpCallback ∧ (c.notifyClose code reason).state = c.state ∧
      (c.notifyClose code reason).closeFrameSent = c.closeFrameSent ∧
      (c.notifyClose code reason).buffer = c.buffer := by
  unfold notifyClose
  split
  · exact ⟨rfl,rfl,rfl,rfl,rfl,rfl⟩
  · exact ⟨rfl,rfl,rfl,rfl,rfl,rfl⟩

theorem hangsUp_closeWithReason (reason : Bytes) (h : c.tcpCallback = false) :
    HangsUp c (c.closeWithReason reason) := by
  unfold closeWithReason
  split
  · rename_i htran
    simp only [handleDisconnected]
    generalize hidle : ({ c with
      transport := .idle, connected := false, closeFrameSent := false, state := .disconnected, buffer := [],
      bufferOffset := 0 } : Client) = d
    have hsame : Adds c d [] [] [] := by
      subst hidle
      constructor <;> simp
    have hread : d.reading = c.reading := by rw [← hidle]
    have hcal : d.tcpCallback = false := by rw [← hidle]; exact h
    have hend : d.transport = .idle ∧ d.state = .disconnected ∧ d.closeFrameSent = false ∧ d.buffer = [] := by
      rw [← hidle]
      exact ⟨rfl,rfl,rfl,rfl⟩
    split
    · obtain ⟨notices,hadds,hmes,hcon⟩ :=
        adds_notifyClose d 1000 (if reason = [] then ascii "Normal closure" else reason)
      obtain ⟨hr,ht,hcb,hs,hf,hb⟩ :=
        notifyClose_frame d 1000 (if reason = [] then ascii "Normal closure" else reason)
      refine ⟨⟨notices,hsame.trans hadds,hmes,by rw [hcon,h]; rfl⟩,hr.trans hread,ht.trans hend.1,
        hcb.trans hcal,fun _ => ?_,fun hne => absurd htran hne⟩
      rw [hs,hf,hb]
      exact hend.2
    · exact ⟨⟨[],hsame,by simp,by rw [h]; rfl⟩,hread,hend.1,hcal,fun _ => hend.2,
        fun hne => absurd htran hne⟩
  · rename_i htran
    refine ⟨⟨[],?_,by simp,by rw [h]; rfl⟩,rfl,rfl,h,fun hc => absurd hc htran,
      fun _ => ⟨rfl,rfl,rfl,rfl⟩⟩
    constructor <;> simp

theorem hangsUp_notified {message : Bytes} (hheld : c.transport = .connecting)
    (h : HangsUp (c.notifyFailure message) c') : HangsUp c c' := by
  unfold notifyFailure at h
  split at h
  · rename_i hcal
    have hadds₀ : Adds c ({ c with tcpCallback := false }.notifyConnect false message)
        [.connect c.pendingConnectCallback false message] [] [] := by
      obtain ⟨h₁,h₂,h₃,h₄,h₅,h₆⟩ := adds_notifyConnect { c with tcpCallback := false } false message
      exact ⟨h₁,h₂,h₃,h₄,h₅,h₆⟩
    obtain ⟨notices,hadds,hmes,hcon⟩ := h.adds
    refine ⟨⟨_,hadds₀.trans hadds,?_,?_⟩,h.reading,h.transport,h.tcpCallback,
      fun hc => by simp [hheld] at hc,h.closed⟩
    · intro n hn
      rcases mem_cons.mp hn with rfl | hn
      · rfl
      · exact hmes n hn
    · rw [countP_append,hcon,hcal]
      rfl
  · exact h

theorem notifyFailure_tcpCallback (c : Client) (message : Bytes) :
    (c.notifyFailure message).tcpCallback = false := by
  unfold notifyFailure
  split
  · rfl
  · rename_i h
    simpa using h

theorem notifyFailure_of_not (message : Bytes) (h : c.tcpCallback = false) : c.notifyFailure message = c := by
  rw [notifyFailure,if_neg (by simp [h])]

theorem Held.free (h : Held c) (htran : c.transport ≠ .connecting) : c.tcpCallback = false := by
  cases hc : c.tcpCallback with
  | false => rfl
  | true => exact absurd (h hc) htran

theorem hangsUp_disconnect (h : Held c) : HangsUp c c.disconnect := by
  simp only [disconnect]
  split
  · rename_i hcon
    exact hangsUp_notified hcon (hangsUp_closeWithReason _ (notifyFailure_tcpCallback c _))
  · rename_i hne
    exact hangsUp_closeWithReason _ (h.free hne)

theorem hangsUp_failed {settings : Settings} (message : Bytes) (h : Held c) :
    HangsUp c (step settings c (.failed message)) := by
  simp only [step]
  split
  · rename_i hconn
    have hfree := h.free (by simp [hconn])
    exact HangsUp.told (hangsUp_closeWithReason message hfree)
  · by_cases hcon : c.transport = .connecting
    · exact hangsUp_notified hcon
        (HangsUp.told (hangsUp_closeWithReason message (notifyFailure_tcpCallback c message)))
    · rw [notifyFailure_of_not message (h.free hcon)]
      exact HangsUp.told (hangsUp_closeWithReason message (h.free hcon))

def Ends (c c' : Client) : Prop := c' = c ∨ HangsUp c c'

theorem Ends.refl (c : Client) : Ends c c := .inl rfl

section

variable (h : Ends c c')
include h

theorem Ends.hangsUp (h' : HangsUp c' c'') : HangsUp c c'' := by
  rcases h with rfl | h
  · exact h'
  · exact h.trans h'

theorem Ends.trans (h' : Ends c' c'') : Ends c c'' := by
  rcases h' with rfl | h'
  · exact h
  · exact .inr (h.hangsUp h')

theorem Ends.held (hheld : Held c) : Held c' := by
  rcases h with rfl | h
  · exact hheld
  · intro hc
    rw [h.tcpCallback] at hc
    cases hc

theorem Ends.reading : c'.reading = c.reading := by
  rcases h with rfl | h
  · rfl
  · exact h.reading

theorem Ends.empty (hlive : c.state = .handshake → c.transport = .connected)
    (hc : c.buffer = [] ∨ c.state = .handshake) : c'.buffer = [] ∨ c'.state = .handshake := by
  rcases h with rfl | h
  · exact hc
  · by_cases hcon : c.transport = .connected
    · exact .inl (h.open_ hcon).2.2
    · obtain ⟨hstate,-,hbuf,-⟩ := h.closed hcon
      rw [hstate,hbuf]
      exact hc

end

theorem ends_disconnectAfterPendingWrites (env : Env) (h : Held c) :
    Ends c (c.disconnectAfterPendingWrites env) := by
  unfold disconnectAfterPendingWrites
  split
  · exact .inr (hangsUp_disconnect h)
  · rename_i hcon
    have hfree : c.tcpCallback = false := by
      refine h.free ?_
      simp only [not_not] at hcon
      simp [hcon]
    split
    · exact .inr (hangsUp_closeWithReason _ hfree)
    · exact .refl c

def shut (c : Client) : Client := { c with closeFrameSent := true, state := .closing }

def queue (c : Client) (item : Item) : Client := { c with queued := c.queued ++ [item] }

theorem adds_shut (c : Client) : Adds c (shut c) [] [] [] := by
  constructor <;> simp [shut]

theorem adds_queue (c : Client) (item : Item) : Adds c (queue c item) [] [item] [] := by
  constructor <;> simp [queue]

theorem send_connected (env : Env) (item : Item) (hheld : Held c) (h : c.transport = .connected) :
    ∃ c', c.send env item = (c',true) ∧ Ends (queue c item) c' := by
  have hfree : c.tcpCallback = false := hheld.free (by simp [h])
  cases hlost : env.lost with
  | none => exact ⟨queue c item,by simp [send,h,hlost,queue],.refl _⟩
  | some message =>
    refine ⟨((queue c item).tell (.error message)).closeWithReason message,
      by simp [send,h,hlost,queue],.inr ?_⟩
    exact HangsUp.told (hangsUp_closeWithReason message hfree)

theorem send_closed (env : Env) (item : Item) (h : c.transport ≠ .connected) : c.send env item = (c,false) := by
  rw [send,if_neg h]

end HangsUp

section Moves

variable {settings : Settings} {env : Env} {c c' : Client}

structure Steady (c : Client) : Prop where
  held : Held c
  live : c.state = .handshake ∨ c.state = .connected → c.transport = .connected
  dialing : c.transport = .connecting → c.state = .disconnected
  closing : c.closeFrameSent = true → c.state = .closing
  fresh : c.state = .handshake → c.connected = false

/-- A call that waits for the response of the handshake waits for nothing else, and finds
no bytes when the handshake has ended before. -/
def Awaits (c : Client) : Prop :=
  .handshakeResponse ∈ c.reading → c.reading = [.handshakeResponse] ∧ (c.buffer = [] ∨ c.state = .handshake)

/-- What an event other than `connect` does to a client, apart from what is left of the
call for received bytes. Some moves are made within this call only, and some never. -/
inductive Moves (c : Client) : Bool → Client → Prop
  | ends {b : Bool} {c' : Client} (h : Ends c c') : Moves c b c'
  /-- nobody waits any more for the connection that the `TcpClient` makes -/
  | dials (h : c.transport = .connecting) (hfree : c.tcpCallback = false) : Moves c false { c with transport := .connected }
  | opens {c' : Client} (h : c.transport = .connecting) (request key : Bytes)
      (hends : Ends (queue { c with
        tcpCallback := false, transport := .connected, connected := false, state := .handshake, buffer := [],
        bufferOffset := 0, handshakeKey := key } (.request request)) c') : Moves c false c'
  | refuses {b : Bool} {c' : Client} (message : Bytes) (h : c.state = .handshake)
      (hends : HangsUp (c.notifyConnect false message) c') : Moves c b c'
  | accepts (subprotocol : Option Bytes) (buffer : Bytes) (bufferOffset : Nat) (h : c.state = .handshake) :
      Moves c true ({ c with
        acceptedSubprotocol := subprotocol, buffer, bufferOffset, state := .connected,
        connected := true }.notifyConnect true [])
  | takes (buffer : Bytes) (bufferOffset : Nat) : Moves c true { c with buffer, bufferOffset }
  | passes (frame : WSFrameType × Bytes) (h : frame.1 ≠ .close) :
      Moves c true { c with handled := c.handled ++ [frame] }
  | tells (frame : WSFrameType × Bytes) (notice : Notice) (h : frame.1 ≠ .close) (hstate : c.state = .connected)
      (hnotice : notice.isMessage = true) : Moves c true (Client.tell { c with handled := c.handled ++ [frame] } notice)
  | pongs {c' : Client} (payload : Bytes)
      (hends : Ends (queue { c with handled := c.handled ++ [(.ping,payload)] } (.frame .pong payload)) c') :
      Moves c true c'
  | sends {c' : Client} (type : WSFrameType) (payload : Bytes) (h : type ≠ .close) (hstate : c.state = .connected)
      (hends : Ends (queue c (.frame type payload)) c') : Moves c false c'
  /-- `close` without an established connection -/
  | leaves {c' : Client} (h : c.state = .handshake ∨ c.state = .connected)
      (hends : HangsUp { c with state := .closing } c') : Moves c false c'
  | closes {c' : Client} (payload : Bytes) (h : c.state = .connected)
      (hends : Ends (queue (shut c) (.frame .close payload)) c') : Moves c false c'
  /-- a Close frame behind the own one -/
  | returns {c' : Client} (payload : Bytes) (code : Nat) (reason : Bytes) (h : c.closeFrameSent = true)
      (hends : Ends (Client.notifyClose { c with handled := c.handled ++ [(.close,payload)] } code reason) c') :
      Moves c true c'
  | answers {c' : Client} (payload answer : Bytes) (code : Nat) (reason : Bytes) (h : c.transport = .connected)
      (hsent : c.closeFrameSent = false)
      (hends : Ends (queue (shut (Client.notifyClose { c with handled := c.handled ++ [(.close,payload)] } code reason))
        (.frame .close answer)) c') : Moves c true c'
  /-- a Close frame of a connection that is no longer there -/
  | misses {c' : Client} (payload : Bytes) (code : Nat) (reason : Bytes) (h : c.transport ≠ .connected)
      (hends : HangsUp (shut (Client.notifyClose { c with handled := c.handled ++ [(.close,payload)] } code reason)) c') :
      Moves c true c'

theorem Moves.refl (c : Client) (b : Bool) : Moves c b c := .ends (.refl c)

theorem moves_handleTcpConnected (key : Bytes) (h : c.transport = .connecting) :
    Moves c false ({ c with tcpCallback := false }.handleTcpConnected settings env key) := by
  simp only [handleTcpConnected]
  generalize handshakeRequest settings c.target key c.oneShotHandshakeHeaders = request
  have hheld : Held { c with
      tcpCallback := false, transport := .connected, connected := false, state := .handshake, buffer := [],
      bufferOffset := 0, handshakeKey := key } := fun hc => by cases hc
  obtain ⟨c',hsend,hends⟩ := send_connected env (.request request) hheld rfl
  rw [hsend]
  exact .opens h request key hends

theorem moves_answerClose (payload : Bytes) (code : Nat) (reason : Bytes) (hheld : Held c) :
    Moves c true (answerClose { c with handled := c.handled ++ [(.close,payload)] } env code reason) := by
  simp only [answerClose]
  obtain ⟨-,htran,hcal,-,hsent,-⟩ :=
    notifyClose_frame { c with handled := c.handled ++ [(.close,payload)] } code reason
  generalize hnot : notifyClose { c with handled := c.handled ++ [(.close,payload)] } code reason = d
  rw [hnot] at htran hcal hsent
  have hheld' : Held d := by
    unfold Held
    rw [htran,hcal]
    exact hheld
  split
  · rename_i hsent'
    refine .returns payload code reason (hsent ▸ hsent') ?_
    rw [hnot]
    exact ends_disconnectAfterPendingWrites env hheld'
  · rename_i hsent'
    rw [hsent] at hsent'
    by_cases hcon : c.transport = .connected
    · obtain ⟨c',hsend,hends⟩ := @send_connected (shut d) env
        (.frame .close (WebSocketServer.closePayload code reason)) hheld' (htran.trans hcon)
      rw [shut] at hsend
      rw [hsend]
      refine .answers payload (WebSocketServer.closePayload code reason) code reason hcon
        (by simpa using hsent') ?_
      rw [hnot]
      exact hends.trans (ends_disconnectAfterPendingWrites env (hends.held hheld'))
    · rw [send_closed env _ (by rw [htran]; exact hcon)]
      refine .misses payload code reason hcon ?_
      rw [hnot]
      exact hangsUp_disconnect hheld'

theorem moves_handleFrame (type : WSFrameType) (payload : Bytes) (hheld : Held c) :
    Moves c true (c.handleFrame env type payload) := by
  simp only [handleFrame]
  cases type with
  | text =>
    simp only
    split
    · rename_i hstate
      exact .tells (.text,payload) (.text payload) (by simp) hstate rfl
    · exact .passes (.text,payload) (by simp)
  | binary =>
    simp only
    split
    · rename_i hstate
      exact .tells (.binary,payload) (.binary payload) (by simp) hstate rfl
    · exact .passes (.binary,payload) (by simp)
  | close => exact moves_answerClose payload _ _ hheld
  | ping =>
    by_cases hcon : c.transport = .connected
    · obtain ⟨c',hsend,hends⟩ := @send_connected { c with handled := c.handled ++ [(.ping,payload)] } env
        (.frame .pong payload) hheld hcon
      simp only [hsend]
      exact .pongs payload hends
    · simp only [send_closed env _ (show ({ c with handled := c.handled ++ [(.ping,payload)] } : Client).transport ≠
        .connected from hcon)]
      exact .passes (.ping,payload) (by simp)
  | pong => exact .passes (.pong,payload) (by simp)

theorem moves_sendFrame (type : WSFrameType) (payload : Bytes) (htype : type ≠ .close) (h : Steady c) :
    Moves c false (c.sendFrame env type payload) := by
  unfold sendFrame
  split
  · exact .refl c _
  · rename_i hopen
    simp only [Bool.or_eq_true,Bool.not_eq_true',decide_eq_true_eq,not_or,not_not] at hopen
    obtain ⟨c',hsend,hends⟩ := send_connected env (.frame type payload) h.held (h.live (.inr hopen.2))
    rw [hsend]
    exact .sends type payload htype hopen.2 hends

theorem moves_close (code : Nat) (reason : Bytes) (h : Steady c) : Moves c false (c.close env code reason) := by
  unfold close
  split
  · exact .ends (.inr (hangsUp_disconnect h.held))
  · exact .refl c _
  · rename_i hstate
    dsimp only
    rw [if_neg (by simp [h.fresh hstate])]
    exact .leaves (.inl hstate) (hangsUp_disconnect h.held)
  · rename_i hstate
    dsimp only
    split
    · obtain ⟨c',hsend,hends⟩ := @send_connected (shut c) env
        (.frame .close (WebSocketServer.closePayload code reason)) h.held (h.live (.inr hstate))
      rw [shut] at hsend
      rw [hsend]
      exact .closes _ hstate hends
    · exact .leaves (.inr hstate) (hangsUp_disconnect h.held)

theorem moves_handshakeTimeout (h : Steady c) : Moves c false c.handleHandshakeTimeout := by
  unfold handleHandshakeTimeout
  split
  · exact .refl c _
  · rename_i hstate
    simp only [Bool.or_eq_true,decide_eq_true_eq,not_or,not_not] at hstate
    refine .refuses _ hstate.1 (hangsUp_disconnect ?_)
    exact h.held

theorem moves_perform (call : Call) (h : Steady c)
    (haw : call = .handshakeResponse → c.buffer = [] ∨ c.state = .handshake) :
    Moves c true (perform settings env c call).1 := by
  cases call with
  | handshakeResponse =>
    simp only [perform]
    rcases haw rfl with hempty | hstate
    · have hnone : scanResponse settings.subprotocols c.handshakeKey c.makeBufferedView = .incomplete := by
        rw [scanResponse,makeBufferedView_text,unread,hempty,drop_nil]
        rfl
      rw [hnone]
      exact .refl c _
    · split
      · exact .refl c _
      · exact .refuses _ hstate (hangsUp_disconnect h.held)
      · exact .accepts _ _ _ hstate
  | frames =>
    simp only [perform,takeFrame]
    split
    · exact .refl c _
    · split
      · exact .takes _ _
      · exact .ends (.inr (HangsUp.told (hangsUp_disconnect h.held)))
  | handleFrame type payload => exact moves_handleFrame type payload h.held

end Moves

section Steps

variable {settings : Settings} {c c' : Client} {b : Bool} {event : Event}

def Event.isConnect : Event → Bool
  | .connect _ _ _ _ => true
  | _ => false

theorem Moves.outside (h : Moves c false c') (hc : Steady c) :
    c'.reading = c.reading ∧ (c.buffer = [] ∨ c.state = .handshake → c'.buffer = [] ∨ c'.state = .handshake) := by
  cases h with
  | ends hends => exact ⟨hends.reading,hends.empty (fun hstate => hc.live (.inl hstate))⟩
  | dials => exact ⟨rfl,id⟩
  | opens hcon request key hends => exact ⟨hends.reading,fun _ => hends.empty (fun _ => rfl) (.inl rfl)⟩
  | refuses message hstate hends =>
    exact ⟨hends.reading,fun _ => .inl (hends.open_ (hc.live (.inl hstate))).2.2⟩
  | sends type payload htype hstate hends =>
    exact ⟨hends.reading,hends.empty (fun hstate => hc.live (.inl hstate))⟩
  | leaves hstate hends => exact ⟨hends.reading,fun _ => .inl (hends.open_ (hc.live hstate)).2.2⟩
  | closes payload hstate hends =>
    refine ⟨hends.reading,fun hfind => hends.empty (fun hclos => by cases hclos) (.inl ?_)⟩
    rcases hfind with hempty | hhan
    · exact hempty
    · rw [hstate] at hhan
      cases hhan

theorem perform_calls (settings : Settings) (env : Env) (c : Client) (call : Call) :
    .handshakeResponse ∉ (perform settings env c call).2 := by
  cases call with
  | handshakeResponse =>
    simp only [perform]
    split
    · simp
    · simp
    · simp only
      split <;> simp
  | frames =>
    simp only [perform,takeFrame]
    split
    · simp
    · split <;> simp
  | handleFrame type payload => simp [perform]

theorem moves_step (hevent : event.isConnect = false) (hc : Steady c) (haw : Awaits c) :
    (∃ b d, Moves c b d ∧ ∃ reading, step settings c event = { d with reading }) ∧
      Awaits (step settings c event) := by
  have hout (d : Client) (h : Moves c false d) :
      (∃ b d', Moves c b d' ∧ ∃ reading, d = { d' with reading }) ∧ Awaits d := by
    obtain ⟨hread,hbuf⟩ := h.outside hc
    refine ⟨⟨false,d,h,d.reading,rfl⟩,?_⟩
    unfold Awaits
    rw [hread]
    intro hmem
    obtain ⟨honly,hempty⟩ := haw hmem
    exact ⟨honly,hbuf hempty⟩
  cases event with
  | connect url headers dial env => cases hevent
  | established key env =>
    simp only [step]
    split
    · rename_i hcon
      split
      · exact hout _ (moves_handleTcpConnected key hcon)
      · rename_i hfree
        exact hout _ (.dials hcon (by simpa using hfree))
    · exact hout _ (.refl c _)
  | failed message => exact hout _ (.ends (.inr (hangsUp_failed message hc.held)))
  | dropped reason =>
    simp only [step]
    split
    · rename_i hconn
      exact hout _ (.ends (.inr (hangsUp_closeWithReason reason (hc.held.free (by simp [hconn])))))
    · exact hout _ (.refl c _)
  | data bytes =>
    simp only [step]
    split
    · refine ⟨⟨true,_,.takes (append c.buffer c.bufferOffset bytes) c.bufferOffset,dataCalls c.state,rfl⟩,?_⟩
      intro hmem
      have hstate : c.state = .handshake := by
        cases hstate : c.state <;> simp_all [dataCalls]
      exact ⟨by simp only [hstate]; rfl,.inr hstate⟩
    · exact hout _ (.refl c _)
  | read env =>
    simp only [step]
    split
    · exact hout _ (.refl c _)
    · rename_i call rest hread
      have halone (hcall : call = .handshakeResponse ∨ .handshakeResponse ∈ rest) :
          c.reading = [.handshakeResponse] ∧ (c.buffer = [] ∨ c.state = .handshake) := by
        refine haw ?_
        rw [hread]
        rcases hcall with rfl | hrest
        · simp
        · simp [hrest]
      refine ⟨⟨true,_,moves_perform call hc (fun hcall => (halone (.inl hcall)).2),_,rfl⟩,?_⟩
      intro hmem
      rcases mem_append.mp hmem with hcalls | hrest
      · exact absurd hcalls (perform_calls settings env c call)
      · have honly := (halone (.inr hrest)).1
        rw [hread] at honly
        obtain ⟨-,rfl⟩ := cons.inj honly
        cases hrest
  | sendText message env => exact hout _ (moves_sendFrame .text message (by simp) hc)
  | sendBinary data env => exact hout _ (moves_sendFrame .binary data (by simp) hc)
  | ping env => exact hout _ (moves_sendFrame .ping [] (by simp) hc)
  | close code reason env => exact hout _ (moves_close code reason hc)
  | handshakeTimeout => exact hout _ (moves_handshakeTimeout hc)
  | closeTimeout =>
    simp only [step,handleCloseTimeout]
    split
    · exact hout _ (.ends (.inr (hangsUp_disconnect hc.held)))
    · exact hout _ (.refl c _)

theorem HangsUp.steady (h : HangsUp c c')
    (hlive : c.state = .handshake ∨ c.state = .connected → c.transport = .connected)
    (hclos : c.closeFrameSent = true → c.state = .closing) (hfresh : c.state = .handshake → c.connected = false) :
    Steady c' := by
  by_cases hcon : c.transport = .connected
  · obtain ⟨hstate,hsent,-⟩ := h.open_ hcon
    constructor <;> simp [Held,hstate,hsent,h.transport,h.tcpCallback]
  · obtain ⟨hstate,hsent,-,hflag⟩ := h.closed hcon
    refine ⟨?_,?_,?_,?_,?_⟩
    · simp [Held,h.tcpCallback]
    · rw [hstate]
      exact fun hopen => absurd (hlive hopen) hcon
    · simp [h.transport]
    · rw [hstate,hsent]
      exact hclos
    · rw [hstate,hflag]
      exact hfresh

theorem Ends.steady (h : Ends c c') (hc : Steady c) : Steady c' := by
  rcases h with rfl | h
  · exact hc
  · exact h.steady hc.live hc.closing hc.fresh

theorem Steady.notifyClose (hc : Steady c) (handled : List (WSFrameType × Bytes)) (code : Nat) (reason : Bytes) :
    Steady (Client.notifyClose { c with handled } code reason) := by
  obtain ⟨h₁,h₂,h₃,h₄,h₅⟩ := hc
  unfold Client.notifyClose
  split
  · exact ⟨h₁,h₂,h₃,h₄,h₅⟩
  · exact ⟨h₁,h₂,h₃,h₄,h₅⟩

theorem Moves.steady (h : Moves c b c') (hc : Steady c) : Steady c' := by
  obtain ⟨hheld,hlive,hdial,hclos,hfresh⟩ := hc
  cases h with
  | ends hends => exact hends.steady ⟨hheld,hlive,hdial,hclos,hfresh⟩
  | dials hcon hfree =>
    exact ⟨fun hc => absurd (hfree.symm.trans hc) (by simp),fun _ => rfl,nofun,hclos,hfresh⟩
  | opens hcon request key hends =>
    refine hends.steady ⟨nofun,fun _ => rfl,nofun,fun h => ?_,fun _ => rfl⟩
    exact absurd ((hdial hcon).symm.trans (hclos h)) (by simp)
  | refuses message hstate hends => exact hends.steady hlive hclos hfresh
  | accepts subprotocol buffer bufferOffset hstate =>
    have htran := hlive (.inl hstate)
    refine ⟨hheld,fun _ => htran,fun h => absurd (htran.symm.trans h) (by simp),fun h => ?_,
      nofun⟩
    exact absurd (hstate.symm.trans (hclos h)) (by simp)
  | pongs payload hends => exact hends.steady ⟨hheld,hlive,hdial,hclos,hfresh⟩
  | sends type payload htype hstate hends => exact hends.steady ⟨hheld,hlive,hdial,hclos,hfresh⟩
  | leaves hstate hends =>
    exact hends.steady (fun h => by simp at h) (fun _ => rfl) nofun
  | closes payload hstate hends =>
    have htran := hlive (.inr hstate)
    exact hends.steady ⟨hheld,fun h => by simp [queue,shut] at h,fun h => absurd (htran.symm.trans h) (by simp),
      fun _ => rfl,nofun⟩
  | returns payload code reason hsent hends =>
    exact hends.steady (Steady.notifyClose ⟨hheld,hlive,hdial,hclos,hfresh⟩ _ code reason)
  | answers payload answer code reason htran hsent hends =>
    obtain ⟨-,ht,hcal,-⟩ := notifyClose_frame { c with handled := c.handled ++ [(.close,payload)] } code reason
    refine hends.steady ⟨?_,fun h => by simp [queue,shut] at h,fun h => ?_,fun _ => rfl,nofun⟩
    · intro h
      exact absurd (htran.symm.trans (hheld (hcal.symm.trans h))) (by simp)
    · exact absurd (htran.symm.trans (ht.symm.trans h)) (by simp)
  | misses payload code reason htran hends =>
    exact hends.steady (fun h => by simp [shut] at h) (fun _ => rfl) nofun
  | _ => exact ⟨hheld,hlive,hdial,hclos,hfresh⟩

theorem connect_established {url key : Bytes} {headers : ByteMap Bytes} {env : Env} (hc : Steady c)
    (hidle : c.transport = .idle) :
    step settings c (.connect url headers (.established key) env) =
      step settings (step settings c (.connect url headers .started env)) (.established key env) := by
  have hfree : c.tcpCallback = false := hc.held.free (by simp [hidle])
  simp only [step,connect]
  cases hurl : parseUrl url with
  | none => simp [Client.notifyConnect,Client.tell,hidle]
  | some target => simp [hidle,hfree,Client.handleTcpConnected]

section Connect

variable (settings c) (url : Bytes) (headers : ByteMap Bytes) (env : Env)

/-- The client that `connect` goes on with. -/
def cleared : Client := { c with
    pendingConnectCallback := true, oneShotHandshakeHeaders := headers, acceptedSubprotocol := none,
    closeNotified := false, closeFrameSent := false, buffer := [], bufferOffset := 0,
    state := .disconnected, connected := false }

/-- What `connect` does to a client before the connection is there. -/
inductive Dials : Client → Prop
  | refused (target : Target) (tcpCallback : Bool) (message : Bytes)
      (h : tcpCallback = true → c.tcpCallback = true) :
      Dials (Client.notifyConnect { cleared c headers with target, tcpCallback } false message)
  | started (target : Target) (h : c.transport = .idle) :
      Dials { cleared c headers with target, transport := .connecting, tcpCallback := true }

theorem dials_connect (dial : Dial) (hdial : ∀ key, dial = .established key → c.transport ≠ .idle) :
    Dials c headers (step settings c (.connect url headers dial env)) := by
  simp only [step,connect]
  split
  · exact .refused c.target c.tcpCallback _ id
  · split
    · exact .refused _ false _ (by simp)
    · rename_i hidle
      simp only [not_not] at hidle
      split
      · exact .refused _ c.tcpCallback _ id
      · exact .started _ hidle
      · exact absurd hidle (hdial _ rfl)

variable {c headers}

theorem Dials.steady (h : Dials c headers c') (hc : Steady c) : Steady c' := by
  cases h with
  | refused target tcpCallback message hcal =>
    exact ⟨fun h => hc.held (hcal h),fun h => by simp [Client.notifyConnect,Client.tell,cleared] at h,
      fun _ => rfl,nofun,nofun⟩
  | started target hidle => exact ⟨fun _ => rfl,fun h => by simp [cleared] at h,fun _ => rfl,nofun,nofun⟩

theorem Dials.awaits (h : Dials c headers c') (haw : Awaits c) : Awaits c' := by
  cases h with
  | refused target tcpCallback message hcal => exact fun hmem => ⟨(haw hmem).1,.inl rfl⟩
  | started target hidle => exact fun hmem => ⟨(haw hmem).1,.inl rfl⟩

end Connect

theorem steady_reading (hc : Steady c) (reading : List Call) : Steady { c with reading } :=
  ⟨hc.held,hc.live,hc.dialing,hc.closing,hc.fresh⟩

theorem steady_step_of_not (hevent : event.isConnect = false) (hc : Steady c) (hawait : Awaits c) :
    Steady (step settings c event) ∧ Awaits (step settings c event) := by
  obtain ⟨⟨b,d,hmoves,reading,hstep⟩,haw⟩ := moves_step hevent hc hawait
  refine ⟨?_,haw⟩
  rw [hstep]
  exact steady_reading (hmoves.steady hc) reading

theorem steady_step (hc : Steady c) (haw : Awaits c) :
    Steady (step settings c event) ∧ Awaits (step settings c event) := by
  cases event with
  | connect url headers dial env =>
    by_cases hdial : ∀ key, dial = .established key → c.transport ≠ .idle
    · have hdials := dials_connect settings c url headers env dial hdial
      exact ⟨hdials.steady hc,hdials.awaits haw⟩
    · simp only [not_forall,not_not] at hdial
      obtain ⟨key,rfl,hidle⟩ := hdial
      rw [connect_established hc hidle]
      have hdials := dials_connect settings c url headers env .started (by simp)
      exact steady_step_of_not rfl (hdials.steady hc) (hdials.awaits haw)
  | _ => exact steady_step_of_not rfl hc haw

theorem steady_run (settings : Settings) (events : List Event) :
    Steady (Machine.runs (step settings) {} events) ∧ Awaits (Machine.runs (step settings) {} events) := by
  refine @Machine.traces _ _ (step settings) (fun _ c => Steady c ∧ Awaits c) {} ?_ ?_ events
  · exact ⟨⟨nofun,fun h => by simp at h,nofun,nofun,nofun⟩,nofun⟩
  · intro _ event c hc
    exact steady_step hc.1 hc.2

end Steps

end FastNet.WebSocketClient
