import FastNet.WebSocketLifecycle

/-!
How often a `WebSocketClient` tells its user that a connection has been made, or not.
-/

namespace FastNet.WebSocketClient

open Client

section Once

variable {settings : Settings} {c c' d : Client} {b : Bool}

structure Settled (c : Client) : Prop where
  handshake : c.state ≠ .handshake
  dialing : c.transport ≠ .connecting

theorem HangsUp.settled (h : HangsUp c c') (hlive : c.state = .handshake → c.transport = .connected) :
    Settled c' := by
  refine ⟨?_,by simp [h.transport]⟩
  by_cases hcon : c.transport = .connected
  · simp [(h.open_ hcon).1]
  · rw [(h.closed hcon).1]
    exact fun hstate => hcon (hlive hstate)

/-- What a part of a run tells about the connection: it is told once at most, and settled
then. -/
structure Reports (c c' : Client) (notices : List Notice) (items : List Item)
    (frames : List (WSFrameType × Bytes)) : Prop where
  adds : Adds c c' notices items frames
  once : notices.countP Notice.isConnect ≤ 1
  told : 0 < notices.countP Notice.isConnect → Settled c'
  kept : Settled c → notices.countP Notice.isConnect = 0 ∧ Settled c'

theorem reports_ends (notices : List Notice) (items : List Item) (frames : List (WSFrameType × Bytes))
    (hends : Ends d c') (hadds : Adds c d notices items frames)
    (hquiet : notices.countP Notice.isConnect = 0) (hset : Settled c → Settled d) (hheld : Held d)
    (hlive : d.state = .handshake → d.transport = .connected) :
    ∃ notices items frames, Reports c c' notices items frames := by
  rcases hends with rfl | hends
  · exact ⟨_,_,_,hadds,by omega,by omega,fun hc => ⟨hquiet,hset hc⟩⟩
  · obtain ⟨notices',hadds',-,hcon⟩ := hends.adds
    have hc' := hends.settled hlive
    have hcount : (notices ++ notices').countP Notice.isConnect = d.tcpCallback.toNat := by
      rw [List.countP_append,hquiet,hcon,Nat.zero_add]
    refine ⟨_,_,_,hadds.trans hadds',?_,fun _ => hc',fun hc => ⟨?_,hc'⟩⟩
    · rw [hcount]
      exact Bool.toNat_le _
    · rw [hcount,hheld.free (hset hc).dialing]
      rfl

theorem Settled.congr (h : Settled c) (hstate : d.state = c.state) (htran : d.transport = c.transport) :
    Settled d := by
  refine ⟨?_,?_⟩
  · rw [hstate]
    exact h.handshake
  · rw [htran]
    exact h.dialing

theorem Moves.reports (h : Moves c b c') (hc : Steady c) :
    ∃ notices items frames, Reports c c' notices items frames := by
  have hlive : c.state = .handshake → c.transport = .connected := fun h => hc.live (.inl h)
  cases h with
  | ends hends => exact reports_ends [] [] [] hends (.refl c) rfl id hc.held hlive
  | dials hconn hfree =>
    exact ⟨[],[],[],by constructor <;> simp,by simp,by simp,fun h => absurd hconn h.dialing⟩
  | opens hconn request key hends =>
    exact reports_ends [] [.request request] [] hends (by constructor <;> simp [queue]) rfl
      (fun h => absurd hconn h.dialing) (by rintro ⟨⟩) (fun _ => rfl)
  | refuses message hstate hends =>
    obtain ⟨notices,hadds,-,hcon⟩ := hends.adds
    have hfree : c.tcpCallback = false := hc.held.free (by simp [hlive hstate])
    refine ⟨_,_,_,(adds_notifyConnect c false message).trans hadds,?_,fun _ => hends.settled hlive,
      fun h => absurd hstate h.handshake⟩
    rw [List.countP_append,hcon]
    simp [Client.notifyConnect,Client.tell,hfree,Notice.isConnect]
  | accepts subprotocol buffer bufferOffset hstate =>
    have hadds := adds_notifyConnect { c with
      acceptedSubprotocol := subprotocol, buffer, bufferOffset, state := .connected, connected := true } true []
    refine ⟨_,_,_,⟨hadds.log,hadds.queued,hadds.handled,hadds.closes,hadds.oneShots,hadds.answered⟩,
      by simp [Notice.isConnect],fun _ => ⟨by rintro ⟨⟩,?_⟩,fun h => absurd hstate h.handshake⟩
    exact fun h => absurd ((hlive hstate).symm.trans h) (by simp)
  | takes buffer bufferOffset =>
    exact reports_ends [] [] [] (.refl _) (by constructor <;> simp) rfl (fun h => h.congr rfl rfl) hc.held hlive
  | passes frame hframe =>
    exact reports_ends [] [] [frame] (.refl _) (by constructor <;> simp) rfl (fun h => h.congr rfl rfl) hc.held hlive
  | tells frame notice hframe hstate hnotice =>
    refine reports_ends [notice] [] [frame] (.refl _) (adds_message c frame hnotice) ?_ (fun h => h.congr rfl rfl) hc.held hlive
    cases notice <;> simp_all [Notice.isMessage,Notice.isConnect]
  | pongs payload hends =>
    exact reports_ends [] [.frame .pong payload] [(.ping,payload)] hends (by constructor <;> simp [queue]) rfl
      (fun h => h.congr rfl rfl) hc.held hlive
  | sends type payload htype hstate hends =>
    exact reports_ends [] [.frame type payload] [] hends (by constructor <;> simp [queue]) rfl
      (fun h => h.congr rfl rfl) hc.held hlive
  | leaves hstate hends =>
    exact reports_ends [] [] [] (.inr hends) (by constructor <;> simp) rfl (fun h => ⟨by rintro ⟨⟩,h.dialing⟩) hc.held (by rintro ⟨⟩)
  | closes payload hstate hends =>
    exact reports_ends [] [.frame .close payload] [] hends (by constructor <;> simp [queue,shut]) rfl
      (fun h => ⟨by rintro ⟨⟩,h.dialing⟩) hc.held (by rintro ⟨⟩)
  | returns payload code reason hsent hends =>
    obtain ⟨notices,hadds,-,hcon⟩ := adds_closed c payload code reason
    obtain ⟨-,ht,-,hs,-⟩ := notifyClose_frame { c with handled := c.handled ++ [(.close,payload)] } code reason
    have hst := hc.notifyClose (c.handled ++ [(.close,payload)]) code reason
    exact reports_ends notices [] [(.close,payload)] hends hadds hcon (fun h => h.congr hs ht) hst.held
      (fun h => hst.live (.inl h))
  | answers payload answer code reason htran hsent hends =>
    obtain ⟨notices,hadds,-,hcon⟩ := adds_closed c payload code reason
    obtain ⟨-,ht,-⟩ := notifyClose_frame { c with handled := c.handled ++ [(.close,payload)] } code reason
    have hst := hc.notifyClose (c.handled ++ [(.close,payload)]) code reason
    exact reports_ends notices [.frame .close answer] [(.close,payload)] hends
      (by simpa using (hadds.trans (adds_shut _)).trans (adds_queue _ _)) hcon
      (fun h => ⟨by rintro ⟨⟩,fun hdial => h.dialing (ht.symm.trans hdial)⟩) hst.held (by rintro ⟨⟩)
  | misses payload code reason htran hends =>
    obtain ⟨notices,hadds,-,hcon⟩ := adds_closed c payload code reason
    obtain ⟨-,ht,-⟩ := notifyClose_frame { c with handled := c.handled ++ [(.close,payload)] } code reason
    have hst := hc.notifyClose (c.handled ++ [(.close,payload)]) code reason
    exact reports_ends notices [] [(.close,payload)] (.inr hends) (by simpa using hadds.trans (adds_shut _)) hcon
      (fun h => ⟨by rintro ⟨⟩,fun hdial => h.dialing (ht.symm.trans hdial)⟩) hst.held (by rintro ⟨⟩)

theorem reports_step {event : Event} (hevent : event.isConnect = false) (hc : Steady c) (haw : Awaits c) :
    ∃ notices items frames, Reports c (step settings c event) notices items frames := by
  obtain ⟨⟨b,d,hmoves,reading,hstep⟩,-⟩ := moves_step hevent hc haw
  obtain ⟨notices,items,frames,h⟩ := hmoves.reports hc
  rw [hstep]
  exact ⟨notices,items,frames,⟨h.adds.log,h.adds.queued,h.adds.handled,h.adds.closes,h.adds.oneShots,
    h.adds.answered⟩,h.once,fun hpos => (h.told hpos).congr rfl rfl,
    fun hc => ⟨(h.kept hc).1,(h.kept hc).2.congr rfl rfl⟩⟩

theorem countP_isOneShot_le (notices : List Notice) :
    notices.countP Notice.isOneShot ≤ notices.countP Notice.isConnect := by
  refine List.countP_mono_left (fun n _ hn => ?_)
  cases n <;> simp_all [Notice.isOneShot,Notice.isConnect]

/-- The attempt to connect that began in `start`: its callback has been told once, or not
yet. -/
structure Attempt (start c : Client) (notices : List Notice) : Prop where
  log : c.log = start.log ++ notices
  oneShots : notices.countP Notice.isOneShot + c.pendingConnectCallback.toNat = 1
  once : notices.countP Notice.isConnect + c.pendingConnectCallback.toNat = 1
  settled : c.pendingConnectCallback = false → Settled c

theorem Attempt.reports {start : Client} {notices notices' : List Notice} {items : List Item}
    {frames : List (WSFrameType × Bytes)} (h : Attempt start c notices) (h' : Reports c c' notices' items frames) :
    Attempt start c' (notices ++ notices') := by
  obtain ⟨hlog,honeShots,honce,hset⟩ := h
  have honeShots' := h'.adds.oneShots
  have hle := countP_isOneShot_le notices'
  have hans := h'.adds.answered
  refine ⟨by rw [h'.adds.log,hlog,List.append_assoc],by rw [List.countP_append]; omega,?_,?_⟩
  · rw [List.countP_append]
    cases hp : c.pendingConnectCallback with
    | false =>
      have hzero := (h'.kept (hset hp)).1
      simp only [hp,Bool.toNat_false] at honce honeShots'
      omega
    | true =>
      simp only [hp,Bool.toNat_true] at honce honeShots'
      rcases Nat.eq_zero_or_pos (notices'.countP Notice.isConnect) with hzero | hpos
      · omega
      · have hone := h'.once
        simp only [hans hpos,Bool.toNat_false]
        omega
  · intro hp'
    cases hp : c.pendingConnectCallback with
    | false => exact (h'.kept (hset hp)).2
    | true =>
      simp only [hp,hp',Bool.toNat_true,Bool.toNat_false] at honeShots'
      exact h'.told (by omega)

end Once

section Waiting

variable {settings : Settings} {c c' : Client} {event : Event}

def Waiting (c : Client) : Prop := c.transport = .connecting ∧ c.tcpCallback = true ∨ c.state = .handshake

def Call.isHandshakeResponse : Call → Bool
  | .handshakeResponse => true
  | _ => false

/-- Nothing ends the connection within the handshake but the handshake itself: its request
is written, the peer, the transport and the user leave the connection open, and no call of
an earlier connection is still on its way. -/
def undisturbed (c : Client) : Event → Bool
  | .connect _ _ _ env => env.lost.isNone
  | .established _ env => env.lost.isNone
  | .failed _ => c.state ≠ .handshake
  | .dropped _ => c.state ≠ .handshake
  | .close _ _ _ => c.state ≠ .handshake
  | .read _ => c.state ≠ .handshake || c.reading.all Call.isHandshakeResponse
  | _ => true

theorem HangsUp.pending (h : HangsUp c c') (hc : c.tcpCallback = true ∨ c.pendingConnectCallback = false) :
    c'.pendingConnectCallback = false := by
  obtain ⟨notices,hadds,-,hcon⟩ := h.adds
  rcases hc with hcal | hpen
  · exact hadds.answered (by simp [hcon,hcal])
  · have honeShots := hadds.oneShots
    cases hp : c'.pendingConnectCallback with
    | false => rfl
    | true => simp [hp,hpen] at honeShots

theorem Ends.dialing {d : Client} (h : Ends d c') (hdial : d.transport = .connecting) (hheld : d.tcpCallback = true)
    (hpen : c'.pendingConnectCallback = true) : c'.transport = .connecting ∧ c'.tcpCallback = true := by
  rcases h with rfl | h
  · exact ⟨hdial,hheld⟩
  · rw [h.pending (.inl hheld)] at hpen
    cases hpen

theorem Moves.dialing (h : Moves c true c') (hc : Steady c) (hdial : c.transport = .connecting)
    (hheld : c.tcpCallback = true) (hpen : c'.pendingConnectCallback = true) :
    c'.transport = .connecting ∧ c'.tcpCallback = true := by
  have hstate := hc.dialing hdial
  cases h with
  | ends hends => exact hends.dialing hdial hheld hpen
  | refuses message hhan hends => simp [hstate] at hhan
  | accepts subprotocol buffer bufferOffset hhan => simp [hstate] at hhan
  | takes buffer bufferOffset => exact ⟨hdial,hheld⟩
  | passes frame hframe => exact ⟨hdial,hheld⟩
  | tells frame notice hframe hcon hnotice => simp [hstate] at hcon
  | pongs payload hends => exact hends.dialing hdial hheld hpen
  | returns payload code reason hsent hends =>
    exact absurd (hstate.symm.trans (hc.closing hsent)) (by simp)
  | answers payload answer code reason htran hsent hends => simp [hdial] at htran
  | misses payload code reason htran hends =>
    obtain ⟨-,-,hcal,-⟩ :=
      notifyClose_frame { c with handled := c.handled ++ [(.close,payload)] } code reason
    rw [hends.pending (.inl (hcal.trans hheld))] at hpen
    cases hpen

theorem waiting_established {key : Bytes} {env : Env} (hdial : c.transport = .connecting) (hheld : c.tcpCallback = true)
    (hlost : env.lost = none) : (step settings c (.established key env)).state = .handshake := by
  simp [step,hdial,hheld,handleTcpConnected,send,hlost]

theorem waiting_dialing (hevent : event.isConnect = false) (hok : undisturbed c event = true) (hc : Steady c)
    (haw : Awaits c) (hdial : c.transport = .connecting) (hheld : c.tcpCallback = true)
    (hpen : (step settings c event).pendingConnectCallback = true) : Waiting (step settings c event) := by
  have hstate := hc.dialing hdial
  have hsame {d : Client} (h : d = c) : Waiting d := .inl (h ▸ ⟨hdial,hheld⟩)
  cases event with
  | connect url headers dial env => cases hevent
  | established key env => exact .inr (waiting_established hdial hheld (by simpa [undisturbed] using hok))
  | failed message =>
    rw [(hangsUp_failed message hc.held).pending (.inl hheld)] at hpen
    cases hpen
  | dropped reason => exact hsame (by simp [step,hdial])
  | data bytes => exact hsame (by simp [step,hdial])
  | read env =>
    cases hread : c.reading with
    | nil => exact hsame (by simp [step,hread])
    | cons call rest =>
      simp only [step,hread] at hpen ⊢
      have hmoves : Moves c true (perform settings env c call).1 :=
        moves_perform call hc (fun hcall => (haw (by simp [hread,hcall])).2)
      exact .inl (hmoves.dialing hc hdial hheld hpen)
  | close code reason env =>
    have hclose : step settings c (.close code reason env) = c.disconnect := by simp [step,close,hstate]
    rw [hclose,(hangsUp_disconnect hc.held).pending (.inl hheld)] at hpen
    cases hpen
  | handshakeTimeout => exact hsame (by simp [step,handleHandshakeTimeout,hstate])
  | closeTimeout => exact hsame (by simp [step,handleCloseTimeout,hstate])
  | _ => exact hsame (by simp [step,sendFrame,hstate])

theorem waiting_response {env : Env} {rest : List Call} (hc : Steady c) (hstate : c.state = .handshake)
    (hpen : (perform settings env c .handshakeResponse).1.pendingConnectCallback = true) :
    Waiting { (perform settings env c .handshakeResponse).1 with
      reading := (perform settings env c .handshakeResponse).2 ++ rest } := by
  simp only [perform] at hpen ⊢
  cases hscan : scanResponse settings.subprotocols c.handshakeKey c.makeBufferedView with
  | incomplete => exact .inr hstate
  | failed message =>
    have hheld : Held (c.notifyConnect false message) := hc.held
    simp only [hscan,(hangsUp_disconnect hheld).pending (.inr rfl)] at hpen
    cases hpen
  | accepted subprotocol consumedBytes =>
    rw [hscan] at hpen
    cases hpen

theorem waiting_handshake (hevent : event.isConnect = false) (hok : undisturbed c event = true) (hc : Steady c)
    (hstate : c.state = .handshake) (hpen : (step settings c event).pendingConnectCallback = true) :
    Waiting (step settings c event) := by
  have htran := hc.live (.inl hstate)
  have hsame {d : Client} (h : d = c) : Waiting d := .inr (h ▸ hstate)
  cases event with
  | connect url headers dial env => cases hevent
  | established key env => exact hsame (by simp [step,htran])
  | failed message => simp [undisturbed,hstate] at hok
  | dropped reason => simp [undisturbed,hstate] at hok
  | data bytes =>
    refine .inr ?_
    simp only [step]
    split <;> exact hstate
  | read env =>
    cases hread : c.reading with
    | nil => exact hsame (by simp [step,hread])
    | cons call rest =>
      simp only [step,hread] at hpen ⊢
      cases call with
      | handshakeResponse => exact waiting_response hc hstate hpen
      | frames => simp [undisturbed,hstate,hread,Call.isHandshakeResponse] at hok
      | handleFrame type payload => simp [undisturbed,hstate,hread,Call.isHandshakeResponse] at hok
  | close code reason env => simp [undisturbed,hstate] at hok
  | handshakeTimeout =>
    have htim : step settings c .handshakeTimeout =
        (c.notifyConnect false (ascii "WebSocket handshake timeout")).disconnect := by
      simp [step,handleHandshakeTimeout,hstate,hc.fresh hstate]
    have hheld : Held (c.notifyConnect false (ascii "WebSocket handshake timeout")) := hc.held
    rw [htim,(hangsUp_disconnect hheld).pending (.inr rfl)] at hpen
    cases hpen
  | closeTimeout => exact hsame (by simp [step,handleCloseTimeout,hstate])
  | _ => exact hsame (by simp [step,sendFrame,hstate])

theorem waiting_step (hevent : event.isConnect = false) (hok : undisturbed c event = true) (hc : Steady c)
    (haw : Awaits c) (h : c.pendingConnectCallback = true → Waiting c)
    (hpen : (step settings c event).pendingConnectCallback = true) : Waiting (step settings c event) := by
  have hbef : c.pendingConnectCallback = true := by
    obtain ⟨notices,items,frames,hrep⟩ := @reports_step settings c event hevent hc haw
    have honeShots := hrep.adds.oneShots
    rw [hpen] at honeShots
    cases hp : c.pendingConnectCallback with
    | false => simp [hp] at honeShots
    | true => rfl
  rcases h hbef with ⟨hdial,hheld⟩ | hstate
  · exact waiting_dialing hevent hok hc haw hdial hheld hpen
  · exact waiting_handshake hevent hok hc hstate hpen

/-- What `connect` returns. -/
def accepts (c : Client) (url : Bytes) : Dial → Bool
  | .failed _ => false
  | .started => (parseUrl url).isSome && c.transport = .idle
  | .established _ => (parseUrl url).isSome && c.transport = .idle

structure Trying (start c : Client) : Prop where
  steady : Steady c
  awaits : Awaits c
  attempt : ∃ notices, Attempt start c notices

theorem Trying.step {start : Client} (h : Trying start c) (hevent : event.isConnect = false) :
    Trying start (WebSocketClient.step settings c event) := by
  obtain ⟨hc,haw,notices,hatt⟩ := h
  obtain ⟨hc',hawait⟩ := @steady_step_of_not settings c event hevent hc haw
  obtain ⟨notices',items,frames,hrep⟩ := @reports_step settings c event hevent hc haw
  exact ⟨hc',hawait,_,hatt.reports hrep⟩

variable {url : Bytes} {headers : ByteMap Bytes} {env : Env}

theorem trying_started (hc : Steady c) (haw : Awaits c) (h : accepts c url .started = true) :
    let c' := step settings c (.connect url headers .started env)
    Trying c c' ∧ c'.transport = .connecting ∧ c'.tcpCallback = true := by
  simp only [accepts,Bool.and_eq_true,decide_eq_true_eq,Option.isSome_iff_exists] at h
  obtain ⟨⟨target,htar⟩,hidle⟩ := h
  have hdials := dials_connect settings c url headers env .started (by simp)
  have hstep : step settings c (.connect url headers .started env) =
      { cleared c headers with target, transport := .connecting, tcpCallback := true } := by
    simp [step,connect,htar,hidle,cleared]
  intro c'
  have hatt : Attempt c c' [] := by
    simp only [c',hstep]
    exact ⟨by simp [cleared],rfl,rfl,by rintro ⟨⟩⟩
  refine ⟨⟨hdials.steady hc,hdials.awaits haw,[],hatt⟩,?_,?_⟩
  · simp only [c',hstep]
  · simp only [c',hstep]

theorem trying_connect {dial : Dial} (hc : Steady c) (haw : Awaits c) (h : accepts c url dial = true) :
    let c' := step settings c (.connect url headers dial env)
    Trying c c' ∧ (env.lost = none → Waiting c') := by
  cases dial with
  | failed message => cases h
  | started =>
    obtain ⟨htry,hdial,hheld⟩ := @trying_started settings c url headers env hc haw h
    exact ⟨htry,fun _ => .inl ⟨hdial,hheld⟩⟩
  | established key =>
    obtain ⟨htry,hdial,hheld⟩ := @trying_started settings c url headers env hc haw h
    simp only [accepts,Bool.and_eq_true,decide_eq_true_eq] at h
    rw [connect_established hc h.2]
    exact ⟨htry.step rfl,fun hlost => .inr (waiting_established hdial hheld hlost)⟩

/-- Behind a call of `connect` that is accepted, the connect callback is called at most
once, and the one that was passed to the call as often as the one that is set. When
nothing disturbs the handshake, it has been called as soon as the client is disconnected
again. -/
theorem connect_told_once (settings : Settings) (before events : List Event) (url : Bytes) (headers : ByteMap Bytes)
    (dial : Dial) (env : Env) (hevents : ∀ e ∈ events, e.isConnect = false)
    (haccepted : accepts (Machine.runs (step settings) {} before) url dial = true) :
    let start := Machine.runs (step settings) {} before
    let c := Machine.runs (step settings) start (.connect url headers dial env :: events)
    ∃ notices, c.log = start.log ++ notices ∧
      notices.countP Notice.isConnect ≤ 1 ∧
      notices.countP Notice.isOneShot = notices.countP Notice.isConnect ∧
      (Machine.Meets (step settings) (fun c e => undisturbed c e = true) start
          (.connect url headers dial env :: events) →
        c.state = .disconnected → c.transport ≠ .connecting → notices.countP Notice.isConnect = 1) := by
  intro start c
  obtain ⟨hstart,haw⟩ := steady_run settings before
  obtain ⟨htry,hwait⟩ := @trying_connect settings start url headers env dial hstart haw haccepted
  have hc : Trying start c := Machine.invariant_of_events (fun _ _ h hevent => h.step hevent) htry hevents
  obtain ⟨-,-,notices,hlog,honeShots,honce,-⟩ := hc
  refine ⟨notices,hlog,by omega,by omega,fun hmeets hstate htran => ?_⟩
  have hwaits : c.pendingConnectCallback = true → Waiting c := by
    refine (@Machine.invariant _ _ (step settings)
      (fun c => Steady c ∧ Awaits c ∧ (c.pendingConnectCallback = true → Waiting c)) _ ?_ _
      ⟨htry.steady,htry.awaits,fun _ => hwait ?_⟩ events (hmeets.2.and_events hevents)).2.2
    · rintro d event ⟨hd,haw,hwaits⟩ ⟨hok,hevent⟩
      obtain ⟨hd',hawait⟩ := @steady_step_of_not settings d event hevent hd haw
      exact ⟨hd',hawait,waiting_step hevent hok hd haw hwaits⟩
    · simpa [undisturbed] using hmeets.1
  cases hpen : c.pendingConnectCallback with
  | false =>
    rw [hpen] at honce
    exact honce
  | true =>
    rcases hwaits hpen with ⟨hdial,-⟩ | hhan
    · exact absurd hdial htran
    · simp [hstate] at hhan

/-- The server accepts the connection and the handshake times out. -/
theorem connect_told_once_timeout :
    let c := Machine.runs (step {}) {}
      [.connect (ascii "ws://a/") ∅ .started {},.established (ascii "key") {},.handshakeTimeout]
    c.state = .disconnected ∧ c.log.countP Notice.isConnect = 1 := by
  intro c
  obtain ⟨notices,hlog,-,-,honce⟩ := connect_told_once {} [] [.established (ascii "key") {},.handshakeTimeout]
    (ascii "ws://a/") ∅ .started {} (by decide) (by decide +kernel)
  have hstate : c.state = .disconnected := by decide +kernel
  refine ⟨hstate,?_⟩
  rw [show c.log = notices from hlog]
  exact honce (by decide +kernel) hstate (by decide +kernel)

/-- The server closes the connection before it answers the handshake. -/
theorem connect_never_told :
    accepts {} (ascii "ws://a/") .started = true ∧
      let c := Machine.runs (step {}) {}
        [.connect (ascii "ws://a/") ∅ .started {},.established (ascii "key") {},
          .dropped (ascii "Connection closed by peer")]
      c.state = .disconnected ∧ c.transport = .idle ∧ c.log.countP Notice.isConnect = 0 := by
  decide +kernel

end Waiting

end FastNet.WebSocketClient
