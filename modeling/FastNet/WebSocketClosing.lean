import FastNet.WebSocketLifecycle

/-!
How a `WebSocketClient` closes a connection.
-/

namespace FastNet.WebSocketClient

open WebSocketProtocol Machine List

variable {α : Type} {start : Client} {event : Event}

section Closing

variable {settings : Settings} {c c' d : Client} {b : Bool} {notices : List Notice} {items : List Item}
  {frames : List (WSFrameType × Bytes)}

/-- The connection has ended for its user: nothing but answers to Ping frames is sent, and
no message is told. -/
structure Ended (c : Client) : Prop where
  handshake : c.state ≠ .handshake
  connected : c.state ≠ .connected
  dialing : c.transport ≠ .connecting
  sent : c.transport = .connected → c.closeFrameSent = true

theorem HangsUp.ended (h : HangsUp c c')
    (hlive : c.state = .handshake ∨ c.state = .connected → c.transport = .connected) : Ended c' := by
  have hidle := h.transport
  have hstate : ¬ (c'.state = .handshake ∨ c'.state = .connected) := by
    by_cases hcon : c.transport = .connected
    · simp [(h.open_ hcon).1]
    · rw [(h.closed hcon).1]
      exact fun hopen => hcon (hlive hopen)
  exact ⟨fun h => hstate (.inl h),fun h => hstate (.inr h),by simp [hidle],by simp [hidle]⟩

/-- What the parts of a run have in common: messages and frames come one by one, a Close
frame and the notice of the close end the connection, and behind its end both cease. -/
structure Orderly (c c' : Client) (notices : List Notice) (items : List Item)
    (frames : List (WSFrameType × Bytes)) : Prop where
  adds : Adds c c' notices items frames
  messages : (∀ n ∈ notices, n.isMessage = false) ∨ notices.length ≤ 1
  single : items.length ≤ 1
  ended : Ended c →
    Ended c' ∧ (∀ n ∈ notices, n.isMessage = false) ∧ ∀ i ∈ items, i.isClose = false ∧ i.isData = false
  ends : (∃ n ∈ notices, n.isClose = true) ∨ (∃ i ∈ items, i.isClose = true) ∨ (∃ f ∈ frames, f.1 = .close) →
    Ended c'

theorem Orderly.hangsUp (h : Orderly c d notices items frames) (hquiet : ∀ n ∈ notices, n.isMessage = false)
    (hlive : d.state = .handshake ∨ d.state = .connected → d.transport = .connected) (hends : HangsUp d c') :
    ∃ notices, Orderly c c' notices items frames := by
  obtain ⟨notices',hadds,hmes,-⟩ := hends.adds
  have hended := hends.ended hlive
  have hnone : ∀ n ∈ notices ++ notices', n.isMessage = false := by
    intro n hn
    rcases mem_append.mp hn with hn | hn
    · exact hquiet n hn
    · exact hmes n hn
  refine ⟨notices ++ notices',?_,.inl hnone,h.single,fun hc => ⟨hended,hnone,(h.ended hc).2.2⟩,fun _ => hended⟩
  have hall := h.adds.trans hadds
  rwa [append_nil,append_nil] at hall

theorem Orderly.thenEnds (h : Orderly c d notices items frames) (hquiet : ∀ n ∈ notices, n.isMessage = false)
    (hlive : d.state = .handshake ∨ d.state = .connected → d.transport = .connected) (hends : Ends d c') :
    ∃ notices, Orderly c c' notices items frames := by
  rcases hends with rfl | hends
  · exact ⟨notices,h⟩
  · exact h.hangsUp hquiet hlive hends

theorem Orderly.refl (c : Client) : Orderly c c [] [] [] :=
  ⟨.refl c,.inl (by simp),by simp,fun h => ⟨h,by simp,by simp⟩,fun h => by simp at h⟩

theorem Ends.adds (h : Ends c c') :
    ∃ notices, Adds c c' notices [] [] ∧ ∀ n ∈ notices, n.isMessage = false := by
  rcases h with rfl | h
  · exact ⟨[],.refl _,by simp⟩
  · obtain ⟨notices,hadds,hmes,-⟩ := h.adds
    exact ⟨notices,hadds,hmes⟩

theorem orderly_close (payload : Bytes) (code : Nat) (reason : Bytes) (items : List Item) (hends : Ends d c')
    (hsends : Adds (Client.notifyClose { c with handled := c.handled ++ [(.close,payload)] } code reason) d [] items [])
    (hitems : items.length ≤ 1) (hnew : Ended c → items = []) (hended : Ended c') :
    ∃ notices, Orderly c c' notices items [(.close,payload)] := by
  obtain ⟨notices,hadds,hmess,-⟩ := adds_closed c payload code reason
  obtain ⟨notices',hadds',hmes⟩ := hends.adds
  have hnone : ∀ n ∈ notices ++ notices', n.isMessage = false := by
    intro n hn
    rcases mem_append.mp hn with hn | hn
    · exact hmess n hn
    · exact hmes n hn
  refine ⟨notices ++ notices',?_,.inl hnone,hitems,fun hc => ⟨hended,hnone,?_⟩,fun _ => hended⟩
  · simpa using (hadds.trans hsends).trans hadds'
  · rw [hnew hc]
    simp

theorem Ends.ended (h : Ends c c')
    (hlive : c.state = .handshake ∨ c.state = .connected → c.transport = .connected) (hc : Ended c) : Ended c' := by
  rcases h with rfl | h
  · exact hc
  · exact h.ended hlive

theorem orderly_queue (item : Item) (handled : List (WSFrameType × Bytes)) (hends : Ends d c')
    (hlive : d.state = .handshake ∨ d.state = .connected → d.transport = .connected) (hd : Adds c d [] [item] handled)
    (hhan : ∀ f ∈ handled, f.1 ≠ .close) (hclose : item.isClose = true → Ended d)
    (hended : Ended c → Ended d ∧ item.isClose = false ∧ item.isData = false) :
    ∃ notices items frames, Orderly c c' notices items frames := by
  have hord : Orderly c d [] [item] handled := by
    refine ⟨hd,.inl (by simp),by simp,fun hc => ⟨(hended hc).1,by simp,by simpa using (hended hc).2⟩,?_⟩
    rintro (⟨n,hn,-⟩ | ⟨i,hi,hclos⟩ | ⟨f,hf,hfcl⟩)
    · cases hn
    · rw [mem_singleton.mp hi] at hclos
      exact hclose hclos
    · exact absurd hfcl (hhan f hf)
  obtain ⟨notices,h⟩ := hord.thenEnds (by simp) hlive hends
  exact ⟨notices,_,_,h⟩

theorem orderly_silent (handled : List (WSFrameType × Bytes)) (hd : Adds c d [] [] handled)
    (hhan : ∀ f ∈ handled, f.1 ≠ .close) (hended : Ended c → Ended d) : Orderly c d [] [] handled := by
  refine ⟨hd,.inl (by simp),by simp,fun hc => ⟨hended hc,by simp,by simp⟩,?_⟩
  rintro (⟨n,hn,-⟩ | ⟨i,hi,-⟩ | ⟨f,hf,hfcl⟩)
  · cases hn
  · cases hi
  · exact absurd hfcl (hhan f hf)

theorem Ended.congr (h : Ended c) (hstate : d.state = c.state) (htran : d.transport = c.transport)
    (hsent : d.closeFrameSent = c.closeFrameSent) : Ended d := by
  refine ⟨?_,?_,?_,?_⟩
  · rw [hstate]
    exact h.handshake
  · rw [hstate]
    exact h.connected
  · rw [htran]
    exact h.dialing
  · rw [htran,hsent]
    exact h.sent

theorem Moves.orderly (h : Moves c b c') (hc : Steady c) :
    ∃ notices items frames, Orderly c c' notices items frames := by
  cases h with
  | ends hends =>
    obtain ⟨notices,h⟩ := (Orderly.refl c).thenEnds (by simp) hc.live hends
    exact ⟨notices,_,_,h⟩
  | dials hcon hfree =>
    exact ⟨_,_,_,orderly_silent [] (by constructor <;> simp) (by simp)
      (fun hended => absurd hcon hended.dialing)⟩
  | opens hcon request key hends =>
    exact orderly_queue (.request request) [] hends (fun _ => rfl) (by constructor <;> simp [queue]) (by simp) (by rintro ⟨⟩)
      (fun hended => absurd hcon hended.dialing)
  | refuses message hstate hends =>
    have hquiet : ∀ n ∈ [Notice.connect c.pendingConnectCallback false message], n.isMessage = false := by
      simp [Notice.isMessage]
    have hord : Orderly c (c.notifyConnect false message) _ [] [] :=
      ⟨adds_notifyConnect c false message,.inl hquiet,by simp,fun hended => absurd hstate hended.handshake,
        fun h => by simp [Notice.isClose] at h⟩
    obtain ⟨notices,h⟩ := hord.hangsUp hquiet hc.live hends
    exact ⟨notices,_,_,h⟩
  | accepts subprotocol buffer bufferOffset hstate =>
    have hadds := adds_notifyConnect { c with
      acceptedSubprotocol := subprotocol, buffer, bufferOffset, state := .connected, connected := true } true []
    exact ⟨_,_,_,⟨hadds.log,hadds.queued,hadds.handled,hadds.closes,hadds.oneShots,hadds.answered⟩,
      .inr (by simp),by simp,fun hended => absurd hstate hended.handshake,fun h => by simp [Notice.isClose] at h⟩
  | takes buffer bufferOffset =>
    exact ⟨_,_,_,orderly_silent [] (by constructor <;> simp) (by simp) (fun hended => hended.congr rfl rfl rfl)⟩
  | passes frame hframe =>
    exact ⟨_,_,_,orderly_silent [frame] (by constructor <;> simp) (by simpa using hframe)
      (fun hended => hended.congr rfl rfl rfl)⟩
  | tells frame notice hframe hstate hnotice =>
    refine ⟨[notice],[],[frame],adds_message c frame hnotice,.inr (by simp),by simp,
      fun hended => absurd hstate hended.connected,?_⟩
    cases notice <;> simp_all [Notice.isMessage,Notice.isClose]
  | pongs payload hends =>
    exact orderly_queue (.frame .pong payload) [(.ping,payload)] hends hc.live (by constructor <;> simp [queue]) (by simp)
      (by rintro ⟨⟩) (fun hended => ⟨hended.congr rfl rfl rfl,rfl,rfl⟩)
  | sends type payload htype hstate hends =>
    exact orderly_queue (.frame type payload) [] hends hc.live (by constructor <;> simp [queue]) (by simp)
      (fun hclose => by cases type <;> simp_all [Item.isClose]) (fun hended => absurd hstate hended.connected)
  | leaves hstate hends =>
    have hsil : Orderly c { c with state := .closing } [] [] [] := by
      refine orderly_silent [] (by constructor <;> simp) (by simp) (fun hended => ?_)
      rcases hstate with hstate | hstate
      · exact absurd hstate hended.handshake
      · exact absurd hstate hended.connected
    obtain ⟨notices,h⟩ := hsil.hangsUp (by simp) (fun h => by simp at h) hends
    exact ⟨notices,_,_,h⟩
  | closes payload hstate hends =>
    refine orderly_queue (.frame .close payload) [] hends (fun h => by simp [queue,shut] at h)
      (by constructor <;> simp [queue,shut]) (by simp) (fun _ => ?_) (fun hended => absurd hstate hended.connected)
    exact ⟨by rintro ⟨⟩,by rintro ⟨⟩,fun h => by simp [queue,shut,hc.live (.inr hstate)] at h,fun _ => rfl⟩
  | returns payload code reason hsent hends =>
    have hst := hc.notifyClose (c.handled ++ [(.close,payload)]) code reason
    obtain ⟨-,ht,-,hs,hf,-⟩ :=
      notifyClose_frame { c with handled := c.handled ++ [(.close,payload)] } code reason
    have hclos := hc.closing hsent
    have hended : Ended c := by
      refine ⟨by simp [hclos],by simp [hclos],fun h => ?_,fun _ => hsent⟩
      simp [hc.dialing h] at hclos
    obtain ⟨notices,h⟩ := orderly_close payload code reason [] hends (.refl _) (by simp) (fun _ => rfl)
      (hends.ended hst.live (hended.congr hs ht hf))
    exact ⟨notices,_,_,h⟩
  | answers payload answer code reason htran hsent hends =>
    obtain ⟨-,ht,-⟩ := notifyClose_frame { c with handled := c.handled ++ [(.close,payload)] } code reason
    have hmid := hends.ended (fun h => by simp [queue,shut] at h)
      ⟨by rintro ⟨⟩,by rintro ⟨⟩,fun h => absurd (htran.symm.trans (ht.symm.trans h)) (by simp),fun _ => rfl⟩
    obtain ⟨notices,h⟩ := orderly_close payload code reason [.frame .close answer] hends
      (by constructor <;> simp [queue,shut]) (by simp)
      (fun hended => absurd ((hended.sent htran).symm.trans hsent) (by simp)) hmid
    exact ⟨notices,_,_,h⟩
  | misses payload code reason htran hends =>
    obtain ⟨notices,h⟩ := orderly_close (c := c) payload code reason [] (.inr hends) (by constructor <;> simp [shut]) (by simp)
      (fun _ => rfl) (hends.ended (fun h => by simp [shut] at h))
    exact ⟨notices,_,_,h⟩

theorem pairwise_of_length_le_one {R : α → α → Prop} {l : List α} (h : l.length ≤ 1) : l.Pairwise R := by
  match l, h with
  | [], _ => exact .nil
  | [a], _ => exact pairwise_singleton R a

/-- The records of a client since `start`, and what they say about it. -/
structure Window (start c : Client) (notices : List Notice) (items : List Item)
    (frames : List (WSFrameType × Bytes)) : Prop where
  log : c.log = start.log ++ notices
  queued : c.queued = start.queued ++ items
  handled : c.handled = start.handled ++ frames
  closes : notices.countP Notice.isClose = c.closeNotified.toNat
  messages : notices.Pairwise (fun n n' => n.isClose = true → n'.isMessage = false)
  sends : items.Pairwise (fun i i' => i.isClose = true → i'.isClose = false ∧ i'.isData = false)
  ends : (∃ n ∈ notices, n.isClose = true) ∨ (∃ i ∈ items, i.isClose = true) ∨ (∃ f ∈ frames, f.1 = .close) →
    Ended c

theorem Window.orderly {notices' : List Notice} {items' : List Item}
    {frames' : List (WSFrameType × Bytes)} (h : Window start c notices items frames)
    (h' : Orderly c c' notices' items' frames') :
    Window start c' (notices ++ notices') (items ++ items') (frames ++ frames') := by
  have hclos := h'.adds.closes
  refine ⟨?_,?_,?_,?_,?_,?_,?_⟩
  · rw [h'.adds.log,h.log,append_assoc]
  · rw [h'.adds.queued,h.queued,append_assoc]
  · rw [h'.adds.handled,h.handled,append_assoc]
  · rw [countP_append,h.closes]
    omega
  · refine pairwise_append.mpr ⟨h.messages,?_,?_⟩
    · rcases h'.messages with hquiet | hone
      · exact pairwise_of_forall_mem_list (fun n _ n' hn' _ => hquiet n' hn')
      · exact pairwise_of_length_le_one hone
    · intro n hn n' hn' hclose
      exact (h'.ended (h.ends (.inl ⟨n,hn,hclose⟩))).2.1 n' hn'
  · refine pairwise_append.mpr ⟨h.sends,pairwise_of_length_le_one h'.single,?_⟩
    intro i hi i' hi' hclose
    exact (h'.ended (h.ends (.inr (.inl ⟨i,hi,hclose⟩)))).2.2 i' hi'
  · intro hany
    by_cases hold : (∃ n ∈ notices, n.isClose = true) ∨ (∃ i ∈ items, i.isClose = true) ∨
        (∃ f ∈ frames, f.1 = .close)
    · exact (h'.ended (h.ends hold)).1
    · refine h'.ends ?_
      rcases hany with ⟨n,hn,hclose⟩ | ⟨i,hi,hclose⟩ | ⟨f,hf,hclose⟩
      · rcases mem_append.mp hn with hn | hn
        · exact absurd (.inl ⟨n,hn,hclose⟩) hold
        · exact .inl ⟨n,hn,hclose⟩
      · rcases mem_append.mp hi with hi | hi
        · exact absurd (.inr (.inl ⟨i,hi,hclose⟩)) hold
        · exact .inr (.inl ⟨i,hi,hclose⟩)
      · rcases mem_append.mp hf with hf | hf
        · exact absurd (.inr (.inr ⟨f,hf,hclose⟩)) hold
        · exact .inr (.inr ⟨f,hf,hclose⟩)

theorem Dials.window {headers : ByteMap Bytes} (h : Dials c headers c') : ∃ notices, Window c c' notices [] [] := by
  cases h with
  | refused target tcpCallback message hcal =>
    refine ⟨[.connect true false message],rfl,by simp [Client.notifyConnect,Client.tell,cleared],
      by simp [Client.notifyConnect,Client.tell,cleared],rfl,by simp,by simp,?_⟩
    simp [Notice.isClose]
  | started target hidle =>
    refine ⟨[],by simp [cleared],by simp [cleared],by simp [cleared],rfl,by simp,by simp,?_⟩
    simp

/-- A client in a run since `start`. -/
def Since (start c : Client) : Prop :=
  Steady c ∧ Awaits c ∧ ∃ notices items frames, Window start c notices items frames

theorem orderly_step (hevent : event.isConnect = false) (hc : Steady c) (haw : Awaits c) :
    ∃ notices items frames, Orderly c (step settings c event) notices items frames := by
  obtain ⟨⟨b,d,hmoves,reading,hstep⟩,-⟩ := moves_step hevent hc haw
  obtain ⟨notices,items,frames,h⟩ := hmoves.orderly hc
  rw [hstep]
  refine ⟨notices,items,frames,⟨h.adds.log,h.adds.queued,h.adds.handled,h.adds.closes,h.adds.oneShots,
    h.adds.answered⟩,h.messages,h.single,fun hended => ?_,fun hany => ?_⟩
  · exact ⟨(h.ended hended).1.congr rfl rfl rfl,(h.ended hended).2⟩
  · exact (h.ends hany).congr rfl rfl rfl

theorem Since.step (h : Since start c) (hevent : event.isConnect = false) :
    Since start (WebSocketClient.step settings c event) := by
  obtain ⟨hc,haw,notices,items,frames,hwin⟩ := h
  obtain ⟨hc',hawait⟩ := steady_step_of_not hevent hc haw
  obtain ⟨notices',items',frames',hord⟩ := orderly_step hevent hc haw
  exact ⟨hc',hawait,_,_,_,hwin.orderly hord⟩

theorem since_connect (url : Bytes) (headers : ByteMap Bytes) (dial : Dial) (env : Env) (hc : Steady c)
    (haw : Awaits c) : Since c (step settings c (.connect url headers dial env)) := by
  have hdials (dial : Dial) (hdial : ∀ key, dial = .established key → c.transport ≠ .idle) :
      Since c (step settings c (.connect url headers dial env)) := by
    have h := dials_connect settings c url headers env dial hdial
    obtain ⟨notices,hwin⟩ := h.window
    exact ⟨h.steady hc,h.awaits haw,notices,[],[],hwin⟩
  by_cases hdial : ∀ key, dial = .established key → c.transport ≠ .idle
  · exact hdials dial hdial
  · simp only [not_forall,not_not] at hdial
    obtain ⟨key,rfl,hidle⟩ := hdial
    rw [connect_established hc hidle]
    exact (hdials .started (by simp)).step rfl

theorem ended_run (hc : Steady c) (haw : Awaits c) (hended : Ended c) {events : List Event}
    (heven : ∀ e ∈ events, e.isConnect = false) :
    ∃ items, (runs (step settings) c events).queued = c.queued ++ items ∧
      ∀ i ∈ items, i.isData = false := by
  have hrun := @invariant_of_events _ _ (step settings)
    (fun d => Steady d ∧ Awaits d ∧ Ended d ∧ ∃ items, d.queued = c.queued ++ items ∧ ∀ i ∈ items, i.isData = false)
    (fun e => e.isConnect = false) ?_ c ⟨hc,haw,hended,[],by simp,by simp⟩ events heven
  · exact hrun.2.2.2
  · rintro d event ⟨hd,haw,hended,items,hqu,hitems⟩ hevent
    obtain ⟨hd',hawait⟩ := steady_step_of_not hevent hd haw
    obtain ⟨notices',items',frames',hord⟩ := orderly_step hevent hd haw
    obtain ⟨hended',-,hquiet⟩ := hord.ended hended
    refine ⟨hd',hawait,hended',items ++ items',?_,?_⟩
    · rw [hord.adds.queued,hqu,append_assoc]
    · intro i hi
      rcases mem_append.mp hi with hi | hi
      · exact hitems i hi
      · exact (hquiet i hi).2

theorem countP_le_one {p : α → Bool} {l : List α}
    (h : l.Pairwise (fun a a' => p a = true → p a' = false)) : l.countP p ≤ 1 := by
  induction l with
  | nil => simp
  | cons a l ih =>
    rw [pairwise_cons] at h
    cases ha : p a with
    | false =>
      rw [countP_cons_of_neg (by simp [ha])]
      exact ih h.2
    | true =>
      rw [countP_cons_of_pos ha,countP_eq_zero.mpr (fun a' ha' => by simp [h.1 a' ha' ha])]

/-- Between two calls of `connect` the close callback is called at most once and no message
callback behind it, and at most one Close frame is sent and no Text or Binary frame behind
a Close frame that was sent or received. -/
theorem close_ends_messages (settings : Settings) (before events : List Event) (url : Bytes) (headers : ByteMap Bytes)
    (dial : Dial) (env : Env) (hevents : ∀ e ∈ events, e.isConnect = false) :
    let start := Machine.runs (step settings) {} before
    let c := Machine.runs (step settings) start (.connect url headers dial env :: events)
    ∃ notices items, c.log = start.log ++ notices ∧ c.queued = start.queued ++ items ∧
      notices.countP Notice.isClose ≤ 1 ∧ items.countP Item.isClose ≤ 1 ∧
      notices.Pairwise (fun n n' => n.isClose = true → n'.isMessage = false) ∧
      items.Pairwise (fun i i' => i.isClose = true → i'.isData = false) ∧
      ∀ earlier later, events = earlier ++ later →
        let d := Machine.runs (step settings) start (.connect url headers dial env :: earlier)
        (∃ f ∈ d.handled.drop start.handled.length, f.1 = .close) →
          ∃ sent, c.queued = d.queued ++ sent ∧ ∀ i ∈ sent, i.isData = false := by
  intro start c
  obtain ⟨hstart,haw⟩ := steady_run settings before
  have hsince (events : List Event) (hevents : ∀ e ∈ events, e.isConnect = false) :
      Since start (Machine.runs (step settings) start (.connect url headers dial env :: events)) :=
    Machine.invariant_of_events (fun _ _ h hevent => h.step hevent)
      (since_connect url headers dial env hstart haw) hevents
  obtain ⟨-,-,notices,items,frames,hwin⟩ := hsince events hevents
  refine ⟨notices,items,hwin.log,hwin.queued,?_,countP_le_one (hwin.sends.imp fun h hi => (h hi).1),
    hwin.messages,hwin.sends.imp fun h hi => (h hi).2,?_⟩
  · rw [hwin.closes]
    exact Bool.toNat_le _
  · rintro earlier later rfl d ⟨f,hf,hclose⟩
    obtain ⟨hd,haw,notices,items,frames,hwin⟩ :=
      hsince earlier (fun e he => hevents e (List.mem_append_left later he))
    rw [hwin.handled,List.drop_left] at hf
    have hrun := @ended_run settings _ hd haw (hwin.ends (.inr (.inr ⟨f,hf,hclose⟩))) later
      (fun e he => hevents e (List.mem_append_right earlier he))
    rwa [← Machine.runs_append] at hrun

/-- The response of a server that accepts the handshake with `key`. -/
def acceptance (key : Bytes) : Bytes :=
  ascii "HTTP/1.1 101 Switching Protocols\r\nUpgrade: websocket\r\nConnection: Upgrade\r\nSec-WebSocket-Accept: " ++
    createAcceptKey key ++ crlfcrlf

def farewell : List Event :=
  [.data (acceptance (ascii "key")),.read {},.sendText (ascii "hi") {},.close 1000 (ascii "bye") {},
    .sendText (ascii "late") {},.data [136,0],.read {},.read { drained := true }]

theorem close_ends_messages_farewell :
    let c := Machine.runs (step {}) {} (.connect (ascii "ws://a/") ∅ (.established (ascii "key")) {} :: farewell)
    c.queued.countP Item.isClose = 1 ∧ c.log.countP Notice.isClose ≤ 1 ∧
      c.queued.Pairwise (fun i i' => i.isClose = true → i'.isData = false) := by
  intro c
  obtain ⟨notices,items,hlog,hqu,hclose,-,-,hsends,-⟩ :=
    close_ends_messages {} [] farewell (ascii "ws://a/") ∅ (.established (ascii "key")) {} (by decide)
  refine ⟨by decide +kernel,?_,?_⟩
  · rw [show c.log = notices from hlog]
    exact hclose
  · rw [show c.queued = items from hqu]
    exact hsends

end Closing

end FastNet.WebSocketClient
