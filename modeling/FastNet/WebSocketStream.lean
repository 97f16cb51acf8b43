import FastNet.WebSocketBuffer
import FastNet.WebSocketClient

/-!
A stream of frames on its way through the two ends. However it is cut into segments, what
is passed to `handleFrame` is the row of messages that it was made of.
-/

namespace FastNet

open Octets OffsetBuffer WebSocketProtocol List Machine

section Stream

structure Message where
  type : WSFrameType
  payload : Bytes
  key : Key

def Message.content (m : Message) : WSFrameType × Bytes := (m.type,m.payload)

def Message.valid (m : Message) : Bool :=
  m.type ≠ .close && (!isControlFrame m.type || m.payload.length ≤ 125) && m.payload.length < 2^63

def stream (masked : Bool) (messages : List Message) : Bytes :=
  messages.flatMap (fun m => encodeFrame m.key m.payload m.type masked)

variable {masked : Bool} {messages : List Message} {m : Message}

theorem Message.acceptable (h : m.valid = true) : Acceptable true m.type m.payload := by
  simp only [valid,Bool.and_eq_true,Bool.or_eq_true,Bool.not_eq_true',decide_eq_true_eq] at h
  obtain ⟨⟨hclose,hcon⟩,hsize⟩ := h
  refine ⟨hsize,fun hc => ⟨rfl,?_⟩,fun hc => absurd hc hclose⟩
  rcases hcon with hdata | hle
  · rw [hc] at hdata
    cases hdata
  · exact hle

theorem Message.not_close (h : m.valid = true) : m.type ≠ .close := by
  simp only [valid,Bool.and_eq_true,decide_eq_true_eq] at h
  exact h.1.1

theorem frame_found (h : m.valid = true) (rest : Bytes) :
    let frame := encodeFrame m.key m.payload m.type masked
    0 < frame.length ∧ WebSocketServer.getFrameSize (frame ++ rest) = frame.length ∧
      decodeFrame frame = some (m.payload,{ type := m.type, final := true, masked }) ∧
      ∀ k < frame.length, WebSocketServer.getFrameSize ((frame ++ rest).take k) = 0 := by
  have hacc := Message.acceptable h
  intro frame
  have hframe : frame = frameOf true m.type masked m.key m.payload := encodeFrame_eq ..
  obtain ⟨hwhole,hpart⟩ := getFrameSize_frameOf hacc.size true m.type masked m.key rest
  rw [hframe]
  refine ⟨?_,hwhole,decodeFrame_iff.mpr ⟨hacc,m.key,[],by simp⟩,hpart⟩
  rw [frameOf]
  exact Nat.succ_pos _

/-- The messages on their way: `out` has been taken from the stream, `unread` has arrived
and `future` has not. -/
def Delivers (masked : Bool) (base : List (WSFrameType × Bytes)) (messages : List Message)
    (future unread : Bytes) (out : List (WSFrameType × Bytes)) : Prop :=
  ∃ past todo, messages = past ++ todo ∧ out = base ++ past.map Message.content ∧
    unread ++ future = stream masked todo

variable {base out : List (WSFrameType × Bytes)} {future unread bytes : Bytes}

theorem Delivers.next (hvalid : ∀ m ∈ messages, m.valid = true)
    (h : Delivers masked base messages future unread out) :
    WebSocketServer.getFrameSize unread = 0 ∨
      ∃ m ∈ messages, ∃ n, 0 < n ∧ n ≤ unread.length ∧ WebSocketServer.getFrameSize unread = n ∧
        decodeFrame (unread.take n) = some (m.payload,{ type := m.type, final := true, masked }) ∧
        Delivers masked base messages future (unread.drop n) (out ++ [m.content]) := by
  obtain ⟨past,todo,rfl,rfl,hst⟩ := h
  cases todo with
  | nil =>
    rw [(append_eq_nil_iff.mp hst).1]
    exact .inl rfl
  | cons m todo =>
    have hstr : unread ++ future = encodeFrame m.key m.payload m.type masked ++ stream masked todo := hst
    generalize hframe : encodeFrame m.key m.payload m.type masked = frame at hstr
    obtain ⟨hpos,hwhole,hdec,hpart⟩ := @frame_found masked m (hvalid m (by simp)) (stream masked todo)
    rw [hframe] at hpos hwhole hdec hpart
    rcases Nat.lt_or_ge unread.length frame.length with hlt | hge
    · left
      have htake : unread = (frame ++ stream masked todo).take unread.length := by
        rw [← hstr,take_left]
      rw [htake]
      exact hpart _ hlt
    · right
      obtain ⟨rest,rfl⟩ : ∃ rest, unread = frame ++ rest := by
        refine ⟨unread.drop frame.length,?_⟩
        have htake := congrArg (take frame.length) hstr
        rw [take_append_of_le_length hge,take_left] at htake
        nth_rewrite 1 [← htake]
        rw [take_append_drop]
      rw [append_assoc,append_cancel_left_eq] at hstr
      refine ⟨m,by simp,frame.length,hpos,by simp,?_,?_,past ++ [m],todo,by simp,by simp,?_⟩
      · have hfound := (@frame_found masked m (hvalid m (by simp)) rest).2.1
        rwa [hframe] at hfound
      · rw [take_left]
        exact hdec
      · rw [drop_left]
        exact hstr

theorem Delivers.data (h : Delivers masked base messages (bytes ++ future) unread out) :
    Delivers masked base messages future (unread ++ bytes) out := by
  obtain ⟨past,todo,hmes,hout,hstr⟩ := h
  exact ⟨past,todo,hmes,hout,by rw [append_assoc,hstr]⟩

theorem Delivers.starts (h : Delivers masked base messages future unread out) :
    out <+: base ++ messages.map Message.content := by
  obtain ⟨past,todo,rfl,rfl,-⟩ := h
  exact ⟨todo.map Message.content,by simp⟩

theorem Delivers.length_le (h : Delivers masked base messages future unread out) :
    unread.length ≤ (stream masked messages).length := by
  obtain ⟨past,todo,rfl,-,hstr⟩ := h
  have hlen := congrArg length hstr
  simp only [stream,flatMap_append,length_append] at hlen ⊢
  omega

theorem Delivers.complete (hvalid : ∀ m ∈ messages, m.valid = true)
    (h : Delivers masked base messages [] unread out) (hwait : WebSocketServer.getFrameSize unread = 0) :
    out = base ++ messages.map Message.content := by
  obtain ⟨past,todo,rfl,rfl,hstr⟩ := h
  cases todo with
  | nil => simp
  | cons m todo =>
    obtain ⟨hpos,hwhole,-,-⟩ := @frame_found masked m (hvalid m (by simp)) (stream masked todo)
    rw [append_nil] at hstr
    rw [hstr] at hwait
    exact absurd (hwhole.symm.trans hwait) (by omega)

end Stream

namespace WebSocketServer

def idle (c : Connection) : Bool :=
  match c.client with
  | some state => state.status = .connected && (unread state).length = 0 && c.reading.length = 0
  | none => false

def Call.leaves : Call → Bool
  | .send _ _ => true
  | .sweep _ => true
  | _ => false

def calm (c : Connection) : Event → Bool
  | .connected _ _ _ => true
  | .data _ _ => c.reading.length = 0
  | .read _ => true
  | .call _ => true
  | .move i _ => ((c.others.getD i []).take 1).all Call.leaves
  | .dropped => false

def Event.bytes : Event → Bytes
  | .data bytes _ => bytes
  | _ => []

def received (events : List Event) : Bytes := events.flatMap Event.bytes

variable {settings : Settings} {env : Env} {c : Connection} {call : Call} {state : ClientState}

/-- Where the call for received bytes stands: the frame that it has taken from the buffer
and not passed on yet. -/
inductive Turn : List Call → List (WSFrameType × Bytes) → Prop where
  | idle : Turn [] []
  | frames : Turn [.frames] []
  | handling {type : WSFrameType} {payload : Bytes} (h : type ≠ .close) :
      Turn [.handleFrame type payload,.frames] [(type,payload)]
  | answering {payload : Bytes} : Turn [.send .pong payload,.frames] []

structure Serving (base : List (WSFrameType × Bytes)) (messages : List Message) (future : Bytes)
    (c : Connection) : Prop where
  placed : Placed c
  client : ∃ state, c.client = some state ∧ state.status = .connected ∧
    (c.reading = [] → getFrameSize (unread state) = 0) ∧
    ∃ pending, Turn c.reading pending ∧
      Delivers true base messages future (unread state) (c.handled ++ pending)

theorem takeFrame_wait (hmax : (unread state).length ≤ kMaxClientBufferSize)
    (h : getFrameSize (unread state) = 0) : takeFrame c state = (c,[]) := by
  simp only [takeFrame,makeBufferedView_size,makeBufferedView_text]
  rw [if_neg (by omega),if_pos (.inl h)]

theorem takeFrame_next (hmax : (unread state).length ≤ kMaxClientBufferSize) {n : Nat}
    (hpos : 0 < n) (hle : n ≤ (unread state).length) (h : getFrameSize (unread state) = n) {payload : Bytes}
    {type : WSFrameType} {masked : Bool}
    (hdec : decodeFrame ((unread state).take n) = some (payload,{ type, final := true, masked })) :
    takeFrame c state =
      ({ c with client := some (takeOff state n) },[.handleFrame type payload,.frames]) := by
  simp only [takeFrame,makeBufferedView_size,makeBufferedView_text,h,hdec]
  rw [if_neg (by omega),if_neg (by omega)]
  rfl

theorem perform_leaves (h : call.leaves = true) :
    (perform settings env c call).1.client = c.client ∧
      (perform settings env c call).1.handled = c.handled := by
  cases call with
  | send type payload =>
    simp only [perform,push]
    split <;> exact ⟨rfl,rfl⟩
  | sweep now =>
    simp only [perform]
    split
    · exact ⟨rfl,rfl⟩
    · split
      · exact ⟨rfl,rfl⟩
      · split <;> exact ⟨rfl,rfl⟩
  | _ => cases h

theorem perform_handleFrame (h : c.client = some state) (type : WSFrameType) (payload : Bytes) :
    ∃ state', (perform settings env c (.handleFrame type payload)).1.client = some state' ∧
      state'.status = state.status ∧ unread state' = unread state ∧
      (perform settings env c (.handleFrame type payload)).1.handled = c.handled ++ [(type,payload)] := by
  simp only [perform,h,Option.map_some]
  split
  · exact ⟨_,rfl,rfl,rfl,rfl⟩
  · exact ⟨state,rfl,rfl,rfl,rfl⟩

theorem frameCalls_of_not_close {type : WSFrameType} (h : type ≠ .close) (payload : Bytes) :
    frameCalls type payload = [] ∨ frameCalls type payload = [.send .pong payload] := by
  cases type with
  | ping => exact .inr rfl
  | close => exact absurd rfl h
  | _ => exact .inl rfl

variable {base : List (WSFrameType × Bytes)} {messages : List Message} {future : Bytes}

def remaining (c : Connection) : Nat :=
  match c.client with
  | none => 0
  | some state =>
    match c.reading with
    | [] => 0
    | [_] => 3*(unread state).length+1
    | .handleFrame _ _ :: _ => 3*(unread state).length+3
    | _ => 3*(unread state).length+2

theorem serving_read (hvalid : ∀ m ∈ messages, m.valid = true)
    (hmax : (stream true messages).length ≤ kMaxClientBufferSize) (h : Serving base messages future c)
    (hread : c.reading ≠ []) :
    Serving base messages future (step settings c (.read env)) ∧
      remaining (step settings c (.read env)) < remaining c := by
  obtain ⟨hpl,state,hclient,hcon,-,pending,hturn,hdel⟩ := h
  have hplac := @placed_step settings c (.read env) hpl
  have hlen := Nat.le_trans hdel.length_le hmax
  generalize hcalls : c.reading = calls at hturn hread
  cases hturn with
  | idle => exact absurd rfl hread
  | frames =>
    rw [append_nil] at hdel
    rcases hdel.next hvalid with hwait | ⟨m,hm,n,hpos,hle,hsize,hdec,hnext⟩
    · have hstep : step settings c (.read env) = { c with reading := [] } := by
        simp only [step,hcalls,perform,hclient,hcon,if_true,takeFrame_wait hlen hwait]
        rfl
      rw [hstep] at hplac ⊢
      refine ⟨⟨hplac,state,hclient,hcon,fun _ => hwait,[],.idle,by simpa using hdel⟩,?_⟩
      simp [remaining,hclient,hcalls]
    · have hstep : step settings c (.read env) =
          { c with client := some (takeOff state n), reading := [.handleFrame m.type m.payload,.frames] } := by
        simp only [step,hcalls,perform,hclient,hcon,if_true,takeFrame_next hlen hpos hle hsize hdec]
        rfl
      rw [hstep] at hplac ⊢
      refine ⟨⟨hplac,takeOff state n,rfl,hcon,(fun hnil => by cases hnil),_,.handling (Message.not_close (hvalid m hm)),?_⟩,?_⟩
      · rw [unread_takeOff]
        exact hnext
      · simp only [remaining,hclient,hcalls,unread_takeOff,length_drop]
        omega
  | @handling type payload htype =>
    obtain ⟨state',hclient',hstatus',hunr,hhan⟩ :=
      @perform_handleFrame settings env c state hclient type payload
    have hstep : step settings c (.read env) =
        { (perform settings env c (.handleFrame type payload)).1 with
          reading := frameCalls type payload ++ [.frames] } := by
      simp only [step,hcalls,perform]
    have hde : Delivers true base messages future (unread state')
        ((perform settings env c (.handleFrame type payload)).1.handled ++ []) := by
      rw [hunr,hhan,append_nil]
      exact hdel
    rw [hstep] at hplac ⊢
    rcases frameCalls_of_not_close htype payload with hnone | hpong
    · rw [hnone] at hplac ⊢
      refine ⟨⟨hplac,state',hclient',hstatus'.trans hcon,by simp,[],.frames,hde⟩,?_⟩
      simp only [remaining,hclient,hclient',hcalls,hunr,nil_append]
      omega
    · rw [hpong] at hplac ⊢
      refine ⟨⟨hplac,state',hclient',hstatus'.trans hcon,by simp,[],.answering,hde⟩,?_⟩
      simp only [remaining,hclient,hclient',hcalls,hunr,cons_append,nil_append]
      omega
  | @answering payload =>
    obtain ⟨hsame,hhan⟩ := @perform_leaves settings env c (.send .pong payload) rfl
    have hstep : step settings c (.read env) =
        { (perform settings env c (.send .pong payload)).1 with reading := [.frames] } := by
      simp only [step,hcalls,perform]
      rfl
    rw [hstep] at hplac ⊢
    refine ⟨⟨hplac,state,hsame.trans hclient,hcon,by simp,[],.frames,?_⟩,?_⟩
    · simpa [hhan] using hdel
    · simp only [remaining,hsame,hclient,hcalls]
      omega

theorem serving_data {bytes : Bytes} {now : Nat} (h : Serving base messages (bytes ++ future) c)
    (hread : c.reading = []) : Serving base messages future (step settings c (.data bytes now)) := by
  have hplac := @placed_step settings c (.data bytes now) h.placed
  obtain ⟨hpl,state,hclient,hcon,-,pending,hturn,hdel⟩ := h
  rw [hread] at hturn
  cases hturn
  have hstep : step settings c (.data bytes now) =
      { c with
        client := some (appendData state now bytes), reading := [.frames], lastSegment := bytes.length } := by
    simp only [step,hclient,hread,hcon]
    rfl
  rw [hstep] at hplac ⊢
  refine ⟨hplac,_,rfl,hcon,by simp,[],.frames,?_⟩
  have hunr : unread (appendData state now bytes) = unread state ++ bytes :=
    drop_append (hpl.offset state hclient)
  rw [hunr]
  exact hdel.data

theorem serving_step (hvalid : ∀ m ∈ messages, m.valid = true)
    (hmax : (stream true messages).length ≤ kMaxClientBufferSize) {event : Event}
    (hcalm : calm c event = true) (h : Serving base messages (event.bytes ++ future) c) :
    Serving base messages future (step settings c event) := by
  have hplac := @placed_step settings c event h.placed
  cases event with
  | connected full address now =>
    obtain ⟨hpl,state,hclient,hrest⟩ := h
    have hann := hpl.announced (by simp [hclient])
    simp only [step,hann,if_true]
    exact ⟨hpl,state,hclient,hrest⟩
  | data bytes now =>
    exact serving_data h (by simpa [calm] using hcalm)
  | read env =>
    by_cases hre : c.reading = []
    · have hstep : step settings c (.read env) = c := by simp only [step,hre]
      rw [hstep]
      exact h
    · exact (serving_read hvalid hmax h hre).1
  | call entry => exact ⟨hplac,h.client⟩
  | move i env =>
    simp only [step] at hplac ⊢
    split
    · rename_i call rest hi
      have hleav : call.leaves = true := by simpa [calm,getD,hi] using hcalm
      obtain ⟨hclient,hhan⟩ := @perform_leaves settings env c call hleav
      have hread := (@perform_threads settings env c call).1
      simp only [hi] at hplac
      refine ⟨hplac,?_⟩
      simp only [hclient,hhan,hread]
      exact h.client
    · exact h
  | dropped => cases hcalm

theorem serving_run (hvalid : ∀ m ∈ messages, m.valid = true)
    (hmax : (stream true messages).length ≤ kMaxClientBufferSize) {events : List Event}
    (hcalm : Machine.Meets (step settings) (fun c e => calm c e = true) c events)
    (h : Serving base messages (received events) c) :
    Serving base messages [] (runs (step settings) c events) :=
  @feeds _ _ (step settings) _ Event.bytes (Serving base messages) (fun c e => calm c e = true)
    (fun _ _ _ => serving_step hvalid hmax) _ _ hcalm h

theorem serving_idle (hplac : Placed c) (h : idle c = true) :
    Serving c.handled messages (stream true messages) c := by
  unfold idle at h
  cases hclient : c.client with
  | none => simp [hclient] at h
  | some state =>
    simp only [hclient,Bool.and_eq_true,decide_eq_true_eq,length_eq_zero_iff] at h
    obtain ⟨⟨hcon,hunr⟩,hread⟩ := h
    refine ⟨hplac,state,hclient,hcon,fun _ => by rw [hunr]; rfl,[],?_,[],messages,rfl,?_,?_⟩
    · rw [hread]
      exact .idle
    · simp
    · rw [hunr]
      rfl

theorem Serving.complete (hvalid : ∀ m ∈ messages, m.valid = true) (h : Serving base messages [] c)
    (hread : c.reading = []) : c.handled = base ++ messages.map Message.content := by
  obtain ⟨-,state,-,-,hwait,pending,hturn,hdel⟩ := h
  rw [hread] at hturn
  cases hturn
  rw [append_nil] at hdel
  exact hdel.complete hvalid (hwait hread)

theorem Serving.starts (h : Serving base messages future c) :
    c.handled <+: base ++ messages.map Message.content := by
  obtain ⟨-,state,-,-,-,pending,-,hdel⟩ := h
  exact (prefix_append _ _).trans hdel.starts

theorem serving_ends (settings : Settings) (hvalid : ∀ m ∈ messages, m.valid = true)
    (hmax : (stream true messages).length ≤ kMaxClientBufferSize) (h : Serving base messages [] c) :
    ∃ n, let c' := runs (step settings) c (replicate n (.read {}))
      c'.reading = [] ∧ c'.handled = base ++ messages.map Message.content := by
  obtain ⟨n,hser,hn⟩ := @stops_of_variant _ _ (step settings) (Serving base messages [])
    (fun c => c.reading = []) remaining (.read {}) (fun c hc hne => serving_read hvalid hmax hc hne) _ h
  exact ⟨n,hn,hser.complete hvalid hn⟩

end WebSocketServer

namespace WebSocketClient

def idle (c : Client) : Bool :=
  c.transport = .connected && c.state = .connected && (unread c).length = 0 && c.reading.length = 0

def calm (c : Client) : Event → Bool
  | .data _ => c.reading.length = 0
  | .read env => env.lost.isNone
  | .sendText _ env => env.lost.isNone
  | .sendBinary _ env => env.lost.isNone
  | .ping env => env.lost.isNone
  | .established _ _ => true
  | .handshakeTimeout => true
  | .closeTimeout => true
  | .connect _ _ _ _ => false
  | .failed _ => false
  | .dropped _ => false
  | .close _ _ _ => false

def Event.bytes : Event → Bytes
  | .data bytes => bytes
  | _ => []

def received (events : List Event) : Bytes := events.flatMap Event.bytes

variable {settings : Settings} {env : Env} {c c' : Client}

/-- Where the call for received bytes stands: the frame that it has taken from the buffer
and not passed on yet. -/
inductive Turn : List Call → List (WSFrameType × Bytes) → Prop where
  | idle : Turn [] []
  | frames : Turn [.frames] []
  | handling {type : WSFrameType} {payload : Bytes} (h : type ≠ .close) :
      Turn [.handleFrame type payload,.frames] [(type,payload)]

structure Serving (base : List (WSFrameType × Bytes)) (messages : List Message) (future : Bytes)
    (c : Client) : Prop where
  placed : Placed c
  transport : c.transport = .connected
  state : c.state = .connected
  waits : c.reading = [] → getFrameSize (unread c) = 0
  delivers : ∃ pending, Turn c.reading pending ∧
    Delivers false base messages future (unread c) (c.handled ++ pending)

/-- What the delivery of messages can see of a client has not changed. -/
structure Same (c c' : Client) : Prop where
  transport : c'.transport = c.transport
  state : c'.state = c.state
  buffer : c'.buffer = c.buffer
  bufferOffset : c'.bufferOffset = c.bufferOffset
  reading : c'.reading = c.reading

theorem same_send (hlost : env.lost = none) (item : Item) :
    Same c (c.send env item).1 ∧ (c.send env item).1.handled = c.handled := by
  simp only [Client.send,hlost]
  split <;> exact ⟨⟨rfl,rfl,rfl,rfl,rfl⟩,rfl⟩

theorem same_sendFrame (hlost : env.lost = none) (type : WSFrameType) (payload : Bytes) :
    Same c (c.sendFrame env type payload) ∧ (c.sendFrame env type payload).handled = c.handled := by
  unfold Client.sendFrame
  split
  · exact ⟨⟨rfl,rfl,rfl,rfl,rfl⟩,rfl⟩
  · exact same_send hlost _

theorem same_handleFrame (hlost : env.lost = none) {type : WSFrameType} (htype : type ≠ .close)
    (payload : Bytes) :
    Same c (c.handleFrame env type payload) ∧
      (c.handleFrame env type payload).handled = c.handled ++ [(type,payload)] := by
  simp only [Client.handleFrame]
  cases type with
  | text =>
    simp only
    split <;> exact ⟨⟨rfl,rfl,rfl,rfl,rfl⟩,rfl⟩
  | binary =>
    simp only
    split <;> exact ⟨⟨rfl,rfl,rfl,rfl,rfl⟩,rfl⟩
  | close => exact absurd rfl htype
  | ping =>
    obtain ⟨hsame,hhan⟩ := @same_send env { c with handled := c.handled ++ [(.ping,payload)] } hlost
      (.frame .pong payload)
    exact ⟨⟨hsame.transport,hsame.state,hsame.buffer,hsame.bufferOffset,hsame.reading⟩,hhan⟩
  | pong => exact ⟨⟨rfl,rfl,rfl,rfl,rfl⟩,rfl⟩

theorem Same.unread (h : Same c c') : unread c' = unread c := by
  rw [WebSocketClient.unread,WebSocketClient.unread,h.buffer,h.bufferOffset]

theorem takeFrame_wait (h : getFrameSize (unread c) = 0) : takeFrame c = (c,[]) := by
  simp only [takeFrame,makeBufferedView_size,makeBufferedView_text]
  rw [if_pos (.inl h)]

theorem takeFrame_next {n : Nat} (hpos : 0 < n) (hle : n ≤ (unread c).length) (h : getFrameSize (unread c) = n)
    {payload : Bytes} {type : WSFrameType}
    (hdec : decodeFrame ((unread c).take n) = some (payload,{ type, final := true, masked := false })) :
    takeFrame c = (takeOff c n,[.handleFrame type payload,.frames]) := by
  simp only [takeFrame,makeBufferedView_size,makeBufferedView_text,h,hdec]
  rw [if_neg (by omega)]
  rfl

variable {base : List (WSFrameType × Bytes)} {messages : List Message} {future : Bytes}

def remaining (c : Client) : Nat :=
  match c.reading with
  | [] => 0
  | [_] => 2*(unread c).length+1
  | _ => 2*(unread c).length+2

theorem serving_read (hvalid : ∀ m ∈ messages, m.valid = true) (hlost : env.lost = none)
    (h : Serving base messages future c) (hread : c.reading ≠ []) :
    Serving base messages future (step settings c (.read env)) ∧
      remaining (step settings c (.read env)) < remaining c := by
  have hplac := @placed_step settings c (.read env) h.placed
  obtain ⟨-,htran,hstate,-,pending,hturn,hdel⟩ := h
  generalize hcalls : c.reading = calls at hturn hread
  cases hturn with
  | idle => exact absurd rfl hread
  | frames =>
    rw [append_nil] at hdel
    rcases hdel.next hvalid with hwait | ⟨m,hm,n,hpos,hle,hsize,hdec,hnext⟩
    · rw [frameSize_agree] at hwait
      have hstep : step settings c (.read env) = { c with reading := [] } := by
        simp only [step,hcalls,perform,takeFrame_wait hwait]
        rfl
      rw [hstep] at hplac ⊢
      refine ⟨⟨hplac,htran,hstate,fun _ => hwait,[],.idle,?_⟩,by simp [remaining,hcalls]⟩
      rw [append_nil]
      exact hdel
    · rw [frameSize_agree] at hsize
      have hstep : step settings c (.read env) =
          { takeOff c n with reading := [.handleFrame m.type m.payload,.frames] } := by
        simp only [step,hcalls,perform,takeFrame_next hpos hle hsize hdec]
        rfl
      have hunr : unread { takeOff c n with reading := [.handleFrame m.type m.payload,.frames] } =
          (unread c).drop n := unread_takeOff c n
      rw [hstep] at hplac ⊢
      refine ⟨⟨hplac,htran,hstate,by simp,_,.handling (Message.not_close (hvalid m hm)),?_⟩,?_⟩
      · rw [hunr]
        exact hnext
      · simp only [remaining,hcalls,hunr,length_drop]
        omega
  | @handling type payload htype =>
    obtain ⟨hsame,hhan⟩ := @same_handleFrame env c hlost _ htype payload
    have hstep : step settings c (.read env) =
        { c.handleFrame env type payload with reading := [.frames] } := by
      simp only [step,hcalls,perform]
      rfl
    have hunr : unread { c.handleFrame env type payload with reading := [.frames] } = unread c := hsame.unread
    rw [hstep] at hplac ⊢
    refine ⟨⟨hplac,hsame.transport.trans htran,hsame.state.trans hstate,by simp,[],.frames,?_⟩,?_⟩
    · rw [hunr,hhan,append_nil]
      exact hdel
    · simp only [remaining,hcalls,hunr]
      omega

theorem serving_data {bytes : Bytes} (h : Serving base messages (bytes ++ future) c)
    (hread : c.reading = []) : Serving base messages future (step settings c (.data bytes)) := by
  have hplac := @placed_step settings c (.data bytes) h.placed
  obtain ⟨hpl,htran,hstate,-,pending,hturn,hdel⟩ := h
  rw [hread] at hturn
  cases hturn
  have hstep : step settings c (.data bytes) =
      { c with buffer := append c.buffer c.bufferOffset bytes, reading := [.frames] } := by
    simp only [step,htran,hread,hstate]
    rfl
  rw [hstep] at hplac ⊢
  refine ⟨hplac,htran,hstate,by simp,[],.frames,?_⟩
  have hunr : unread { c with buffer := append c.buffer c.bufferOffset bytes, reading := [.frames] } =
      unread c ++ bytes := drop_append hpl
  rw [hunr]
  exact hdel.data

theorem Serving.same (h : Serving base messages future c) (hsame : Same c c') (hhan : c'.handled = c.handled)
    (hplac : Placed c') : Serving base messages future c' := by
  refine ⟨hplac,hsame.transport.trans h.transport,hsame.state.trans h.state,?_,?_⟩
  · rw [hsame.reading,hsame.unread]
    exact h.waits
  · rw [hsame.reading,hsame.unread,hhan]
    exact h.delivers

theorem serving_step (hvalid : ∀ m ∈ messages, m.valid = true) {event : Event} (hcalm : calm c event = true)
    (h : Serving base messages (event.bytes ++ future) c) : Serving base messages future (step settings c event) := by
  have hplac := @placed_step settings c event h.placed
  cases event with
  | data bytes => exact serving_data h (by simpa [calm] using hcalm)
  | read env =>
    by_cases hread : c.reading = []
    · have hstep : step settings c (.read env) = c := by simp only [step,hread]
      rw [hstep]
      exact h
    · exact (serving_read hvalid (by simpa [calm] using hcalm) h hread).1
  | sendText message env =>
    obtain ⟨hsame,hhan⟩ := @same_sendFrame env c (by simpa [calm] using hcalm) .text message
    exact h.same hsame hhan hplac
  | sendBinary data env =>
    obtain ⟨hsame,hhan⟩ := @same_sendFrame env c (by simpa [calm] using hcalm) .binary data
    exact h.same hsame hhan hplac
  | ping env =>
    obtain ⟨hsame,hhan⟩ := @same_sendFrame env c (by simpa [calm] using hcalm) .ping []
    exact h.same hsame hhan hplac
  | established key env =>
    simp only [step,h.transport]
    exact h
  | handshakeTimeout =>
    simp only [step,Client.handleHandshakeTimeout,h.state]
    exact h
  | closeTimeout =>
    simp only [step,Client.handleCloseTimeout,h.state]
    exact h
  | _ => cases hcalm

theorem serving_run (hvalid : ∀ m ∈ messages, m.valid = true) {events : List Event}
    (hcalm : Machine.Meets (step settings) (fun c e => calm c e = true) c events)
    (h : Serving base messages (received events) c) :
    Serving base messages [] (runs (step settings) c events) :=
  @feeds _ _ (step settings) _ Event.bytes (Serving base messages) (fun c e => calm c e = true)
    (fun _ _ _ => serving_step hvalid) _ _ hcalm h

theorem serving_idle (hplac : Placed c) (h : idle c = true) :
    Serving c.handled messages (stream false messages) c := by
  simp only [idle,Bool.and_eq_true,decide_eq_true_eq,length_eq_zero_iff] at h
  obtain ⟨⟨⟨htran,hstate⟩,hunr⟩,hread⟩ := h
  refine ⟨hplac,htran,hstate,fun _ => by rw [hunr]; rfl,[],?_,[],messages,rfl,?_,?_⟩
  · rw [hread]
    exact .idle
  · simp
  · rw [hunr]
    rfl

theorem Serving.complete (hvalid : ∀ m ∈ messages, m.valid = true) (h : Serving base messages [] c)
    (hread : c.reading = []) : c.handled = base ++ messages.map Message.content := by
  obtain ⟨-,-,-,hwait,pending,hturn,hdel⟩ := h
  have hzero := hwait hread
  rw [← frameSize_agree] at hzero
  rw [hread] at hturn
  cases hturn
  rw [append_nil] at hdel
  exact hdel.complete hvalid hzero

theorem Serving.starts (h : Serving base messages future c) :
    c.handled <+: base ++ messages.map Message.content := by
  obtain ⟨pending,-,hdel⟩ := h.delivers
  exact (prefix_append _ _).trans hdel.starts

theorem serving_ends (settings : Settings) (hvalid : ∀ m ∈ messages, m.valid = true)
    (h : Serving base messages [] c) :
    ∃ n, let c' := runs (step settings) c (replicate n (.read {}))
      c'.reading = [] ∧ c'.handled = base ++ messages.map Message.content := by
  obtain ⟨n,hser,hn⟩ := @stops_of_variant _ _ (step settings) (Serving base messages [])
    (fun c => c.reading = []) remaining (.read {}) (fun c hc hne => serving_read hvalid rfl hc hne) _ h
  exact ⟨n,hn,hser.complete hvalid hn⟩

end WebSocketClient

/-- Both ends hand the messages that a stream of frames was made of to `handleFrame`,
however the stream is cut and whatever else happens on the connection, as long as nobody
closes it: in order, none of them twice, and all of them when the call for the last bytes
is over, to which it comes. The offset of a client is within its buffer in every run
(`placed_run`). -/
theorem frames_delivered {messages : List Message} (hvalid : ∀ m ∈ messages, m.valid = true) :
    (∀ (settings : WebSocketServer.Settings) (before after : List (Nat × WebSocketServer.Event)) (id : Nat),
      let run := Machine.runs (WebSocketServer.serve settings) WebSocketServer.started
      let c := run before id
      let delivered := c.handled ++ messages.map Message.content
      WebSocketServer.idle c = true →
      (stream true messages).length ≤ WebSocketServer.kMaxClientBufferSize →
      Machine.Meets (WebSocketServer.step settings) (fun c e => WebSocketServer.calm c e = true) c
        (Machine.own id after) →
      WebSocketServer.received (Machine.own id after) = stream true messages →
      (run (before ++ after) id).handled <+: delivered ∧
      ((run (before ++ after) id).reading = [] → (run (before ++ after) id).handled = delivered) ∧
      ∃ n, let c' := run (before ++ after ++ List.replicate n (id, .read {})) id
        c'.reading = [] ∧ c'.handled = delivered) ∧
    ∀ (settings : WebSocketClient.Settings) (c : WebSocketClient.Client) (events : List WebSocketClient.Event),
      let run := Machine.runs (WebSocketClient.step settings) c
      let delivered := c.handled ++ messages.map Message.content
      WebSocketClient.Placed c →
      WebSocketClient.idle c = true →
      Machine.Meets (WebSocketClient.step settings) (fun c e => WebSocketClient.calm c e = true) c events →
      WebSocketClient.received events = stream false messages →
      (run events).handled <+: delivered ∧
      ((run events).reading = [] → (run events).handled = delivered) ∧
      ∃ n, let c' := run (events ++ List.replicate n (.read {}))
        c'.reading = [] ∧ c'.handled = delivered := by
  constructor
  · intro settings before after id run c delivered hidle hmax hcalm hrec
    have hafter (events : List (Nat × WebSocketServer.Event)) : run (before ++ events) id =
        Machine.runs (WebSocketServer.step settings) c (Machine.own id events) := by
      simp only [run,c,WebSocketServer.serve,Machine.runs_family,Machine.own_append,Machine.runs_append]
    have hser := WebSocketServer.serving_run hvalid hmax hcalm
      (by rw [hrec]; exact WebSocketServer.serving_idle (WebSocketServer.placed_run settings before id) hidle)
    obtain ⟨n,hends⟩ := WebSocketServer.serving_ends settings hvalid hmax hser
    rw [hafter after]
    refine ⟨hser.starts,fun hread => hser.complete hvalid hread,n,?_⟩
    rw [List.append_assoc,hafter,Machine.own_append,Machine.own_replicate,Machine.runs_append]
    exact hends
  · intro settings c events run delivered hplac hidle hcalm hrec
    have hser := WebSocketClient.serving_run hvalid hcalm
      (by rw [hrec]; exact WebSocketClient.serving_idle hplac hidle)
    obtain ⟨n,hends⟩ := WebSocketClient.serving_ends settings hvalid hser
    refine ⟨hser.starts,fun hread => hser.complete hvalid hread,n,?_⟩
    simp only [run,Machine.runs_append]
    exact hends

def greeting : List Message :=
  [⟨.text,ascii "hi",#v[1,2,3,4]⟩,⟨.ping,[],#v[5,6,7,8]⟩]

/-- The stream of a greeting arrives in two segments, at a client that has just been
accepted and at a connected client. -/
theorem frames_delivered_greeting :
    let run := Machine.runs (WebSocketServer.serve WebSocketServer.accepting) WebSocketServer.started
    let before : List (Nat × WebSocketServer.Event) :=
      [(1,.connected false {} 0),(1,.data WebSocketServer.upgradeRequest 0),(1,.read {}),(1,.read {}),
        (1,.read {}),(1,.read {})]
    let after : List (Nat × WebSocketServer.Event) :=
      [(1,.data ((stream true greeting).take 3) 1),(1,.read {}),(1,.data ((stream true greeting).drop 3) 2),
        (1,.read {}),(1,.read {}),(1,.read {}),(1,.read {}),(1,.read {}),(1,.read {})]
    let client : WebSocketClient.Client := { transport := .connected, state := .connected, connected := true }
    let events : List WebSocketClient.Event :=
      [.data ((stream false greeting).take 3),.read {},.data ((stream false greeting).drop 3),.read {},.read {},
        .read {},.read {},.read {}]
    (run (before ++ after) 1).handled = (run before 1).handled ++ greeting.map Message.content ∧
      (Machine.runs (WebSocketClient.step {}) client events).handled =
        client.handled ++ greeting.map Message.content := by
  intro run before after client events
  obtain ⟨hser,hclient⟩ := @frames_delivered greeting (by decide)
  constructor
  · exact (hser WebSocketServer.accepting before after 1 (by decide +kernel) (by decide +kernel)
      (by decide +kernel) (by decide +kernel)).2.1 (List.length_eq_zero_iff.mp (by decide +kernel))
  · exact (hclient {} client events (Nat.le_refl 0) (by decide +kernel) (by decide +kernel)
      (by decide +kernel)).2.1 (List.length_eq_zero_iff.mp (by decide +kernel))

end FastNet
