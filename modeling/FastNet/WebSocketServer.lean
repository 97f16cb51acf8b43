import FastNet.Machine
import FastNet.FrameSize
import FastNet.OffsetBuffer
import FastNet.WebSocketHandshake

/-!
One connection of `WebSocketServer`. Its functions hold the lock of the client states for
a part of their work only; between these parts, and between the parts and what is handed
to the `TcpServer`, calls of other threads may come. A call is therefore a list of moves.
The session calls back with the bytes of a client under a lock of its own, so that the
calls for received bytes come one after the other.
-/

namespace FastNet.WebSocketServer

open Text OffsetBuffer WebSocketProtocol

def kMaxClientBufferSize : Nat := 10*1024*1024

inductive Status where
  | handshake | connected | closing
  deriving DecidableEq, Repr

structure ClientState where
  status : Status := .handshake
  buffer : Bytes := []
  bufferOffset : Nat := 0
  clientAddress : Address := {}
  subprotocol : Bytes := []
  lastActivity : Nat := 0

def makeBufferedView (state : ClientState) : ByteView :=
  if state.buffer.length ≤ state.bufferOffset then .null
  else .whole (state.buffer.drop state.bufferOffset)

def compactBufferedStateLocked (state : ClientState) : ClientState :=
  let (buffer,bufferOffset) := compact 4096 2 state.buffer state.bufferOffset
  { state with buffer, bufferOffset }

/-- The settings of a server. The callback may remember what it has been asked: its first
argument counts its calls for the connection. -/
structure Settings where
  connectionTimeout : Nat := 30000
  handshakeCallback : Option (Nat → WebSocketServerHandshakeRequest →
    WebSocketServerHandshakeResponse → WebSocketServerHandshakeResponse) := none
  handshakeResponseHeaders : ByteMap Bytes := ∅
  subprotocols : List Bytes := []

def serverFrame (type : WSFrameType) (payload : Bytes) : Bytes :=
  encodeFrame (Vector.replicate 4 0) payload type false

def closePayload (code : Nat) (reason : Bytes) : Bytes :=
  UInt8.ofNat (code >>> 8 &&& 0xFF) :: UInt8.ofNat (code &&& 0xFF) :: reason

inductive Item where
  | accepted (key : Bytes) (response : WebSocketServerHandshakeResponse)
  | rejected (response : WebSocketServerHandshakeResponse)
  | frame (type : WSFrameType) (payload : Bytes)

def Item.bytes : Item → Bytes
  | .accepted key response => buildHandshakeResponse key response
  | .rejected response => buildHandshakeRejection response
  | .frame type payload => serverFrame type payload

inductive Call where
  /-- `handleHandshake`, up to the callback -/
  | handshake
  /-- the callback and the check behind it -/
  | answer (key : Bytes) (request : WebSocketServerHandshakeRequest) (consumedBytes : Nat)
  | reject (response : WebSocketServerHandshakeResponse)
  | accept (key : Bytes) (response : WebSocketServerHandshakeResponse) (consumedBytes : Nat)
  /-- the second part of `handleHandshake` under the lock -/
  | establish (subprotocol : Bytes) (consumedBytes : Nat)
  /-- a turn of the loop of `handleFrames` -/
  | frames
  | handleFrame (type : WSFrameType) (payload : Bytes)
  /-- the part of `disconnectClient` under the lock -/
  | disconnect (code : Nat) (reason : Bytes)
  | sendClose (code : Nat) (reason : Bytes)
  | closeAfterPendingWrites
  /-- `TcpServer::disconnectClient` -/
  | drop
  /-- the part of `sendPingToAllClients` under the lock, with the time read before -/
  | sweep (now : Nat)
  /-- `sendFrameToClient`, or the part of a broadcast for this session -/
  | send (type : WSFrameType) (payload : Bytes)

structure Connection where
  /-- the `TcpServer` has announced the session -/
  announced : Bool := false
  /-- the session is there and ready -/
  session : Bool := false
  client : Option ClientState := none
  /-- what is left of the call for received bytes -/
  reading : List Call := []
  /-- what is left of the calls of other threads -/
  others : List (List Call) := []
  queued : List Item := []
  /-- what has been passed to `handleFrame` -/
  handled : List (WSFrameType × Bytes) := []
  /-- how often the handshake callback has been called -/
  asked : Nat := 0
  /-- the size of the segment that was received last -/
  lastSegment : Nat := 0

/-- What a move meets: the time, and whether the session has nothing left to write. -/
structure Env where
  now : Nat := 0
  drained : Bool := false

/-- `sendToClient`: a session that is not there takes nothing. -/
def push (c : Connection) (item : Item) : Connection :=
  if c.session then { c with queued := c.queued ++ [item] } else c

/-- The session closes and `handleClientDisconnected` forgets the client. -/
def dropSession (c : Connection) : Connection := { c with session := false, client := none }

/-- The part of a turn of `handleFrames` under the lock. -/
def takeFrame (c : Connection) (state : ClientState) : Connection × List Call :=
  let pending := makeBufferedView state
  if kMaxClientBufferSize < pending.size then (c,[.disconnect 1009 (ascii "Message too big")])
  else
    let frameSize := getFrameSize pending.text
    if frameSize = 0 ∨ pending.size < frameSize then (c,[])
    else
      match decodeFrame (pending.text.take frameSize) with
      | some (payload,{ type, final := true, .. }) =>
        let state := compactBufferedStateLocked { state with bufferOffset := state.bufferOffset+frameSize }
        ({ c with client := some state },[.handleFrame type payload,.frames])
      | _ => (c,[.disconnect 1002 (ascii "Protocol error")])

def closeReason (payload : Bytes) : Bytes :=
  if 2 < payload.length then payload.drop 2 else ascii "Normal closure"

/-- `handleFrame`: what is left to do for a frame. -/
def frameCalls (type : WSFrameType) (payload : Bytes) : List Call :=
  match type with
  | .text => []
  | .binary => []
  | .ping => [.send .pong payload]
  | .pong => []
  | .close => [.disconnect (if 2 ≤ payload.length then closeCode payload else 1000) (closeReason payload)]

def answer (settings : Settings) (c : Connection) (request : WebSocketServerHandshakeRequest) :
    Connection × WebSocketServerHandshakeResponse :=
  let proposed := proposedResponse settings.handshakeResponseHeaders settings.subprotocols request
  match settings.handshakeCallback with
  | some callback =>
    ({ c with asked := c.asked+1 },checkedResponse request (callback c.asked request proposed))
  | none => (c,checkedResponse request proposed)

/-- One move of a call: the connection behind it, and the moves that take its place. -/
def perform (settings : Settings) (env : Env) (c : Connection) : Call → Connection × List Call
  | .handshake =>
    match c.client with
    | none => (c,[])
    | some state =>
      match scanHandshake (makeBufferedView state) state.clientAddress with
      | .incomplete => (c,[])
      | .refused _ => (c,[.disconnect 1002 (ascii "Protocol error")])
      | .upgrade key request consumedBytes => (c,[.answer key request consumedBytes])
  | .answer key request consumedBytes =>
    let (c,response) := answer settings c request
    if response.accept then (c,[.accept key response consumedBytes])
    else (c,[.reject response,.closeAfterPendingWrites])
  | .reject response => (push c (.rejected response),[])
  | .accept key response consumedBytes =>
    if c.session then
      (push c (.accepted key response),[.establish response.acceptedSubprotocol consumedBytes])
    else (c,[.disconnect 1011 (ascii "Handshake failed")])
  | .establish subprotocol consumedBytes =>
    match c.client with
    | none => (c,[])
    | some state =>
      let state := compactBufferedStateLocked
        { state with status := .connected, subprotocol, bufferOffset := state.bufferOffset+consumedBytes }
      ({ c with client := some state },if (makeBufferedView state).text = [] then [] else [.frames])
  | .frames =>
    match c.client with
    | none => (c,[])
    | some state => if state.status = .connected then takeFrame c state else (c,[])
  | .handleFrame type payload =>
    let c := { c with handled := c.handled ++ [(type,payload)] }
    -- `updateLastActivity`
    let c := if type = .pong then
        { c with client := c.client.map (fun state => { state with lastActivity := env.now }) }
      else c
    (c,frameCalls type payload)
  | .disconnect code reason =>
    match c.client with
    | none => (c,[.drop])
    | some state =>
      match state.status with
      | .connected => ({ c with client := some { state with status := .closing } },[.sendClose code reason])
      | .closing => (c,[.closeAfterPendingWrites])
      | .handshake => (c,[.drop])
  | .sendClose code reason =>
    if c.session then (push c (.frame .close (closePayload code reason)),[.closeAfterPendingWrites])
    else (c,[.drop])
  | .closeAfterPendingWrites => (if env.drained then dropSession c else c,[])
  | .drop => (dropSession c,[])
  | .sweep now =>
    match c.client with
    | none => (c,[])
    | some state =>
      if state.status ≠ .connected then (c,[])
      else if settings.connectionTimeout ≠ 0 ∧
          settings.connectionTimeout < sizeSub now state.lastActivity then
        (c,[.disconnect 1001 (ascii "Connection timeout")])
      else (c,[.send .ping []])
  | .send type payload => (push c (.frame type payload),[])

/-- The locked part of `handleDataReceived`. -/
def appendData (state : ClientState) (now : Nat) (data : Bytes) : ClientState :=
  { state with buffer := append state.buffer state.bufferOffset data, lastActivity := now }

/-- What `handleDataReceived` goes on with. -/
def dataCalls : Status → List Call
  | .handshake => [.handshake]
  | .connected => [.frames]
  | .closing => []

inductive Entry where
  | sendTextToClient (message : Bytes)
  | sendBinaryToClient (data : Bytes)
  | broadcastText (message : Bytes)
  | broadcastBinary (data : Bytes)
  | disconnectClient (code : Nat) (reason : Bytes)
  | sendPingToAllClients (now : Nat)

def Entry.calls : Entry → List Call
  | .sendTextToClient message => [.send .text message]
  | .sendBinaryToClient data => [.send .binary data]
  | .broadcastText message => [.send .text message]
  | .broadcastBinary data => [.send .binary data]
  | .disconnectClient code reason => [.disconnect code reason]
  | .sendPingToAllClients now => [.sweep now]

/-- What happens on a connection. `full` tells whether the server has all the clients that
it may have; the session is dropped on errors, on timeouts, when the peer closes it, when
the server stops, and when all is written after `closeAfterPendingWrites`. -/
inductive Event where
  | connected (full : Bool) (address : Address) (now : Nat)
  | data (bytes : Bytes) (now : Nat)
  | read (env : Env)
  | call (entry : Entry)
  | move (i : Nat) (env : Env)
  | dropped

def step (settings : Settings) (c : Connection) : Event → Connection
  | .connected full address now =>
    if c.announced then c
    else if full then { c with announced := true }
    else { c with
      announced := true, session := true,
      client := some { clientAddress := address, lastActivity := now } }
  | .data bytes now =>
    match c.client, c.reading with
    | some state, [] =>
      { c with
        client := some (appendData state now bytes), reading := dataCalls state.status,
        lastSegment := bytes.length }
    | _, _ => c
  | .read env =>
    match c.reading with
    | [] => c
    | call :: rest =>
      let (c,calls) := perform settings env c call
      { c with reading := calls ++ rest }
  | .call entry => { c with others := c.others ++ [entry.calls] }
  | .move i env =>
    match c.others[i]? with
    | some (call :: rest) =>
      let (c,calls) := perform settings env c call
      { c with others := c.others.set i (calls ++ rest) }
    | _ => c
  | .dropped => dropSession c

/-- A server: its connections by their ids. -/
abbrev Server := Nat → Connection

def started : Server := fun _ => {}

def serve (settings : Settings) : Server → Nat × Event → Server := Machine.family (step settings)

section Buffers

variable (state : ClientState)

def unread : Bytes := state.buffer.drop state.bufferOffset

theorem makeBufferedView_eq : makeBufferedView state = .whole (unread state) := by
  unfold makeBufferedView unread
  split
  · rename_i h
    rw [List.drop_eq_nil_of_le h]
    rfl
  · rfl

@[simp] theorem makeBufferedView_text : (makeBufferedView state).text = unread state := by
  rw [makeBufferedView_eq,View.whole_text]

@[simp] theorem makeBufferedView_size : (makeBufferedView state).size = (unread state).length := by
  rw [View.size,makeBufferedView_text]

@[simp] theorem unread_compact : unread (compactBufferedStateLocked state) = unread state := drop_compact

end Buffers

def takeOff (state : ClientState) (frameSize : Nat) : ClientState :=
  compactBufferedStateLocked { state with bufferOffset := state.bufferOffset+frameSize }

@[simp] theorem unread_takeOff (state : ClientState) (frameSize : Nat) :
    unread (takeOff state frameSize) = (unread state).drop frameSize := by
  rw [takeOff,unread_compact,unread,unread,List.drop_drop]

@[simp] theorem takeOff_status (state : ClientState) (frameSize : Nat) :
    (takeOff state frameSize).status = state.status := rfl

theorem takeFrame_cases (c : Connection) (state : ClientState) :
    (kMaxClientBufferSize < (unread state).length ∧
      takeFrame c state = (c,[.disconnect 1009 (ascii "Message too big")])) ∨
    ((unread state).length ≤ kMaxClientBufferSize ∧
      (takeFrame c state = (c,[]) ∨ takeFrame c state = (c,[.disconnect 1002 (ascii "Protocol error")]) ∨
        ∃ frameSize type payload, takeFrame c state =
          ({ c with client := some (takeOff state frameSize) },[.handleFrame type payload,.frames]))) := by
  simp only [takeFrame,makeBufferedView_size,makeBufferedView_text]
  split
  · rename_i h
    exact .inl ⟨h,rfl⟩
  · rename_i h
    refine .inr ⟨Nat.le_of_not_lt h,?_⟩
    split
    · exact .inl rfl
    · split
      · exact .inr (.inr ⟨_,_,_,rfl⟩)
      · exact .inr (.inl rfl)

end FastNet.WebSocketServer
