import FastNet.Client
import FastNet.WebSocketServer

/-!
`WebSocketClient` on top of a `TcpClient`. The client takes no lock; what the `TcpClient`
calls back with comes under the lock of its callbacks. The call for received bytes is a
list of moves, so that what a callback of the user does with the client comes between
them. A connection that the `TcpClient` closes is reported at once: `handleDisconnected`
runs within the call that closes it.
-/

namespace FastNet.WebSocketClient

open Text Ctype Numeral HttpParser OffsetBuffer WebSocketProtocol

inductive State where
  | disconnected | handshake | connected | closing
  deriving DecidableEq, Repr

/-- What `parseUrl` takes from an address. -/
structure Target where
  serverAddress : Bytes := []
  serverPort : Nat := 80
  resourcePath : Bytes := []
  enableSSL : Bool := false

def isReservedHandshakeHeader (name : Bytes) : Bool :=
  [ascii "Host",ascii "Upgrade",ascii "Connection",ascii "Sec-WebSocket-Key",ascii "Sec-WebSocket-Version",
    ascii "Sec-WebSocket-Protocol"].any (caseInsensitiveCompare name)

def joinSubprotocols (subprotocols : List Bytes) : Bytes :=
  subprotocols.foldl (fun value protocol =>
    if protocol = [] then value
    else if value = [] then protocol else value ++ ascii ", " ++ protocol) []

def containsSubprotocol (subprotocols : List Bytes) (accepted : Bytes) : Bool :=
  WebSocketServer.containsSubprotocol subprotocols accepted

def parsePort (text : Bytes) : Option Nat :=
  match stoull 10 text with
  | .ok parsedPort => if 65535 < parsedPort then none else some parsedPort
  | .error _ => none

def withAddress (target : Target) (serverAddress : Bytes) : Option Target :=
  if serverAddress = [] then none else some { target with serverAddress }

/-- `parseUrlWithoutScheme` behind the path. -/
def parseAuthority (target : Target) (authority : Bytes) : Option Target :=
  if authority = [] then none
  else if authority.head? = some 91 then do
    let closingBracket ← find [93] authority 0
    let serverAddress := (authority.drop 1).take (closingBracket-1)
    if closingBracket+1 < authority.length then
      if authority.getD (closingBracket+1) 0 ≠ 58 then none
      else
        let serverPort ← parsePort (authority.drop (closingBracket+2))
        withAddress { target with serverPort } serverAddress
    else withAddress target serverAddress
  else
    match find [58] authority 0 with
    | some firstColon =>
      if 58 ∈ authority.drop (firstColon+1) then withAddress target authority
      else do
        let serverPort ← parsePort (authority.drop (firstColon+1))
        withAddress { target with serverPort } (authority.take firstColon)
    | none => withAddress target authority

def parseUrlWithoutScheme (enableSSL : Bool) (url : Bytes) : Option Target :=
  let authority := url.takeWhile (fun c => c ≠ 47 ∧ c ≠ 63)
  let path := url.drop authority.length
  let resourcePath := match path with
    | [] => ascii "/"
    | 63 :: _ => 47 :: path
    | _ => path
  parseAuthority { serverPort := if enableSSL then 443 else 80, resourcePath, enableSSL } authority

def parseUrl (url : Bytes) : Option Target :=
  if (ascii "ws://").isPrefixOf url then parseUrlWithoutScheme false (url.drop 5)
  else if (ascii "wss://").isPrefixOf url then parseUrlWithoutScheme true (url.drop 6)
  else none

def buildHostHeader (target : Target) : Bytes :=
  let defaultPort := (!target.enableSSL && target.serverPort = 80) ||
    (target.enableSSL && target.serverPort = 443)
  let renderedHost := if Address.isValidIPv6 target.serverAddress then
      ascii "[" ++ target.serverAddress ++ ascii "]"
    else target.serverAddress
  if defaultPort then renderedHost else renderedHost ++ ascii ":" ++ toChars 10 target.serverPort

structure Settings where
  subprotocols : List Bytes := []
  handshakeHeaders : ByteMap Bytes := ∅

/-- The text of `sendHandshakeRequest`. -/
def handshakeRequest (settings : Settings) (target : Target) (key : Bytes) (oneShotHeaders : ByteMap Bytes) :
    Bytes :=
  let requestedSubprotocols := joinSubprotocols settings.subprotocols
  ascii "GET " ++ target.resourcePath ++ ascii " HTTP/1.1\r\nHost: " ++ buildHostHeader target ++
    ascii "\r\nUpgrade: websocket\r\nConnection: Upgrade\r\nSec-WebSocket-Key: " ++ key ++
    ascii "\r\nSec-WebSocket-Version: 13\r\nUser-Agent: FastNet-WebSocketClient/2.0\r\n" ++
    (if requestedSubprotocols = [] then []
      else appendHeaderLine (ascii "Sec-WebSocket-Protocol") requestedSubprotocols) ++
    [settings.handshakeHeaders,oneShotHeaders].flatMap (fun headers => headers.toList.flatMap (fun e =>
      if isReservedHandshakeHeader e.1 then [] else appendHeaderLine e.1 e.2)) ++ crlf

/-- What `handleHandshakeResponse` finds at the front of the unread bytes: no head yet, a
head that it refuses, or a 101 with its size. -/
inductive ResponseScan where
  | incomplete
  | failed (message : Bytes)
  | accepted (subprotocol : Option Bytes) (consumedBytes : Nat)

/-- `handleHandshakeResponse` behind the parser. -/
def checkResponse (subprotocols : List Bytes) (key : Bytes) (view : HttpResponseView) (consumedBytes : Nat) :
    ResponseScan :=
  let header := fun name => (view.headers.getHeader View.text name).map View.text
  match header (ascii "Upgrade"), header (ascii "Connection"), header (ascii "Sec-WebSocket-Accept") with
  | some upgrade, some connection, some accept =>
    if view.statusCode ≠ 101 then .failed (ascii "WebSocket handshake failed")
    else if !caseInsensitiveCompare upgrade (ascii "websocket") ||
        find (ascii "upgrade") (connection.map toLower) 0 = none || accept ≠ createAcceptKey key then
      .failed (ascii "WebSocket handshake validation failed")
    else
      match header (ascii "Sec-WebSocket-Protocol") with
      | none => .accepted none consumedBytes
      | some acceptedProtocol =>
        if subprotocols = [] || !containsSubprotocol subprotocols acceptedProtocol then
          .failed (ascii "WebSocket server selected an unexpected subprotocol")
        else .accepted (some (HttpParser.trim acceptedProtocol)) consumedBytes
  | _, _, _ => .failed (ascii "WebSocket handshake failed")

def scanResponse (subprotocols : List Bytes) (key : Bytes) (raw : ByteView) : ResponseScan :=
  match find crlfcrlf raw.text 0 with
  | none => .incomplete
  | some headerEnd =>
    match parseResponse (raw.sub 0 (headerEnd+4)) with
    | (false,_) => .failed (ascii "Invalid WebSocket handshake response")
    | (true,view) => checkResponse subprotocols key view (headerEnd+4)

/-- What the client hands to the `TcpClient`: its request, and frames, which it masks. -/
inductive Item where
  | request (bytes : Bytes)
  | frame (type : WSFrameType) (payload : Bytes)

/-- What the client tells its user. `oneShot` says that the callback of `connect` is told
too. -/
inductive Notice where
  | connect (oneShot : Bool) (success : Bool) (message : Bytes)
  | close (code : Nat) (reason : Bytes)
  | text (message : Bytes)
  | binary (data : Bytes)
  | error (message : Bytes)

inductive Call where
  | handshakeResponse
  /-- a turn of the loop of `handleFrames` -/
  | frames
  | handleFrame (type : WSFrameType) (payload : Bytes)

/-- The state of `WebSocketClient::Impl` and of the `TcpClient` in it. -/
structure Client where
  transport : HttpClient.Transport := .idle
  /-- the `TcpClient` holds the callback of `connect` -/
  tcpCallback : Bool := false
  target : Target := {}
  oneShotHandshakeHeaders : ByteMap Bytes := ∅
  pendingConnectCallback : Bool := false
  acceptedSubprotocol : Option Bytes := none
  state : State := .disconnected
  connected : Bool := false
  closeNotified : Bool := false
  closeFrameSent : Bool := false
  handshakeKey : Bytes := []
  buffer : Bytes := []
  bufferOffset : Nat := 0
  /-- what is left of the call for received bytes -/
  reading : List Call := []
  queued : List Item := []
  /-- what has been passed to `handleFrame` -/
  handled : List (WSFrameType × Bytes) := []
  log : List Notice := []

/-- What a call meets: whether the `TcpClient` fails while it writes, and with which
message, and whether it has nothing left to write. -/
structure Env where
  lost : Option Bytes := none
  drained : Bool := false

namespace Client

def tell (c : Client) (notice : Notice) : Client := { c with log := c.log ++ [notice] }

def notifyConnect (c : Client) (success : Bool) (message : Bytes) : Client :=
  { c with pendingConnectCallback := false }.tell (.connect c.pendingConnectCallback success message)

def notifyClose (c : Client) (code : Nat) (reason : Bytes) : Client :=
  if c.closeNotified then c else { c with closeNotified := true }.tell (.close code reason)

def makeBufferedView (c : Client) : ByteView :=
  if c.buffer.length ≤ c.bufferOffset then .null else .whole (c.buffer.drop c.bufferOffset)

def compactBuffer (c : Client) : Client :=
  let (buffer,bufferOffset) := compact 65536 4 c.buffer c.bufferOffset
  { c with buffer, bufferOffset }

def handleDisconnected (c : Client) (reason : Bytes) : Client :=
  let shouldNotifyClose := c.connected || c.state = .closing
  let c := { c with
    connected := false, closeFrameSent := false, state := .disconnected, buffer := [], bufferOffset := 0 }
  if shouldNotifyClose then
    c.notifyClose 1000 (if reason = [] then ascii "Normal closure" else reason)
  else c

def closeWithReason (c : Client) (reason : Bytes) : Client :=
  match c.transport with
  | .connected => { c with transport := .idle }.handleDisconnected reason
  | _ => { c with transport := .idle }

/-- `TcpClient::notifyConnect` for a connection that has failed. -/
def notifyFailure (c : Client) (message : Bytes) : Client :=
  if c.tcpCallback then { c with tcpCallback := false }.notifyConnect false message else c

def disconnect (c : Client) : Client :=
  let c := if c.transport = .connecting then c.notifyFailure (ascii "Connection cancelled") else c
  c.closeWithReason (ascii "Connection closed")

def disconnectAfterPendingWrites (c : Client) (env : Env) : Client :=
  if c.transport ≠ .connected then c.disconnect
  else if env.drained then c.closeWithReason (ascii "Connection closed") else c

/-- `TcpClient::send`: it writes at once, and when that fails the error is told and the
connection closed, although the bytes have been taken. -/
def send (c : Client) (env : Env) (item : Item) : Client × Bool :=
  if c.transport = .connected then
    let c := { c with queued := c.queued ++ [item] }
    match env.lost with
    | some message => ((c.tell (.error message)).closeWithReason message,true)
    | none => (c,true)
  else (c,false)

def handleTcpConnected (c : Client) (settings : Settings) (env : Env) (key : Bytes) : Client :=
  let c := { c with
    transport := .connected, connected := false, state := .handshake, buffer := [], bufferOffset := 0,
    handshakeKey := key }
  match c.send env (.request (handshakeRequest settings c.target key c.oneShotHandshakeHeaders)) with
  | (c,true) => c
  | (c,false) => (c.notifyConnect false (ascii "Failed to send WebSocket handshake request")).disconnect

/-- The part of `handleFrame` for a Close frame. -/
def answerClose (c : Client) (env : Env) (code : Nat) (reason : Bytes) : Client :=
  let c := c.notifyClose code reason
  if c.closeFrameSent then c.disconnectAfterPendingWrites env
  else
    let c := { c with closeFrameSent := true, state := .closing }
    match c.send env (.frame .close (WebSocketServer.closePayload code reason)) with
    | (c,true) => c.disconnectAfterPendingWrites env
    | (c,false) => c.disconnect

def handleFrame (c : Client) (env : Env) (type : WSFrameType) (payload : Bytes) : Client :=
  let c := { c with handled := c.handled ++ [(type,payload)] }
  match type with
  | .text => if c.state = .connected then c.tell (.text payload) else c
  | .binary => if c.state = .connected then c.tell (.binary payload) else c
  | .close => c.answerClose env (if 2 ≤ payload.length then closeCode payload else 1000)
      (WebSocketServer.closeReason payload)
  | .ping => (c.send env (.frame .pong payload)).1
  | .pong => c

/-- `sendText`, `sendBinary` and the timer's `sendPing` send to a connected client only. -/
def sendFrame (c : Client) (env : Env) (type : WSFrameType) (payload : Bytes) : Client :=
  if !c.connected || c.state ≠ .connected then c else (c.send env (.frame type payload)).1

def close (c : Client) (env : Env) (code : Nat) (reason : Bytes) : Client :=
  match c.state with
  | .disconnected => c.disconnect
  | .closing => c
  | .handshake | .connected =>
    let c := { c with state := .closing }
    if c.connected then
      let c := { c with closeFrameSent := true }
      match c.send env (.frame .close (WebSocketServer.closePayload code reason)) with
      | (c,true) => c
      | (c,false) => c.disconnect
    else c.disconnect

def handleHandshakeTimeout (c : Client) : Client :=
  if c.state ≠ .handshake || c.connected then c
  else (c.notifyConnect false (ascii "WebSocket handshake timeout")).disconnect

/-- The timer of `startCloseTimer`. -/
def handleCloseTimeout (c : Client) : Client := if c.state = .closing then c.disconnect else c

end Client

/-- A turn of `handleFrames` up to `handleFrame`. -/
def takeFrame (c : Client) : Client × List Call :=
  let pending := c.makeBufferedView
  let frameSize := getFrameSize pending.text
  if frameSize = 0 ∨ pending.size < frameSize then (c,[])
  else
    match decodeFrame (pending.text.take frameSize) with
    | some (payload,{ type, final := true, masked := false }) =>
      ({ c with bufferOffset := c.bufferOffset+frameSize }.compactBuffer,[.handleFrame type payload,.frames])
    | _ => ((c.tell (.error (ascii "Invalid WebSocket frame"))).disconnect,[])

def perform (settings : Settings) (env : Env) (c : Client) : Call → Client × List Call
  | .handshakeResponse =>
    match scanResponse settings.subprotocols c.handshakeKey c.makeBufferedView with
    | .incomplete => (c,[])
    | .failed message => ((c.notifyConnect false message).disconnect,[])
    | .accepted subprotocol consumedBytes =>
      let c := { c with
        acceptedSubprotocol := subprotocol, bufferOffset := c.bufferOffset+consumedBytes }.compactBuffer
      let c := { c with state := .connected, connected := true }.notifyConnect true []
      (c,if c.makeBufferedView.text = [] then [] else [.frames])
  | .frames => takeFrame c
  | .handleFrame type payload => (c.handleFrame env type payload,[])

/-- What `handleDataReceived` goes on with. -/
def dataCalls : State → List Call
  | .disconnected => []
  | .handshake => [.handshakeResponse]
  | .connected => [.frames]
  | .closing => [.frames]

/-- How `TcpClient::connect` ends. -/
inductive Dial where
  | failed (message : Bytes)
  /-- the connection is there but TLS is not -/
  | started
  | established (key : Bytes)

def connect (settings : Settings) (env : Env) (c : Client) (url : Bytes) (headers : ByteMap Bytes)
    (dial : Dial) : Client :=
  let c := { c with
    pendingConnectCallback := true, oneShotHandshakeHeaders := headers, acceptedSubprotocol := none,
    closeNotified := false, closeFrameSent := false, buffer := [], bufferOffset := 0,
    state := .disconnected, connected := false }
  match parseUrl url with
  | none => c.notifyConnect false (ascii "Invalid WebSocket URL")
  | some target =>
    let c := { c with target }
    -- the new callback takes the place of the one that the `TcpClient` may still hold
    if c.transport ≠ .idle then
      { c with tcpCallback := false }.notifyConnect false (ascii "Connection is already active")
    else
      match dial with
      | .failed message => c.notifyConnect false message
      | .started => { c with transport := .connecting, tcpCallback := true }
      | .established key => c.handleTcpConnected settings env key

/-- What happens to a client. The key of a handshake is the one that `createHandshakeKey`
returns. -/
inductive Event where
  | connect (url : Bytes) (headers : ByteMap Bytes) (dial : Dial) (env : Env)
  | established (key : Bytes) (env : Env)
  /-- the transport fails, before or behind the end of `TcpClient::connect` -/
  | failed (message : Bytes)
  /-- the peer has closed the connection -/
  | dropped (reason : Bytes)
  | data (bytes : Bytes)
  | read (env : Env)
  | sendText (message : Bytes) (env : Env)
  | sendBinary (data : Bytes) (env : Env)
  | ping (env : Env)
  | close (code : Nat) (reason : Bytes) (env : Env)
  | handshakeTimeout
  | closeTimeout

def step (settings : Settings) (c : Client) : Event → Client
  | .connect url headers dial env => connect settings env c url headers dial
  | .established key env =>
    if c.transport = .connecting then
      if c.tcpCallback then { c with tcpCallback := false }.handleTcpConnected settings env key
      else { c with transport := .connected }
    else c
  | .failed message =>
    let c := if c.transport = .connected then c else c.notifyFailure message
    (c.tell (.error message)).closeWithReason message
  | .dropped reason => if c.transport = .connected then c.closeWithReason reason else c
  | .data bytes =>
    match c.transport, c.reading with
    | .connected, [] =>
      { c with
        buffer := append c.buffer c.bufferOffset bytes, reading := dataCalls c.state }
    | _, _ => c
  | .read env =>
    match c.reading with
    | [] => c
    | call :: rest =>
      let (c,calls) := perform settings env c call
      { c with reading := calls ++ rest }
  | .sendText message env => c.sendFrame env .text message
  | .sendBinary data env => c.sendFrame env .binary data
  | .ping env => c.sendFrame env .ping []
  | .close code reason env => c.close env code reason
  | .handshakeTimeout => c.handleHandshakeTimeout
  | .closeTimeout => c.handleCloseTimeout

section Buffers

variable (c : Client)

def unread : Bytes := c.buffer.drop c.bufferOffset

theorem makeBufferedView_eq : c.makeBufferedView = .whole (unread c) := by
  unfold Client.makeBufferedView unread
  split
  · rename_i h
    rw [List.drop_eq_nil_of_le h]
    rfl
  · rfl

@[simp] theorem makeBufferedView_text : c.makeBufferedView.text = unread c := by
  rw [makeBufferedView_eq,View.whole_text]

@[simp] theorem makeBufferedView_size : c.makeBufferedView.size = (unread c).length := by
  rw [View.size,makeBufferedView_text]

def takeOff (frameSize : Nat) : Client :=
  Client.compactBuffer { c with bufferOffset := c.bufferOffset+frameSize }

@[simp] theorem unread_takeOff (frameSize : Nat) : unread (takeOff c frameSize) = (unread c).drop frameSize := by
  have hcom : unread (takeOff c frameSize) = c.buffer.drop (c.bufferOffset+frameSize) := drop_compact
  rw [hcom,unread,List.drop_drop]

end Buffers

section Placed

variable {settings : Settings} {env : Env} {c c' c'' : Client}

def Clears (c c' : Client) : Prop :=
  (c'.buffer = c.buffer ∧ c'.bufferOffset = c.bufferOffset) ∨ (c'.buffer = [] ∧ c'.bufferOffset = 0)

theorem Clears.refl (c : Client) : Clears c c := .inl ⟨rfl,rfl⟩

theorem Clears.trans (h : Clears c c') (h' : Clears c' c'') : Clears c c'' := by
  rcases h' with ⟨hbuf,hoff⟩ | hcl
  · unfold Clears
    rw [hbuf,hoff]
    exact h
  · exact .inr hcl

def Placed (c : Client) : Prop := c.bufferOffset ≤ c.buffer.length

theorem Clears.placed (h : Clears c c') (hc : Placed c) : Placed c' := by
  rcases h with ⟨hbuf,hoff⟩ | ⟨hbuf,hoff⟩
  · rw [Placed,hbuf,hoff]
    exact hc
  · rw [Placed,hbuf,hoff]
    exact Nat.zero_le _

section

variable (c : Client)

theorem clears_notifyClose (code : Nat) (reason : Bytes) : Clears c (c.notifyClose code reason) := by
  unfold Client.notifyClose
  split
  · exact .refl c
  · exact .inl ⟨rfl,rfl⟩

theorem clears_handleDisconnected (reason : Bytes) : Clears c (c.handleDisconnected reason) := by
  simp only [Client.handleDisconnected]
  split
  · exact Clears.trans (.inr ⟨rfl,rfl⟩) (clears_notifyClose _ _ _)
  · exact .inr ⟨rfl,rfl⟩

theorem clears_closeWithReason (reason : Bytes) : Clears c (c.closeWithReason reason) := by
  unfold Client.closeWithReason
  split
  · exact clears_handleDisconnected { c with transport := .idle } reason
  · exact .inl ⟨rfl,rfl⟩

theorem clears_notifyFailure (message : Bytes) : Clears c (c.notifyFailure message) := by
  unfold Client.notifyFailure
  split
  · exact .inl ⟨rfl,rfl⟩
  · exact .refl c

theorem clears_disconnect : Clears c c.disconnect := by
  simp only [Client.disconnect]
  split
  · exact (clears_notifyFailure c _).trans (clears_closeWithReason _ _)
  · exact clears_closeWithReason c _

theorem clears_disconnectAfterPendingWrites (env : Env) :
    Clears c (c.disconnectAfterPendingWrites env) := by
  unfold Client.disconnectAfterPendingWrites
  split
  · exact clears_disconnect c
  · split
    · exact clears_closeWithReason c _
    · exact .refl c

theorem clears_send (env : Env) (item : Item) : Clears c (c.send env item).1 := by
  simp only [Client.send]
  split
  · split
    · exact clears_closeWithReason (Client.tell { c with queued := c.queued ++ [item] } _) _
    · exact .inl ⟨rfl,rfl⟩
  · exact .refl c

theorem clears_answerClose (env : Env) (code : Nat) (reason : Bytes) :
    Clears c (c.answerClose env code reason) := by
  have hnot := clears_notifyClose c code reason
  simp only [Client.answerClose]
  generalize c.notifyClose code reason = c₁ at hnot ⊢
  split
  · exact hnot.trans (clears_disconnectAfterPendingWrites c₁ env)
  · have hsend := clears_send { c₁ with closeFrameSent := true, state := .closing } env
      (.frame .close (WebSocketServer.closePayload code reason))
    split
    · rename_i c₂ h
      rw [h] at hsend
      exact (hnot.trans hsend).trans (clears_disconnectAfterPendingWrites c₂ env)
    · rename_i c₂ h
      rw [h] at hsend
      exact (hnot.trans hsend).trans (clears_disconnect c₂)

theorem clears_handleFrame (env : Env) (type : WSFrameType) (payload : Bytes) :
    Clears c (c.handleFrame env type payload) := by
  simp only [Client.handleFrame]
  cases type with
  | text =>
    simp only
    split <;> exact .inl ⟨rfl,rfl⟩
  | binary =>
    simp only
    split <;> exact .inl ⟨rfl,rfl⟩
  | close => exact clears_answerClose { c with handled := c.handled ++ [(.close,payload)] } env _ _
  | ping => exact clears_send { c with handled := c.handled ++ [(.ping,payload)] } env _
  | pong => exact .inl ⟨rfl,rfl⟩

theorem clears_sendFrame (env : Env) (type : WSFrameType) (payload : Bytes) :
    Clears c (c.sendFrame env type payload) := by
  unfold Client.sendFrame
  split
  · exact .refl c
  · exact clears_send c env _

theorem clears_close (env : Env) (code : Nat) (reason : Bytes) :
    Clears c (c.close env code reason) := by
  have hopen : Clears c (if c.connected then
      match ({ c with state := .closing, closeFrameSent := true } : Client).send env
        (.frame .close (WebSocketServer.closePayload code reason)) with
      | (c,true) => c
      | (c,false) => c.disconnect
    else ({ c with state := .closing } : Client).disconnect) := by
    have hsend := clears_send { c with state := .closing, closeFrameSent := true } env
      (.frame .close (WebSocketServer.closePayload code reason))
    split
    · split
      · rename_i c₁ h
        rw [h] at hsend
        exact hsend
      · rename_i c₁ h
        rw [h] at hsend
        exact Clears.trans hsend (clears_disconnect c₁)
    · exact clears_disconnect { c with state := .closing }
  unfold Client.close
  split
  · exact clears_disconnect c
  · exact .refl c
  · exact hopen
  · exact hopen

theorem clears_handshakeTimeout : Clears c c.handleHandshakeTimeout := by
  unfold Client.handleHandshakeTimeout
  split
  · exact .refl c
  · exact clears_disconnect (c.notifyConnect false _)

theorem clears_closeTimeout : Clears c c.handleCloseTimeout := by
  unfold Client.handleCloseTimeout
  split
  · exact clears_disconnect c
  · exact .refl c

theorem placed_handleTcpConnected (settings : Settings) (env : Env) (key : Bytes) :
    Placed (c.handleTcpConnected settings env key) := by
  simp only [Client.handleTcpConnected]
  generalize Item.request _ = item
  have hsend := clears_send { c with
    transport := .connected, connected := false, state := .handshake, buffer := [], bufferOffset := 0,
    handshakeKey := key } env item
  split
  · rename_i c₁ h
    rw [h] at hsend
    exact hsend.placed (Nat.le_refl _)
  · rename_i c₁ h
    rw [h] at hsend
    exact (clears_disconnect (c₁.notifyConnect false _)).placed (hsend.placed (Nat.le_refl _))

end

theorem placed_connect (settings : Settings) (env : Env) (c : Client) (url : Bytes) (headers : ByteMap Bytes)
    (dial : Dial) : Placed (connect settings env c url headers dial) := by
  simp only [connect]
  split
  · exact Nat.le_refl _
  · split
    · exact Nat.le_refl _
    · split
      · exact Nat.le_refl _
      · exact Nat.le_refl _
      · exact placed_handleTcpConnected _ settings env _

theorem Placed.perform {call : Call} (h : Placed c) : Placed (perform settings env c call).1 := by
  cases call with
  | handshakeResponse =>
    simp only [WebSocketClient.perform]
    split
    · exact h
    · exact (clears_disconnect (c.notifyConnect false _)).placed h
    · exact compact_le
  | frames =>
    simp only [WebSocketClient.perform,takeFrame]
    split
    · exact h
    · split
      · exact compact_le
      · exact (clears_disconnect (c.tell _)).placed h
  | handleFrame type payload => exact (clears_handleFrame c env type payload).placed h

theorem placed_step {event : Event} (h : Placed c) : Placed (step settings c event) := by
  cases event with
  | connect url headers dial env => exact placed_connect settings env c url headers dial
  | established key env =>
    simp only [step]
    split
    · split
      · exact placed_handleTcpConnected _ settings env key
      · exact h
    · exact h
  | failed message =>
    simp only [step]
    split
    · exact (clears_closeWithReason (c.tell _) message).placed h
    · exact ((clears_notifyFailure c message).trans (clears_closeWithReason (Client.tell _ _) message)).placed h
  | dropped reason =>
    simp only [step]
    split
    · exact (clears_closeWithReason c reason).placed h
    · exact h
  | data bytes =>
    simp only [step]
    split
    · unfold Placed at h ⊢
      simp only [append_eq,List.length_append]
      omega
    · exact h
  | read env =>
    simp only [step]
    split
    · exact h
    · exact h.perform
  | sendText message env => exact (clears_sendFrame c env .text message).placed h
  | sendBinary data env => exact (clears_sendFrame c env .binary data).placed h
  | ping env => exact (clears_sendFrame c env .ping []).placed h
  | close code reason env => exact (clears_close c env code reason).placed h
  | handshakeTimeout => exact (clears_handshakeTimeout c).placed h
  | closeTimeout => exact (clears_closeTimeout c).placed h

end Placed

end FastNet.WebSocketClient
