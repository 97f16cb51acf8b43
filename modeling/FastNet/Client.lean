import FastNet.Base64
import FastNet.RequestWire
import FastNet.ResponseExtraction

/-!
`HttpClient` as a whole: the request it has in flight, the response as it arrives, the
redirects it follows, and what it tells its user. Callbacks are numbered by the request
they were given with, and what they are called with is written to a log.
-/

namespace FastNet.HttpClient

open Text Ctype Numeral Loop HttpParser Chunked

def isValidHttpMethodName (method : Bytes) : Bool :=
  method ≠ [] && method.all (fun ch => isAlnum ch || ch = 45 || ch = 95)

def findHeaderCaseInsensitive (headers : ByteMap Bytes) (name : Bytes) : Option Bytes :=
  (headers.toList.find? (fun e => caseInsensitiveCompare e.1 name)).map Prod.snd

def eraseHeaderCaseInsensitive (headers : ByteMap Bytes) (name : Bytes) : ByteMap Bytes :=
  headers.filter (fun k _ => !caseInsensitiveCompare k name)

def eraseHeaders (headers : ByteMap Bytes) (names : List Bytes) : ByteMap Bytes :=
  names.foldl eraseHeaderCaseInsensitive headers

structure PendingRequest where
  method : Bytes := []
  path : Bytes := []
  headers : ByteMap Bytes := ∅
  body : Bytes := []

structure HttpProxyOptions where
  host : Bytes := []
  port : Nat := 0
  headers : ByteMap Bytes := ∅
  username : Bytes := []
  password : Bytes := []

def HttpProxyOptions.enabled (options : HttpProxyOptions) : Bool :=
  options.host ≠ [] && options.port ≠ 0

inductive Notice where
  | connected (success : Bool) (message : Bytes)
  | response (request : Nat) (response : HttpResponse)
  | headers (request : Nat) (response : HttpResponse)
  | chunk (request : Nat) (data : Bytes)
  | completed (request : Nat) (response : HttpResponse)
  | sent (request : Bytes)

/-- Where the `TcpClient` stands: not running, running, or connected. -/
inductive Transport where
  | idle
  | connecting
  | connected
  deriving DecidableEq, Repr

/-- The state of `HttpClient::Impl` and of the `TcpClient` in it. The callback for the
data of a stream comes with the user's answer to each chunk. -/
structure Client where
  transport : Transport := .idle
  pendingConnect : Bool := false
  connected : Bool := false
  awaitingResponse : Bool := false
  replayAfterConnect : Bool := false
  streamingResponse : Bool := false
  streamHeadersParsed : Bool := false
  streamNoBody : Bool := false
  streamChunked : Bool := false
  streamContentLength : Option Nat := none
  streamReceivedBodyBytes : Nat := 0
  parsedUrl : ParsedUrl := {}
  pendingRequest : PendingRequest := {}
  responseBuffer : Bytes := []
  streamResponse : HttpResponse := {}
  timerArmed : Bool := false
  requestTimeout : Nat := 5000
  pendingRequestOverrideTimeout : Option Nat := none
  followRedirects : Bool := true
  maxRedirects : Nat := 5
  redirectCount : Nat := 0
  useCompression : Bool := false
  proxyOptions : HttpProxyOptions := {}
  connectCallback : Bool := false
  responseCallback : Option Nat := none
  streamHeadersCallback : Option Nat := none
  streamDataCallback : Option (Nat × (Bytes → Bool)) := none
  streamCompleteCallback : Option Nat := none
  issued : Nat := 0
  log : List Notice := []

namespace Client

def tell (c : Client) (notice : Notice) : Client := { c with log := c.log ++ [notice] }

def stopRequestTimer (c : Client) : Client := { c with timerArmed := false }

def startRequestTimer (c : Client) : Client := { c with timerArmed := c.requestTimeout ≠ 0 }

def restoreRequestTimeoutOverride (c : Client) : Client :=
  match c.pendingRequestOverrideTimeout with
  | none => c
  | some timeout => { c with requestTimeout := timeout, pendingRequestOverrideTimeout := none }

/-- The call of `responseCallback_`, if there is one. -/
def respond (c : Client) (response : HttpResponse) : Client :=
  match c.responseCallback with
  | none => c
  | some request => c.tell (.response request response)

def failure (message : Bytes) : HttpResponse := { statusCode := 0, statusMessage := message }

/-- `handleConnect(false, message)`. -/
def handleConnectFailed (c : Client) (message : Bytes) : Client :=
  let c := { c.stopRequestTimer with connected := false, awaitingResponse := false }
  let c := if c.connectCallback then c.tell (.connected false message) else c
  let c := if c.replayAfterConnect then c.respond (failure message) else c
  { c with replayAfterConnect := false }

/-- `notifyConnect(false, message)`. -/
def notifyConnectFailed (c : Client) (message : Bytes) : Client :=
  if c.pendingConnect then { c with pendingConnect := false }.handleConnectFailed message else c

/-- `tcpClient_.disconnect()` for a client that is not awaiting a response, so that
`handleDisconnect` does no more than note the end of the connection. -/
def dropConnection (c : Client) : Client :=
  match c.transport with
  | .idle => c
  | .connecting => { c.notifyConnectFailed (ascii "Connection cancelled") with transport := .idle }
  | .connected => { c.stopRequestTimer with transport := .idle, connected := false }

def completeStreaming (c : Client) (response : HttpResponse) : Client :=
  let c := c.stopRequestTimer.restoreRequestTimeoutOverride
  let c := { c with
    awaitingResponse := false, streamingResponse := false, streamHeadersParsed := false,
    streamNoBody := false, streamChunked := false, streamContentLength := none,
    streamReceivedBodyBytes := 0, responseBuffer := [] }
  match c.streamCompleteCallback with
  | none => c
  | some request => c.tell (.completed request response)

def completeStreamingResponse (c : Client) : Client := c.completeStreaming c.streamResponse

def completeStreamingWithStatus (c : Client) (statusCode : Int) (message : Bytes) : Client :=
  c.completeStreaming { c.streamResponse with statusCode, statusMessage := message, body := [] }

/-- The call of `streamDataCallback_` with a chunk: the client, and whether it goes on. -/
def deliverStreamingChunk (c : Client) (chunk : Bytes) : Client × Bool :=
  if chunk = [] then (c,true)
  else
    match c.streamDataCallback with
    | none => (c,c.streamingResponse)
    | some (request,accepts) =>
      let c := c.tell (.chunk request chunk)
      if accepts chunk then (c,c.streamingResponse)
      else ((c.completeStreamingWithStatus 0
        (ascii "HTTP stream cancelled by data callback")).dropConnection,false)

def failStreaming (c : Client) (message : Bytes) : Client :=
  (c.completeStreamingWithStatus 0 message).dropConnection

/-- The call of `streamHeadersCallback_`. -/
def tellHeaders (c : Client) : Client × Bool :=
  match c.streamHeadersCallback with
  | none => (c,true)
  | some request =>
    let c := c.tell (.headers request c.streamResponse)
    (c,c.streamingResponse)

/-- A head that has been accepted, at a time at which its views read as `rd` says. A
handler that throws leaves the client as an error. -/
def acceptStreamingHead (c : Client) (rd : ByteView → Bytes) (responseView : HttpResponseView) :
    Except Client (Client × Bool) :=
  match buildResponse rd responseView with
  | .threw _ => .error c
  | .hang => .error c
  | .ret response =>
    let c := { c with
      streamResponse := { response with body := [] }, streamHeadersParsed := true,
      streamNoBody := hasNoBody c.pendingRequest.method responseView.statusCode,
      streamChunked := isChunked rd responseView.headers,
      streamContentLength := none, streamReceivedBodyBytes := 0 }
    match responseView.headers.getHeader rd (ascii "Content-Length") with
    | none => .ok c.tellHeaders
    | some contentLength =>
      if c.streamChunked then .ok c.tellHeaders
      else
        match stoull 10 (rd contentLength) with
        | .error _ =>
          .ok (c.completeStreamingWithStatus 0 (ascii "Invalid HTTP Content-Length"),false)
        | .ok length => .ok { c with streamContentLength := some length }.tellHeaders

/-- The loop of `parseStreamingHeaders`, for at most `fuel` heads. -/
def parseStreamingHeaders (connectionClosed : Bool) : Nat → Client → Except Client (Client × Bool)
  | 0, c => .error c
  | fuel+1, c =>
    if c.streamHeadersParsed then .ok (c,true)
    else
      match find crlfcrlf c.responseBuffer 0 with
      | none =>
        if connectionClosed then
          .ok (c.completeStreamingWithStatus 0 (ascii "Incomplete HTTP response head"),false)
        else .ok (c,false)
      | some headerEnd =>
        match parseResponseHead (.whole c.responseBuffer) with
        | (false,_) =>
          .ok (c.completeStreamingWithStatus 0 (ascii "Invalid HTTP response head"),false)
        | (true,responseView) =>
          let storage := storageAfterErase c.responseBuffer (headerEnd+4)
          let c := { c with
            responseBuffer := eraseResponseBufferPrefix c.responseBuffer (headerEnd+4) }
          if isInterimResponseStatus responseView.statusCode then
            parseStreamingHeaders connectionClosed fuel c
          else c.acceptStreamingHead (View.read storage) responseView

/-- The loop over the trailer lines, which is the one of `getChunkedMessageSize`. -/
def consumeStreamingTrailers (c : Client) (trailerOffset : Nat) : Except Client Client :=
  match run (chunkTurn c.responseBuffer) (c.responseBuffer.length+1) (.trailer trailerOffset) with
  | .threw _ => .error c
  | .hang => .error c
  | .ret none => .ok c
  | .ret (some 0) => .ok (c.failStreaming (ascii "Invalid HTTP chunk trailer"))
  | .ret (some trailerOffset) =>
    .ok { c with
      responseBuffer := eraseResponseBufferPrefix c.responseBuffer trailerOffset
    }.completeStreamingResponse

/-- The loop of `consumeStreamingChunkedBody`, for at most `fuel` chunks. -/
def consumeStreamingChunkedBody : Nat → Client → Except Client Client
  | 0, c => .error c
  | fuel+1, c =>
    if !c.streamingResponse then .ok c
    else
      let raw := c.responseBuffer
      match find crlf raw 0 with
      | none => .ok c
      | some lineEnd =>
        match strictSize (raw.take lineEnd) with
        | none => .ok (c.failStreaming (ascii "Invalid HTTP chunk size"))
        | some chunkSize =>
          let chunkBodyOffset := sizeAdd lineEnd 2
          if chunkSize = 0 then c.consumeStreamingTrailers chunkBodyOffset
          else if raw.length < sizeAdd (sizeAdd chunkBodyOffset chunkSize) 2 then .ok c
          else
            match substr raw (sizeAdd chunkBodyOffset chunkSize) 2, substr raw chunkBodyOffset chunkSize with
            | .ok mark, .ok chunk =>
              if mark ≠ crlf then .ok (c.failStreaming (ascii "Malformed HTTP chunk"))
              else
                match c.deliverStreamingChunk chunk with
                | (c,false) => .ok c
                | (c,true) =>
                  consumeStreamingChunkedBody fuel { c with
                    responseBuffer := eraseResponseBufferPrefix c.responseBuffer
                      (sizeAdd (sizeAdd chunkBodyOffset chunkSize) 2) }
            | _, _ => .error c

def countBody (c : Client) (bytes : Nat) : Client :=
  { c with streamReceivedBodyBytes := sizeAdd c.streamReceivedBodyBytes bytes
           responseBuffer := eraseResponseBufferPrefix c.responseBuffer bytes }

/-- The part of a turn of `consumeStreamingFixedLengthBody` below the computation of `remaining`. -/
def deliverRemaining (c : Client) (contentLength remaining : Nat) : Turn Client Client :=
  if remaining = 0 then .leave c.completeStreamingResponse
  else
    let bytesToDeliver := min remaining c.responseBuffer.length
    match c.deliverStreamingChunk (c.responseBuffer.take bytesToDeliver) with
    | (c,false) => .leave c
    | (c,true) =>
      let c := c.countBody bytesToDeliver
      if contentLength ≤ c.streamReceivedBodyBytes then .leave c.completeStreamingResponse
      else .again c

/-- A turn of the loop of `consumeStreamingFixedLengthBody`. -/
def fixedLengthTurn (c : Client) : Turn Client Client :=
  match c.streamContentLength with
  | none => .leave c
  | some contentLength =>
    if !c.streamingResponse ∨ c.responseBuffer = [] then .leave c
    else c.deliverRemaining contentLength (sizeSub contentLength c.streamReceivedBodyBytes)

def fixedLengthLoop : Nat → Client → Except Client Client
  | 0, c => .error c
  | fuel+1, c =>
    match c.fixedLengthTurn with
    | .leave c => .ok c
    | .again c => fixedLengthLoop fuel c

def consumeStreamingFixedLengthBody (c : Client) : Except Client Client :=
  match c.streamContentLength with
  | none => .ok c.completeStreamingResponse
  | some contentLength =>
    if contentLength ≤ c.streamReceivedBodyBytes then .ok c.completeStreamingResponse
    else fixedLengthLoop (c.responseBuffer.length+1) c

def consumeStreamingOpenBody (c : Client) (connectionClosed : Bool) : Client :=
  let (c,goesOn) :=
    if c.responseBuffer = [] then (c,true)
    else
      match c.deliverStreamingChunk c.responseBuffer with
      | (c,false) => (c,false)
      | (c,true) => ({ c with responseBuffer := [] },true)
  if goesOn && connectionClosed then c.completeStreamingResponse else c

/-- What `handleStreamingDataReceived` does once the head is there. -/
def consumeStreamingBody (c : Client) (connectionClosed : Bool) : Except Client Client :=
  if c.streamNoBody then .ok c.completeStreamingResponse
  else if c.streamChunked then consumeStreamingChunkedBody (c.responseBuffer.length+1) c
  else
    match c.streamContentLength with
    | some contentLength =>
      if contentLength = 0 ∨ contentLength ≤ c.streamReceivedBodyBytes then
        .ok c.completeStreamingResponse
      else c.consumeStreamingFixedLengthBody
    | none => .ok (c.consumeStreamingOpenBody connectionClosed)

def handleStreamingDataReceived (c : Client) (connectionClosed : Bool) : Except Client Client :=
  match parseStreamingHeaders connectionClosed (c.responseBuffer.length+1) c with
  | .error c => .error c
  | .ok (c,parsed) =>
    if parsed && c.streamingResponse then c.consumeStreamingBody connectionClosed else .ok c

def failAwaiting (c : Client) (reason : Bytes) : Client :=
  if c.awaitingResponse && c.responseCallback.isSome then
    { c with awaitingResponse := false, responseBuffer := [] }.respond (failure reason)
  else c

/-- `handleDisconnect`; `deliver` is what is done with a response that the end of the
connection completes. -/
def handleDisconnect (deliver : Client → HttpResponse → Except Client Client) (c : Client)
    (reason : Bytes) : Except Client Client :=
  let c := { c.stopRequestTimer with connected := false }
  if c.awaitingResponse && c.streamingResponse then
    (c.handleStreamingDataReceived true).map fun c =>
      if c.awaitingResponse then
        c.completeStreamingWithStatus 0 (if reason = [] then ascii "Connection closed" else reason)
      else c
  else if c.awaitingResponse && c.responseBuffer ≠ [] then
    match tryConsumeBufferedResponse c.pendingRequest.method true c.responseBuffer with
    | .threw _ => .error c
    | .hang => .error c
    | .ret (some response,rest) =>
      deliver { c with responseBuffer := rest, awaitingResponse := false } response
    | .ret (none,rest) => .ok ({ c with responseBuffer := rest }.failAwaiting reason)
  else .ok (c.failAwaiting reason)

def closeWithReason (deliver : Client → HttpResponse → Except Client Client) (c : Client)
    (reason : Bytes) : Except Client Client :=
  match c.transport with
  | .connected => { c with transport := .idle }.handleDisconnect deliver reason
  | _ => .ok { c with transport := .idle }

def handleError (c : Client) (message : Bytes) : Client :=
  let c := c.stopRequestTimer
  if c.streamingResponse then c.completeStreamingWithStatus 0 message
  else
    let c := c.restoreRequestTimeoutOverride
    if c.responseCallback.isSome then
      { c with awaitingResponse := false, responseBuffer := [] }.respond (failure message)
    else c

/-- `TcpClient::handleTransportFailure`. It does not ask whether the transport is still
running. -/
def handleTransportFailure (deliver : Client → HttpResponse → Except Client Client) (c : Client)
    (message : Bytes) : Except Client Client :=
  let c := if c.transport ≠ .connected then c.notifyConnectFailed message else c
  (c.handleError message).closeWithReason deliver message

/-- What the network makes of a request that is handed to it, and of an attempt to
connect: both can fail or end before the call comes back. -/
inductive SendOutcome where
  | queued
  | closed (reason : Bytes)
  | failed (message : Bytes)

inductive ConnectOutcome where
  | started
  | established
  | refused (message : Bytes)

structure Net where
  send : SendOutcome := .queued
  connect : ConnectOutcome := .started

def noResponse (c : Client) (_ : HttpResponse) : Except Client Client := .error c

/-- `tcpClient_.send(request)`, and whether it returns true. -/
def tcpSend (net : Net) (c : Client) (request : Bytes) : Except Client (Client × Bool) :=
  match c.transport with
  | .connected =>
    let c := c.tell (.sent request)
    match net.send with
    | .queued => .ok (c,true)
    | .closed reason => (c.closeWithReason noResponse reason).map (·,true)
    | .failed message => (c.handleTransportFailure noResponse message).map (·,true)
  | _ => .ok (c,false)

def buildTransportRequestTarget (c : Client) (path : Bytes) : Bytes :=
  if !c.proxyOptions.enabled ∨ c.parsedUrl.protocol ≠ ascii "http" ∨ path = ascii "*" then path
  else c.parsedUrl.protocol ++ ascii "://" ++ buildHostHeader c.parsedUrl ++ path

def applyProxyHeaders (c : Client) (headers : ByteMap Bytes) : ByteMap Bytes :=
  if !c.proxyOptions.enabled then headers
  else
    let headers := c.proxyOptions.headers.toList.foldl (fun headers e => headers.insert e.1 e.2) headers
    if c.proxyOptions.username = [] then headers
    else
      (eraseHeaderCaseInsensitive headers (ascii "Proxy-Authorization")).insert
        (ascii "Proxy-Authorization")
        (ascii "Basic " ++
          base64Encode (c.proxyOptions.username ++ [58] ++ c.proxyOptions.password))

def transportRequest (c : Client) : Bytes :=
  buildClientRequest c.pendingRequest.method (c.buildTransportRequestTarget c.pendingRequest.path)
    (c.applyProxyHeaders c.pendingRequest.headers) c.pendingRequest.body
    (buildHostHeader c.parsedUrl) c.useCompression

/-- What follows the call of `tcpClient_.send`. -/
def afterSend : Client × Bool → Client × Bool
  | (c,true) => (c.startRequestTimer,true)
  | (c,false) =>
    let c := { c with awaitingResponse := false, streamingResponse := false }
    (c.restoreRequestTimeoutOverride,false)

def sendPendingRequest (net : Net) (c : Client) : Except Client (Client × Bool) :=
  if !c.connected then .ok (c,false)
  else
    let request := c.transportRequest
    let c := { c with responseBuffer := [], awaitingResponse := true }
    (c.tcpSend net request).map afterSend

/-- `handleConnect(true, "")`. -/
def handleConnected (net : Net) (c : Client) : Except Client Client :=
  let c := { c with connected := true }
  if c.replayAfterConnect then
    ({ c with replayAfterConnect := false }.sendPendingRequest net).map Prod.fst
  else .ok (if c.connectCallback then c.tell (.connected true []) else c)

/-- `tcpClient_.connect`, and whether it returns true. -/
def tcpConnect (net : Net) (c : Client) : Except Client (Client × Bool) :=
  let c := { c with pendingConnect := true }
  match c.transport with
  | .idle =>
    match net.connect with
    | .started => .ok ({ c with transport := .connecting },true)
    | .established =>
      ({ c with transport := .connected, pendingConnect := false }.handleConnected net).map (·,true)
    | .refused message => .ok (c.notifyConnectFailed message,false)
  | _ => .ok (c.notifyConnectFailed (ascii "Connection is already active"),false)

def connectToParsedUrl (net : Net) (c : Client) (replayRequest : Bool) :
    Except Client (Client × Bool) :=
  let c := { c with replayAfterConnect := replayRequest, responseBuffer := [], connected := false }
  if c.proxyOptions.enabled ∧ c.parsedUrl.protocol = ascii "https" then
    .ok (if c.connectCallback then
      c.tell (.connected false (ascii "HTTPS proxy tunneling is not supported by HttpClient yet"))
      else c,false)
  else c.tcpConnect net

def isRedirect (statusCode : Int) : Bool :=
  statusCode = 301 || statusCode = 302 || statusCode = 303 || statusCode = 307 || statusCode = 308

def redirectTarget (c : Client) (response : HttpResponse) : Option ParsedUrl :=
  if c.followRedirects && isRedirect response.statusCode && c.redirectCount < c.maxRedirects then
    (findHeaderCaseInsensitive response.headers (ascii "Location")).bind (resolveRedirect c.parsedUrl)
  else none

def prepareRedirectRequest (c : Client) (statusCode : Int) (redirectedUrl : ParsedUrl)
    (endpointChanged : Bool) : Client :=
  let request := c.pendingRequest
  let switchToGet := statusCode = 303 ∨ ((statusCode = 301 ∨ statusCode = 302) ∧
    !caseInsensitiveCompare request.method (ascii "GET") ∧
    !caseInsensitiveCompare request.method (ascii "HEAD"))
  let bodyHeaders := [ascii "Content-Length",ascii "Content-Type",ascii "Transfer-Encoding"]
  let request := if switchToGet then
      { request with
        method := ascii "GET", body := [], headers := eraseHeaders request.headers bodyHeaders }
    else request
  let request := { request with path := buildRequestPath c.parsedUrl.path redirectedUrl.path }
  let endpointHeaders := [ascii "Host",ascii "Authorization",ascii "Proxy-Authorization"]
  let request := if endpointChanged then
      { request with headers := eraseHeaders request.headers endpointHeaders }
    else request
  { c with pendingRequest := request }

/-- The flags that `HttpClient::Impl::disconnect` clears behind `tcpClient_.disconnect()`. -/
def cleared (c : Client) : Client :=
  { c with connected := false, awaitingResponse := false, streamingResponse := false,
           responseBuffer := [] }

/-- `handleResponse`, for a client that has stopped awaiting the response. -/
def handleResponse (net : Net) (c : Client) (response : HttpResponse) : Except Client Client :=
  let c := c.stopRequestTimer
  match c.redirectTarget response with
  | none => .ok (c.restoreRequestTimeoutOverride.respond response)
  | some redirectedUrl =>
    let endpointChanged := redirectedUrl.host ≠ c.parsedUrl.host ∨
      redirectedUrl.port ≠ c.parsedUrl.port ∨ redirectedUrl.protocol ≠ c.parsedUrl.protocol
    let c := { c with redirectCount := c.redirectCount+1 }.prepareRedirectRequest
      response.statusCode redirectedUrl endpointChanged
    let c := { c with parsedUrl := redirectedUrl }
    if endpointChanged then
      (c.stopRequestTimer.dropConnection.cleared.connectToParsedUrl net true).map Prod.fst
    else (c.sendPendingRequest net).map Prod.fst

def handleDataReceived (net : Net) (c : Client) (data : Bytes) : Except Client Client :=
  if data = [] then .ok c
  else
    let c := { c with responseBuffer := c.responseBuffer ++ data }
    if c.streamingResponse then c.handleStreamingDataReceived false
    else
      match tryConsumeBufferedResponse c.pendingRequest.method false c.responseBuffer with
      | .threw _ => .error c
      | .hang => .error c
      | .ret (none,rest) => .ok { c with responseBuffer := rest }
      | .ret (some response,rest) =>
        { c with responseBuffer := rest, awaitingResponse := false }.handleResponse net response

def handleTimeout (c : Client) : Client :=
  if !c.awaitingResponse then c
  else
    let c := { c with awaitingResponse := false, responseBuffer := [] }.dropConnection
    if c.streamingResponse then c.completeStreamingWithStatus 0 (ascii "Request timeout")
    else c.restoreRequestTimeoutOverride.respond (failure (ascii "Request timeout"))

def cancelRequest (c : Client) : Client :=
  if !c.awaitingResponse then c
  else
    let c := c.stopRequestTimer.restoreRequestTimeoutOverride
    let c := { c with awaitingResponse := false, responseBuffer := [] }.dropConnection
    if c.streamingResponse then c.completeStreamingWithStatus 0 (ascii "HTTP request cancelled")
    else c.respond (failure (ascii "HTTP request cancelled"))

/-- `tcpClient_.disconnect()`. -/
def tcpDisconnect (net : Net) (c : Client) : Except Client Client :=
  let c := if c.transport = .connecting then c.notifyConnectFailed (ascii "Connection cancelled") else c
  c.closeWithReason (handleResponse net) (ascii "Connection closed")

/-- `HttpClient::Impl::disconnect`, as the user calls it. -/
def disconnect (net : Net) (c : Client) : Except Client Client :=
  (c.stopRequestTimer.tcpDisconnect net).map cleared

def connect (net : Net) (c : Client) (url : Bytes) (callback : Bool) : Except Client (Client × Bool) :=
  match parseUrl c.parsedUrl.path url with
  | none => .ok (if callback then c.tell (.connected false (ascii "Invalid URL")) else c,false)
  | some parsed =>
    { c with connectCallback := callback, parsedUrl := parsed, redirectCount := 0
      }.connectToParsedUrl net false

/-- What the two ways to send a request have in common: the request is refused, or it
takes the place of the pending one. -/
def acceptRequest (c : Client) (request : PendingRequest) : Option Client :=
  if !c.connected ∨ c.awaitingResponse ∨ !isValidHttpMethodName request.method then none
  else some { c with
    pendingRequest := { request with path := buildRequestPath c.parsedUrl.path request.path }
    issued := c.issued+1 }

def sendRequest (net : Net) (c : Client) (request : PendingRequest) (callback : Bool) :
    Except Client (Client × Bool) :=
  match c.acceptRequest request with
  | none => .ok (c,false)
  | some accepted =>
    { accepted with responseCallback := if callback then some c.issued else none
      }.sendPendingRequest net

structure StreamCallbacks where
  headers : Bool := true
  data : Option (Bytes → Bool) := some (fun _ => true)
  complete : Bool := true

def sendStreamingRequest (net : Net) (c : Client) (request : PendingRequest)
    (callbacks : StreamCallbacks) : Except Client (Client × Bool) :=
  match c.acceptRequest request with
  | none => .ok (c,false)
  | some accepted =>
    { accepted with
      responseCallback := none
      streamHeadersCallback := if callbacks.headers then some c.issued else none
      streamDataCallback := callbacks.data.map (c.issued,·)
      streamCompleteCallback := if callbacks.complete then some c.issued else none
      streamingResponse := true, streamHeadersParsed := false, streamNoBody := false,
      streamChunked := false, streamContentLength := none, streamReceivedBodyBytes := 0,
      streamResponse := {} }.sendPendingRequest net

/-- A request object with its own timeout, `sendRequestObject` and
`sendStreamingRequestObject`. -/
def withTimeout (send : Client → Except Client (Client × Bool)) (timeoutMs : Nat) (c : Client) :
    Except Client (Client × Bool) :=
  let previousTimeout := c.requestTimeout
  let c := if timeoutMs ≠ 0 then { c with requestTimeout := timeoutMs } else c
  (send c).map fun
    | (c,result) =>
      if !result ∨ timeoutMs = 0 then ({ c with requestTimeout := previousTimeout },result)
      else ({ c with pendingRequestOverrideTimeout := some previousTimeout },result)

end Client

/-- What happens to a client: its user calls it, or its transport or its timer does. A
request object has a timeout of its own. -/
inductive Event where
  | connect (url : Bytes) (callback : Bool)
  | request (request : PendingRequest) (timeoutMs : Option Nat) (callback : Bool)
  | stream (request : PendingRequest) (timeoutMs : Option Nat) (callbacks : Client.StreamCallbacks)
  | cancel
  | disconnect
  | timeout
  | established
  | data (bytes : Bytes)
  | closed (reason : Bytes)
  | failed (message : Bytes)

open Client

def handle (net : Net) (c : Client) : Event → Except Client Client
  | .connect url callback => (c.connect net url callback).map Prod.fst
  | .request request timeoutMs callback =>
    let send := fun c : Client => c.sendRequest net request callback
    ((timeoutMs.elim send (withTimeout send)) c).map Prod.fst
  | .stream request timeoutMs callbacks =>
    let send := fun c : Client => c.sendStreamingRequest net request callbacks
    ((timeoutMs.elim send (withTimeout send)) c).map Prod.fst
  | .cancel => .ok c.cancelRequest
  | .disconnect => c.disconnect net
  | .timeout => .ok c.handleTimeout
  | .established =>
    if c.transport ≠ .connecting then .ok c
    else
      let c := { c with transport := .connected }
      if c.pendingConnect then { c with pendingConnect := false }.handleConnected net else .ok c
  | .data bytes => if c.transport = .connected then c.handleDataReceived net bytes else .ok c
  | .closed reason => c.closeWithReason (handleResponse net) reason
  | .failed message => c.handleTransportFailure (handleResponse net) message

/-- One event, with what the network does meanwhile. A handler that throws, or that does
not come back, leaves the client as it was then. -/
def step (c : Client) (event : Event × Net) : Client :=
  match handle event.2 c event.1 with
  | .ok c => c
  | .error c => c

end FastNet.HttpClient
