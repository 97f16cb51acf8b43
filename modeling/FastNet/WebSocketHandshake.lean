import FastNet.Base64
import FastNet.RequestExtraction

/-!
The opening handshake of a WebSocket, on the side of the server: what
`handleHandshake` reads in the request, and the two responses that it can give. The
accept key is made with the `Sha1` class of `WebSocketProtocol.cpp`.
-/

namespace FastNet

open Text HttpParser

/-- `Sha1`: the five words of the state, the bytes of the block that is not full yet, and
the number of bits so far. -/
structure Sha1 where
  state : List UInt32 := [0x67452301,0xEFCDAB89,0x98BADCFE,0x10325476,0xC3D2E1F0]
  block : Bytes := []
  totalBits : UInt64 := 0

namespace Sha1

def leftRotate (value bits : UInt32) : UInt32 := (value <<< bits) ||| (value >>> (32-bits))

def blockWord (block : Bytes) (i : Nat) : UInt32 :=
  (block.getD (i*4) 0).toUInt32 <<< 24 ||| (block.getD (i*4+1) 0).toUInt32 <<< 16 |||
    (block.getD (i*4+2) 0).toUInt32 <<< 8 ||| (block.getD (i*4+3) 0).toUInt32

def schedule (block : Bytes) : List UInt32 :=
  (List.range' 16 64).foldl (fun schedule i => schedule ++
    [leftRotate (schedule.getD (i-3) 0 ^^^ schedule.getD (i-8) 0 ^^^ schedule.getD (i-14) 0 ^^^
      schedule.getD (i-16) 0) 1]) ((List.range 16).map (blockWord block))

def round (i : Nat) (word : UInt32) : UInt32 × UInt32 × UInt32 × UInt32 × UInt32 →
    UInt32 × UInt32 × UInt32 × UInt32 × UInt32
  | (a,b,c,d,e) =>
    let (f,k) :=
      if i < 20 then ((b &&& c) ||| ((~~~b) &&& d),0x5A827999)
      else if i < 40 then (b ^^^ c ^^^ d,0x6ED9EBA1)
      else if i < 60 then ((b &&& c) ||| (b &&& d) ||| (c &&& d),0x8F1BBCDC)
      else (b ^^^ c ^^^ d,0xCA62C1D6)
    (leftRotate a 5+f+e+k+word,a,leftRotate b 30,c,d)

def processBlock (state : List UInt32) (block : Bytes) : List UInt32 :=
  let s (i : Nat) := state.getD i 0
  let (a,b,c,d,e) := ((schedule block).zipIdx).foldl (fun words (word,i) => round i word words)
    (s 0,s 1,s 2,s 3,s 4)
  [s 0+a,s 1+b,s 2+c,s 3+d,s 4+e]

/-- The loop of `update`; every turn takes a byte at least. -/
def absorb : Nat → Sha1 → Bytes → Sha1
  | 0, sha1, _ => sha1
  | fuel+1, sha1, data =>
    if data = [] then sha1
    else
      let copyLength := min data.length (64-sha1.block.length)
      let block := sha1.block ++ data.take copyLength
      let sha1 := if block.length = 64 then
          { sha1 with state := processBlock sha1.state block, block := [] }
        else { sha1 with block }
      absorb fuel sha1 (data.drop copyLength)

def update (sha1 : Sha1) (data : Bytes) : Sha1 :=
  absorb data.length { sha1 with totalBits := sha1.totalBits+UInt64.ofNat data.length*8 } data

def padTo (n : Nat) (block : Bytes) : Bytes := block ++ List.replicate (n-block.length) 0

def finalize (sha1 : Sha1) : Bytes :=
  let block := sha1.block ++ [0x80]
  let (state,block) := if 56 < block.length then (processBlock sha1.state (padTo 64 block),[])
    else (sha1.state,block)
  let block := padTo 56 block ++
    ([7,6,5,4,3,2,1,0] : List UInt64).map (fun i => ((sha1.totalBits >>> (i*8)) &&& 0xFF).toUInt8)
  (processBlock state block).flatMap (fun word =>
    ([24,16,8,0] : List UInt32).map (fun shift => ((word >>> shift) &&& 0xFF).toUInt8))

end Sha1

def sha1Digest (input : Bytes) : Bytes := (Sha1.update {} input).finalize

namespace WebSocketProtocol

def kGuid : Bytes := ascii "258EAFA5-E914-47DA-95CA-C5AB0DC85B11"

def createAcceptKey (key : Bytes) : Bytes := base64Encode (sha1Digest (key ++ kGuid))

end WebSocketProtocol

structure WebSocketServerHandshakeRequest where
  target : Bytes := []
  path : Bytes := []
  queryString : Bytes := []
  headers : ByteMap Bytes := ∅
  requestedSubprotocols : List Bytes := []
  clientAddress : Address := {}

structure WebSocketServerHandshakeResponse where
  accept : Bool := true
  acceptedSubprotocol : Bytes := []
  headers : ByteMap Bytes := ∅
  rejectStatusCode : Int := 403
  rejectStatusMessage : Bytes := ascii "Forbidden"
  rejectBody : Bytes := ascii "WebSocket handshake rejected"

namespace WebSocketServer

def isReservedHandshakeResponseHeader (name : Bytes) : Bool :=
  [ascii "Upgrade",ascii "Connection",ascii "Sec-WebSocket-Accept",ascii "Sec-WebSocket-Protocol",
    ascii "Content-Length"].any (caseInsensitiveCompare name)

def splitSubprotocols (value : Bytes) : List Bytes :=
  ((value.splitOn 44).map HttpParser.trim).filter (fun protocol => protocol ≠ [])

def containsSubprotocol (protocols : List Bytes) (candidate : Bytes) : Bool :=
  protocols.any (fun protocol => caseInsensitiveCompare protocol (HttpParser.trim candidate))

def selectSubprotocol (serverProtocols clientProtocols : List Bytes) : Bytes :=
  (serverProtocols.find? (containsSubprotocol clientProtocols)).getD []

def buildHandshakeResponse (key : Bytes) (response : WebSocketServerHandshakeResponse) : Bytes :=
  ascii "HTTP/1.1 101 Switching Protocols\r\n" ++ ascii "Upgrade: websocket\r\n" ++
    ascii "Connection: Upgrade\r\n" ++ ascii "Sec-WebSocket-Accept: " ++
    WebSocketProtocol.createAcceptKey key ++ crlf ++
    (if response.acceptedSubprotocol = [] then []
      else appendHeaderLine (ascii "Sec-WebSocket-Protocol") response.acceptedSubprotocol) ++
    response.headers.toList.flatMap (fun e =>
      if isReservedHandshakeResponseHeader e.1 then [] else appendHeaderLine e.1 e.2) ++ crlf

def rejectionStatus (response : WebSocketServerHandshakeResponse) : Int :=
  if response.rejectStatusCode ≤ 0 then 403 else response.rejectStatusCode

def buildHandshakeRejection (response : WebSocketServerHandshakeResponse) : Bytes :=
  let statusMessage := if response.rejectStatusMessage = [] then ascii "Forbidden"
    else response.rejectStatusMessage
  let body := response.rejectBody
  let headers := response.headers.insert (ascii "Connection") (ascii "close")
  let headers := headers.insert (ascii "Content-Type") (ascii "text/plain; charset=utf-8")
  let headers := headers.insert (ascii "Content-Length") (toChars 10 body.length)
  HttpParser.buildResponse (rejectionStatus response) statusMessage headers body

def containsToken (headerValue token : Bytes) : Bool :=
  (headerValue.splitOn 44).any (fun candidate =>
    (Text.trim Ctype.isSpace candidate).map Ctype.toLower = token.map Ctype.toLower)

/-- What `handleHandshake` finds at the front of the unread bytes: no head yet, a head that
it refuses, or a request for a WebSocket with its key and its size. -/
inductive HandshakeScan where
  | incomplete
  | refused (errorMessage : Bytes)
  | upgrade (key : Bytes) (request : WebSocketServerHandshakeRequest) (consumedBytes : Nat)

def headerValue (view : HttpRequestView) (name : Bytes) : Bytes :=
  ((view.headers.getHeader View.text name).map View.text).getD []

def handshakeRequestOf (view : HttpRequestView) (address : Address) : WebSocketServerHandshakeRequest where
  target := view.target.text
  path := view.uri.text
  queryString := view.queryString.text
  headers := view.headers.toStrings View.text
  requestedSubprotocols :=
    match view.headers.getHeader View.text (ascii "Sec-WebSocket-Protocol") with
    | some protocols => splitSubprotocols protocols.text
    | none => []
  clientAddress := address

/-- The first part of `handleHandshake`, up to the callback. -/
def scanHandshake (raw : ByteView) (address : Address) : HandshakeScan :=
  match find crlfcrlf raw.text 0 with
  | none => .incomplete
  | some headerEnd =>
    match HttpParser.parseRequest (raw.sub 0 (headerEnd+4)) with
    | (false,_) => .refused (ascii "Invalid WebSocket handshake request")
    | (true,requestView) =>
      let upgradeValue := headerValue requestView (ascii "Upgrade")
      let connectionValue := headerValue requestView (ascii "Connection")
      let keyValue := headerValue requestView (ascii "Sec-WebSocket-Key")
      let versionValue := headerValue requestView (ascii "Sec-WebSocket-Version")
      if upgradeValue = [] || connectionValue = [] || keyValue = [] || versionValue = [] ||
          !caseInsensitiveCompare upgradeValue (ascii "websocket") ||
          !containsToken connectionValue (ascii "upgrade") || versionValue ≠ ascii "13" then
        .refused (ascii "Unsupported WebSocket handshake")
      else .upgrade keyValue (handshakeRequestOf requestView address) (headerEnd+4)

def proposedResponse (headers : ByteMap Bytes) (subprotocols : List Bytes)
    (request : WebSocketServerHandshakeRequest) : WebSocketServerHandshakeResponse :=
  { headers, acceptedSubprotocol := selectSubprotocol subprotocols request.requestedSubprotocols }

def checkedResponse (request : WebSocketServerHandshakeRequest)
    (response : WebSocketServerHandshakeResponse) : WebSocketServerHandshakeResponse :=
  if response.acceptedSubprotocol ≠ [] ∧
      !containsSubprotocol request.requestedSubprotocols response.acceptedSubprotocol then
    { response with
      accept := false, rejectStatusCode := 400, rejectStatusMessage := ascii "Bad Request",
      rejectBody := ascii "Selected WebSocket subprotocol was not requested by the client" }
  else response

end WebSocketServer

end FastNet
