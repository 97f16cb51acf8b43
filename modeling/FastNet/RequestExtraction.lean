import FastNet.Address
import FastNet.ChunkedAgreement

/-!
How `HttpServer` takes requests off the bytes that a client has sent: the buffer
with its read offset, the framing of one request, and the request that handlers see.
-/

namespace FastNet

open Text Ctype Numeral Loop HttpParser List

inductive HttpMethod where
  | get | post | put | delete | head | options | patch
  deriving DecidableEq, Repr

structure HttpRequest where
  method : HttpMethod := .get
  methodName : Bytes := ascii "GET"
  target : Bytes := []
  path : Bytes := []
  queryString : Bytes := []
  version : Bytes := ascii "HTTP/1.1"
  queryParams : ByteMap Bytes := ∅
  headers : ByteMap Bytes := ∅
  body : Bytes := []
  clientAddress : Address := {}

structure HttpResponse where
  statusCode : Int := 200
  statusMessage : Bytes := ascii "OK"
  headers : ByteMap Bytes := ∅
  body : Bytes := []
  hasFileBody : Bool := false
  filePath : Bytes := []
  fileOffset : Nat := 0
  fileLength : Nat := 0

namespace HttpParser

def urlDecode : Bytes → Bytes
  | [] => []
  | 37 :: a :: b :: rest =>
    match hexDigit a, hexDigit b with
    | some high, some low => UInt8.ofNat (high*16+low) :: urlDecode rest
    | _, _ => 37 :: urlDecode (a :: b :: rest)
  | c :: rest => (if c = 43 then 32 else c) :: urlDecode rest

end HttpParser

/-- `requestView.body = body`. -/
def HttpRequestView.withBody (view : HttpRequestView) (body : ByteView) : HttpRequestView :=
  { view with body }

@[simp] theorem HttpRequestView.withBody_method (view : HttpRequestView) (body : ByteView) :
    (view.withBody body).method = view.method := rfl

@[simp] theorem HttpRequestView.withBody_headers (view : HttpRequestView) (body : ByteView) :
    (view.withBody body).headers = view.headers := rfl

@[simp] theorem HttpRequestView.withBody_body (view : HttpRequestView) (body : ByteView) :
    (view.withBody body).body = body := rfl

namespace HttpServer

structure ClientState where
  buffer : Bytes := []
  bufferOffset : Nat := 0
  clientAddress : Address := {}
  processing : Bool := false
  timerArmed : Bool := false

structure ParsedRequest where
  request : HttpRequest := {}
  consumedBytes : Nat := 0
  keepAlive : Bool := true
  immediateResponse : Option HttpResponse := none

def makeBufferedView (state : ClientState) : ByteView :=
  if state.buffer.length ≤ state.bufferOffset then .null
  else .whole (state.buffer.drop state.bufferOffset)

def compactClientBufferLocked (state : ClientState) : ClientState :=
  if state.bufferOffset = 0 then state
  else if state.buffer.length ≤ state.bufferOffset then { state with buffer := [], bufferOffset := 0 }
  else if state.bufferOffset < 4096 ∧ state.bufferOffset*2 < state.buffer.length then state
  else { state with buffer := state.buffer.drop state.bufferOffset, bufferOffset := 0 }

def equalsAsciiIgnoreCase (left right : Bytes) : Bool := left.map toLower = right.map toLower

def containsToken (value token : Bytes) : Bool :=
  (value.splitOn 44).any (fun candidate => equalsAsciiIgnoreCase (Text.trim isSpace candidate) token)

def methodNames : List (Bytes × HttpMethod) :=
  [(ascii "GET",.get),(ascii "POST",.post),(ascii "PUT",.put),(ascii "DELETE",.delete),
    (ascii "HEAD",.head),(ascii "OPTIONS",.options),(ascii "PATCH",.patch)]

def tryStringToMethod (method : Bytes) : Option HttpMethod :=
  (methodNames.find? (fun e => equalsAsciiIgnoreCase method e.1)).map Prod.snd

/-- A leading slash is added, all trailing ones but the last one left are removed. -/
def withSlashes (path : Bytes) : Bytes :=
  let path := if path.head? = some 47 then path else 47 :: path
  match path.rdropWhile (· = 47) with
  | [] => [47]
  | stripped => stripped

def normalizeRequestPath (path : Bytes) : Bytes :=
  if path = ascii "*" then ascii "*"
  else
    let path :=
      match find (ascii "://") path 0 with
      | none => path
      | some schemePos =>
        match find [47] path (schemePos+3) with
        | none => [47]
        | some pathPos => path.drop pathPos
    if path = [] then [47] else withSlashes path

def shouldKeepAlive (requestView : HttpRequestView) : Bool :=
  let http11 := requestView.version.text = ascii "HTTP/1.1"
  match requestView.headers.getHeader View.text (ascii "Connection") with
  | none => http11
  | some connection =>
    if containsToken connection.text (ascii "close") then false
    else if containsToken connection.text (ascii "keep-alive") then true
    else http11

def makeErrorResponse (statusCode : Int) (statusMessage body : Bytes) : HttpResponse :=
  { statusCode, statusMessage, body,
    headers := (∅ : ByteMap Bytes).insert (ascii "Content-Type") (ascii "text/plain; charset=utf-8") }

def makeErrorRequest (consumedBytes : Nat) (statusCode : Int) (statusMessage body : Bytes) :
    ParsedRequest where
  request := { path := ascii "/", body }
  consumedBytes
  keepAlive := false
  immediateResponse := some (makeErrorResponse statusCode statusMessage body)

def isChunked (view : HttpRequestView) : Bool :=
  (view.headers.getHeader View.text (ascii "Transfer-Encoding")).any
    (fun transferEncoding => containsToken transferEncoding.text (ascii "chunked"))

def buildRequest (view : HttpRequestView) (method : HttpMethod) (clientAddress : Address) :
    Outcome Exn HttpRequest :=
  let request : Bytes → HttpRequest := fun body =>
    { method, methodName := view.method.text, target := view.target.text,
      path := normalizeRequestPath view.uri.text, queryString := view.queryString.text,
      version := view.version.text, clientAddress,
      queryParams := view.queryParams.toList.foldl
        (fun m e => m.insert (urlDecode e.1) (urlDecode e.2)) ∅,
      headers := view.headers.toStrings View.text, body }
  if isChunked view then
    (parseChunked view.body.text).map fun
      | (true,decodedBody) => request decodedBody
      | (false,_) => request view.body.text
  else .ret (request view.body.text)

inductive Framing where
  | incomplete
  | malformed (body : Bytes)
  | total (totalBytes : Nat)
  deriving DecidableEq, Repr

def frameRequest (raw : ByteView) (headerBytes : Nat) (requestView : HttpRequestView) :
    Outcome Exn Framing :=
  if isChunked requestView then
    (getChunkedMessageSize (raw.text.drop headerBytes)).map fun
      | none => .incomplete
      | some 0 => .malformed (ascii "Malformed chunked body")
      | some chunkedSize => .total (sizeAdd headerBytes chunkedSize)
  else
    match requestView.headers.getHeader View.text (ascii "Content-Length") with
    | none => .ret (.total headerBytes)
    | some contentLength =>
      match stoull 10 contentLength.text with
      | .error _ => .ret (.malformed (ascii "Invalid Content-Length"))
      | .ok length => .ret (.total (sizeAdd headerBytes length))

def finishRequest (raw : ByteView) (headerBytes totalBytes : Nat) (requestView : HttpRequestView)
    (clientAddress : Address) : Outcome Exn (Option ParsedRequest) :=
  if raw.size < totalBytes then .ret none
  else
    let view := requestView.withBody (raw.sub headerBytes (sizeSub totalBytes headerBytes))
    match tryStringToMethod view.method.text with
    | none => .ret (some (makeErrorRequest totalBytes 501 (ascii "Not Implemented")
        (ascii "Unsupported HTTP method")))
    | some method =>
      (buildRequest view method clientAddress).map fun request =>
        some { request, consumedBytes := totalBytes, keepAlive := shouldKeepAlive view }

def tryExtractRequest (state : ClientState) : Outcome Exn (Option ParsedRequest) :=
  let raw := makeBufferedView state
  match find crlfcrlf raw.text 0 with
  | none => .ret none
  | some headerEnd =>
    let headerBytes := headerEnd+4
    match parseRequestHead (raw.sub 0 headerBytes) with
    | (false,_) => .ret (some (makeErrorRequest raw.size 400 (ascii "Bad Request")
        (ascii "Invalid HTTP request")))
    | (true,requestView) =>
      (frameRequest raw headerBytes requestView).bind fun
        | .incomplete => .ret none
        | .malformed body => .ret (some (makeErrorRequest raw.size 400 (ascii "Bad Request") body))
        | .total totalBytes => finishRequest raw headerBytes totalBytes requestView state.clientAddress

def unread (state : ClientState) : Bytes := state.buffer.drop state.bufferOffset

section

variable (state : ClientState)

theorem makeBufferedView_eq :
    makeBufferedView state = .whole (unread state) := by
  unfold makeBufferedView unread
  split
  · rename_i h
    rw [drop_eq_nil_of_le h]
    rfl
  · rfl

theorem makeBufferedView_text :
    (makeBufferedView state).text = unread state := by
  rw [makeBufferedView_eq,View.whole_text]

theorem makeBufferedView_size :
    (makeBufferedView state).size = (unread state).length := by
  rw [View.size,makeBufferedView_text]

theorem unread_compact :
    unread (compactClientBufferLocked state) = unread state := by
  unfold compactClientBufferLocked
  split
  · rfl
  · split
    · rename_i h
      simp [unread,drop_eq_nil_of_le h]
    · split
      · rfl
      · simp [unread]

theorem unread_length_le :
    (unread state).length ≤ state.buffer.length := by
  simp [unread]

end

def takeRequest (state : ClientState) (consumedBytes : Nat) : ClientState :=
  compactClientBufferLocked
    { state with bufferOffset := sizeAdd state.bufferOffset consumedBytes }

variable {state : ClientState} {headerBytes totalBytes n : Nat} {view : HttpRequestView} {raw : ByteView} {r : ParsedRequest}

theorem unread_takeRequest (hd : Addressable state.buffer) {n : Nat}
    (hn : n ≤ (unread state).length) (hne : unread state ≠ []) :
    unread (takeRequest state n) = (unread state).drop n := by
  have hpos := length_pos_iff.mpr hne
  unfold Addressable at hd
  simp only [unread,length_drop] at hn hpos
  have hadd : sizeAdd state.bufferOffset n = state.bufferOffset+n := sizeAdd_eq (by omega)
  rw [takeRequest,unread_compact]
  simp only [unread,hadd,drop_drop]

def frontHead (state : ClientState) : Option (Nat × HttpRequestView) :=
  match find crlfcrlf (makeBufferedView state).text 0 with
  | none => none
  | some headerEnd =>
    match parseRequestHead ((makeBufferedView state).sub 0 (headerEnd+4)) with
    | (false,_) => none
    | (true,requestView) => some (headerEnd+4,requestView)

section

variable (h : frontHead state = some (headerBytes,view))
include h

theorem frontHead_bounds :
    4 ≤ headerBytes ∧ headerBytes ≤ (unread state).length := by
  unfold frontHead at h
  split at h
  · cases h
  · rename_i headerEnd hf
    split at h
    · cases h
    · cases h
      rw [makeBufferedView_text] at hf
      have hb := find_bounds (by decide) hf
      simp only [crlfcrlf,length_cons,length_nil] at hb
      omega

theorem frontHead_framing :
    ∃ length encoding, FramingHeaders view.headers length encoding := by
  unfold frontHead at h
  split at h
  · cases h
  · split at h
    · cases h
    · rename_i hp
      cases h
      obtain ⟨_,_,-,-,hh⟩ := parseRequestHead_spec hp
      exact parseHeaderLines_framing hh

theorem tryExtractRequest_of_frontHead :
    tryExtractRequest state =
      (frameRequest (makeBufferedView state) headerBytes view).bind fun
        | .incomplete => .ret none
        | .malformed body => .ret (some (makeErrorRequest (makeBufferedView state).size 400
            (ascii "Bad Request") body))
        | .total totalBytes =>
          finishRequest (makeBufferedView state) headerBytes totalBytes view state.clientAddress := by
  unfold frontHead at h
  unfold tryExtractRequest
  split at h
  · cases h
  · rename_i headerEnd hf
    split at h
    · cases h
    · rename_i hp
      cases h
      simp only [hf,hp]

end

theorem tryExtractRequest_of_frontHead_none (h : frontHead state = none) : tryExtractRequest state = .ret none ∨
      unread state ≠ [] ∧ tryExtractRequest state = .ret (some (makeErrorRequest
        (makeBufferedView state).size 400 (ascii "Bad Request") (ascii "Invalid HTTP request"))) := by
  unfold frontHead at h
  unfold tryExtractRequest
  split at h
  · rename_i hf
    simp [hf]
  · rename_i headerEnd hf
    split at h
    · rename_i hp
      right
      simp only [hf,hp,and_true]
      rw [makeBufferedView_text] at hf
      have hb := find_bounds (by decide) hf
      intro hnil
      simp [hnil,crlfcrlf] at hb
    · cases h

theorem isChunked_header (h : isChunked view = true) :
    ∃ value, view.headers.getHeader View.text (ascii "Transfer-Encoding") = some value := by
  unfold isChunked at h
  cases hv : view.headers.getHeader View.text (ascii "Transfer-Encoding") with
  | none => simp [hv] at h
  | some value => exact ⟨value,rfl⟩

theorem frameRequest_total (hf : ∃ length encoding, FramingHeaders view.headers length encoding)
    (h : frameRequest raw headerBytes view = .ret (.total totalBytes)) :
    (isChunked view = true ∧ declaredLength view.headers = none ∧
      ∃ n, 0 < n ∧ getChunkedMessageSize (raw.text.drop headerBytes) = .ret (some n) ∧
        totalBytes = sizeAdd headerBytes n) ∨
    (isChunked view = false ∧ declaredLength view.headers = none ∧
      totalBytes = headerBytes) ∨
    (isChunked view = false ∧ ∃ n, declaredLength view.headers = some n ∧
      totalBytes = sizeAdd headerBytes n) := by
  obtain ⟨length,encoding,hf⟩ := hf
  unfold frameRequest at h
  cases hc : isChunked view with
  | true =>
    have hnone : declaredLength view.headers = none := by
      obtain ⟨value,hv⟩ := isChunked_header hc
      simp [declaredLength,hf.no_length hv]
    rw [hc,if_pos rfl,Outcome.map,Outcome.bind_eq_ret_iff] at h
    obtain ⟨size,hs,h⟩ := h
    refine .inl ⟨rfl,hnone,?_⟩
    rcases size with _ | _ | n
    · cases h
    · cases h
    · cases h
      exact ⟨n+1,by omega,hs,rfl⟩
  | false =>
    rw [hc,if_neg (by simp)] at h
    cases hv : view.headers.getHeader View.text (ascii "Content-Length") with
    | none =>
      simp only [hv] at h
      cases h
      exact .inr (.inl ⟨rfl,by simp [declaredLength,hv],rfl⟩)
    | some value =>
      obtain ⟨-,n,hn,hs⟩ := hf.declared hv
      simp only [hv,hs] at h
      cases h
      exact .inr (.inr ⟨rfl,n,hn,rfl⟩)

theorem frameRequest_of_declared
    (hf : ∃ length encoding, FramingHeaders view.headers length encoding)
    (hn : declaredLength view.headers = some n) :
    isChunked view = false ∧
      frameRequest raw headerBytes view = .ret (.total (sizeAdd headerBytes n)) := by
  obtain ⟨length,encoding,hf⟩ := hf
  have hc : isChunked view = false := by
    cases hc : isChunked view with
    | false => rfl
    | true =>
      obtain ⟨value,hv⟩ := isChunked_header hc
      simp [declaredLength,hf.no_length hv] at hn
  refine ⟨hc,?_⟩
  cases hv : view.headers.getHeader View.text (ascii "Content-Length") with
  | none => simp [declaredLength,hv] at hn
  | some value =>
    obtain ⟨-,n',hn',hs⟩ := hf.declared hv
    rw [hn] at hn'
    cases hn'
    simp [frameRequest,hc,hv,hs]

theorem buildRequest_of_not_chunked (h : isChunked view = false)
    (method : HttpMethod) (clientAddress : Address) :
    ∃ request, buildRequest view method clientAddress = .ret request ∧
      request.body = view.body.text := by
  simp [buildRequest,h]

theorem finishRequest_some {clientAddress : Address}
    (h : finishRequest raw headerBytes totalBytes view clientAddress = .ret (some r)) :
    r.consumedBytes = totalBytes ∧ totalBytes ≤ raw.size ∧
      (r.immediateResponse = none →
        ∃ method, tryStringToMethod view.method.text = some method ∧
          buildRequest (view.withBody (raw.sub headerBytes (sizeSub totalBytes headerBytes)))
            method clientAddress = .ret r.request) := by
  simp only [finishRequest,HttpRequestView.withBody_method] at h
  split at h
  · cases h
  · rename_i hle
    refine ⟨?_,by omega,?_⟩
    · split at h
      · cases h
        rfl
      · rw [Outcome.map,Outcome.bind_eq_ret_iff] at h
        obtain ⟨request,-,h⟩ := h
        cases h
        rfl
    · intro hi
      split at h
      · cases h
        cases hi
      · rename_i method hm
        rw [Outcome.map,Outcome.bind_eq_ret_iff] at h
        obtain ⟨request,hb,h⟩ := h
        cases h
        exact ⟨method,hm,hb⟩

theorem buildRequest_fields {method : HttpMethod} {address : Address}
    {request : HttpRequest} (h : buildRequest view method address = .ret request) :
    request.method = method ∧ request.path = normalizeRequestPath view.uri.text ∧
      request.queryString = view.queryString.text ∧
      request.queryParams = view.queryParams.toList.foldl
        (fun m e => m.insert (urlDecode e.1) (urlDecode e.2)) ∅ := by
  unfold buildRequest at h
  simp only at h
  split at h
  · rw [Loop.Outcome.map,Loop.Outcome.bind_eq_ret_iff] at h
    obtain ⟨⟨accepted,body⟩,-,hbuilt⟩ := h
    cases accepted with
    | true =>
      cases hbuilt
      exact ⟨rfl,rfl,rfl,rfl⟩
    | false =>
      cases hbuilt
      exact ⟨rfl,rfl,rfl,rfl⟩
  · cases h
    exact ⟨rfl,rfl,rfl,rfl⟩

theorem tryExtractRequest_some (h : tryExtractRequest state = .ret (some r)) : unread state ≠ [] ∧
      ((r.consumedBytes = (unread state).length ∧ r.keepAlive = false ∧
        r.immediateResponse ≠ none) ∨
      ∃ headerBytes view totalBytes, frontHead state = some (headerBytes,view) ∧
        frameRequest (makeBufferedView state) headerBytes view = .ret (.total totalBytes) ∧
        finishRequest (makeBufferedView state) headerBytes totalBytes view state.clientAddress =
          .ret (some r)) := by
  cases hf : frontHead state with
  | none =>
    rcases tryExtractRequest_of_frontHead_none hf with h' | ⟨hne,h'⟩
    · rw [h'] at h
      cases h
    · rw [h'] at h
      cases h
      exact ⟨hne,.inl ⟨makeBufferedView_size state,rfl,by simp [makeErrorRequest]⟩⟩
  | some head =>
    obtain ⟨headerBytes,view⟩ := head
    have hb := frontHead_bounds hf
    have hne : unread state ≠ [] := ne_nil_of_length_pos (by omega)
    rw [tryExtractRequest_of_frontHead hf,Outcome.bind_eq_ret_iff] at h
    obtain ⟨framing,hfr,h⟩ := h
    refine ⟨hne,?_⟩
    cases framing with
    | incomplete => cases h
    | malformed body =>
      cases h
      exact .inl ⟨makeBufferedView_size state,rfl,by simp [makeErrorRequest]⟩
    | total totalBytes => exact .inr ⟨headerBytes,view,totalBytes,rfl,hfr,h⟩

structure TakenWithin (state : ClientState) (r : ParsedRequest) : Prop where
  pos : 1 ≤ r.consumedBytes
  le : r.consumedBytes ≤ (unread state).length
  body : ∀ headerBytes view n, frontHead state = some (headerBytes,view) →
    declaredLength view.headers = some n → r.immediateResponse = none →
    r.request.body = ((unread state).drop headerBytes).take n ∧ r.request.body.length = n
  rest : unread (takeRequest state r.consumedBytes) = (unread state).drop r.consumedBytes
  shrinks : (unread (takeRequest state r.consumedBytes)).length < (unread state).length

/-- The sum of the head's size and the declared length wraps around, and the outcome
shows it: the method is supported, or nothing at all is left of the sum. -/
def LengthWraps (state : ClientState) : Prop :=
  ∃ headerBytes view n, frontHead state = some (headerBytes,view) ∧
    declaredLength view.headers = some n ∧ 2^64 ≤ headerBytes+n ∧
    ((tryStringToMethod view.method.text).isSome = true ∨ headerBytes+n = 2^64)

theorem declaredLength_lt {headers : ViewMap} (h : declaredLength headers = some n) : n < 2^64 := by
  unfold declaredLength at h
  obtain ⟨value,-,hn⟩ := Option.bind_eq_some_iff.mp h
  obtain ⟨-,-,-,-,hle⟩ := parseUnsignedDecimal_eq_some_iff.mp hn
  unfold sizeMax at hle
  omega

theorem addressable_unread (hd : Addressable state.buffer) : Addressable (unread state) := by
  have := unread_length_le state
  unfold Addressable at *
  omega

theorem getChunkedMessageSize_le {data : Bytes} (hd : Addressable data) {n : Nat} (hn : 0 < n)
    (h : getChunkedMessageSize data = .ret (some n)) : n ≤ data.length := by
  obtain ⟨_,start,-,-,hm,rfl⟩ := (getChunkedMessageSize_iff hd hn).mp h
  exact Chunked.crlf_bound hm

theorem totalBytes_bounds (hd : Addressable state.buffer)
    {headerBytes totalBytes : Nat} {view : HttpRequestView}
    (hfront : frontHead state = some (headerBytes,view))
    (hframe : frameRequest (makeBufferedView state) headerBytes view = .ret (.total totalBytes)) :
    headerBytes ≤ totalBytes ∧
        (∀ n, declaredLength view.headers = some n → totalBytes = headerBytes+n) ∨
      ∃ n, declaredLength view.headers = some n ∧ 2^64 ≤ headerBytes+n ∧
        totalBytes = headerBytes+n-2^64 := by
  have hb := frontHead_bounds hfront
  have hd' := addressable_unread hd
  rcases frameRequest_total (frontHead_framing hfront) hframe with
    ⟨-,hnone,n,hpos,hs,rfl⟩ | ⟨-,hnone,rfl⟩ | ⟨-,n,hn,rfl⟩
  · rw [makeBufferedView_text] at hs
    have hle := getChunkedMessageSize_le
      (show Addressable ((unread state).drop headerBytes) by
        unfold Addressable at *
        simp only [length_drop]
        omega) hpos hs
    simp only [length_drop] at hle
    unfold Addressable at hd'
    left
    rw [sizeAdd_eq (by omega)]
    exact ⟨by omega,by simp [hnone]⟩
  · exact .inl ⟨Nat.le_refl _,by simp [hnone]⟩
  · have hlt := declaredLength_lt hn
    unfold Addressable at hd'
    rcases Nat.lt_or_ge (headerBytes+n) (2^64) with h | h
    · left
      rw [sizeAdd_eq h]
      refine ⟨by omega,fun n' hn' => ?_⟩
      rw [hn] at hn'
      cases hn'
      rfl
    · refine .inr ⟨n,hn,h,?_⟩
      unfold sizeAdd
      omega

theorem finishRequest_body (hc : isChunked view = false)
    (h : finishRequest (makeBufferedView state) headerBytes totalBytes view state.clientAddress =
      .ret (some r)) (hi : r.immediateResponse = none) :
    r.request.body = ((unread state).drop headerBytes).take (sizeSub totalBytes headerBytes) := by
  obtain ⟨-,-,hbuild⟩ := finishRequest_some h
  obtain ⟨method,-,hreq⟩ := hbuild hi
  obtain ⟨request,hreq',hbody⟩ := buildRequest_of_not_chunked
    (show isChunked (view.withBody ((makeBufferedView state).sub headerBytes
      (sizeSub totalBytes headerBytes))) = false from hc) method state.clientAddress
  rw [hreq] at hreq'
  cases hreq'
  rw [hbody,HttpRequestView.withBody_body,View.sub_text,makeBufferedView_text]

theorem takenWithin_of_consumed (hd : Addressable state.buffer)
    {r : ParsedRequest} (hpos : 1 ≤ r.consumedBytes) (hle : r.consumedBytes ≤ (unread state).length)
    (hbody : ∀ headerBytes view n, frontHead state = some (headerBytes,view) →
      declaredLength view.headers = some n → r.immediateResponse = none →
      r.request.body = ((unread state).drop headerBytes).take n ∧ r.request.body.length = n) :
    TakenWithin state r := by
  have hne : unread state ≠ [] := ne_nil_of_length_pos (by omega)
  have hrest := unread_takeRequest hd hle hne
  refine ⟨hpos,hle,hbody,hrest,?_⟩
  rw [hrest,length_drop]
  omega

theorem takenWithin_of_not_wraps (hd : Addressable state.buffer)
    (hwrap : ¬ LengthWraps state) {r : ParsedRequest}
    (h : tryExtractRequest state = .ret (some r)) : TakenWithin state r := by
  obtain ⟨hne,hr⟩ := tryExtractRequest_some h
  have hlen := length_pos_iff.mpr hne
  rcases hr with ⟨hcons,-,hi⟩ | ⟨headerBytes,view,totalBytes,hfront,hframe,hfin⟩
  · exact takenWithin_of_consumed hd (by omega) (by omega) (fun _ _ _ _ _ h => absurd h hi)
  have hb := frontHead_bounds hfront
  obtain ⟨hcons,hle,hbuild⟩ := finishRequest_some hfin
  rw [makeBufferedView_size] at hle
  have hd' := addressable_unread hd
  unfold Addressable at hd'
  rcases totalBytes_bounds hd hfront hframe with ⟨hge,hexact⟩ | ⟨n,hn,hge,htotal⟩
  · refine takenWithin_of_consumed hd (by omega) (by omega) ?_
    intro headerBytes' view' n hfront' hn hi
    rw [hfront] at hfront'
    cases hfront'
    have htotal := hexact n hn
    have hsub : sizeSub totalBytes headerBytes = n := by
      have hlt := declaredLength_lt hn
      unfold sizeSub
      omega
    have hc := (@frameRequest_of_declared headerBytes _ _ (makeBufferedView state)
      (frontHead_framing hfront) hn).1
    have hbody := finishRequest_body hc hfin hi
    rw [hsub] at hbody
    refine ⟨hbody,?_⟩
    rw [hbody,length_take,length_drop]
    omega
  · have hmet : tryStringToMethod view.method.text = none := by
      by_contra hm
      exact hwrap ⟨headerBytes,view,n,hfront,hn,hge,
        .inl (Option.isSome_iff_ne_none.mpr hm)⟩
    have hne' : headerBytes+n ≠ 2^64 :=
      fun heq => hwrap ⟨headerBytes,view,n,hfront,hn,hge,.inr heq⟩
    refine takenWithin_of_consumed hd (by omega) (by omega) (fun _ _ _ _ _ hi => ?_)
    obtain ⟨method,hm,-⟩ := hbuild hi
    rw [hmet] at hm
    cases hm

theorem exists_request_of_wraps (hd : Addressable state.buffer) (hwrap : LengthWraps state) :
    ∃ r, tryExtractRequest state = .ret (some r) ∧ ¬ TakenWithin state r := by
  obtain ⟨headerBytes,view,n,hfront,hn,hge,hshow⟩ := hwrap
  have hb := frontHead_bounds hfront
  have hlt := declaredLength_lt hn
  have hd' := addressable_unread hd
  unfold Addressable at hd'
  obtain ⟨hc,hframe⟩ := @frameRequest_of_declared headerBytes _ _ (makeBufferedView state)
    (frontHead_framing hfront) hn
  obtain ⟨total,htotal⟩ : ∃ total, total = sizeAdd headerBytes n := ⟨_,rfl⟩
  have hsum : total+2^64 = headerBytes+n := by
    rw [htotal]
    unfold sizeAdd
    omega
  rw [tryExtractRequest_of_frontHead hfront,hframe,← htotal]
  have hshort : ¬ (makeBufferedView state).size < total := by
    rw [makeBufferedView_size]
    omega
  simp only [Outcome.bind_ret,finishRequest,hshort,if_false,HttpRequestView.withBody_method]
  cases hm : tryStringToMethod view.method.text with
  | none =>
    refine ⟨_,rfl,fun h => ?_⟩
    have hpos : 1 ≤ total := h.pos
    rcases hshow with hs | hs
    · simp [hm] at hs
    · omega
  | some method =>
    obtain ⟨request,hreq,hbody⟩ := buildRequest_of_not_chunked
      (show isChunked (view.withBody ((makeBufferedView state).sub headerBytes
        (sizeSub total headerBytes))) = false from hc) method state.clientAddress
    simp only [hreq,Outcome.map,Outcome.bind_ret]
    refine ⟨_,rfl,fun h => ?_⟩
    obtain ⟨hbody',hlen⟩ := h.body headerBytes view n hfront hn rfl
    rw [hbody',length_take,length_drop] at hlen
    omega

/-- A returned request lies within the unread bytes, with the body that its head
declares, exactly when the declared length does not wrap around. -/
theorem extracted_request_within_iff (state : ClientState) (hd : Addressable state.buffer) :
    (∀ r, tryExtractRequest state = .ret (some r) → TakenWithin state r) ↔ ¬ LengthWraps state := by
  constructor
  · intro h hwrap
    obtain ⟨r,hr,hbad⟩ := exists_request_of_wraps hd hwrap
    exact hbad (h r hr)
  · exact fun hwrap r hr => takenWithin_of_not_wraps hd hwrap hr

theorem extracted_request_within_post :
    let state : ClientState := { buffer := ascii "POST / HTTP/1.1\r\nContent-Length: 2\r\n\r\nhi" }
    (∀ r, tryExtractRequest state = .ret (some r) → TakenWithin state r) ↔ ¬ LengthWraps state :=
  extracted_request_within_iff _ (by decide)

/-- A declared length of 2^64-56 after a head of 56 bytes: nothing is consumed, and the
loop is back where it was. -/
theorem extracted_request_consumes_nothing :
    let state : ClientState :=
      { buffer := ascii "GET / HTTP/1.1\r\nContent-Length: 18446744073709551560\r\n\r\n" }
    ∃ r, tryExtractRequest state = .ret (some r) ∧ r.immediateResponse.isNone = true ∧
      r.keepAlive = true ∧ r.consumedBytes = 0 ∧ takeRequest state r.consumedBytes = state ∧
      ¬ TakenWithin state r := by
  intro state
  have hrun : (tryExtractRequest state).map
      (Option.map fun r => (r.immediateResponse.isNone,r.keepAlive,r.consumedBytes)) =
        .ret (some (true,true,0)) := by decide +kernel
  rw [Outcome.map,Outcome.bind_eq_ret_iff] at hrun
  obtain ⟨result,hr,hrun⟩ := hrun
  cases result with
  | none => cases hrun
  | some r =>
    simp only [Option.map_some,Outcome.ret.injEq,Option.some.injEq,Prod.mk.injEq] at hrun
    obtain ⟨hi,hk,hz⟩ := hrun
    refine ⟨r,hr,hi,hk,hz,?_,fun h => ?_⟩
    · rw [hz]
      rfl
    · have := h.pos
      omega

end HttpServer

end FastNet
