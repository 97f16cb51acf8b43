import FastNet.RequestExtraction

/-!
How `HttpClient` takes responses off the bytes that a server has sent. A response is
first described by views into the buffer; the buffer is then moved, and only after
that are the views read.
-/

namespace FastNet

open Text Numeral Loop HttpParser

/-- `responseView.body = body`. -/
def HttpResponseView.withBody (view : HttpResponseView) (body : ByteView) : HttpResponseView :=
  { view with body }

namespace HttpClient

def containsHeaderTokenCaseInsensitive (headerValue token : Bytes) : Bool :=
  (headerValue.splitOn 44).any (fun current => caseInsensitiveCompare (HttpParser.trim current) token)

def isInterimResponseStatus (statusCode : Int) : Bool :=
  100 ≤ statusCode && statusCode < 200 && statusCode ≠ 101

def hasNoBody (method : Bytes) (statusCode : Int) : Bool :=
  caseInsensitiveCompare method (ascii "HEAD") || (100 ≤ statusCode && statusCode < 200) ||
    statusCode = 204 || statusCode = 304

/-- Whether a response is chunked; `rd` gives the bytes a view reads at the time. -/
def isChunked (rd : ByteView → Bytes) (headers : ViewMap) : Bool :=
  (headers.getHeader rd (ascii "Transfer-Encoding")).any
    (fun value => containsHeaderTokenCaseInsensitive (rd value) (ascii "chunked"))

/-- `HttpClient::Impl::tryExtractResponseViewFromRaw`: the view of a response and the
number of bytes that it takes, or nothing as yet. -/
def tryExtractResponseViewFromRaw (method : Bytes) (raw : ByteView) (connectionClosed : Bool) :
    Outcome Exn (Option (HttpResponseView × Nat)) :=
  match parseResponseHead raw with
  | (false,_) => .ret none
  | (true,responseView) =>
    match find crlfcrlf raw.text 0 with
    | none => .ret none
    | some headerEnd =>
      let headerBytes := headerEnd+4
      if hasNoBody method responseView.statusCode then
        .ret (some (responseView.withBody .null,headerBytes))
      else
        match responseView.headers.getHeader View.text (ascii "Content-Length") with
        | some contentLength =>
          match stoull 10 contentLength.text with
          | .error _ => .ret none
          | .ok length =>
            if raw.size < sizeAdd headerBytes length then .ret none
            else .ret (some (responseView.withBody (raw.sub headerBytes length),
              sizeAdd headerBytes length))
        | none =>
          if isChunked View.text responseView.headers then
            (getChunkedMessageSize (raw.text.drop headerBytes)).map fun
              | none => none
              | some 0 => none
              | some chunkedBytes => some (responseView.withBody (raw.sub headerBytes chunkedBytes),
                  sizeAdd headerBytes chunkedBytes)
          else if !connectionClosed then .ret none
          else .ret (some (responseView.withBody (raw.suffix headerBytes),raw.size))

/-- The body that `buildResponse` gives a response. -/
def decodeBody (rd : ByteView → Bytes) (responseView : HttpResponseView) : Outcome Exn Bytes :=
  if isChunked rd responseView.headers then
    (parseChunked (rd responseView.body)).map fun
      | (true,decodedBody) => decodedBody
      | (false,_) => rd responseView.body
  else .ret (rd responseView.body)

/-- `HttpClient::Impl::buildResponse`, at a time at which views read as `rd` says. -/
def buildResponse (rd : ByteView → Bytes) (responseView : HttpResponseView) :
    Outcome Exn HttpResponse :=
  (decodeBody rd responseView).map fun body =>
    { statusCode := responseView.statusCode, statusMessage := rd responseView.statusMessage,
      headers := responseView.headers.toStrings rd, body }

def eraseResponseBufferPrefix (buffer : Bytes) (bytes : Nat) : Bytes :=
  if buffer.length ≤ bytes then [] else buffer.drop bytes

/-- What the storage of the buffer holds when a prefix has been erased: the bytes that
are left stand at the front, and behind them the bytes that stood there before. A
buffer that is cleared keeps all of its bytes in storage. -/
def storageAfterErase (buffer : Bytes) (bytes : Nat) : Bytes :=
  if buffer.length ≤ bytes then buffer else buffer.drop bytes ++ buffer.drop (buffer.length-bytes)

/-- The loop of `tryConsumeBufferedResponse`, for at most `fuel` responses. -/
def consumeLoop (method : Bytes) (connectionClosed : Bool) :
    Nat → Bytes → Outcome Exn (Option HttpResponse × Bytes)
  | 0, _ => .hang
  | fuel+1, buffer =>
    (tryExtractResponseViewFromRaw method (.whole buffer) connectionClosed).bind fun
      | none => .ret (none,buffer)
      | some (responseView,consumedBytes) =>
        let rest := eraseResponseBufferPrefix buffer consumedBytes
        if isInterimResponseStatus responseView.statusCode then
          consumeLoop method connectionClosed fuel rest
        else
          (buildResponse (View.read (storageAfterErase buffer consumedBytes)) responseView).map
            fun response => (some response,rest)

/-- `HttpClient::Impl::tryConsumeBufferedResponse`: the response, if there is one, and
the buffer that is left. Every interim response takes bytes off the buffer, so that a
turn for every byte is enough. -/
def tryConsumeBufferedResponse (method : Bytes) (connectionClosed : Bool) (buffer : Bytes) :
    Outcome Exn (Option HttpResponse × Bytes) :=
  consumeLoop method connectionClosed (buffer.length+1) buffer

variable {raw : ByteView} {method : Bytes}

theorem parseResponseHead_framing {view : HttpResponseView} (h : parseResponseHead raw = (true,view)) :
    ∃ length encoding, FramingHeaders view.headers length encoding := by
  obtain ⟨_,_,_,-,-,-,hh⟩ := parseResponseHead_spec h
  exact parseHeaderLines_framing hh

inductive BodyFraming where
  | empty
  | length (n : Nat)
  | chunked
  | untilClose
  deriving DecidableEq, Repr

def bodyFraming (method : Bytes) (responseView : HttpResponseView) : BodyFraming :=
  if hasNoBody method responseView.statusCode then .empty
  else
    match declaredLength responseView.headers with
    | some n => .length n
    | none => if isChunked View.text responseView.headers then .chunked else .untilClose

/-- The body and the size of a response whose head ends at `headerBytes`. -/
def frameResponse (raw : ByteView) (headerBytes : Nat) (connectionClosed : Bool) :
    BodyFraming → Outcome Exn (Option (ByteView × Nat))
  | .empty => .ret (some (.null,headerBytes))
  | .length n =>
    .ret (if raw.size < sizeAdd headerBytes n then none
      else some (raw.sub headerBytes n,sizeAdd headerBytes n))
  | .chunked => (getChunkedMessageSize (raw.text.drop headerBytes)).map fun
      | none => none
      | some 0 => none
      | some n => some (raw.sub headerBytes n,sizeAdd headerBytes n)
  | .untilClose => .ret (if connectionClosed then some (raw.suffix headerBytes,raw.size) else none)

/-- An accepted head and the framing of its body say all about the extraction: a content
length that has passed the checks on the head can be read. -/
theorem tryExtract_eq (connectionClosed : Bool)
    {view : HttpResponseView} {headerEnd : Nat} (hp : parseResponseHead raw = (true,view))
    (he : find crlfcrlf raw.text 0 = some headerEnd) :
    tryExtractResponseViewFromRaw method raw connectionClosed =
      (frameResponse raw (headerEnd+4) connectionClosed (bodyFraming method view)).map
        (fun found => found.map (fun e => (view.withBody e.1,e.2))) := by
  obtain ⟨length,encoding,hf⟩ := parseResponseHead_framing hp
  simp only [tryExtractResponseViewFromRaw,bodyFraming,hp,he]
  cases hb : hasNoBody method view.statusCode with
  | true => rfl
  | false =>
    simp only [Bool.false_eq_true,if_false]
    cases hv : view.headers.getHeader View.text (ascii "Content-Length") with
    | some value =>
      obtain ⟨-,n,hn,hs⟩ := hf.declared hv
      simp only [hs,hn,frameResponse,Outcome.map,Outcome.bind_ret]
      split
      · rfl
      · rfl
    | none =>
      have hn : declaredLength view.headers = none := by simp [declaredLength,hv]
      simp only [hn]
      cases hc : isChunked View.text view.headers with
      | true =>
        simp only [if_true,frameResponse]
        cases getChunkedMessageSize (raw.text.drop (headerEnd+4)) with
        | ret size => rcases size with _ | _ | n <;> rfl
        | threw e => rfl
        | hang => rfl
      | false => cases connectionClosed <;> rfl

theorem tryExtract_of_no_head {connectionClosed : Bool} (h : find crlfcrlf raw.text 0 = none) :
    tryExtractResponseViewFromRaw method raw connectionClosed = .ret none := by
  have hp : parseResponseHead raw = (false,.cleared) := by
    have hs : splitHead kMaxStatusLineSize raw = none := by
      unfold splitHead
      rw [h]
      split
      · rfl
      · rfl
    simp [parseResponseHead,hs]
  simp [tryExtractResponseViewFromRaw,hp]

end HttpClient

end FastNet
