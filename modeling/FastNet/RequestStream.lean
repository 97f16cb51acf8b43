import FastNet.ServerConnection
import FastNet.Reader

/-!
The stream of bytes that a client sends, and the requests in it, however it is cut into calls.
-/

namespace FastNet.HttpServer

open Text Numeral Loop Chunked Reader Machine List

def headAt (raw : Bytes) : Option (Nat × HttpRequestView) := frontHead { buffer := raw }

def extract (address : Address) (raw : Bytes) : Outcome Exn (Option ParsedRequest) :=
  tryExtractRequest { buffer := raw, clientAddress := address }

def dispatchedOf (parsedRequest : ParsedRequest) : List HttpRequest :=
  if parsedRequest.immediateResponse.isSome then [] else [parsedRequest.request]

/-- The move of a reader at a request. One that ends the connection leaves the reader
closed, and nothing is read any more. -/
def moveOf (r : ParsedRequest) : Move Bool HttpRequest :=
  if r.keepAlive then ⟨false,dispatchedOf r,r.consumedBytes⟩ else ⟨true,dispatchedOf r,0⟩

def nextRequest (address : Address) : Bool → Bytes → Option (Move Bool HttpRequest)
  | true, _ => none
  | false, raw =>
    match extract address raw with
    | .ret (some r) => some (moveOf r)
    | _ => none

/-- No size that the request at the front declares makes a sum wrap around. -/
structure SizesFit (raw : Bytes) : Prop where
  addressable : Addressable raw
  length : ∀ headerBytes view n, headAt raw = some (headerBytes,view) →
    HttpParser.declaredLength view.headers = some n → headerBytes+n < 2^64
  chunks : ∀ headerBytes view, headAt raw = some (headerBytes,view) → isChunked view = true →
    Clear looseSize (fun start size => 2^64 ≤ start+size+2) (raw.drop headerBytes)

def Fits (closed : Bool) (raw : Bytes) : Prop := closed = false → SizesFit raw

theorem frontHead_eq (state : ClientState) : frontHead state = headAt (unread state) := by
  simp only [headAt,frontHead,makeBufferedView_eq]
  rfl

theorem tryExtractRequest_eq (state : ClientState) :
    tryExtractRequest state = extract state.clientAddress (unread state) := by
  simp only [extract,tryExtractRequest,makeBufferedView_eq]
  rfl

section Prefixes

variable {raw rest : Bytes} {headerBytes : Nat} {view : HttpRequestView}

theorem head_append {headerEnd : Nat} (hf : find crlfcrlf raw 0 = some headerEnd) (rest : Bytes) :
    find crlfcrlf (raw ++ rest) 0 = some headerEnd ∧
      (View.whole (raw ++ rest)).sub 0 (headerEnd+4) = (View.whole raw).sub 0 (headerEnd+4) := by
  have hb := find_bounds (by decide) hf
  simp only [crlfcrlf,length_cons,length_nil] at hb
  exact ⟨find_append (by decide) hf rest,View.whole_sub_append raw rest (by omega)⟩

theorem SizesFit.of_bare (hd : Addressable raw)
    (h : ∀ headerBytes view, headAt raw = some (headerBytes,view) →
      HttpParser.declaredLength view.headers = none ∧ isChunked view = false) : SizesFit raw := by
  refine ⟨hd,fun headerBytes view n hh hn => ?_,fun headerBytes view hh hc => ?_⟩
  · rw [(h headerBytes view hh).1] at hn
    cases hn
  · rw [(h headerBytes view hh).2] at hc
    cases hc

theorem headAt_append (h : headAt raw = some (headerBytes,view)) (rest : Bytes) :
    headAt (raw ++ rest) = some (headerBytes,view) := by
  simp only [headAt,frontHead,makeBufferedView_eq,View.whole_text,unread,drop_zero] at h ⊢
  cases hf : find crlfcrlf raw 0 with
  | none => simp [hf] at h
  | some headerEnd =>
    obtain ⟨hf',hsub⟩ := head_append hf rest
    simp only [hf,hf',hsub] at h ⊢
    exact h

theorem headAt_le (h : headAt raw = some (headerBytes,view)) : headerBytes ≤ raw.length :=
  (frontHead_bounds h).2

theorem SizesFit.of_append (h : SizesFit (raw ++ rest)) : SizesFit raw := by
  refine ⟨?_,fun hb view n hh => h.length hb view n (headAt_append hh rest),?_⟩
  · exact h.addressable.of_length_le (by simp)
  · intro headerBytes view hh hc offset start size hb hline
    have hclear := h.chunks headerBytes view (headAt_append hh rest) hc
    rw [drop_append_of_le_length (headAt_le hh)] at hclear
    exact hclear offset start size (hb.append rest) (hline.append rest)

theorem frameRequest_append (hd : Addressable raw) (hle : headerBytes ≤ raw.length)
    {framing : Framing} (hne : framing ≠ .incomplete)
    (h : frameRequest (.whole raw) headerBytes view = .ret framing) (rest : Bytes) :
    frameRequest (.whole (raw ++ rest)) headerBytes view = .ret framing := by
  unfold frameRequest at h ⊢
  cases hc : isChunked view with
  | false => simpa [hc] using h
  | true =>
    simp only [hc,if_true,Outcome.map,Outcome.bind_eq_ret_iff,View.whole_text] at h ⊢
    obtain ⟨size,hs,h⟩ := h
    refine ⟨size,?_,h⟩
    cases size with
    | none =>
      cases h
      exact absurd rfl hne
    | some n =>
      rw [drop_append_of_le_length hle]
      exact getChunkedMessageSize_append (hd.drop headerBytes) hs rest

theorem finishRequest_append (hd : Addressable raw) {totalBytes : Nat} (hle : headerBytes ≤ totalBytes)
    {address : Address} {r : ParsedRequest}
    (h : finishRequest (.whole raw) headerBytes totalBytes view address = .ret (some r))
    (rest : Bytes) :
    finishRequest (.whole (raw ++ rest)) headerBytes totalBytes view address = .ret (some r) := by
  have htotal : totalBytes ≤ raw.length := (finishRequest_some h).2.1
  unfold Addressable at hd
  have hsub : sizeSub totalBytes headerBytes = totalBytes-headerBytes := by
    unfold sizeSub
    omega
  unfold finishRequest at h ⊢
  rw [if_neg (by simp only [View.size,View.whole_text]; omega),hsub] at h
  rw [if_neg (by simp only [View.size,View.whole_text,length_append]; omega),hsub,
    View.whole_sub_append raw rest (by omega)]
  exact h

end Prefixes

section Extraction

variable {raw rest : Bytes} {headerBytes : Nat} {view : HttpRequestView} {address : Address}
  {r : ParsedRequest}

def answerFraming (raw : Bytes) (headerBytes : Nat) (view : HttpRequestView) (address : Address) :
    Framing → Outcome Exn (Option ParsedRequest)
  | .incomplete => .ret none
  | .malformed body => .ret (some (makeErrorRequest raw.length 400 (ascii "Bad Request") body))
  | .total totalBytes => finishRequest (.whole raw) headerBytes totalBytes view address

theorem extract_of_headAt (h : headAt raw = some (headerBytes,view)) :
    extract address raw =
      (frameRequest (.whole raw) headerBytes view).bind (answerFraming raw headerBytes view address) := by
  have hfront : frontHead { buffer := raw, clientAddress := address } = some (headerBytes,view) := by
    rw [frontHead_eq]
    exact h
  rw [extract,tryExtractRequest_of_frontHead hfront,makeBufferedView_eq]
  rfl

theorem extract_of_headAt_none (h : headAt raw = none) :
    extract address raw = .ret none ∨
      ∀ rest, extract address (raw ++ rest) = .ret (some (makeErrorRequest (raw ++ rest).length 400
        (ascii "Bad Request") (ascii "Invalid HTTP request"))) := by
  simp only [headAt,frontHead,extract,tryExtractRequest,makeBufferedView_eq,View.whole_text,unread,drop_zero] at h ⊢
  cases hf : find crlfcrlf raw 0 with
  | none => simp
  | some headerEnd =>
    right
    intro rest
    obtain ⟨hf',hsub⟩ := head_append hf rest
    simp only [hf,hf',hsub] at h ⊢
    split at h
    · rfl
    · cases h

theorem SizesFit.not_wraps (h : SizesFit raw) :
    ¬ LengthWraps { buffer := raw, clientAddress := address } := by
  rintro ⟨headerBytes,view,n,hf,hn,hge,-⟩
  rw [frontHead_eq] at hf
  have := h.length headerBytes view n hf hn
  omega

theorem SizesFit.consumed (h : SizesFit raw) (hr : extract address raw = .ret (some r)) :
    1 ≤ r.consumedBytes ∧ r.consumedBytes ≤ raw.length := by
  have ht := @takenWithin_of_not_wraps { buffer := raw, clientAddress := address } h.addressable
    h.not_wraps _ hr
  exact ⟨ht.pos,ht.le⟩

theorem SizesFit.total (h : SizesFit raw) (hh : headAt raw = some (headerBytes,view))
    {totalBytes : Nat} (hframe : frameRequest (.whole raw) headerBytes view = .ret (.total totalBytes)) :
    headerBytes ≤ totalBytes := by
  rw [show View.whole raw = makeBufferedView { buffer := raw } by rw [makeBufferedView_eq]; rfl]
    at hframe
  rcases @totalBytes_bounds { buffer := raw } h.addressable _ _ _ hh hframe with
    ⟨hle,-⟩ | ⟨n,hn,hge,-⟩
  · exact hle
  · have := h.length headerBytes view n hh hn
    omega

theorem extract_append (h : SizesFit (raw ++ rest)) (hr : extract address raw = .ret (some r)) :
    ∃ r', extract address (raw ++ rest) = .ret (some r') ∧ r'.keepAlive = r.keepAlive ∧
      dispatchedOf r' = dispatchedOf r ∧
      (r.keepAlive = true → r'.consumedBytes = r.consumedBytes) := by
  have hraw := h.of_append
  cases hh : headAt raw with
  | none =>
    rcases @extract_of_headAt_none raw address hh with hnone | href
    · rw [hnone] at hr
      cases hr
    · have hraw := href []
      rw [append_nil,hr] at hraw
      cases hraw
      exact ⟨_,href rest,rfl,rfl,by simp [makeErrorRequest]⟩
  | some head =>
    obtain ⟨headerBytes,view⟩ := head
    rw [extract_of_headAt hh,Outcome.bind_eq_ret_iff] at hr
    obtain ⟨framing,hframe,hr⟩ := hr
    have hne : framing ≠ .incomplete := by
      rintro rfl
      cases hr
    rw [extract_of_headAt (headAt_append hh rest),
      frameRequest_append hraw.addressable (headAt_le hh) hne hframe rest,Outcome.bind_ret]
    cases framing with
    | incomplete => exact absurd rfl hne
    | malformed body =>
      cases hr
      exact ⟨_,rfl,rfl,rfl,by simp [makeErrorRequest]⟩
    | total totalBytes =>
      exact ⟨r,finishRequest_append hraw.addressable (hraw.total hh hframe) hr rest,rfl,rfl,
        fun _ => rfl⟩

theorem clear_take {data : Bytes}
    (h : Clear looseSize (fun start size => 2^64 ≤ start+size+2) data) (n : Nat) :
    Clear strictSize (HttpParser.Exceeds (data.take n)) (data.take n) := by
  intro offset start size hb hline hexc
  have hb' := hb.of_strict.append (data.drop n)
  have hline' := hline.loose.append (data.drop n)
  rw [take_append_drop] at hb' hline'
  exact h offset start size hb' hline' hexc.1

theorem SizesFit.frameRequest_returns (h : SizesFit raw) (hh : headAt raw = some (headerBytes,view)) :
    ∃ framing, frameRequest (.whole raw) headerBytes view = .ret framing := by
  unfold frameRequest
  cases hc : isChunked view with
  | true =>
    have hclear := h.chunks headerBytes view hh hc
    have hins := (scanInside_iff (h.addressable.drop headerBytes)).mpr
      (fun offset start size hb hline hover => hclear offset start size hb hline hover.1)
    obtain ⟨size,hs⟩ := ScansInside.returns hins
    have hs' : getChunkedMessageSize (raw.drop headerBytes) = .ret size := hs
    simp [hs',Outcome.map]
  | false =>
    cases view.headers.getHeader View.text (ascii "Content-Length") with
    | none => simp
    | some value =>
      cases hv : stoull 10 value.text with
      | error e => simp [hv]
      | ok n => simp [hv]

theorem SizesFit.buildRequest_returns (h : SizesFit raw) (hh : headAt raw = some (headerBytes,view))
    (method : HttpMethod) (address : Address) (n : Nat) :
    ∃ request, buildRequest (view.withBody ((View.whole raw).sub headerBytes n)) method address =
      .ret request := by
  cases hc : isChunked view with
  | false =>
    obtain ⟨request,hr,-⟩ := buildRequest_of_not_chunked
      (show isChunked (view.withBody ((View.whole raw).sub headerBytes n)) = false from hc) method address
    exact ⟨request,hr⟩
  | true =>
    have hclear := clear_take (h.chunks headerBytes view hh hc) n
    have hd : Addressable ((raw.drop headerBytes).take n) :=
      (h.addressable.drop headerBytes).of_length_le (length_take_le' _ _)
    obtain ⟨result,hp⟩ := ScansInside.returns ((HttpParser.scanInside_iff hd).mpr hclear)
    have hp' : HttpParser.parseChunked ((raw.drop headerBytes).take n) = .ret result := hp
    have hc' : isChunked (view.withBody ((View.whole raw).sub headerBytes n)) = true := hc
    simp [buildRequest,hc',hp',Outcome.map]

theorem SizesFit.extract_returns (h : SizesFit raw) (address : Address) :
    ∃ result, extract address raw = .ret result := by
  cases hh : headAt raw with
  | none =>
    rcases @extract_of_headAt_none raw address hh with hnone | href
    · exact ⟨none,hnone⟩
    · have hraw := href []
      rw [append_nil] at hraw
      exact ⟨_,hraw⟩
  | some head =>
    obtain ⟨headerBytes,view⟩ := head
    obtain ⟨framing,hframe⟩ := h.frameRequest_returns hh
    rw [extract_of_headAt hh,hframe,Outcome.bind_ret]
    cases framing with
    | incomplete => exact ⟨none,rfl⟩
    | malformed body => exact ⟨_,rfl⟩
    | total totalBytes =>
      simp only [answerFraming,finishRequest,HttpRequestView.withBody_method]
      split
      · exact ⟨none,rfl⟩
      · cases tryStringToMethod view.method.text with
        | none => exact ⟨_,rfl⟩
        | some method =>
          obtain ⟨request,hr⟩ :=
            h.buildRequest_returns hh method address (sizeSub totalBytes headerBytes)
          simp [hr,Outcome.map]

theorem moveOf_out (r : ParsedRequest) : (moveOf r).out = dispatchedOf r := by
  unfold moveOf
  split
  · rfl
  · rfl

theorem moveOf_state (r : ParsedRequest) : (moveOf r).state = !r.keepAlive := by
  unfold moveOf
  cases r.keepAlive with
  | true => rfl
  | false => rfl

theorem moveOf_size (hk : r.keepAlive = true) : (moveOf r).size = r.consumedBytes := by
  simp [moveOf,hk]

theorem nextRequest_eq_some {closed : Bool} {m : Move Bool HttpRequest}
    (h : nextRequest address closed raw = some m) :
    closed = false ∧ ∃ r, extract address raw = .ret (some r) ∧ m = moveOf r := by
  cases closed with
  | true => cases h
  | false =>
    simp only [nextRequest] at h
    split at h
    · rename_i r hr
      exact ⟨rfl,r,hr,(Option.some.inj h).symm⟩
    · cases h

theorem nextRequest_of_extract (h : extract address raw = .ret (some r)) :
    nextRequest address false raw = some (moveOf r) := by
  simp only [nextRequest,h]

theorem nextRequest_stable (address : Address) : Stable (nextRequest address) Fits where
  le hok hm := by
    obtain ⟨rfl,r,hr,rfl⟩ := nextRequest_eq_some hm
    have := ((hok rfl).consumed hr).2
    unfold moveOf
    split
    · exact this
    · exact Nat.zero_le _
  append t hok hm := by
    obtain ⟨rfl,r,hr,rfl⟩ := nextRequest_eq_some hm
    obtain ⟨r',hr',hkeep,hout,hsize⟩ := extract_append (hok rfl) hr
    rw [nextRequest_of_extract hr']
    unfold moveOf
    rw [hkeep,hout]
    split
    · rename_i hk
      rw [hsize hk]
    · rfl
  shorter hok hclos := (hok hclos).of_append

end Extraction

section Client

variable {server : Server} {state : ClientState}

theorem compact_spec (state : ClientState) :
    (compactClientBufferLocked state).clientAddress = state.clientAddress ∧
      (compactClientBufferLocked state).buffer.length ≤ state.buffer.length ∧
      (compactClientBufferLocked state).bufferOffset ≤ (compactClientBufferLocked state).buffer.length := by
  unfold compactClientBufferLocked
  split
  · rename_i h
    simp [h]
  · split
    · simp
    · split
      · simp
        omega
      · simp

theorem unread_arm (server : Server) (state : ClientState) :
    unread (armRequestTimer server state) = unread state ∧
      (armRequestTimer server state).clientAddress = state.clientAddress ∧
      (armRequestTimer server state).buffer = state.buffer := by
  unfold armRequestTimer
  split
  · exact ⟨rfl,rfl,rfl⟩
  · exact ⟨rfl,rfl,rfl⟩

theorem appendData_spec (server : Server) (state : ClientState) (data : Bytes) :
    unread (appendData server state data).1 = unread state ++ data ∧
      (appendData server state data).1.clientAddress = state.clientAddress ∧
      (appendData server state data).1.buffer.length ≤ state.buffer.length+data.length := by
  obtain ⟨hadd,hlen,hoff⟩ := compact_spec state
  have hunr := unread_compact state
  obtain ⟨compacted,hc⟩ : ∃ compacted, compacted = compactClientBufferLocked state := ⟨_,rfl⟩
  simp only [appendData,← hc] at hadd hlen hoff hunr ⊢
  obtain ⟨grown,hg⟩ : ∃ grown, grown = if compacted.bufferOffset = 0 ∧ compacted.buffer = [] then
    { compacted with buffer := data } else { compacted with buffer := compacted.buffer ++ data } :=
    ⟨_,rfl⟩
  have hgrown : unread grown = unread state ++ data ∧ grown.clientAddress = state.clientAddress ∧
      grown.buffer.length ≤ state.buffer.length+data.length := by
    rw [hg,← hunr,← hadd]
    split
    · rename_i hempty
      simp [unread,hempty.1,hempty.2]
    · simp only [unread,drop_append_of_le_length hoff,length_append]
      exact ⟨trivial,trivial,by omega⟩
  obtain ⟨hu,ha,hb⟩ := unread_arm server grown
  rw [← hg]
  split
  · rw [hu,ha,hb]
    exact hgrown
  · rw [← hu,← ha,← hb] at hgrown
    exact hgrown

theorem takeNext_of_none (hmax : (unread state).length ≤ server.maxRequestSize)
    (h : extract state.clientAddress (unread state) = .ret none) :
    takeNext server state = .ret ({ state with processing := false },none) := by
  rw [takeNext,makeBufferedView_size]
  simp only [if_neg (show ¬ server.maxRequestSize < (unread state).length by omega),
    tryExtractRequest_eq,h,Outcome.map,Outcome.bind_ret]

theorem takeNext_of_some (hmax : (unread state).length ≤ server.maxRequestSize) {r : ParsedRequest}
    (h : extract state.clientAddress (unread state) = .ret (some r)) :
    ∃ state', takeNext server state = .ret (state',some r) ∧
      unread state' = unread (takeRequest state r.consumedBytes) ∧
      state'.clientAddress = state.clientAddress ∧ state'.buffer.length ≤ state.buffer.length := by
  obtain ⟨hadd,hlen,-⟩ := compact_spec
    { state with bufferOffset := sizeAdd state.bufferOffset r.consumedBytes }
  obtain ⟨hu,ha,hb⟩ := unread_arm server (takeRequest state r.consumedBytes)
  rw [takeNext,makeBufferedView_size]
  simp only [if_neg (show ¬ server.maxRequestSize < (unread state).length by omega),
    tryExtractRequest_eq,h,Outcome.map,Outcome.bind_ret]
  refine ⟨_,rfl,?_⟩
  split
  · exact ⟨rfl,hadd,hlen⟩
  · rw [hu,ha,hb]
    exact ⟨rfl,hadd,hlen⟩

end Client

theorem requests_append (log log' : List Entry) :
    requests (log ++ log') = requests log ++ requests log' :=
  filterMap_append

theorem requests_queued (log : List Entry) (response : HttpResponse) (closes : Bool) :
    requests (log ++ [.queued response closes]) = requests log := by
  rw [requests_append]
  exact append_nil _

theorem requests_dispatch (server : Server) (log : List Entry) (r : ParsedRequest) :
    requests (log ++ (dispatch server r).1) = requests log ++ dispatchedOf r := by
  rw [requests_append]
  congr 1
  unfold dispatch dispatchedOf
  cases r.immediateResponse with
  | none => rfl
  | some response => rfl

def received (events : List Event) : Bytes :=
  events.flatMap fun
    | .data bytes => bytes
    | .advance _ _ => []
    | .dropped => []

def Event.undisturbed : Event → Bool
  | .data _ => true
  | .advance _ accepted => accepted
  | .dropped => false

/-- How the client and the running call stand to the reader of the stream, when the
bytes `p` have arrived and `out` has been dispatched. -/
inductive Phase (address : Address) (p : Bytes) (state : ClientState) :
    List Call → List HttpRequest → Prop where
  | idle {out : List HttpRequest} : state.processing = false →
      Comes (nextRequest address) false p out false (unread state) →
      nextRequest address false (unread state) = none → Phase address p state [] out
  | closed {out : List HttpRequest} {rest : Bytes} : state.processing = true →
      Comes (nextRequest address) false p out true rest → Phase address p state [] out
  | ready {out : List HttpRequest} : state.processing = true →
      Comes (nextRequest address) false p out false (unread state) →
      Phase address p state [.ready] out
  | answering {out : List HttpRequest} {r : ParsedRequest} {rest : Bytes} :
      state.processing = true →
      Comes (nextRequest address) false p (out ++ dispatchedOf r) (!r.keepAlive) rest →
      (r.keepAlive = true → rest = unread state) → Phase address p state [.answering r] out
  | sending {out : List HttpRequest} {keepAlive : Bool} {response : HttpResponse} {rest : Bytes} :
      state.processing = true → Comes (nextRequest address) false p out (!keepAlive) rest →
      (keepAlive = true → rest = unread state) → Phase address p state [.sending keepAlive response] out

/-- The connection has dispatched what the reader of `p` puts out. -/
def Follows (address : Address) (p : Bytes) (c : Connection) : Prop :=
  ∃ state, c.client = some state ∧ state.clientAddress = address ∧
    state.buffer.length ≤ p.length ∧ Phase address p state c.calls (requests c.log)

theorem follows_connected (address : Address) : Follows address [] (connected address) := by
  refine ⟨_,rfl,rfl,Nat.le_refl _,.idle rfl .here ?_⟩
  rfl

section Steps

variable {server : Server} {address : Address} {p : Bytes} {c : Connection}

theorem follows_data {bytes : Bytes} (hok : Along (nextRequest address) Fits false (p ++ bytes))
    (h : Follows address p c) : Follows address (p ++ bytes) (step server c (.data bytes)) := by
  obtain ⟨state,hc,haddr,hleng,hphase⟩ := h
  obtain ⟨hunr,hadd,hlen⟩ := appendData_spec server state bytes
  obtain ⟨hproc,hsh⟩ := appendData_processing server state bytes
  have happ {out : List HttpRequest} {closed : Bool} {rest : Bytes}
      (hcomes : Comes (nextRequest address) false p out closed rest) :
      Comes (nextRequest address) false (p ++ bytes) out closed (rest ++ bytes) :=
    hcomes.append (nextRequest_stable address) hok
  simp only [step,hc,hsh]
  refine ⟨_,rfl,hadd.trans haddr,by rw [length_append]; omega,?_⟩
  generalize c.calls = calls at hphase ⊢
  generalize requests c.log = out at hphase ⊢
  cases hphase with
  | idle hp hcomes _ =>
    rw [hp]
    exact .ready hproc (hunr ▸ happ hcomes)
  | closed hp hcomes =>
    rw [hp]
    exact .closed hproc (happ hcomes)
  | ready hp hcomes =>
    rw [hp]
    exact .ready hproc (hunr ▸ happ hcomes)
  | answering hp hcomes hrest =>
    rw [hp]
    exact .answering hproc (happ hcomes) (fun hk => by rw [hrest hk,hunr])
  | sending hp hcomes hrest =>
    rw [hp]
    exact .sending hproc (happ hcomes) (fun hk => by rw [hrest hk,hunr])

def pending (c : Connection) : Nat :=
  match c.client, c.calls with
  | some state, [.ready] => 3*(unread state).length+1
  | some state, [.sending _ _] => 3*(unread state).length+2
  | some state, [.answering _] => 3*(unread state).length+3
  | _, _ => 0

theorem follows_ready {state : ClientState} (hmax : p.length ≤ server.maxRequestSize)
    (hok : Along (nextRequest address) Fits false p) (hc : c.client = some state)
    (hadd : state.clientAddress = address) (hlen : state.buffer.length ≤ p.length)
    (hp : state.processing = true)
    (hcomes : Comes (nextRequest address) false p (requests c.log) false (unread state))
    (hcalls : c.calls = [.ready]) :
    Follows address p (advance server c 0 true .ready) ∧
      pending (advance server c 0 true .ready) < 3*(unread state).length+1 := by
  have hfit : SizesFit (unread state) := hok _ _ _ hcomes rfl
  have hle := unread_length_le state
  have hmax' : (unread state).length ≤ server.maxRequestSize := by omega
  have hd : Addressable state.buffer := (hok.here rfl).addressable.of_length_le hlen
  obtain ⟨result,hr⟩ := hfit.extract_returns state.clientAddress
  cases result with
  | none =>
    simp only [advance,hc,hcalls,takeNext_of_none hmax' hr]
    have hwait : nextRequest address false (unread state) = none := by
      simp only [nextRequest,← hadd,hr]
    exact ⟨⟨_,rfl,hadd,hlen,.idle rfl hcomes hwait⟩,by simp [pending]⟩
  | some r =>
    obtain ⟨state',ht,hunr,haddr,hleng⟩ := takeNext_of_some hmax' hr
    have hproc := takeNext_processing hmax' ht
    have hwit := takenWithin_of_not_wraps hd
      (by rw [LengthWraps,frontHead_eq]; exact @SizesFit.not_wraps _ state.clientAddress hfit)
      ((tryExtractRequest_eq state).trans hr)
    have hshr := hwit.shrinks
    rw [← hunr] at hshr
    have hmove := hcomes.move (nextRequest_of_extract (hadd ▸ hr))
    rw [moveOf_out,moveOf_state] at hmove
    simp only [advance,hc,hcalls,ht]
    refine ⟨⟨state',rfl,haddr.trans hadd,hleng.trans hlen,?_⟩,?_⟩
    · refine .answering (hproc.trans hp) hmove (fun hk => ?_)
      rw [moveOf_size hk,hunr,hwit.rest]
    · simp only [set_cons_zero,pending]
      omega

theorem follows_call {call : Call} (hmax : p.length ≤ server.maxRequestSize)
    (hok : Along (nextRequest address) Fits false p) (h : Follows address p c)
    (hcalls : c.calls = [call]) :
    Follows address p (advance server c 0 true call) ∧
      pending (advance server c 0 true call) < pending c := by
  obtain ⟨state,hc,hadd,hlen,hphase⟩ := h
  rw [hcalls] at hphase
  cases hphase with
  | ready hp hcomes =>
    have hready := follows_ready hmax hok hc hadd hlen hp hcomes hcalls
    simpa only [pending,hc,hcalls] using hready
  | answering hp hcomes hrest =>
    rw [← requests_dispatch server] at hcomes
    simp only [advance,pending,hc,hcalls,set_cons_zero]
    exact ⟨⟨state,rfl,hadd,hlen,.sending hp hcomes hrest⟩,by omega⟩
  | @sending _ keepAlive response rest hp hcomes hrest =>
    cases keepAlive with
    | true =>
      rw [hrest rfl,← requests_queued _ response false] at hcomes
      simp only [advance,pending,hc,hcalls,set_cons_zero,Bool.not_true,Bool.false_eq_true,if_false,if_true]
      exact ⟨⟨state,rfl,hadd,hlen,.ready hp hcomes⟩,by omega⟩
    | false =>
      rw [← requests_queued _ response true] at hcomes
      simp only [advance,pending,hc,hcalls,Bool.not_true,Bool.false_eq_true,if_false]
      exact ⟨⟨state,rfl,hadd,hlen,.closed hp hcomes⟩,by simp⟩

theorem Follows.calls (h : Follows address p c) : c.calls = [] ∨ ∃ call, c.calls = [call] := by
  obtain ⟨state,-,-,-,hphase⟩ := h
  generalize c.calls = calls at hphase ⊢
  cases hphase with
  | idle => exact .inl rfl
  | closed => exact .inl rfl
  | _ => exact .inr ⟨_,rfl⟩

theorem follows_advance {i : Nat} (hmax : p.length ≤ server.maxRequestSize)
    (hok : Along (nextRequest address) Fits false p) (h : Follows address p c) :
    Follows address p (step server c (.advance i true)) := by
  rcases h.calls with hcalls | ⟨call,hcalls⟩
  · simpa [step,hcalls] using h
  · cases i with
    | zero => simpa [step,hcalls] using (follows_call hmax hok h hcalls).1
    | succ i => simpa [step,hcalls] using h

theorem Follows.complete (h : Follows address p c) (hcalls : c.calls = []) :
    ∃ closed rest, Comes (nextRequest address) false p (requests c.log) closed rest ∧
      nextRequest address closed rest = none := by
  obtain ⟨state,-,-,-,hphase⟩ := h
  rw [hcalls] at hphase
  cases hphase with
  | idle _ hcomes hwait => exact ⟨false,_,hcomes,hwait⟩
  | closed _ hcomes => exact ⟨true,_,hcomes,rfl⟩

end Steps

section Runs

variable {server : Server} {address : Address} {d : Bytes}

theorem follows_run (hmax : d.length ≤ server.maxRequestSize)
    (hok : Along (nextRequest address) Fits false d) {events : List Event}
    (heven : ∀ e ∈ events, e.undisturbed = true) (hd : received events <+: d) :
    Follows address (received events) (runs (step server) (connected address) events) := by
  -- the bytes that have arrived are a function of the past of the run
  revert heven hd
  refine @traces _ _ _ (fun past c => (∀ e ∈ past, e.undisturbed = true) →
    received past <+: d → Follows address (received past) c) _
    (fun _ _ => follows_connected address) (fun past e c ih hpast hd => ?_) events
  rw [show received (past ++ [e]) = received past ++ received [e] from flatMap_append] at hd ⊢
  have hbef := ih (fun e he => hpast e (mem_append_left _ he))
    ((prefix_append _ _).trans hd)
  have he : e.undisturbed = true := hpast e (by simp)
  have hlen := hd.length_le.trans hmax
  obtain ⟨rest,rfl⟩ := hd
  have hok' := hok.of_append (nextRequest_stable address)
  cases e with
  | data bytes =>
    rw [show received [.data bytes] = bytes from append_nil bytes] at hok' ⊢
    exact follows_data hok' hbef
  | advance i accepted =>
    cases he
    rw [show received [.advance i true] = [] from rfl,append_nil] at hok' hlen ⊢
    exact follows_advance hlen hok' hbef
  | dropped => cases he

theorem call_ends {p : Bytes} (hmax : p.length ≤ server.maxRequestSize)
    (hok : Along (nextRequest address) Fits false p) {c : Connection} (h : Follows address p c) :
    ∃ n, (runs (step server) c (replicate n (.advance 0 true))).calls = [] := by
  have hstep (c : Connection) (hc : Follows address p c) (hne : c.calls ≠ []) :
      pending (step server c (.advance 0 true)) < pending c := by
    rcases hc.calls with hcalls | ⟨call,hcalls⟩
    · exact absurd hcalls hne
    · simpa [step,hcalls] using (follows_call hmax hok hc hcalls).2
  obtain ⟨n,-,hn⟩ := @stops_of_variant _ _ _ (Follows address p) (fun c => c.calls = []) pending _
    (fun c hc hne => ⟨follows_advance hmax hok hc,hstep c hc hne⟩) _ h
  exact ⟨n,hn⟩

/-- Every run over the bytes `d` dispatches the requests that are found by reading `d` as
a whole, when `d` is within the limit and no size in it makes a sum wrap around. -/
theorem requests_independent_of_cuts (server : Server) (address : Address) {d : Bytes}
    (hmax : d.length ≤ server.maxRequestSize)
    (hok : Along (nextRequest address) Fits false d) :
    ∃ out closed rest, Comes (nextRequest address) false d out closed rest ∧
      nextRequest address closed rest = none ∧
      ∀ events : List Event, (∀ e ∈ events, e.undisturbed = true) → received events = d →
        let c := Machine.runs (step server) (connected address) events
        (c.calls = [] → requests c.log = out) ∧
          ∃ n, (Machine.runs (step server) c (List.replicate n (.advance 0 true))).calls = [] := by
  have hfol (events : List Event) (heven : ∀ e ∈ events, e.undisturbed = true)
      (hd : received events = d) :
      Follows address d (Machine.runs (step server) (connected address) events) :=
    hd ▸ follows_run hmax hok heven (hd ▸ List.prefix_rfl)
  -- the reading of `d` as a whole is the one that a single call makes
  have hone := hfol [.data d] (by simp [Event.undisturbed]) (List.append_nil d)
  obtain ⟨n,hn⟩ := call_ends hmax hok hone
  rw [← Machine.runs_append] at hn
  obtain ⟨closed,rest,hcomes,hwait⟩ :=
    (hfol ([.data d] ++ List.replicate n (.advance 0 true))
      (by simp [Event.undisturbed]) (by simp [received])).complete hn
  refine ⟨_,closed,rest,hcomes,hwait,fun events heven hd => ⟨fun hcalls => ?_,?_⟩⟩
  · obtain ⟨closed',rest',hcomes',hwait'⟩ := (hfol events heven hd).complete hcalls
    exact (hcomes'.unique hwait' hcomes hwait).1
  · exact call_ends hmax hok (hfol events heven hd)

/-- One request and nothing behind it. -/
theorem requests_independent_of_cuts_get :
    let d := ascii "GET / HTTP/1.1\r\nHost: a\r\n\r\n"
    ∃ out closed rest, Comes (nextRequest {}) false d out closed rest ∧
      nextRequest {} closed rest = none ∧
      ∀ events : List Event, (∀ e ∈ events, e.undisturbed = true) → received events = d →
        let c := Machine.runs (step plainServer) (connected {}) events
        (c.calls = [] → requests c.log = out) ∧
          ∃ n, (Machine.runs (step plainServer) c (List.replicate n (.advance 0 true))).calls = [] := by
  intro d
  have hhead : (headAt d).map (fun head => (HttpParser.declaredLength head.2.headers,
      isChunked head.2)) = some (none,false) := by decide +kernel
  have hnext : (nextRequest {} false d).map (fun m => (m.state,m.size)) = some (false,27) := by
    decide +kernel
  have hnone : headAt [] = none := by decide +kernel
  refine requests_independent_of_cuts plainServer {} (by decide)
    (.cons (fun _ => .of_bare (by decide) fun _ view hh => ?_) (fun m hm => ?_))
  · simpa [hh] using hhead
  · simp only [hm,Option.map_some,Option.some.injEq,Prod.mk.injEq] at hnext
    rw [hnext.1,hnext.2]
    refine .cons (fun _ => .of_bare (by decide) fun _ view hh => ?_) (fun m hm => ?_)
    · rw [show d.drop 27 = [] from rfl,hnone] at hh
      cases hh
    · obtain ⟨-,r,hr,-⟩ := nextRequest_eq_some hm
      cases hr

def unlimitedServer : Server where
  maxRequestSize := sizeMax
  dispatchRequest := plainServer.dispatchRequest
  formatHttpDate := plainServer.formatHttpDate
  maxRequestSize_ge := plainServer.maxRequestSize_le

/-- A declared length that makes the size of the request wrap around to less than the size
of its head: the body is what has arrived when the head is complete. -/
theorem requests_depend_on_cuts :
    let head := ascii "GET / HTTP/1.1\r\nContent-Length: 18446744073709551570\r\n\r\n"
    let turns : List Event := List.replicate 10 (.advance 0 true)
    let whole := Machine.runs (step unlimitedServer) (connected {}) (.data (head ++ ascii "AB") :: turns)
    let cut := Machine.runs (step unlimitedServer) (connected {})
      (.data head :: turns ++ .data (ascii "AB") :: turns)
    whole.calls.length = 0 ∧ cut.calls.length = 0 ∧
      (requests whole.log).map HttpRequest.body = [ascii "AB"] ∧
      (requests cut.log).map HttpRequest.body = [[]] := by
  decide +kernel

end Runs

end FastNet.HttpServer
