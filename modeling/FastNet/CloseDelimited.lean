import FastNet.BareHead
import FastNet.ClientLifecycle
import FastNet.HeadAcceptance
import FastNet.ResponseBuffer

/-!
Responses of which nothing but the end of the connection tells where they end: whether
`HttpClient` hands them to its user, for every way in which the bytes and the end of the
connection are reported.
-/

namespace FastNet

open Text Loop HttpParser List Machine

namespace HttpParser

variable {fs : List (Bytes × Bytes)} {line : Bytes}

theorem reads_of_lastValues {headers : ViewMap} (h : LastValues headers fs) :
    Reads headers (fieldMap (fs.map trimmedField) ∅) := by
  constructor
  · intro k e he
    have hk := h k
    rw [he,Option.map_some,eq_comm,Option.map_eq_some_iff] at hk
    obtain ⟨f,hf,heq⟩ := hk
    have hname : f.1 = k := by simpa using find?_some hf
    exact (congrArg Prod.fst heq).symm.trans hname
  · intro k
    have hk := congrArg (fun o => o.map Prod.snd) (h k)
    simp only [Option.map_map] at hk
    rw [fieldMap_getElem?,← map_reverse,find?_map,Option.map_map]
    exact hk

theorem HeaderList.find_end (h : HeaderList line fs) (hline : 13 ∉ line)
    (rest : Bytes) : ∃ headerEnd, headerEnd+4 = (headOf line fs).length ∧
      find crlfcrlf (headOf line fs ++ rest) 0 = some headerEnd := by
  refine ⟨(sepLines (line :: fs.map rawLine)).length,?_,?_⟩
  · rw [headOf_eq,length_append]
    rfl
  · rw [headOf_eq]
    exact find_blank_line (by simp) (h.lines_noReturn hline) (HeaderList.lines_ne_nil fs) rest

theorem parseResponseHead_bare (hline : 13 ∉ line) (rest : Bytes) :
    (parseResponseHead (.whole (headOf line [] ++ rest))).1 = false := by
  cases hparse : parseResponseHead (.whole (headOf line [] ++ rest)) with
  | mk accepted view =>
    cases accepted with
    | false => rfl
    | true =>
      obtain ⟨statusLine,headerLines,n,hsplit,-,-,hlines⟩ := parseResponseHead_spec hparse
      obtain ⟨headerEnd,lineEnd,he,hl,hle,-⟩ := splitHead_accepted hsplit hlines
      rw [View.whole_text,headOf_eq] at he hl
      have he' := @find_blank_line [line] (by simp) (by simpa using hline) (by simp) rest
      have hl' := @find_first_line [] line hline rest
      rw [map_nil,he',Option.some.injEq] at he
      rw [map_nil,hl',Option.some.injEq] at hl
      simp only [sepLines] at he
      omega

end HttpParser

namespace HttpClient

/-- A response head for a request with the given method that says nothing about the length of
the body, with a status that has one. -/
structure OpenEnded (method version code reason : Bytes) (fs : List (Bytes × Bytes)) (status : Nat) : Prop where
  head : ResponseHead version code reason fs
  digits : statusDigits code = some status
  lower : 100 ≤ status
  unframed : ∀ f ∈ fs, isFraming f.1 = false
  hasBody : hasNoBody method status = false

def closeResponse (status : Nat) (reason : Bytes) (fs : List (Bytes × Bytes)) (body : Bytes) : HttpResponse where
  statusCode := status
  statusMessage := HttpParser.trim reason
  headers := fieldMap (fs.map trimmedField) ∅
  body := body

section Extraction

variable {method version code reason : Bytes} {fs : List (Bytes × Bytes)} {status : Nat}

theorem consume_refused {connectionClosed : Bool} {buffer : Bytes}
    (h : (parseResponseHead (.whole buffer)).1 = false) :
    tryConsumeBufferedResponse method connectionClosed buffer = .ret (none,buffer) := by
  have hext : tryExtractResponseViewFromRaw method (.whole buffer) connectionClosed = .ret none := by
    unfold tryExtractResponseViewFromRaw
    cases hparse : parseResponseHead (.whole buffer) with
    | mk accepted view =>
      rw [hparse] at h
      cases h
      rfl
  simp only [tryConsumeBufferedResponse,consumeLoop,hext,Outcome.bind_ret]

section

variable (h : OpenEnded method version code reason fs status)
include h

theorem OpenEnded.parse (hfs : fs ≠ []) (rest : Bytes) :
    ∃ view, parseResponseHead (.whole (headOf (statusLineOf version code reason) fs ++ rest)) = (true,view) ∧
      view.statusCode = status ∧ view.statusMessage.text = HttpParser.trim reason ∧
      Reads view.headers (fieldMap (fs.map trimmedField) ∅) := by
  have hlen : LengthsReadable fs := by
    intro f hf hleng
    have hunf := h.unframed f hf
    rw [isFraming,Bool.or_eq_false_iff] at hunf
    exact absurd (hunf.1.symm.trans hleng) Bool.false_ne_true
  obtain ⟨firstLine,headerLines,headers,hsplit,hfirst,hparse,hlast⟩ :=
    h.head.headers.accepted h.head.noReturn h.head.size hfs hlen rest
  obtain ⟨v,message,hline,-,hmes⟩ :=
    splitStatusLine_parts h.head.isVersion.valid h.head.isCode.1 h.digits hfirst
  simp only [parseResponseHead,hsplit,hline,hparse]
  exact ⟨_,rfl,rfl,hmes,reads_of_lastValues hlast⟩

theorem OpenEnded.framing {view : HttpResponseView}
    (hstatus : view.statusCode = status) (hreads : Reads view.headers (fieldMap (fs.map trimmedField) ∅)) :
    isChunked View.text view.headers = false ∧ bodyFraming method view = .untilClose := by
  have hnone {name : Bytes} (hname : ∀ k, isFraming k = false → caseInsensitiveCompare k name = false) :
      view.headers.getHeader View.text name = none := by
    refine hreads.lookup_none (fun f hf => ?_)
    obtain ⟨g,hg,rfl⟩ := mem_map.mp hf
    exact hname g.1 (h.unframed g hg)
  have hlen : view.headers.getHeader View.text (ascii "Content-Length") = none :=
    hnone (fun k hk => (Bool.or_eq_false_iff.mp hk).1)
  have hchun : isChunked View.text view.headers = false := by
    rw [isChunked,hnone (fun k hk => (Bool.or_eq_false_iff.mp hk).2)]
    rfl
  refine ⟨hchun,?_⟩
  simp [bodyFraming,declaredLength,hstatus,h.hasBody,hlen,hchun]

theorem OpenEnded.final :
    isInterimResponseStatus status = false := by
  have hbody := h.hasBody
  simp only [hasNoBody,Bool.or_eq_false_iff,Bool.and_eq_false_iff] at hbody
  have hrange := hbody.1.1.2
  simp only [isInterimResponseStatus,Bool.and_eq_false_iff]
  exact .inl hrange

theorem OpenEnded.consume_open (rest : Bytes) :
    tryConsumeBufferedResponse method false (headOf (statusLineOf version code reason) fs ++ rest) =
      .ret (none,headOf (statusLineOf version code reason) fs ++ rest) := by
  by_cases hfs : fs = []
  · subst hfs
    exact consume_refused (parseResponseHead_bare h.head.noReturn rest)
  · obtain ⟨view,hparse,hstatus,-,hreads⟩ := h.parse hfs rest
    obtain ⟨headerEnd,-,hend⟩ := h.head.headers.find_end h.head.noReturn rest
    have hext := @tryExtract_eq _ method false view headerEnd hparse hend
    rw [(h.framing hstatus hreads).2] at hext
    simp only [tryConsumeBufferedResponse,consumeLoop,hext,frameResponse,Outcome.map,Outcome.bind_ret]
    rfl

end

/-- When it ends, the response is all that has been received: the buffer is cleared, and the
views still read the bytes in its storage. -/
theorem OpenEnded.consume_closed (h : OpenEnded method version code reason fs status) (hfs : fs ≠ []) (body : Bytes) :
    tryConsumeBufferedResponse method true (headOf (statusLineOf version code reason) fs ++ body) =
      .ret (some (closeResponse status reason fs body),[]) := by
  obtain ⟨view,hparse,hstatus,hmes,hreads⟩ := h.parse hfs body
  obtain ⟨headerEnd,hsize,hend⟩ := h.head.headers.find_end h.head.noReturn body
  obtain ⟨hchun,hfram⟩ := h.framing hstatus hreads
  generalize htext : headOf (statusLineOf version code reason) fs ++ body = text at hparse hend ⊢
  have hwit := parseResponseHead_within (View.whole_within text) hparse
  have hbody : ((View.whole text).suffix (headerEnd+4)).text = body := by
    rw [View.suffix_text,View.whole_text,← htext,hsize,drop_left]
  have hext := @tryExtract_eq _ method true view headerEnd hparse hend
  rw [hfram] at hext
  have hbuilt : buildResponse (View.read text) (view.withBody ((View.whole text).suffix (headerEnd+4))) =
      .ret (closeResponse status reason fs body) := by
    have hread : buildResponse (View.read text) (view.withBody ((View.whole text).suffix (headerEnd+4))) =
        buildResponse View.text (view.withBody ((View.whole text).suffix (headerEnd+4))) := by
      refine buildResponse_congr ?_ (fun k e he => ⟨?_,?_⟩) ?_
      · exact hwit.statusMessage.read_eq
      · exact (hwit.headers k e he).1.read_eq
      · exact (hwit.headers k e he).2.read_eq
      · exact ((View.whole_within text).suffix _).read_eq
    rw [hread]
    simp only [buildResponse,decodeBody,HttpResponseView.withBody,hchun,Bool.false_eq_true,if_false,Outcome.map,
      Outcome.bind_ret,hstatus,hmes,hreads.toStrings,hbody,closeResponse]
  have herase : eraseResponseBufferPrefix text (View.whole text).size = [] := if_pos (le_refl _)
  have hstor : storageAfterErase text (View.whole text).size = text := if_pos (le_refl _)
  have hfinal : isInterimResponseStatus (view.withBody ((View.whole text).suffix (headerEnd+4))).statusCode = false := by
    rw [HttpResponseView.withBody,hstatus]
    exact h.final
  simp only [tryConsumeBufferedResponse,consumeLoop,hext,frameResponse,Outcome.map,Outcome.bind_ret,if_true,
    Option.map_some,hfinal,Bool.false_eq_true,if_false,herase,hstor,hbuilt]

theorem OpenEnded.consume_part (h : OpenEnded method version code reason fs status) {body part : Bytes}
    (hpart : part <+: headOf (statusLineOf version code reason) fs ++ body) :
    tryConsumeBufferedResponse method false part = .ret (none,part) := by
  cases hfind : find crlfcrlf part 0 with
  | none =>
    have hext : tryExtractResponseViewFromRaw method (.whole part) false = .ret none := tryExtract_of_no_head hfind
    simp only [tryConsumeBufferedResponse,consumeLoop,hext,Outcome.bind_ret]
  | some i =>
    obtain ⟨headerEnd,hsize,hend⟩ := h.head.headers.find_end h.head.noReturn body
    obtain ⟨rest,hrest⟩ := hpart
    rw [← hrest,find_append (by decide) hfind rest,Option.some.injEq] at hend
    have hboun := find_bounds (by decide) hfind
    simp only [crlfcrlf,length_cons,length_nil] at hboun
    have hhead : headOf (statusLineOf version code reason) fs <+: part :=
      prefix_of_prefix_length_le (prefix_append _ body) ⟨rest,hrest⟩ (by omega)
    obtain ⟨behind,rfl⟩ := hhead
    exact h.consume_open behind

end Extraction

/-! ### The reports of the transport -/

/-- A way in which the end of a connection is reported: by the disconnect alone, or by an error
with the disconnect behind it. -/
inductive Closing where
  | disconnected (reason : Bytes)
  | failed (message : Bytes)

def Closing.event : Closing → Event
  | .disconnected reason => .closed reason
  | .failed message => .failed message

/-- A client with a buffered request in flight that has received the given bytes. -/
structure Awaits (c : Client) (request : Nat) (received : Bytes) : Prop where
  transport : c.transport = .connected
  awaiting : c.awaitingResponse = true
  streaming : c.streamingResponse = false
  callback : c.responseCallback = some request
  buffer : c.responseBuffer = received

variable {c c' : Client} {request : Nat} {received text : Bytes}

theorem Awaits.buffered (h : Awaits c request received) : c = { c with responseBuffer := received } := by
  have hbuf := h.buffer
  subst hbuf
  rfl

theorem step_empty (c : Client) (net : Client.Net) : step c (.data [],net) = c := by
  simp [step,handle,Client.handleDataReceived]

theorem step_data (h : Awaits c request received) {segment : Bytes} (net : Client.Net)
    (hcon : tryConsumeBufferedResponse c.pendingRequest.method false (received ++ segment) = .ret (none,received ++ segment)) :
    step c (.data segment,net) = { c with responseBuffer := received ++ segment } := by
  have hbuf := h.buffer
  subst hbuf
  by_cases hempty : segment = []
  · subst hempty
    rw [step_empty,append_nil]
  · simp [step,handle,h.transport,Client.handleDataReceived,hempty,h.streaming,hcon]

theorem runs_data (h : Awaits c request received)
    (hcon : ∀ part, part <+: text → tryConsumeBufferedResponse c.pendingRequest.method false part = .ret (none,part))
    {segments : List (Bytes × Client.Net)} (hseg : received ++ (segments.map Prod.fst).flatten = text) :
    runs step c (segments.map (fun s => (.data s.1,s.2))) = { c with responseBuffer := text } := by
  induction segments generalizing c received with
  | nil =>
    have hall : received = text := by simpa using hseg
    rw [map_nil,runs_nil,← hall]
    exact h.buffered
  | cons segment segments ih =>
    rw [map_cons,flatten_cons,← append_assoc] at hseg
    have hpart : received ++ segment.1 <+: text := ⟨_,hseg⟩
    rw [map_cons,runs_cons,step_data h segment.2 (hcon _ hpart)]
    exact ih ⟨h.transport,h.awaiting,h.streaming,h.callback,rfl⟩ hcon hseg

structure Settled (c : Client) : Prop where
  transport : c.transport = .idle
  awaiting : c.awaitingResponse = false
  streaming : c.streamingResponse = false

def Fails (log log' : List Notice) : Prop :=
  ∃ added, log' = log ++ added ∧ ∀ request response, Notice.response request response ∈ added → response.statusCode = 0

theorem Fails.refl (log : List Notice) : Fails log log := ⟨[],by simp,by simp⟩

theorem Fails.trans {log log' log'' : List Notice} (h : Fails log log') (h' : Fails log' log'') : Fails log log'' := by
  obtain ⟨added,rfl,hadded⟩ := h
  obtain ⟨added',rfl,hadded'⟩ := h'
  refine ⟨added ++ added',append_assoc _ _ _,fun request response hmem => ?_⟩
  rcases mem_append.mp hmem with hmem | hmem
  · exact hadded request response hmem
  · exact hadded' request response hmem

theorem fails_respond (c : Client) (message : Bytes) : Fails c.log (c.respond (Client.failure message)).log := by
  unfold Client.respond
  split
  · exact Fails.refl c.log
  · refine ⟨_,rfl,fun request response hmem => ?_⟩
    cases mem_singleton.mp hmem
    rfl

theorem fails_connected (c : Client) (success : Bool) (message : Bytes) :
    Fails c.log (c.tell (.connected success message)).log := by
  refine ⟨_,rfl,fun request response hmem => ?_⟩
  cases mem_singleton.mp hmem

theorem settled_tell (h : Settled c) (notice : Notice) : Settled (c.tell notice) := ⟨h.transport,h.awaiting,h.streaming⟩

theorem settled_respond (h : Settled c) (response : HttpResponse) : Settled (c.respond response) := by
  unfold Client.respond
  split
  · exact h
  · exact settled_tell h _

theorem settled_restore (h : Settled c) : Settled c.restoreRequestTimeoutOverride := by
  unfold Client.restoreRequestTimeoutOverride
  split
  · exact h
  · exact ⟨h.transport,h.awaiting,h.streaming⟩

theorem log_restore (c : Client) : c.restoreRequestTimeoutOverride.log = c.log := by
  unfold Client.restoreRequestTimeoutOverride
  split <;> rfl

theorem notifyConnectFailed_settled (h : Settled c) (message : Bytes) :
    Settled (c.notifyConnectFailed message) ∧ Fails c.log (c.notifyConnectFailed message).log := by
  unfold Client.notifyConnectFailed
  split
  · have hstop : Settled
        { ({ c with pendingConnect := false } : Client).stopRequestTimer with connected := false, awaitingResponse := false } :=
      ⟨h.transport,rfl,h.streaming⟩
    unfold Client.handleConnectFailed
    simp only
    split
    · split
      · have hlast := settled_respond (settled_tell hstop (.connected false message)) (Client.failure message)
        exact ⟨⟨hlast.transport,hlast.awaiting,hlast.streaming⟩,
          (fails_connected _ false message).trans (fails_respond _ message)⟩
      · have hlast := settled_tell hstop (.connected false message)
        exact ⟨⟨hlast.transport,hlast.awaiting,hlast.streaming⟩,fails_connected _ false message⟩
    · split
      · have hlast := settled_respond hstop (Client.failure message)
        exact ⟨⟨hlast.transport,hlast.awaiting,hlast.streaming⟩,fails_respond _ message⟩
      · exact ⟨⟨hstop.transport,hstop.awaiting,hstop.streaming⟩,Fails.refl c.log⟩
  · exact ⟨h,Fails.refl c.log⟩

theorem handleError_ends (hstr : c.streamingResponse = false)
    (hends : c.awaitingResponse = false ∨ c.responseCallback.isSome = true) (message : Bytes) :
    (c.handleError message).transport = c.transport ∧ (c.handleError message).awaitingResponse = false ∧
      (c.handleError message).streamingResponse = false ∧ Fails c.log (c.handleError message).log := by
  have hres : c.stopRequestTimer.restoreRequestTimeoutOverride.transport = c.transport ∧
      c.stopRequestTimer.restoreRequestTimeoutOverride.awaitingResponse = c.awaitingResponse ∧
      c.stopRequestTimer.restoreRequestTimeoutOverride.streamingResponse = false ∧
      c.stopRequestTimer.restoreRequestTimeoutOverride.responseCallback = c.responseCallback ∧
      c.stopRequestTimer.restoreRequestTimeoutOverride.log = c.log := by
    unfold Client.restoreRequestTimeoutOverride
    split <;> exact ⟨rfl,rfl,hstr,rfl,rfl⟩
  have hstop : c.stopRequestTimer.streamingResponse = false := hstr
  simp only [Client.handleError,hstop,Bool.false_eq_true,if_false]
  generalize c.stopRequestTimer.restoreRequestTimeoutOverride = restored at hres ⊢
  obtain ⟨htran,haw,hnone,hcal,hlog⟩ := hres
  rw [← hcal,← haw] at hends
  rw [← hlog,← htran]
  split
  · rename_i hsome
    obtain ⟨request,hreq⟩ := Option.isSome_iff_exists.mp hsome
    refine ⟨?_,?_,?_,fails_respond { restored with awaitingResponse := false, responseBuffer := [] } message⟩
    · simp [Client.respond,hreq,Client.tell]
    · simp [Client.respond,hreq,Client.tell]
    · simpa [Client.respond,hreq,Client.tell] using hnone
  · rename_i hsome
    exact ⟨rfl,hends.resolve_right hsome,hnone,Fails.refl _⟩

theorem settled_step (h : Settled c) (closing : Closing) (net : Client.Net) :
    Settled (step c (closing.event,net)) ∧ Fails c.log (step c (closing.event,net)).log := by
  cases closing with
  | disconnected reason =>
    simp only [step,handle,Closing.event,Client.closeWithReason,h.transport]
    exact ⟨⟨rfl,h.awaiting,h.streaming⟩,Fails.refl _⟩
  | failed message =>
    obtain ⟨hnot,hfails⟩ := notifyConnectFailed_settled h message
    obtain ⟨htran,haw,hstr,hfails'⟩ :=
      handleError_ends hnot.streaming (.inl hnot.awaiting) message
    have hne : c.transport ≠ .connected := by
      rw [h.transport]
      simp
    simp only [step,handle,Closing.event,Client.handleTransportFailure,hne,ne_eq,not_false_eq_true,if_true,
      Client.closeWithReason,htran,hnot.transport]
    exact ⟨⟨rfl,haw,hstr⟩,hfails.trans hfails'⟩

theorem settled_runs (h : Settled c) (closings : List (Closing × Client.Net)) :
    Fails c.log (runs step c (closings.map (fun e => (e.1.event,e.2)))).log := by
  induction closings generalizing c with
  | nil => exact Fails.refl c.log
  | cons closing closings ih =>
    obtain ⟨hset,hfails⟩ := settled_step h closing.1 closing.2
    exact hfails.trans (ih hset)

/-! ### The first report -/

theorem awaits_failed (h : Awaits c request received) (message : Bytes) (net : Client.Net) :
    Settled (step c (.failed message,net)) ∧ Fails c.log (step c (.failed message,net)).log := by
  obtain ⟨htran,haw,hstr,hfails⟩ :=
    handleError_ends h.streaming (.inr (by rw [h.callback]; rfl)) message
  have hstep : step c (.failed message,net) =
      { (c.handleError message).stopRequestTimer with transport := .idle, connected := false } := by
    simp [step,handle,Client.handleTransportFailure,h.transport,Client.closeWithReason,htran,
      Client.handleDisconnect,Client.stopRequestTimer,haw,Client.failAwaiting]
  rw [hstep]
  exact ⟨⟨rfl,haw,hstr⟩,hfails⟩

def Client.ended (c : Client) : Client :=
  { c.stopRequestTimer with
    transport := .idle, connected := false, awaitingResponse := false, responseBuffer := [] }

theorem settled_ended (hstr : c.streamingResponse = false) : Settled c.ended := ⟨rfl,rfl,hstr⟩

theorem awaits_refused (h : Awaits c request received) (hne : received ≠ [])
    (hcon : tryConsumeBufferedResponse c.pendingRequest.method true received = .ret (none,received)) (reason : Bytes)
    (net : Client.Net) :
    Settled (step c (.closed reason,net)) ∧ Fails c.log (step c (.closed reason,net)).log := by
  have hbuf := h.buffer
  subst hbuf
  have hstep : step c (.closed reason,net) = c.ended.respond (Client.failure reason) := by
    simp [step,handle,Client.closeWithReason,h.transport,Client.handleDisconnect,Client.stopRequestTimer,h.awaiting,
      h.streaming,hne,hcon,Client.failAwaiting,h.callback,Client.ended]
  rw [hstep]
  exact ⟨settled_respond (settled_ended h.streaming) _,fails_respond c.ended reason⟩

theorem handleResponse_stays {response : HttpResponse} (hstay : c.redirectTarget response = none) (net : Client.Net) :
    Client.handleResponse net c response = .ok (c.stopRequestTimer.restoreRequestTimeoutOverride.respond response) := by
  have hstill : c.stopRequestTimer.redirectTarget response = none := hstay
  rw [Client.handleResponse,hstill]

theorem log_handed (hcal : c.responseCallback = some request) (response : HttpResponse) :
    (c.stopRequestTimer.restoreRequestTimeoutOverride.respond response).log = c.log ++ [.response request response] := by
  have hsame : c.stopRequestTimer.restoreRequestTimeoutOverride.responseCallback = some request := by
    unfold Client.restoreRequestTimeoutOverride
    split <;> exact hcal
  rw [Client.respond,hsame]
  exact congrArg (· ++ [Notice.response request response]) (log_restore c.stopRequestTimer)

theorem awaits_delivered (h : Awaits c request received) (hne : received ≠ []) {response : HttpResponse}
    (hcon : tryConsumeBufferedResponse c.pendingRequest.method true received = .ret (some response,[]))
    (hstay : c.redirectTarget response = none) (reason : Bytes) (net : Client.Net) :
    Settled (step c (.closed reason,net)) ∧ (step c (.closed reason,net)).log = c.log ++ [.response request response] := by
  have hbuf := h.buffer
  subst hbuf
  have hclos : handle net c (.closed reason) = Client.handleResponse net c.ended response := by
    simp [handle,Client.closeWithReason,h.transport,Client.handleDisconnect,Client.stopRequestTimer,h.awaiting,
      h.streaming,hne,hcon,Client.ended]
  have hstill : c.ended.redirectTarget response = none := hstay
  have hcal : c.ended.responseCallback = some request := h.callback
  have hstep : step c (.closed reason,net) = c.ended.stopRequestTimer.restoreRequestTimeoutOverride.respond response := by
    rw [step,hclos,handleResponse_stays hstill]
  rw [hstep]
  exact ⟨settled_respond (settled_restore (settled_ended h.streaming)) _,log_handed hcal response⟩

/-- A response that ends with the connection gets to the user, however the bytes are cut, exactly
when it has a header line and the first report of the end is the disconnect. -/
theorem close_delimited_iff {version code reason : Bytes} {fs : List (Bytes × Bytes)} {status : Nat}
    (h : OpenEnded c.pendingRequest.method version code reason fs status) (hc : Awaits c request []) {body : Bytes}
    (hstay : c.redirectTarget (closeResponse status reason fs body) = none) {segments : List (Bytes × Client.Net)}
    (hsegments : (segments.map Prod.fst).flatten = headOf (statusLineOf version code reason) fs ++ body)
    (first : Closing × Client.Net) (closings : List (Closing × Client.Net)) :
    Notice.response request (closeResponse status reason fs body) ∈
        (Machine.runs step c (segments.map (fun s => (.data s.1, s.2)) ++
          (first :: closings).map (fun e => (e.1.event, e.2)))).log.drop c.log.length ↔
      fs ≠ [] ∧ ∃ reason, first.1 = .disconnected reason := by
  -- all bytes are in the buffer when the end of the connection is reported
  have hfil := runs_data hc (fun part hpart => h.consume_part hpart) ((List.nil_append _).trans hsegments)
  rw [Machine.runs_append,hfil,List.map_cons,Machine.runs_cons]
  generalize htext : headOf (statusLineOf version code reason) fs ++ body = text at *
  have hne : text ≠ [] := by
    rintro rfl
    simp [headOf,crlf] at htext
  have haw : Awaits { c with responseBuffer := text } request text :=
    ⟨hc.transport,hc.awaiting,hc.streaming,hc.callback,rfl⟩
  -- failures are not the response
  have hfail {c' : Client} (hset : Settled c') (hfails : Fails c.log c'.log) :
      Notice.response request (closeResponse status reason fs body) ∉
        (Machine.runs step c' (closings.map (fun e => (e.1.event,e.2)))).log.drop c.log.length := by
    obtain ⟨added,hlog,hadded⟩ := hfails.trans (settled_runs hset closings)
    rw [hlog,List.drop_left]
    intro hmem
    have hzero := hadded request _ hmem
    have hlower := h.lower
    simp only [closeResponse] at hzero
    omega
  cases hfirst : first.1 with
  | failed message =>
    obtain ⟨hset,hfails⟩ := awaits_failed haw message first.2
    refine iff_of_false (hfail hset hfails) ?_
    rintro ⟨-,reason,hreas⟩
    cases hreas
  | disconnected closeReason =>
    by_cases hfs : fs = []
    · have href : tryConsumeBufferedResponse c.pendingRequest.method true text = .ret (none,text) := by
        subst hfs
        rw [← htext]
        exact consume_refused (parseResponseHead_bare h.head.noReturn body)
      obtain ⟨hset,hfails⟩ := awaits_refused haw hne href closeReason first.2
      exact iff_of_false (hfail hset hfails) (fun hnone => hnone.1 hfs)
    · have hcon := h.consume_closed hfs body
      rw [htext] at hcon
      obtain ⟨hset,hlog⟩ := awaits_delivered haw hne hcon hstay closeReason first.2
      refine iff_of_true ?_ ⟨hfs,closeReason,rfl⟩
      obtain ⟨added,hlog',-⟩ := settled_runs hset closings
      have hall := hlog'.trans (congrArg (· ++ added) hlog)
      have hevent : (Closing.disconnected closeReason).event = .closed closeReason := rfl
      rw [hevent,hall,List.append_assoc,List.drop_left]
      simp

def inFlight : Client := runs step {} requested

/-- A response without a length, in two pieces, with the disconnect behind it. -/
theorem close_delimited_server :
    Notice.response 0 (closeResponse 200 (ascii "OK") [(ascii "Server", ascii " a")] (ascii "hello")) ∈
      (Machine.runs step inFlight ([(ascii "HTTP/1.1 200 OK\r\nServer: a\r", quiet), (ascii "\n\r\nhello", quiet)].map
        (fun s => (.data s.1, s.2)) ++
          [(Closing.disconnected [], quiet)].map (fun e => (e.1.event, e.2)))).log.drop inFlight.log.length := by
  have hmet : inFlight.pendingRequest.method = ascii "GET" := by decide +kernel
  have hhead : OpenEnded inFlight.pendingRequest.method (ascii "HTTP/1.1") (ascii "200") (ascii "OK")
      [(ascii "Server",ascii " a")] 200 := by
    rw [hmet]
    refine ⟨responseHead_ok ⟨?_,?_,?_,?_,?_,?_⟩,?_,?_,?_,?_⟩ <;> decide +kernel
  have haw : Awaits inFlight 0 [] := by
    refine ⟨?_,?_,?_,?_,?_⟩ <;> decide +kernel
  have hstay : inFlight.redirectTarget (closeResponse 200 (ascii "OK") [(ascii "Server",ascii " a")] (ascii "hello")) = none := by
    simp [Client.redirectTarget,closeResponse,Client.isRedirect]
  refine (close_delimited_iff hhead haw hstay ?_ (.disconnected [],quiet) []).mpr ⟨by simp,[],rfl⟩
  decide +kernel

def statuses (log : List Notice) : List Int :=
  log.filterMap fun
    | .response _ response => some response.statusCode
    | _ => none

/-- One poll event carries the response and the end of the connection: the read takes the bytes and
stops, for they fill less than its buffer, and the end is reported as an error. -/
theorem close_delimited_lost :
    let response := (Event.data (ascii "HTTP/1.1 200 OK\r\nServer: a\r\n\r\nhello"),quiet)
    statuses (Machine.runs step inFlight [response,(.closed (ascii "Connection closed by peer"),quiet)]).log = [200] ∧
      statuses (Machine.runs step inFlight [response,(.failed (ascii "Connection closed by peer"),quiet)]).log = [0] := by
  decide +kernel

end HttpClient

end FastNet
