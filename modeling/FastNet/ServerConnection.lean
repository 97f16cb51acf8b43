import FastNet.Machine
import FastNet.RequestExtraction

/-!
One connection of `HttpServer`: data that arrives, the loop that takes requests off the
buffer and answers them, and the close that follows the last answer. The loop holds the
lock only while it takes a request; between its moves anything may happen.
-/

namespace FastNet.HttpServer

open Text Numeral Loop Machine List

/-- What a connection needs to know of its server. The handlers, the static files and
the clock are the user's and the system's; a response to a request is some response. -/
structure Server where
  maxRequestSize : Nat := 16*1024*1024
  requestTimeout : Nat := 30000
  dispatchRequest : HttpRequest → HttpResponse
  formatHttpDate : HttpRequest → Bytes
  maxRequestSize_ge : 1024 ≤ maxRequestSize := by decide
  maxRequestSize_le : maxRequestSize ≤ sizeMax := by decide

def headerValueCaseInsensitiveView (headers : ByteMap Bytes) (name : Bytes) : Bytes :=
  ((headers.toList.find? (fun e => equalsAsciiIgnoreCase e.1 name)).map Prod.snd).getD []

def putDefault (headers : ByteMap Bytes) (name value : Bytes) : ByteMap Bytes :=
  if headers.contains name then headers else headers.insert name value

def finalizeResponse (date : Bytes) (request : HttpRequest) (keepAlive : Bool)
    (response : HttpResponse) : HttpResponse :=
  let headers := putDefault response.headers (ascii "Date") date
  let headers := putDefault headers (ascii "Connection")
    (if keepAlive then ascii "keep-alive" else ascii "close")
  let headers := putDefault headers (ascii "Content-Type") (ascii "text/plain; charset=utf-8")
  let headers := if response.hasFileBody then
      putDefault headers (ascii "Content-Length") (HttpParser.toChars 10 response.fileLength)
    else headers
  let size := if response.hasFileBody then response.fileLength else response.body.length
  if request.method = .head then
    { response with
      headers := putDefault headers (ascii "Content-Length") (HttpParser.toChars 10 size),
      hasFileBody := false, filePath := [], fileOffset := 0, fileLength := 0, body := [] }
  else if containsToken (headerValueCaseInsensitiveView headers (ascii "Transfer-Encoding"))
      (ascii "chunked") then { response with headers }
  else
    { response with
      headers := putDefault headers (ascii "Content-Length") (HttpParser.toChars 10 size) }

def armRequestTimer (server : Server) (state : ClientState) : ClientState :=
  if server.requestTimeout = 0 then state else { state with timerArmed := true }

def stopRequestTimer (state : ClientState) : ClientState := { state with timerArmed := false }

/-- The locked part of `handleDataReceived`: the client with the new bytes, and whether
the call goes on to `processBufferedRequests`. -/
def appendData (server : Server) (state : ClientState) (data : Bytes) : ClientState × Bool :=
  let state := compactClientBufferLocked state
  let state := if state.bufferOffset = 0 ∧ state.buffer = [] then { state with buffer := data }
    else { state with buffer := state.buffer ++ data }
  let state := armRequestTimer server state
  if state.processing then (state,false) else ({ state with processing := true },true)

/-- The locked part of a turn of `processBufferedRequests`: the client, and the request
that is to be answered if there is one. -/
def takeNext (server : Server) (state : ClientState) :
    Outcome Exn (ClientState × Option ParsedRequest) :=
  let pending := makeBufferedView state
  if server.maxRequestSize < pending.size then
    .ret (stopRequestTimer { state with processing := false, buffer := [], bufferOffset := 0 },
      some { consumedBytes := pending.size, keepAlive := false,
             immediateResponse := some (makeErrorResponse 413 (ascii "Payload Too Large")
               (ascii "HTTP request too large")) })
  else
    (tryExtractRequest state).map fun
      | none => ({ state with processing := false },none)
      | some parsedRequest =>
        let state := takeRequest state parsedRequest.consumedBytes
        (if (makeBufferedView state).text = [] then stopRequestTimer state
          else armRequestTimer server state,some parsedRequest)

inductive Entry where
  | dispatched (request : HttpRequest)
  | queued (response : HttpResponse) (closes : Bool)

def requests (log : List Entry) : List HttpRequest :=
  log.filterMap fun
    | .dispatched request => some request
    | .queued _ _ => none

def dispatch (server : Server) (parsedRequest : ParsedRequest) : List Entry × HttpResponse :=
  let (log,response) :=
    match parsedRequest.immediateResponse with
    | some response => ([],response)
    | none => ([Entry.dispatched parsedRequest.request],server.dispatchRequest parsedRequest.request)
  (log,finalizeResponse (server.formatHttpDate parsedRequest.request) parsedRequest.request
    parsedRequest.keepAlive response)

/-- Where a call of `processBufferedRequests` stands: before it takes a request, before it
dispatches the one it has taken, before it sends the response. -/
inductive Call where
  | ready
  | answering (parsedRequest : ParsedRequest)
  | sending (keepAlive : Bool) (response : HttpResponse)

structure Connection where
  client : Option ClientState := some {}
  calls : List Call := []
  log : List Entry := []

/-- What happens on a connection. A send is accepted or not, as the transport will have
it; the transport drops the connection when the queue is empty after
`closeClientAfterPendingWrites`, on an error, on a timeout, or when the peer closes it. -/
inductive Event where
  | data (bytes : Bytes)
  | advance (i : Nat) (accepted : Bool)
  | dropped

/-- The next move of a call. A call that throws, or that does not come back, makes no
further move and leaves the client as it is. -/
def advance (server : Server) (c : Connection) (i : Nat) (accepted : Bool) : Call → Connection
  | .ready =>
    match c.client with
    | none => { c with calls := c.calls.eraseIdx i }
    | some state =>
      match takeNext server state with
      | .ret (state,some parsedRequest) =>
        { c with client := some state, calls := c.calls.set i (.answering parsedRequest) }
      | .ret (state,none) => { c with client := some state, calls := c.calls.eraseIdx i }
      | .threw _ => { c with calls := c.calls.eraseIdx i }
      | .hang => { c with calls := c.calls.eraseIdx i }
  | .answering parsedRequest =>
    let (log,response) := dispatch server parsedRequest
    { c with log := c.log ++ log, calls := c.calls.set i (.sending parsedRequest.keepAlive response) }
  | .sending keepAlive response =>
    if !accepted then { c with client := none, calls := c.calls.eraseIdx i }
    else if keepAlive then
      { c with log := c.log ++ [.queued response false], calls := c.calls.set i .ready }
    else { c with log := c.log ++ [.queued response true], calls := c.calls.eraseIdx i }

def step (server : Server) (c : Connection) : Event → Connection
  | .data bytes =>
    match c.client with
    | none => c
    | some state =>
      let (state,shouldProcess) := appendData server state bytes
      { c with client := some state, calls := if shouldProcess then c.calls ++ [.ready] else c.calls }
  | .advance i accepted =>
    match c.calls[i]? with
    | none => c
    | some call => advance server c i accepted call
  | .dropped => { c with client := none }

/-- `handleClientConnected`. -/
def connected (address : Address) : Connection := { client := some { clientAddress := address } }

def Entry.closes : Entry → Bool
  | .dispatched _ => false
  | .queued _ closes => closes

def SilentAfterClose (log : List Entry) : Prop := ∀ e ∈ log.dropLast, e.closes = false

instance (log : List Entry) : Decidable (SilentAfterClose log) :=
  inferInstanceAs (Decidable (∀ e ∈ log.dropLast, e.closes = false))

def fits (server : Server) (c : Connection) : Event → Bool
  | .advance i _ =>
    match c.calls[i]?, c.client with
    | some .ready, some state => (unread state).length ≤ server.maxRequestSize
    | _, _ => true
  | .data _ => true
  | .dropped => true

theorem compact_processing (state : ClientState) :
    (compactClientBufferLocked state).processing = state.processing := by
  unfold compactClientBufferLocked
  split
  · rfl
  · split
    · rfl
    · split
      · rfl
      · rfl

theorem arm_processing (server : Server) (state : ClientState) :
    (armRequestTimer server state).processing = state.processing := by
  unfold armRequestTimer
  split
  · rfl
  · rfl

theorem appendData_processing (server : Server) (state : ClientState) (data : Bytes) :
    (appendData server state data).1.processing = true ∧
      (appendData server state data).2 = !state.processing := by
  have hp : (armRequestTimer server
      (if (compactClientBufferLocked state).bufferOffset = 0 ∧
        (compactClientBufferLocked state).buffer = []
      then { compactClientBufferLocked state with buffer := data }
      else { compactClientBufferLocked state with
        buffer := (compactClientBufferLocked state).buffer ++ data })).processing =
      state.processing := by
    rw [arm_processing,← compact_processing state]
    split
    · rfl
    · rfl
  simp only [appendData]
  cases hs : state.processing with
  | true =>
    rw [hs] at hp
    simp [hp]
  | false =>
    rw [hs] at hp
    simp [hp]

variable {server : Server} {state state' : ClientState} {log : List Entry} {calls : List Call} {c : Connection} {i : Nat} {call : Call}

theorem takeNext_processing
    {parsedRequest : ParsedRequest} (hfits : (unread state).length ≤ server.maxRequestSize)
    (h : takeNext server state = .ret (state',some parsedRequest)) :
    state'.processing = state.processing := by
  rw [takeNext,makeBufferedView_size] at h
  simp only [if_neg (show ¬ server.maxRequestSize < (unread state).length by omega),Outcome.map,
    Outcome.bind_eq_ret_iff] at h
  obtain ⟨result,-,h⟩ := h
  cases result with
  | none => cases h
  | some r =>
    have hproc : (takeRequest state r.consumedBytes).processing = state.processing :=
      compact_processing _
    simp only [Outcome.ret.injEq,Prod.mk.injEq] at h
    rw [← h.1,← hproc]
    split
    · rfl
    · exact arm_processing server _

/-- What holds between the events of a connection: one call at most is running, the flag
is set while it does, and once a closing response is queued the flag stays set and no
call is running. -/
structure Inv (c : Connection) : Prop where
  one : c.calls.length ≤ 1
  busy : c.calls ≠ [] → ∀ state, c.client = some state → state.processing = true
  silent : SilentAfterClose c.log
  done : (∃ e ∈ c.log, e.closes = true) →
    c.calls = [] ∧ ∀ state, c.client = some state → state.processing = true

theorem silent_concat (h : ¬ ∃ e ∈ log, e.closes = true) (entry : Entry) :
    SilentAfterClose (log ++ [entry]) := by
  intro e he
  rw [dropLast_concat] at he
  cases hc : e.closes with
  | false => rfl
  | true => exact absurd ⟨e,he,hc⟩ h

theorem open_concat (h : ¬ ∃ e ∈ log, e.closes = true) {entry : Entry}
    (hentry : entry.closes = false) : ¬ ∃ e ∈ log ++ [entry], e.closes = true := by
  rintro ⟨e,he,hc⟩
  rcases mem_append.mp he with he | he
  · exact h ⟨e,he,hc⟩
  · rw [mem_singleton.mp he,hentry] at hc
    cases hc

theorem dispatch_log (server : Server) (parsedRequest : ParsedRequest) :
    (dispatch server parsedRequest).1 = [] ∨
      ∃ request, (dispatch server parsedRequest).1 = [.dispatched request] := by
  unfold dispatch
  cases parsedRequest.immediateResponse with
  | none => exact .inr ⟨_,rfl⟩
  | some response => exact .inl rfl

theorem inv_connected (address : Address) : Inv (connected address) :=
  ⟨by simp [connected],by simp [connected],by simp [connected,SilentAfterClose],
    by simp [connected]⟩

theorem only_call (h : calls.length ≤ 1) {i : Nat} {call : Call}
    (hi : calls[i]? = some call) : i = 0 ∧ calls = [call] := by
  match calls, h with
  | [], _ => simp at hi
  | [c], _ =>
    cases i with
    | zero => simpa using hi
    | succ i => simp at hi

theorem inv_data (h : Inv c) (bytes : Bytes) : Inv (step server c (.data bytes)) := by
  cases hc : c.client with
  | none => simpa [step,hc] using h
  | some state =>
    obtain ⟨hp,hsh⟩ := appendData_processing server state bytes
    simp only [step,hc,hsh]
    cases hs : state.processing with
    | true => exact ⟨h.one,by simp [hp],h.silent,fun hclos => ⟨(h.done hclos).1,by simp [hp]⟩⟩
    | false =>
      -- the flag is down, so no call is running and no closing response is queued
      have hcalls : c.calls = [] := by
        by_contra hne
        have := h.busy hne state hc
        rw [hs] at this
        cases this
      refine ⟨by simp [hcalls],by simp [hp],h.silent,fun hclos => ?_⟩
      have := (h.done hclos).2 state hc
      rw [hs] at this
      cases this

theorem inv_advance (h : Inv c) {i : Nat} {accepted : Bool}
    (hfits : fits server c (.advance i accepted) = true) : Inv (step server c (.advance i accepted)) := by
  cases hcall : c.calls[i]? with
  | none => simpa [step,hcall] using h
  | some call =>
    obtain ⟨rfl,hcalls⟩ := only_call h.one hcall
    have hne : c.calls ≠ [] := by simp [hcalls]
    have hopen : ¬ ∃ e ∈ c.log, e.closes = true := fun hclos => hne (h.done hclos).1
    have hbusy := h.busy hne
    simp only [step,hcall]
    cases call with
    | ready =>
      cases hc : c.client with
      | none =>
        simp only [advance,hc,hcalls]
        exact ⟨by simp,by simp,h.silent,fun hclos => absurd hclos hopen⟩
      | some state =>
        have hlimit : (unread state).length ≤ server.maxRequestSize := by
          simpa [fits,hcall,hc] using hfits
        simp only [advance,hc,hcalls]
        cases ht : takeNext server state with
        | ret result =>
          obtain ⟨state',found⟩ := result
          cases found with
          | none => exact ⟨by simp,by simp,h.silent,fun hclos => absurd hclos hopen⟩
          | some parsedRequest =>
            have hp := takeNext_processing hlimit ht
            rw [hbusy state hc] at hp
            exact ⟨by simp,by simp [hp],h.silent,fun hclos => absurd hclos hopen⟩
        | threw e => exact ⟨by simp,by simp,h.silent,fun hclos => absurd hclos hopen⟩
        | hang => exact ⟨by simp,by simp,h.silent,fun hclos => absurd hclos hopen⟩
    | answering parsedRequest =>
      simp only [advance,hcalls]
      rcases dispatch_log server parsedRequest with hlog | ⟨request,hlog⟩
      · simp only [hlog,append_nil]
        exact ⟨by simp,fun _ => hbusy,h.silent,fun hclos => absurd hclos hopen⟩
      · simp only [hlog]
        exact ⟨by simp,fun _ => hbusy,silent_concat hopen _,
          fun hclos => absurd hclos (open_concat hopen rfl)⟩
    | sending keepAlive response =>
      simp only [advance,hcalls]
      cases accepted with
      | false => exact ⟨by simp,by simp,h.silent,fun hclos => absurd hclos hopen⟩
      | true =>
        cases keepAlive with
        | true =>
          exact ⟨by simp,fun _ => hbusy,silent_concat hopen _,
            fun hclos => absurd hclos (open_concat hopen rfl)⟩
        | false => exact ⟨by simp,by simp,silent_concat hopen _,fun _ => ⟨by simp,hbusy⟩⟩

theorem inv_step {event : Event} (h : Inv c)
    (hfits : fits server c event = true) : Inv (step server c event) := by
  cases event with
  | data bytes => exact inv_data h bytes
  | advance i accepted => exact inv_advance h hfits
  | dropped => exact ⟨h.one,by simp [step],h.silent,fun hc => ⟨(h.done hc).1,by simp [step]⟩⟩

/-- When no turn of the loop finds more than the server allows, nothing follows the
response that closes the connection. -/
theorem nothing_follows_close (server : Server) (address : Address) {events : List Event}
    (h : Machine.Meets (step server) (fun c e => fits server c e = true) (connected address) events) :
    SilentAfterClose (Machine.runs (step server) (connected address) events).log :=
  (Machine.invariant (fun _ _ => inv_step) (inv_connected address) h).silent

def plainServer : Server where
  maxRequestSize := 1024
  dispatchRequest _ := {}
  formatHttpDate _ := ascii "Thu, 01 Jan 1970 00:00:00 GMT"

/-- A request that asks for the close, and another one behind it. -/
theorem nothing_follows_close_get :
    let events : List Event :=
      [.data (ascii "GET / HTTP/1.1\r\nConnection: close\r\n\r\n"),.advance 0 true,
        .advance 0 true,.advance 0 true,.data (ascii "GET / HTTP/1.1\r\nHost: a\r\n\r\n"),
        .advance 0 true]
    SilentAfterClose (Machine.runs (step plainServer) (connected {}) events).log ∧
      (Machine.runs (step plainServer) (connected {}) events).log.map Entry.closes =
        [false,true] :=
  ⟨nothing_follows_close plainServer {} (by decide +kernel),by decide +kernel⟩

/-- More bytes than the server allows are answered with 413 and a close; the request that
arrives before the close is carried out is dispatched all the same. -/
theorem request_follows_close :
    let events : List Event :=
      [.data (List.replicate 1025 120),.advance 0 true,.advance 0 true,.advance 0 true,
        .data (ascii "GET / HTTP/1.1\r\nHost: a\r\n\r\n"),.advance 0 true,.advance 0 true,
        .advance 0 true]
    ¬ SilentAfterClose (Machine.runs (step plainServer) (connected {}) events).log ∧
      (Machine.runs (step plainServer) (connected {}) events).log.map Entry.closes =
        [true,false,false] := by
  decide +kernel

/-! ### No request is forgotten -/

def Call.loops : Call → Bool
  | .ready => true
  | .answering parsedRequest => parsedRequest.keepAlive
  | .sending keepAlive _ => keepAlive

theorem loops_set (h : calls[i]? = some call) (next : Call) :
    (calls.set i next).countP Call.loops + call.loops.toNat = calls.countP Call.loops + next.loops.toNat := by
  obtain ⟨hi,rfl⟩ := List.getElem?_eq_some_iff.mp h
  have hpos : calls[i].loops = true → 0 < calls.countP Call.loops :=
    fun hloops => List.countP_pos_iff.mpr ⟨_,List.getElem_mem hi,hloops⟩
  rw [List.countP_set hi]
  cases hloops : calls[i].loops with
  | false => cases next.loops <;> simp
  | true =>
    have := hpos hloops
    cases next.loops <;> simp <;> omega

theorem loops_eraseIdx (h : calls[i]? = some call) :
    (calls.eraseIdx i).countP Call.loops + call.loops.toNat = calls.countP Call.loops := by
  induction calls generalizing i with
  | nil => simp at h
  | cons first calls ih =>
    cases i with
    | zero =>
      obtain rfl : first = call := by simpa using h
      cases hfirst : first.loops <;> simp [hfirst]
    | succ i =>
      have := ih (by simpa using h)
      simp only [eraseIdx_cons_succ,countP_cons]
      omega

/-- One call at most will look again, the flag is up while it runs, and behind a flag that is down
there is nothing to find. -/
structure Attended (c : Connection) : Prop where
  one : c.calls.countP Call.loops ≤ 1
  busy : ∀ state, c.client = some state → 0 < c.calls.countP Call.loops → state.processing = true
  idle : ∀ state, c.client = some state → state.processing = false → tryExtractRequest state = .ret none

theorem tryExtractRequest_empty (h : unread state = []) : tryExtractRequest state = .ret none := by
  simp only [tryExtractRequest,makeBufferedView_text,h]
  rfl

theorem takeNext_cases {found : Option ParsedRequest} (h : takeNext server state = .ret (state',found)) :
    (state'.processing = false ∧ tryExtractRequest state' = .ret none ∧ ∀ r ∈ found, r.keepAlive = false) ∨
      (state'.processing = state.processing ∧ ∃ r, found = some r) := by
  by_cases hlimit : (unread state).length ≤ server.maxRequestSize
  · cases found with
    | some r => exact .inr ⟨takeNext_processing hlimit h,r,rfl⟩
    | none =>
      rw [takeNext,makeBufferedView_size] at h
      simp only [if_neg (Nat.not_lt.mpr hlimit),Outcome.map,Outcome.bind_eq_ret_iff] at h
      obtain ⟨result,hresult,h⟩ := h
      cases result with
      | some r => cases h
      | none =>
        cases h
        exact .inl ⟨rfl,hresult,by simp⟩
  · rw [takeNext,makeBufferedView_size,if_pos (Nat.lt_of_not_le hlimit)] at h
    cases h
    exact .inl ⟨rfl,tryExtractRequest_empty rfl,by simp⟩

theorem Attended.turn (h : Attended c) {i : Nat} {state : ClientState}
    (hi : c.calls[i]? = some .ready) (hc : c.client = some state) {accepted : Bool} :
    Attended (advance server c i accepted .ready) := by
  have herase := loops_eraseIdx hi
  have hset := loops_set hi
  have hone := h.one
  simp only [Call.loops,Bool.toNat_true] at herase
  have hbusy := h.busy state hc (by omega)
  simp only [advance,hc]
  cases ht : takeNext server state with
  | ret result =>
    obtain ⟨state',found⟩ := result
    rcases takeNext_cases ht with ⟨hdown,hnone,hlast⟩ | ⟨hflag,r,rfl⟩
    · cases found with
      | none => exact ⟨by simp only; omega,by simp only; omega,by simp [hnone]⟩
      | some r =>
        have hr := hset (.answering r)
        simp only [Call.loops,hlast r rfl,Bool.toNat_true,Bool.toNat_false] at hr
        exact ⟨by simp only; omega,by simp only; omega,by simp [hnone]⟩
    · have hr := hset (.answering r)
      have := Bool.toNat_le r.keepAlive
      simp only [Call.loops,Bool.toNat_true] at hr
      rw [hbusy] at hflag
      exact ⟨by simp only; omega,by simp [hflag],by simp [hflag]⟩
  | threw e => exact ⟨by simp only; omega,by simp only; omega,by simpa [hc] using h.idle⟩
  | hang => exact ⟨by simp only; omega,by simp only; omega,by simpa [hc] using h.idle⟩

theorem attended_step (h : Attended c) (event : Event) : Attended (step server c event) := by
  have hone := h.one
  cases event with
  | dropped => exact ⟨hone,by simp [step],by simp [step]⟩
  | data bytes =>
    cases hc : c.client with
    | none => simpa [step,hc] using h
    | some state =>
      obtain ⟨hflag,hshould⟩ := appendData_processing server state bytes
      simp only [step,hc,hshould]
      refine ⟨?_,by simp [hflag],by simp [hflag]⟩
      cases hs : state.processing with
      | true => simpa using hone
      | false =>
        have hquiet : c.calls.countP Call.loops = 0 := by
          have := h.busy state hc
          rw [hs] at this
          simpa using this
        simp [countP_append,hquiet,Call.loops]
  | advance i accepted =>
    cases hi : c.calls[i]? with
    | none => simpa [step,hi] using h
    | some call =>
      have herase := loops_eraseIdx hi
      have hset := loops_set hi
      simp only [step,hi]
      cases call with
      | ready =>
        cases hc : c.client with
        | none =>
          simp only [advance,hc]
          exact ⟨by simp only; omega,by simp,by simp⟩
        | some state => exact h.turn hi hc
      | answering r =>
        have hr := hset (.sending r.keepAlive (dispatch server r).2)
        simp only [Call.loops,Nat.add_right_cancel_iff] at hr
        exact ⟨by simpa only [advance,hr] using hone,by simpa only [advance,hr] using h.busy,h.idle⟩
      | sending keepAlive response =>
        cases accepted with
        | false => exact ⟨by simp only [advance]; simp; omega,by simp [advance],by simp [advance]⟩
        | true =>
          cases keepAlive with
          | true =>
            have hr := hset .ready
            simp only [Call.loops,Nat.add_right_cancel_iff] at hr
            exact ⟨by simpa [advance,hr] using hone,by simpa [advance,hr] using h.busy,h.idle⟩
          | false =>
            simp only [Call.loops,Bool.toNat_false,Nat.add_zero] at herase
            exact ⟨by simpa [advance,herase] using hone,by simpa [advance,herase] using h.busy,h.idle⟩

/-- Whatever the clients of a server do, and however the calls are interleaved: while the flag of a client is down,
no complete request waits in its buffer. -/
theorem no_forgotten_request (server : Server) (address : Nat → Address) (events : List (Nat × Event)) (id : Nat)
    {state : ClientState}
    (hclient : (Machine.runs (Machine.family (step server)) (fun id => connected (address id)) events id).client =
      some state)
    (hflag : state.processing = false) : tryExtractRequest state = .ret none := by
  have hstart : ∀ id, Attended (connected (address id)) := fun id =>
    ⟨by simp [connected],by simp [connected],fun state hstate _ => tryExtractRequest_empty (by
      cases hstate
      rfl)⟩
  have hrun := @Machine.family_invariant _ _ (step server) _ _ Attended (fun _ _ => True)
    (fun _ e h _ => attended_step h e) _ hstart events (Machine.meets_of_always (fun _ _ => trivial) _ _) id
  exact hrun.idle state hclient hflag

/-- A call takes a request off, answers it, and goes when it finds half of another one. -/
theorem no_forgotten_request_half :
    let c := Machine.runs (Machine.family (step plainServer)) (fun _ => connected {})
      [(1,.data (ascii "GET / HTTP/1.1\r\nHost: a\r\n\r\nGET")),(1,.advance 0 true),(1,.advance 0 true),
        (1,.advance 0 true),(1,.advance 0 true)] 1
    c.client.map (fun state => (unread state,state.processing)) = some (ascii "GET",false) ∧
      ∀ state ∈ c.client, tryExtractRequest state = .ret none := by
  intro c
  have hrun : c.client.map (fun state => (unread state,state.processing)) = some (ascii "GET",false) := by
    decide +kernel
  refine ⟨hrun,fun state hstate => ?_⟩
  have hclient : c.client = some state := hstate
  rw [hclient,Option.map_some,Option.some.injEq,Prod.mk.injEq] at hrun
  exact no_forgotten_request plainServer (fun _ => {}) _ 1 hclient hrun.2

/-- One call at most goes back to the buffer of a client, and only while the flag is up. -/
theorem processing_exclusive (server : Server) (address : Address) (events : List Event) :
    let c := runs (step server) (connected address) events
    c.calls.countP Call.loops ≤ 1 ∧
      ∀ state ∈ c.client, 0 < c.calls.countP Call.loops → state.processing = true := by
  have hstart : Attended (connected address) := by
    refine ⟨by simp [connected],by simp [connected],fun state hstate _ => ?_⟩
    cases hstate
    exact tryExtractRequest_empty rfl
  have h := @traces _ _ (step server) (fun _ c => Attended c) _ hstart (fun _ e _ h => attended_step h e) events
  exact ⟨h.one,h.busy⟩

end FastNet.HttpServer
