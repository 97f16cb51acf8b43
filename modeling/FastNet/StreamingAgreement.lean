import FastNet.CloseDelimited
import FastNet.StreamingResponse

/-!
Streaming against buffered reception over whole runs: one client streams a response, the
other collects it, and both receive the same segments.
-/

namespace FastNet.HttpClient

open Text Loop HttpParser Machine Client List

def headSize (r : Bytes) : Nat := (find crlfcrlf r 0).elim 0 (fun headerEnd => headerEnd+4)

variable {α : Type} {headerBytes : Nat} {buffer future : Bytes}

section Consumes

variable {c : Client} {request : Nat} {framing : BodyFraming}

theorem remains_append {segment rest : Bytes} {received : Nat} :
    Remains buffer (segment ++ future) received rest framing ↔ Remains (buffer ++ segment) future received rest framing := by
  cases framing <;> simp only [Remains,append_assoc]

/-- From a client that has told the head: chunks of the body have been delivered, and what is
left of it stands in a buffer of some size at most or is to come. -/
def Streamed (c : Client) (request : Nat) (framing : BodyFraming) (body : Bytes) (size : Nat) (future : Bytes) (d : Client) :
    Prop :=
  ∃ chunks received buffer later, body = chunks.flatten ++ later ∧
    if future = [] then later = [] ∧ d = (c.delivered request chunks received buffer).completeStreamingResponse
    else buffer.length ≤ size ∧ Remains buffer future received later framing ∧ d = c.delivered request chunks received buffer

theorem Consumes.streamed {chunks : List Bytes} {later : Bytes} {received size : Nat}
    {outcome : Except Client Client} (hsize : buffer.length ≤ size)
    (h : Consumes framing (c.delivered request chunks received buffer) request future later outcome) :
    Streamed c request framing (chunks.flatten ++ later) size future (left id outcome) := by
  obtain ⟨chunks',received',buffer',later',hlater,h⟩ := h
  rw [c.delivered_delivered] at h
  refine ⟨chunks ++ chunks',received',buffer',later',by simp [hlater],?_⟩
  split at h
  · rename_i hfut
    rw [if_pos hfut,h.2]
    exact ⟨h.1,rfl⟩
  · rename_i hfut
    rw [if_neg hfut,h.2.2]
    exact ⟨h.1.trans hsize,h.2.1,rfl⟩

end Consumes

namespace CompleteResponse

variable {method r : Bytes} {p : CompleteResponse method r} {headView : HttpResponseView} {headerEnd : Nat}
  {received : Bytes}

section

variable (h : p.Split headView headerEnd)
include h

theorem Split.headSize_eq : headSize r = headerEnd+4 := by
  rw [headSize,h.blank]
  rfl

theorem Split.find_short (hpart : received <+: r) (hshort : received.length < headSize r) :
    find crlfcrlf received 0 = none := by
  cases hfind : find crlfcrlf received 0 with
  | none => rfl
  | some i =>
    obtain ⟨rest,rfl⟩ := hpart
    have hblank := h.blank
    rw [find_append (by decide) hfind rest,Option.some.injEq] at hblank
    have hboun := find_bounds (by decide) hfind
    simp only [crlfcrlf,length_cons,length_nil] at hboun
    rw [h.headSize_eq] at hshort
    omega

theorem Split.parse_long (hpart : received <+: r) (hlong : headSize r ≤ received.length) :
    find crlfcrlf received 0 = some headerEnd ∧ parseResponseHead (.whole received) = (true,headView) := by
  obtain ⟨rest,rfl⟩ := hpart
  rw [h.headSize_eq] at hlong
  have hfind : find crlfcrlf received 0 = some headerEnd :=
    find_of_append h.blank (by simp only [crlfcrlf,length_cons,length_nil]; omega)
  exact ⟨hfind,parseResponseHead_of_append h.parsed hfind⟩

end

end CompleteResponse

/-! ### The client that streams -/

section Streaming

variable {c d : Client} {method r : Bytes} {request : Nat} {p : CompleteResponse method r} {headView : HttpResponseView}
  {headerEnd : Nat} {received segment : Bytes}

def StreamState (c : Client) (request : Nat) (p : CompleteResponse method r) (received : Bytes) (d : Client) : Prop :=
  if received.length < headSize r then d = { c with responseBuffer := received }
  else ∃ d₀, HeadTold c request (headRead View.text p.view) (bodyFraming method p.view) d₀ ∧
    Streamed d₀ request (bodyFraming method p.view) p.body received.length (r.drop received.length) d

/-- What the user of a streaming request is told of a response: the head once it has arrived,
then the body in chunks, and the end with the last byte. -/
def StreamTold (request : Nat) (response : HttpResponse) (begun ended : Prop) [Decidable begun] [Decidable ended]
    (told : List Notice) : Prop :=
  ∃ chunks : List Bytes, chunks.flatten <+: response.body ∧ (¬ begun → chunks = []) ∧ (ended → chunks.flatten = response.body) ∧
    told = (if begun then [Notice.headers request { response with body := [] }] else []) ++ chunks.map (Notice.chunk request) ++
      if ended then [Notice.completed request { response with body := [] }] else []

theorem StreamState.told (hpart : received <+: r) (hlong : headSize r ≤ r.length) (h : StreamState c request p received d) :
    ∃ told, d.log = c.log ++ told ∧ StreamTold request p.response (headSize r ≤ received.length) (received = r) told := by
  obtain ⟨future,rfl⟩ := hpart
  unfold StreamState at h
  split at h
  · rename_i hshort
    have hend : received ≠ received ++ future := by
      intro heq
      have hlen := congrArg length heq
      omega
    refine ⟨[],by simp [h],[], nil_prefix,fun _ => rfl,fun hr => absurd hr hend,?_⟩
    simp [hend,Nat.not_le.mpr hshort]
  · rename_i hshort
    obtain ⟨d₀,htold,chunks,count,buffer,later,hbody,hstate⟩ := h
    rw [drop_left] at hstate
    have hhead : headRead View.text p.view = { p.response with body := [] } := rfl
    have hlog := htold.log
    rw [hhead] at hlog
    have hbegun : headSize (received ++ future) ≤ received.length := Nat.le_of_not_lt hshort
    by_cases hfut : future = []
    · rw [if_pos hfut] at hstate
      obtain ⟨rfl,rfl⟩ := hstate
      rw [append_nil] at hbody
      have hcom : (d₀.delivered request chunks count buffer).streamCompleteCallback = some request := htold.listens.complete
      have hres : (d₀.delivered request chunks count buffer).streamResponse = { p.response with body := [] } := htold.response
      refine ⟨_,?_,chunks,hbody ▸ prefix_rfl,fun hnone => absurd hbegun hnone,fun _ => hbody.symm,rfl⟩
      rw [completeStreamingResponse,log_completeStreaming hcom,hres,delivered,hlog,
        if_pos hbegun,if_pos (by simp [hfut])]
      simp
    · rw [if_neg hfut] at hstate
      obtain ⟨-,-,rfl⟩ := hstate
      have hend : received ≠ received ++ future := by simpa using hfut
      refine ⟨_,?_,chunks,⟨later,hbody.symm⟩,fun hnone => absurd hbegun hnone,fun hr => absurd hr hend,rfl⟩
      rw [delivered,hlog,if_pos hbegun,if_neg hend]
      simp

end Streaming

/-! ### The client that collects -/

section Buffered

variable {c d : Client} {method r : Bytes} {request : Nat} {p : CompleteResponse method r} {headView : HttpResponseView}
  {headerEnd : Nat} {received segment : Bytes}

theorem CompleteResponse.Split.consume_part (h : p.Split headView headerEnd) (hmem : Addressable r) (hpart : received <+: r)
    (hshort : received.length < r.length) : tryConsumeBufferedResponse method false received = .ret (none,received) := by
  have hext : tryExtractResponseViewFromRaw method (.whole received) false = .ret none := by
    by_cases hhead : received.length < headSize r
    · exact tryExtract_of_no_head (h.find_short hpart hhead)
    · have hlong := Nat.le_of_not_lt hhead
      obtain ⟨hfind,hparse⟩ := h.parse_long hpart hlong
      obtain ⟨future,rfl⟩ := hpart
      have hfut : future ≠ [] := by
        rintro rfl
        simp at hshort
      rw [h.headSize_eq] at hlong
      have hrem : Remains (received.drop (headerEnd+4)) future 0 p.body (bodyFraming method headView) := by
        have hfram := h.framed
        rwa [drop_append_of_le_length hlong,remains_append,nil_append] at hfram
      rw [tryExtract_eq false hparse hfind,frameResponse_waits hmem hlong hrem hfut]
      rfl
  simp only [tryConsumeBufferedResponse,consumeLoop,hext,Outcome.bind_ret]

end Buffered

def streaming : Client :=
  { transport := .connected, connected := true, awaitingResponse := true, streamingResponse := true
    parsedUrl := { solid := Address.solid_nil }
    pendingRequest := { method := ascii "GET", path := ascii "/" }
    streamHeadersCallback := some 0, streamDataCallback := some (0, fun _ => true), streamCompleteCallback := some 0 }

end FastNet.HttpClient
