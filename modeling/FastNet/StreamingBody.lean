import FastNet.ChunkedBuild
import FastNet.ClientLifecycle

/-!
How `HttpClient` takes the body of a streaming response off its buffer.
-/

namespace FastNet.HttpClient

open Text Numeral HttpParser Chunked Client List

structure Listens (c : Client) (request : Nat) : Prop where
  streaming : c.streamingResponse = true
  data : ∃ accepts, c.streamDataCallback = some (request,accepts) ∧ ∀ chunk, accepts chunk = true
  complete : c.streamCompleteCallback = some request

namespace Client

variable {c : Client} {request : Nat}

def delivered (c : Client) (request : Nat) (chunks : List Bytes) (received : Nat) (buffer : Bytes) :
    Client :=
  { c with log := c.log ++ chunks.map (Notice.chunk request)
           streamReceivedBodyBytes := received
           responseBuffer := buffer }

theorem delivered_nil (c : Client) (request : Nat) :
    c.delivered request [] c.streamReceivedBodyBytes c.responseBuffer = c := by
  simp [delivered]

theorem delivered_delivered (c : Client) (request : Nat) (chunks chunks' : List Bytes)
    (received received' : Nat) (buffer buffer' : Bytes) :
    (c.delivered request chunks received buffer).delivered request chunks' received' buffer' =
      c.delivered request (chunks ++ chunks') received' buffer' := by
  simp [delivered]

theorem log_completeStreaming (h : c.streamCompleteCallback = some request) {response : HttpResponse} :
    (c.completeStreaming response).log = c.log ++ [.completed request response] := by
  unfold completeStreaming restoreRequestTimeoutOverride
  cases hover : c.pendingRequestOverrideTimeout with
  | none => simp [stopRequestTimer,hover,h,tell]
  | some timeout => simp [stopRequestTimer,hover,h,tell]

def FramedAs (c : Client) : BodyFraming → Prop
  | .empty => c.streamNoBody = true
  | .length n => c.streamNoBody = false ∧ c.streamChunked = false ∧ c.streamContentLength = some n
  | .chunked => c.streamNoBody = false ∧ c.streamChunked = true
  | .untilClose => False

end Client

/-- The bytes that are buffered and those that are to come hold the rest of the body. -/
def Remains (buffer future : Bytes) (received : Nat) (rest : Bytes) : BodyFraming → Prop
  | .empty => buffer ++ future = [] ∧ rest = []
  | .length n => received+(buffer ++ future).length = n ∧ rest = buffer ++ future
  | .chunked => Message isTrailerLine (buffer ++ future) 0 rest (buffer ++ future).length
  | .untilClose => False

/-- Chunks of the rest of the body have been delivered: all of them, and the response is
complete, when no byte is to come, and else some of them. The buffer has not grown. -/
def Consumes (framing : BodyFraming) (c : Client) (request : Nat) (future rest : Bytes)
    (outcome : Except Client Client) : Prop :=
  ∃ chunks received buffer later, rest = chunks.flatten ++ later ∧
    if future = [] then
      later = [] ∧
        outcome = .ok (c.delivered request chunks received buffer).completeStreamingResponse
    else
      buffer.length ≤ c.responseBuffer.length ∧ Remains buffer future received later framing ∧
        outcome = .ok (c.delivered request chunks received buffer)

section Consumes

variable {c : Client} {request : Nat} {future rest : Bytes} {framing : BodyFraming}

theorem Consumes.waits (hfut : future ≠ [])
    (h : Remains c.responseBuffer future c.streamReceivedBodyBytes rest framing) :
    Consumes framing c request future rest (.ok c) := by
  refine ⟨[],c.streamReceivedBodyBytes,c.responseBuffer,rest,rfl,?_⟩
  rw [if_neg hfut,c.delivered_nil]
  exact ⟨Nat.le_refl _,h,rfl⟩

theorem Consumes.ends (hfut : future = []) (hrest : rest = []) {buffer : Bytes} :
    Consumes framing c request future rest
      (.ok { c with responseBuffer := buffer }.completeStreamingResponse) := by
  refine ⟨[],c.streamReceivedBodyBytes,buffer,[],hrest,?_⟩
  rw [if_pos hfut]
  exact ⟨rfl,by simp [delivered]⟩

theorem Consumes.chunk {d : Client} {chunk buffer : Bytes} {received : Nat}
    {outcome : Except Client Client} (hd : d = c.delivered request [chunk] received buffer)
    (hbuf : buffer.length ≤ c.responseBuffer.length) (h : Consumes framing d request future rest outcome) :
    Consumes framing c request future (chunk ++ rest) outcome := by
  obtain ⟨chunks,received',buffer',later,hrest,h⟩ := h
  refine ⟨chunk :: chunks,received',buffer',later,by simp [hrest],?_⟩
  rw [hd,c.delivered_delivered] at h
  split at h
  · rename_i hfut
    rw [if_pos hfut]
    exact h
  · rename_i hfut
    rw [if_neg hfut]
    exact ⟨h.1.trans hbuf,h.2⟩

section

variable (hc : Listens c request)
include hc

end

end Consumes

section Grows

def Grows (c d : Client) : Prop := c.log <+: d.log

variable {c d e : Client}

theorem Grows.of_eq (h : d.log = c.log) : Grows c d := by
  rw [Grows,h]

theorem Grows.trans (h : Grows c d) (h' : Grows d e) : Grows c e := List.IsPrefix.trans h h'

section

variable (c : Client)

end

end Grows

end FastNet.HttpClient
