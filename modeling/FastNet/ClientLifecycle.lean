import FastNet.ClientStreaming
import FastNet.Machine

/-!
The life of a request in `HttpClient`: how often its completion callback is called.
-/

namespace FastNet.HttpClient

open Client

def Notice.completes : Notice → Option Nat
  | .response request _ => some request
  | .completed request _ => some request
  | _ => none

def completions (log : List Notice) : List Nat := log.filterMap Notice.completes

structure Ledger where
  awaiting : Bool
  streaming : Bool
  replay : Bool
  connected : Bool
  response : Option Nat
  stream : Option Nat
  issued : Nat
  done : List Nat

def ledger (c : Client) : Ledger where
  awaiting := c.awaitingResponse
  streaming := c.streamingResponse
  replay := c.replayAfterConnect
  connected := c.connected
  response := c.responseCallback
  stream := c.streamCompleteCallback
  issued := c.issued
  done := completions c.log

namespace Ledger

def respond (k : Ledger) : Ledger := { k with done := k.done ++ k.response.toList }

def endStream (k : Ledger) : Ledger :=
  { k with awaiting := false, streaming := false, done := k.done ++ k.stream.toList }

def Open (k : Ledger) : Prop := ∀ i ∈ k.response, i ∉ k.done

/-- Every request has been completed once at most, and the flags tell which ones may
still be. -/
structure Sound (k : Ledger) : Prop where
  once : k.done.Nodup
  known : ∀ i ∈ k.done, i < k.issued
  response : ∀ i ∈ k.response, i < k.issued
  stream : ∀ i ∈ k.stream, i < k.issued
  apart : ∀ i ∈ k.response, i ∉ k.stream
  awaits : k.awaiting = true → k.Open
  replays : k.replay = true → k.Open ∧ k.awaiting = false ∧ k.connected = false
  streams : k.streaming = true → ∀ i ∈ k.stream, i ∉ k.done

variable {k k' : Ledger}

theorem nodup_completed {done : List Nat} (h : done.Nodup) {request : Option Nat}
    (hnew : ∀ i ∈ request, i ∉ done) : (done ++ request.toList).Nodup := by
  cases request with
  | none => simpa using h
  | some i =>
    have hi : i ∉ done := hnew i rfl
    simpa [List.nodup_append] using ⟨h,fun a ha heq => hi (heq ▸ ha)⟩

theorem Sound.respond (h : k.Sound) (hopen : k.Open) (ha : k.awaiting = false)
    (hr : k.replay = true → k.response = none) : k.respond.Sound := by
  have hdone {i : Nat} (hi : i ∈ k.respond.done) : i ∈ k.done ∨ i ∈ k.response := by
    simpa [Ledger.respond] using hi
  refine ⟨nodup_completed h.once hopen,?_,h.response,h.stream,h.apart,?_,?_,?_⟩
  · intro i hi
    rcases hdone hi with hi | hi
    · exact h.known i hi
    · exact h.response i hi
  · intro hawait
    simp [Ledger.respond,ha] at hawait
  · intro hrep
    have hnone : k.respond.response = none := hr hrep
    exact ⟨fun i hi => by simp [hnone] at hi,ha,(h.replays hrep).2.2⟩
  · intro hstr i hi hmem
    rcases hdone hmem with hmem | hmem
    · exact h.streams hstr i hi hmem
    · exact h.apart i hmem hi

theorem Sound.endStream (h : k.Sound) (hs : k.streaming = true) : k.endStream.Sound := by
  have hdone {i : Nat} (hi : i ∈ k.endStream.done) : i ∈ k.done ∨ i ∈ k.stream := by
    simpa [Ledger.endStream] using hi
  refine ⟨nodup_completed h.once (h.streams hs),?_,h.response,h.stream,h.apart,
    by simp [Ledger.endStream],?_,by simp [Ledger.endStream]⟩
  · intro i hi
    rcases hdone hi with hi | hi
    · exact h.known i hi
    · exact h.stream i hi
  · intro hrep
    obtain ⟨hopen,-,hc⟩ := h.replays hrep
    refine ⟨fun i hi hmem => ?_,rfl,hc⟩
    rcases hdone hmem with hmem | hmem
    · exact hopen i hi hmem
    · exact h.apart i hi hmem

theorem Sound.lower (h : k.Sound) {awaiting streaming replay connected : Bool}
    (ha : awaiting = true → k.awaiting = true) (hs : streaming = true → k.streaming = true)
    (hr : replay = true → k.replay = true ∧ connected = false) :
    Sound { k with awaiting, streaming, replay, connected } := by
  refine ⟨h.once,h.known,h.response,h.stream,h.apart,fun hawait => h.awaits (ha hawait),
    fun hrep => ?_,fun hstr => h.streams (hs hstr)⟩
  obtain ⟨hk,hc⟩ := hr hrep
  obtain ⟨hopen,hnot,-⟩ := h.replays hk
  refine ⟨hopen,?_,hc⟩
  cases awaiting with
  | false => rfl
  | true => exact absurd (ha rfl) (by simp [hnot])

def connectFailed (k : Ledger) : Ledger :=
  let k := { k with connected := false, awaiting := false }
  { (if k.replay then k.respond else k) with replay := false }

theorem Sound.connectFailed (h : k.Sound) : k.connectFailed.Sound := by
  have hlow : Sound { k with awaiting := false, replay := false, connected := false } :=
    h.lower (by simp) id (by simp)
  cases hr : k.replay with
  | false => simpa [Ledger.connectFailed,hr] using hlow
  | true =>
    have hres := hlow.respond (h.replays hr).1 rfl (by simp)
    simpa [Ledger.connectFailed,Ledger.respond,hr] using hres

/-- What the end of the connection does to a client that awaits nothing. -/
inductive Drops (k : Ledger) : Ledger → Prop where
  | same : Drops k k
  | lost : Drops k { k with connected := false }
  | failed : Drops k k.connectFailed

theorem Sound.drops (h : k.Sound) (hd : k.Drops k') : k'.Sound := by
  cases hd with
  | same => exact h
  | lost => exact h.lower id id (fun hr => ⟨hr,rfl⟩)
  | failed => exact h.connectFailed

theorem Drops.streaming (hd : k.Drops k') : k'.streaming = k.streaming := by
  cases hd with
  | same => rfl
  | lost => rfl
  | failed => cases hr : k.replay <;> simp [Ledger.connectFailed,Ledger.respond,hr]

theorem Drops.response (hd : k.Drops k') : k'.response = k.response := by
  cases hd with
  | same => rfl
  | lost => rfl
  | failed => cases hr : k.replay <;> simp [Ledger.connectFailed,Ledger.respond,hr]

theorem Drops.awaiting (hd : k.Drops k') (ha : k.awaiting = false) : k'.awaiting = false := by
  cases hd with
  | same => exact ha
  | lost => exact ha
  | failed => cases hr : k.replay <;> simp [Ledger.connectFailed,Ledger.respond,hr]

theorem Drops.open (hd : k.Drops k') (hopen : k.Open) (hr : k.replay = true → k.response = none) :
    k'.Open := by
  cases hd with
  | same => exact hopen
  | lost => exact hopen
  | failed =>
    cases hrep : k.replay with
    | false => simpa [Ledger.connectFailed,Ledger.Open,hrep] using hopen
    | true => simp [Ledger.connectFailed,Ledger.respond,Ledger.Open,hrep,hr hrep]

theorem Sound.not_replay (h : k.Sound) (ha : k.awaiting = true) : ¬ k.replay = true := by
  intro hr
  simpa [ha] using (h.replays hr).2.1

theorem Drops.not_replay (hd : k.Drops k') (hr : ¬ k.replay = true) : ¬ k'.replay = true := by
  cases hd with
  | same => exact hr
  | lost => exact hr
  | failed => simp [Ledger.connectFailed]

theorem Sound.settled (h : k.Sound) : Sound { k with awaiting := false } :=
  h.lower (by simp) id (fun hr => ⟨hr,(h.replays hr).2.2⟩)

def errored (k : Ledger) : Ledger :=
  if k.streaming then k.endStream
  else if k.response.isSome then { k with awaiting := false }.respond else k

theorem Sound.errored (h : k.Sound) (hopen : k.streaming = true ∨ k.response = none ∨ k.awaiting = true) :
    k.errored.Sound := by
  unfold Ledger.errored
  split
  · rename_i hs
    exact h.endStream hs
  · rename_i hs
    split
    · rename_i hsome
      rcases hopen with hstr | hnone | haw
      · exact absurd hstr hs
      · simp [hnone] at hsome
      · exact h.settled.respond (h.awaits haw) rfl (fun hr => absurd hr (h.not_replay haw))
    · exact h

theorem Sound.abandoned (h : k.Sound) (ha : k.awaiting = true)
    (hd : Drops { k with awaiting := false } k') :
    (k'.streaming = true → k'.endStream.Sound) ∧ k'.respond.Sound := by
  have hsound := h.settled.drops hd
  have hr := h.not_replay ha
  refine ⟨hsound.endStream,hsound.respond ?_ (hd.awaiting rfl) ?_⟩
  · exact hd.open (h.awaits ha) (fun h' => absurd h' hr)
  · exact fun h' => absurd h' (hd.not_replay hr)

def failAwaiting (k : Ledger) : Ledger :=
  if k.awaiting && k.response.isSome then { k with awaiting := false }.respond else k

theorem Sound.failAwaiting (h : k.Sound) : k.failAwaiting.Sound := by
  unfold Ledger.failAwaiting
  split
  · rename_i haw
    rw [Bool.and_eq_true] at haw
    exact h.settled.respond (h.awaits haw.1) rfl (fun hr => absurd hr (h.not_replay haw.1))
  · exact h

def Streams (k k' : Ledger) : Prop := k' = k ∨ k.endStream.Drops k'

theorem Streams.trans {k'' : Ledger} (hk : k.Streams k') (hs : k'.streaming = true)
    (hk' : k'.Streams k'') : k.Streams k'' := by
  rcases hk with rfl | hd
  · exact hk'
  · exact absurd (hd.streaming.symm.trans hs) Bool.false_ne_true

theorem Streams.awaiting (hk : k.Streams k') (ha : k'.awaiting = true) : k' = k := by
  rcases hk with heq | hd
  · exact heq
  · simp [hd.awaiting rfl] at ha

theorem Sound.streamed (h : k.Sound) (hs : k.streaming = true) (hk : k.Streams k') : k'.Sound := by
  rcases hk with rfl | hd
  · exact h
  · exact (h.endStream hs).drops hd

end Ledger

section Effects

open Ledger

variable {c : Client}

section

variable (c : Client)

theorem ledger_tell {notice : Notice} (h : notice.completes = none) :
    ledger (c.tell notice) = ledger c := by
  simp [ledger,Client.tell,completions,h]

@[simp] theorem ledger_stopRequestTimer : ledger c.stopRequestTimer = ledger c := rfl

@[simp] theorem ledger_restoreRequestTimeoutOverride :
    ledger c.restoreRequestTimeoutOverride = ledger c := by
  unfold restoreRequestTimeoutOverride
  split
  · rfl
  · rfl

@[simp] theorem ledger_respond (response : HttpResponse) :
    ledger (c.respond response) = (ledger c).respond := by
  unfold Client.respond
  cases hr : c.responseCallback with
  | none => simp [ledger,Ledger.respond,hr]
  | some request => simp [ledger,Ledger.respond,hr,Client.tell,completions,Notice.completes]

@[simp] theorem ledger_completeStreaming (response : HttpResponse) :
    ledger (c.completeStreaming response) = (ledger c).endStream := by
  have hrest := ledger_restoreRequestTimeoutOverride c.stopRequestTimer
  simp only [Client.completeStreaming]
  generalize c.stopRequestTimer.restoreRequestTimeoutOverride = d at hrest ⊢
  rw [ledger_stopRequestTimer] at hrest
  rw [← hrest]
  cases hs : d.streamCompleteCallback with
  | none => simp [ledger,Ledger.endStream,hs]
  | some request => simp [ledger,Ledger.endStream,hs,Client.tell,completions,Notice.completes]

@[simp] theorem ledger_completeStreamingWithStatus (statusCode : Int) (message : Bytes) :
    ledger (c.completeStreamingWithStatus statusCode message) = (ledger c).endStream :=
  ledger_completeStreaming c _

@[simp] theorem ledger_handleConnectFailed (message : Bytes) :
    ledger (c.handleConnectFailed message) = (ledger c).connectFailed := by
  unfold Client.handleConnectFailed Ledger.connectFailed
  cases hcal : c.connectCallback <;> cases hrep : c.replayAfterConnect <;>
    cases hres : c.responseCallback <;>
    simp [ledger,Client.tell,Client.stopRequestTimer,Client.respond,Ledger.respond,completions,
      Notice.completes,List.filterMap_cons,hcal,hrep,hres]

theorem drops_notifyConnectFailed (message : Bytes) :
    (ledger c).Drops (ledger (c.notifyConnectFailed message)) := by
  unfold notifyConnectFailed
  split
  · rw [ledger_handleConnectFailed]
    exact .failed
  · exact .same

theorem ledger_dropConnection : (ledger c).Drops (ledger c.dropConnection) := by
  unfold dropConnection
  cases c.transport with
  | idle => exact .same
  | connected => exact .lost
  | connecting => exact drops_notifyConnectFailed c _

end

theorem streams_streamFrame : StreamFrame (fun c d => (ledger c).Streams (ledger d)) where
  refl _ := .inl rfl
  trans h h' hs := h.trans hs h'
  update _ _ _ _ _ _ _ _ := .inl rfl
  chunk c _ _ := .inl (ledger_tell c rfl)
  headers c _ _ := .inl (ledger_tell c rfl)
  complete c response _ := by
    rw [ledger_completeStreaming]
    exact .inr .same
  fail c message _ := by
    rw [Ledger.Streams,← ledger_completeStreamingWithStatus c 0 message]
    exact .inr (ledger_dropConnection _)

theorem ledger_handleError (c : Client) (message : Bytes) :
    ledger (c.handleError message) = (ledger c).errored := by
  have hrest := ledger_restoreRequestTimeoutOverride c.stopRequestTimer
  unfold handleError Ledger.errored
  by_cases hs : c.streamingResponse
  · have hs' : (ledger c).streaming = true := hs
    have hstop : c.stopRequestTimer.streamingResponse = true := hs
    simp [hs',hstop]
  · have hs' : ¬ (ledger c).streaming = true := hs
    have hstop : ¬ c.stopRequestTimer.streamingResponse = true := hs
    simp only [if_neg hs',if_neg hstop]
    generalize c.stopRequestTimer.restoreRequestTimeoutOverride = d at hrest ⊢
    rw [ledger_stopRequestTimer] at hrest
    rw [← hrest]
    split
    · rename_i hsome
      have hsome' : (ledger d).response.isSome = true := hsome
      rw [if_pos hsome',ledger_respond]
      rfl
    · rename_i hsome
      have hsome' : ¬ (ledger d).response.isSome = true := hsome
      rw [if_neg hsome']

theorem ledger_failAwaiting (c : Client) (reason : Bytes) :
    ledger (c.failAwaiting reason) = (ledger c).failAwaiting := by
  unfold Client.failAwaiting Ledger.failAwaiting
  by_cases h : (c.awaitingResponse && c.responseCallback.isSome) = true
  · have h' : ((ledger c).awaiting && (ledger c).response.isSome) = true := h
    rw [if_pos h,if_pos h',ledger_respond]
    rfl
  · have h' : ¬ ((ledger c).awaiting && (ledger c).response.isSome) = true := h
    rw [if_neg h,if_neg h']

end Effects

section Preservation

open Ledger

variable {c : Client} {net : Client.Net}

theorem left_map {α β : Type} (client : β → Client) (f : α → β) (x : Except Client α) :
    left client (x.map f) = left (client ∘ f) x := by
  cases x <;> rfl

theorem step_eq (c : Client) (event : Event × Client.Net) :
    step c event = left id (handle event.2 c event.1) := by
  unfold step
  cases handle event.2 c event.1 <;> rfl

def Delivers (deliver : Client → HttpResponse → Except Client Client) : Prop :=
  ∀ (c : Client) (response : HttpResponse), (ledger c).Sound → (ledger c).Open →
    c.awaitingResponse = false → (c.replayAfterConnect = true → c.responseCallback = none) →
    (ledger (left id (deliver c response))).Sound

theorem delivers_noResponse : Delivers noResponse :=
  fun _ _ h _ _ _ => h

variable {deliver : Client → HttpResponse → Except Client Client}

theorem sound_handleDisconnect (hdel : Delivers deliver) (h : (ledger c).Sound) (reason : Bytes) :
    (ledger (left id (c.handleDisconnect deliver reason))).Sound := by
  have hlost : (ledger { c.stopRequestTimer with connected := false }).Sound := h.drops .lost
  unfold handleDisconnect
  generalize { c.stopRequestTimer with connected := false } = d at hlost
  simp only
  split
  · rename_i hstr
    rw [Bool.and_eq_true] at hstr
    have hs := streams_streamFrame.handleStreamingDataReceived hstr.2 true
    have hsound := hlost.streamed hstr.2 hs
    rw [left_map]
    cases hd : d.handleStreamingDataReceived true with
    | error e =>
      rw [hd] at hsound
      exact hsound
    | ok e =>
      rw [hd] at hs hsound
      simp only [left,Function.comp_apply,id]
      split
      · rename_i haw
        -- still awaiting, so the data have not ended the stream
        have heq : ledger e = ledger d := hs.awaiting haw
        rw [ledger_completeStreamingWithStatus,heq]
        exact hlost.endStream hstr.2
      · exact hsound
  · split
    · rename_i haw
      rw [Bool.and_eq_true] at haw
      split
      · exact hlost
      · exact hlost
      · rename_i response rest _
        exact hdel { d with responseBuffer := rest, awaitingResponse := false } response
          hlost.settled (hlost.awaits haw.1) rfl
          (fun hr => absurd hr (hlost.not_replay haw.1))
      · rename_i rest _
        simp only [left,id,ledger_failAwaiting]
        exact Sound.failAwaiting hlost
    · simp only [left,id,ledger_failAwaiting]
      exact hlost.failAwaiting

theorem sound_closeWithReason (hdel : Delivers deliver) (h : (ledger c).Sound) (reason : Bytes) :
    (ledger (left id (c.closeWithReason deliver reason))).Sound := by
  unfold closeWithReason
  split
  · exact sound_handleDisconnect hdel (c := { c with transport := .idle }) h reason
  · exact h

section

variable (h : (ledger c).Sound)
include h

theorem sound_tcpSend (ha : c.awaitingResponse = true) (request : Bytes) :
    (ledger (left Prod.fst (c.tcpSend net request))).Sound := by
  unfold tcpSend
  split
  · have htell : ledger (c.tell (.sent request)) = ledger c := ledger_tell c rfl
    have htran : (c.tell (.sent request)).transport = c.transport := rfl
    generalize c.tell (.sent request) = d at htell htran
    rw [← htell] at h
    have ha' : (ledger d).awaiting = true := by rw [htell]; exact ha
    simp only
    split
    · exact h
    · rw [left_map]
      exact sound_closeWithReason delivers_noResponse h _
    · rename_i hcon _ message _
      rw [left_map]
      unfold handleTransportFailure
      have hd : ¬ d.transport ≠ .connected := by simp [htran,hcon]
      rw [if_neg hd]
      refine sound_closeWithReason delivers_noResponse ?_ _
      rw [ledger_handleError]
      exact h.errored (.inr (.inr ha'))
  · exact h

theorem sound_sendPendingRequest (hopen : (ledger c).Open) :
    (ledger (left Prod.fst (c.sendPendingRequest net))).Sound := by
  unfold sendPendingRequest
  split
  · exact h
  · rename_i hcon
    have hr : ¬ c.replayAfterConnect = true := by
      intro hrep
      have hnot : c.connected = false := (h.replays hrep).2.2
      simp [hnot] at hcon
    rw [left_map]
    have haw : (ledger { c with responseBuffer := [], awaitingResponse := true }).Sound :=
      { h with
        awaits := fun _ => hopen
        replays := fun hrep => absurd hrep hr }
    have hsent : (ledger (left Prod.fst (tcpSend net
        { c with responseBuffer := [], awaitingResponse := true } c.transportRequest))).Sound :=
      sound_tcpSend haw rfl c.transportRequest
    cases hs : tcpSend net { c with responseBuffer := [], awaitingResponse := true }
        c.transportRequest with
    | error d =>
      rw [hs] at hsent
      exact hsent
    | ok result =>
      obtain ⟨d,sent⟩ := result
      rw [hs] at hsent
      cases sent with
      | true => exact hsent
      | false =>
        have hstop : (ledger { d with awaitingResponse := false, streamingResponse := false }).Sound :=
          hsent.lower (by simp) (by simp) (fun hrep => ⟨hrep,(hsent.replays hrep).2.2⟩)
        simpa [left,afterSend] using hstop

theorem sound_handleConnected :
    (ledger (left id (c.handleConnected net))).Sound := by
  unfold handleConnected
  simp only
  split
  · rename_i hrep
    rw [left_map]
    obtain ⟨hopen,ha,-⟩ := h.replays hrep
    have hlow : (ledger { c with connected := true, replayAfterConnect := false }).Sound :=
      h.lower id id (by simp)
    exact sound_sendPendingRequest hlow hopen
  · rename_i hrep
    have hlow : (ledger { c with connected := true }).Sound :=
      h.lower id id (fun h' => absurd h' hrep)
    split
    · simpa only [left,id,ledger_tell _ (show (Notice.connected true []).completes = none from rfl)]
        using hlow
    · exact hlow

theorem sound_notifyConnectFailed (message : Bytes) :
    (ledger (c.notifyConnectFailed message)).Sound :=
  h.drops (drops_notifyConnectFailed c message)

theorem sound_tcpConnect :
    (ledger (left Prod.fst (c.tcpConnect net))).Sound := by
  unfold tcpConnect
  simp only
  split
  · split
    · exact h
    · rw [left_map]
      exact sound_handleConnected (c := { c with transport := .connected, pendingConnect := false }) h
    · exact sound_notifyConnectFailed (c := { c with pendingConnect := true }) h _
  · exact sound_notifyConnectFailed (c := { c with pendingConnect := true }) h _

theorem sound_connectToParsedUrl (replayRequest : Bool)
    (hrep : replayRequest = true → (ledger c).Open ∧ c.awaitingResponse = false) :
    (ledger (left Prod.fst (c.connectToParsedUrl net replayRequest))).Sound := by
  have hstart : (ledger { c with replayAfterConnect := replayRequest, responseBuffer := [], connected := false }).Sound :=
    { h with
      replays := fun h' => ⟨(hrep h').1,(hrep h').2,rfl⟩ }
  unfold connectToParsedUrl
  simp only
  split
  · split
    · simpa only [left,ledger_tell _ (show (Notice.connected false _).completes = none from rfl)]
        using hstart
    · exact hstart
  · exact sound_tcpConnect hstart

theorem sound_redirected (hopen : (ledger c).Open)
    (hr : c.replayAfterConnect = true → c.responseCallback = none) :
    (ledger (left Prod.fst (c.stopRequestTimer.dropConnection.cleared.connectToParsedUrl net true))).Sound := by
  have hdrops : (ledger c).Drops (ledger c.stopRequestTimer.dropConnection) :=
    ledger_dropConnection c.stopRequestTimer
  have hsound := h.drops hdrops
  have hcl : (ledger c.stopRequestTimer.dropConnection.cleared).Sound :=
    hsound.lower (fun h' => absurd h' Bool.false_ne_true) (fun h' => absurd h' Bool.false_ne_true)
      (fun hrep => ⟨hrep,rfl⟩)
  exact sound_connectToParsedUrl hcl true (fun _ => ⟨hdrops.open hopen hr,rfl⟩)

end

theorem delivers_handleResponse (net : Client.Net) : Delivers (handleResponse net) := by
  intro c response h hopen ha hr
  unfold handleResponse
  simp only
  split
  · simpa [left] using h.respond hopen ha hr
  · split
    · rw [left_map]
      exact sound_redirected h hopen hr
    · rw [left_map]
      exact sound_sendPendingRequest h hopen

section

variable (h : (ledger c).Sound)
include h

theorem sound_handleDataReceived (data : Bytes)
    (hquiet : c.streamingResponse = true ∨ c.awaitingResponse = true ∨ c.responseCallback = none ∨
      ∀ response rest, tryConsumeBufferedResponse c.pendingRequest.method false
        (c.responseBuffer ++ data) ≠ .ret (some response,rest)) :
    (ledger (left id (c.handleDataReceived net data))).Sound := by
  unfold handleDataReceived
  split
  · exact h
  · have hgrown : (ledger { c with responseBuffer := c.responseBuffer ++ data }).Sound := h
    simp only
    split
    · rename_i hs
      exact hgrown.streamed hs (streams_streamFrame.handleStreamingDataReceived (c := { c with responseBuffer := c.responseBuffer ++ data }) hs false)
    · rename_i hs
      split
      · exact h
      · exact h
      · exact h
      · rename_i response rest hret
        have hpen : c.awaitingResponse = true ∨ c.responseCallback = none := by
          rcases hquiet with hstr | haw | hnone | hnever
          · exact absurd hstr hs
          · exact .inl haw
          · exact .inr hnone
          · exact absurd hret (hnever response rest)
        refine delivers_handleResponse net _ response hgrown.settled ?_ rfl ?_
        · rcases hpen with haw | hnone
          · exact h.awaits haw
          · intro i hi
            simp [ledger,hnone] at hi
        · intro hrep
          rcases hpen with haw | hnone
          · exact absurd hrep (h.not_replay haw)
          · exact hnone

theorem sound_handleTimeout : (ledger c.handleTimeout).Sound := by
  unfold handleTimeout
  split
  · exact h
  · rename_i ha
    have haw : c.awaitingResponse = true := by simpa using ha
    obtain ⟨hends,hres⟩ := h.abandoned haw
      (ledger_dropConnection { c with awaitingResponse := false, responseBuffer := [] })
    simp only
    split
    · rename_i hs
      rw [ledger_completeStreamingWithStatus]
      exact hends hs
    · rw [ledger_respond,ledger_restoreRequestTimeoutOverride]
      exact hres

theorem sound_cancelRequest : (ledger c.cancelRequest).Sound := by
  unfold cancelRequest
  split
  · exact h
  · rename_i ha
    have hrest : ledger c.stopRequestTimer.restoreRequestTimeoutOverride = ledger c := by simp
    simp only
    generalize c.stopRequestTimer.restoreRequestTimeoutOverride = d at hrest
    have haw : c.awaitingResponse = true := by simpa using ha
    have hd : (ledger d).awaiting = true := by
      rw [hrest]
      exact haw
    rw [← hrest] at h
    obtain ⟨hends,hres⟩ := h.abandoned hd
      (ledger_dropConnection { d with awaitingResponse := false, responseBuffer := [] })
    split
    · rename_i hs
      rw [ledger_completeStreamingWithStatus]
      exact hends hs
    · rw [ledger_respond]
      exact hres

theorem sound_disconnect : (ledger (left id (c.disconnect net))).Sound := by
  unfold disconnect tcpDisconnect
  rw [left_map]
  have hcan : (ledger (if c.stopRequestTimer.transport = .connecting
      then c.stopRequestTimer.notifyConnectFailed (ascii "Connection cancelled")
      else c.stopRequestTimer)).Sound := by
    split
    · exact sound_notifyConnectFailed (c := c.stopRequestTimer) h _
    · exact h
  have hclos := sound_closeWithReason (delivers_handleResponse net) hcan (ascii "Connection closed")
  simp only
  generalize closeWithReason _ _ _ = result at hclos ⊢
  cases result with
  | error d => exact hclos
  | ok d =>
    exact hclos.lower (fun h' => absurd h' Bool.false_ne_true) (fun h' => absurd h' Bool.false_ne_true)
      (fun hrep => ⟨hrep,rfl⟩)

theorem sound_connect (url : Bytes) (callback : Bool) :
    (ledger (left Prod.fst (c.connect net url callback))).Sound := by
  unfold connect
  split
  · split
    · simpa only [left,ledger_tell _ (show (Notice.connected false _).completes = none from rfl)]
        using h
    · exact h
  · rename_i parsed _
    exact sound_connectToParsedUrl
      (c := { c with connectCallback := callback, parsedUrl := parsed, redirectCount := 0 }) h false
      (fun h' => absurd h' Bool.false_ne_true)

end

theorem acceptRequest_eq_some {request : PendingRequest} {accepted : Client}
    (h : c.acceptRequest request = some accepted) :
    c.connected = true ∧ c.awaitingResponse = false ∧
      accepted = { c with
        pendingRequest := { request with path := buildRequestPath c.parsedUrl.path request.path }
        issued := c.issued+1 } := by
  unfold acceptRequest at h
  split at h
  · cases h
  · rename_i hok
    cases h
    simp only [not_or] at hok
    exact ⟨by simpa using hok.1,by simpa using hok.2.1,rfl⟩

theorem sound_sendRequest (h : (ledger c).Sound) (request : PendingRequest) (callback : Bool) :
    (ledger (left Prod.fst (c.sendRequest net request callback))).Sound := by
  unfold sendRequest
  split
  · exact h
  · rename_i accepted hacc
    obtain ⟨hcon,ha,rfl⟩ := acceptRequest_eq_some hacc
    have hnew : ∀ i ∈ (if callback then some c.issued else none), i = c.issued := by
      intro i hi
      cases callback <;> simp_all
    have hfresh : c.issued ∉ completions c.log := fun hmem => Nat.lt_irrefl _ (h.known _ hmem)
    refine sound_sendPendingRequest
      { once := h.once
        known := fun i hi => Nat.lt_succ_of_lt (h.known i hi)
        response := fun i hi => hnew i hi ▸ Nat.lt_succ_self _
        stream := fun i hi => Nat.lt_succ_of_lt (h.stream i hi)
        apart := fun i hi hmem => Nat.lt_irrefl _ (hnew i hi ▸ h.stream i hmem)
        awaits := fun haw => absurd (ha.symm.trans haw) Bool.false_ne_true
        replays := fun hrep =>
          absurd ((h.replays hrep).2.2.symm.trans hcon) Bool.false_ne_true
        streams := h.streams } ?_
    intro i hi
    rw [hnew i hi]
    exact hfresh

theorem sound_sendStreamingRequest (h : (ledger c).Sound) (request : PendingRequest)
    (callbacks : Client.StreamCallbacks) :
    (ledger (left Prod.fst (c.sendStreamingRequest net request callbacks))).Sound := by
  unfold sendStreamingRequest
  split
  · exact h
  · rename_i accepted hacc
    obtain ⟨hcon,ha,rfl⟩ := acceptRequest_eq_some hacc
    have hnew : ∀ i ∈ (if callbacks.complete then some c.issued else none), i = c.issued := by
      intro i hi
      cases hcom : callbacks.complete <;> simp_all
    have hfresh : c.issued ∉ completions c.log := fun hmem => Nat.lt_irrefl _ (h.known _ hmem)
    have hnone : ∀ i, i ∉ (none : Option Nat) := fun i hi => nomatch hi
    refine sound_sendPendingRequest
      { once := h.once
        known := fun i hi => Nat.lt_succ_of_lt (h.known i hi)
        response := fun i hi => absurd hi (hnone i)
        stream := fun i hi => hnew i hi ▸ Nat.lt_succ_self _
        apart := fun i hi => absurd hi (hnone i)
        awaits := fun haw => absurd (ha.symm.trans haw) Bool.false_ne_true
        replays := fun hrep =>
          absurd ((h.replays hrep).2.2.symm.trans hcon) Bool.false_ne_true
        streams := fun _ i hi => hnew i hi ▸ hfresh } ?_
    exact fun i hi => absurd hi (hnone i)

theorem sound_withTimeout {send : Client → Except Client (Client × Bool)}
    (hsend : ∀ c, (ledger c).Sound → (ledger (left Prod.fst (send c))).Sound) (h : (ledger c).Sound)
    (timeoutMs : Option Nat) :
    (ledger (left Prod.fst ((timeoutMs.elim send (withTimeout send)) c))).Sound := by
  cases timeoutMs with
  | none => exact hsend c h
  | some timeoutMs =>
    simp only [Option.elim_some,withTimeout]
    have hset : (ledger (if timeoutMs ≠ 0 then { c with requestTimeout := timeoutMs } else c)).Sound := by
      split
      · exact h
      · exact h
    have hsent := hsend _ hset
    rw [left_map]
    generalize send _ = result at hsent
    cases result with
    | error d => exact hsent
    | ok result =>
      simp only [left,Function.comp_apply]
      split
      · exact hsent
      · exact hsent

/-- The events that a client can take without completing a request again. An error of
the transport finds the request that is to be told of it in flight, or a stream, or no
callback; a response of which no request is left does not arrive. -/
def orderly (c : Client) : Event → Bool
  | .failed _ =>
    c.streamingResponse || c.responseCallback.isNone ||
      c.awaitingResponse && (c.transport = .connected || !c.pendingConnect)
  | .data bytes =>
    c.streamingResponse || c.responseCallback.isNone || c.awaitingResponse ||
      match tryConsumeBufferedResponse c.pendingRequest.method false (c.responseBuffer ++ bytes) with
      | .ret (some _,_) => false
      | _ => true
  | _ => true

theorem sound_handleTransportFailure (h : (ledger c).Sound) (message : Bytes)
    (hok : orderly c (.failed message) = true) :
    (ledger (left id (c.handleTransportFailure (handleResponse net) message))).Sound := by
  unfold handleTransportFailure
  refine sound_closeWithReason (delivers_handleResponse net) ?_ message
  rw [ledger_handleError]
  simp only [orderly,Bool.or_eq_true,Bool.and_eq_true,decide_eq_true_eq,Bool.not_eq_true'] at hok
  split
  · rename_i htran
    have hdrops := drops_notifyConnectFailed c message
    refine (h.drops hdrops).errored ?_
    rw [hdrops.streaming,hdrops.response]
    rcases hok with (hs | hnone) | ⟨ha,hcon | hpen⟩
    · exact .inl hs
    · exact .inr (.inl (Option.isNone_iff_eq_none.1 hnone))
    · exact absurd hcon htran
    · rw [notifyConnectFailed,if_neg (by simp [hpen])]
      exact .inr (.inr ha)
  · refine h.errored ?_
    rcases hok with (hs | hnone) | ⟨ha,-⟩
    · exact .inl hs
    · exact .inr (.inl (Option.isNone_iff_eq_none.1 hnone))
    · exact .inr (.inr ha)

theorem sound_handle (h : (ledger c).Sound) (event : Event) (hok : orderly c event = true) :
    (ledger (left id (handle net c event))).Sound := by
  cases event with
  | connect url callback =>
    rw [handle,left_map]
    exact sound_connect h url callback
  | request request timeoutMs callback =>
    rw [handle,left_map]
    exact sound_withTimeout (fun d hd => sound_sendRequest hd request callback) h timeoutMs
  | stream request timeoutMs callbacks =>
    rw [handle,left_map]
    exact sound_withTimeout (fun d hd => sound_sendStreamingRequest hd request callbacks) h timeoutMs
  | cancel => exact sound_cancelRequest h
  | disconnect => exact sound_disconnect h
  | timeout => exact sound_handleTimeout h
  | established =>
    rw [handle]
    split
    · exact h
    · simp only
      split
      · exact sound_handleConnected (c := { c with transport := .connected, pendingConnect := false }) h
      · exact h
  | data bytes =>
    rw [handle]
    split
    · refine sound_handleDataReceived h bytes ?_
      simp only [orderly,Bool.or_eq_true] at hok
      rcases hok with ((hs | hnone) | ha) | hnever
      · exact .inl hs
      · exact .inr (.inr (.inl (Option.isNone_iff_eq_none.1 hnone)))
      · exact .inr (.inl ha)
      · refine .inr (.inr (.inr fun response rest hret => ?_))
        simp [hret] at hnever
    · exact h
  | closed reason => exact sound_closeWithReason (delivers_handleResponse net) h reason
  | failed message => exact sound_handleTransportFailure h message hok

theorem sound_step (h : (ledger c).Sound) (event : Event × Client.Net)
    (hok : orderly c event.1 = true) : (ledger (step c event)).Sound := by
  rw [step_eq]
  exact sound_handle h event.1 hok

end Preservation

structure Unused (c : Client) : Prop where
  idle : c.awaitingResponse = false ∧ c.streamingResponse = false ∧ c.replayAfterConnect = false
  silent : c.responseCallback = none ∧ c.streamCompleteCallback = none ∧ c.log = []

theorem Unused.sound {c : Client} (h : Unused c) : (ledger c).Sound := by
  obtain ⟨⟨ha,hs,hr⟩,hres,hstr,hlog⟩ := h
  constructor <;> simp [ledger,Ledger.Open,completions,ha,hs,hr,hres,hstr,hlog]

/-- The completion callback of a request is called once at most, in every orderly run. -/
theorem completed_at_most_once {c : Client} (hc : Unused c) {events : List (Event × Client.Net)}
    (h : Machine.Meets step (fun c event => orderly c event.1 = true) c events) :
    (completions (Machine.runs step c events).log).Nodup :=
  (@Machine.invariant Client _ step (fun c => (ledger c).Sound) _
    (fun _ event hs hok => sound_step hs event hok) c hc.sound events h).once

def quiet : Client.Net := { connect := .established }

def requested : List (Event × Client.Net) :=
  [(.connect (ascii "http://a/") true,quiet),
    (.request { method := ascii "GET", path := ascii "/" } none true,quiet)]

/-- The response arrives, and then the server closes the connection. -/
theorem completed_at_most_once_answered :
    Unused {} ∧
      (completions (Machine.runs step {} (requested ++
        [(.data (ascii "HTTP/1.1 200 OK\r\nContent-Length: 2\r\n\r\nok"), quiet), (.closed [], quiet)])).log).Nodup :=
  ⟨⟨⟨rfl,rfl,rfl⟩,rfl,rfl,rfl⟩,
    completed_at_most_once ⟨⟨rfl,rfl,rfl⟩,rfl,rfl,rfl⟩ (by decide +kernel)⟩

/-- The server closes the connection without an answer, and the transport, which notices
this in a read, reports the same end as an error once more. -/
theorem completed_twice :
    completions (Machine.runs step {} (requested ++
      [(.closed (ascii "Connection closed by peer"), quiet),
        (.failed (ascii "Connection closed by peer"), quiet)])).log =
      [0, 0] := by
  decide +kernel

end FastNet.HttpClient
