import FastNet.Client

/-!
What a streaming response can do to `HttpClient`. The handlers of arriving data are walked
through once, for every relation between clients that the parts of a stream keep to.
-/

namespace FastNet.HttpClient

open Loop HttpParser Client

def left {α : Type} (client : α → Client) : Except Client α → Client
  | .ok a => client a
  | .error c => c

/-- A relation between clients that the parts of a streaming response keep to: it does not
look at the state of the stream, and it allows for the end of the stream. -/
structure StreamFrame (R : Client → Client → Prop) : Prop where
  refl : ∀ c, R c c
  trans : ∀ {c d e}, R c d → R d e → d.streamingResponse = true → R c e
  update : ∀ (c : Client) (parsed noBody chunked : Bool) (contentLength : Option Nat)
    (received : Nat) (buffer : Bytes) (response : HttpResponse),
    R c { c with
      streamHeadersParsed := parsed, streamNoBody := noBody, streamChunked := chunked,
      streamContentLength := contentLength, streamReceivedBodyBytes := received,
      responseBuffer := buffer, streamResponse := response }
  chunk : ∀ (c : Client) (request : Nat) (data : Bytes), R c (c.tell (.chunk request data))
  headers : ∀ (c : Client) (request : Nat) (response : HttpResponse),
    R c (c.tell (.headers request response))
  complete : ∀ (c : Client) (response : HttpResponse), c.streamingResponse = true →
    R c (c.completeStreaming response)
  fail : ∀ (c : Client) (message : Bytes), c.streamingResponse = true → R c (c.failStreaming message)

namespace StreamFrame

variable {R : Client → Client → Prop} (h : StreamFrame R) {c : Client} (hs : c.streamingResponse = true)
variable (connectionClosed : Bool) (fuel : Nat)

include h

theorem tellHeaders (c : Client) : R c c.tellHeaders.1 := by
  unfold Client.tellHeaders
  split
  · exact h.refl c
  · exact h.headers c _ _

include hs

theorem deliverStreamingChunk (chunk : Bytes) :
    R c (c.deliverStreamingChunk chunk).1 ∧
      ((c.deliverStreamingChunk chunk).2 = true →
        (c.deliverStreamingChunk chunk).1.streamingResponse = true) := by
  unfold Client.deliverStreamingChunk
  split
  · exact ⟨h.refl c,fun _ => hs⟩
  · split
    · exact ⟨h.refl c,id⟩
    · rename_i request accepts _
      simp only
      split
      · exact ⟨h.chunk c request chunk,id⟩
      · exact ⟨h.trans (h.chunk c request chunk) (h.fail (c.tell (.chunk request chunk)) _ hs) hs,nofun⟩

theorem acceptStreamingHead (rd : ByteView → Bytes) (view : HttpResponseView) :
    R c (left Prod.fst (c.acceptStreamingHead rd view)) := by
  unfold Client.acceptStreamingHead
  cases buildResponse rd view with
  | threw e => exact h.refl c
  | hang => exact h.refl c
  | ret response =>
    simp only
    split
    · exact h.trans (h.update c _ _ _ _ _ _ _) (h.tellHeaders _) hs
    · split
      · exact h.trans (h.update c _ _ _ _ _ _ _) (h.tellHeaders _) hs
      · split
        · exact h.trans (h.update c _ _ _ _ _ _ _) (h.complete _ _ (by exact hs)) hs
        · exact h.trans (h.update c _ _ _ _ _ _ _) (h.tellHeaders _) hs

theorem parseStreamingHeaders :
    R c (left Prod.fst (parseStreamingHeaders connectionClosed fuel c)) := by
  induction fuel generalizing c with
  | zero => exact h.refl c
  | succ fuel ih =>
    unfold parseStreamingHeaders
    split
    · exact h.refl c
    · split
      · split
        · exact h.complete c _ hs
        · exact h.refl c
      · split
        · exact h.complete c _ hs
        · simp only
          split
          · exact h.trans (h.update c _ _ _ _ _ _ _) (ih (by exact hs)) hs
          · exact h.trans (h.update c _ _ _ _ _ _ _) (h.acceptStreamingHead (by exact hs) _ _) hs

theorem consumeStreamingTrailers (trailerOffset : Nat) :
    R c (left id (c.consumeStreamingTrailers trailerOffset)) := by
  unfold Client.consumeStreamingTrailers
  split
  · exact h.refl c
  · exact h.refl c
  · exact h.refl c
  · exact h.fail c _ hs
  · exact h.trans (h.update c _ _ _ _ _ _ _) (h.complete _ _ (by exact hs)) hs

theorem consumeStreamingChunkedBody :
    R c (left id (consumeStreamingChunkedBody fuel c)) := by
  induction fuel generalizing c with
  | zero => exact h.refl c
  | succ fuel ih =>
    unfold consumeStreamingChunkedBody
    split
    · exact h.refl c
    · simp only
      split
      · exact h.refl c
      · split
        · exact h.fail c _ hs
        · split
          · exact h.consumeStreamingTrailers hs _
          · split
            · exact h.refl c
            · split
              · split
                · exact h.fail c _ hs
                · rename_i chunk _ _ _
                  have hdel := h.deliverStreamingChunk hs chunk
                  split
                  · rename_i d hd
                    rw [hd] at hdel
                    exact hdel.1
                  · rename_i d hd
                    rw [hd] at hdel
                    have hd := hdel.2 rfl
                    exact h.trans hdel.1 (h.trans (h.update d _ _ _ _ _ _ _) (ih (by exact hd)) hd) hd
              · exact h.refl c

def Turned (R : Client → Client → Prop) (c : Client) : Turn Client Client → Prop
  | .leave d => R c d
  | .again d => R c d ∧ d.streamingResponse = true

theorem deliverRemaining (contentLength remaining : Nat) :
    Turned R c (c.deliverRemaining contentLength remaining) := by
  unfold Client.deliverRemaining
  split
  · exact h.complete c _ hs
  · have hdel := h.deliverStreamingChunk hs
      (c.responseBuffer.take (min remaining c.responseBuffer.length))
    simp only
    split
    · rename_i d hd
      rw [hd] at hdel
      exact hdel.1
    · rename_i d hd
      rw [hd] at hdel
      have hd := hdel.2 rfl
      have hcount : R c (d.countBody (min remaining c.responseBuffer.length)) :=
        h.trans hdel.1 (h.update d _ _ _ _ _ _ _) hd
      split
      · exact h.trans hcount (h.complete _ _ (by exact hd)) hd
      · exact ⟨hcount,hd⟩

theorem fixedLengthLoop : R c (left id (fixedLengthLoop fuel c)) := by
  induction fuel generalizing c with
  | zero => exact h.refl c
  | succ fuel ih =>
    have hturn : Turned R c c.fixedLengthTurn := by
      unfold fixedLengthTurn
      split
      · exact h.refl c
      · split
        · exact h.refl c
        · exact h.deliverRemaining hs _ _
    rw [fixedLengthLoop]
    cases ht : c.fixedLengthTurn with
    | leave d =>
      rw [ht] at hturn
      exact hturn
    | again d =>
      rw [ht] at hturn
      exact h.trans hturn.1 (ih hturn.2) hturn.2

theorem consumeStreamingOpenBody :
    R c (c.consumeStreamingOpenBody connectionClosed) := by
  have hend (d : Client) (hd : R c d) (hds : d.streamingResponse = true) :
      R c (if connectionClosed then d.completeStreamingResponse else d) := by
    split
    · exact h.trans hd (h.complete d _ hds) hds
    · exact hd
  unfold Client.consumeStreamingOpenBody
  by_cases hb : c.responseBuffer = []
  · simpa [hb] using hend c (h.refl c) hs
  · have hdel := h.deliverStreamingChunk hs c.responseBuffer
    cases hd : c.deliverStreamingChunk c.responseBuffer with
    | mk d goesOn =>
      rw [hd] at hdel
      cases goesOn with
      | false => simpa [hb,hd] using hdel.1
      | true =>
        have hds := hdel.2 rfl
        have hcl : R c { d with responseBuffer := [] } :=
          h.trans hdel.1 (h.update d _ _ _ _ _ _ _) hds
        simpa [hb,hd] using hend _ hcl hds

theorem consumeStreamingBody :
    R c (left id (c.consumeStreamingBody connectionClosed)) := by
  unfold Client.consumeStreamingBody
  split
  · exact h.complete c _ hs
  · split
    · exact h.consumeStreamingChunkedBody hs _
    · split
      · split
        · exact h.complete c _ hs
        · unfold Client.consumeStreamingFixedLengthBody
          split
          · exact h.complete c _ hs
          · split
            · exact h.complete c _ hs
            · exact h.fixedLengthLoop hs _
      · exact h.consumeStreamingOpenBody hs connectionClosed

theorem handleStreamingDataReceived :
    R c (left id (c.handleStreamingDataReceived connectionClosed)) := by
  have hhead := h.parseStreamingHeaders hs connectionClosed (c.responseBuffer.length+1)
  unfold Client.handleStreamingDataReceived
  split
  · rename_i d hd
    rw [hd] at hhead
    exact hhead
  · rename_i d parsed hd
    rw [hd] at hhead
    split
    · rename_i hgoes
      rw [Bool.and_eq_true] at hgoes
      exact h.trans hhead (h.consumeStreamingBody hgoes.2 connectionClosed) hgoes.2
    · exact hhead

end StreamFrame

end FastNet.HttpClient
