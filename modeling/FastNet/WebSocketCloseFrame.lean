import FastNet.WebSocketClient

/-!
The Close frames of both ends. The code and the reason come from the user or from a frame
of the peer, and go into the frame as they are.
-/

namespace FastNet

open Octets WebSocketProtocol List

def Arrives (masked : Bool) (code : Nat) (type : WSFrameType) (payload : Bytes) : Prop :=
  type = .close ∧ closeCode payload = code ∧ 2 ≤ payload.length ∧
    ∀ key, decodeFrame (encodeFrame key payload type masked) = some (payload,{ type, final := true, masked })

def Closable (code : Nat) (reason : Bytes) : Prop :=
  1000 ≤ code ∧ code ∉ [1004,1005,1006,1015] ∧ ¬ (1016 ≤ code ∧ code ≤ 2999) ∧ reason.length ≤ 123

namespace WebSocketServer

/-- What is queued for a client in the course of a `disconnectClient`, whatever comes between
its moves, is accepted with a code. -/
def Closes (first : Call) (code : Nat) : Prop :=
  ∀ (settings : Settings) (env env' : Env) (c d : Connection) (call : Call) (item : Item),
    call ∈ (perform settings env c first).2 →
    item ∈ (perform settings env' d call).1.queued.drop d.queued.length →
      ∃ type payload, item = .frame type payload ∧ Arrives false code type payload

variable {code : Nat} {reason : Bytes}

theorem closeCode_closePayload (h : code < 2^16) (reason : Bytes) :
    closeCode (closePayload code reason) = code := by
  have hhigh : code >>> 8 &&& 0xFF = code/256 := by
    rw [show 0xFF = 2^8-1 from rfl,Nat.and_two_pow_sub_one_eq_mod,Nat.shiftRight_eq_div_pow]
    omega
  have hlow : code &&& 0xFF = code % 256 := Nat.and_two_pow_sub_one_eq_mod code 8
  have hlt : code % 256 < 2^8 := Nat.mod_lt _ (by decide)
  simp only [closeCode,closePayload,getD_cons_zero,getD_cons_succ,UInt8.toNat_ofNat',hhigh,hlow]
  rw [Nat.mod_eq_of_lt (show code/256 < 2^8 by omega),Nat.mod_eq_of_lt hlt,
    ← Nat.shiftLeft_add_eq_or_of_lt hlt,Nat.shiftLeft_eq]
  omega

theorem isValidClosePayload_iff (h : code < 2^16) (reason : Bytes) :
    isValidClosePayload (closePayload code reason) = true ∧ (closePayload code reason).length ≤ 125 ↔
      Closable code reason := by
  have hlen : (closePayload code reason).length = reason.length+2 := rfl
  simp only [isValidClosePayload,closeCode_closePayload h,hlen,Closable,mem_cons,not_mem_nil,or_false]
  grind

theorem arrives_iff {masked : Bool} (hcode : code < 2^16) (hsize : reason.length < 2^62) :
    Arrives masked code .close (closePayload code reason) ↔ Closable code reason := by
  have hlen : (closePayload code reason).length = reason.length+2 := rfl
  have hdec (key : Key) : decodeFrame (encodeFrame key (closePayload code reason) .close masked) =
      some (closePayload code reason,{ type := .close, final := true, masked }) ↔ Closable code reason := by
    rw [decodeFrame_iff,encodeFrame_eq,acceptable_iff (by omega),← isValidClosePayload_iff hcode reason]
    simp only [WebSocketProtocol.Encodable,reduceCtorEq,false_and,true_and,or_self,false_or]
    exact and_iff_left ⟨key,[],(append_nil _).symm⟩
  simp only [Arrives,closeCode_closePayload hcode,hlen,hdec,true_and,Nat.le_add_left]
  exact forall_const Key

theorem closes_iff {code' : Nat} :
    Closes (.disconnect code reason) code' ↔ Arrives false code' .close (closePayload code reason) := by
  constructor
  · intro h
    obtain ⟨type,payload,hitem,harr⟩ := h {} {} {} { client := some { status := .connected } }
      { session := true } (.sendClose code reason) (.frame .close (closePayload code reason))
      mem_cons_self mem_cons_self
    cases hitem
    exact harr
  · intro h settings env env' c d call item hcall hitem
    have hcalls : call = .drop ∨ call = .closeAfterPendingWrites ∨ call = .sendClose code reason := by
      simp only [perform] at hcall
      grind
    rcases hcalls with rfl | rfl | rfl
    · simp [perform,dropSession] at hitem
    · simp only [perform] at hitem
      split at hitem <;> simp [dropSession] at hitem
    · simp only [perform] at hitem
      split at hitem
      · rename_i hsession
        simp only [push,hsession,if_true,drop_left,mem_singleton] at hitem
        exact ⟨.close,_,hitem,h⟩
      · simp at hitem

end WebSocketServer

namespace WebSocketClient

def Closes (act : Client → Env → Client) (code : Nat) : Prop :=
  ∀ (c : Client) (env : Env) (item : Item), item ∈ (act c env).queued.drop c.queued.length →
    ∃ type payload, item = .frame type payload ∧ Arrives true code type payload

section Queued

variable {c : Client} {env : Env} {item : Item}

@[simp] theorem closeWithReason_queued (reason : Bytes) : (c.closeWithReason reason).queued = c.queued := by
  unfold Client.closeWithReason Client.handleDisconnected Client.notifyClose Client.tell
  grind

@[simp] theorem disconnect_queued : c.disconnect.queued = c.queued := by
  unfold Client.disconnect Client.notifyFailure Client.notifyConnect Client.tell
  grind [closeWithReason_queued]

theorem send_queued : (c.send env item).1.queued = c.queued ++ (if (c.send env item).2 then [item] else []) := by
  unfold Client.send Client.tell
  grind [closeWithReason_queued]

variable (code : Nat) (reason : Bytes)

theorem queued_close {c : Client} {after : Client → Client} (hafter : ∀ d, (after d).queued = d.queued)
    (h : item ∈ (match c.send env (.frame .close (WebSocketServer.closePayload code reason)) with
      | (d,true) => after d
      | (d,false) => d.disconnect).queued.drop c.queued.length) :
    item = .frame .close (WebSocketServer.closePayload code reason) := by
  have hqu := @send_queued c env (.frame .close (WebSocketServer.closePayload code reason))
  cases hsend : c.send env (.frame .close (WebSocketServer.closePayload code reason)) with
  | mk d sent =>
    rw [hsend] at h hqu
    cases sent with
    | false =>
      rw [disconnect_queued,hqu] at h
      simp at h
    | true =>
      rw [hafter,hqu] at h
      simpa using h

theorem close_queued (h : item ∈ (c.close env code reason).queued.drop c.queued.length) :
    item = .frame .close (WebSocketServer.closePayload code reason) := by
  unfold Client.close at h
  split at h
  · simp at h
  · simp at h
  all_goals
    simp only at h
    split at h
    · exact @queued_close _ _ code reason { c with state := .closing, closeFrameSent := true } id (fun _ => rfl) h
    · simp at h

theorem answerClose_queued (h : item ∈ (c.answerClose env code reason).queued.drop c.queued.length) :
    item = .frame .close (WebSocketServer.closePayload code reason) := by
  have hpen (d : Client) : (d.disconnectAfterPendingWrites env).queued = d.queued := by
    unfold Client.disconnectAfterPendingWrites
    split
    · simp
    · split <;> simp
  have hnot : (c.notifyClose code reason).queued = c.queued := by
    unfold Client.notifyClose Client.tell
    split <;> rfl
  simp only [Client.answerClose] at h
  split at h
  · simp [hpen,hnot] at h
  · rw [← hnot] at h
    exact @queued_close _ _ code reason
      { c.notifyClose code reason with closeFrameSent := true, state := .closing } _ hpen h

end Queued

theorem closes_iff {code code' : Nat} {reason : Bytes} :
    Closes (fun c env => c.close env code reason) code' ↔
      Arrives true code' .close (WebSocketServer.closePayload code reason) := by
  constructor
  · intro h
    obtain ⟨type,payload,hitem,harr⟩ := h
      { transport := .connected, state := .connected, connected := true } {}
      (.frame .close (WebSocketServer.closePayload code reason)) mem_cons_self
    cases hitem
    exact harr
  · exact fun h c env item hitem => ⟨.close,_,close_queued code reason hitem,h⟩

end WebSocketClient

def answerCode (payload : Bytes) : Nat := if 2 ≤ payload.length then closeCode payload else 1000

theorem closable_answer {data payload : Bytes} {final masked : Bool}
    (h : decodeFrame data = some (payload,{ type := .close, final, masked })) :
    answerCode payload < 2^16 ∧ Closable (answerCode payload) (WebSocketServer.closeReason payload) := by
  obtain ⟨⟨-,hcon,hclose⟩,-⟩ := decodeFrame_iff.mp h
  have hsize := (hcon rfl).2
  have hvalid := hclose rfl
  have hbound : closeCode payload < 2^16 := by
    have hhigh := (payload.getD 0 0).toNat_lt
    have hlow := (payload.getD 1 0).toNat_lt
    refine Nat.or_lt_two_pow ?_ (by omega)
    rw [Nat.shiftLeft_eq]
    omega
  have hreas : (WebSocketServer.closeReason payload).length ≤ 123 := by
    unfold WebSocketServer.closeReason
    split
    · rw [length_drop]
      omega
    · decide
  unfold isValidClosePayload at hvalid
  unfold answerCode Closable
  by_cases hcode : 2 ≤ payload.length
  · rw [if_neg (by omega),if_neg (by omega)] at hvalid
    simp only [if_pos hcode,mem_cons,not_mem_nil,or_false]
    refine ⟨hbound,?_⟩
    grind
  · rw [if_neg hcode]
    exact ⟨by decide,by decide,by decide,by decide,hreas⟩

/-- The Close frames of `disconnectClient` and `close` are accepted at the other end with
their code when the code is one that may be sent and the reason has at most 123 bytes. The
answers to the Close frames of the peer always are. -/
theorem close_accepted_iff {code : Nat} {reason : Bytes} (hcode : code < 2^16)
    (hsize : reason.length < 2^62) :
    (WebSocketServer.Closes (.disconnect code reason) code ↔ Closable code reason) ∧
    (WebSocketClient.Closes (fun c env => c.close env code reason) code ↔ Closable code reason) ∧
    ∀ (data payload : Bytes) (final masked : Bool),
      decodeFrame data = some (payload, { type := .close, final, masked }) →
        (∀ call ∈ WebSocketServer.frameCalls .close payload,
          WebSocketServer.Closes call (answerCode payload)) ∧
        WebSocketClient.Closes (fun c env => c.handleFrame env .close payload) (answerCode payload) := by
  refine ⟨WebSocketServer.closes_iff.trans (WebSocketServer.arrives_iff hcode hsize),
    WebSocketClient.closes_iff.trans (WebSocketServer.arrives_iff hcode hsize),fun data payload _ _ h => ?_⟩
  obtain ⟨hans,hclos⟩ := closable_answer h
  have hreas : (WebSocketServer.closeReason payload).length < 2^62 :=
    Nat.lt_of_le_of_lt hclos.2.2.2 (by decide)
  have harr (masked : Bool) := (@WebSocketServer.arrives_iff _ _ masked hans hreas).mpr hclos
  constructor
  · intro call hcall
    rw [List.mem_singleton.mp hcall]
    exact WebSocketServer.closes_iff.mpr (harr false)
  · exact fun c env item hitem =>
      ⟨.close,_,WebSocketClient.answerClose_queued (c := { c with handled := c.handled ++ [(.close,payload)] })
        _ _ hitem,harr true⟩

/-- A connected client is told to go away with the code that stands for no code. -/
theorem close_refused :
    let c : WebSocketServer.Connection := { session := true, client := some { status := .connected } }
    let c := Machine.runs (WebSocketServer.step {}) c
      [.call (.disconnectClient 1005 []),.move 0 {},.move 0 {}]
    c.queued.map WebSocketServer.Item.bytes = [[0x88,2,0x03,0xED]] ∧
      decodeFrame [0x88,2,0x03,0xED] = none := by
  decide +kernel

/-- The code and the reason of the ping timer. -/
theorem close_accepted_timeout :
    WebSocketServer.Closes (.disconnect 1001 (ascii "Connection timeout")) 1001 ∧
      WebSocketClient.Closes (fun c env => c.close env 1001 (ascii "Connection timeout")) 1001 := by
  have h := @close_accepted_iff 1001 (ascii "Connection timeout") (by decide) (by decide)
  have hclos : Closable 1001 (ascii "Connection timeout") := by
    unfold Closable
    decide
  exact ⟨h.1.mpr hclos,h.2.1.mpr hclos⟩

end FastNet
