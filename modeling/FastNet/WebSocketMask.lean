import FastNet.WebSocketClient
import FastNet.WebSocketOrder

/-!
The direction of masks: which frames are passed to `handleFrame` at the two ends.
-/

namespace FastNet

open WebSocketProtocol List

/-- A frame as `decodeFrame` returns it. -/
abbrev Frame := Bytes × WSFrameMetadata

def Frame.content (f : Frame) : WSFrameType × Bytes := (f.2.type,f.1)

/-- The frame at the front of the unread bytes, when it has arrived as a whole and can be
decoded. -/
def frontFrame (frameSize : Nat) (unread : Bytes) : Option Frame :=
  if frameSize = 0 ∨ unread.length < frameSize then none else decodeFrame (unread.take frameSize)

section InTurn

variable {κ β : Type} {frame : κ → Option β} {handled handled' past : List β} {call : κ} {rest calls : List κ}

theorem filterMap_tail (h : calls.filterMap frame = []) : calls.tail.filterMap frame = [] := by
  rw [filterMap_eq_nil_iff] at h ⊢
  exact fun call hcall => h call (mem_of_mem_tail hcall)

/-- What has been handled, and the item that the first of the calls has in hand, is the
row of items that have come so far. -/
structure InTurn (frame : κ → Option β) (handled : List β) (calls : List κ) (past : List β) : Prop where
  passed : handled ++ calls.filterMap frame = past
  alone : calls.tail.filterMap frame = []

theorem InTurn.move (h : InTurn frame handled (call :: rest) past)
    (hpas : handled' = handled ++ [call].filterMap frame) (htail : calls.tail.filterMap frame = []) :
    InTurn frame handled' (calls ++ rest) (past ++ calls.filterMap frame) := by
  obtain ⟨h,hrest⟩ := h
  rw [tail_cons] at hrest
  constructor
  · rw [hpas,← h,filterMap_append,hrest,append_nil,show call :: rest = [call] ++ rest from rfl,
      filterMap_append,hrest,append_nil]
  · cases calls with
    | nil => exact filterMap_tail hrest
    | cons call' calls =>
      rw [cons_append,tail_cons,filterMap_append,hrest,append_nil]
      exact htail

end InTurn

namespace WebSocketServer

def Call.frame : Call → Option (WSFrameType × Bytes)
  | .handleFrame type payload => some (type,payload)
  | _ => none

def inHand (calls : List Call) : List (WSFrameType × Bytes) := calls.filterMap Call.frame

/-- The frame that a turn of `handleFrames` finds. -/
def found (c : Connection) : Call → Option Frame
  | .frames => c.client.bind (fun state =>
      if state.status = .connected ∧ (unread state).length ≤ kMaxClientBufferSize then
        frontFrame (getFrameSize (unread state)) (unread state)
      else none)
  | _ => none

def taken (settings : Settings) (env : Env) (c : Connection) (call : Call) : List Frame :=
  if inHand (perform settings env c call).2 = [] then [] else (found c call).toList

def takenAt (settings : Settings) (c : Connection) : Event → List Frame
  | .read env => c.reading.head?.elim [] (taken settings env c)
  | _ => []

def Call.foreign : Call → Bool
  | .disconnect _ _ => true
  | .sendClose _ _ => true
  | .closeAfterPendingWrites => true
  | .drop => true
  | .sweep _ => true
  | .send _ _ => true
  | _ => false

variable {frames : List Frame} {event : Event}

section Passing

variable {settings : Settings} {env : Env} {c : Connection} {call : Call}

theorem inHand_foreign {calls : List Call} (h : ∀ call ∈ calls, call.foreign = true) : inHand calls = [] := by
  rw [inHand,filterMap_eq_nil_iff]
  intro call hcall
  have hfor := h call hcall
  cases call <;> simp_all [Call.frame,Call.foreign]

theorem perform_foreign (h : call.foreign = true) :
    (perform settings env c call).1.handled = c.handled ∧
      ∀ new ∈ (perform settings env c call).2, new.foreign = true := by
  cases call <;> simp only [Call.foreign,Bool.false_eq_true] at h <;>
    simp only [perform,push,dropSession] <;> grind [Call.foreign]

theorem perform_frames (settings : Settings) (env : Env) (c : Connection) :
    (perform settings env c .frames).1.handled = c.handled ∧
      (inHand (perform settings env c .frames).2 = [] ∨
        ∃ payload type masked, found c .frames = some (payload,{ type, final := true, masked }) ∧
          (perform settings env c .frames).2 = [.handleFrame type payload,.frames]) := by
  cases hclient : c.client with
  | none => simp [perform,hclient,inHand]
  | some state =>
    simp only [perform,hclient,found,Option.bind_some]
    split
    · rename_i hstatus
      simp only [takeFrame,makeBufferedView_size,makeBufferedView_text,hstatus,true_and]
      split
      · exact ⟨rfl,.inl rfl⟩
      · rename_i hmax
        rw [if_pos (Nat.le_of_not_lt hmax),frontFrame]
        split
        · exact ⟨rfl,.inl rfl⟩
        · split
          · rename_i payload type masked hdec
            exact ⟨rfl,.inr ⟨payload,type,masked,hdec,rfl⟩⟩
          · exact ⟨rfl,.inl rfl⟩
    · exact ⟨rfl,.inl rfl⟩

theorem inHand_frameCalls (type : WSFrameType) (payload : Bytes) : inHand (frameCalls type payload) = [] := by
  cases type <;> rfl

theorem perform_handshake (h : call.plain = false) :
    (perform settings env c call).1.handled = c.handled ∧ inHand (perform settings env c call).2 = [] := by
  cases call with
  | handshake =>
    simp only [perform]
    split
    · exact ⟨rfl,rfl⟩
    · split <;> exact ⟨rfl,rfl⟩
  | answer key request consumedBytes =>
    have hhan : (answer settings c request).1.handled = c.handled := by
      simp only [answer]
      split <;> rfl
    simp only [perform]
    split <;> exact ⟨hhan,rfl⟩
  | reject response =>
    simp only [perform,push]
    split <;> exact ⟨rfl,rfl⟩
  | accept key response consumedBytes =>
    simp only [perform,push]
    split <;> exact ⟨rfl,rfl⟩
  | establish subprotocol consumedBytes =>
    simp only [perform]
    split
    · exact ⟨rfl,rfl⟩
    · refine ⟨rfl,?_⟩
      simp only
      split <;> rfl
  | send type payload => simp [perform,push,inHand]; split <;> rfl
  | _ => simp [Call.plain] at h

theorem perform_passes (settings : Settings) (env : Env) (c : Connection) (call : Call) :
    (perform settings env c call).1.handled = c.handled ++ inHand [call] ∧
      (inHand (perform settings env c call).2 = [] ∨
        ∃ payload type masked, found c call = some (payload,{ type, final := true, masked }) ∧
          (perform settings env c call).2 = [.handleFrame type payload,.frames]) := by
  have hquiet (hcall : inHand [call] = [])
      (h : (perform settings env c call).1.handled = c.handled ∧ inHand (perform settings env c call).2 = []) :
      (perform settings env c call).1.handled = c.handled ++ inHand [call] ∧
        (inHand (perform settings env c call).2 = [] ∨
          ∃ payload type masked, found c call = some (payload,{ type, final := true, masked }) ∧
            (perform settings env c call).2 = [.handleFrame type payload,.frames]) := by
    rw [hcall,append_nil]
    exact ⟨h.1,.inl h.2⟩
  cases call with
  | frames =>
    obtain ⟨hhan,hcalls⟩ := perform_frames settings env c
    exact ⟨by rw [hhan]; exact (append_nil _).symm,hcalls⟩
  | handleFrame type payload =>
    refine ⟨?_,.inl (inHand_frameCalls type payload)⟩
    simp only [perform]
    split <;> rfl
  | handshake | answer _ _ _ | reject _ | accept _ _ _ | establish _ _ => exact hquiet rfl (perform_handshake rfl)
  | disconnect _ _ | sendClose _ _ | closeAfterPendingWrites | drop | sweep _ | send _ _ =>
    exact hquiet rfl ⟨(perform_foreign rfl).1,inHand_foreign (perform_foreign rfl).2⟩

theorem inHand_perform (settings : Settings) (env : Env) (c : Connection) (call : Call) :
    inHand (perform settings env c call).2 = (taken settings env c call).map Frame.content := by
  unfold taken
  rcases (perform_passes settings env c call).2 with hnone | ⟨payload,type,masked,hfound,hcalls⟩
  · rw [if_pos hnone,hnone]
    rfl
  · rw [hfound,hcalls]
    rfl

structure Passes (frames : List Frame) (c : Connection) : Prop where
  turn : InTurn Call.frame c.handled c.reading (frames.map Frame.content)
  foreign : ∀ thread ∈ c.others, ∀ call ∈ thread, call.foreign = true

theorem perform_tail (settings : Settings) (env : Env) (c : Connection) (call : Call) :
    inHand (perform settings env c call).2.tail = [] := by
  rcases (perform_passes settings env c call).2 with hnone | ⟨payload,type,masked,hfound,hcalls⟩
  · exact filterMap_tail hnone
  · rw [hcalls]
    rfl

theorem passes_read {rest : List Call} (h : Passes frames c) (hread : c.reading = call :: rest) (env : Env) :
    Passes (frames ++ taken settings env c call)
      { (perform settings env c call).1 with reading := (perform settings env c call).2 ++ rest } := by
  obtain ⟨hturn,hfor⟩ := h
  rw [hread] at hturn
  refine ⟨?_,?_⟩
  · rw [map_append,← inHand_perform]
    exact hturn.move (perform_passes settings env c call).1 (perform_tail settings env c call)
  · rw [(@perform_threads settings env c call).2]
    exact hfor

theorem Passes.step (h : Passes frames c) :
    Passes (frames ++ takenAt settings c event) (WebSocketServer.step settings c event) := by
  cases event with
  | connected full address now =>
    simp only [takenAt,append_nil,WebSocketServer.step]
    split
    · exact h
    · split
      · exact ⟨h.turn,h.foreign⟩
      · exact ⟨h.turn,h.foreign⟩
  | data bytes now =>
    simp only [takenAt,append_nil,WebSocketServer.step]
    split
    · rename_i state hclient hread
      have hcalls : inHand (dataCalls state.status) = [] := by cases state.status <;> rfl
      refine ⟨⟨?_,filterMap_tail hcalls⟩,h.foreign⟩
      rw [← h.turn.passed,hread]
      exact congrArg _ hcalls
    · exact h
  | read env =>
    simp only [takenAt,WebSocketServer.step]
    cases hread : c.reading with
    | nil => simpa using h
    | cons call rest => exact passes_read h hread env
  | call entry =>
    simp only [takenAt,append_nil,WebSocketServer.step]
    refine ⟨h.turn,?_⟩
    intro thread hthr
    rcases mem_append.mp hthr with hthr | hthr
    · exact h.foreign thread hthr
    · rw [mem_singleton.mp hthr]
      cases entry <;> simp [Entry.calls,Call.foreign]
  | move i env =>
    simp only [takenAt,append_nil,WebSocketServer.step]
    split
    · rename_i call rest hthr
      have hmem := mem_of_getElem? hthr
      obtain ⟨hhan,hcalls⟩ := @perform_foreign settings env c call (h.foreign _ hmem call mem_cons_self)
      obtain ⟨hread,hoth⟩ := @perform_threads settings env c call
      refine ⟨?_,?_⟩
      · rw [hhan,hread]
        exact h.turn
      · intro thread hnew new hmem'
        rcases mem_or_eq_of_mem_set hnew with hold | rfl
        · rw [hoth] at hold
          exact h.foreign thread hold new hmem'
        · rcases mem_append.mp hmem' with hmem' | hmem'
          · exact hcalls new hmem'
          · exact h.foreign _ hmem new (mem_cons_of_mem call hmem')
    · exact h
  | dropped =>
    simp only [takenAt,append_nil,WebSocketServer.step]
    exact ⟨h.turn,h.foreign⟩

/-- The frame that a turn of `handleFrames` finds is masked, if it is one that can be taken. -/
def masks (c : Connection) : Event → Bool
  | .read _ => c.reading.head?.all (fun call => (found c call).all (fun f => !f.2.final || f.2.masked))
  | _ => true

theorem takenAt_masked (h : masks c event = true) : ∀ f ∈ takenAt settings c event, f.2.masked = true := by
  cases event with
  | read env =>
    cases hread : c.reading with
    | nil => simp [takenAt,hread]
    | cons call rest =>
      simp only [masks,takenAt,hread,head?_cons,Option.all_some,Option.elim_some,taken] at h ⊢
      rcases (perform_passes settings env c call).2 with hnone | ⟨payload,type,masked,hfound,hcalls⟩
      · simp [hnone]
      · rw [hfound] at h ⊢
        rw [hcalls]
        simpa [inHand,Call.frame] using h
  | _ => simp [takenAt]

end Passing

end WebSocketServer

namespace WebSocketClient

def Call.frame : Call → Option (WSFrameType × Bytes)
  | .handleFrame type payload => some (type,payload)
  | _ => none

def inHand (calls : List Call) : List (WSFrameType × Bytes) := calls.filterMap Call.frame

def found (c : Client) : Call → Option Frame
  | .frames => frontFrame (getFrameSize (unread c)) (unread c)
  | _ => none

def taken (settings : Settings) (env : Env) (c : Client) (call : Call) : List Frame :=
  if inHand (perform settings env c call).2 = [] then [] else (found c call).toList

def takenAt (settings : Settings) (c : Client) : Event → List Frame
  | .read env => c.reading.head?.elim [] (taken settings env c)
  | _ => []

section Keeps

variable {settings : Settings} {env : Env} {c c' c'' : Client}

/-- Nothing has been passed on, and the call for received bytes stands where it stood. -/
def Keeps (c c' : Client) : Prop := c'.handled = c.handled ∧ c'.reading = c.reading

theorem Keeps.refl (c : Client) : Keeps c c := ⟨rfl,rfl⟩

theorem Keeps.trans (h : Keeps c c') (h' : Keeps c' c'') : Keeps c c'' :=
  ⟨h'.1.trans h.1,h'.2.trans h.2⟩

section

variable (c : Client)

theorem keeps_notifyClose (code : Nat) (reason : Bytes) : Keeps c (c.notifyClose code reason) := by
  unfold Client.notifyClose
  split <;> exact ⟨rfl,rfl⟩

theorem keeps_closeWithReason (reason : Bytes) : Keeps c (c.closeWithReason reason) := by
  unfold Client.closeWithReason
  split
  · simp only [Client.handleDisconnected]
    split
    · exact Keeps.trans ⟨rfl,rfl⟩ (keeps_notifyClose _ _ _)
    · exact ⟨rfl,rfl⟩
  · exact ⟨rfl,rfl⟩

theorem keeps_notifyFailure (message : Bytes) : Keeps c (c.notifyFailure message) := by
  unfold Client.notifyFailure
  split <;> exact ⟨rfl,rfl⟩

theorem keeps_disconnect : Keeps c c.disconnect := by
  simp only [Client.disconnect]
  split
  · exact (keeps_notifyFailure c _).trans (keeps_closeWithReason _ _)
  · exact keeps_closeWithReason c _

theorem keeps_disconnectAfterPendingWrites (env : Env) :
    Keeps c (c.disconnectAfterPendingWrites env) := by
  unfold Client.disconnectAfterPendingWrites
  split
  · exact keeps_disconnect c
  · split
    · exact keeps_closeWithReason c _
    · exact .refl c

theorem keeps_send (env : Env) (item : Item) : Keeps c (c.send env item).1 := by
  simp only [Client.send]
  split
  · split
    · exact keeps_closeWithReason (Client.tell { c with queued := c.queued ++ [item] } _) _
    · exact ⟨rfl,rfl⟩
  · exact .refl c

end

theorem keeps_sent (item : Item) (hc : Keeps c c') {sent refused : Client → Client}
    (hsent : ∀ d, Keeps d (sent d)) (href : ∀ d, Keeps d (refused d)) :
    Keeps c (match c'.send env item with
      | (d,true) => sent d
      | (d,false) => refused d) := by
  have hsend := keeps_send c' env item
  split
  · rename_i d h
    rw [h] at hsend
    exact (hc.trans hsend).trans (hsent d)
  · rename_i d h
    rw [h] at hsend
    exact (hc.trans hsend).trans (href d)

section

variable (c : Client)

theorem keeps_answerClose (env : Env) (code : Nat) (reason : Bytes) :
    Keeps c (c.answerClose env code reason) := by
  have hnot := keeps_notifyClose c code reason
  simp only [Client.answerClose]
  split
  · exact hnot.trans (keeps_disconnectAfterPendingWrites _ env)
  · refine keeps_sent _ ?_ (fun d => keeps_disconnectAfterPendingWrites d env) keeps_disconnect
    exact ⟨hnot.1,hnot.2⟩

theorem keeps_sendFrame (env : Env) (type : WSFrameType) (payload : Bytes) :
    Keeps c (c.sendFrame env type payload) := by
  unfold Client.sendFrame
  split
  · exact .refl c
  · exact keeps_send c env _

theorem keeps_close (env : Env) (code : Nat) (reason : Bytes) : Keeps c (c.close env code reason) := by
  unfold Client.close
  split
  · exact keeps_disconnect c
  · exact .refl c
  all_goals
    simp only
    split
    · exact keeps_sent _ ⟨rfl,rfl⟩ .refl keeps_disconnect
    · exact keeps_disconnect { c with state := .closing }

theorem keeps_handleTcpConnected (settings : Settings) (env : Env) (key : Bytes) :
    Keeps c (c.handleTcpConnected settings env key) := by
  simp only [Client.handleTcpConnected]
  exact keeps_sent _ ⟨rfl,rfl⟩ .refl (fun d => keeps_disconnect (d.notifyConnect false _))

theorem keeps_connect (settings : Settings) (env : Env) (url : Bytes) (headers : ByteMap Bytes)
    (dial : Dial) : Keeps c (connect settings env c url headers dial) := by
  simp only [connect]
  split
  · exact ⟨rfl,rfl⟩
  · split
    · exact ⟨rfl,rfl⟩
    · split
      · exact ⟨rfl,rfl⟩
      · exact ⟨rfl,rfl⟩
      · exact Keeps.trans ⟨rfl,rfl⟩ (keeps_handleTcpConnected _ settings env _)

end

end Keeps

variable {event : Event} {frames : List Frame}

section Passing

variable {settings : Settings} {env : Env} {c : Client} {call : Call}

theorem keeps_step (hdata : ∀ bytes, event ≠ .data bytes) (hread : ∀ env, event ≠ .read env) :
    Keeps c (step settings c event) := by
  cases event with
  | connect url headers dial env => exact keeps_connect c settings env url headers dial
  | established key env =>
    simp only [step]
    split
    · split
      · exact keeps_handleTcpConnected { c with tcpCallback := false } settings env key
      · exact ⟨rfl,rfl⟩
    · exact .refl c
  | failed message =>
    simp only [step]
    split
    · exact keeps_closeWithReason (c.tell _) message
    · exact (keeps_notifyFailure c message).trans (keeps_closeWithReason (Client.tell _ _) message)
  | dropped reason =>
    simp only [step]
    split
    · exact keeps_closeWithReason c reason
    · exact .refl c
  | data bytes => exact absurd rfl (hdata bytes)
  | read env => exact absurd rfl (hread env)
  | sendText message env => exact keeps_sendFrame c env .text message
  | sendBinary data env => exact keeps_sendFrame c env .binary data
  | ping env => exact keeps_sendFrame c env .ping []
  | close code reason env => exact keeps_close c env code reason
  | handshakeTimeout =>
    simp only [step,Client.handleHandshakeTimeout]
    split
    · exact .refl c
    · exact keeps_disconnect (c.notifyConnect false _)
  | closeTimeout =>
    simp only [step,Client.handleCloseTimeout]
    split
    · exact keeps_disconnect c
    · exact .refl c

theorem handleFrame_handled (c : Client) (env : Env) (type : WSFrameType) (payload : Bytes) :
    (c.handleFrame env type payload).handled = c.handled ++ [(type,payload)] := by
  simp only [Client.handleFrame]
  cases type with
  | text =>
    simp only
    split <;> rfl
  | binary =>
    simp only
    split <;> rfl
  | close => exact (keeps_answerClose { c with handled := c.handled ++ [(.close,payload)] } env _ _).1
  | ping => exact (keeps_send { c with handled := c.handled ++ [(.ping,payload)] } env _).1
  | pong => rfl

theorem perform_passes (settings : Settings) (env : Env) (c : Client) (call : Call) :
    (perform settings env c call).1.handled = c.handled ++ inHand [call] ∧
      (inHand (perform settings env c call).2 = [] ∨
        ∃ payload type, found c call = some (payload,{ type, final := true, masked := false }) ∧
          (perform settings env c call).2 = [.handleFrame type payload,.frames]) := by
  have hnil (handled : List (WSFrameType × Bytes)) : handled = handled ++ [] := (append_nil _).symm
  cases call with
  | handshakeResponse =>
    simp only [perform]
    split
    · exact ⟨hnil _,.inl rfl⟩
    · exact ⟨(keeps_disconnect (c.notifyConnect false _)).1.trans (hnil _),.inl rfl⟩
    · refine ⟨hnil _,.inl ?_⟩
      simp only
      split <;> rfl
  | frames =>
    simp only [perform,takeFrame,found,frontFrame,makeBufferedView_size,makeBufferedView_text]
    split
    · exact ⟨hnil _,.inl rfl⟩
    · split
      · rename_i payload type hdec
        exact ⟨hnil _,.inr ⟨payload,type,hdec,rfl⟩⟩
      · exact ⟨(keeps_disconnect (c.tell _)).1.trans (hnil _),.inl rfl⟩
  | handleFrame type payload => exact ⟨handleFrame_handled c env type payload,.inl rfl⟩

theorem inHand_perform (settings : Settings) (env : Env) (c : Client) (call : Call) :
    inHand (perform settings env c call).2 = (taken settings env c call).map Frame.content := by
  unfold taken
  rcases (perform_passes settings env c call).2 with hnone | ⟨payload,type,hfound,hcalls⟩
  · rw [if_pos hnone,hnone]
    rfl
  · rw [hfound,hcalls]
    rfl

theorem perform_tail (settings : Settings) (env : Env) (c : Client) (call : Call) :
    inHand (perform settings env c call).2.tail = [] := by
  rcases (perform_passes settings env c call).2 with hnone | ⟨payload,type,hfound,hcalls⟩
  · exact filterMap_tail hnone
  · rw [hcalls]
    rfl

def Passes (frames : List Frame) (c : Client) : Prop :=
  InTurn Call.frame c.handled c.reading (frames.map Frame.content)

theorem Passes.keeps {c' : Client} (h : Passes frames c) (hkeeps : Keeps c c') : Passes frames c' := by
  unfold Passes
  rw [hkeeps.1,hkeeps.2]
  exact h

theorem Passes.step (h : Passes frames c) :
    Passes (frames ++ takenAt settings c event) (WebSocketClient.step settings c event) := by
  cases event with
  | data bytes =>
    simp only [takenAt,append_nil,WebSocketClient.step]
    split
    · rename_i htran hread
      have hcalls : inHand (dataCalls c.state) = [] := by cases c.state <;> rfl
      refine ⟨?_,filterMap_tail hcalls⟩
      rw [← h.passed,hread]
      exact congrArg _ hcalls
    · exact h
  | read env =>
    simp only [takenAt,WebSocketClient.step]
    cases hread : c.reading with
    | nil => simpa using h
    | cons call rest =>
      unfold Passes at h ⊢
      rw [hread] at h
      simp only [head?_cons,Option.elim_some]
      rw [map_append,← inHand_perform]
      exact h.move (perform_passes settings env c call).1 (perform_tail settings env c call)
  | _ =>
    simp only [takenAt,append_nil]
    exact h.keeps (keeps_step (by simp) (by simp))

theorem takenAt_unmasked (event : Event) : ∀ f ∈ takenAt settings c event, f.2.masked = false := by
  cases event with
  | read env =>
    cases hread : c.reading with
    | nil => simp [takenAt,hread]
    | cons call rest =>
      simp only [takenAt,hread,head?_cons,Option.elim_some,taken]
      rcases (perform_passes settings env c call).2 with hnone | ⟨payload,type,hfound,hcalls⟩
      · simp [hnone]
      · rw [hfound,hcalls]
        simp [inHand,Call.frame]
  | _ => simp [takenAt]

theorem disconnect_transport (c : Client) : c.disconnect.transport = .idle := by
  have hclose (c : Client) (reason : Bytes) : (c.closeWithReason reason).transport = .idle := by
    unfold Client.closeWithReason
    split
    · simp only [Client.handleDisconnected,Client.notifyClose]
      split
      · split <;> rfl
      · rfl
    · rfl
  exact hclose _ _

theorem perform_masked {f : Frame} (h : found c .frames = some f) (hmas : f.2.masked = true) :
    (perform settings env c .frames).1.transport = .idle ∧ (perform settings env c .frames).2 = [] := by
  simp only [found,frontFrame] at h
  simp only [perform,takeFrame,makeBufferedView_size,makeBufferedView_text]
  split at h
  · cases h
  · rename_i hwhole
    rw [if_neg hwhole]
    split
    · rename_i payload type hdec
      rw [hdec] at h
      obtain rfl := Option.some.inj h
      cases hmas
    · exact ⟨disconnect_transport _,rfl⟩

end Passing

end WebSocketClient

namespace WebSocketServer

variable {settings : Settings} {env : Env} {c : Connection}

theorem perform_fragment {f : Frame} (h : found c .frames = some f) (hfinal : f.2.final = false) :
    (perform settings env c .frames).2 = [.disconnect 1002 (ascii "Protocol error")] := by
  cases hclient : c.client with
  | none => simp [found,hclient] at h
  | some state =>
    simp only [found,hclient,Option.bind_some] at h
    split at h
    · rename_i hopen
      simp only [perform,hclient,hopen.1,if_true,takeFrame,makeBufferedView_size,makeBufferedView_text,
        if_neg (Nat.not_lt.mpr hopen.2)]
      simp only [frontFrame] at h
      split at h
      · cases h
      · rename_i hwhole
        rw [if_neg hwhole]
        split
        · rename_i payload type masked hdec
          rw [hdec] at h
          obtain rfl := Option.some.inj h
          cases hfinal
        · rfl
    · cases h

theorem perform_disconnect (code : Nat) (reason : Bytes) :
    ∀ state ∈ (perform settings env c (.disconnect code reason)).1.client, state.status ≠ .connected := by
  intro state hstate
  simp only [perform] at hstate
  split at hstate
  · rename_i hnone
    simp [hnone] at hstate
  · rename_i old hold
    split at hstate
    · simp only [Option.mem_some_iff] at hstate
      rw [← hstate]
      simp
    · rename_i hclos
      simp_all
    · rename_i hhan
      simp_all

/-- Under the rule of `masks`, an unmasked frame is not passed on, and its connection is
open no longer when the call has gone on. -/
theorem unmasked_ends {frames : List Frame} {f : Frame} {rest : List Call} (h : Passes frames c)
    (hread : c.reading = .frames :: rest) (hfound : found c .frames = some f) (hunm : f.2.masked = false)
    (hmasks : masks c (.read env) = true) (env' : Env) :
    let c' := step settings c (.read env)
    c'.handled = c.handled ∧ inHand c'.reading = [] ∧
      ∀ state ∈ (step settings c' (.read env')).client, state.status ≠ .connected := by
  have hfinal : f.2.final = false := by simpa [masks,hread,hfound,hunm] using hmasks
  have hcalls := @perform_fragment settings env c f hfound hfinal
  have hrest : inHand rest = [] := by simpa [hread,inHand] using h.turn.alone
  have hhan := (perform_frames settings env c).1
  intro c'
  have hc' : c' = { (perform settings env c .frames).1 with
      reading := .disconnect 1002 (ascii "Protocol error") :: rest } := by
    simp only [c',step,hread,hcalls]
    rfl
  refine ⟨?_,?_,?_⟩
  · rw [hc']
    exact hhan
  · rw [hc']
    exact hrest
  · rw [hc']
    exact @perform_disconnect settings env' _ 1002 (ascii "Protocol error")

end WebSocketServer

namespace WebSocketClient

theorem masked_ends {settings : Settings} {env : Env} {c : Client} {frames : List Frame} {f : Frame} {rest : List Call}
    (h : Passes frames c) (hread : c.reading = .frames :: rest) (hfound : found c .frames = some f)
    (hmas : f.2.masked = true) :
    let c' := step settings c (.read env)
    c'.handled = c.handled ∧ inHand c'.reading = [] ∧ c'.transport = .idle := by
  obtain ⟨htran,hcalls⟩ := @perform_masked settings env c f hfound hmas
  have hhan := (perform_passes settings env c .frames).1
  have hrest : inHand rest = [] := by simpa [hread,inHand] using h.alone
  simp only [step,hread,hcalls,nil_append]
  exact ⟨hhan.trans (append_nil _),hrest,htran⟩

end WebSocketClient

/-- What the client passes to `handleFrame` has come in unmasked frames, and a masked frame
ends the connection. What the server passes has come in masked frames as long as no unmasked
frame arrives that it takes, and then every other unmasked frame ends the connection too. -/
theorem mask_direction (clientSettings : WebSocketClient.Settings) (clientEvents : List WebSocketClient.Event)
    (settings : WebSocketServer.Settings) (events : List (Nat × WebSocketServer.Event)) (id : Nat)
    (hmasks : Machine.Meets (WebSocketServer.step settings) (fun c e => WebSocketServer.masks c e = true) {}
      (Machine.own id events)) :
    (let c := Machine.runs (WebSocketClient.step clientSettings) {} clientEvents
      let frames := Machine.outputs (WebSocketClient.step clientSettings) (WebSocketClient.takenAt clientSettings) {}
        clientEvents
      c.handled ++ WebSocketClient.inHand c.reading = frames.map Frame.content ∧
      (∀ f ∈ frames, f.2.masked = false) ∧
      ∀ rest f env, c.reading = .frames :: rest → WebSocketClient.found c .frames = some f → f.2.masked = true →
        let c' := WebSocketClient.step clientSettings c (.read env)
        c'.handled = c.handled ∧ WebSocketClient.inHand c'.reading = [] ∧ c'.transport = .idle) ∧
    (let c := Machine.runs (WebSocketServer.serve settings) WebSocketServer.started events id
      let frames := Machine.outputs (WebSocketServer.step settings) (WebSocketServer.takenAt settings) {}
        (Machine.own id events)
      c.handled ++ WebSocketServer.inHand c.reading = frames.map Frame.content ∧
      (∀ f ∈ frames, f.2.masked = true) ∧
      ∀ rest f env env', c.reading = .frames :: rest → WebSocketServer.found c .frames = some f →
        f.2.masked = false → WebSocketServer.masks c (.read env) = true →
        let c' := WebSocketServer.step settings c (.read env)
        c'.handled = c.handled ∧ WebSocketServer.inHand c'.reading = [] ∧
          ∀ state ∈ (WebSocketServer.step settings c' (.read env')).client, state.status ≠ .connected) := by
  constructor
  · intro c frames
    obtain ⟨hpas,hunm⟩ := @Machine.outputs_invariant _ _ (WebSocketClient.step clientSettings) _
      (WebSocketClient.takenAt clientSettings)
      (fun frames c => WebSocketClient.Passes frames c ∧ ∀ f ∈ frames, f.2.masked = false) (fun _ _ => True)
      (fun past c e h _ => ⟨h.1.step,fun f hf => (List.mem_append.mp hf).elim (h.2 f)
        (WebSocketClient.takenAt_unmasked e f)⟩) [] {} ⟨⟨rfl,rfl⟩,by simp⟩ clientEvents (Machine.meets_of_always (fun _ _ => trivial) _ _)
    exact ⟨hpas.passed,hunm,fun rest f env hread hfound hmas =>
      WebSocketClient.masked_ends hpas hread hfound hmas⟩
  · intro c frames
    have hc : c = Machine.runs (WebSocketServer.step settings) {} (Machine.own id events) :=
      Machine.runs_family WebSocketServer.started events id
    obtain ⟨hpas,hmas⟩ := @Machine.outputs_invariant _ _ (WebSocketServer.step settings) _
      (WebSocketServer.takenAt settings)
      (fun frames c => WebSocketServer.Passes frames c ∧ ∀ f ∈ frames, f.2.masked = true) _
      (fun past c e h hok => ⟨h.1.step,fun f hf => (List.mem_append.mp hf).elim (h.2 f)
        (WebSocketServer.takenAt_masked hok f)⟩) [] {} ⟨⟨⟨rfl,rfl⟩,by simp⟩,by simp⟩ _ hmasks
    rw [← hc] at hpas
    exact ⟨hpas.turn.passed,hmas,fun rest f env env' hread hfound hunm hok =>
      WebSocketServer.unmasked_ends hpas hread hfound hunm hok env'⟩

namespace WebSocketServer

def greeted (frame : Bytes) : List Event :=
  [.connected false {} 0,.data upgradeRequest 0,.read {},.read {},.read {},.read {},.data frame 1,.read {},
    .read {},.read {}]

end WebSocketServer

/-- A masked Text frame arrives at the server. -/
theorem mask_direction_text :
    let events := WebSocketServer.greeted (encodeFrame #v[1,2,3,4] (ascii "hi") .text true)
    let c := Machine.runs (WebSocketServer.serve WebSocketServer.accepting) WebSocketServer.started
      (events.map (fun e => (1,e))) 1
    c.handled = [(.text,ascii "hi")] ∧
      ∃ frames : List Frame, (∀ f ∈ frames, f.2.masked = true) ∧
        c.handled ++ WebSocketServer.inHand c.reading = frames.map Frame.content := by
  intro events c
  obtain ⟨-,hpas,hmas,-⟩ := mask_direction {} [] WebSocketServer.accepting (events.map (fun e => (1,e))) 1
    (by rw [Machine.own_map]; decide +kernel)
  exact ⟨by decide +kernel,_,hmas,hpas⟩

/-- The server passes an unmasked Text frame to `handleFrame`. -/
theorem unmasked_passed :
    let events := WebSocketServer.greeted [129,2,104,105]
    (Machine.runs (WebSocketServer.step WebSocketServer.accepting) {} events).handled = [(.text,ascii "hi")] ∧
      Machine.outputs (WebSocketServer.step WebSocketServer.accepting)
        (WebSocketServer.takenAt WebSocketServer.accepting) {} events =
        [(ascii "hi",{ type := .text, final := true, masked := false })] := by
  decide +kernel

end FastNet
