import FastNet.WebSocketServer

/-!
What `WebSocketServer` queues for a client, and in what order: the response to the
handshake, and behind a 101 the frames up to a Close frame.
-/

namespace FastNet.WebSocketServer

open WebSocketProtocol List Call

def Connection.status (c : Connection) : Option Status := c.client.map ClientState.status

def Call.isSendClose : Call → Bool
  | .sendClose _ _ => true
  | _ => false

def Call.plain : Call → Bool
  | .handshake => false
  | .answer _ _ _ => false
  | .reject _ => false
  | .accept _ _ _ => false
  | .establish _ _ => false
  | .frames => true
  | .handleFrame _ _ => true
  | .disconnect _ _ => true
  | .sendClose _ _ => true
  | .closeAfterPendingWrites => true
  | .drop => true
  | .sweep _ => true
  | .send type _ => type ≠ .close

def Call.mild (call : Call) : Bool := call.plain && !call.isSendClose

structure Same (c c' : Connection) : Prop where
  announced : c'.announced = c.announced
  session : c'.session = c.session
  status : c'.status = c.status
  queued : c'.queued = c.queued
  asked : c'.asked = c.asked

theorem Same.refl (c : Connection) : Same c c := ⟨rfl,rfl,rfl,rfl,rfl⟩

inductive Moves (c : Connection) : Call → Connection → List Call → Prop where
  | quiet {call : Call} {c' : Connection} {calls : List Call} (same : Same c c') (hcall : call.mild = true)
      (hcalls : ∀ new ∈ calls, new.mild = true) : Moves c call c' calls
  | marks {state : ClientState} {code : Nat} {reason : Bytes} (hclient : c.client = some state)
      (hstatus : state.status = .connected) :
      Moves c (.disconnect code reason) { c with client := some { state with status := .closing } }
        [.sendClose code reason]
  | closes {code : Nat} {reason : Bytes} (hsession : c.session = true) :
      Moves c (.sendClose code reason) (push c (.frame .close (closePayload code reason)))
        [.closeAfterPendingWrites]
  | lost {code : Nat} {reason : Bytes} (hsession : c.session = false) :
      Moves c (.sendClose code reason) c [.drop]
  | drops {call : Call} (hcall : call.mild = true) : Moves c call (dropSession c) []
  | sends {type : WSFrameType} {payload : Bytes} (htype : type ≠ .close) :
      Moves c (.send type payload) (push c (.frame type payload)) []

section Performs

variable {settings : Settings} {env : Env} {c : Connection} {call : Call}

theorem mild_disconnect (code : Nat) (reason : Bytes) : ∀ new ∈ [disconnect code reason], new.mild = true := by
  simp [mild,plain,isSendClose]

theorem takeFrame_moves {state : ClientState} (hclient : c.client = some state) :
    Moves c .frames (takeFrame c state).1 (takeFrame c state).2 := by
  rcases takeFrame_cases c state with ⟨-,h⟩ | ⟨-,h | h | ⟨frameSize,type,payload,h⟩⟩
  · rw [h]
    exact .quiet (.refl c) rfl (mild_disconnect _ _)
  · rw [h]
    exact .quiet (.refl c) rfl (by simp)
  · rw [h]
    exact .quiet (.refl c) rfl (mild_disconnect _ _)
  · rw [h]
    refine .quiet ⟨rfl,rfl,?_,rfl,rfl⟩ rfl (by simp [mild,plain,isSendClose])
    simp [Connection.status,hclient]

theorem frameCalls_mild (type : WSFrameType) (payload : Bytes) :
    ∀ new ∈ frameCalls type payload, new.mild = true := by
  cases type <;> simp [frameCalls,mild,plain,isSendClose]

theorem perform_moves (h : call.plain = true) :
    Moves c call (perform settings env c call).1 (perform settings env c call).2 := by
  cases call with
  | frames =>
    simp only [perform]
    cases hc : c.client with
    | none => exact .quiet (.refl c) rfl (by simp)
    | some state =>
      simp only
      split
      · exact takeFrame_moves hc
      · exact .quiet (.refl c) rfl (by simp)
  | handleFrame type payload =>
    simp only [perform]
    refine .quiet ?_ rfl (frameCalls_mild type payload)
    split
    · refine ⟨rfl,rfl,?_,rfl,rfl⟩
      cases hc : c.client with
      | none => simp [Connection.status,hc]
      | some state => simp [Connection.status,hc]
    · exact ⟨rfl,rfl,rfl,rfl,rfl⟩
  | disconnect code reason =>
    simp only [perform]
    cases hc : c.client with
    | none => exact .quiet (.refl c) rfl (by simp [mild,plain,isSendClose])
    | some state =>
      simp only
      cases hs : state.status with
      | connected => exact .marks hc hs
      | closing => exact .quiet (.refl c) rfl (by simp [mild,plain,isSendClose])
      | handshake => exact .quiet (.refl c) rfl (by simp [mild,plain,isSendClose])
  | sendClose code reason =>
    simp only [perform]
    cases hs : c.session with
    | true => exact .closes hs
    | false => exact .lost hs
  | closeAfterPendingWrites =>
    simp only [perform]
    split
    · exact .drops rfl
    · exact .quiet (.refl c) rfl (by simp)
  | drop => exact .drops rfl
  | sweep now =>
    simp only [perform]
    cases hc : c.client with
    | none => exact .quiet (.refl c) rfl (by simp)
    | some state =>
      simp only
      split
      · exact .quiet (.refl c) rfl (by simp)
      · split
        · exact .quiet (.refl c) rfl (mild_disconnect _ _)
        · exact .quiet (.refl c) rfl (by simp [mild,plain,isSendClose])
  | send type payload => exact .sends (by simpa [plain] using h)
  | _ => cases h

theorem perform_threads : (perform settings env c call).1.reading = c.reading ∧
    (perform settings env c call).1.others = c.others := by
  cases call <;> simp only [perform,push,dropSession,answer,takeFrame] <;> grind

end Performs

section Threads

variable {call : Call} {calls rest : List Call}

/-- Where the call for received bytes stands in the handshake: before the callback has
been called, before the response has been queued, before the client is connected. -/
inductive Phase where
  | asking | answering | establishing | plain

inductive Reading : Phase → List Call → Prop where
  | handshake : Reading .asking [.handshake]
  | answer {key : Bytes} {request : WebSocketServerHandshakeRequest} {consumedBytes : Nat} :
      Reading .asking [.answer key request consumedBytes]
  | reject {response : WebSocketServerHandshakeResponse} :
      Reading .answering [.reject response,.closeAfterPendingWrites]
  | accept {key : Bytes} {response : WebSocketServerHandshakeResponse} {consumedBytes : Nat} :
      Reading .answering [.accept key response consumedBytes]
  | establish {subprotocol : Bytes} {consumedBytes : Nat} :
      Reading .establishing [.establish subprotocol consumedBytes]
  | plain {calls : List Call} (h : ∀ call ∈ calls, call.plain = true) : Reading .plain calls

theorem Reading.nil {phase : Phase} (h : Reading phase []) : phase = .plain := by
  cases h
  rfl

theorem plain_of_mild (h : call.mild = true) : call.plain = true := by
  rw [mild,Bool.and_eq_true] at h
  exact h.1

theorem Moves.plain {c c' : Connection} (h : Moves c call c' calls) :
    ∀ new ∈ calls, new.plain = true := by
  cases h with
  | quiet _ _ hcalls => exact fun new hnew => plain_of_mild (hcalls new hnew)
  | marks => simp [plain]
  | closes => simp [plain]
  | lost => simp [plain]
  | drops => simp
  | sends => simp

theorem Entry.calls_plain (entry : Entry) : ∀ call ∈ entry.calls, call.plain = true := by
  cases entry <;> simp [Entry.calls,plain]

theorem plain_append (h : ∀ old ∈ call :: rest, old.plain = true)
    (hcalls : ∀ new ∈ calls, new.plain = true) : ∀ new ∈ calls ++ rest, new.plain = true := by
  intro new hnew
  rcases mem_append.mp hnew with hn | hr
  · exact hcalls new hn
  · exact h new (mem_cons_of_mem _ hr)

theorem plain_set {others : List (List Call)} (h : ∀ thread ∈ others, ∀ call ∈ thread, call.plain = true)
    {i : Nat} (hi : others[i]? = some (call :: rest))
    (hcalls : ∀ new ∈ calls, new.plain = true) :
    ∀ thread ∈ others.set i (calls ++ rest), ∀ new ∈ thread, new.plain = true := by
  intro thread hthr new hnew
  rcases mem_or_eq_of_mem_set hthr with hold | rfl
  · exact h thread hold new hnew
  · exact plain_append (h _ (mem_of_getElem? hi)) hcalls new hnew

end Threads

section Once

def Item.isResponse : Item → Bool
  | .accepted _ _ => true
  | .rejected _ => true
  | .frame _ _ => false

def responses (queued : List Item) : Nat := queued.countP Item.isResponse

def Counts : Phase → Nat → Nat → Prop
  | .asking, asked, answered => asked = 0 ∧ answered = 0
  | .answering, asked, answered => asked ≤ 1 ∧ answered = 0
  | .establishing, asked, answered => asked ≤ 1 ∧ answered ≤ 1
  | .plain, asked, answered => asked ≤ 1 ∧ answered ≤ 1

/-- The callback is called once at most, and one response is queued at most. -/
structure Once (c : Connection) : Prop where
  others : ∀ thread ∈ c.others, ∀ call ∈ thread, call.plain = true
  reading : ∃ phase, Reading phase c.reading ∧ Counts phase c.asked (responses c.queued)

def unanswered (c : Connection) : Event → Bool
  | .data _ _ => c.status ≠ some .handshake || (c.asked = 0 && responses c.queued = 0)
  | _ => true

variable {settings : Settings} {env : Env} {c c' : Connection} {call : Call} {calls : List Call}

theorem responses_push_frame (c : Connection) (type : WSFrameType) (payload : Bytes) :
    responses (push c (.frame type payload)).queued = responses c.queued := by
  unfold push
  split
  · simp [responses,Item.isResponse]
  · rfl

theorem responses_push_le (c : Connection) (item : Item) :
    responses (push c item).queued ≤ responses c.queued+1 := by
  unfold push
  split
  · simp [responses,countP_singleton]
    split <;> omega
  · omega

@[simp] theorem push_asked (c : Connection) (item : Item) : (push c item).asked = c.asked := by
  unfold push
  split <;> rfl

theorem Moves.counts (h : Moves c call c' calls) :
    c'.asked = c.asked ∧ responses c'.queued = responses c.queued := by
  cases h with
  | quiet same => exact ⟨same.asked,by rw [same.queued]⟩
  | marks => exact ⟨rfl,rfl⟩
  | closes => exact ⟨push_asked c _,responses_push_frame c _ _⟩
  | lost => exact ⟨rfl,rfl⟩
  | drops => exact ⟨rfl,rfl⟩
  | sends => exact ⟨push_asked c _,responses_push_frame c _ _⟩

theorem answer_spec (settings : Settings) (c : Connection) (request : WebSocketServerHandshakeRequest) :
    ∃ asked, (answer settings c request).1 = { c with asked } ∧ asked ≤ c.asked+1 := by
  unfold answer
  split
  · exact ⟨c.asked+1,rfl,Nat.le_refl _⟩
  · exact ⟨c.asked,rfl,Nat.le_succ _⟩

theorem Counts.le {phase : Phase} {asked answered : Nat} (h : Counts phase asked answered) :
    asked ≤ 1 ∧ answered ≤ 1 := by
  cases phase <;> simp only [Counts] at h <;> omega

theorem reading_read {phase : Phase} {rest : List Call} (hread : Reading phase (call :: rest))
    (hcoun : Counts phase c.asked (responses c.queued)) :
    ∃ phase', Reading phase' ((perform settings env c call).2 ++ rest) ∧
      Counts phase' (perform settings env c call).1.asked
        (responses (perform settings env c call).1.queued) := by
  cases hread with
  | handshake =>
    simp only [perform]
    cases hc : c.client with
    | none => exact ⟨.plain,.plain (by simp),hcoun.le⟩
    | some state =>
      simp only
      split
      · exact ⟨.plain,.plain (by simp),hcoun.le⟩
      · exact ⟨.plain,.plain (by simp [plain]),hcoun.le⟩
      · exact ⟨.asking,.answer,hcoun⟩
  | @answer key request consumedBytes =>
    obtain ⟨asked,hans,hasked⟩ := answer_spec settings c request
    obtain ⟨hzero,hnone⟩ := hcoun
    simp only [perform,hans]
    split
    · exact ⟨.answering,.accept,show asked ≤ 1 by omega,hnone⟩
    · exact ⟨.answering,.reject,show asked ≤ 1 by omega,hnone⟩
  | @reject response =>
    obtain ⟨hasked,hnone⟩ := hcoun
    have hle := responses_push_le c (.rejected response)
    refine ⟨.plain,.plain (by simp [perform,plain]),?_⟩
    simp only [perform,push_asked,Counts]
    omega
  | @accept key response consumedBytes =>
    obtain ⟨hasked,hnone⟩ := hcoun
    have hle := responses_push_le c (.accepted key response)
    simp only [perform]
    split
    · refine ⟨.establishing,.establish,?_⟩
      simp only [push_asked,Counts]
      omega
    · exact ⟨.plain,.plain (by simp [plain]),hasked,show responses c.queued ≤ 1 by omega⟩
  | establish =>
    simp only [perform]
    cases c.client with
    | none => exact ⟨.plain,.plain (by simp),hcoun⟩
    | some state =>
      refine ⟨.plain,.plain ?_,hcoun⟩
      simp only [append_nil]
      split <;> simp [plain]
  | plain h =>
    have hmoves := @perform_moves settings env c call (h call (by simp))
    obtain ⟨hasked,hqu⟩ := hmoves.counts
    refine ⟨.plain,.plain (plain_append h hmoves.plain),?_⟩
    rw [hasked,hqu]
    exact hcoun

theorem once_step {event : Event} (h : Once c) (hok : unanswered c event = true) :
    Once (step settings c event) := by
  obtain ⟨phase,hre,hcoun⟩ := h.reading
  cases event with
  | connected full address now =>
    simp only [step]
    split
    · exact h
    · split
      · exact ⟨h.others,phase,hre,hcoun⟩
      · exact ⟨h.others,phase,hre,hcoun⟩
  | data bytes now =>
    simp only [step]
    split
    · rename_i state hclient hnil
      refine ⟨h.others,?_⟩
      rw [hnil] at hre
      cases hre.nil
      cases hs : state.status with
      | handshake =>
        have hnone : c.asked = 0 ∧ responses c.queued = 0 := by
          simpa [unanswered,Connection.status,hclient,hs] using hok
        exact ⟨.asking,.handshake,hnone⟩
      | connected => exact ⟨.plain,.plain (by simp [dataCalls,plain]),hcoun⟩
      | closing => exact ⟨.plain,.plain (by simp [dataCalls]),hcoun⟩
    · exact h
  | read env =>
    simp only [step]
    cases hr : c.reading with
    | nil => exact h
    | cons call rest =>
      rw [hr] at hre
      exact ⟨by rw [(perform_threads).2]; exact h.others,reading_read hre hcoun⟩
  | call entry =>
    refine ⟨fun thread hthr => ?_,phase,hre,hcoun⟩
    rcases mem_append.mp hthr with hold | hnew
    · exact h.others thread hold
    · rw [mem_singleton.mp hnew]
      exact entry.calls_plain
  | move i env =>
    simp only [step]
    split
    · rename_i call rest hi
      have hmoves := @perform_moves settings env c call
        (h.others _ (mem_of_getElem? hi) call (by simp))
      obtain ⟨hasked,hqu⟩ := hmoves.counts
      obtain ⟨hread,hoth⟩ := @perform_threads settings env c call
      refine ⟨?_,phase,?_,?_⟩
      · simp only [hoth]
        exact plain_set h.others hi hmoves.plain
      · simp only [hread]
        exact hre
      · simp only [hasked,hqu]
        exact hcoun
    · exact h
  | dropped => exact ⟨h.others,phase,hre,hcoun⟩

theorem once_initial : Once {} := ⟨by simp,.plain,.plain (by simp),by simp [Counts,responses]⟩

/-- When no bytes arrive in the status of the handshake once it has been answered, the
callback is called once at most and one response is queued at most. -/
theorem handshake_answered_once (settings : Settings) {events : List (Nat × Event)}
    (h : Machine.Meets (serve settings) (fun s e => unanswered (s e.1) e.2 = true) started events) (id : Nat) :
    (Machine.runs (serve settings) started events id).asked ≤ 1 ∧
      responses (Machine.runs (serve settings) started events id).queued ≤ 1 := by
  obtain ⟨phase,-,hcoun⟩ :=
    (@Machine.family_invariant _ _ (step settings) _ _ Once (fun c e => unanswered c e = true)
      (fun _ _ => once_step) _ (fun _ => once_initial) _ h id).reading
  exact hcoun.le

def rejecting : Settings where
  handshakeCallback := some (fun _ _ response => { response with accept := false })

def upgradeRequest : Bytes :=
  ascii "GET /chat HTTP/1.1\r\nHost: a\r\nUpgrade: websocket\r\nConnection: Upgrade\r\n" ++
    ascii "Sec-WebSocket-Key: k\r\nSec-WebSocket-Version: 13\r\n\r\n"

/-- A rejected handshake. -/
theorem handshake_answered_once_rejected :
    let events : List (Nat × Event) :=
      [(1,.connected false {} 0),(1,.data upgradeRequest 0),(1,.read {}),(1,.read {}),(1,.read {}),
        (1,.read {})]
    let c := Machine.runs (serve rejecting) started events 1
    (c.asked ≤ 1 ∧ responses c.queued ≤ 1) ∧ c.asked = 1 ∧ responses c.queued = 1 :=
  ⟨handshake_answered_once rejecting (by decide +kernel) 1,by decide +kernel⟩

/-- The rejected handshake is still in the buffer and the status is still that of the
handshake: one byte that arrives before the session closes brings the callback and the
rejection again. -/
theorem handshake_answered_twice :
    let events : List (Nat × Event) :=
      [(1,.connected false {} 0),(1,.data upgradeRequest 0),(1,.read {}),(1,.read {}),(1,.read {}),
        (1,.read {}),(1,.data [120] 1),(1,.read {}),(1,.read {}),(1,.read {})]
    let c := Machine.runs (serve rejecting) started events 1
    c.asked = 2 ∧ responses c.queued = 2 := by
  decide +kernel

end Once

section Order

def Item.isFrame : Item → Bool
  | .frame _ _ => true
  | _ => false

def Item.isClose : Item → Bool
  | .frame .close _ => true
  | _ => false

/-- Nothing, one response, or a 101 and frames of which only the last one may be a Close
frame. -/
def Ordered : List Item → Prop
  | [] => True
  | .accepted _ _ :: rest =>
    (∀ item ∈ rest, item.isFrame = true) ∧ ∀ item ∈ rest.dropLast, item.isClose = false
  | .rejected _ :: rest => rest.length = 0
  | .frame _ _ :: _ => False

instance decidableOrdered : (queued : List Item) → Decidable (Ordered queued)
  | [] => isTrue trivial
  | .accepted _ _ :: rest =>
    inferInstanceAs (Decidable ((∀ item ∈ rest, item.isFrame = true) ∧
      ∀ item ∈ rest.dropLast, item.isClose = false))
  | .rejected _ :: rest => inferInstanceAs (Decidable (rest.length = 0))
  | .frame _ _ :: _ => isFalse id

def Open (queued : List Item) : Prop :=
  ∃ key response rest, queued = .accepted key response :: rest ∧
    ∀ item ∈ rest, item.isFrame = true ∧ item.isClose = false

theorem Open.ordered {queued : List Item} (h : Open queued) : Ordered queued := by
  obtain ⟨key,response,rest,rfl,hrest⟩ := h
  exact ⟨fun item hitem => (hrest item hitem).1,
    fun item hitem => (hrest item (mem_of_mem_dropLast hitem)).2⟩

theorem Open.send {queued : List Item} (h : Open queued) {type : WSFrameType} (htype : type ≠ .close)
    (payload : Bytes) : Open (queued ++ [.frame type payload]) := by
  obtain ⟨key,response,rest,rfl,hrest⟩ := h
  refine ⟨key,response,rest ++ [.frame type payload],rfl,fun item hitem => ?_⟩
  rcases mem_append.mp hitem with hold | hnew
  · exact hrest item hold
  · rw [mem_singleton.mp hnew]
    cases type <;> simp_all [Item.isFrame,Item.isClose]

theorem Open.close {queued : List Item} (h : Open queued) (payload : Bytes) :
    Ordered (queued ++ [.frame .close payload]) := by
  obtain ⟨key,response,rest,rfl,hrest⟩ := h
  refine ⟨fun item hitem => ?_,fun item hitem => ?_⟩
  · rcases mem_append.mp hitem with hold | hnew
    · exact (hrest item hold).1
    · rw [mem_singleton.mp hnew]
      rfl
  · have hitem' : item ∈ (rest ++ [Item.frame .close payload]).dropLast := hitem
    rw [dropLast_concat] at hitem'
    exact (hrest item hitem').2

/-- What may be queued in a status, when `n` Close frames are still to be sent. -/
def Allows : Option Status → Nat → List Item → Prop
  | none, _, queued => Ordered queued
  | some .handshake, n, queued => n = 0 ∧ Ordered queued
  | some .connected, n, queued => n = 0 ∧ Open queued
  | some .closing, n, queued => (n = 0 ∧ Ordered queued) ∨ (n = 1 ∧ Open queued)

theorem Allows.ordered {status : Option Status} {n : Nat} {queued : List Item}
    (h : Allows status n queued) : Ordered queued := by
  match status with
  | none => exact h
  | some .handshake => exact h.2
  | some .connected => exact h.2.ordered
  | some .closing =>
    rcases h with ⟨-,h⟩ | ⟨-,h⟩
    · exact h
    · exact h.ordered

def sendCloses (calls : List Call) : Nat := calls.countP isSendClose

def pendingCloses (c : Connection) : Nat := sendCloses c.reading+(c.others.map sendCloses).sum

/-- Where the client and the queue are while the call for received bytes is busy with the
handshake. -/
def Staged : Phase → Option Status → List Item → Prop
  | .asking, status, queued => (status = none ∨ status = some .handshake) ∧ queued = []
  | .answering, status, queued => (status = none ∨ status = some .handshake) ∧ queued = []
  | .establishing, status, queued =>
    (status = none ∨ status = some .handshake) ∧ ∃ key response, queued = [.accepted key response]
  | .plain, _, _ => True

structure Orderly (c : Connection) : Prop where
  fresh : c.announced = false → c.session = false ∧ pendingCloses c = 0
  ready : c.session = c.client.isSome
  others : ∀ thread ∈ c.others, ∀ call ∈ thread, call.plain = true
  reading : ∃ phase, Reading phase c.reading ∧ Staged phase c.status c.queued
  queue : Allows c.status (pendingCloses c) c.queued

def Call.isSend : Call → Bool
  | .send _ _ => true
  | _ => false

def sendsInTurn (c : Connection) (calls : List Call) : Bool :=
  match calls with
  | call :: _ => !call.isSend || c.status = some .connected
  | [] => true

/-- Frames are sent to connected clients only, and no bytes arrive in the status of the
handshake once it has been answered. -/
def inTurn (c : Connection) : Event → Bool
  | .data _ _ => c.status ≠ some .handshake || c.queued.length = 0
  | .read _ => sendsInTurn c c.reading
  | .move i _ => sendsInTurn c (c.others.getD i [])
  | _ => true

variable {settings : Settings} {env : Env} {c c' : Connection} {call : Call} {calls rest : List Call}

theorem sendCloses_of_mild (h : ∀ new ∈ calls, new.mild = true) : sendCloses calls = 0 := by
  rw [sendCloses,countP_eq_zero]
  intro new hnew
  have hmild := h new hnew
  rw [mild,Bool.and_eq_true,Bool.not_eq_true'] at hmild
  simp [hmild.2]

theorem push_of_session (h : c.session = true) (item : Item) :
    push c item = { c with queued := c.queued ++ [item] } := by
  rw [push,if_pos h]

theorem push_of_no_session (h : c.session = false) (item : Item) : push c item = c := by
  rw [push,if_neg (by simp [h])]

section

variable (hready : c.session = c.client.isSome)
include hready

theorem status_of_session (h : c.session = true) :
    c.status ≠ none := by
  rw [h] at hready
  simpa [Connection.status,← Option.isSome_iff_ne_none] using hready.symm

theorem client_of_no_session (h : c.session = false) :
    c.client = none := by
  rw [h] at hready
  simpa using hready.symm

theorem status_of_no_session (h : c.session = false) :
    c.status = none := by
  rw [Connection.status,client_of_no_session hready h,Option.map_none]

end

theorem Allows.moves {n : Nat} (hready : c.session = c.client.isSome) (h : Moves c call c' calls)
    (hsend : call.isSend = true → c.status = some .connected)
    (hall : Allows c.status (sendCloses [call]+n) c.queued) :
    Allows c'.status (sendCloses calls+n) c'.queued := by
  cases h with
  | quiet same hcall hcalls =>
    rw [same.status,same.queued,sendCloses_of_mild hcalls]
    rwa [sendCloses_of_mild (by simpa using hcall)] at hall
  | @marks state code reason hclient hstatus =>
    have hcon : c.status = some .connected := by simp [Connection.status,hclient,hstatus]
    rw [hcon] at hall
    obtain ⟨hn,hopen⟩ := hall
    rw [show sendCloses [.disconnect code reason] = 0 from rfl] at hn
    rw [show sendCloses [.sendClose code reason] = 1 from rfl]
    exact .inr ⟨by omega,hopen⟩
  | @closes code reason hsession =>
    have hstatus := status_of_session hready hsession
    rw [show sendCloses [.sendClose code reason] = 1 from rfl] at hall
    rw [push_of_session hsession,show sendCloses [.closeAfterPendingWrites] = 0 from rfl,Nat.zero_add]
    -- a Close frame is still to be sent, so the client is closing
    match hs : c.status with
    | none => exact absurd hs hstatus
    | some .handshake =>
      rw [hs] at hall
      exact absurd hall.1 (by omega)
    | some .connected =>
      rw [hs] at hall
      exact absurd hall.1 (by omega)
    | some .closing =>
      rw [hs] at hall
      rcases hall with ⟨hn,-⟩ | ⟨hn,hopen⟩
      · omega
      · exact .inl ⟨by omega,hopen.close _⟩
  | lost hsession =>
    rw [status_of_no_session hready hsession] at hall ⊢
    exact hall
  | drops hcall => exact hall.ordered
  | @sends type payload htype =>
    have hcon := hsend rfl
    rw [hcon] at hall
    obtain ⟨hn,hopen⟩ := hall
    have hsession : c.session = true := by
      cases hs : c.session with
      | true => rfl
      | false => simp [status_of_no_session hready hs] at hcon
    rw [push_of_session hsession]
    change Allows c.status (sendCloses []+n) (c.queued ++ [.frame type payload])
    rw [hcon]
    exact ⟨hn,hopen.send htype payload⟩

theorem Moves.early {n : Nat} (hready : c.session = c.client.isSome) (h : Moves c call c' calls)
    (hsend : call.isSend = true → c.status = some .connected)
    (hall : Allows c.status (sendCloses [call]+n) c.queued)
    (hearly : c.status = none ∨ c.status = some .handshake) :
    (c'.status = none ∨ c'.status = some .handshake) ∧ c'.queued = c.queued := by
  cases h with
  | quiet same hcall hcalls =>
    rw [same.status]
    exact ⟨hearly,same.queued⟩
  | marks hclient hstatus => simp [Connection.status,hclient,hstatus] at hearly
  | @closes code reason hsession =>
    have hstatus := status_of_session hready hsession
    have hhan := hearly.resolve_left hstatus
    rw [hhan,show sendCloses [.sendClose code reason] = 1 from rfl] at hall
    exact absurd hall.1 (by omega)
  | lost hsession => exact ⟨hearly,rfl⟩
  | drops hcall => exact ⟨.inl rfl,rfl⟩
  | sends htype =>
    rw [hsend rfl] at hearly
    simp at hearly

theorem Staged.moves {n : Nat} {phase : Phase} (hready : c.session = c.client.isSome)
    (h : Moves c call c' calls) (hsend : call.isSend = true → c.status = some .connected)
    (hall : Allows c.status (sendCloses [call]+n) c.queued) (hstag : Staged phase c.status c.queued) :
    Staged phase c'.status c'.queued := by
  cases phase with
  | asking =>
    obtain ⟨hstatus,hqu⟩ := h.early hready hsend hall hstag.1
    exact ⟨hstatus,hqu.trans hstag.2⟩
  | answering =>
    obtain ⟨hstatus,hqu⟩ := h.early hready hsend hall hstag.1
    exact ⟨hstatus,hqu.trans hstag.2⟩
  | establishing =>
    obtain ⟨hstatus,hqu⟩ := h.early hready hsend hall hstag.1
    exact ⟨hstatus,by rw [hqu]; exact hstag.2⟩
  | plain => trivial

structure Keeps (c c' : Connection) (calls : List Call) : Prop where
  announced : c'.announced = c.announced
  ready : c.session = c.client.isSome → c'.session = c'.client.isSome
  fresh : c.session = false → c.client = none → c'.session = false ∧ sendCloses calls = 0

theorem Keeps.same (h : sendCloses calls = 0) : Keeps c c calls := ⟨rfl,id,fun hs _ => ⟨hs,h⟩⟩

theorem Keeps.push (item : Item) (h : sendCloses calls = 0) : Keeps c (push c item) calls := by
  cases hs : c.session with
  | true =>
    rw [push_of_session hs]
    exact ⟨rfl,id,fun hs' _ => absurd hs' (by simp [hs])⟩
  | false =>
    rw [push_of_no_session hs]
    exact .same h

theorem Moves.keeps (h : Moves c call c' calls) : Keeps c c' calls := by
  cases h with
  | quiet same hcall hcalls =>
    refine ⟨same.announced,fun hready => ?_,fun hs _ => ⟨same.session.trans hs,sendCloses_of_mild hcalls⟩⟩
    have hstatus := congrArg Option.isSome same.status
    simp only [Connection.status,Option.isSome_map] at hstatus
    rw [same.session,hready,hstatus]
  | marks hclient hstatus =>
    exact ⟨rfl,fun hready => by rw [hready,hclient]; rfl,fun _ hnone => by simp [hclient] at hnone⟩
  | closes => exact .push _ rfl
  | lost => exact .same rfl
  | drops => exact ⟨rfl,fun _ => rfl,fun _ _ => ⟨rfl,rfl⟩⟩
  | sends => exact .push _ rfl

theorem perform_keeps (settings : Settings) (env : Env) (c : Connection) (call : Call) :
    Keeps c (perform settings env c call).1 (perform settings env c call).2 := by
  cases hplain : call.plain with
  | true => exact (perform_moves hplain).keeps
  | false =>
    cases call with
    | handshake =>
      simp only [perform]
      cases c.client with
      | none => exact .same rfl
      | some state =>
        simp only
        split <;> exact .same rfl
    | answer key request consumedBytes =>
      obtain ⟨asked,hans,-⟩ := answer_spec settings c request
      simp only [perform,hans]
      split <;> exact ⟨rfl,id,fun hs _ => ⟨hs,rfl⟩⟩
    | reject response => exact .push _ rfl
    | accept key response consumedBytes =>
      simp only [perform]
      split
      · exact .push _ rfl
      · exact .same rfl
    | establish subprotocol consumedBytes =>
      simp only [perform]
      cases hc : c.client with
      | none => exact .same rfl
      | some state => exact ⟨rfl,fun hready => by rw [hready,hc]; rfl,fun _ hnone => by simp [hc] at hnone⟩
    | send type payload => exact .push _ rfl
    | frames | handleFrame | disconnect | sendClose | closeAfterPendingWrites | drop | sweep => cases hplain

theorem Allows.early {status : Option Status} {n : Nat} {queued queued' : List Item}
    (h : Allows status n queued) (hearly : status = none ∨ status = some .handshake)
    (hord : Ordered queued') : Allows status n queued' := by
  rcases hearly with rfl | rfl
  · exact hord
  · exact ⟨h.1,hord⟩

theorem sendCloses_append (calls rest : List Call) : sendCloses (calls ++ rest) = sendCloses calls+sendCloses rest :=
  countP_append

theorem staged_read {n : Nat} {phase : Phase} (hready : c.session = c.client.isSome)
    (hread : Reading phase (call :: rest)) (hstag : Staged phase c.status c.queued)
    (hsend : call.isSend = true → c.status = some .connected)
    (hall : Allows c.status (sendCloses (call :: rest)+n) c.queued) :
    ∃ phase', Reading phase' ((perform settings env c call).2 ++ rest) ∧
      Staged phase' (perform settings env c call).1.status (perform settings env c call).1.queued ∧
      Allows (perform settings env c call).1.status
        (sendCloses ((perform settings env c call).2 ++ rest)+n) (perform settings env c call).1.queued := by
  cases hread with
  | handshake =>
    simp only [perform]
    cases hc : c.client with
    | none => exact ⟨.plain,.plain (by simp),trivial,hall⟩
    | some state =>
      simp only
      split
      · exact ⟨.plain,.plain (by simp),trivial,hall⟩
      · exact ⟨.plain,.plain (by simp [plain]),trivial,hall⟩
      · exact ⟨.asking,.answer,hstag,hall⟩
  | @answer key request consumedBytes =>
    obtain ⟨asked,hans,-⟩ := answer_spec settings c request
    simp only [perform,hans]
    split
    · exact ⟨.answering,.accept,hstag,hall⟩
    · exact ⟨.answering,.reject,hstag,hall⟩
  | @reject response =>
    obtain ⟨hearly,hnone⟩ := hstag
    refine ⟨.plain,.plain (by simp [perform,plain]),trivial,?_⟩
    simp only [perform]
    cases hs : c.session with
    | true =>
      rw [push_of_session hs,hnone]
      exact hall.early hearly rfl
    | false =>
      rw [push_of_no_session hs]
      exact hall
  | @accept key response consumedBytes =>
    obtain ⟨hearly,hnone⟩ := hstag
    simp only [perform]
    cases hs : c.session with
    | true =>
      simp only [if_true]
      rw [push_of_session hs,hnone]
      exact ⟨.establishing,.establish,⟨hearly,key,response,rfl⟩,hall.early hearly (by simp [Ordered])⟩
    | false => exact ⟨.plain,.plain (by simp [plain]),trivial,hall⟩
  | establish =>
    obtain ⟨hearly,key,response,hqu⟩ := hstag
    simp only [perform]
    cases hc : c.client with
    | none => exact ⟨.plain,.plain (by simp),trivial,hall⟩
    | some state =>
      have hhan : c.status = some .handshake := hearly.resolve_left (by simp [Connection.status,hc])
      rw [hhan] at hall
      have hopen : Open c.queued := ⟨key,response,[],hqu,by simp⟩
      simp only [append_nil]
      split
      · exact ⟨.plain,.plain (by simp),trivial,hall.1,hopen⟩
      · exact ⟨.plain,.plain (by simp [plain]),trivial,hall.1,hopen⟩
  | plain h =>
    have hmoves := @perform_moves settings env c call (h call (by simp))
    rw [← singleton_append,sendCloses_append,Nat.add_assoc] at hall
    refine ⟨.plain,.plain (plain_append h hmoves.plain),trivial,?_⟩
    rw [sendCloses_append,Nat.add_assoc]
    exact hall.moves hready hmoves hsend

theorem sendsInTurn_cons (h : sendsInTurn c (call :: rest) = true) :
    call.isSend = true → c.status = some .connected := by
  intro hsend
  simpa [sendsInTurn,hsend] using h

theorem sum_set {others : List (List Call)} {i : Nat} {thread : List Call} (h : others[i]? = some thread) :
    ∃ m, (others.map sendCloses).sum = sendCloses thread+m ∧
      ∀ thread', ((others.set i thread').map sendCloses).sum = sendCloses thread'+m := by
  induction others generalizing i with
  | nil => simp at h
  | cons first others ih =>
    cases i with
    | zero =>
      cases h
      exact ⟨(others.map sendCloses).sum,by simp,by simp⟩
    | succ i =>
      obtain ⟨m,hold,hnew⟩ := ih (by simpa using h)
      refine ⟨sendCloses first+m,?_,fun thread' => ?_⟩
      · simp only [map_cons,sum_cons,hold]
        omega
      · simp only [set_cons_succ,map_cons,sum_cons,hnew]
        omega

theorem pendingCloses_set {i : Nat} (hi : c.others[i]? = some (call :: rest)) :
    ∃ n, pendingCloses c = sendCloses [call]+n ∧
      ∀ calls, sendCloses c.reading+((c.others.set i (calls ++ rest)).map sendCloses).sum =
        sendCloses calls+n := by
  obtain ⟨m,hold,hnew⟩ := sum_set hi
  refine ⟨sendCloses c.reading+sendCloses rest+m,?_,fun calls => ?_⟩
  · rw [pendingCloses,hold,← singleton_append,sendCloses_append]
    omega
  · rw [hnew,sendCloses_append]
    omega

theorem orderly_step {event : Event} (h : Orderly c) (hok : inTurn c event = true) :
    Orderly (step settings c event) := by
  obtain ⟨phase,hre,hstag⟩ := h.reading
  cases event with
  | connected full address now =>
    simp only [step]
    split
    · exact h
    · rename_i hann
      obtain ⟨hsession,hpen⟩ := h.fresh (by simpa using hann)
      split
      · exact ⟨by simp,h.ready,h.others,h.reading,h.queue⟩
      · refine ⟨by simp,rfl,h.others,⟨phase,hre,?_⟩,hpen,h.queue.ordered⟩
        cases phase with
        | asking => exact ⟨.inr rfl,hstag.2⟩
        | answering => exact ⟨.inr rfl,hstag.2⟩
        | establishing => exact ⟨.inr rfl,hstag.2⟩
        | plain => trivial
  | data bytes now =>
    simp only [step]
    split
    · rename_i state hclient hnil
      rw [hnil] at hre
      cases hre.nil
      have hstatus : some (appendData state now bytes).status = c.status := by
        rw [Connection.status,hclient]
        rfl
      have hclos : sendCloses (dataCalls state.status) = sendCloses c.reading := by
        rw [hnil]
        cases state.status <;> rfl
      refine ⟨fun hfresh => ?_,by rw [h.ready,hclient]; rfl,h.others,?_,?_⟩
      · obtain ⟨hsession,-⟩ := h.fresh hfresh
        rw [h.ready,hclient] at hsession
        cases hsession
      · cases hs : state.status with
        | handshake =>
          have hempty : c.queued = [] := by
            simpa [inTurn,Connection.status,hclient,hs] using hok
          exact ⟨.asking,.handshake,.inr (congrArg some hs),hempty⟩
        | connected => exact ⟨.plain,.plain (by simp [dataCalls,plain]),trivial⟩
        | closing => exact ⟨.plain,.plain (by simp [dataCalls]),trivial⟩
      · simp only [Connection.status,Option.map_some,pendingCloses,hstatus,hclos]
        exact h.queue
    · exact h
  | read env =>
    simp only [step]
    cases hr : c.reading with
    | nil => exact h
    | cons call rest =>
      have hkeeps := perform_keeps settings env c call
      have hoth := (@perform_threads settings env c call).2
      simp only [inTurn,hr] at hok
      have hqueue := h.queue
      rw [pendingCloses,hr] at hqueue
      rw [hr] at hre
      obtain ⟨phase',hreadin,hst,hall⟩ := @staged_read settings env _ _ _ _ _ h.ready hre hstag
        (sendsInTurn_cons hok) hqueue
      refine ⟨fun hfresh => ?_,hkeeps.ready h.ready,?_,⟨phase',hreadin,hst⟩,?_⟩
      · obtain ⟨hsession,hpen⟩ := h.fresh (hkeeps.announced.symm.trans hfresh)
        obtain ⟨hsession',hcalls⟩ := hkeeps.fresh hsession (client_of_no_session h.ready hsession)
        refine ⟨hsession',?_⟩
        rw [pendingCloses,hr,← singleton_append,sendCloses_append] at hpen
        simp only [pendingCloses,hoth,sendCloses_append]
        omega
      · simp only [hoth]
        exact h.others
      · simp only [pendingCloses,hoth]
        exact hall
  | call entry =>
    have hclos : pendingCloses { c with others := c.others ++ [entry.calls] } = pendingCloses c := by
      simp only [pendingCloses,map_append,sum_append,map_cons,map_nil,sum_singleton]
      cases entry <;> rfl
    refine ⟨fun hfresh => ?_,h.ready,fun thread hthr => ?_,h.reading,?_⟩
    · exact ⟨(h.fresh hfresh).1,hclos.trans (h.fresh hfresh).2⟩
    · rcases mem_append.mp hthr with hold | hnew
      · exact h.others thread hold
      · rw [mem_singleton.mp hnew]
        exact entry.calls_plain
    · rw [step,hclos]
      exact h.queue
  | move i env =>
    simp only [step]
    split
    · rename_i call rest hi
      have hmoves := @perform_moves settings env c call
        (h.others _ (mem_of_getElem? hi) call (by simp))
      obtain ⟨hread,hoth⟩ := @perform_threads settings env c call
      obtain ⟨n,hold,hnew⟩ := pendingCloses_set hi
      have hsend : call.isSend = true → c.status = some .connected := by
        apply sendsInTurn_cons
        simpa [inTurn,getD,hi] using hok
      have hqueue := h.queue
      rw [hold] at hqueue
      have hst := hstag.moves h.ready hmoves hsend hqueue
      have hqueue' := hqueue.moves h.ready hmoves hsend
      refine ⟨fun hfresh => ?_,hmoves.keeps.ready h.ready,?_,⟨phase,?_,hst⟩,?_⟩
      · obtain ⟨hsession,hpen⟩ := h.fresh (hmoves.keeps.announced.symm.trans hfresh)
        obtain ⟨hsession',hcalls⟩ := hmoves.keeps.fresh hsession (client_of_no_session h.ready hsession)
        refine ⟨hsession',?_⟩
        simp only [pendingCloses,hread,hoth,hnew]
        omega
      · simp only [hoth]
        exact plain_set h.others hi hmoves.plain
      · simp only [hread]
        exact hre
      · simp only [pendingCloses,hread,hoth,hnew]
        exact hqueue'
    · exact h
  | dropped =>
    refine ⟨fun hfresh => ⟨rfl,(h.fresh hfresh).2⟩,rfl,h.others,⟨phase,hre,?_⟩,h.queue.ordered⟩
    cases phase with
    | asking => exact ⟨.inl rfl,hstag.2⟩
    | answering => exact ⟨.inl rfl,hstag.2⟩
    | establishing => exact ⟨.inl rfl,hstag.2⟩
    | plain => trivial

theorem orderly_initial : Orderly {} := by
  refine ⟨fun _ => ⟨rfl,rfl⟩,rfl,by simp,⟨.plain,.plain (by simp),trivial⟩,trivial⟩

-- whole runs are left to the kernel
attribute [irreducible] Ordered

/-- When frames are sent to connected clients only, and no bytes arrive in the status of
the handshake once something has been queued, what is queued for a client is a response
and, behind a 101, frames up to a Close frame. -/
theorem queue_ordered (settings : Settings) {events : List (Nat × Event)}
    (h : Machine.Meets (serve settings) (fun s e => inTurn (s e.1) e.2 = true) started events) (id : Nat) :
    Ordered (Machine.runs (serve settings) started events id).queued :=
  (@Machine.family_invariant _ _ (step settings) _ _ Orderly (fun c e => inTurn c e = true)
    (fun _ _ => orderly_step) _ (fun _ => orderly_initial) _ h id).queue.ordered

def accepting : Settings := {}

/-- A client is accepted, gets a message and is disconnected. -/
theorem queue_ordered_accepted :
    let events : List (Nat × Event) :=
      [(1,.connected false {} 0),(1,.data upgradeRequest 0),(1,.read {}),(1,.read {}),(1,.read {}),
        (1,.read {}),(1,.call (.sendTextToClient (ascii "hi"))),(1,.move 0 {}),
        (1,.call (.disconnectClient 1000 [])),(1,.move 1 {}),(1,.move 1 {})]
    let queued := (Machine.runs (serve accepting) started events 1).queued
    Ordered queued ∧ queued.map Item.isFrame = [false,true,true] :=
  ⟨queue_ordered accepting (by decide +kernel) 1,by decide +kernel⟩

/-- A message to a client that has sent nothing yet goes out in front of the response. -/
theorem queue_starts_with_frame :
    let events : List (Nat × Event) :=
      [(1,.connected false {} 0),(1,.call (.sendTextToClient (ascii "hi"))),(1,.move 0 {})]
    let queued := (Machine.runs (serve accepting) started events 1).queued
    ¬Ordered queued ∧ queued.map Item.isFrame = [true] := by
  decide +kernel

end Order

end FastNet.WebSocketServer
