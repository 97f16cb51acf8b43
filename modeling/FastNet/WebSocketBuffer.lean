import FastNet.WebSocketOrder

/-!
How many unread bytes `WebSocketServer` holds for a client. Only `handleFrames` looks at
the limit; `handleDataReceived` appends in every status.
-/

namespace FastNet.WebSocketServer

open Text WebSocketProtocol OffsetBuffer Machine

section Bound

variable {settings : Settings} {env : Env} {c : Connection} {call : Call} {state state' : ClientState}

/-- The moves of the call for received bytes behind which a connected client is within
the limit, or is connected no more. -/
def Call.checks : Call → Bool
  | .frames => true
  | .disconnect _ _ => true
  | _ => false

def Call.isEstablish : Call → Bool
  | .establish _ _ => true
  | _ => false

@[simp] theorem push_client (c : Connection) (item : Item) : (push c item).client = c.client := by
  unfold push
  split <;> rfl

/-- The client behind a move comes from a client with no fewer unread bytes, its offset
stays within the buffer, and only the handshake connects it. -/
def Shrinks (c c' : Connection) (call : Call) : Prop :=
  ∀ state', c'.client = some state' → ∃ state, c.client = some state ∧
    (unread state').length ≤ (unread state).length ∧
    (state.bufferOffset ≤ state.buffer.length → state'.bufferOffset ≤ state'.buffer.length) ∧
    (state'.status = .connected → state.status = .connected ∨ call.isEstablish = true)

theorem Shrinks.same {c' : Connection} (h : c'.client = c.client) : Shrinks c c' call :=
  fun state' hstate => ⟨state',by rw [← h,hstate],Nat.le_refl _,id,.inl⟩

theorem Shrinks.none {c' : Connection} (h : c'.client = none) : Shrinks c c' call :=
  fun state' hstate => absurd (h.symm.trans hstate) (by simp)

theorem Shrinks.one {c' : Connection} (h : c.client = some state) (h' : c'.client = some state')
    (hle : (unread state').length ≤ (unread state).length)
    (hoff : state.bufferOffset ≤ state.buffer.length → state'.bufferOffset ≤ state'.buffer.length)
    (hstatus : state'.status = .connected → state.status = .connected ∨ call.isEstablish = true) :
    Shrinks c c' call := by
  intro other hother
  rw [h'] at hother
  cases hother
  exact ⟨state,h,hle,hoff,hstatus⟩

theorem perform_shrinks (settings : Settings) (env : Env) (c : Connection) (call : Call) :
    Shrinks c (perform settings env c call).1 call := by
  cases call with
  | handshake =>
    simp only [perform]
    cases c.client with
    | none => exact .same rfl
    | some state =>
      simp only
      split <;> exact .same rfl
  | answer key request consumedBytes =>
    obtain ⟨asked,hans,-⟩ := answer_spec settings c request
    simp only [perform,hans]
    split <;> exact .same rfl
  | reject response => exact .same (push_client c _)
  | accept key response consumedBytes =>
    simp only [perform]
    split
    · exact .same (push_client c _)
    · exact .same rfl
  | establish subprotocol consumedBytes =>
    simp only [perform]
    cases hc : c.client with
    | none => exact .same rfl
    | some state =>
      refine .one hc rfl ?_ (fun _ => compact_le) (fun _ => .inr rfl)
      rw [unread_compact]
      simp only [unread,List.length_drop]
      omega
  | frames =>
    simp only [perform]
    cases hc : c.client with
    | none => exact .same rfl
    | some state =>
      simp only
      split
      · rcases takeFrame_cases c state with ⟨-,h⟩ | ⟨-,h | h | ⟨frameSize,type,payload,h⟩⟩
        · rw [h]
          exact .same rfl
        · rw [h]
          exact .same rfl
        · rw [h]
          exact .same rfl
        · rw [h]
          exact .one hc rfl (by simp) (fun _ => compact_le) .inl
      · exact .same rfl
  | handleFrame type payload =>
    simp only [perform]
    split
    · cases hc : c.client with
      | none => exact .none rfl
      | some state => exact .one hc rfl (Nat.le_refl _) id .inl
    · exact .same rfl
  | disconnect code reason =>
    simp only [perform]
    cases hc : c.client with
    | none => exact .same rfl
    | some state =>
      simp only
      cases state.status with
      | connected => exact .one hc rfl (Nat.le_refl _) id (fun h => by cases h)
      | closing => exact .same rfl
      | handshake => exact .same rfl
  | sendClose code reason =>
    simp only [perform]
    split
    · exact .same (push_client c _)
    · exact .same rfl
  | closeAfterPendingWrites =>
    simp only [perform]
    split
    · exact .none rfl
    · exact .same rfl
  | drop => exact .none rfl
  | sweep now =>
    simp only [perform]
    cases c.client with
    | none => exact .same rfl
    | some state =>
      simp only
      split
      · exact .same rfl
      · split <;> exact .same rfl
  | send type payload => exact .same (push_client c _)

/-- The limit is kept in every status, and where it is not, the call for received bytes is
about to see it. -/
structure Bounded (c : Connection) : Prop where
  others : ∀ thread ∈ c.others, ∀ call ∈ thread, call.plain = true
  segment : ∀ state, c.client = some state → (unread state).length ≤ kMaxClientBufferSize+c.lastSegment
  connected : ∀ state, c.client = some state → state.status = .connected →
    (unread state).length ≤ kMaxClientBufferSize ∨
      ∃ call rest, c.reading = call :: rest ∧ call.checks = true

theorem Bounded.gone (hoth : ∀ thread ∈ c.others, ∀ call ∈ thread, call.plain = true)
    (h : c.client = none) : Bounded c := by
  refine ⟨hoth,fun state hstate => ?_,fun state hstate => ?_⟩
  · cases h.symm.trans hstate
  · cases h.symm.trans hstate

def fits (c : Connection) : Event → Bool
  | .data _ _ =>
    match c.client with
    | some state => state.status = .connected || (unread state).length ≤ kMaxClientBufferSize
    | none => true
  | _ => true

theorem perform_lastSegment : (perform settings env c call).1.lastSegment = c.lastSegment := by
  cases call <;> simp only [perform,push,dropSession,answer,takeFrame] <;> grind

theorem Bounded.segment_perform (h : Bounded c) :
    ∀ state, (perform settings env c call).1.client = some state →
      (unread state).length ≤ kMaxClientBufferSize+(perform settings env c call).1.lastSegment := by
  intro state' hstate
  obtain ⟨state,hclient,hle,-,-⟩ := perform_shrinks settings env c call state' hstate
  rw [perform_lastSegment]
  exact Nat.le_trans hle (h.segment state hclient)

theorem perform_checks (hchec : call.checks = true ∨ call.isEstablish = true)
    (hstate : (perform settings env c call).1.client = some state) (hcon : state.status = .connected) :
    (unread state).length ≤ kMaxClientBufferSize ∨
      ∃ new calls, (perform settings env c call).2 = new :: calls ∧ new.checks = true := by
  cases call with
  | establish subprotocol consumedBytes =>
    simp only [perform] at hstate ⊢
    cases hc : c.client with
    | none => simp [hc] at hstate
    | some old =>
      simp only [hc,makeBufferedView_text] at hstate ⊢
      cases hstate
      split
      · rename_i hempty
        exact .inl (by simp [hempty])
      · exact .inr ⟨_,_,rfl,rfl⟩
  | frames =>
    simp only [perform] at hstate ⊢
    cases hc : c.client with
    | none => simp [hc] at hstate
    | some old =>
      simp only [hc] at hstate ⊢
      split at hstate
      · rename_i hold
        rw [if_pos hold]
        rcases takeFrame_cases c old with ⟨-,h⟩ | ⟨hle,h | h | ⟨frameSize,type,payload,h⟩⟩
        · rw [h]
          exact .inr ⟨_,_,rfl,rfl⟩
        · rw [h,hc] at hstate
          cases hstate
          exact .inl hle
        · rw [h]
          exact .inr ⟨_,_,rfl,rfl⟩
        · rw [h] at hstate
          cases hstate
          refine .inl (Nat.le_trans ?_ hle)
          simp
      · rename_i hold
        rw [hc] at hstate
        cases hstate
        exact absurd hcon hold
  | disconnect code reason =>
    simp only [perform] at hstate
    cases hc : c.client with
    | none => simp [hc] at hstate
    | some old =>
      simp only [hc] at hstate
      cases hs : old.status with
      | connected =>
        simp only [hs] at hstate
        cases hstate
        cases hcon
      | closing =>
        simp only [hs,hc] at hstate
        cases hstate
        simp [hs] at hcon
      | handshake =>
        simp only [hs,hc] at hstate
        cases hstate
        simp [hs] at hcon
  | _ => simp [Call.checks,Call.isEstablish] at hchec

theorem bounded_step {event : Event} (h : Bounded c) (hok : fits c event = true) :
    Bounded (step settings c event) := by
  cases event with
  | connected full address now =>
    simp only [step]
    split
    · exact h
    · split
      · exact ⟨h.others,h.segment,h.connected⟩
      · refine ⟨h.others,fun state hstate => ?_,fun state hstate hcon => ?_⟩
        · cases hstate
          exact Nat.zero_le _
        · cases hstate
          cases hcon
  | data bytes now =>
    simp only [step]
    split
    · rename_i state hclient hnil
      have hle : (unread state).length ≤ kMaxClientBufferSize := by
        simp only [fits,hclient,Bool.or_eq_true,decide_eq_true_eq] at hok
        rcases hok with hcon | hle
        · rcases h.connected state hclient hcon with hle | ⟨call,rest,hre,-⟩
          · exact hle
          · cases hnil.symm.trans hre
        · exact hle
      have happ : (unread (appendData state now bytes)).length ≤ (unread state).length+bytes.length :=
        drop_append_length_le
      refine ⟨h.others,fun state' hstate => ?_,fun state' hstate hcon => ?_⟩
      · cases hstate
        show _ ≤ kMaxClientBufferSize+bytes.length
        omega
      · cases hstate
        rw [show state.status = .connected from hcon]
        exact .inr ⟨_,_,rfl,rfl⟩
    · exact h
  | read env =>
    simp only [step]
    cases hr : c.reading with
    | nil => exact h
    | cons call rest =>
      refine ⟨by simpa only [(perform_threads).2] using h.others,h.segment_perform,fun state' hstate hcon => ?_⟩
      obtain ⟨state,hclient,hle,-,hstatus⟩ := perform_shrinks settings env c call state' hstate
      by_cases hchec : call.checks = true ∨ call.isEstablish = true
      · rcases perform_checks hchec hstate hcon with hle' | ⟨new,calls,hcalls,hnew⟩
        · exact .inl hle'
        · exact .inr ⟨new,calls ++ rest,by simp [hcalls],hnew⟩
      · rw [not_or] at hchec
        rcases h.connected state hclient ((hstatus hcon).resolve_right hchec.2) with
          hle' | ⟨new,calls,hcalls,hnew⟩
        · exact .inl (Nat.le_trans hle hle')
        · cases hr.symm.trans hcalls
          exact absurd hnew hchec.1
  | call entry =>
    refine ⟨fun thread hthr => ?_,h.segment,h.connected⟩
    rcases List.mem_append.mp hthr with hold | hnew
    · exact h.others thread hold
    · rw [List.mem_singleton.mp hnew]
      exact entry.calls_plain
  | move i env =>
    simp only [step]
    split
    · rename_i call rest hi
      have hplain : call.plain = true := h.others _ (List.mem_of_getElem? hi) call (by simp)
      obtain ⟨hread,hoth⟩ := @perform_threads settings env c call
      refine ⟨?_,h.segment_perform,fun state' hstate hcon => ?_⟩
      · simp only [hoth]
        exact plain_set h.others hi (perform_moves hplain).plain
      · obtain ⟨state,hclient,hle,-,hstatus⟩ := perform_shrinks settings env c call state' hstate
        have hold : state.status = .connected := by
          refine (hstatus hcon).resolve_right (fun hest => ?_)
          cases call <;> simp [Call.plain,Call.isEstablish] at hplain hest
        simp only [hread]
        rcases h.connected state hclient hold with hle' | hchec
        · exact .inl (Nat.le_trans hle hle')
        · exact .inr hchec
    · exact h
  | dropped => exact .gone h.others rfl

theorem bounded_initial : Bounded {} := .gone (by simp) rfl

/-- When no bytes arrive for a client that is not connected and over the limit, the unread
bytes of every client are within the limit and the last segment. -/
theorem unread_bounded (settings : Settings) {events : List (Nat × Event)}
    (h : Machine.Meets (serve settings) (fun s e => fits (s e.1) e.2 = true) started events) (id : Nat)
    {state : ClientState} (hstate : (Machine.runs (serve settings) started events id).client = some state) :
    (unread state).length ≤
      kMaxClientBufferSize+(Machine.runs (serve settings) started events id).lastSegment :=
  (@Machine.family_invariant _ _ (step settings) _ _ Bounded (fun c e => fits c e = true)
    (fun _ _ => bounded_step) _ (fun _ => bounded_initial) _ h id).segment state hstate

/-- A client that has sent three bytes. -/
theorem unread_bounded_three :
    let c := Machine.runs (serve accepting) started
      [(1,.connected false {} 0),(1,.data (ascii "GET") 0),(1,.read {})] 1
    ∃ state, c.client = some state ∧ unread state = ascii "GET" ∧
      (unread state).length ≤ kMaxClientBufferSize+c.lastSegment :=
  ⟨{ buffer := ascii "GET" },by rfl,by rfl,unread_bounded accepting (by decide +kernel) 1 rfl⟩

theorem handshake_keeps (hclient : c.client = some state) (hstatus : state.status = .handshake)
    (hoff : state.bufferOffset = 0) (hread : c.reading = []) {segment : Bytes} {now : Nat}
    (hbuf : 13 ∉ state.buffer) (hseg : 13 ∉ segment) :
    step settings (step settings c (.data segment now)) (.read env) =
      { c with
        client := some { state with buffer := state.buffer ++ segment, lastActivity := now },
        lastSegment := segment.length } := by
  have hunr : unread (appendData state now segment) = state.buffer ++ segment := by
    simp [unread,appendData,append_eq,hoff]
  have hscan : scanHandshake (makeBufferedView (appendData state now segment))
      (appendData state now segment).clientAddress = .incomplete := by
    have hnone : find crlfcrlf (state.buffer ++ segment) 0 = none :=
      find_eq_none_of_not_mem (by simp [hbuf,hseg]) 0
    simp only [scanHandshake,makeBufferedView_text,hunr,hnone]
  simp only [step,hclient,hread,hstatus,dataCalls,perform,hscan]
  simp [appendData,append_eq,hstatus]

def flood (segment : Bytes) (k : Nat) : List Event :=
  .connected false {} 0 :: (List.replicate k [.data segment 0,.read {}]).flatten

theorem flood_succ (segment : Bytes) (k : Nat) :
    flood segment (k+1) = flood segment k ++ [.data segment 0,.read {}] := by
  simp [flood,List.replicate_succ']

theorem flood_unread (settings : Settings) {segment : Bytes} (hseg : 13 ∉ segment) (k : Nat) :
    let c := runs (step settings) {} (flood segment k)
    c.client = some { buffer := (List.replicate k segment).flatten } ∧ c.reading = [] ∧
      c.lastSegment ≤ segment.length := by
  induction k with
  | zero => exact ⟨rfl,rfl,Nat.zero_le _⟩
  | succ k ih =>
    obtain ⟨hclient,hread,-⟩ := ih
    intro c
    have hkeeps := @handshake_keeps settings {} _ _ hclient rfl rfl hread segment 0
      (by simp [hseg]) hseg
    have hc : c = step settings (step settings (runs (step settings) {} (flood segment k))
        (.data segment 0)) (.read {}) := by
      simp only [c,flood_succ,runs_append,runs_cons,runs_nil]
    rw [hc,hkeeps]
    exact ⟨by simp [List.replicate_succ'],hread,Nat.le_refl _⟩

def letters : Bytes := List.replicate 16384 120

/-- Nobody looks at the limit in the handshake. -/
theorem handshake_exceeds_limit :
    let c := Machine.runs (serve accepting) started ((flood letters 642).map (fun e => (1,e))) 1
    ∃ state, c.client = some state ∧ kMaxClientBufferSize+c.lastSegment < (unread state).length := by
  intro c
  have hc : c = Machine.runs (step accepting) {} (flood letters 642) := by
    simp only [c,serve,Machine.runs_family,Machine.own_map,started]
  have hlet : 13 ∉ letters := fun hmem => absurd (List.eq_of_mem_replicate hmem) (by decide)
  have hlen : letters.length = 16384 := List.length_replicate
  obtain ⟨hclient,-,hseg⟩ := flood_unread accepting hlet 642
  rw [← hc] at hclient hseg
  refine ⟨_,hclient,?_⟩
  rw [unread,List.drop_zero,List.length_flatten,List.map_replicate,List.sum_replicate,hlen]
  rw [hlen] at hseg
  exact Nat.lt_of_le_of_lt (Nat.add_le_add_left hseg _) (by decide)

end Bound

section Placed

variable {settings : Settings} {env : Env} {c : Connection} {call : Call}

/-- What is true of every client: the session has been announced, and the offset is within
the buffer. -/
structure Placed (c : Connection) : Prop where
  announced : c.client ≠ none → c.announced = true
  offset : ∀ state, c.client = some state → state.bufferOffset ≤ state.buffer.length

theorem Placed.gone (h : c.client = none) : Placed c :=
  ⟨fun hne => absurd h hne,fun state hstate => by rw [h] at hstate; cases hstate⟩

theorem Placed.perform (h : Placed c) : Placed (perform settings env c call).1 := by
  have hshr := perform_shrinks settings env c call
  refine ⟨fun hne => ?_,fun state' hstate => ?_⟩
  · obtain ⟨state',hstate⟩ := Option.ne_none_iff_exists'.mp hne
    obtain ⟨state,hclient,-⟩ := hshr state' hstate
    rw [(perform_keeps settings env c call).announced]
    exact h.announced (by simp [hclient])
  · obtain ⟨state,hclient,-,hoff,-⟩ := hshr state' hstate
    exact hoff (h.offset state hclient)

theorem placed_step {event : Event} (h : Placed c) : Placed (step settings c event) := by
  cases event with
  | connected full address now =>
    simp only [step]
    split
    · exact h
    · split
      · exact ⟨fun _ => rfl,h.offset⟩
      · refine ⟨fun _ => rfl,fun state hstate => ?_⟩
        cases hstate
        exact Nat.le_refl _
  | data bytes now =>
    simp only [step]
    split
    · rename_i state hclient hnil
      refine ⟨fun _ => h.announced (by simp [hclient]),fun state' hstate => ?_⟩
      cases hstate
      have hoff := h.offset state hclient
      simp only [appendData,append_eq,List.length_append]
      omega
    · exact h
  | read env =>
    simp only [step]
    split
    · exact h
    · exact ⟨h.perform.announced,h.perform.offset⟩
  | call entry => exact ⟨h.announced,h.offset⟩
  | move i env =>
    simp only [step]
    split
    · exact ⟨h.perform.announced,h.perform.offset⟩
    · exact h
  | dropped => exact .gone rfl

theorem placed_run (settings : Settings) (events : List (Nat × Event)) (id : Nat) :
    Placed (runs (serve settings) started events id) := by
  rw [serve,runs_family]
  exact @traces _ _ (step settings) (fun _ c => Placed c) _ (.gone rfl) (fun _ _ _ h => placed_step h) _

end Placed

end FastNet.WebSocketServer
