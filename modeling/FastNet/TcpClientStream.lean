import FastNet.TcpClientSend

/-!
The bytes that a `TcpClient` writes, and the close that waits for them.
-/

namespace FastNet.TcpClient

open List Client TcpClient Option Nat

variable {c c' : Client} {env : Env} {cause : Cause} {g : Locked} {rest next block block' : List Locked}
  {sent bytes size : Nat} {m : Move}

namespace Locked

/-- The moves of a thread that runs `runQueuedFlush`. -/
def flushes : Locked → Bool
  | .flush | .drain | .look | .write _ _ | .wrote _ _ | .settle _ _ | .blocked _ | .finish _ | .leave => true
  | _ => false

/-- The moves that follow `running_` becoming false in `closeWithReason`. -/
def closes : Locked → Bool
  | .unconnect | .clearQueuesAndWaits | .closeSocket => true
  | _ => false

def patient : Locked → Bool
  | .send _ | .startTls | .readLoop | .callback | .close _ | .finish _ | .disconnectAfterPendingWrites => true
  | _ => false

def Relies (c : Client) : Locked → Prop
  | .write current offset => offset = c.sendOffset ∧ ∃ rest, c.sendQueue = current :: rest
  | .wrote size _ | .settle size _ => ∃ front rest, c.sendQueue = front :: rest ∧ size = front.length
  | .unconnect | .clearQueuesAndWaits | .closeSocket => False
  | _ => True

def inFlight : Locked → Nat
  | .wrote _ bytes | .settle _ bytes => bytes
  | _ => 0

theorem relies_of_patient (h : g.patient = true) : g.Relies c := by
  cases g <;> trivial

theorem inFlight_of_patient (h : g.patient = true) : g.inFlight = 0 := by
  cases g <;> first | rfl | cases h

theorem inFlight_of_not_flushes (h : g.flushes = false) : g.inFlight = 0 := by
  cases g <;> first | rfl | cases h

theorem relies_of_not_flushes (h : g.flushes = false) (hclos : g.closes = false) : g.Relies c := by
  cases g <;> trivial

end Locked

/-- The bytes in flight when a thread has still to do `block`. -/
def inFlight (block : List Locked) : Nat := (block.head?.map Locked.inFlight).getD 0

/-- With what has been written and what is in flight, the queue makes up what has been
accepted. -/
structure Sound (c : Client) (sent : Nat) : Prop where
  front : c.sendOffset+sent ≤ (c.sendQueue.headD []).length
  counter : c.pendingWriteBytes+c.sendOffset = c.sendQueue.flatten.length
  stream : c.written ++ c.sendQueue.flatten.drop (c.sendOffset+sent) = c.accepted.flatten

structure Running (c : Client) (block : List Locked) : Prop where
  closing : c.closing = none
  connected : c.connected = true
  sound : Sound c (inFlight block)
  flusher : block.countP Locked.flushes = if c.flushRunning then 1 else 0
  relies : ∀ g ∈ block.head?, g.Relies c
  patient : ∀ g ∈ block.tail, g.patient = true

def Locked.harmless (g : Locked) : Bool :=
  g.patient || g.closes ||
    match g with
    | .handleRead | .handleWrite => true
    | _ => false

structure Closed (c : Client) (block : List Locked) : Prop where
  closing : c.closing ≠ none
  connected : c.connected = false ∨ ∃ rest, block = .unconnect :: rest
  written : c.written <+: c.accepted.flatten
  counter : c.pendingWriteBytes+c.sendOffset = c.sendQueue.flatten.length
  harmless : ∀ g ∈ block, g.harmless = true

def Inv (c : Client) (block : List Locked) : Prop := Running c block ∨ Closed c block

structure Same (c c' : Client) : Prop where
  closing : c'.closing = c.closing
  connected : c'.connected = c.connected
  sendQueue : c'.sendQueue = c.sendQueue
  sendOffset : c'.sendOffset = c.sendOffset
  pendingWriteBytes : c'.pendingWriteBytes = c.pendingWriteBytes
  flushRunning : c'.flushRunning = c.flushRunning
  accepted : c'.accepted = c.accepted
  written : c'.written = c.written

theorem same_refl (c : Client) : Same c c := ⟨rfl,rfl,rfl,rfl,rfl,rfl,rfl,rfl⟩

theorem same_checkPendingWrites (c : Client) : Same c c.checkPendingWrites.1 := by
  unfold checkPendingWrites
  split <;> exact ⟨rfl,rfl,rfl,rfl,rfl,rfl,rfl,rfl⟩

theorem Sound.of_eq (h : Sound c sent) (hqueue : c'.sendQueue = c.sendQueue)
    (hoff : c'.sendOffset = c.sendOffset) (hpen : c'.pendingWriteBytes = c.pendingWriteBytes)
    (hacc : c'.accepted = c.accepted) (hwrit : c'.written = c.written) : Sound c' sent := by
  obtain ⟨hfront,hcoun,hstr⟩ := h
  refine ⟨?_,?_,?_⟩
  · rw [hoff,hqueue]
    exact hfront
  · rw [hpen,hoff,hqueue]
    exact hcoun
  · rw [hwrit,hqueue,hoff,hacc]
    exact hstr

theorem Same.sound (h : Same c c') (hsound : Sound c sent) : Sound c' sent :=
  hsound.of_eq h.sendQueue h.sendOffset h.pendingWriteBytes h.accepted h.written

theorem Same.relies (h : Same c c') (hrel : g.Relies c) : g.Relies c' := by
  cases g with
  | write current offset =>
    simp only [Locked.Relies,h.sendOffset,h.sendQueue]
    exact hrel
  | wrote size bytes =>
    simp only [Locked.Relies,h.sendQueue]
    exact hrel
  | settle size bytes =>
    simp only [Locked.Relies,h.sendQueue]
    exact hrel
  | _ => exact hrel

theorem Same.inv (h : Same c c') (hinv : Inv c block) : Inv c' block := by
  rcases hinv with hrun | hclos
  · refine .inl ⟨h.closing.trans hrun.closing,h.connected.trans hrun.connected,h.sound hrun.sound,?_,
      fun g hg => h.relies (hrun.relies g hg),hrun.patient⟩
    rw [h.flushRunning]
    exact hrun.flusher
  · refine .inr ⟨?_,?_,?_,?_,hclos.harmless⟩
    · rw [h.closing]
      exact hclos.closing
    · rw [h.connected]
      exact hclos.connected
    · rw [h.written,h.accepted]
      exact hclos.written
    · rw [h.pendingWriteBytes,h.sendOffset,h.sendQueue]
      exact hclos.counter

theorem same_free (c : Client) (env : Env) (m : Move) : Same c (free c env m).1 := by
  cases m with
  | check => exact same_checkPendingWrites c
  | disconnect => exact ⟨rfl,rfl,rfl,rfl,rfl,rfl,rfl,rfl⟩
  | _ => exact same_refl c

theorem inFlight_append (h : ∀ g ∈ rest, g.patient = true) : inFlight (next ++ rest) = inFlight next := by
  cases next with
  | cons g gs => rfl
  | nil =>
    cases rest with
    | nil => rfl
    | cons g gs => exact Locked.inFlight_of_patient (h g mem_cons_self)

section

variable (h : Running c (g :: rest))
include h

/-- The thread with the mutex goes on with `next` in front of what it had to do anyway. -/
theorem Running.go (hclos : c'.closing = none) (hcon : c'.connected = true)
    (hsound : Sound c' (inFlight next)) (hrel : ∀ m ∈ next.head?, m.Relies c')
    (hpat : ∀ m ∈ next.tail, m.patient = true)
    (hcount : next.countP Locked.flushes+rest.countP Locked.flushes = if c'.flushRunning then 1 else 0) :
    Running c' (next ++ rest) := by
  have hrest : ∀ m ∈ rest, m.patient = true := h.patient
  refine ⟨hclos,hcon,?_,?_,?_,?_⟩
  · rw [inFlight_append hrest]
    exact hsound
  · rw [countP_append]
    exact hcount
  · cases next with
    | cons m ms => exact hrel
    | nil =>
      intro m hm
      exact Locked.relies_of_patient (hrest m (mem_of_mem_head? hm))
  · cases next with
    | cons m ms =>
      intro m' hm'
      rcases mem_append.mp hm' with hm' | hm'
      · exact hpat m' hm'
      · exact hrest m' hm'
    | nil => exact fun m hm => hrest m (mem_of_mem_tail hm)

theorem Running.flusher_alone (hg : g.flushes = true) :
    c.flushRunning = true ∧ rest.countP Locked.flushes = 0 := by
  have hcount := h.flusher
  rw [countP_cons,hg,if_pos rfl] at hcount
  cases hrun : c.flushRunning with
  | true =>
    rw [hrun,if_pos rfl] at hcount
    exact ⟨rfl,by omega⟩
  | false =>
    rw [hrun] at hcount
    simp at hcount

theorem Running.others_flush (hg : g.flushes = false) :
    rest.countP Locked.flushes = if c.flushRunning then 1 else 0 := by
  have hcount := h.flusher
  rw [countP_cons,hg] at hcount
  simpa using hcount

theorem Running.sound_other (hg : g.flushes = false) : Sound c 0 := by
  have hsound := h.sound
  rw [inFlight,head?_cons,map_some,getD_some,Locked.inFlight_of_not_flushes hg] at hsound
  exact hsound

theorem Running.other (hg : g.flushes = false) (hsame : Same c c')
    (hnext : ∀ m ∈ next, m.flushes = false ∧ m.closes = false) (hpat : ∀ m ∈ next.tail, m.patient = true) :
    Running c' (next ++ rest) := by
  have hflus : next.countP Locked.flushes = 0 := by
    refine countP_eq_zero.mpr (fun m hm => ?_)
    simp [(hnext m hm).1]
  have hinFlight : inFlight next = 0 := by
    cases next with
    | nil => rfl
    | cons m ms => exact Locked.inFlight_of_not_flushes (hnext m mem_cons_self).1
  refine h.go (hsame.closing.trans h.closing) (hsame.connected.trans h.connected) ?_ (fun m hm => ?_) hpat ?_
  · rw [hinFlight]
    exact hsame.sound (h.sound_other hg)
  · have hm := hnext m (mem_of_mem_head? hm)
    exact Locked.relies_of_not_flushes hm.1 hm.2
  · rw [hflus,h.others_flush hg,hsame.flushRunning,zero_add]

theorem Running.flusher_go (hg : g.flushes = true) (hclos : c'.closing = none)
    (hcon : c'.connected = true) (hsound : Sound c' (inFlight next)) (hrel : ∀ m ∈ next.head?, m.Relies c')
    (hpat : ∀ m ∈ next.tail, m.patient = true)
    (hcount : next.countP Locked.flushes = if c'.flushRunning then 1 else 0) : Running c' (next ++ rest) := by
  refine h.go hclos hcon hsound hrel hpat ?_
  rw [(h.flusher_alone hg).2,add_zero,hcount]

theorem Running.flusher_on (hg : g.flushes = true) (hin : g.inFlight = 0) {m : Locked}
    (hm : m.flushes = true) (hinm : m.inFlight = 0) (hrel : m.Relies c) : Running c ([m] ++ rest) := by
  have hsound := h.sound
  rw [inFlight,head?_cons,map_some,getD_some,hin] at hsound
  refine h.flusher_go hg h.closing h.connected ?_ ?_ (by simp) ?_
  · rw [inFlight,head?_cons,map_some,getD_some,hinm]
    exact hsound
  · simpa using hrel
  · simp [hm,(h.flusher_alone hg).1]

end

theorem dispatchFlush_running (hclos : c.closing = none) (h : c.flushRunning = true) :
    c.dispatchFlush = ({ c with flushReschedule := true },[]) := by
  rw [dispatchFlush,markFlushScheduledLocked,if_neg (by simp [hclos]),if_pos h]
  rfl

theorem dispatchFlush_idle (hclos : c.closing = none) (h : c.flushRunning = false) :
    c.dispatchFlush = ({ c with flushRunning := true, flushReschedule := false },[.flush]) := by
  rw [dispatchFlush,markFlushScheduledLocked,if_neg (by simp [hclos]),if_neg (by simp [h])]
  rfl

theorem Running.dispatchFlush (h : Running c (g :: rest)) (hg : g.flushes = false) (hclos : c'.closing = none)
    (hcon : c'.connected = true) (hflus : c'.flushRunning = c.flushRunning) (hsound : Sound c' 0) :
    Running c'.dispatchFlush.1 (c'.dispatchFlush.2 ++ rest) := by
  have hcount := h.others_flush hg
  cases hrun : c'.flushRunning with
  | true =>
    rw [dispatchFlush_running hclos hrun]
    refine h.go hclos hcon (hsound.of_eq rfl rfl rfl rfl rfl) (by simp) (by simp) ?_
    simp [hcount,← hflus,hrun]
  | false =>
    rw [dispatchFlush_idle hclos hrun]
    refine h.go hclos hcon (hsound.of_eq rfl rfl rfl rfl rfl) (by simp [Locked.Relies]) (by simp) ?_
    simp [hcount,← hflus,hrun,Locked.flushes]

theorem sound_enqueue (h : Sound c 0) (data : Bytes) :
    Sound { c with
      sendQueue := c.sendQueue ++ [data], pendingWriteBytes := c.pendingWriteBytes+data.length,
      accepted := c.accepted ++ [data] } 0 := by
  obtain ⟨hfront,hcoun,hstr⟩ := h
  have hoff : c.sendOffset ≤ c.sendQueue.flatten.length := by omega
  refine ⟨?_,?_,?_⟩
  · cases hqueue : c.sendQueue with
    | nil =>
      rw [hqueue] at hfront
      exact le_trans hfront (zero_le _)
    | cons front rest =>
      rw [hqueue] at hfront
      exact hfront
  · simp only [flatten_append,length_append,flatten_singleton]
    omega
  · simp only [flatten_append,flatten_singleton,add_zero] at hstr ⊢
    rw [drop_append_of_le_length hoff,← append_assoc,hstr]

theorem Running.closeIfFlushed (h : Running c (g :: rest)) (hg : g.flushes = true) (hclos : c'.closing = none)
    (hcon : c'.connected = true) (hrun : c'.flushRunning = true) (hsound : Sound c' 0) (m : Locked)
    (hm : m.flushes = true) (hin : m.inFlight = 0) (hrel : ∀ c, m.Relies c) :
    Running (c'.closeIfFlushed [m]).1 ((c'.closeIfFlushed [m]).2 ++ rest) := by
  unfold Client.closeIfFlushed
  split
  · refine h.flusher_go hg hclos hcon (hsound.of_eq rfl rfl rfl rfl rfl) (by simp [Locked.Relies])
      (by simp [Locked.patient]) ?_
    simp [Client.refreshInterestLocked,hrun,Locked.flushes]
  · refine h.flusher_go hg hclos hcon ?_ (by simp [hrel]) (by simp) ?_
    · rw [inFlight,head?_cons,map_some,getD_some,hin]
      exact hsound.of_eq rfl rfl rfl rfl rfl
    · simp [Client.refreshInterestLocked,hrun,hm]

section Front

variable {front : Bytes} {queue : List Bytes}

theorem sound_write (h : Sound c 0) (hqueue : c.sendQueue = front :: queue) {sent : Bytes}
    (hsent : sent <+: front.drop c.sendOffset) : Sound { c with written := c.written ++ sent } sent.length := by
  obtain ⟨hfront,hcoun,hstr⟩ := h
  rw [hqueue] at hfront hstr
  have hfront : c.sendOffset ≤ front.length := hfront
  have hlen := hsent.length_le
  rw [length_drop] at hlen
  obtain ⟨more,hmore⟩ := hsent
  refine ⟨?_,hcoun,?_⟩
  · rw [hqueue]
    show c.sendOffset+sent.length ≤ front.length
    omega
  · rw [add_zero,flatten_cons,drop_append_of_le_length hfront,← hmore] at hstr
    simp only [hqueue,flatten_cons]
    rw [← drop_drop,drop_append_of_le_length hfront,← hmore,append_assoc sent,drop_left,
      append_assoc,← append_assoc sent,hstr]

theorem settle_pending {pending : Nat} (h : bytes ≤ pending) :
    (if pending ≤ bytes then 0 else pending-bytes) = pending-bytes := by
  split <;> omega

theorem sound_advance (h : Sound c bytes) (hqueue : c.sendQueue = front :: queue) : Sound { c with
      sendOffset := c.sendOffset+bytes
      pendingWriteBytes := if c.pendingWriteBytes ≤ bytes then 0 else c.pendingWriteBytes-bytes } 0 := by
  obtain ⟨hfront,hcoun,hstr⟩ := h
  have hlen : (c.sendQueue.headD []).length ≤ c.sendQueue.flatten.length := by
    rw [hqueue,flatten_cons,length_append]
    exact le_add_right _ _
  refine ⟨hfront,?_,hstr⟩
  show (if _ then _ else _)+(c.sendOffset+bytes) = _
  rw [settle_pending (by omega),← hcoun]
  omega

theorem sound_pop (h : Sound c 0) (hqueue : c.sendQueue = front :: queue) (hdone : front.length ≤ c.sendOffset) :
    Sound { c with sendQueue := c.sendQueue.tail, sendOffset := 0 } 0 := by
  obtain ⟨hfront,hcoun,hstr⟩ := h
  rw [hqueue] at hfront hcoun hstr
  have hoff : c.sendOffset = front.length := le_antisymm hfront hdone
  refine ⟨zero_le _,?_,?_⟩
  · rw [hoff,flatten_cons,length_append] at hcoun
    simp only [hqueue,tail_cons]
    omega
  · rw [add_zero,hoff,flatten_cons,drop_left] at hstr
    simpa [hqueue] using hstr

end Front

theorem Running.close (h : Running c (.close cause :: rest)) (hclos : c'.closing ≠ none)
    (hwrit : c'.written = c.written) (hacc : c'.accepted = c.accepted)
    (hpen : c'.pendingWriteBytes = c.pendingWriteBytes) (hoff : c'.sendOffset = c.sendOffset)
    (hqueue : c'.sendQueue = c.sendQueue) :
    Closed c' ([.unconnect,.clearQueuesAndWaits,.closeSocket,.callback] ++ rest) := by
  refine ⟨hclos,.inr ⟨_,rfl⟩,?_,?_,fun g hg => ?_⟩
  · rw [hwrit,hacc]
    exact ⟨_,h.sound.stream⟩
  · rw [hpen,hoff,hqueue]
    exact h.sound.counter
  · rcases mem_append.mp hg with hg | hg
    · simp only [mem_cons,not_mem_nil,or_false] at hg
      rcases hg with rfl | rfl | rfl | rfl <;> rfl
    · simp [Locked.harmless,h.patient g hg]

theorem nested_patient (calls : List Nested) : ∀ g ∈ calls.flatMap Nested.moves, g.patient = true := by
  intro g hg
  obtain ⟨call,-,hg⟩ := mem_flatMap.mp hg
  cases call <;> (rw [mem_singleton.mp hg]; rfl)

theorem Running.callback (h : Running c (.callback :: rest)) (calls : List Nested) :
    Running c (calls.flatMap Nested.moves ++ rest) := by
  have hflus (g : Locked) (hg : g ∈ calls.flatMap Nested.moves) : g.flushes = false ∧ g.closes = false := by
    obtain ⟨call,-,hg⟩ := mem_flatMap.mp hg
    cases call <;> (rw [mem_singleton.mp hg]; exact ⟨rfl,rfl⟩)
  exact h.other rfl (same_refl c) hflus (fun g hg => nested_patient calls g (mem_of_mem_tail hg))

theorem readMoves_calm (tls : Bool) (receive : Receive) :
    (∀ m ∈ readMoves tls receive, m.flushes = false ∧ m.closes = false) ∧
      ∀ m ∈ (readMoves tls receive).tail, m.patient = true := by
  cases receive with
  | bytes full => cases full <;> simp [readMoves,Locked.flushes,Locked.closes,Locked.patient]
  | _ => simp [readMoves,Locked.flushes,Locked.closes,Locked.patient]

theorem Running.write {current : Bytes} {offset : Nat} (h : Running c (.write current offset :: rest))
    (tls : Bool) (transfer : Transfer) :
    let result := writeTransport tls transfer (current.drop offset)
    Running { c with written := c.written ++ result.2 } (writeMoves current.length result.2 result.1 ++ rest) := by
  intro result
  obtain ⟨hoff,queue,hqueue⟩ := h.relies _ rfl
  have hrun := (h.flusher_alone rfl).1
  have hsent : result.2 <+: current.drop c.sendOffset := hoff ▸ writeTransport_front _ _ _
  have hsound := sound_write h.sound hqueue hsent
  have hnot (hstatus : result.1 ≠ .ok) : Sound { c with written := c.written ++ result.2 } 0 := by
    have hempty : result.2 = [] := writeTransport_not_ok hstatus
    rw [hempty] at hsound ⊢
    exact hsound
  cases hstatus : result.1 with
  | ok =>
    refine h.flusher_go rfl h.closing h.connected hsound ?_ (by simp [writeMoves]) (by simp [writeMoves,Locked.flushes,hrun])
    simpa [writeMoves,Locked.Relies] using ⟨current,⟨queue,hqueue⟩,rfl⟩
  | wouldBlock wait =>
    exact h.flusher_go rfl h.closing h.connected (hnot (by simp [hstatus])) (by simp [writeMoves,Locked.Relies])
      (by simp [writeMoves]) (by simp [writeMoves,Locked.flushes,hrun])
  | closed =>
    exact h.flusher_go rfl h.closing h.connected (hnot (by simp [hstatus])) (by simp [writeMoves,Locked.Relies])
      (by simp [writeMoves,Locked.patient]) (by simp [writeMoves,Locked.flushes,hrun])
  | error =>
    exact h.flusher_go rfl h.closing h.connected (hnot (by simp [hstatus])) (by simp [writeMoves,Locked.Relies])
      (by simp [writeMoves,Locked.patient]) (by simp [writeMoves,Locked.flushes,hrun])

theorem Running.settle (h : Running c (.settle size bytes :: rest)) :
    Running (c.settle size bytes).1 ((c.settle size bytes).2 ++ rest) := by
  obtain ⟨front,queue,hqueue,rfl⟩ := h.relies _ rfl
  have hrun := (h.flusher_alone rfl).1
  have hsound := sound_advance h.sound hqueue
  simp only [settle]
  split
  · refine h.flusher_go rfl h.closing h.connected (hsound.of_eq rfl rfl rfl rfl rfl) (by simp [Locked.Relies]) (by simp) ?_
    simp [refreshInterestLocked,hrun,Locked.flushes]
  · rename_i hdone
    refine h.closeIfFlushed rfl ?_ ?_ ?_ ?_ .drain rfl rfl (fun _ => trivial)
    · exact h.closing
    · exact h.connected
    · exact hrun
    · exact sound_pop hsound hqueue (Nat.le_of_not_lt hdone)

theorem Running.guarded (h : Running c (g :: rest)) : Inv (guarded c env g).1 ((guarded c env g).2 ++ rest) := by
  cases g with
  | send data =>
    refine .inl ?_
    simp only [guarded]
    split
    · exact h.other rfl (same_refl c) (by simp) (by simp)
    · split
      · exact h.other rfl (same_refl c) (by simp) (by simp)
      · exact h.other rfl (same_refl c) (by simp [Locked.flushes,Locked.closes]) (by simp)
  | enqueue data =>
    exact .inl (h.dispatchFlush rfl h.closing h.connected rfl
      ((sound_enqueue (h.sound_other rfl) data).of_eq rfl rfl rfl rfl rfl))
  | startTls =>
    refine .inl ?_
    simp only [guarded]
    split
    · exact h.other rfl (same_refl c) (by simp) (by simp)
    · split
      · exact h.other rfl (same_refl c) (by simp) (by simp)
      · split
        · exact h.other rfl ⟨rfl,rfl,rfl,rfl,rfl,rfl,rfl,rfl⟩ (by simp [Locked.flushes,Locked.closes]) (by simp)
        · exact h.other rfl ⟨rfl,rfl,rfl,rfl,rfl,rfl,rfl,rfl⟩ (by simp [Locked.flushes,Locked.closes])
            (by simp [Locked.patient])
  | driveTlsHandshake =>
    refine .inl ?_
    simp only [guarded]
    split
    · exact h.other rfl (same_refl c) (by simp) (by simp)
    · cases env.handshake with
      | done =>
        exact h.other rfl ⟨rfl,h.connected.symm,rfl,rfl,rfl,rfl,rfl,rfl⟩ (by simp [Locked.flushes,Locked.closes])
          (by simp)
      | wantRead => exact h.other rfl (same_refl c) (by simp [Locked.flushes,Locked.closes]) (by simp)
      | wantWrite => exact h.other rfl (same_refl c) (by simp [Locked.flushes,Locked.closes]) (by simp)
      | failed =>
        exact h.other rfl ⟨rfl,rfl,rfl,rfl,rfl,rfl,rfl,rfl⟩ (by simp [Locked.flushes,Locked.closes])
          (by simp [Locked.patient])
  | setHandshakeWait wait => exact .inl (h.other rfl ⟨rfl,rfl,rfl,rfl,rfl,rfl,rfl,rfl⟩ (by simp [guarded]) (by simp [guarded]))
  | setReadWait wait => exact .inl (h.other rfl ⟨rfl,rfl,rfl,rfl,rfl,rfl,rfl,rfl⟩ (by simp [guarded]) (by simp [guarded]))
  | handleRead =>
    refine .inl ?_
    simp only [guarded]
    split
    · exact h.other rfl (same_refl c) (by simp) (by simp)
    · split <;> exact h.other rfl (same_refl c) (by simp [Locked.flushes,Locked.closes]) (by simp)
  | readLoop =>
    refine .inl ?_
    simp only [guarded,h.closing,if_true]
    exact h.other rfl (same_refl c) (by simp [Locked.flushes,Locked.closes]) (by simp)
  | receive =>
    obtain ⟨hcalm,hpat⟩ := readMoves_calm (c.tlsState = .ready) (if c.socketOpen then env.receive else .failed)
    exact .inl (h.other rfl (same_refl c) hcalm hpat)
  | handleWrite =>
    refine .inl ?_
    simp only [guarded]
    split
    · exact h.other rfl (same_refl c) (by simp) (by simp)
    · split <;> exact h.other rfl (same_refl c) (by simp [Locked.flushes,Locked.closes]) (by simp)
  | schedule => exact .inl (h.dispatchFlush rfl h.closing h.connected rfl (h.sound_other rfl))
  | flush =>
    refine .inl ?_
    simp only [guarded,h.connected,if_true]
    exact h.flusher_on rfl rfl rfl rfl trivial
  | drain =>
    refine .inl ?_
    simp only [guarded,h.connected,if_true]
    exact h.flusher_on rfl rfl rfl rfl trivial
  | look =>
    refine .inl ?_
    simp only [guarded]
    split
    · refine h.closeIfFlushed rfl ?_ ?_ ?_ ?_ (.finish true) rfl rfl (fun _ => trivial)
      · exact h.closing
      · exact h.connected
      · exact (h.flusher_alone rfl).1
      · exact h.sound.of_eq rfl rfl rfl rfl rfl
    · rename_i current queue hqueue
      split
      · exact h.flusher_on rfl rfl rfl rfl trivial
      · exact h.flusher_on rfl rfl rfl rfl ⟨rfl,queue,hqueue⟩
  | write current offset => exact .inl (h.write _ _)
  | wrote size bytes =>
    have hrun := (h.flusher_alone rfl).1
    refine .inl (h.flusher_go rfl h.closing h.connected (h.sound.of_eq rfl rfl rfl rfl rfl) ?_ (by simp [guarded]) ?_)
    · obtain ⟨front,queue,hqueue,hsize⟩ := h.relies _ rfl
      simpa [guarded,refreshInterestLocked,Locked.Relies] using ⟨front,⟨queue,hqueue⟩,hsize⟩
    · simp [guarded,refreshInterestLocked,hrun,Locked.flushes]
  | settle size bytes => exact .inl h.settle
  | blocked wait =>
    have hrun := (h.flusher_alone rfl).1
    refine .inl (h.flusher_go rfl h.closing h.connected (h.sound.of_eq rfl rfl rfl rfl rfl) ?_ (by simp [guarded]) ?_)
    · simp [guarded,Locked.Relies]
    · simp [guarded,refreshInterestLocked,hrun,Locked.flushes]
  | finish drained =>
    refine .inl ?_
    have hrun := (h.flusher_alone rfl).1
    simp only [guarded]
    split
    · exact h.flusher_go rfl h.closing h.connected (h.sound.of_eq rfl rfl rfl rfl rfl) (by simp) (by simp) rfl
    · split
      · exact h.flusher_go rfl h.closing h.connected (h.sound.of_eq rfl rfl rfl rfl rfl) (by simp) (by simp) rfl
      · exact h.flusher_go rfl h.closing h.connected (h.sound.of_eq rfl rfl rfl rfl rfl) (by simp [Locked.Relies]) (by simp)
          (by simp [hrun,Locked.flushes])
  | leave => exact .inl (h.flusher_go rfl h.closing h.connected (h.sound.of_eq rfl rfl rfl rfl rfl) (by simp [guarded]) (by simp [guarded]) rfl)
  | disconnectAfterPendingWrites =>
    refine .inl ?_
    simp only [guarded,h.connected,if_true]
    exact h.other rfl (same_refl c) (by simp [Locked.flushes,Locked.closes]) (by simp)
  | check =>
    refine .inl (h.other rfl (same_checkPendingWrites c) ?_ ?_)
    · simp only [guarded]
      split <;> simp [Locked.flushes,Locked.closes]
    · simp only [guarded]
      split <;> simp
  | close cause =>
    simp only [guarded]
    split
    · exact .inl (h.other rfl ⟨rfl,rfl,rfl,rfl,rfl,rfl,rfl,rfl⟩ (by simp [Locked.flushes,Locked.closes])
        (by simp [Locked.patient]))
    · rw [h.closing]
      exact .inr (h.close (by simp) rfl rfl rfl rfl rfl)
  | unconnect => exact (h.relies _ rfl).elim
  | clearQueuesAndWaits => exact (h.relies _ rfl).elim
  | closeSocket => exact (h.relies _ rfl).elim
  | callback => exact .inl (h.callback env.calls)

theorem Closed.on (h : Closed c (g :: rest)) (hclos : c'.closing = c.closing) (hcon : c'.connected = false)
    (hwrit : c'.written = c.written) (hacc : c'.accepted = c.accepted)
    (hcoun : c'.pendingWriteBytes+c'.sendOffset = c'.sendQueue.flatten.length)
    (hnext : ∀ m ∈ next, m.harmless = true) : Closed c' (next ++ rest) := by
  refine ⟨hclos ▸ h.closing,.inl hcon,?_,hcoun,fun m hm => ?_⟩
  · rw [hwrit,hacc]
    exact h.written
  · rcases mem_append.mp hm with hm | hm
    · exact hnext m hm
    · exact h.harmless m (mem_cons_of_mem g hm)

theorem Closed.guarded (h : Closed c (g :: rest)) : Closed (guarded c env g).1 ((guarded c env g).2 ++ rest) := by
  have hhar := h.harmless g mem_cons_self
  have hoff (hg : g ≠ .unconnect) : c.connected = false := by
    rcases h.connected with hoff | ⟨rest',hblock⟩
    · exact hoff
    · exact absurd (cons.inj hblock).1 hg
  cases g with
  | send data =>
    simp only [guarded,hoff (by simp),Bool.not_false,if_true]
    exact h.on rfl (hoff (by simp)) rfl rfl h.counter (by simp)
  | startTls =>
    simp only [guarded]
    rw [if_pos (.inl h.closing)]
    exact h.on rfl (hoff (by simp)) rfl rfl h.counter (by simp)
  | handleRead =>
    simp only [guarded]
    rw [if_pos h.closing]
    exact h.on rfl (hoff (by simp)) rfl rfl h.counter (by simp)
  | handleWrite =>
    simp only [guarded]
    rw [if_pos h.closing]
    exact h.on rfl (hoff (by simp)) rfl rfl h.counter (by simp)
  | readLoop =>
    simp only [guarded]
    rw [if_neg h.closing]
    exact h.on rfl (hoff (by simp)) rfl rfl h.counter (by simp)
  | finish drained =>
    simp only [guarded]
    rw [if_pos (.inl h.closing)]
    exact h.on rfl (hoff (by simp)) rfl rfl h.counter (by simp)
  | disconnectAfterPendingWrites =>
    simp only [guarded,hoff (by simp),Bool.false_eq_true,if_false]
    exact h.on rfl (hoff (by simp)) rfl rfl h.counter (by simp [Locked.harmless,Locked.patient])
  | close cause =>
    simp only [guarded]
    split
    · exact h.on rfl (hoff (by simp)) rfl rfl h.counter (by simp [Locked.harmless,Locked.patient])
    · obtain ⟨begun,hbegun⟩ := ne_none_iff_exists'.mp h.closing
      rw [hbegun]
      exact h.on rfl (hoff (by simp)) rfl rfl h.counter (by simp [Locked.harmless,Locked.closes])
  | unconnect => exact h.on rfl rfl rfl rfl h.counter (by simp [guarded])
  | clearQueuesAndWaits => exact h.on rfl (hoff (by simp)) rfl rfl rfl (by simp [guarded])
  | closeSocket => exact h.on rfl (hoff (by simp)) rfl rfl h.counter (by simp [guarded])
  | callback =>
    refine h.on rfl (hoff (by simp)) rfl rfl h.counter (fun m hm => ?_)
    simp [Locked.harmless,nested_patient env.calls m hm]
  | _ => cases hhar

theorem Inv.guarded (h : Inv c (g :: rest)) : Inv (guarded c env g).1 ((guarded c env g).2 ++ rest) := by
  rcases h with hrun | hclos
  · exact hrun.guarded
  · exact .inr hclos.guarded

theorem Inv.enter (h : Inv c []) (m : Move) : Inv c (free c env m).2.2 := by
  have hrun (hrun : Running c []) (g : Locked) (hflus : g.flushes = false) (hclos : g.closes = false) :
      Running c [g] := by
    refine ⟨hrun.closing,hrun.connected,?_,?_,?_,by simp⟩
    · rw [inFlight,head?_cons,map_some,getD_some,Locked.inFlight_of_not_flushes hflus]
      exact hrun.sound
    · rw [countP_singleton,hflus,← hrun.flusher]
      rfl
    · simpa using Locked.relies_of_not_flushes hflus hclos
  have hone (g : Locked) (hflus : g.flushes = false) (hclos : g.closes = false) (hhar : g.harmless = true) :
      Inv c [g] := by
    rcases h with h | h
    · exact .inl (hrun h g hflus hclos)
    · refine .inr ⟨h.closing,.inl ?_,h.written,h.counter,by simpa using hhar⟩
      rcases h.connected with hoff | ⟨rest,hblock⟩
      · exact hoff
      · cases hblock
  cases m with
  | disconnect => exact h
  | disconnectAfterPendingWrites => exact h
  | check => exact h
  | _ => exact hone _ rfl rfl rfl

theorem inv_connected (tls : Bool) : Inv (connectedClient tls).shared [] :=
  .inl ⟨rfl,rfl,⟨le_refl 0,rfl,rfl⟩,rfl,by simp,by simp⟩

theorem Inv.written (h : Inv c block) : c.written <+: c.accepted.flatten := by
  rcases h with hrun | hclos
  · exact ⟨_,hrun.sound.stream⟩
  · exact hclos.written

theorem Inv.counter (h : Inv c block) : c.pendingWriteBytes+c.sendOffset = c.sendQueue.flatten.length := by
  rcases h with hrun | hclos
  · exact hrun.sound.counter
  · exact hclos.counter

/-- Behind every run the bytes on the wire are the front of the accepted payloads in their
order, and the counter is what the queue has still to send. -/
theorem stream_run (tls : Bool) (events : List Event) :
    let c := (Machine.runs step (connectedClient tls) events).shared
    c.written <+: c.accepted.flatten ∧ c.pendingWriteBytes = (c.sendQueue.map length).sum-c.sendOffset := by
  intro c
  have hinv : Inv c (Machine.runs step (connectedClient tls) events).block := by
    refine @Guarded.invariant_always _ _ _ _ _ _ _ _ (fun c block _ => Inv c block) (fun c block others entry h => h)
      (fun c block others env m h _ => (same_free c env m).inv h)
      (fun c others env m h => (same_free c env m).inv (h.enter m)) (fun c rest others env g h => h.guarded) _
      (inv_connected tls) events
  refine ⟨hinv.written,?_⟩
  have hcoun := hinv.counter
  rw [length_flatten] at hcoun
  exact Nat.eq_sub_of_add_eq hcoun

/-! ### The close behind the pending writes -/

def Decided (block : List Locked) (others : Multiset Move) : Prop :=
  .close .flushed ∈ others ∨ .close .flushed ∈ block

instance (block : List Locked) (others : Multiset Move) : Decidable (Decided block others) :=
  inferInstanceAs (Decidable (_ ∨ _))

def NoLateSend (_c : Client) (block : List Locked) (others : Multiset Move) (_env : Env) : Move ⊕ Locked → Prop
  | .inr (.enqueue _) => ¬ Decided block others
  | _ => True

instance (c : Client) (block : List Locked) (others : Multiset Move) (env : Env) (move : Move ⊕ Locked) :
    Decidable (NoLateSend c block others env move) := by
  unfold NoLateSend
  split <;> infer_instance

structure Flushed (c : Client) (block : List Locked) (others : Multiset Move) : Prop where
  inv : Inv c block
  decided : c.closing = none → Decided block others → c.pendingWriteBytes = 0
  closed : ∀ n, c.closing = some (.flushed,n) → n = 0

theorem closeIfFlushed_decides {m : Locked} (hm : m ≠ .close .flushed)
    (h : .close .flushed ∈ (c.closeIfFlushed [m]).2) : (c.closeIfFlushed [m]).1.sendQueue = [] := by
  unfold closeIfFlushed at h ⊢
  split at h
  · rename_i hflus
    rw [if_pos hflus]
    simp only [Bool.and_eq_true,List.isEmpty_iff] at hflus
    exact hflus.1
  · exact absurd (List.mem_singleton.mp h).symm hm

theorem dispatchFlush_moves (c : Client) : .close .flushed ∉ c.dispatchFlush.2 := by
  simp only [dispatchFlush]
  split <;> simp

theorem writeMoves_moves (size : Nat) (sent : Bytes) (status : IoStatus) :
    .close .flushed ∉ writeMoves size sent status := by
  cases status <;> simp [writeMoves]

theorem readMoves_moves (tls : Bool) (receive : Receive) : .close .flushed ∉ readMoves tls receive := by
  cases receive with
  | bytes full => cases full <;> simp [readMoves]
  | _ => simp [readMoves]

theorem settle_decides (h : .close .flushed ∈ (c.settle size bytes).2) :
    (c.settle size bytes).1.sendQueue = [] := by
  simp only [settle] at h ⊢
  split at h
  · simp at h
  · rename_i hdone
    rw [if_neg hdone]
    exact closeIfFlushed_decides (by simp) h

theorem guarded_decides (h : .close .flushed ∈ (guarded c env g).2) :
    g = .close .flushed ∨ (guarded c env g).1.sendQueue = [] ∨ (guarded c env g).1.pendingWriteBytes = 0 := by
  cases g with
  | enqueue data => exact absurd h (dispatchFlush_moves _)
  | schedule => exact absurd h (dispatchFlush_moves _)
  | settle size bytes => exact .inr (.inl (settle_decides h))
  | look =>
    simp only [guarded] at h ⊢
    cases hqueue : c.sendQueue with
    | nil =>
      simp only [hqueue] at h ⊢
      exact .inr (.inl (closeIfFlushed_decides (by simp) h))
    | cons current queue =>
      simp only [hqueue] at h
      split at h <;> simp at h
  | check =>
    simp only [guarded,checkPendingWrites] at h ⊢
    split at h
    · rename_i hzero
      rw [if_pos hzero]
      exact .inr (.inr hzero)
    · simp at h
  | close cause =>
    simp only [guarded] at h
    split at h
    · simp only [mem_cons,reduceCtorEq,not_mem_nil,or_false,false_or] at h
      exact .inl h.symm
    · cases hclos : c.closing <;> simp [hclos] at h
  | callback =>
    obtain ⟨call,-,hcall⟩ := mem_flatMap.mp h
    cases call <;> simp [Nested.moves] at hcall
  | write current offset => exact absurd h (writeMoves_moves _ _ _)
  | receive => exact absurd h (readMoves_moves _ _)
  | _ => grind [guarded]

theorem dispatchFlush_same (c : Client) :
    c.dispatchFlush.1.closing = c.closing ∧ c.dispatchFlush.1.pendingWriteBytes = c.pendingWriteBytes := by
  simp only [dispatchFlush,markFlushScheduledLocked]
  split
  · exact ⟨rfl,rfl⟩
  · split <;> exact ⟨rfl,rfl⟩

theorem closeIfFlushed_same (c : Client) (otherwise : List Locked) :
    (c.closeIfFlushed otherwise).1.closing = c.closing ∧
      (c.closeIfFlushed otherwise).1.pendingWriteBytes = c.pendingWriteBytes := by
  unfold closeIfFlushed
  split <;> exact ⟨rfl,rfl⟩

theorem settle_same (c : Client) (size bytes : Nat) :
    (c.settle size bytes).1.closing = c.closing ∧ (c.settle size bytes).1.pendingWriteBytes ≤ c.pendingWriteBytes := by
  have hle : (if c.pendingWriteBytes ≤ bytes then 0 else c.pendingWriteBytes-bytes) ≤ c.pendingWriteBytes := by
    split <;> omega
  simp only [settle]
  split
  · exact ⟨rfl,hle⟩
  · obtain ⟨hclos,hpen⟩ := closeIfFlushed_same
      { c with
        sendQueue := c.sendQueue.tail, sendOffset := 0,
        pendingWriteBytes := if c.pendingWriteBytes ≤ bytes then 0 else c.pendingWriteBytes-bytes } [.drain]
    exact ⟨hclos,hpen ▸ hle⟩

theorem guarded_cases (c : Client) (env : Env) (g : Locked) :
    ((guarded c env g).1.closing = c.closing ∧
        ((∃ data, g = .enqueue data) ∨ (guarded c env g).1.pendingWriteBytes ≤ c.pendingWriteBytes)) ∨
      ∃ cause, g = .close cause ∧ c.closing = none ∧
        (guarded c env g).1.closing = some (cause,c.pendingWriteBytes) := by
  cases g with
  | enqueue data => exact .inl ⟨(dispatchFlush_same _).1,.inl ⟨data,rfl⟩⟩
  | schedule => exact .inl ⟨(dispatchFlush_same c).1,.inr (dispatchFlush_same c).2.le⟩
  | settle size bytes => exact .inl ⟨(settle_same c size bytes).1,.inr (settle_same c size bytes).2⟩
  | look =>
    refine .inl ?_
    simp only [guarded]
    split
    · exact ⟨(closeIfFlushed_same _ _).1,.inr (closeIfFlushed_same _ _).2.le⟩
    · exact ⟨rfl,.inr (le_refl _)⟩
  | check => exact .inl ⟨(same_checkPendingWrites c).closing,.inr (same_checkPendingWrites c).pendingWriteBytes.le⟩
  | close cause =>
    simp only [guarded]
    split
    · exact .inl ⟨rfl,.inr (le_refl _)⟩
    · split
      · rename_i hclos
        exact .inr ⟨cause,rfl,hclos,rfl⟩
      · exact .inl ⟨rfl,.inr (le_refl _)⟩
  | clearQueuesAndWaits => exact .inl ⟨rfl,.inr (zero_le _)⟩
  | setHandshakeWait wait => exact .inl ⟨rfl,.inr (le_refl _)⟩
  | setReadWait wait => exact .inl ⟨rfl,.inr (le_refl _)⟩
  | wrote size bytes => exact .inl ⟨rfl,.inr (le_refl _)⟩
  | blocked wait => exact .inl ⟨rfl,.inr (le_refl _)⟩
  | driveTlsHandshake =>
    refine .inl ?_
    simp only [guarded]
    split
    · exact ⟨rfl,.inr (le_refl _)⟩
    · cases env.handshake <;> exact ⟨rfl,.inr (le_refl _)⟩
  | _ => exact .inl (by grind [guarded])

section Decisions

variable {others : Multiset Move}

theorem Flushed.guarded (h : Flushed c (g :: rest) others) (hok : NoLateSend c (g :: rest) others env (.inr g)) :
    Flushed (guarded c env g).1 ((guarded c env g).2 ++ rest) others := by
  have hinv : Inv (TcpClient.guarded c env g).1 ((TcpClient.guarded c env g).2 ++ rest) := h.inv.guarded
  refine ⟨hinv,fun hclos hdec => ?_,fun n hn => ?_⟩
  · rcases guarded_cases c env g with ⟨hsame,hpen⟩ | ⟨cause,-,-,hbegun⟩
    · -- the counter has not grown if somebody had decided on a close before
      have hbef (hdec : Decided (g :: rest) others) : (TcpClient.guarded c env g).1.pendingWriteBytes = 0 := by
        rcases hpen with ⟨data,rfl⟩ | hpen
        · exact absurd hdec hok
        · have hzero := h.decided (hsame ▸ hclos) hdec
          omega
      rcases hdec with hoth | hblock
      · exact hbef (.inl hoth)
      · rcases mem_append.mp hblock with hnext | hrest
        · rcases guarded_decides hnext with rfl | hqueue | hzero
          · exact hbef (.inr mem_cons_self)
          · have hcoun := hinv.counter
            rw [hqueue] at hcoun
            exact Nat.eq_zero_of_add_eq_zero_right hcoun
          · exact hzero
        · exact hbef (.inr (mem_cons_of_mem g hrest))
    · rw [hbegun] at hclos
      cases hclos
  · rcases guarded_cases c env g with ⟨hsame,-⟩ | ⟨cause,rfl,hclos,hbegun⟩
    · exact h.closed n (hsame ▸ hn)
    · rw [hbegun] at hn
      obtain ⟨rfl,rfl⟩ := Prod.mk.inj (some.inj hn)
      exact h.decided hclos (.inr mem_cons_self)

theorem free_decides (h : .close .flushed ∈ ((free c env m).2.1 : Multiset Move) + others) :
    .close .flushed ∈ others ∨ c.pendingWriteBytes = 0 := by
  rcases Multiset.mem_add.mp h with hnext | hoth
  · have hnext : .close .flushed ∈ (free c env m).2.1 := hnext
    cases m with
    | check =>
      simp only [free,checkPendingWrites] at hnext
      split at hnext
      · rename_i hzero
        exact .inr hzero
      · simp at hnext
    | disconnectAfterPendingWrites =>
      simp only [free] at hnext
      split at hnext <;> simp at hnext
    | _ => simp [free] at hnext
  · exact .inl hoth

theorem enter_decides (h : .close .flushed ∈ (free c env m).2.2) : m = .close .flushed := by
  cases m with
  | close cause =>
    simp only [free,mem_singleton,Locked.close.injEq] at h
    rw [h]
  | _ => simp [free] at h

theorem Flushed.free (h : Flushed c block (m ::ₘ others)) (hinv : Inv (free c env m).1 block')
    (hdec : Decided block' ((free c env m).2.1 + others) →
      Decided block (m ::ₘ others) ∨ c.pendingWriteBytes = 0) :
    Flushed (free c env m).1 block' ((free c env m).2.1 + others) := by
  have hsame := same_free c env m
  refine ⟨hinv,fun hclos hclose => ?_,fun n hn => h.closed n (hsame.closing ▸ hn)⟩
  rw [hsame.pendingWriteBytes]
  rcases hdec hclose with hbef | hzero
  · exact h.decided (hsame.closing ▸ hclos) hbef
  · exact hzero

theorem flushed_connected (tls : Bool) : Flushed (connectedClient tls).shared [] 0 := by
  refine ⟨inv_connected tls,fun _ _ => rfl,fun n hn => ?_⟩
  cases hn

theorem flushed_run (tls : Bool) {events : List Event}
    (hok : Machine.Meets step (Guarded.Allowed (fun _ => True) NoLateSend) (connectedClient tls) events) :
    let p := Machine.runs step (connectedClient tls) events
    Flushed p.shared p.block p.pending := by
  refine Guarded.invariant (fun _ => True) NoLateSend (fun c block others entry _ h => ?_)
    (fun c block others env m _ h hblock => ?_) (fun c others env m _ h => ?_) (fun c rest others env g hok h => ?_)
    (flushed_connected tls) hok
  · refine ⟨h.inv,fun hclos hdec => h.decided hclos ?_,h.closed⟩
    rcases hdec with hfree | hblock
    · rcases Multiset.mem_add.mp hfree with hentry | hoth
      · have hentry : .close .flushed ∈ entry.moves := hentry
        cases entry <;> simp [Entry.moves] at hentry
      · exact .inl hoth
    · exact .inr hblock
  · refine h.free ((same_free c env m).inv h.inv) (fun hdec => ?_)
    rcases hdec with hfree | hmine
    · exact (free_decides hfree).imp (fun hoth => .inl (Multiset.mem_cons_of_mem hoth)) id
    · exact .inl (.inr hmine)
  · refine h.free ((same_free c env m).inv (h.inv.enter m)) (fun hdec => ?_)
    rcases hdec with hfree | hmine
    · exact (free_decides hfree).imp (fun hoth => .inl (Multiset.mem_cons_of_mem hoth)) id
    · exact .inl (.inl (enter_decides hmine ▸ Multiset.mem_cons_self _ _))
  · exact h.guarded hok

/-- The bytes on the wire are the front of the accepted payloads in their order, the counter
is what the queue has still to send, and the close behind the pending writes finds nothing
pending. -/
theorem client_stream (tls : Bool) {events : List Event}
    (hok : Machine.Meets step (Guarded.Allowed (fun _ => True) NoLateSend) (connectedClient tls) events) :
    let c := (Machine.runs step (connectedClient tls) events).shared
    c.written <+: c.accepted.flatten ∧ c.pendingWriteBytes = (c.sendQueue.map List.length).sum-c.sendOffset ∧
      ∀ n, c.closing = some (.flushed,n) → n = 0 := by
  intro c
  obtain ⟨hwrit,hcoun⟩ := stream_run tls events
  exact ⟨hwrit,hcoun,(flushed_run tls hok).closed⟩

def lastWords : List Event :=
  [.call (.send [104,105]),.move 0 {},.move 0 {},.move 0 {},.move 0 {},.move 0 {},.move 0 {},
    .move 0 { transfer := .sent 1 },.call .disconnectAfterPendingWrites,.move 1 {},.move 1 {},.move 0 {},
    .move 0 {},.move 0 {},.move 0 {},.move 0 { transfer := .sent 1 },.move 0 {},.move 0 {},.move 0 {}]

theorem client_stream_lastWords :
    Machine.Meets step (Guarded.Allowed (fun _ => True) NoLateSend) (connectedClient false) lastWords ∧
      (Machine.runs step (connectedClient false) lastWords).shared.closing = some (.flushed, 0) ∧
      (Machine.runs step (connectedClient false) lastWords).shared.written <+:
        (Machine.runs step (connectedClient false) lastWords).shared.accepted.flatten :=
  have hok : Machine.Meets step (Guarded.Allowed (fun _ => True) NoLateSend) (connectedClient false) lastWords := by
    decide
  ⟨hok,by decide,(client_stream false hok).1⟩

/-- One thread finds nothing pending, another sends a byte that the socket does not take yet,
and the first closes: the byte was accepted and is lost. -/
def lateSend : List Event :=
  [.call .disconnectAfterPendingWrites,.move 0 {},.move 0 {},.call (.send [104]),.move 1 {},.move 1 {},
    .move 1 {},.move 1 {},.move 1 {},.move 1 {},.move 1 {},.move 1 {},.move 1 {},.move 0 {},.move 0 {}]

theorem lateSend_lost :
    (Machine.runs step (connectedClient false) lateSend).shared.closing = some (.flushed, 1) ∧
      (Machine.runs step (connectedClient false) lateSend).shared.accepted = [[104]] ∧
      (Machine.runs step (connectedClient false) lateSend).shared.written = [] := by
  decide

end Decisions

end FastNet.TcpClient
