import FastNet.TcpServerSend

/-!
The bytes that a session of `TcpServer` writes, and the close that waits for them.
-/

namespace FastNet.TcpServer

open List Move TcpServer Session Nat

section Writes

variable {tls : Bool} {env : Env}

namespace FileSend

variable {f g : FileSend}

theorem remainingFileBytes_eq (f : FileSend) : f.remainingFileBytes = f.fileLength-f.fileBytesSent := by
  unfold remainingFileBytes
  split <;> omega

def rest (f : FileSend) : Bytes := f.ahead f.remainingFileBytes

/-- The range is in the file, and the staging buffer holds what comes next. -/
structure Valid (f : FileSend) : Prop where
  range : f.fileOffset+f.fileLength ≤ f.content.length
  sent : f.fileBytesSent ≤ f.fileLength
  staged : f.stagingBuffer.drop f.stagingOffset <+: f.rest
  direct : f.directSendEligible = true → f.stagingBuffer = []

theorem Valid.rest_length (h : f.Valid) : f.rest.length = f.remainingFileBytes := by
  have hrange := h.range
  have hsent := h.sent
  rw [rest,ahead,length_take,length_drop,remainingFileBytes_eq]
  omega

theorem ahead_front {size : Nat} (h : size ≤ f.remainingFileBytes) : f.ahead size <+: f.rest :=
  take_prefix_take_left h

/-- `g` is `f` behind some bytes more of the range. -/
structure Follows (f g : FileSend) (sent : Bytes) : Prop where
  content : g.content = f.content
  offset : g.fileOffset = f.fileOffset
  length : g.fileLength = f.fileLength
  bytes : g.fileBytesSent = f.fileBytesSent+sent.length

theorem Follows.rest {sent : Bytes} (h : Follows f g sent) (hsent : sent <+: f.rest) : f.rest = sent ++ g.rest := by
  have hdrop : g.rest = f.rest.drop sent.length := by
    rw [FileSend.rest,FileSend.rest,ahead,ahead,h.content,h.offset,h.bytes,remainingFileBytes_eq,
      remainingFileBytes_eq,h.length,h.bytes,drop_take,drop_drop,Nat.sub_sub,Nat.add_assoc]
  rw [hdrop]
  exact (prefix_iff_eq_append.mp hsent).symm

theorem Follows.range {sent : Bytes} (h : Follows f g sent) (hvalid : f.Valid) (hsent : sent <+: f.rest) :
    g.fileOffset+g.fileLength ≤ g.content.length ∧ g.fileBytesSent ≤ g.fileLength := by
  have hlen := hsent.length_le
  rw [hvalid.rest_length,remainingFileBytes_eq] at hlen
  have hle := hvalid.sent
  refine ⟨?_,?_⟩
  · rw [h.offset,h.length,h.content]
    exact hvalid.range
  · rw [h.bytes,h.length]
    omega

theorem stage_follows (f : FileSend) (read : Option Nat) : Follows f (f.stage read).1 [] := by
  simp only [stage]
  split
  · split <;> exact ⟨rfl,rfl,rfl,rfl⟩
  · exact ⟨rfl,rfl,rfl,rfl⟩

theorem stage_direct (f : FileSend) (read : Option Nat) :
    (f.stage read).1.directSendEligible = f.directSendEligible := by
  simp only [stage]
  split
  · split <;> rfl
  · rfl

theorem Valid.stage (h : f.Valid) (hstag : f.directSendEligible = false) (read : Option Nat) :
    (f.stage read).1.Valid := by
  obtain ⟨hrange,hsent⟩ := (stage_follows f read).range h nil_prefix
  have hrest := (stage_follows f read).rest nil_prefix
  rw [nil_append] at hrest
  refine ⟨hrange,hsent,?_,fun hdir => ?_⟩
  rotate_left
  · rw [stage_direct,hstag] at hdir
    cases hdir
  rw [← hrest]
  simp only [FileSend.stage]
  split
  · split
    · exact nil_prefix
    · exact ( take_prefix _ _).trans (ahead_front (min_le_left _ _))
  · exact h.staged

theorem advance_follows (f : FileSend) (sent : Bytes) : Follows f (f.advance sent.length) sent := by
  simp only [advance]
  split <;> exact ⟨rfl,rfl,rfl,rfl⟩

theorem Valid.advance (h : f.Valid) {sent : Bytes} (hsent : sent <+: f.stagingBuffer.drop f.stagingOffset) :
    (f.advance sent.length).Valid := by
  have hfront := hsent.trans h.staged
  obtain ⟨hrange,hle⟩ := (advance_follows f sent).range h hfront
  have hdir : (f.advance sent.length).directSendEligible = true → (f.advance sent.length).stagingBuffer = [] := by
    simp only [FileSend.advance]
    split
    · exact fun _ => rfl
    · exact h.direct
  refine ⟨hrange,hle,?_,hdir⟩
  obtain ⟨more,hmore⟩ := hsent
  have hstag := h.staged
  rw [← hmore,(advance_follows f sent).rest hfront,prefix_append_right_inj] at hstag
  have hdrop : f.stagingBuffer.drop (f.stagingOffset+sent.length) = more := by
    rw [← drop_drop,← hmore,drop_left]
  simp only [FileSend.advance] at hstag ⊢
  split
  · exact nil_prefix
  · rename_i hlt
    rw [if_neg hlt] at hstag
    rw [hdrop]
    exact hstag

theorem Valid.sendDirect (h : f.Valid) (hdir : f.directSendEligible = true) {sent : Bytes}
    (hsent : sent <+: f.rest) :
    ({ f with fileBytesSent := f.fileBytesSent+sent.length } : FileSend).Valid ∧
      f.rest = sent ++ ({ f with fileBytesSent := f.fileBytesSent+sent.length } : FileSend).rest := by
  have hfol : Follows f { f with fileBytesSent := f.fileBytesSent+sent.length } sent := ⟨rfl,rfl,rfl,rfl⟩
  obtain ⟨hrange,hle⟩ := hfol.range h hsent
  refine ⟨⟨hrange,hle,?_,h.direct⟩,hfol.rest hsent⟩
  simp [h.direct hdir]

theorem Valid.sendStaged (h : f.Valid) (tls : Bool) (transfer : Transfer) :
    let result := writeTransport tls transfer (f.stagingBuffer.drop f.stagingOffset)
    (if result.1 = .ok then f.advance result.2.length else f).Valid ∧
      f.rest = result.2 ++ (if result.1 = .ok then f.advance result.2.length else f).rest := by
  intro result
  have hsent : result.2 <+: f.stagingBuffer.drop f.stagingOffset := writeTransport_front _ _ _
  by_cases hok : result.1 = .ok
  · rw [if_pos hok]
    exact ⟨h.advance hsent,(advance_follows f result.2).rest (hsent.trans h.staged)⟩
  · rw [if_neg hok,show result.2 = [] from writeTransport_not_ok hok]
    exact ⟨h,rfl⟩

end FileSend

theorem writeFilePendingSend_spec {f : FileSend} (h : f.Valid) (tls : Bool) (env : Env) :
    (writeFilePendingSend tls env f).1.Valid ∧
      f.rest = (writeFilePendingSend tls env f).2.2 ++ (writeFilePendingSend tls env f).1.rest := by
  by_cases hdone : f.remainingFileBytes = 0
  · rw [writeFilePendingSend,if_pos hdone]
    exact ⟨h,rfl⟩
  · cases hdir : f.directSendEligible with
    | true =>
      rw [writeFilePendingSend,if_neg hdone,if_pos hdir]
      cases env.transfer with
      | sent n =>
        simp only
        split
        · exact ⟨h,rfl⟩
        · exact h.sendDirect hdir (( take_prefix _ _).trans (FileSend.ahead_front (min_le_left _ _)))
      | wouldBlock wantRead => exact ⟨h,rfl⟩
      | failed => exact ⟨h,rfl⟩
    | false =>
      simp only [writeFilePendingSend,hdone,hdir,if_false,Bool.false_eq_true]
      have hvalid := h.stage hdir env.fileRead
      have hrest := (FileSend.stage_follows f env.fileRead).rest nil_prefix
      rw [nil_append] at hrest
      rw [hrest]
      cases hstage : f.stage env.fileRead with
      | mk f' filled =>
        rw [hstage] at hvalid
        cases filled with
        | false => exact ⟨hvalid,rfl⟩
        | true => exact hvalid.sendStaged tls env.transfer

namespace PendingSend

def rest : PendingSend → Bytes
  | .buffer payload bufferOffset => payload.drop bufferOffset
  | .file f => f.rest

def Valid : PendingSend → Prop
  | .buffer _ _ => True
  | .file f => f.Valid

theorem rest_of_complete {send : PendingSend} (h : send.isComplete = true) : send.rest = [] := by
  cases send with
  | buffer payload bufferOffset => exact drop_eq_nil_of_le (of_decide_eq_true h)
  | file f =>
    have hle : f.fileLength ≤ f.fileBytesSent := of_decide_eq_true h
    rw [rest,FileSend.rest,FileSend.remainingFileBytes_eq,Nat.sub_eq_zero_of_le hle]
    exact take_zero

end PendingSend

theorem writePendingSend_spec {send : PendingSend} (h : send.Valid) (tls : Bool) (env : Env) :
    (writePendingSend tls env send).1.Valid ∧
      send.rest = (writePendingSend tls env send).2.2 ++ (writePendingSend tls env send).1.rest := by
  cases send with
  | buffer payload bufferOffset =>
    simp only [writePendingSend]
    split
    · exact ⟨trivial,rfl⟩
    · refine ⟨trivial,?_⟩
      by_cases hok : (writeTransport tls env.transfer (payload.drop bufferOffset)).1 = .ok
      · simp only [hok,if_true,PendingSend.rest]
        rw [← drop_drop]
        exact (prefix_iff_eq_append.mp (writeTransport_front _ _ _)).symm
      · simp only [hok,if_false,PendingSend.rest,writeTransport_not_ok hok,nil_append]
  | file f => exact writeFilePendingSend_spec h tls env

end Writes

section Session

variable {s s' : Session} {env : Env} {m : Move} {next : List Move} {others pending : Multiset Move}

/-- The moves of a thread that runs `runQueuedFlush`. -/
def Move.flushes : Move → Bool
  | .flush | .drain | .look | .front _ | .discard _ | .write _ | .settle _ | .finish _ | .leave => true
  | _ => false

/-- The entries of the queue are sound, and with what has been written they make up what has
been accepted. -/
structure Sound (s : Session) : Prop where
  entries : ∀ e ∈ s.sendQueue, e.1.Valid
  numbers : (s.sendQueue.map Prod.snd).Nodup
  fresh : ∀ e ∈ s.sendQueue, e.2 < s.nextEntry
  stream : s.written ++ s.sendQueue.flatMap (fun e => e.1.rest) = s.accepted.flatten
  asked : s.asked ≤ s.accepted.length

/-- The first `n` payloads have been written. -/
def Session.Through (s : Session) (n : Nat) : Prop :=
  n ≤ s.accepted.length ∧ (s.accepted.take n).flatten <+: s.written

def Fresh (entries : List PendingSend) : Prop := ∀ send ∈ entries, send.Valid ∧ send.rest = send.payload

def Move.Relies (s : Session) : Move → Prop
  | .enqueue entries => Fresh entries
  | .front i | .settle i => ∃ send rest, s.sendQueue = (send,i) :: rest
  | .discard i => ∃ send rest, s.sendQueue = (send,i) :: rest ∧ send.isComplete = true
  | .write i => ∃ send rest, s.sendQueue = (send,i) :: rest ∧ send.isComplete = false
  | .close (.flushed n) => s.Through n
  | .unready | .clearQueuesAndWaits | .closeSocket => False
  | _ => True

def flushers (pending : Multiset Move) : Nat := pending.countP (fun m => m.flushes = true)

structure Running (s : Session) (pending : Multiset Move) : Prop where
  sound : Sound s
  flusher : flushers pending = if s.flushRunning then 1 else 0
  relies : ∀ m ∈ pending, m.Relies s

structure Grows (s s' : Session) : Prop where
  accepted : s.accepted <+: s'.accepted
  written : s.written <+: s'.written

theorem Session.Through.grows {n : Nat} (h : s.Through n) (hgrows : Grows s s') : s'.Through n := by
  obtain ⟨more,hmore⟩ := hgrows.accepted
  refine ⟨le_trans h.1 hgrows.accepted.length_le,?_⟩
  rw [← hmore,take_append_of_le_length h.1]
  exact h.2.trans hgrows.written

/-- The sessions differ in their flags only, which say nothing about bytes. -/
structure Flags (s s' : Session) : Prop where
  sendQueue : s'.sendQueue = s.sendQueue
  nextEntry : s'.nextEntry = s.nextEntry
  accepted : s'.accepted = s.accepted
  written : s'.written = s.written

theorem Flags.grows (h : Flags s s') : Grows s s' := ⟨h.accepted ▸ prefix_refl _,h.written ▸ prefix_refl _⟩

theorem grows_refl (s : Session) : Grows s s := ⟨prefix_refl _,prefix_refl _⟩

theorem Grows.trans {s'' : Session} (h : Grows s s') (h' : Grows s' s'') : Grows s s'' :=
  ⟨h.accepted.trans h'.accepted,h.written.trans h'.written⟩

theorem flags_dispatchFlush (s : Session) : Flags s s.dispatchFlush.1 := by
  simp only [dispatchFlush,markFlushScheduledLocked]
  split
  · exact ⟨rfl,rfl,rfl,rfl⟩
  · split <;> exact ⟨rfl,rfl,rfl,rfl⟩

theorem flags_closeIfFlushed (s : Session) (otherwise : List Move) : Flags s (s.closeIfFlushed otherwise).1 := by
  simp only [closeIfFlushed]
  split <;> exact ⟨rfl,rfl,rfl,rfl⟩

theorem popFront_same (s : Session) (i : Nat) (done : PendingSend → Bool) :
    ∃ rest, s.popFront i done = { s with sendQueue := rest } := by
  unfold popFront
  split
  · split
    · exact ⟨_,rfl⟩
    · exact ⟨_,rfl⟩
  · exact ⟨_,rfl⟩

theorem grows_popFront (s : Session) (i : Nat) (done : PendingSend → Bool) : Grows s (s.popFront i done) := by
  obtain ⟨rest,hrest⟩ := popFront_same s i done
  exact hrest ▸ ⟨prefix_refl _,prefix_refl _⟩

theorem perform_grows (s : Session) (env : Env) (m : Move) : Grows s (perform s env m).1 := by
  have hflags (s' : Session) (ha : s'.accepted = s.accepted) (hw : s'.written = s.written) : Grows s s' :=
    ⟨ha ▸ prefix_refl _,hw ▸ prefix_refl _⟩
  cases m with
  | enqueue entries =>
    have hpush : Grows s { s with
        sendQueue := s.sendQueue ++ entries.zipIdx s.nextEntry, nextEntry := s.nextEntry+entries.length,
        accepted := s.accepted ++ [entries.flatMap PendingSend.payload] }.refreshInterestLocked :=
      ⟨prefix_append _ _,prefix_refl _⟩
    exact hpush.trans (flags_dispatchFlush _).grows
  | schedule => exact (flags_dispatchFlush s).grows
  | discard i => exact (grows_popFront s i _).trans (flags_closeIfFlushed _ _).grows
  | settle i => exact (grows_popFront s i _).trans (flags_closeIfFlushed _ _).grows
  | look =>
    simp only [perform]
    split
    · have hwait : Grows s { s with writeWait := .none } := hflags _ rfl rfl
      exact hwait.trans (flags_closeIfFlushed _ _).grows
    · exact grows_refl s
  | write i =>
    simp only [perform]
    split
    · exact ⟨prefix_refl _,prefix_append _ _⟩
    · exact ⟨prefix_refl _,prefix_append _ _⟩
  | setReadWait wait => exact hflags _ rfl rfl
  | setWriteWait wait => exact hflags _ rfl rfl
  | closeAfterPendingWrites =>
    simp only [perform]
    split <;> exact hflags _ rfl rfl
  | _ =>
    simp only [perform]
    grind

theorem Move.Relies.grows (h : m.Relies s) (hm : m.flushes = false) (hgrows : Grows s s') : m.Relies s' := by
  cases m with
  | close cause =>
    cases cause with
    | flushed n => exact Session.Through.grows h hgrows
    | _ => trivial
  | enqueue entries => exact h
  | unready => exact h
  | clearQueuesAndWaits => exact h
  | closeSocket => exact h
  | front i => cases hm
  | discard i => cases hm
  | write i => cases hm
  | settle i => cases hm
  | _ => trivial

theorem Move.Relies.front_stays (h : m.Relies s) (hgrows : Grows s s')
    (hfront : ∀ send i rest, s.sendQueue = (send,i) :: rest → ∃ rest', s'.sendQueue = (send,i) :: rest') :
    m.Relies s' := by
  cases m with
  | front i =>
    obtain ⟨send,rest,hqueue⟩ := h
    exact ⟨send,hfront _ _ _ hqueue⟩
  | settle i =>
    obtain ⟨send,rest,hqueue⟩ := h
    exact ⟨send,hfront _ _ _ hqueue⟩
  | discard i =>
    obtain ⟨send,rest,hqueue,hcom⟩ := h
    obtain ⟨rest',hqueue'⟩ := hfront _ _ _ hqueue
    exact ⟨send,rest',hqueue',hcom⟩
  | write i =>
    obtain ⟨send,rest,hqueue,hcom⟩ := h
    obtain ⟨rest',hqueue'⟩ := hfront _ _ _ hqueue
    exact ⟨send,rest',hqueue',hcom⟩
  | flush => trivial
  | drain => trivial
  | look => trivial
  | finish outcome => trivial
  | leave => trivial
  | _ => exact h.grows rfl hgrows

theorem flushers_cons (m : Move) (others : Multiset Move) :
    flushers (m ::ₘ others) = flushers others+(if m.flushes then 1 else 0) :=
  Multiset.countP_cons _ _ _

theorem flushers_add (next : List Move) (others : Multiset Move) :
    flushers (next + others) = next.countP flushes+flushers others := by
  rw [flushers,Multiset.countP_add,Multiset.coe_countP]
  simp [flushers]

theorem relies_add (hnext : ∀ m' ∈ next, m'.Relies s) (hoth : ∀ m' ∈ others, m'.Relies s) :
    ∀ m' ∈ (next : Multiset Move) + others, m'.Relies s := by
  intro m' hm'
  rcases Multiset.mem_add.mp hm' with hm' | hm'
  · exact hnext m' hm'
  · exact hoth m' hm'

section

variable (h : Running s (m ::ₘ others))
include h

theorem Running.flusher_alone (hm : m.flushes = true) :
    s.flushRunning = true ∧ flushers others = 0 := by
  have hcount := h.flusher
  rw [flushers_cons,hm,if_pos rfl] at hcount
  cases hrun : s.flushRunning with
  | true =>
    rw [hrun,if_pos rfl] at hcount
    exact ⟨rfl,by omega⟩
  | false =>
    rw [hrun] at hcount
    simp at hcount

theorem Running.flusher_move (hm : m.flushes = true) (hsound : Sound s')
    (hgrows : Grows s s') (hcount : next.countP flushes = if s'.flushRunning then 1 else 0)
    (hnext : ∀ m' ∈ next, m'.Relies s') : Running s' (next + others) := by
  obtain ⟨-,hnone⟩ := h.flusher_alone hm
  refine ⟨hsound,?_,relies_add hnext (fun m' hm' => ?_)⟩
  · rw [flushers_add,hnone,add_zero,hcount]
  · have hother : ¬ m'.flushes = true := Multiset.countP_eq_zero.mp hnone m' hm'
    exact (h.relies m' (Multiset.mem_cons_of_mem hm')).grows (by simpa using hother) hgrows

theorem Running.other_move (hm : m.flushes = false) (hsound : Sound s')
    (hgrows : Grows s s')
    (hfront : ∀ send i rest, s.sendQueue = (send,i) :: rest → ∃ rest', s'.sendQueue = (send,i) :: rest')
    (hcount : next.countP flushes+(if s.flushRunning then 1 else 0) = if s'.flushRunning then 1 else 0)
    (hnext : ∀ m' ∈ next, m'.Relies s') : Running s' (next + others) := by
  refine ⟨hsound,?_,relies_add hnext (fun m' hm' => ?_)⟩
  · have hbef := h.flusher
    rw [flushers_cons,hm,if_neg Bool.false_ne_true,add_zero] at hbef
    rw [flushers_add,hbef,hcount]
  · exact (h.relies m' (Multiset.mem_cons_of_mem hm')).front_stays hgrows hfront

end

theorem Sound.flags (h : Sound s) (hflags : Flags s s') (hasked : s'.asked ≤ s'.accepted.length) : Sound s' := by
  obtain ⟨hqueue,hnext,hacc,hwrit⟩ := hflags
  refine ⟨?_,?_,?_,?_,hasked⟩
  · rw [hqueue]
    exact h.entries
  · rw [hqueue]
    exact h.numbers
  · rw [hqueue,hnext]
    exact h.fresh
  · rw [hwrit,hqueue,hacc]
    exact h.stream

theorem Running.flusher_flags (h : Running s (m ::ₘ others)) (hm : m.flushes = true) (hflags : Flags s s')
    (hasked : s'.asked = s.asked) (hcount : next.countP flushes = if s'.flushRunning then 1 else 0)
    (hnext : ∀ m' ∈ next, m'.Relies s') : Running s' (next + others) := by
  refine h.flusher_move hm (h.sound.flags hflags ?_) hflags.grows hcount hnext
  rw [hasked,hflags.accepted]
  exact h.sound.asked

theorem Running.other_flags (h : Running s (m ::ₘ others)) (hm : m.flushes = false) (hflags : Flags s s')
    (hasked : s'.asked ≤ s'.accepted.length)
    (hcount : next.countP flushes+(if s.flushRunning then 1 else 0) = if s'.flushRunning then 1 else 0)
    (hnext : ∀ m' ∈ next, m'.Relies s') : Running s' (next + others) :=
  h.other_move hm (h.sound.flags hflags hasked) hflags.grows
    (fun _ _ rest hqueue => ⟨rest,hflags.sendQueue.trans hqueue⟩) hcount hnext

theorem sound_popFront (h : Sound s) {i : Nat} {done : PendingSend → Bool}
    (hdone : ∀ send rest, s.sendQueue = (send,i) :: rest → done send = true → send.isComplete = true) :
    Sound (s.popFront i done) := by
  unfold popFront
  cases hqueue : s.sendQueue with
  | nil => exact h
  | cons e rest =>
    obtain ⟨send,j⟩ := e
    by_cases hpop : (j = i && done send) = true
    · simp only [hpop,if_true]
      simp only [Bool.and_eq_true,decide_eq_true_eq] at hpop
      have hempty := PendingSend.rest_of_complete (hdone send rest (hpop.1 ▸ hqueue) hpop.2)
      have hent := h.entries
      have hnum := h.numbers
      have hfresh := h.fresh
      have hstr := h.stream
      rw [hqueue] at hent hnum hfresh hstr
      refine ⟨fun e he => hent e (mem_cons_of_mem _ he),(nodup_cons.mp hnum).2,
        fun e he => hfresh e (mem_cons_of_mem _ he),?_,h.asked⟩
      rw [flatMap_cons,hempty,nil_append] at hstr
      exact hstr
    · simp only [hpop,if_false,Bool.false_eq_true]
      exact h

theorem Sound.through (h : Sound s) (hempty : s.sendQueue = []) {n : Nat} (hn : n ≤ s.accepted.length) :
    s.Through n := by
  refine ⟨hn,?_⟩
  have hstr := h.stream
  rw [hempty,flatMap_nil,append_nil] at hstr
  rw [hstr]
  exact ( take_prefix _ _).flatten

theorem Running.closeIfFlushed (h : Running s (m ::ₘ others)) (hm : m.flushes = true) (hsound : Sound s')
    (hgrows : Grows s s') (hrun : s'.flushRunning = true) {m' : Move} (hm' : m'.flushes = true)
    (hrel : ∀ s, m'.Relies s) :
    Running (s'.closeIfFlushed [m']).1 ((s'.closeIfFlushed [m']).2 + others) := by
  have hflags := flags_closeIfFlushed s' [m']
  have hasked : (s'.closeIfFlushed [m']).1.asked ≤ (s'.closeIfFlushed [m']).1.accepted.length := by
    rw [hflags.accepted]
    unfold Session.closeIfFlushed
    split <;> exact hsound.asked
  refine h.flusher_move hm (hsound.flags hflags hasked) (hgrows.trans hflags.grows) ?_ ?_
  · unfold Session.closeIfFlushed
    split
    · simp [Session.refreshInterestLocked,hrun,flushes]
    · simp [Session.refreshInterestLocked,hrun,hm']
  · unfold Session.closeIfFlushed
    split
    · rename_i hflus
      simp only [Bool.and_eq_true,List.isEmpty_iff] at hflus
      simp only [List.mem_cons,List.not_mem_nil,or_false]
      rintro m' (rfl | rfl)
      · exact hsound.through hflus.1 hsound.asked
      · trivial
    · simp only [List.mem_singleton]
      rintro m' rfl
      exact hrel _

theorem fresh_buffer (data : Bytes) : Fresh [.buffer data 0] := by
  intro send hsend
  rw [mem_singleton.mp hsend]
  exact ⟨trivial,drop_zero⟩

theorem fresh_fileEntries {tls : Bool} {ownedPrefix : Bytes} {file : Option Bytes} {offset length : Nat}
    {entries : List PendingSend} (h : fileEntries tls ownedPrefix file offset length = some entries) :
    Fresh entries := by
  cases file with
  | none => cases h
  | some content =>
    simp only [fileEntries] at h
    split at h
    · cases h
    · rename_i hoff
      generalize (if length = 0 then content.length-offset else length) = fileLength at h
      split at h
      · cases h
      · rename_i hlen
        rw [← Option.some.inj h]
        intro send hsend
        rcases mem_append.mp hsend with hsend | hsend
        · split at hsend
          · cases hsend
          · exact fresh_buffer ownedPrefix send hsend
        · split at hsend
          · cases hsend
          · rw [mem_singleton.mp hsend]
            refine ⟨⟨?_,zero_le _, nil_prefix,fun _ => rfl⟩,?_⟩
            · show offset+fileLength ≤ content.length
              omega
            · show FileSend.rest _ = _
              rw [FileSend.rest,FileSend.remainingFileBytes_eq]
              rfl

theorem sound_enqueue (h : Sound s) {entries : List PendingSend} (hent : Fresh entries) :
    Sound { s with
      sendQueue := s.sendQueue ++ entries.zipIdx s.nextEntry, nextEntry := s.nextEntry+entries.length,
      accepted := s.accepted ++ [entries.flatMap PendingSend.payload] } := by
  have hmem (e : PendingSend × Nat) (he : e ∈ entries.zipIdx s.nextEntry) :
      e.1 ∈ entries ∧ s.nextEntry ≤ e.2 ∧ e.2 < s.nextEntry+entries.length := by
    obtain ⟨hle,hlt,hget⟩ := mem_zipIdx he
    exact ⟨hget ▸ getElem_mem _,hle,hlt⟩
  have hnum : (entries.zipIdx s.nextEntry).map Prod.snd = range' s.nextEntry entries.length :=
    zipIdx_map_snd _ _
  have hpay : (entries.zipIdx s.nextEntry).flatMap (fun e => e.1.rest) = entries.flatMap PendingSend.payload := by
    have hrest : (entries.zipIdx s.nextEntry).flatMap (fun e => e.1.rest) =
        ((entries.zipIdx s.nextEntry).map Prod.fst).flatMap PendingSend.rest := by
      rw [flatMap_map]
    rw [hrest,zipIdx_map_fst]
    exact flatMap_congr (fun send hsend => (hent send hsend).2)
  refine ⟨fun e he => ?_,?_,fun e he => ?_,?_,?_⟩
  · rcases mem_append.mp he with he | he
    · exact h.entries e he
    · exact (hent e.1 (hmem e he).1).1
  · rw [map_append,hnum]
    refine List.Nodup.append h.numbers nodup_range' (fun i hi hi' => ?_)
    obtain ⟨e,he,rfl⟩ := mem_map.mp hi
    have hlt := h.fresh e he
    have hle := (mem_range'_1.mp hi').1
    omega
  · rcases mem_append.mp he with he | he
    · exact Nat.lt_add_right _ (h.fresh e he)
    · exact (hmem e he).2.2
  · show s.written ++ _ = _
    rw [flatMap_append,hpay,← append_assoc,h.stream]
    simp
  · rw [length_append]
    exact Nat.le_add_right_of_le h.asked

theorem dispatchFlush_running (hclos : s.closing = none) (h : s.flushRunning = true) :
    s.dispatchFlush = ({ s with flushReschedule := true },[]) := by
  rw [dispatchFlush,markFlushScheduledLocked,if_neg (by simp [hclos]),if_pos h]
  rfl

theorem dispatchFlush_idle (hclos : s.closing = none) (h : s.flushRunning = false) :
    s.dispatchFlush = ({ s with flushRunning := true, flushReschedule := false },[.flush]) := by
  rw [dispatchFlush,markFlushScheduledLocked,if_neg (by simp [hclos]),if_neg (by simp [h])]
  rfl

theorem Running.dispatchFlush (h : Running s (m ::ₘ others)) (hm : m.flushes = false) (hclos : s'.closing = none)
    (hflus : s'.flushRunning = s.flushRunning) (hsound : Sound s') (hgrows : Grows s s')
    (hfront : ∀ send i rest, s.sendQueue = (send,i) :: rest → ∃ rest', s'.sendQueue = (send,i) :: rest') :
    Running s'.dispatchFlush.1 (s'.dispatchFlush.2 + others) := by
  cases hrun : s'.flushRunning with
  | true =>
    rw [dispatchFlush_running hclos hrun]
    refine h.other_move hm (hsound.flags ⟨rfl,rfl,rfl,rfl⟩ hsound.asked) ⟨hgrows.accepted,hgrows.written⟩ hfront
      ?_ (by simp)
    simp [← hflus,hrun]
  | false =>
    rw [dispatchFlush_idle hclos hrun]
    refine h.other_move hm (hsound.flags ⟨rfl,rfl,rfl,rfl⟩ hsound.asked) ⟨hgrows.accepted,hgrows.written⟩ hfront
      ?_ (by simp [Move.Relies])
    simp [← hflus,hrun,flushes]

theorem Running.popFront (h : Running s (m ::ₘ others)) (hm : m.flushes = true) {i : Nat} {done : PendingSend → Bool}
    (hdone : ∀ send rest, s.sendQueue = (send,i) :: rest → done send = true → send.isComplete = true) :
    Running ((s.popFront i done).closeIfFlushed [.drain]).1 (((s.popFront i done).closeIfFlushed [.drain]).2 + others) := by
  have hrun : (s.popFront i done).flushRunning = true := by
    obtain ⟨rest,hrest⟩ := popFront_same s i done
    rw [hrest]
    exact (h.flusher_alone hm).1
  exact h.closeIfFlushed hm (sound_popFront h.sound hdone) (grows_popFront s i done) hrun rfl (fun _ => trivial)

section Front

variable {send : PendingSend} {i : Nat} {rest : List (PendingSend × Nat)}

theorem entry_front (hqueue : s.sendQueue = (send,i) :: rest) : s.entry i = some send := by
  simp [entry,hqueue]

theorem setEntry_front (h : Sound s) (hqueue : s.sendQueue = (send,i) :: rest) (send' : PendingSend) :
    s.setEntry i send' = { s with sendQueue := (send',i) :: rest } := by
  have hnum := h.numbers
  rw [hqueue,map_cons,nodup_cons] at hnum
  have hrest : rest.map (fun e => if e.2 = i then (send',i) else e) = rest := by
    refine (map_congr_left (fun e he => ?_)).trans (map_id rest)
    have hne : e.2 ≠ i := fun heq => hnum.1 (mem_map.mpr ⟨e,he,heq⟩)
    simp [hne]
  simp only [setEntry,hqueue,map_cons,if_true,hrest]

theorem sound_write (h : Sound s) (hqueue : s.sendQueue = (send,i) :: rest) (tls : Bool) (env : Env) :
    Sound { s with
      sendQueue := ((writePendingSend tls env send).1,i) :: rest,
      written := s.written ++ (writePendingSend tls env send).2.2 } := by
  have hent := h.entries
  have hnum := h.numbers
  have hfresh := h.fresh
  have hstr := h.stream
  rw [hqueue] at hent hnum hfresh hstr
  obtain ⟨hvalid,hrest⟩ := writePendingSend_spec (hent (send,i) mem_cons_self) tls env
  refine ⟨fun e he => ?_,hnum,fun e he => ?_,?_,h.asked⟩
  · rcases mem_cons.mp he with rfl | he
    · exact hvalid
    · exact hent e (mem_cons_of_mem _ he)
  · rcases mem_cons.mp he with rfl | he
    · exact hfresh (send,i) mem_cons_self
    · exact hfresh e (mem_cons_of_mem _ he)
  · rw [flatMap_cons,hrest] at hstr
    rw [← hstr,flatMap_cons,append_assoc,append_assoc]

theorem Running.write (h : Running s (m ::ₘ others)) (hm : m.flushes = true)
    (hqueue : s.sendQueue = (send,i) :: rest) (tls : Bool) (env : Env) :
    Running { s with
      sendQueue := ((writePendingSend tls env send).1,i) :: rest,
      written := s.written ++ (writePendingSend tls env send).2.2 }
      (writeMoves i (writePendingSend tls env send).2.1 + others) := by
  obtain ⟨hrun,-⟩ := h.flusher_alone hm
  refine h.flusher_move hm (sound_write h.sound hqueue tls env) ⟨prefix_refl _,prefix_append _ _⟩ ?_ ?_
  · cases (writePendingSend tls env send).2.1 <;> simp [writeMoves,flushes,hrun]
  · cases (writePendingSend tls env send).2.1 <;> simp [writeMoves,Move.Relies]

end Front

theorem Running.go_on (h : Running s (m ::ₘ others)) (hm : m.flushes = true) {m' : Move} (hm' : m'.flushes = true)
    (hrel : m'.Relies s) : Running s (([m'] : List Move) + others) := by
  obtain ⟨hrun,-⟩ := h.flusher_alone hm
  refine h.flusher_move hm h.sound (grows_refl s) ?_ ?_
  · simp [hrun,hm']
  · simp only [mem_singleton]
    rintro m' rfl
    exact hrel

theorem Running.call_on (h : Running s (m ::ₘ others)) (hm : m.flushes = false)
    (hnext : ∀ m' ∈ next, m'.flushes = false ∧ m'.Relies s) : Running s (next + others) := by
  refine h.other_move hm h.sound (grows_refl s) (fun _ _ rest hqueue => ⟨rest,hqueue⟩) ?_ (fun m' hm' => (hnext m' hm').2)
  rw [countP_eq_zero.mpr (fun m' hm' => by simp [(hnext m' hm').1]),zero_add]

theorem dispatchFlush_closing (s : Session) : s.dispatchFlush.1.closing = s.closing := by
  simp only [dispatchFlush,markFlushScheduledLocked]
  split
  · rfl
  · split <;> rfl

theorem closeIfFlushed_closing (s : Session) (otherwise : List Move) :
    (s.closeIfFlushed otherwise).1.closing = s.closing := by
  simp only [closeIfFlushed]
  split <;> rfl

theorem popFront_closing (s : Session) (i : Nat) (done : PendingSend → Bool) (otherwise : List Move) :
    ((s.popFront i done).closeIfFlushed otherwise).1.closing = s.closing := by
  obtain ⟨rest,hrest⟩ := popFront_same s i done
  rw [hrest,closeIfFlushed_closing]

theorem perform_closing (s : Session) (env : Env) (m : Move) :
    (perform s env m).1.closing = s.closing ∨
      ∃ cause, m = .close cause ∧ s.closing = none ∧ (perform s env m).1.closing = some cause := by
  cases m with
  | close cause =>
    cases hclos : s.closing with
    | none => exact .inr ⟨cause,rfl,rfl,by simp [perform,hclos]⟩
    | some cause' => exact .inl (by simp [perform,hclos])
  | enqueue entries => exact .inl (dispatchFlush_closing _)
  | schedule => exact .inl (dispatchFlush_closing _)
  | discard i => exact .inl (popFront_closing s i _ _)
  | settle i => exact .inl (popFront_closing s i _ _)
  | look =>
    refine .inl ?_
    simp only [perform]
    split
    · exact closeIfFlushed_closing _ _
    · rfl
  | setReadWait wait => exact .inl rfl
  | setWriteWait wait => exact .inl rfl
  | closeAfterPendingWrites =>
    refine .inl ?_
    simp only [perform]
    split <;> rfl
  | write i =>
    refine .inl ?_
    simp only [perform]
    split <;> rfl
  | _ => exact .inl (by grind [perform])

theorem Running.perform (h : Running s (m ::ₘ others)) (hclos : s.closing = none)
    (hcl : (perform s env m).1.closing = none) :
    Running (perform s env m).1 ((perform s env m).2 + others) := by
  have hrel : m.Relies s := h.relies m (Multiset.mem_cons_self m others)
  have hgrows := perform_grows s env m
  cases m with
  | send data =>
    simp only [perform]
    split
    · exact h.call_on rfl (by simp)
    · split
      · exact h.call_on rfl (by simp)
      · exact h.call_on rfl (by simpa [flushes,Move.Relies] using fresh_buffer data)
  | sendFile ownedPrefix file offset length =>
    simp only [perform]
    split
    · exact h.call_on rfl (by simp)
    · split
      · exact h.call_on rfl (by simp)
      · exact h.call_on rfl (by simp)
      · rename_i entries _ hent
        exact h.call_on rfl (by simpa [flushes,Move.Relies] using fresh_fileEntries hent)
  | enqueue entries =>
    have hsound := sound_enqueue h.sound hrel
    refine h.dispatchFlush rfl hclos rfl (hsound.flags ⟨rfl,rfl,rfl,rfl⟩ hsound.asked)
      ⟨prefix_append _ _,prefix_refl _⟩ ?_
    · intro send i rest hqueue
      have hpus : s.sendQueue ++ entries.zipIdx s.nextEntry = (send,i) :: (rest ++ entries.zipIdx s.nextEntry) := by
        rw [hqueue,cons_append]
      exact ⟨_,hpus⟩
  | handleRead =>
    rw [perform,if_pos hclos]
    exact h.call_on rfl (by simp [flushes,Move.Relies])
  | receive =>
    simp only [perform]
    refine h.call_on rfl ?_
    cases (if s.socketOpen then env.receive else .failed) with
    | bytes full => cases full <;> simp [readMoves,flushes,Move.Relies]
    | _ => simp [readMoves,flushes,Move.Relies]
  | setReadWait wait =>
    exact h.other_flags rfl ⟨rfl,rfl,rfl,rfl⟩ h.sound.asked (zero_add _) (by simp [perform])
  | setWriteWait wait =>
    exact h.other_flags rfl ⟨rfl,rfl,rfl,rfl⟩ h.sound.asked (zero_add _) (by simp [perform])
  | handleWrite =>
    rw [perform,if_pos hclos]
    exact h.call_on rfl (by simp [flushes,Move.Relies])
  | schedule =>
    exact h.dispatchFlush rfl hclos rfl h.sound (grows_refl s) (fun _ _ rest hqueue => ⟨rest,hqueue⟩)
  | flush =>
    cases hready : s.ready with
    | true =>
      rw [perform,if_pos hready]
      exact h.go_on rfl rfl trivial
    | false =>
      rw [perform,if_neg (by simp [hready])]
      exact h.go_on rfl rfl trivial
  | drain =>
    cases hready : s.ready with
    | true =>
      rw [perform,if_pos hready]
      exact h.go_on rfl rfl trivial
    | false =>
      rw [perform,if_neg (by simp [hready])]
      exact h.go_on rfl rfl trivial
  | look =>
    simp only [perform]
    split
    · have hflags : Flags s { s with writeWait := .none } := ⟨rfl,rfl,rfl,rfl⟩
      exact h.closeIfFlushed rfl (h.sound.flags hflags h.sound.asked) hflags.grows (h.flusher_alone rfl).1 rfl
        (fun _ => trivial)
    · rename_i send i rest hqueue
      exact h.go_on rfl rfl ⟨send,rest,hqueue⟩
  | front i =>
    obtain ⟨send,rest,hqueue⟩ := hrel
    simp only [perform,entry_front hqueue]
    cases hcom : send.isComplete with
    | true => exact h.go_on rfl rfl ⟨send,rest,hqueue,hcom⟩
    | false => exact h.go_on rfl rfl ⟨send,rest,hqueue,hcom⟩
  | discard i =>
    obtain ⟨send,rest,hqueue,hcom⟩ := hrel
    refine h.popFront rfl (fun send' rest' hqueue' _ => ?_)
    rw [hqueue] at hqueue'
    injection hqueue' with hfront
    injection hfront with hsend
    rw [← hsend,hcom]
  | write i =>
    obtain ⟨send,rest,hqueue,-⟩ := hrel
    simp only [perform,entry_front hqueue,setEntry_front h.sound hqueue]
    exact h.write rfl hqueue _ _
  | settle i => exact h.popFront rfl (fun _ _ _ hcom => hcom)
  | finish outcome =>
    obtain ⟨hrun,-⟩ := h.flusher_alone rfl
    simp only [perform]
    split
    · exact h.flusher_flags rfl ⟨rfl,rfl,rfl,rfl⟩ rfl rfl (by simp)
    · split
      · exact h.flusher_flags rfl ⟨rfl,rfl,rfl,rfl⟩ rfl rfl (by simp)
      · refine h.flusher_flags rfl ⟨rfl,rfl,rfl,rfl⟩ rfl ?_ (by simp [Move.Relies])
        simp [hrun,flushes]
  | leave =>
    simp only [perform]
    exact h.flusher_flags rfl ⟨rfl,rfl,rfl,rfl⟩ rfl rfl (by simp)
  | closeAfterPendingWrites =>
    simp only [perform]
    split
    · rename_i hempty
      refine h.other_flags rfl ⟨rfl,rfl,rfl,rfl⟩ h.sound.asked (by simp [flushes]) ?_
      simp only [mem_singleton]
      rintro m' rfl
      exact h.sound.through (isEmpty_iff.mp hempty) (le_refl _)
    · exact h.other_flags rfl ⟨rfl,rfl,rfl,rfl⟩ (le_refl _) (zero_add _) (by simp)
  | close cause =>
    simp [perform,hclos] at hcl
  | _ => exact hrel.elim

structure Lasting (s : Session) (pending : Multiset Move) : Prop where
  running : s.closing = none → Running s pending
  flushed : ∀ n, s.closing = some (.flushed n) → s.Through n

theorem Lasting.call (h : Lasting s others) (entry : Entry) : Lasting s (entry.moves + others) := by
  refine ⟨fun hclos => ?_,h.flushed⟩
  have hrun := h.running hclos
  refine ⟨hrun.sound,?_,relies_add (fun m hm => ?_) hrun.relies⟩
  · rw [flushers_add,hrun.flusher]
    cases entry <;> simp [Entry.moves,flushes]
  · cases entry <;> simp_all [Entry.moves,Move.Relies]

theorem Lasting.perform (h : Lasting s (m ::ₘ others)) (env : Env) :
    Lasting (perform s env m).1 ((perform s env m).2 + others) := by
  refine ⟨fun hclos => ?_,fun n hclos => ?_⟩
  · have hcl : s.closing = none := by
      rcases perform_closing s env m with hsame | ⟨cause,-,hnone,-⟩
      · rw [← hsame,hclos]
      · exact hnone
    exact (h.running hcl).perform hcl hclos
  · refine Session.Through.grows ?_ (perform_grows s env m)
    rcases perform_closing s env m with hsame | ⟨cause,rfl,hnone,hcause⟩
    · exact h.flushed n (hsame ▸ hclos)
    · obtain rfl := Option.some.inj (hcause.symm.trans hclos)
      exact (h.running hnone).relies _ (Multiset.mem_cons_self _ _)

theorem lasting_started (tls : Bool) : Lasting (started tls).shared (started tls).pending := by
  refine ⟨fun _ => ⟨⟨?_,?_,?_,rfl,le_refl 0⟩,rfl,?_⟩,nofun⟩
  · simp [started]
  · simp [started]
  · simp [started]
  · simp [started,Threads.Pool.pending]

theorem lasting_run (tls : Bool) (events : List Event) :
    Lasting (Machine.runs step (started tls) events).shared (Machine.runs step (started tls) events).pending :=
  Threads.invariant_always (fun _ _ entry h => h.call entry) (fun _ _ env _ h => h.perform env) (lasting_started tls) events

end Session

section Calm

variable {s : Session} {env : Env} {m : Move} {others : Multiset Move} {tls : Bool}

def Env.calm (env : Env) : Bool :=
  (match env.transfer with
    | .sent n => 0 < n
    | .wouldBlock _ => true
    | .failed => false) &&
  (match env.receive with
    | .bytes _ => true
    | .wouldBlock _ => true
    | .closed => false
    | .failed => false) &&
  (match env.fileRead with
    | some n => 0 < n
    | none => false)

def Entry.calm : Entry → Bool
  | .closeAfterPendingWrites => false
  | .close => false
  | _ => true

def Move.calm : Move → Bool
  | .closeAfterPendingWrites => false
  | .close _ => false
  | _ => true

theorem writeTransport_calm (h : env.calm = true) {data : Bytes} (hdata : data ≠ []) :
    (writeTransport tls env.transfer data).1.calm = true := by
  unfold Env.calm at h
  cases htran : env.transfer with
  | sent n =>
    simp only [htran,Bool.and_eq_true,decide_eq_true_eq] at h
    have htake : data.take n ≠ [] := by
      rw [Ne,take_eq_nil_iff]
      exact fun hnil => hnil.elim (by omega) hdata
    simp [writeTransport,htake,IoStatus.calm]
  | wouldBlock wantRead => rfl
  | failed => simp [htran] at h

theorem FileSend.Valid.ahead_ne_nil {f : FileSend} (h : f.Valid) (hmore : f.remainingFileBytes ≠ 0) {size : Nat}
    (hsize : size ≠ 0) : f.ahead (min f.remainingFileBytes size) ≠ [] := by
  have hrange := h.range
  rw [FileSend.remainingFileBytes_eq] at hmore ⊢
  rw [FileSend.ahead,Ne,take_eq_nil_iff,drop_eq_nil_iff]
  omega

theorem FileSend.Valid.stage_calm {f : FileSend} (h : f.Valid) (hmore : f.remainingFileBytes ≠ 0)
    (henv : env.calm = true) :
    (f.stage env.fileRead).2 = true ∧
      (f.stage env.fileRead).1.stagingBuffer.drop (f.stage env.fileRead).1.stagingOffset ≠ [] := by
  unfold Env.calm at henv
  cases hread : env.fileRead with
  | none => simp [hread] at henv
  | some n =>
    simp only [hread,Bool.and_eq_true,decide_eq_true_eq] at henv
    have hdata : (f.ahead (min f.remainingFileBytes kBufferedFileChunkSize)).take n ≠ [] := by
      rw [Ne,take_eq_nil_iff]
      exact fun hnil => hnil.elim (by omega) (h.ahead_ne_nil hmore (by decide))
    simp only [FileSend.stage,Option.getD_some,hdata,if_false]
    split
    · exact ⟨rfl,hdata⟩
    · rename_i hstag
      refine ⟨rfl,?_⟩
      rw [Ne,drop_eq_nil_iff]
      exact hstag

theorem writeFilePendingSend_calm {f : FileSend} (h : f.Valid) (henv : env.calm = true) :
    (writeFilePendingSend tls env f).2.1.calm = true := by
  by_cases hdone : f.remainingFileBytes = 0
  · rw [writeFilePendingSend,if_pos hdone]
    rfl
  · cases hdir : f.directSendEligible with
    | true =>
      rw [writeFilePendingSend,if_neg hdone,if_pos hdir]
      have htran := henv
      unfold Env.calm at htran
      cases ht : env.transfer with
      | sent n =>
        simp only [ht,Bool.and_eq_true,decide_eq_true_eq] at htran
        have hsent : (f.ahead (min f.remainingFileBytes kDirectFileSendChunkSize)).take n ≠ [] := by
          rw [Ne,take_eq_nil_iff]
          exact fun hnil => hnil.elim (by omega) (h.ahead_ne_nil hdone (by decide))
        simp [hsent,IoStatus.calm]
      | wouldBlock wantRead => rfl
      | failed => simp [ht] at htran
    | false =>
      have hstage := h.stage_calm hdone henv
      rw [writeFilePendingSend,if_neg hdone,if_neg (by simp [hdir])]
      cases hf : f.stage env.fileRead with
      | mk f' filled =>
        rw [hf] at hstage
        obtain ⟨hfil,hdata⟩ := hstage
        simp only at hfil hdata
        rw [hfil]
        exact writeTransport_calm henv hdata

theorem writePendingSend_calm {send : PendingSend} (h : send.Valid) (henv : env.calm = true) (tls : Bool) :
    (writePendingSend tls env send).2.1.calm = true := by
  cases send with
  | buffer payload bufferOffset =>
    simp only [writePendingSend]
    split
    · rfl
    · rename_i hmore
      refine writeTransport_calm henv ?_
      rw [Ne,drop_eq_nil_iff]
      exact hmore
  | file f => exact writeFilePendingSend_calm h henv

structure Sending (s : Session) (pending : Multiset Move) : Prop where
  closing : s.closing = none
  socketOpen : s.socketOpen = true
  closeAfterFlush : s.closeAfterFlush = false
  running : Running s pending
  calm : ∀ m ∈ pending, m.calm = true

structure Quiet (s : Session) (result : Session × List Move) : Prop where
  closing : result.1.closing = s.closing
  socketOpen : result.1.socketOpen = s.socketOpen
  closeAfterFlush : result.1.closeAfterFlush = s.closeAfterFlush
  next : ∀ m ∈ result.2, m.calm = true

theorem quiet_dispatchFlush (s : Session) : Quiet s s.dispatchFlush := by
  simp only [dispatchFlush,markFlushScheduledLocked]
  split
  · exact ⟨rfl,rfl,rfl,by simp⟩
  · split <;> exact ⟨rfl,rfl,rfl,by simp [calm]⟩

theorem quiet_closeIfFlushed {s' : Session} (hclos : s'.closing = s.closing)
    (hsoc : s'.socketOpen = s.socketOpen) (hflush : s'.closeAfterFlush = s.closeAfterFlush)
    (h : s.closeAfterFlush = false) {m : Move} (hm : m.calm = true) : Quiet s (s'.closeIfFlushed [m]) := by
  have hflus : s'.closeIfFlushed [m] = (s'.refreshInterestLocked,[m]) := by
    simp [closeIfFlushed,hflush,h]
  rw [hflus]
  exact ⟨hclos,hsoc,hflush,by simpa using hm⟩

theorem quiet_popFront (h : s.closeAfterFlush = false) (i : Nat) (done : PendingSend → Bool) :
    Quiet s ((s.popFront i done).closeIfFlushed [.drain]) := by
  obtain ⟨rest,hrest⟩ := popFront_same s i done
  rw [hrest]
  refine quiet_closeIfFlushed ?_ ?_ ?_ h ?_ <;> rfl

theorem Sending.quiet (h : Sending s (m ::ₘ others)) (henv : env.calm = true) : Quiet s (perform s env m) := by
  have hrel : m.Relies s := h.running.relies m (Multiset.mem_cons_self m others)
  have hm : m.calm = true := h.calm m (Multiset.mem_cons_self m others)
  cases m with
  | enqueue entries =>
    have hquiet := quiet_dispatchFlush { s with
      sendQueue := s.sendQueue ++ entries.zipIdx s.nextEntry, nextEntry := s.nextEntry+entries.length,
      accepted := s.accepted ++ [entries.flatMap PendingSend.payload] }.refreshInterestLocked
    exact ⟨hquiet.closing,hquiet.socketOpen,hquiet.closeAfterFlush,hquiet.next⟩
  | schedule => exact quiet_dispatchFlush s
  | discard i => exact quiet_popFront h.closeAfterFlush i _
  | settle i => exact quiet_popFront h.closeAfterFlush i _
  | look =>
    simp only [perform]
    split
    · refine quiet_closeIfFlushed ?_ ?_ ?_ h.closeAfterFlush ?_ <;> rfl
    · exact ⟨rfl,rfl,rfl,by simp [Move.calm]⟩
  | write i =>
    obtain ⟨send,rest,hqueue,-⟩ := hrel
    have hvalid := h.running.sound.entries (send,i) (hqueue ▸ mem_cons_self)
    simp only [perform,entry_front hqueue,h.socketOpen,if_true]
    have hcalm := writePendingSend_calm hvalid henv s.tls
    refine ⟨rfl,rfl,rfl,?_⟩
    cases hstatus : (writePendingSend s.tls env send).2.1 with
    | ok => simp [writeMoves,Move.calm]
    | wouldBlock wait => simp [writeMoves,Move.calm]
    | closed => rw [hstatus] at hcalm; cases hcalm
    | error => rw [hstatus] at hcalm; cases hcalm
  | receive =>
    refine ⟨rfl,rfl,rfl,?_⟩
    simp only [perform,h.socketOpen,if_true]
    unfold Env.calm at henv
    cases hrec : env.receive with
    | bytes full => cases full <;> simp [readMoves,Move.calm]
    | wouldBlock wantWrite => simp [readMoves,Move.calm]
    | closed => simp [hrec] at henv
    | failed => simp [hrec] at henv
  | closeAfterPendingWrites => cases hm
  | close cause => cases hm
  | unready => exact hrel.elim
  | clearQueuesAndWaits => exact hrel.elim
  | closeSocket => exact hrel.elim
  | sendFile ownedPrefix file offset length =>
    simp only [perform]
    split
    · exact ⟨rfl,rfl,rfl,by simp⟩
    · split <;> exact ⟨rfl,rfl,rfl,by simp [Move.calm]⟩
  | front i =>
    simp only [perform]
    split
    · split <;> exact ⟨rfl,rfl,rfl,by simp [Move.calm]⟩
    · exact ⟨rfl,rfl,rfl,by simp [Move.calm]⟩
  | send data =>
    simp only [perform]
    split
    · exact ⟨rfl,rfl,rfl,by simp⟩
    · split <;> exact ⟨rfl,rfl,rfl,by simp [Move.calm]⟩
  | setReadWait wait => exact ⟨rfl,rfl,rfl,by simp [perform]⟩
  | setWriteWait wait => exact ⟨rfl,rfl,rfl,by simp [perform]⟩
  | handleRead => exact ⟨rfl,rfl,rfl,by simp [perform,h.closing,Move.calm]⟩
  | handleWrite => exact ⟨rfl,rfl,rfl,by simp [perform,h.closing,Move.calm]⟩
  | flush => exact ⟨rfl,rfl,rfl,by cases hready : s.ready <;> simp [perform,hready,Move.calm]⟩
  | drain => exact ⟨rfl,rfl,rfl,by cases hready : s.ready <;> simp [perform,hready,Move.calm]⟩
  | finish outcome =>
    simp only [perform]
    split
    · exact ⟨rfl,rfl,rfl,by simp⟩
    · split <;> exact ⟨rfl,rfl,rfl,by simp [Move.calm]⟩
  | leave => exact ⟨rfl,rfl,rfl,by simp [perform]⟩

theorem Sending.call (h : Sending s others) {entry : Entry} (hentry : entry.calm = true) :
    Sending s (entry.moves + others) := by
  have hlas : Lasting s others := ⟨fun _ => h.running,fun n hflus => by rw [h.closing] at hflus; cases hflus⟩
  refine ⟨h.closing,h.socketOpen,h.closeAfterFlush,(hlas.call entry).running h.closing,fun m hm => ?_⟩
  rcases Multiset.mem_add.mp hm with hm | hm
  · cases entry <;> simp_all [Entry.moves,Entry.calm,Move.calm]
  · exact h.calm m hm

theorem Sending.perform (h : Sending s (m ::ₘ others)) (henv : env.calm = true) :
    Sending (perform s env m).1 ((perform s env m).2 + others) := by
  have hquiet := h.quiet henv
  have hclos := hquiet.closing.trans h.closing
  refine ⟨hclos,hquiet.socketOpen.trans h.socketOpen,hquiet.closeAfterFlush.trans h.closeAfterFlush,
    h.running.perform h.closing hclos,fun m' hm' => ?_⟩
  rcases Multiset.mem_add.mp hm' with hm' | hm'
  · exact hquiet.next m' hm'
  · exact h.calm m' (Multiset.mem_cons_of_mem hm')

def calm : Event → Bool
  | .call entry => entry.calm
  | .move _ env => env.calm

end Calm

/-- While a session is open, a thread is in `runQueuedFlush` when the flag is up, and never two;
the entry that it writes without the lock is the front of the queue. -/
theorem flush_exclusive (tls : Bool) (events : List Event) :
    let p := Machine.runs step (started tls) events
    (p.shared.closing = none → flushers p.pending = if p.shared.flushRunning then 1 else 0) ∧
      ∀ i, .write i ∈ p.pending → p.shared.closing = none →
        ∃ send rest, p.shared.sendQueue = (send,i) :: rest ∧ send.isComplete = false := by
  have h := (lasting_run tls events).running
  exact ⟨fun hclos => (h hclos).flusher,fun i hi hclos => (h hclos).relies _ hi⟩

end FastNet.TcpServer
