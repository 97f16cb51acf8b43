import FastNet.SharedSessionTypes
import FastNet.Threads

/-!
The send path of a session of `TcpServer` over the poller. A call of a user or of the poller
is cut into moves at the places where it takes or gives back `sendMutex_`, or reads an
atomic flag. `callbackMutex_` is left out: it only forbids orders of moves.
-/

namespace FastNet.TcpServer

def kBufferedFileChunkSize : Nat := 64*1024

def kDirectFileSendChunkSize : Nat := 1024*1024

/-- A send of kind `File`. `content` is what the open file holds. -/
structure FileSend where
  content : Bytes
  fileOffset : Nat
  fileLength : Nat
  fileBytesSent : Nat := 0
  directSendEligible : Bool
  stagingBuffer : Bytes := []
  stagingOffset : Nat := 0

inductive PendingSend where
  | buffer (payload : Bytes) (bufferOffset : Nat)
  | file (send : FileSend)

/-- What a move meets: the socket, the number of bytes that reading a file returns, and
what is found behind a pointer to an entry that is no longer there. -/
structure Env where
  transfer : Transfer := .wouldBlock false
  receive : Receive := .wouldBlock false
  fileRead : Option Nat := none
  stale : Bytes := []

namespace FileSend

variable (f : FileSend)

def remainingFileBytes : Nat := if f.fileBytesSent < f.fileLength then f.fileLength-f.fileBytesSent else 0

def ahead (size : Nat) : Bytes := (f.content.drop (f.fileOffset+f.fileBytesSent)).take size

/-- The part of `writeFilePendingSend` that fills the staging buffer. -/
def stage (read : Option Nat) : FileSend × Bool :=
  if f.stagingBuffer.length ≤ f.stagingOffset then
    let data := (f.ahead (min f.remainingFileBytes kBufferedFileChunkSize)).take (read.getD 0)
    if data = [] then ({ f with stagingBuffer := [], stagingOffset := 0 },false)
    else ({ f with stagingBuffer := data, stagingOffset := 0 },true)
  else (f,true)

/-- The part of `writeFilePendingSend` behind a write from the staging buffer. -/
def advance (bytes : Nat) : FileSend :=
  let f := { f with stagingOffset := f.stagingOffset+bytes, fileBytesSent := f.fileBytesSent+bytes }
  if f.stagingBuffer.length ≤ f.stagingOffset then { f with stagingBuffer := [], stagingOffset := 0 } else f

end FileSend

def writeFilePendingSend (tls : Bool) (env : Env) (f : FileSend) : FileSend × IoStatus × Bytes :=
  if f.remainingFileBytes = 0 then (f,.ok,[])
  else if f.directSendEligible then
    match env.transfer with
    | .sent n =>
      let sent := (f.ahead (min f.remainingFileBytes kDirectFileSendChunkSize)).take n
      if sent = [] then (f,.error,[])
      else ({ f with fileBytesSent := f.fileBytesSent+sent.length },.ok,sent)
    | .wouldBlock _ => (f,.wouldBlock .write,[])
    | .failed => (f,.error,[])
  else
    match f.stage env.fileRead with
    | (f,false) => (f,.error,[])
    | (f,true) =>
      let (status,sent) := writeTransport tls env.transfer (f.stagingBuffer.drop f.stagingOffset)
      (if status = .ok then f.advance sent.length else f,status,sent)

namespace PendingSend

def isComplete : PendingSend → Bool
  | .buffer payload bufferOffset => payload.length ≤ bufferOffset
  | .file f => f.fileLength ≤ f.fileBytesSent

def payload : PendingSend → Bytes
  | .buffer payload _ => payload
  | .file f => (f.content.drop f.fileOffset).take f.fileLength

end PendingSend

def writePendingSend (tls : Bool) (env : Env) : PendingSend → PendingSend × IoStatus × Bytes
  | .buffer payload bufferOffset =>
    if payload.length ≤ bufferOffset then (.buffer payload bufferOffset,.ok,[])
    else
      let (status,sent) := writeTransport tls env.transfer (payload.drop bufferOffset)
      (.buffer payload (if status = .ok then bufferOffset+sent.length else bufferOffset),status,sent)
  | .file f =>
    let (f,status,sent) := writeFilePendingSend tls env f
    (.file f,status,sent)

/-- The entries of a `sendFile`; there are none for a file that cannot be opened or is too
short. -/
def fileEntries (tls : Bool) (ownedPrefix : Bytes) (file : Option Bytes) (offset length : Nat) :
    Option (List PendingSend) :=
  match file with
  | none => none
  | some content =>
    if content.length < offset then none
    else
      let remaining := content.length-offset
      let fileLength := if length = 0 then remaining else length
      if remaining < fileLength then none
      else
        let body : FileSend := { content, fileOffset := offset, fileLength, directSendEligible := !tls }
        some ((if ownedPrefix = [] then [] else [.buffer ownedPrefix 0]) ++
          (if fileLength = 0 then [] else [.file body]))

inductive FlushOutcome where
  | queueDrained | wouldBlock | closed
  deriving DecidableEq, Repr

/-- Why `close` is called. `flushed` stands for `closeAfterPendingWrites`, with the number of
payloads that had been accepted before it. -/
inductive Cause where
  | flushed (asked : Nat)
  | peer
  | failure
  | other
  deriving DecidableEq, Repr

structure Session where
  tls : Bool := false
  ready : Bool := true
  /-- why the session closes; as long as there is nothing here `running_` is true -/
  closing : Option Cause := none
  socketOpen : Bool := true
  /-- the entries; the numbers tell them apart as their addresses do -/
  sendQueue : List (PendingSend × Nat) := []
  nextEntry : Nat := 0
  closeAfterFlush : Bool := false
  flushRunning : Bool := false
  flushReschedule : Bool := false
  readWait : WaitDirection := .none
  writeWait : WaitDirection := .none
  /-- the poller watches for `Write` besides `Read` -/
  writeInterestEnabled : Bool := false
  /-- the payloads that have been accepted, the oldest first -/
  accepted : List Bytes := []
  /-- how many payloads had been accepted when `closeAfterFlush_` was set -/
  asked : Nat := 0
  /-- the bytes that the socket has taken -/
  written : Bytes := []

/-- The moves that the calls are made of. The number of an entry stands for the pointer
that `drainSendQueue` keeps while it does not hold the lock. -/
inductive Move where
  /-- the tests of `send` and of `sendFile` in front of the lock -/
  | send (data : Bytes)
  | sendFile (ownedPrefix : Bytes) (file : Option Bytes) (offset length : Nat)
  /-- their part under the lock -/
  | enqueue (entries : List PendingSend)
  | handleRead
  | receive
  | handleWrite
  | schedule
  | setReadWait (wait : WaitDirection)
  | setWriteWait (wait : WaitDirection)
  /-- a turn of `runQueuedFlush`, and a turn of `drainSendQueue` in it -/
  | flush
  | drain
  | look
  | front (entry : Nat)
  | discard (entry : Nat)
  | write (entry : Nat)
  | settle (entry : Nat)
  /-- `runQueuedFlush` behind `drainSendQueue`, and behind its loop -/
  | finish (outcome : FlushOutcome)
  | leave
  | closeAfterPendingWrites
  /-- `close`, and its parts -/
  | close (cause : Cause)
  | unready
  | clearQueuesAndWaits
  | closeSocket

namespace Session

variable (s : Session)

def shouldEnableWrite : Bool :=
  (!s.sendQueue.isEmpty && s.writeWait ≠ .read) || s.readWait = .write || s.writeWait = .write

def refreshInterestLocked : Session :=
  { s with writeInterestEnabled := if s.closing ≠ none then false else s.shouldEnableWrite }

def markFlushScheduledLocked : Session × Bool :=
  if s.closing ≠ none then (s,false)
  else if s.flushRunning then ({ s with flushReschedule := true },false)
  else ({ s with flushRunning := true, flushReschedule := false },true)

/-- The part that goes on with `runQueuedFlush` when nobody else does. -/
def dispatchFlush : Session × List Move :=
  let (s,shouldScheduleFlush) := s.markFlushScheduledLocked
  (s,if shouldScheduleFlush then [.flush] else [])

def entry (i : Nat) : Option PendingSend := (s.sendQueue.find? (fun e => e.2 = i)).map Prod.fst

def setEntry (i : Nat) (send : PendingSend) : Session :=
  { s with sendQueue := s.sendQueue.map (fun e => if e.2 = i then (send,i) else e) }

/-- `pop_front` when the pointer leads to the front and `done` holds of the entry. -/
def popFront (i : Nat) (done : PendingSend → Bool) : Session :=
  match s.sendQueue with
  | (send,j) :: rest => if j = i && done send then { s with sendQueue := rest } else s
  | [] => s

/-- The end of the locked parts of `drainSendQueue`: with an empty queue it is time for the
close that `closeAfterPendingWrites` has asked for. -/
def closeIfFlushed (otherwise : List Move) : Session × List Move :=
  if s.sendQueue.isEmpty && s.closeAfterFlush then
    ({ s with closeAfterFlush := false }.refreshInterestLocked,[.close (.flushed s.asked),.finish .closed])
  else (s.refreshInterestLocked,otherwise)

end Session

/-- What `drainSendQueue` goes on with behind a write. -/
def writeMoves (i : Nat) : IoStatus → List Move
  | .ok => [.setWriteWait .none,.settle i]
  | .wouldBlock wait => [.setWriteWait wait,.finish .wouldBlock]
  | .closed => [.close .peer,.finish .closed]
  | .error => [.close .failure,.finish .closed]

/-- What `handleRead` goes on with behind a read. -/
def readMoves (tls : Bool) : Receive → List Move
  | .bytes full => .setReadWait .none :: if full then [.handleRead] else []
  | .wouldBlock wantWrite => [.setReadWait (if tls && wantWrite then .write else .read)]
  | .closed => [.close .peer]
  | .failed => [.close .failure]

def perform (s : Session) (env : Env) : Move → Session × List Move
  | .send data =>
    if !s.ready then (s,[]) else if data = [] then (s,[]) else (s,[.enqueue [.buffer data 0]])
  | .sendFile ownedPrefix file offset length =>
    if !s.ready then (s,[])
    else
      match fileEntries s.tls ownedPrefix file offset length with
      | none => (s,[])
      | some [] => (s,[])
      | some entries => (s,[.enqueue entries])
  | .enqueue entries =>
    { s with
      sendQueue := s.sendQueue ++ entries.zipIdx s.nextEntry, nextEntry := s.nextEntry+entries.length,
      accepted := s.accepted ++ [entries.flatMap PendingSend.payload] }.refreshInterestLocked.dispatchFlush
  | .handleRead => (s,if s.closing = none then [.receive] else [])
  | .receive => (s,readMoves s.tls (if s.socketOpen then env.receive else .failed))
  | .setReadWait wait => ({ s with readWait := wait }.refreshInterestLocked,[])
  | .setWriteWait wait => ({ s with writeWait := wait }.refreshInterestLocked,[])
  | .handleWrite => (s,if s.closing = none then [.schedule] else [])
  | .schedule => s.dispatchFlush
  | .flush => (s,if s.ready then [.drain] else [.leave])
  | .drain => (s,if s.ready then [.look] else [.finish .closed])
  | .look =>
    match s.sendQueue with
    | [] => { s with writeWait := .none }.closeIfFlushed [.finish .queueDrained]
    | (_,i) :: _ => (s,[.front i])
  | .front i =>
    match s.entry i with
    | some send => (s,if send.isComplete then [.discard i] else [.write i])
    | none => (s,[.write i])
  | .discard i => (s.popFront i (fun _ => true)).closeIfFlushed [.drain]
  | .write i =>
    -- a closed socket fails
    let env := if s.socketOpen then env else { env with transfer := .failed, stale := [] }
    match s.entry i with
    | some send =>
      let (send,status,sent) := writePendingSend s.tls env send
      ({ s.setEntry i send with written := s.written ++ sent },writeMoves i status)
    -- `clearQueuesAndWaits` has destroyed the entry
    | none => ({ s with written := s.written ++ env.stale },[.setWriteWait .none,.settle i])
  | .settle i => (s.popFront i PendingSend.isComplete).closeIfFlushed [.drain]
  | .finish outcome =>
    if s.closing ≠ none ∨ outcome ≠ .queueDrained then
      ({ s with flushRunning := false, flushReschedule := false },[])
    else if !s.flushReschedule then ({ s with flushRunning := false },[])
    else ({ s with flushReschedule := false },[.flush])
  | .leave => ({ s with flushRunning := false, flushReschedule := false },[])
  | .closeAfterPendingWrites =>
    if s.sendQueue.isEmpty then
      ({ s with closeAfterFlush := false },[.close (.flushed s.accepted.length)])
    else ({ s with closeAfterFlush := true, asked := s.accepted.length }.refreshInterestLocked,[])
  | .close cause =>
    match s.closing with
    | none => ({ s with closing := some cause },[.unready,.clearQueuesAndWaits,.closeSocket])
    | some _ => (s,[.closeSocket,.clearQueuesAndWaits,.unready])
  | .unready => ({ s with ready := false },[])
  | .clearQueuesAndWaits =>
    ({ s with
      sendQueue := [], closeAfterFlush := false, flushRunning := false, flushReschedule := false,
      writeInterestEnabled := false, readWait := .none, writeWait := .none },[])
  | .closeSocket => ({ s with socketOpen := false },[])

/-- The calls of users and of the poller; `close` also stands for the timers, for the peer
and for failing reads. -/
inductive Entry where
  | send (data : Bytes)
  | sendFile (ownedPrefix : Bytes) (file : Option Bytes) (offset length : Nat)
  | handleRead
  | handleWrite
  | closeAfterPendingWrites
  | close

def Entry.moves : Entry → List Move
  | .send data => [.send data]
  | .sendFile ownedPrefix file offset length => [.sendFile ownedPrefix file offset length]
  | .handleRead => [.handleRead]
  | .handleWrite => [.handleWrite]
  | .closeAfterPendingWrites => [.closeAfterPendingWrites]
  | .close => [.close .other]

abbrev Event := Threads.Event Entry Env

def step : Threads.Pool Session Move → Event → Threads.Pool Session Move := Threads.step Entry.moves perform

def started (tls : Bool) : Threads.Pool Session Move := { shared := { tls } }

end FastNet.TcpServer
