import FastNet.Guarded
import FastNet.SharedSessionTypes

/-!
The send path of a connected `TcpClient` over the poller. Most calls hold `callbackMutex_`
to their end; `disconnectAfterPendingWrites` takes it only when it closes. User code that is
called back makes its calls under the mutex that its thread holds already.
-/

namespace FastNet.TcpClient

/-- Why `closeWithReason` is called; `flushed` stands for `disconnectAfterPendingWrites`. -/
inductive Cause where
  | flushed | peer | failure | other
  deriving DecidableEq, Repr

structure Client where
  tlsState : TlsState := .disabled
  /-- `startTls` has still to call back -/
  tlsUpgradeInProgress : Bool := false
  connected : Bool := true
  /-- why the client closes, and `pendingWriteBytes_` when it began to; as long as there is
  nothing here `running_` is true -/
  closing : Option (Cause × Nat) := none
  socketOpen : Bool := true
  sendQueue : List Bytes := []
  sendOffset : Nat := 0
  pendingWriteBytes : Nat := 0
  closeAfterFlush : Bool := false
  flushRunning : Bool := false
  flushReschedule : Bool := false
  readWait : WaitDirection := .none
  writeWait : WaitDirection := .none
  handshakeWait : WaitDirection := .none
  /-- the poller watches for `Write` besides `Read` -/
  writeInterestEnabled : Bool := false
  /-- the payloads that have been accepted, the oldest first -/
  accepted : List Bytes := []
  /-- the bytes that the socket has taken -/
  written : Bytes := []

inductive Nested where
  | send (data : Bytes)
  | startTls
  | disconnect
  | disconnectAfterPendingWrites

/-- What a move meets: the socket, TLS, and what user code does when it is called back. -/
structure Env where
  transfer : Transfer := .wouldBlock false
  receive : Receive := .wouldBlock false
  initialized : Bool := true
  handshake : Handshake := .wantRead
  calls : List Nested := []

/-- The moves outside `callbackMutex_`; all but the two ways to disconnect and `check`
begin with taking it. -/
inductive Move where
  | send (data : Bytes)
  | startTls
  | handleRead
  | handleWrite
  | disconnect
  | disconnectAfterPendingWrites
  /-- its part under `sendMutex_` -/
  | check
  | close (cause : Cause)
  deriving DecidableEq

/-- The moves of a thread that holds `callbackMutex_`. -/
inductive Locked where
  | send (data : Bytes)
  /-- the part of `send` under `sendMutex_` -/
  | enqueue (data : Bytes)
  | startTls
  | driveTlsHandshake
  | setHandshakeWait (wait : WaitDirection)
  | handleRead
  /-- a turn of the loop of `handleRead` -/
  | readLoop
  | receive
  | setReadWait (wait : WaitDirection)
  | handleWrite
  | schedule
  /-- a turn of `runQueuedFlush`, and a turn of `drainSendQueue` in it -/
  | flush
  | drain
  | look
  | write (current : Bytes) (offset : Nat)
  /-- `drainSendQueue` behind a write that took bytes, and behind one that has to wait -/
  | wrote (size bytes : Nat)
  | settle (size bytes : Nat)
  | blocked (wait : WaitDirection)
  /-- `runQueuedFlush` behind `drainSendQueue`, and behind its loop -/
  | finish (drained : Bool)
  | leave
  | disconnectAfterPendingWrites
  | check
  /-- `closeWithReason`, and its parts -/
  | close (cause : Cause)
  | unconnect
  | clearQueuesAndWaits
  | closeSocket
  /-- user code is called back -/
  | callback
  deriving DecidableEq

def Nested.moves : Nested → List Locked
  | .send data => [.send data]
  | .startTls => [.startTls]
  | .disconnect => [.close .other]
  | .disconnectAfterPendingWrites => [.disconnectAfterPendingWrites]

namespace Client

variable (c : Client)

def shouldEnableWrite : Bool :=
  if c.tlsState = .handshaking then c.handshakeWait = .write
  else (!c.sendQueue.isEmpty && c.writeWait ≠ .read) || c.readWait = .write || c.writeWait = .write

def refreshInterestLocked : Client :=
  { c with writeInterestEnabled := if c.closing ≠ none then false else c.shouldEnableWrite }

def markFlushScheduledLocked : Client × Bool :=
  if c.closing ≠ none then (c,false)
  else if c.flushRunning then ({ c with flushReschedule := true },false)
  else ({ c with flushRunning := true, flushReschedule := false },true)

/-- The part that goes on with `runQueuedFlush` when nobody else does. -/
def dispatchFlush : Client × List Locked :=
  let (c,shouldScheduleFlush) := c.markFlushScheduledLocked
  (c,if shouldScheduleFlush then [.flush] else [])

/-- The end of the locked parts of `drainSendQueue`: with an empty queue it is time for the
close that `disconnectAfterPendingWrites` has asked for. -/
def closeIfFlushed (otherwise : List Locked) : Client × List Locked :=
  if c.sendQueue.isEmpty && c.closeAfterFlush then
    ({ c with closeAfterFlush := false }.refreshInterestLocked,[.close .flushed,.finish false])
  else (c.refreshInterestLocked,otherwise)

/-- The part of `disconnectAfterPendingWrites` under `sendMutex_`, and whether it closes. -/
def checkPendingWrites : Client × Bool :=
  if c.pendingWriteBytes = 0 then ({ c with closeAfterFlush := false },true)
  else ({ c with closeAfterFlush := true }.refreshInterestLocked,false)

/-- The locked part of `drainSendQueue` behind a write. -/
def settle (size bytes : Nat) : Client × List Locked :=
  let c := { c with
    sendOffset := c.sendOffset+bytes
    pendingWriteBytes := if c.pendingWriteBytes ≤ bytes then 0 else c.pendingWriteBytes-bytes }
  if c.sendOffset < size then (c.refreshInterestLocked,[.drain])
  else { c with sendQueue := c.sendQueue.tail, sendOffset := 0 }.closeIfFlushed [.drain]

end Client

/-- One move outside the mutex: the client behind it, the moves that take its place, and
what the thread goes on with under the mutex. -/
def free (c : Client) (_env : Env) : Move → Client × List Move × List Locked
  | .send data => (c,[],[.send data])
  | .startTls => (c,[],[.startTls])
  | .handleRead => (c,[],[.handleRead])
  | .handleWrite => (c,[],[.handleWrite])
  | .disconnect =>
    -- `notifyTlsUpgrade` is called without the mutex here
    ({ c with tlsUpgradeInProgress := c.closing ≠ none && c.tlsUpgradeInProgress },[.close .other],[])
  | .disconnectAfterPendingWrites => (c,if c.connected then [.check] else [.disconnect],[])
  | .check =>
    let (c,shouldCloseNow) := c.checkPendingWrites
    (c,if shouldCloseNow then [.close .flushed] else [],[])
  | .close cause => (c,[],[.close cause])

/-- What `drainSendQueue` goes on with behind a write of what is left of an entry. -/
def writeMoves (size : Nat) (sent : Bytes) : IoStatus → List Locked
  | .ok => [.wrote size sent.length]
  | .wouldBlock wait => [.blocked wait]
  | .closed => [.close .peer,.finish false]
  -- `handleTransportFailure` calls back before it closes
  | .error => [.callback,.close .failure,.finish false]

/-- What `handleRead` goes on with behind a read. -/
def readMoves (tls : Bool) : Receive → List Locked
  | .bytes full => [.setReadWait .none,.callback] ++ if full then [.readLoop] else []
  | .wouldBlock wantWrite => [.setReadWait (if tls && wantWrite then .write else .read)]
  | .closed => [.close .peer]
  | .failed => [.callback,.close .failure]

def guarded (c : Client) (env : Env) : Locked → Client × List Locked
  | .send data =>
    if !c.connected then (c,[]) else if data = [] then (c,[]) else (c,[.enqueue data])
  | .enqueue data =>
    { c with
      sendQueue := c.sendQueue ++ [data], pendingWriteBytes := c.pendingWriteBytes+data.length,
      accepted := c.accepted ++ [data] }.refreshInterestLocked.dispatchFlush
  | .startTls =>
    if c.closing ≠ none ∨ !c.connected ∨ c.tlsState ≠ .disabled then (c,[])
    else if c.pendingWriteBytes ≠ 0 ∨ !c.sendQueue.isEmpty then (c,[])
    else
      let c := { c with tlsUpgradeInProgress := true }
      if env.initialized then ({ c with tlsState := .handshaking, handshakeWait := .none },[.driveTlsHandshake])
      else ({ c with tlsUpgradeInProgress := false },[.callback,.close .failure])
  | .driveTlsHandshake =>
    if c.tlsState ≠ .handshaking then (c,[])
    else
      match env.handshake with
      | .done =>
        -- the state, the wait direction and `markConnected` in one move
        ({ c with
          tlsState := .ready, handshakeWait := .none, connected := true,
          tlsUpgradeInProgress := false }.refreshInterestLocked,[.callback])
      | .wantRead => (c,[.setHandshakeWait .read])
      | .wantWrite => (c,[.setHandshakeWait .write])
      | .failed => ({ c with tlsUpgradeInProgress := false },[.callback,.close .failure])
  | .setHandshakeWait wait => ({ c with handshakeWait := wait }.refreshInterestLocked,[])
  | .handleRead =>
    if c.closing ≠ none then (c,[])
    else if c.tlsState = .handshaking then (c,[.driveTlsHandshake])
    else (c,[.receive])
  | .readLoop => (c,if c.closing = none then [.receive] else [])
  | .receive => (c,readMoves (c.tlsState = .ready) (if c.socketOpen then env.receive else .failed))
  | .setReadWait wait => ({ c with readWait := wait }.refreshInterestLocked,[])
  | .handleWrite =>
    if c.closing ≠ none then (c,[])
    else if c.tlsState = .handshaking then (c,[.driveTlsHandshake])
    else (c,[.schedule])
  | .schedule => c.dispatchFlush
  | .flush => (c,if c.connected then [.drain] else [.leave])
  | .drain => (c,if c.connected then [.look] else [.finish false])
  | .look =>
    match c.sendQueue with
    | [] => { c with writeWait := .none }.closeIfFlushed [.finish true]
    | current :: _ => (c,if current = [] then [.finish true] else [.write current c.sendOffset])
  | .write current offset =>
    -- a closed socket fails
    let transfer := if c.socketOpen then env.transfer else .failed
    let (status,sent) := writeTransport (c.tlsState = .ready) transfer (current.drop offset)
    ({ c with written := c.written ++ sent },writeMoves current.length sent status)
  | .wrote size bytes => ({ c with writeWait := .none }.refreshInterestLocked,[.settle size bytes])
  | .settle size bytes => c.settle size bytes
  | .blocked wait => ({ c with writeWait := wait }.refreshInterestLocked,[.finish false])
  | .finish drained =>
    if c.closing ≠ none ∨ !drained then ({ c with flushRunning := false, flushReschedule := false },[])
    else if !c.flushReschedule then ({ c with flushRunning := false },[])
    else ({ c with flushReschedule := false },[.flush])
  | .leave => ({ c with flushRunning := false, flushReschedule := false },[])
  | .disconnectAfterPendingWrites => (c,if c.connected then [.check] else [.close .other])
  | .check =>
    let (c,shouldCloseNow) := c.checkPendingWrites
    (c,if shouldCloseNow then [.close .flushed] else [])
  | .close cause =>
    if c.tlsUpgradeInProgress then ({ c with tlsUpgradeInProgress := false },[.callback,.close cause])
    else
      match c.closing with
      | none =>
        ({ c with closing := some (cause,c.pendingWriteBytes) },
          [.unconnect,.clearQueuesAndWaits,.closeSocket,.callback])
      | some _ => (c,[.closeSocket,.clearQueuesAndWaits,.unconnect])
  | .unconnect => ({ c with connected := false },[])
  | .clearQueuesAndWaits =>
    ({ c with
      sendQueue := [], sendOffset := 0, pendingWriteBytes := 0, closeAfterFlush := false, flushRunning := false,
      flushReschedule := false, writeInterestEnabled := false, readWait := .none, writeWait := .none,
      handshakeWait := .none },[])
  | .closeSocket => ({ c with socketOpen := false, tlsState := .disabled },[])
  | .callback => (c,env.calls.flatMap Nested.moves)

/-- The calls of users and of the poller; `handleTransportFailure` is called by the timers
too. -/
inductive Entry where
  | send (data : Bytes)
  | startTls
  | handleRead
  | handleWrite
  | disconnect
  | disconnectAfterPendingWrites
  | handleTransportFailure

def Entry.moves : Entry → List Move
  | .send data => [.send data]
  | .startTls => [.startTls]
  | .handleRead => [.handleRead]
  | .handleWrite => [.handleWrite]
  | .disconnect => [.disconnect]
  | .disconnectAfterPendingWrites => [.disconnectAfterPendingWrites]
  | .handleTransportFailure => [.close .failure]

abbrev Event := Threads.Event Entry Env

abbrev Pool := Guarded.Pool Client Move Locked

def step : Pool → Event → Pool := Guarded.step Entry.moves free guarded

def connectedClient (tls : Bool) : Pool := { shared := { tlsState := if tls then .ready else .disabled } }

end FastNet.TcpClient
