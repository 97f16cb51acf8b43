import FastNet.Machine
import FastNet.SharedSessionTypes

/-!
The callbacks of `TcpClient::connect` over the poller. A call stores its callback in the one
slot `pendingConnectCallback_`, blocks in the connect of the socket, and goes on from there;
other calls, the poller and the timers may come before that and after it.
-/

namespace FastNet.TcpClientConnect

/-- A callback is called. `call` is the number of the `connect` that it belongs to. -/
structure Notice where
  call : Nat
  success : Bool
  message : String
  deriving DecidableEq, Repr

structure Client where
  running : Bool := false
  connected : Bool := false
  tlsState : TlsState := .disabled
  tlsUpgradeInProgress : Bool := false
  /-- `pendingTlsCallback_` is set -/
  pendingTlsCallback : Bool := false
  pendingConnectCallback : Option Nat := none
  /-- how many times `connect` has been called -/
  calls : Nat := 0
  /-- the calls that block in the connect of the socket, and whether they ask for TLS -/
  connecting : List (Nat × Bool) := []
  notices : List Notice := []

namespace Client

variable (c : Client)

def notifyConnect (success : Bool) (message : String) : Client :=
  match c.pendingConnectCallback with
  | some call =>
    { c with pendingConnectCallback := none, notices := c.notices ++ [⟨call,success,message⟩] }
  | none => c

def notifyTlsUpgrade : Client := { c with tlsUpgradeInProgress := false, pendingTlsCallback := false }

def notifyHandshakeFailure (message : String) : Client :=
  if c.tlsUpgradeInProgress then c.notifyTlsUpgrade else c.notifyConnect false message

def markConnected : Client :=
  let c := { c with connected := true }
  if c.tlsUpgradeInProgress then c.notifyTlsUpgrade else c.notifyConnect true ""

def resetTransportState : Client :=
  { c with
    connected := false, running := false, tlsState := .disabled, tlsUpgradeInProgress := false,
    pendingTlsCallback := false }

def cleanupInactiveTransport : Client := { c with running := false, connected := false, tlsState := .disabled }

def closeWithReason : Client :=
  let c := if c.tlsUpgradeInProgress && c.pendingTlsCallback then c.notifyTlsUpgrade else c
  { c with running := false, connected := false, tlsState := .disabled }

def handleTransportFailure (message : String) : Client :=
  let c := if !c.connected && c.pendingConnectCallback.isSome then c.notifyConnect false message else c
  c.closeWithReason

def driveTlsHandshake (handshake : Handshake) : Client × Bool :=
  if c.tlsState ≠ .handshaking then (c,true)
  else
    match handshake with
    | .done => ({ c with tlsState := .ready }.markConnected,true)
    | .wantRead => (c,true)
    | .wantWrite => (c,true)
    | .failed => (c,false)

/-- `connect` up to the connect of the socket. -/
def connect (enableSSL : Bool) : Client :=
  let call := c.calls
  let c := { c with pendingConnectCallback := some call, calls := call+1 }
  if c.running then c.notifyConnect false "Connection is already active"
  else { c.resetTransportState with connecting := c.connecting ++ [(call,enableSSL)] }

/-- `connect` behind the connect of the socket, when TLS is asked for. -/
def connectSecurely (initialized : Bool) (handshake : Handshake) (message : String) : Client :=
  if !initialized then (c.notifyConnect false message).cleanupInactiveTransport
  else
    let (c,goesOn) := { c with tlsState := .handshaking }.driveTlsHandshake handshake
    if goesOn then c else (c.notifyConnect false message).cleanupInactiveTransport

def disconnect : Client :=
  let c := if c.running && !c.connected && c.pendingConnectCallback.isSome then
    c.notifyConnect false "Connection cancelled" else c
  let c := if c.running && c.tlsUpgradeInProgress && c.pendingTlsCallback then c.notifyTlsUpgrade else c
  c.closeWithReason

/-- `pending` tells whether there are writes that have to drain first. -/
def startTls (pending callback initialized : Bool) (handshake : Handshake) (message : String) : Client :=
  if !c.running || !c.connected then c
  else if c.tlsState ≠ .disabled then c
  else if pending then c
  else
    let c := { c with tlsUpgradeInProgress := true, pendingTlsCallback := callback }
    if !initialized then { c.notifyTlsUpgrade with tlsState := .disabled }.closeWithReason
    else
      let (c,goesOn) := { c with tlsState := .handshaking }.driveTlsHandshake handshake
      if goesOn then c else (c.notifyHandshakeFailure message).closeWithReason

def transferred (status : IoStatus) (message : String) : Client :=
  match status with
  | .ok => c
  | .wouldBlock _ => c
  | .closed => c.closeWithReason
  | .error => c.handleTransportFailure message

/-- `handleRead` and `handleWrite`. -/
def handleEvent (handshake : Handshake) (status : IoStatus) (message : String) : Client :=
  if !c.running then c
  else if c.tlsState = .handshaking then
    let (c,goesOn) := c.driveTlsHandshake handshake
    if goesOn then c else (c.notifyHandshakeFailure message).handleTransportFailure message
  else c.transferred status message

end Client

/-- How the part of `connect` goes that sets the socket up. -/
inductive Attempt where
  /-- a call to the socket or the poller has failed -/
  | failed (message : String)
  | established (initialized : Bool) (handshake : Handshake) (message : String)

inductive Event where
  | connect (enableSSL : Bool)
  /-- the call with this number goes on -/
  | attempt (call : Nat) (attempt : Attempt)
  | disconnect
  | startTls (pending callback initialized : Bool) (handshake : Handshake) (message : String)
  | handleEvent (handshake : Handshake) (status : IoStatus) (message : String)
  /-- the poller reports an error or that the peer has closed -/
  | transportError
  | connectTimer
  | readTimer
  | writeTimer (pending : Bool)
  /-- a call to `send` that writes at once -/
  | send (status : IoStatus) (message : String)

/-- `connect` behind the connect of the socket. -/
def Client.goOn (c : Client) (enableSSL : Bool) : Attempt → Client
  | .failed message => c.notifyConnect false message
  | .established initialized handshake message =>
    let c := { c with running := true }
    if enableSSL then c.connectSecurely initialized handshake message else c.markConnected

def step (c : Client) : Event → Client
  | .connect enableSSL => c.connect enableSSL
  | .attempt call attempt =>
    match c.connecting.find? (fun entry => entry.1 = call) with
    | some (_,enableSSL) =>
      { c with connecting := c.connecting.filter (fun entry => entry.1 ≠ call) }.goOn enableSSL attempt
    | none => c
  | .disconnect => c.disconnect
  | .startTls pending callback initialized handshake message => c.startTls pending callback initialized handshake message
  | .handleEvent handshake status message => c.handleEvent handshake status message
  | .transportError => c.handleTransportFailure "Connection closed by peer"
  | .connectTimer =>
    if !c.running || c.connected then c else c.handleTransportFailure "Connection timed out"
  | .readTimer => if !c.connected then c else c.handleTransportFailure "Read timed out"
  | .writeTimer pending => if !c.connected || !pending then c else c.handleTransportFailure "Write timed out"
  | .send status message => if !c.connected then c else c.transferred status message

/-- Nothing goes on: the client does not run and no call of `connect` is under way. -/
def Client.Idle (c : Client) : Prop := c.running = false ∧ c.connecting = []

def Client.Answered (c : Client) : Prop :=
  ∀ call < c.calls, c.notices.countP (fun notice => notice.call = call) = 1

/-- `connect` is not called as long as the callback of an earlier call waits. -/
def NoOverlap (c : Client) : Event → Prop
  | .connect _ => c.pendingConnectCallback = none
  | _ => True

instance (c : Client) (e : Event) : Decidable (NoOverlap c e) := by
  unfold NoOverlap
  split <;> infer_instance

instance (c : Client) : Decidable c.Idle := inferInstanceAs (Decidable (_ ∧ _))

instance (c : Client) : Decidable c.Answered := inferInstanceAs (Decidable (∀ call < c.calls, _))

variable {c c' : Client}

/-- What happens to the slot apart from new calls: nothing, or its callback is called and it is
empty then. -/
inductive Settles (c c' : Client) : Prop where
  | keeps (calls : c'.calls = c.calls) (slot : c'.pendingConnectCallback = c.pendingConnectCallback)
      (notices : c'.notices = c.notices)
  | notifies (calls : c'.calls = c.calls) (call : Nat) (success : Bool) (message : String)
      (before : c.pendingConnectCallback = some call) (slot : c'.pendingConnectCallback = none)
      (notices : c'.notices = c.notices ++ [⟨call,success,message⟩])

namespace Settles

theorem refl (c : Client) : Settles c c := .keeps rfl rfl rfl

theorem trans {c'' : Client} (h : Settles c c') (h' : Settles c' c'') : Settles c c'' := by
  cases h with
  | keeps hcalls hslot hno =>
    cases h' with
    | keeps hcalls' hslot' hnot =>
      exact .keeps (hcalls'.trans hcalls) (hslot'.trans hslot) (hnot.trans hno)
    | notifies hcalls' call success message hbef hslot' hnot =>
      exact .notifies (hcalls'.trans hcalls) call success message (hslot.symm.trans hbef) hslot' (hno ▸ hnot)
  | notifies hcalls call success message hbef hslot hno =>
    cases h' with
    | keeps hcalls' hslot' hnot =>
      exact .notifies (hcalls'.trans hcalls) call success message hbef (hslot'.trans hslot) (hnot.trans hno)
    | notifies hcalls' call' success' message' hbe hslot' hnot =>
      rw [hslot] at hbe
      cases hbe

theorem flags {c'' : Client} (h : Settles c c') (hcalls : c''.calls = c'.calls)
    (hslot : c''.pendingConnectCallback = c'.pendingConnectCallback) (hnot : c''.notices = c'.notices) :
    Settles c c'' := h.trans (.keeps hcalls hslot hnot)

end Settles

section

variable (c : Client)

theorem settles_notifyConnect (success : Bool) (message : String) :
    Settles c (c.notifyConnect success message) := by
  unfold Client.notifyConnect
  cases hslot : c.pendingConnectCallback with
  | none => exact .keeps rfl rfl rfl
  | some call => exact .notifies rfl call success message hslot rfl rfl

theorem settles_closeWithReason : Settles c c.closeWithReason := by
  unfold Client.closeWithReason
  split <;> exact .keeps rfl rfl rfl

theorem settles_notifyHandshakeFailure (message : String) :
    Settles c (c.notifyHandshakeFailure message) := by
  unfold Client.notifyHandshakeFailure
  split
  · exact .keeps rfl rfl rfl
  · exact settles_notifyConnect c false message

theorem settles_markConnected : Settles c c.markConnected := by
  have hcon : Settles c { c with connected := true } := .keeps rfl rfl rfl
  simp only [Client.markConnected]
  split
  · exact .keeps rfl rfl rfl
  · exact hcon.trans (settles_notifyConnect _ true "")

theorem settles_handleTransportFailure (message : String) : Settles c (c.handleTransportFailure message) := by
  simp only [Client.handleTransportFailure]
  split
  · exact (settles_notifyConnect c false message).trans (settles_closeWithReason _)
  · exact settles_closeWithReason c

theorem settles_driveTlsHandshake (handshake : Handshake) :
    Settles c (c.driveTlsHandshake handshake).1 := by
  unfold Client.driveTlsHandshake
  split
  · exact .refl c
  · have hready : Settles c { c with tlsState := .ready } := .keeps rfl rfl rfl
    cases handshake with
    | done => exact hready.trans (settles_markConnected _)
    | _ => exact .refl c

theorem settles_transferred (status : IoStatus) (message : String) :
    Settles c (c.transferred status message) := by
  cases status with
  | closed => exact settles_closeWithReason c
  | error => exact settles_handleTransportFailure c message
  | _ => exact .refl c

theorem settles_handleEvent (handshake : Handshake) (status : IoStatus) (message : String) :
    Settles c (c.handleEvent handshake status message) := by
  have hturn := settles_driveTlsHandshake c handshake
  simp only [Client.handleEvent]
  split
  · exact .refl c
  · split
    · split
      · exact hturn
      · exact (hturn.trans (settles_notifyHandshakeFailure _ message)).trans (settles_handleTransportFailure _ message)
    · exact settles_transferred c status message

theorem settles_disconnect : Settles c c.disconnect := by
  have hupg (c : Client) : Settles c
      (if c.running && c.tlsUpgradeInProgress && c.pendingTlsCallback then c.notifyTlsUpgrade else c) := by
    split <;> exact .keeps rfl rfl rfl
  simp only [Client.disconnect]
  split
  · exact (settles_notifyConnect c false _).trans ((hupg _).trans (settles_closeWithReason _))
  · exact (hupg c).trans (settles_closeWithReason _)

theorem settles_startTls (pending callback initialized : Bool) (handshake : Handshake) (message : String) :
    Settles c (c.startTls pending callback initialized handshake message) := by
  simp only [Client.startTls]
  split
  · exact .refl c
  · split
    · exact .refl c
    · split
      · exact .refl c
      · split
        · refine Settles.trans ?_ (settles_closeWithReason _)
          exact .keeps rfl rfl rfl
        · have hbegun : Settles c
              { c with tlsUpgradeInProgress := true, pendingTlsCallback := callback, tlsState := .handshaking } :=
            .keeps rfl rfl rfl
          have hturn := hbegun.trans (settles_driveTlsHandshake _ handshake)
          split
          · exact hturn
          · exact hturn.trans ((settles_notifyHandshakeFailure _ message).trans (settles_closeWithReason _))

theorem settles_connectSecurely (initialized : Bool) (handshake : Handshake) (message : String) :
    Settles c (c.connectSecurely initialized handshake message) := by
  have hcl (c : Client) : Settles c (c.notifyConnect false message).cleanupInactiveTransport :=
    (settles_notifyConnect c false message).flags rfl rfl rfl
  simp only [Client.connectSecurely]
  split
  · exact hcl c
  · have hbegun : Settles c { c with tlsState := .handshaking } := .keeps rfl rfl rfl
    have hturn := hbegun.trans (settles_driveTlsHandshake _ handshake)
    split
    · exact hturn
    · exact hturn.trans (hcl _)

theorem settles_goOn (enableSSL : Bool) (attempt : Attempt) : Settles c (c.goOn enableSSL attempt) := by
  cases attempt with
  | failed message => exact settles_notifyConnect c false message
  | established initialized handshake message =>
    have hrun : Settles c { c with running := true } := .keeps rfl rfl rfl
    simp only [Client.goOn]
    split
    · exact hrun.trans (settles_connectSecurely _ initialized handshake message)
    · exact hrun.trans (settles_markConnected _)

end

/-- Every event but a call of `connect` leaves the slot alone or calls its callback. -/
theorem settles_step {e : Event} (h : ∀ enableSSL, e ≠ .connect enableSSL) : Settles c (step c e) := by
  cases e with
  | connect enableSSL => exact absurd rfl (h enableSSL)
  | attempt call attempt =>
    simp only [step]
    split
    · refine Settles.trans ?_ (settles_goOn _ _ attempt)
      exact .keeps rfl rfl rfl
    · exact .refl c
  | disconnect => exact settles_disconnect c
  | startTls pending callback initialized handshake message => exact settles_startTls c _ _ _ _ _
  | handleEvent handshake status message => exact settles_handleEvent c _ _ _
  | transportError => exact settles_handleTransportFailure c _
  | connectTimer =>
    simp only [step]
    split
    · exact .refl c
    · exact settles_handleTransportFailure c _
  | readTimer =>
    simp only [step]
    split
    · exact .refl c
    · exact settles_handleTransportFailure c _
  | writeTimer pending =>
    simp only [step]
    split
    · exact .refl c
    · exact settles_handleTransportFailure c _
  | send status message =>
    simp only [step]
    split
    · exact .refl c
    · exact settles_transferred c status message

/-! ### An idle client has an empty slot -/

/-- While a callback waits, its call is under way or the handshake that it has begun is. -/
structure Waits (c : Client) : Prop where
  unconnected : ∀ call ∈ c.pendingConnectCallback, c.connected = false ∧ c.tlsUpgradeInProgress = false
  underWay : ∀ call ∈ c.pendingConnectCallback,
    call ∈ c.connecting.map Prod.fst ∨ (c.running = true ∧ c.tlsState = .handshaking)

theorem waits_of_none (h : c.pendingConnectCallback = none) : Waits c := by
  refine ⟨fun call hcall => ?_,fun call hcall => ?_⟩ <;>
    (rw [h] at hcall; cases hcall)

theorem Settles.none (h : Settles c c') (hslot : c.pendingConnectCallback = none) : c'.pendingConnectCallback = none := by
  cases h with
  | keeps hcalls hslot' hnot => exact hslot'.trans hslot
  | notifies hcalls call success message hbef hslot' hnot => exact hslot'

@[simp] theorem notifyConnect_slot (c : Client) (success : Bool) (message : String) :
    (c.notifyConnect success message).pendingConnectCallback = none := by
  unfold Client.notifyConnect
  cases hslot : c.pendingConnectCallback with
  | none => exact hslot
  | some call => rfl

theorem markConnected_slot (h : ∀ call ∈ c.pendingConnectCallback, c.tlsUpgradeInProgress = false) :
    c.markConnected.pendingConnectCallback = none := by
  simp only [Client.markConnected]
  split
  · rename_i hupg
    cases hslot : c.pendingConnectCallback with
    | none => rfl
    | some call =>
      have hoff : c.tlsUpgradeInProgress = false := h call hslot
      rw [show c.tlsUpgradeInProgress = true from hupg] at hoff
      cases hoff
  · exact notifyConnect_slot _ _ _

theorem notifyHandshakeFailure_slot (h : ∀ call ∈ c.pendingConnectCallback, c.tlsUpgradeInProgress = false)
    (message : String) : (c.notifyHandshakeFailure message).pendingConnectCallback = none := by
  unfold Client.notifyHandshakeFailure
  split
  · rename_i hupg
    cases hslot : c.pendingConnectCallback with
    | none => exact hslot
    | some call =>
      rw [h call hslot] at hupg
      cases hupg
  · exact notifyConnect_slot _ _ _

theorem handleTransportFailure_slot (h : ∀ call ∈ c.pendingConnectCallback, c.connected = false) (message : String) :
    (c.handleTransportFailure message).pendingConnectCallback = none := by
  simp only [Client.handleTransportFailure]
  split
  · exact (settles_closeWithReason _).none (notifyConnect_slot _ _ _)
  · rename_i hquiet
    refine (settles_closeWithReason c).none ?_
    cases hslot : c.pendingConnectCallback with
    | none => rfl
    | some call =>
      rw [h call hslot,hslot] at hquiet
      simp at hquiet

theorem Waits.closeWithReason (h : Waits c)
    (hcall : ∀ call ∈ c.pendingConnectCallback, call ∈ c.connecting.map Prod.fst) : Waits c.closeWithReason := by
  unfold Client.closeWithReason
  split
  · exact ⟨fun _ _ => ⟨rfl,rfl⟩,fun call hmem => .inl (hcall call hmem)⟩
  · exact ⟨fun call hmem => ⟨rfl,(h.unconnected call hmem).2⟩,fun call hmem => .inl (hcall call hmem)⟩

theorem Waits.handleTransportFailure (h : Waits c) (message : String) : Waits (c.handleTransportFailure message) :=
  waits_of_none (handleTransportFailure_slot (fun call hcall => (h.unconnected call hcall).1) message)

theorem Waits.disconnect (h : Waits c) : Waits c.disconnect := by
  have hclose (c : Client) (hslot : c.pendingConnectCallback = none) : Waits
      (if c.running && c.tlsUpgradeInProgress && c.pendingTlsCallback then c.notifyTlsUpgrade else c).closeWithReason := by
    refine waits_of_none ((settles_closeWithReason _).none ?_)
    split <;> exact hslot
  simp only [Client.disconnect]
  split
  · exact hclose _ (notifyConnect_slot _ _ _)
  · rename_i hquiet
    cases hslot : c.pendingConnectCallback with
    | none => exact hclose c hslot
    | some call =>
      -- a callback waits and is not called: the client does not run
      have hunc := (h.unconnected call hslot).1
      have hrun : c.running = false := by
        rw [hunc,hslot] at hquiet
        simpa using hquiet
      simp only [hrun,Bool.false_and,Bool.false_eq_true,if_false]
      refine h.closeWithReason (fun call hcall => (h.underWay call hcall).resolve_right ?_)
      simp [hrun]

theorem Waits.handleEvent (h : Waits c) (handshake : Handshake) (status : IoStatus) (message : String) :
    Waits (c.handleEvent handshake status message) := by
  have hupg : ∀ call ∈ c.pendingConnectCallback, c.tlsUpgradeInProgress = false :=
    fun call hcall => (h.unconnected call hcall).2
  simp only [Client.handleEvent]
  split
  · exact h
  · split
    · rename_i hstate
      simp only [Client.driveTlsHandshake,hstate,ne_eq,not_true_eq_false,if_false]
      cases handshake with
      | done => exact waits_of_none (markConnected_slot hupg)
      | wantRead => exact h
      | wantWrite => exact h
      | failed =>
        exact waits_of_none ((settles_handleTransportFailure _ message).none (notifyHandshakeFailure_slot hupg message))
    · rename_i hstate
      cases status with
      | closed => exact h.closeWithReason (fun call hcall => (h.underWay call hcall).resolve_right (fun hway => hstate hway.2))
      | error => exact h.handleTransportFailure message
      | _ => exact h

/-- A call of `connect` that goes on calls the callback in the slot, unless a handshake begins. -/
theorem waits_goOn (h : ∀ call ∈ c.pendingConnectCallback, c.connected = false ∧ c.tlsUpgradeInProgress = false)
    (enableSSL : Bool) (attempt : Attempt) : Waits (c.goOn enableSSL attempt) := by
  cases attempt with
  | failed message => exact waits_of_none (notifyConnect_slot _ _ _)
  | established initialized handshake message =>
    simp only [Client.goOn]
    split
    · simp only [Client.connectSecurely]
      split
      · exact waits_of_none (notifyConnect_slot _ _ _)
      · simp only [Client.driveTlsHandshake,ne_eq,not_true_eq_false,if_false]
        cases handshake with
        | done => exact waits_of_none (markConnected_slot (fun call hcall => (h call hcall).2))
        | wantRead => exact ⟨h,fun _ _ => .inr ⟨rfl,rfl⟩⟩
        | wantWrite => exact ⟨h,fun _ _ => .inr ⟨rfl,rfl⟩⟩
        | failed => exact waits_of_none (notifyConnect_slot _ _ _)
    · exact waits_of_none (markConnected_slot (fun call hcall => (h call hcall).2))

theorem waits_connect (c : Client) (enableSSL : Bool) : Waits (c.connect enableSSL) := by
  simp only [Client.connect]
  split
  · exact waits_of_none (notifyConnect_slot _ _ _)
  · refine ⟨fun _ _ => ⟨rfl,rfl⟩,fun call hcall => .inl ?_⟩
    obtain rfl : c.calls = call := Option.some.inj hcall
    simp

theorem Waits.of_connected (h : Waits c) (hcon : c.connected = true) (hset : Settles c c') : Waits c' := by
  refine waits_of_none (hset.none ?_)
  cases hslot : c.pendingConnectCallback with
  | none => rfl
  | some call =>
    have hoff := (h.unconnected call hslot).1
    rw [hcon] at hoff
    cases hoff

theorem Waits.step (h : Waits c) (e : Event) : Waits (step c e) := by
  cases e with
  | connect enableSSL => exact waits_connect c enableSSL
  | attempt call attempt =>
    simp only [TcpClientConnect.step]
    split
    · refine waits_goOn ?_ _ attempt
      exact h.unconnected
    · exact h
  | disconnect => exact h.disconnect
  | startTls pending callback initialized handshake message =>
    cases hcon : c.connected with
    | true => exact h.of_connected hcon (settles_startTls c _ _ _ _ _)
    | false => simpa [TcpClientConnect.step,Client.startTls,hcon] using h
  | handleEvent handshake status message => exact h.handleEvent handshake status message
  | transportError => exact h.handleTransportFailure _
  | connectTimer =>
    simp only [TcpClientConnect.step]
    split
    · exact h
    · exact h.handleTransportFailure _
  | readTimer =>
    simp only [TcpClientConnect.step]
    split
    · exact h
    · exact h.handleTransportFailure _
  | writeTimer pending =>
    simp only [TcpClientConnect.step]
    split
    · exact h
    · exact h.handleTransportFailure _
  | send status message =>
    cases hcon : c.connected with
    | true => exact h.of_connected hcon (settles_step (by simp))
    | false => simpa [TcpClientConnect.step,hcon] using h

theorem Waits.idle (h : Waits c) (hidle : c.Idle) : c.pendingConnectCallback = none := by
  cases hslot : c.pendingConnectCallback with
  | none => rfl
  | some call =>
    rcases h.underWay call hslot with hcall | ⟨hrun,-⟩
    · rw [hidle.2] at hcall
      cases hcall
    · rw [hidle.1] at hrun
      cases hrun

/-! ### What becomes of each callback -/

def Client.answers (c : Client) (call : Nat) : Nat :=
  c.notices.countP (fun notice => notice.call = call)+(if c.pendingConnectCallback = some call then 1 else 0)

theorem Settles.answers (h : Settles c c') (call : Nat) : c'.answers call = c.answers call := by
  cases h with
  | keeps hcalls hslot hnot => rw [Client.answers,Client.answers,hslot,hnot]
  | notifies hcalls own success message hbef hslot hnot =>
    rw [Client.answers,Client.answers,hslot,hnot,hbef,List.countP_append,List.countP_singleton]
    by_cases hown : own = call
    · simp [hown]
    · simp [hown]

theorem Settles.calls (h : Settles c c') : c'.calls = c.calls := by
  cases h with
  | keeps hcalls hslot hnot => exact hcalls
  | notifies hcalls own success message hbef hslot hnot => exact hcalls

theorem connect_answers (c : Client) (enableSSL : Bool) (call : Nat) :
    (c.connect enableSSL).calls = c.calls+1 ∧
      (c.connect enableSSL).answers call =
        c.notices.countP (fun notice => notice.call = call)+(if call = c.calls then 1 else 0) := by
  have hstor : Settles { c with pendingConnectCallback := some c.calls, calls := c.calls+1 } (c.connect enableSSL) := by
    simp only [Client.connect]
    split
    · exact settles_notifyConnect _ _ _
    · exact .keeps rfl rfl rfl
  refine ⟨hstor.calls,?_⟩
  rw [hstor.answers,Client.answers]
  simp [eq_comm]

/-- As long as no call overlaps another, every call has one answer, given or to come. -/
def Balanced (c : Client) : Prop := ∀ call, c.answers call = if call < c.calls then 1 else 0

theorem connect_or_not (e : Event) : (∃ enableSSL, e = .connect enableSSL) ∨ ∀ enableSSL, e ≠ .connect enableSSL := by
  cases e with
  | connect enableSSL => exact .inl ⟨enableSSL,rfl⟩
  | _ => exact .inr nofun

theorem Balanced.step (h : Balanced c) {e : Event} (hok : NoOverlap c e) : Balanced (step c e) := by
  intro call
  rcases connect_or_not e with ⟨enableSSL,rfl⟩ | hother
  · obtain ⟨hcalls,hans⟩ := connect_answers c enableSSL call
    have hbef := h call
    have hslot : c.pendingConnectCallback = none := hok
    rw [Client.answers,hslot] at hbef
    simp only [reduceCtorEq,if_false,Nat.add_zero] at hbef
    show (c.connect enableSSL).answers call = if call < (c.connect enableSSL).calls then 1 else 0
    rw [hans,hcalls,hbef]
    split <;> split <;> split <;> omega
  · have hset := settles_step (c := c) hother
    rw [hset.answers,hset.calls]
    exact h call

def Lost (call : Nat) (c : Client) : Prop := call < c.calls ∧ c.answers call = 0

theorem Lost.step {call : Nat} (h : Lost call c) (e : Event) : Lost call (step c e) := by
  obtain ⟨hcall,hans⟩ := h
  rcases connect_or_not e with ⟨enableSSL,rfl⟩ | hother
  · obtain ⟨hcalls,hafter⟩ := connect_answers c enableSSL call
    rw [Client.answers] at hans
    refine ⟨?_,?_⟩
    · show call < (c.connect enableSSL).calls
      omega
    · show (c.connect enableSSL).answers call = 0
      rw [hafter,if_neg (by omega)]
      omega
  · have hset := settles_step (c := c) hother
    rw [Lost,hset.answers,hset.calls]
    exact ⟨hcall,hans⟩

theorem Balanced.overlap (h : Balanced c) {e : Event} (hover : ¬ NoOverlap c e) :
    ∃ call, Lost call (TcpClientConnect.step c e) := by
  cases e with
  | connect enableSSL =>
    obtain ⟨call,hslot⟩ := Option.ne_none_iff_exists'.mp hover
    obtain ⟨hcalls,hafter⟩ := connect_answers c enableSSL call
    have hbef := h call
    rw [Client.answers,hslot,if_pos rfl] at hbef
    have hcall : call < c.calls := by
      by_contra hnot
      rw [if_neg hnot] at hbef
      omega
    rw [if_pos hcall] at hbef
    refine ⟨call,?_,?_⟩
    · show call < (c.connect enableSSL).calls
      omega
    · show (c.connect enableSSL).answers call = 0
      rw [hafter,if_neg (by omega)]
      omega
  | _ => exact absurd trivial hover

theorem balanced_or_lost (events : List Event) (h : Balanced c) :
    (Machine.Meets step NoOverlap c events ∧ Balanced (Machine.runs step c events)) ∨
      (¬ Machine.Meets step NoOverlap c events ∧ ∃ call, Lost call (Machine.runs step c events)) := by
  induction events generalizing c with
  | nil => exact .inl ⟨trivial,h⟩
  | cons e events ih =>
    by_cases hok : NoOverlap c e
    · rcases ih (h.step hok) with ⟨hmeets,hbal⟩ | ⟨hnot,hlost⟩
      · exact .inl ⟨⟨hok,hmeets⟩,hbal⟩
      · exact .inr ⟨fun hmeets => hnot hmeets.2,hlost⟩
    · obtain ⟨call,hlost⟩ := h.overlap hok
      refine .inr ⟨fun hmeets => hok hmeets.1,call,?_⟩
      exact Machine.invariant_of_events (fun _ e hlost _ => hlost.step e) hlost (fun _ _ => trivial)

/-- When the client is idle again, the callback of every `connect` has been called once,
exactly when no `connect` was called while an earlier callback waited. -/
theorem connect_answered_iff (events : List Event) (hidle : (Machine.runs step {} events).Idle) :
    (Machine.runs step {} events).Answered ↔ Machine.Meets step NoOverlap {} events := by
  have hwaits : Waits (Machine.runs step {} events) :=
    Machine.invariant_of_events (fun _ e h _ => h.step e) (waits_of_none rfl) (fun _ _ => trivial)
  have hslot := hwaits.idle hidle
  have hans (call : Nat) : (Machine.runs step {} events).answers call =
      (Machine.runs step {} events).notices.countP (fun notice => notice.call = call) := by
    rw [Client.answers,hslot]
    simp
  have hstart : Balanced {} := fun call => by simp [Client.answers]
  rcases balanced_or_lost events hstart with ⟨hmeets,hbal⟩ | ⟨hnot,call,hcall,hlost⟩
  · refine ⟨fun _ => hmeets,fun _ call hcall => ?_⟩
    rw [← hans,hbal call,if_pos hcall]
  · refine ⟨fun hansw => ?_,fun hmeets => absurd hmeets hnot⟩
    have hone := hansw call hcall
    rw [← hans,hlost] at hone
    cases hone

def twoAttempts : List Event :=
  [.connect true,.attempt 0 (.established true .wantRead ""),.handleEvent .failed .ok "TLS handshake failed",
    .connect false,.attempt 1 (.established true .done ""),.disconnect]

theorem connect_answered_twoAttempts :
    (Machine.runs step {} twoAttempts).Idle ∧ (Machine.runs step {} twoAttempts).Answered :=
  have hidle : (Machine.runs step {} twoAttempts).Idle := by decide
  ⟨hidle,(connect_answered_iff twoAttempts hidle).mpr (by decide)⟩

/-- A second `connect` while the first is in its handshake: its own callback is called, the
first one never. -/
def overlappingAttempts : List Event :=
  [.connect true,.attempt 0 (.established true .wantRead ""),.connect true,.handleEvent .done .ok "",.disconnect]

theorem overlappingAttempts_lost :
    (Machine.runs step {} overlappingAttempts).Idle ∧ (Machine.runs step {} overlappingAttempts).calls = 2 ∧
      (Machine.runs step {} overlappingAttempts).notices = [⟨1, false, "Connection is already active"⟩] := by
  decide

end FastNet.TcpClientConnect
