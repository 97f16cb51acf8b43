import FastNet.Numerals

/-!
What the sessions of the server and the client share: the state of TLS, and the results of
reads and writes on the transport.
-/

namespace FastNet

inductive WaitDirection where
  | none | read | write
  deriving DecidableEq, Repr

inductive TlsState where
  | disabled | handshaking | ready
  deriving DecidableEq, Repr

inductive Handshake where
  | done | wantRead | wantWrite | failed

/-- What the socket does with the bytes that it is given. TLS may have to read before it
can write. -/
inductive Transfer where
  | sent (n : Nat)
  | wouldBlock (wantRead : Bool)
  | failed

inductive Receive where
  | bytes (full : Bool)
  | wouldBlock (wantWrite : Bool)
  | closed
  | failed

inductive IoStatus where
  | ok
  | wouldBlock (wait : WaitDirection)
  | closed
  | error
  deriving DecidableEq, Repr

def IoStatus.calm : IoStatus → Bool
  | .ok => true
  | .wouldBlock _ => true
  | .closed => false
  | .error => false

def writeTransport (tls : Bool) (transfer : Transfer) (data : Bytes) : IoStatus × Bytes :=
  match transfer with
  | .sent n => if data.take n = [] then (.closed,[]) else (.ok,data.take n)
  | .wouldBlock wantRead => (.wouldBlock (if tls && wantRead then .read else .write),[])
  | .failed => (.error,[])

section WriteTransport

variable {tls : Bool} {transfer : Transfer} {data : Bytes}

theorem writeTransport_front (tls : Bool) (transfer : Transfer) (data : Bytes) :
    (writeTransport tls transfer data).2 <+: data := by
  cases transfer with
  | sent n =>
    simp only [writeTransport]
    split
    · exact List.nil_prefix
    · exact List.take_prefix n data
  | wouldBlock wantRead => exact List.nil_prefix
  | failed => exact List.nil_prefix

theorem writeTransport_not_ok (h : (writeTransport tls transfer data).1 ≠ .ok) :
    (writeTransport tls transfer data).2 = [] := by
  cases transfer with
  | sent n =>
    simp only [writeTransport] at h ⊢
    split
    · rfl
    · rename_i hne
      simp [hne] at h
  | wouldBlock wantRead => rfl
  | failed => rfl

end WriteTransport

end FastNet
