import FastNet.Keyed
import FastNet.Machine

/-!
`IoUringPoller`: the count of the operations under way, and whose callback a completion calls.
-/

namespace FastNet.IoUringPoller

open List Keyed Machine

/-- The poller's table and counter, and what the kernel holds: the operations by tag and
callback, and how many cancellations. -/
structure Poller where
  callbacks : List (Nat × Nat) := []
  inflight : Nat := 0
  operations : List (Nat × Nat) := []
  cancels : Nat := 0

/-- A successful call, or the turn of `processCompletions` for an operation or a cancellation. -/
inductive Event where
  | submit (userData callback : Nat)
  | cancelOp (userData : Nat)
  | complete (userData : Nat) (res : Int)
  | cancelled (res : Int)

def registerCallback (userData callback : Nat) (callbacks : List (Nat × Nat)) : List (Nat × Nat) :=
  match find Prod.fst userData callbacks with
  | some _ => callbacks
  | none => callbacks ++ [(userData,callback)]

def processed (p : Poller) (userData : Nat) : Poller :=
  { p with callbacks := erase Prod.fst userData p.callbacks, inflight := (p.inflight+(2^64-1)) % 2^64 }

def step (p : Poller) : Event → Poller
  | .submit userData callback =>
    { p with
      callbacks := registerCallback userData callback p.callbacks
      inflight := (p.inflight+1) % 2^64
      operations := p.operations ++ [(userData,callback)] }
  | .cancelOp _ => { p with cancels := p.cancels+1 }
  | .complete userData _ =>
    match find Prod.fst userData p.operations with
    | none => p
    | some _ => { processed p userData with operations := erase Prod.fst userData p.operations }
  -- A cancellation is submitted with the user data 0.
  | .cancelled _ => if p.cancels = 0 then p else { processed p 0 with cancels := p.cancels-1 }

/-- The callback that is called, with the result and the tag. -/
def called (p : Poller) : Event → Option (Nat × Int × Nat)
  | .complete userData res =>
    (find Prod.fst userData p.operations).bind fun _ =>
      (find Prod.fst userData p.callbacks).map fun entry => (entry.2,res,userData)
  | .cancelled res =>
    if p.cancels = 0 then none else (find Prod.fst 0 p.callbacks).map fun entry => (entry.2,res,0)
  | _ => none

/-- The callback that the completed operation was submitted with. -/
def due (p : Poller) : Event → Option (Nat × Int × Nat)
  | .complete userData res => (find Prod.fst userData p.operations).map fun o => (o.2,res,userData)
  | _ => none

/-- No operation under way has the tag of a new one. -/
def Fresh (p : Poller) : Event → Prop
  | .submit userData _ => ∀ o ∈ p.operations, o.1 ≠ userData
  | _ => True

/-- No completion of a cancellation is processed, and the counter has room. -/
def Countable (p : Poller) : Event → Prop
  | .submit _ _ => p.operations.length+1 < 2^64
  | .cancelled _ => p.cancels = 0
  | _ => True

structure Sound (p : Poller) : Prop where
  callbacks : p.callbacks = p.operations
  tags : (p.operations.map Prod.fst).Nodup
  counted : p.inflight = p.operations.length
  room : p.inflight < 2^64

variable {p : Poller} {e : Event}

theorem Sound.submit (h : Sound p) {userData : Nat} (hfresh : ∀ o ∈ p.operations, o.1 ≠ userData)
    (hroom : p.operations.length+1 < 2^64) (callback : Nat) : Sound (step p (.submit userData callback)) := by
  have hcount : (step p (.submit userData callback)).inflight = p.operations.length+1 := by
    rw [← Nat.mod_eq_of_lt hroom,← h.counted,step]
  refine ⟨?_,?_,?_,by omega⟩
  · simp [step,registerCallback,h.callbacks,find_none.mpr hfresh]
  · have htags : userData ∉ p.operations.map Prod.fst := by simpa using fun o ho => hfresh _ ho rfl
    simpa [step] using h.tags.concat htags
  · rw [hcount]
    simp [step]

theorem Sound.complete (h : Sound p) (userData : Nat) (res : Int) :
    Sound (step p (.complete userData res)) ∧ called p (.complete userData res) = due p (.complete userData res) := by
  cases hfind : find Prod.fst userData p.operations with
  | none => simpa [step,called,due,hfind] using h
  | some o =>
    obtain ⟨ho,rfl⟩ := find_some hfind
    obtain ⟨front,back,hsplit,herase,-⟩ := split_at h.tags ho
    have hlen : p.inflight = front.length+back.length+1 := by simp [h.counted,hsplit,Nat.add_assoc]
    have hcount : (p.inflight+(2^64-1)) % 2^64 = front.length+back.length := by
      have := h.room
      omega
    refine ⟨⟨?_,?_,?_,?_⟩,?_⟩
    · simp [step,hfind,processed,h.callbacks]
    · simpa [step,hfind] using nodup_erase h.tags o.1
    · simpa [step,hfind,processed,herase] using hcount
    · simpa [step,hfind,processed] using Nat.mod_lt _ (by decide)
    · simp [called,due,hfind,h.callbacks]

theorem Sound.step (h : Sound p) (hfresh : Fresh p e) (hcount : Countable p e) :
    Sound (step p e) ∧ called p e = due p e := by
  cases e with
  | submit userData callback => exact ⟨h.submit hfresh hcount callback,rfl⟩
  | cancelOp userData => exact ⟨⟨h.callbacks,h.tags,h.counted,h.room⟩,rfl⟩
  | complete userData res => exact h.complete userData res
  | cancelled res =>
    have hnone : p.cancels = 0 := hcount
    simpa [IoUringPoller.step,called,due,hnone] using h

end FastNet.IoUringPoller
