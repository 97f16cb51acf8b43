import FastNet.Machine
import FastNet.Numerals

/-!
The shared task list of `IoService`. `drainMailbox` appends under the lock and raises the counter
behind it, `takeSharedTasks` takes and lowers the counter under the lock.
-/

namespace FastNet.IoService

open List Machine Numeral

variable {α : Type}

/-- The list, its counter, the raises that threads have still to do, and all that has been
appended and taken. -/
structure TaskList (α : Type) where
  sharedTasks : List α := []
  sharedReadIdx : Nat := 0
  availableTaskCount : Nat := 0
  raises : List Nat := []
  appended : List α := []
  taken : List α := []

/-- The locked part of `drainMailbox` for a mailbox that is not empty, its raise of the counter,
and `takeSharedTasks`. -/
inductive Event (α : Type) where
  | drainMailbox (task : α) (others : List α)
  | raise (drained : Nat)
  | takeSharedTasks (maxTasks : Nat)

def untaken (s : TaskList α) : List α := s.sharedTasks.drop s.sharedReadIdx

def step (s : TaskList α) : Event α → TaskList α
  | .drainMailbox task others =>
    { s with
      sharedTasks := s.sharedTasks ++ task :: others
      raises := (others.length+1) :: s.raises
      appended := s.appended ++ task :: others }
  | .raise drained =>
    if drained ∈ s.raises then
      { s with
        availableTaskCount := sizeAdd s.availableTaskCount drained
        raises := s.raises.erase drained }
    else s
  | .takeSharedTasks maxTasks =>
    let taken := min (s.sharedTasks.length-s.sharedReadIdx) maxTasks
    let readIdx := s.sharedReadIdx+taken
    let erases := 0 < readIdx ∧ s.sharedTasks.length/2 ≤ readIdx
    { s with
      sharedTasks := if erases then s.sharedTasks.drop readIdx else s.sharedTasks
      sharedReadIdx := if erases then 0 else readIdx
      availableTaskCount := if taken = 0 then s.availableTaskCount else sizeSub s.availableTaskCount taken
      taken := s.taken ++ (untaken s).take taken }

structure Ordered (s : TaskList α) : Prop where
  inside : s.sharedReadIdx ≤ s.sharedTasks.length
  fifo : s.taken ++ untaken s = s.appended

def Roomy (s : TaskList α) (e : Event α) : Prop := (untaken (step s e)).length < 2^64

def Bounded (s : TaskList α) (e : Event α) : Prop := (step s e).availableTaskCount ≤ (untaken (step s e)).length

/-- No task is taken before it has been counted. -/
def Announced (s : TaskList α) : Event α → Prop
  | .takeSharedTasks maxTasks => min (s.sharedTasks.length-s.sharedReadIdx) maxTasks ≤ s.availableTaskCount
  | _ => True

structure Counted (s : TaskList α) : Prop extends Ordered s where
  counted : s.availableTaskCount+s.raises.sum = (untaken s).length
  room : (untaken s).length < 2^64

variable {s : TaskList α} {e : Event α}

theorem untaken_append (h : s.sharedReadIdx ≤ s.sharedTasks.length) (task : α) (others : List α) :
    untaken (step s (.drainMailbox task others)) = untaken s ++ task :: others := drop_append_of_le_length h

theorem length_untaken (s : TaskList α) : (untaken s).length = s.sharedTasks.length-s.sharedReadIdx := length_drop

theorem untaken_take (s : TaskList α) (maxTasks : Nat) :
    untaken (step s (.takeSharedTasks maxTasks)) =
      (untaken s).drop (min (s.sharedTasks.length-s.sharedReadIdx) maxTasks) := by
  simp only [step,untaken,drop_drop]
  split <;> rfl

theorem Ordered.step (h : Ordered s) (e : Event α) : Ordered (step s e) := by
  have hin := h.inside
  cases e with
  | drainMailbox task others =>
    refine ⟨?_,?_⟩
    · simp only [IoService.step,length_append]
      omega
    · rw [untaken_append hin]
      simp only [IoService.step,← h.fifo,append_assoc]
  | raise drained =>
    simp only [IoService.step]
    split <;> exact ⟨hin,h.fifo⟩
  | takeSharedTasks maxTasks =>
    refine ⟨?_,?_⟩
    · simp only [IoService.step]
      split
      · exact Nat.zero_le _
      · omega
    · rw [untaken_take]
      simp only [IoService.step,← h.fifo,append_assoc,take_append_drop]

theorem Counted.step (h : Counted s) (hroom : Roomy s e) (hann : Announced s e) : Counted (step s e) := by
  refine ⟨h.toOrdered.step e,?_,hroom⟩
  have hcounted := h.counted
  have hlt := h.room
  cases e with
  | drainMailbox task others =>
    rw [untaken_append h.inside,length_append,← hcounted]
    simp only [IoService.step,sum_cons,length_cons]
    omega
  | raise drained =>
    simp only [IoService.step]
    split
    · rename_i hmem
      have hsum := sum_erase hmem
      have hadd : sizeAdd s.availableTaskCount drained = s.availableTaskCount+drained := sizeAdd_eq (by omega)
      show sizeAdd s.availableTaskCount drained+(s.raises.erase drained).sum = (untaken s).length
      omega
    · exact hcounted
  | takeSharedTasks maxTasks =>
    rw [untaken_take,length_drop]
    simp only [IoService.step,Announced,length_untaken,sizeSub] at *
    split <;> omega

/-- A task that is taken before it has been counted takes the counter below zero. -/
theorem Counted.bounded_iff (h : Counted s) (hroom : Roomy s e) : Bounded s e ↔ Announced s e := by
  constructor
  · intro hbound
    have hcounted := h.counted
    have hlt := h.room
    cases e with
    | takeSharedTasks maxTasks =>
      rw [Bounded,untaken_take,length_drop] at hbound
      simp only [IoService.step,Announced,length_untaken,sizeSub] at *
      split at hbound <;> omega
    | _ => trivial
  · exact fun hann => Nat.le_of_add_right_le (h.step hroom hann).counted.le

/-- In every run the tasks are taken in order, each once; the counter stays within the number of
untaken tasks if, and only if, no task is taken before it has been counted. -/
theorem tasks_counted_iff (events : List (Event α)) :
    (runs step {} events).taken ++ untaken (runs step {} events) = (runs step {} events).appended ∧
      (Meets step (fun s e => Roomy s e ∧ Bounded s e) {} events ↔
        Meets step (fun s e => Roomy s e ∧ Announced s e) {} events) := by
  have hstart : Ordered ({} : TaskList α) := ⟨Nat.le_refl 0,rfl⟩
  have hempty : Counted ({} : TaskList α) := ⟨hstart,rfl,Nat.two_pow_pos 64⟩
  constructor
  · exact (invariant_of_events (fun _ e h _ => h.step e) hstart (fun e _ => trivial)).fifo
  · refine meets_congr (fun s e h => and_congr_right h.bounded_iff) (fun s e h hok => ?_) hempty events
    exact h.step hok.1 ((h.bounded_iff hok.1).mp hok.2)

/-- A worker takes the task between the append and the raise. -/
theorem counter_wraps :
    let s := runs step ({} : TaskList Nat) [.drainMailbox 7 [],.takeSharedTasks 1]
    untaken s = [] ∧ s.availableTaskCount = 2^64-1 := by
  decide

end FastNet.IoService
