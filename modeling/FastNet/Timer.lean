import FastNet.Machine

/-!
`TimerManager`. Every call takes the lock once, and the worker lets go of it around a
callback; between these parts every other thread may come, the callback itself included.
-/

namespace FastNet.TimerManager

open Machine

structure TimerEntry where
  expireTime : Int := 0
  interval : Int := 0
  repeats : Bool := false
  cancelled : Bool := false

/-- Where the worker is: not there, in its inner loop, behind it with the entry that it has
taken, in the callback of the entry, or on the way to put the entry back. -/
inductive Worker where
  | gone | waiting | taken (id : Nat) | calling (id : Nat) | rearming (id : Nat)
  deriving DecidableEq

structure Run where
  id : Nat
  expireTime : Int
  time : Int
  deriving DecidableEq

structure Manager where
  clock : Int
  running : Bool := false
  nextTimerId : Nat := 1
  entry : Nat → TimerEntry := fun _ => {}
  /-- entries that `schedule` has yet to put in -/
  scheduled : List Nat := []
  /-- the queue, with the times by which it is ordered -/
  timers : List (Nat × Int) := []
  activeTimers : List Nat := []
  worker : Worker := .gone
  log : List Run := []

def later (t d : Int) : Int := (t+(d*1000000).bmod (2^64)).bmod (2^64)

def push (m : Manager) (id : Nat) : Manager :=
  { m with
    activeTimers := id :: m.activeTimers, timers := (id,(m.entry id).expireTime) :: m.timers }

def cancelTimer (m : Manager) (id : Nat) : Manager × Bool :=
  if id ∈ m.activeTimers then
    ({ m with
      entry := Function.update m.entry id { m.entry id with cancelled := true },
      activeTimers := m.activeTimers.filter (· ≠ id) },true)
  else (m,false)

def nextExpire (m : Manager) (e : TimerEntry) : Int :=
  if later e.expireTime e.interval ≤ m.clock then later m.clock e.interval
  else later e.expireTime e.interval

/-- What happens: the clock goes on, threads call the manager, and the worker moves. -/
inductive Event where
  | tick (d : Nat)
  /-- `start` up to the join, and behind it -/
  | start | spawn
  /-- `stop` up to the join, and behind it; another thread may have started the manager again -/
  | stop | clear
  /-- `schedule` before the lock, and under it -/
  | schedule (delay : Int) (repeats : Bool)
  | insert (id : Nat)
  | cancelTimer (id : Nat)
  /-- a turn of the inner loop, with the top of the queue -/
  | look (top : Nat × Int)
  | leave
  /-- from the inner loop to the callback -/
  | check
  /-- behind the callback, up to the lock, and under it -/
  | returned | rearm

def look (m : Manager) (top : Nat × Int) : Manager :=
  if (m.entry top.1).cancelled then { m with timers := m.timers.erase top }
  else if m.clock < (m.entry top.1).expireTime then m
  else { m with
    timers := m.timers.erase top, activeTimers := m.activeTimers.filter (· ≠ top.1), worker := .taken top.1 }

def step (m : Manager) : Event → Manager
  | .tick d => { m with clock := m.clock+d }
  | .start => { m with running := true }
  | .spawn => if m.running ∧ m.worker = .gone then { m with worker := .waiting } else m
  | .stop => { m with running := false }
  | .clear => { m with
      entry := fun id =>
        if id ∈ m.activeTimers then { m.entry id with cancelled := true } else m.entry id,
      timers := [], activeTimers := [] }
  | .schedule delay repeats => { m with
      nextTimerId := m.nextTimerId+1, scheduled := m.nextTimerId :: m.scheduled,
      entry := Function.update m.entry m.nextTimerId
        { expireTime := later m.clock (max 0 delay), interval := max 1 delay, repeats } }
  | .insert id => if id ∈ m.scheduled then push { m with scheduled := m.scheduled.erase id } id else m
  | .cancelTimer id => (cancelTimer m id).1
  | .look top =>
    if m.worker = .waiting ∧ m.running ∧ top ∈ m.timers ∧ ∀ e ∈ m.timers, top.2 ≤ e.2 then look m top else m
  | .leave => if m.worker = .waiting ∧ !m.running then { m with worker := .gone } else m
  | .check =>
    match m.worker with
    | .taken id =>
      if !m.running then { m with worker := .gone }
      else if (m.entry id).cancelled then { m with worker := .waiting }
      else { m with
        worker := .calling id, log := m.log ++ [{ id, expireTime := (m.entry id).expireTime, time := m.clock }] }
    | _ => m
  | .returned =>
    match m.worker with
    | .calling id =>
      if !(m.entry id).repeats || (m.entry id).cancelled || !m.running then { m with worker := .waiting }
      else { m with
        worker := .rearming id
        entry := Function.update m.entry id { m.entry id with expireTime := nextExpire m (m.entry id) } }
    | _ => m
  | .rearm =>
    match m.worker with
    | .rearming id =>
      if !(m.entry id).cancelled && m.running then push { m with worker := .waiting } id
      else { m with worker := .waiting }
    | _ => m

def same (i id : Nat) : Nat := if i = id then 1 else 0

@[simp] theorem same_self (id : Nat) : same id id = 1 := if_pos rfl

def Worker.holds (id : Nat) : Worker → Nat
  | .gone | .waiting => 0
  | .taken i | .calling i | .rearming i => same i id

def Worker.takes (id : Nat) : Worker → Nat
  | .taken i => same i id
  | _ => 0

def unused (next id : Nat) : Nat := if next ≤ id then 1 else 0

theorem unused_succ (next id : Nat) : unused next id = unused (next+1) id+same next id := by
  unfold unused same
  split <;> split <;> split <;> omega

def waits (m : Manager) (id : Nat) : Nat :=
  unused m.nextTimerId id+m.scheduled.count id+(m.timers.map Prod.fst).count id

/-- How often a callback has been called, and with the call that the worker is on its way to. -/
def runsOf (m : Manager) (id : Nat) : Nat := m.log.countP (·.id = id)

def calls (m : Manager) (id : Nat) : Nat := m.log.countP (·.id = id)+m.worker.takes id

structure Tidy (m : Manager) : Prop where
  /-- the queue is ordered by the times that its entries have now -/
  keys : ∀ e ∈ m.timers, (m.entry e.1).expireTime = e.2
  active : ∀ e ∈ m.timers, (m.entry e.1).cancelled = true ∨ e.1 ∈ m.activeTimers
  /-- an entry is in one place -/
  places : ∀ id, waits m id+m.worker.holds id ≤ 1
  once : ∀ id, (m.entry id).repeats = false ∨ m.nextTimerId ≤ id → waits m id+calls m id ≤ 1
  rearms : ∀ id, m.worker = .rearming id → (m.entry id).repeats = true
  due : ∀ id, m.worker = .taken id → (m.entry id).expireTime ≤ m.clock
  log : ∀ r ∈ m.log, r.expireTime ≤ r.time
  known : ∀ id ∈ m.activeTimers, id < m.nextTimerId

theorem count_cons_same (e : Nat × Int) (timers : List (Nat × Int)) (id : Nat) :
    ((e :: timers).map Prod.fst).count id = (timers.map Prod.fst).count id+same e.1 id := by
  simp [List.count_cons,same]

theorem count_erase_top {timers : List (Nat × Int)} {top : Nat × Int} (h : top ∈ timers) (id : Nat) :
    (timers.map Prod.fst).count id = ((timers.erase top).map Prod.fst).count id+same top.1 id := by
  rw [((List.perm_cons_erase h).map Prod.fst).count_eq,count_cons_same]

section Moves

variable {m : Manager} {id : Nat}

theorem Tidy.count_le (h : Tidy m) (id : Nat) :
    unused m.nextTimerId id+(m.timers.map Prod.fst).count id+m.worker.holds id ≤ 1 := by
  have hplace := h.places id
  unfold waits at hplace
  omega

theorem ne_of_count {timers : List (Nat × Int)} (h : (timers.map Prod.fst).count id = 0) :
    ∀ e ∈ timers, e.1 ≠ id :=
  fun _ he hid => List.count_eq_zero.mp h (hid ▸ List.mem_map_of_mem he)

theorem schedule_tidy (h : Tidy m) (delay : Int) (repeats : Bool) : Tidy (step m (.schedule delay repeats)) := by
  have hunus : unused m.nextTimerId m.nextTimerId = 1 := if_pos (Nat.le_refl _)
  have hsucc := unused_succ m.nextTimerId
  have hcount := h.count_le m.nextTimerId
  have hne := ne_of_count (show (m.timers.map Prod.fst).count m.nextTimerId = 0 by omega)
  obtain ⟨hkeys,hact,hplace,honce,hrear,hdue,hlog,hknown⟩ := h
  constructor <;> simp only [step,waits,calls] at * <;> grind [Worker.holds,same]

theorem look_tidy (h : Tidy m) {top : Nat × Int} (hwor : m.worker = .waiting) (htop : top ∈ m.timers) :
    Tidy (look m top) := by
  have hcount := count_erase_top htop
  have hne := ne_of_count (show ((m.timers.erase top).map Prod.fst).count top.1 = 0 by
    have hle := h.count_le top.1
    rw [hcount,same_self] at hle
    omega)
  obtain ⟨hkeys,hact,hplace,honce,hrear,hdue,hlog,hknown⟩ := h
  unfold look
  split
  · constructor <;> simp only [waits,calls] at * <;> grind
  · split
    · exact ⟨hkeys,hact,hplace,honce,hrear,hdue,hlog,hknown⟩
    · constructor <;> simp only [waits,calls] at * <;> grind [Worker.takes,Worker.holds]

theorem returned_tidy (h : Tidy m) (hwor : m.worker = .calling id) : Tidy (step m .returned) := by
  have hne := ne_of_count (show (m.timers.map Prod.fst).count id = 0 by
    have hle := h.count_le id
    rw [hwor,Worker.holds,same_self] at hle
    omega)
  obtain ⟨hkeys,hact,hplace,honce,hrear,hdue,hlog,hknown⟩ := h
  simp only [step,hwor]
  split <;> constructor <;> simp only [waits,calls] at * <;> grind [Worker.takes,Worker.holds]

theorem push_tidy (h : Tidy m) (hplace : waits m id+m.worker.holds id = 0)
    (honce : (m.entry id).repeats = false ∨ m.nextTimerId ≤ id → waits m id+calls m id = 0) :
    Tidy (push m id) := by
  obtain ⟨hkeys,hact,hplac,honces,hrear,hdue,hlog,hknown⟩ := h
  constructor <;> simp only [push,waits,calls,count_cons_same] at * <;> grind [same,unused]

theorem release_tidy (h : Tidy m) {w : Worker} (hw : w = .waiting ∨ w = .gone) : Tidy { m with worker := w } := by
  obtain ⟨hkeys,hact,hplac,honces,hrear,hdue,hlog,hknown⟩ := h
  constructor <;> simp only [waits,calls] at * <;> grind [Worker.takes,Worker.holds]

theorem step_tidy (m : Manager) (e : Event) (h : Tidy m) : Tidy (step m e) := by
  cases e with
  | tick d =>
    exact ⟨h.keys,h.active,h.places,h.once,h.rearms,
      fun id hid => Int.le_trans (h.due id hid) (Int.le_add_of_nonneg_right (Int.natCast_nonneg d)),h.log,h.known⟩
  | start => exact ⟨h.keys,h.active,h.places,h.once,h.rearms,h.due,h.log,h.known⟩
  | stop => exact ⟨h.keys,h.active,h.places,h.once,h.rearms,h.due,h.log,h.known⟩
  | spawn =>
    simp only [step]
    split
    · exact release_tidy h (.inl rfl)
    · exact h
  | clear =>
    obtain ⟨hkeys,hact,hplace,honce,hrear,hdue,hlog,hknown⟩ := h
    constructor <;> simp only [step,waits,calls] at * <;> grind
  | schedule delay repeats => exact schedule_tidy h delay repeats
  | insert id =>
    simp only [step]
    split
    · rename_i hid
      have hpos := List.count_pos_iff.mpr hid
      have hplace := h.places id
      have honce := h.once id
      have herase : Tidy { m with scheduled := m.scheduled.erase id } := by
        obtain ⟨hkeys,hact,hplac,honces,hrear,hdue,hlog,hknown⟩ := h
        constructor <;> simp only [waits,calls] at * <;> grind
      refine push_tidy herase ?_ (fun hsin => ?_)
      · simp only [waits,List.count_erase_self] at *
        omega
      · have hle := honce hsin
        simp only [waits,calls,List.count_erase_self] at *
        omega
    · exact h
  | cancelTimer id =>
    simp only [step,cancelTimer]
    split
    · obtain ⟨hkeys,hact,hplac,honces,hrear,hdue,hlog,hknown⟩ := h
      constructor <;> simp only [waits,calls] at * <;> grind
    · exact h
  | look top =>
    simp only [step]
    split
    · rename_i hlook
      exact look_tidy h hlook.1 hlook.2.2.1
    · exact h
  | leave =>
    simp only [step]
    split
    · exact release_tidy h (.inr rfl)
    · exact h
  | check =>
    simp only [step]
    split
    · split
      · exact release_tidy h (.inr rfl)
      · split
        · exact release_tidy h (.inl rfl)
        · obtain ⟨hkeys,hact,hplac,honces,hrear,hdue,hlog,hknown⟩ := h
          constructor <;> simp only [waits,calls] at * <;> grind [Worker.takes,Worker.holds,same]
    · exact h
  | returned =>
    cases hwor : m.worker with
    | calling id => exact returned_tidy h hwor
    | _ => simpa only [step,hwor] using h
  | rearm =>
    simp only [step]
    split
    · rename_i id hwor
      have hplace := h.places id
      have hrear := h.rearms id hwor
      split
      · refine push_tidy (release_tidy h (.inl rfl)) ?_ ?_ <;>
          simp only [waits,calls,hwor,Worker.holds,same_self,unused] at * <;> grind
      · exact release_tidy h (.inl rfl)
    · exact h

theorem started_tidy (clock : Int) : Tidy { clock } := by
  constructor <;> simp [waits,calls,Worker.holds,Worker.takes,unused] <;> grind

/-- An entry that is not put back: it is cancelled, or it is out of the queue and its timer
does not repeat. -/
structure Over (m : Manager) (id : Nat) : Prop where
  known : id < m.nextTimerId
  out : (m.entry id).cancelled = true ∨ id ∉ m.scheduled ∧ (∀ e ∈ m.timers, e.1 ≠ id) ∧
    (m.worker.holds id = 1 → (m.entry id).repeats = false)

theorem step_over (m : Manager) (e : Event) (h : Tidy m) (hover : Over m id) :
    Over (step m e) id ∧ calls (step m e) id ≤ calls m id := by
  obtain ⟨hknown,hout⟩ := hover
  have hrear := h.rearms
  cases e with
  | look top =>
    simp only [step,look,calls]
    grind [Worker.takes,Worker.holds,same,Over]
  | check =>
    simp only [step,calls]
    grind [Worker.takes,Worker.holds,same,Over]
  | returned =>
    simp only [step]
    split
    · rename_i id' hwor
      split
      · exact ⟨⟨hknown,by grind [Worker.holds]⟩,by simp [calls,hwor,Worker.takes]⟩
      · exact ⟨⟨hknown,by grind [Worker.holds,same]⟩,by simp [calls,hwor,Worker.takes]⟩
    · exact ⟨⟨hknown,hout⟩,Nat.le_refl _⟩
  | rearm =>
    simp only [step,calls,push]
    grind [Worker.takes,Worker.holds,same,Over]
  | cancelTimer id' =>
    simp only [step,cancelTimer]
    split
    · exact ⟨⟨hknown,by grind⟩,Nat.le_refl _⟩
    · exact ⟨⟨hknown,hout⟩,Nat.le_refl _⟩
  | _ =>
    simp only [step,push,calls]
    grind [Worker.takes,Worker.holds,Over]

theorem calls_runs (h : Tidy m) (hover : Over m id) (events : List Event) :
    calls (runs step m events) id ≤ calls m id := by
  induction events generalizing m with
  | nil => exact Nat.le_refl _
  | cons e events ih =>
    obtain ⟨hnext,hle⟩ := step_over m e h hover
    exact Nat.le_trans (ih (step_tidy m e h) hnext) hle

theorem tidy_runs (clock : Int) (events : List Event) : Tidy (runs step { clock } events) :=
  invariant (fun m e h _ => step_tidy m e h) (started_tidy clock)
    (meets_of_always (fun _ _ => trivial) _ _)

end Moves

/-- A timer is in one place at most: on its way to the queue, in it, or with the worker. -/
theorem timer_in_one_place (clock : Int) (events : List Event) (id : Nat) :
    let m := runs step { clock } events
    m.scheduled.count id+(m.timers.map Prod.fst).count id+m.worker.holds id ≤ 1 := by
  have hplac := (tidy_runs clock events).places id
  rw [waits] at hplac
  simp only
  omega

/-- A timer is cancelled for good when it does not repeat, when the worker does not have it
in its hands, or when it has been cancelled before. -/
theorem cancel_final (clock : Int) (events later : List Event) (id : Nat)
    (hknown : id < (Machine.runs step { clock } events).nextTimerId)
    (hin : id ∉ (Machine.runs step { clock } events).scheduled)
    (hfree : ((Machine.runs step { clock } events).entry id).repeats = true →
      (Machine.runs step { clock } events).worker.holds id = 0 ∨
        ((Machine.runs step { clock } events).entry id).cancelled = true) :
    runsOf (Machine.runs step { clock } (events ++ .cancelTimer id :: later)) id ≤
      runsOf (Machine.runs step { clock } events) id +
        (Machine.runs step { clock } events).worker.takes id := by
  rw [Machine.runs_append,Machine.runs_cons]
  generalize hm : Machine.runs step { clock } events = m at *
  have htidy : Tidy m := hm ▸ tidy_runs clock events
  have hover : Over (step m (.cancelTimer id)) id := by
    simp only [step,cancelTimer]
    split
    · exact ⟨hknown,.inl (by simp)⟩
    · rename_i hact
      refine ⟨hknown,?_⟩
      by_cases hcan : (m.entry id).cancelled = true
      · exact .inl hcan
      · refine .inr ⟨hin,fun e he hid => ?_,fun hholds => ?_⟩
        · rcases htidy.active e he with h | h
          · exact hcan (hid ▸ h)
          · exact hact (hid ▸ h)
        · cases hrep : (m.entry id).repeats with
          | false => rfl
          | true =>
            exact absurd (((hfree hrep).resolve_right hcan).symm.trans hholds) (by decide)
  have hcalls : calls (step m (.cancelTimer id)) id = calls m id := by
    simp only [step,cancelTimer]
    split <;> rfl
  have hle := calls_runs (step_tidy m _ htidy) hover later
  rw [hcalls] at hle
  unfold calls at hle
  unfold runsOf
  omega

/-- A repeating timer is cancelled in its own callback, and is called again. -/
theorem cancel_forgotten :
    let m := Machine.runs step { clock := 0 }
      [.start,.spawn,.schedule 1 true,.insert 1,.tick 1000000,.look (1,1000000),.check]
    m.worker = .calling 1 ∧ (cancelTimer m 1).2 = false ∧ runsOf m 1 = 1 ∧
      runsOf (Machine.runs step m
        [.cancelTimer 1,.returned,.rearm,.tick 1000000,.look (1,2000000),.check]) 1 = 2 := by
  decide +kernel

/-- A repeating timer is cancelled before the worker takes it. -/
theorem cancel_final_waiting :
    let events : List Event := [.start,.spawn,.schedule 1 true,.insert 1]
    (cancelTimer (Machine.runs step { clock := 0 } events) 1).2 = true ∧
      ∀ later, runsOf (Machine.runs step { clock := 0 } (events ++ .cancelTimer 1 :: later)) 1 ≤ 0 :=
  ⟨by decide +kernel,fun later => cancel_final 0 _ later 1 (by decide +kernel) (by decide +kernel)
    (fun _ => .inl (by decide +kernel))⟩

end FastNet.TimerManager
