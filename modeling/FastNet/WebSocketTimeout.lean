import FastNet.WebSocketOrder

/-!
The ping timer of `WebSocketServer` and the clock. `sendPingToAllClients` reads the clock
before it takes the lock of the client states, and data may arrive in between.
-/

namespace FastNet.WebSocketServer

open Machine

def Event.time : Event → Option Nat
  | .connected _ _ now => some now
  | .data _ now => some now
  | .read env => some env.now
  | .call (.sendPingToAllClients now) => some now
  | .call _ => none
  | .move _ env => some env.now
  | .dropped => none

/-- The clock counts milliseconds in 63 bits and never goes backwards. -/
structure Steady (events : List (Nat × Event)) : Prop where
  ordered : (events.filterMap (fun e => e.2.time)).Pairwise (· ≤ ·)
  bounded : ∀ t ∈ events.filterMap (fun e => e.2.time), t < 2^63

instance (events : List (Nat × Event)) : Decidable (Steady events) :=
  decidable_of_iff (_ ∧ _) ⟨fun h => ⟨h.1,h.2⟩, fun h => ⟨h.1,h.2⟩⟩

def Connection.sweepsAt (c : Connection) (i : Nat) : Option Nat :=
  match c.others[i]? with
  | some (.sweep now :: _) => some now
  | _ => none

def Connection.timesOut (c : Connection) (i : Nat) : Bool :=
  match c.others[i]? with
  | some (.disconnect code reason :: _) => code = 1001 && reason = ascii "Connection timeout"
  | _ => false

/-- Nothing is dated later than `t`. -/
structure Dated (t : Nat) (c : Connection) : Prop where
  client : ∀ state, c.client = some state → state.lastActivity ≤ t
  others : ∀ thread ∈ c.others, ∀ now, Call.sweep now ∈ thread → now ≤ t ∧ thread = [.sweep now]

section Moves

variable {settings : Settings} {env : Env} {c : Connection} {call : Call} {t : Nat}

theorem perform_dated (h : ∀ state, c.client = some state → state.lastActivity ≤ t) (htime : env.now ≤ t) :
    ∀ state, (perform settings env c call).1.client = some state → state.lastActivity ≤ t := by
  cases call with
  | handleFrame type payload =>
    intro state hstate
    simp only [perform] at hstate
    split at hstate
    · rw [Option.map_eq_some_iff] at hstate
      obtain ⟨_,-,rfl⟩ := hstate
      exact htime
    · exact h state hstate
  | _ =>
    simp only [perform,push,dropSession,answer,takeFrame,compactBufferedStateLocked]
    grind

theorem perform_sweeps (now : Nat) : Call.sweep now ∉ (perform settings env c call).2 := by
  cases call <;> simp only [perform,takeFrame,frameCalls,answer] <;> grind

theorem step_dated (settings : Settings) (c : Connection) (e : Event) (h : Dated t c)
    (htime : ∀ now ∈ e.time, now ≤ t) : Dated t (step settings c e) := by
  cases e with
  | connected full address now =>
    simp only [step]
    split
    · exact h
    · split
      · exact ⟨h.client,h.others⟩
      · refine ⟨fun state hstate => ?_,h.others⟩
        cases hstate
        exact htime now rfl
  | data bytes now =>
    simp only [step]
    split
    · refine ⟨fun state hstate => ?_,h.others⟩
      cases hstate
      exact htime now rfl
    · exact h
  | read env =>
    simp only [step]
    cases c.reading with
    | nil => exact h
    | cons call rest =>
      exact ⟨perform_dated h.client (htime _ rfl),by simpa only [(perform_threads).2] using h.others⟩
  | call entry =>
    refine ⟨h.client,fun thread hthr now hnow => ?_⟩
    rcases List.mem_append.mp hthr with hold | hnew
    · exact h.others thread hold now hnow
    · cases entry <;> simp [Entry.calls] at hnew <;> simp [hnew] at hnow
      exact ⟨htime now (by simp [Event.time,hnow]),by rw [hnew,hnow]⟩
  | move i env =>
    simp only [step]
    split
    · rename_i call rest hi
      refine ⟨perform_dated h.client (htime _ rfl),fun thread hthr now hnow => ?_⟩
      simp only [(@perform_threads settings env c call).2] at hthr
      rcases List.mem_or_eq_of_mem_set hthr with hold | hnew
      · exact h.others thread hold now hnow
      · subst hnew
        have hrest : Call.sweep now ∈ rest := (List.mem_append.mp hnow).resolve_left (perform_sweeps now)
        have halone := (h.others _ (List.mem_of_getElem? hi) now (List.mem_cons_of_mem call hrest)).2
        rw [List.cons.injEq] at halone
        simp [halone.2] at hrest
    · exact h
  | dropped => exact ⟨by rintro _ ⟨⟩,h.others⟩

end Moves

theorem dated_runs (settings : Settings) {events : List (Nat × Event)} {t : Nat}
    (htime : ∀ e ∈ events, ∀ now ∈ e.2.time, now ≤ t) (id : Nat) :
    Dated t (runs (serve settings) started events id) :=
  family_invariant (step_dated settings) (fun _ => ⟨by simp [started],by simp [started]⟩)
    (meets_of_events (fun _ _ h => h) htime) id

theorem Steady.le {events : List (Nat × Event)} {e : Nat × Event} {t : Nat}
    (h : Steady (events ++ [e])) (he : e.2.time = some t) : ∀ e ∈ events, ∀ now ∈ e.2.time, now ≤ t := by
  intro e' he' now hnow
  have hord := h.ordered
  rw [List.filterMap_append,List.pairwise_append] at hord
  exact hord.2.2 now (List.mem_filterMap.mpr ⟨e',he',hnow⟩) t (by simp [he])

theorem Dated.sweep {t i now : Nat} {c : Connection} (h : Dated t c) (hsweep : c.sweepsAt i = some now) :
    c.others[i]? = some [.sweep now] ∧ now ≤ t := by
  unfold Connection.sweepsAt at hsweep
  split at hsweep
  · rename_i rest hi
    cases hsweep
    obtain ⟨hle,halone⟩ := h.others _ (List.mem_of_getElem? hi) now (by simp)
    exact ⟨by rw [hi,halone],hle⟩
  · cases hsweep

theorem timesOut_sweep {settings : Settings} {c : Connection} {i now : Nat} {state : ClientState} (env : Env)
    (hi : c.others[i]? = some [.sweep now]) (hclient : c.client = some state) :
    (step settings c (.move i env)).timesOut i = true ↔ state.status = .connected ∧
      settings.connectionTimeout ≠ 0 ∧ settings.connectionTimeout < sizeSub now state.lastActivity := by
  have hlt : i < c.others.length := (List.getElem?_eq_some_iff.mp hi).1
  simp only [step,hi,perform,hclient]
  by_cases hstatus : state.status = .connected
  · by_cases hlate : settings.connectionTimeout ≠ 0 ∧
        settings.connectionTimeout < sizeSub now state.lastActivity
    · rw [if_neg (not_not_intro hstatus),if_pos hlate]
      simp [Connection.timesOut,hlt,hstatus,hlate]
    · rw [if_neg (not_not_intro hstatus),if_neg hlate]
      simp [Connection.timesOut,hlt,hstatus,hlate]
  · rw [if_pos hstatus]
    simp [Connection.timesOut,hlt,hstatus]

/-- When the ping timer comes to a client, it times the client out only after the timeout
has passed, unless the client was active after the timer had read the clock. -/
theorem timeout_due_iff (settings : Settings) (htim : settings.connectionTimeout < 2^32)
    (events : List (Nat × Event)) (id i : Nat) (env : Env)
    (hclock : Steady (events ++ [(id, .move i env)])) {now : Nat} {state : ClientState}
    (hsweep : (Machine.runs (serve settings) started events id).sweepsAt i = some now)
    (hclient : (Machine.runs (serve settings) started events id).client = some state) :
    ((Machine.runs (serve settings) started (events ++ [(id, .move i env)]) id).timesOut i = true →
      settings.connectionTimeout < env.now-state.lastActivity) ↔
    ¬ (state.status = .connected ∧ settings.connectionTimeout ≠ 0 ∧ now < state.lastActivity ∧
      env.now-state.lastActivity ≤ settings.connectionTimeout) := by
  have hdated := dated_runs settings (hclock.le rfl) id
  obtain ⟨hi,hnow⟩ := hdated.sweep hsweep
  have hlast := hdated.client state hclient
  have hbound : env.now < 2^63 := hclock.bounded env.now (by simp [Event.time])
  have hmove : Machine.runs (serve settings) started (events ++ [(id,.move i env)]) id =
      step settings (Machine.runs (serve settings) started events id) (.move i env) := by
    rw [Machine.runs_append]
    exact Function.update_self ..
  rw [hmove,timesOut_sweep env hi hclient]
  by_cases hact : now < state.lastActivity
  · have hwrap : settings.connectionTimeout < sizeSub now state.lastActivity := by
      unfold sizeSub
      omega
    simp only [hwrap,hact,and_true,true_and,not_and,Nat.not_le,and_imp]
  · have helap : sizeSub now state.lastActivity ≤ env.now-state.lastActivity := by
      unfold sizeSub
      omega
    simp only [hact,false_and,and_false,not_false_eq_true,iff_true]
    exact fun hlate => Nat.lt_of_lt_of_le hlate.2.2 helap

/-- The clock is read, data arrive a millisecond later, and the client is timed out. -/
theorem timeout_spurious :
    let events : List (Nat × Event) :=
      [(1,.connected false {} 0),(1,.data upgradeRequest 0),(1,.read {}),(1,.read {}),(1,.read {}),
        (1,.read {}),(1,.call (.sendPingToAllClients 40000)),(1,.data [] 40001),
        (1,.move 0 { now := 40001 })]
    let c := Machine.runs (serve accepting) started events 1
    Steady events ∧ c.timesOut 0 = true ∧ c.client.map (·.lastActivity) = some 40001 := by
  decide +kernel

/-- A client that has been quiet since it connected. -/
theorem timeout_due_quiet :
    let events : List (Nat × Event) :=
      [(1,.connected false {} 0),(1,.data upgradeRequest 0),(1,.read {}),(1,.read {}),(1,.read {}),
        (1,.read {}),(1,.call (.sendPingToAllClients 40000))]
    let c := Machine.runs (serve accepting) started events 1
    c.client.isSome = true ∧ ∀ state, c.client = some state →
      (Machine.runs (serve accepting) started (events ++ [(1,.move 0 { now := 40001 })]) 1).timesOut 0 = true →
      30000 < 40001-state.lastActivity := by
  intro events c
  refine ⟨by decide +kernel,fun state hstate => ?_⟩
  refine (timeout_due_iff accepting (by decide) events 1 0 { now := 40001 } (by decide +kernel)
    (show c.sweepsAt 0 = some 40000 by decide +kernel) hstate).mpr (fun hact => ?_)
  have hlast : (c.client.any fun state => state.lastActivity ≤ 40000) = true := by decide +kernel
  rw [hstate,Option.any_some,decide_eq_true_eq] at hlast
  omega

end FastNet.WebSocketServer
