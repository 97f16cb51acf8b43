import Mathlib

/-!
Machines that are driven by events from outside: what one event does to the state is a
function, and a run is a list of events. The rules below take a fact from one step to
a whole run, also when the steps of the run keep to a condition.
-/

namespace FastNet.Machine

open List

variable {σ ε : Type} {step : σ → ε → σ}

def runs (step : σ → ε → σ) (s : σ) (events : List ε) : σ := events.foldl step s

/-- Every event of the run meets the condition `ok` in the state in which it happens. -/
def Meets (step : σ → ε → σ) (ok : σ → ε → Prop) : σ → List ε → Prop
  | _, [] => True
  | s, e :: events => ok s e ∧ Meets step ok (step s e) events

instance decidableMeets {ok : σ → ε → Prop} [∀ s e, Decidable (ok s e)] :
    (s : σ) → (events : List ε) → Decidable (Meets step ok s events)
  | _, [] => isTrue trivial
  | s, e :: events =>
    have : Decidable (Meets step ok (step s e) events) := decidableMeets (step s e) events
    inferInstanceAs (Decidable (ok s e ∧ Meets step ok (step s e) events))

@[simp] theorem runs_nil (s : σ) : runs step s [] = s := rfl

@[simp] theorem runs_cons (s : σ) (e : ε) (events : List ε) :
    runs step s (e :: events) = runs step (step s e) events := rfl

theorem runs_append (s : σ) (events events' : List ε) :
    runs step s (events ++ events') = runs step (runs step s events) events' :=
  foldl_append

/-- The invariant rule: what the initial state satisfies and every allowed step keeps,
holds behind every run of allowed steps. -/
theorem invariant {Inv : σ → Prop} {ok : σ → ε → Prop}
    (hstep : ∀ s e, Inv s → ok s e → Inv (step s e)) {s : σ} (hs : Inv s) {events : List ε}
    (hok : Meets step ok s events) : Inv (runs step s events) := by
  induction events generalizing s with
  | nil => exact hs
  | cons e events ih => exact ih (hstep s e hs hok.1) hok.2

theorem meets_of_always {ok : σ → ε → Prop} (h : ∀ s e, ok s e) (s : σ) (events : List ε) :
    Meets step ok s events := by
  induction events generalizing s with
  | nil => trivial
  | cons e events ih => exact ⟨h s e,ih (step s e)⟩

theorem meets_of_invariant {Inv : σ → Prop} {ok : σ → ε → Prop} (hok : ∀ s e, Inv s → ok s e)
    (hstep : ∀ s e, Inv s → Inv (step s e)) {s : σ} (hs : Inv s) (events : List ε) : Meets step ok s events := by
  induction events generalizing s with
  | nil => trivial
  | cons e events ih => exact ⟨hok s e hs,ih (hstep s e hs)⟩

theorem meets_congr {Inv : σ → Prop} {ok ok' : σ → ε → Prop} (hok : ∀ s e, Inv s → (ok s e ↔ ok' s e))
    (hstep : ∀ s e, Inv s → ok s e → Inv (step s e)) {s : σ} (hs : Inv s) (events : List ε) :
    Meets step ok s events ↔ Meets step ok' s events := by
  induction events generalizing s with
  | nil => exact Iff.rfl
  | cons e events ih =>
    rw [Meets,Meets,← hok s e hs]
    exact and_congr_right (fun hfirst => ih (hstep s e hs hfirst))

theorem meets_of_events {ok : σ → ε → Prop} {good : ε → Prop} (h : ∀ s e, good e → ok s e) {s : σ}
    {events : List ε} (hgood : ∀ e ∈ events, good e) : Meets step ok s events := by
  induction events generalizing s with
  | nil => trivial
  | cons e events ih =>
    exact ⟨h s e (hgood e mem_cons_self),ih (fun e' he' => hgood e' (mem_cons_of_mem e he'))⟩

theorem Meets.and_events {ok : σ → ε → Prop} {good : ε → Prop} {s : σ} {events : List ε}
    (h : Meets step ok s events) (hgood : ∀ e ∈ events, good e) : Meets step (fun s e => ok s e ∧ good e) s events := by
  induction events generalizing s with
  | nil => trivial
  | cons e events ih =>
    exact ⟨⟨h.1,hgood e mem_cons_self⟩,ih h.2 (fun e' he' => hgood e' (mem_cons_of_mem e he'))⟩

theorem invariant_of_events {Inv : σ → Prop} {ok : ε → Prop} (hstep : ∀ s e, Inv s → ok e → Inv (step s e))
    {s : σ} (hs : Inv s) {events : List ε} (hok : ∀ e ∈ events, ok e) : Inv (runs step s events) := by
  induction events generalizing s with
  | nil => exact hs
  | cons e events ih =>
    exact ih (hstep s e hs (hok e mem_cons_self)) (fun e' he' => hok e' (mem_cons_of_mem e he'))

theorem traces {Inv : List ε → σ → Prop} {s : σ} (hs : Inv [] s)
    (hstep : ∀ past e s', Inv past s' → Inv (past ++ [e]) (step s' e)) (events : List ε) :
    Inv events (runs step s events) := by
  induction events using reverseRecOn with
  | nil => exact hs
  | append_singleton events e ih =>
    rw [runs_append]
    exact hstep _ _ _ ih

theorem stops_of_variant {Inv done : σ → Prop} (measure : σ → Nat) {e : ε}
    (hstep : ∀ s, Inv s → ¬ done s → Inv (step s e) ∧ measure (step s e) < measure s) {s : σ}
    (hs : Inv s) :
    ∃ n, Inv (runs step s (replicate n e)) ∧ done (runs step s (replicate n e)) := by
  induction hm : measure s using Nat.strongRecOn generalizing s with
  | ind m ih =>
    by_cases hdone : done s
    · exact ⟨0,hs,hdone⟩
    · obtain ⟨hinv,hlt⟩ := hstep s hs hdone
      obtain ⟨n,hn⟩ := ih _ (hm ▸ hlt) hinv rfl
      exact ⟨n+1,hn⟩

theorem feeds {α : Type} {brings : ε → List α} {Inv : List α → σ → Prop} {ok : σ → ε → Prop}
    (hstep : ∀ s e future, ok s e → Inv (brings e ++ future) s → Inv future (step s e)) {s : σ}
    {events : List ε} (hok : Meets step ok s events) (hs : Inv (events.flatMap brings) s) :
    Inv [] (runs step s events) := by
  induction events generalizing s with
  | nil => exact hs
  | cons e events ih => exact ih hok.2 (hstep s e _ hok.1 hs)

section Outputs

variable {α : Type} {out : σ → ε → List α}

/-- What the steps of a run put out, when `out` tells it for one step. -/
def outputs (step : σ → ε → σ) (out : σ → ε → List α) : σ → List ε → List α
  | _, [] => []
  | s, e :: events => out s e ++ outputs step out (step s e) events

theorem mem_outputs {a : α} {s : σ} {events : List ε} (ha : a ∈ outputs step out s events) :
    ∃ s', ∃ e ∈ events, a ∈ out s' e := by
  induction events generalizing s with
  | nil => cases ha
  | cons e events ih =>
    rcases mem_append.mp ha with ha | ha
    · exact ⟨s,e,mem_cons_self,ha⟩
    · obtain ⟨s',e',he',ha'⟩ := ih ha
      exact ⟨s',e',mem_cons_of_mem e he',ha'⟩

theorem outputs_invariant {Inv : List α → σ → Prop} {ok : σ → ε → Prop}
    (hstep : ∀ past s e, Inv past s → ok s e → Inv (past ++ out s e) (step s e)) {past : List α} {s : σ}
    (hs : Inv past s) {events : List ε} (hok : Meets step ok s events) :
    Inv (past ++ outputs step out s events) (runs step s events) := by
  induction events generalizing past s with
  | nil => simpa [outputs] using hs
  | cons e events ih =>
    rw [outputs,← append_assoc]
    exact ih (hstep past s e hs hok.1) hok.2

theorem length_outputs {Inv : σ → Prop} {ok : σ → ε → Prop}
    (hstep : ∀ s e, Inv s → ok s e → (out s e).length = 1 ∧ Inv (step s e)) {s : σ} (hs : Inv s) {events : List ε}
    (hok : Meets step ok s events) : (outputs step out s events).length = events.length := by
  induction events generalizing s with
  | nil => rfl
  | cons e events ih =>
    obtain ⟨hone,hnext⟩ := hstep s e hs hok.1
    rw [outputs,length_append,hone,ih hnext hok.2,length_cons,Nat.add_comm]

end Outputs

section Family

variable {ι : Type} [DecidableEq ι]

def family (step : σ → ε → σ) (s : ι → σ) (e : ι × ε) : ι → σ :=
  Function.update s e.1 (step (s e.1) e.2)

/-- The invariant rule for every member of a family, however its events are interleaved
with those of the others. -/
theorem family_invariant {Inv : σ → Prop} {ok : σ → ε → Prop}
    (hstep : ∀ s e, Inv s → ok s e → Inv (step s e)) {s : ι → σ} (hs : ∀ i, Inv (s i))
    {events : List (ι × ε)} (hok : Meets (family step) (fun s e => ok (s e.1) e.2) s events) (i : ι) :
    Inv (runs (family step) s events i) := by
  refine @invariant _ _ _ (fun s => ∀ i, Inv (s i)) _ (fun s e h hok j => ?_) _ hs _ hok i
  by_cases hj : j = e.1
  · subst hj
    simpa [family] using hstep _ _ (h e.1) hok
  · simpa [family,hj] using h j

def own (i : ι) (events : List (ι × ε)) : List ε :=
  events.filterMap (fun e => if e.1 = i then some e.2 else none)

@[simp] theorem own_map (i : ι) (events : List ε) : own i (events.map (fun e => (i,e))) = events := by
  simp [own,filterMap_map]

theorem own_append (i : ι) (events events' : List (ι × ε)) :
    own i (events ++ events') = own i events ++ own i events' :=
  filterMap_append

theorem own_replicate (i : ι) (n : Nat) (e : ε) : own i (replicate n (i,e)) = replicate n e := by
  rw [← map_replicate,own_map]

theorem runs_family (s : ι → σ) (events : List (ι × ε)) (i : ι) :
    runs (family step) s events i = runs step (s i) (own i events) := by
  induction events generalizing s with
  | nil => rfl
  | cons e events ih =>
    rw [runs_cons,ih]
    by_cases h : e.1 = i
    · subst h
      simp [own,family]
    · simp [own,family,h,Ne.symm h]

end Family

end FastNet.Machine
