import FastNet.Machine

/-!
Threads that share a state. A call is a row of moves, the moves of different calls come in
any order, and a move may put others in its place. The rules below speak of the moves that
are still to be made as of a bag: which thread makes which of them does not matter.
-/

namespace FastNet.Threads

variable {σ κ μ η : Type}

structure Pool (σ μ : Type) where
  shared : σ
  threads : List (List μ) := []

def Pool.pending (p : Pool σ μ) : Multiset μ := p.threads.flatten

/-- A call is made, or the thread of a call makes its next move and meets `env`. -/
inductive Event (κ η : Type) where
  | call (entry : κ)
  | move (i : Nat) (env : η)

variable {moves : κ → List μ} {perform : σ → η → μ → σ × List μ} {Inv : σ → Multiset μ → Prop}

def step (moves : κ → List μ) (perform : σ → η → μ → σ × List μ) (p : Pool σ μ) : Event κ η → Pool σ μ
  | .call entry => { p with threads := p.threads ++ [moves entry] }
  | .move i env =>
    match p.threads[i]? with
    | some (m :: rest) =>
      let (shared,next) := perform p.shared env m
      { shared, threads := p.threads.set i (next ++ rest) }
    | _ => p

@[simp] theorem pending_call (p : Pool σ μ) (entry : κ) :
    (step moves perform p (.call entry)).pending = moves entry + p.pending := by
  refine Multiset.coe_eq_coe.mpr ?_
  simpa [step] using List.perm_append_comm

/-- A thread of the pool makes a move: the bag has it and the others before, and what it
leaves and the others behind. -/
theorem move_cases (p : Pool σ μ) (i : Nat) (env : η) :
    step moves perform p (.move i env) = p ∨
      ∃ m others, p.threads[i]?.bind List.head? = some m ∧ p.pending = m ::ₘ others ∧
        (step moves perform p (.move i env)).shared = (perform p.shared env m).1 ∧
        (step moves perform p (.move i env)).pending = (perform p.shared env m).2 + others := by
  cases hi : p.threads[i]? with
  | none => exact .inl (by simp [step,hi])
  | some thread =>
    cases thread with
    | nil => exact .inl (by simp [step,hi])
    | cons m rest =>
      obtain ⟨hlt,hget⟩ := List.getElem?_eq_some_iff.mp hi
      have hthr : p.threads = p.threads.take i ++ (m :: rest) :: p.threads.drop (i+1) := by
        rw [← hget,List.getElem_cons_drop,List.take_append_drop]
      refine .inr ⟨m,((p.threads.take i).flatten ++ (rest ++ (p.threads.drop (i+1)).flatten) : List μ),rfl,?_,?_,?_⟩
      · refine Multiset.coe_eq_coe.mpr ?_
        have hflat := congrArg List.flatten hthr
        simp only [List.flatten_append,List.flatten_cons,List.cons_append] at hflat
        rw [hflat]
        exact List.perm_middle
      · simp [step,hi]
      · refine Multiset.coe_eq_coe.mpr ?_
        simp only [step,hi,List.set_eq_take_append_cons_drop,hlt,if_true,List.flatten_append,List.flatten_cons,
          List.append_assoc]
        exact List.perm_append_comm_assoc _ _ _

/-- The condition that a run keeps to: `okCall` for its calls, and for its moves `okMove`,
which sees the shared state, the bag and what the move meets. -/
def Allowed (okCall : κ → Prop) (okMove : σ → Multiset μ → η → μ → Prop) (p : Pool σ μ) : Event κ η → Prop
  | .call entry => okCall entry
  | .move i env => ∀ m ∈ p.threads[i]?.bind List.head?, okMove p.shared p.pending env m

instance {okCall : κ → Prop} {okMove : σ → Multiset μ → η → μ → Prop} [DecidablePred okCall]
    [∀ s pending env m, Decidable (okMove s pending env m)] (p : Pool σ μ) (e : Event κ η) :
    Decidable (Allowed okCall okMove p e) := by
  cases e with
  | call entry => exact inferInstanceAs (Decidable (okCall entry))
  | move i env => exact inferInstanceAs (Decidable (∀ m ∈ _, okMove _ _ _ m))

/-- The invariant rule for pools: a fact about the state and the bag that calls and single
moves keep, holds behind every run. -/
theorem invariant (okCall : κ → Prop) (okMove : σ → Multiset μ → η → μ → Prop)
    (hcall : ∀ s others entry, okCall entry → Inv s others → Inv s (moves entry + others))
    (hmove : ∀ s others env m, okMove s (m ::ₘ others) env m → Inv s (m ::ₘ others) →
      Inv (perform s env m).1 ((perform s env m).2 + others))
    {p : Pool σ μ} (hp : Inv p.shared p.pending) {events : List (Event κ η)}
    (hok : Machine.Meets (step moves perform) (Allowed okCall okMove) p events) :
    Inv (Machine.runs (step moves perform) p events).shared (Machine.runs (step moves perform) p events).pending := by
  refine @Machine.invariant _ _ _ (fun p => Inv p.shared p.pending) _ (fun p e hinv hok => ?_) _ hp _ hok
  cases e with
  | call entry =>
    rw [pending_call]
    exact hcall _ _ _ hok hinv
  | move i env =>
    rcases move_cases p i env with hstays | ⟨m,others,hhead,hbef,hshar,hbeh⟩
    · rw [hstays]
      exact hinv
    · have hokMove := hok m hhead
      rw [hbef] at hokMove hinv
      rw [hshar,hbeh]
      exact hmove _ _ _ _ hokMove hinv

theorem invariant_events (okCall : κ → Prop) (okMove : η → Prop)
    (hcall : ∀ s others entry, okCall entry → Inv s others → Inv s (moves entry + others))
    (hmove : ∀ s others env m, okMove env → Inv s (m ::ₘ others) →
      Inv (perform s env m).1 ((perform s env m).2 + others))
    {p : Pool σ μ} (hp : Inv p.shared p.pending) {events : List (Event κ η)}
    (hok : ∀ e ∈ events, match e with
      | .call entry => okCall entry
      | .move _ env => okMove env) :
    Inv (Machine.runs (step moves perform) p events).shared (Machine.runs (step moves perform) p events).pending := by
  refine invariant okCall (fun _ _ env _ => okMove env) hcall hmove hp ?_
  refine Machine.meets_of_events (fun p e he => ?_) hok
  cases e with
  | call entry => exact he
  | move i env => exact fun _ _ => he

theorem invariant_always (hcall : ∀ s others entry, Inv s others → Inv s (moves entry + others))
    (hmove : ∀ s others env m, Inv s (m ::ₘ others) → Inv (perform s env m).1 ((perform s env m).2 + others))
    {p : Pool σ μ} (hp : Inv p.shared p.pending) (events : List (Event κ η)) :
    Inv (Machine.runs (step moves perform) p events).shared (Machine.runs (step moves perform) p events).pending := by
  refine invariant_events (fun _ => True) (fun _ => True) (fun s others entry _ => hcall s others entry)
    (fun s others env m _ => hmove s others env m) hp (fun e _ => ?_)
  cases e <;> trivial

/-! ### A thread alone -/

variable {goal : μ}

def alone (perform : σ → η → μ → σ × List μ) : σ → List μ → List η → σ × List μ
  | s, m :: rest, env :: envs => alone perform (perform s env m).1 ((perform s env m).2 ++ rest) envs
  | s, moves, _ => (s,moves)

/-- Behind some moves, whatever they meet, the thread comes to the move `goal`. -/
def Leads (perform : σ → η → μ → σ × List μ) (s : σ) (moves : List μ) (goal : μ) : Prop :=
  ∃ n, ∀ envs : List η, envs.length = n → (alone perform s moves envs).2.head? = some goal

theorem leads_now (s : σ) (rest : List μ) : Leads perform s (goal :: rest) goal := by
  refine ⟨0,fun envs henvs => ?_⟩
  rw [List.length_eq_zero_iff.mp henvs]
  rfl

theorem leads_move {s s' : σ} {m : μ} {rest next : List μ} (hm : ∀ env, perform s env m = (s',next))
    (h : Leads perform s' (next ++ rest) goal) : Leads perform s (m :: rest) goal := by
  obtain ⟨n,hn⟩ := h
  refine ⟨n+1,fun envs henvs => ?_⟩
  cases envs with
  | nil => cases henvs
  | cons env envs =>
    rw [alone,hm]
    exact hn envs (Nat.succ.inj henvs)

/-- The rule for threads that do not come to a move, as long as what they meet keeps to a
condition. -/
theorem alone_avoids (Inv : σ → List μ → Prop) (ok : η → Prop)
    (hstep : ∀ s env m rest, ok env → Inv s (m :: rest) → Inv (perform s env m).1 ((perform s env m).2 ++ rest))
    (hgoal : ∀ s rest, ¬ Inv s (goal :: rest)) {s : σ} {moves : List μ} (h : Inv s moves) {envs : List η}
    (henvs : ∀ env ∈ envs, ok env) : (alone perform s moves envs).2.head? ≠ some goal := by
  induction envs generalizing s moves with
  | nil =>
    cases moves with
    | nil => simp [alone]
    | cons m rest =>
      intro hm
      obtain rfl : m = goal := Option.some.inj hm
      exact hgoal s rest h
  | cons env envs ih =>
    cases moves with
    | nil => simp [alone]
    | cons m rest =>
      exact ih (hstep s env m rest (henvs env List.mem_cons_self) h)
        (fun env' henv' => henvs env' (List.mem_cons_of_mem env henv'))

theorem not_leads {s : σ} {moves : List μ} (env : η)
    (h : ∀ n, (alone perform s moves (List.replicate n env)).2.head? ≠ some goal) : ¬ Leads perform s moves goal := by
  rintro ⟨n,hn⟩
  exact h n (hn _ List.length_replicate)

end FastNet.Threads
