import FastNet.Threads

/-!
Threads that share a state and a mutex. Besides free moves a thread makes guarded ones: a
free move may enter a row of them, which the thread makes while it holds the mutex and the
others make free moves only. A thread that cannot enter waits.
-/

namespace FastNet.Guarded

open List

variable {σ κ φ γ η : Type}

/-- `block` is what the thread `owner` has still to do under the mutex; the mutex is free
when it is empty. -/
structure Pool (σ φ γ : Type) where
  shared : σ
  threads : List (List φ) := []
  owner : Nat := 0
  block : List γ := []

def Pool.pending (p : Pool σ φ γ) : Multiset φ := p.threads.flatten

def Pool.next (p : Pool σ φ γ) (i : Nat) : Option (φ ⊕ γ) :=
  match p.block with
  | g :: _ => if p.owner = i then some (.inr g) else (p.threads[i]?.bind head?).map .inl
  | [] => (p.threads[i]?.bind head?).map .inl

variable {moves : κ → List φ} {free : σ → η → φ → σ × List φ × List γ} {guarded : σ → η → γ → σ × List γ}
  {p : Pool σ φ γ} {i : Nat} {m : φ} {Inv : σ → List γ → Multiset φ → Prop}

def step (moves : κ → List φ) (free : σ → η → φ → σ × List φ × List γ) (guarded : σ → η → γ → σ × List γ)
    (p : Pool σ φ γ) : Threads.Event κ η → Pool σ φ γ
  | .call entry => { p with threads := p.threads ++ [moves entry] }
  | .move i env =>
    match p.next i with
    | some (.inr g) =>
      let (shared,next) := guarded p.shared env g
      { p with shared, block := next ++ p.block.tail }
    | some (.inl m) =>
      let (shared,next,block) := free p.shared env m
      let threads := p.threads.modify i (fun thread => next ++ thread.tail)
      match block, p.block with
      | [], _ => { p with shared, threads }
      | _, [] => { shared, threads, owner := i, block }
      | _, _ => p
    | none => p

@[simp] theorem pending_call (p : Pool σ φ γ) (entry : κ) :
    (step moves free guarded p (.call entry)).pending = moves entry + p.pending := by
  refine Multiset.coe_eq_coe.mpr ?_
  simpa [step] using perm_append_comm

theorem next_free (h : p.next i = some (.inl m)) : ∃ rest, p.threads[i]? = some (m :: rest) := by
  have hmap : (p.threads[i]?.bind head?).map (.inl : φ → φ ⊕ γ) = some (.inl m) := by
    unfold Pool.next at h
    split at h
    · split at h
      · cases h
      · exact h
    · exact h
  obtain ⟨m',hhead,heq⟩ := Option.map_eq_some_iff.mp hmap
  obtain ⟨thread,hthr,hm⟩ := Option.bind_eq_some_iff.mp hhead
  obtain ⟨rest,rfl⟩ := head?_eq_some_iff.mp hm
  exact ⟨rest,Sum.inl.inj heq ▸ hthr⟩

theorem next_guarded {g : γ} (h : p.next i = some (.inr g)) : ∃ rest, p.block = g :: rest := by
  have hfree : (p.threads[i]?.bind head?).map (.inl : φ → φ ⊕ γ) ≠ some (.inr g) := by
    intro hmap
    obtain ⟨m,-,heq⟩ := Option.map_eq_some_iff.mp hmap
    cases heq
  unfold Pool.next at h
  split at h
  · rename_i g' rest hblock
    split at h
    · obtain rfl : g' = g := Sum.inr.inj (Option.some.inj h)
      exact ⟨rest,hblock⟩
    · exact absurd h hfree
  · exact absurd h hfree

theorem pending_modify {rest : List φ} (h : p.threads[i]? = some (m :: rest)) :
    ∃ others, p.pending = m ::ₘ others ∧
      ∀ next, ((p.threads.modify i (fun thread => next ++ thread.tail)).flatten : Multiset φ) = next + others := by
  obtain ⟨hlt,hget⟩ := List.getElem?_eq_some_iff.mp h
  refine ⟨((p.threads.take i).flatten ++ (rest ++ (p.threads.drop (i+1)).flatten) : List φ),?_,fun next => ?_⟩
  · have hthr : p.threads = p.threads.take i ++ (m :: rest) :: p.threads.drop (i+1) := by
      rw [← hget,List.getElem_cons_drop,List.take_append_drop]
    have hflat := congrArg List.flatten hthr
    simp only [List.flatten_append,List.flatten_cons,List.cons_append] at hflat
    refine Multiset.coe_eq_coe.mpr ?_
    rw [hflat]
    exact List.perm_middle
  · have hmod : p.threads.modify i (fun thread => next ++ thread.tail) =
        p.threads.take i ++ (next ++ rest) :: p.threads.drop (i+1) := by
      rw [List.modify_eq_take_cons_drop hlt,hget]
      rfl
    refine Multiset.coe_eq_coe.mpr ?_
    simp only [hmod,List.flatten_append,List.flatten_cons,List.append_assoc]
    exact List.perm_append_comm_assoc _ _ _

theorem move_cases (p : Pool σ φ γ) (i : Nat) (env : η) :
    let p' := step moves free guarded p (.move i env)
    p' = p ∨
      (∃ g rest, p.next i = some (.inr g) ∧ p.block = g :: rest ∧ p'.shared = (guarded p.shared env g).1 ∧
        p'.block = (guarded p.shared env g).2 ++ rest ∧ p'.pending = p.pending) ∨
      ∃ m others, p.next i = some (.inl m) ∧ p.pending = m ::ₘ others ∧ p'.shared = (free p.shared env m).1 ∧
        p'.pending = (free p.shared env m).2.1 + others ∧
        (((free p.shared env m).2.2 = [] ∧ p'.block = p.block) ∨
          (p.block = [] ∧ p'.block = (free p.shared env m).2.2)) := by
  intro p'
  cases hnext : p.next i with
  | none => exact .inl (by simp [p',step,hnext])
  | some move =>
    cases move with
    | inr g =>
      obtain ⟨rest,hblock⟩ := next_guarded hnext
      refine .inr (.inl ⟨g,rest,rfl,hblock,?_,?_,?_⟩)
      · simp [p',step,hnext]
      · simp [p',step,hnext,hblock]
      · simp [p',step,hnext,Pool.pending]
    | inl m =>
      obtain ⟨rest,hthr⟩ := next_free hnext
      obtain ⟨others,hpen,hmod⟩ := pending_modify hthr
      cases hent : (free p.shared env m).2.2 with
      | nil =>
        refine .inr (.inr ⟨m,others,rfl,hpen,?_,?_,.inl ⟨hent,?_⟩⟩)
        · simp [p',step,hnext,hent]
        · rw [← hmod]
          simp [p',step,hnext,hent,Pool.pending]
        · simp [p',step,hnext,hent]
      | cons g gs =>
        cases hblock : p.block with
        | cons g' rest => exact .inl (by simp [p',step,hnext,hent,hblock])
        | nil =>
          refine .inr (.inr ⟨m,others,rfl,hpen,?_,?_,.inr ⟨rfl,?_⟩⟩)
          · simp [p',step,hnext,hent,hblock]
          · rw [← hmod]
            simp [p',step,hnext,hent,hblock,Pool.pending]
          · simp [p',step,hnext,hent,hblock]

def Allowed (okCall : κ → Prop) (okMove : σ → List γ → Multiset φ → η → φ ⊕ γ → Prop) (p : Pool σ φ γ) :
    Threads.Event κ η → Prop
  | .call entry => okCall entry
  | .move i env => ∀ move ∈ p.next i, okMove p.shared p.block p.pending env move

instance {okCall : κ → Prop} {okMove : σ → List γ → Multiset φ → η → φ ⊕ γ → Prop} [DecidablePred okCall]
    [∀ s block pending env move, Decidable (okMove s block pending env move)] (p : Pool σ φ γ)
    (e : Threads.Event κ η) : Decidable (Allowed okCall okMove p e) :=
  match e with
  | .call entry => inferInstanceAs (Decidable (okCall entry))
  | .move _ _ => inferInstanceAs (Decidable (∀ move ∈ _, okMove _ _ _ _ move))

/-- The invariant rule: guarded moves are made one behind the other, free moves at any
time, and a row of guarded moves is entered when there is none. -/
theorem invariant (okCall : κ → Prop) (okMove : σ → List γ → Multiset φ → η → φ ⊕ γ → Prop)
    (hcall : ∀ s block others entry, okCall entry → Inv s block others → Inv s block (moves entry + others))
    (hfree : ∀ s block others env m, okMove s block (m ::ₘ others) env (.inl m) → Inv s block (m ::ₘ others) →
      (free s env m).2.2 = [] → Inv (free s env m).1 block ((free s env m).2.1 + others))
    (henter : ∀ s others env m, okMove s [] (m ::ₘ others) env (.inl m) → Inv s [] (m ::ₘ others) →
      Inv (free s env m).1 (free s env m).2.2 ((free s env m).2.1 + others))
    (hguar : ∀ s rest others env g, okMove s (g :: rest) others env (.inr g) → Inv s (g :: rest) others →
      Inv (guarded s env g).1 ((guarded s env g).2 ++ rest) others)
    {p : Pool σ φ γ} (hp : Inv p.shared p.block p.pending) {events : List (Threads.Event κ η)}
    (hok : Machine.Meets (step moves free guarded) (Allowed okCall okMove) p events) :
    let p' := Machine.runs (step moves free guarded) p events
    Inv p'.shared p'.block p'.pending := by
  refine @Machine.invariant _ _ _ (fun p => Inv p.shared p.block p.pending) _ (fun p e hinv hok => ?_) _ hp _ hok
  cases e with
  | call entry =>
    rw [pending_call]
    exact hcall _ _ _ _ hok hinv
  | move i env =>
    rcases move_cases p i env with hstays | ⟨g,rest,hnext,hblock,hshar,hblock',hpen⟩ |
      ⟨m,others,hnext,hpen,hshar,hpend,hent | hent⟩
    · rw [hstays]
      exact hinv
    · have hokMove := hok _ hnext
      rw [hblock] at hokMove hinv
      rw [hshar,hblock',hpen]
      exact hguar _ _ _ _ _ hokMove hinv
    · have hokMove := hok _ hnext
      rw [hpen] at hokMove hinv
      rw [hshar,hent.2,hpend]
      exact hfree _ _ _ _ _ hokMove hinv hent.1
    · have hokMove := hok _ hnext
      rw [hpen,hent.1] at hokMove hinv
      rw [hshar,hent.2,hpend]
      exact henter _ _ _ _ hokMove hinv

theorem invariant_always
    (hcall : ∀ s block others entry, Inv s block others → Inv s block (moves entry + others))
    (hfree : ∀ s block others env m, Inv s block (m ::ₘ others) → (free s env m).2.2 = [] →
      Inv (free s env m).1 block ((free s env m).2.1 + others))
    (henter : ∀ s others env m, Inv s [] (m ::ₘ others) →
      Inv (free s env m).1 (free s env m).2.2 ((free s env m).2.1 + others))
    (hguar : ∀ s rest others env g, Inv s (g :: rest) others →
      Inv (guarded s env g).1 ((guarded s env g).2 ++ rest) others)
    {p : Pool σ φ γ} (hp : Inv p.shared p.block p.pending) (events : List (Threads.Event κ η)) :
    let p' := Machine.runs (step moves free guarded) p events
    Inv p'.shared p'.block p'.pending := by
  refine invariant (fun _ => True) (fun _ _ _ _ _ => True) (fun s block others entry _ => hcall s block others entry)
    (fun s block others env m _ => hfree s block others env m) (fun s others env m _ => henter s others env m)
    (fun s rest others env g _ => hguar s rest others env g) hp (Machine.meets_of_always (fun p e => ?_) p events)
  cases e with
  | call entry => trivial
  | move i env => exact fun _ _ => trivial

/-- The rule for things that happen a bounded number of times: `count` is what has happened or
may come of the state, the weights what may come of the moves that are still to be made. -/
theorem bounded (count : σ → Nat) (freeWeight : φ → Nat) (guardedWeight : γ → Nat)
    (hcall : ∀ entry, ((moves entry).map freeWeight).sum = 0)
    (hfree : ∀ s env m, count (free s env m).1+((free s env m).2.1.map freeWeight).sum+
      ((free s env m).2.2.map guardedWeight).sum ≤ count s+freeWeight m)
    (hguar : ∀ s env g, count (guarded s env g).1+((guarded s env g).2.map guardedWeight).sum ≤
      count s+guardedWeight g)
    {p : Pool σ φ γ} (hthr : p.threads = []) (hblock : p.block = []) (events : List (Threads.Event κ η)) :
    count (Machine.runs (step moves free guarded) p events).shared ≤ count p.shared := by
  have hrun := @invariant_always _ _ _ _ _ moves free guarded
    (fun s block others => count s+(others.map freeWeight).sum+(block.map guardedWeight).sum ≤ count p.shared)
    (fun s block others entry h => ?_) (fun s block others env m h hent => ?_) (fun s others env m h => ?_)
    (fun s rest others env g h => ?_) p ?_ events
  · omega
  · have hzero : (((moves entry : Multiset φ)).map freeWeight).sum = 0 := hcall entry
    rw [Multiset.map_add,Multiset.sum_add,hzero]
    omega
  · have hle := hfree s env m
    rw [hent,map_nil,sum_nil] at hle
    have hnext : (((free s env m).2.1 : Multiset φ).map freeWeight).sum = ((free s env m).2.1.map freeWeight).sum := rfl
    rw [Multiset.map_cons,Multiset.sum_cons] at h
    rw [Multiset.map_add,Multiset.sum_add,hnext]
    omega
  · have hle := hfree s env m
    have hnext : (((free s env m).2.1 : Multiset φ).map freeWeight).sum = ((free s env m).2.1.map freeWeight).sum := rfl
    rw [Multiset.map_cons,Multiset.sum_cons,map_nil,sum_nil] at h
    rw [Multiset.map_add,Multiset.sum_add,hnext]
    omega
  · have hle := hguar s env g
    rw [map_cons,sum_cons] at h
    rw [map_append,sum_append]
    omega
  · simp [Pool.pending,hthr,hblock]

end FastNet.Guarded
