import Mathlib

/-!
Loops of an imperative program: a body that is run again and again until it
leaves with a result or throws. A loop may also run forever; `run` with enough
fuel tells the three apart, and the rules below say how much is enough.
-/

namespace FastNet.Loop

variable {σ ρ ε : Type}
variable {fuel' n i j : Nat} {Inv : σ → Prop} {f : Nat → σ}

/-- One turn of a loop: go round again from a new state, or leave with a result. -/
inductive Turn (σ ρ : Type) where
  | again : σ → Turn σ ρ
  | leave : ρ → Turn σ ρ
  deriving DecidableEq, Repr

/-- What a call can come to. `hang` is a call that never comes back. -/
inductive Outcome (ε ρ : Type) where
  | ret : ρ → Outcome ε ρ
  | threw : ε → Outcome ε ρ
  | hang : Outcome ε ρ
  deriving DecidableEq, Repr

namespace Outcome

/-- The rest of a program after a call: it is reached only when the call returns. -/
def bind {ρ' : Type} : Outcome ε ρ → (ρ → Outcome ε ρ') → Outcome ε ρ'
  | .ret r, k => k r
  | .threw e, _ => .threw e
  | .hang, _ => .hang

def map {ρ' : Type} (f : ρ → ρ') (o : Outcome ε ρ) : Outcome ε ρ' := o.bind (fun r => .ret (f r))

@[simp] theorem bind_ret {ρ' : Type} (r : ρ) (k : ρ → Outcome ε ρ') :
    (Outcome.ret r).bind k = k r := rfl

theorem bind_eq_ret_iff {ρ' : Type} {o : Outcome ε ρ} {k : ρ → Outcome ε ρ'} {r' : ρ'} :
    o.bind k = .ret r' ↔ ∃ r, o = .ret r ∧ k r = .ret r' := by
  cases o <;> simp [bind]

end Outcome

/-- At most `fuel` turns of the loop; `hang` when they do not suffice. -/
def run (body : σ → Except ε (Turn σ ρ)) : Nat → σ → Outcome ε ρ
  | 0, _ => .hang
  | fuel+1, s =>
    match body s with
    | .error e => .threw e
    | .ok (.leave r) => .ret r
    | .ok (.again s') => run body fuel s'

/-- The state `s` is at the head of the loop and `s'` is at its head one turn later. -/
def Goes (body : σ → Except ε (Turn σ ρ)) (s s' : σ) : Prop :=
  body s = .ok (.again s')

/-- The states seen at the head of the loop when it is entered in `s`. -/
def Visits (body : σ → Except ε (Turn σ ρ)) : σ → σ → Prop :=
  Relation.ReflTransGen (Goes body)

def Diverges (body : σ → Except ε (Turn σ ρ)) (s : σ) : Prop :=
  ∀ fuel, run body fuel s = .hang

variable {body : σ → Except ε (Turn σ ρ)} {s t : σ} {r : ρ} {e : ε} {fuel : Nat}

theorem run_again {s' : σ} (h : Goes body s s') (fuel : Nat) : run body (fuel+1) s = run body fuel s' := by
  have h' : body s = .ok (.again s') := h
  simp [run,h']

theorem run_leave (h : body s = .ok (.leave r)) (fuel : Nat) : run body (fuel+1) s = .ret r := by
  simp [run,h]

theorem run_error (h : body s = .error e) (fuel : Nat) : run body (fuel+1) s = .threw e := by
  simp [run,h]

theorem run_succ_of_ne_hang (h : run body fuel s ≠ .hang) : run body (fuel+1) s = run body fuel s := by
  induction fuel generalizing s with
  | zero => exact absurd rfl h
  | succ fuel ih =>
    cases hb : body s with
    | error e => rw [run_error hb,run_error hb]
    | ok turn =>
      cases turn with
      | leave r => rw [run_leave hb,run_leave hb]
      | again s' =>
        rw [run_again hb,run_again hb fuel]
        rw [run_again hb] at h
        exact ih h

theorem run_mono (hle : fuel ≤ fuel') (h : run body fuel s ≠ .hang) : run body fuel' s = run body fuel s := by
  induction hle with
  | refl => rfl
  | @step m _ ih =>
    rw [← ih]
    apply run_succ_of_ne_hang
    rw [ih]
    exact h

theorem run_ret_mono (hle : fuel ≤ fuel') (h : run body fuel s = .ret r) : run body fuel' s = .ret r := by
  rw [run_mono hle (by rw [h]; simp),h]

theorem run_eq_of_ne_hang (h : run body fuel s ≠ .hang)
    (h' : run body fuel' s ≠ .hang) : run body fuel s = run body fuel' s := by
  rcases Nat.le_total fuel fuel' with hle | hle
  · exact (run_mono hle h).symm
  · exact run_mono hle h'

theorem run_visits (h : Visits body s t) : ∃ n, ∀ fuel, run body (fuel+n) s = run body fuel t := by
  induction h with
  | refl => exact ⟨0,fun _ => rfl⟩
  | @tail t u _ hg ih =>
    obtain ⟨n,hn⟩ := ih
    refine ⟨n+1,fun fuel => ?_⟩
    rw [show fuel+(n+1) = (fuel+1)+n by omega,hn,run_again hg]

theorem visits_invariant (hstep : ∀ s s', Inv s → Goes body s s' → Inv s')
    {s t : σ} (hs : Inv s) (h : Visits body s t) : Inv t := by
  induction h with
  | refl => exact hs
  | tail _ hg ih => exact hstep _ _ ih hg

theorem visits_stop_unique {u : σ} (ht : Visits body s t) (hu : Visits body s u)
    (hts : ∀ x, ¬ Goes body t x) (hus : ∀ x, ¬ Goes body u x) : t = u := by
  have hunique : Relator.RightUnique (Goes body) := by
    intro a b c hb hc
    have h : (Except.ok (.again b) : Except ε (Turn σ ρ)) = .ok (.again c) := hb.symm.trans hc
    cases h
    rfl
  rcases Relation.ReflTransGen.total_of_right_unique hunique ht hu with h | h
  · rcases Relation.ReflTransGen.cases_head h with h | ⟨x,hx,-⟩
    · exact h
    · exact absurd hx (hts x)
  · rcases Relation.ReflTransGen.cases_head h with h | ⟨x,hx,-⟩
    · exact h.symm
    · exact absurd hx (hus x)

theorem exists_visit_of_run_eq (h : run body fuel s ≠ .hang) : ∃ t, Visits body s t ∧
      ((∃ r, body t = .ok (.leave r) ∧ run body fuel s = .ret r) ∨
        ∃ e, body t = .error e ∧ run body fuel s = .threw e) := by
  induction fuel generalizing s with
  | zero => exact absurd rfl h
  | succ fuel ih =>
    cases hb : body s with
    | error e => exact ⟨s,.refl,.inr ⟨e,hb,run_error hb fuel⟩⟩
    | ok turn =>
      cases turn with
      | leave r => exact ⟨s,.refl,.inl ⟨r,hb,run_leave hb fuel⟩⟩
      | again s' =>
        rw [run_again hb] at h ⊢
        obtain ⟨t,hv,ht⟩ := ih h
        exact ⟨t,.head hb hv,ht⟩

theorem visit_of_ret (h : run body fuel s = .ret r) : ∃ t, Visits body s t ∧ body t = .ok (.leave r) := by
  obtain ⟨t,hv,⟨r',hb,hr⟩ | ⟨e,_,he⟩⟩ :=
    exists_visit_of_run_eq (show run body fuel s ≠ .hang by simp [h])
  · rw [h] at hr
    cases hr
    exact ⟨t,hv,hb⟩
  · rw [h] at he
    cases he

theorem visit_of_threw (h : run body fuel s = .threw e) : ∃ t, Visits body s t ∧ body t = .error e := by
  obtain ⟨t,hv,⟨r,_,hr⟩ | ⟨e',hb,he⟩⟩ :=
    exists_visit_of_run_eq (show run body fuel s ≠ .hang by simp [h])
  · rw [h] at hr
    cases hr
  · rw [h] at he
    cases he
    exact ⟨t,hv,hb⟩

/-- The agreement rule: two loops whose turns are the same, but for those that leave with
a result of which `Final` does not hold, come to the same final results. -/
theorem run_agree {body' : σ → Except ε (Turn σ ρ)} {Final : ρ → Prop}
    (h : ∀ s turn, (∀ r, turn = .leave r → Final r) → body s = .ok turn → body' s = .ok turn)
    {fuel : Nat} {s : σ} {r : ρ} (hr : Final r) (hrun : run body fuel s = .ret r) :
    run body' fuel s = .ret r := by
  induction fuel generalizing s with
  | zero => cases hrun
  | succ fuel ih =>
    cases hb : body s with
    | error e =>
      rw [run_error hb] at hrun
      cases hrun
    | ok turn =>
      cases turn with
      | leave r' =>
        rw [run_leave hb] at hrun
        cases hrun
        exact run_leave (h s _ (fun _ heq => by cases heq; exact hr) hb) fuel
      | again s' =>
        rw [run_again hb] at hrun
        rw [run_again (h s _ (fun _ heq => by cases heq) hb)]
        exact ih hrun

/-- The variant rule: a loop whose turns lower `μ` ends within `μ s + 1` turns. -/
theorem run_ne_hang_of_variant (μ : σ → Nat)
    (hstep : ∀ s s', Inv s → Goes body s s' → Inv s' ∧ μ s' < μ s)
    {s : σ} (hs : Inv s) {fuel : Nat} (hfuel : μ s < fuel) : run body fuel s ≠ .hang := by
  induction fuel generalizing s with
  | zero => omega
  | succ fuel ih =>
    cases hb : body s with
    | error e => simp [run_error hb]
    | ok turn =>
      cases turn with
      | leave r => simp [run_leave hb]
      | again s' =>
        obtain ⟨hs',hlt⟩ := hstep s s' hs hb
        rw [run_again hb]
        exact ih hs' (by omega)

theorem path_of_run_hang (h : run body fuel s = .hang) :
    ∃ f : Nat → σ, f 0 = s ∧ ∀ i < fuel, Goes body (f i) (f (i+1)) := by
  induction fuel generalizing s with
  | zero => exact ⟨fun _ => s,rfl,by omega⟩
  | succ fuel ih =>
    cases hb : body s with
    | error e => simp [run_error hb] at h
    | ok turn =>
      cases turn with
      | leave r => simp [run_leave hb] at h
      | again s' =>
        rw [run_again hb] at h
        obtain ⟨f,hf0,hf⟩ := ih h
        refine ⟨fun i => if i = 0 then s else f (i-1),rfl,fun i hi => ?_⟩
        cases i with
        | zero => simpa [Goes,hf0] using hb
        | succ i => simpa using hf i (by omega)

theorem run_along_path (hf : ∀ i < n, Goes body (f i) (f (i+1))) (hij : i ≤ j) (hj : j ≤ n) (fuel : Nat) :
    run body (fuel+(j-i)) (f i) = run body fuel (f j) := by
  induction j, hij using Nat.le_induction generalizing fuel with
  | base => simp
  | succ j hij ih =>
    rw [show fuel+(j+1-i) = (fuel+1)+(j-i) by omega,ih (by omega),run_again (hf j (by omega))]

theorem diverges_of_revisit
    (hf : ∀ i < n, Goes body (f i) (f (i+1))) (hij : i < j) (hj : j ≤ n)
    (hrep : f i = f j) : Diverges body (f 0) := by
  have hcycle : ∀ fuel, run body fuel (f i) = .hang := by
    intro fuel
    induction fuel using Nat.strongRecOn with
    | ind fuel ih =>
      rcases Nat.lt_or_ge fuel (j-i) with hlt | hge
      · have h := run_along_path hf (show i ≤ i+fuel by omega) (by omega) 0
        simpa [run] using h
      · have h := run_along_path hf (Nat.le_of_lt hij) hj (fuel-(j-i))
        rw [show fuel-(j-i)+(j-i) = fuel by omega,← hrep] at h
        rw [h]
        exact ih _ (by omega)
  intro fuel
  rcases Nat.lt_or_ge fuel i with hlt | hge
  · have h := run_along_path hf (Nat.zero_le fuel) (by omega) 0
    simpa [run] using h
  · have h := run_along_path hf (Nat.zero_le i) (by omega) (fuel-i)
    rw [show fuel-i+(i-0) = fuel by omega] at h
    rw [h]
    exact hcycle _

/-- The confinement rule: when the states that can be visited are told apart by
a number below `n`, a loop that has not ended after `n` turns never ends. -/
theorem diverges_of_confined (pos : σ → Nat)
    (hstep : ∀ s s', Inv s → Goes body s s' → Inv s')
    (hlt : ∀ s, Inv s → pos s < n)
    (hinj : ∀ s s', Inv s → Inv s' → pos s = pos s' → s = s')
    {s : σ} (hs : Inv s) (h : run body n s = .hang) : Diverges body s := by
  obtain ⟨f,rfl,hf⟩ := path_of_run_hang h
  have hinv : ∀ i ≤ n, Inv (f i) := by
    intro i hi
    induction i with
    | zero => exact hs
    | succ i ih => exact hstep _ _ (ih (by omega)) (hf i (by omega))
  obtain ⟨i,hi,j,hj,hne,heq⟩ := Finset.exists_ne_map_eq_of_card_lt_of_maps_to
    (s := Finset.range (n+1)) (t := Finset.range n) (f := fun i => pos (f i)) (by simp)
    (fun i hi => by
      simp only [Finset.coe_range,Set.mem_Iio] at hi ⊢
      exact hlt _ (hinv i (by omega)))
  simp only [Finset.mem_range] at hi hj
  have hrep : f i = f j := hinj _ _ (hinv i (by omega)) (hinv j (by omega)) heq
  rcases Nat.lt_or_gt_of_ne hne with hij | hij
  · exact diverges_of_revisit hf hij (by omega) hrep
  · exact diverges_of_revisit hf hij (by omega) hrep.symm

end FastNet.Loop
