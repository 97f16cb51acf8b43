import Mathlib

/-!
Smooth weighted turns. In every turn each member of a group gets its weight, and the member
that has most then pays the weights of all. From equal accounts, as many turns as the sum of
the weights give each member exactly its weight of turns and leave the accounts equal again.
-/

namespace FastNet.SmoothWeights

open List

variable {ι : Type} {A : Finset ι} {w c c' c'' : ι → ℤ} {i j : ι} {picks : List ι}

/-- The accounts balance, and nobody owes as much as all weights. -/
structure Balanced (A : Finset ι) (w c : ι → ℤ) : Prop where
  sum : ∑ j ∈ A, c j = 0
  above : ∀ j ∈ A, -∑ k ∈ A, w k < c j

theorem balanced_zero (hw : ∀ j ∈ A, 0 < w j) (hc : ∀ j ∈ A, c j = 0) : Balanced A w c where
  sum := Finset.sum_eq_zero hc
  above := fun j hj => by
    have hsum : 0 < ∑ k ∈ A, w k := Finset.sum_pos hw ⟨j,hj⟩
    rw [hc j hj]
    omega

theorem positive_of_most (hc : Balanced A w c) (hw : ∀ j ∈ A, 0 < w j) (hi : i ∈ A) (hmost : ∀ j ∈ A, c j+w j ≤ c i+w i) :
    0 < c i+w i := by
  have hsum : 0 < ∑ k ∈ A, w k := Finset.sum_pos hw ⟨i,hi⟩
  have htotal : ∑ j ∈ A, (0 : ℤ) < ∑ j ∈ A, (c j+w j) := by
    rw [Finset.sum_add_distrib,hc.sum,Finset.sum_const_zero]
    omega
  obtain ⟨j,hj,hpos⟩ := Finset.exists_lt_of_sum_lt htotal
  exact hpos.trans_le (hmost j hj)

variable [DecidableEq ι]

theorem Balanced.below (h : Balanced A w c) (hj : j ∈ A) : c j ≤ (A.card-1)*(∑ k ∈ A, w k) := by
  have hoth : (A.erase j).card • (-∑ k ∈ A, w k) ≤ ∑ k ∈ A.erase j, c k :=
    Finset.card_nsmul_le_sum _ _ _ (fun k hk => (h.above k (Finset.mem_of_mem_erase hk)).le)
  have hsum := Finset.add_sum_erase A c hj
  have hcard : ((A.erase j).card : ℤ) = A.card-1 := by
    rw [Finset.card_erase_of_mem hj,Nat.cast_sub (Finset.card_pos.mpr ⟨j,hj⟩)]
    rfl
  rw [h.sum] at hsum
  rw [nsmul_eq_mul,hcard] at hoth
  linarith

structure Turn (A : Finset ι) (w c : ι → ℤ) (i : ι) (c' : ι → ℤ) : Prop where
  mem : i ∈ A
  most : ∀ j ∈ A, c j+w j ≤ c i+w i
  paid : ∀ j ∈ A, c' j = c j+w j-(if j = i then ∑ k ∈ A, w k else 0)

/-- Turns one after another, with the members that have paid. -/
inductive Turns (A : Finset ι) (w c : ι → ℤ) : List ι → (ι → ℤ) → Prop where
  | nil : Turns A w c [] c
  | snoc {picks : List ι} {c' c'' : ι → ℤ} {i : ι} :
      Turns A w c picks c' → Turn A w c' i c'' → Turns A w c (picks ++ [i]) c''

theorem Turn.sum (h : Turn A w c i c') : ∑ j ∈ A, c' j = ∑ j ∈ A, c j := by
  rw [Finset.sum_congr rfl h.paid,Finset.sum_sub_distrib,Finset.sum_add_distrib,Finset.sum_ite_eq' A i,if_pos h.mem]
  ring

theorem Turn.balanced (h : Turn A w c i c') (hc : Balanced A w c) (hw : ∀ j ∈ A, 0 < w j) : Balanced A w c' where
  sum := h.sum.trans hc.sum
  above := fun j hj => by
    have hpo := positive_of_most hc hw h.mem h.most
    have hbef := hc.above j hj
    have hweig := hw j hj
    rw [h.paid j hj]
    split
    · rename_i hji
      subst hji
      omega
    · omega

section

variable (h : Turns A w c picks c')
include h

theorem Turns.balanced (hc : Balanced A w c) (hw : ∀ j ∈ A, 0 < w j) : Balanced A w c' := by
  induction h with
  | nil => exact hc
  | snoc _ hturn ih => exact hturn.balanced ih hw

theorem Turns.mem : ∀ i ∈ picks, i ∈ A := by
  induction h with
  | nil => exact nofun
  | snoc _ hturn ih =>
    intro i hi
    rcases mem_append.mp hi with hi | hi
    · exact ih i hi
    · rw [mem_singleton.mp hi]
      exact hturn.mem

theorem Turns.account (hj : j ∈ A) :
    c' j = c j+picks.length*w j-(∑ k ∈ A, w k)*picks.count j := by
  induction h with
  | nil => simp
  | @snoc picks c' c'' i _ hturn ih =>
    rw [hturn.paid j hj,ih,length_append,count_append,count_singleton,length_singleton]
    by_cases hij : j = i
    · subst hij
      simp only [if_true,beq_self_eq_true]
      push_cast
      ring
    · simp only [hij,if_false,beq_iff_eq,Ne.symm hij]
      push_cast
      ring

/-- The cycle: as many turns as there is weight. An account that has come back to a multiple of
the sum of the weights, and does not owe as much, owes nothing; so none holds anything. -/
theorem Turns.cycle (hw : ∀ j ∈ A, 0 < w j) (hc : ∀ j ∈ A, c j = 0)
    (hlen : (picks.length : ℤ) = ∑ k ∈ A, w k) (hj : j ∈ A) : (picks.count j : ℤ) = w j ∧ c' j = 0 := by
  have hbal := h.balanced (balanced_zero hw hc) hw
  have hsum : 0 < ∑ k ∈ A, w k := Finset.sum_pos hw ⟨j,hj⟩
  have hacc (k : ι) (hk : k ∈ A) : c' k = (∑ k ∈ A, w k)*(w k-picks.count k) := by
    rw [h.account hk,hc k hk,hlen]
    ring
  have hnon (k : ι) (hk : k ∈ A) : 0 ≤ c' k := by
    have habove := hbal.above k hk
    rw [hacc k hk] at habove ⊢
    have hleast : -1 < w k-picks.count k := by nlinarith
    exact mul_nonneg hsum.le (by omega)
  have hzero : c' j = 0 := (Finset.sum_eq_zero_iff_of_nonneg hnon).mp hbal.sum j hj
  refine ⟨?_,hzero⟩
  rw [hacc j hj] at hzero
  rcases mul_eq_zero.mp hzero with hnone | hequal
  · omega
  · omega

end

theorem Turns.split {picks' : List ι} (h : Turns A w c (picks ++ picks') c'') :
    ∃ c', Turns A w c picks c' ∧ Turns A w c' picks' c'' := by
  induction picks' using reverseRecOn generalizing c'' with
  | nil =>
    rw [append_nil] at h
    exact ⟨c'',h,.nil⟩
  | append_singleton picks' i ih =>
    rw [← append_assoc] at h
    generalize hall : picks ++ picks' ++ [i] = all at h
    cases h with
    | nil => simp at hall
    | snoc hturns hturn =>
      obtain ⟨hfront,hlast⟩ := append_inj' hall rfl
      subst hfront
      obtain rfl := singleton_inj.mp hlast
      obtain ⟨c',hfirst,hsec⟩ := ih hturns
      exact ⟨c',hfirst,hsec.snoc hturn⟩

theorem Turns.cycles (hw : ∀ j ∈ A, 0 < w j) (hc : ∀ j ∈ A, c j = 0) (n : ℕ) (h : Turns A w c picks c')
    (hlen : (picks.length : ℤ) = n*∑ k ∈ A, w k) : ∀ j ∈ A, c' j = 0 := by
  induction n generalizing picks c' with
  | zero =>
    have hnil : picks = [] := by simpa using hlen
    subst hnil
    generalize hall : ([] : List ι) = all at h
    cases h with
    | nil => exact hc
    | snoc _ _ => simp at hall
  | succ n ih =>
    intro j hj
    have hsum : 0 < ∑ k ∈ A, w k := Finset.sum_pos hw ⟨j,hj⟩
    obtain ⟨total,htotal⟩ := Int.eq_ofNat_of_zero_le hsum.le
    rw [← take_append_drop (n*total) picks] at h
    obtain ⟨c₁,hfirst,hlast⟩ := h.split
    have hall : picks.length = (n+1)*total := by
      rw [htotal] at hlen
      exact_mod_cast hlen
    have hshort : n*total ≤ picks.length := by
      rw [hall]
      exact Nat.mul_le_mul_right total (Nat.le_succ n)
    have hzero := ih hfirst (by rw [length_take_of_le hshort,htotal]; push_cast; rfl)
    refine (hlast.cycle hw hzero ?_ hj).2
    rw [length_drop,hall,htotal,Nat.succ_mul,Nat.add_sub_cancel_left]

/-- Every window of a cycle's length that begins where a cycle begins gives each member exactly
its weight of turns. -/
theorem Turns.window (h : Turns A w c picks c') (hw : ∀ j ∈ A, 0 < w j) (hc : ∀ j ∈ A, c j = 0) {total : ℕ}
    (htotal : ∑ k ∈ A, w k = total) (n : ℕ) (hlen : (n+1)*total ≤ picks.length) (hj : j ∈ A) :
    (((picks.drop (n*total)).take total).count j : ℤ) = w j := by
  rw [Nat.succ_mul] at hlen
  rw [← take_append_drop (n*total) picks] at h
  obtain ⟨c₁,hbef,hbeh⟩ := h.split
  have hzero := hbef.cycles hw hc n (by rw [length_take_of_le (by omega),htotal]; push_cast; rfl)
  rw [← take_append_drop total (picks.drop (n*total))] at hbeh
  obtain ⟨c₂,hcycle,-⟩ := hbeh.split
  refine (hcycle.cycle hw hzero ?_ hj).1
  rw [length_take_of_le (by rw [length_drop]; omega),htotal]

end FastNet.SmoothWeights
