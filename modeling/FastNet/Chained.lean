import Mathlib

/-!
Chains of places: the neighbours in a list without repetition, and the pairs of them that
are still to be linked.
-/

namespace FastNet.Chained

open List

variable {α β : Type} {l : List α}

def steps (l : List α) : List (α × α) := l.zip l.tail

@[simp] theorem steps_singleton (a : α) : steps [a] = [] := rfl

@[simp] theorem steps_cons_cons (a b : α) (l : List α) :
    steps (a :: b :: l) = (a,b) :: steps (b :: l) := rfl

theorem steps_concat {last : α} (h : l.getLast? = some last) (x : α) :
    steps (l ++ [x]) = steps l ++ [(last,x)] := by
  induction l with
  | nil => cases h
  | cons a l ih =>
    cases l with
    | nil =>
      obtain rfl : a = last := by simpa using h
      rfl
    | cons b l =>
      rw [getLast?_cons_cons] at h
      simpa using ih h

theorem fst_steps (l : List α) : (steps l).map Prod.fst = l.dropLast := by
  induction l with
  | nil => rfl
  | cons a l ih =>
    cases l with
    | nil => rfl
    | cons b l => simpa using ih

theorem fst_mem_of_steps {e : α × α} (h : e ∈ steps l) : e.1 ∈ l :=
  (of_mem_zip h).1

theorem nodup_fst_steps (h : l.Nodup) : ((steps l).map Prod.fst).Nodup := by
  rw [fst_steps]
  exact h.sublist (dropLast_sublist l)

theorem fst_ne_last (hl : l.Nodup) {last : α} (h : l.getLast? = some last)
    {e : α × α} (he : e ∈ steps l) : e.1 ≠ last := by
  have hmem : e.1 ∈ l.dropLast := by
    rw [← fst_steps]
    exact mem_map_of_mem he
  rintro rfl
  obtain ⟨front,rfl⟩ := getLast?_eq_some_iff.mp h
  rw [dropLast_concat] at hmem
  exact (nodup_append.mp hl).2.2 _ hmem _ (by simp) rfl

theorem filter_eq_cons {es : List (α × β)} (hes : (es.map Prod.fst).Nodup) {e : α × β}
    (he : e ∈ es) {before behind : α × β → Bool} (hbef : before e = true)
    (hbeh : ∀ e' ∈ es, behind e' = true ↔ before e' = true ∧ e'.1 ≠ e.1) :
    (es.filter before : Multiset (α × β)) = e ::ₘ (es.filter behind : Multiset (α × β)) := by
  induction es with
  | nil => cases he
  | cons x es ih =>
    rw [map_cons,nodup_cons] at hes
    rcases mem_cons.mp he with rfl | he'
    · have hrest : es.filter behind = es.filter before := by
        refine filter_congr fun e' he' => ?_
        have hne : e'.1 ≠ e.1 := fun heq => hes.1 (heq ▸ mem_map_of_mem he')
        have hiff := hbeh e' (mem_cons_of_mem _ he')
        rw [Bool.eq_iff_iff,hiff]
        exact ⟨And.left,fun h => ⟨h,hne⟩⟩
      have hself : behind e = false := by
        have hiff := hbeh e mem_cons_self
        simpa using hiff
      rw [filter_cons_of_pos hbef,filter_cons_of_neg (by simp [hself]),hrest]
      rfl
    · have hih := ih hes.2 he' (fun e' h => hbeh e' (mem_cons_of_mem _ h))
      have hne : x.1 ≠ e.1 := fun heq => hes.1 (heq ▸ mem_map_of_mem he')
      have hsame : behind x = before x := by
        have hiff := hbeh x mem_cons_self
        rw [Bool.eq_iff_iff,hiff]
        exact ⟨And.left,fun h => ⟨h,hne⟩⟩
      cases hx : before x with
      | true =>
        rw [filter_cons_of_pos hx,filter_cons_of_pos (hsame.trans hx),← Multiset.cons_coe,hih,Multiset.cons_swap]
        rfl
      | false =>
        rw [filter_cons_of_neg (by simp [hx]),
          filter_cons_of_neg (by simp [hsame,hx]),hih]

end FastNet.Chained
