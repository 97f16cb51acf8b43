import Mathlib

/-!
Places `0`, …, `n-1` on a ring. Behind the last place comes the first again; how far one
place is behind another is counted forwards, so that it is below `n`.
-/

namespace FastNet.Places

open Finset

variable {n a b c i : Nat} {t : Nat}

def next (n i : Nat) : Nat := if i+1 = n then 0 else i+1

/-- The place `t` places before `i`, for `t` up to `n`. -/
def back (n t i : Nat) : Nat := if t ≤ i then i-t else i+n-t

/-- The place `t` places behind `a`, for `t` up to `n`. -/
def ahead (n a t : Nat) : Nat := if a+t < n then a+t else a+t-n

/-- The number of steps from `a` to `b`. -/
def gap (n a b : Nat) : Nat := if a ≤ b then b-a else b+n-a

theorem next_lt (h : i < n) : next n i < n := by
  unfold next
  split <;> omega

theorem back_lt (h : i < n) (ht : t ≤ n) : back n t i < n := by
  unfold back
  split <;> omega

theorem gap_lt (ha : a < n) (hb : b < n) : gap n a b < n := by
  unfold gap
  split <;> omega

@[simp] theorem gap_self (n a : Nat) : gap n a a = 0 := by simp [gap]

theorem gap_eq_zero_iff (ha : a < n) : gap n a b = 0 ↔ a = b := by
  unfold gap
  split <;> omega

@[simp] theorem back_zero (n i : Nat) : back n 0 i = i := by simp [back]

theorem next_back_succ (h : i < n) (ht : t < n) : next n (back n (t+1) i) = back n t i := by
  unfold next back
  split_ifs <;> omega

theorem next_back (h : i < n) : next n (back n 1 i) = i := by
  have hone := @next_back_succ n i 0 h (by omega)
  simpa using hone

theorem back_next (n i : Nat) : back n 1 (next n i) = i := by
  unfold next back
  split_ifs <;> omega

theorem back_gap (ha : a < n) : back n (gap n a b) b = a := by
  unfold gap back
  split_ifs <;> omega

theorem gap_back (hi : i < n) (ht : t < n) : gap n (back n t i) i = t := by
  unfold gap back
  split_ifs <;> omega

theorem ahead_lt (ha : a < n) (ht : t ≤ n) : ahead n a t < n := by
  unfold ahead
  split <;> omega

theorem gap_ahead (ha : a < n) (ht : t < n) : gap n a (ahead n a t) = t := by
  unfold gap ahead
  split_ifs <;> omega

theorem gap_next_right (ha : a < n) (h : next n b ≠ a) : gap n a (next n b) = gap n a b+1 := by
  unfold gap next at *
  split_ifs at * <;> omega

theorem gap_next_left (ha : a < n) (hb : b < n) (h : a ≠ b) : gap n (next n a) b+1 = gap n a b := by
  unfold gap next
  split_ifs <;> omega

theorem gap_next_self (hb : b < n) : gap n (next n b) b+1 = n := by
  unfold gap next
  split_ifs <;> omega

theorem gap_triangle (ha : a < n) (hb : b < n) : gap n a c ≤ gap n a b+gap n b c := by
  unfold gap
  split_ifs <;> omega

theorem gap_split (ha : a < n) (hb : b < n) (h : gap n b c ≤ gap n a c) :
    gap n a b+gap n b c = gap n a c := by
  unfold gap at *
  split_ifs at * <;> omega

theorem gap_split_left (ha : a < n) (hc : c < n) (h : gap n a b ≤ gap n a c) :
    gap n a b+gap n b c = gap n a c := by
  unfold gap at *
  split_ifs at * <;> omega

theorem card_arc_le (n a l : Nat) (ha : a < n) :
    ((range n).filter (fun i => gap n a i < l)).card ≤ l := by
  calc ((range n).filter (fun i => gap n a i < l)).card
      ≤ (range l).card := by
        refine card_le_card_of_injOn (gap n a) (fun i hi => ?_) (fun i hi j hj h => ?_)
        · simpa using (mem_filter.mp hi).2
        · have hi' := mem_range.mp (mem_filter.mp hi).1
          have hj' := mem_range.mp (mem_filter.mp hj).1
          simp only [gap] at h
          split_ifs at h <;> omega
    _ = l := card_range l

theorem card_arc_ge (n a l : Nat) (ha : a < n) (hl : l ≤ n) :
    l ≤ ((range n).filter (fun i => gap n a i < l)).card := by
  calc l = (range l).card := (card_range l).symm
    _ ≤ _ := by
      refine card_le_card_of_injOn (ahead n a) (fun t ht => ?_) (fun t ht u hu h => ?_)
      · have ht' := mem_range.mp ht
        have hgap := gap_ahead ha (show t < n by omega)
        exact mem_filter.mpr ⟨mem_range.mpr (ahead_lt ha (by omega)),by omega⟩
      · have ht' := mem_range.mp ht
        have hu' := mem_range.mp hu
        rw [← gap_ahead ha (show t < n by omega),← gap_ahead ha (show u < n by omega),h]

end FastNet.Places
