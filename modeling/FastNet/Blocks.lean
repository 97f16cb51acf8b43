import Mathlib

/-!
Blocks of memory: lists that are read and written within their bounds. An access that is
not within the bounds has no result.
-/

namespace FastNet.Block

open List

variable {α : Type}

/-- The `n` letters from place `i` on. -/
def slice (b : List α) (i n : Nat) : List α := (b.drop i).take n

def read (b : List α) (i n : Nat) : Option (List α) := if i+n ≤ b.length then some (slice b i n) else none

def overwrite (b : List α) (i : Nat) (s : List α) : List α := b.take i ++ s ++ b.drop (i+s.length)

def write (b : List α) (i : Nat) (s : List α) : Option (List α) :=
  if i+s.length ≤ b.length then some (overwrite b i s) else none

/-- A move from one block to another, or within one: all is read before anything is written. -/
def move (target : List α) (i : Nat) (source : List α) (j n : Nat) : Option (List α) :=
  (read source j n).bind (write target i)

variable {b s target source : List α} {i j m n : Nat}

theorem length_slice (h : i+n ≤ b.length) : (slice b i n).length = n := by
  simp only [slice,length_take,length_drop]
  omega

theorem getElem?_slice (k : Nat) : (slice b i n)[k]? = if k < n then b[i+k]? else none := by
  rw [slice,getElem?_take]
  split
  · rw [getElem?_drop]
  · rfl

@[simp] theorem slice_zero : slice b i 0 = [] := by simp [slice]

@[simp] theorem slice_full : slice b 0 b.length = b := by simp [slice]

theorem slice_add : slice b i (m+n) = slice b i m ++ slice b (i+m) n := by
  rw [slice,slice,slice,take_add,drop_drop]

theorem slice_slice {k : Nat} (h : k+m ≤ n) : slice (slice b i n) k m = slice b (i+k) m := by
  apply ext_getElem?
  intro l
  simp only [getElem?_slice]
  split
  · rw [if_pos (by omega),Nat.add_assoc]
  · rfl

theorem take_slice (h : m ≤ n) : (slice b i n).take m = slice b i m := by
  rw [slice,take_take,Nat.min_eq_left h,slice]

theorem drop_slice : (slice b i n).drop m = slice b (i+m) (n-m) := by
  rw [slice,drop_take,drop_drop,slice]

theorem read_eq (h : i+n ≤ b.length) : read b i n = some (slice b i n) := if_pos h

theorem write_eq (h : i+s.length ≤ b.length) : write b i s = some (overwrite b i s) := if_pos h

theorem move_eq (h : i+n ≤ target.length) (hs : j+n ≤ source.length) :
    move target i source j n = some (overwrite target i (slice source j n)) := by
  rw [move,read_eq hs,Option.bind_some,write_eq (by rw [length_slice hs]; exact h)]

@[simp] theorem length_overwrite (h : i+s.length ≤ b.length) : (overwrite b i s).length = b.length := by
  simp only [overwrite,length_append,length_take,length_drop]
  omega

theorem slice_overwrite_self (h : i ≤ b.length) : slice (overwrite b i s) i s.length = s := by
  rw [slice,overwrite,append_assoc,drop_append_of_le_length (by simp; omega)]
  simp

theorem slice_overwrite_before (h : j+n ≤ i) (hi : i ≤ b.length) : slice (overwrite b i s) j n = slice b j n := by
  apply ext_getElem?
  intro k
  simp only [getElem?_slice]
  split
  · rw [overwrite,append_assoc,getElem?_append_left (by simp; omega),getElem?_take_of_lt (by omega)]
  · rfl

theorem slice_overwrite_behind (h : i+s.length ≤ j) (hi : i ≤ b.length) :
    slice (overwrite b i s) j n = slice b j n := by
  rw [slice,overwrite,drop_append,drop_of_length_le (by simp; omega),nil_append,drop_drop,slice]
  simp only [length_append,length_take,Nat.min_eq_left hi]
  rw [show i+s.length+(j-(i+s.length)) = j by omega]

theorem slice_insert {k r : Nat} (h : i+k+s.length+r ≤ b.length) :
    slice (overwrite (overwrite b (i+k+s.length) (slice b (i+k) r)) (i+k) s) i (k+(s.length+r)) =
      slice b i k ++ s ++ slice b (i+k) r := by
  have htail : (slice b (i+k) r).length = r := length_slice (by omega)
  have hmoved : (overwrite b (i+k+s.length) (slice b (i+k) r)).length = b.length := length_overwrite (by omega)
  have hself := slice_overwrite_self (b := b) (i := i+k+s.length) (s := slice b (i+k) r) (by omega)
  rw [htail] at hself
  rw [slice_add,slice_add,slice_overwrite_before (le_refl _) (by omega),slice_overwrite_self (by omega),
    slice_overwrite_behind (le_refl _) (by omega),slice_overwrite_before (by omega) (by omega),hself,
    append_assoc]

end FastNet.Block
