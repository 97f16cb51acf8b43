import Mathlib

/-!
Searching, cutting and trimming of strings, as the C++ string views do it, over
an arbitrary alphabet. Positions are absolute; a search that fails returns
`none`, a cut that starts behind the end throws.
-/

namespace FastNet.Text

open List

variable {α : Type} {c : α} {pat data rest a : List α} {i k pos : Nat}

/-- The standard exceptions that a string operation can raise. -/
inductive Exn where
  | outOfRange | lengthError | invalidArgument
  deriving DecidableEq, Repr

/-- The pattern stands at position `i`. -/
def OccursAt (pat data : List α) (i : Nat) : Prop := pat <+: data.drop i

instance [DecidableEq α] (pat data : List α) (i : Nat) : Decidable (OccursAt pat data i) :=
  inferInstanceAs (Decidable (pat <+: data.drop i))

theorem OccursAt.bound (h : OccursAt pat data i) (hpat : pat ≠ []) : i+pat.length ≤ data.length := by
  have hl := h.length_le
  have hp := length_pos_iff.mpr hpat
  simp only [length_drop] at hl
  omega

theorem OccursAt.head (h : OccursAt (c :: pat) data i) : data[i]? = some c := by
  obtain ⟨t,ht⟩ := h
  have hget := congrArg (fun l => l[0]?) ht
  simpa using hget.symm

theorem OccursAt.append (h : OccursAt pat data i) (rest : List α) : OccursAt pat (data ++ rest) i := by
  unfold OccursAt at *
  rw [drop_append]
  exact h.trans (prefix_append _ _)

theorem occursAt_of_append (h : OccursAt pat (data ++ rest) i) (hi : i+pat.length ≤ data.length) :
    OccursAt pat data i := by
  unfold OccursAt at *
  rw [drop_append_of_le_length (by omega)] at h
  exact prefix_of_prefix_length_le h (prefix_append _ _) (by simp; omega)

theorem occursAt_drop : OccursAt pat (data.drop k) i ↔ OccursAt pat data (k+i) := by
  simp [OccursAt,drop_drop]

theorem occursAt_cut {b : List α} : OccursAt pat (a ++ pat ++ b) a.length := by
  simp [OccursAt]

section Search

variable [DecidableEq α]

def findFrom (pat : List α) : List α → Nat → Option Nat
  | [], i => if pat = [] then some i else none
  | a :: rest, i => if pat <+: a :: rest then some i else findFrom pat rest (i+1)

/-- `data.find(pat, pos)`: the first occurrence at or after `pos`. -/
def find (pat data : List α) (pos : Nat) : Option Nat :=
  if pos ≤ data.length then findFrom pat (data.drop pos) pos else none

theorem findFrom_eq_some (h : findFrom pat data k = some i) :
    k ≤ i ∧ i ≤ k+data.length ∧ OccursAt pat data (i-k) ∧
      ∀ j < i-k, ¬ OccursAt pat data j := by
  induction data generalizing k with
  | nil =>
    unfold findFrom at h
    split at h
    · cases h
      simp_all [OccursAt]
    · cases h
  | cons a rest ih =>
    unfold findFrom at h
    split at h
    · rename_i hp
      cases h
      simp [OccursAt,hp]
    · rename_i hp
      obtain ⟨hk,hle,hocc,hmin⟩ := ih h
      have hs : i-k = (i-(k+1))+1 := by omega
      refine ⟨by omega,by simp only [length_cons]; omega,?_,?_⟩
      · rw [hs]
        simpa [OccursAt] using hocc
      · intro j hj
        cases j with
        | zero => simpa [OccursAt] using hp
        | succ j =>
          have h' := hmin j (by omega)
          simpa [OccursAt] using h'

theorem findFrom_eq_none (h : findFrom pat data k = none)
    (j : Nat) (hj : j ≤ data.length) : ¬ OccursAt pat data j := by
  induction data generalizing k j with
  | nil =>
    unfold findFrom at h
    split at h
    · cases h
    · simpa [OccursAt] using by assumption
  | cons a rest ih =>
    unfold findFrom at h
    split at h
    · cases h
    · rename_i hp
      cases j with
      | zero => simpa [OccursAt] using hp
      | succ j =>
        have h' := ih h j (by simpa using hj)
        simpa [OccursAt] using h'

theorem find_spec (h : find pat data pos = some i) : pos ≤ i ∧ i ≤ data.length ∧ OccursAt pat data i ∧
      ∀ j, pos ≤ j → j < i → ¬ OccursAt pat data j := by
  unfold find at h
  split at h
  · obtain ⟨hk,hle,hocc,hmin⟩ := findFrom_eq_some h
    rw [occursAt_drop,show pos+(i-pos) = i by omega] at hocc
    simp only [length_drop] at hle
    refine ⟨hk,by omega,hocc,fun j hpos hj => ?_⟩
    have h' := hmin (j-pos) (by omega)
    rwa [occursAt_drop,show pos+(j-pos) = j by omega] at h'
  · cases h

theorem find_eq_none_iff :
    find pat data pos = none ↔ ∀ j, pos ≤ j → j ≤ data.length → ¬ OccursAt pat data j := by
  constructor
  · intro h j hpos hj
    unfold find at h
    rw [if_pos (by omega)] at h
    have h' := findFrom_eq_none h (j-pos) (by simp only [length_drop]; omega)
    rwa [occursAt_drop,show pos+(j-pos) = j by omega] at h'
  · intro h
    cases hf : find pat data pos with
    | none => rfl
    | some i =>
      obtain ⟨hpos,hle,hocc,-⟩ := find_spec hf
      exact absurd hocc (h i hpos hle)

theorem find_eq_some_iff : find pat data pos = some i ↔ pos ≤ i ∧ i ≤ data.length ∧ OccursAt pat data i ∧
        ∀ j, pos ≤ j → j < i → ¬ OccursAt pat data j := by
  refine ⟨find_spec,?_⟩
  rintro ⟨hpos,hle,hocc,hmin⟩
  cases hf : find pat data pos with
  | none => exact absurd hocc (find_eq_none_iff.mp hf i hpos hle)
  | some i' =>
    obtain ⟨hpos',-,hocc',hmin'⟩ := find_spec hf
    rcases Nat.lt_trichotomy i i' with h | h | h
    · exact absurd hocc (hmin' i hpos h)
    · rw [h]
    · exact absurd hocc' (hmin i' hpos' h)

theorem find_self_iff (hpat : pat ≠ []) : find pat data pos = some pos ↔ OccursAt pat data pos := by
  refine ⟨fun h => (find_spec h).2.2.1,fun h => ?_⟩
  have hb := h.bound hpat
  exact find_eq_some_iff.mpr ⟨Nat.le_refl _,by omega,h,by omega⟩

theorem find_bounds (hpat : pat ≠ [])
    (h : find pat data pos = some i) : pos ≤ i ∧ i+pat.length ≤ data.length := by
  obtain ⟨hpos,-,hocc,-⟩ := find_spec h
  exact ⟨hpos,hocc.bound hpat⟩

theorem find_append (hpat : pat ≠ []) (h : find pat data pos = some i) (rest : List α) :
    find pat (data ++ rest) pos = some i := by
  obtain ⟨hpos,hle,hocc,hmin⟩ := find_spec h
  have hb := hocc.bound hpat
  refine find_eq_some_iff.mpr
    ⟨hpos,by simp only [length_append]; omega,hocc.append rest,fun j hj hji hc => ?_⟩
  exact hmin j hj hji (occursAt_of_append hc (by omega))

theorem find_of_append (h : find pat (data ++ rest) pos = some i) (hi : i+pat.length ≤ data.length) :
    find pat data pos = some i := by
  obtain ⟨hpos,-,hocc,hmin⟩ := find_spec h
  exact find_eq_some_iff.mpr ⟨hpos,by omega,occursAt_of_append hocc hi,
    fun j hj hji hc => hmin j hj hji (hc.append rest)⟩

theorem find_part (hpat : pat ≠ []) (h : find pat (data ++ rest) pos = some i) :
    find pat data pos = if i+pat.length ≤ data.length then some i else none := by
  split
  · rename_i hle
    exact find_of_append h hle
  · rename_i hle
    cases hf : find pat data pos with
    | none => rfl
    | some j =>
      rw [find_append hpat hf rest,Option.some.injEq] at h
      subst h
      exact absurd (find_bounds hpat hf).2 hle

theorem find_drop (pat data : List α) (k pos : Nat) (hk : k ≤ data.length) :
    find pat data (k+pos) = (find pat (data.drop k) pos).map (k+·) := by
  cases hf : find pat (data.drop k) pos with
  | none =>
    rw [Option.map_none,find_eq_none_iff]
    intro j hpos hj hc
    refine find_eq_none_iff.mp hf (j-k) (by omega) (by simp only [length_drop]; omega) ?_
    rwa [occursAt_drop,show k+(j-k) = j by omega]
  | some i =>
    obtain ⟨hpos,hle,hocc,hmin⟩ := find_spec hf
    rw [Option.map_some,find_eq_some_iff]
    simp only [length_drop] at hle
    refine ⟨by omega,by omega,occursAt_drop.mp hocc,fun j hj hji hc => ?_⟩
    refine hmin (j-k) (by omega) (by omega) ?_
    rwa [occursAt_drop,show k+(j-k) = j by omega]

theorem find_skip (h : ∀ j < k, ¬ OccursAt pat data j) : find pat data 0 = find pat data k := by
  cases hf : find pat data k with
  | none =>
    rw [find_eq_none_iff] at hf ⊢
    intro j _ hj
    rcases Nat.lt_or_ge j k with hlt | hge
    · exact h j hlt
    · exact hf j hge hj
  | some i =>
    obtain ⟨hpos,hle,hocc,hmin⟩ := find_spec hf
    refine find_eq_some_iff.mpr ⟨Nat.zero_le _,hle,hocc,fun j _ hj => ?_⟩
    rcases Nat.lt_or_ge j k with hlt | hge
    · exact h j hlt
    · exact hmin j hge hj

theorem find_cut (h : c ∉ a) (rest : List α) : find (c :: pat) (a ++ (c :: pat) ++ rest) 0 = some a.length := by
  refine find_eq_some_iff.mpr ⟨Nat.zero_le _,by simp,occursAt_cut,fun j _ hj hc => ?_⟩
  have hget := hc.head
  rw [append_assoc,getElem?_append_left hj] at hget
  exact h (mem_of_getElem? hget)

theorem find_mark (h : c ∉ a) (rest : List α) : find [c] (a ++ c :: rest) 0 = some a.length := by
  have hcut := @find_cut _ c [] a _ h rest
  rwa [append_assoc] at hcut

theorem find_eq_none_of_not_mem (h : c ∉ data) (pos : Nat) : find (c :: pat) data pos = none := by
  rw [find_eq_none_iff]
  intro j _ _ hocc
  exact h (mem_of_getElem? hocc.head)

theorem find_letter (c : α) (data : List α) :
    (c ∉ data ∧ find [c] data 0 = none) ∨
      ∃ a b, data = a ++ c :: b ∧ c ∉ a ∧ find [c] data 0 = some a.length := by
  by_cases hc : c ∈ data
  · obtain ⟨a,b,rfl,ha⟩ := eq_append_cons_of_mem hc
    have h := @find_cut _ c [] a _ ha b
    simp only [append_assoc,cons_append,nil_append] at h
    exact .inr ⟨a,b,rfl,ha,h⟩
  · exact .inl ⟨hc,find_eq_none_of_not_mem hc 0⟩

end Search

/-- `data.substr(pos, n)`. -/
def substr (data : List α) (pos n : Nat) : Except Exn (List α) :=
  if pos ≤ data.length then .ok ((data.drop pos).take n) else .error .outOfRange

theorem substr_ok (h : pos ≤ data.length) (n : Nat) : substr data pos n = .ok ((data.drop pos).take n) := by
  simp [substr,h]

theorem slice_append {n : Nat} (h : pos+n ≤ data.length) :
    ((data ++ rest).drop pos).take n = (data.drop pos).take n := by
  rw [drop_append_of_le_length (by omega),take_append_of_le_length (by simp; omega)]

theorem occursAt_iff_take : (data.drop i).take pat.length = pat ↔ OccursAt pat data i := by
  unfold OccursAt
  rw [prefix_iff_eq_take]
  exact eq_comm

section Trim

variable (p : α → Bool)

/-- The string without the letters of kind `p` at its two ends. -/
def trim (data : List α) : List α := (data.dropWhile p).rdropWhile p

theorem trim_cons_of_pos {a : α} (h : p a = true) (data : List α) :
    trim p (a :: data) = trim p data := by
  simp [trim,h]

theorem trim_eq_self (hh : ∀ a ∈ data.head?, p a = false)
    (hl : ∀ a ∈ data.getLast?, p a = false) : trim p data = data := by
  have hd : data.dropWhile p = data := by
    cases data with
    | nil => rfl
    | cons a rest => simp [hh a (by simp)]
  unfold trim
  rw [hd,rdropWhile_eq_self_iff]
  intro hne
  simp [hl _ (getLast?_eq_some_getLast hne)]

theorem trim_ends : (∀ a ∈ (trim p data).head?, p a = false) ∧ (∀ a ∈ (trim p data).getLast?, p a = false) := by
  constructor
  · intro a ha
    have hpre := rdropWhile_prefix p (data.dropWhile p)
    have hh : (data.dropWhile p).head? = some a := by
      cases ht : trim p data with
      | nil => simp [ht] at ha
      | cons b rest =>
        simp only [ht,head?_cons,Option.mem_def,Option.some.injEq] at ha
        obtain ⟨t,ht'⟩ := hpre
        have htr : trim p data = (data.dropWhile p).rdropWhile p := rfl
        rw [← htr,ht] at ht'
        rw [← ht',← ha]
        simp
    have hn := head?_dropWhile_not p data
    simpa [hh] using hn
  · intro a ha
    have hne : (data.dropWhile p).rdropWhile p ≠ [] := by
      intro h
      simp [trim,h] at ha
    have hlast := rdropWhile_last_not p _ hne
    have hx : ((data.dropWhile p).rdropWhile p).getLast hne = a := by
      have h' : ((data.dropWhile p).rdropWhile p).getLast? = some a := ha
      rw [getLast?_eq_some_getLast hne] at h'
      exact Option.some.inj h'
    rw [hx] at hlast
    simpa using hlast

theorem trim_split (data : List α) : ∃ a b, data = a ++ trim p data ++ b ∧
    (∀ c ∈ a, p c = true) ∧ ∀ c ∈ b, p c = true := by
  refine ⟨data.takeWhile p,((data.dropWhile p).rtakeWhile p),?_,?_,?_⟩
  · unfold trim
    rw [append_assoc,rdropWhile_append_rtakeWhile,takeWhile_append_dropWhile]
  · exact fun c hc => mem_takeWhile_imp hc
  · intro c hc
    rw [rtakeWhile,mem_reverse] at hc
    exact mem_takeWhile_imp hc

@[simp] theorem trim_trim (data : List α) : trim p (trim p data) = trim p data :=
  trim_eq_self p (trim_ends p).1 (trim_ends p).2

end Trim

/-- A string view: where it begins in the storage it was made over, and the
letters it covered when it was made. -/
structure View (α : Type) where
  off : Nat
  text : List α
  deriving DecidableEq, Repr

namespace View

def whole (data : List α) : View α := ⟨0,data⟩

/-- The null view `{}`. -/
def null : View α := ⟨0,[]⟩

def size (v : View α) : Nat := v.text.length

/-- `v.substr(pos, n)` at a position the caller knows to be inside. -/
def sub (v : View α) (pos n : Nat) : View α := ⟨v.off+pos,(v.text.drop pos).take n⟩

/-- `v.substr(pos)`. -/
def suffix (v : View α) (pos : Nat) : View α := ⟨v.off+pos,v.text.drop pos⟩

def trim (p : α → Bool) (v : View α) : View α :=
  ⟨v.off+(v.text.takeWhile p).length,Text.trim p v.text⟩

@[simp] theorem whole_text (data : List α) : (whole data).text = data := rfl

@[simp] theorem sub_text (v : View α) (pos n : Nat) :
    (v.sub pos n).text = (v.text.drop pos).take n := rfl

@[simp] theorem suffix_text (v : View α) (pos : Nat) : (v.suffix pos).text = v.text.drop pos := rfl

@[simp] theorem trim_text (p : α → Bool) (v : View α) : (v.trim p).text = Text.trim p v.text := rfl

theorem whole_sub_append (data rest : List α) {pos n : Nat} (h : pos+n ≤ data.length) :
    (whole (data ++ rest)).sub pos n = (whole data).sub pos n := by
  simp only [sub,whole,slice_append h]

/-- The letters a view reads when its storage holds `mem`. -/
def read (mem : List α) (v : View α) : List α := (mem.drop v.off).take v.text.length

/-- The view reads in `mem` what it read when it was made. -/
def Within (mem : List α) (v : View α) : Prop := v.text <+: mem.drop v.off

variable {mem : List α} {v : View α}

theorem Within.read_eq (h : v.Within mem) : v.read mem = v.text :=
  (prefix_iff_eq_take.mp h).symm

theorem whole_within (data : List α) : (whole data).Within data := by
  simp [Within,whole]

theorem null_within (mem : List α) : (null : View α).Within mem := by
  simp [Within,null]

theorem Within.append (h : v.Within mem) (rest : List α) : v.Within (mem ++ rest) := by
  unfold Within at *
  rw [drop_append]
  exact h.trans (prefix_append _ _)

theorem Within.suffix (h : v.Within mem) (pos : Nat) : (v.suffix pos).Within mem := by
  have h' := h.drop pos
  rw [drop_drop] at h'
  simpa [Within,View.suffix,Nat.add_comm] using h'

theorem Within.sub (h : v.Within mem) (pos n : Nat) : (v.sub pos n).Within mem :=
  ( take_prefix _ _).trans (h.suffix pos)

theorem Within.trim (h : v.Within mem) (p : α → Bool) : (v.trim p).Within mem := by
  have hd : v.text.dropWhile p = v.text.drop (v.text.takeWhile p).length := by
    have happ := congrArg (drop (v.text.takeWhile p).length)
      (takeWhile_append_dropWhile (p := p) (l := v.text))
    rwa [drop_left] at happ
  have hs := h.suffix (v.text.takeWhile p).length
  unfold Within View.suffix at hs
  simp only at hs
  rw [← hd] at hs
  exact ( rdropWhile_prefix p _).trans hs

end View

end FastNet.Text
