import Mathlib

/-!
Lists of records with keys, as maps and tables are held: a record is found, put, changed or
erased by its key. How many records have a property follows every change.
-/

namespace FastNet.Keyed

open List

variable {α κ : Type} [DecidableEq κ] {key : α → κ} {k : κ} {f : α → α} {l : List α} {a b : α}

def find (key : α → κ) (k : κ) (l : List α) : Option α := l.find? (fun a => key a = k)

def erase (key : α → κ) (k : κ) (l : List α) : List α := l.filter (fun a => key a ≠ k)

def modify (key : α → κ) (k : κ) (f : α → α) (l : List α) : List α := l.map (fun a => if key a = k then f a else a)

def put (key : α → κ) (a : α) (l : List α) : List α := erase key (key a) l ++ [a]

/-- The first record with the key is changed, as a search through a vector does it. -/
def modifyFirst (key : α → κ) (k : κ) (f : α → α) : List α → List α
  | [] => []
  | a :: l => if key a = k then f a :: l else a :: modifyFirst key k f l

theorem find_some (h : find key k l = some a) : a ∈ l ∧ key a = k := by
  refine ⟨mem_of_find?_eq_some h,?_⟩
  simpa using find?_some h

theorem find_none : find key k l = none ↔ ∀ a ∈ l, key a ≠ k := by simp [find]

theorem find_of_mem (hl : (l.map key).Nodup) (ha : a ∈ l) (hk : key a = k) : find key k l = some a := by
  cases h : find key k l with
  | none => exact absurd hk (find_none.mp h a ha)
  | some b =>
    obtain ⟨hb,hkey⟩ := find_some h
    rw [inj_on_of_nodup_map hl ha hb (hk.trans hkey.symm)]

@[simp] theorem mem_erase : a ∈ erase key k l ↔ a ∈ l ∧ key a ≠ k := by simp [erase]

theorem mem_modify : b ∈ modify key k f l ↔ (b ∈ l ∧ key b ≠ k) ∨ ∃ a ∈ l, key a = k ∧ f a = b := by
  rw [modify,mem_map]
  constructor
  · rintro ⟨a,ha,rfl⟩
    by_cases hk : key a = k
    · exact .inr ⟨a,ha,hk,by simp [hk]⟩
    · exact .inl ⟨by simpa [hk] using ha,by simp [hk]⟩
  · rintro (⟨hb,hk⟩ | ⟨a,ha,hk,rfl⟩)
    · exact ⟨b,hb,by simp [hk]⟩
    · exact ⟨a,ha,by simp [hk]⟩

theorem map_key_modify (hf : ∀ a, key (f a) = key a) (k : κ) (l : List α) : (modify key k f l).map key = l.map key := by
  rw [modify,map_map]
  refine map_congr_left (fun a _ => ?_)
  simp only [Function.comp_apply]
  split
  · exact hf a
  · rfl

theorem nodup_erase (hl : (l.map key).Nodup) (k : κ) : ((erase key k l).map key).Nodup :=
  (filter_sublist.map key).nodup hl

theorem nodup_put (hl : (l.map key).Nodup) (a : α) : ((put key a l).map key).Nodup := by
  rw [put,map_append,map_singleton]
  refine (nodup_erase hl (key a)).append (nodup_singleton _) (fun k hk hk' => ?_)
  obtain ⟨b,hb,rfl⟩ := mem_map.mp hk
  exact (mem_erase.mp hb).2 (mem_singleton.mp hk')

theorem erase_of_not_mem (h : ∀ a ∈ l, key a ≠ k) : erase key k l = l := by
  rw [erase,filter_eq_self]
  simpa using h

theorem modify_of_not_mem (h : ∀ a ∈ l, key a ≠ k) : modify key k f l = l := by
  rw [modify]
  refine (map_congr_left (fun a ha => ?_)).trans l.map_id
  simp [h a ha]

theorem modify_modify {g : α → α} (hg : ∀ a, key (g a) = key a) (k : κ) (f : α → α) (l : List α) :
    modify key k f (modify key k g l) = modify key k (fun a => f (g a)) l := by
  rw [modify,modify,map_map]
  refine map_congr_left (fun a _ => ?_)
  by_cases hk : key a = k
  · simp [hk,hg]
  · simp [hk]

theorem modify_congr {g : α → α} (h : ∀ a ∈ l, key a = k → f a = g a) : modify key k f l = modify key k g l := by
  refine map_congr_left (fun a ha => ?_)
  by_cases hk : key a = k
  · simp [hk,h a ha hk]
  · simp [hk]

theorem find_cons (key : α → κ) (k : κ) (a : α) (l : List α) :
    find key k (a :: l) = if key a = k then some a else find key k l := by
  by_cases hk : key a = k <;> simp [find,hk]

theorem find_modify (hf : ∀ a, key (f a) = key a) (k k' : κ) (l : List α) :
    find key k' (modify key k f l) = (find key k' l).map (fun a => if k' = k then f a else a) := by
  induction l with
  | nil => rfl
  | cons a l ih =>
    have hcons : modify key k f (a :: l) = (if key a = k then f a else a) :: modify key k f l := rfl
    have hkey : key (if key a = k then f a else a) = key a := by
      split
      · exact hf a
      · rfl
    rw [hcons,find_cons,find_cons,hkey,ih]
    by_cases hk : key a = k'
    · simp [hk]
    · simp [hk]

theorem modifyFirst_eq (hl : (l.map key).Nodup) (k : κ) (f : α → α) : modifyFirst key k f l = modify key k f l := by
  induction l with
  | nil => rfl
  | cons a l ih =>
    rw [map_cons,nodup_cons] at hl
    have hcons : modify key k f (a :: l) = (if key a = k then f a else a) :: modify key k f l := rfl
    rw [modifyFirst,hcons]
    by_cases hk : key a = k
    · have hrest : modify key k f l = l := by
        refine modify_of_not_mem (fun b hb hkey => hl.1 ?_)
        rw [hk,← hkey]
        exact mem_map_of_mem hb
      simp [hk,hrest]
    · simp [hk,ih hl.2]

theorem modifyFirst_eq_self_iff (h : find key k l = some a) : modifyFirst key k f l = l ↔ f a = a := by
  induction l with
  | nil => cases h
  | cons b l ih =>
    rw [find_cons] at h
    rw [modifyFirst]
    split at h
    · rename_i hk
      obtain rfl := Option.some.inj h
      rw [if_pos hk,cons_eq_cons,and_iff_left rfl]
    · rename_i hk
      rw [if_neg hk,cons_eq_cons,and_iff_right rfl,ih h]

theorem modify_at (hl : (l.map key).Nodup) {i : Nat} (ha : l[i]? = some a) (f : α → α) :
    l.modify i f = modify key (key a) f l := by
  induction l generalizing i with
  | nil => cases ha
  | cons b l ih =>
    rw [map_cons,nodup_cons] at hl
    have hcons : modify key (key a) f (b :: l) = (if key b = key a then f b else b) :: modify key (key a) f l := rfl
    cases i with
    | zero =>
      obtain rfl : b = a := Option.some.inj ha
      have hrest : modify key (key b) f l = l :=
        modify_of_not_mem (fun a ha hk => hl.1 (hk ▸ mem_map_of_mem ha))
      rw [hcons,hrest,if_pos rfl]
      rfl
    | succ i =>
      have hrest : l[i]? = some a := ha
      have hne : key b ≠ key a := fun hk => hl.1 (hk ▸ mem_map_of_mem (mem_of_getElem? hrest))
      rw [hcons,if_neg hne,← ih hl.2 hrest]
      rfl

/-! ### How many records have a property -/

variable {p : α → Bool}

theorem split_at (hl : (l.map key).Nodup) (ha : a ∈ l) :
    ∃ front back, l = front ++ a :: back ∧ erase key (key a) l = front ++ back ∧
      ∀ f, modify key (key a) f l = front ++ f a :: back := by
  obtain ⟨front,back,rfl⟩ := append_of_mem ha
  rw [map_append,map_cons,nodup_middle,nodup_cons,← map_append] at hl
  have hne (b : α) (hb : b ∈ front ++ back) : key b ≠ key a := fun hk => hl.1 (hk ▸ mem_map_of_mem hb)
  have hfront (b : α) (hb : b ∈ front) := hne b (mem_append_left _ hb)
  have hback (b : α) (hb : b ∈ back) := hne b (mem_append_right _ hb)
  refine ⟨front,back,rfl,?_,fun f => ?_⟩
  · rw [erase,filter_append,filter_cons_of_neg (by simp),← erase,← erase,erase_of_not_mem hfront,erase_of_not_mem hback]
  · rw [modify,map_append,map_cons,if_pos rfl,← modify,← modify,modify_of_not_mem hfront,modify_of_not_mem hback]

theorem countP_erase (hl : (l.map key).Nodup) (ha : a ∈ l) (p : α → Bool) :
    (erase key (key a) l).countP p+(if p a then 1 else 0) = l.countP p := by
  obtain ⟨front,back,hsplit,herase,-⟩ := split_at hl ha
  rw [herase,hsplit,countP_append,countP_append,countP_cons]
  omega

theorem countP_modify (hl : (l.map key).Nodup) (ha : a ∈ l) (f : α → α) (p : α → Bool) :
    (modify key (key a) f l).countP p+(if p a then 1 else 0) = l.countP p+(if p (f a) then 1 else 0) := by
  obtain ⟨front,back,hsplit,-,hmodify⟩ := split_at hl ha
  rw [hmodify,hsplit,countP_append,countP_append,countP_cons,countP_cons]
  omega

end FastNet.Keyed
