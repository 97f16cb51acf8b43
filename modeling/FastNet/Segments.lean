import Mathlib

/-!
Texts that a separator cuts into segments: the segments of a longer text, texts that
differ in the separators at their end, and the removal of dot segments.
-/

namespace FastNet.Segments

open List

variable {α : Type} {sep : α} {a b : List (List α)} {x : α} {segment : List α}

theorem intercalate_append (ha : a ≠ []) (hb : b ≠ []) :
    [sep].intercalate (a ++ b) = [sep].intercalate a ++ [sep] ++ [sep].intercalate b := by
  induction a with
  | nil => exact absurd rfl ha
  | cons x a ih =>
    cases a with
    | nil =>
      obtain ⟨y,b,rfl⟩ := exists_cons_of_ne_nil hb
      simp [intercalate_cons_cons]
    | cons y a =>
      have hrest := ih (by simp)
      simp only [cons_append,intercalate_cons_cons] at hrest ⊢
      rw [hrest]
      simp only [append_assoc]

theorem mem_of_mem_intercalate {segments : List (List α)}
    (h : x ∈ [sep].intercalate segments) : x = sep ∨ ∃ segment ∈ segments, x ∈ segment := by
  induction segments with
  | nil => cases h
  | cons first segments ih =>
    cases segments with
    | nil => exact .inr ⟨first,by simp,by simpa using h⟩
    | cons second segments =>
      rw [intercalate_cons_cons] at h
      rcases mem_append.mp h with h | h
      · rcases mem_append.mp h with h | h
        · exact .inr ⟨first,by simp,h⟩
        · exact .inl (mem_singleton.mp h)
      · rcases ih h with h | ⟨segment,hmem,hx⟩
        · exact .inl h
        · exact .inr ⟨segment,mem_cons_of_mem _ hmem,hx⟩

theorem mem_intercalate_of_mem {segments : List (List α)}
    (hmem : segment ∈ segments) (hx : x ∈ segment) : x ∈ [sep].intercalate segments := by
  induction segments with
  | nil => cases hmem
  | cons first segments ih =>
    cases segments with
    | nil =>
      rw [mem_singleton.mp hmem] at hx
      simpa using hx
    | cons second segments =>
      rw [intercalate_cons_cons]
      rcases mem_cons.mp hmem with rfl | hmem
      · simp [hx]
      · simp [ih hmem]

section Ends

variable {p : α → Bool}

theorem rdropWhile_append_of_all (l : List α) {r : List α} (h : ∀ x ∈ r, p x = true) :
    (l ++ r).rdropWhile p = l.rdropWhile p := by
  induction r using reverseRecOn with
  | nil => rw [append_nil]
  | append_singleton r x ih =>
    rw [← append_assoc,rdropWhile_concat_pos p _ x (h x (by simp))]
    exact ih (fun y hy => h y (by simp [hy]))

theorem rdropWhile_split (l : List α) :
    ∃ r, l = l.rdropWhile p ++ r ∧ ∀ x ∈ r, p x = true := by
  induction l using reverseRecOn with
  | nil => exact ⟨[],rfl,by simp⟩
  | append_singleton l x ih =>
    rw [rdropWhile_concat]
    split
    · rename_i hx
      obtain ⟨r,hl,hr⟩ := ih
      refine ⟨r ++ [x],?_,?_⟩
      · rw [← append_assoc,← hl]
      · intro y hy
        rcases mem_append.mp hy with hy | hy
        · exact hr y hy
        · rwa [mem_singleton.mp hy]
    · exact ⟨[],by simp,by simp⟩

end Ends

section Dots

def named (segments : List (List α)) : List (List α) := segments.filter (· ≠ [])

theorem named_concat_nil (segments : List (List α)) :
    named (segments ++ [[]]) = named segments := by
  simp [named]

theorem named_concat (segments : List (List α)) {last : List α} (h : last ≠ []) :
    named (segments ++ [last]) = named segments ++ [last] := by
  simp [named,h]

variable [DecidableEq α] (here up : List α)

/-- What a segment of a path does to the list of those before it: one stands for the
directory itself, one for the directory above. -/
def enter (entered : List (List α)) (segment : List α) : List (List α) :=
  if segment = here then entered
  else if segment = up then entered.dropLast
  else entered ++ [segment]

/-- The segments that are left when the dot segments are removed. In the last place a
dot segment leaves the empty name, which stands for the directory. -/
def removeDots (segments : List (List α)) : List (List α) :=
  segments.foldl (enter here up) [] ++
    if segments.getLast? = some here ∨ segments.getLast? = some up then [[]] else []

variable {here up} {segments : List (List α)}

theorem mem_of_mem_entered (h : segment ∈ segments.foldl (enter here up) []) : segment ∈ segments := by
  induction segments using reverseRecOn with
  | nil => cases h
  | append_singleton segments last ih =>
    rw [foldl_append,foldl_cons,foldl_nil,enter] at h
    split at h
    · exact mem_append_left _ (ih h)
    · split at h
      · exact mem_append_left _ (ih (mem_of_mem_dropLast h))
      · rcases mem_append.mp h with h | h
        · exact mem_append_left _ (ih h)
        · exact mem_append_right _ h

theorem entered_sublist (segments : List (List α)) : (segments.foldl (enter here up) []).Sublist segments := by
  induction segments using reverseRecOn with
  | nil => exact .refl []
  | append_singleton segments last ih =>
    rw [foldl_append,foldl_cons,foldl_nil,enter]
    split
    · exact ih.trans (sublist_append_left segments [last])
    · split
      · exact ((dropLast_sublist _).trans ih).trans (sublist_append_left segments [last])
      · exact ih.append (.refl [last])

theorem ne_dots_of_mem_entered (h : segment ∈ segments.foldl (enter here up) []) :
    segment ≠ here ∧ segment ≠ up := by
  induction segments using reverseRecOn with
  | nil => cases h
  | append_singleton segments last ih =>
    rw [foldl_append,foldl_cons,foldl_nil,enter] at h
    split at h
    · exact ih h
    · split at h
      · exact ih (mem_of_mem_dropLast h)
      · rename_i hhere hup
        rcases mem_append.mp h with h | h
        · exact ih h
        · rw [mem_singleton.mp h]
          exact ⟨hhere,hup⟩

theorem foldl_enter_of_not_up (h : up ∉ segments) (entered : List (List α)) :
    segments.foldl (enter here up) entered = entered ++ segments.filter (· ≠ here) := by
  induction segments generalizing entered with
  | nil => simp
  | cons segment segments ih =>
    rw [mem_cons,not_or] at h
    rw [foldl_cons,ih h.2,enter]
    by_cases hhere : segment = here
    · simp [hhere]
    · simp [hhere,Ne.symm h.1]

theorem nil_not_mem_entered_named : [] ∉ (named segments).foldl (enter here up) [] := by
  intro h
  simpa [named] using mem_of_mem_entered h

theorem enter_nil (hhere : here ≠ []) (hup : up ≠ []) (entered : List (List α)) :
    enter here up entered [] = entered ++ [[]] := by
  rw [enter,if_neg (fun h => hhere h.symm),if_neg (fun h => hup h.symm)]

theorem length_entered_named_le (hhere : here ≠ []) (hup : up ≠ []) :
    ((named segments).foldl (enter here up) []).length ≤
      (segments.foldl (enter here up) []).length := by
  induction segments using reverseRecOn with
  | nil => exact Nat.le_refl _
  | append_singleton segments last ih =>
    by_cases hlast : last = []
    · subst hlast
      rw [named_concat_nil,foldl_append,foldl_cons,foldl_nil,enter_nil hhere hup,length_append]
      omega
    · rw [named_concat segments hlast]
      simp only [foldl_append,foldl_cons,foldl_nil,enter]
      split
      · exact ih
      · split
        · simp only [length_dropLast]
          omega
        · simp only [length_append]
          omega

theorem removeDots_concat (segments : List (List α)) (last : List α) :
    removeDots here up (segments ++ [last]) =
      if last = here then segments.foldl (enter here up) [] ++ [[]]
      else if last = up then (segments.foldl (enter here up) []).dropLast ++ [[]]
      else segments.foldl (enter here up) [] ++ [last] := by
  simp only [removeDots,foldl_append,foldl_cons,foldl_nil,enter,getLast?_concat,Option.some.injEq]
  by_cases hhere : last = here
  · simp [hhere]
  · by_cases hup : last = up
    · subst hup
      simp [hhere]
    · simp [hhere,hup]

theorem removeDots_ne_nil (hne : segments ≠ []) : removeDots here up segments ≠ [] := by
  obtain ⟨segments,last,rfl⟩ := (eq_nil_or_concat' segments).resolve_left hne
  rw [removeDots_concat]
  split
  · simp
  · split <;> simp

theorem mem_removeDots (h : segment ∈ removeDots here up segments) : segment ∈ segments ∨ segment = [] := by
  rcases mem_append.mp h with h | h
  · exact .inl (mem_of_mem_entered h)
  · split at h
    · exact .inr (mem_singleton.mp h)
    · cases h

theorem removeDots_named_of_nil_not_mem (hhere : here ≠ []) (hup : up ≠ [])
    (h : [] ∉ removeDots here up segments) :
    removeDots here up (named segments) = (named segments).foldl (enter here up) [] := by
  rcases eq_nil_or_concat' segments with rfl | ⟨segments,last,rfl⟩
  · simp [removeDots,named]
  · rw [removeDots_concat] at h
    have hlast : last ≠ here ∧ last ≠ up ∧ last ≠ [] := by
      refine ⟨?_,?_,?_⟩
      · rintro rfl
        simp at h
      · rintro rfl
        split at h <;> simp at h
      · rintro rfl
        rw [if_neg (fun h => hhere h.symm),if_neg (fun h => hup h.symm)] at h
        simp at h
    rw [named_concat segments hlast.2.2,removeDots_concat,if_neg hlast.1,if_neg hlast.2.1]
    simp [enter,hlast]

theorem entered_named_of_root (hhere : here ≠ []) (hup : up ≠ [])
    (h : removeDots here up segments = [[]]) :
    ((named segments).foldl (enter here up) []).length = 0 := by
  by_cases hdots : segments.getLast? = some here ∨ segments.getLast? = some up
  · rw [removeDots,if_pos hdots] at h
    have hnone : segments.foldl (enter here up) [] = [] := by simpa using h
    have hle := @length_entered_named_le _ _ here up segments hhere hup
    rw [hnone] at hle
    exact Nat.le_zero.mp hle
  · rcases eq_nil_or_concat' segments with rfl | ⟨segments,last,rfl⟩
    · rfl
    · rw [getLast?_concat,Option.some.injEq,Option.some.injEq,not_or] at hdots
      rw [removeDots_concat,if_neg hdots.1,if_neg hdots.2] at h
      obtain ⟨hnone,hlast⟩ : segments.foldl (enter here up) [] = [] ∧ last = [] := by
        have hlen := congrArg length h
        rw [length_append] at hlen
        have hnone := length_eq_zero_iff.mp (Nat.add_right_cancel hlen)
        rw [hnone] at h
        exact ⟨hnone,by simpa using h⟩
      have hle := @length_entered_named_le _ _ here up segments hhere hup
      rw [hnone] at hle
      rw [hlast,named_concat_nil]
      exact Nat.le_zero.mp hle

/-- Segments without the separator are told by the joined text; only no segments and the
empty one are joined to the same text. -/
theorem intercalate_inj (ha : ∀ s ∈ a, sep ∉ s) (hb : ∀ s ∈ b, sep ∉ s)
    (hane : a ≠ []) (hbne : b ≠ []) : [sep].intercalate a = [sep].intercalate b ↔ a = b := by
  constructor
  · intro h
    rw [← splitOn_intercalate sep ha hane,h,splitOn_intercalate sep hb hbne]
  · exact congrArg _

/-- When the empty segments can be left out before the dot segments are removed: the
root is left, or no segment that is left is empty and those before them made no
difference. -/
theorem intercalate_removeDots_iff (hhere : here ≠ []) (hup : up ≠ [])
    (hsep : ∀ s ∈ segments, sep ∉ s) (hne : segments ≠ []) :
    [sep].intercalate (removeDots here up segments) =
        [sep].intercalate ((named segments).foldl (enter here up) []) ↔
      removeDots here up segments = [[]] ∨
        [] ∉ removeDots here up segments ∧
          removeDots here up segments = removeDots here up (named segments) := by
  have hleft : ∀ s ∈ removeDots here up segments, sep ∉ s := by
    intro s hs
    rcases mem_removeDots hs with hs | rfl
    · exact hsep s hs
    · exact not_mem_nil
  have hnamed : ∀ s ∈ (named segments).foldl (enter here up) [], sep ∉ s := fun s hs =>
    hsep s (mem_of_mem_filter (mem_of_mem_entered hs))
  have hpos := @removeDots_ne_nil _ _ here up _ hne
  constructor
  · intro h
    by_cases hnil : (named segments).foldl (enter here up) [] = []
    · have hroot : ∀ s ∈ [([] : List α)], sep ∉ s := by simp
      rw [hnil] at h
      exact .inl ((intercalate_inj hleft hroot hpos (by simp)).mp h)
    · rw [intercalate_inj hleft hnamed hpos hnil] at h
      have hno : [] ∉ removeDots here up segments := by
        rw [h]
        exact nil_not_mem_entered_named
      refine .inr ⟨hno,?_⟩
      rw [h,removeDots_named_of_nil_not_mem hhere hup hno]
  · rintro (hroot | ⟨hno,hsame⟩)
    · rw [hroot,length_eq_zero_iff.mp (entered_named_of_root hhere hup hroot)]
      rfl
    · rw [hsame,removeDots_named_of_nil_not_mem hhere hup hno]

end Dots

end FastNet.Segments
