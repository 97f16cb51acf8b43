import FastNet.Places

/-!
Tables with open addressing on a ring of `n` slots, whose slots keep how far a pair is behind its home.
-/

namespace FastNet.RobinHood

open Places List

variable {K V : Type}

/-- For every slot the probe-sequence length, 0 when the slot is empty, and the pair. -/
structure Table (K V : Type) where
  psl : Nat → Nat
  kv : Nat → Option (K × V)

namespace Table

def put (t : Table K V) (i d : Nat) (e : K × V) : Table K V where
  psl := Function.update t.psl i d
  kv := Function.update t.kv i (some e)

def vacate (t : Table K V) (i : Nat) : Table K V where
  psl := Function.update t.psl i 0
  kv := Function.update t.kv i none

/-- The pair of slot `j` moves to slot `i`, which is one nearer to its home. -/
def pull (t : Table K V) (i j : Nat) : Table K V where
  psl := Function.update t.psl i (t.psl j-1)
  kv := Function.update (Function.update t.kv i (t.kv j)) j none

def entries (n : Nat) (t : Table K V) : List (K × V) := (range n).filterMap t.kv

def others (n : Nat) (t : Table K V) (i : Nat) : List (K × V) := ((range n).erase i).filterMap t.kv

variable {n : Nat} {t : Table K V} {i j d : Nat} {e : K × V}

@[simp] theorem put_psl_self : (t.put i d e).psl i = d := by simp [put]

@[simp] theorem put_kv_self : (t.put i d e).kv i = some e := by simp [put]

theorem put_psl_of_ne (h : j ≠ i) : (t.put i d e).psl j = t.psl j := by simp [put,h]

theorem put_kv_of_ne (h : j ≠ i) : (t.put i d e).kv j = t.kv j := by simp [put,h]

@[simp] theorem vacate_psl_self : (t.vacate i).psl i = 0 := by simp [vacate]

@[simp] theorem vacate_kv_self : (t.vacate i).kv i = none := by simp [vacate]

theorem vacate_psl_of_ne (h : j ≠ i) : (t.vacate i).psl j = t.psl j := by simp [vacate,h]

theorem vacate_kv_of_ne (h : j ≠ i) : (t.vacate i).kv j = t.kv j := by simp [vacate,h]

theorem mem_entries : e ∈ t.entries n ↔ ∃ i < n, t.kv i = some e := by
  simp [entries,mem_filterMap]

theorem entries_perm (h : i < n) : (t.entries n).Perm ((t.kv i).toList ++ t.others n i) := by
  have hperm : (range n).Perm (i :: (range n).erase i) :=
    perm_cons_erase (mem_range.mpr h)
  have hmap := hperm.filterMap t.kv
  cases hi : t.kv i with
  | none => simpa [entries,others,filterMap_cons,hi] using hmap
  | some e => simpa [entries,others,filterMap_cons,hi] using hmap

theorem others_congr {t' : Table K V} (h : ∀ j, j ≠ i → t'.kv j = t.kv j) : t'.others n i = t.others n i := by
  apply filterMap_congr
  intro j hj
  exact h j (nodup_range.mem_erase_iff.mp hj).1

@[simp] theorem others_put : (t.put i d e).others n i = t.others n i :=
  others_congr (fun _ hj => put_kv_of_ne hj)

@[simp] theorem others_vacate : (t.vacate i).others n i = t.others n i :=
  others_congr (fun _ hj => vacate_kv_of_ne hj)

theorem entries_put (h : i < n) : ((t.put i d e).entries n).Perm (e :: t.others n i) := by
  have hsplit := entries_perm (t := t.put i d e) h
  simpa using hsplit

theorem entries_vacate (h : i < n) : ((t.vacate i).entries n).Perm (t.others n i) := by
  have hsplit := entries_perm (t := t.vacate i) h
  simpa using hsplit

theorem others_pull (hi : i < n) (hj : j < n) (hne : i ≠ j) :
    ((t.pull i j).others n j).Perm (t.others n i) := by
  have hperm : ((range n).erase i).Perm (j :: ((range n).erase i).erase j) :=
    perm_cons_erase (nodup_range.mem_erase_iff.mpr ⟨hne.symm,mem_range.mpr hj⟩)
  have hperm' : ((range n).erase j).Perm (i :: ((range n).erase j).erase i) :=
    perm_cons_erase (nodup_range.mem_erase_iff.mpr ⟨hne,mem_range.mpr hi⟩)
  have hold := hperm.filterMap t.kv
  have hnew := hperm'.filterMap (t.pull i j).kv
  have hrest : (((range n).erase j).erase i).filterMap (t.pull i j).kv =
      (((range n).erase i).erase j).filterMap t.kv := by
    rw [erase_comm]
    apply filterMap_congr
    intro l hl
    have hlj := ((nodup_range.erase i).mem_erase_iff.mp hl).1
    have hli := (nodup_range.mem_erase_iff.mp ((nodup_range.erase i).mem_erase_iff.mp hl).2).1
    simp [pull,hlj,hli]
  have hmoved : (t.pull i j).kv i = t.kv j := by simp [pull,hne]
  simp only [filterMap_cons,hrest,hmoved] at hnew hold
  exact hnew.trans hold.symm

theorem exists_empty (h : (t.entries n).length < n) : ∃ i < n, t.kv i = none := by
  by_contra hfull
  push Not at hfull
  have hlen : (t.entries n).length = n := by
    rw [entries,length_filterMap_eq_countP,countP_eq_length.mpr,length_range]
    intro i hi
    rw [Option.isSome_iff_ne_none]
    exact hfull i (mem_range.mp hi)
  omega

end Table

/-- What holds of a table with `n` slots, when no length is above `limit`. -/
structure Sound (n limit : Nat) (home : K → Nat) (t : Table K V) : Prop where
  empty_iff : ∀ i < n, t.psl i = 0 ↔ t.kv i = none
  psl_eq : ∀ i < n, ∀ e, t.kv i = some e → t.psl i = gap n (home e.1) i+1
  psl_le : ∀ i < n, t.psl i ≤ limit
  slope : ∀ i < n, t.psl (next n i) ≤ t.psl i+1
  unique : ∀ i < n, ∀ j < n, ∀ e e', t.kv i = some e → t.kv j = some e' → e.1 = e'.1 → i = j

section Sound

variable {n limit : Nat} {home : K → Nat} {t : Table K V} {i j : Nat} {e : K × V}

theorem Sound.empty (h : ∀ i < n, t.psl i = 0) (hkv : ∀ i < n, t.kv i = none) : Sound n limit home t where
  empty_iff i hi := by simp [h i hi,hkv i hi]
  psl_eq i hi e he := by simp [hkv i hi] at he
  psl_le i hi := by simp [h i hi]
  slope i hi := by simp [h _ (next_lt hi)]
  unique i hi j hj e e' he := by simp [hkv i hi] at he

section

variable (h : Sound n limit home t)
include h

theorem Sound.exists_pair (hi : i < n) (hpsl : t.psl i ≠ 0) :
    ∃ e, t.kv i = some e :=
  Option.ne_none_iff_exists'.mp (fun hnone => hpsl ((h.empty_iff i hi).mpr hnone))

theorem Sound.psl_ne_zero (hi : i < n) (he : t.kv i = some e) : t.psl i ≠ 0 := by
  rw [h.psl_eq i hi e he]
  omega

theorem Sound.psl_back (hi : i < n) {s : Nat} (hs : s ≤ n) :
    t.psl i ≤ t.psl (back n s i)+s := by
  induction s with
  | zero => simp
  | succ s ih =>
    have hslope := h.slope (back n (s+1) i) (back_lt hi hs)
    rw [next_back_succ hi (by omega)] at hslope
    have hstep := ih (by omega)
    omega

theorem Sound.psl_gap (hi : i < n) (hj : j < n) :
    t.psl i ≤ t.psl j+gap n j i := by
  have hback := h.psl_back hi (Nat.le_of_lt (gap_lt hj hi))
  rwa [back_gap hj] at hback

theorem Sound.psl_lt (hi : i < n) (hj : j < n) (hempty : t.psl j = 0) :
    t.psl i < n := by
  have hgap := h.psl_gap hi hj
  have hlt := gap_lt hj hi
  omega

theorem Sound.nodup : ((t.entries n).map Prod.fst).Nodup := by
  rw [List.Nodup,pairwise_map,Table.entries,pairwise_filterMap]
  refine List.Pairwise.imp_of_mem (fun {i j} hi hj hne e he e' he' hkey => hne ?_) nodup_range
  exact h.unique i (mem_range.mp hi) j (mem_range.mp hj) e e' he he' hkey

end

/-- A pair on its way to a place in the table: it is at `slot`, `d` from before its home. -/
structure Carrying (n limit : Nat) (home : K → Nat) (t : Table K V) (slot d : Nat) (k : K) : Prop where
  slot_lt : slot < n
  home_lt : home k < n
  psl_eq : d = gap n (home k) slot+1
  psl_le : d ≤ limit
  slope : d ≤ t.psl (back n 1 slot)+1
  absent : ∀ i < n, ∀ e, t.kv i = some e → e.1 ≠ k

theorem Carrying.start {k : K} (hhome : home k < n) (hlimit : 0 < limit)
    (habs : ∀ i < n, ∀ e, t.kv i = some e → e.1 ≠ k) : Carrying n limit home t (home k) 1 k where
  slot_lt := hhome
  home_lt := hhome
  psl_eq := by simp
  psl_le := hlimit
  slope := by omega
  absent := habs

theorem Sound.put (h : Sound n limit home t) {slot d : Nat} {k : K} {v : V}
    (hc : Carrying n limit home t slot d k) (hlt : t.psl slot < d) : Sound n limit home (t.put slot d (k,v)) where
  empty_iff i hi := by
    by_cases hne : i = slot
    · subst hne
      simp only [Table.put_psl_self,Table.put_kv_self]
      constructor
      · omega
      · intro hnone
        cases hnone
    · rw [Table.put_psl_of_ne hne,Table.put_kv_of_ne hne]
      exact h.empty_iff i hi
  psl_eq i hi e he := by
    by_cases hne : i = slot
    · subst hne
      rw [Table.put_kv_self,Option.some.injEq] at he
      subst he
      rw [Table.put_psl_self]
      exact hc.psl_eq
    · rw [Table.put_kv_of_ne hne] at he
      rw [Table.put_psl_of_ne hne]
      exact h.psl_eq i hi e he
  psl_le i hi := by
    by_cases hne : i = slot
    · subst hne
      rw [Table.put_psl_self]
      exact hc.psl_le
    · rw [Table.put_psl_of_ne hne]
      exact h.psl_le i hi
  slope i hi := by
    have hslope := h.slope i hi
    by_cases hnext : next n i = slot
    · rw [hnext,Table.put_psl_self]
      by_cases hne : i = slot
      · rw [hne,Table.put_psl_self]
        omega
      · rw [Table.put_psl_of_ne hne]
        have hback : back n 1 slot = i := by rw [← hnext,back_next]
        have hcar := hc.slope
        rwa [hback] at hcar
    · rw [Table.put_psl_of_ne hnext]
      by_cases hne : i = slot
      · rw [hne,Table.put_psl_self]
        rw [hne] at hslope
        omega
      · rw [Table.put_psl_of_ne hne]
        exact hslope
  unique i hi j hj e e' he he' hkey := by
    by_cases hi' : i = slot
    · by_cases hj' : j = slot
      · rw [hi',hj']
      · subst hi'
        rw [Table.put_kv_self,Option.some.injEq] at he
        rw [Table.put_kv_of_ne hj'] at he'
        exact absurd (by rw [← hkey,← he]) (hc.absent j hj e' he')
    · rw [Table.put_kv_of_ne hi'] at he
      by_cases hj' : j = slot
      · subst hj'
        rw [Table.put_kv_self,Option.some.injEq] at he'
        exact absurd (by rw [hkey,← he']) (hc.absent i hi e he)
      · rw [Table.put_kv_of_ne hj'] at he'
        exact h.unique i hi j hj e e' he he' hkey

theorem Carrying.exchange (h : Sound n limit home t) {slot d : Nat} {k k' : K} {v v' : V}
    (hc : Carrying n limit home t slot d k) (hhome : home k' < n) (hkv : t.kv slot = some (k',v'))
    (hlt : t.psl slot < d) : Carrying n limit home (t.put slot d (k,v)) slot (t.psl slot) k' where
  slot_lt := hc.slot_lt
  home_lt := hhome
  psl_eq := h.psl_eq slot hc.slot_lt _ hkv
  psl_le := h.psl_le slot hc.slot_lt
  slope := by
    have hslope := h.slope (back n 1 slot) (back_lt hc.slot_lt (by have := hc.slot_lt; omega))
    rw [next_back hc.slot_lt] at hslope
    by_cases hne : back n 1 slot = slot
    · rw [hne,Table.put_psl_self]
      omega
    · rw [Table.put_psl_of_ne hne]
      exact hslope
  absent i hi e he := by
    by_cases hne : i = slot
    · subst hne
      rw [Table.put_kv_self,Option.some.injEq] at he
      rw [← he]
      exact fun heq => hc.absent i hi _ hkv heq.symm
    · rw [Table.put_kv_of_ne hne] at he
      exact fun heq => hne (h.unique i hi slot hc.slot_lt e _ he hkv heq)

theorem Carrying.advance (h : Sound n limit home t) {slot d empty : Nat} {k : K}
    (hc : Carrying n limit home t slot d k) (hle : d ≤ t.psl slot) (hd : d < limit) (hlt : empty < n)
    (hempty : t.psl empty = 0) : Carrying n limit home t (next n slot) (d+1) k where
  slot_lt := next_lt hc.slot_lt
  home_lt := hc.home_lt
  psl_eq := by
    have hbelow := h.psl_lt hc.slot_lt hlt hempty
    have hd' := hc.psl_eq
    -- all the slots would be occupied if the home came again
    have hne : next n slot ≠ home k := by
      intro heq
      have hround := gap_next_self hc.slot_lt
      rw [heq] at hround
      omega
    rw [gap_next_right hc.home_lt hne]
    omega
  psl_le := hd
  slope := by
    rw [back_next]
    omega
  absent := hc.absent

/-- A table with a hole: the pair of slot `c` is gone, its length is still there. -/
structure Holed (n limit : Nat) (home : K → Nat) (t : Table K V) (c : Nat) : Prop where
  lt : c < n
  psl_ne : t.psl c ≠ 0
  empty_iff : ∀ i < n, i ≠ c → (t.psl i = 0 ↔ t.kv i = none)
  psl_eq : ∀ i < n, i ≠ c → ∀ e, t.kv i = some e → t.psl i = gap n (home e.1) i+1
  psl_le : ∀ i < n, t.psl i ≤ limit
  slope : ∀ i < n, t.psl (next n i) ≤ t.psl i+1
  unique : ∀ i < n, i ≠ c → ∀ j < n, j ≠ c → ∀ e e', t.kv i = some e → t.kv j = some e' → e.1 = e'.1 → i = j

theorem Sound.holed (h : Sound n limit home t) (hi : i < n) (he : t.kv i = some e) : Holed n limit home t i where
  lt := hi
  psl_ne := h.psl_ne_zero hi he
  empty_iff j hj _ := h.empty_iff j hj
  psl_eq j hj _ := h.psl_eq j hj
  psl_le := h.psl_le
  slope := h.slope
  unique a ha _ b hb _ := h.unique a ha b hb

theorem Holed.vacate {c : Nat} (h : Holed n limit home t c) (hnext : t.psl (next n c) ≤ 1) :
    Sound n limit home (t.vacate c) where
  empty_iff i hi := by
    by_cases hne : i = c
    · simp [hne]
    · rw [Table.vacate_psl_of_ne hne,Table.vacate_kv_of_ne hne]
      exact h.empty_iff i hi hne
  psl_eq i hi e he := by
    by_cases hne : i = c
    · simp [hne] at he
    · rw [Table.vacate_kv_of_ne hne] at he
      rw [Table.vacate_psl_of_ne hne]
      exact h.psl_eq i hi hne e he
  psl_le i hi := by
    by_cases hne : i = c
    · simp [hne]
    · rw [Table.vacate_psl_of_ne hne]
      exact h.psl_le i hi
  slope i hi := by
    by_cases hn : next n i = c
    · simp [hn]
    · rw [Table.vacate_psl_of_ne hn]
      by_cases hne : i = c
      · subst hne
        simpa using hnext
      · rw [Table.vacate_psl_of_ne hne]
        exact h.slope i hi
  unique i hi j hj e e' he he' := by
    have hi' : i ≠ c := by rintro rfl; simp at he
    have hj' : j ≠ c := by rintro rfl; simp at he'
    rw [Table.vacate_kv_of_ne hi'] at he
    rw [Table.vacate_kv_of_ne hj'] at he'
    exact h.unique i hi hi' j hj hj' e e' he he'

theorem Holed.pull {c : Nat} (h : Holed n limit home t c) (hhome : ∀ k, home k < n)
    (hnext : 1 < t.psl (next n c)) (hne : next n c ≠ c) : Holed n limit home (t.pull c (next n c)) (next n c) := by
  have hnlt := next_lt h.lt
  have hpsl : ∀ i, i ≠ c → (t.pull c (next n c)).psl i = t.psl i := fun i hi => by simp [Table.pull,hi]
  have hpslc : (t.pull c (next n c)).psl c = t.psl (next n c)-1 := by simp [Table.pull]
  have hkv : ∀ i, i ≠ c → i ≠ next n c → (t.pull c (next n c)).kv i = t.kv i :=
    fun i hi hi' => by simp [Table.pull,hi,hi']
  have hkvc : (t.pull c (next n c)).kv c = t.kv (next n c) := by simp [Table.pull,hne.symm]
  refine ⟨hnlt,by rw [hpsl _ hne]; omega,fun i hi hi' => ?_,fun i hi hi' e he => ?_,fun i hi => ?_,
    fun i hi => ?_,fun i hi hi' j hj hj' e e' he he' hkey => ?_⟩
  · by_cases hic : i = c
    · subst hic
      have hiff := h.empty_iff _ hnlt hne
      rw [hpslc,hkvc,← hiff]
      omega
    · rw [hpsl i hic,hkv i hic hi']
      exact h.empty_iff i hi hic
  · by_cases hic : i = c
    · subst hic
      rw [hkvc] at he
      have hold := h.psl_eq _ hnlt hne e he
      have haway : next n i ≠ home e.1 := by
        intro heq
        rw [heq,gap_self] at hold
        rw [heq] at hnext
        omega
      rw [gap_next_right (hhome e.1) haway] at hold
      rw [hpslc]
      omega
    · rw [hkv i hic hi'] at he
      rw [hpsl i hic]
      exact h.psl_eq i hi hic e he
  · by_cases hic : i = c
    · subst hic
      have hle := h.psl_le _ hnlt
      rw [hpslc]
      omega
    · rw [hpsl i hic]
      exact h.psl_le i hi
  · have hslope := h.slope i hi
    by_cases hn : next n i = c
    · have hover := h.slope c h.lt
      rw [hn] at hslope
      rw [hn,hpslc]
      by_cases hic : i = c
      · subst hic
        exact absurd hn hne
      · rw [hpsl i hic]
        omega
    · rw [hpsl _ hn]
      by_cases hic : i = c
      · subst hic
        rw [hpslc]
        omega
      · rw [hpsl i hic]
        exact hslope
  · by_cases hic : i = c
    · by_cases hjc : j = c
      · rw [hic,hjc]
      · rw [hic,hkvc] at he
        rw [hkv j hjc hj'] at he'
        exact absurd (h.unique _ hnlt hne j hj hjc e e' he he' hkey).symm hj'
    · rw [hkv i hic hi'] at he
      by_cases hjc : j = c
      · rw [hjc,hkvc] at he'
        exact absurd (h.unique i hi hic _ hnlt hne e e' he he' hkey) hi'
      · rw [hkv j hjc hj'] at he'
        exact h.unique i hi hic j hj hjc e e' he he' hkey

end Sound

/-- How many of the keys have their home on the arc of `l` slots from `a` on. -/
def load (n : Nat) (home : K → Nat) (keys : List K) (a l : Nat) : Nat :=
  keys.countP (fun k => decide (gap n a (home k) < l))

def keys (n : Nat) (t : Table K V) : List K := (t.entries n).map Prod.fst

section Load

variable {n limit a l : Nat} {home : K → Nat} {t : Table K V}

theorem countP_range (n : Nat) (p : Nat → Prop) [DecidablePred p] :
    (range n).countP (fun i => decide (p i)) = ((Finset.range n).filter p).card := by
  rw [countP_eq_length_filter]
  rfl

theorem load_keys : load n home (keys n t) a l =
    (range n).countP (fun i => decide (∃ e, t.kv i = some e ∧ gap n a (home e.1) < l)) := by
  rw [load,keys,countP_map,Table.entries,countP_filterMap]
  apply countP_congr
  intro i _
  cases t.kv i <;> simp

theorem Sound.load_le (h : Sound n limit home t) (hhome : ∀ k, home k < n) (ha : a < n) :
    load n home (keys n t) a l ≤ l+(limit-1) := by
  calc load n home (keys n t) a l
      ≤ (range n).countP (fun i => decide (gap n a i < l+(limit-1))) := by
        rw [load_keys]
        refine countP_mono_left (fun i hi hmem => ?_)
        obtain ⟨e,he,hlt⟩ := of_decide_eq_true hmem
        have hi' := mem_range.mp hi
        have htri := gap_triangle (c := i) ha (hhome e.1)
        have hle := h.psl_le i hi'
        rw [h.psl_eq i hi' e he] at hle
        simp only [decide_eq_true_eq]
        omega
    _ ≤ l+(limit-1) := by
        rw [countP_range]
        exact card_arc_le n a _ ha

/-- When a pair would have to go further than `limit`, an arc is the home of too many. -/
theorem Sound.overflow (h : Sound n limit home t) (hhome : ∀ k, home k < n) {slot empty : Nat} {k : K}
    (hlimit : 0 < limit) (hlt : empty < n) (hempty : t.psl empty = 0) (hslot : slot < n)
    (hfull : t.psl slot = limit) (hk : gap n (home k) slot+1 = limit) :
    ∃ a < n, ∃ l ≤ n, gap n a (home k) < l ∧ l+(limit-1) ≤ load n home (keys n t) a l := by
  -- the nearest empty slot before `slot`, and the first slot behind it
  have hex : ∃ s, t.psl (back n s slot) = 0 := ⟨gap n empty slot,by rw [back_gap hlt,hempty]⟩
  obtain ⟨s,hs,hmin⟩ : ∃ s, t.psl (back n s slot) = 0 ∧ ∀ u < s, t.psl (back n u slot) ≠ 0 :=
    ⟨Nat.find hex,Nat.find_spec hex,fun u hu => Nat.find_min hex hu⟩
  have hsn : s < n := by
    by_contra hge
    have hu := gap_lt hlt hslot
    exact hmin (gap n empty slot) (by omega) (by rw [back_gap hlt,hempty])
  have hpos : 0 < s := by
    by_contra hzero
    rw [show s = 0 by omega,back_zero] at hs
    omega
  obtain ⟨r,hr,hrgap⟩ : ∃ r, r = back n (s-1) slot ∧ gap n r slot = s-1 :=
    ⟨_,rfl,gap_back hslot (by omega)⟩
  have hrn : r < n := by rw [hr]; exact back_lt hslot (by omega)
  have hfirst : t.psl r ≤ 1 := by
    have hslope := h.slope (back n s slot) (back_lt hslot (by omega))
    have hnext := next_back_succ (t := s-1) hslot (by omega)
    rw [show s-1+1 = s by omega] at hnext
    rwa [hnext,← hr,hs] at hslope
  have hroom : limit ≤ s := by
    have hgap := h.psl_gap hslot hrn
    omega
  have hhomek : gap n r (home k) = s-limit := by
    have hsplit := gap_split (c := slot) hrn (hhome k) (by omega)
    omega
  refine ⟨r,hrn,s-limit+1,by omega,by omega,?_⟩
  calc s-limit+1+(limit-1) = s := by omega
    _ ≤ ((Finset.range n).filter (fun i => gap n r i < s)).card := card_arc_ge n r s hrn (by omega)
    _ = (range n).countP (fun i => decide (gap n r i < s)) := (countP_range n _).symm
    _ ≤ load n home (keys n t) r (s-limit+1) := by
      rw [load_keys]
      refine countP_mono_left (fun i hi hmem => ?_)
      have hi' := mem_range.mp hi
      have hin := of_decide_eq_true hmem
      -- the slots from `r` to `slot` are all occupied
      have hrest := gap_split_left (b := i) hrn hslot (by omega)
      have hocc : t.psl i ≠ 0 := by
        have hu := hmin (gap n i slot) (by omega)
        rwa [back_gap hi'] at hu
      obtain ⟨e,he⟩ := h.exists_pair hi' hocc
      have hpsl := h.psl_eq i hi' e he
      have hup := h.psl_gap hi' hrn
      have hdown := h.psl_gap hslot hi'
      have hsplit := gap_split (c := i) hrn (hhome e.1) (by omega)
      simp only [decide_eq_true_eq]
      exact ⟨e,he,by omega⟩

end Load

end FastNet.RobinHood
