import FastNet.FlatHashMapInvariant

/-!
The calls of `FlatHashMap` on sound tables. What they do to the pairs is said up to their order.
-/

namespace FastNet

open Loop Numeral Places RobinHood RobinHood.Table List Nat
open scoped List

section NextPow2

theorem testBit_smear {x y w : Nat} (h : ∀ i, y.testBit i = true ↔ ∃ j < w, x.testBit (i+j) = true) (i : Nat) :
    (y ||| y >>> w).testBit i = true ↔ ∃ j < 2*w, x.testBit (i+j) = true := by
  rw [testBit_or,testBit_shiftRight,Bool.or_eq_true,h,h]
  constructor
  · rintro (⟨j,hj,hx⟩ | ⟨j,hj,hx⟩)
    · exact ⟨j,by omega,hx⟩
    · exact ⟨w+j,by omega,by rwa [show i+(w+j) = w+i+j by omega]⟩
  · rintro ⟨j,hj,hx⟩
    rcases lt_or_ge j w with hlt | hge
    · exact .inl ⟨j,hlt,hx⟩
    · exact .inr ⟨j-w,by omega,by rwa [show w+i+(j-w) = i+j by omega]⟩

theorem testBit_above {x i : Nat} (hx : x < 2^64) :
    (∃ j < 64, x.testBit (i+j) = true) ↔ i < x.size := by
  rw [Nat.lt_size]
  constructor
  · rintro ⟨j,-,hj⟩
    exact (Nat.pow_le_pow_right Nat.two_pos (Nat.le_add_right i j)).trans (Nat.ge_two_pow_of_testBit hj)
  · intro hle
    obtain ⟨k,hk,hbit⟩ := Nat.exists_ge_and_testBit_of_ge_two_pow hle
    have hlt : 2^k < 2^64 := (Nat.ge_two_pow_of_testBit hbit).trans_lt hx
    have hk' := (Nat.pow_lt_pow_iff_right Nat.one_lt_two).mp hlt
    exact ⟨k-i,by omega,by rwa [show i+(k-i) = k by omega]⟩

theorem smear_eq {x y : Nat} (hx : x < 2^64)
    (h : ∀ i, y.testBit i = true ↔ ∃ j < 64, x.testBit (i+j) = true) : y = 2^x.size-1 := by
  apply eq_of_testBit_eq
  intro i
  rw [testBit_two_pow_sub_one,Bool.eq_iff_iff,h,testBit_above hx,decide_eq_true_eq]

end NextPow2

namespace FlatHashMap

variable {n b slot : Nat}

theorem nextPow2_eq (hpos : 0 < n) (hn : n ≤ 2^64) : nextPow2 n = 2^(n-1).size % 2^64 := by
  obtain ⟨x,rfl⟩ : ∃ x, n = x+1 := ⟨n-1,by omega⟩
  have h0 : ∀ i, x.testBit i = true ↔ ∃ j < 1, x.testBit (i+j) = true := by simp
  have h1 := testBit_smear h0
  have h2 := testBit_smear h1
  have h3 := testBit_smear h2
  have h4 := testBit_smear h3
  have h5 := testBit_smear h4
  have h6 := testBit_smear h5
  rw [nextPow2,if_neg (by omega)]
  simp only [Nat.add_sub_cancel,Nat.mul_one,Nat.reduceMul] at h6 ⊢
  rw [smear_eq (by omega) h6,sizeAdd,Nat.sub_add_cancel Nat.one_le_two_pow]

theorem nextPow2_power (hpos : 0 < n) (hn : n ≤ 2^63) : ∃ b, nextPow2 n = 2^b ∧ n ≤ 2^b := by
  have hlt : (n-1).size ≤ 63 := Nat.size_le.mpr (by omega)
  refine ⟨(n-1).size,?_,?_⟩
  · rw [nextPow2_eq hpos (by omega),Nat.mod_eq_of_lt]
    exact Nat.pow_lt_pow_right Nat.one_lt_two (by omega)
  · have hself := Nat.lt_size_self (n-1)
    omega

theorem nextPow2_zero (hlt : 2^63 < n) (hn : n ≤ 2^64) : nextPow2 n = 0 := by
  have hgt : 63 < (n-1).size := lt_size.mpr (by omega)
  have hle : (n-1).size ≤ 64 := size_le.mpr (by omega)
  rw [nextPow2_eq (by omega) hn,show (n-1).size = 64 by omega,mod_self]

variable {K V : Type} {m m' : FlatHashMap K V} {lost : List (K × V)} {key : K} {value : V} {i : Nat}
  {other : FlatHashMap K V} {e : K × V}

def keys (m : FlatHashMap K V) : List K := m.pairs.map Prod.fst

structure Valid (m : FlatHashMap K V) : Prop where
  stands : m.capacity ≠ 0 → Stands m
  size_eq : m.size = m.pairs.length
  load_factor : 4*m.size ≤ 3*m.capacity

theorem pairs_of_capacity (h : m.capacity = 0) : m.pairs = [] := by
  simp [pairs,entries,h]

theorem Valid.room (h : Valid m) (hne : m.capacity ≠ 0) : m.pairs.length < m.capacity := by
  have hsize := h.size_eq
  have hload := h.load_factor
  omega

theorem Valid.nodup (h : Valid m) : m.keys.Nodup := by
  by_cases hcap : m.capacity = 0
  · simp [keys,pairs_of_capacity hcap]
  · exact (h.stands hcap).sound.nodup

theorem mem_keys : key ∈ m.keys ↔ ∃ v, (key,v) ∈ m.pairs := by
  simp [keys]

theorem mem_or_absent (m : FlatHashMap K V) (key : K) : (∃ v, (key,v) ∈ m.pairs) ∨ key ∉ m.keys := by
  rw [mem_keys]
  exact Classical.em _

theorem Valid.home_eq (h : Valid m) (hne : m.capacity ≠ 0) : m.home = fun k => m.hashOf k % m.capacity := by
  funext k
  rw [home,(h.stands hne).slotOf_eq]

theorem blank_stands (hash : K → UInt64) (hn : n = 2^b) : Stands (blank n hash : FlatHashMap K V) where
  power := ⟨b,hn⟩
  mask_eq := rfl
  sound := .empty (fun _ _ => rfl) (fun _ _ => rfl)

@[simp] theorem blank_pairs (n : Nat) (hash : K → UInt64) : (blank n hash : FlatHashMap K V).pairs = [] := by
  simp [pairs,entries,blank]

theorem Valid.blank (hash : K → UInt64) (hn : n ≠ 0 → ∃ b, n = 2^b) :
    Valid (blank n hash : FlatHashMap K V) where
  stands hne := by
    obtain ⟨b,hb⟩ := hn hne
    exact blank_stands hash hb
  size_eq := by
    rw [blank_pairs]
    rfl
  load_factor := zero_le _

theorem Valid.construct (n : UInt64) (hash : K → UInt64) : Valid (construct n hash : FlatHashMap K V) := by
  refine .blank hash (fun hne => ?_)
  have hn := n.toNat_lt
  rcases lt_or_ge (2^63) (max n.toNat 4) with hlt | hle
  · exact absurd (nextPow2_zero hlt (by omega)) hne
  · obtain ⟨b,hb,-⟩ := nextPow2_power (by omega) hle
    exact ⟨b,hb⟩

theorem Valid.distances (h : Valid m) (hlt : slot < m.capacity)
    (hocc : m.psl slot ≠ kEmpty) :
    (∃ e, m.kv slot = some e ∧ m.psl slot = gap m.capacity (m.hashOf e.1 % m.capacity) slot+1) ∧
      m.psl slot ≤ m.psl (back m.capacity 1 slot)+1 := by
  have hs := h.stands (by omega)
  obtain ⟨e,he⟩ := hs.sound.exists_pair hlt hocc
  have hpsl := hs.sound.psl_eq slot hlt e he
  rw [h.home_eq (by omega)] at hpsl
  have hslope := hs.sound.slope (back m.capacity 1 slot) (back_lt hlt (by omega))
  rw [next_back hlt] at hslope
  exact ⟨⟨e,he,hpsl⟩,hslope⟩

theorem iteration_valid (h : Valid m) : m.iteration = m.pairs.map some := by
  by_cases hcap : m.capacity = 0
  · simp [iteration,hcap,walk,pairs_of_capacity hcap]
  · exact iteration_eq (h.stands hcap)

section Lookup

variable [DecidableEq K]

theorem Valid.findSlot_eq_some_iff (h : Valid m) :
    m.findSlot key = some i ↔ i < m.capacity ∧ ∃ v, m.kv i = some (key,v) := by
  by_cases hcap : m.capacity = 0
  · simp [findSlot,hcap]
  · exact FlatHashMap.findSlot_eq_some_iff (h.stands hcap)

theorem Valid.findSlot_eq_none_iff (h : Valid m) : m.findSlot key = none ↔ key ∉ m.keys := by
  rw [mem_keys]
  constructor
  · rintro hnone ⟨v,hmem⟩
    obtain ⟨i,hi,hkv⟩ := mem_entries.mp hmem
    have hsome := h.findSlot_eq_some_iff.mpr ⟨hi,v,hkv⟩
    rw [hnone] at hsome
    cases hsome
  · intro habs
    cases hfound : m.findSlot key with
    | none => rfl
    | some i =>
      obtain ⟨hi,v,hkv⟩ := h.findSlot_eq_some_iff.mp hfound
      exact absurd ⟨v,mem_entries.mpr ⟨i,hi,hkv⟩⟩ habs

theorem Valid.lookup_eq_some_iff (h : Valid m) : m.lookup key = some value ↔ (key,value) ∈ m.pairs := by
  rw [lookup,Option.bind_eq_some_iff]
  constructor
  · rintro ⟨i,hfound,hvalue⟩
    obtain ⟨hi,v,hkv⟩ := h.findSlot_eq_some_iff.mp hfound
    rw [hkv,Option.map_some,Option.some.injEq] at hvalue
    subst hvalue
    exact mem_entries.mpr ⟨i,hi,hkv⟩
  · intro hmem
    obtain ⟨i,hi,hkv⟩ := mem_entries.mp hmem
    exact ⟨i,h.findSlot_eq_some_iff.mpr ⟨hi,value,hkv⟩,by rw [hkv]; rfl⟩

end Lookup

/-- What `rehash`, `reserve` and the growth come to. -/
structure Moved (m m' : FlatHashMap K V) (lost : List (K × V)) : Prop where
  valid : Valid m'
  hash_eq : m'.hash = m.hash
  perm : lost ++ m'.pairs ~ m.pairs
  crowded : lost ≠ [] → Crowded m'.capacity (fun k => m'.hashOf k % m'.capacity) m.keys

theorem Moved.refl (h : Valid m) : Moved m m [] :=
  ⟨h,rfl,.refl _,fun hne => absurd rfl hne⟩

theorem occupied_eq_pairs (h : Valid m) : m.occupied = m.pairs := by
  by_cases hcap : m.capacity = 0
  · rw [pairs_of_capacity hcap]
    simp [occupied,hcap]
  · exact occupied_eq (h.stands hcap)

theorem Takes.valid {es : List (K × V)} (h : Takes m es m' lost) (hsize : m.size = m.pairs.length)
    (hload : 4*(m.size+es.length) ≤ 3*m.capacity) : Valid m' where
  stands _ := h.stands
  size_eq := by
    have hperm := h.perm.length_eq
    have hsize' := h.size_eq
    simp only [length_append] at hperm
    omega
  load_factor := by
    have hsize' := h.size_eq
    rw [h.frame.capacity_eq]
    omega

theorem insertAll_moved (h : Valid other) (hs : Stands m)
    (hempty : m.pairs = []) (hsize : m.size = 0) (hhash : m.hash = other.hash) (hcap : m.capacity = n)
    (hload : 4*other.size ≤ 3*n) :
    ∃ m' lost, m.insertAll other.occupied = .ret (m',lost) ∧ m'.capacity = n ∧ Moved other m' lost := by
  have hlen := h.size_eq
  rw [occupied_eq_pairs h]
  obtain ⟨m',lost,hret,htakes⟩ := insertAll_spec other.pairs hs
    (by rw [hempty,append_nil]; omega) (by rw [hempty,append_nil]; exact h.nodup)
  have hvalid := htakes.valid (by rw [hsize,hempty]; rfl) (by omega)
  have hcap' := htakes.frame.capacity_eq
  have hpos := hs.pos
  refine ⟨m',lost,hret,hcap'.trans hcap,hvalid,htakes.frame.hash_eq.trans hhash,?_,fun hne => ?_⟩
  · simpa [hempty] using htakes.perm
  · rw [← hvalid.home_eq (by omega),htakes.frame.home_eq,hcap']
    simpa [hempty,keys] using htakes.crowded hne

theorem rehash_spec (h : Valid m) (hn : n = 2^b) (hload : 4*m.size ≤ 3*n) :
    ∃ m' lost, m.rehash n = .ret (m',lost) ∧ m'.capacity = n ∧ Moved m m' lost :=
  insertAll_moved h (blank_stands m.hash hn) (blank_pairs n m.hash) rfl rfl rfl hload

theorem growIfNeeded_spec (h : Valid m) :
    ∃ m' lost, m.growIfNeeded = .ret (m',lost) ∧ m'.capacity = m.grownCapacity ∧ Moved m m' lost := by
  have hload := h.load_factor
  rw [growIfNeeded,grownCapacity]
  split
  · by_cases hcap : m.capacity = 0
    · rw [if_pos hcap]
      exact rehash_spec (b := 3) h rfl (by omega)
    · obtain ⟨b,hb⟩ := (h.stands hcap).power
      rw [if_neg hcap]
      exact rehash_spec (b := b+1) h (by rw [hb,pow_succ]) (by omega)
  · exact ⟨m,[],rfl,rfl,.refl h⟩

theorem grownCapacity_room (h : Valid m) : 4*(m.size+1) ≤ 3*m.grownCapacity := by
  have hload := h.load_factor
  unfold grownCapacity
  split_ifs <;> omega

theorem reserve_spec (h : Valid m) (n : Nat) :
    ∃ m' lost, m.reserve n = .ret (m',lost) ∧ Moved m m' lost := by
  have hload := h.load_factor
  have hneed : sizeAdd (n*4 % 2^64) 2 < 2^64 := Nat.mod_lt _ (Nat.two_pow_pos 64)
  simp only [reserve]
  split
  · obtain ⟨b,hb,hle⟩ := nextPow2_power (n := sizeAdd (n*4 % 2^64) 2/3) (by omega) (by omega)
    obtain ⟨m',lost,hret,-,hmoved⟩ := rehash_spec h hb (by omega)
    exact ⟨m',lost,hret,hmoved⟩
  · exact ⟨m,[],rfl,.refl h⟩

/-- The table that takes the key, as `growIfNeeded` leaves it, has room for all keys: no
`l` neighbouring slots are the home of `l+254` of them. -/
def Fits (m : FlatHashMap K V) (key : K) : Prop :=
  ∀ a < m.grownCapacity, ∀ l ≤ m.grownCapacity,
    load m.grownCapacity (fun k => m.hashOf k % m.grownCapacity) (key :: m.keys) a l < l+longest

theorem fits_iff : Fits m key ↔
    ¬ Crowded m.grownCapacity (fun k => m.hashOf k % m.grownCapacity) (key :: m.keys) := by
  simp [Fits,Crowded]

theorem fits_of_few (h : m.keys.length < longest) : Fits m key := by
  intro a ha l hl
  cases l with
  | zero => simp [load,longest]
  | succ l =>
    have hle : load m.grownCapacity (fun k => m.hashOf k % m.grownCapacity) (key :: m.keys) a (l+1) ≤
        (key :: m.keys).length := countP_le_length
    rw [length_cons] at hle
    omega

theorem not_fits_of_constant (hhash : ∀ k, m.hash k = m.hash key) (hmany : longest ≤ m.keys.length)
    (hvalid : Valid m) : ¬ Fits m key := by
  intro hfits
  have hroom := grownCapacity_room hvalid
  have hsame : ∀ k, m.hashOf k = m.hashOf key := fun k => by rw [hashOf,hashOf,hhash k]
  have hlt := hfits (m.hashOf key % m.grownCapacity) (mod_lt _ (by omega)) 1 (by omega)
  rw [load,countP_eq_length.mpr (fun k _ => by simp [hsame k]),length_cons] at hlt
  omega

structure Added (m : FlatHashMap K V) (key : K) (value : V) (x : Emplaced K V) : Prop where
  valid : Valid x.map
  capacity_eq : x.map.capacity = m.grownCapacity
  hash_eq : x.map.hash = m.hash
  inserted : x.inserted = true
  perm : x.overflow ++ x.map.pairs ~ (key,value) :: m.pairs
  slot_eq : x.overflow = [] → ∃ s < x.map.capacity, x.slot = some s ∧ x.map.kv s = some (key,value)
  fits : Fits m key → x.overflow = []

section Modifiers

variable [DecidableEq K]

theorem emplace_absent (h : Valid m) (habs : key ∉ m.keys) (value : V) :
    ∃ x, m.emplace key value = .ret x ∧ Added m key value x := by
  obtain ⟨g,dropped,hgrown,hcap,hmoved⟩ := growIfNeeded_spec h
  have hroom := grownCapacity_room h
  have hsub : g.pairs.Subperm m.pairs := (sublist_append_right _ _).subperm.trans hmoved.perm.subperm
  have hne : g.capacity ≠ 0 := by omega
  have hsize := hmoved.valid.size_eq
  have hsize' := h.size_eq
  have hle := hsub.length_le
  obtain ⟨r,hr,hins⟩ := insertUnchecked_spec (hmoved.valid.stands hne)
    (hmoved.valid.room hne) key value (fun hmem => habs ((keys_subperm hsub).subset hmem))
  have htakes := hins.takes
  have hframe := htakes.frame
  have hvalid := htakes.valid hsize (by rw [hcap,length_singleton]; omega)
  refine ⟨⟨r.map,r.slot,true,dropped ++ r.overflow⟩,?_,hvalid,
    hframe.capacity_eq.trans hcap,hframe.hash_eq.trans hmoved.hash_eq,rfl,?_,fun hnil => ?_,fun hfits => ?_⟩
  · rw [emplace,h.findSlot_eq_none_iff.mpr habs]
    simp [hgrown,hr,Outcome.map]
  · calc dropped ++ r.overflow ++ r.map.pairs ~ dropped ++ ((key,value) :: g.pairs) := by
          rw [append_assoc]
          exact htakes.perm.append_left dropped
      _ ~ (key,value) :: (dropped ++ g.pairs) := perm_middle
      _ ~ (key,value) :: m.pairs := hmoved.perm.cons _
  · obtain ⟨s,hs,hslot,hkv⟩ := hins.slot_eq (append_eq_nil_iff.mp hnil).2
    exact ⟨s,by rw [hframe.capacity_eq]; exact hs,hslot,hkv⟩
  · have hnot := fits_iff.mp hfits
    rw [← hcap,← hashOf_congr hmoved.hash_eq] at hnot
    refine append_eq_nil_iff.mpr ⟨?_,?_⟩
    · by_contra hlost
      exact hnot ((hmoved.crowded hlost).mono (sublist_cons_self _ _).subperm)
    · by_contra hlost
      have hcrow := htakes.crowded hlost
      rw [hmoved.valid.home_eq hne] at hcrow
      exact hnot (hcrow.mono ((subperm_cons _).mpr (keys_subperm hsub)))

end Modifiers

theorem Valid.assignAt (h : Valid m) (slot : Nat) (value : V) : Valid (m.assignAt slot value) := by
  have hkv : ∀ i e, (m.assignAt slot value).kv i = some e → ∃ v, m.kv i = some (e.1,v) := by
    intro i e he
    by_cases heq : i = slot
    · subst heq
      simp only [FlatHashMap.assignAt,withTable,Function.update_self,Option.map_eq_some_iff] at he
      obtain ⟨e',he',rfl⟩ := he
      exact ⟨e'.2,he'⟩
    · simp only [FlatHashMap.assignAt,withTable,Function.update_of_ne heq] at he
      exact ⟨e.2,he⟩
  have hnone : ∀ i, (m.assignAt slot value).kv i = none ↔ m.kv i = none := by
    intro i
    by_cases heq : i = slot
    · subst heq
      simp [FlatHashMap.assignAt,withTable]
    · simp [FlatHashMap.assignAt,withTable,heq]
  refine ⟨fun hne => ?_,?_,h.load_factor⟩
  · have hs := h.stands hne
    refine hs.of_sound ⟨rfl,rfl,rfl⟩ ⟨fun i hi => ?_,fun i hi e he => ?_,hs.sound.psl_le,hs.sound.slope,
      fun i hi j hj e e' he he' hkey => ?_⟩
    · rw [hnone]
      exact hs.sound.empty_iff i hi
    · obtain ⟨v,hv⟩ := hkv i e he
      exact hs.sound.psl_eq i hi (e.1,v) hv
    · obtain ⟨v,hv⟩ := hkv i e he
      obtain ⟨v',hv'⟩ := hkv j e' he'
      exact hs.sound.unique i hi j hj _ _ hv hv' hkey
  · rw [pairs,entries,length_filterMap_eq_countP]
    refine h.size_eq.trans ?_
    rw [pairs,entries,length_filterMap_eq_countP]
    refine countP_congr (fun i _ => ?_)
    rw [Option.isSome_iff_ne_none,Option.isSome_iff_ne_none]
    exact not_congr (hnone i).symm

theorem mem_assignAt (h : Valid m) (hlt : slot < m.capacity) {v : V} (hkv : m.kv slot = some (key,v))
    {e : K × V} : e ∈ (m.assignAt slot value).pairs ↔ e = (key,value) ∨ (e ∈ m.pairs ∧ e.1 ≠ key) := by
  have hself : (m.assignAt slot value).kv slot = some (key,value) := by
    simp [FlatHashMap.assignAt,withTable,hkv]
  have hother : ∀ i, i ≠ slot → (m.assignAt slot value).kv i = m.kv i := fun i hi => by
    simp [FlatHashMap.assignAt,withTable,hi]
  have hs := h.stands (by omega)
  rw [pairs,mem_entries,pairs,mem_entries]
  constructor
  · rintro ⟨i,hi,he⟩
    by_cases heq : i = slot
    · rw [heq,hself,Option.some.injEq] at he
      exact .inl he.symm
    · rw [hother i heq] at he
      exact .inr ⟨⟨i,hi,he⟩,fun hkey => heq (hs.sound.unique i hi slot hlt _ _ he hkv hkey)⟩
  · rintro (rfl | ⟨⟨i,hi,he⟩,hkey⟩)
    · exact ⟨slot,hlt,hself⟩
    · refine ⟨i,hi,?_⟩
      rw [hother i ?_,he]
      rintro rfl
      rw [hkv,Option.some.injEq] at he
      exact hkey (by rw [← he])

section Erasure

theorem erased_valid (h : Valid m) (hs : Stands m') (hcap : m'.capacity = m.capacity)
    (hsize : m'.size = m.size) (hperm : m.pairs ~ e :: m'.pairs) : Valid { m' with size := m'.size-1 } where
  stands _ := hs.of_sound ⟨rfl,rfl,rfl⟩ hs.sound
  size_eq := by
    have hlen := hperm.length_eq
    have hsize' := h.size_eq
    change m'.size-1 = m'.pairs.length
    simp only [length_cons] at hlen
    omega
  load_factor := by
    have hload := h.load_factor
    change 4*(m'.size-1) ≤ 3*m'.capacity
    omega

theorem backwardShiftErase_valid (h : Valid m) (hi : i < m.capacity) (he : m.kv i = some e) :
    ∃ m', m.backwardShiftErase i = .ret m' ∧ Valid { m' with size := m'.size-1 } ∧ m.pairs ~ e :: m'.pairs := by
  have hne : m.capacity ≠ 0 := by omega
  obtain ⟨m',hret,hframe,hs,hsize,hperm⟩ := backwardShiftErase_spec (h.stands hne) (h.room hne) hi he
  exact ⟨m',hret,erased_valid h hs hframe.capacity_eq hsize hperm,hperm⟩

variable [DecidableEq K]

theorem erase_present (h : Valid m) (hmem : (key,value) ∈ m.pairs) :
    ∃ m', m.erase key = .ret (m',1) ∧ Valid m' ∧ m.pairs ~ (key,value) :: m'.pairs := by
  obtain ⟨i,hi,hkv⟩ := mem_entries.mp hmem
  obtain ⟨m',hret,hvalid,hperm⟩ := backwardShiftErase_valid h hi hkv
  refine ⟨_,?_,hvalid,hperm⟩
  rw [erase,h.findSlot_eq_some_iff.mpr ⟨hi,value,hkv⟩]
  simp [hret,Outcome.map]

theorem eraseAt_present (h : Valid m) (hmem : (key,value) ∈ m.pairs) :
    ∃ m' next, m.eraseAt ((m.findSlot key).getD m.capacity) = .ret (m',next) ∧ Valid m' ∧
      m.pairs ~ (key,value) :: m'.pairs := by
  obtain ⟨i,hi,hkv⟩ := mem_entries.mp hmem
  obtain ⟨m',hret,hvalid,hperm⟩ := backwardShiftErase_valid h hi hkv
  refine ⟨_,m'.occupiedFrom i,?_,hvalid,hperm⟩
  rw [h.findSlot_eq_some_iff.mpr ⟨hi,value,hkv⟩,Option.getD_some,eraseAt,if_neg (by omega)]
  simp [hret,Outcome.map]

theorem erase_absent (h : Valid m) (habs : key ∉ m.keys) :
    m.erase key = .ret (m,0) ∧ m.eraseAt ((m.findSlot key).getD m.capacity) = .ret (m,m.capacity) := by
  rw [erase,h.findSlot_eq_none_iff.mpr habs]
  simp [eraseAt]

end Erasure

section Copying

theorem cleared_valid (h : Valid m) (hash : K → UInt64) :
    Valid { m.clear with hash } ∧ ({ m.clear with hash } : FlatHashMap K V).pairs = [] := by
  have hkv : ∀ i < m.capacity, m.clear.kv i = none := by
    intro i hi
    have hs := h.stands (by omega)
    by_cases hempty : m.psl i = 0
    · simp [clear,hi,kEmpty,hempty,(hs.sound.empty_iff i hi).mp hempty]
    · simp [clear,hi,kEmpty,hempty]
  have hpsl : ∀ i < m.capacity, m.clear.psl i = 0 := fun i hi => by simp [clear,hi,kEmpty]
  have hpairs : ({ m.clear with hash } : FlatHashMap K V).pairs = [] := by
    rw [pairs,entries,filterMap_eq_nil_iff]
    exact fun i hi => hkv i (mem_range.mp hi)
  refine ⟨⟨fun hne => ?_,by rw [hpairs]; rfl,zero_le _⟩,hpairs⟩
  have hs := h.stands hne
  exact ⟨hs.power,hs.mask_eq,.empty hpsl hkv⟩

theorem copyFrom_spec (h : Valid m) (ho : Valid other) :
    ∃ m' lost, m.copyFrom other = .ret (m',lost) ∧ Moved other m' lost := by
  obtain ⟨hvalid,hpairs⟩ := cleared_valid h other.hash
  have hload := ho.load_factor
  rw [copyFrom]
  by_cases hzero : other.capacity = 0
  · refine ⟨blank 0 other.hash,[],by simp [hzero],.blank _ (fun hne => absurd rfl hne),rfl,?_,
      fun hne => absurd rfl hne⟩
    rw [blank_pairs,pairs_of_capacity hzero]
    rfl
  · obtain ⟨b,hb⟩ := (ho.stands hzero).power
    by_cases hcap : m.capacity = other.capacity
    · obtain ⟨m',lost,hret,-,hmoved⟩ := insertAll_moved ho (hvalid.stands (by change m.capacity ≠ 0; omega))
        hpairs rfl rfl hcap hload
      refine ⟨m',lost,?_,hmoved⟩
      rw [if_neg hzero,if_pos (show m.clear.capacity = other.capacity from hcap)]
      exact hret
    · obtain ⟨g,dropped,hgrown,hcapg,hmov⟩ := rehash_spec hvalid hb (zero_le _)
      have hnil := hmov.perm
      rw [hpairs,perm_nil,append_eq_nil_iff] at hnil
      obtain ⟨m',lost,hret,-,hmoved⟩ := insertAll_moved ho (hmov.valid.stands (by omega)) hnil.2
        (by rw [hmov.valid.size_eq,hnil.2]; rfl) hmov.hash_eq hcapg hload
      refine ⟨m',dropped ++ lost,?_,?_⟩
      · rw [if_neg hzero,if_neg (show ¬ m.clear.capacity = other.capacity from hcap)]
        simp [hgrown,hret,Outcome.map]
      · rw [hnil.1]
        exact hmoved

end Copying

end FlatHashMap

end FastNet
