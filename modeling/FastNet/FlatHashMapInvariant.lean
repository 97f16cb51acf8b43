import FastNet.FlatHashMap

/-!
The loops of `FlatHashMap` on a sound table.
-/

namespace FastNet.FlatHashMap

open Loop Places RobinHood RobinHood.Table
open scoped List

variable {K V : Type}

def home (m : FlatHashMap K V) (key : K) : Nat := m.slotOf (m.hashOf key)

def longest : Nat := 254

structure Stands (m : FlatHashMap K V) : Prop where
  power : ∃ b, m.capacity = 2^b
  mask_eq : m.mask = m.capacity-1
  sound : Sound m.capacity longest m.home m.toTable

variable {m : FlatHashMap K V} {m' m'' : FlatHashMap K V} {es es' : List (K × V)}

theorem Stands.pos (h : Stands m) : 0 < m.capacity := by
  obtain ⟨b,hb⟩ := h.power
  rw [hb]
  exact Nat.two_pow_pos b

theorem Stands.slotOf_eq (h : Stands m) (x : Nat) : m.slotOf x = x % m.capacity := by
  obtain ⟨b,hb⟩ := h.power
  rw [slotOf,h.mask_eq,hb,Nat.and_two_pow_sub_one_eq_mod]

theorem Stands.home_lt (h : Stands m) (key : K) : m.home key < m.capacity := by
  rw [home,h.slotOf_eq]
  exact Nat.mod_lt _ h.pos

theorem Stands.slotOf_succ (h : Stands m) {slot : Nat} (hlt : slot < m.capacity) :
    m.slotOf (slot+1) = next m.capacity slot := by
  rw [h.slotOf_eq,next]
  split
  · rename_i heq
    rw [heq,Nat.mod_self]
  · exact Nat.mod_eq_of_lt (by omega)

section Lookup

variable [DecidableEq K] {key : K} {slot i : Nat}

theorem findLoop_some (h : Stands m) {turns dist : Nat} (hslot : slot < m.capacity)
    (hfound : m.findLoop key turns slot dist = some i) : i < m.capacity ∧ ∃ v, m.kv i = some (key,v) := by
  induction turns generalizing slot dist with
  | zero => cases hfound
  | succ turns ih =>
    simp only [findLoop] at hfound
    split at hfound
    · cases hfound
    · split at hfound
      · cases hfound
      · split at hfound
        · rename_i heq
          cases hfound
          obtain ⟨e,he,hkey⟩ := Option.map_eq_some_iff.mp heq.2
          exact ⟨hslot,e.2,by rw [he,← hkey]⟩
        · exact ih (by rw [h.slotOf_succ hslot]; exact next_lt hslot) hfound

theorem findLoop_reaches (h : Stands m) (hi : i < m.capacity) {v : V} (hkv : m.kv i = some (key,v))
    {rest turns dist : Nat} (hslot : slot < m.capacity) (hrest : gap m.capacity slot i = rest)
    (hpos : 0 < dist) (hdist : dist+rest = m.psl i) (hturns : rest < turns) :
    m.findLoop key turns slot dist = some i := by
  induction rest generalizing slot turns dist with
  | zero =>
    obtain ⟨turns,rfl⟩ : ∃ n, turns = n+1 := ⟨turns-1,by omega⟩
    have heq := (gap_eq_zero_iff hslot).mp hrest
    subst heq
    simp [findLoop,kEmpty,hkv,show m.psl slot = dist by omega,Nat.ne_of_gt hpos]
  | succ rest ih =>
    obtain ⟨turns,rfl⟩ : ∃ n, turns = n+1 := ⟨turns-1,by omega⟩
    have hne : slot ≠ i := by
      rintro rfl
      simp at hrest
    have hge := h.sound.psl_gap hi hslot
    have hother : (m.kv slot).map Prod.fst ≠ some key := by
      intro hkey
      obtain ⟨e,he,hek⟩ := Option.map_eq_some_iff.mp hkey
      exact hne (h.sound.unique slot hslot i hi e _ he hkv hek)
    have hleft := gap_next_left hslot hi hne
    rw [findLoop,if_neg (by simp [kEmpty]; omega),if_neg (by omega),if_neg (by simp [hother]),
      h.slotOf_succ hslot]
    exact ih (next_lt hslot) (by omega) (by omega) (by omega) (by omega)

theorem findSlot_eq_some_iff (h : Stands m) :
    m.findSlot key = some i ↔ i < m.capacity ∧ ∃ v, m.kv i = some (key,v) := by
  have hpos := h.pos
  rw [findSlot,if_neg (by omega)]
  constructor
  · exact findLoop_some h (h.home_lt key)
  · rintro ⟨hi,v,hkv⟩
    have hpsl := h.sound.psl_eq i hi _ hkv
    have hle := h.sound.psl_le i hi
    unfold longest at hle
    simp only [home] at hpsl
    refine findLoop_reaches h hi hkv (h.home_lt key) rfl Nat.one_pos ?_ ?_
    · omega
    · simp only [kPslMax]
      omega

end Lookup

def pairs (m : FlatHashMap K V) : List (K × V) := m.entries m.capacity

def Crowded (n : Nat) (home : K → Nat) (keys : List K) : Prop :=
  ∃ a < n, ∃ l ≤ n, l+longest ≤ load n home keys a l

theorem Crowded.mono {n : Nat} {home : K → Nat} {keys keys' : List K} (h : Crowded n home keys)
    (hsub : keys.Subperm keys') : Crowded n home keys' := by
  obtain ⟨a,ha,l,hl,hload⟩ := h
  exact ⟨a,ha,l,hl,hload.trans (hsub.countP_le _)⟩

structure SameFrame (m m' : FlatHashMap K V) : Prop where
  capacity_eq : m'.capacity = m.capacity
  mask_eq : m'.mask = m.mask
  hash_eq : m'.hash = m.hash

theorem slotOf_congr (h : m'.mask = m.mask) : m'.slotOf = m.slotOf := by
  cases m
  cases m'
  cases h
  rfl

theorem hashOf_congr (h : m'.hash = m.hash) : m'.hashOf = m.hashOf := by
  cases m
  cases m'
  cases h
  rfl

theorem SameFrame.home_eq (h : SameFrame m m') : m'.home = m.home := by
  funext key
  rw [home,home,slotOf_congr h.mask_eq,hashOf_congr h.hash_eq]

structure Takes (m : FlatHashMap K V) (es : List (K × V)) (m' : FlatHashMap K V) (lost : List (K × V)) :
    Prop where
  frame : SameFrame m m'
  stands : Stands m'
  perm : lost ++ m'.pairs ~ es ++ m.pairs
  size_eq : m'.size+lost.length = m.size+es.length
  crowded : lost ≠ [] → Crowded m.capacity m.home ((es ++ m.pairs).map Prod.fst)

theorem Stands.of_sound (h : Stands m) {m' : FlatHashMap K V} (hframe : SameFrame m m')
    (hsound : Sound m.capacity longest m.home m'.toTable) : Stands m' where
  power := by
    rw [hframe.capacity_eq]
    exact h.power
  mask_eq := by
    rw [hframe.mask_eq,hframe.capacity_eq]
    exact h.mask_eq
  sound := by
    rw [hframe.capacity_eq,hframe.home_eq]
    exact hsound

section Insertion

variable {e : K × V} {empty : Nat} {c : Carry K V}

/-- What holds in the loop of `insertUnchecked`, for the pair `e` that has come and a slot
that is empty all the time. -/
structure Inserting (m : FlatHashMap K V) (e : K × V) (empty : Nat) (c : Carry K V) : Prop where
  map_eq : c.map = m.withTable c.map.toTable
  sound : Sound m.capacity longest m.home c.map.toTable
  carrying : Carrying m.capacity longest m.home c.map.toTable c.slot c.dist c.key
  perm : (c.key,c.value) :: c.map.entries m.capacity ~ e :: m.pairs
  empty_psl : c.map.psl empty = 0

/-- The pair that has come is still in hand, or it has its place, `b` or more slots before
the empty one. -/
def Placed (m : FlatHashMap K V) (e : K × V) (empty : Nat) (c : Carry K V) (b : Nat) : Prop :=
  (c.firstInsertSlot = none ∧ (c.key,c.value) = e) ∨
    ∃ s < m.capacity, c.firstInsertSlot = some s ∧ c.map.kv s = some e ∧ b ≤ gap m.capacity s empty

theorem Inserting.frame (h : Inserting m e empty c) : SameFrame m c.map := by
  rw [h.map_eq]
  exact ⟨rfl,rfl,rfl⟩

theorem Inserting.slot_ne (h : Inserting m e empty c) (hocc : c.map.psl c.slot ≠ 0) : c.slot ≠ empty := by
  intro heq
  rw [heq] at hocc
  exact hocc h.empty_psl

theorem Inserting.exists_pair (h : Inserting m e empty c) (hocc : c.map.psl c.slot ≠ 0) :
    ∃ key value, c.map.kv c.slot = some (key,value) := by
  obtain ⟨e',he'⟩ := h.sound.exists_pair h.carrying.slot_lt hocc
  exact ⟨e'.1,e'.2,he'⟩

theorem Carry.exchange_eq {key : K} {value : V} (hkv : c.map.kv c.slot = some (key,value)) :
    c.exchange = { c with
      map := c.map.withTable (c.map.put c.slot c.dist (c.key,c.value)), dist := c.map.psl c.slot, key, value,
      firstInsertSlot := some (c.firstInsertSlot.getD c.slot) } := by
  rw [Carry.exchange,hkv]

theorem Inserting.exchange (hs : Stands m) (h : Inserting m e empty c) (hocc : c.map.psl c.slot ≠ 0)
    (hlt : c.map.psl c.slot < c.dist) : Inserting m e empty c.exchange := by
  obtain ⟨key,value,hkv⟩ := h.exists_pair hocc
  rw [Carry.exchange_eq hkv]
  refine ⟨?_,h.sound.put h.carrying hlt,h.carrying.exchange h.sound (hs.home_lt key) hkv hlt,?_,?_⟩
  · rw [h.map_eq]
    rfl
  · have hold : c.map.entries m.capacity ~ _ := entries_perm h.carrying.slot_lt
    rw [hkv] at hold
    have hnew := entries_put (t := c.map.toTable) (d := c.dist) (e := (c.key,c.value))
      h.carrying.slot_lt
    calc (key,value) :: (c.map.put c.slot c.dist (c.key,c.value)).entries m.capacity
        ~ (key,value) :: (c.key,c.value) :: c.map.others m.capacity c.slot := hnew.cons _
      _ ~ (c.key,c.value) :: (key,value) :: c.map.others m.capacity c.slot := .swap _ _ _
      _ ~ (c.key,c.value) :: c.map.entries m.capacity := hold.symm.cons _
      _ ~ e :: m.pairs := h.perm
  · rw [← h.empty_psl]
    exact put_psl_of_ne (h.slot_ne hocc).symm

theorem Placed.exchange (h : Inserting m e empty c) (hocc : c.map.psl c.slot ≠ 0)
    (hp : Placed m e empty c (gap m.capacity c.slot empty+1)) :
    Placed m e empty c.exchange (gap m.capacity c.slot empty) := by
  obtain ⟨key,value,hkv⟩ := h.exists_pair hocc
  rw [Carry.exchange_eq hkv]
  obtain ⟨hnone,heq⟩ | ⟨s,hlt,hsome,hs,hgap⟩ := hp
  · refine .inr ⟨c.slot,h.carrying.slot_lt,by simp [hnone],?_,le_rfl⟩
    rw [← heq]
    exact put_kv_self
  · have hne : s ≠ c.slot := by
      rintro rfl
      omega
    refine .inr ⟨s,hlt,by simp [hsome],?_,by omega⟩
    rw [← hs]
    exact put_kv_of_ne hne

theorem Placed.weaken {b b' : Nat} (hp : Placed m e empty c b) (hle : b' ≤ b) : Placed m e empty c b' :=
  hp.imp_right (fun ⟨s,hlt,hsome,hs,hgap⟩ => ⟨s,hlt,hsome,hs,hle.trans hgap⟩)

def Carry.exchanged (c : Carry K V) : Carry K V := if c.map.psl c.slot < c.dist then c.exchange else c

theorem Inserting.exchanged (hs : Stands m) (h : Inserting m e empty c) (hocc : c.map.psl c.slot ≠ 0)
    (hp : Placed m e empty c (gap m.capacity c.slot empty+1)) :
    Inserting m e empty c.exchanged ∧ Placed m e empty c.exchanged (gap m.capacity c.slot empty) ∧
      c.exchanged.slot = c.slot ∧
      c.exchanged.dist ≤ c.exchanged.map.psl c.slot := by
  unfold Carry.exchanged
  split
  · rename_i hlt
    refine ⟨h.exchange hs hocc hlt,hp.exchange h hocc,?_⟩
    obtain ⟨key,value,hkv⟩ := h.exists_pair hocc
    rw [Carry.exchange_eq hkv]
    refine ⟨rfl,?_⟩
    calc c.map.psl c.slot ≤ c.dist := hlt.le
      _ = (c.map.put c.slot c.dist (c.key,c.value)).psl c.slot := put_psl_self.symm
  · exact ⟨h,hp.weaken (by omega),rfl,by omega⟩

theorem insertTurn_of_empty (hempty : c.map.psl c.slot = 0) : insertTurn c =
    .ok (.leave {
      map := { c.map.withTable (c.map.put c.slot c.dist (c.key,c.value)) with size := c.map.size+1 },
      slot := some (c.firstInsertSlot.getD c.slot), overflow := [] }) := by
  simp [insertTurn,kEmpty,hempty]

theorem insertTurn_of_occupied (hocc : c.map.psl c.slot ≠ 0) : insertTurn c =
    if c.exchanged.dist+1 = kPslMax then
      .ok (.leave { map := c.exchanged.map, slot := c.exchanged.firstInsertSlot,
                    overflow := [(c.exchanged.key,c.exchanged.value)] })
    else .ok (.again { c.exchanged with
      slot := c.exchanged.map.slotOf (c.exchanged.slot+1), dist := c.exchanged.dist+1 }) := by
  simp only [insertTurn,kEmpty,if_neg hocc]
  rfl

theorem Inserting.again (hs : Stands m) (hempty : empty < m.capacity) {c' : Carry K V}
    (h : Inserting m e empty c) (hp : Placed m e empty c (gap m.capacity c.slot empty+1))
    (hgoes : Goes insertTurn c c') :
    (Inserting m e empty c' ∧ Placed m e empty c' (gap m.capacity c'.slot empty+1)) ∧
      gap m.capacity c'.slot empty < gap m.capacity c.slot empty := by
  unfold Goes at hgoes
  by_cases hocc : c.map.psl c.slot = 0
  · rw [insertTurn_of_empty hocc] at hgoes
    cases hgoes
  · rw [insertTurn_of_occupied hocc] at hgoes
    obtain ⟨hx,hpx,hslot,hdist⟩ := h.exchanged hs hocc hp
    split at hgoes
    · cases hgoes
    · rename_i hmax
      cases hgoes
      have hlt := h.carrying.slot_lt
      have hnext : c.exchanged.map.slotOf (c.exchanged.slot+1) = next m.capacity c.slot := by
        rw [slotOf_congr hx.frame.mask_eq,hslot,hs.slotOf_succ hlt]
      have hgap := gap_next_left hlt hempty (h.slot_ne hocc)
      have hle := hx.carrying.psl_le
      have hbelow : c.exchanged.dist < longest := by
        unfold longest at hle ⊢
        unfold kPslMax at hmax
        omega
      have hadv := hx.carrying.advance hx.sound (by rw [hslot]; exact hdist) hbelow hempty hx.empty_psl
      rw [hslot] at hadv
      simp only [hnext]
      exact ⟨⟨⟨hx.map_eq,hx.sound,hadv,hx.perm,hx.empty_psl⟩,hpx.weaken (by omega)⟩,by omega⟩

/-- The spec of `insertUnchecked`. -/
structure Inserted (m : FlatHashMap K V) (e : K × V) (r : Insertion K V) : Prop where
  takes : Takes m [e] r.map r.overflow
  slot_eq : r.overflow = [] → ∃ s < m.capacity, r.slot = some s ∧ r.map.kv s = some e

theorem Inserting.put (hs : Stands m) (h : Inserting m e empty c) (hempty : c.map.psl c.slot = 0)
    (hp : Placed m e empty c (gap m.capacity c.slot empty+1)) :
    Inserted m e {
      map := { c.map.withTable (c.map.put c.slot c.dist (c.key,c.value)) with size := c.map.size+1 },
      slot := some (c.firstInsertSlot.getD c.slot), overflow := [] } := by
  have hlt := h.carrying.slot_lt
  have hframe : SameFrame m { c.map.withTable (c.map.put c.slot c.dist (c.key,c.value)) with
      size := c.map.size+1 } := ⟨h.frame.capacity_eq,h.frame.mask_eq,h.frame.hash_eq⟩
  refine ⟨⟨hframe,hs.of_sound hframe (h.sound.put h.carrying ?_),?_,?_,fun hne => absurd rfl hne⟩,
    fun _ => ?_⟩
  · rw [hempty,h.carrying.psl_eq]
    omega
  · have hnone := (h.sound.empty_iff _ hlt).mp hempty
    have hold : c.map.entries m.capacity ~ _ := entries_perm hlt
    rw [hnone] at hold
    have hnew := entries_put (t := c.map.toTable) (d := c.dist) (e := (c.key,c.value)) hlt
    rw [← h.frame.capacity_eq] at hnew
    calc _ ~ (c.key,c.value) :: c.map.others c.map.capacity c.slot := hnew
      _ ~ (c.key,c.value) :: c.map.entries m.capacity := by
        rw [h.frame.capacity_eq]
        exact hold.symm.cons _
      _ ~ [e] ++ m.pairs := h.perm
  · rw [h.map_eq]
    rfl
  · obtain ⟨hnone,heq⟩ | ⟨s,hs,hsome,hkv,hgap⟩ := hp
    · refine ⟨c.slot,hlt,by simp [hnone],?_⟩
      rw [← heq]
      exact put_kv_self
    · have hne : s ≠ c.slot := by
        rintro rfl
        omega
      refine ⟨s,hs,by simp [hsome],?_⟩
      rw [← hkv]
      exact put_kv_of_ne hne

theorem Inserting.overflow (hs : Stands m) (hlt : empty < m.capacity) (h : Inserting m e empty c)
    (hdist : c.dist ≤ c.map.psl c.slot) (hmax : c.dist+1 = kPslMax) :
    Inserted m e { map := c.map, slot := c.firstInsertSlot, overflow := [(c.key,c.value)] } := by
  have hcap := h.frame.capacity_eq
  have hkeys := h.perm.map Prod.fst
  refine ⟨⟨h.frame,hs.of_sound h.frame h.sound,?_,?_,fun _ => ?_⟩,fun hnil => by cases hnil⟩
  · rw [pairs,hcap]
    exact h.perm
  · rw [h.map_eq]
    rfl
  · have hle := h.sound.psl_le _ h.carrying.slot_lt
    have hpsl := h.carrying.psl_eq
    have hlon : longest = 254 := rfl
    unfold kPslMax at hmax
    obtain ⟨a,ha,l,hl,hhome,hload⟩ := h.sound.overflow hs.home_lt (by omega) hlt h.empty_psl
      h.carrying.slot_lt (by omega) (k := c.key) (by omega)
    refine ⟨a,ha,l,hl,?_⟩
    calc l+longest ≤ load m.capacity m.home (RobinHood.keys m.capacity c.map.toTable) a l+1 := by omega
      _ = load m.capacity m.home (c.key :: RobinHood.keys m.capacity c.map.toTable) a l := by
        rw [load,load,List.countP_cons_of_pos (by simpa using hhome)]
      _ = load m.capacity m.home (([e] ++ m.pairs).map Prod.fst) a l := hkeys.countP_eq _

theorem insertUnchecked_spec (hs : Stands m) (hroom : m.pairs.length < m.capacity) (key : K) (value : V)
    (hab : key ∉ m.pairs.map Prod.fst) :
    ∃ r, m.insertUnchecked key value = .ret r ∧ Inserted m (key,value) r := by
  obtain ⟨empty,hlt,hnone⟩ := exists_empty hroom
  have hempty := (hs.sound.empty_iff empty hlt).mpr hnone
  have habs : ∀ i < m.capacity, ∀ e, m.kv i = some e → e.1 ≠ key := by
    rintro i hi e he rfl
    exact hab (List.mem_map_of_mem (mem_entries.mpr ⟨i,hi,he⟩))
  obtain ⟨c,hc⟩ : ∃ c : Carry K V, c =
      { map := m, slot := m.slotOf (m.hashOf key), dist := 1, key, value, firstInsertSlot := none } := ⟨_,rfl⟩
  have hstart : Inserting m (key,value) empty c ∧
      Placed m (key,value) empty c (gap m.capacity c.slot empty+1) := by
    subst hc
    exact ⟨⟨rfl,hs.sound,.start (hs.home_lt key) (by decide) habs,.refl _,hempty⟩,.inl ⟨rfl,rfl⟩⟩
  have hstep : ∀ c c', Inserting m (key,value) empty c ∧
      Placed m (key,value) empty c (gap m.capacity c.slot empty+1) → Goes insertTurn c c' → _ :=
    fun c c' h hgoes => h.1.again hs hlt h.2 hgoes
  have hends := run_ne_hang_of_variant (fun c : Carry K V => gap m.capacity c.slot empty) hstep hstart
    (gap_lt hstart.1.carrying.slot_lt hlt)
  rw [insertUnchecked,← hc]
  obtain ⟨t,hvis,⟨r,hleave,hret⟩ | ⟨x,-,-⟩⟩ := exists_visit_of_run_eq hends
  · refine ⟨r,hret,?_⟩
    obtain ⟨ht,hp⟩ := visits_invariant (fun c c' h hgoes => (hstep c c' h hgoes).1) hstart hvis
    by_cases hocc : t.map.psl t.slot = 0
    · rw [insertTurn_of_empty hocc] at hleave
      cases hleave
      exact ht.put hs hocc hp
    · rw [insertTurn_of_occupied hocc] at hleave
      obtain ⟨hx,-,hslot,hdist⟩ := ht.exchanged hs hocc hp
      split at hleave
      · rename_i hmax
        cases hleave
        exact hx.overflow hs hlt (by rw [hslot]; exact hdist) hmax
      · cases hleave
  · exact x.elim

end Insertion

section Rehash

theorem SameFrame.trans (h : SameFrame m m') (h' : SameFrame m' m'') : SameFrame m m'' where
  capacity_eq := h'.capacity_eq.trans h.capacity_eq
  mask_eq := h'.mask_eq.trans h.mask_eq
  hash_eq := h'.hash_eq.trans h.hash_eq

theorem keys_subperm (h : es.Subperm es') : (es.map Prod.fst).Subperm (es'.map Prod.fst) := by
  obtain ⟨l,hperm,hsub⟩ := h
  exact ⟨l.map Prod.fst,hperm.map _,hsub.map _⟩

theorem Takes.nil (hs : Stands m) : Takes m [] m [] :=
  ⟨⟨rfl,rfl,rfl⟩,hs,.refl _,rfl,fun hne => absurd rfl hne⟩

theorem Takes.trans {lost lost' : List (K × V)} (h : Takes m es m' lost)
    (h' : Takes m' es' m'' lost') : Takes m (es ++ es') m'' (lost ++ lost') := by
  have hperm : lost ++ (es' ++ m'.pairs) ~ es ++ es' ++ m.pairs := by
    calc lost ++ (es' ++ m'.pairs) ~ es' ++ (lost ++ m'.pairs) := by
          rw [← List.append_assoc,← List.append_assoc]
          exact List.perm_append_comm.append_right _
      _ ~ es' ++ (es ++ m.pairs) := h.perm.append_left _
      _ ~ es ++ es' ++ m.pairs := by
          rw [← List.append_assoc]
          exact List.perm_append_comm.append_right _
  refine ⟨h.frame.trans h'.frame,h'.stands,?_,?_,fun hne => ?_⟩
  · rw [List.append_assoc]
    exact (h'.perm.append_left lost).trans hperm
  · have hsize := h.size_eq
    have hsize' := h'.size_eq
    simp only [List.length_append]
    omega
  · by_cases hnil : lost = []
    · have hcrow := h'.crowded (by simpa [hnil] using hne)
      rw [h.frame.capacity_eq,h.frame.home_eq] at hcrow
      refine hcrow.mono ?_
      rw [hnil] at hperm
      exact (hperm.map Prod.fst).subperm
    · refine (h.crowded hnil).mono ?_
      rw [List.append_assoc]
      exact keys_subperm ((List.sublist_append_right es' m.pairs).append_left es).subperm

theorem insertAll_spec (es : List (K × V)) (hs : Stands m) (hroom : (es ++ m.pairs).length ≤ m.capacity)
    (hnodup : ((es ++ m.pairs).map Prod.fst).Nodup) :
    ∃ m' lost, m.insertAll es = .ret (m',lost) ∧ Takes m es m' lost := by
  induction es generalizing m with
  | nil => exact ⟨m,[],rfl,.nil hs⟩
  | cons e rest ih =>
    simp only [List.cons_append,List.length_cons,List.length_append,List.map_cons,List.map_append,
      List.nodup_cons] at hroom hnodup
    obtain ⟨r,hr,hins⟩ := insertUnchecked_spec hs (by omega) e.1 e.2
      (fun hmem => hnodup.1 (List.mem_append_right _ hmem))
    have hperm := hins.takes.perm
    have hsub : List.Subperm (rest ++ r.map.pairs) (rest ++ (r.overflow ++ r.map.pairs)) :=
      ((List.sublist_append_right _ _).append_left rest).subperm
    have hsub' : List.Subperm (rest ++ r.map.pairs) (e :: (rest ++ m.pairs)) := by
      refine hsub.trans (List.Perm.subperm ?_)
      exact (hperm.append_left rest).trans List.perm_middle
    obtain ⟨keys,hkeys,hsubk⟩ := keys_subperm hsub'
    obtain ⟨m',lost,hm',htakes⟩ := ih hins.takes.stands
      (by
        have hle := hsub'.length_le
        rw [hins.takes.frame.capacity_eq]
        simp only [List.length_cons,List.length_append] at hle ⊢
        omega)
      (hkeys.nodup_iff.mp (hsubk.nodup (by simpa using hnodup)))
    refine ⟨m',r.overflow ++ lost,?_,hins.takes.trans htakes⟩
    simp [insertAll,hr,hm',Outcome.map]

end Rehash

section Erasure

variable {slot empty i : Nat} {e : K × V} {s s' : FlatHashMap K V × Nat}

/-- What holds at the head of the loop of `backwardShiftErase`. -/
structure Shifting (m : FlatHashMap K V) (slot empty : Nat) (s : FlatHashMap K V × Nat) : Prop where
  map_eq : s.1 = m.withTable s.1.toTable
  holed : Holed m.capacity longest m.home s.1.toTable s.2
  perm : s.1.others m.capacity s.2 ~ m.others m.capacity slot
  empty_psl : s.1.psl empty = 0

theorem Shifting.frame (h : Shifting m slot empty s) : SameFrame m s.1 := by
  rw [h.map_eq]
  exact ⟨rfl,rfl,rfl⟩

theorem Shifting.next_eq (hs : Stands m) (h : Shifting m slot empty s) :
    s.1.slotOf (s.2+1) = next m.capacity s.2 := by
  rw [slotOf_congr h.frame.mask_eq,hs.slotOf_succ h.holed.lt]

theorem Shifting.again (hs : Stands m) (hlt : empty < m.capacity) (h : Shifting m slot empty s)
    (hgoes : Goes shiftTurn s s') :
    Shifting m slot empty s' ∧ gap m.capacity s'.2 empty < gap m.capacity s.2 empty := by
  have hnext := h.next_eq hs
  simp only [Goes,shiftTurn,hnext] at hgoes
  split at hgoes
  · cases hgoes
  · rename_i hone
    cases hgoes
    have hne : s.2 ≠ empty := by
      intro heq
      have hpsl := h.holed.psl_ne
      rw [heq] at hpsl
      exact hpsl h.empty_psl
    have hgap := gap_next_left h.holed.lt hlt hne
    have hmoves : next m.capacity s.2 ≠ s.2 := by
      intro heq
      rw [heq] at hgap
      omega
    refine ⟨⟨?_,?_,?_,?_⟩,by simp only; omega⟩
    · rw [h.map_eq]
      rfl
    · exact h.holed.pull hs.home_lt (by omega) hmoves
    · exact (others_pull h.holed.lt (next_lt h.holed.lt) hmoves.symm).trans h.perm
    · rw [← h.empty_psl]
      simp [withTable,pull,hne.symm]

theorem backwardShiftErase_spec (hs : Stands m) (hroom : m.pairs.length < m.capacity) (hi : i < m.capacity)
    (he : m.kv i = some e) :
    ∃ m', m.backwardShiftErase i = .ret m' ∧ SameFrame m m' ∧ Stands m' ∧ m'.size = m.size ∧
      m.pairs ~ e :: m'.pairs := by
  obtain ⟨empty,hlt,hnone⟩ := exists_empty hroom
  have hempty := (hs.sound.empty_iff empty hlt).mpr hnone
  have hstart : Shifting m i empty (m,i) := ⟨rfl,hs.sound.holed hi he,.refl _,hempty⟩
  have hstep : ∀ s s', Shifting m i empty s → Goes shiftTurn s s' → _ :=
    fun s s' h hgoes => h.again hs hlt hgoes
  have hends := run_ne_hang_of_variant (fun s : FlatHashMap K V × Nat => gap m.capacity s.2 empty) hstep
    hstart (gap_lt hi hlt)
  obtain ⟨t,hvis,⟨m',hleave,hret⟩ | ⟨x,-,-⟩⟩ := exists_visit_of_run_eq hends
  · have ht := visits_invariant (fun s s' h hgoes => (hstep s s' h hgoes).1) hstart hvis
    simp only [shiftTurn,ht.next_eq hs] at hleave
    split at hleave
    · rename_i hone
      cases hleave
      have hframe : SameFrame m (t.1.withTable (t.1.vacate t.2)) :=
        ⟨ht.frame.capacity_eq,ht.frame.mask_eq,ht.frame.hash_eq⟩
      refine ⟨_,hret,hframe,hs.of_sound hframe (ht.holed.vacate hone),?_,?_⟩
      · rw [ht.map_eq]
        rfl
      · have hold : m.pairs ~ _ := entries_perm hi
        rw [he] at hold
        have hnew := entries_vacate (t := t.1.toTable) ht.holed.lt
        rw [← hframe.capacity_eq] at hnew
        exact hold.trans ((hnew.trans (by rw [hframe.capacity_eq]; exact ht.perm)).symm.cons e)
    · cases hleave
  · exact x.elim

end Erasure

section Iteration

variable {turns idx : Nat}

theorem skipEmpty_of_occupied (h : ¬ (idx < m.capacity ∧ m.psl idx = kEmpty)) :
    m.skipEmpty turns idx = idx := by
  cases turns with
  | zero => rfl
  | succ turns => rw [skipEmpty,if_neg h]

theorem skipEmpty_eq (turns' : Nat) (h : m.capacity-idx ≤ turns) (h' : m.capacity-idx ≤ turns') :
    m.skipEmpty turns idx = m.skipEmpty turns' idx := by
  induction turns generalizing idx turns' with
  | zero => rw [skipEmpty_of_occupied (by omega),skipEmpty_of_occupied (by omega)]
  | succ turns ih =>
    by_cases hempty : idx < m.capacity ∧ m.psl idx = kEmpty
    · cases turns' with
      | zero => omega
      | succ turns' =>
        rw [skipEmpty,if_pos hempty,skipEmpty,if_pos hempty]
        exact ih _ (by omega) (by omega)
    · rw [skipEmpty_of_occupied hempty,skipEmpty_of_occupied hempty]

theorem walk_eq (hidx : idx ≤ m.capacity) (hturns : m.capacity-idx ≤ turns) :
    m.walk turns (m.occupiedFrom idx) =
      (List.range' idx (m.capacity-idx)).filter (fun i => decide (m.psl i ≠ kEmpty)) := by
  induction hn : m.capacity-idx generalizing idx turns with
  | zero =>
    have hend : idx = m.capacity := by omega
    rw [occupiedFrom,skipEmpty_of_occupied (by omega)]
    cases turns with
    | zero => rfl
    | succ turns => simp [walk,hend]
  | succ n ih =>
    rw [List.range'_succ]
    by_cases hempty : m.psl idx = kEmpty
    · have hskip : m.occupiedFrom idx = m.occupiedFrom (idx+1) := by
        rw [occupiedFrom,skipEmpty_eq (m.capacity+1) (by omega) (by omega),skipEmpty,
          if_pos ⟨by omega,hempty⟩,occupiedFrom]
      rw [hskip,List.filter_cons_of_neg (by simp [hempty])]
      exact ih (by omega) (by omega) (by omega)
    · obtain ⟨turns,rfl⟩ : ∃ t, turns = t+1 := ⟨turns-1,by omega⟩
      rw [occupiedFrom,skipEmpty_of_occupied (by simp [hempty]),walk,if_neg (by omega),
        List.filter_cons_of_pos (by simp [hempty])]
      rw [ih (by omega) (by omega) (by omega)]

theorem occupied_eq (hs : Stands m) : m.occupied = m.pairs := by
  apply List.filterMap_congr
  intro i hi
  split
  · rename_i hempty
    exact ((hs.sound.empty_iff i (List.mem_range.mp hi)).mp hempty).symm
  · rfl

theorem occupied_map (hs : Stands m) {slots : List Nat} (h : ∀ i ∈ slots, i < m.capacity) :
    (slots.filter (fun i => decide (m.psl i ≠ kEmpty))).map m.kv = (slots.filterMap m.kv).map some := by
  induction slots with
  | nil => rfl
  | cons i rest ih =>
    have hiff := hs.sound.empty_iff i (h i List.mem_cons_self)
    have hrest := ih (fun j hj => h j (List.mem_cons_of_mem _ hj))
    cases hkv : m.kv i with
    | none =>
      have hempty := hiff.mpr hkv
      rw [List.filter_cons_of_neg (by simp [hempty,kEmpty]),List.filterMap_cons_none hkv]
      exact hrest
    | some e =>
      have hocc : m.psl i ≠ kEmpty := fun hempty => by simp [hiff.mp hempty] at hkv
      rw [List.filter_cons_of_pos (by simpa using hocc),List.filterMap_cons_some hkv,List.map_cons,
        List.map_cons,hrest,hkv]

theorem iteration_eq (hs : Stands m) : m.iteration = m.pairs.map some := by
  rw [iteration,walk_eq (Nat.zero_le _) (Nat.le_of_eq (Nat.sub_zero _)),Nat.sub_zero,← List.range_eq_range']
  exact occupied_map hs (fun i hi => List.mem_range.mp hi)

end Iteration

end FastNet.FlatHashMap
