import FastNet.ConnectionManager
import FastNet.SmoothWeights

/-!
`ConnectionManager`: the selections of `WeightedRoundRobin` are smooth weighted turns.
-/

namespace FastNet.ConnectionManager

open SmoothWeights Machine BackendServer List

variable {config : Configuration} {s : ServiceState} {l l' : List BackendServer} {b : BackendServer} {i : Nat}
  {backend best : BackendServer}

/-! ### The healthy backends as a group -/

def places (l : List BackendServer) : Finset Nat :=
  (Finset.range l.length).filter (fun i => (l[i]?).any healthy)

def valueAt (f : BackendServer → Int) (l : List BackendServer) (i : Nat) : Int := (l[i]?).elim 0 f

def healthySum (f : BackendServer → Int) (l : List BackendServer) : Int := ((l.filter healthy).map f).sum

theorem mem_places : i ∈ places l ↔ ∃ b, l[i]? = some b ∧ b.healthy = true := by
  simp only [places,Finset.mem_filter,Finset.mem_range,Option.any_eq_true]
  refine ⟨fun h => h.2,fun ⟨b,hb,hheal⟩ => ⟨?_,b,hb,hheal⟩⟩
  exact (List.getElem?_eq_some_iff.mp hb).1

theorem sum_places (f : BackendServer → Int) (l : List BackendServer) :
    ∑ i ∈ places l, valueAt f l i = healthySum f l := by
  rw [places,Finset.sum_filter]
  induction l with
  | nil => rfl
  | cons b l ih =>
    rw [length_cons,Finset.sum_range_succ']
    simp only [valueAt,getElem?_cons_succ,getElem?_cons_zero] at ih ⊢
    rw [ih]
    cases hheal : b.healthy with
    | true =>
      simp [healthySum,hheal]
      ring
    | false => simp [healthySum,hheal]

theorem effectiveWeight_pos (b : BackendServer) : 0 < b.effectiveWeight := by
  unfold effectiveWeight
  omega

theorem healthySum_nonneg (l : List BackendServer) : 0 ≤ healthySum effectiveWeight l := by
  refine sum_nonneg (fun x hx => ?_)
  obtain ⟨b,-,rfl⟩ := mem_map.mp hx
  exact (effectiveWeight_pos b).le

theorem valueAt_pos (hi : i ∈ places l) : 0 < valueAt effectiveWeight l i := by
  obtain ⟨b,hb,-⟩ := mem_places.mp hi
  rw [valueAt,hb]
  exact effectiveWeight_pos b

/-! ### The loop -/

theorem int_of_fits {n : Int} (hlow : -2^31 ≤ n) (hhigh : n < 2^31) : int n = n := by
  refine Int.bmod_eq_of_le ?_ ?_ <;> omega

def BackendServer.raised (b : BackendServer) : BackendServer :=
  if b.healthy then { b with currentWeight := int (b.currentWeight+b.effectiveWeight) } else b

theorem weightedLoop_backends (l : List BackendServer) (i : Nat) (best : Option (BackendServer × Nat)) (totalWeight : Int) :
    (weightedLoop l i best totalWeight).1 = l.map raised := by
  induction l generalizing i best totalWeight with
  | nil => rfl
  | cons b l ih =>
    rw [weightedLoop]
    split
    · rename_i hheal
      simp only [map_cons,ih,raised,hheal,if_true]
    · rename_i hheal
      simp only [map_cons,ih,raised,hheal,Bool.false_eq_true,if_false]

theorem weightedLoop_total (l : List BackendServer) (i : Nat) (best : Option (BackendServer × Nat)) {totalWeight : Int}
    (hnon : 0 ≤ totalWeight) (hfits : totalWeight+healthySum effectiveWeight l < 2^31) :
    (weightedLoop l i best totalWeight).2.2 = totalWeight+healthySum effectiveWeight l := by
  induction l generalizing i best totalWeight with
  | nil => simp [weightedLoop,healthySum]
  | cons b l ih =>
    have hrest := healthySum_nonneg l
    have hweig := effectiveWeight_pos b
    rw [weightedLoop]
    split
    · rename_i hheal
      have hsum : healthySum effectiveWeight (b :: l) =
          b.effectiveWeight+healthySum effectiveWeight l := by simp [healthySum,hheal]
      rw [hsum] at hfits ⊢
      have hint : int (totalWeight+b.effectiveWeight) = totalWeight+b.effectiveWeight :=
        int_of_fits (by omega) (by omega)
      simp only [hint]
      rw [ih _ _ (by omega) (by omega)]
      ring
    · rename_i hheal
      have hsum : healthySum effectiveWeight (b :: l) = healthySum effectiveWeight l := by
        simp [healthySum,hheal]
      rw [hsum] at hfits ⊢
      exact ih _ _ hnon hfits

theorem not_outweighs (h : outweighs backend best = false) : backend.currentWeight ≤ best.currentWeight := by
  simp only [outweighs,Bool.or_eq_false_iff,decide_eq_false_iff_not] at h
  omega

theorem outweighs_le (h : outweighs backend best = true) : best.currentWeight ≤ backend.currentWeight := by
  simp only [outweighs,Bool.or_eq_true,Bool.and_eq_true,decide_eq_true_eq] at h
  omega

theorem weightedLoop_best (l : List BackendServer) (i : Nat) (top : BackendServer) (k : Nat) (totalWeight : Int) :
    ∃ top' k', (weightedLoop l i (some (top,k)) totalWeight).2.1 = some (top',k') ∧
      (top' = top ∧ k' = k ∨ ∃ j b, k' = i+j ∧ l[j]? = some b ∧ b.healthy = true ∧ top' = b.raised) ∧
      top.currentWeight ≤ top'.currentWeight ∧
      ∀ b ∈ l, b.healthy = true → b.raised.currentWeight ≤ top'.currentWeight := by
  induction l generalizing i top k totalWeight with
  | nil => exact ⟨top,k,rfl,.inl ⟨rfl,rfl⟩,le_refl _,nofun⟩
  | cons b l ih =>
    rw [weightedLoop]
    split
    · rename_i hhe
      have hrais : b.raised = { b with currentWeight := int (b.currentWeight+b.effectiveWeight) } := if_pos hhe
      simp only [← hrais]
      cases hmore : outweighs b.raised top with
      | true =>
        obtain ⟨top',k',hbest,hwhere,hle,hall⟩ := ih (i+1) b.raised i (int (totalWeight+b.effectiveWeight))
        refine ⟨top',k',hbest,.inr ?_,(outweighs_le hmore).trans hle,?_⟩
        · rcases hwhere with ⟨rfl,rfl⟩ | ⟨j,b',rfl,hb',hheal,rfl⟩
          · exact ⟨0,b,rfl,rfl,hhe,rfl⟩
          · exact ⟨j+1,b',by omega,hb',hheal,rfl⟩
        · intro b' hb' hheal
          rcases mem_cons.mp hb' with rfl | hb'
          · exact hle
          · exact hall b' hb' hheal
      | false =>
        obtain ⟨top',k',hbest,hwhere,hle,hall⟩ := ih (i+1) top k (int (totalWeight+b.effectiveWeight))
        refine ⟨top',k',hbest,?_,hle,?_⟩
        · rcases hwhere with hsame | ⟨j,b',rfl,hb',hheal,rfl⟩
          · exact .inl hsame
          · exact .inr ⟨j+1,b',by omega,hb',hheal,rfl⟩
        · intro b' hb' hheal
          rcases mem_cons.mp hb' with rfl | hb'
          · exact (not_outweighs hmore).trans hle
          · exact hall b' hb' hheal
    · rename_i hhe
      obtain ⟨top',k',hbest,hwhere,hle,hall⟩ := ih (i+1) top k totalWeight
      refine ⟨top',k',hbest,?_,hle,?_⟩
      · rcases hwhere with hsame | ⟨j,b',rfl,hb',hheal,rfl⟩
        · exact .inl hsame
        · exact .inr ⟨j+1,b',by omega,hb',hheal,rfl⟩
      · intro b' hb' hheal
        rcases mem_cons.mp hb' with rfl | hb'
        · exact absurd hheal hhe
        · exact hall b' hb' hheal

theorem weightedLoop_top (l : List BackendServer) (i : Nat) (totalWeight : Int) (hhealt : ∃ b ∈ l, b.healthy = true) :
    ∃ j b, (weightedLoop l i none totalWeight).2.1 = some (b.raised,i+j) ∧ l[j]? = some b ∧ b.healthy = true ∧
      ∀ b' ∈ l, b'.healthy = true → b'.raised.currentWeight ≤ b.raised.currentWeight := by
  induction l generalizing i totalWeight with
  | nil => simp at hhealt
  | cons b l ih =>
    rw [weightedLoop]
    split
    · rename_i hb
      have hrais : b.raised = { b with currentWeight := int (b.currentWeight+b.effectiveWeight) } := if_pos hb
      simp only [← hrais]
      obtain ⟨top',k',hbest,hwhere,hle,hall⟩ := weightedLoop_best l (i+1) b.raised i (int (totalWeight+b.effectiveWeight))
      have hmost : ∀ b' ∈ b :: l, b'.healthy = true → b'.raised.currentWeight ≤ top'.currentWeight := by
        intro b' hb' hheal
        rcases mem_cons.mp hb' with rfl | hb'
        · exact hle
        · exact hall b' hb' hheal
      rcases hwhere with ⟨rfl,rfl⟩ | ⟨j,b',rfl,hb',hheal,rfl⟩
      · exact ⟨0,b,hbest,rfl,hb,hmost⟩
      · exact ⟨j+1,b',by rw [hbest]; congr 2; omega,hb',hheal,hmost⟩
    · rename_i hb
      have hrest : ∃ b' ∈ l, b'.healthy = true := by
        obtain ⟨b',hb',hheal⟩ := hhealt
        rcases mem_cons.mp hb' with rfl | hb'
        · exact absurd hheal hb
        · exact ⟨b',hb',hheal⟩
      obtain ⟨j,b',hbest,hb',hheal,hall⟩ := ih (i+1) totalWeight hrest
      refine ⟨j+1,b',by rw [hbest]; congr 2; omega,hb',hheal,fun b'' hb'' hhe => ?_⟩
      rcases mem_cons.mp hb'' with rfl | hb''
      · exact absurd hhe hb
      · exact hall b'' hb'' hhe

def BackendServer.paid (totalWeight : Int) (b : BackendServer) : BackendServer :=
  { b with currentWeight := int (b.currentWeight-totalWeight) }

theorem weightedRoundRobin_eq (hheal : ∃ b ∈ l, b.healthy = true)
    (htotal : healthySum effectiveWeight l < 2^31) :
    ∃ k top, l[k]? = some top ∧ top.healthy = true ∧
      (∀ b ∈ l, b.healthy = true → b.raised.currentWeight ≤ top.raised.currentWeight) ∧
      weightedRoundRobin l =
        ((l.map raised).modify k (paid (healthySum effectiveWeight l)),some k) := by
  have hbac := weightedLoop_backends l 0 none 0
  have hsum := weightedLoop_total l 0 none (le_refl 0) (by omega)
  obtain ⟨k,top,hbest,hk,hktop,hall⟩ := weightedLoop_top l 0 0 hheal
  refine ⟨k,top,hk,hktop,hall,?_⟩
  unfold weightedRoundRobin
  split
  · rename_i hres
    rw [hres] at hbest
    cases hbest
  · rename_i backends top' k' totalWeight hres
    rw [hres] at hbest hbac hsum
    obtain ⟨rfl,rfl⟩ := Prod.mk.inj (Option.some.inj hbest)
    simp only at hbac hsum
    rw [hbac,hsum,Nat.zero_add,Int.zero_add]
    rfl

/-! ### One selection -/

def Fits (s : ServiceState) : Prop := ∀ b ∈ s.backends, b.healthy = true → b.currentWeight+b.effectiveWeight < 2^31

instance (s : ServiceState) : Decidable (Fits s) := inferInstanceAs (Decidable (∀ b ∈ s.backends, _ → _))

def InOrder (l : List BackendServer) : Prop :=
  Balanced (places l) (valueAt effectiveWeight l) (valueAt currentWeight l)

theorem InOrder.above (h : InOrder l) (hb : l[i]? = some b) (hheal : b.healthy = true) :
    -healthySum effectiveWeight l < b.currentWeight := by
  have habove := Balanced.above h i (mem_places.mpr ⟨b,hb,hheal⟩)
  rw [sum_places] at habove
  simpa [valueAt,hb] using habove

theorem weightedRoundRobin_turn (hheal : ∃ b ∈ l, b.healthy = true) (horder : InOrder l)
    (hfits : ∀ b ∈ l, b.healthy = true → b.currentWeight+b.effectiveWeight < 2^31)
    (htotal : healthySum effectiveWeight l < 2^31) :
    ∃ i, (weightedRoundRobin l).2 = some i ∧
      Turn (places l) (valueAt effectiveWeight l) (valueAt currentWeight l) i
        (valueAt currentWeight (weightedRoundRobin l).1) := by
  -- what a healthy backend has when it has got its weight
  have hrais (j : Nat) (b : BackendServer) (hb : l[j]? = some b) (hheal : b.healthy = true) :
      b.raised.currentWeight = b.currentWeight+b.effectiveWeight := by
    have habove := horder.above hb hheal
    have hweig := effectiveWeight_pos b
    have hbelow := hfits b (mem_of_getElem? hb) hheal
    rw [raised,if_pos hheal]
    exact int_of_fits (by omega) hbelow
  obtain ⟨k,top,hk,hktop,hall,heq⟩ := weightedRoundRobin_eq hheal htotal
  have hmem : k ∈ places l := mem_places.mpr ⟨top,hk,hktop⟩
  have hmost : ∀ j ∈ places l,
      valueAt currentWeight l j+valueAt effectiveWeight l j ≤
        valueAt currentWeight l k+valueAt effectiveWeight l k := by
    intro j hj
    obtain ⟨b,hb,hheal⟩ := mem_places.mp hj
    have hle := hall b (mem_of_getElem? hb) hheal
    rw [hrais j b hb hheal,hrais k top hk hktop] at hle
    simpa [valueAt,hb,hk] using hle
  have hpo := positive_of_most horder (fun j hj => valueAt_pos hj) hmem hmost
  rw [heq]
  refine ⟨k,rfl,hmem,hmost,fun j hj => ?_⟩
  obtain ⟨b,hb,hbh⟩ := mem_places.mp hj
  rw [sum_places]
  by_cases hjk : j = k
  · subst hjk
    obtain rfl := Option.some.inj (hb.symm.trans hk)
    have hbelow := hfits b (mem_of_getElem? hb) hbh
    have hnon := healthySum_nonneg l
    have hpaid : int (b.currentWeight+b.effectiveWeight-healthySum effectiveWeight l) =
        b.currentWeight+b.effectiveWeight-healthySum effectiveWeight l := by
      simp only [valueAt,hb,Option.elim_some] at hpo
      exact int_of_fits (by omega) (by omega)
    simp [valueAt,hb,paid,hrais j b hb hbh,hpaid]
  · simp [valueAt,hb,Ne.symm hjk,hjk,hrais j b hb hbh]

/-! ### Selections one after another -/

/-- What a selection finds: how many connections each backend has, and what the caller and
the generator give to the other strategies. -/
structure Occasion where
  counts : Nat → Nat
  affinityKey : Bytes := []
  random : Nat := 0

def ServiceState.counted (s : ServiceState) (counts : Nat → Nat) : ServiceState :=
  { s with backends := s.backends.mapIdx (fun i b => { b with activeConnections := counts i }) }

def select (config : Configuration) (s : ServiceState) (o : Occasion) : ServiceState × Option Nat :=
  selectBackendLocked config (s.counted o.counts) o.affinityKey o.random

def next (config : Configuration) (s : ServiceState) (o : Occasion) : ServiceState := (select config s o).1

def picked (config : Configuration) (s : ServiceState) (o : Occasion) : List Nat := (select config s o).2.toList

def BackendServer.standing (b : BackendServer) : Bool × Int := (b.healthy,b.weight)

theorem places_standing (h : l'.map standing = l.map standing) : places l' = places l := by
  have hplac (l : List BackendServer) : places l =
      (Finset.range (l.map standing).length).filter
        (fun i => ((l.map standing)[i]?).any Prod.fst) := by
    simp only [places,length_map,getElem?_map,Option.any_map]
    rfl
  rw [hplac,h,← hplac]

theorem weightAt_standing (h : l'.map standing = l.map standing) :
    valueAt effectiveWeight l' = valueAt effectiveWeight l := by
  have hvalue (l : List BackendServer) : valueAt effectiveWeight l =
      fun i => ((l.map standing)[i]?).elim 0 (fun standing => max 1 standing.2) := by
    funext i
    rw [valueAt,getElem?_map]
    cases l[i]? <;> rfl
  rw [hvalue,h,← hvalue]

theorem raised_standing (l : List BackendServer) :
    (l.map raised).map standing = l.map standing := by
  rw [map_map]
  refine map_congr_left (fun b _ => ?_)
  simp only [Function.comp_apply,raised]
  split <;> rfl

theorem modify_standing {f : BackendServer → BackendServer} (hf : ∀ b, (f b).standing = b.standing) (k : Nat)
    (l : List BackendServer) : (l.modify k f).map standing = l.map standing := by
  refine ext_getElem? (fun i => ?_)
  rw [getElem?_map,getElem?_map,getElem?_modify,Option.map_eq_map,Option.map_map]
  refine congrArg (fun g => Option.map g l[i]?) (funext fun b => ?_)
  simp only [Function.comp_apply]
  split
  · exact hf b
  · rfl

theorem counted_standing (s : ServiceState) (counts : Nat → Nat) :
    (s.counted counts).backends.map standing = s.backends.map standing := by
  refine ext_getElem? (fun i => ?_)
  rw [getElem?_map,getElem?_map,ServiceState.counted,getElem?_mapIdx,Option.map_map]
  rfl

theorem counted_currentWeight (s : ServiceState) (counts : Nat → Nat) :
    valueAt currentWeight (s.counted counts).backends = valueAt currentWeight s.backends := by
  funext i
  rw [valueAt,valueAt,ServiceState.counted,getElem?_mapIdx]
  cases s.backends[i]? <;> rfl

theorem healthySum_effectiveWeight (h : l'.map standing = l.map standing) :
    healthySum effectiveWeight l' = healthySum effectiveWeight l := by
  rw [← sum_places,places_standing h,weightAt_standing h,sum_places]

theorem weightedRoundRobin_standing (hheal : ∃ b ∈ l, b.healthy = true)
    (htotal : healthySum effectiveWeight l < 2^31) :
    (weightedRoundRobin l).1.map standing = l.map standing := by
  obtain ⟨k,top,-,-,-,heq⟩ := weightedRoundRobin_eq hheal htotal
  rw [heq]
  refine (modify_standing (fun b => ?_) k _).trans (raised_standing l)
  rfl

theorem selectBackend_weighted (hstr : s.strategy = .weightedRoundRobin) (hheal : ∃ b ∈ s.backends, b.healthy = true)
    (config : Configuration) (affinityKey : Bytes) (random : Nat) :
    selectBackendLocked config s affinityKey random =
      ({ s with backends := (weightedRoundRobin s.backends).1 },(weightedRoundRobin s.backends).2) := by
  have hsome : healthyBackends s.backends ≠ [] := by
    obtain ⟨b,hb,hbh⟩ := hheal
    obtain ⟨i,hi⟩ := getElem?_of_mem hb
    refine ne_nil_of_mem (a := i) (mem_map.mpr ⟨(b,i),?_,rfl⟩)
    exact mem_filter.mpr ⟨mk_mem_zipIdx_iff_getElem?.mpr hi,hbh⟩
  simp only [selectBackendLocked,hsome,if_false,hstr]

theorem mem_counted (hb : b ∈ s.backends) (counts : Nat → Nat) :
    ∃ i, { b with activeConnections := counts i } ∈ (s.counted counts).backends := by
  obtain ⟨i,hi⟩ := getElem?_of_mem hb
  exact ⟨i,mem_of_getElem? (i := i) (by simp [ServiceState.counted,hi])⟩

theorem fits_counted (s : ServiceState) (counts : Nat → Nat) : Fits (s.counted counts) ↔ Fits s := by
  constructor
  · intro h b hb hheal
    obtain ⟨i,hi⟩ := mem_counted hb counts
    exact h { b with activeConnections := counts i } hi hheal
  · intro h b hb hheal
    obtain ⟨i,hi,rfl⟩ := mem_mapIdx.mp hb
    exact h s.backends[i] (getElem_mem hi) hheal

theorem counted_inOrder (h : InOrder s.backends) (counts : Nat → Nat) : InOrder (s.counted counts).backends := by
  unfold InOrder at h ⊢
  rwa [places_standing (counted_standing s counts),weightAt_standing (counted_standing s counts),counted_currentWeight]

theorem select_turn (hstr : s.strategy = .weightedRoundRobin) (hheal : ∃ b ∈ s.backends, b.healthy = true)
    (horder : InOrder s.backends) (hfits : Fits s) (htotal : healthySum effectiveWeight s.backends < 2^31)
    (config : Configuration) (o : Occasion) :
    ∃ i, picked config s o = [i] ∧ (next config s o).strategy = .weightedRoundRobin ∧
      (next config s o).backends.map standing = s.backends.map standing ∧
      Turn (places s.backends) (valueAt effectiveWeight s.backends) (valueAt currentWeight s.backends) i
        (valueAt currentWeight (next config s o).backends) := by
  have hstan := counted_standing s o.counts
  have hheal' : ∃ b ∈ (s.counted o.counts).backends, b.healthy = true := by
    obtain ⟨b,hb,hhe⟩ := hheal
    obtain ⟨i,hi⟩ := mem_counted hb o.counts
    exact ⟨_,hi,hhe⟩
  have hfits' := (fits_counted s o.counts).mpr hfits
  rw [← healthySum_effectiveWeight hstan] at htotal
  obtain ⟨i,hpick,hturn⟩ := weightedRoundRobin_turn hheal' (counted_inOrder horder o.counts) hfits' htotal
  have hsel := @selectBackend_weighted (s.counted o.counts) hstr hheal' config o.affinityKey o.random
  rw [places_standing hstan,weightAt_standing hstan,counted_currentWeight] at hturn
  rw [picked,next,select,hsel]
  refine ⟨i,?_,hstr,(weightedRoundRobin_standing hheal' htotal).trans hstan,hturn⟩
  rw [hpick]
  rfl

/-- Between two selections: the strategy, the healthy set and the weights are those of the
start, and the picks so far have been turns. -/
structure Turned (start : ServiceState) (picks : List Nat) (s : ServiceState) : Prop where
  strategy : s.strategy = start.strategy
  standing : s.backends.map standing = start.backends.map standing
  turns : Turns (places start.backends) (valueAt effectiveWeight start.backends)
    (valueAt currentWeight start.backends) picks (valueAt currentWeight s.backends)

variable {start : ServiceState} {picks : List Nat}

structure Ready (s : ServiceState) : Prop where
  strategy : s.strategy = .weightedRoundRobin
  healthy : ∃ b ∈ s.backends, b.healthy = true
  zero : ∀ b ∈ s.backends, b.healthy = true → b.currentWeight = 0
  total : healthySum effectiveWeight s.backends < 2^31

theorem Ready.at_zero (h : Ready s) : ∀ i ∈ places s.backends, valueAt currentWeight s.backends i = 0 := by
  intro i hi
  obtain ⟨b,hb,hheal⟩ := mem_places.mp hi
  rw [valueAt,hb]
  exact h.zero b (mem_of_getElem? hb) hheal

theorem Turned.inOrder (hstart : Ready start) (h : Turned start picks s) : InOrder s.backends := by
  unfold InOrder
  rw [places_standing h.standing,weightAt_standing h.standing]
  exact h.turns.balanced (balanced_zero (fun _ hi => valueAt_pos hi) hstart.at_zero) (fun _ hi => valueAt_pos hi)

theorem Turned.select (hstart : Ready start) (h : Turned start picks s) (hfits : Fits s) (config : Configuration) (o : Occasion) :
    ∃ i, picked config s o = [i] ∧ Turned start (picks ++ [i]) (next config s o) := by
  have hplac := places_standing h.standing
  have hheal : ∃ b ∈ s.backends, b.healthy = true := by
    obtain ⟨b,hb,hheal⟩ := hstart.healthy
    obtain ⟨i,hi⟩ := getElem?_of_mem hb
    obtain ⟨b',hb',hhe⟩ := mem_places.mp (hplac ▸ mem_places.mpr ⟨b,hi,hheal⟩)
    exact ⟨b',mem_of_getElem? hb',hhe⟩
  have htotal : healthySum effectiveWeight s.backends < 2^31 := by
    rw [healthySum_effectiveWeight h.standing]
    exact hstart.total
  obtain ⟨i,hpick,hstr,hstan,hturn⟩ :=
    select_turn (h.strategy.trans hstart.strategy) hheal (h.inOrder hstart) hfits htotal config o
  rw [hplac,weightAt_standing h.standing] at hturn
  exact ⟨i,hpick,hstr.trans hstart.strategy.symm,hstan.trans h.standing,h.turns.snoc hturn⟩

theorem turned_nil (s : ServiceState) : Turned s [] s := ⟨rfl,rfl,.nil⟩

def Underway (start s : ServiceState) : Prop := ∃ picks, Turned start picks s

theorem underway_start (s : ServiceState) : Underway s s := ⟨[],turned_nil s⟩

theorem Ready.turns (h : Ready s) (config : Configuration) {occasions : List Occasion}
    (hfits : Meets (next config) (fun s _ => Fits s) s occasions) :
    Turned s (outputs (next config) (picked config) s occasions) (runs (next config) s occasions) := by
  refine outputs_invariant (fun picks s' o htur hfit => ?_) (turned_nil s) hfits
  obtain ⟨i,hpic,hnext⟩ := htur.select h hfit config o
  rw [hpic]
  exact hnext

theorem Ready.length (h : Ready s) (config : Configuration) {occasions : List Occasion}
    (hfits : Meets (next config) (fun s _ => Fits s) s occasions) :
    (outputs (next config) (picked config) s occasions).length = occasions.length := by
  refine length_outputs (fun s' o htur hfit => ?_) (underway_start s) hfits
  obtain ⟨picks,htur⟩ := htur
  obtain ⟨i,hpic,hnext⟩ := htur.select h hfit config o
  exact ⟨by rw [hpic]; rfl,_,hnext⟩

/-- No selection overflows when there are few healthy backends for the range of `int`. -/
theorem Ready.fits (h : Ready s)
    (hfew : ((places s.backends).card : Int)*healthySum effectiveWeight s.backends < 2^31)
    (config : Configuration) (occasions : List Occasion) :
    Meets (next config) (fun s _ => Fits s) s occasions := by
  have hfits (s' : ServiceState) (htur : Underway s s') : Fits s' := by
    obtain ⟨picks,htur⟩ := htur
    intro b hb hheal
    obtain ⟨i,hi⟩ := getElem?_of_mem hb
    have hmem : i ∈ places s'.backends := mem_places.mpr ⟨b,hi,hheal⟩
    have hbelow := Balanced.below (htur.inOrder h) hmem
    have hweig : valueAt effectiveWeight s'.backends i ≤
        ∑ k ∈ places s'.backends, valueAt effectiveWeight s'.backends k :=
      Finset.single_le_sum (fun k hk => (valueAt_pos hk).le) hmem
    rw [sum_places,healthySum_effectiveWeight htur.standing] at hbelow hweig
    rw [places_standing htur.standing] at hbelow
    simp only [valueAt,hi,Option.elim_some] at hbelow hweig
    linarith
  refine meets_of_invariant (fun s' _ => hfits s') (fun s' o htur => ?_) (underway_start s) occasions
  have hfit := hfits s' htur
  obtain ⟨picks,htur⟩ := htur
  obtain ⟨i,-,hnext⟩ := htur.select h hfit config o
  exact ⟨_,hnext⟩

/-- From current weights zero, selections one after another are exactly in proportion to the
weights, as long as every current weight that a selection comes to fits in an `int`. -/
theorem weightedRoundRobin_proportional (config : Configuration) {s : ServiceState} (h : Ready s) {total : Nat}
    (htotal : healthySum BackendServer.effectiveWeight s.backends = total) {occasions : List Occasion}
    (hfits : Machine.Meets (next config) (fun s _ => Fits s) s occasions) :
    let s' := Machine.runs (next config) s occasions
    let picks := Machine.outputs (next config) (picked config) s occasions
    picks.length = occasions.length ∧
    healthySum BackendServer.currentWeight s'.backends = 0 ∧
    (∀ n, occasions.length = n*total → ∀ b ∈ s'.backends, b.healthy = true → b.currentWeight = 0) ∧
    ∀ n, (n+1)*total ≤ occasions.length → ∀ i b, s.backends[i]? = some b →
      (((picks.drop (n*total)).take total).count i : Int) = if b.healthy then b.effectiveWeight else 0 := by
  have htur := h.turns config hfits
  have hlen := h.length config hfits
  refine ⟨hlen,?_,?_,?_⟩
  · rw [← sum_places]
    exact (htur.inOrder h).sum
  · intro n hn b hb hheal
    obtain ⟨i,hi⟩ := List.getElem?_of_mem hb
    have hmem : i ∈ places s.backends := places_standing htur.standing ▸ mem_places.mpr ⟨b,hi,hheal⟩
    have hzero := htur.turns.cycles (fun _ hj => valueAt_pos hj) h.at_zero n
      (by rw [hlen,hn,sum_places,htotal]; push_cast; rfl) i hmem
    simpa [valueAt,hi] using hzero
  · intro n hn i b hb
    cases hheal : b.healthy with
    | true =>
      have hmem : i ∈ places s.backends := mem_places.mpr ⟨b,hb,hheal⟩
      have hwin := htur.turns.window (fun _ hj => valueAt_pos hj) h.at_zero
        (by rw [sum_places]; exact htotal) n (by rwa [hlen]) hmem
      rw [hwin,valueAt,hb]
      rfl
    | false =>
      -- only healthy backends are ever picked
      have hnot : i ∉ Machine.outputs (next config) (picked config) s occasions := by
        intro hpic
        obtain ⟨b',hb',hhe⟩ := mem_places.mp (htur.turns.mem i hpic)
        rw [hb] at hb'
        obtain rfl := Option.some.inj hb'
        rw [hheal] at hhe
        cases hhe
      have hwin : i ∉ ((Machine.outputs (next config) (picked config) s occasions).drop (n*total)).take total :=
        fun hmem => hnot (List.mem_of_mem_drop (List.mem_of_mem_take hmem))
      rw [List.count_eq_zero.mpr hwin]
      rfl

def weighted (weights : List Int) : ServiceState :=
  { name := [1]
    strategy := .weightedRoundRobin
    backends := weights.map (fun weight => { host := [2], port := 80, weight }) }

/-- In the second cycle of weights 5, 1 and 1 the first backend is picked five times. -/
theorem weightedRoundRobin_proportional_five :
    let picks := Machine.outputs (next { hash := List.length }) (picked { hash := List.length }) (weighted [5,1,1])
      (List.replicate 14 { counts := fun i => i })
    (((picks.drop (1*7)).take 7).count 0 : Int) = 5 := by
  have hready : Ready (weighted [5,1,1]) := ⟨rfl,by decide,by decide,by decide⟩
  have hfits := hready.fits (by decide) { hash := List.length } (List.replicate 14 { counts := fun i => i })
  have htotal : healthySum BackendServer.effectiveWeight (weighted [5,1,1]).backends = (7 : Nat) := by decide
  have hall := weightedRoundRobin_proportional { hash := List.length } hready htotal hfits
  exact hall.2.2.2 1 (by decide) 0 { host := [2], port := 80, weight := 5 } rfl

/-- The sum of these weights fits in an `int`. In the third selection the second backend comes
to five times the first weight, which does not, and the third backend is picked in its place. -/
theorem hugeWeights_overflow :
    let start := weighted [2^29-1,3*(2^29-1),1]
    let occasions := List.replicate 3 { counts := fun _ => 0 }
    healthySum BackendServer.effectiveWeight start.backends = 2^31-3 ∧
      Machine.outputs (next { hash := List.length }) (picked { hash := List.length }) start occasions = [1,0,2] ∧
      healthySum BackendServer.currentWeight (Machine.runs (next { hash := List.length }) start occasions).backends = -2^32 := by
  decide

end FastNet.ConnectionManager
