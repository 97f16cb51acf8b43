import FastNet.WeightedRoundRobin

/-!
`WeightedRoundRobin`: which values a selection computes and when they are values of an `int`,
and what a report of success does to the selections behind it.
-/

namespace FastNet.ConnectionManager

open SmoothWeights Machine BackendServer

variable {s : ServiceState} {l : List BackendServer} {totalWeight : Int}

/-- The sums that the loop of a selection forms, as numbers. -/
def loopValues : List BackendServer → Int → List Int
  | [], _ => []
  | backend :: rest, totalWeight =>
    if backend.healthy then
      (totalWeight+backend.effectiveWeight) :: (backend.currentWeight+backend.effectiveWeight) ::
        loopValues rest (int (totalWeight+backend.effectiveWeight))
    else loopValues rest totalWeight

/-- All values that a selection computes: behind the loop, what the best backend is left with. -/
def selectionValues (l : List BackendServer) : List Int :=
  loopValues l 0 ++
    match weightedLoop l 0 none 0 with
    | (_,none,_) => []
    | (_,some (best,_),totalWeight) => [best.currentWeight-totalWeight]

def InRange (n : Int) : Prop := -2^31 ≤ n ∧ n < 2^31

instance (n : Int) : Decidable (InRange n) := inferInstanceAs (Decidable (_ ∧ _))

theorem loopValues_inRange_iff (hlow : 0 ≤ totalWeight) (hhigh : totalWeight < 2^31) :
    (∀ n ∈ loopValues l totalWeight, InRange n) ↔ totalWeight+healthySum effectiveWeight l < 2^31 ∧
      ∀ b ∈ l, b.healthy = true → InRange (b.currentWeight+b.effectiveWeight) := by
  induction l generalizing totalWeight with
  | nil => simpa [loopValues,healthySum] using hhigh
  | cons b l ih =>
    have hrest := healthySum_nonneg l
    have hweight := effectiveWeight_pos b
    cases hheal : b.healthy with
    | false =>
      have hsum : healthySum effectiveWeight (b :: l) = healthySum effectiveWeight l := by simp [healthySum,hheal]
      simp only [loopValues,hheal,Bool.false_eq_true,if_false,hsum,ih hlow hhigh,List.forall_mem_cons,
        false_implies,true_and]
    | true =>
      have hsum : healthySum effectiveWeight (b :: l) = b.effectiveWeight+healthySum effectiveWeight l := by
        simp [healthySum,hheal]
      simp only [loopValues,hheal,if_true,hsum,List.forall_mem_cons,true_implies]
      constructor
      · rintro ⟨htotal,hown,hvalues⟩
        rw [int_of_fits htotal.1 htotal.2] at hvalues
        obtain ⟨hfits,hall⟩ := (ih (by omega) htotal.2).mp hvalues
        exact ⟨by omega,hown,hall⟩
      · rintro ⟨hfits,hown,hall⟩
        have htotal : InRange (totalWeight+b.effectiveWeight) := ⟨by omega,by omega⟩
        rw [int_of_fits htotal.1 htotal.2]
        exact ⟨htotal,hown,(ih (by omega) htotal.2).mpr ⟨by omega,hall⟩⟩

theorem weightedLoop_unhealthy (h : ∀ b ∈ l, b.healthy = false) (i : Nat) (best : Option (BackendServer × Nat))
    (totalWeight : Int) : weightedLoop l i best totalWeight = (l,best,totalWeight) := by
  induction l generalizing i with
  | nil => rfl
  | cons b l ih =>
    rw [weightedLoop,if_neg (by simp [h b List.mem_cons_self]),ih (fun b hb => h b (List.mem_cons_of_mem _ hb))]

/-- What a selection needs: room for the sum of the weights and for every raised current weight. -/
def Roomy (s : ServiceState) : Prop := healthySum effectiveWeight s.backends < 2^31 ∧ Fits s

instance (s : ServiceState) : Decidable (Roomy s) := inferInstanceAs (Decidable (_ ∧ _))

theorem roomy_of_inRange (h : ∀ n ∈ selectionValues s.backends, InRange n) : Roomy s := by
  obtain ⟨htotal,hall⟩ := (@loopValues_inRange_iff s.backends 0 (le_refl 0) (by decide)).mp
    (fun n hn => h n (List.mem_append_left _ hn))
  exact ⟨by omega,fun b hb hheal => (hall b hb hheal).2⟩

theorem inRange_of_roomy (horder : InOrder s.backends) (h : Roomy s) : ∀ n ∈ selectionValues s.backends, InRange n := by
  obtain ⟨htotal,hfits⟩ := h
  have hall (b : BackendServer) (hb : b ∈ s.backends) (hheal : b.healthy = true) :
      InRange (b.currentWeight+b.effectiveWeight) := by
    obtain ⟨i,hi⟩ := List.getElem?_of_mem hb
    have habove := horder.above hi hheal
    have hweight := effectiveWeight_pos b
    exact ⟨by omega,hfits b hb hheal⟩
  have hraised (b : BackendServer) (hb : b ∈ s.backends) (hheal : b.healthy = true) :
      b.raised.currentWeight = b.currentWeight+b.effectiveWeight := by
    rw [raised,if_pos hheal]
    exact int_of_fits (hall b hb hheal).1 (hall b hb hheal).2
  intro n hn
  rcases List.mem_append.mp hn with hn | hn
  · exact (loopValues_inRange_iff (le_refl 0) (by decide)).mpr ⟨by omega,hall⟩ n hn
  · by_cases hheal : ∃ b ∈ s.backends, b.healthy = true
    · -- the best backend has something, as the weights were in balance before they were given
      obtain ⟨j,best,hbest,hj,hbh,hmost⟩ := weightedLoop_top s.backends 0 0 hheal
      obtain ⟨i,-,hturn⟩ := weightedRoundRobin_turn hheal horder hfits htotal
      have hpos := positive_of_most horder (fun _ hk => valueAt_pos hk) hturn.mem hturn.most
      obtain ⟨b,hb,hbheal⟩ := mem_places.mp hturn.mem
      have hmem := List.mem_of_getElem? hb
      have hle := hmost b hmem hbheal
      rw [hraised b hmem hbheal] at hle
      simp only [valueAt,hb,Option.elim_some] at hpos
      have hsum := weightedLoop_total s.backends 0 none (le_refl 0) (by omega)
      have hnon := healthySum_nonneg s.backends
      have hin := hall best (List.mem_of_getElem? hj) hbh
      rw [← hraised best (List.mem_of_getElem? hj) hbh] at hin
      generalize hloop : weightedLoop s.backends 0 none 0 = loop at hbest hsum hn
      obtain ⟨backends,top,total⟩ := loop
      simp only at hbest hsum
      subst hbest
      obtain rfl := List.mem_singleton.mp hn
      have hhigh := hin.2
      exact ⟨by omega,by omega⟩
    · rw [weightedLoop_unhealthy (by simpa using hheal)] at hn
      cases hn

theorem roomy_counted (s : ServiceState) (counts : Nat → Nat) : Roomy (s.counted counts) ↔ Roomy s := by
  rw [Roomy,Roomy,healthySum_effectiveWeight (counted_standing s counts),fits_counted]

theorem inOrder_next (hstr : s.strategy = .weightedRoundRobin) (horder : InOrder s.backends) (h : Roomy s)
    (config : Configuration) (o : Occasion) :
    (next config s o).strategy = .weightedRoundRobin ∧ InOrder (next config s o).backends := by
  by_cases hheal : ∃ b ∈ s.backends, b.healthy = true
  · obtain ⟨i,-,hstr',hstan,hturn⟩ := select_turn hstr hheal horder h.2 h.1 config o
    refine ⟨hstr',?_⟩
    rw [InOrder,places_standing hstan,weightAt_standing hstan]
    exact hturn.balanced horder (fun _ hi => valueAt_pos hi)
  · have hnone : healthyBackends (s.counted o.counts).backends = [] := by
      rw [healthyBackends,List.map_eq_nil_iff,List.filter_eq_nil_iff]
      intro b hb hbh
      obtain ⟨i,hi,heq⟩ := List.mem_mapIdx.mp (List.fst_mem_of_mem_zipIdx hb)
      rw [← heq] at hbh
      exact hheal ⟨s.backends[i],List.getElem_mem hi,hbh⟩
    rw [next,select,selectBackendLocked,if_pos hnone]
    exact ⟨hstr,counted_inOrder horder o.counts⟩

/-- From current weights zero, every value that the selections compute is one of an `int`
exactly when there is room for the sum of the weights and for the raised current weights
before every selection. -/
theorem selections_in_range_iff (config : Configuration) {s : ServiceState} (hstr : s.strategy = .weightedRoundRobin)
    (hzero : ∀ b ∈ s.backends, b.healthy = true → b.currentWeight = 0) (occasions : List Occasion) :
    Machine.Meets (next config) (fun s o => ∀ n ∈ selectionValues (s.counted o.counts).backends, InRange n) s occasions ↔
      Machine.Meets (next config) (fun s _ => Roomy s) s occasions := by
  refine @meets_congr _ _ _ (fun s => s.strategy = .weightedRoundRobin ∧ InOrder s.backends) _ _ (fun s o h => ?_)
    (fun s o h hvalues => ?_) _ ⟨hstr,balanced_zero (fun _ hi => valueAt_pos hi) (fun i hi => ?_)⟩ occasions
  · constructor
    · intro hvalues
      exact (roomy_counted s o.counts).mp (roomy_of_inRange hvalues)
    · intro hroom
      exact inRange_of_roomy (counted_inOrder h.2 o.counts) ((roomy_counted s o.counts).mpr hroom)
  · exact inOrder_next h.1 h.2 ((roomy_counted s o.counts).mp (roomy_of_inRange hvalues)) config o
  · obtain ⟨b,hb,hheal⟩ := mem_places.mp hi
    rw [valueAt,hb]
    exact hzero b (List.mem_of_getElem? hb) hheal

/-- Weights 5, 1 and 1. -/
theorem selections_in_range_five :
    Machine.Meets (next { hash := List.length })
      (fun s o => ∀ n ∈ selectionValues (s.counted o.counts).backends, InRange n) (weighted [5, 1, 1])
      (List.replicate 3 { counts := fun i => i }) :=
  (selections_in_range_iff { hash := List.length } rfl (by decide) _).mpr (by decide)

/-- The first selection among two backends, of which one has the largest weight that there is. -/
theorem weightSum_overflow :
    let m := Machine.runs (step { hash := List.length }) {}
      [.setLoadBalancingStrategy [1] .weightedRoundRobin,.addBackendServer [1] [2] 80 (2^31-1),
        .addBackendServer [1] [3] 80 1]
    (m.service [1]).map (fun s => selectionValues s.backends) = some [2^31-1,2^31-1,2^31,1,2^32-1] := by
  decide +kernel

theorem applied_success_iff {b : BackendServer} (hheal : b.healthy = true) (hfail : b.failureCount = 0)
    (failureThreshold : Nat) (now : Int) : applyBackendStatus true failureThreshold now b = b ↔ b.currentWeight = 0 := by
  cases b
  simp_all [applyBackendStatus,eq_comm]

/-- A report of success for a backend that is healthy and has no failures leaves its service as
it is exactly when its current weight is zero. Then all later selections choose as they would
have chosen without it. -/
theorem success_report_kept_iff (config : Configuration) {m : Impl} {name host : Bytes} {port : Nat} {s : ServiceState}
    {b : BackendServer} (hs : m.service name = some s)
    (hb : Keyed.find BackendServer.address (host, port) s.backends = some b) (hheal : b.healthy = true)
    (hfail : b.failureCount = 0) (now : Int) :
    ∃ s', (m.reportTo config name host port true now).service name = some s' ∧ (s' = s ↔ b.currentWeight = 0) ∧
      (b.currentWeight = 0 → ∀ occasions, Machine.outputs (next config) (picked config) s' occasions =
        Machine.outputs (next config) (picked config) s occasions) := by
  refine ⟨{ s with
    backends := Keyed.modifyFirst address (host,port) (applyBackendStatus true config.threshold now) s.backends },
    ?_,?_⟩
  · have hstill : (applyBackendStatus true config.threshold now b).healthy = true := rfl
    simp only [Impl.reportTo,hs,Option.bind_some,hb,hstill,Bool.not_true,Bool.and_false,Bool.false_eq_true,if_false]
    rw [Impl.service,Impl.modifyService,Keyed.find_modify,← Impl.service,hs,Option.map_some,if_pos rfl]
    exact fun _ => rfl
  · have hsame := Keyed.modifyFirst_eq_self_iff (f := applyBackendStatus true config.threshold now) hb
    rw [applied_success_iff hheal hfail] at hsame
    refine ⟨?_,fun hzero occasions => ?_⟩
    · rw [← hsame]
      exact ⟨fun heq => congrArg ServiceState.backends heq,fun heq => by rw [heq]⟩
    · rw [hsame.mpr hzero]

def twoBackends : List Call :=
  [.setLoadBalancingStrategy [1] .weightedRoundRobin,.addBackendServer [1] [2] 80 3,.addBackendServer [1] [3] 80 1]

theorem success_report_kept_new :
    let m := Machine.runs (step { hash := List.length }) {} twoBackends
    ∃ s', (m.reportTo { hash := List.length } [1] [2] 80 true 5).service [1] = some s' ∧
      m.service [1] = some s' := by
  obtain ⟨s',hs',hsame,-⟩ := success_report_kept_iff { hash := List.length }
    (show (Machine.runs (step { hash := List.length }) {} twoBackends).service [1] = some _ from rfl)
    (show Keyed.find BackendServer.address ([2],80) _ = some _ from rfl) rfl rfl 5
  rw [hsame.mpr rfl] at hs'
  exact ⟨_,hs',rfl⟩

/-- Without the report, the second connection goes to the second backend. -/
theorem success_report_disturbs :
    let run := Machine.runs (step { hash := List.length }) {}
    let acquire := Call.acquireConnection [1] [] 5 0
    (run (twoBackends ++ [acquire,acquire])).connections.map ConnectionInfo.remoteHost = [[2],[3]] ∧
      (run (twoBackends ++ [acquire,.reportServiceBackendStatus [1] [2] 80 true 5,acquire])).connections.map
        ConnectionInfo.remoteHost = [[2],[2]] := by
  decide +kernel

end FastNet.ConnectionManager
