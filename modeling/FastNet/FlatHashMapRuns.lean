import FastNet.FlatHashMapCalls

/-!
Runs of operations on maps, next to the same operations on finite maps.
-/

namespace FastNet.FlatHashMap

open Loop Places RobinHood List
open scoped List

variable {K V : Type}

/-- What a caller sees of a call: the pair that an iterator points to and whether it is new, a
value, a number, or nothing. -/
inductive Answer (K V : Type) where
  | entry : Option (K × V) → Bool → Answer K V
  | value : Option V → Answer K V
  | count : Nat → Answer K V
  | done : Answer K V
  deriving DecidableEq

/-- The calls on one map. `assign` is `map[key] = value`, and `eraseAt` is
`erase(find(key))`: the iterators that point to a pair are all found by its key. -/
inductive Call (K V : Type) where
  | emplace : K → V → Call K V
  | index : K → Call K V
  | assign : K → V → Call K V
  | find : K → Call K V
  | erase : K → Call K V
  | eraseAt : K → Call K V
  | reserve : Nat → Call K V
  | clear : Call K V

structure Done (K V : Type) where
  map : FlatHashMap K V
  answer : Answer K V
  lost : List (K × V)

section Operations

variable [DecidableEq K] [Inhabited V]

def Call.run (m : FlatHashMap K V) : Call K V → Outcome Empty (Done K V)
  | .emplace key value => (m.emplace key value).map (fun x =>
      { map := x.map, answer := .entry (x.slot.bind x.map.kv) x.inserted, lost := x.overflow })
  | .index key => (m.insertOrGet key).map (fun x =>
      { map := x.map, answer := .value ((x.slot.bind x.map.kv).map Prod.snd), lost := x.overflow })
  | .assign key value => (m.insertOrGet key).map (fun x =>
      { map := x.slot.elim x.map (fun slot => x.map.assignAt slot value), answer := .done, lost := x.overflow })
  | .find key => .ret { map := m, answer := .value (m.lookup key), lost := [] }
  | .erase key => (m.erase key).map (fun p => { map := p.1, answer := .count p.2, lost := [] })
  | .eraseAt key => (m.eraseAt ((m.findSlot key).getD m.capacity)).map (fun p =>
      { map := p.1, answer := .done, lost := [] })
  | .reserve n => (m.reserve n).map (fun p => { map := p.1, answer := .done, lost := p.2 })
  | .clear => .ret { map := m.clear, answer := .done, lost := [] }

def Call.apply (f : Finmap (fun _ : K => V)) : Call K V → Finmap (fun _ : K => V) × Answer K V
  | .emplace key value =>
    match f.lookup key with
    | some v => (f,.entry (some (key,v)) false)
    | none => (f.insert key value,.entry (some (key,value)) true)
  | .index key =>
    match f.lookup key with
    | some v => (f,.value (some v))
    | none => (f.insert key default,.value (some default))
  | .assign key value => (f.insert key value,.done)
  | .find key => (f,.value (f.lookup key))
  | .erase key => (f.erase key,.count (if key ∈ f then 1 else 0))
  | .eraseAt key => (f.erase key,.done)
  | .reserve _ => (f,.done)
  | .clear => (∅,.done)

inductive Op (K V : Type) where
  | call : Nat → Call K V → Op K V
  | construct : Nat → UInt64 → (K → UInt64) → Op K V
  | copyConstruct : Nat → Nat → Op K V
  | copy : Nat → Nat → Op K V
  | move : Nat → Nat → (K → UInt64) → Op K V

structure Store (K V : Type) where
  maps : Nat → FlatHashMap K V
  answers : List (Answer K V)
  lost : List (K × V)

def Store.set (s : Store K V) (i : Nat) (map : FlatHashMap K V) (lost : List (K × V)) : Store K V :=
  { s with maps := Function.update s.maps i map, lost := s.lost ++ lost }

def Op.step (s : Store K V) : Op K V → Outcome Empty (Store K V)
  | .call i c => (c.run (s.maps i)).map (fun d =>
      { s.set i d.map d.lost with answers := s.answers ++ [d.answer] })
  | .construct i initialCapacity hash => .ret (s.set i (FlatHashMap.construct initialCapacity hash) [])
  | .copyConstruct i j =>
    ((blank 0 (s.maps j).hash).copyFrom (s.maps j)).map (fun p => s.set i p.1 p.2)
  | .copy i j => if i = j then .ret s else ((s.maps i).copyFrom (s.maps j)).map (fun p => s.set i p.1 p.2)
  | .move i j left => if i = j then .ret s else .ret ((s.set i (s.maps j) []).set j (movedFrom left) [])

structure Model (K V : Type) where
  maps : Nat → Finmap (fun _ : K => V)
  answers : List (Answer K V)

def Op.apply (f : Model K V) : Op K V → Model K V
  | .call i c =>
    { maps := Function.update f.maps i (c.apply (f.maps i)).1, answers := f.answers ++ [(c.apply (f.maps i)).2] }
  | .construct i _ _ => { f with maps := Function.update f.maps i ∅ }
  | .copyConstruct i j => { f with maps := Function.update f.maps i (f.maps j) }
  | .copy i j => { f with maps := Function.update f.maps i (f.maps j) }
  | .move i j _ =>
    if i = j then f
    else { f with maps := Function.update (Function.update f.maps i (f.maps j)) j ∅ }

def runAll (s : Store K V) : List (Op K V) → Outcome Empty (Store K V)
  | [] => .ret s
  | op :: rest => (op.step s).bind (fun s' => runAll s' rest)

def applyAll (f : Model K V) (ops : List (Op K V)) : Model K V := ops.foldl Op.apply f

def startMaps (initialCapacity : Nat → UInt64) (hash : Nat → K → UInt64) : Store K V :=
  ⟨fun i => FlatHashMap.construct (initialCapacity i) (hash i), [], []⟩

def startModel : Model K V := ⟨fun _ => ∅, []⟩

end Operations

section Stores

variable {s : Store K V} {m : FlatHashMap K V} {lost : List (K × V)} {i : Nat}

def Store.Valid (s : Store K V) : Prop := ∀ i, FlatHashMap.Valid (s.maps i)

theorem Store.Valid.set (h : s.Valid) (hm : FlatHashMap.Valid m) : (s.set i m lost).Valid := by
  intro j
  by_cases hj : j = i
  · subst hj
    simpa [Store.set] using hm
  · simpa [Store.set,hj] using h j

theorem startMaps_valid (initialCapacity : Nat → UInt64) (hash : Nat → K → UInt64) :
    (startMaps initialCapacity hash : Store K V).Valid :=
  fun i => .construct (initialCapacity i) (hash i)

end Stores

section Refinement

variable {m m' : FlatHashMap K V} {f : Finmap (fun _ : K => V)} {key : K} {value : V} [DecidableEq K]

def Represents (m : FlatHashMap K V) (f : Finmap (fun _ : K => V)) : Prop :=
  ∀ key value, f.lookup key = some value ↔ (key,value) ∈ m.pairs

theorem Represents.empty (h : m.pairs = []) : Represents m ∅ := by
  intro key value
  simp [h,Finmap.lookup_empty]

section

variable (h : Represents m f)
include h

theorem Represents.of_perm (hperm : m'.pairs ~ m.pairs) : Represents m' f :=
  fun key value => (h key value).trans hperm.mem_iff.symm

theorem Represents.lookup_eq_none (habs : key ∉ m.keys) : f.lookup key = none := by
  by_contra hne
  obtain ⟨v,hv⟩ := Option.ne_none_iff_exists'.mp hne
  exact habs (mem_keys.mpr ⟨v,(h key v).mp hv⟩)

theorem Represents.insert (habs : key ∉ m.keys)
    (hperm : m'.pairs ~ (key,value) :: m.pairs) : Represents m' (f.insert key value) := by
  intro k v
  rw [hperm.mem_iff,mem_cons,← h k v]
  by_cases hk : k = key
  · subst hk
    rw [Finmap.lookup_insert,h.lookup_eq_none habs]
    simp [eq_comm]
  · rw [Finmap.lookup_insert_of_ne _ hk]
    simp [hk]

theorem Represents.erase (hnodup : m.keys.Nodup)
    (hperm : m.pairs ~ (key,value) :: m'.pairs) : Represents m' (f.erase key) := by
  have hkeys : (key :: m'.keys).Nodup := (hperm.map Prod.fst).nodup_iff.mp hnodup
  intro k v
  by_cases hk : k = key
  · subst hk
    rw [Finmap.lookup_erase]
    constructor
    · intro hnone
      cases hnone
    · intro hmem
      exact absurd (mem_keys.mpr ⟨v,hmem⟩) (nodup_cons.mp hkeys).1
  · rw [Finmap.lookup_erase_ne hk,h k v,hperm.mem_iff,mem_cons]
    simp [hk]

theorem Represents.erase_absent (habs : key ∉ m.keys) : Represents m (f.erase key) := by
  intro k v
  by_cases hk : k = key
  · subst hk
    rw [Finmap.lookup_erase,← h k v,h.lookup_eq_none habs]
  · rw [Finmap.lookup_erase_ne hk,h k v]

theorem Represents.assign (hvalid : Valid m) {slot : Nat} (hlt : slot < m.capacity) {v : V}
    (hkv : m.kv slot = some (key,v)) (value : V) : Represents (m.assignAt slot value) (f.insert key value) := by
  intro k w
  rw [mem_assignAt hvalid hlt hkv]
  by_cases hk : k = key
  · subst hk
    rw [Finmap.lookup_insert]
    simp [eq_comm]
  · rw [Finmap.lookup_insert_of_ne _ hk,h k w]
    simp [hk]

theorem Represents.lookup_eq (hvalid : Valid m) (key : K) : m.lookup key = f.lookup key := by
  apply Option.ext
  intro v
  rw [hvalid.lookup_eq_some_iff,h key v]

theorem Represents.size_eq (hvalid : Valid m) : m.size = f.keys.card := by
  have hkeys : m.keys.toFinset = f.keys := by
    ext key
    rw [mem_toFinset,mem_keys,Finmap.mem_keys,Finmap.mem_iff]
    exact exists_congr (fun v => (h key v).symm)
  rw [hvalid.size_eq,← hkeys,toFinset_card_of_nodup hvalid.nodup,keys,length_map]

end

theorem emplace_found (h : Valid m) {v : V} (hmem : (key,v) ∈ m.pairs) (value : V) : ∃ slot < m.capacity,
    m.kv slot = some (key,v) ∧
      m.emplace key value = .ret { map := m, slot := some slot, inserted := false, overflow := [] } := by
  obtain ⟨i,hi,hkv⟩ := RobinHood.Table.mem_entries.mp hmem
  exact ⟨i,hi,hkv,by rw [emplace,h.findSlot_eq_some_iff.mpr ⟨hi,v,hkv⟩]⟩

theorem Moved.represents {lost : List (K × V)} (h : Moved m m' lost) (hnil : lost = []) (hf : Represents m f) :
    Represents m' f := by
  have hperm := h.perm
  rw [hnil,nil_append] at hperm
  exact hf.of_perm hperm

def Store.Represents (s : Store K V) (f : Model K V) : Prop :=
  s.answers = f.answers ∧ ∀ i, FlatHashMap.Represents (s.maps i) (f.maps i)

variable {s : Store K V} {g : Model K V} {lost : List (K × V)} {i : Nat}

theorem Store.Represents.set (h : s.Represents g) (hf : FlatHashMap.Represents m f) :
    (s.set i m lost).Represents { g with maps := Function.update g.maps i f } := by
  refine ⟨h.1,fun j => ?_⟩
  by_cases hj : j = i
  · subst hj
    simpa [Store.set] using hf
  · simpa [Store.set,hj] using h.2 j

theorem startMaps_represents (initialCapacity : Nat → UInt64) (hash : Nat → K → UInt64) :
    (startMaps initialCapacity hash : Store K V).Represents startModel :=
  ⟨rfl,fun _ => .empty (blank_pairs _ _)⟩

variable [Inhabited V]

/-- What a call owes: it comes back, the map is valid, and unless a pair is dropped the
finite map goes the same way. -/
def Refines (m : FlatHashMap K V) (c : Call K V) : Prop :=
  ∃ d, c.run m = .ret d ∧ Valid d.map ∧
    (d.lost = [] → ∀ f, Represents m f → d.answer = (c.apply f).2 ∧ Represents d.map (c.apply f).1)

section

variable (h : Valid m)
include h

theorem refines_emplace : Refines m (.emplace key value) := by
  rcases mem_or_absent m key with ⟨v,hmem⟩ | habs
  · obtain ⟨slot,-,hkv,hret⟩ := emplace_found h hmem value
    refine ⟨_,by rw [Call.run,hret]; rfl,h,fun _ f hf => ?_⟩
    simp [Call.apply,(hf key v).mpr hmem,hkv,hf]
  · obtain ⟨x,hret,hadded⟩ := emplace_absent h habs value
    refine ⟨_,by rw [Call.run,hret]; rfl,hadded.valid,fun hnil f hf => ?_⟩
    simp only at hnil
    obtain ⟨slot,-,hslot,hkv⟩ := hadded.slot_eq hnil
    have hperm := hadded.perm
    rw [hnil,nil_append] at hperm
    simp [Call.apply,hf.lookup_eq_none habs,hslot,hkv,hadded.inserted,hf.insert habs hperm]

theorem refines_index : Refines m (.index key) := by
  rcases mem_or_absent m key with ⟨v,hmem⟩ | habs
  · obtain ⟨slot,-,hkv,hret⟩ := emplace_found h hmem default
    refine ⟨_,by rw [Call.run,insertOrGet,hret]; rfl,h,fun _ f hf => ?_⟩
    simp [Call.apply,(hf key v).mpr hmem,hkv,hf]
  · obtain ⟨x,hret,hadded⟩ := emplace_absent h habs default
    refine ⟨_,by rw [Call.run,insertOrGet,hret]; rfl,hadded.valid,fun hnil f hf => ?_⟩
    simp only at hnil
    obtain ⟨slot,-,hslot,hkv⟩ := hadded.slot_eq hnil
    have hperm := hadded.perm
    rw [hnil,nil_append] at hperm
    simp [Call.apply,hf.lookup_eq_none habs,hslot,hkv,hf.insert habs hperm]

theorem refines_assign : Refines m (.assign key value) := by
  rcases mem_or_absent m key with ⟨v,hmem⟩ | habs
  · obtain ⟨slot,hlt,hkv,hret⟩ := emplace_found h hmem default
    refine ⟨_,by rw [Call.run,insertOrGet,hret]; rfl,h.assignAt slot value,fun _ f hf => ?_⟩
    exact ⟨rfl,hf.assign h hlt hkv value⟩
  · obtain ⟨x,hret,hadded⟩ := emplace_absent h habs default
    refine ⟨_,by rw [Call.run,insertOrGet,hret]; rfl,?_,fun hnil f hf => ⟨rfl,?_⟩⟩
    · cases hslot : x.slot with
      | none => simpa [hslot] using hadded.valid
      | some slot => simpa [hslot] using hadded.valid.assignAt slot value
    · simp only at hnil
      obtain ⟨slot,hlt,hslot,hkv⟩ := hadded.slot_eq hnil
      have hperm := hadded.perm
      rw [hnil,nil_append] at hperm
      have hass := (hf.insert habs hperm).assign hadded.valid hlt hkv value
      rw [Finmap.insert_insert] at hass
      simpa [hslot,Call.apply] using hass

theorem refines_erase : Refines m (.erase key) := by
  rcases mem_or_absent m key with ⟨v,hmem⟩ | habs
  · obtain ⟨m',hret,hvalid,hperm⟩ := erase_present h hmem
    refine ⟨_,by rw [Call.run,hret]; rfl,hvalid,fun _ f hf => ⟨?_,hf.erase h.nodup hperm⟩⟩
    have hin : key ∈ f := Finmap.mem_iff.mpr ⟨v,(hf key v).mpr hmem⟩
    simp [Call.apply,hin]
  · refine ⟨_,by rw [Call.run,(erase_absent h habs).1]; rfl,h,fun _ f hf => ?_⟩
    have hout : key ∉ f := Finmap.lookup_eq_none.mp (hf.lookup_eq_none habs)
    exact ⟨by simp [Call.apply,hout],hf.erase_absent habs⟩

theorem refines_eraseAt : Refines m (.eraseAt key) := by
  rcases mem_or_absent m key with ⟨v,hmem⟩ | habs
  · obtain ⟨m',next,hret,hvalid,hperm⟩ := eraseAt_present h hmem
    exact ⟨_,by rw [Call.run,hret]; rfl,hvalid,fun _ f hf => ⟨rfl,hf.erase h.nodup hperm⟩⟩
  · exact ⟨_,by rw [Call.run,(erase_absent h habs).2]; rfl,h,fun _ f hf => ⟨rfl,hf.erase_absent habs⟩⟩

theorem call_refines (c : Call K V) : Refines m c := by
  cases c with
  | emplace key value => exact refines_emplace h
  | index key => exact refines_index h
  | assign key value => exact refines_assign h
  | find key => exact ⟨_,rfl,h,fun _ f hf => ⟨by rw [hf.lookup_eq h]; rfl,hf⟩⟩
  | erase key => exact refines_erase h
  | eraseAt key => exact refines_eraseAt h
  | reserve n =>
    obtain ⟨m',lost,hret,hmoved⟩ := reserve_spec h n
    exact ⟨_,by rw [Call.run,hret]; rfl,hmoved.valid,fun hnil f hf => ⟨rfl,hmoved.represents hnil hf⟩⟩
  | clear =>
    obtain ⟨hvalid,hpairs⟩ := cleared_valid h m.hash
    exact ⟨_,rfl,hvalid,fun _ f _ => ⟨rfl,.empty hpairs⟩⟩

end

def StepRefines (s : Store K V) (op : Op K V) : Prop :=
  ∃ s', op.step s = .ret s' ∧ s'.Valid ∧ ∃ dropped, s'.lost = s.lost ++ dropped ∧
    (dropped = [] → ∀ g, s.Represents g → s'.Represents (op.apply g))

theorem step_refines (h : s.Valid) (op : Op K V) : StepRefines s op := by
  cases op with
  | call i c =>
    obtain ⟨d,hret,hvalid,href⟩ := call_refines (h i) c
    refine ⟨{ s.set i d.map d.lost with answers := s.answers ++ [d.answer] },by rw [Op.step,hret]; rfl,
      show (s.set i d.map d.lost).Valid from h.set hvalid,d.lost,rfl,fun hnil g hg => ?_⟩
    obtain ⟨hans,hrep⟩ := href hnil _ (hg.2 i)
    have hmaps : (s.set i d.map d.lost).Represents _ := hg.set hrep
    refine ⟨?_,hmaps.2⟩
    simp only [Op.apply,hans,hg.1]
  | construct i n hash =>
    have hvalid : FlatHashMap.Valid (FlatHashMap.construct n hash : FlatHashMap K V) := .construct n hash
    exact ⟨_,rfl,h.set hvalid,[],rfl,fun _ g hg => hg.set (.empty (blank_pairs _ _))⟩
  | copyConstruct i j =>
    obtain ⟨m',lost,hret,hmoved⟩ := copyFrom_spec (m := blank 0 (s.maps j).hash)
      (.blank _ (fun hne => absurd rfl hne)) (h j)
    exact ⟨_,by rw [Op.step,hret]; rfl,h.set hmoved.valid,lost,rfl,
      fun hnil g hg => hg.set (hmoved.represents hnil (hg.2 j))⟩
  | copy i j =>
    by_cases hij : i = j
    · refine ⟨s,by rw [Op.step,if_pos hij],h,[],by simp,fun _ g hg => ?_⟩
      rw [Op.apply,hij,Function.update_eq_self]
      exact hg
    · obtain ⟨m',lost,hret,hmoved⟩ := copyFrom_spec (h i) (h j)
      exact ⟨_,by rw [Op.step,if_neg hij,hret]; rfl,h.set hmoved.valid,lost,rfl,
        fun hnil g hg => hg.set (hmoved.represents hnil (hg.2 j))⟩
  | move i j left =>
    by_cases hij : i = j
    · refine ⟨s,by rw [Op.step,if_pos hij],h,[],by simp,fun _ g hg => ?_⟩
      rw [Op.apply,if_pos hij]
      exact hg
    · refine ⟨(s.set i (s.maps j) []).set j (movedFrom left) [],by rw [Op.step,if_neg hij],
        (h.set (h j)).set (.blank left (fun hne => absurd rfl hne)),[],by simp [Store.set],fun _ g hg => ?_⟩
      rw [Op.apply,if_neg hij]
      exact (hg.set (hg.2 j)).set (.empty (blank_pairs 0 left))

theorem runAll_refines (h : s.Valid) (ops : List (Op K V)) :
    ∃ s', runAll s ops = .ret s' ∧ s'.Valid ∧ ∃ dropped, s'.lost = s.lost ++ dropped ∧
      (dropped = [] → ∀ g, s.Represents g → s'.Represents (applyAll g ops)) := by
  induction ops generalizing s with
  | nil => exact ⟨s,rfl,h,[],by simp,fun _ g hg => hg⟩
  | cons op rest ih =>
    obtain ⟨s₁,hstep,hvalid₁,dropped₁,hlost₁,hrefines₁⟩ := step_refines h op
    obtain ⟨s₂,hrun,hvalid₂,dropped₂,hlost₂,hrefines₂⟩ := ih hvalid₁
    refine ⟨s₂,by rw [runAll,hstep]; exact hrun,hvalid₂,dropped₁ ++ dropped₂,?_,fun hnil g hg => ?_⟩
    · rw [hlost₂,hlost₁,append_assoc]
    · obtain ⟨hnil₁,hnil₂⟩ := append_eq_nil_iff.mp hnil
      exact hrefines₂ hnil₂ _ (hrefines₁ hnil₁ g hg)

/-- The maps of a program in which no pair is dropped are finite maps. -/
theorem run_refines_finite_maps (initialCapacity : Nat → UInt64) (hash : Nat → K → UInt64) (ops : List (Op K V)) :
    ∃ s, runAll (startMaps initialCapacity hash) ops = .ret s ∧ (s.lost = [] →
      s.answers = (applyAll startModel ops).answers ∧
      ∀ i m f, m = s.maps i → f = (applyAll startModel ops).maps i →
        (∀ key, m.lookup key = f.lookup key) ∧ m.size = f.keys.card ∧
        (∃ es : List (K × V), m.iteration = es.map some ∧ (es.map Prod.fst).Nodup ∧
          ∀ e, e ∈ es ↔ f.lookup e.1 = some e.2) ∧
        ∀ slot < m.capacity, m.psl slot ≠ kEmpty →
          (∃ e, m.kv slot = some e ∧ m.psl slot = gap m.capacity (m.hashOf e.1 % m.capacity) slot+1) ∧
          m.psl slot ≤ m.psl (back m.capacity 1 slot)+1) := by
  obtain ⟨s,hrun,hvalid,dropped,hlost,href⟩ := runAll_refines (startMaps_valid initialCapacity hash) ops
  refine ⟨s,hrun,fun hnil => ?_⟩
  rw [hnil] at hlost
  obtain ⟨hans,hmaps⟩ := href (List.append_eq_nil_iff.mp hlost.symm).2 _
    (startMaps_represents initialCapacity hash)
  refine ⟨hans,fun i m f hm hf => ?_⟩
  have hv : FlatHashMap.Valid m := hm ▸ hvalid i
  have hr : FlatHashMap.Represents m f := hm ▸ hf ▸ hmaps i
  exact ⟨hr.lookup_eq hv,hr.size_eq hv,⟨m.pairs,iteration_valid hv,hv.nodup,fun e => (hr e.1 e.2).symm⟩,
    fun slot hlt hocc => hv.distances hlt hocc⟩

end Refinement

section Insertions

variable [DecidableEq K] {m : FlatHashMap K V} {key : K} {value : V}

/-- What an insertion of a new key should come to: a position that holds the new pair, one
more in the size, and every key that was there with its value. -/
def Keeps (m : FlatHashMap K V) (key : K) (value : V) (o : Outcome Empty (Emplaced K V)) : Prop :=
  ∃ x, o = .ret x ∧
    (∃ slot < x.map.capacity, x.slot = some slot ∧ x.map.psl slot ≠ kEmpty ∧
      x.map.kv slot = some (key,value)) ∧
    x.map.size = m.size+1 ∧ ∀ k v, m.lookup k = some v → x.map.lookup k = some v

theorem Added.keeps {x : Emplaced K V} (h : Valid m) (hadded : Added m key value x) (hnil : x.overflow = []) :
    Keeps m key value (.ret x) := by
  obtain ⟨slot,hlt,hslot,hkv⟩ := hadded.slot_eq hnil
  have hperm := hadded.perm
  rw [hnil,nil_append] at hperm
  have hocc := (hadded.valid.stands (by omega)).sound.psl_ne_zero hlt hkv
  refine ⟨x,rfl,⟨slot,hlt,hslot,hocc,hkv⟩,?_,fun k v hlook => ?_⟩
  · rw [hadded.valid.size_eq,hperm.length_eq,h.size_eq,length_cons]
  · rw [h.lookup_eq_some_iff] at hlook
    rw [hadded.valid.lookup_eq_some_iff,hperm.mem_iff]
    exact mem_cons_of_mem _ hlook

theorem keeps_of_fits (h : Valid m) (habs : key ∉ m.keys) (hfits : Fits m key) :
    Keeps m key value (m.emplace key value) := by
  obtain ⟨x,hret,hadded⟩ := emplace_absent h habs value
  rw [hret]
  exact hadded.keeps h (hadded.fits hfits)

theorem fits_of_keeps (h : Valid m) (habs : key ∉ m.keys) (hkeeps : Keeps m key value (m.emplace key value)) :
    Fits m key := by
  obtain ⟨x,hret,hadded⟩ := emplace_absent h habs value
  obtain ⟨x',hret',⟨slot,hlt,-,-,hkv⟩,-,hkept⟩ := hkeeps
  rw [hret] at hret'
  cases hret'
  have hsub : (key :: m.keys).Subperm x.map.keys := by
    refine subperm_of_subset (nodup_cons.mpr ⟨habs,h.nodup⟩) (fun k hk => ?_)
    rcases mem_cons.mp hk with rfl | hold
    · exact mem_keys.mpr ⟨value,RobinHood.Table.mem_entries.mpr ⟨slot,hlt,hkv⟩⟩
    · obtain ⟨v,hmem⟩ := mem_keys.mp hold
      have hlook := hkept k v (h.lookup_eq_some_iff.mpr hmem)
      exact mem_keys.mpr ⟨v,hadded.valid.lookup_eq_some_iff.mp hlook⟩
  have hstan := hadded.valid.stands (by omega)
  intro a ha l _
  have hhome : (fun k => m.hashOf k % m.grownCapacity) = x.map.home := by
    rw [hadded.valid.home_eq (by omega),hadded.capacity_eq,hashOf_congr hadded.hash_eq]
  have hload := hstan.sound.load_le (l := l) hstan.home_lt (show a < x.map.capacity by
    rw [hadded.capacity_eq]
    exact ha)
  have hcount := hsub.countP_le (fun k => decide (gap m.grownCapacity a (x.map.home k) < l))
  rw [hhome]
  rw [hadded.capacity_eq] at hload
  calc load m.grownCapacity x.map.home (key :: m.keys) a l ≤ load m.grownCapacity x.map.home x.map.keys a l := hcount
    _ ≤ l+(longest-1) := by
      rw [keys,pairs,hadded.capacity_eq]
      exact hload
    _ < l+longest := by
      unfold longest
      omega

/-- After any operations, an insertion of a new key does what it should exactly when the
keys fit in the table. -/
theorem insertion_keeps_iff_fits [Inhabited V] (initialCapacity : Nat → UInt64) (hash : Nat → K → UInt64)
    (ops : List (Op K V)) (s : Store K V) (hrun : runAll (startMaps initialCapacity hash) ops = .ret s) (i : Nat)
    (key : K) (habsent : (s.maps i).lookup key = none) :
    (∀ value, Keeps (s.maps i) key value ((s.maps i).emplace key value) ↔ Fits (s.maps i) key) ∧
      (Keeps (s.maps i) key default ((s.maps i).insertOrGet key) ↔ Fits (s.maps i) key) := by
  obtain ⟨s',hrun',hvalid,-⟩ := runAll_refines (startMaps_valid initialCapacity hash) ops
  rw [hrun] at hrun'
  cases hrun'
  have hkey : key ∉ (s.maps i).keys := by
    rw [mem_keys]
    rintro ⟨v,hmem⟩
    rw [(hvalid i).lookup_eq_some_iff.mpr hmem] at habsent
    cases habsent
  exact ⟨fun value => ⟨fits_of_keeps (hvalid i) hkey,keeps_of_fits (hvalid i) hkey⟩,
    fits_of_keeps (hvalid i) hkey,keeps_of_fits (hvalid i) hkey⟩

theorem insertion_keeps_first :
    runAll (startMaps (fun _ => 16) (fun _ _ => 0) : Store Nat Unit) [] = .ret (startMaps (fun _ => 16) (fun _ _ => 0)) ∧
      Keeps (construct 16 (fun _ => 0)) 7 () ((construct 16 (fun _ => 0)).emplace 7 ()) := by
  have hlook : (construct 16 (fun _ => 0) : FlatHashMap Nat Unit).lookup 7 = none := by
    have hvalid : Valid (construct 16 (fun _ => 0) : FlatHashMap Nat Unit) := .construct _ _
    rw [lookup,hvalid.findSlot_eq_none_iff.mpr (by simp [keys,construct]),Option.bind_none]
  exact ⟨rfl,((insertion_keeps_iff_fits (fun _ => 16) (fun _ _ => 0) [] _ rfl 0 7 hlook).1 ()).mpr
    (fits_of_few (by simp [keys,construct,startMaps,longest]))⟩

end Insertions

section Collisions

/-- The keys below `n` are inserted into one map. -/
def fill (n : Nat) : List (Op Nat Unit) := (range n).map (fun key => .call 0 (.emplace key ()))

theorem runAll_append [DecidableEq K] [Inhabited V] {s s' : Store K V} {ops : List (Op K V)}
    (h : runAll s ops = .ret s') (op : Op K V) : runAll s (ops ++ [op]) = op.step s' := by
  induction ops generalizing s with
  | nil =>
    cases h
    cases hstep : op.step s' <;> simp [runAll,hstep,Outcome.bind]
  | cons first rest ih =>
    rw [runAll,Outcome.bind_eq_ret_iff] at h
    obtain ⟨s₁,hstep,hrest⟩ := h
    rw [cons_append,runAll,hstep,Outcome.bind_ret,ih hrest]

theorem fill_keys {n : Nat} (hn : n ≤ longest) :
    ∃ s, runAll (startMaps (fun _ => 16) (fun _ _ => 0)) (fill n) = .ret s ∧ Valid (s.maps 0) ∧
      (s.maps 0).hash = (fun _ => 0) ∧ (s.maps 0).keys ~ range n := by
  induction n with
  | zero => exact ⟨_,rfl,.construct _ _,rfl,by simp [keys,startMaps,construct]⟩
  | succ n ih =>
    obtain ⟨s,hrun,hvalid,hhash,hkeys⟩ := ih (by omega)
    have habs : n ∉ (s.maps 0).keys := by
      rw [hkeys.mem_iff,mem_range]
      omega
    obtain ⟨x,hret,hadded⟩ := emplace_absent hvalid habs ()
    have hnil := hadded.fits (fits_of_few (by rw [hkeys.length_eq,length_range]; omega))
    have hperm := hadded.perm
    rw [hnil,nil_append] at hperm
    refine ⟨{ s.set 0 x.map x.overflow with answers := s.answers ++ [.entry (x.slot.bind x.map.kv) x.inserted] },
      ?_,hadded.valid,hadded.hash_eq.trans hhash,?_⟩
    · rw [fill,range_succ,map_append,← fill,map_singleton,runAll_append hrun,Op.step,Call.run,hret]
      rfl
    · calc x.map.keys ~ n :: (s.maps 0).keys := hperm.map Prod.fst
        _ ~ n :: range n := hkeys.cons n
        _ ~ range (n+1) := by
          rw [range_succ]
          exact (perm_append_singleton n _).symm

/-- The 255th key of one hash value is not taken in, though `emplace` says so. -/
theorem insertion_drops_pair :
    ∃ s x, runAll (startMaps (fun _ => 16) (fun _ _ => 0)) (fill 254) = .ret s ∧ (s.maps 0).lookup 254 = none ∧
      (s.maps 0).size = 254 ∧ (s.maps 0).emplace 254 () = .ret x ∧ x.inserted = true ∧ x.map.size ≤ 254 ∧
      ¬ Keeps (s.maps 0) 254 () ((s.maps 0).emplace 254 ()) := by
  obtain ⟨s,hrun,hvalid,hhash,hkeys⟩ := fill_keys (n := 254) (by decide)
  have hlen : (s.maps 0).keys.length = 254 := by rw [hkeys.length_eq,List.length_range]
  have hsize : (s.maps 0).size = 254 := by
    rw [hvalid.size_eq,← hlen,keys,List.length_map]
  have habs : 254 ∉ (s.maps 0).keys := by
    rw [hkeys.mem_iff,List.mem_range]
    omega
  have hfits : ¬ Fits (s.maps 0) 254 :=
    not_fits_of_constant (by simp [hhash]) (by rw [hlen]; decide) hvalid
  have hkeeps : ¬ Keeps (s.maps 0) 254 () ((s.maps 0).emplace 254 ()) :=
    fun h => hfits (fits_of_keeps hvalid habs h)
  obtain ⟨x,hret,hadded⟩ := emplace_absent hvalid habs ()
  refine ⟨s,x,hrun,?_,hsize,hret,hadded.inserted,?_,hkeeps⟩
  · rw [lookup,hvalid.findSlot_eq_none_iff.mpr habs,Option.bind_none]
  · have hlost : x.overflow ≠ [] := by
      intro hnil
      rw [hret] at hkeeps
      exact hkeeps (hadded.keeps hvalid hnil)
    have hperm := hadded.perm.length_eq
    have hpos := List.length_pos_iff.mpr hlost
    rw [List.length_append,List.length_cons,← hadded.valid.size_eq,← hvalid.size_eq] at hperm
    omega

end Collisions

end FastNet.FlatHashMap
