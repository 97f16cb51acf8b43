import FastNet.Chained
import FastNet.Threads

/-!
`MpscQueue`: any number of producers push, one consumer pops and drains, and the steps of
all of them come in any order.
-/

namespace FastNet.MpscQueue

open Machine Multiset Function

variable {T : Type}

/-- A node. It has no value when it was made as the stub, or when its value has been moved
out of it. -/
structure Node (T : Type) where
  next : Option Nat := none
  value : Option T := none

inductive Call where
  | tryPop
  | drainAll
  | drainUpTo (maxItems : Nat)
  deriving DecidableEq, Repr

/-- What the consumer does next: it loads the link of its tail, it moves the value out of
the node that it has found, or it gives the node back that was the tail before. -/
inductive Stage where
  | load
  | take (next : Nat)
  | recycle (old : Nat)
  deriving DecidableEq, Repr

structure Consumer where
  call : Call
  tail : Nat
  n : Nat := 0
  stage : Stage := .load
  deriving DecidableEq, Repr

/-- The queue. `heap` has the nodes that have been allocated and not been deleted; `fault`
tells that another one was accessed. `pushed` are the values in the order in which the
producers exchanged the head, `consumed` those that were handed to the consumer, `returned`
the numbers that its calls returned (one for a `tryPop` that found a value). -/
structure Queue (T : Type) where
  heap : Nat → Option (Node T)
  head : Nat
  tail : Nat
  consumer : Option Consumer := none
  pushed : List T := []
  consumed : List T := []
  returned : List Nat := []
  fault : Bool := false

def Queue.make (stub : Nat) : Queue T where
  heap := update (fun _ => none) stub (some {})
  head := stub
  tail := stub

/-! ### Producers -/

inductive Move (T : Type) where
  | create (value : T)
  | exchange (node : Nat) (value : T)
  | link (prev node : Nat)

/-- The call of `push`. -/
def push (value : T) : List (Move T) := [.create value]

/-- One step of `push`. The allocator offers the address `addr`, which is never that of a
node that is in use. -/
def produce (q : Queue T) (addr : Nat) : Move T → Queue T × List (Move T)
  | .create value =>
    match q.heap addr with
    | none =>
      ({ q with heap := update q.heap addr (some { value := some value }) },
        [.exchange addr value])
    | some _ => (q,[.create value])
  | .exchange node value =>
    ({ q with head := node, pushed := q.pushed ++ [value] },[.link q.head node])
  | .link prev node =>
    match q.heap prev with
    | some n =>
      ({ q with heap := update q.heap prev (some { n with next := some node }) },[])
    | none => ({ q with fault := true },[])

/-! ### The consumer -/

def enter (q : Queue T) (call : Call) : Queue T :=
  match q.consumer with
  | none => { q with consumer := some { call, tail := q.tail } }
  | some _ => q

/-- The end of a call. `tryPop` has stored its tail already. -/
def leave (q : Queue T) (c : Consumer) : Queue T where
  heap := q.heap
  head := q.head
  tail := if c.call = .tryPop then q.tail else c.tail
  consumer := none
  pushed := q.pushed
  consumed := q.consumed
  returned := q.returned ++ [c.n]
  fault := q.fault

/-- `drainUpTo` looks for another node only below its limit. -/
def atLimit (c : Consumer) : Bool :=
  match c.call with
  | .drainUpTo maxItems => decide (maxItems ≤ c.n)
  | _ => false

def consume (q : Queue T) : Queue T :=
  match q.consumer with
  | none => q
  | some c =>
    match c.stage with
    | .load =>
      if atLimit c then leave q c
      else
        match q.heap c.tail with
        | none => { q with fault := true }
        | some node =>
          match node.next with
          | none => leave q c
          | some next => { q with consumer := some { c with stage := .take next } }
    | .take next =>
      match q.heap next with
      | some ⟨link,some value⟩ =>
        { q with
          heap := update q.heap next (some ⟨link,none⟩)
          consumed := q.consumed ++ [value]
          tail := if c.call = .tryPop then next else q.tail
          consumer := some { c with tail := next, n := c.n+1, stage := .recycle c.tail } }
      | _ => { q with fault := true }
    | .recycle old =>
      match q.heap old with
      | none => { q with fault := true }
      | some _ =>
        let q := { q with heap := update q.heap old none }
        if c.call = .tryPop then leave q c
        else { q with consumer := some { c with stage := .load } }

/-! ### The system -/

inductive Event (T : Type) where
  | producer (e : Threads.Event T Nat)
  | enter (call : Call)
  | consume

/-- The queue with its producers. -/
abbrev System (T : Type) := Threads.Pool (Queue T) (Move T)

def step (p : System T) : Event T → System T
  | .producer e => Threads.step push produce p e
  | .enter call => { p with shared := enter p.shared call }
  | .consume => { p with shared := consume p.shared }

def init (T : Type) (stub : Nat) : System T := { shared := Queue.make stub }

/-! ### The chain of nodes -/

def owned (pending : Multiset (Move T)) : Multiset Nat :=
  pending.filterMap fun
    | .exchange node _ => some node
    | _ => none

def links (pending : Multiset (Move T)) : Multiset (Nat × Nat) :=
  pending.filterMap fun
    | .link prev node => some (prev,node)
    | _ => none

variable {p : System T}

section Pending

variable (others : Multiset (Move T))

@[simp] theorem owned_create (value : T) : owned (.create value ::ₘ others) = owned others :=
  filterMap_cons_none _ _ rfl

@[simp] theorem owned_exchange (node : Nat) (value : T) :
    owned (.exchange node value ::ₘ others) = node ::ₘ owned others :=
  filterMap_cons_some _ _ _ rfl

@[simp] theorem owned_link (prev node : Nat) : owned (.link prev node ::ₘ others) = owned others :=
  filterMap_cons_none _ _ rfl

@[simp] theorem links_create (value : T) : links (.create value ::ₘ others) = links others :=
  filterMap_cons_none _ _ rfl

@[simp] theorem links_exchange (node : Nat) (value : T) :
    links (.exchange node value ::ₘ others) = links others :=
  filterMap_cons_none _ _ rfl

@[simp] theorem links_link (prev node : Nat) :
    links (.link prev node ::ₘ others) = (prev,node) ::ₘ links others :=
  filterMap_cons_some _ _ _ rfl

theorem mem_links {pending : Multiset (Move T)} {prev node : Nat} :
    (prev,node) ∈ links pending ↔ .link prev node ∈ pending := by
  rw [links,mem_filterMap]
  constructor
  · rintro ⟨m,hm,heq⟩
    cases m with
    | create value => cases heq
    | exchange node value => cases heq
    | link prev node =>
      cases heq
      exact hm
  · exact fun h => ⟨_,h,rfl⟩

theorem mem_owned {pending : Multiset (Move T)} {node : Nat} {value : T}
    (h : .exchange node value ∈ pending) : node ∈ owned pending := by
  rw [owned,mem_filterMap]
  exact ⟨_,h,rfl⟩

end Pending

namespace Queue

def nextOf (q : Queue T) (addr : Nat) : Option Nat := (q.heap addr).bind Node.next

def valueOf (q : Queue T) (addr : Nat) : Option T := (q.heap addr).bind Node.value

def cursor (q : Queue T) : Nat := q.consumer.elim q.tail Consumer.tail

theorem cursor_of {q : Queue T} {c : Consumer} (h : q.consumer = some c) : q.cursor = c.tail := by
  simp [cursor,h]

def retired (q : Queue T) : Multiset Nat :=
  match q.consumer.map Consumer.stage with
  | some (.recycle old) => {old}
  | _ => 0

end Queue

open Chained in
/-- The nodes from the tail to the head. Neighbours are linked, or a producer is about to
link them. -/
structure Chain (q : Queue T) (pending : Multiset (Move T)) (chain : List Nat) : Prop where
  first : chain.head? = some q.cursor
  last : chain.getLast? = some q.head
  nodup : ((chain : Multiset Nat)+owned pending+q.retired).Nodup
  allocated : ∀ a ∈ (chain : Multiset Nat)+owned pending+q.retired, q.heap a ≠ none
  fresh : ∀ a v, Move.exchange a v ∈ pending → q.heap a = some { value := some v }
  missing : links pending = ((steps chain).filter (fun e => q.nextOf e.1 = none) : List (Nat × Nat))
  linked : ∀ e ∈ steps chain, q.nextOf e.1 = none ∨ q.nextOf e.1 = some e.2
  ended : q.nextOf q.head = none
  values : q.pushed.map some = q.consumed.map some ++ chain.tail.map q.valueOf
  taking : ∀ c next, q.consumer = some c → c.stage = .take next → q.nextOf c.tail = some next
  popping : ∀ c, q.consumer = some c → c.call = .tryPop → q.tail = c.tail
  sound : q.fault = false

theorem chain_make (stub : Nat) : Chain (Queue.make stub : Queue T) 0 [stub] where
  first := rfl
  last := rfl
  nodup := by simp [owned,Queue.retired,Queue.make]
  allocated := by simp [owned,Queue.retired,Queue.make]
  fresh := by simp
  missing := rfl
  linked := by simp
  ended := by simp [Queue.nextOf,Queue.make]
  values := rfl
  taking := by simp [Queue.make]
  popping := by simp [Queue.make]
  sound := rfl

namespace Chain

variable {q : Queue T} {pending others : Multiset (Move T)} {chain : List Nat}
  {value : T} {node next : Nat} {c : Consumer}

theorem mem_of_chain {a : Nat} (h : a ∈ chain) :
    a ∈ (chain : Multiset Nat)+owned pending+q.retired := by
  simp [h]

section

variable (h : Chain q pending chain)
include h

theorem nodup_chain : chain.Nodup := by
  have hnodup := h.nodup
  rw [nodup_add,nodup_add] at hnodup
  exact coe_nodup.mp hnodup.1.1

theorem not_owned {a : Nat} (ha : a ∈ chain) : a ∉ owned pending := by
  have hnodup := h.nodup
  rw [nodup_add,nodup_add] at hnodup
  exact fun hmem => disjoint_left.mp hnodup.1.2.2 (mem_coe.mpr ha) hmem

theorem cursor_mem : q.cursor ∈ chain := List.mem_of_mem_head? h.first

theorem of_heap {heap : Nat → Option (Node T)}
    (hsame : ∀ a ∈ (chain : Multiset Nat)+owned pending+q.retired, heap a = q.heap a) :
    Chain { q with heap } pending chain := by
  have hchain (a : Nat) (ha : a ∈ chain) : heap a = q.heap a := hsame a (mem_of_chain ha)
  have hnext (a : Nat) (ha : a ∈ chain) : Queue.nextOf { q with heap } a = q.nextOf a := by
    simp only [Queue.nextOf,hchain a ha]
  have hhead : q.head ∈ chain := List.mem_of_mem_getLast? h.last
  refine ⟨h.first,h.last,h.nodup,?_,?_,?_,?_,?_,?_,?_,h.popping,h.sound⟩
  · intro a ha
    rw [show Queue.heap { q with heap } a = heap a from rfl,hsame a ha]
    exact h.allocated a ha
  · intro a v hm
    rw [show Queue.heap { q with heap } a = heap a from rfl,hsame a (by simp [mem_owned hm])]
    exact h.fresh a v hm
  · rw [h.missing]
    refine congrArg _ (List.filter_congr fun e he => ?_)
    rw [hnext _ (Chained.fst_mem_of_steps he)]
  · intro e he
    rw [hnext _ (Chained.fst_mem_of_steps he)]
    exact h.linked e he
  · exact (hnext _ hhead).trans h.ended
  · rw [h.values]
    refine congrArg _ (List.map_congr_left fun a ha => ?_)
    simp only [Queue.valueOf,hchain a (List.mem_of_mem_tail ha)]
  · intro c next hc hstage
    have hcur : q.cursor = c.tail := Queue.cursor_of hc
    rw [hnext c.tail (hcur ▸ h.cursor_mem)]
    exact h.taking c next hc hstage

end

/-! ### What the chain tells -/

section

variable (h : Chain q pending chain)
include h

theorem consumed_front : q.consumed <+: q.pushed := by
  obtain ⟨front,rest,hpus,hfront,-⟩ := List.map_eq_append_iff.mp h.values
  rw [hpus,List.map_injective_iff.mpr (Option.some_injective T) hfront]
  exact List.prefix_append _ _

theorem consumed_all (hchain : chain = [q.cursor]) :
    q.consumed = q.pushed := by
  have hval := h.values
  rw [hchain,List.tail_cons,List.map_nil,List.append_nil] at hval
  exact (List.map_injective_iff.mpr (Option.some_injective T) hval).symm

theorem unreachable {old : Nat} (hold : old ∈ q.retired) :
    q.head ≠ old ∧ old ∉ owned pending ∧ ∀ node, Move.link old node ∉ pending := by
  have hnot : ∀ a ∈ (chain : Multiset Nat)+owned pending, a ≠ old := by
    rintro a ha rfl
    exact disjoint_left.mp (nodup_add.mp h.nodup).2.2 ha hold
  refine ⟨hnot _ ?_,fun hmem => hnot old (by simp [hmem]) rfl,fun node hlink => ?_⟩
  · simp [List.mem_of_mem_getLast? h.last]
  · have hmem := mem_links.mpr hlink
    rw [h.missing,mem_coe] at hmem
    have hstep := Chained.fst_mem_of_steps (List.mem_of_mem_filter hmem)
    exact hnot old (by simp [hstep]) rfl

end

/-! ### The steps of the producers -/

theorem call (h : Chain q others chain) (value : T) : Chain q (push value+others) chain := by
  have hpush : (push value : Multiset (Move T))+others = .create value ::ₘ others := by simp [push]
  rw [hpush]
  refine ⟨h.first,h.last,?_,?_,?_,?_,h.linked,h.ended,h.values,h.taking,h.popping,h.sound⟩
  · rw [owned_create]
    exact h.nodup
  · rw [owned_create]
    exact h.allocated
  · intro a v hm
    rcases mem_cons.mp hm with heq | hm
    · cases heq
    · exact h.fresh a v hm
  · rw [links_create]
    exact h.missing

theorem create (h : Chain q (.create value ::ₘ others) chain) (addr : Nat) :
    Chain (produce q addr (.create value)).1 ((produce q addr (.create value)).2+others) chain := by
  cases hheap : q.heap addr with
  | some node => simpa [produce,hheap] using h
  | none =>
    have hnot : addr ∉ (chain : Multiset Nat)+owned (.create value ::ₘ others)+q.retired :=
      fun hmem => h.allocated addr hmem hheap
    have hframe := @of_heap _ _ _ _ h (update q.heap addr (some { value := some value }))
      (fun a ha => update_of_ne (by rintro rfl; exact hnot ha) _ _)
    rw [owned_create] at hnot
    have hres : ((produce q addr (.create value)).2 : Multiset (Move T))+others =
        .exchange addr value ::ₘ others := by simp [produce,hheap]
    have hqueue : (produce q addr (.create value)).1 =
        { q with heap := update q.heap addr (some { value := some value }) } := by
      simp [produce,hheap]
    rw [hres,hqueue]
    have hperm : (chain : Multiset Nat)+owned (.exchange addr value ::ₘ others)+q.retired =
        addr ::ₘ ((chain : Multiset Nat)+owned others+q.retired) := by
      rw [owned_exchange,add_cons,cons_add]
    refine ⟨hframe.first,hframe.last,?_,?_,?_,?_,hframe.linked,hframe.ended,hframe.values,
      hframe.taking,hframe.popping,hframe.sound⟩
    · refine hperm ▸ nodup_cons.mpr ⟨hnot,?_⟩
      have hnodup := hframe.nodup
      rwa [owned_create] at hnodup
    · intro a ha
      have hmem : a ∈ addr ::ₘ ((chain : Multiset Nat)+owned others+q.retired) := hperm ▸ ha
      rcases mem_cons.mp hmem with rfl | hmem
      · simp
      · refine hframe.allocated a ?_
        rw [owned_create]
        exact hmem
    · intro a v hm
      rcases mem_cons.mp hm with heq | hm
      · cases heq
        simp
      · exact hframe.fresh a v (mem_cons_of_mem hm)
    · have hmis := hframe.missing
      rw [links_create] at hmis
      rw [links_exchange,hmis]

theorem exchange (h : Chain q (.exchange node value ::ₘ others) chain) :
    Chain { q with head := node, pushed := q.pushed ++ [value] } (.link q.head node ::ₘ others)
      (chain ++ [node]) := by
  have hnode : q.heap node = some { value := some value } :=
    h.fresh node value (mem_cons_self _ _)
  have hnext : q.nextOf node = none := by simp [Queue.nextOf,hnode]
  have hsteps := Chained.steps_concat h.last node
  have hperm : ((chain ++ [node] : List Nat) : Multiset Nat)+owned (.link q.head node ::ₘ others)+
      q.retired = (chain : Multiset Nat)+owned (.exchange node value ::ₘ others)+q.retired := by
    rw [owned_link,owned_exchange,← coe_add,coe_singleton,add_assoc (chain : Multiset Nat),singleton_add]
  have hne : chain ≠ [] := by
    rintro rfl
    cases h.last
  refine ⟨?_,by simp,?_,?_,?_,?_,?_,hnext,?_,h.taking,h.popping,h.sound⟩
  · rw [List.head?_append_of_ne_nil _ hne]
    exact h.first
  · exact hperm ▸ h.nodup
  · intro a ha
    exact h.allocated a (hperm ▸ ha)
  · intro a v hm
    rcases mem_cons.mp hm with heq | hm
    · cases heq
    · exact h.fresh a v (mem_cons_of_mem hm)
  · have hmis := h.missing
    rw [links_exchange] at hmis
    have hopen : [(q.head,node)].filter (fun e => decide (q.nextOf e.1 = none)) =
        [(q.head,node)] := by simp [h.ended]
    rw [links_link,hsteps,List.filter_append,hmis,← coe_add]
    change _ = _+(([(q.head,node)].filter (fun e => decide (q.nextOf e.1 = none)) :
      List (Nat × Nat)) : Multiset (Nat × Nat))
    rw [hopen,coe_singleton,add_comm,singleton_add]
    rfl
  · intro e he
    rw [hsteps] at he
    rcases List.mem_append.mp he with he | he
    · exact h.linked e he
    · rw [List.mem_singleton.mp he]
      exact .inl h.ended
  · have hval := h.values
    rw [List.tail_append_of_ne_nil hne]
    simp only [List.map_append,hval,List.append_assoc]
    have hvalue : q.valueOf node = some value := by simp [Queue.valueOf,hnode]
    refine congrArg _ (congrArg _ ?_)
    exact congrArg (fun v => [v]) hvalue.symm

theorem link {prev : Nat} (h : Chain q (.link prev node ::ₘ others) chain) (addr : Nat) :
    Chain (produce q addr (.link prev node)).1 ((produce q addr (.link prev node)).2+others)
      chain := by
  have hmis := h.missing
  rw [links_link] at hmis
  obtain ⟨hstep,hopen⟩ : (prev,node) ∈ Chained.steps chain ∧ q.nextOf prev = none := by
    have hmem : (prev,node) ∈ ((Chained.steps chain).filter (fun e => q.nextOf e.1 = none) :
        List (Nat × Nat)) := by
      rw [← mem_coe,← hmis]
      exact mem_cons_self _ _
    simpa using hmem
  have hprev : prev ∈ chain := Chained.fst_mem_of_steps hstep
  obtain ⟨n,hn⟩ := Option.ne_none_iff_exists'.mp (h.allocated prev (mem_of_chain hprev))
  have hlast : prev ≠ q.head := Chained.fst_ne_last h.nodup_chain h.last hstep
  have hqueue : (produce q addr (.link prev node)).1 =
      { q with heap := update q.heap prev (some { n with next := some node }) } := by
    simp [produce,hn]
  have hres : ((produce q addr (.link prev node)).2 : Multiset (Move T))+others = others := by
    simp [produce,hn]
  have hself : Queue.nextOf
      { q with heap := update q.heap prev (some { n with next := some node }) } prev =
        some node := by simp [Queue.nextOf]
  have hother (a : Nat) (ha : a ≠ prev) : Queue.nextOf
      { q with heap := update q.heap prev (some { n with next := some node }) } a =
        q.nextOf a := by simp [Queue.nextOf,update_of_ne ha]
  have hvalue (a : Nat) : Queue.valueOf
      { q with heap := update q.heap prev (some { n with next := some node }) } a =
        q.valueOf a := by
    by_cases ha : a = prev
    · subst ha
      simp [Queue.valueOf,hn]
    · simp [Queue.valueOf,update_of_ne ha]
  rw [hqueue,hres]
  refine ⟨h.first,h.last,?_,?_,?_,?_,?_,?_,?_,?_,h.popping,h.sound⟩
  · have hnodup := h.nodup
    rwa [owned_link] at hnodup
  · intro a ha
    have hall := h.allocated a (by rw [owned_link]; exact ha)
    by_cases hap : a = prev
    · subst hap
      simp
    · simpa [update_of_ne hap] using hall
  · intro a v hm
    have hap : a ≠ prev := fun heq => h.not_owned hprev (heq ▸ mem_owned (mem_cons_of_mem hm))
    exact (update_of_ne hap _ _).trans (h.fresh a v (mem_cons_of_mem hm))
  · rw [Chained.filter_eq_cons (Chained.nodup_fst_steps h.nodup_chain) hstep
      (by simpa using hopen) (fun e _ => ?_)] at hmis
    · exact (cons_inj_right _).mp hmis
    · by_cases hep : e.1 = prev
      · simp [hep,hself]
      · simp [hep,hother _ hep]
  · intro e he
    by_cases hep : e.1 = prev
    · have heq := List.inj_on_of_nodup_map (Chained.nodup_fst_steps h.nodup_chain) he hstep hep
      rw [heq]
      exact .inr hself
    · rw [hother _ hep]
      exact h.linked e he
  · rw [hother _ (Ne.symm hlast)]
    exact h.ended
  · rw [h.values]
    exact congrArg _ (List.map_congr_left fun a _ => (hvalue a).symm)
  · intro c next hc hstage
    have htak := h.taking c next hc hstage
    have hne : c.tail ≠ prev := by
      intro heq
      rw [heq,hopen] at htak
      cases htak
    exact (hother _ hne).trans htak

/-! ### The steps of the consumer -/

theorem of_consumer (h : Chain q pending chain) (tail : Nat) (consumer : Option Consumer)
    (returned : List Nat)
    (hcur : Queue.cursor { q with tail, consumer, returned } = q.cursor)
    (hret : Queue.retired { q with tail, consumer, returned } ≤ q.retired)
    (htak : ∀ c next, consumer = some c → c.stage = .take next → q.nextOf c.tail = some next)
    (hpop : ∀ c, consumer = some c → c.call = .tryPop → tail = c.tail) :
    Chain { q with tail, consumer, returned } pending chain := by
  have hle := @Multiset.add_le_add_left _ ((chain : Multiset Nat)+owned pending) _ _ hret
  refine ⟨?_,h.last,?_,?_,h.fresh,h.missing,h.linked,h.ended,h.values,htak,hpop,
    h.sound⟩
  · rw [hcur]
    exact h.first
  · exact nodup_of_le hle h.nodup
  · intro a ha
    exact h.allocated a (mem_of_le hle ha)

theorem enter (h : Chain q pending chain) (call : Call) :
    Chain (MpscQueue.enter q call) pending chain := by
  cases hc : q.consumer with
  | some c => simpa [MpscQueue.enter,hc] using h
  | none =>
    have hnew := h.of_consumer q.tail (some { call, tail := q.tail }) q.returned
      (by simp [Queue.cursor,hc]) (by simp [Queue.retired]) (by rintro c next ⟨⟩ ⟨⟩) (by simp)
    simpa [MpscQueue.enter,hc] using hnew

theorem leave (hc : q.consumer = some c) (h : Chain q pending chain) :
    Chain (MpscQueue.leave q c) pending chain := by
  refine h.of_consumer _ none _ ?_ (by simp [Queue.retired]) (by simp) (by simp)
  rw [Queue.cursor_of hc]
  by_cases hcall : c.call = .tryPop
  · simpa [Queue.cursor,hcall] using h.popping c hc hcall
  · simp [Queue.cursor,hcall]

section

variable (h : Chain q pending chain)
include h

theorem eq_of_next (hnext : q.nextOf q.cursor = some next) : ∃ rest, chain = q.cursor :: next :: rest := by
  obtain ⟨rest,hchain⟩ := List.head?_eq_some_iff.mp h.first
  cases rest with
  | nil =>
    have hlast := h.last
    rw [hchain] at hlast
    have hhead : q.cursor = q.head := by simpa using hlast
    rw [hhead,h.ended] at hnext
    cases hnext
  | cons b rest =>
    have hlin := h.linked (q.cursor,b) (by rw [hchain]; simp)
    rw [hnext] at hlin
    obtain rfl : next = b := by simpa using hlin
    exact ⟨rest,hchain⟩

theorem eq_of_end (hnext : q.nextOf q.cursor = none) :
    chain = [q.cursor] ∨ ∃ node, .link q.cursor node ∈ pending := by
  obtain ⟨rest,hchain⟩ := List.head?_eq_some_iff.mp h.first
  cases rest with
  | nil => exact .inl hchain
  | cons b rest =>
    refine .inr ⟨b,mem_links.mp ?_⟩
    rw [h.missing,hchain]
    simp [hnext]

theorem take (hc : q.consumer = some c) (hstage : c.stage = .take next) :
    ∃ value, q.valueOf next = some value ∧ (consume q).consumed = q.consumed ++ [value] ∧
      (consume q).consumer = some { c with tail := next, n := c.n+1, stage := .recycle c.tail } ∧
      Chain (consume q) pending chain.tail := by
  have hcur := Queue.cursor_of hc
  have hlin := h.taking c next hc hstage
  obtain ⟨rest,hchain⟩ := h.eq_of_next (hcur ▸ hlin)
  subst hchain
  rw [hcur] at h
  obtain ⟨value,hvalue⟩ : ∃ value, q.valueOf next = some value := by
    have hmem : q.valueOf next ∈ q.pushed.map some := by
      rw [h.values]
      simp
    obtain ⟨value,-,hvalue⟩ := List.mem_map.mp hmem
    exact ⟨value,hvalue.symm⟩
  obtain ⟨link,hheap⟩ : ∃ link, q.heap next = some ⟨link,some value⟩ := by
    obtain ⟨⟨link,v⟩,hheap,hv⟩ := Option.bind_eq_some_iff.mp hvalue
    exact ⟨link,by rw [hheap]; exact congrArg some (congrArg _ hv)⟩
  have hqueue : consume q = { q with
      heap := update q.heap next (some ⟨link,none⟩)
      consumed := q.consumed ++ [value]
      tail := if c.call = .tryPop then next else q.tail
      consumer := some { c with tail := next, n := c.n+1, stage := .recycle c.tail } } := by
    simp only [consume,hc,hstage,hheap]
  refine ⟨value,hvalue,by rw [hqueue],by rw [hqueue],?_⟩
  have hmem : next ∈ c.tail :: next :: rest := by simp
  have hrest : next ∉ rest := (List.nodup_cons.mp (List.nodup_cons.mp h.nodup_chain).2).1
  have hidle : q.retired = 0 := by simp [Queue.retired,hc,hstage]
  have hnext (a : Nat) : (consume q).nextOf a = q.nextOf a := by
    rw [hqueue]
    by_cases ha : a = next
    · subst ha
      simp [Queue.nextOf,hheap]
    · simp [Queue.nextOf,update_of_ne ha]
  have hother (a : Nat) (ha : a ≠ next) : (consume q).heap a = q.heap a := by
    rw [hqueue]
    exact update_of_ne ha _ _
  have hret : (consume q).retired = {c.tail} := by
    rw [hqueue]
    rfl
  have hperm : ((next :: rest : List Nat) : Multiset Nat)+owned pending+(consume q).retired =
      ((c.tail :: next :: rest : List Nat) : Multiset Nat)+owned pending+q.retired := by
    rw [hret,hidle,← cons_coe c.tail,cons_add,cons_add,add_zero,← singleton_add,add_comm]
  have hhead : (consume q).head = q.head := by rw [hqueue]
  have hlast := h.last
  rw [List.getLast?_cons_cons] at hlast
  refine ⟨?_,hhead ▸ hlast,hperm ▸ h.nodup,?_,?_,?_,?_,?_,?_,?_,?_,?_⟩
  · rw [hqueue]
    rfl
  · intro a ha
    by_cases han : a = next
    · rw [hqueue,han]
      simp
    · rw [hother a han]
      exact h.allocated a (hperm ▸ ha)
  · intro a v hm
    have han : a ≠ next := fun heq => h.not_owned hmem (heq ▸ mem_owned hm)
    rw [hother a han]
    exact h.fresh a v hm
  · rw [h.missing,Chained.steps_cons_cons,List.filter_cons_of_neg (by simp [hlin])]
    simp only [List.tail_cons,hnext]
  · intro e he
    rw [hnext]
    exact h.linked e (by rw [Chained.steps_cons_cons]; exact List.mem_cons_of_mem _ he)
  · rw [hnext,hhead]
    exact h.ended
  · have hval := h.values
    have hsame : rest.map (consume q).valueOf = rest.map q.valueOf := by
      refine List.map_congr_left fun a ha => ?_
      have han : a ≠ next := fun heq => hrest (heq ▸ ha)
      simp only [Queue.valueOf,hother a han]
    rw [List.tail_cons,List.tail_cons,hsame,show (consume q).pushed = q.pushed by rw [hqueue],
      show (consume q).consumed = q.consumed ++ [value] by rw [hqueue],hval]
    simp [hvalue]
  · intro c' next' hc' hstage'
    rw [hqueue] at hc'
    cases hc'
    cases hstage'
  · intro c' hc' hcall
    rw [hqueue] at hc' ⊢
    cases hc'
    exact if_pos hcall
  · rw [hqueue]
    exact h.sound

theorem recycle {old : Nat} (hc : q.consumer = some c) (hstage : c.stage = .recycle old) :
    old ∉ (chain : Multiset Nat)+owned pending ∧
      consume q = (if c.call = .tryPop
        then MpscQueue.leave { q with heap := update q.heap old none } c
        else { q with
          heap := update q.heap old none
          consumer := some { c with stage := .load } }) ∧
      Chain (consume q) pending chain := by
  have hret : q.retired = {old} := by simp [Queue.retired,hc,hstage]
  have hnot : old ∉ (chain : Multiset Nat)+owned pending := by
    have hnodup := h.nodup
    rw [hret,add_comm,singleton_add] at hnodup
    exact (nodup_cons.mp hnodup).1
  obtain ⟨node,hnode⟩ := Option.ne_none_iff_exists'.mp (h.allocated old (by simp [hret]))
  have hqueue : consume q = (if c.call = .tryPop
      then MpscQueue.leave { q with heap := update q.heap old none } c
      else { q with
        heap := update q.heap old none
        consumer := some { c with stage := .load } }) := by
    simp only [consume,hc,hstage,hnode]
  refine ⟨hnot,hqueue,?_⟩
  rw [hqueue]
  split
  · have hleft := h.leave hc
    have hidle : (MpscQueue.leave q c).retired = 0 := rfl
    refine hleft.of_heap fun a ha => update_of_ne ?_ _ _
    rintro rfl
    rw [hidle,add_zero] at ha
    exact hnot ha
  · have hload := h.of_consumer q.tail (some { c with stage := .load }) q.returned
      (by simp [Queue.cursor,hc]) (by simp [Queue.retired]) (by rintro c' next ⟨⟩ ⟨⟩)
      (by rintro c' ⟨⟩ hcall; exact h.popping c hc hcall)
    refine hload.of_heap fun a ha => update_of_ne ?_ _ _
    rintro rfl
    have hidle : Queue.retired { q with consumer := some { c with stage := .load } } = 0 := rfl
    rw [hidle,add_zero] at ha
    exact hnot ha

theorem load (hc : q.consumer = some c) (hstage : c.stage = .load) :
    ((atLimit c = true ∨ q.nextOf c.tail = none) ∧ consume q = MpscQueue.leave q c ∨
      ∃ next, q.nextOf c.tail = some next ∧
        consume q = { q with consumer := some { c with stage := .take next } }) ∧
      Chain (consume q) pending chain := by
  have hcur := Queue.cursor_of hc
  have hmem := h.cursor_mem
  rw [hcur] at hmem
  obtain ⟨node,hnode⟩ := Option.ne_none_iff_exists'.mp (h.allocated c.tail (mem_of_chain hmem))
  have hnext : q.nextOf c.tail = node.next := by simp [Queue.nextOf,hnode]
  cases hlimit : atLimit c with
  | true =>
    have hqueue : consume q = MpscQueue.leave q c := by
      simp only [consume,hc,hstage,hlimit,if_true]
    exact ⟨.inl ⟨.inl rfl,hqueue⟩,hqueue ▸ h.leave hc⟩
  | false =>
    cases hlink : node.next with
    | none =>
      have hqueue : consume q = MpscQueue.leave q c := by
        simp [consume,hc,hstage,hlimit,hnode,hlink]
      exact ⟨.inl ⟨.inr (hnext.trans hlink),hqueue⟩,hqueue ▸ h.leave hc⟩
    | some next =>
      have hqueue : consume q = { q with consumer := some { c with stage := .take next } } := by
        simp [consume,hc,hstage,hlimit,hnode,hlink]
      refine ⟨.inr ⟨next,hnext.trans hlink,hqueue⟩,?_⟩
      rw [hqueue]
      refine h.of_consumer q.tail _ q.returned (by simp [Queue.cursor,hc]) (by simp [Queue.retired])
        ?_ ?_
      · rintro c' next' ⟨⟩ ⟨⟩
        exact hnext.trans hlink
      · rintro c' ⟨⟩ hcall
        exact h.popping c hc hcall

theorem consume : ∃ chain', Chain (MpscQueue.consume q) pending chain' := by
  cases hc : q.consumer with
  | none => exact ⟨chain,by simpa [MpscQueue.consume,hc] using h⟩
  | some c =>
    cases hstage : c.stage with
    | load => exact ⟨chain,(h.load hc hstage).2⟩
    | take next =>
      obtain ⟨_,-,-,-,hchain⟩ := h.take hc hstage
      exact ⟨chain.tail,hchain⟩
    | recycle old => exact ⟨chain,(h.recycle hc hstage).2.2⟩

end

end Chain

def Linked (q : Queue T) (pending : Multiset (Move T)) : Prop := ∃ chain, Chain q pending chain

theorem linked_produce {q : Queue T} {others : Multiset (Move T)} (addr : Nat) {m : Move T}
    (h : Linked q (m ::ₘ others)) :
    Linked (produce q addr m).1 ((produce q addr m).2+others) := by
  obtain ⟨chain,hchain⟩ := h
  cases m with
  | create value => exact ⟨chain,hchain.create addr⟩
  | exchange node value => exact ⟨chain ++ [node],by simpa [produce] using hchain.exchange⟩
  | link prev node => exact ⟨chain,hchain.link addr⟩

theorem linked_step (e : Event T) (h : Linked p.shared p.pending) :
    Linked (step p e).shared (step p e).pending := by
  cases e with
  | producer e =>
    exact @Threads.invariant_always _ _ _ _ push produce Linked
      (fun q others value ⟨chain,hchain⟩ => ⟨chain,hchain.call value⟩)
      (fun q others addr m => linked_produce addr) p h [e]
  | enter call =>
    obtain ⟨chain,hchain⟩ := h
    exact ⟨chain,hchain.enter call⟩
  | consume =>
    obtain ⟨chain,hchain⟩ := h
    exact hchain.consume

theorem linked_runs (stub : Nat) (events : List (Event T)) :
    Linked (runs step (init T stub) events).shared
      (runs step (init T stub) events).pending :=
  @invariant _ _ step (fun p => Linked p.shared p.pending) (fun _ _ => True)
    (fun _ e h _ => linked_step e h) (init T stub) ⟨[stub],chain_make stub⟩ events
    (meets_of_always (fun _ _ => trivial) _ events)

/-! ### The values of the producers -/

def calls (events : List (Event T)) : List T :=
  events.filterMap fun
    | .producer (.call value) => some value
    | _ => none

def waiting (pending : Multiset (Move T)) : Multiset T :=
  pending.filterMap fun
    | .create value => some value
    | .exchange _ value => some value
    | .link _ _ => none

section Waiting

variable (others : Multiset (Move T))

@[simp] theorem waiting_create (value : T) :
    waiting (.create value ::ₘ others) = value ::ₘ waiting others :=
  filterMap_cons_some _ _ _ rfl

@[simp] theorem waiting_exchange (node : Nat) (value : T) :
    waiting (.exchange node value ::ₘ others) = value ::ₘ waiting others :=
  filterMap_cons_some _ _ _ rfl

@[simp] theorem waiting_link (prev node : Nat) :
    waiting (.link prev node ::ₘ others) = waiting others :=
  filterMap_cons_none _ _ rfl

end Waiting

theorem produce_values (q : Queue T) (addr : Nat) (m : Move T) (others : Multiset (Move T)) :
    ((produce q addr m).1.pushed : Multiset T)+
        waiting (((produce q addr m).2 : Multiset (Move T))+others) =
      (q.pushed : Multiset T)+waiting (m ::ₘ others) := by
  cases m with
  | create value => cases hheap : q.heap addr <;> simp [produce,hheap]
  | exchange node value =>
    simp [produce,← coe_add,add_assoc]
  | link prev node => cases hheap : q.heap prev <;> simp [produce,hheap]

theorem consume_pushed (q : Queue T) : (consume q).pushed = q.pushed := by
  unfold consume
  repeat' split
  all_goals rfl

theorem enter_pushed (q : Queue T) (call : Call) : (enter q call).pushed = q.pushed := by
  unfold enter
  split <;> rfl

/-- Every value with which `push` was called is in the order of the exchanges, or on its
way there. -/
theorem values_of_calls (stub : Nat) (events : List (Event T)) :
    ((runs step (init T stub) events).shared.pushed : Multiset T)+
      waiting (runs step (init T stub) events).pending = (calls events : Multiset T) := by
  refine @traces _ _ step
    (fun past p => (p.shared.pushed : Multiset T)+waiting p.pending = (calls past : Multiset T))
    (init T stub) rfl (fun past e p h => ?_) events
  have hcalls : (calls (past ++ [e]) : Multiset T) = calls past+(calls [e] : Multiset T) := by
    rw [calls,List.filterMap_append,← coe_add]
    rfl
  rw [hcalls,← h]
  cases e with
  | producer e =>
    cases e with
    | call value =>
      have hpen := @Threads.pending_call _ _ _ _ push produce p value
      change (p.shared.pushed : Multiset T)+
        waiting (Threads.step push produce p (.call value)).pending = _+({value} : Multiset T)
      rw [hpen,show (push value : Multiset (Move T)) = {.create value} from rfl,
        singleton_add,waiting_create,Multiset.add_assoc,Multiset.add_comm _ {value},
        singleton_add]
    | move i addr =>
      have hnone : ((calls [Event.producer (.move i addr)] : List T) : Multiset T) = 0 := rfl
      rw [hnone,add_zero]
      change ((Threads.step push produce p (.move i addr)).shared.pushed : Multiset T)+
        waiting (Threads.step push produce p (.move i addr)).pending = _
      rcases @Threads.move_cases _ _ _ _ push produce p i addr with
        hstays | ⟨m,others,-,hbef,hshar,hbeh⟩
      · rw [hstays]
      · rw [hshar,hbeh,hbef,produce_values]
  | enter call =>
    change ((enter p.shared call).pushed : Multiset T)+waiting p.pending = _
    rw [enter_pushed]
    exact (add_zero _).symm
  | consume =>
    change ((consume p.shared).pushed : Multiset T)+waiting p.pending = _
    rw [consume_pushed]
    exact (add_zero _).symm

/-! ### Draining -/

/-- What is left to do for `drainAll`. -/
def effort (q : Queue T) : Nat :=
  match q.consumer with
  | none => 0
  | some c =>
    3*(q.pushed.length-q.consumed.length)+
      match c.stage with
      | .load => 1
      | .take _ => 0
      | .recycle _ => 2

structure Draining (values : List T) (p : System T) : Prop where
  linked : Linked p.shared p.pending
  complete : links p.pending = 0
  pushed : p.shared.pushed = values
  draining : ∀ c, p.shared.consumer = some c → c.call = .drainAll
  drained : p.shared.consumer = none → p.shared.consumed = values

theorem draining_consume {values : List T} (h : Draining values p) (hbusy : p.shared.consumer ≠ none) :
    Draining values (step p .consume) ∧ effort (step p .consume).shared < effort p.shared := by
  obtain ⟨c,hc⟩ := Option.ne_none_iff_exists'.mp hbusy
  obtain ⟨chain,hchain⟩ := h.linked
  have hcall := h.draining c hc
  have hlin := linked_step .consume h.linked
  have hpus := h.pushed
  change Linked (consume p.shared) p.pending at hlin
  change Draining values { p with shared := consume p.shared } ∧ effort (consume p.shared) < _
  cases hstage : c.stage with
  | load =>
    have hunl : atLimit c = false := by simp [atLimit,hcall]
    rcases (hchain.load hc hstage).1 with ⟨hend,hleft⟩ | ⟨next,-,hfound⟩
    · have hnone : p.shared.nextOf p.shared.cursor = none := by
        rw [Queue.cursor_of hc]
        simpa [hunl] using hend
      have hall : p.shared.consumed = p.shared.pushed := by
        rcases hchain.eq_of_end hnone with hsin | ⟨node,hlink⟩
        · exact hchain.consumed_all hsin
        · have hmem := mem_links.mpr hlink
          rw [h.complete] at hmem
          exact absurd hmem (notMem_zero _)
      rw [hleft] at hlin ⊢
      refine ⟨⟨hlin,h.complete,hpus,by simp [leave],fun _ => hall.trans hpus⟩,?_⟩
      simp [effort,leave,hc,hstage]
    · rw [hfound] at hlin ⊢
      refine ⟨⟨hlin,h.complete,hpus,by simp [hcall],by simp⟩,?_⟩
      simp [effort,hc,hstage]
  | take next =>
    obtain ⟨value,-,hcons,hcon,-⟩ := hchain.take hc hstage
    have hkept := consume_pushed p.shared
    obtain ⟨chain',hchain'⟩ := hlin
    have hlen := hchain'.consumed_front.length_le
    refine ⟨⟨⟨chain',hchain'⟩,h.complete,hkept.trans hpus,?_,?_⟩,?_⟩
    · intro c' hc'
      rw [hcon] at hc'
      cases hc'
      exact hcall
    · intro hnone
      rw [hcon] at hnone
      cases hnone
    · rw [hkept,hcons,List.length_append,List.length_singleton] at hlen
      simp only [effort,hc,hstage,hcon,hkept,hcons,List.length_append,List.length_singleton]
      omega
  | recycle old =>
    obtain ⟨-,hqueue,-⟩ := hchain.recycle hc hstage
    rw [hcall,if_neg (by decide)] at hqueue
    rw [hqueue] at hlin ⊢
    refine ⟨⟨hlin,h.complete,hpus,by simp,by simp⟩,?_⟩
    simp [effort,hc,hstage]

theorem drain_completes (hlin : Linked p.shared p.pending)
    (hcom : ∀ prev node, Move.link prev node ∉ p.pending) (hidle : p.shared.consumer = none) :
    ∃ n, let p' := runs step p (.enter .drainAll :: List.replicate n .consume)
      p'.shared.consumer = none ∧ p'.shared.consumed = p.shared.pushed := by
  have hnone : links p.pending = 0 := by
    rw [eq_zero_iff_forall_notMem]
    rintro ⟨prev,node⟩ hmem
    exact hcom prev node (mem_links.mp hmem)
  have hstart : Draining p.shared.pushed (step p (.enter .drainAll)) := by
    refine ⟨linked_step (.enter .drainAll) hlin,hnone,?_,?_,?_⟩
    · simp [step,enter,hidle]
    · simp [step,enter,hidle]
    · simp [step,enter,hidle]
  obtain ⟨n,hdr,hdone⟩ := stops_of_variant (fun p : System T => effort p.shared)
    (fun _ hinv hbusy => draining_consume hinv hbusy) hstart
  exact ⟨n,hdone,hdr.drained hdone⟩

/-- `drainAll` ends only at a node to which everything has been consumed, or behind which a
producer is about to store its link. -/
theorem drain_ends (hlin : Linked p.shared p.pending) {c : Consumer}
    (hc : p.shared.consumer = some c) (hcall : c.call = .drainAll)
    (hend : (consume p.shared).consumer = none) :
    p.shared.consumed = p.shared.pushed ∨ ∃ node, Move.link c.tail node ∈ p.pending := by
  obtain ⟨chain,hchain⟩ := hlin
  have hunl : atLimit c = false := by simp [atLimit,hcall]
  cases hstage : c.stage with
  | load =>
    rcases (hchain.load hc hstage).1 with ⟨hnone,-⟩ | ⟨next,-,hfound⟩
    · rw [← Queue.cursor_of hc] at hnone ⊢
      rcases hchain.eq_of_end (by simpa [hunl] using hnone) with hsin | hlink
      · exact .inl (hchain.consumed_all hsin)
      · exact .inr hlink
    · rw [hfound] at hend
      cases hend
  | take next =>
    obtain ⟨_,-,-,hcon,-⟩ := hchain.take hc hstage
    rw [hcon] at hend
    cases hend
  | recycle old =>
    obtain ⟨-,hqueue,-⟩ := hchain.recycle hc hstage
    rw [hqueue,hcall,if_neg (by decide)] at hend
    cases hend

/-- The queue is a first-in-first-out queue for any number of producers. In every
interleaving: what has been consumed is the beginning of the values in the order of the
exchanges; these and the values on their way are those of the calls of `push`; no node is
accessed that has been given back, and none is given back that a producer can still reach;
`drainAll` stops short only of a push that is not completed, and when all are, it drains the
queue. -/
theorem queue_linearizable (stub : Nat) (events : List (Event T)) :
    let p := Machine.runs step (init T stub) events
    p.shared.consumed <+: p.shared.pushed ∧
      (p.shared.pushed : Multiset T)+waiting p.pending = (calls events : Multiset T) ∧
      p.shared.fault = false ∧
      (∀ c old, p.shared.consumer = some c → c.stage = .recycle old →
        p.shared.head ≠ old ∧ old ∉ owned p.pending ∧ ∀ node, Move.link old node ∉ p.pending) ∧
      (∀ c, p.shared.consumer = some c → c.call = .drainAll →
        (consume p.shared).consumer = none →
        p.shared.consumed = p.shared.pushed ∨ ∃ node, Move.link c.tail node ∈ p.pending) ∧
      ((∀ prev node, Move.link prev node ∉ p.pending) → p.shared.consumer = none →
        ∃ n, let p' := Machine.runs step p (.enter .drainAll :: List.replicate n .consume)
          p'.shared.consumer = none ∧ p'.shared.consumed = p.shared.pushed) := by
  intro p
  have hlin := linked_runs stub events
  obtain ⟨chain,hchain⟩ := hlin
  refine ⟨hchain.consumed_front,values_of_calls stub events,hchain.sound,?_,?_,?_⟩
  · intro c old hc hstage
    have hret : p.shared.retired = {old} := by simp [Queue.retired,hc,hstage]
    exact hchain.unreachable (by rw [hret]; exact Multiset.mem_singleton_self old)
  · intro c hc hcall hend
    exact drain_ends ⟨chain,hchain⟩ hc hcall hend
  · exact drain_completes ⟨chain,hchain⟩

end FastNet.MpscQueue
