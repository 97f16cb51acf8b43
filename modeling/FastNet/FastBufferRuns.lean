import FastNet.FastBufferCalls

/-!
Runs of operations on buffers, next to the same operations on lists of bytes.
-/

namespace FastNet.FastBuffer

open Loop Numeral Block Function List

inductive Call where
  | append : Source → Call
  | appendFill : Nat → UInt8 → Call
  | assign : Source → Call
  | insert : Nat → Source → Call
  | pushBack : UInt8 → Call
  | popBack : Call
  | resize : Nat → UInt8 → Call
  | eraseFront : Nat → Call
  | clear : Call
  | reset : Call

inductive Storage where
  | reserve : Nat → Storage
  | compact : Storage
  | shrinkToFit : Storage

inductive Op where
  | call : Nat → Call → Op
  | storage : Nat → Storage → Op
  | appendFrom : Nat → Nat → Op
  | copyConstruct : Nat → Nat → Op
  | copy : Nat → Nat → Op
  | moveConstruct : Nat → Nat → Op
  | move : Nat → Nat → Op
  | swap : Nat → Nat → Op

def Call.run (garbage : Nat → UInt8) (b : FastBuffer) : Call → Outcome Failure FastBuffer
  | .append src => FastBuffer.append garbage b src
  | .appendFill count fill => FastBuffer.appendFill garbage b count fill
  | .assign src => FastBuffer.assign garbage b src
  | .insert offset range => FastBuffer.insert garbage b offset range
  | .pushBack byte => FastBuffer.pushBack garbage b byte
  | .popBack => .ret b.popBack
  | .resize n fill => FastBuffer.resize garbage b n fill
  | .eraseFront n => b.eraseFront n
  | .clear => .ret b.clear
  | .reset => .ret b.reset

def Storage.run (garbage : Nat → UInt8) (b : FastBuffer) : Storage → Outcome Failure FastBuffer
  | .reserve n => FastBuffer.reserve garbage b n
  | .compact => b.compact
  | .shrinkToFit => FastBuffer.shrinkToFit garbage b

def Call.apply (bytes : Bytes) : Call → Bytes
  | .append src => bytes ++ src.toBytes bytes
  | .appendFill count fill => bytes ++ replicate count fill
  | .assign src => src.toBytes bytes
  | .insert offset range => bytes.take offset ++ range.toBytes bytes ++ bytes.drop offset
  | .pushBack byte => bytes ++ [byte]
  | .popBack => bytes.dropLast
  | .resize n fill => bytes.take n ++ replicate (n-bytes.length) fill
  | .eraseFront n => bytes.drop n
  | .clear => []
  | .reset => []

/-- A call whose ranges and positions are in the buffer, and whose result is within the limit. -/
def Call.Within (bytes : Bytes) (c : Call) : Prop :=
  (match c with
    | .append src | .assign src => src.Within bytes.length
    | .insert offset range => offset ≤ bytes.length ∧ range.Within bytes.length
    | _ => True) ∧ (c.apply bytes).length ≤ kMaxSize

variable {b : FastBuffer} {garbage : Nat → UInt8}

theorem Good.size_le (h : Good b) : b.contents.length ≤ kMaxSize := by
  have hfits := h.fits
  have hlimit := h.limit
  rw [h.length_contents]
  omega

theorem call_refines (garbage : Nat → UInt8) (h : Good b) (c : Call) (hc : c.Within b.contents) :
    ∃ b', c.run garbage b = .ret b' ∧ Good b' ∧ b'.contents = c.apply b.contents := by
  obtain ⟨hrange,hlimit⟩ := hc
  have hlen := h.length_contents
  cases c with
  | append src => exact append_spec garbage src h (hlen ▸ hrange) hlimit
  | appendFill count fill =>
    simp only [Call.apply,length_append,length_replicate,hlen] at hlimit
    exact appendFill_spec garbage h fill hlimit
  | assign src => exact assign_spec garbage src h (hlen ▸ hrange) hlimit
  | insert offset range =>
    obtain ⟨hoff,hwit⟩ := hrange
    simp only [Call.apply,length_append,length_take,length_drop] at hlimit
    exact insert_spec garbage h (hlen ▸ hwit) (by omega) (by omega)
  | pushBack byte =>
    simp only [Call.apply,length_append,length_singleton,hlen] at hlimit
    exact pushBack_spec garbage h byte hlimit
  | popBack => exact ⟨_,rfl,popBack_spec h⟩
  | resize n fill =>
    simp only [Call.apply,length_append,length_take,length_replicate] at hlimit
    obtain ⟨b',hret,hgood,hcon⟩ := resize_spec garbage h fill (show n ≤ kMaxSize by omega)
    exact ⟨b',hret,hgood,by rw [hcon,Call.apply,hlen]⟩
  | eraseFront n => exact eraseFront_spec h
  | clear => exact ⟨_,rfl,clear_spec h⟩
  | reset => exact ⟨_,rfl,reset_spec h⟩

/-- The result of a call becomes buffer `i`. -/
def set (s : Nat → FastBuffer) (i : Nat) (o : Outcome Failure FastBuffer) : Outcome Failure (Nat → FastBuffer) :=
  o.map (update s i)

/-- The results of a call become buffers `i` and `j`. -/
def setBoth (s : Nat → FastBuffer) (i j : Nat) (o : Outcome Failure (FastBuffer × FastBuffer)) :
    Outcome Failure (Nat → FastBuffer) :=
  o.map (fun p => update (update s i p.1) j p.2)

/-- One step; a buffer that is assigned to itself, or swapped with itself, stays as it is. -/
def Op.step (garbage : Nat → UInt8) (s : Nat → FastBuffer) : Op → Outcome Failure (Nat → FastBuffer)
  | .call i c => set s i (c.run garbage (s i))
  | .storage i c => set s i (c.run garbage (s i))
  | .appendFrom i j =>
    set s i (append garbage (s i) (if i = j then .inside 0 (s i).size else .outside (s j).contents))
  | .copyConstruct i j => set s i (assign garbage fresh (.outside (s j).contents))
  | .copy i j => if i = j then .ret s else set s i (assign garbage (s i) (.outside (s j).contents))
  | .moveConstruct i j => if i = j then .ret s else setBoth s i j (moveFrom fresh (s j))
  | .move i j => if i = j then .ret s else setBoth s i j (moveAssign (s i) (s j))
  | .swap i j => if i = j then .ret s else setBoth s i j (FastBuffer.swap (s i) (s j))

def Op.apply (f : Nat → Bytes) : Op → Nat → Bytes
  | .call i c => update f i (c.apply (f i))
  | .storage _ _ => f
  | .appendFrom i j => update f i (f i ++ f j)
  | .copyConstruct i j => update f i (f j)
  | .copy i j => update f i (f j)
  | .moveConstruct i j => if i = j then f else update (update f i (f j)) j []
  | .move i j => if i = j then f else update (update f i (f j)) j []
  | .swap i j => update (update f i (f j)) j (f i)

def Op.Within (f : Nat → Bytes) : Op → Prop
  | .call i c => c.Within (f i)
  | .storage _ (.reserve n) => n ≤ kMaxSize
  | .appendFrom i j => (f i ++ f j).length ≤ kMaxSize
  | _ => True

/-- Every `shrink_to_fit` finds a buffer that it does not harm. -/
def Op.Harmless (s : Nat → FastBuffer) : Op → Prop
  | .storage i .shrinkToFit => ¬ ShrinksBadly (s i)
  | _ => True

structure Step where
  op : Op
  garbage : Nat → UInt8

def runAll (s : Nat → FastBuffer) : List Step → Outcome Failure (Nat → FastBuffer)
  | [] => .ret s
  | t :: rest => (t.op.step t.garbage s).bind (fun s' => runAll s' rest)

def applyAll (f : Nat → Bytes) : List Step → Nat → Bytes
  | [] => f
  | t :: rest => applyAll (t.op.apply f) rest

def AllWithin (f : Nat → Bytes) : List Step → Prop
  | [] => True
  | t :: rest => t.op.Within f ∧ AllWithin (t.op.apply f) rest

def AllHarmless (s : Nat → FastBuffer) : List Step → Prop
  | [] => True
  | t :: rest => t.op.Harmless s ∧ ∀ s', t.op.step t.garbage s = .ret s' → AllHarmless s' rest

def Represents (s : Nat → FastBuffer) (f : Nat → Bytes) : Prop := ∀ i, Good (s i) ∧ (s i).contents = f i

variable {s : Nat → FastBuffer} {f : Nat → Bytes} {b' : FastBuffer} {bytes bytes' : Bytes} {i j : Nat}
  {o : Outcome Failure FastBuffer}

theorem Represents.update (h : Represents s f) (hb : Good b) (hbytes : b.contents = bytes) :
    Represents (update s i b) (update f i bytes) := by
  intro k
  by_cases hk : k = i
  · subst hk
    simpa using ⟨hb,hbytes⟩
  · simpa [hk] using h k

theorem set_refines (h : Represents s f) (ho : ∃ b', o = .ret b' ∧ Good b' ∧ b'.contents = bytes) :
    ∃ s', set s i o = .ret s' ∧ Represents s' (update f i bytes) := by
  obtain ⟨b',hret,hgood,hcon⟩ := ho
  exact ⟨_,by rw [set,hret]; rfl,h.update hgood hcon⟩

theorem setBoth_refines {o : Outcome Failure (FastBuffer × FastBuffer)} (h : Represents s f)
    (ho : ∃ b' c', o = .ret (b',c') ∧ Good b' ∧ b'.contents = bytes ∧ Good c' ∧ c'.contents = bytes') :
    ∃ s', setBoth s i j o = .ret s' ∧ Represents s' (update (update f i bytes) j bytes') := by
  obtain ⟨b',c',hret,hgood,hcont,hgood',hcon⟩ := ho
  exact ⟨_,by rw [setBoth,hret]; rfl,(h.update hgood hcont).update hgood' hcon⟩

theorem storage_refines (garbage : Nat → UInt8) (h : Represents s f) (c : Storage)
    (hwit : (Op.storage i c).Within f) (hhar : (Op.storage i c).Harmless s) :
    ∃ b', c.run garbage (s i) = .ret b' ∧ Kept (s i) b' := by
  cases c with
  | reserve n => exact reserve_spec garbage (h i).1 hwit
  | compact =>
    obtain ⟨b',hret,hkept,-⟩ := compact_spec (h i).1
    exact ⟨b',hret,hkept⟩
  | shrinkToFit => exact shrinkToFit_spec garbage (h i).1 hhar

theorem step_refines (garbage : Nat → UInt8) (h : Represents s f) (op : Op) (hwit : op.Within f)
    (hhar : op.Harmless s) : ∃ s', op.step garbage s = .ret s' ∧ Represents s' (op.apply f) := by
  cases op with
  | call i c =>
    obtain ⟨hgood,hcon⟩ := h i
    refine set_refines h ?_
    rw [← hcon]
    exact call_refines garbage hgood c (by rw [hcon]; exact hwit)
  | storage i c =>
    obtain ⟨b',hret,hkept⟩ := storage_refines garbage h c hwit hhar
    obtain ⟨s',hset,hrep⟩ := set_refines (i := i) h ⟨b',hret,hkept.good,hkept.contents_eq.trans (h i).2⟩
    rw [update_eq_self] at hrep
    exact ⟨s',hset,hrep⟩
  | appendFrom i j =>
    obtain ⟨hgood,hcon⟩ := h i
    refine set_refines h ?_
    have hlimit : (f i ++ f j).length ≤ kMaxSize := hwit
    by_cases hij : i = j
    · subst hij
      rw [if_pos rfl]
      have hbytes : (Source.inside 0 (s i).size).toBytes (s i).contents = f i := by
        rw [Source.toBytes,← hgood.length_contents,slice_full,hcon]
      obtain ⟨b',hret,hgood',hcont⟩ := append_spec garbage (.inside 0 (s i).size) hgood
        (Nat.le_of_eq (Nat.zero_add _)) (by rw [hbytes,hcon]; exact hlimit)
      exact ⟨b',hret,hgood',by rw [hcont,hbytes,hcon]⟩
    · rw [if_neg hij]
      obtain ⟨b',hret,hgood',hcont⟩ := append_spec garbage (.outside (s j).contents) hgood trivial
        (by rw [hcon,Source.toBytes,(h j).2]; exact hlimit)
      exact ⟨b',hret,hgood',by rw [hcont,hcon,Source.toBytes,(h j).2]⟩
  | copyConstruct i j =>
    refine set_refines h ?_
    rw [← (h j).2]
    exact assign_spec garbage (.outside (s j).contents) fresh_good trivial (h j).1.size_le
  | copy i j =>
    by_cases hij : i = j
    · subst hij
      exact ⟨s,if_pos rfl,by rw [Op.apply,update_eq_self]; exact h⟩
    · rw [Op.step,if_neg hij]
      refine set_refines h ?_
      rw [← (h j).2]
      exact assign_spec garbage (.outside (s j).contents) (h i).1 trivial (h j).1.size_le
  | moveConstruct i j =>
    by_cases hij : i = j
    · exact ⟨s,if_pos hij,by rw [Op.apply,if_pos hij]; exact h⟩
    · rw [Op.step,if_neg hij,Op.apply,if_neg hij,← (h j).2]
      exact setBoth_refines h (moveFrom_spec fresh_good.stack_length (h j).1)
  | move i j =>
    by_cases hij : i = j
    · exact ⟨s,if_pos hij,by rw [Op.apply,if_pos hij]; exact h⟩
    · rw [Op.step,if_neg hij,Op.apply,if_neg hij,← (h j).2]
      exact setBoth_refines h (moveAssign_spec (h i).1.stack_length (h j).1)
  | swap i j =>
    by_cases hij : i = j
    · subst hij
      exact ⟨s,if_pos rfl,by rw [Op.apply,update_eq_self,update_eq_self]; exact h⟩
    · rw [Op.step,if_neg hij,Op.apply,← (h j).2,← (h i).2]
      exact setBoth_refines h (swap_spec (h i).1 (h j).1)

theorem runAll_refines (h : Represents s f) (steps : List Step) (hwit : AllWithin f steps)
    (hhar : AllHarmless s steps) :
    ∃ s', runAll s steps = .ret s' ∧ Represents s' (applyAll f steps) := by
  induction steps generalizing s f with
  | nil => exact ⟨s,rfl,h⟩
  | cons t rest ih =>
    obtain ⟨s',hstep,hrep⟩ := step_refines t.garbage h t.op hwit.1 hhar.1
    obtain ⟨s'',hrun,hrep'⟩ := ih hrep hwit.2 (hhar.2 s' hstep)
    exact ⟨s'',by rw [runAll,hstep]; exact hrun,hrep'⟩

theorem start_represents : Represents (fun _ => fresh) (fun _ => []) :=
  fun _ => ⟨fresh_good,slice_zero⟩

theorem harmless_of_plain {steps : List Step} (hplain : ∀ t ∈ steps, ∀ i c, t.op ≠ .storage i c) :
    AllHarmless s steps := by
  induction steps generalizing s with
  | nil => trivial
  | cons t rest ih =>
    refine ⟨?_,fun s' _ => ih (fun u hu => hplain u (mem_cons_of_mem _ hu))⟩
    cases hop : t.op with
    | storage i c => exact absurd hop (hplain t mem_cons_self i c)
    | _ => trivial

/-- Buffers are lists of bytes, and stay within their blocks. -/
theorem run_refines_lists (steps : List Step) (hplain : ∀ t ∈ steps, ∀ i c, t.op ≠ .storage i c)
    (hwithin : AllWithin (fun _ => []) steps) :
    ∃ s, runAll (fun _ => fresh) steps = .ret s ∧
      ∀ i, (s i).contents = applyAll (fun _ => []) steps i ∧ (s i).size = (applyAll (fun _ => []) steps i).length ∧
        (s i).readOffset+(s i).size ≤ (s i).capacity ∧ (s i).capacity = (s i).base.length := by
  obtain ⟨s,hrun,hrep⟩ := runAll_refines start_represents steps hwithin (harmless_of_plain hplain)
  refine ⟨s,hrun,fun i => ?_⟩
  obtain ⟨hgood,hcon⟩ := hrep i
  exact ⟨hcon,by rw [← hcon,hgood.length_contents],hgood.fits,hgood.base_length.symm⟩

theorem run_refines_lists_example :
    ∃ s, runAll (fun _ => fresh) [⟨.call 0 (.append (.outside [1, 2, 3])), fun _ => 0⟩, ⟨.appendFrom 0 0, fun _ => 0⟩,
      ⟨.call 0 (.eraseFront 2), fun _ => 0⟩] = .ret s ∧ (s 0).contents = [3, 1, 2, 3] := by
  obtain ⟨s,hrun,hs⟩ := run_refines_lists [⟨.call 0 (.append (.outside [1,2,3])),fun _ => 0⟩,
    ⟨.appendFrom 0 0,fun _ => 0⟩,⟨.call 0 (.eraseFront 2),fun _ => 0⟩]
    (by
      intro t ht i c hop
      simp only [List.mem_cons,List.not_mem_nil,or_false] at ht
      rcases ht with rfl | rfl | rfl <;> cases hop)
    ⟨⟨trivial,by decide⟩,show ([1,2,3] ++ [1,2,3] : Bytes).length ≤ kMaxSize by decide,⟨trivial,by decide⟩,trivial⟩
  exact ⟨s,hrun,(hs 0).1⟩

def Keeps (b : FastBuffer) (o : Outcome Failure FastBuffer) : Prop :=
  ∃ b', o = .ret b' ∧ b'.contents = b.contents ∧ b'.readOffset+b'.size ≤ b'.capacity

theorem Kept.keeps (h : ∃ b', o = .ret b' ∧ Kept b b') : Keeps b o := by
  obtain ⟨b',hret,hkept⟩ := h
  exact ⟨b',hret,hkept.contents_eq,hkept.good.fits⟩

theorem shrinkToFit_keeps_iff (garbage : Nat → UInt8) (h : Good b) :
    Keeps b (shrinkToFit garbage b) ↔ ¬ ShrinksBadly b := by
  constructor
  · rintro ⟨b',hret,-,hfits⟩ hbad
    obtain ⟨c,hret',hover,-⟩ := shrinkToFit_bad garbage h hbad
    rw [hret] at hret'
    cases hret'
    omega
  · exact fun hb => Kept.keeps (shrinkToFit_spec garbage h hb)

/-- In a run in which every `shrink_to_fit` finds a buffer that it does not harm, all goes as
with lists; and these are all the buffers that the storage calls leave as they are. -/
theorem storage_keeps_iff (steps : List Step) (hwithin : AllWithin (fun _ => []) steps)
    (hharmless : AllHarmless (fun _ => fresh) steps) :
    ∃ s, runAll (fun _ => fresh) steps = .ret s ∧
      (∀ i, (s i).contents = applyAll (fun _ => []) steps i ∧ (s i).readOffset+(s i).size ≤ (s i).capacity) ∧
      ∀ i garbage, (∀ n ≤ kMaxSize, Keeps (s i) (reserve garbage (s i) n)) ∧ Keeps (s i) (s i).compact ∧
        (Keeps (s i) (shrinkToFit garbage (s i)) ↔ ¬ ShrinksBadly (s i)) := by
  obtain ⟨s,hrun,hrep⟩ := runAll_refines start_represents steps hwithin hharmless
  refine ⟨s,hrun,fun i => ⟨(hrep i).2,(hrep i).1.fits⟩,fun i garbage => ?_⟩
  have hgood := (hrep i).1
  obtain ⟨c,hcom,hkept,-⟩ := compact_spec hgood
  exact ⟨fun n hn => Kept.keeps (reserve_spec garbage hgood hn),Kept.keeps ⟨c,hcom,hkept⟩,
    shrinkToFit_keeps_iff garbage hgood⟩

theorem storage_keeps_small :
    ∃ s, runAll (fun _ => fresh) [⟨.call 0 (.append (.outside [1, 2, 3])), fun _ => 0⟩] = .ret s ∧
      (s 0).contents = [1, 2, 3] ∧ Keeps (s 0) (s 0).compact := by
  obtain ⟨s,hrun,hcon,hkeeps⟩ := storage_keeps_iff
    [⟨.call 0 (.append (.outside [1,2,3])),fun _ => 0⟩] ⟨⟨trivial,by decide⟩,trivial⟩
    ⟨trivial,fun _ _ => trivial⟩
  exact ⟨s,hrun,(hcon 0).1,(hkeeps 0 (fun _ => 0)).2.1⟩

section Shrinking

variable {count : Nat}

theorem ensureCapacity_fresh (garbage : Nat → UInt8) (hlt : 4096 < count) (hle : count ≤ 8192) :
    ensureCapacity garbage fresh count = .ret
      { fresh with heapBuffer := allocateAligned garbage 8192, capacity := 8192, usingHeap := true } := by
  have hdoub : Goes (growTurn count) 4096 8192 := by
    rw [Goes,growTurn,if_pos hlt]
    rfl
  have hgrown : grownCapacity { fresh with readOffset := 0 } count = .ret 8192 := by
    obtain ⟨k,rfl⟩ : ∃ k, count = k+1 := ⟨count-1,by omega⟩
    change (run (growTurn (k+1)) (k+1+1) 4096).map _ = _
    rw [run_again hdoub,run_leave (by rw [growTurn,if_neg (by omega)])]
    simp only [Outcome.map,Outcome.bind_ret]
    rw [if_neg (show ¬ kMaxSize < 8192 by decide),if_neg (by omega)]
  have hav : sizeSub fresh.capacity fresh.readOffset = 4096 := rfl
  have hoff : ¬ (count ≤ fresh.capacity ∧ 0 < fresh.readOffset) := fun h => Nat.lt_irrefl 0 h.2
  rw [ensureCapacity,validateRequestedSize_ok (hle.trans (by decide)),Outcome.bind_ret,hav,
    if_neg (by omega),if_neg hoff,compact,if_pos (.inl rfl),Outcome.bind_ret,hgrown,Outcome.bind_ret]
  rfl

theorem fill_fresh (garbage : Nat → UInt8) (fill : UInt8) (hlt : 4096 < count) (hle : count ≤ 8192) :
    appendFill garbage fresh count fill = .ret
      { fresh with
        heapBuffer := overwrite (allocateAligned garbage 8192) 0 (replicate count fill), size := count,
        capacity := 8192, usingHeap := true } := by
  have hsum : sizeAdd fresh.size count = count := by
    change sizeAdd 0 count = count
    rw [sizeAdd_eq (by omega),Nat.zero_add]
  rw [appendFill,if_neg (by omega),hsum,validateRequestedSize_ok (hle.trans (by decide)),Outcome.bind_ret,
    ensureCapacity_fresh garbage hlt hle,Outcome.bind_ret,store,base,if_pos rfl]
  have hzero : fresh.readOffset+fresh.size = 0 := rfl
  simp only [hzero]
  rw [write_eq (by rw [length_allocateAligned,length_replicate]; omega)]
  simp only [orFault,Outcome.map,Outcome.bind_ret,withBase,if_true]

theorem erased_fill (garbage : Nat → UInt8) (fill : UInt8) (hlt : 4097 < count) (hle : count ≤ 8192) :
    ∃ s, runAll (fun _ => fresh) [⟨.call 0 (.appendFill count fill),garbage⟩,⟨.call 0 (.eraseFront 1),garbage⟩] =
        .ret s ∧ Good (s 0) ∧ (s 0).contents = replicate (count-1) fill ∧ ShrinksBadly (s 0) := by
  have hmax : count ≤ kMaxSize := hle.trans (by decide)
  obtain ⟨s,hrun,hrep⟩ := runAll_refines start_represents
    [⟨.call 0 (.appendFill count fill),garbage⟩,⟨.call 0 (.eraseFront 1),garbage⟩]
    ⟨⟨trivial,by simpa [Call.apply] using hmax⟩,⟨trivial,by simp [Call.apply,Op.apply]; omega⟩,trivial⟩
    ⟨trivial,fun _ _ => ⟨trivial,fun _ _ => trivial⟩⟩
  obtain ⟨hgood,hcon⟩ := hrep 0
  refine ⟨s,hrun,hgood,by simpa [applyAll,Op.apply,Call.apply] using hcon,?_⟩
  simp only [runAll,Op.step,set,Call.run,fill_fresh garbage fill (by omega : 4096 < count) hle,Outcome.map,
    Outcome.bind_ret,update_self,eraseFront] at hrun
  rw [if_neg (show ¬ count ≤ 1 by omega),if_neg (show ¬ 8192/2 < fresh.readOffset+1 by decide)] at hrun
  cases hrun
  exact ⟨rfl,show 4096 < count-1 by omega,show 0 < 0+1 by omega⟩

/-- From 5000 bytes on the heap one is consumed, and `shrink_to_fit` is called. -/
theorem shrinkToFit_loses_bytes :
    ∃ s, runAll (fun _ => fresh) [⟨.call 0 (.appendFill 5000 7), fun _ => 0⟩, ⟨.call 0 (.eraseFront 1), fun _ => 0⟩] =
        .ret s ∧ (s 0).contents = List.replicate 4999 7 ∧ ¬ Keeps (s 0) (shrinkToFit (fun _ => 0) (s 0)) := by
  obtain ⟨s,hrun,hgood,hcon,hbad⟩ := erased_fill (fun _ => 0) 7 (show 4097 < 5000 by decide) (by decide)
  exact ⟨s,hrun,hcon,fun hkeeps => (shrinkToFit_keeps_iff _ hgood).mp hkeeps hbad⟩

end Shrinking

end FastNet.FastBuffer
