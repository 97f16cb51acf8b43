import FastNet.FastBuffer

/-!
What the calls of `FastBuffer` do to the bytes that can be read, as long as the offset and
the size stay within the block.
-/

namespace FastNet.FastBuffer

open Loop Numeral Block List Outcome Nat

variable {b b' other : FastBuffer} {bytes : Bytes} {garbage : Nat → UInt8} {n offset : Nat}
  {required : Nat} {contents : Bytes}

/-- The invariant of the class: what can be read is within the block, and `capacity_` is the
length of the block, inline or on the heap. -/
structure Good (b : FastBuffer) : Prop where
  fits : b.readOffset+b.size ≤ b.capacity
  stack_length : b.stackBuffer.length = kStackSize
  base_length : b.base.length = b.capacity
  room : kStackSize ≤ b.capacity
  limit : b.capacity ≤ kMaxSize

@[simp] theorem base_withBase : (b.withBase bytes).base = bytes := by
  cases h : b.usingHeap <;> simp [base,withBase,h]

@[simp] theorem size_withBase : (b.withBase bytes).size = b.size := by
  cases h : b.usingHeap <;> simp [withBase,h]

@[simp] theorem capacity_withBase : (b.withBase bytes).capacity = b.capacity := by
  cases h : b.usingHeap <;> simp [withBase,h]

@[simp] theorem readOffset_withBase : (b.withBase bytes).readOffset = b.readOffset := by
  cases h : b.usingHeap <;> simp [withBase,h]

@[simp] theorem usingHeap_withBase : (b.withBase bytes).usingHeap = b.usingHeap := by
  cases h : b.usingHeap <;> simp [withBase,h]

theorem Good.length_contents (h : Good b) : b.contents.length = b.size :=
  length_slice (by rw [h.base_length]; exact h.fits)

theorem Good.rewrite (h : Good b) (hbytes : bytes.length = b.capacity) {readOffset size : Nat}
    (hfits : readOffset+size ≤ b.capacity) : Good { b.withBase bytes with readOffset, size } where
  fits := by simpa using hfits
  stack_length := by
    have hstack := h.stack_length
    have hbase := h.base_length
    cases hheap : b.usingHeap with
    | true => simpa [withBase,hheap] using hstack
    | false =>
      simp only [base,hheap] at hbase
      simp only [withBase,hheap]
      exact (hbytes.trans hbase.symm).trans hstack
  base_length := by
    have hbase : ({ b.withBase bytes with readOffset, size } : FastBuffer).base = (b.withBase bytes).base := rfl
    rw [hbase,base_withBase]
    simpa using hbytes
  room := by simpa using h.room
  limit := by simpa using h.limit

theorem Good.withBase (h : Good b) (hbytes : bytes.length = b.capacity) : Good (b.withBase bytes) := by
  have hfits := h.rewrite hbytes (show (b.withBase bytes).readOffset+(b.withBase bytes).size ≤ b.capacity by
    rw [readOffset_withBase,size_withBase]
    exact h.fits)
  exact hfits

theorem Good.reframe (h : Good b) {readOffset size : Nat} (hfits : readOffset+size ≤ b.capacity) :
    Good { b with readOffset, size } :=
  ⟨hfits,h.stack_length,h.base_length,h.room,h.limit⟩

theorem store_eq (h : Good b) (hfits : b.readOffset+offset+bytes.length ≤ b.capacity) :
    b.store offset bytes = .ret (b.withBase (overwrite b.base (b.readOffset+offset) bytes)) := by
  rw [store,write_eq (by rw [h.base_length]; exact hfits)]
  rfl

/-- The bytes behind the first `offset` ones are written, and the size is set to their end. -/
theorem store_end (bytes : Bytes) (h : Good b) (hoff : offset ≤ b.size) (hfits : b.readOffset+offset+bytes.length ≤ b.capacity)
    (hn : n = offset+bytes.length) :
    ∃ b', (b.store offset bytes).map (fun b' => { b' with size := n }) = .ret b' ∧ Good b' ∧
      b'.contents = b.contents.take offset ++ bytes := by
  have hlen := h.base_length
  rw [store_eq h hfits]
  refine ⟨_,rfl,h.rewrite ((length_overwrite (by omega)).trans hlen) (by rw [readOffset_withBase]; omega),?_⟩
  subst hn
  have hbase : (b.withBase (overwrite b.base (b.readOffset+offset) bytes)).base = _ := base_withBase
  change slice (b.withBase _).base (b.withBase _).readOffset (offset+bytes.length) = _
  rw [hbase,readOffset_withBase,slice_add,slice_overwrite_before (le_refl _) (by omega),
    slice_overwrite_self (by omega),contents,take_slice hoff]

structure Kept (b b' : FastBuffer) : Prop where
  good : Good b'
  contents_eq : b'.contents = b.contents

theorem Kept.size_eq (h : Good b) (hk : Kept b b') : b'.size = b.size := by
  rw [← hk.good.length_contents,hk.contents_eq,h.length_contents]

theorem Kept.refl (h : Good b) : Kept b b := ⟨h,rfl⟩

theorem Kept.trans {b'' : FastBuffer} (h : Kept b b') (h' : Kept b' b'') : Kept b b'' :=
  ⟨h'.good,h'.contents_eq.trans h.contents_eq⟩

theorem compact_spec (h : Good b) :
    ∃ b', b.compact = .ret b' ∧ Kept b b' ∧ b'.readOffset = 0 ∧ b'.capacity = b.capacity := by
  have hfits := h.fits
  have hlen := h.base_length
  rw [compact]
  split
  · rename_i hzero
    refine ⟨_,rfl,⟨h.reframe (by omega),?_⟩,rfl,rfl⟩
    change slice b.base 0 b.size = slice b.base b.readOffset b.size
    rcases hzero with hoff | hsize
    · rw [hoff]
    · rw [hsize,slice_zero,slice_zero]
  · rw [move_eq (by omega) (by omega)]
    refine ⟨_,rfl,⟨h.rewrite ?_ (by rw [size_withBase]; omega),?_⟩,rfl,by simp⟩
    · rw [length_overwrite (by rw [length_slice (by omega)]; omega),hlen]
    · change slice (b.withBase _).base 0 (b.withBase _).size = slice b.base b.readOffset b.size
      rw [base_withBase,size_withBase]
      have hself := slice_overwrite_self (b := b.base) (s := slice b.base b.readOffset b.size) (zero_le _)
      rwa [length_slice (by omega)] at hself

section Growth

theorem growTurn_again {c c' : Nat} (hpos : 0 < c) (hreq : required ≤ kMaxSize)
    (h : Goes (growTurn required) c c') : c < c' ∧ c' ≤ kMaxSize ∧ c < required := by
  unfold Goes growTurn at h
  split at h
  · rename_i hlt
    cases h
    split <;> omega
  · cases h

theorem grownCapacity_spec (hroom : kStackSize ≤ b.capacity) (hlimit : b.capacity ≤ kMaxSize)
    (hreq : required ≤ kMaxSize) :
    ∃ n, b.grownCapacity required = .ret n ∧ required ≤ n ∧ b.capacity ≤ n ∧ n ≤ kMaxSize := by
  have hne : b.capacity ≠ 0 := by
    unfold kStackSize at hroom
    omega
  have hstep : ∀ c c', (b.capacity ≤ c ∧ c ≤ kMaxSize) → Goes (growTurn required) c c' →
      (b.capacity ≤ c' ∧ c' ≤ kMaxSize) ∧ required-c' < required-c := by
    intro c c' hc hgoes
    have hagain := growTurn_again (by omega) hreq hgoes
    omega
  have hends := run_ne_hang_of_variant (fun c => required-c) hstep ⟨le_refl _,hlimit⟩
    (show required-b.capacity < required+1 by omega)
  obtain ⟨c,hvis,⟨n,hleave,hret⟩ | ⟨x,herror,-⟩⟩ := exists_visit_of_run_eq hends
  · have hc := visits_invariant (fun c c' h hgoes => (hstep c c' h hgoes).1) ⟨le_refl _,hlimit⟩ hvis
    unfold growTurn at hleave
    split at hleave
    · cases hleave
    · rename_i hge
      cases hleave
      rw [grownCapacity,if_neg hne,hret]
      refine ⟨c,?_,by omega,hc.1,hc.2⟩
      simp only [Outcome.map,Outcome.bind_ret]
      rw [if_neg (show ¬ kMaxSize < c by omega),if_neg hge]
  · unfold growTurn at herror
    split at herror <;> cases herror

@[simp] theorem length_allocateAligned : (allocateAligned garbage n).length = n := by simp [allocateAligned]

theorem releaseHeap_stackBuffer : b.releaseHeap.stackBuffer = b.stackBuffer := by
  unfold releaseHeap
  split <;> rfl

theorem reallocate_spec (garbage : Nat → UInt8) (h : Good b) (hoff : b.readOffset = 0) (hn : b.capacity ≤ n) (hlimit : n ≤ kMaxSize) :
    ∃ b', reallocate garbage b n = .ret b' ∧ Kept b b' ∧ b'.readOffset = 0 ∧ b'.capacity = n := by
  have hfits := h.fits
  have hlen := h.base_length
  obtain ⟨newBuffer,hnew,hnewl,hslice⟩ : ∃ newBuffer : Bytes,
      (if 0 < b.size then orFault (move (allocateAligned garbage n) 0 b.base b.readOffset b.size)
        else .ret (allocateAligned garbage n)) = .ret newBuffer ∧
      newBuffer.length = n ∧ slice newBuffer 0 b.size = b.contents := by
    split
    · rw [move_eq (by rw [length_allocateAligned]; omega) (by omega)]
      refine ⟨_,rfl,?_,?_⟩
      · rw [length_overwrite (by rw [length_slice (by omega),length_allocateAligned]; omega),length_allocateAligned]
      · have hself := slice_overwrite_self (b := allocateAligned garbage n) (s := b.contents) (zero_le _)
        rwa [h.length_contents] at hself
    · rename_i hzero
      have hsize : b.size = 0 := by omega
      refine ⟨_,rfl,length_allocateAligned,?_⟩
      rw [contents,hsize,slice_zero,slice_zero]
  have hrel : b.releaseHeap.readOffset = 0 ∧ b.releaseHeap.size = b.size := by
    unfold releaseHeap
    split
    · exact ⟨rfl,rfl⟩
    · exact ⟨hoff,rfl⟩
  rw [reallocate,hnew]
  refine ⟨_,rfl,⟨⟨?_,?_,?_,h.room.trans hn,hlimit⟩,?_⟩,hrel.1,rfl⟩
  · change b.releaseHeap.readOffset+b.releaseHeap.size ≤ n
    rw [hrel.1,hrel.2]
    omega
  · exact (congrArg length releaseHeap_stackBuffer).trans h.stack_length
  · exact hnewl
  · change slice newBuffer b.releaseHeap.readOffset b.releaseHeap.size = b.contents
    rw [hrel.1,hrel.2,hslice]

theorem ensureCapacity_spec (garbage : Nat → UInt8) (h : Good b) (hn : n ≤ kMaxSize) :
    ∃ b', ensureCapacity garbage b n = .ret b' ∧ Kept b b' ∧ b'.readOffset+n ≤ b'.capacity := by
  have hfits := h.fits
  have hlimit := h.limit
  have hav : sizeSub b.capacity b.readOffset = b.capacity-b.readOffset := by
    unfold sizeSub
    unfold kMaxSize at hlimit
    omega
  rw [ensureCapacity,validateRequestedSize,if_neg (by omega),bind_ret,hav]
  split
  · exact ⟨b,rfl,.refl h,by omega⟩
  · obtain ⟨c,hcom,hkept,hoff,hca⟩ := compact_spec h
    split
    · exact ⟨c,hcom,hkept,by omega⟩
    · have hgood := hkept.good
      obtain ⟨m,hgrown,hreq,hle,hmax⟩ := grownCapacity_spec hgood.room hgood.limit hn
      obtain ⟨d,hd,hkept',hoffs,hcap⟩ := reallocate_spec garbage hgood hoff hle hmax
      refine ⟨d,?_,hkept.trans hkept',by omega⟩
      rw [hcom,bind_ret,hgrown,bind_ret,hd]

end Growth

section Sources

variable {src : Source}

def Source.toBytes (contents : Bytes) : Source → Bytes
  | .null _ => []
  | .outside bytes => bytes
  | .inside offset n => slice contents offset n

def Source.Within (size : Nat) : Source → Prop
  | .inside offset n => offset+n ≤ size
  | _ => True

theorem Source.toBytes_nil (h : src.isNull ∨ src.len = 0) : src.toBytes contents = [] := by
  cases src with
  | null n => rfl
  | outside bytes =>
    rcases h with hnull | hlen
    · cases hnull
    · exact length_eq_zero_iff.mp hlen
  | inside offset n =>
    rcases h with hnull | hlen
    · cases hnull
    · obtain rfl : n = 0 := hlen
      exact slice_zero

theorem Source.length_toBytes (h : ¬ (src.isNull ∨ src.len = 0)) (hwit : src.Within contents.length) :
    (src.toBytes contents).length = src.len := by
  cases src with
  | null n => simp [Source.isNull] at h
  | outside bytes => rfl
  | inside offset n => exact length_slice hwit

theorem read_inside (h : Good b) (hle : offset+n ≤ b.size) :
    read b.base (b.readOffset+offset) n = some (slice b.contents offset n) := by
  have hfits := h.fits
  have hlen := h.base_length
  rw [read_eq (by omega),contents,slice_slice hle]

theorem Source.fetch_spec (h : Good b) (hk : Kept b b') (hsrc : ¬ (src.isNull ∨ src.len = 0))
    (hwit : src.Within b.size) : src.fetch b.size b' = .ret (src.toBytes b.contents) := by
  cases src with
  | null n => simp [Source.isNull] at hsrc
  | outside bytes => rfl
  | inside offset n =>
    have hle : offset+n ≤ b.size := hwit
    have hpos : n ≠ 0 := fun hzero => hsrc (.inr hzero)
    have hsize := hk.size_eq h
    rw [Source.fetch,if_pos (by omega),read_inside hk.good (by omega),hk.contents_eq]
    rfl

theorem Source.toVector_spec (h : Good b) (hwit : src.Within b.size) :
    src.toVector b = .ret (src.toBytes b.contents) := by
  cases src with
  | null n => rfl
  | outside bytes => rfl
  | inside offset n =>
    rw [Source.toVector,read_inside h hwit]
    rfl

end Sources

section Writes

variable {src : Source}

theorem sizeAdd_within (h : n+offset ≤ kMaxSize) : sizeAdd n offset = n+offset :=
  sizeAdd_eq (by unfold kMaxSize at h; omega)

theorem validateRequestedSize_ok (h : n ≤ kMaxSize) : validateRequestedSize n = .ret () :=
  if_neg (not_lt.mpr h)

theorem store_behind (bytes : Bytes) (h : Good b) (hk : Kept b b')
    (hroom : b'.readOffset+(b.size+bytes.length) ≤ b'.capacity) :
    ∃ b'', (b'.store b.size bytes).map (fun b'' => { b'' with size := b.size+bytes.length }) = .ret b'' ∧ Good b'' ∧
      b''.contents = b.contents ++ bytes := by
  have hsize := hk.size_eq h
  obtain ⟨b'',hret,hgood,hcon⟩ := store_end bytes hk.good (le_of_eq hsize.symm) (by omega) rfl
  refine ⟨b'',hret,hgood,?_⟩
  rw [hcon,hk.contents_eq,← h.length_contents,take_length]

theorem append_spec (garbage : Nat → UInt8) (src : Source) (h : Good b) (hwit : src.Within b.size)
    (hlimit : (b.contents ++ src.toBytes b.contents).length ≤ kMaxSize) :
    ∃ b', append garbage b src = .ret b' ∧ Good b' ∧ b'.contents = b.contents ++ src.toBytes b.contents := by
  rw [append]
  split
  · rename_i hnil
    exact ⟨b,rfl,h,by rw [Source.toBytes_nil hnil,append_nil]⟩
  · rename_i hsrc
    have hlen := Source.length_toBytes hsrc (by rwa [h.length_contents])
    rw [length_append,h.length_contents,hlen] at hlimit
    obtain ⟨c,hc,hkept,hroom⟩ := ensureCapacity_spec garbage h hlimit
    rw [sizeAdd_within hlimit,validateRequestedSize_ok hlimit,bind_ret,hc,bind_ret,
      Source.fetch_spec h hkept hsrc hwit,bind_ret,← hlen]
    exact store_behind _ h hkept (by rwa [hlen])

theorem appendFill_spec (garbage : Nat → UInt8) (h : Good b) {count : Nat} (fill : UInt8)
    (hlimit : b.size+count ≤ kMaxSize) :
    ∃ b', appendFill garbage b count fill = .ret b' ∧ Good b' ∧
      b'.contents = b.contents ++ replicate count fill := by
  rw [appendFill]
  split
  · rename_i hzero
    exact ⟨b,rfl,h,by simp [hzero]⟩
  · obtain ⟨c,hc,hkept,hroom⟩ := ensureCapacity_spec garbage h hlimit
    rw [sizeAdd_within hlimit,validateRequestedSize_ok hlimit,bind_ret,hc,bind_ret]
    have hstore := store_behind (replicate count fill) h hkept (by simpa using hroom)
    simpa using hstore

theorem store_size (h : Good b) (hfits : b.readOffset+offset+bytes.length ≤ b.capacity) (k : Nat) :
    (b.store offset bytes).map (fun b' => { b' with size := b'.size+k }) =
      (b.store offset bytes).map (fun b' => { b' with size := b.size+k }) := by
  rw [store_eq h hfits]
  simp [Outcome.map]

section

variable (garbage : Nat → UInt8)

theorem pushBack_spec (h : Good b) (byte : UInt8) (hlimit : b.size+1 ≤ kMaxSize) :
    ∃ b', pushBack garbage b byte = .ret b' ∧ Good b' ∧ b'.contents = b.contents ++ [byte] := by
  obtain ⟨c,hc,hkept,hroom⟩ := ensureCapacity_spec garbage h hlimit
  have hsize := hkept.size_eq h
  rw [pushBack,sizeAdd_within hlimit,hc,bind_ret,store_size hkept.good (by rw [hsize,length_singleton]; omega),hsize]
  exact store_behind [byte] h hkept hroom

theorem resize_spec (h : Good b) (fill : UInt8) (hlimit : n ≤ kMaxSize) :
    ∃ b', resize garbage b n fill = .ret b' ∧ Good b' ∧
      b'.contents = b.contents.take n ++ replicate (n-b.size) fill := by
  obtain ⟨c,hc,hkept,hroom⟩ := ensureCapacity_spec garbage h hlimit
  have hsize := hkept.size_eq h
  rw [resize,validateRequestedSize_ok hlimit,bind_ret,hc,bind_ret,hsize]
  by_cases hlt : b.size < n
  · rw [if_pos hlt]
    have hstore := store_behind (replicate (n-b.size) fill) h hkept (by simp; omega)
    rw [length_replicate,show b.size+(n-b.size) = n by omega] at hstore
    rwa [take_of_length_le (by rw [h.length_contents]; omega)]
  · rw [if_neg hlt]
    have hfits := hkept.good.fits
    refine ⟨_,rfl,hkept.good.reframe (by omega),?_⟩
    change slice c.base c.readOffset n = _
    rw [show n-b.size = 0 by omega,replicate_zero,append_nil,← hkept.contents_eq,contents,take_slice (by omega)]

theorem assign_spec (src : Source) (h : Good b) (hwit : src.Within b.size)
    (hlimit : (src.toBytes b.contents).length ≤ kMaxSize) :
    ∃ b', assign garbage b src = .ret b' ∧ Good b' ∧ b'.contents = src.toBytes b.contents := by
  rw [assign]
  split
  · rename_i hnil
    refine ⟨_,rfl,h.reframe (zero_le _),?_⟩
    rw [Source.toBytes_nil hnil]
    exact slice_zero
  · rename_i hsrc
    have hlen := Source.length_toBytes hsrc (by rwa [h.length_contents])
    rw [hlen] at hlimit
    obtain ⟨c,hc,hkept,hroom⟩ := ensureCapacity_spec garbage h hlimit
    rw [validateRequestedSize_ok hlimit,bind_ret,hc,bind_ret,Source.fetch_spec h hkept hsrc hwit,bind_ret]
    obtain ⟨d,hd,hgood,hcon⟩ := store_end (src.toBytes b.contents) hkept.good (zero_le _) (by omega)
      (show src.len = 0+(src.toBytes b.contents).length by omega)
    exact ⟨d,hd,hgood,by simpa using hcon⟩

theorem insert_spec (h : Good b) (hwit : src.Within b.size) (hoff : offset ≤ b.size)
    (hlimit : b.size+(src.toBytes b.contents).length ≤ kMaxSize) :
    ∃ b', insert garbage b offset src = .ret b' ∧ Good b' ∧
      b'.contents = b.contents.take offset ++ src.toBytes b.contents ++ b.contents.drop offset := by
  rw [insert,if_neg (by omega),Source.toVector_spec h hwit,bind_ret]
  generalize src.toBytes b.contents = temp at hlimit ⊢
  by_cases hnil : temp = []
  · rw [if_pos hnil]
    exact ⟨b,rfl,h,by simp [hnil]⟩
  · rw [if_neg hnil]
    obtain ⟨c,hc,hkept,hroom⟩ := ensureCapacity_spec garbage h hlimit
    have hsize := hkept.size_eq h
    have hgood := hkept.good
    have hlen := hgood.base_length
    have hfits : c.readOffset+offset+temp.length+(b.size-offset) ≤ c.base.length := by omega
    have htail : (slice c.base (c.readOffset+offset) (b.size-offset)).length = b.size-offset :=
      length_slice (by omega)
    have hmoved := hgood.withBase ((length_overwrite (i := c.readOffset+offset+temp.length)
      (s := slice c.base (c.readOffset+offset) (b.size-offset)) (by omega)).trans hlen)
    rw [sizeAdd_within hlimit,validateRequestedSize_ok hlimit,bind_ret,hc,bind_ret,moveData,
      hsize,← add_assoc,move_eq (by omega) (by omega)]
    change ∃ b', (store (c.withBase _) offset temp).map _ = .ret b' ∧ _
    rw [store_eq hmoved (by simp only [readOffset_withBase,capacity_withBase]; omega)]
    refine ⟨_,rfl,hmoved.rewrite ?_ ?_,?_⟩
    · rw [length_overwrite (by rw [hmoved.base_length,readOffset_withBase,capacity_withBase]; omega),
        hmoved.base_length]
    · simp only [readOffset_withBase,size_withBase,capacity_withBase]
      omega
    · change slice (withBase (c.withBase _) _).base (withBase (c.withBase _) _).readOffset
        ((withBase (c.withBase _) _).size+temp.length) = _
      simp only [base_withBase,readOffset_withBase,size_withBase]
      rw [show c.size+temp.length = offset+(temp.length+(b.size-offset)) by omega,slice_insert hfits,
        ← hkept.contents_eq,contents,take_slice (by omega),drop_slice,hsize]

end

end Writes

section Reads

theorem popBack_spec (h : Good b) : Good b.popBack ∧ b.popBack.contents = b.contents.dropLast := by
  have hfits := h.fits
  rw [popBack]
  split
  · refine ⟨h.reframe (by omega),?_⟩
    rw [dropLast_eq_take,h.length_contents,contents,contents,take_slice (by omega)]
    rfl
  · rename_i hzero
    refine ⟨h,?_⟩
    rw [contents,show b.size = 0 by omega,slice_zero]
    rfl

theorem clear_spec (h : Good b) : Good b.clear ∧ b.clear.contents = [] :=
  ⟨h.reframe (zero_le _),slice_zero⟩

theorem eraseFront_spec (h : Good b) :
    ∃ b', b.eraseFront n = .ret b' ∧ Good b' ∧ b'.contents = b.contents.drop n := by
  have hfits := h.fits
  rw [eraseFront]
  split
  · rename_i hle
    refine ⟨_,rfl,(clear_spec h).1,?_⟩
    rw [(clear_spec h).2,drop_eq_nil_of_le (by rw [h.length_contents]; exact hle)]
  · have hgood : Good { b with readOffset := b.readOffset+n, size := b.size-n } := h.reframe (by omega)
    have hcon : ({ b with readOffset := b.readOffset+n, size := b.size-n } : FastBuffer).contents =
        b.contents.drop n := drop_slice.symm
    simp only
    split
    · obtain ⟨c,hc,hkept,-⟩ := compact_spec hgood
      exact ⟨c,hc,hkept.good,hkept.contents_eq.trans hcon⟩
    · exact ⟨_,rfl,hgood,hcon⟩

end Reads

section Moves

theorem inline_good {stack heap : Bytes} {size readOffset : Nat} (hstack : stack.length = kStackSize)
    (hfits : readOffset+size ≤ kStackSize) : Good ⟨stack,heap,size,kStackSize,readOffset,false⟩ :=
  ⟨hfits,hstack,hstack,le_refl _,(by decide : kStackSize ≤ kMaxSize)⟩

theorem fresh_good : Good fresh := inline_good length_replicate (zero_le _)

theorem reset_spec (h : Good b) : Good b.reset ∧ b.reset.contents = [] := by
  unfold reset releaseHeap
  split
  · exact ⟨inline_good h.stack_length (zero_le _),slice_zero⟩
  · exact clear_spec h

theorem moveFrom_spec (hb : b.stackBuffer.length = kStackSize) (h : Good other) :
    ∃ b' left, moveFrom b other = .ret (b',left) ∧ Good b' ∧ b'.contents = other.contents ∧ Good left ∧
      left.contents = [] := by
  have hfits := h.fits
  have hbase := h.base_length
  rw [moveFrom]
  cases hheap : other.usingHeap with
  | true =>
    simp only [base,hheap,if_true] at hbase
    refine ⟨_,_,rfl,⟨hfits,hb,hbase,h.room,h.limit⟩,?_,inline_good h.stack_length (zero_le _),slice_zero⟩
    simp [contents,base,hheap]
  | false =>
    have hstack := h.stack_length
    simp only [base,hheap,Bool.false_eq_true,if_false] at hbase ⊢
    have hcap : other.capacity = kStackSize := hbase.symm.trans hstack
    split
    · rw [move_eq (by omega) (by omega),hcap]
      have hslice : (slice other.stackBuffer other.readOffset other.size).length = other.size :=
        length_slice (by omega)
      refine ⟨_,_,rfl,inline_good ((length_overwrite (by omega)).trans hb) (by omega),?_,
        inline_good hstack (zero_le _),slice_zero⟩
      have hself := slice_overwrite_self (b := b.stackBuffer) (s := slice other.stackBuffer other.readOffset other.size)
        (zero_le _)
      rw [hslice] at hself
      simpa [contents,base,hheap] using hself
    · rename_i hzero
      rw [hcap]
      refine ⟨_,_,rfl,inline_good hb (by omega),?_,inline_good hstack (zero_le _),slice_zero⟩
      simp [contents,show other.size = 0 by omega]

theorem moveAssign_spec (hb : b.stackBuffer.length = kStackSize) (h : Good other) :
    ∃ b' left, moveAssign b other = .ret (b',left) ∧ Good b' ∧ b'.contents = other.contents ∧ Good left ∧
      left.contents = [] :=
  moveFrom_spec (by rw [releaseHeap_stackBuffer]; exact hb) h

theorem swap_spec (h : Good b) (ho : Good other) :
    ∃ b' other', swap b other = .ret (b',other') ∧ Good b' ∧ b'.contents = other.contents ∧ Good other' ∧
      other'.contents = b.contents := by
  rw [swap]
  split
  · rename_i hboth
    obtain ⟨hheap,hheap'⟩ := hboth
    have hbase := h.base_length
    have hbase' := ho.base_length
    simp only [base,hheap,hheap',if_true] at hbase hbase'
    refine ⟨_,_,rfl,⟨ho.fits,h.stack_length,?_,ho.room,ho.limit⟩,?_,
      ⟨h.fits,ho.stack_length,?_,h.room,h.limit⟩,?_⟩
    · simpa [base,hheap] using hbase'
    · simp [contents,base,hheap,hheap']
    · simpa [base,hheap'] using hbase
    · simp [contents,base,hheap,hheap']
  · obtain ⟨tmp,left,hmove,htmp,htmpc,hleft,-⟩ := moveFrom_spec fresh_good.stack_length ho
    obtain ⟨other',left',hmove',hother,hoth,hleft',-⟩ := moveAssign_spec hleft.stack_length h
    obtain ⟨b',left'',hmove'',hb,hbc,-⟩ := moveAssign_spec hleft'.stack_length htmp
    refine ⟨b',other',?_,hb,hbc.trans htmpc,hother,hoth⟩
    simp only [hmove,hmove',hmove'',Outcome.bind_ret,Outcome.map]

end Moves

section Storage

theorem reserve_spec (garbage : Nat → UInt8) (h : Good b) (hlimit : n ≤ kMaxSize) :
    ∃ b', reserve garbage b n = .ret b' ∧ Kept b b' := by
  obtain ⟨c,hc,hkept,-⟩ := ensureCapacity_spec garbage h hlimit
  exact ⟨c,by rw [reserve,validateRequestedSize_ok hlimit,bind_ret,hc],hkept⟩

theorem moveToStack_spec (h : Good b) (hsize : b.size ≤ kStackSize) :
    ∃ b', b.moveToStack = .ret b' ∧ Kept b b' := by
  have hfits := h.fits
  have hbase := h.base_length
  have hstack := h.stack_length
  rw [moveToStack]
  split
  · split
    · rw [move_eq (by omega) (by omega)]
      have hslice : (slice b.base b.readOffset b.size).length = b.size := length_slice (by omega)
      refine ⟨_,rfl,inline_good ((length_overwrite (by omega)).trans hstack) (by omega),?_⟩
      have hself := slice_overwrite_self (b := b.stackBuffer) (s := slice b.base b.readOffset b.size) (zero_le _)
      rwa [hslice] at hself
    · refine ⟨_,rfl,inline_good hstack (by omega),?_⟩
      simp [contents,show b.size = 0 by omega]
  · exact ⟨b,rfl,.refl h⟩

/-- The block of `shrink_to_fit` is filled from the front of the old one, whatever the offset. -/
def ShrinksBadly (b : FastBuffer) : Prop := b.usingHeap = true ∧ kStackSize < b.size ∧ 0 < b.readOffset

instance : Decidable (ShrinksBadly b) := inferInstanceAs (Decidable (_ ∧ _ ∧ _))

section

variable (garbage : Nat → UInt8)

theorem shrinkToFit_heap (h : Good b) (hheap : b.usingHeap = true) (hsize : kStackSize < b.size)
    (hne : b.size ≠ b.capacity) : shrinkToFit garbage b =
      .ret { b with heapBuffer := overwrite (allocateAligned garbage b.size) 0 (slice b.heapBuffer 0 b.size),
                    capacity := b.size } := by
  have hfits := h.fits
  have hbase := h.base_length
  simp only [base,hheap,if_true] at hbase
  rw [shrinkToFit,if_neg (by simp [hheap]),if_neg (by omega),if_neg hne,
    move_eq (by rw [length_allocateAligned]; omega) (by omega)]
  rfl

theorem shrinkToFit_spec (h : Good b) (hb : ¬ ShrinksBadly b) :
    ∃ b', shrinkToFit garbage b = .ret b' ∧ Kept b b' := by
  have hfits := h.fits
  cases hheap : b.usingHeap with
  | false => exact ⟨b,by simp [shrinkToFit,hheap],.refl h⟩
  | true =>
    by_cases hsmall : b.size ≤ kStackSize
    · obtain ⟨c,hc,hkept⟩ := moveToStack_spec h hsmall
      exact ⟨c,by simp [shrinkToFit,hheap,hsmall,hc],hkept⟩
    · by_cases heq : b.size = b.capacity
      · refine ⟨b,?_,.refl h⟩
        rw [shrinkToFit,if_neg (by simp [hheap]),if_neg hsmall,if_pos heq]
      · have hoff : b.readOffset = 0 := by
          by_contra hne
          exact hb ⟨hheap,by omega,by omega⟩
        have hbase := h.base_length
        have hlimit := h.limit
        simp only [base,hheap,if_true] at hbase
        have hslice : (slice b.heapBuffer 0 b.size).length = b.size := length_slice (by omega)
        refine ⟨_,shrinkToFit_heap garbage h hheap (by omega) heq,⟨?_,h.stack_length,?_,?_,?_⟩,?_⟩
        · simp [hoff]
        · simp [base,hheap,hslice]
        · exact Nat.le_of_lt (Nat.lt_of_not_le hsmall)
        · exact (show b.size ≤ kMaxSize by omega)
        · have hself := slice_overwrite_self (b := allocateAligned garbage b.size) (s := slice b.heapBuffer 0 b.size)
            (Nat.zero_le _)
          rw [hslice] at hself
          simpa [contents,base,hheap,hoff] using hself

/-- With an offset, `shrink_to_fit` leaves a block that is shorter than what can be read. -/
theorem shrinkToFit_bad (h : Good b) (hb : ShrinksBadly b) :
    ∃ b', shrinkToFit garbage b = .ret b' ∧ b'.capacity < b'.readOffset+b'.size ∧ b'.contents ≠ b.contents := by
  obtain ⟨hheap,hsize,hoff⟩ := hb
  have hfits := h.fits
  have hbase := h.base_length
  simp only [base,hheap,if_true] at hbase
  have hslice : (slice b.heapBuffer 0 b.size).length = b.size := length_slice (by omega)
  refine ⟨_,shrinkToFit_heap garbage h hheap hsize (by omega),?_,fun heq => ?_⟩
  · exact (show b.size < b.readOffset+b.size by omega)
  · have hblock : (overwrite (allocateAligned garbage b.size) 0 (slice b.heapBuffer 0 b.size)).length = b.size := by
      rw [length_overwrite (by rw [hslice,length_allocateAligned]; omega),length_allocateAligned]
    have hlen := (congrArg length heq).trans h.length_contents
    simp only [contents,base,hheap,if_true] at hlen
    rw [slice,length_take,length_drop,hblock] at hlen
    omega

end

end Storage

end FastNet.FastBuffer
