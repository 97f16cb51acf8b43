import FastNet.ChunkedBody

/-!
What the three scanners of chunked bodies keep to, and the sizes that make them fail.
-/

namespace FastNet

open Text Loop Chunked

namespace Chunked

/-- The places behind whole chunks, counted without wrapping around: the first size
line is at 0, and each further one behind a chunk of at least one byte. -/
inductive Boundary (read : Bytes → Option Nat) (data : Bytes) : Nat → Prop where
  | start : Boundary read data 0
  | next {offset start size : Nat} : Boundary read data offset →
      SizeLine read data offset start size → size ≠ 0 → OccursAt crlf data (start+size) →
      Boundary read data (start+size+2)

theorem Boundary.le {read : Bytes → Option Nat} {data : Bytes} {offset : Nat}
    (h : Boundary read data offset) : offset ≤ data.length := by
  cases h with
  | start => exact Nat.zero_le _
  | next _ _ _ hm => exact crlf_bound hm

/-- No chunk that the scan comes to has a size with `bad start size`. -/
def Clear (read : Bytes → Option Nat) (bad : Nat → Nat → Prop) (data : Bytes) : Prop :=
  ∀ offset start size, Boundary read data offset → SizeLine read data offset start size →
    ¬ bad start size

/-- What a scanner of `data` owes. `chunkAt` tells the states before a size line, `pos`
is the loop's offset, `size` the size that a result reports. -/
structure ScansInside {σ ρ : Type} (read : Bytes → Option Nat) (data : Bytes)
    (body : σ → Except Exn (Turn σ ρ)) (s₀ : σ) (outcome : Outcome Exn ρ)
    (chunkAt : σ → Option Nat) (pos : σ → Nat) (size : ρ → Option Nat) : Prop where
  terminates : outcome ≠ .hang
  inRange : ∀ s, Visits body s₀ s → ∀ e, body s ≠ .error e
  increases : ∀ s s', Visits body s₀ s → Goes body s s' → pos s < pos s'
  inside : ∀ s s' offset start n, Visits body s₀ s → Goes body s s' → chunkAt s = some offset →
    SizeLine read data offset start n → n ≠ 0 → start+n+2 ≤ data.length
  reports : ∀ r n, outcome = .ret r → size r = some n → n ≤ data.length

section ScansInside

variable {σ ρ : Type} {read : Bytes → Option Nat} {data : Bytes}
  {body : σ → Except Exn (Turn σ ρ)} {s₀ : σ} {chunkAt : σ → Option Nat} {pos : σ → Nat}
  {size : ρ → Option Nat}

theorem scansInside_of_invariant (Inv : σ → Prop) {fuel : Nat} (hfuel : data.length < fuel)
    (h₀ : Inv s₀) (hpos : ∀ s, Inv s → pos s ≤ data.length)
    (hturn : ∀ s, Inv s →
      (∃ r, body s = .ok (.leave r) ∧ ∀ n ∈ size r, n ≤ data.length) ∨
        ∃ s', body s = .ok (.again s') ∧ Inv s' ∧ pos s < pos s' ∧
          ∀ offset start n, chunkAt s = some offset → SizeLine read data offset start n → n ≠ 0 →
            start+n+2 ≤ data.length) :
    ScansInside read data body s₀ (run body fuel s₀) chunkAt pos size := by
  have hgoes : ∀ s s', Inv s → Goes body s s' → Inv s' ∧ pos s < pos s' ∧
      ∀ offset start n, chunkAt s = some offset → SizeLine read data offset start n → n ≠ 0 →
        start+n+2 ≤ data.length := by
    intro s s' hs hg
    rcases hturn s hs with ⟨r,hl,-⟩ | ⟨s'',hg',h⟩
    · rw [Goes,hl] at hg
      cases hg
    · rw [Goes,hg'] at hg
      cases hg
      exact h
  have hinv : ∀ s, Visits body s₀ s → Inv s := fun s =>
    visits_invariant (fun s s' hs hg => (hgoes s s' hs hg).1) h₀
  have hvar : ∀ s s', Inv s → Goes body s s' →
      Inv s' ∧ data.length-pos s' < data.length-pos s := by
    intro s s' hs hg
    obtain ⟨hs',hlt,-⟩ := hgoes s s' hs hg
    have := hpos s' hs'
    exact ⟨hs',by omega⟩
  refine ⟨run_ne_hang_of_variant _ hvar h₀ (by omega),?_,?_,?_,?_⟩
  · intro s hv e he
    rcases hturn s (hinv s hv) with ⟨r,hl,-⟩ | ⟨s',hg,-⟩
    · rw [hl] at he
      cases he
    · rw [hg] at he
      cases he
  · exact fun s s' hv hg => (hgoes s s' (hinv s hv) hg).2.1
  · exact fun s s' offset start n hv hg => (hgoes s s' (hinv s hv) hg).2.2 offset start n
  · intro r n hr hn
    obtain ⟨s,hv,hl⟩ := visit_of_ret hr
    rcases hturn s (hinv s hv) with ⟨r',hl',hle⟩ | ⟨s',hg,-⟩
    · rw [hl'] at hl
      cases hl
      exact hle n hn
    · rw [hg] at hl
      cases hl

theorem ScansInside.returns {fuel : Nat}
    (h : ScansInside read data body s₀ (run body fuel s₀) chunkAt pos size) :
    ∃ r, run body fuel s₀ = .ret r := by
  cases hr : run body fuel s₀ with
  | ret r => exact ⟨r,rfl⟩
  | threw e =>
    obtain ⟨s,hv,hb⟩ := visit_of_threw hr
    exact absurd hb (h.inRange s hv e)
  | hang => exact absurd hr h.terminates

theorem ScansInside.leaves {outcome : Outcome Exn ρ}
    (h : ScansInside read data body s₀ outcome chunkAt pos size) {s : σ} {offset start n : Nat}
    (hv : Visits body s₀ s) (hat : chunkAt s = some offset)
    (hline : SizeLine read data offset start n) (hn : n ≠ 0) (hlong : data.length < start+n+2) :
    ∃ r, body s = .ok (.leave r) := by
  cases hb : body s with
  | error e => exact absurd hb (h.inRange s hv e)
  | ok turn =>
    cases turn with
    | leave r => exact ⟨r,rfl⟩
    | again s' =>
      have := h.inside s s' offset start n hv hb hat hline hn
      omega

end ScansInside

end Chunked

namespace HttpServer

variable {data : Bytes}

section

variable (hd : Addressable data)
include hd

theorem chunkTurn_cases {offset : Nat}
    (hfit : ∀ start size, SizeLine looseSize data offset start size → ¬ Overflows data start size) :
    (∃ r, chunkTurn data offset = .ok (.leave r) ∧ ∀ n ∈ r, n ≤ data.length) ∨
      ∃ start size, SizeLine looseSize data offset start size ∧ size ≠ 0 ∧
        OccursAt crlf data (start+size) ∧ chunkTurn data offset = .ok (.again (start+size+2)) := by
  unfold chunkTurn
  rcases @sizeTurn_outcomes _ looseSize (lastChunk data) id data hd (fun _ _ => looseSize_lt) offset
    with ⟨r,hr,hl⟩ | ⟨start,size,hline,⟨hz,hl⟩ | ⟨hz,hm,hg⟩ | ⟨hover,-⟩⟩
  · refine .inl ⟨r,hl,fun n hn => ?_⟩
    simp only [List.mem_cons,List.not_mem_nil,or_false] at hr
    rcases hr with rfl | rfl
    · cases hn
    · cases hn
      exact Nat.zero_le _
  · rw [lastChunk_leaves hd hline.bounds.2] at hl
    refine .inl ⟨_,hl,fun n hn => ?_⟩
    split at hn
    · rename_i hm
      cases hn
      exact crlf_bound hm
    · split at hn <;> cases hn
      exact Nat.zero_le _
  · exact .inr ⟨start,size,hline,hz,hm,hg⟩
  · exact absurd hover (hfit _ _ hline)

theorem visits_of_boundary {offset : Nat}
    (h : Boundary looseSize data offset) : Visits (chunkTurn data) 0 offset := by
  induction h with
  | start => exact .refl
  | @next offset start size _ hline hz hm ih =>
    have hs : size < 2^64 := looseSize_lt hline.choose_spec.2.1
    refine ih.tail ?_
    rw [Goes,chunkTurn,sizeTurn_of_fits hd hline hs hz (not_overflows hd hm),if_pos hm]
    rfl

theorem chunkTurn_le {offset offset' : Nat}
    (hg : Goes (chunkTurn data) offset offset') : offset' ≤ data.length := by
  have hg' : sizeTurn looseSize (lastChunk data) id data offset = .ok (.again offset') := hg
  rcases @sizeTurn_outcomes _ looseSize (lastChunk data) id data hd (fun _ _ => looseSize_lt) offset
    with ⟨r,-,ht⟩ | ⟨start,size,hline,⟨-,ht⟩ | ⟨-,hm,ht⟩ | ⟨-,ht | ⟨hm,ht⟩⟩⟩
  · rw [ht] at hg'
    cases hg'
  · rw [ht,lastChunk_leaves hd hline.bounds.2] at hg'
    cases hg'
  · rw [ht] at hg'
    cases hg'
    exact crlf_bound hm
  · rw [ht] at hg'
    cases hg'
  · rw [ht] at hg'
    cases hg'
    exact crlf_bound hm

theorem getChunkedMessageSize_hang_iff :
    getChunkedMessageSize data = .hang ↔ Diverges (chunkTurn data) 0 := by
  refine ⟨fun h => ?_,fun h => h _⟩
  exact diverges_of_confined id (fun _ _ _ hg => chunkTurn_le hd hg)
    (fun _ ho => Nat.lt_succ_of_le ho) (fun _ _ _ _ heq => heq) (Nat.zero_le _) h

end

def ScanInside (data : Bytes) : Prop :=
  ScansInside looseSize data (chunkTurn data) 0 (getChunkedMessageSize data) some id id

theorem scanInside_iff (hd : Addressable data) :
    ScanInside data ↔ Clear looseSize (Overflows data) data := by
  constructor
  · intro h offset start size hb hline hover
    have hs : size < 2^64 := looseSize_lt hline.choose_spec.2.1
    obtain ⟨hlong,hz,hturn⟩ :=
      @sizeTurn_of_overflows _ _ (lastChunk data) id _ hd _ _ _ hline hs hover
    obtain ⟨r,hr⟩ := ScansInside.leaves h (visits_of_boundary hd hb) rfl hline hz hlong
    rw [chunkTurn] at hr
    rcases hturn with ht | ⟨-,ht⟩ <;> rw [ht] at hr <;> cases hr
  · intro hclear
    refine scansInside_of_invariant (Boundary looseSize data) (Nat.lt_succ_self _) .start
      (fun _ => Boundary.le) fun o ho => ?_
    rcases chunkTurn_cases hd (fun _ _ => hclear o _ _ ho) with
      hl | ⟨start,size,hline,hz,hm,hg⟩
    · exact .inl hl
    · have hb := hline.bounds
      refine .inr ⟨_,hg,.next ho hline hz hm,by simp only [id]; omega,?_⟩
      rintro _ start' n ⟨⟩ hline' hn
      obtain ⟨rfl,rfl⟩ := hline.unique hline'
      exact crlf_bound hm

end HttpServer

namespace HttpClient

variable {data : Bytes}

theorem trailerTurn_cases (hd : Addressable data) (offset : Nat) :
    (∃ r, trailerTurn data offset = .ok (.leave r) ∧ ∀ n ∈ r, n ≤ data.length) ∨
      ∃ offset', offset < offset' ∧ offset' ≤ data.length ∧
        trailerTurn data offset = .ok (.again (.trailer offset')) := by
  cases hf : find crlf data offset with
  | none => exact .inl ⟨none,by simp [trailerTurn,hf],by simp⟩
  | some lineEnd =>
    have hb := find_bounds (by decide) hf
    simp only [crlf,List.length_cons,List.length_nil] at hb
    rw [trailerTurn_eq hd hf]
    split
    · exact .inl ⟨_,rfl,fun n hn => by cases hn; omega⟩
    · split
      · exact .inr ⟨lineEnd+2,by omega,by omega,rfl⟩
      · exact .inl ⟨_,rfl,fun n hn => by cases hn; exact Nat.zero_le _⟩

def Reaches (data : Bytes) : At → Prop
  | .chunk offset => Boundary strictSize data offset
  | .trailer offset => offset ≤ data.length

section

variable (hd : Addressable data)
include hd

theorem chunkTurn_cases (hclear : Clear strictSize (Overflows data) data)
    {s : At} (hs : Reaches data s) :
    (∃ r, chunkTurn data s = .ok (.leave r) ∧ ∀ n ∈ r, n ≤ data.length) ∨
      ∃ s', chunkTurn data s = .ok (.again s') ∧ Reaches data s' ∧ s.offset < s'.offset ∧
        ∀ offset start n, s.chunkAt = some offset → SizeLine strictSize data offset start n →
          n ≠ 0 → start+n+2 ≤ data.length := by
  cases s with
  | trailer offset =>
    rcases trailerTurn_cases hd offset with hl | ⟨offset',hlt,hle,hg⟩
    · exact .inl hl
    · exact .inr ⟨.trailer offset',hg,hle,hlt,by simp [At.chunkAt]⟩
  | chunk offset =>
    simp only [chunkTurn]
    rcases @sizeTurn_outcomes At strictSize (fun o => .ok (.again (.trailer o))) .chunk data hd
        (fun _ _ => strictSize_lt) offset
      with ⟨r,hr,hl⟩ | ⟨start,size,hline,⟨hz,hg⟩ | ⟨hz,hm,hg⟩ | ⟨hover,-⟩⟩
    · refine .inl ⟨r,hl,fun n hn => ?_⟩
      simp only [List.mem_cons,List.not_mem_nil,or_false] at hr
      rcases hr with rfl | rfl
      · cases hn
      · cases hn
        exact Nat.zero_le _
    · have hb := hline.bounds
      refine .inr ⟨_,hg,hb.2,by simp only [At.offset]; omega,?_⟩
      rintro _ start' n ⟨⟩ hline' hn
      exact absurd ((hline.unique hline').2.symm.trans hz) hn
    · have hb := hline.bounds
      refine .inr ⟨_,hg,.next hs hline hz hm,by simp only [At.offset]; omega,?_⟩
      rintro _ start' n ⟨⟩ hline' hn
      obtain ⟨rfl,rfl⟩ := hline.unique hline'
      exact crlf_bound hm
    · exact absurd hover (hclear _ _ _ hs hline)

theorem visits_of_boundary {offset : Nat}
    (h : Boundary strictSize data offset) : Visits (chunkTurn data) (.chunk 0) (.chunk offset) := by
  induction h with
  | start => exact .refl
  | @next offset start size _ hline hz hm ih =>
    have hs : size < 2^64 := strictSize_lt hline.choose_spec.2.1
    refine ih.tail ?_
    rw [Goes,chunkTurn,sizeTurn_of_fits hd hline hs hz (not_overflows hd hm),if_pos hm]

theorem chunkTurn_le {s s' : At} (hg : Goes (chunkTurn data) s s') :
    s'.offset ≤ data.length := by
  cases s with
  | trailer offset =>
    have hg' : trailerTurn data offset = .ok (.again s') := hg
    rcases trailerTurn_cases hd offset with ⟨r,ht,-⟩ | ⟨offset',-,hle,ht⟩
    · rw [ht] at hg'
      cases hg'
    · rw [ht] at hg'
      cases hg'
      exact hle
  | chunk offset =>
    have hg' : sizeTurn strictSize (fun o => .ok (.again (.trailer o))) .chunk data offset =
      .ok (.again s') := hg
    rcases @sizeTurn_outcomes At strictSize (fun o => .ok (.again (.trailer o))) .chunk data hd
        (fun _ _ => strictSize_lt) offset
      with ⟨r,-,ht⟩ | ⟨start,size,hline,⟨-,ht⟩ | ⟨-,hm,ht⟩ | ⟨-,ht | ⟨hm,ht⟩⟩⟩
    · rw [ht] at hg'
      cases hg'
    · rw [ht] at hg'
      cases hg'
      exact hline.bounds.2
    · rw [ht] at hg'
      cases hg'
      exact crlf_bound hm
    · rw [ht] at hg'
      cases hg'
    · rw [ht] at hg'
      cases hg'
      exact crlf_bound hm

theorem getChunkedMessageSize_hang_iff :
    getChunkedMessageSize data = .hang ↔ Diverges (chunkTurn data) (.chunk 0) := by
  refine ⟨fun h => ?_,fun h => h _⟩
  refine diverges_of_confined (At.rec (fun o => 2*o) (fun o => 2*o+1))
    (fun _ _ _ hg => chunkTurn_le hd hg) ?_ ?_ (Nat.zero_le _) h
  · intro s hs
    cases s <;> simp only [At.offset] at hs ⊢ <;> omega
  · intro s s' _ _ heq
    cases s <;> cases s' <;> simp only [At.chunk.injEq,At.trailer.injEq] at heq ⊢ <;> omega

end

def ScanInside (data : Bytes) : Prop :=
  ScansInside strictSize data (chunkTurn data) (.chunk 0) (getChunkedMessageSize data)
    At.chunkAt At.offset id

theorem scanInside_iff (hd : Addressable data) :
    ScanInside data ↔ Clear strictSize (Overflows data) data := by
  constructor
  · intro h offset start size hb hline hover
    have hs : size < 2^64 := strictSize_lt hline.choose_spec.2.1
    obtain ⟨hlong,hz,hturn⟩ :=
      @sizeTurn_of_overflows At _ (fun o => .ok (.again (.trailer o))) .chunk _ hd _ _ _ hline hs hover
    obtain ⟨r,hr⟩ := ScansInside.leaves h (visits_of_boundary hd hb) rfl hline hz hlong
    rw [chunkTurn] at hr
    rcases hturn with ht | ⟨-,ht⟩ <;> rw [ht] at hr <;> cases hr
  · intro hclear
    refine scansInside_of_invariant (Reaches data) (by omega) Boundary.start ?_
      fun s hs => chunkTurn_cases hd hclear hs
    intro s hs
    cases s with
    | chunk offset => exact Boundary.le hs
    | trailer offset => exact hs

end HttpClient

namespace HttpParser

variable {data : Bytes}

/-- The decoder's check of the chunk's end lets a sum pass that has wrapped around. -/
def Exceeds (data : Bytes) (start size : Nat) : Prop :=
  2^64 ≤ start+size+2 ∧ start+size+2-2^64 ≤ data.length

def Reaches (data : Bytes) : At × Bytes → Prop
  | (.chunk offset,body) => Boundary strictSize data offset ∧ body.length ≤ offset
  | (.trailer offset,body) => offset ≤ data.length ∧ body.length ≤ offset

theorem chunkedTurn_cases (hd : Addressable data) (hclear : Clear strictSize (Exceeds data) data)
    {s : At × Bytes} (hs : Reaches data s) :
    (∃ r, chunkedTurn data s = .ok (.leave r) ∧ r.2.length ≤ data.length) ∨
      ∃ s', chunkedTurn data s = .ok (.again s') ∧ Reaches data s' ∧ s.1.offset < s'.1.offset ∧
        ∀ offset start n, s.1.chunkAt = some offset → SizeLine strictSize data offset start n →
          n ≠ 0 → start+n+2 ≤ data.length := by
  obtain ⟨pos,body⟩ := s
  cases pos with
  | trailer offset =>
    obtain ⟨ho,hbody⟩ := hs
    cases hf : find crlf data offset with
    | none => exact .inl ⟨(false,body),by simp [chunkedTurn,hf],by simp only; omega⟩
    | some lineEnd =>
      have hb := find_bounds (by decide) hf
      simp only [crlf,List.length_cons,List.length_nil] at hb
      rw [trailerTurn_eq hd hf]
      split
      · exact .inl ⟨_,rfl,by simp only; omega⟩
      · split
        · exact .inr ⟨_,rfl,⟨by omega,by omega⟩,by simp only [At.offset]; omega,
            by simp [At.chunkAt]⟩
        · exact .inl ⟨_,rfl,by simp only; omega⟩
  | chunk offset =>
    obtain ⟨ho,hbody⟩ := hs
    have hle := ho.le
    by_cases hline : ∃ start size, SizeLine strictSize data offset start size
    · obtain ⟨start,size,hline⟩ := hline
      have hb := hline.bounds
      have hs : size < 2^64 := strictSize_lt hline.choose_spec.2.1
      have hfit := hclear _ _ _ ho hline
      unfold Exceeds at hfit
      unfold Addressable at hd
      rw [chunkedTurn_of_sizeLine hd hline]
      have hlen : ((data.drop start).take size).length ≤ size := List.length_take_le _ _
      by_cases hz : size = 0
      · simp only [hz,if_true]
        refine .inr ⟨_,rfl,⟨hb.2,by omega⟩,by simp only [At.offset]; omega,?_⟩
        rintro _ start' n ⟨⟩ hline' hn
        exact absurd ((hline.unique hline').2.symm.trans hz) hn
      by_cases hshort : data.length < (start+size+2)%2^64
      · simp only [hz,hshort,if_true,if_false]
        exact .inl ⟨_,rfl,by simp only; omega⟩
      have hin : ¬ data.length < start+size+2 := by omega
      simp only [hz,hshort,hin,if_false]
      split
      · rename_i hm
        refine .inr ⟨_,rfl,⟨.next ho hline hz hm,?_⟩,by simp only [At.offset]; omega,?_⟩
        · simp only [List.length_append]
          omega
        · rintro _ start' n ⟨⟩ hline' hn
          obtain ⟨rfl,rfl⟩ := hline.unique hline'
          omega
      · refine .inl ⟨_,rfl,?_⟩
        simp only [List.length_append]
        omega
    · push Not at hline
      exact .inl ⟨_,chunkedTurn_of_no_line hline body,by simp only; omega⟩

theorem visits_of_boundary (hd : Addressable data) {offset : Nat}
    (h : Boundary strictSize data offset) :
    ∃ body, Visits (chunkedTurn data) (.chunk 0,[]) (.chunk offset,body) := by
  induction h with
  | start => exact ⟨[],.refl⟩
  | @next offset start size _ hline hz hm ih =>
    obtain ⟨body,ih⟩ := ih
    have hb := crlf_bound hm
    unfold Addressable at hd
    have hshort : ¬ data.length < (start+size+2)%2^64 := by omega
    refine ⟨body ++ (data.drop start).take size,ih.tail ?_⟩
    rw [Goes,chunkedTurn_of_sizeLine hd hline,if_neg hz,if_neg hshort,if_neg (by omega),if_pos hm]

/-- The decoder keeps its duties; the size it reports is that of the decoded body. -/
def ScanInside (data : Bytes) : Prop :=
  ScansInside strictSize data (chunkedTurn data) (.chunk 0,[]) (parseChunked data)
    (fun s => s.1.chunkAt) (fun s => s.1.offset) (fun r => some r.2.length)

theorem scanInside_iff (hd : Addressable data) :
    ScanInside data ↔ Clear strictSize (Exceeds data) data := by
  constructor
  · rintro h offset start size hb hline ⟨hge,hwrap⟩
    have hbd := hline.bounds
    have hs : size < 2^64 := strictSize_lt hline.choose_spec.2.1
    obtain ⟨body,hv⟩ := visits_of_boundary hd hb
    unfold Addressable at hd
    have hmod : (start+size+2)%2^64 = start+size+2-2^64 := by omega
    obtain ⟨r,hr⟩ := ScansInside.leaves h hv rfl hline (by omega) (by omega)
    rw [chunkedTurn_of_sizeLine hd hline,if_neg (by omega),hmod,if_neg (by omega),if_pos (by omega)] at hr
    cases hr
  · intro hclear
    refine scansInside_of_invariant (Reaches data) (Nat.lt_succ_self _) ⟨.start,Nat.le_refl _⟩ ?_ ?_
    · rintro ⟨pos,body⟩ hs
      cases pos with
      | chunk offset => exact hs.1.le
      | trailer offset => exact hs.1
    · intro s hs
      rcases chunkedTurn_cases hd hclear hs with ⟨r,hl,hle⟩ | hg
      · exact .inl ⟨r,hl,fun n hn => by cases hn; exact hle⟩
      · exact .inr hg

end HttpParser

/-- The three scanners keep their duties on exactly the inputs in which no size line
they come to announces a chunk whose end wraps around past their check. -/
theorem chunked_scanners_inside_iff (data : Bytes) (hd : Addressable data) :
    (HttpServer.ScanInside data ∧ HttpClient.ScanInside data ∧ HttpParser.ScanInside data) ↔
      (Clear looseSize (Overflows data) data ∧ Clear strictSize (Overflows data) data ∧
        Clear strictSize (HttpParser.Exceeds data) data) := by
  rw [HttpServer.scanInside_iff hd,HttpClient.scanInside_iff hd,HttpParser.scanInside_iff hd]

theorem chunked_scanners_inside_hello :
    let data := ascii "5\r\nhello\r\n0\r\n\r\n"
    (HttpServer.ScanInside data ∧ HttpClient.ScanInside data ∧ HttpParser.ScanInside data) ↔
      (Clear looseSize (Overflows data) data ∧ Clear strictSize (Overflows data) data ∧
        Clear strictSize (HttpParser.Exceeds data) data) :=
  chunked_scanners_inside_iff _ (by decide)

/-- A second chunk of 2^64-20 bytes sends both framing scanners back to its own size
line, for ever, and makes the decoder throw. -/
theorem chunked_scanners_wrap_around :
    let data := ascii "1\r\nA\r\nFFFFFFFFFFFFFFEC\r\n"
    Diverges (HttpServer.chunkTurn data) 0 ∧ ¬ HttpServer.ScanInside data ∧
      Diverges (HttpClient.chunkTurn data) (.chunk 0) ∧ ¬ HttpClient.ScanInside data ∧
      HttpParser.parseChunked data = .threw .lengthError ∧ ¬ HttpParser.ScanInside data := by
  intro data
  have hd : Addressable data := by decide
  have hser : HttpServer.getChunkedMessageSize data = .hang := by decide +kernel
  have hclient : HttpClient.getChunkedMessageSize data = .hang := by decide +kernel
  have hpar : HttpParser.parseChunked data = .threw .lengthError := by decide +kernel
  refine ⟨(HttpServer.getChunkedMessageSize_hang_iff hd).mp hser,fun h => h.terminates hser,
    (HttpClient.getChunkedMessageSize_hang_iff hd).mp hclient,fun h => h.terminates hclient,
    hpar,fun h => ?_⟩
  obtain ⟨s,hv,he⟩ := visit_of_threw hpar
  exact h.inRange s hv _ he

end FastNet
