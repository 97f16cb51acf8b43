import FastNet.ChunkedGrammar

/-!
The scanner that frames a chunked request against the decoder: where the two agree.
-/

namespace FastNet

open Text Numeral Ctype Loop HttpParser

namespace Chunked

variable {line body : Bytes} {c n : Nat} {ok : Bytes → Bool} {offset : Nat}

theorem strictSize_shape (h : strictSize line = some c) :
    ∃ ws digits rest ds, line = ws ++ digits ++ rest ∧ (∀ x ∈ ws, isSpace x = true) ∧
      digits.mapM hexDigit = some ds ∧ digits ≠ [] ∧
      (∀ x ∈ rest.head?, isSpace x = true ∨ x = 59) ∧ valueFrom 16 0 ds = c ∧ c ≤ sizeMax := by
  obtain ⟨a,b,hline,ha,hb⟩ := trim_split isSpace line
  have hspace : ∀ (l : Bytes), (∀ x ∈ l, isSpace x = true) →
      ∀ x ∈ l.head?, isSpace x = true ∨ x = 59 :=
    fun l hl x hx => .inl (hl x (List.mem_of_mem_head? hx))
  unfold strictSize at h
  simp only [HttpParser.trim] at h
  cases hf : find [59] (Text.trim isSpace line) 0 with
  | none =>
    simp only [hf] at h
    obtain ⟨hne,ds,hds,hv,hmax⟩ := HttpParser.parseHexSize_eq_some_iff.mp h
    rw [HttpParser.trim,trim_trim] at hne hds
    exact ⟨a,_,b,ds,hline,ha,hds,hne,hspace b hb,hv,hmax⟩
  | some ext =>
    simp only [hf] at h
    obtain ⟨hne,ds,hds,hv,hmax⟩ := HttpParser.parseHexSize_eq_some_iff.mp h
    rw [HttpParser.trim,trim_trim] at hne hds
    obtain ⟨a',b',hcut,ha',hb'⟩ := trim_split isSpace ((Text.trim isSpace line).take ext)
    refine ⟨a ++ a',_,b' ++ ((Text.trim isSpace line).drop ext ++ b),ds,?_,?_,hds,hne,?_,
      hv,hmax⟩
    · calc line = a ++ Text.trim isSpace line ++ b := hline
        _ = a ++ ((Text.trim isSpace line).take ext ++ (Text.trim isSpace line).drop ext) ++ b := by
          rw [List.take_append_drop]
        _ = a ++ (a' ++ Text.trim isSpace ((Text.trim isSpace line).take ext) ++ b' ++
            (Text.trim isSpace line).drop ext) ++ b := by
          rw [← hcut]
        _ = _ := by
          simp only [List.append_assoc]
    · intro x hx
      rcases List.mem_append.mp hx with hx | hx
      · exact ha x hx
      · exact ha' x hx
    · obtain ⟨t,ht⟩ := (find_spec hf).2.2.1
      intro x hx
      cases hb'' : b' with
      | nil =>
        rw [hb'',← ht] at hx
        simp only [List.nil_append,List.cons_append,List.head?_cons,Option.mem_def,Option.some.injEq] at hx
        exact .inr hx.symm
      | cons y b'' =>
        rw [hb''] at hx hb'
        simp only [List.cons_append,List.head?_cons,Option.mem_def,Option.some.injEq] at hx
        exact .inl (hb' x (by simp [hx]))

theorem hexDigit_eq_none_of_space {x : UInt8} (h : isSpace x = true ∨ x = 59) :
    hexDigit x = none ∧ x ≠ 120 ∧ x ≠ 88 := by
  rcases h with h | rfl
  · refine ⟨?_,?_,?_⟩
    · cases hx : hexDigit x with
      | none => rfl
      | some d =>
        have := not_isSpace_of_hexDigit (show (hexDigit x).isSome by simp [hx])
        simp [this] at h
    · rintro rfl
      revert h
      decide
    · rintro rfl
      revert h
      decide
  · decide

theorem looseSize_of_strictSize (h : strictSize line = some c) :
    looseSize line = some c := by
  obtain ⟨ws,digits,rest,ds,rfl,hws,hds,hne,hrest,rfl,hmax⟩ := strictSize_shape h
  have hread := stoull_hex hws hds hne (fun x hx => hexDigit_eq_none_of_space (hrest x hx)) hmax
  unfold looseSize
  rw [hread]
  rfl

theorem SizeLine.loose {data : Bytes} {start size : Nat}
    (h : SizeLine strictSize data offset start size) : SizeLine looseSize data offset start size := by
  obtain ⟨lineEnd,hf,hr,rfl⟩ := h
  exact ⟨lineEnd,hf,looseSize_of_strictSize hr,rfl⟩

theorem Boundary.of_strict {data : Bytes} (h : Boundary strictSize data offset) :
    Boundary looseSize data offset := by
  induction h with
  | start => exact .start
  | next _ hline hz hm ih => exact .next ih hline.loose hz hm

theorem Boundary.append {read : Bytes → Option Nat} {data : Bytes}
    (h : Boundary read data offset) (rest : Bytes) : Boundary read (data ++ rest) offset := by
  induction h with
  | start => exact .start
  | next _ hline hz hm ih => exact .next ih (hline.append rest) hz (hm.append rest)

/-- The places to which the server's scanner skips: it reads sizes with `std::stoull`
and takes the place behind a chunk modulo 2^64. -/
inductive LooseBoundary (data : Bytes) : Nat → Prop where
  | start : LooseBoundary data 0
  | next {offset start size : Nat} : LooseBoundary data offset →
      SizeLine looseSize data offset start size → size ≠ 0 →
      OccursAt crlf data ((start+size)%2^64) → LooseBoundary data ((start+size)%2^64+2)

variable {data : Bytes}

theorem mod_eq_of_crlf (hd : Addressable data) {start size : Nat}
    (hm : OccursAt crlf data (start+size)) : (start+size)%2^64 = start+size := by
  have hb := crlf_bound hm
  unfold Addressable at hd
  omega

theorem Boundary.loose (hd : Addressable data) {offset : Nat}
    (h : Boundary strictSize data offset) : LooseBoundary data offset := by
  induction h with
  | start => exact .start
  | next _ hline hz hm ih =>
    have hmod := mod_eq_of_crlf hd hm
    rw [← hmod] at hm ⊢
    exact .next ih hline.loose hz hm

theorem Message.boundary (h : Message ok data offset body n) (hb : Boundary strictSize data offset) :
    ∃ offset start, Boundary strictSize data offset ∧ SizeLine strictSize data offset start 0 ∧
      Trailers ok data start n := by
  induction h with
  | last hline ht => exact ⟨_,_,hb,hline,ht⟩
  | chunk hline hz hm _ ih => exact ih (.next hb hline hz hm)

theorem message_of_boundary (hb : Boundary strictSize data offset) (h : Message ok data offset body n) :
    ∃ body, Message ok data 0 body n := by
  induction hb generalizing body with
  | start => exact ⟨body,h⟩
  | next _ hline hz hm ih => exact ih (.chunk hline hz hm h)

theorem Message.at_looseBoundary (hd : Addressable data) (h : Message ok data 0 body n) {offset : Nat} (hb : LooseBoundary data offset) :
    ∃ body, Message ok data offset body n := by
  induction hb with
  | start => exact ⟨body,h⟩
  | next _ hline hz hm ih =>
    obtain ⟨body',hmsg⟩ := ih
    cases hmsg with
    | last hline' _ => exact absurd (hline.unique hline'.loose).2 hz
    | chunk hline' _ hm' hrest =>
      obtain ⟨rfl,rfl⟩ := hline.unique hline'.loose
      rw [mod_eq_of_crlf hd hm']
      exact ⟨_,hrest⟩

end Chunked

namespace HttpServer

open Chunked

variable {data : Bytes}

theorem looseBoundary_of_visits (hd : Addressable data) {offset : Nat}
    (h : Visits (chunkTurn data) 0 offset) : LooseBoundary data offset := by
  refine visits_invariant (fun o o' ho hg => ?_) .start h
  have hg' : sizeTurn looseSize (lastChunk data) id data o = .ok (.again o') := hg
  rcases sizeTurn_cases o with ht | ht | ⟨start,size,hline⟩
  · rw [ht] at hg'
    cases hg'
  · rw [ht] at hg'
    cases hg'
  rw [sizeTurn_of_sizeLine hd hline (looseSize_lt hline.choose_spec.2.1)] at hg'
  split at hg'
  · rw [lastChunk_leaves hd hline.bounds.2] at hg'
    cases hg'
  · rename_i hz
    repeat' split at hg'
    all_goals cases hg'
    exact .next ho hline hz (by assumption)

theorem visits_of_looseBoundary (hd : Addressable data) {offset : Nat}
    (h : LooseBoundary data offset) : Visits (chunkTurn data) 0 offset := by
  induction h with
  | start => exact .refl
  | @next offset start size _ hline hz hm ih =>
    have hb := crlf_bound hm
    have hl := hline.bounds
    refine ih.tail ?_
    rw [Goes,chunkTurn,sizeTurn_of_sizeLine hd hline (looseSize_lt hline.choose_spec.2.1),
      if_neg hz,if_neg,if_neg (by omega),if_pos hm]
    · rfl
    · rintro ⟨hge,hlt⟩
      unfold Addressable at hd
      omega

theorem getChunkedMessageSize_iff (hd : Addressable data) {n : Nat} (hn : 0 < n) :
    getChunkedMessageSize data = .ret (some n) ↔
      ∃ offset start, LooseBoundary data offset ∧ SizeLine looseSize data offset start 0 ∧
        OccursAt crlf data start ∧ n = start+2 := by
  constructor
  · intro h
    obtain ⟨o,hv,hl⟩ := visit_of_ret h
    have hl' : sizeTurn looseSize (lastChunk data) id data o = .ok (.leave (some n)) := hl
    rcases sizeTurn_cases o with ht | ht | ⟨start,size,hline⟩
    · rw [ht] at hl'
      cases hl'
    · rw [ht] at hl'
      cases hl'
      cases hn
    rw [sizeTurn_of_sizeLine hd hline (looseSize_lt hline.choose_spec.2.1)] at hl'
    split at hl'
    · rename_i hz
      subst hz
      rw [lastChunk_leaves hd hline.bounds.2] at hl'
      simp only [Except.ok.injEq,Turn.leave.injEq] at hl'
      split at hl'
      · rename_i hm
        cases hl'
        exact ⟨o,start,looseBoundary_of_visits hd hv,hline,hm,rfl⟩
      · split at hl'
        · cases hl'
        · cases hl'
          cases hn
    · repeat' split at hl'
      all_goals cases hl'
      cases hn
  · rintro ⟨offset,start,hb,hline,hm,rfl⟩
    obtain ⟨k,hk⟩ := run_visits (visits_of_looseBoundary hd hb)
    have hleave : chunkTurn data offset = .ok (.leave (some (start+2))) := by
      rw [chunkTurn,sizeTurn_of_sizeLine hd hline (by decide),if_pos rfl,lastChunk_leaves hd hline.bounds.2,if_pos hm]
    have hret : run (chunkTurn data) (1+k) 0 = .ret (some (start+2)) := by
      rw [hk,run_leave hleave]
    have hne : getChunkedMessageSize data ≠ .hang := by
      intro h
      rw [(getChunkedMessageSize_hang_iff hd).mp h] at hret
      cases hret
    rw [getChunkedMessageSize,run_eq_of_ne_hang hne (by rw [hret]; simp),hret]

end HttpServer

namespace Chunked

variable {data : Bytes}

def HasTrailers (data : Bytes) : Prop :=
  ∃ offset start n, Boundary strictSize data offset ∧ SizeLine strictSize data offset start 0 ∧
    Trailers isTrailerLine data start n ∧ ¬ OccursAt crlf data start

/-- The server's scanner comes to a zero size line and a blank line, but over a size
line that the decoder refuses, or over a chunk whose end wraps around. -/
def LooselyFramed (data : Bytes) : Prop :=
  (∃ offset start, LooseBoundary data offset ∧ SizeLine looseSize data offset start 0 ∧
    OccursAt crlf data start) ∧
  ∃ offset start size, LooseBoundary data offset ∧ SizeLine looseSize data offset start size ∧
    (¬ SizeLine strictSize data offset start size ∨ 2^64 ≤ start+size)

theorem looseBoundary_zero_unique (hd : Addressable data) {o o' start start' : Nat}
    (hb : LooseBoundary data o) (hline : SizeLine looseSize data o start 0)
    (hb' : LooseBoundary data o') (hline' : SizeLine looseSize data o' start' 0) : o = o' := by
  have hstop : ∀ {o start}, SizeLine looseSize data o start 0 →
      ∀ x, ¬ Goes (HttpServer.chunkTurn data) o x := by
    intro o start hline x hg
    rw [Goes,HttpServer.chunkTurn,sizeTurn_of_sizeLine hd hline (by decide),if_pos rfl,
      HttpServer.lastChunk_leaves hd hline.bounds.2] at hg
    cases hg
  exact visits_stop_unique (HttpServer.visits_of_looseBoundary hd hb)
    (HttpServer.visits_of_looseBoundary hd hb') (hstop hline) (hstop hline')

theorem boundary_of_looseBoundary
    (hstr : ∀ offset start size, LooseBoundary data offset →
      SizeLine looseSize data offset start size →
      SizeLine strictSize data offset start size ∧ start+size < 2^64)
    {offset : Nat} (hb : LooseBoundary data offset) : Boundary strictSize data offset := by
  induction hb with
  | start => exact .start
  | next hb hline hz hm ih =>
    obtain ⟨hline',hlt⟩ := hstr _ _ _ hb hline
    rw [Nat.mod_eq_of_lt hlt] at hm ⊢
    exact .next ih hline' hz hm

theorem Trailers.eq_of_blank {ok : Bytes → Bool} {offset n : Nat} (h : Trailers ok data offset n)
    (hm : OccursAt crlf data offset) : n = offset+2 := by
  cases h with
  | blank _ => rfl
  | line hf hne _ _ =>
    rw [(find_self_iff (by decide)).mpr hm] at hf
    exact absurd (Option.some.inj hf).symm hne

end Chunked

namespace HttpServer

open Chunked

variable {data : Bytes}

/-- The decoder takes the first `n` bytes for one whole body. -/
def Decodable (data : Bytes) (n : Nat) : Prop :=
  n ≤ data.length ∧ ∃ body, parseChunked (data.take n) = .ret (true,body)

theorem decodable_iff (hd : Addressable data) {n : Nat} :
    Decodable data n ↔ ∃ body, Message isTrailerLine data 0 body n := by
  have htake : ∀ n ≤ data.length, ∀ body,
      parseChunked (data.take n) = .ret (true,body) ↔
        Message isTrailerLine data 0 body n := by
    intro n hn body
    have hlen : (data.take n).length = n := by
      simp only [List.length_take]
      omega
    have hd' : Addressable (data.take n) := by
      unfold Addressable at *
      omega
    rw [parseChunked_iff hd',hlen,message_take_iff hn]
  constructor
  · rintro ⟨hn,body,h⟩
    exact ⟨body,(htake n hn body).mp h⟩
  · rintro ⟨body,h⟩
    have hn := h.bounds.2
    exact ⟨hn,body,(htake n hn body).mpr h⟩

/-- Framing and decoding agree on exactly the inputs without trailers in which every
size line on the way to the blank line is one that the decoder reads as well. -/
theorem chunked_framing_agrees_iff (data : Bytes) (hd : Addressable data) :
    (∀ n, 0 < n → (getChunkedMessageSize data = .ret (some n) ↔ Decodable data n)) ↔
      ¬ HasTrailers data ∧ ¬ LooselyFramed data := by
  constructor
  · intro hagree
    constructor
    · rintro ⟨offset,start,n,hb,hline,ht,hm⟩
      obtain ⟨body,hmsg⟩ := message_of_boundary hb (.last hline ht)
      have hpos : 0 < n := hmsg.bounds.1
      obtain ⟨offset',start',hb',hline',hm',-⟩ :=
        (getChunkedMessageSize_iff hd hpos).mp
          ((hagree n hpos).mpr ((decodable_iff hd).mpr ⟨body,hmsg⟩))
      have ho := looseBoundary_zero_unique hd (hb.loose hd) hline.loose hb' hline'
      subst ho
      obtain ⟨rfl,-⟩ := hline.loose.unique hline'
      exact hm hm'
    · rintro ⟨⟨offset,start,hb,hline,hm⟩,offset',start',size',hb',hline',hbad⟩
      obtain ⟨body,hmsg⟩ := (decodable_iff hd).mp ((hagree (start+2) (by omega)).mp
        ((getChunkedMessageSize_iff hd (by omega)).mpr ⟨offset,start,hb,hline,hm,rfl⟩))
      obtain ⟨body',hmsg'⟩ := hmsg.at_looseBoundary hd hb'
      unfold Addressable at hd
      cases hmsg' with
      | last hline'' _ =>
        obtain ⟨rfl,rfl⟩ := hline'.unique hline''.loose
        have := hline''.bounds
        rcases hbad with hbad | hbad
        · exact hbad hline''
        · omega
      | chunk hline'' _ hm'' _ =>
        obtain ⟨rfl,rfl⟩ := hline'.unique hline''.loose
        have := crlf_bound hm''
        rcases hbad with hbad | hbad
        · exact hbad hline''
        · omega
  · rintro ⟨hnt,hnl⟩ n hn
    rw [getChunkedMessageSize_iff hd hn,decodable_iff hd]
    constructor
    · rintro ⟨offset,start,hb,hline,hm,rfl⟩
      have hstr : ∀ offset start size, LooseBoundary data offset →
          SizeLine looseSize data offset start size →
          SizeLine strictSize data offset start size ∧ start+size < 2^64 := by
        intro o s c hb' hline'
        by_contra hbad
        refine hnl ⟨⟨offset,start,hb,hline,hm⟩,o,s,c,hb',hline',?_⟩
        rw [not_and_or,Nat.not_lt] at hbad
        exact hbad
      exact message_of_boundary (boundary_of_looseBoundary hstr hb)
        (.last (hstr _ _ _ hb hline).1 (.blank hm))
    · rintro ⟨body,hmsg⟩
      obtain ⟨offset,start,hb,hline,ht⟩ := hmsg.boundary .start
      have hm : OccursAt crlf data start := by
        by_contra hm
        exact hnt ⟨offset,start,n,hb,hline,ht,hm⟩
      exact ⟨offset,start,hb.loose hd,hline.loose,hm,ht.eq_of_blank hm⟩

theorem chunked_framing_agrees_hello :
    let data := ascii "5\r\nhello\r\n0\r\n\r\nGET"
    (∀ n, 0 < n → (getChunkedMessageSize data = .ret (some n) ↔ Decodable data n)) ↔
      ¬ HasTrailers data ∧ ¬ LooselyFramed data :=
  chunked_framing_agrees_iff _ (by decide)

/-- A body with a trailer is decodable and is not framed; a size line with a tail that
`std::stoull` skips is framed and is not decodable. -/
theorem chunked_framing_disagrees :
    let trailer := ascii "0\r\nA: b\r\n\r\n"
    let loose := ascii "5 junk\r\nhello\r\n0\r\n\r\n"
    (Decodable trailer 11 ∧ getChunkedMessageSize trailer = .ret (some 0)) ∧
      (getChunkedMessageSize loose = .ret (some 20) ∧ ¬ Decodable loose 20) := by
  refine ⟨⟨⟨by decide,[],by decide +kernel⟩,by decide +kernel⟩,by decide +kernel,?_⟩
  rintro ⟨-,body,h⟩
  have hfalse : HttpParser.parseChunked ((ascii "5 junk\r\nhello\r\n0\r\n\r\n").take 20) =
      .ret (false,[]) := by decide +kernel
  rw [hfalse] at h
  cases h

end HttpServer

end FastNet
