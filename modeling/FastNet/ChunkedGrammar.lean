import FastNet.ChunkedBounds

/-!
The grammar of chunked messages, with the positions of a message in the string it stands in.
-/

namespace FastNet

open Text Numeral Loop List

namespace Chunked

variable {body : Bytes} {read : Bytes → Option Nat} {k : Nat} {ok' : Bytes → Bool}

/-- A trailer section begins at `offset` and ends, behind its blank line, at `n`. -/
inductive Trailers (ok : Bytes → Bool) (data : Bytes) : Nat → Nat → Prop where
  | blank {offset : Nat} : OccursAt crlf data offset → Trailers ok data offset (offset+2)
  | line {offset lineEnd n : Nat} : find crlf data offset = some lineEnd → lineEnd ≠ offset →
      ok ((data.drop offset).take (lineEnd-offset)) = true →
      Trailers ok data (lineEnd+2) n → Trailers ok data offset n

/-- A message begins at `offset`, decodes to `body` and ends at `n`. -/
inductive Message (ok : Bytes → Bool) (data : Bytes) : Nat → Bytes → Nat → Prop where
  | last {offset start n : Nat} : SizeLine strictSize data offset start 0 →
      Trailers ok data start n → Message ok data offset [] n
  | chunk {offset start size n : Nat} {body : Bytes} :
      SizeLine strictSize data offset start size → size ≠ 0 → OccursAt crlf data (start+size) →
      Message ok data (start+size+2) body n →
      Message ok data offset ((data.drop start).take size ++ body) n

variable {ok : Bytes → Bool} {data rest : Bytes} {offset lineEnd n start size : Nat}

theorem find_crlf_bounds (h : find crlf data offset = some lineEnd) :
    offset ≤ lineEnd ∧ lineEnd+2 ≤ data.length :=
  find_bounds (by decide) h

theorem Trailers.bounds (h : Trailers ok data offset n) : offset+2 ≤ n ∧ n ≤ data.length := by
  induction h with
  | blank hm => exact ⟨Nat.le_refl _,crlf_bound hm⟩
  | line hf _ _ _ ih =>
    have hb := find_crlf_bounds hf
    omega

theorem Message.bounds (h : Message ok data offset body n) : offset < n ∧ n ≤ data.length := by
  induction h with
  | last hline ht =>
    have hb := hline.bounds
    have ht := ht.bounds
    omega
  | chunk hline _ _ _ ih =>
    have hb := hline.bounds
    omega

theorem SizeLine.append (h : SizeLine read data offset start size) (rest : Bytes) :
    SizeLine read (data ++ rest) offset start size := by
  obtain ⟨lineEnd,hf,hr,rfl⟩ := h
  have hb := find_crlf_bounds hf
  refine ⟨lineEnd,find_append (by decide) hf rest,?_,rfl⟩
  rw [slice_append (by omega)]
  exact hr

theorem SizeLine.of_append (h : SizeLine read (data ++ rest) offset start size) (hs : start ≤ data.length) :
    SizeLine read data offset start size := by
  obtain ⟨lineEnd,hf,hr,rfl⟩ := h
  have hb := find_crlf_bounds hf
  rw [slice_append (by omega)] at hr
  exact ⟨lineEnd,find_of_append hf hs,hr,rfl⟩

theorem find_crlf_part (h : find crlf (data ++ rest) offset = some lineEnd) :
    find crlf data offset = if lineEnd+2 ≤ data.length then some lineEnd else none :=
  find_part (by decide) h

theorem SizeLine.part (h : SizeLine read (data ++ rest) offset start size) :
    (start ≤ data.length ∧ SizeLine read data offset start size) ∨
      (data.length < start ∧ find crlf data offset = none) := by
  by_cases hs : start ≤ data.length
  · exact .inl ⟨hs,h.of_append hs⟩
  · obtain ⟨lineEnd,hf,-,rfl⟩ := h
    have hfind := find_crlf_part hf
    rw [if_neg hs] at hfind
    exact .inr ⟨by omega,hfind⟩

theorem Trailers.append (h : Trailers ok data offset n) (rest : Bytes) :
    Trailers ok (data ++ rest) offset n := by
  induction h with
  | blank hm => exact .blank (hm.append rest)
  | line hf hne hok _ ih =>
    have hb := find_crlf_bounds hf
    refine .line (find_append (by decide) hf rest) hne ?_ ih
    rw [slice_append (by omega)]
    exact hok

theorem Trailers.of_append (h : Trailers ok (data ++ rest) offset n)
    (hn : n ≤ data.length) : Trailers ok data offset n := by
  induction h with
  | blank hm => exact .blank (occursAt_of_append hm hn)
  | line hf hne hok ht ih =>
    have hb := find_crlf_bounds hf
    have hn' := ht.bounds.1
    rw [slice_append (by omega)] at hok
    exact .line (find_of_append hf (by simp only [crlf,length_cons,length_nil]; omega))
      hne hok (ih hn)

theorem Message.append (h : Message ok data offset body n)
    (rest : Bytes) : Message ok (data ++ rest) offset body n := by
  induction h with
  | last hline ht => exact .last (hline.append rest) (ht.append rest)
  | @chunk offset start size n body hline hz hm _ ih =>
    have hb := crlf_bound hm
    rw [← @slice_append _ data rest start size (by omega)]
    exact .chunk (hline.append rest) hz (hm.append rest) ih

theorem Message.of_append (h : Message ok (data ++ rest) offset body n) (hn : n ≤ data.length) :
    Message ok data offset body n := by
  induction h with
  | last hline ht =>
    have hb := ht.bounds
    exact .last (hline.of_append (by omega)) (ht.of_append hn)
  | @chunk offset start size n body hline hz hm hmsg ih =>
    have hb := hmsg.bounds.1
    rw [slice_append (by omega)]
    refine .chunk (hline.of_append (by omega)) hz (occursAt_of_append hm ?_) (ih hn)
    simp only [crlf,length_cons,length_nil]
    omega

theorem message_take_iff (hn : n ≤ data.length) :
    Message ok (data.take n) offset body n ↔ Message ok data offset body n := by
  constructor
  · intro h
    have h' := h.append (data.drop n)
    rwa [take_append_drop] at h'
  · intro h
    rw [← take_append_drop n data] at h
    exact h.of_append (by simp only [length_take]; omega)

theorem SizeLine.drop (h : SizeLine read data offset start size) (hk : k ≤ offset) :
    SizeLine read (data.drop k) (offset-k) (start-k) size := by
  obtain ⟨lineEnd,hf,hr,rfl⟩ := h
  have hb := find_crlf_bounds hf
  have hfind := find_drop crlf data k (offset-k) (by omega)
  rw [Nat.add_sub_cancel' hk,hf] at hfind
  obtain ⟨lineEnd',hf',heq⟩ := Option.map_eq_some_iff.mp hfind.symm
  refine ⟨lineEnd',hf',?_,by omega⟩
  rwa [drop_drop,Nat.add_sub_cancel' hk,show lineEnd'-(offset-k) = lineEnd-offset by omega]

theorem Trailers.drop (h : Trailers ok data offset n) (hk : k ≤ offset) :
    Trailers ok (data.drop k) (offset-k) (n-k) := by
  induction h with
  | @blank offset hm =>
    rw [show offset+2-k = offset-k+2 by omega]
    exact .blank (occursAt_drop.mpr (by rwa [Nat.add_sub_cancel' hk]))
  | @line offset lineEnd n hf hne hok _ ih =>
    have hb := find_crlf_bounds hf
    have hfind := find_drop crlf data k (offset-k) (by omega)
    rw [Nat.add_sub_cancel' hk,hf] at hfind
    obtain ⟨lineEnd',hf',heq⟩ := Option.map_eq_some_iff.mp hfind.symm
    refine .line hf' (by omega) ?_ ?_
    · rwa [drop_drop,Nat.add_sub_cancel' hk,show lineEnd'-(offset-k) = lineEnd-offset by omega]
    · have hrest := ih (by omega)
      rwa [show lineEnd+2-k = lineEnd'+2 by omega] at hrest

theorem Message.drop (h : Message ok data offset body n)
    (hk : k ≤ offset) : Message ok (data.drop k) (offset-k) body (n-k) := by
  induction h with
  | last hline ht =>
    have hb := hline.bounds
    exact .last (hline.drop hk) (ht.drop (by omega))
  | @chunk offset start size n body hline hz hm _ ih =>
    have hb := hline.bounds
    have hrest := ih (by omega)
    rw [show start+size+2-k = start-k+size+2 by omega] at hrest
    have hmark : OccursAt crlf (data.drop k) (start-k+size) :=
      occursAt_drop.mpr (by rwa [show k+(start-k+size) = start+size by omega])
    have hmes := Message.chunk (hline.drop hk) hz hmark hrest
    rwa [drop_drop,show k+(start-k) = start by omega] at hmes

theorem Trailers.mono (hok : ∀ line, ok line = true → ok' line = true)
    {offset n : Nat} (h : Trailers ok data offset n) : Trailers ok' data offset n := by
  induction h with
  | blank hm => exact .blank hm
  | line hf hne hline _ ih => exact .line hf hne (hok _ hline) ih

theorem Message.mono (hok : ∀ line, ok line = true → ok' line = true)
    {offset n : Nat} (h : Message ok data offset body n) :
    Message ok' data offset body n := by
  induction h with
  | last hline ht => exact .last hline (ht.mono hok)
  | chunk hline hz hm _ ih => exact .chunk hline hz hm ih

section Scanners

variable {σ : Type} {read : Bytes → Option Nat} {next : Nat → σ}

theorem sizeTurn_append {last last' : Nat → Except Exn (Turn σ (Option Nat))}
    (hd : Addressable data) {offset : Nat} {turn : Turn σ (Option Nat)}
    (hturn : turn ≠ .leave none)
    (hlast : ∀ o, o ≤ data.length → last o = .ok turn → last' o = .ok turn)
    (h : sizeTurn read last next data offset = .ok turn) :
    sizeTurn read last' next (data ++ rest) offset = .ok turn := by
  unfold sizeTurn at h ⊢
  cases hf : find crlf data offset with
  | none =>
    simp only [hf,Except.ok.injEq] at h
    exact absurd h.symm hturn
  | some lineEnd =>
    have hb := find_crlf_bounds hf
    unfold Addressable at hd
    have hadd : sizeAdd lineEnd 2 = lineEnd+2 := sizeAdd_eq (by omega)
    have hline : substr (data ++ rest) offset (lineEnd-offset) =
        .ok ((data.drop offset).take (lineEnd-offset)) := by
      rw [substr_ok (by rw [length_append]; omega),slice_append (by omega)]
    simp only [hf,substr_ok (show offset ≤ data.length by omega),bind,Except.bind,hadd] at h
    simp only [find_append (by decide) hf rest,hline,bind,Except.bind,hadd]
    cases hr : read ((data.drop offset).take (lineEnd-offset)) with
    | none =>
      simp only [hr] at h ⊢
      exact h
    | some size =>
      simp only [hr] at h ⊢
      obtain ⟨pos,hpos⟩ : ∃ pos, pos = sizeAdd (lineEnd+2) size := ⟨_,rfl⟩
      rw [← hpos] at h ⊢
      by_cases hz : size = 0
      · rw [if_pos hz] at h ⊢
        exact hlast _ hb.2 h
      rw [if_neg hz] at h ⊢
      by_cases hshort : data.length < sizeAdd pos 2
      · rw [if_pos hshort,Except.ok.injEq] at h
        exact absurd h.symm hturn
      rw [if_neg hshort] at h
      rw [if_neg (by rw [length_append]; omega)]
      by_cases hin : pos ≤ data.length
      · have hp : sizeAdd pos 2 = pos+2 := sizeAdd_eq (by omega)
        rw [substr_two hin] at h
        rw [substr_two (by rw [length_append]; omega),slice_append (by omega)]
        exact h
      · simp [substr,hin] at h

end Scanners

end Chunked

namespace HttpServer

open Chunked

variable {data : Bytes}

theorem lastChunk_append (hd : Addressable data) {rest : Bytes} {offset : Nat}
    {turn : Turn Nat (Option Nat)} (hturn : turn ≠ .leave none) (ho : offset ≤ data.length)
    (h : lastChunk data offset = .ok turn) : lastChunk (data ++ rest) offset = .ok turn := by
  unfold Addressable at hd
  have hadd : sizeAdd offset 2 = offset+2 := sizeAdd_eq (by omega)
  unfold lastChunk at h ⊢
  rw [hadd] at h ⊢
  by_cases hshort : data.length < offset+2
  · rw [if_pos hshort,Except.ok.injEq] at h
    exact absurd h.symm hturn
  · rw [if_neg hshort,substr_two ho] at h
    rw [if_neg (by rw [length_append]; omega),
      substr_two (by rw [length_append]; omega),slice_append (by omega)]
    exact h

theorem getChunkedMessageSize_append (hd : Addressable data) {n : Nat}
    (h : getChunkedMessageSize data = .ret (some n)) (rest : Bytes) :
    getChunkedMessageSize (data ++ rest) = .ret (some n) := by
  have hstep (offset : Nat) (turn : Turn Nat (Option Nat))
      (hfinal : ∀ r, turn = .leave r → r ≠ none) (ht : chunkTurn data offset = .ok turn) :
      chunkTurn (data ++ rest) offset = .ok turn := by
    have hne : turn ≠ .leave none := fun heq => hfinal none heq rfl
    unfold chunkTurn at ht ⊢
    exact sizeTurn_append hd hne (fun o ho => lastChunk_append hd hne ho) ht
  exact run_ret_mono (by rw [length_append]; omega) (run_agree hstep (by simp) h)

end HttpServer

namespace HttpClient

open Chunked

variable {data : Bytes}

theorem trailerTurn_append {rest : Bytes} {offset : Nat} {turn : Turn At (Option Nat)}
    (hturn : turn ≠ .leave none) (h : trailerTurn data offset = .ok turn) :
    trailerTurn (data ++ rest) offset = .ok turn := by
  unfold trailerTurn at h ⊢
  cases hf : find crlf data offset with
  | none =>
    simp only [hf,Except.ok.injEq] at h
    exact absurd h.symm hturn
  | some trailerEnd =>
    have hb := find_crlf_bounds hf
    simp only [hf,substr_ok (show offset ≤ data.length by omega)] at h
    have hline : substr (data ++ rest) offset (trailerEnd-offset) =
        .ok ((data.drop offset).take (trailerEnd-offset)) := by
      rw [substr_ok (by rw [length_append]; omega),slice_append (by omega)]
    simp only [find_append (by decide) hf rest,hline]
    exact h

theorem getChunkedMessageSize_append (hd : Addressable data) {n : Nat}
    (h : getChunkedMessageSize data = .ret (some n)) (rest : Bytes) :
    getChunkedMessageSize (data ++ rest) = .ret (some n) := by
  have hstep (s : At) (turn : Turn At (Option Nat)) (hfinal : ∀ r, turn = .leave r → r ≠ none)
      (ht : chunkTurn data s = .ok turn) : chunkTurn (data ++ rest) s = .ok turn := by
    have hne : turn ≠ .leave none := fun heq => hfinal none heq rfl
    cases s with
    | chunk offset =>
      unfold chunkTurn at ht ⊢
      exact sizeTurn_append hd hne (fun o _ ho => ho) ht
    | trailer offset => exact trailerTurn_append hne ht
  exact run_ret_mono (by rw [length_append]; omega) (run_agree hstep (by simp) h)

end HttpClient

namespace HttpParser

variable {fuel offset n : Nat} {body result : Bytes}

open Chunked

variable {data : Bytes}

section

variable (hd : Addressable data)
include hd

theorem chunkedTurn_advances {s s' : At × Bytes}
    (hg : Goes (chunkedTurn data) s s') :
    s.1.offset < s'.1.offset ∧ s'.1.offset ≤ data.length := by
  obtain ⟨pos,body⟩ := s
  unfold Goes at hg
  cases pos with
  | trailer offset =>
    cases hf : find crlf data offset with
    | none => simp [chunkedTurn,hf] at hg
    | some lineEnd =>
      have hb := find_crlf_bounds hf
      rw [trailerTurn_eq hd hf] at hg
      split at hg
      · cases hg
      · split at hg
        · cases hg
          simp only [At.offset]
          omega
        · cases hg
  | chunk offset =>
    by_cases hline : ∃ start size, SizeLine strictSize data offset start size
    · obtain ⟨start,size,hline⟩ := hline
      have hb := hline.bounds
      rw [chunkedTurn_of_sizeLine hd hline] at hg
      repeat' split at hg
      all_goals cases hg
      all_goals simp only [At.offset]
      all_goals omega
    · push Not at hline
      rw [chunkedTurn_of_no_line hline] at hg
      cases hg

theorem parseChunked_ne_hang : parseChunked data ≠ .hang := by
  have hstep : ∀ s s', s.1.offset ≤ data.length → Goes (chunkedTurn data) s s' →
      s'.1.offset ≤ data.length ∧ data.length-s'.1.offset < data.length-s.1.offset := by
    intro s s' _ hg
    have hadv := chunkedTurn_advances hd hg
    exact ⟨hadv.2,by omega⟩
  exact run_ne_hang_of_variant _ hstep (Nat.zero_le _) (by simp only [At.offset]; omega)

theorem trailers_of_run (h : run (chunkedTurn data) fuel (.trailer offset,body) = .ret (true,result)) :
    Trailers isTrailerLine data offset data.length ∧ result = body := by
  induction fuel generalizing offset with
  | zero => cases h
  | succ fuel ih =>
    cases hf : find crlf data offset with
    | none => simp [run,chunkedTurn,hf] at h
    | some lineEnd =>
      have hturn := trailerTurn_eq hd hf body
      by_cases hblank : lineEnd = offset
      · subst hblank
        rw [if_pos rfl] at hturn
        rw [run_leave hturn] at h
        simp only [Outcome.ret.injEq,Prod.mk.injEq,decide_eq_true_eq] at h
        refine ⟨?_,h.2.symm⟩
        rw [← h.1]
        exact .blank ((find_self_iff (by decide)).mp hf)
      · rw [if_neg hblank] at hturn
        split at hturn
        · rename_i hok
          rw [run_again hturn] at h
          obtain ⟨ht,hr⟩ := ih h
          exact ⟨.line hf hblank hok ht,hr⟩
        · rw [run_leave hturn] at h
          simp at h

theorem message_of_run (h : run (chunkedTurn data) fuel (.chunk offset,body) = .ret (true,result)) :
    ∃ decoded, Message isTrailerLine data offset decoded data.length ∧
      result = body ++ decoded := by
  induction fuel generalizing offset body with
  | zero => cases h
  | succ fuel ih =>
    by_cases hline : ∃ start size, SizeLine strictSize data offset start size
    · obtain ⟨start,size,hline⟩ := hline
      have hturn := chunkedTurn_of_sizeLine hd hline body
      by_cases hz : size = 0
      · subst hz
        rw [if_pos rfl] at hturn
        rw [run_again hturn] at h
        obtain ⟨ht,rfl⟩ := trailers_of_run hd h
        exact ⟨[],.last hline ht,by simp⟩
      rw [if_neg hz] at hturn
      split at hturn
      · rw [run_leave hturn] at h
        simp at h
      split at hturn
      · rw [run_error hturn] at h
        cases h
      split at hturn
      · rename_i hm
        rw [run_again hturn] at h
        obtain ⟨decoded,hmsg,rfl⟩ := ih h
        exact ⟨_,.chunk hline hz hm hmsg,by simp⟩
      · rw [run_leave hturn] at h
        simp at h
    · push Not at hline
      rw [run_leave (chunkedTurn_of_no_line hline body)] at h
      simp at h

theorem run_of_trailers (body : Bytes)
    (h : Trailers isTrailerLine data offset n) (hn : n = data.length) :
    ∃ fuel, run (chunkedTurn data) fuel (.trailer offset,body) = .ret (true,body) := by
  induction h with
  | blank hm =>
    have hturn := trailerTurn_eq hd ((find_self_iff (by decide)).mpr hm) body
    rw [if_pos rfl] at hturn
    exact ⟨1,by rw [run_leave hturn]; simp [hn]⟩
  | line hf hne hok _ ih =>
    obtain ⟨fuel,hr⟩ := ih hn
    have hturn := trailerTurn_eq hd hf body
    rw [if_neg hne,if_pos hok] at hturn
    exact ⟨fuel+1,by rw [run_again hturn,hr]⟩

theorem run_of_message {decoded : Bytes} (body : Bytes)
    (h : Message isTrailerLine data offset decoded n) (hn : n = data.length) :
    ∃ fuel, run (chunkedTurn data) fuel (.chunk offset,body) = .ret (true,body ++ decoded) := by
  induction h generalizing body with
  | last hline ht =>
    obtain ⟨fuel,hr⟩ := run_of_trailers hd body ht hn
    have hturn := chunkedTurn_of_sizeLine hd hline body
    rw [if_pos rfl] at hturn
    exact ⟨fuel+1,by rw [run_again hturn,hr,append_nil]⟩
  | @chunk offset start size n decoded hline hz hm _ ih =>
    obtain ⟨fuel,hr⟩ := ih (body ++ (data.drop start).take size) hn
    have hb := crlf_bound hm
    have hturn := chunkedTurn_of_sizeLine hd hline body
    unfold Addressable at hd
    rw [if_neg hz,if_neg (by omega),if_neg (by omega),if_pos hm] at hturn
    exact ⟨fuel+1,by rw [run_again hturn,hr,append_assoc]⟩

end

/-- `parseChunked` accepts exactly the strings that are one message, and decodes them. -/
theorem parseChunked_iff (hd : Addressable data) :
    parseChunked data = .ret (true,body) ↔ Message isTrailerLine data 0 body data.length := by
  constructor
  · intro h
    obtain ⟨decoded,hmsg,hb⟩ := message_of_run hd h
    rwa [hb,nil_append]
  · intro h
    obtain ⟨fuel,hr⟩ := run_of_message hd [] h rfl
    have hne := parseChunked_ne_hang hd
    have heq := run_eq_of_ne_hang hne
      (show run (chunkedTurn data) fuel (.chunk 0,[]) ≠ .hang by simp [hr])
    rw [parseChunked,heq,hr,nil_append]

end HttpParser

end FastNet
