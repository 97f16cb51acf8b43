import FastNet.ChunkedAgreement
import FastNet.HeadWire

/-!
Chunked bodies as `HttpParser` writes them, and as they are read back.
-/

namespace FastNet

open Text Numeral Loop List

namespace HttpParser

open Chunked

/-- The loop of `buildChunked`, for at most `fuel` blocks. -/
def chunkBlocks : Nat → Bytes → Bytes
  | 0, _ => []
  | fuel+1, data =>
    if data = [] then []
    else
      let chunkSize := min kChunkedEncodeBlockSize data.length
      toChars 16 chunkSize ++ crlf ++ data.take chunkSize ++ crlf ++ chunkBlocks fuel (data.drop chunkSize)

/-- `HttpParser::buildChunked`. Every block takes a byte at least. -/
def buildChunked (data : Bytes) : Bytes := chunkBlocks data.length data ++ ascii "0\r\n\r\n"

theorem length_le_chunkBlocks {fuel : Nat} {data : Bytes} (hfuel : data.length ≤ fuel) :
    data.length ≤ (chunkBlocks fuel data).length := by
  induction fuel generalizing data with
  | zero => omega
  | succ fuel ih =>
    unfold chunkBlocks
    split
    · rename_i hnil
      simp [hnil]
    · rename_i hnil
      have hpos := length_pos_iff.mpr hnil
      have hblock : 0 < min kChunkedEncodeBlockSize data.length := Nat.lt_min.mpr ⟨by decide,hpos⟩
      have hrest := @ih (data.drop (min kChunkedEncodeBlockSize data.length))
        (by rw [length_drop]; omega)
      simp only [length_append,length_take,length_drop] at hrest ⊢
      omega

theorem strictSize_toChars {n : Nat} (hn : n ≤ sizeMax) : strictSize (toChars 16 n) = some n := by
  have hdigit : ∀ c ∈ toChars 16 n, (hexDigit c).isSome = true :=
    fun c => digit_of_mem_toChars (by decide) (fun _ => hexDigit_ofNat)
  have htrim : HttpParser.trim (toChars 16 n) = toChars 16 n :=
    trim_eq_self _ (fun c hc => not_isSpace_of_hexDigit (hdigit c (mem_of_mem_head? hc)))
      (fun c hc => not_isSpace_of_hexDigit (hdigit c (mem_of_mem_getLast? hc)))
  have hsem : find [59] (toChars 16 n) 0 = none :=
    find_eq_none_of_not_mem (fun hm => absurd (hdigit 59 hm) (by decide)) 0
  obtain ⟨hne,ds,hds,hvalue⟩ := mapM_toChars (by decide) (fun _ => hexDigit_ofNat) n
  simp only [strictSize,htrim,hsem]
  exact parseHexSize_eq_some_iff.mpr ⟨by rw [htrim]; exact hne,ds,by rw [htrim]; exact hds,hvalue,hn⟩

theorem sizeLine_toChars {n : Nat} (hn : n ≤ sizeMax) (pre rest : Bytes) :
    SizeLine strictSize (pre ++ (toChars 16 n ++ crlf ++ rest)) pre.length
      (pre.length+(toChars 16 n).length+2) n := by
  have hret : 13 ∉ toChars 16 n := fun hm =>
    absurd (digit_of_mem_toChars (by decide) (fun _ => hexDigit_ofNat) hm) (by decide)
  have hfind := find_drop crlf (pre ++ (toChars 16 n ++ crlf ++ rest)) pre.length 0 (by simp)
  rw [drop_left,Nat.add_zero,show crlf = 13 :: [10] from rfl,find_cut hret] at hfind
  refine ⟨pre.length+(toChars 16 n).length,hfind,?_,rfl⟩
  rw [drop_left,Nat.add_sub_cancel_left,append_assoc,take_left]
  exact strictSize_toChars hn

theorem message_last (ok : Bytes → Bool) (pre : Bytes) :
    Message ok (pre ++ ascii "0\r\n\r\n") pre.length [] (pre.length+5) := by
  have htext : ascii "0\r\n\r\n" = toChars 16 0 ++ crlf ++ crlf := by decide +kernel
  rw [htext]
  refine .last (sizeLine_toChars (by decide) pre crlf) (.blank ?_)
  have hcut := @occursAt_cut _ crlf (pre ++ (toChars 16 0 ++ crlf)) []
  have hlen : (pre ++ (toChars 16 0 ++ crlf)).length = pre.length+(toChars 16 0).length+2 := by
    simp [crlf,Nat.add_assoc]
  rw [hlen,append_nil,append_assoc] at hcut
  exact hcut

theorem message_blocks (ok : Bytes → Bool) {fuel : Nat} {data : Bytes} (hfuel : data.length ≤ fuel)
    (hdata : data.length ≤ sizeMax) (pre : Bytes) :
    Message ok (pre ++ (chunkBlocks fuel data ++ ascii "0\r\n\r\n")) pre.length data
      (pre.length+(chunkBlocks fuel data ++ ascii "0\r\n\r\n").length) := by
  induction fuel generalizing data pre with
  | zero =>
    obtain rfl : data = [] := length_eq_zero_iff.mp (by omega)
    exact message_last ok pre
  | succ fuel ih =>
    by_cases hnil : data = []
    · subst hnil
      exact message_last ok pre
    obtain ⟨k,hk⟩ : ∃ k, k = min kChunkedEncodeBlockSize data.length := ⟨_,rfl⟩
    have hpos := length_pos_iff.mpr hnil
    have hkpos : 0 < k := by
      rw [hk]
      exact Nat.lt_min.mpr ⟨by decide,hpos⟩
    have hle : k ≤ data.length := by omega
    have hbloc : chunkBlocks (fuel+1) data =
        toChars 16 k ++ crlf ++ data.take k ++ crlf ++ chunkBlocks fuel (data.drop k) := by
      rw [chunkBlocks,if_neg hnil,hk]
    obtain ⟨rest,hrest⟩ : ∃ rest, rest = chunkBlocks fuel (data.drop k) ++ ascii "0\r\n\r\n" := ⟨_,rfl⟩
    have htext : pre ++ (chunkBlocks (fuel+1) data ++ ascii "0\r\n\r\n") =
        pre ++ (toChars 16 k ++ crlf ++ (data.take k ++ crlf ++ rest)) := by
      rw [hbloc,hrest]
      simp only [append_assoc]
    have hlen : (data.take k).length = k := by
      rw [length_take]
      omega
    -- the bytes before the next block, and what is left to write behind them
    obtain ⟨pre',hpre'⟩ : ∃ pre', pre' = pre ++ (toChars 16 k ++ crlf ++ data.take k ++ crlf) := ⟨_,rfl⟩
    have htext' : pre ++ (toChars 16 k ++ crlf ++ (data.take k ++ crlf ++ rest)) = pre' ++ rest := by
      rw [hpre']
      simp only [append_assoc]
    have hstart : pre'.length = pre.length+(toChars 16 k).length+2+k+2 := by
      rw [hpre']
      simp only [length_append,hlen,crlf,length_cons,length_nil]
      omega
    have hnext := @ih (data.drop k) (by rw [length_drop]; omega)
      (by rw [length_drop]; omega) pre'
    rw [← hrest,hstart,← htext'] at hnext
    have hline := sizeLine_toChars (show k ≤ sizeMax by omega) pre (data.take k ++ crlf ++ rest)
    have hchunk : (pre ++ (toChars 16 k ++ crlf ++ (data.take k ++ crlf ++ rest))).drop
        (pre.length+(toChars 16 k).length+2) = data.take k ++ crlf ++ rest := by
      rw [← append_assoc]
      exact drop_left' (by simp [crlf,Nat.add_assoc])
    have hmark : OccursAt crlf (pre ++ (toChars 16 k ++ crlf ++ (data.take k ++ crlf ++ rest)))
        (pre.length+(toChars 16 k).length+2+k) := by
      rw [OccursAt,← drop_drop,hchunk,append_assoc,drop_left' hlen]
      exact ⟨rest,rfl⟩
    have hbody : (data.take k ++ crlf ++ rest).take k ++ data.drop k = data := by
      rw [append_assoc,take_left' hlen,take_append_drop]
    have hmes := Message.chunk hline (by omega) hmark hnext
    rw [hchunk,hbody] at hmes
    rw [htext]
    have hend : pre.length+(toChars 16 k).length+2+k+2+rest.length =
        pre.length+(chunkBlocks (fuel+1) data ++ ascii "0\r\n\r\n").length := by
      have h := congrArg length (htext.trans htext')
      rw [@length_append _ pre,@length_append _ pre',hstart] at h
      exact h.symm
    rwa [hend] at hmes

end HttpParser

namespace Chunked

variable {ok : Bytes → Bool} {data : Bytes}

theorem Message.server_size (hd : Addressable data) {n : Nat} {body : Bytes}
    (h : Message (fun _ => false) data 0 body n) :
    HttpServer.getChunkedMessageSize data = .ret (some n) := by
  obtain ⟨offset,start,hb,hline,ht⟩ := h.boundary .start
  have hpos : 0 < n := h.bounds.1
  cases ht with
  | blank hm =>
    exact (HttpServer.getChunkedMessageSize_iff hd hpos).mpr
      ⟨offset,start,hb.loose hd,hline.loose,hm,rfl⟩
  | line _ _ hok _ => cases hok

end Chunked

namespace HttpClient

open Chunked

variable {data : Bytes} {buffer future : Bytes}

section

variable (hd : Addressable (buffer ++ future))
include hd

theorem run_trailers_part
    {offset n : Nat} (h : Trailers isTrailerLine (buffer ++ future) offset n) {fuel : Nat}
    (hfuel : buffer.length-offset < fuel) :
    run (chunkTurn buffer) fuel (.trailer offset) =
      .ret (if n ≤ buffer.length then some n else none) := by
  have hb := hd.of_append
  induction h generalizing fuel with
  | @blank offset hm =>
    obtain ⟨fuel,rfl⟩ := Nat.exists_eq_add_of_lt hfuel
    have hfind := find_crlf_part ((find_self_iff (by decide)).mpr hm)
    split
    · rename_i hle
      rw [if_pos hle] at hfind
      have hturn := trailerTurn_eq hb hfind
      rw [if_pos rfl] at hturn
      exact run_leave hturn _
    · rename_i hle
      rw [if_neg hle] at hfind
      exact run_leave (show chunkTurn buffer (.trailer offset) = .ok (.leave none) by
        simp [chunkTurn,trailerTurn,hfind]) _
  | @line offset lineEnd n hf hne hok ht ih =>
    obtain ⟨fuel,rfl⟩ := Nat.exists_eq_add_of_lt hfuel
    have hfind := find_crlf_part hf
    have hboun := find_crlf_bounds hf
    have hend := ht.bounds
    split at hfind
    · rename_i hle
      rw [slice_append (by omega)] at hok
      have hturn : chunkTurn buffer (.trailer offset) = .ok (.again (.trailer (lineEnd+2))) := by
        rw [chunkTurn,trailerTurn_eq hb hfind,if_neg hne,if_pos hok]
      rw [run_again hturn]
      exact ih (by omega)
    · rename_i hle
      rw [if_neg (by omega)]
      exact run_leave (show chunkTurn buffer (.trailer offset) = .ok (.leave none) by
        simp [chunkTurn,trailerTurn,hfind]) _

theorem run_message_part
    {offset n : Nat} {body : Bytes} (h : Message isTrailerLine (buffer ++ future) offset body n)
    {fuel : Nat} (hfuel : buffer.length-offset < fuel) :
    run (chunkTurn buffer) fuel (.chunk offset) =
      .ret (if n ≤ buffer.length then some n else none) := by
  have hb := hd.of_append
  have hwait {offset : Nat} (hfind : find crlf buffer offset = none) :
      chunkTurn buffer (.chunk offset) = .ok (.leave none) := by
    rw [chunkTurn,sizeTurn_of_find_none hfind]
  induction h generalizing fuel with
  | @last offset start n hline ht =>
    obtain ⟨fuel,rfl⟩ := Nat.exists_eq_add_of_lt hfuel
    have hend := ht.bounds
    have hstart := hline.bounds
    rcases hline.part with ⟨hle,hline⟩ | ⟨hlt,hfind⟩
    · have hturn : chunkTurn buffer (.chunk offset) = .ok (.again (.trailer start)) := by
        rw [chunkTurn,sizeTurn_of_sizeLine hb hline (by decide),if_pos rfl]
      rw [run_again hturn]
      exact run_trailers_part hd ht (by omega)
    · rw [if_neg (by omega)]
      exact run_leave (hwait hfind) _
  | @chunk offset start size n body hline hz hm hmes ih =>
    obtain ⟨fuel,rfl⟩ := Nat.exists_eq_add_of_lt hfuel
    have hend := hmes.bounds
    have hstart := hline.bounds
    rcases hline.part with ⟨hle,hline⟩ | ⟨hlt,hfind⟩
    · have hs := strictSize_lt hline.choose_spec.2.1
      by_cases hfit : start+size+2 ≤ buffer.length
      · have hm' : OccursAt crlf buffer (start+size) := occursAt_of_append hm hfit
        have hturn : chunkTurn buffer (.chunk offset) = .ok (.again (.chunk (start+size+2))) := by
          rw [chunkTurn,sizeTurn_of_fits hb hline hs hz (not_overflows hb hm'),if_pos hm']
        rw [run_again hturn]
        exact ih (by omega)
      · have hturn : chunkTurn buffer (.chunk offset) = .ok (.leave none) := by
          unfold Addressable at hd
          rw [chunkTurn,sizeTurn_of_sizeLine hb hline hs,if_neg hz,if_neg (by omega),
            Nat.mod_eq_of_lt (by omega),if_pos (by omega)]
        rw [if_neg (by omega)]
        exact run_leave hturn _
    · rw [if_neg (by omega)]
      exact run_leave (hwait hfind) _

theorem getChunkedMessageSize_part
    {n : Nat} {body : Bytes} (h : Message isTrailerLine (buffer ++ future) 0 body n) :
    getChunkedMessageSize buffer = .ret (if n ≤ buffer.length then some n else none) :=
  run_message_part hd h (by omega)

end

theorem getChunkedMessageSize_of_message (hd : Addressable data) {n : Nat} {body : Bytes}
    (h : Message isTrailerLine data 0 body n) : getChunkedMessageSize data = .ret (some n) := by
  have hle := h.bounds.2
  rw [← append_nil data] at hd h
  rw [getChunkedMessageSize_part hd h,if_pos hle]

end HttpClient

namespace HttpParser

open Chunked

theorem message_buildChunked (ok : Bytes → Bool) {b : Bytes} (hb : b.length ≤ sizeMax) :
    Message ok (buildChunked b) 0 b (buildChunked b).length := by
  have h := message_blocks ok (Nat.le_refl b.length) hb []
  simpa [buildChunked] using h

/-- What `buildChunked` writes is decoded to what it was written from, and framed as it
stands whatever follows it. -/
theorem chunked_round_trip {b rest : Bytes} (hmemory : Addressable (buildChunked b ++ rest)) :
    parseChunked (buildChunked b) = .ret (true, b) ∧
      HttpServer.getChunkedMessageSize (buildChunked b ++ rest) = .ret (some (buildChunked b).length) ∧
      HttpClient.getChunkedMessageSize (buildChunked b ++ rest) = .ret (some (buildChunked b).length) := by
  have hb : b.length ≤ sizeMax := by
    have hle := length_le_chunkBlocks (Nat.le_refl b.length)
    unfold Addressable at hmemory
    simp only [buildChunked,List.length_append] at hmemory
    unfold sizeMax
    omega
  refine ⟨?_,?_,?_⟩
  · exact (parseChunked_iff (hmemory.of_length_le (by simp))).mpr (message_buildChunked _ hb)
  · exact ((message_buildChunked _ hb).append rest).server_size hmemory
  · exact HttpClient.getChunkedMessageSize_of_message hmemory ((message_buildChunked _ hb).append rest)

/-- A body that looks like the end of a chunked body. -/
theorem chunked_round_trip_lookalike :
    let b := ascii "0\r\n\r\nA\r\n"
    let rest := ascii "5\r\n"
    Addressable (buildChunked b ++ rest) ∧ parseChunked (buildChunked b) = .ret (true,b) ∧
      HttpServer.getChunkedMessageSize (buildChunked b ++ rest) = .ret (some (buildChunked b).length) ∧
      HttpClient.getChunkedMessageSize (buildChunked b ++ rest) = .ret (some (buildChunked b).length) :=
  ⟨by decide +kernel,chunked_round_trip (by decide +kernel)⟩

end HttpParser

end FastNet
