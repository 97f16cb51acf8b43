import FastNet.ChunkedBuild
import FastNet.ResponseBuffer

/-!
When `HttpClient` takes a buffered response for complete.
-/

namespace FastNet.HttpClient

open Text Numeral Loop HttpParser Chunked

section DeclaredLength

variable {method : Bytes} {raw : ByteView} {headView : HttpResponseView} {headerEnd n : Nat}

theorem bodyFraming_of_declared (hbody : hasNoBody method headView.statusCode = false)
    (hlen : declaredLength headView.headers = some n) : bodyFraming method headView = .length n := by
  simp [bodyFraming,hbody,hlen]

theorem tryExtract_of_declared (connectionClosed : Bool) (hhead : parseResponseHead raw = (true,headView))
    (hend : find crlfcrlf raw.text 0 = some headerEnd)
    (hbody : hasNoBody method headView.statusCode = false)
    (hlen : declaredLength headView.headers = some n) :
    tryExtractResponseViewFromRaw method raw connectionClosed =
      .ret (if raw.size < sizeAdd (headerEnd+4) n then none
        else some (headView.withBody (raw.sub (headerEnd+4) n),sizeAdd (headerEnd+4) n)) := by
  rw [tryExtract_eq connectionClosed hhead hend,bodyFraming_of_declared hbody hlen,frameResponse]
  split
  · rfl
  · rfl

/-- A response that declares its length is delivered with all of its body, and with
nothing else, exactly when the end of the body is a number of 64 bits. -/
theorem declared_length_respected_iff (connectionClosed : Bool)
    (hhead : parseResponseHead raw = (true, headView)) (hend : find crlfcrlf raw.text 0 = some headerEnd)
    (hbody : hasNoBody method headView.statusCode = false)
    (hlength : declaredLength headView.headers = some n) :
    (∀ view consumedBytes,
      tryExtractResponseViewFromRaw method raw connectionClosed = .ret (some (view, consumedBytes)) →
      view.body.size = n ∧ consumedBytes = headerEnd+4+n ∧ consumedBytes ≤ raw.size) ↔
    headerEnd+4+n < 2^64 := by
  have hext := tryExtract_of_declared connectionClosed hhead hend hbody hlength
  have hboun : headerEnd+4 ≤ raw.size := (find_bounds (by decide) hend).2
  have hn : n < 2^64 := HttpServer.declaredLength_lt hlength
  constructor
  · intro hall
    by_contra hwide
    -- the sum wraps around to a position before the end of the head, which is there
    have hwrap : ¬ raw.size < sizeAdd (headerEnd+4) n := by
      unfold sizeAdd
      omega
    rw [if_neg hwrap] at hext
    have hcon := (hall _ _ hext).2.1
    unfold sizeAdd at hcon
    omega
  · intro hfits view consumedBytes hview
    have hsum : sizeAdd (headerEnd+4) n = headerEnd+4+n := sizeAdd_eq hfits
    rw [hext,hsum] at hview
    split at hview
    · cases hview
    · rename_i hthere
      cases hview
      refine ⟨?_,rfl,by omega⟩
      have hsize : raw.text.length = raw.size := rfl
      simp only [HttpResponseView.withBody,View.sub,View.size,List.length_take,List.length_drop]
      omega

def shortResponse : Bytes := ascii "HTTP/1.1 200 OK\r\nContent-Length: 3\r\n\r\nabc"

theorem declared_length_respected_short :
    declaredLength (parseResponseHead (.whole shortResponse)).2.headers = some 3 ∧
      ∀ view consumedBytes, tryExtractResponseViewFromRaw (ascii "GET") (.whole shortResponse) false =
          .ret (some (view, consumedBytes)) →
        view.body.size = 3 ∧ consumedBytes = 34+4+3 ∧ consumedBytes ≤ (View.whole shortResponse).size := by
  have hlen : declaredLength (parseResponseHead (.whole shortResponse)).2.headers = some 3 := by decide +kernel
  exact ⟨hlen,(@declared_length_respected_iff (ascii "GET") (.whole shortResponse)
    (parseResponseHead (.whole shortResponse)).2 34 3 false (Prod.ext (by decide +kernel) rfl)
    (by decide +kernel) (by decide +kernel) hlen).mpr (by decide)⟩

/-- With a declared length of 2^64-1 bytes the sum is smaller than the head alone: the
response is delivered at once, without any of its body, and the last byte of its head is
left in the buffer. -/
theorem declared_length_wraps :
    let r := ascii "HTTP/1.1 200 OK\r\nContent-Length: 18446744073709551615\r\n\r\n"
    (tryExtractResponseViewFromRaw (ascii "GET") (.whole r) false).map
        (fun found => found.map (fun e => (declaredLength e.1.headers,e.1.body.size,e.2))) =
      .ret (some (some (2^64-1),0,56)) ∧
    (tryConsumeBufferedResponse (ascii "GET") false r).map
        (fun d => (d.1.map (fun response => (response.statusCode,response.body)),d.2)) =
      .ret (some (200,[]),ascii "\n") := by
  decide +kernel

end DeclaredLength

section ChunkedFraming

variable {data : Bytes}

/-- The places to which the client's scanner skips: it takes the place behind a chunk
modulo 2^64. -/
inductive WrappedBoundary (data : Bytes) : Nat → Prop where
  | start : WrappedBoundary data 0
  | next {offset start size : Nat} : WrappedBoundary data offset →
      SizeLine strictSize data offset start size → size ≠ 0 →
      OccursAt crlf data ((start+size)%2^64) → WrappedBoundary data ((start+size)%2^64+2)

/-- The client's scanner comes to a zero size line, with the trailers from `start` to `n`
behind it. -/
def Framed (data : Bytes) (start n : Nat) : Prop :=
  ∃ offset, WrappedBoundary data offset ∧ SizeLine strictSize data offset start 0 ∧
    Trailers isTrailerLine data start n

section

variable (hd : Addressable data)
include hd

theorem visits_of_wrappedBoundary {offset : Nat}
    (h : WrappedBoundary data offset) : Visits (chunkTurn data) (.chunk 0) (.chunk offset) := by
  induction h with
  | start => exact .refl
  | @next offset start size _ hline hz hm ih =>
    have hb := crlf_bound hm
    have hl := hline.bounds
    refine ih.tail ?_
    rw [Goes,chunkTurn,sizeTurn_of_sizeLine hd hline (strictSize_lt hline.choose_spec.2.1),if_neg hz,
      if_neg,if_neg (by omega),if_pos hm]
    rintro ⟨hge,hlt⟩
    unfold Addressable at hd
    omega

theorem trailers_of_run {fuel offset n : Nat} (hn : 0 < n)
    (h : run (chunkTurn data) fuel (.trailer offset) = .ret (some n)) :
    Trailers isTrailerLine data offset n := by
  induction fuel generalizing offset with
  | zero => cases h
  | succ fuel ih =>
    cases hf : find crlf data offset with
    | none => simp [run,chunkTurn,trailerTurn,hf] at h
    | some lineEnd =>
      have hturn : chunkTurn data (.trailer offset) = _ := trailerTurn_eq hd hf
      by_cases hblank : lineEnd = offset
      · subst hblank
        rw [if_pos rfl] at hturn
        rw [run_leave hturn] at h
        cases h
        exact .blank ((find_self_iff (by decide)).mp hf)
      · rw [if_neg hblank] at hturn
        split at hturn
        · rename_i hok
          rw [run_again hturn] at h
          exact .line hf hblank hok (ih h)
        · rw [run_leave hturn] at h
          cases h
          cases hn

theorem framed_of_run {fuel offset n : Nat} (hn : 0 < n)
    (hb : WrappedBoundary data offset)
    (h : run (chunkTurn data) fuel (.chunk offset) = .ret (some n)) : ∃ start, Framed data start n := by
  induction fuel generalizing offset with
  | zero => cases h
  | succ fuel ih =>
    rcases @sizeTurn_cases At strictSize (fun o => .ok (.again (.trailer o))) .chunk data offset
      with ht | ht | ⟨start,size,hline⟩
    · rw [run_leave (show chunkTurn data (.chunk offset) = _ from ht)] at h
      cases h
    · rw [run_leave (show chunkTurn data (.chunk offset) = _ from ht)] at h
      cases h
      cases hn
    · have hturn := @sizeTurn_of_sizeLine At strictSize (fun o => .ok (.again (.trailer o))) .chunk data hd
        _ _ _ hline (strictSize_lt hline.choose_spec.2.1)
      change chunkTurn data (.chunk offset) = _ at hturn
      split at hturn
      · rename_i hz
        subst hz
        rw [run_again hturn] at h
        exact ⟨start,offset,hb,hline,trailers_of_run hd hn h⟩
      · rename_i hz
        split at hturn
        · rw [run_error hturn] at h
          cases h
        · split at hturn
          · rw [run_leave hturn] at h
            cases h
          · split at hturn
            · rename_i hm
              rw [run_again hturn] at h
              exact ih (.next hb hline hz hm) h
            · rw [run_leave hturn] at h
              cases h
              cases hn

theorem getChunkedMessageSize_iff {n : Nat} (hn : 0 < n) :
    getChunkedMessageSize data = .ret (some n) ↔ ∃ start, Framed data start n := by
  constructor
  · intro h
    exact framed_of_run hd hn .start h
  · rintro ⟨start,offset,hb,hline,ht⟩
    obtain ⟨k,hk⟩ := run_visits (visits_of_wrappedBoundary hd hb)
    have hzero : chunkTurn data (.chunk offset) = .ok (.again (.trailer start)) := by
      rw [chunkTurn,sizeTurn_of_sizeLine hd hline (by decide),if_pos rfl]
    have hrun : run (chunkTurn data) (data.length+1) (.trailer start) = .ret (some n) := by
      have hpart := @run_trailers_part data [] (by rwa [List.append_nil]) start n
        (by rwa [List.append_nil]) (data.length+1) (by omega)
      rwa [if_pos ht.bounds.2] at hpart
    have hret : run (chunkTurn data) (data.length+1+1+k) (.chunk 0) = .ret (some n) := by
      rw [hk,run_again hzero,hrun]
    have hne : getChunkedMessageSize data ≠ .hang := by
      intro h
      rw [(getChunkedMessageSize_hang_iff hd).mp h] at hret
      cases hret
    rw [getChunkedMessageSize,run_eq_of_ne_hang hne (by rw [hret]; simp),hret]

end

theorem boundary_of_wrappedBoundary
    (hfits : ∀ offset start size, WrappedBoundary data offset → SizeLine strictSize data offset start size →
      start+size < 2^64) {offset : Nat} (h : WrappedBoundary data offset) :
    Boundary strictSize data offset := by
  induction h with
  | start => exact .start
  | next hb hline hz hm ih =>
    rw [Nat.mod_eq_of_lt (hfits _ _ _ hb hline)] at hm ⊢
    exact .next ih hline hz hm

theorem wrappedBoundary_of_boundary (hd : Addressable data) {offset : Nat}
    (h : Boundary strictSize data offset) : WrappedBoundary data offset := by
  induction h with
  | start => exact .start
  | next _ hline hz hm ih =>
    have hmod := mod_eq_of_crlf hd hm
    rw [← hmod] at hm ⊢
    exact .next ih hline hz hm

theorem message_at_wrappedBoundary (hd : Addressable data) {ok : Bytes → Bool} {n : Nat} {body : Bytes}
    (h : Message ok data 0 body n) {offset : Nat} (hb : WrappedBoundary data offset) :
    ∃ body, Message ok data offset body n := by
  induction hb with
  | start => exact ⟨body,h⟩
  | next _ hline hz hm ih =>
    obtain ⟨body',hmsg⟩ := ih
    cases hmsg with
    | last hline' _ => exact absurd (hline.unique hline').2 hz
    | chunk hline' _ hm' hrest =>
      obtain ⟨rfl,rfl⟩ := hline.unique hline'
      rw [mod_eq_of_crlf hd hm']
      exact ⟨_,hrest⟩

/-- What the client frames is a body for the decoder too: no chunk that the client's
scanner comes to ends behind 2^64, and the decoder goes past the trailers as well. -/
structure DecodesAsFramed (data : Bytes) : Prop where
  trailers : ∀ start n, Framed data start n → Trailers HttpParser.isTrailerLine data start n
  fits : ∀ start n, Framed data start n → ∀ offset start' size, WrappedBoundary data offset →
    SizeLine strictSize data offset start' size → start'+size < 2^64

/-- The client's framing and the decoder agree on exactly the inputs that decode as they
are framed. -/
theorem client_framing_agrees_iff (data : Bytes) (hd : Addressable data) :
    (∀ n, 0 < n → (getChunkedMessageSize data = .ret (some n) ↔ HttpServer.Decodable data n)) ↔
      DecodesAsFramed data := by
  constructor
  · intro hagree
    -- a message that is decoded fixes where the scanner goes, and where the trailers end
    have hmes {start n : Nat} (hfram : Framed data start n) :
        ∃ body, Message HttpParser.isTrailerLine data 0 body n := by
      have hn : 0 < n := by
        obtain ⟨offset,-,-,ht⟩ := hfram
        have := ht.bounds
        omega
      exact (HttpServer.decodable_iff hd).mp
        ((hagree n hn).mp ((getChunkedMessageSize_iff hd hn).mpr ⟨start,hfram⟩))
    constructor
    · rintro start n ⟨offset,hb,hline,ht⟩
      obtain ⟨body,hmsg⟩ := hmes ⟨offset,hb,hline,ht⟩
      obtain ⟨body',hmsg'⟩ := message_at_wrappedBoundary hd hmsg hb
      cases hmsg' with
      | last hline' ht' =>
        obtain ⟨rfl,-⟩ := hline.unique hline'
        exact ht'
      | chunk hline' hz _ _ => exact absurd (hline.unique hline').2.symm hz
    · intro start n hfram offset start' size hb hline
      obtain ⟨body,hmsg⟩ := hmes hfram
      obtain ⟨body',hmsg'⟩ := message_at_wrappedBoundary hd hmsg hb
      unfold Addressable at hd
      cases hmsg' with
      | last hline' _ =>
        obtain ⟨rfl,rfl⟩ := hline.unique hline'
        have := hline.bounds
        omega
      | chunk hline' _ hm _ =>
        obtain ⟨rfl,rfl⟩ := hline.unique hline'
        have := crlf_bound hm
        omega
  · intro h n hn
    rw [getChunkedMessageSize_iff hd hn,HttpServer.decodable_iff hd]
    constructor
    · rintro ⟨start,hfram⟩
      obtain ⟨offset,hb,hline,-⟩ := id hfram
      exact message_of_boundary (boundary_of_wrappedBoundary (h.fits start n hfram) hb)
        (.last hline (h.trailers start n hfram))
    · rintro ⟨body,hmsg⟩
      obtain ⟨offset,start,hb,hline,ht⟩ := hmsg.boundary .start
      exact ⟨start,offset,wrappedBoundary_of_boundary hd hb,hline,
        ht.mono (fun _ => HttpParser.client_isTrailerLine)⟩

theorem client_framing_agrees_hello :
    let data := ascii "5\r\nhello\r\n0\r\nA: b\r\n\r\nHTTP"
    (∀ n, 0 < n → (getChunkedMessageSize data = .ret (some n) ↔ HttpServer.Decodable data n)) ↔
      DecodesAsFramed data :=
  client_framing_agrees_iff _ (by decide)

/-- A trailer whose name has a space in it: the client frames the body, the decoder
refuses it, and the response is delivered with the bytes of its chunks. -/
theorem client_framing_disagrees :
    let body := ascii "2\r\nhi\r\n0\r\nA b: c\r\n\r\n"
    getChunkedMessageSize body = .ret (some 20) ∧ ¬ HttpServer.Decodable body 20 ∧
      (tryConsumeBufferedResponse (ascii "GET") false
        (ascii "HTTP/1.1 200 OK\r\nTransfer-Encoding: chunked\r\n\r\n" ++ body)).map
          (fun d => d.1.map (fun response => (response.statusCode,response.body))) =
        .ret (some (200,body)) := by
  refine ⟨by decide +kernel,?_,by decide +kernel⟩
  rintro ⟨-,body,h⟩
  have hfalse : HttpParser.parseChunked ((ascii "2\r\nhi\r\n0\r\nA b: c\r\n\r\n").take 20) =
      .ret (false,ascii "hi") := by decide +kernel
  rw [hfalse] at h
  cases h

end ChunkedFraming

end FastNet.HttpClient
