import FastNet.HeadWire
import FastNet.ResponseExtraction

/-!
The buffer of responses and what follows a response in it.
-/

namespace FastNet

open Text Numeral Loop HttpParser List Option View

namespace ViewMap

variable {rd rd' : ByteView → Bytes} {headers : ViewMap} {e : Bytes × ByteView × ByteView}

theorem getHeader_congr (h : ∀ (k : Bytes) (e : ByteView × ByteView), headers[k]? = some e →
    rd e.1 = rd' e.1) (name : Bytes) : headers.getHeader rd name = headers.getHeader rd' name := by
  unfold getHeader
  congr 1
  refine find?_congr (fun e he => ?_)
  rw [h e.1 e.2 (Std.ExtTreeMap.mem_toList_iff_getElem?_eq_some.mp he)]

theorem toStrings_congr (h : ∀ (k : Bytes) (e : ByteView × ByteView), headers[k]? = some e →
    rd e.1 = rd' e.1 ∧ rd e.2 = rd' e.2) : headers.toStrings rd = headers.toStrings rd' := by
  refine foldl_ext _ _ _ (fun copy e he => ?_)
  have hrd := h e.1 e.2 (Std.ExtTreeMap.mem_toList_iff_getElem?_eq_some.mp he)
  rw [hrd.1,hrd.2]

section Copies

variable (hkeyed : ∀ (k : Bytes) (e : ByteView × ByteView), headers[k]? = some e → e.1.text = k)

include hkeyed

variable {name : Bytes} (hunique : ∀ e ∈ headers.toList, ∀ e' ∈ headers.toList,
  HttpParser.caseInsensitiveCompare e.1 name = true →
  HttpParser.caseInsensitiveCompare e'.1 name = true → e = e')

include hunique

end Copies

end ViewMap

namespace HttpParser

variable {data rest mem : Bytes} {headerEnd kMaxLineSize : Nat} {line headerLines : ByteView}
variable {view : HttpResponseView} {headers : ViewMap}

/-- The head of a message ends where the blank line is found; what stands behind it does
not change how it is cut into lines. -/
theorem splitHead_whole_append {lineEnd : Nat}
    (he : find crlfcrlf data 0 = some headerEnd) (hl : find crlf data 0 = some lineEnd)
    (hle : lineEnd+2 ≤ headerEnd) (hsec : headerEnd ≤ kMaxHeaderSectionSize)
    (kMaxLineSize : Nat) (rest : Bytes) :
    splitHead kMaxLineSize (.whole (data ++ rest)) = splitHead kMaxLineSize (.whole data) := by
  have hb := find_bounds (by decide) he
  simp only [crlfcrlf,length_cons,length_nil] at hb
  have hdata : data ≠ [] := by
    rintro rfl
    simp at hb
  simp only [splitHead,whole_text,if_neg (append_ne_nil_of_left_ne_nil hdata rest),
    if_neg hdata,he,hl,find_append (by decide) he rest,find_append (by decide) hl rest,
    sizeSub_eq hle hsec,whole_sub_append data rest (show lineEnd+2+(headerEnd-(lineEnd+2)) ≤
      data.length by omega),whole_sub_append data rest (show 0+lineEnd ≤ data.length by omega)]

theorem splitHead_append
    (h : splitHead kMaxLineSize (.whole data) = some (line,headerLines))
    (hparse : parseHeaderLines headerLines = (true,headers)) (rest : Bytes) :
    splitHead kMaxLineSize (.whole (data ++ rest)) = some (line,headerLines) := by
  obtain ⟨headerEnd,lineEnd,he,hl,hle,hsec,-⟩ := splitHead_accepted h hparse
  rw [whole_text] at he hl
  rw [splitHead_whole_append he hl hle hsec,h]

theorem splitHead_of_append
    (h : splitHead kMaxLineSize (.whole (data ++ rest)) = some (line,headerLines))
    (hparse : parseHeaderLines headerLines = (true,headers))
    (he : find crlfcrlf data 0 = some headerEnd) :
    splitHead kMaxLineSize (.whole data) = some (line,headerLines) := by
  obtain ⟨headerEnd',lineEnd,he',hl,hle,hsec,-⟩ := splitHead_accepted h hparse
  rw [whole_text,find_append (by decide) he rest,some.injEq] at he'
  subst he'
  have hb := find_bounds (by decide) he
  simp only [crlfcrlf,length_cons,length_nil] at hb
  have hl' : find crlf data 0 = some lineEnd :=
    find_of_append hl (by simp only [crlf,length_cons,length_nil]; omega)
  rw [← splitHead_whole_append he hl' hle hsec kMaxLineSize rest,h]

theorem parseResponseHead_append
    (h : parseResponseHead (.whole data) = (true,view)) (rest : Bytes) :
    parseResponseHead (.whole (data ++ rest)) = (true,view) := by
  obtain ⟨line,headerLines,statusCode,hsplit,-,-,hparse⟩ := parseResponseHead_spec h
  rw [← h]
  simp only [parseResponseHead,splitHead_append hsplit hparse rest,hsplit]

theorem parseResponseHead_of_append
    (h : parseResponseHead (.whole (data ++ rest)) = (true,view))
    (he : find crlfcrlf data 0 = some headerEnd) : parseResponseHead (.whole data) = (true,view) := by
  obtain ⟨line,headerLines,statusCode,hsplit,-,-,hparse⟩ := parseResponseHead_spec h
  rw [← h]
  simp only [parseResponseHead,splitHead_of_append hsplit hparse he,hsplit]

structure HeadWithin (mem : Bytes) (view : HttpResponseView) : Prop where
  statusMessage : view.statusMessage.Within mem
  headers : ∀ (k : Bytes) (e : ByteView × ByteView), view.headers[k]? = some e →
    e.1.Within mem ∧ e.2.Within mem

theorem splitHead_within {data : ByteView}
    (hdata : data.Within mem) (h : splitHead kMaxLineSize data = some (line,headerLines)) :
    line.Within mem ∧ headerLines.Within mem := by
  unfold splitHead at h
  split at h
  · cases h
  · split at h
    · cases h
    · split at h
      · cases h
      · split at h
        · cases h
        · split at h
          · cases h
          · cases h
            exact ⟨hdata.sub _ _,hdata.sub _ _⟩

theorem splitStatusLine_within {version message : ByteView} {statusCode : Nat}
    (hline : line.Within mem) (h : splitStatusLine line = some (version,statusCode,message)) :
    message.Within mem := by
  unfold splitStatusLine at h
  split at h
  · cases h
  · split at h
    · cases h
    · split at h
      · cases h
      · split at h
        · cases h
        · simp only [ite_none_left_eq_some,map_eq_some_iff,Prod.mk.injEq] at h
          obtain ⟨-,_,-,-,-,rfl⟩ := h
          exact (hline.suffix _).trim _

theorem parseResponseHead_within {data : ByteView}
    (hdata : data.Within mem) (h : parseResponseHead data = (true,view)) : HeadWithin mem view := by
  obtain ⟨line,headerLines,statusCode,hsplit,hline,-,hparse⟩ := parseResponseHead_spec h
  obtain ⟨hfirst,hlines⟩ := splitHead_within hdata hsplit
  exact ⟨splitStatusLine_within hfirst hline,parseHeaderLines_within hlines hparse⟩

end HttpParser

namespace HttpClient

open Chunked

variable {data : Bytes} {n : Nat}

theorem getChunkedMessageSize_le (hd : Addressable data) {n : Nat}
    (h : getChunkedMessageSize data = .ret (some n)) : n ≤ data.length := by
  obtain ⟨t,-,ht⟩ := visit_of_ret h
  cases t with
  | chunk offset =>
    rw [chunkTurn] at ht
    rcases sizeTurn_outcomes hd (fun _ _ => strictSize_lt) offset with
      ⟨r,hr,hl⟩ | ⟨start,size,-,⟨-,hl⟩ | ⟨-,-,hl⟩ | ⟨-,hl | ⟨-,hl⟩⟩⟩
    · rw [hl] at ht
      cases ht
      simp at hr
      omega
    all_goals
      rw [hl] at ht
      cases ht
  | trailer offset =>
    rw [chunkTurn] at ht
    cases hf : find crlf data offset with
    | none => simp [trailerTurn,hf] at ht
    | some lineEnd =>
      have hb := find_crlf_bounds hf
      rw [trailerTurn_eq hd hf] at ht
      split at ht
      · cases ht
        omega
      · split at ht
        · cases ht
        · cases ht
          omega

theorem tryExtract_some {method : Bytes} {raw : ByteView} {connectionClosed : Bool}
    {view : HttpResponseView}
    (h : tryExtractResponseViewFromRaw method raw connectionClosed = .ret (some (view,n))) :
    ∃ headView headerEnd body, parseResponseHead raw = (true,headView) ∧
      find crlfcrlf raw.text 0 = some headerEnd ∧
      frameResponse raw (headerEnd+4) connectionClosed (bodyFraming method headView) =
        .ret (some (body,n)) ∧ view = headView.withBody body := by
  cases he : find crlfcrlf raw.text 0 with
  | none =>
    rw [tryExtract_of_no_head he] at h
    cases h
  | some headerEnd =>
    cases hp : parseResponseHead raw with
    | mk accepted headView =>
      cases accepted with
      | false =>
        simp only [tryExtractResponseViewFromRaw,hp] at h
        cases h
      | true =>
        rw [tryExtract_eq connectionClosed hp he,Outcome.map,Outcome.bind_eq_ret_iff] at h
        obtain ⟨found,hfound,h⟩ := h
        cases found with
        | none => cases h
        | some e =>
          cases h
          exact ⟨headView,headerEnd,e.1,rfl,rfl,hfound,rfl⟩

theorem frameResponse_append (hmem : Addressable data) {headerBytes : Nat}
    (hh : headerBytes ≤ data.length) {framing : BodyFraming}
    (hlt : ∀ n, framing = .length n → n < 2^64) {view : ByteView}
    (h : frameResponse (.whole data) headerBytes false framing = .ret (some (view,data.length)))
    (rest : Bytes) (connectionClosed : Bool) :
    frameResponse (.whole (data ++ rest)) headerBytes connectionClosed framing =
      .ret (some (view,data.length)) ∧ view.Within data := by
  have hwhole := whole_within data
  have hlen : (whole (data ++ rest)).size = data.length+rest.length := length_append
  unfold Addressable at hmem
  cases framing with
  | empty =>
    cases h
    exact ⟨rfl,null_within data⟩
  | length n =>
    simp only [frameResponse,Outcome.ret.injEq,ite_none_left_eq_some,some.injEq,Prod.mk.injEq] at h
    obtain ⟨-,rfl,hn⟩ := h
    have hsum : headerBytes+n = data.length := by
      have := hlt n rfl
      unfold sizeAdd at hn
      omega
    refine ⟨?_,hwhole.sub _ _⟩
    simp only [frameResponse,hn,hlen,whole_sub_append data rest (Nat.le_of_eq hsum)]
    rw [if_neg (by omega)]
  | chunked =>
    rw [frameResponse,Outcome.map,Outcome.bind_eq_ret_iff] at h
    obtain ⟨size,hsize,h⟩ := h
    rcases size with _ | _ | n
    · cases h
    · cases h
    simp only [Outcome.ret.injEq,some.injEq,Prod.mk.injEq] at h
    obtain ⟨rfl,hn⟩ := h
    have hd : Addressable (data.drop headerBytes) := by
      unfold Addressable
      rw [length_drop]
      omega
    have hle := getChunkedMessageSize_le hd hsize
    rw [length_drop] at hle
    have hsum : headerBytes+(n+1) = data.length := by
      rw [← hn]
      exact (sizeAdd_eq (by omega)).symm
    have hmore := getChunkedMessageSize_append hd hsize rest
    rw [← drop_append_of_le_length hh] at hmore
    refine ⟨?_,hwhole.sub _ _⟩
    simp only [frameResponse,whole_text,hmore,Outcome.map,Outcome.bind_ret,hn,
      whole_sub_append data rest (Nat.le_of_eq hsum)]
  | untilClose => cases h

theorem bodyFraming_length_lt {method : Bytes} {view : HttpResponseView}
    (h : bodyFraming method view = .length n) : n < 2^64 := by
  unfold bodyFraming at h
  split at h
  · cases h
  · split at h
    · rename_i hn
      cases h
      exact HttpServer.declaredLength_lt hn
    · split at h
      · cases h
      · cases h

theorem tryExtract_append {method : Bytes} (hmem : Addressable data) {view : HttpResponseView}
    (h : tryExtractResponseViewFromRaw method (.whole data) false = .ret (some (view,data.length)))
    (rest : Bytes) (connectionClosed : Bool) :
    tryExtractResponseViewFromRaw method (.whole (data ++ rest)) connectionClosed =
      .ret (some (view,data.length)) ∧ HeadWithin data view ∧ view.body.Within data := by
  obtain ⟨headView,headerEnd,body,hp,he,hframe,rfl⟩ := tryExtract_some h
  have hb := find_bounds (by decide) he
  simp only [whole_text,crlfcrlf,length_cons,length_nil] at hb
  obtain ⟨hframe',hbody⟩ := frameResponse_append hmem hb.2
    (fun n => bodyFraming_length_lt) hframe rest connectionClosed
  have hwit := parseResponseHead_within (whole_within data) hp
  have hp' := parseResponseHead_append hp rest
  have he' : find crlfcrlf (whole (data ++ rest)).text 0 = some headerEnd :=
    find_append (by decide) he rest
  rw [tryExtract_eq connectionClosed hp' he',hframe']
  exact ⟨rfl,⟨hwit.statusMessage,hwit.headers⟩,hbody⟩

variable {rd rd' : ByteView → Bytes} {view : HttpResponseView}

theorem isChunked_congr {headers : ViewMap} (h : ∀ (k : Bytes) (e : ByteView × ByteView),
    headers[k]? = some e → rd e.1 = rd' e.1 ∧ rd e.2 = rd' e.2) :
    isChunked rd headers = isChunked rd' headers := by
  unfold isChunked
  rw [ViewMap.getHeader_congr (fun k e he => (h k e he).1)]
  cases hv : headers.getHeader rd' (ascii "Transfer-Encoding") with
  | none => rfl
  | some value =>
    obtain ⟨k,e,he,-,rfl⟩ := ViewMap.getHeader_eq_some hv
    simp only [any_some,(h k e he).2]

theorem buildResponse_congr (hm : rd view.statusMessage = rd' view.statusMessage)
    (hh : ∀ (k : Bytes) (e : ByteView × ByteView), view.headers[k]? = some e →
      rd e.1 = rd' e.1 ∧ rd e.2 = rd' e.2) (hb : rd view.body = rd' view.body) :
    buildResponse rd view = buildResponse rd' view := by
  simp only [buildResponse,decodeBody,isChunked_congr hh,ViewMap.toStrings_congr hh,hm,hb]

/-- A response that fills a buffer: it is extracted, it is no interim response, and its
body can be decoded. -/
structure CompleteResponse (method r : Bytes) where
  view : HttpResponseView
  body : Bytes
  extracted : tryExtractResponseViewFromRaw method (.whole r) false = .ret (some (view,r.length))
  final : isInterimResponseStatus view.statusCode = false
  decoded : decodeBody View.text view = .ret body

namespace CompleteResponse

variable {method r : Bytes}

def response (c : CompleteResponse method r) : HttpResponse where
  statusCode := c.view.statusCode
  statusMessage := c.view.statusMessage.text
  headers := c.view.headers.toStrings text
  body := c.body

section

variable (c : CompleteResponse method r)

theorem consume {rest : Bytes} (hmem : Addressable (r ++ rest))
    (connectionClosed : Bool) :
    tryConsumeBufferedResponse method connectionClosed (r ++ rest) =
      (buildResponse (read (storageAfterErase (r ++ rest) r.length)) c.view).map
        (fun response => (some response,rest)) := by
  have hr : Addressable r := hmem.of_append
  have hext := (tryExtract_append hr c.extracted rest connectionClosed).1
  have herase : eraseResponseBufferPrefix (r ++ rest) r.length = rest := by
    cases rest with
    | nil => simp [eraseResponseBufferPrefix]
    | cons b rest => simp [eraseResponseBufferPrefix]
  simp only [tryConsumeBufferedResponse,consumeLoop,hext,Outcome.bind_ret,c.final,Bool.false_eq_true,if_false,herase]

end

end CompleteResponse

end HttpClient

end FastNet
