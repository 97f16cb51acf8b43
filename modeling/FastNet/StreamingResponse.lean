import FastNet.HeadAcceptance
import FastNet.ResponseBuffer
import FastNet.StreamingBody

/-!
Streaming against buffered reception: the same bytes, cut into segments in any way.
-/

namespace FastNet

open Text Numeral Loop HttpParser List View Option

namespace HttpParser

end HttpParser

namespace HttpClient

variable {raw : ByteView} {view : HttpResponseView} {rd : ByteView → Bytes}

theorem frameResponse_waits {data future rest : Bytes} {headerBytes : Nat}
    (hmem : Addressable (data ++ future)) (hh : headerBytes ≤ data.length) {framing : BodyFraming}
    (h : Remains (data.drop headerBytes) future 0 rest framing) (hfut : future ≠ []) :
    frameResponse (.whole data) headerBytes false framing = .ret none := by
  have hpos := length_pos_iff.mpr hfut
  unfold Addressable at hmem
  rw [length_append] at hmem
  cases framing with
  | empty => exact absurd (append_eq_nil_iff.mp h.1).2 hfut
  | length n =>
    have hsum := h.1
    rw [length_append,length_drop] at hsum
    have hadd : sizeAdd headerBytes n = headerBytes+n := sizeAdd_eq (by omega)
    simp only [frameResponse,hadd]
    rw [if_pos (by rw [size,whole_text]; omega)]
  | chunked =>
    have hpart := getChunkedMessageSize_part
      (show Addressable (data.drop headerBytes ++ future) by
        unfold Addressable
        rw [length_append,length_drop]
        omega) h
    rw [if_neg (by rw [length_append]; omega)] at hpart
    simp only [frameResponse,whole_text,hpart,Outcome.map,Outcome.bind_ret]
  | untilClose => cases h

theorem parseResponseHead_bodyless
    (h : parseResponseHead raw = (true,view)) : view.body = .null := by
  unfold parseResponseHead at h
  split at h
  · cases h
  · split at h
    · cases h
    · split at h
      · cases h
      · cases h
        rfl

theorem not_isChunked_of_declared
    (hp : parseResponseHead raw = (true,view)) {n : Nat} (hn : declaredLength view.headers = some n) :
    isChunked text view.headers = false := by
  obtain ⟨_,_,hf⟩ := parseResponseHead_framing hp
  unfold isChunked
  cases hv : view.headers.getHeader text (ascii "Transfer-Encoding") with
  | none => rfl
  | some value => simp [declaredLength,hf.no_length hv] at hn

namespace CompleteResponse

variable {method r : Bytes}

def WellChunked (c : CompleteResponse method r) : Prop :=
  bodyFraming method c.view = .chunked → parseChunked c.view.body.text = .ret (true,c.body)

structure Split (c : CompleteResponse method r) (headView : HttpResponseView) (headerEnd : Nat) :
    Prop where
  parsed : parseResponseHead (.whole r) = (true,headView)
  blank : find crlfcrlf r 0 = some headerEnd
  status : c.view.statusCode = headView.statusCode
  message : c.view.statusMessage = headView.statusMessage
  headers : c.view.headers = headView.headers
  bodyless : headView.body = .null
  framed : Remains [] (r.drop (headerEnd+4)) 0 c.body (bodyFraming method headView)

theorem framed_text {headerBytes n : Nat} (hmem : Addressable r)
    (hn : sizeAdd headerBytes n = r.length) (hlt : n < 2^64) (hle : headerBytes ≤ r.length) :
    headerBytes+n = r.length ∧ ((whole r).sub headerBytes n).text = r.drop headerBytes := by
  have hsum : headerBytes+n = r.length := by
    unfold sizeAdd at hn
    unfold Addressable at hmem
    omega
  refine ⟨hsum,?_⟩
  rw [sub_text,whole_text,take_of_length_le (by rw [length_drop]; omega)]

theorem remains (c : CompleteResponse method r) (hchun : c.WellChunked) (hmem : Addressable r)
    {headView : HttpResponseView} {headerEnd : Nat} {body : ByteView}
    (hp : parseResponseHead (.whole r) = (true,headView)) (hle : headerEnd+4 ≤ r.length)
    (hframe : frameResponse (.whole r) (headerEnd+4) false (bodyFraming method headView) =
      .ret (some (body,r.length))) (hview : c.view = headView.withBody body) :
    Remains [] (r.drop (headerEnd+4)) 0 c.body (bodyFraming method headView) := by
  have hdec := c.decoded
  rw [hview] at hdec
  cases hfr : bodyFraming method headView with
  | empty =>
    rw [hfr] at hframe
    simp only [frameResponse,Outcome.ret.injEq,some.injEq,Prod.mk.injEq] at hframe
    obtain ⟨rfl,hend⟩ := hframe
    have hempty : parseChunked [] = .ret (false,[]) := by decide +kernel
    have hnull : (null : ByteView).text = [] := rfl
    refine ⟨drop_eq_nil_of_le (Nat.le_of_eq hend.symm),?_⟩
    simp only [decodeBody,HttpResponseView.withBody,hnull,hempty,Outcome.map,Outcome.bind_ret] at hdec
    split at hdec
    · exact (Outcome.ret.inj hdec).symm
    · exact (Outcome.ret.inj hdec).symm
  | length n =>
    have hlt := bodyFraming_length_lt hfr
    have hplain : isChunked text headView.headers = false := by
      unfold bodyFraming at hfr
      split at hfr
      · cases hfr
      · split at hfr
        · exact not_isChunked_of_declared hp (by assumption)
        · split at hfr
          · cases hfr
          · cases hfr
    rw [hfr] at hframe
    simp only [frameResponse,Outcome.ret.injEq,ite_none_left_eq_some,some.injEq,Prod.mk.injEq] at hframe
    obtain ⟨-,rfl,hend⟩ := hframe
    obtain ⟨hsum,htext⟩ := framed_text hmem hend hlt hle
    simp only [decodeBody,HttpResponseView.withBody,hplain,Bool.false_eq_true,if_false,htext,Outcome.ret.injEq] at hdec
    refine ⟨?_,hdec.symm⟩
    rw [nil_append,length_drop]
    omega
  | chunked =>
    have hchun := hchun (by rw [hview]; exact hfr)
    rw [hfr,frameResponse,Outcome.map,Outcome.bind_eq_ret_iff] at hframe
    obtain ⟨size,hsize,hframe⟩ := hframe
    rcases size with _ | _ | n
    · cases hframe
    · cases hframe
    simp only [Outcome.ret.injEq,some.injEq,Prod.mk.injEq] at hframe
    obtain ⟨rfl,hend⟩ := hframe
    have hd : Addressable (r.drop (headerEnd+4)) := hmem.drop _
    have hn := getChunkedMessageSize_le hd hsize
    rw [length_drop] at hn
    have htext := (framed_text hmem hend (by unfold Addressable at hmem; omega) hle).2
    rw [hview,HttpResponseView.withBody,htext] at hchun
    exact ((parseChunked_iff hd).mp hchun).mono (fun _ => client_isTrailerLine)
  | untilClose =>
    rw [hfr] at hframe
    cases hframe

theorem split (c : CompleteResponse method r) (hchun : c.WellChunked) (hmem : Addressable r) :
    ∃ headView headerEnd, c.Split headView headerEnd := by
  obtain ⟨headView,headerEnd,body,hp,he,hframe,hview⟩ := tryExtract_some c.extracted
  have hb := find_bounds (by decide) he
  simp only [whole_text,crlfcrlf,length_cons,length_nil] at hb
  exact ⟨headView,headerEnd,hp,he,by rw [hview]; rfl,by rw [hview]; rfl,by rw [hview]; rfl,
    parseResponseHead_bodyless hp,c.remains hchun hmem hp hb.2 hframe hview⟩

end CompleteResponse

structure AwaitsStream (c : Client) (method : Bytes) (request : Nat) : Prop where
  transport : c.transport = .connected
  method : c.pendingRequest.method = method
  unread : c.responseBuffer = []
  headless : c.streamHeadersParsed = false
  headers : c.streamHeadersCallback = some request
  listens : Listens c request

theorem AwaitsStream.buffered {c : Client} {method : Bytes} {request : Nat}
    (h : AwaitsStream c method request) : c = { c with responseBuffer := [] } := by
  have hunr := h.unread
  cases c
  cases hunr
  rfl

def headRead (rd : ByteView → Bytes) (view : HttpResponseView) : HttpResponse where
  statusCode := view.statusCode
  statusMessage := rd view.statusMessage
  headers := view.headers.toStrings rd

section Head

variable {c : Client} {method : Bytes} {request : Nat} {rd : ByteView → Bytes}
  {raw : ByteView} {view : HttpResponseView}

structure HeadTold (c : Client) (request : Nat) (head : HttpResponse) (framing : BodyFraming)
    (d : Client) : Prop where
  transport : d.transport = .connected
  parsed : d.streamHeadersParsed = true
  listens : Listens d request
  framed : d.FramedAs framing
  response : d.streamResponse = head
  log : d.log = c.log ++ [.headers request head]

end Head

end HttpClient

end FastNet
