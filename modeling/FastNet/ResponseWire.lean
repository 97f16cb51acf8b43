import FastNet.HeadWire
import FastNet.ResponseExtraction

/-!
Responses as `HttpServer` writes them and `HttpClient` reads them back.
-/

namespace FastNet

open Text Ctype Numeral Loop HttpParser List

namespace HttpParser

theorem statusDigits_toChars {n : Nat} (h : 100 ≤ n) (h' : n < 1000) :
    (toChars 10 n).length = 3 ∧ statusDigits (toChars 10 n) = some n := by
  have hall : ∀ n < 1000, 100 ≤ n →
      (toChars 10 n).length = 3 ∧ statusDigits (toChars 10 n) = some n := by decide +kernel
  exact hall n h' h

theorem statusDigits_append_singleton (codeText : Bytes) (c : UInt8) :
    statusDigits (codeText ++ [c]) =
      (statusDigits codeText).bind fun code => (decimalDigit c).map fun digit => code*10+digit := by
  simp only [statusDigits,foldl_append,foldl_cons,foldl_nil]

theorem isDigit_of_statusDigits {codeText : Bytes} {n : Nat} (h : statusDigits codeText = some n) :
    ∀ c ∈ codeText, isDigit c = true := by
  induction codeText using reverseRecOn generalizing n with
  | nil => simp
  | append_singleton codeText c ih =>
    rw [statusDigits_append_singleton,Option.bind_eq_some_iff] at h
    obtain ⟨code,hcode,h⟩ := h
    rw [Option.map_eq_some_iff] at h
    obtain ⟨digit,hdigit,-⟩ := h
    intro d hd
    rcases mem_append.mp hd with hd | hd
    · exact ih hcode d hd
    · obtain rfl := mem_singleton.mp hd
      by_contra hno
      simp [decimalDigit,hno] at hdigit

theorem splitStatusLine_parts {version code reason : Bytes} {n : Nat} {line : ByteView}
    (hver : isValidHttpVersion version = true) (hthree : code.length = 3)
    (hdig : statusDigits code = some n)
    (htext : line.text = version ++ [32] ++ code ++ [32] ++ reason) :
    ∃ v message, splitStatusLine line = some (v,n,message) ∧ v.text = version ∧
      message.text = trim reason := by
  have hspace : 32 ∉ code := fun hc => absurd (not_isSpace_of_decimalDigit (c := 32)
    (by simp [decimalDigit,isDigit_of_statusDigits hdig 32 hc])) (by decide)
  have hlen : version.length = 8 := by
    simp only [isValidHttpVersion,Bool.and_eq_true,decide_eq_true_eq] at hver
    exact hver.1.1
  have hline : line.text = version ++ [32] ++ (code ++ [32] ++ reason) := by
    rw [htext]
    simp only [append_assoc]
  have hsize : line.text.length = 13+reason.length := by
    rw [hline]
    simp only [length_append,length_cons,length_nil,hlen,hthree]
    omega
  have hdrop : line.text.drop 9 = code ++ [32] ++ reason := by
    rw [hline]
    exact drop_left' (by simp [hlen])
  have hfirst : find [32] line.text 0 = some 8 := by
    rw [hline,← hlen]
    exact find_cut (not_mem_version hver (by decide)) (code ++ [32] ++ reason)
  have hsec : find [32] line.text (8+1) = some 12 := by
    have h := find_drop [32] line.text 9 0 (by omega)
    rw [hdrop,find_cut hspace,hthree] at h
    exact h
  have hv : (line.sub 0 8).text = version := by
    rw [View.sub_text,hline,append_assoc]
    exact take_left' hlen
  have hc : (line.sub (8+1) (12-8-1)).text = code := by
    rw [View.sub_text,hdrop,append_assoc]
    exact take_left' hthree
  have hm : ((line.suffix (12+1)).trim isSpace).text = trim reason := by
    have hlast : line.text.drop (9+4) = reason := by
      rw [← drop_drop,hdrop]
      exact drop_left' (by simp [hthree])
    rw [View.trim_text,View.suffix_text,hlast]
    rfl
  refine ⟨line.sub 0 8,(line.suffix (12+1)).trim isSpace,?_,hv,hm⟩
  simp only [splitStatusLine,hfirst,hsec,View.size,hv,hc,hthree,hdig,hver]
  simp

def statusLine (n : Nat) (reason : Bytes) : Bytes :=
  ascii "HTTP/1.1" ++ [32] ++ toChars 10 n ++ [32] ++ reason

theorem parseResponseHead_written {n m : Nat} (hn : 100 ≤ n) (hn' : n < 1000) {reason : Bytes}
    (hreas : trim reason = reason) {fs : List (Bytes × Bytes)}
    (hhead : WrittenHead kMaxStatusLineSize (statusLine n reason) fs m) {data : ByteView}
    {rest : Bytes} (htext : data.text = headText (statusLine n reason) fs m ++ crlfcrlf ++ rest) :
    ∃ view, parseResponseHead data = (true,view) ∧ view.statusCode = n ∧
      view.statusMessage.text = reason ∧ Reads view.headers (fieldMap (fs ++ [lengthField m]) ∅) ∧
      declaredLength view.headers = some m := by
  obtain ⟨firstLine,headerLines,headers,hsplit,hfirst,hparse,hreads,hlen,-⟩ :=
    hhead.split htext
  obtain ⟨hthree,hdig⟩ := statusDigits_toChars hn hn'
  obtain ⟨version,message,hline,-,hm⟩ :=
    splitStatusLine_parts (by decide +kernel) hthree hdig hfirst
  rw [hreas] at hm
  simp only [parseResponseHead,hsplit,hline,hparse]
  exact ⟨_,rfl,rfl,hm,hreads,hlen⟩

theorem buildResponse_eq {status : Int} (hstatus : 0 ≤ status) (reason : Bytes)
    {headers : ByteMap Bytes} (hplain : ∀ (k v : Bytes), headers[k]? = some v → PlainName k)
    (body : Bytes) :
    buildResponse status reason headers body =
      headText (statusLine status.natAbs reason) headers.toList body.length ++ crlfcrlf ++ body := by
  have hnone {name : Bytes → Bool} (h : ∀ (k v : Bytes), headers[k]? = some v → name k = false) :
      headers.toList.any (fun e => name e.1) = false := by
    rw [any_eq_false]
    intro e he
    rw [h e.1 e.2 (Std.ExtTreeMap.mem_toList_iff_getElem?_eq_some.mp he)]
    simp
  have hlen := hnone (fun k v hk => (hplain k v hk).1)
  have henc := @hnone (fun k => !caseInsensitiveCompare k (ascii "Content-Length") &&
    caseInsensitiveCompare k (ascii "Transfer-Encoding")) (fun k v hk => by simp [(hplain k v hk).2])
  have hver : ascii "HTTP/1.1 " = ascii "HTTP/1.1" ++ [32] := by decide +kernel
  have hcode : toCharsSigned status = toChars 10 status.natAbs := if_neg (by omega)
  rw [headText_eq]
  simp only [buildResponse,appendHeaders,hlen,henc,Bool.not_false,Bool.and_self,if_true,hver,hcode,statusLine]
  simp

end HttpParser

namespace HttpClient

variable {status : Int} {reason method : Bytes} {headers : ByteMap Bytes} {n : Nat}

/-- A response that can be written: a final status with a body, and a reason and headers
that fit on their lines. -/
structure WritableResponse (status : Int) (reason : Bytes) (headers : ByteMap Bytes) : Prop where
  lower : 200 ≤ status
  upper : status ≤ 999
  content : status ≠ 204 ∧ status ≠ 304
  reason : trim reason = reason ∧ 13 ∉ reason ∧ 10 ∉ reason
  name : ∀ (k v : Bytes), headers[k]? = some v → isValidHeaderName k = true
  plain : ∀ (k v : Bytes), headers[k]? = some v → PlainName k
  value : ∀ (k v : Bytes), headers[k]? = some v → trim v = v ∧ 13 ∉ v ∧ 10 ∉ v

section

variable (h : WritableResponse status reason headers)
include h

theorem WritableResponse.writtenHead
    (hlim : WithinLimits kMaxStatusLineSize (statusLine status.natAbs reason) headers.toList n)
    (hn : n ≤ sizeMax) :
    WrittenHead kMaxStatusLineSize (statusLine status.natAbs reason) headers.toList n := by
  refine ⟨hlim,?_,?_,hn⟩
  · have hver : 13 ∉ ascii "HTTP/1.1" ++ [32] := by decide +kernel
    have hdig : 13 ∉ toChars 10 status.natAbs := fun hc =>
      absurd (not_isSpace_of_decimalDigit (mem_toChars hc)) (by decide)
    simp only [statusLine,mem_append,not_or] at hver ⊢
    exact ⟨⟨⟨hver,hdig⟩,hver.2⟩,h.reason.2.1⟩
  · intro f hf
    have hk := Std.ExtTreeMap.mem_toList_iff_getElem?_eq_some.mp hf
    exact ⟨h.name _ _ hk,h.plain _ _ hk,(h.value _ _ hk).2.1,(h.value _ _ hk).1⟩

theorem WritableResponse.hasNoBody_eq
    (hmet : caseInsensitiveCompare method (ascii "HEAD") = false) :
    hasNoBody method status = false := by
  have hl := h.lower
  have hc := h.content
  simp only [hasNoBody,hmet,Bool.false_or,Bool.or_eq_false_iff,Bool.and_eq_false_iff,decide_eq_false_iff_not]
  omega

theorem WritableResponse.tryExtract
    (hmet : caseInsensitiveCompare method (ascii "HEAD") = false)
    (hhead : WrittenHead kMaxStatusLineSize (statusLine status.natAbs reason) headers.toList n)
    {head tail : Bytes} (heq : head = headText (statusLine status.natAbs reason) headers.toList n)
    (hmem : Addressable (head ++ crlfcrlf ++ tail)) (hn : n < 2^63) :
    ∃ view, tryExtractResponseViewFromRaw method (.whole (head ++ crlfcrlf ++ tail)) false =
        .ret (if tail.length < n then none else some (view,head.length+4+n)) ∧
      view.statusCode = status ∧ view.statusMessage.text = reason ∧
      view.headers.toStrings View.text = headers.insert (ascii "Content-Length") (toChars 10 n) ∧
      view.body.text = tail.take n := by
  have hl := h.lower
  have hu := h.upper
  have htext : (View.whole (head ++ crlfcrlf ++ tail)).text =
      headText (statusLine status.natAbs reason) headers.toList n ++ crlfcrlf ++ tail := by
    rw [View.whole_text,heq]
  obtain ⟨view,hp,hstatus,hreas,hreads,hlen⟩ :=
    parseResponseHead_written (by omega) (by omega) h.reason.1 hhead htext
  have hstatus' : view.statusCode = status := by
    rw [hstatus]
    omega
  have hend := hhead.find_end tail
  rw [← heq] at hend
  have hfour : crlfcrlf.length = 4 := rfl
  have hsize : (View.whole (head ++ crlfcrlf ++ tail)).size = head.length+4+tail.length := by
    simp only [View.size,View.whole_text,length_append,hfour]
  unfold Addressable at hmem
  simp only [length_append,hfour] at hmem
  have hadd : sizeAdd (head.length+4) n = head.length+4+n := sizeAdd_eq (by omega)
  have hfram : bodyFraming method view = .length n := by
    rw [bodyFraming,hstatus',h.hasNoBody_eq hmet,hlen]
    rfl
  refine ⟨view.withBody ((View.whole (head ++ crlfcrlf ++ tail)).sub (head.length+4) n),?_,
    hstatus',hreas,?_,?_⟩
  · rw [tryExtract_eq false hp hend,hfram,frameResponse,hadd,hsize]
    simp only [Nat.add_lt_add_iff_left,Outcome.map,Outcome.bind_ret]
    split
    · rfl
    · rfl
  · show view.headers.toStrings View.text = _
    rw [hreads.toStrings,fieldMap_append,fieldMap_toList]
    rfl
  · show ((head ++ crlfcrlf ++ tail).drop (head.length+4)).take n = tail.take n
    rw [drop_left' (by simp [hfour])]

end

end HttpClient

open HttpClient in
/-- What the server writes, the client takes off the front of its buffer as one response:
with the same status, reason, headers and body, and to its last byte. As long as a byte
of it is missing, the client waits. -/
theorem server_response_round_trip {status : Int} {reason body method : Bytes}
    {headers : ByteMap Bytes} (h : WritableResponse status reason headers)
    (hmethod : caseInsensitiveCompare method (ascii "HEAD") = false)
    (hlimits : WithinLimits kMaxStatusLineSize (statusLine status.natAbs reason) headers.toList
      body.length)
    (hmemory : Addressable (HttpParser.buildResponse status reason headers body)) :
    (∀ rest, Addressable (HttpParser.buildResponse status reason headers body ++ rest) →
      ∃ view, tryExtractResponseViewFromRaw method
          (.whole (HttpParser.buildResponse status reason headers body ++ rest)) false =
          .ret (some (view, (HttpParser.buildResponse status reason headers body).length)) ∧
        view.statusCode = status ∧ view.statusMessage.text = reason ∧
        view.headers.toStrings View.text =
          headers.insert (ascii "Content-Length") (toChars 10 body.length) ∧
        view.body.text = body) ∧
    ∀ part, part <+: HttpParser.buildResponse status reason headers body →
      part ≠ HttpParser.buildResponse status reason headers body →
      tryExtractResponseViewFromRaw method (.whole part) false = .ret none := by
  obtain ⟨head,heq⟩ : ∃ head, head =
    headText (statusLine status.natAbs reason) headers.toList body.length := ⟨_,rfl⟩
  have hnon : 0 ≤ status := by
    have := h.lower
    omega
  have hbuilt := buildResponse_eq hnon reason h.plain body
  rw [← heq] at hbuilt
  rw [hbuilt] at hmemory ⊢
  have hfour : crlfcrlf.length = 4 := rfl
  have hlen : (head ++ crlfcrlf ++ body).length = head.length+4+body.length := by
    simp only [List.length_append,hfour]
  have hn : body.length < 2^63 := by
    unfold Addressable at hmemory
    omega
  have hhead := h.writtenHead hlimits (by unfold sizeMax; omega)
  refine ⟨fun rest hrest => ?_,fun part hpart hne => ?_⟩
  · rw [List.append_assoc] at hrest ⊢
    obtain ⟨view,hext,hstatus,hreas,hhe,hbody⟩ :=
      h.tryExtract hmethod hhead heq hrest hn
    rw [if_neg (by rw [List.length_append]; omega)] at hext
    exact ⟨view,by rw [hext,hlen],hstatus,hreas,hhe,by rw [hbody,List.take_left]⟩
  · -- the part ends inside the head or inside the body
    have hlt : part.length < head.length+4+body.length := by
      rw [← hlen]
      exact lt_of_le_of_ne hpart.length_le (fun he => hne (hpart.eq_of_length he))
    by_cases hin : part.length < head.length+4
    · refine tryExtract_of_no_head ?_
      cases hf : find crlfcrlf part 0 with
      | none => exact hf
      | some i =>
        obtain ⟨suffix,hsuf⟩ := hpart
        have hwhole := find_append (by decide) hf suffix
        have hend := hhead.find_end body
        rw [← heq,← hsuf,hwhole,Option.some.injEq] at hend
        have hb := find_bounds (by decide) hf
        omega
    · obtain ⟨tail,rfl⟩ : ∃ tail, part = head ++ crlfcrlf ++ tail :=
        (List.prefix_of_prefix_length_le (List.prefix_append _ body) hpart
          (by rw [List.length_append,hfour]; omega)).imp fun _ => Eq.symm
      have hmem : Addressable (head ++ crlfcrlf ++ tail) := by
        unfold Addressable at *
        omega
      obtain ⟨view,hext,-⟩ := h.tryExtract hmethod hhead heq hmem hn
      rw [hext,if_pos]
      simp only [List.length_append,hfour] at hlt
      omega

open HttpClient in
theorem server_response_round_trip_ok :
    (∃ view, tryExtractResponseViewFromRaw (ascii "GET") (.whole (HttpParser.buildResponse 200
        (ascii "OK") ((∅ : ByteMap Bytes).insert (ascii "X-A") (ascii "1")) (ascii "hi\r\n\r\n") ++
        ascii "HTTP/1.1")) false = .ret (some (view, (HttpParser.buildResponse 200 (ascii "OK")
          ((∅ : ByteMap Bytes).insert (ascii "X-A") (ascii "1")) (ascii "hi\r\n\r\n")).length)) ∧
      view.statusCode = 200 ∧ view.statusMessage.text = ascii "OK" ∧
      view.body.text = ascii "hi\r\n\r\n") ∧
    tryExtractResponseViewFromRaw (ascii "GET") (.whole (ascii "HTTP/1.1 200 OK\r\nX-A")) false =
      .ret none := by
  have hall (k v : Bytes)
      (hk : ((∅ : ByteMap Bytes).insert (ascii "X-A") (ascii "1"))[k]? = some v) :
      k = ascii "X-A" ∧ v = ascii "1" := getElem?_singleton.mp hk
  have hwrit : WritableResponse 200 (ascii "OK")
      ((∅ : ByteMap Bytes).insert (ascii "X-A") (ascii "1")) :=
    ⟨by decide,by decide,by decide,by decide +kernel,
      fun k v hk => by rw [(hall k v hk).1]; decide +kernel,
      fun k v hk => by rw [(hall k v hk).1]; exact ⟨by decide +kernel,by decide +kernel⟩,
      fun k v hk => by rw [(hall k v hk).2]; decide +kernel⟩
  obtain ⟨hwhole,hpart⟩ := @server_response_round_trip 200 (ascii "OK") (ascii "hi\r\n\r\n")
    (ascii "GET") _ hwrit (by decide +kernel)
    ⟨by decide +kernel,by decide +kernel,by decide +kernel,by decide +kernel⟩
    (by unfold Addressable; decide +kernel)
  obtain ⟨view,hview,hstatus,hreas,-,hbody⟩ :=
    hwhole (ascii "HTTP/1.1") (by unfold Addressable; decide +kernel)
  exact ⟨⟨view,hview,hstatus,hreas,hbody⟩,
    hpart _ (by decide +kernel) (by decide +kernel)⟩

end FastNet
