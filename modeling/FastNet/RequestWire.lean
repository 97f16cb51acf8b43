import FastNet.RequestExtraction
import FastNet.Url

/-!
Requests as `HttpClient` writes them and `HttpServer` reads them back.
-/

namespace FastNet

open Text Ctype Numeral Loop HttpParser List

namespace HttpClient

def supportsCompressedResponseDecoding : Bool := false

structure RequestHeaderState where
  hasHost : Bool := false
  hasUserAgent : Bool := false
  hasConnection : Bool := false
  hasAcceptEncoding : Bool := false
  hasContentLength : Bool := false
  hasTransferEncoding : Bool := false
  deriving DecidableEq, Repr

def scanRequestHeader (state : RequestHeaderState) (name : Bytes) : RequestHeaderState :=
  if caseInsensitiveCompare name (ascii "Host") then { state with hasHost := true }
  else if caseInsensitiveCompare name (ascii "User-Agent") then { state with hasUserAgent := true }
  else if caseInsensitiveCompare name (ascii "Connection") then { state with hasConnection := true }
  else if caseInsensitiveCompare name (ascii "Accept-Encoding") then
    { state with hasAcceptEncoding := true }
  else if caseInsensitiveCompare name (ascii "Content-Length") then
    { state with hasContentLength := true }
  else if caseInsensitiveCompare name (ascii "Transfer-Encoding") then
    { state with hasTransferEncoding := true }
  else state

def scanRequestHeaders (headers : ByteMap Bytes) : RequestHeaderState :=
  headers.toList.foldl (fun state e => scanRequestHeader state e.1) {}

def appendHeaderLine (name value : Bytes) : Bytes := name ++ ascii ": " ++ value ++ crlf

def buildClientRequest (method path : Bytes) (headers : ByteMap Bytes) (body hostHeader : Bytes)
    (useCompression : Bool) : Bytes :=
  let state := scanRequestHeaders headers
  let addContentLength := !state.hasContentLength && !state.hasTransferEncoding
  let advertiseCompression := useCompression && supportsCompressedResponseDecoding
  method ++ [32] ++ path ++ ascii " HTTP/1.1" ++ crlf ++
    headers.toList.flatMap (fun e => appendHeaderLine e.1 e.2) ++
    (if !state.hasHost then appendHeaderLine (ascii "Host") hostHeader else []) ++
    (if !state.hasUserAgent then
      appendHeaderLine (ascii "User-Agent") (ascii "FastNet-HttpClient/2.0") else []) ++
    (if !state.hasConnection then
      appendHeaderLine (ascii "Connection") (ascii "keep-alive") else []) ++
    (if advertiseCompression && !state.hasAcceptEncoding then
      appendHeaderLine (ascii "Accept-Encoding") (ascii "gzip, deflate") else []) ++
    (if addContentLength then ascii "Content-Length: " ++ toChars 10 body.length ++ crlf else []) ++
    crlf ++ body

theorem scanRequestHeader_eq (state : RequestHeaderState) (name : Bytes) :
    scanRequestHeader state name =
      ⟨state.hasHost || caseInsensitiveCompare name (ascii "Host"),
        state.hasUserAgent || caseInsensitiveCompare name (ascii "User-Agent"),
        state.hasConnection || caseInsensitiveCompare name (ascii "Connection"),
        state.hasAcceptEncoding || caseInsensitiveCompare name (ascii "Accept-Encoding"),
        state.hasContentLength || caseInsensitiveCompare name (ascii "Content-Length"),
        state.hasTransferEncoding || caseInsensitiveCompare name (ascii "Transfer-Encoding")⟩ := by
  have hne : ([ascii "Host",ascii "User-Agent",ascii "Connection",ascii "Accept-Encoding",
      ascii "Content-Length",ascii "Transfer-Encoding"].map (map toLower)).Nodup := by
    decide +kernel
  simp only [map_cons,map_nil,nodup_cons,mem_cons,not_or] at hne
  unfold scanRequestHeader caseInsensitiveCompare
  generalize name.map toLower = lowered at *
  generalize (ascii "Host").map toLower = host at *
  generalize (ascii "User-Agent").map toLower = agent at *
  generalize (ascii "Connection").map toLower = connection at *
  generalize (ascii "Accept-Encoding").map toLower = accept at *
  generalize (ascii "Content-Length").map toLower = length at *
  generalize (ascii "Transfer-Encoding").map toLower = encoding at *
  cases state
  grind

def hasHeader (headers : ByteMap Bytes) (name : Bytes) : Bool :=
  headers.toList.any (fun e => caseInsensitiveCompare e.1 name)

theorem scanRequestHeaders_eq (headers : ByteMap Bytes) :
    scanRequestHeaders headers =
      ⟨hasHeader headers (ascii "Host"),hasHeader headers (ascii "User-Agent"),
        hasHeader headers (ascii "Connection"),hasHeader headers (ascii "Accept-Encoding"),
        hasHeader headers (ascii "Content-Length"),hasHeader headers (ascii "Transfer-Encoding")⟩ := by
  have hfold (fields : List (Bytes × Bytes)) (state : RequestHeaderState) :
      fields.foldl (fun state e => scanRequestHeader state e.1) state =
        ⟨state.hasHost || fields.any (fun e => caseInsensitiveCompare e.1 (ascii "Host")),
          state.hasUserAgent || fields.any (fun e => caseInsensitiveCompare e.1 (ascii "User-Agent")),
          state.hasConnection || fields.any (fun e => caseInsensitiveCompare e.1 (ascii "Connection")),
          state.hasAcceptEncoding ||
            fields.any (fun e => caseInsensitiveCompare e.1 (ascii "Accept-Encoding")),
          state.hasContentLength ||
            fields.any (fun e => caseInsensitiveCompare e.1 (ascii "Content-Length")),
          state.hasTransferEncoding ||
            fields.any (fun e => caseInsensitiveCompare e.1 (ascii "Transfer-Encoding"))⟩ := by
    induction fields generalizing state with
    | nil => simp
    | cons e fields ih =>
      rw [foldl_cons,ih,scanRequestHeader_eq]
      simp only [any_cons,Bool.or_assoc]
  simp [scanRequestHeaders,hfold,hasHeader]

theorem hasHeader_eq_false_iff {headers : ByteMap Bytes} {name : Bytes} :
    hasHeader headers name = false ↔
      ∀ (k v : Bytes), headers[k]? = some v → caseInsensitiveCompare k name = false := by
  simp only [hasHeader,any_eq_false,Bool.not_eq_true]
  constructor
  · intro h k v hk
    exact h (k,v) (Std.ExtTreeMap.mem_toList_iff_getElem?_eq_some.mpr hk)
  · intro h e he
    exact h e.1 e.2 (Std.ExtTreeMap.mem_toList_iff_getElem?_eq_some.mp he)

def defaultField (headers : ByteMap Bytes) (name value : Bytes) : List (Bytes × Bytes) :=
  if hasHeader headers name then [] else [(name,value)]

def addedFields (headers : ByteMap Bytes) (hostHeader : Bytes) : List (Bytes × Bytes) :=
  defaultField headers (ascii "Host") hostHeader ++
    defaultField headers (ascii "User-Agent") (ascii "FastNet-HttpClient/2.0") ++
    defaultField headers (ascii "Connection") (ascii "keep-alive")

def requestLine (method target : Bytes) : Bytes := method ++ [32] ++ target ++ ascii " HTTP/1.1"

theorem buildClientRequest_eq (method path : Bytes) {headers : ByteMap Bytes}
    (body hostHeader : Bytes) (useCompression : Bool)
    (hplain : ∀ (k v : Bytes), headers[k]? = some v → PlainName k) :
    buildClientRequest method path headers body hostHeader useCompression =
      headText (requestLine method path) (headers.toList ++ addedFields headers hostHeader)
        body.length ++ crlfcrlf ++ body := by
  have hlen : hasHeader headers (ascii "Content-Length") = false :=
    hasHeader_eq_false_iff.mpr (fun k v hk => (hplain k v hk).1)
  have henc : hasHeader headers (ascii "Transfer-Encoding") = false :=
    hasHeader_eq_false_iff.mpr (fun k v hk => (hplain k v hk).2)
  have hdef (name value : Bytes) : (if !hasHeader headers name then appendHeaderLine name value
      else []) = (defaultField headers name value).flatMap
        (fun f => HttpParser.appendHeaderLine f.1 f.2) := by
    unfold defaultField
    cases hasHeader headers name with
    | true => rfl
    | false => simp [appendHeaderLine,HttpParser.appendHeaderLine]
  have hfiel : headers.toList.flatMap (fun e => appendHeaderLine e.1 e.2) =
      headers.toList.flatMap (fun f => HttpParser.appendHeaderLine f.1 f.2) := rfl
  rw [headText_eq]
  simp only [buildClientRequest,scanRequestHeaders_eq,hlen,henc,
    supportsCompressedResponseDecoding,Bool.and_false,Bool.false_and,Bool.not_false,
    Bool.and_self,if_true,hdef,hfiel,addedFields,requestLine]
  simp [flatMap_append]

end HttpClient

namespace HttpParser

theorem isTokenCharacter_of_toLower {c : UInt8} (h : isLower (toLower c) = true) :
    isTokenCharacter c = true := by
  have halnum : isAlnum c = true := by
    unfold toLower at h
    cases hu : isUpper c with
    | true => simp [isAlnum,hu]
    | false =>
      rw [hu,if_neg (by simp)] at h
      simp [isAlnum,h]
  simp [isTokenCharacter,halnum]

theorem splitRequestLine_parts {method target version : Bytes} {requestLine : ByteView}
    (hname : isValidHeaderName method = true) (hne : target ≠ []) (hspace : 32 ∉ target)
    (hver : isValidHttpVersion version = true)
    (htext : requestLine.text = method ++ [32] ++ target ++ [32] ++ version) :
    ∃ m t v, splitRequestLine requestLine = some (m,t,v) ∧
      m.text = method ∧ t.text = target ∧ v.text = version := by
  obtain ⟨hmne,htok⟩ := isValidHeaderName_spec hname
  have hmet : 32 ∉ method := fun hm =>
    absurd (isTokenCharacter_not_space (htok 32 hm)) (by decide)
  have hlen : requestLine.text.length = method.length+1+(target.length+1+version.length) := by
    rw [htext]
    simp only [length_append,length_cons,length_nil]
    omega
  have hrest : requestLine.text.drop (method.length+1) = target ++ [32] ++ version := by
    rw [htext,← drop_drop]
    simp
  have hlast : requestLine.text.drop (method.length+1+target.length+1) = version := by
    rw [Nat.add_assoc,← drop_drop,hrest]
    simp [← drop_drop]
  have hfirst : find [32] requestLine.text 0 = some method.length := by
    have h := @find_cut _ 32 [] method _ hmet (target ++ [32] ++ version)
    rw [htext,← h]
    simp
  have hsec : find [32] requestLine.text (method.length+1) =
      some (method.length+1+target.length) := by
    have h := find_drop [32] requestLine.text (method.length+1) 0 (by omega)
    rw [hrest,find_cut hspace] at h
    exact h
  have hthird : find [32] requestLine.text (method.length+1+target.length+1) = none := by
    have h := find_drop [32] requestLine.text (method.length+1+target.length+1) 0 (by omega)
    rw [hlast,find_eq_none_of_not_mem (not_mem_version hver (by decide)) 0] at h
    exact h
  have hm : (requestLine.sub 0 method.length).text = method := by
    rw [View.sub_text,htext]
    simp
  have ht : (requestLine.sub (method.length+1)
      (method.length+1+target.length-method.length-1)).text = target := by
    rw [View.sub_text,hrest,append_assoc]
    exact take_left' (by omega)
  have hv : (requestLine.suffix (method.length+1+target.length+1)).text = version := by
    rw [View.suffix_text,hlast]
  have hpos := length_pos_iff.mpr hmne
  have hpos' := length_pos_iff.mpr hne
  refine ⟨_,_,_,?_,hm,ht,hv⟩
  simp only [splitRequestLine,hfirst,hsec,hthird]
  rw [if_neg (by omega),if_neg (by omega),if_neg (by simp),hm,ht,hv,hname,hver]
  rw [if_neg]
  simp [hne]

theorem splitTarget_parts {target : ByteView} (h : 35 ∉ target.text) :
    (splitTarget target).1.text = target.text.takeWhile (· ≠ 63) ∧
      (splitTarget target).2.elim [] View.text = (target.text.dropWhile (· ≠ 63)).drop 1 := by
  have hfrag : find [35] target.text 0 = none := find_eq_none_of_not_mem h 0
  simp only [splitTarget,hfrag]
  rcases find_letter 63 target.text with ⟨hc,hf⟩ | ⟨a,b,htext,ha,hf⟩
  · have hall : ∀ c ∈ target.text, decide (c ≠ 63) = true := by
      intro c hm
      simpa using fun heq : c = 63 => hc (heq ▸ hm)
    rw [hf,takeWhile_eq_self_iff.mpr hall,dropWhile_eq_nil_iff.mpr hall]
    exact ⟨rfl,rfl⟩
  · have hall : ∀ c ∈ a, decide (c ≠ 63) = true := by
      intro c hm
      simpa using fun heq : c = 63 => ha (heq ▸ hm)
    rw [hf]
    simp only [View.sub_text,View.suffix_text,Option.elim_some,htext]
    rw [takeWhile_append_of_pos hall,dropWhile_append_of_pos hall]
    simp [← drop_drop]

theorem parseRequestHead_written {method target : Bytes} {fs : List (Bytes × Bytes)} {n : Nat}
    (hhead : WrittenHead kMaxRequestLineSize (method ++ [32] ++ target ++ ascii " HTTP/1.1") fs n)
    (hname : isValidHeaderName method = true) (hne : target ≠ []) (hspace : 32 ∉ target)
    (hfrag : 35 ∉ target) {data : ByteView} {rest : Bytes}
    (htext : data.text =
      headText (method ++ [32] ++ target ++ ascii " HTTP/1.1") fs n ++ crlfcrlf ++ rest) :
    ∃ view, parseRequestHead data = (true,view) ∧ view.method.text = method ∧
      view.target.text = target ∧ view.uri.text = target.takeWhile (· ≠ 63) ∧
      view.queryString.text = (target.dropWhile (· ≠ 63)).drop 1 ∧
      Reads view.headers (fieldMap (fs ++ [lengthField n]) ∅) ∧
      declaredLength view.headers = some n ∧
      view.headers.getHeader View.text (ascii "Transfer-Encoding") = none := by
  obtain ⟨firstLine,headerLines,headers,hsplit,hfirst,hparse,hreads,hlen,hnone⟩ :=
    hhead.split htext
  have hver : ascii " HTTP/1.1" = [32] ++ ascii "HTTP/1.1" := by decide +kernel
  rw [hver,← append_assoc] at hfirst
  obtain ⟨m,t,v,hline,hm,ht,hv⟩ :=
    splitRequestLine_parts hname hne hspace (by decide +kernel) hfirst
  obtain ⟨huri,hquery⟩ := @splitTarget_parts t (by rw [ht]; exact hfrag)
  rw [ht] at huri hquery
  simp only [parseRequestHead,hsplit,hline,hparse]
  cases hst : splitTarget t with
  | mk uri query =>
    rw [hst] at huri hquery
    cases query with
    | none => exact ⟨_,rfl,hm,ht,huri,hquery,hreads,hlen,hnone⟩
    | some query => exact ⟨_,rfl,hm,ht,huri,hquery,hreads,hlen,hnone⟩

end HttpParser

namespace HttpServer

theorem isValidHeaderName_of_method {method : Bytes} {m : HttpMethod}
    (h : tryStringToMethod method = some m) : isValidHeaderName method = true := by
  obtain ⟨e,he,-⟩ := Option.map_eq_some_iff.mp h
  have hmem := mem_of_find?_eq_some he
  have hname : method.map toLower = e.1.map toLower := by
    simpa [equalsAsciiIgnoreCase] using find?_some he
  have hlet : ∀ e ∈ methodNames, e.1 ≠ [] ∧ ∀ c ∈ e.1.map toLower, isLower c = true := by
    decide +kernel
  obtain ⟨hne,hlower⟩ := hlet e hmem
  rw [← hname] at hlower
  have hne' : method ≠ [] := by
    intro hnil
    rw [hnil,map_nil] at hname
    exact hne (map_eq_nil_iff.mp hname.symm)
  have htok : ∀ c ∈ method, isTokenCharacter c = true := fun c hc =>
    isTokenCharacter_of_toLower (hlower _ (mem_map_of_mem hc))
  simpa [isValidHeaderName,hne'] using htok

theorem tryExtractRequest_written {method target body rest : Bytes} {m : HttpMethod}
    {fs : List (Bytes × Bytes)} {state : ClientState}
    (hhead : WrittenHead kMaxRequestLineSize (method ++ [32] ++ target ++ ascii " HTTP/1.1") fs
      body.length)
    (hm : tryStringToMethod method = some m) (hne : target ≠ []) (hspace : 32 ∉ target)
    (hfrag : 35 ∉ target)
    (hunr : unread state =
      headText (method ++ [32] ++ target ++ ascii " HTTP/1.1") fs body.length ++ crlfcrlf ++ body ++
        rest)
    (hmem : Addressable state.buffer) :
    ∃ r, tryExtractRequest state = .ret (some r) ∧ r.immediateResponse = none ∧
      r.consumedBytes = (headText (method ++ [32] ++ target ++ ascii " HTTP/1.1") fs body.length ++
        crlfcrlf ++ body).length ∧
      r.request.method = m ∧ r.request.methodName = method ∧ r.request.target = target ∧
      r.request.path = normalizeRequestPath (target.takeWhile (· ≠ 63)) ∧
      r.request.queryString = (target.dropWhile (· ≠ 63)).drop 1 ∧
      r.request.headers = fieldMap (fs ++ [lengthField body.length]) ∅ ∧ r.request.body = body := by
  obtain ⟨head,hh⟩ : ∃ head, head =
    headText (method ++ [32] ++ target ++ ascii " HTTP/1.1") fs body.length := ⟨_,rfl⟩
  have hend := hhead.find_end (body ++ rest)
  rw [← hh] at hend hunr ⊢
  rw [← append_assoc,← hunr,← makeBufferedView_text] at hend
  have hraw : (makeBufferedView state).text = head ++ crlfcrlf ++ (body ++ rest) := by
    rw [makeBufferedView_text,hunr,append_assoc]
  have hfour : crlfcrlf.length = 4 := rfl
  have htake : ((makeBufferedView state).sub 0 (head.length+4)).text = head ++ crlfcrlf ++ [] := by
    rw [View.sub_text,hraw,drop_zero,append_nil]
    exact take_left' (by simp [hfour])
  rw [hh] at htake
  obtain ⟨view,hparse,hmet,htar,huri,hquery,hreads,hlen,hnone⟩ :=
    parseRequestHead_written hhead (isValidHeaderName_of_method hm) hne hspace hfrag htake
  have hfront : frontHead state = some (head.length+4,view) := by
    simp only [frontHead,hend,← hh] at hparse ⊢
    rw [hparse]
  obtain ⟨hch,hframe⟩ := @frameRequest_of_declared (head.length+4) _ _ (makeBufferedView state)
    (frontHead_framing hfront) hlen
  have hsize : (makeBufferedView state).size = head.length+4+(body.length+rest.length) := by
    rw [View.size,hraw]
    simp only [length_append,hfour]
  have hle := unread_length_le state
  rw [← makeBufferedView_size,hsize] at hle
  unfold Addressable at hmem
  have hadd : sizeAdd (head.length+4) body.length = head.length+4+body.length :=
    sizeAdd_eq (by omega)
  have hsub : sizeSub (head.length+4+body.length) (head.length+4) = body.length := by
    unfold sizeSub
    omega
  have htext : ((makeBufferedView state).sub (head.length+4) body.length).text = body := by
    rw [View.sub_text,hraw,drop_left' (by simp [hfour]),take_left]
  rw [tryExtractRequest_of_frontHead hfront,hframe,hadd,Outcome.bind_ret]
  have hfits : ¬ (makeBufferedView state).size < head.length+4+body.length := by omega
  simp only [finishRequest,if_neg hfits,hsub,HttpRequestView.withBody_method,hmet,hm]
  have hchun : isChunked (view.withBody
      ((makeBufferedView state).sub (head.length+4) body.length)) = false := hch
  simp only [buildRequest,hchun,Bool.false_eq_true,if_false,Outcome.map,Outcome.bind_ret]
  refine ⟨_,rfl,rfl,?_,rfl,hmet,htar,?_,hquery,hreads.toStrings,htext⟩
  · simp only [length_append,hfour]
  · exact congrArg normalizeRequestPath huri

end HttpServer

namespace HttpClient

variable {headers : ByteMap Bytes} {f : Bytes × Bytes} {hostHeader method target : Bytes} {name value : Bytes}

theorem trim_solid {text : Bytes} (h : Address.Solid text) : Text.trim isSpace text = text :=
  trim_eq_self _ (fun c hc => h c (mem_of_mem_head? hc))
    (fun c hc => h c (mem_of_mem_getLast? hc))

theorem plainField_of_solid (hname : isValidHeaderName name = true)
    (hplain : PlainName name) (hvalue : Address.Solid value) : PlainField (name,value) :=
  ⟨hname,hplain,fun hm => absurd (hvalue 13 hm) (by decide),trim_solid hvalue⟩

theorem mem_defaultField :
    f ∈ defaultField headers name value ↔ hasHeader headers name = false ∧ f = (name,value) := by
  unfold defaultField
  cases hasHeader headers name <;> simp

theorem mem_addedFields
    (hf : f ∈ addedFields headers hostHeader) :
    hasHeader headers f.1 = false ∧ (f = (ascii "Host",hostHeader) ∨
      f = (ascii "User-Agent",ascii "FastNet-HttpClient/2.0") ∨
      f = (ascii "Connection",ascii "keep-alive")) := by
  simp only [addedFields,mem_append,mem_defaultField] at hf
  rcases hf with (⟨hn,rfl⟩ | ⟨hn,rfl⟩) | ⟨hn,rfl⟩ <;> simp [hn]

theorem plainField_of_added
    (hhost : Address.Solid hostHeader)
    (hf : f ∈ addedFields headers hostHeader) : PlainField f := by
  rcases (mem_addedFields hf).2 with rfl | rfl | rfl
  · exact plainField_of_solid (by decide +kernel) ⟨by decide +kernel,by decide +kernel⟩ hhost
  all_goals
    refine plainField_of_solid (by decide +kernel) ⟨by decide +kernel,by decide +kernel⟩ ?_
    unfold Address.Solid
    decide +kernel

theorem getElem?_added {k v : Bytes} (hk : headers[k]? = some v)
    (hplain : PlainName k) (hostHeader : Bytes) (n : Nat) :
    (fieldMap (headers.toList ++ addedFields headers hostHeader ++ [lengthField n]) ∅)[k]? =
      some v := by
  have hnone : (addedFields headers hostHeader ++ [lengthField n]).reverse.find?
      (fun f => f.1 = k) = none := by
    rw [find?_eq_none]
    intro f hf
    rw [decide_eq_true_eq]
    rintro rfl
    rcases mem_append.mp (mem_reverse.mp hf) with hf | hf
    · have hname := hasHeader_eq_false_iff.mp (mem_addedFields hf).1 f.1 v hk
      simp [caseInsensitiveCompare] at hname
    · rw [mem_singleton.mp hf] at hplain
      exact absurd hplain.1 (by simp [caseInsensitiveCompare,lengthField])
  rw [append_assoc,fieldMap_append,fieldMap_toList,fieldMap,getElem?_foldl_insert Prod.fst Prod.snd,hnone,hk]
  rfl

/-- A request that can be written: a method that the server knows, a target without
spaces, control characters and fragment, and headers that fit on their lines. -/
structure WritableRequest (method target : Bytes) (headers : ByteMap Bytes) : Prop where
  method : (HttpServer.tryStringToMethod method).isSome = true
  target_ne : target ≠ []
  target : ∀ c ∈ target, c ≠ 32 ∧ ¬ c.toNat < 32 ∧ c ≠ 127 ∧ c ≠ 35
  name : ∀ (k v : Bytes), headers[k]? = some v → isValidHeaderName k = true
  plain : ∀ (k v : Bytes), headers[k]? = some v → PlainName k
  value : ∀ (k v : Bytes), headers[k]? = some v → HttpParser.trim v = v ∧ 13 ∉ v ∧ 10 ∉ v

theorem writtenHead_of_fields {m : HttpMethod} {n : Nat} (hm : HttpServer.tryStringToMethod method = some m)
    (htar : 13 ∉ target)
    (hfiel : ∀ (k v : Bytes), headers[k]? = some v → PlainField (k,v))
    (hhost : Address.Solid hostHeader)
    (hlim : WithinLimits kMaxRequestLineSize (requestLine method target)
      (headers.toList ++ addedFields headers hostHeader) n) (hn : n ≤ sizeMax) :
    WrittenHead kMaxRequestLineSize (requestLine method target)
      (headers.toList ++ addedFields headers hostHeader) n := by
  refine ⟨hlim,?_,?_,hn⟩
  · obtain ⟨-,htok⟩ := isValidHeaderName_spec (HttpServer.isValidHeaderName_of_method hm)
    have hver : 13 ∉ [32] ++ ascii " HTTP/1.1" := by decide +kernel
    simp only [requestLine,mem_append,not_or] at hver ⊢
    exact ⟨⟨⟨fun hc => (isTokenCharacter_ne (htok 13 hc)).2 rfl,hver.1⟩,htar⟩,
      hver.2⟩
  · intro f hf
    rcases mem_append.mp hf with hf | hf
    · exact hfiel _ _ (Std.ExtTreeMap.mem_toList_iff_getElem?_eq_some.mp hf)
    · exact plainField_of_added hhost hf

theorem WritableRequest.field
    (h : WritableRequest method target headers) (k v : Bytes) (hk : headers[k]? = some v) :
    PlainField (k,v) :=
  ⟨h.name k v hk,h.plain k v hk,(h.value k v hk).2.1,(h.value k v hk).1⟩

theorem WritableRequest.noReturn
    (h : WritableRequest method target headers) : 13 ∉ target :=
  fun hc => (h.target 13 hc).2.1 (by decide)

end HttpClient

open HttpClient HttpServer in
/-- What the client writes, the server takes off the front of its buffer as one request:
with the same method, target, headers and body, and to its last byte. -/
theorem client_request_round_trip {method target body rest : Bytes} {headers : ByteMap Bytes}
    {url : ParsedUrl} {useCompression : Bool} {state : ClientState}
    (h : WritableRequest method target headers)
    (hlimits : WithinLimits kMaxRequestLineSize (requestLine method target)
      (headers.toList ++ addedFields headers (buildHostHeader url)) body.length)
    (hunread : unread state = buildClientRequest method target headers body (buildHostHeader url)
      useCompression ++ rest)
    (hmemory : Addressable state.buffer) :
    ∃ r, tryExtractRequest state = .ret (some r) ∧ r.immediateResponse = none ∧
      r.consumedBytes = (buildClientRequest method target headers body (buildHostHeader url)
        useCompression).length ∧
      tryStringToMethod method = some r.request.method ∧ r.request.methodName = method ∧
      r.request.target = target ∧
      r.request.path = normalizeRequestPath (target.takeWhile (· ≠ 63)) ∧
      r.request.queryString = (target.dropWhile (· ≠ 63)).drop 1 ∧
      (∀ (k v : Bytes), headers[k]? = some v → r.request.headers[k]? = some v) ∧
      r.request.body = body := by
  obtain ⟨m,hm⟩ := Option.isSome_iff_exists.mp h.method
  have hlen := congrArg List.length hunread
  have hle := unread_length_le state
  have heq := buildClientRequest_eq method target body (buildHostHeader url) useCompression h.plain
  rw [heq] at hunread ⊢
  have hn : body.length ≤ sizeMax := by
    unfold Addressable at hmemory
    unfold sizeMax
    rw [heq] at hlen
    simp only [List.length_append] at hlen
    omega
  have hhead := writtenHead_of_fields hm h.noReturn h.field (buildHostHeader_solid url) hlimits hn
  obtain ⟨r,hr,himm,hcon,hmet,hname,htar,hpath,hquery,hhe,hbody⟩ :=
    tryExtractRequest_written hhead hm h.target_ne (fun hc => (h.target 32 hc).1 rfl)
      (fun hc => (h.target 35 hc).2.2.2 rfl) hunread hmemory
  refine ⟨r,hr,himm,hcon,by rw [hm,hmet],hname,htar,hpath,hquery,?_,hbody⟩
  intro k v hk
  rw [hhe]
  exact getElem?_added hk (h.plain k v hk) (buildHostHeader url) body.length

open HttpClient HttpServer in
theorem client_request_round_trip_post :
    ∃ r, tryExtractRequest ⟨buildClientRequest (ascii "POST") (ascii "/a?b=1")
        ((∅ : ByteMap Bytes).insert (ascii "X-A") (ascii "1")) (ascii "hi\r\n\r\n")
        (buildHostHeader { protocol := ascii "http", port := 8080 }) true ++ ascii "GET",
        0, {}, false, false⟩ = .ret (some r) ∧
      r.immediateResponse = none ∧ r.request.methodName = ascii "POST" ∧
      r.request.target = ascii "/a?b=1" ∧
      r.request.headers[ascii "X-A"]? = some (ascii "1") ∧
      r.request.body = ascii "hi\r\n\r\n" := by
  have hall (k v : Bytes)
      (hk : ((∅ : ByteMap Bytes).insert (ascii "X-A") (ascii "1"))[k]? = some v) :
      k = ascii "X-A" ∧ v = ascii "1" := getElem?_singleton.mp hk
  have hwrit : WritableRequest (ascii "POST") (ascii "/a?b=1")
      ((∅ : ByteMap Bytes).insert (ascii "X-A") (ascii "1")) :=
    ⟨by decide +kernel,by decide +kernel,by decide +kernel,
      fun k v hk => by rw [(hall k v hk).1]; decide +kernel,
      fun k v hk => by rw [(hall k v hk).1]; exact ⟨by decide +kernel,by decide +kernel⟩,
      fun k v hk => by rw [(hall k v hk).2]; decide +kernel⟩
  obtain ⟨r,hr,himm,-,-,hname,htar,-,-,hhead,hbody⟩ :=
    @client_request_round_trip _ _ (ascii "hi\r\n\r\n") (ascii "GET") _
      { protocol := ascii "http", port := 8080 } true ⟨_,0,{},false,false⟩ hwrit
      ⟨by decide +kernel,by decide +kernel,by decide +kernel,by decide +kernel⟩ rfl
      (by unfold Addressable; decide +kernel)
  exact ⟨r,hr,himm,hname,htar,hhead _ _ (by simp),hbody⟩

end FastNet
