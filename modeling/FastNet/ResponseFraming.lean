import FastNet.HeadAcceptance
import FastNet.ServerConnection

/-!
The framing headers of the responses that `HttpServer` sends: those that a handler has
set, in whatever letter case, and those that the server adds to them.
-/

namespace FastNet.HttpServer

open Text Numeral HttpParser List

section Defaults

variable {headers : ByteMap Bytes}

theorem getElem?_putDefault (headers : ByteMap Bytes) (name value k : Bytes) :
    (putDefault headers name value)[k]? =
      if name = k then some (headers[k]?.getD value) else headers[k]? := by
  unfold putDefault
  rw [Std.ExtTreeMap.contains_eq_isSome_getElem?]
  by_cases hk : name = k
  · subst hk
    cases hv : headers[name]? with
    | none => simp
    | some v => simp [hv]
  · have hk' : compare name k ≠ .eq := by
      simpa [Std.LawfulEqCmp.compare_eq_iff_eq] using hk
    rw [if_neg hk]
    split
    · rfl
    · rw [Std.ExtTreeMap.getElem?_insert,if_neg hk']

def FramingUnique (headers : ByteMap Bytes) : Prop :=
  ∀ k v k' v' : Bytes, headers[k]? = some v → headers[k']? = some v' →
    isFraming k = true → isFraming k' = true → k = k'

/-- The map has no header about framing, other than a length in the spelling of the server. -/
def OnlyLength (headers : ByteMap Bytes) : Prop :=
  ∀ k v : Bytes, headers[k]? = some v → isFraming k = true → k = ascii "Content-Length"

theorem framingUnique_iff :
    (headers.toList.filter (fun f => isFraming f.1)).length ≤ 1 ↔ FramingUnique headers := by
  have hmem {f : Bytes × Bytes} : f ∈ headers.toList ↔ headers[f.1]? = some f.2 :=
    Std.ExtTreeMap.mem_toList_iff_getElem?_eq_some
  constructor
  · intro h k v k' v' hk hk' hf hf'
    have hkv : (k,v) ∈ headers.toList := hmem.mpr hk
    have heq := (find_framing h hkv hf).1 (k',v') (hmem.mpr hk') hf'
    exact (congrArg Prod.fst heq).symm
  · intro h
    have hpair := (@Std.ExtTreeMap.distinct_keys_toList _ _ _ headers _).filter (fun f => isFraming f.1)
    have hall : ∀ f ∈ headers.toList.filter (fun f => isFraming f.1),
        ∀ g ∈ headers.toList.filter (fun f => isFraming f.1), f.1 = g.1 := by
      intro f hf g hg
      rw [mem_filter] at hf hg
      exact h f.1 f.2 g.1 g.2 (hmem.mp hf.1) (hmem.mp hg.1) hf.2 hg.2
    match hlist : headers.toList.filter (fun f => isFraming f.1) with
    | [] => simp [hlist]
    | [x] => simp [hlist]
    | x :: y :: l =>
      rw [hlist] at hpair hall
      have hne := (pairwise_cons.mp hpair).1 y (by simp)
      have heq := hall x (by simp) y (by simp)
      rw [heq] at hne
      exact absurd (Std.LawfulEqCmp.compare_eq_iff_eq.mpr rfl) hne

theorem framingUnique_putLength (value : Bytes) :
    FramingUnique (putDefault headers (ascii "Content-Length") value) ↔ OnlyLength headers := by
  have hlen : isFraming (ascii "Content-Length") = true := by decide +kernel
  have hself : (putDefault headers (ascii "Content-Length") value)[ascii "Content-Length"]? =
      some (headers[ascii "Content-Length"]?.getD value) := by
    rw [getElem?_putDefault,if_pos rfl]
  constructor
  · intro h k v hk hfram
    by_cases hc : ascii "Content-Length" = k
    · exact hc.symm
    · have hk' : (putDefault headers (ascii "Content-Length") value)[k]? = some v := by
        rw [getElem?_putDefault,if_neg hc,hk]
      exact h k v _ _ hk' hself hfram hlen
  · have hname (h : OnlyLength headers) (k v : Bytes)
        (hk : (putDefault headers (ascii "Content-Length") value)[k]? = some v)
        (hfram : isFraming k = true) : k = ascii "Content-Length" := by
      rw [getElem?_putDefault] at hk
      split at hk
      · rename_i hc
        exact hc.symm
      · exact h k v hk hfram
    intro h k v k' v' hk hk' hf hf'
    rw [hname h k v hk hf,hname h k' v' hk' hf']

theorem onlyLength_putLength (value : Bytes) :
    OnlyLength (putDefault headers (ascii "Content-Length") value) ↔ OnlyLength headers := by
  constructor
  · intro h k v hk hfram
    by_cases hc : ascii "Content-Length" = k
    · exact hc.symm
    · exact h k v (by rw [getElem?_putDefault,if_neg hc,hk]) hfram
  · intro h k v hk hfram
    rw [getElem?_putDefault] at hk
    split at hk
    · rename_i hc
      exact hc.symm
    · exact h k v hk hfram

end Defaults

section Finalize

variable {date : Bytes} {request : HttpRequest} {keepAlive : Bool} {response : HttpResponse}
variable {headers : ByteMap Bytes}

def withDefaults (date : Bytes) (keepAlive : Bool) (headers : ByteMap Bytes) : ByteMap Bytes :=
  putDefault (putDefault (putDefault headers (ascii "Date") date) (ascii "Connection")
    (if keepAlive then ascii "keep-alive" else ascii "close")) (ascii "Content-Type")
    (ascii "text/plain; charset=utf-8")

theorem getElem?_withDefaults (headers : ByteMap Bytes) {k : Bytes} (hk : isFraming k = true) :
    (withDefaults date keepAlive headers)[k]? = headers[k]? := by
  have hname (name : Bytes) (h : isFraming name = false) : name ≠ k := by
    rintro rfl
    rw [hk] at h
    cases h
  simp only [withDefaults,getElem?_putDefault]
  rw [if_neg (hname _ (by decide +kernel)),if_neg (hname _ (by decide +kernel)),if_neg (hname _ (by decide +kernel))]

theorem framingUnique_withDefaults :
    FramingUnique (withDefaults date keepAlive headers) ↔ FramingUnique headers := by
  unfold FramingUnique
  constructor
  · intro h k v k' v' hk hk' hf hf'
    rw [← getElem?_withDefaults headers hf] at hk
    rw [← getElem?_withDefaults headers hf'] at hk'
    exact h k v k' v' hk hk' hf hf'
  · intro h k v k' v' hk hk' hf hf'
    rw [getElem?_withDefaults headers hf] at hk
    rw [getElem?_withDefaults headers hf'] at hk'
    exact h k v k' v' hk hk' hf hf'

theorem onlyLength_withDefaults :
    OnlyLength (withDefaults date keepAlive headers) ↔ OnlyLength headers := by
  unfold OnlyLength
  constructor
  · intro h k v hk hf
    exact h k v (by rw [getElem?_withDefaults headers hf,hk]) hf
  · intro h k v hk hf
    exact h k v (by rw [← getElem?_withDefaults headers hf,hk]) hf

theorem headerValueCaseInsensitiveView_eq (hunique : FramingUnique headers)
    {k v : Bytes} (hk : headers[k]? = some v)
    (hname : caseInsensitiveCompare k (ascii "Transfer-Encoding") = true) :
    headerValueCaseInsensitiveView headers (ascii "Transfer-Encoding") = v := by
  have hmem : (k,v) ∈ headers.toList := Std.ExtTreeMap.mem_toList_iff_getElem?_eq_some.mpr hk
  have hfram (name : Bytes) (h : caseInsensitiveCompare name (ascii "Transfer-Encoding") = true) :
      isFraming name = true := by simp [isFraming,h]
  unfold headerValueCaseInsensitiveView
  cases hf : headers.toList.find? (fun e => equalsAsciiIgnoreCase e.1 (ascii "Transfer-Encoding")) with
  | none =>
    rw [find?_eq_none] at hf
    exact absurd hname (hf (k,v) hmem)
  | some e =>
    have he := Std.ExtTreeMap.mem_toList_iff_getElem?_eq_some.mp (mem_of_find?_eq_some hf)
    have hp : equalsAsciiIgnoreCase e.1 (ascii "Transfer-Encoding") = true := @find?_some _ _ e _ hf
    have heq := hunique _ _ _ _ he hk (hfram _ hp) (hfram k hname)
    rw [heq,hk,Option.some.injEq] at he
    simp [he]

theorem exists_of_chunked
    (h : containsToken (headerValueCaseInsensitiveView headers (ascii "Transfer-Encoding"))
      (ascii "chunked") = true) :
    ∃ k v, headers[k]? = some v ∧ caseInsensitiveCompare k (ascii "Transfer-Encoding") = true ∧
      containsToken v (ascii "chunked") = true := by
  unfold headerValueCaseInsensitiveView at h
  cases hf : headers.toList.find? (fun e => equalsAsciiIgnoreCase e.1 (ascii "Transfer-Encoding")) with
  | none =>
    have hempty : containsToken [] (ascii "chunked") = false := by decide +kernel
    simp [hf,hempty] at h
  | some e =>
    have he := Std.ExtTreeMap.mem_toList_iff_getElem?_eq_some.mp (mem_of_find?_eq_some hf)
    have hp : equalsAsciiIgnoreCase e.1 (ascii "Transfer-Encoding") = true := @find?_some _ _ e _ hf
    rw [hf] at h
    exact ⟨e.1,e.2,he,hp,h⟩

/-- The framing header that a handler has set, if it has set one, is a length in the
spelling of the server, or a chunked encoding of a body that is neither a file nor left out. -/
def FramingKept (request : HttpRequest) (response : HttpResponse) : Prop :=
  ∀ k v : Bytes, response.headers[k]? = some v → isFraming k = true →
    k = ascii "Content-Length" ∨
      response.hasFileBody = false ∧ request.method ≠ .head ∧
        caseInsensitiveCompare k (ascii "Transfer-Encoding") = true ∧
        containsToken v (ascii "chunked") = true

theorem framingKept_iff_onlyLength (h : response.hasFileBody = true ∨ request.method = .head) :
    FramingKept request response ↔ OnlyLength response.headers := by
  unfold FramingKept OnlyLength
  constructor
  · intro hkept k v hk hf
    rcases hkept k v hk hf with hc | ⟨hfile,hhead,-⟩
    · exact hc
    · rcases h with h | h
      · simp [hfile] at h
      · exact absurd h hhead
  · intro honly k v hk hf
    exact .inl (honly k v hk hf)

theorem finalizeResponse_eq (date : Bytes) (request : HttpRequest) (keepAlive : Bool)
    (response : HttpResponse) :
    finalizeResponse date request keepAlive response =
      let headers := if response.hasFileBody then
          putDefault (withDefaults date keepAlive response.headers) (ascii "Content-Length")
            (toChars 10 response.fileLength)
        else withDefaults date keepAlive response.headers
      let size := if response.hasFileBody then response.fileLength else response.body.length
      if request.method = .head then
        { response with
          headers := putDefault headers (ascii "Content-Length") (toChars 10 size),
          hasFileBody := false, filePath := [], fileOffset := 0, fileLength := 0, body := [] }
      else if containsToken (headerValueCaseInsensitiveView headers (ascii "Transfer-Encoding"))
          (ascii "chunked") then { response with headers }
      else { response with headers := putDefault headers (ascii "Content-Length") (toChars 10 size) } :=
  rfl

theorem framingUnique_finalizeResponse (hunique : FramingUnique response.headers) :
    FramingUnique (finalizeResponse date request keepAlive response).headers ↔
      FramingKept request response := by
  rw [finalizeResponse_eq]
  cases hfile : response.hasFileBody with
  | true =>
    rw [framingKept_iff_onlyLength (.inl hfile),← @onlyLength_withDefaults date keepAlive]
    simp only [if_true]
    split
    · rw [framingUnique_putLength,onlyLength_putLength]
    · split
      · rw [framingUnique_putLength]
      · rw [framingUnique_putLength,onlyLength_putLength]
  | false =>
    simp only [Bool.false_eq_true,if_false]
    split
    · rename_i hhead
      rw [framingKept_iff_onlyLength (.inr hhead),← @onlyLength_withDefaults date keepAlive,framingUnique_putLength]
    · rename_i hhead
      split
      · rename_i hchun
        -- the chunked encoding is the one framing header that there is
        obtain ⟨k,v,hk,hname,htoken⟩ := exists_of_chunked hchun
        have hfram : isFraming k = true := by simp [isFraming,hname]
        rw [getElem?_withDefaults _ hfram] at hk
        refine iff_of_true (framingUnique_withDefaults.mpr hunique) (fun k' v' hk' hf' => ?_)
        obtain rfl := hunique k' v' k v hk' hk hf' hfram
        rw [hk,Option.some.injEq] at hk'
        subst hk'
        exact .inr ⟨hfile,hhead,hname,htoken⟩
      · rename_i hchun
        rw [framingUnique_putLength,onlyLength_withDefaults]
        constructor
        · exact fun honly k v hk hf => .inl (honly k v hk hf)
        · intro hkept k v hk hf
          rcases hkept k v hk hf with hc | ⟨-,-,hname,htoken⟩
          · exact hc
          · rw [← @getElem?_withDefaults date keepAlive response.headers k hf] at hk
            rw [headerValueCaseInsensitiveView_eq (framingUnique_withDefaults.mpr hunique) hk hname] at hchun
            exact absurd htoken hchun

end Finalize

section Emitted

def emitted (response : HttpResponse) : Bytes :=
  buildResponse response.statusCode response.statusMessage response.headers
    (if response.hasFileBody then [] else response.body)

/-- The fields that `buildResponse` writes for a map and a body. -/
def writtenFields (headers : ByteMap Bytes) (n : Nat) : List (Bytes × Bytes) :=
  headers.toList ++ if headers.toList.any (fun f => isFraming f.1) then [] else [lengthField n]

def fieldsOf (response : HttpResponse) : List (Bytes × Bytes) :=
  writtenFields response.headers (if response.hasFileBody then [] else response.body).length

def lineOf (response : HttpResponse) : Bytes :=
  ascii "HTTP/1.1 " ++ toCharsSigned response.statusCode ++ [32] ++ response.statusMessage

theorem emitted_eq (response : HttpResponse) :
    emitted response = sepLines (lineOf response :: (fieldsOf response).map fieldLine) ++ crlfcrlf ++
      (if response.hasFileBody then [] else response.body) := by
  have hname : ascii "Content-Length: " = ascii "Content-Length" ++ ascii ": " := by decide +kernel
  have hneit (l : List (Bytes × Bytes)) :
      (!(l.any (fun e => !caseInsensitiveCompare e.1 (ascii "Content-Length") &&
        caseInsensitiveCompare e.1 (ascii "Transfer-Encoding"))) &&
        !(l.any (fun e => caseInsensitiveCompare e.1 (ascii "Content-Length")))) =
      !(l.any (fun f => isFraming f.1)) := by
    induction l with
    | nil => rfl
    | cons e l ih =>
      simp only [any_cons,Bool.not_or]
      rw [← ih,isFraming]
      cases caseInsensitiveCompare e.1 (ascii "Content-Length") <;> simp [Bool.and_assoc]
  have hlines := @sepLines_flatMap (lineOf response :: (fieldsOf response).map fieldLine) (by simp)
  rw [show crlfcrlf = crlf ++ crlf from rfl,← append_assoc,← hlines]
  simp only [emitted,buildResponse,appendHeaders,hneit,lineOf,fieldsOf,writtenFields,flatMap_cons,flatMap_map]
  cases response.headers.toList.any (fun f => isFraming f.1) with
  | true => simp [fieldLine,appendHeaderLine]
  | false => simp [flatMap_append,fieldLine,appendHeaderLine,lengthField,hname]

theorem filter_writtenFields (headers : ByteMap Bytes) (n : Nat) :
    ((writtenFields headers n).filter (fun f => isFraming f.1)).length ≤ 1 ↔ FramingUnique headers := by
  unfold writtenFields
  cases hany : headers.toList.any (fun f => isFraming f.1) with
  | true => simpa using framingUnique_iff
  | false =>
    have hnone : headers.toList.filter (fun f => isFraming f.1) = [] := by
      rw [filter_eq_nil_iff]
      intro f hf
      simpa using any_eq_false.mp hany f hf
    rw [← framingUnique_iff,filter_append,hnone]
    simp [lengthField,filter_cons]
    split <;> simp

def Writable (headers : ByteMap Bytes) : Prop :=
  ∀ k v : Bytes, headers[k]? = some v → isValidHeaderName k = true ∧ 13 ∉ v ∧ 10 ∉ v

/-- A response that a handler can make: its texts fit on their lines, and it has one header
at most that is about framing. -/
structure HandlerResponse (response : HttpResponse) : Prop where
  reason : 13 ∉ response.statusMessage ∧ 10 ∉ response.statusMessage
  headers : Writable response.headers
  framing : FramingUnique response.headers

variable {response : HttpResponse}

theorem fieldsOf_ne_nil (response : HttpResponse) : fieldsOf response ≠ [] := by
  unfold fieldsOf writtenFields
  cases response.headers.toList with
  | nil => simp
  | cons f fs => simp

theorem toChars_noLineEnd (n : Nat) : 13 ∉ toChars 10 n ∧ 10 ∉ toChars 10 n :=
  ⟨fun hm => absurd (not_isSpace_of_decimalDigit (mem_toChars hm)) (by decide),
    fun hm => absurd (not_isSpace_of_decimalDigit (mem_toChars hm)) (by decide)⟩

structure Lined (response : HttpResponse) : Prop where
  reason : 13 ∉ response.statusMessage
  headers : Writable response.headers

theorem Lined.line (h : Lined response) : 13 ∉ lineOf response := by
  have hver : 13 ∉ ascii "HTTP/1.1 " := by decide +kernel
  have hcode : 13 ∉ toCharsSigned response.statusCode := by
    unfold toCharsSigned
    split
    · simpa using (toChars_noLineEnd _).1
    · exact (toChars_noLineEnd _).1
  simp only [lineOf,mem_append,mem_singleton,not_or]
  exact ⟨⟨⟨hver,hcode⟩,by decide⟩,h.reason⟩

theorem Lined.field (h : Lined response) {f : Bytes × Bytes} (hf : f ∈ fieldsOf response) :
    isValidHeaderName f.1 = true ∧ 13 ∉ f.2 ∧ 10 ∉ f.2 := by
  unfold fieldsOf writtenFields at hf
  rcases mem_append.mp hf with hf | hf
  · exact h.headers f.1 f.2 (Std.ExtTreeMap.mem_toList_iff_getElem?_eq_some.mp hf)
  · split at hf
    · cases hf
    · obtain rfl := mem_singleton.mp hf
      have hname : isValidHeaderName (ascii "Content-Length") = true := by decide +kernel
      exact ⟨hname,toChars_noLineEnd _⟩

theorem Lined.noReturn (h : Lined response) :
    ∀ l ∈ lineOf response :: (fieldsOf response).map fieldLine, 13 ∉ l := by
  intro l hl
  rcases mem_cons.mp hl with rfl | hl
  · exact h.line
  · obtain ⟨f,hf,rfl⟩ := mem_map.mp hl
    rw [fieldLine_eq]
    exact rawLine_noReturn (h.field hf).1 (by simpa using (h.field hf).2.1)

theorem fieldLines_ne_nil : ∀ l ∈ (fieldsOf response).map fieldLine, l ≠ [] := by
  intro l hl
  obtain ⟨f,-,rfl⟩ := mem_map.mp hl
  exact fieldLine_ne_nil f

theorem lineName_fieldLine {f : Bytes × Bytes} (h : isValidHeaderName f.1 = true) :
    lineName (fieldLine f) = f.1 := by
  obtain ⟨-,htok⟩ := isValidHeaderName_spec h
  have hall : ∀ c ∈ f.1, decide (c ≠ 58) = true := by
    intro c hc
    simpa using (isTokenCharacter_ne (htok c hc)).1
  rw [lineName,fieldLine_eq,rawLine,append_assoc,takeWhile_append_of_pos hall]
  simpa [HttpParser.trim] using trim_name h

theorem headLines_emitted (h : Lined response) :
    headLines (emitted response) = (fieldsOf response).map fieldLine := by
  have hblank := find_blank_line (by simp) h.noReturn fieldLines_ne_nil
    (if response.hasFileBody then [] else response.body)
  have hline := @find_first_line ((fieldsOf response).map fieldLine) (lineOf response) h.line
    (if response.hasFileBody then [] else response.body)
  rw [← emitted_eq] at hblank hline
  have hlines : ((emitted response).take
      (sepLines (lineOf response :: (fieldsOf response).map fieldLine)).length).drop
        ((lineOf response).length+2) = sepLines ((fieldsOf response).map fieldLine) := by
    rw [emitted_eq,append_assoc,take_left]
    obtain ⟨f,fs,hfs⟩ := exists_cons_of_ne_nil (fieldsOf_ne_nil response)
    rw [hfs,map_cons,sepLines_cons]
    exact drop_left' (by simp [crlf])
  simp only [headLines,hblank,hline,hlines]
  exact lines_sepLines (fun l hl => h.noReturn l (mem_cons_of_mem _ hl)) fieldLines_ne_nil

theorem filter_headLines (h : Lined response) :
    ((headLines (emitted response)).filter (fun l => isFraming (lineName l))).length ≤ 1 ↔
      FramingUnique response.headers := by
  have hfil : ((fieldsOf response).map fieldLine).filter (fun l => isFraming (lineName l)) =
      ((fieldsOf response).filter (fun f => isFraming f.1)).map fieldLine := by
    rw [filter_map]
    congr 1
    refine filter_congr (fun f hf => ?_)
    simp only [Function.comp_apply,lineName_fieldLine (h.field hf).1]
  rw [headLines_emitted h,hfil,length_map]
  exact filter_writtenFields _ _

/-- A response within the limits of the client's parser: three digits of status, lines and
head that are not too long, a length that is a number. -/
structure Presentable (response : HttpResponse) : Prop where
  status : 100 ≤ response.statusCode ∧ response.statusCode ≤ 999
  lineSize : (lineOf response).length ≤ kMaxStatusLineSize
  fieldSize : ∀ f ∈ fieldsOf response, (fieldLine f).length ≤ kMaxHeaderLineSize
  count : (fieldsOf response).length ≤ kMaxHeaderCount
  size : (sepLines (lineOf response :: (fieldsOf response).map fieldLine)).length ≤
    kMaxHeaderSectionSize
  lengths : LengthsReadable (fieldsOf response)

def rawFields (response : HttpResponse) : List (Bytes × Bytes) :=
  (fieldsOf response).map (fun f => (f.1,32 :: f.2))

theorem emitted_eq_headOf (response : HttpResponse) :
    emitted response = headOf (lineOf response) (rawFields response) ++
      (if response.hasFileBody then [] else response.body) := by
  have hmap : (rawFields response).map rawLine = (fieldsOf response).map fieldLine := by
    rw [rawFields,map_map]
    exact map_congr_left (fun f _ => (fieldLine_eq f).symm)
  rw [emitted_eq,headOf_eq,hmap]

theorem headerList_rawFields (h : Lined response) (hp : Presentable response)
    (hunique : FramingUnique response.headers) : HeaderList (lineOf response) (rawFields response) := by
  have hraw {P : Bytes × Bytes → Prop} (hP : ∀ f ∈ fieldsOf response, P (f.1,32 :: f.2)) :
      ∀ f ∈ rawFields response, P f := by
    intro f hf
    obtain ⟨g,hg,rfl⟩ := mem_map.mp hf
    exact hP g hg
  constructor
  · exact hraw (fun f hf => (h.field hf).1)
  · exact hraw (fun f hf => by simpa using (h.field hf).2)
  · exact hraw (fun f hf => by rw [← fieldLine_eq]; exact hp.fieldSize f hf)
  · simpa [rawFields] using hp.count
  · have htext := congrArg length (emitted_eq_headOf response)
    rw [emitted_eq,length_append,length_append,length_append] at htext
    have hsize := hp.size
    have hblank : crlfcrlf.length = 4 := rfl
    omega
  · rw [rawFields,filter_map,length_map]
    exact (filter_writtenFields _ _).mpr hunique

theorem parseResponseHead_emitted (h : Lined response) (hp : Presentable response)
    (hunique : FramingUnique response.headers) :
    (parseResponseHead (.whole (emitted response))).1 = true := by
  have hlen : LengthsReadable (rawFields response) := by
    intro f hf
    obtain ⟨g,hg,rfl⟩ := mem_map.mp hf
    have htrim : trimmedField (g.1,32 :: g.2) = trimmedField g := by
      rw [trimmedField,HttpParser.trim,trim_cons_of_pos _ (by decide)]
      rfl
    rw [htrim]
    exact hp.lengths g hg
  obtain ⟨firstLine,headerLines,headers,hsplit,hfirst,hparse,-⟩ :=
    (headerList_rawFields h hp hunique).accepted h.line hp.lineSize
      (by simpa [rawFields] using fieldsOf_ne_nil response) hlen
      (if response.hasFileBody then [] else response.body)
  rw [← emitted_eq_headOf] at hsplit
  have hcode : toCharsSigned response.statusCode = toChars 10 response.statusCode.natAbs :=
    if_neg (by have := hp.status.1; omega)
  have hver : ascii "HTTP/1.1 " = ascii "HTTP/1.1" ++ [32] := by decide +kernel
  obtain ⟨hthree,hdig⟩ := @statusDigits_toChars response.statusCode.natAbs
    (by have := hp.status; omega) (by have := hp.status; omega)
  rw [lineOf,hver,hcode] at hfirst
  obtain ⟨v,message,hline,-⟩ := splitStatusLine_parts (by decide +kernel) hthree hdig hfirst
  simp only [parseResponseHead,hsplit,hline,hparse]

end Emitted

section Main

theorem writable_putDefault {headers : ByteMap Bytes} (h : Writable headers) {name value : Bytes}
    (hname : isValidHeaderName name = true) (hvalue : 13 ∉ value ∧ 10 ∉ value) :
    Writable (putDefault headers name value) := by
  intro k v hk
  rw [getElem?_putDefault] at hk
  split at hk
  · rename_i heq
    subst heq
    cases hv : headers[name]? with
    | none =>
      simp only [hv,Option.getD_none,Option.some.injEq] at hk
      exact ⟨hname,hk ▸ hvalue⟩
    | some v' =>
      simp only [hv,Option.getD_some,Option.some.injEq] at hk
      exact ⟨hname,(h name v (hk ▸ hv)).2⟩
  · exact h k v hk

theorem lined_finalizeResponse {date : Bytes} (hdate : 13 ∉ date ∧ 10 ∉ date) {request : HttpRequest}
    {keepAlive : Bool} {response : HttpResponse} (h : HandlerResponse response) :
    Lined (finalizeResponse date request keepAlive response) := by
  have hlen {headers : ByteMap Bytes} (hw : Writable headers) (n : Nat) :
      Writable (putDefault headers (ascii "Content-Length") (toChars 10 n)) :=
    writable_putDefault hw (by decide +kernel) (toChars_noLineEnd n)
  have hdef : Writable (withDefaults date keepAlive response.headers) := by
    refine writable_putDefault (writable_putDefault (writable_putDefault h.headers ?_ hdate) ?_ ?_) ?_ ?_
    · decide +kernel
    · decide +kernel
    · cases keepAlive <;> decide +kernel
    · decide +kernel
    · decide +kernel
  have hfile : Writable (if response.hasFileBody then putDefault (withDefaults date keepAlive response.headers)
      (ascii "Content-Length") (toChars 10 response.fileLength) else withDefaults date keepAlive response.headers) := by
    split
    · exact hlen hdef _
    · exact hdef
  rw [finalizeResponse_eq]
  simp only
  generalize (if response.hasFileBody = true then putDefault (withDefaults date keepAlive response.headers)
    (ascii "Content-Length") (toChars 10 response.fileLength)
    else withDefaults date keepAlive response.headers) = headers at hfile ⊢
  generalize (if response.hasFileBody = true then response.fileLength else response.body.length) = size
  split
  · exact ⟨h.reason.1,hlen hfile _⟩
  · split
    · exact ⟨h.reason.1,hfile⟩
    · exact ⟨h.reason.1,hlen hfile _⟩

/-- The head of a response is unambiguous, and the client reads it, when the server keeps
the framing header of the handler as the only one. -/
theorem emitted_head_unambiguous_iff {date : Bytes} (hdate : 13 ∉ date ∧ 10 ∉ date)
    (request : HttpRequest) (keepAlive : Bool) {response : HttpResponse} (h : HandlerResponse response) :
    (((headLines (emitted (finalizeResponse date request keepAlive response))).filter
        (fun l => isFraming (lineName l))).length ≤ 1 ∧
      (Presentable (finalizeResponse date request keepAlive response) →
        (parseResponseHead (.whole (emitted (finalizeResponse date request keepAlive response)))).1 = true)) ↔
      FramingKept request response := by
  have hlined : Lined (finalizeResponse date request keepAlive response) := lined_finalizeResponse hdate h
  rw [filter_headLines hlined,framingUnique_finalizeResponse h.framing]
  constructor
  · exact fun hkept => hkept.1
  · intro hkept
    refine ⟨hkept,fun hp => parseResponseHead_emitted hlined hp ?_⟩
    exact (framingUnique_finalizeResponse h.framing).mpr hkept

/-- A response with a body and no header of its own. -/
theorem emitted_head_unambiguous_plain :
    let response : HttpResponse := { body := ascii "ok" }
    HandlerResponse response ∧
      ((headLines (emitted (finalizeResponse (ascii "now") {} true response))).filter
        (fun l => isFraming (lineName l))).length ≤ 1 ∧
      (Presentable (finalizeResponse (ascii "now") {} true response) →
        (parseResponseHead (.whole (emitted (finalizeResponse (ascii "now") {} true response)))).1 = true) := by
  have hres : HandlerResponse { body := ascii "ok" } :=
    ⟨by decide +kernel,fun k v hk => by simp at hk,fun k v k' v' hk => by simp at hk⟩
  exact ⟨hres,(emitted_head_unambiguous_iff (by decide +kernel) {} true hres).mpr
    (fun k v hk => by simp at hk)⟩

/-- The length of the body, set by the handler in lower case: the server adds another one,
and the client refuses the head. -/
theorem emitted_head_ambiguous :
    let response : HttpResponse :=
      { headers := (∅ : ByteMap Bytes).insert (ascii "content-length") (ascii "2"), body := ascii "ok" }
    HandlerResponse response ∧
      ((headLines (emitted (finalizeResponse (ascii "now") {} true response))).filter
        (fun l => isFraming (lineName l))).length = 2 ∧
      (parseResponseHead (.whole (emitted (finalizeResponse (ascii "now") {} true response)))).1 = false := by
  have hres : HandlerResponse
      { headers := (∅ : ByteMap Bytes).insert (ascii "content-length") (ascii "2"), body := ascii "ok" } := by
    refine ⟨by decide +kernel,?_,?_⟩
    · intro k v hk
      obtain ⟨rfl,rfl⟩ := getElem?_singleton.mp hk
      decide +kernel
    · intro k v k' v' hk hk' _ _
      rw [(getElem?_singleton.mp hk).1,(getElem?_singleton.mp hk').1]
  refine ⟨hres,?_,by decide +kernel⟩
  rw [headLines_emitted (lined_finalizeResponse (by decide +kernel) hres)]
  decide +kernel

end Main

end FastNet.HttpServer
