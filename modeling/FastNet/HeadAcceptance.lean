import FastNet.RequestWire
import FastNet.ResponseWire

/-!
Which heads the two head parsers of `HttpParser` accept, and what an accepted head says
about the framing of its message.
-/

namespace FastNet.HttpParser

open Text Ctype Numeral List

variable {fs : List (Bytes × Bytes)} {f : Bytes × Bytes} {version method target code reason : Bytes}
variable {data : ByteView} {view : HttpResponseView} {headers : ViewMap}

def headOf (line : Bytes) (fs : List (Bytes × Bytes)) : Bytes :=
  line ++ crlf ++ fs.flatMap (fun f => rawLine f ++ crlf) ++ crlf

theorem headOf_eq (line : Bytes) (fs : List (Bytes × Bytes)) :
    headOf line fs = sepLines (line :: fs.map rawLine) ++ crlfcrlf := by
  have hlines := @sepLines_flatMap (line :: fs.map rawLine) (by simp)
  rw [show crlfcrlf = crlf ++ crlf from rfl,← append_assoc,← hlines]
  simp [headOf,flatMap_map]

/-- Header lines as a head may have them: tokens for names, values without line ends, all
within the limits, and one at most that is about framing. -/
structure HeaderList (line : Bytes) (fs : List (Bytes × Bytes)) : Prop where
  name : ∀ f ∈ fs, isValidHeaderName f.1 = true
  value : ∀ f ∈ fs, 13 ∉ f.2 ∧ 10 ∉ f.2
  lineSize : ∀ f ∈ fs, (rawLine f).length ≤ kMaxHeaderLineSize
  count : fs.length ≤ kMaxHeaderCount
  size : (headOf line fs).length ≤ kMaxHeaderSectionSize+4
  framing : (fs.filter (fun f => isFraming f.1)).length ≤ 1

/-- The map has the names of the header lines, with the trimmed value of the last line that
has the name. -/
def LastValues (headers : ViewMap) (fs : List (Bytes × Bytes)) : Prop :=
  ∀ k : Bytes, headers[k]?.map (fun e => (e.1.text,e.2.text)) =
    (fs.reverse.find? (fun f => f.1 = k)).map (fun f => (f.1,HttpParser.trim f.2))

def trimmedField (f : Bytes × Bytes) : Bytes × Bytes := (f.1,HttpParser.trim f.2)

theorem lastValues_of_reads (h : Reads headers (fieldMap (fs.map trimmedField) ∅)) : LastValues headers fs := by
  intro k
  have hv := h.values k
  rw [fieldMap_getElem?,← map_reverse,find?_map] at hv
  cases hf : fs.reverse.find? (fun f => f.1 = k) with
  | none =>
    have hf' : fs.reverse.find? ((fun f => decide (f.1 = k)) ∘ trimmedField) = none := hf
    rw [hf'] at hv
    simpa using hv
  | some f =>
    have hf' : fs.reverse.find? ((fun f => decide (f.1 = k)) ∘ trimmedField) = some f := hf
    rw [hf',Option.map_some,Option.map_some,Option.map_eq_some_iff] at hv
    obtain ⟨e,he,hval⟩ := hv
    have hk : f.1 = k := by simpa using find?_some hf
    rw [he]
    simp only [Option.map_some,Option.some.injEq,Prod.mk.injEq]
    exact ⟨(h.keyed k e he).trans hk.symm,hval⟩

theorem find_framing (h : (fs.filter (fun f => isFraming f.1)).length ≤ 1) (hf : f ∈ fs) (hfram : isFraming f.1 = true) :
    (∀ g ∈ fs, isFraming g.1 = true → g = f) ∧ fs.reverse.find? (fun g => g.1 = f.1) = some f := by
  have honly : ∀ g ∈ fs, isFraming g.1 = true → g = f := by
    intro g hg hname
    have hgf : g ∈ fs.filter (fun f => isFraming f.1) := mem_filter.mpr ⟨hg,hname⟩
    have hff : f ∈ fs.filter (fun f => isFraming f.1) := mem_filter.mpr ⟨hf,hfram⟩
    match hlist : fs.filter (fun f => isFraming f.1) with
    | [] => simp [hlist] at hff
    | [x] =>
      simp only [hlist,mem_singleton] at hgf hff
      rw [hgf,hff]
    | _ :: _ :: _ => simp [hlist] at h
  refine ⟨honly,?_⟩
  cases hfind : fs.reverse.find? (fun g => g.1 = f.1) with
  | none =>
    rw [find?_eq_none] at hfind
    simpa using hfind f (mem_reverse.mpr hf)
  | some g =>
    have hg : g ∈ fs := mem_reverse.mp (mem_of_find?_eq_some hfind)
    have hname : g.1 = f.1 := by simpa using find?_some hfind
    rw [honly g hg (by rw [hname]; exact hfram)]

def LengthsReadable (fs : List (Bytes × Bytes)) : Prop := ∀ f ∈ fs, LengthReadable (trimmedField f)

namespace HeaderList

variable {line : Bytes} {fs : List (Bytes × Bytes)}

theorem lines_noReturn (h : HeaderList line fs) (hline : 13 ∉ line) :
    ∀ l ∈ line :: fs.map rawLine, 13 ∉ l := by
  intro l hl
  rcases mem_cons.mp hl with rfl | hl
  · exact hline
  · obtain ⟨f,hf,rfl⟩ := mem_map.mp hl
    exact rawLine_noReturn (h.name f hf) (h.value f hf).1

theorem lines_ne_nil (fs : List (Bytes × Bytes)) : ∀ l ∈ fs.map rawLine, l ≠ [] := by
  intro l hl
  obtain ⟨f,-,rfl⟩ := mem_map.mp hl
  simp [rawLine]

/-- With a header line and readable lengths the head is cut into its first line and its
header lines, which are accepted, whatever follows the head. -/
theorem accepted (h : HeaderList line fs) (hline : 13 ∉ line) {kMaxLineSize : Nat}
    (hsize : line.length ≤ kMaxLineSize) (hne : fs ≠ []) (hlen : LengthsReadable fs) (rest : Bytes) :
    ∃ firstLine headerLines headers,
      splitHead kMaxLineSize (.whole (headOf line fs ++ rest)) = some (firstLine,headerLines) ∧
      firstLine.text = line ∧ parseHeaderLines headerLines = (true,headers) ∧
      LastValues headers fs := by
  have htotal := h.size
  rw [headOf_eq,length_append] at htotal
  obtain ⟨firstLine,headerLines,hsplit,hfirst,hlines⟩ := splitHead_lines (by simpa using hne)
    (h.lines_noReturn hline) (lines_ne_nil fs) hsize (Nat.le_of_add_le_add_right htotal)
    (show (View.whole (headOf line fs ++ rest)).text = _ ++ crlfcrlf ++ rest by rw [View.whole_text,headOf_eq])
  have hfil : ((fs.map trimmedField).filter (fun f => isFraming f.1)).length =
      (fs.filter (fun f => isFraming f.1)).length := by
    rw [filter_map,length_map]
    rfl
  have hall : FieldsAllowed false false (fs.map trimmedField) := by
    refine (fieldsAllowed_iff.mpr ⟨?_,?_⟩).1
    · rw [hfil]
      exact h.framing
    · intro f hf
      obtain ⟨g,hg,rfl⟩ := mem_map.mp hf
      exact hlen g hg
  have hfiel : Fields false false 0 (lines headerLines.text) (fs.map trimmedField) := by
    refine ⟨?_,hall,by simpa using h.count⟩
    rw [hlines,lines_sepLines (fun l hl => h.lines_noReturn hline l (mem_cons_of_mem _ hl))
      (lines_ne_nil fs),map_map,map_map]
    exact map_congr_left (fun f hf => fieldOf_rawLine (h.name f hf) (h.lineSize f hf))
  obtain ⟨headers,hparse,hreads⟩ := parseHeaderLines_of_fields hfiel
  exact ⟨firstLine,headerLines,headers,hsplit,hfirst,hparse,lastValues_of_reads hreads⟩

theorem of_accepted (h : HeaderList line fs) (hline : 13 ∉ line) {kMaxLineSize : Nat}
    {firstLine headerLines : ByteView} {headers : ViewMap}
    (hsplit : splitHead kMaxLineSize (.whole (headOf line fs)) = some (firstLine,headerLines))
    (hparse : parseHeaderLines headerLines = (true,headers)) (hlast : LastValues headers fs) :
    fs ≠ [] ∧ LengthsReadable fs := by
  constructor
  · rintro rfl
    obtain ⟨headerEnd,lineEnd,he,hl,hle,-⟩ := splitHead_accepted hsplit hparse
    rw [View.whole_text,headOf_eq] at he hl
    have he' := @find_blank_line [line] (by simp) (h.lines_noReturn hline) (by simp) []
    have hl' := @find_first_line [] line hline []
    rw [append_nil] at he' hl'
    rw [map_nil,he',Option.some.injEq] at he
    rw [map_nil,hl',Option.some.injEq] at hl
    simp only [sepLines] at he
    omega
  · obtain ⟨length,encoding,hfram⟩ := parseHeaderLines_framing hparse
    intro f hf hcl
    have hcl' : caseInsensitiveCompare f.1 (ascii "Content-Length") = true := hcl
    have hk := hlast f.1
    rw [(find_framing h.framing hf (by simp [isFraming,hcl'])).2,Option.map_some,
      Option.map_eq_some_iff] at hk
    obtain ⟨e,he,heq⟩ := hk
    have hval : e.2.text = HttpParser.trim f.2 := congrArg Prod.snd heq
    have hdec := (hfram.decimal _ e he hcl).2
    rwa [hval] at hdec

end HeaderList

def Version1 (version : Bytes) : Prop := ∃ x, isDigit x = true ∧ version = ascii "HTTP/1." ++ [x]

theorem Version1.valid (h : Version1 version) : isValidHttpVersion version = true := by
  obtain ⟨x,hx,rfl⟩ := h
  refine isValidHttpVersion_iff.mpr ⟨49,x,by decide,hx,?_⟩
  have hsplit : ascii "HTTP/1." = ascii "HTTP/" ++ [49,46] := by decide +kernel
  rw [hsplit,append_assoc]
  rfl

def requestLineOf (method target version : Bytes) : Bytes :=
  method ++ [32] ++ target ++ [32] ++ version

def statusLineOf (version code reason : Bytes) : Bytes :=
  version ++ [32] ++ code ++ [32] ++ reason

structure RequestHead (method target version : Bytes) (fs : List (Bytes × Bytes)) : Prop where
  isToken : isValidHeaderName method = true
  isTarget : target ≠ [] ∧ 32 ∉ target ∧ 13 ∉ target ∧ 10 ∉ target
  isVersion : Version1 version
  size : (requestLineOf method target version).length ≤ kMaxRequestLineSize
  headers : HeaderList (requestLineOf method target version) fs

structure ResponseHead (version code reason : Bytes) (fs : List (Bytes × Bytes)) : Prop where
  isVersion : Version1 version
  isCode : code.length = 3 ∧ ∀ c ∈ code, isDigit c = true
  isReason : 13 ∉ reason ∧ 10 ∉ reason
  size : (statusLineOf version code reason).length ≤ kMaxStatusLineSize
  headers : HeaderList (statusLineOf version code reason) fs

theorem RequestHead.noReturn
    (h : RequestHead method target version fs) : 13 ∉ requestLineOf method target version := by
  have hmet : 13 ∉ method := fun hm =>
    (isTokenCharacter_ne ((isValidHeaderName_spec h.isToken).2 13 hm)).2 rfl
  have hver : 13 ∉ version := not_mem_version h.isVersion.valid (by decide)
  simp only [requestLineOf,mem_append,mem_singleton,not_or]
  exact ⟨⟨⟨⟨hmet,by decide⟩,h.isTarget.2.2.1⟩,by decide⟩,hver⟩

theorem ResponseHead.noReturn
    (h : ResponseHead version code reason fs) : 13 ∉ statusLineOf version code reason := by
  have hcode : 13 ∉ code := fun hc => absurd (h.isCode.2 13 hc) (by decide)
  have hver : 13 ∉ version := not_mem_version h.isVersion.valid (by decide)
  simp only [statusLineOf,mem_append,mem_singleton,not_or]
  exact ⟨⟨⟨⟨hver,by decide⟩,hcode⟩,by decide⟩,h.isReason.1⟩

theorem statusDigits_of_isDigit {codeText : Bytes} (h : ∀ c ∈ codeText, isDigit c = true) :
    ∃ n, statusDigits codeText = some n := by
  induction codeText using reverseRecOn with
  | nil => exact ⟨0,rfl⟩
  | append_singleton codeText c ih =>
    obtain ⟨n,hn⟩ := ih (fun d hd => h d (mem_append_left _ hd))
    have hc := h c (by simp)
    refine ⟨n*10+(c.toNat-48),?_⟩
    rw [statusDigits_append_singleton,hn]
    simp [decimalDigit,hc]

theorem request_head_accepted_iff
    (h : RequestHead method target version fs) :
    (∃ view, parseRequestHead (.whole (headOf (requestLineOf method target version) fs)) = (true,view) ∧
      LastValues view.headers fs) ↔ fs ≠ [] ∧ LengthsReadable fs := by
  constructor
  · rintro ⟨view,hview,hlast⟩
    obtain ⟨requestLine,headerLines,hsplit,-,hparse⟩ := parseRequestHead_spec hview
    exact h.headers.of_accepted h.noReturn hsplit hparse hlast
  · rintro ⟨hne,hlen⟩
    obtain ⟨firstLine,headerLines,headers,hsplit,hfirst,hparse,hlast⟩ :=
      h.headers.accepted h.noReturn h.size hne hlen []
    rw [append_nil] at hsplit
    obtain ⟨m,t,v,hline,-⟩ := splitRequestLine_parts h.isToken h.isTarget.1 h.isTarget.2.1
      h.isVersion.valid hfirst
    simp only [parseRequestHead,hsplit,hline,hparse]
    cases splitTarget t with
    | mk uri query =>
      cases query with
      | none => exact ⟨_,rfl,hlast⟩
      | some query => exact ⟨_,rfl,hlast⟩

theorem response_head_accepted_iff
    (h : ResponseHead version code reason fs) :
    (∃ view, parseResponseHead (.whole (headOf (statusLineOf version code reason) fs)) = (true,view) ∧
      LastValues view.headers fs) ↔ fs ≠ [] ∧ LengthsReadable fs := by
  constructor
  · rintro ⟨view,hview,hlast⟩
    obtain ⟨statusLine,headerLines,n,hsplit,-,-,hparse⟩ := parseResponseHead_spec hview
    exact h.headers.of_accepted h.noReturn hsplit hparse hlast
  · rintro ⟨hne,hlen⟩
    obtain ⟨firstLine,headerLines,headers,hsplit,hfirst,hparse,hlast⟩ :=
      h.headers.accepted h.noReturn h.size hne hlen []
    rw [append_nil] at hsplit
    obtain ⟨n,hn⟩ := statusDigits_of_isDigit h.isCode.2
    obtain ⟨v,message,hline,-⟩ := splitStatusLine_parts h.isVersion.valid h.isCode.1 hn hfirst
    simp only [parseResponseHead,hsplit,hline,hparse]
    exact ⟨_,rfl,hlast⟩

/-- Well-formed heads are accepted with the map of their header lines when there is a
header line, and a declared length is a number. -/
theorem well_formed_heads_accepted_iff (fs : List (Bytes × Bytes)) :
    (∀ method target version : Bytes,
      RequestHead method target version fs →
      ((∃ view, parseRequestHead (.whole (headOf (requestLineOf method target version) fs)) = (true, view) ∧
        LastValues view.headers fs) ↔ fs ≠ [] ∧ LengthsReadable fs)) ∧
    (∀ version code reason : Bytes,
      ResponseHead version code reason fs →
      ((∃ view, parseResponseHead (.whole (headOf (statusLineOf version code reason) fs)) = (true, view) ∧
        LastValues view.headers fs) ↔ fs ≠ [] ∧ LengthsReadable fs)) :=
  ⟨fun _ _ _ h => request_head_accepted_iff h,fun _ _ _ h => response_head_accepted_iff h⟩

theorem requestHead_get
    (h : HeaderList (requestLineOf (ascii "GET") (ascii "/") (ascii "HTTP/1.1")) fs) :
    RequestHead (ascii "GET") (ascii "/") (ascii "HTTP/1.1") fs :=
  ⟨by decide +kernel,by decide +kernel,⟨49,by decide,by decide +kernel⟩,by decide +kernel,h⟩

theorem responseHead_ok
    (h : HeaderList (statusLineOf (ascii "HTTP/1.1") (ascii "200") (ascii "OK")) fs) :
    ResponseHead (ascii "HTTP/1.1") (ascii "200") (ascii "OK") fs :=
  ⟨⟨49,by decide,by decide +kernel⟩,by decide +kernel,by decide +kernel,by decide +kernel,h⟩

/-- The heads `GET / HTTP/1.1` and `HTTP/1.1 200 OK` with one header line. -/
theorem well_formed_heads_accepted_host :
    let fs := [(ascii "Host",ascii " a")]
    (∃ view, parseRequestHead (.whole (headOf (requestLineOf (ascii "GET") (ascii "/")
        (ascii "HTTP/1.1")) fs)) = (true,view) ∧ LastValues view.headers fs) ∧
      ∃ view, parseResponseHead (.whole (headOf (statusLineOf (ascii "HTTP/1.1") (ascii "200")
        (ascii "OK")) fs)) = (true,view) ∧ LastValues view.headers fs := by
  have hlen : LengthsReadable [(ascii "Host",ascii " a")] := by
    intro f hf hcl
    rw [List.mem_singleton] at hf
    subst hf
    revert hcl
    decide +kernel
  refine ⟨((well_formed_heads_accepted_iff _).1 _ _ _ (requestHead_get ?_)).mpr ⟨by simp,hlen⟩,
    ((well_formed_heads_accepted_iff _).2 _ _ _ (responseHead_ok ?_)).mpr ⟨by simp,hlen⟩⟩
  · exact ⟨by decide +kernel,by decide +kernel,by decide +kernel,by decide +kernel,
      by decide +kernel,by decide +kernel⟩
  · exact ⟨by decide +kernel,by decide +kernel,by decide +kernel,by decide +kernel,
      by decide +kernel,by decide +kernel⟩

/-- Without a header line both heads are refused. -/
theorem bare_heads_refused :
    RequestHead (ascii "GET") (ascii "/") (ascii "HTTP/1.1") [] ∧
      (parseRequestHead (.whole (headOf (requestLineOf (ascii "GET") (ascii "/")
        (ascii "HTTP/1.1")) []))).1 = false ∧
      ResponseHead (ascii "HTTP/1.1") (ascii "200") (ascii "OK") [] ∧
      (parseResponseHead (.whole (headOf (statusLineOf (ascii "HTTP/1.1") (ascii "200")
        (ascii "OK")) []))).1 = false := by
  refine ⟨requestHead_get ⟨?_,?_,?_,?_,?_,?_⟩,by decide +kernel,
    responseHead_ok ⟨?_,?_,?_,?_,?_,?_⟩,by decide +kernel⟩ <;> decide +kernel

def headLines (data : Bytes) : List Bytes :=
  match find crlfcrlf data 0, find crlf data 0 with
  | some headerEnd, some lineEnd => lines ((data.take headerEnd).drop (lineEnd+2))
  | _, _ => []

def lineName (line : Bytes) : Bytes := HttpParser.trim (line.takeWhile (· ≠ 58))

def lineValue (line : Bytes) : Bytes := HttpParser.trim ((line.dropWhile (· ≠ 58)).drop 1)

theorem fieldOf_eq {line : Bytes} (h : fieldOf line = some f) :
    f = (lineName line,lineValue line) := by
  obtain ⟨-,colon,hcolon,-,rfl⟩ := fieldOf_eq_some h
  rcases find_letter 58 line with ⟨-,hf⟩ | ⟨a,b,hline,ha,hf⟩
  · rw [hf] at hcolon
    cases hcolon
  · rw [hf,Option.some.injEq] at hcolon
    have hall : ∀ c ∈ a, decide (c ≠ 58) = true := by
      intro c hm
      simpa using fun heq : c = 58 => ha (heq ▸ hm)
    rw [← hcolon,show colon+2 = (colon+1)+1 from rfl,← hcolon,lineName,lineValue,hline]
    rw [takeWhile_append_of_pos hall,dropWhile_append_of_pos hall]
    simp [← drop_drop]

theorem fields_eq {ls : List Bytes} (h : ls.map fieldOf = fs.map some) :
    fs = ls.map (fun l => (lineName l,lineValue l)) := by
  induction ls generalizing fs with
  | nil => exact map_eq_nil_iff.mp h.symm
  | cons l ls ih =>
    cases fs with
    | nil => simp at h
    | cons f fs =>
      simp only [map_cons,cons.injEq] at h ⊢
      exact ⟨fieldOf_eq h.1,ih h.2⟩

def decimalValue (text : Bytes) : Nat := valueFrom 10 0 (text.map (fun c => c.toNat-48))

theorem mapM_decimalDigit {text : Bytes} {ds : List Nat} (h : text.mapM decimalDigit = some ds) :
    (∀ c ∈ text, isDigit c = true) ∧ ds = text.map (fun c => c.toNat-48) := by
  induction text generalizing ds with
  | nil =>
    cases h
    simp
  | cons c text ih =>
    simp only [mapM_cons,Option.bind_eq_bind,Option.bind_eq_some_iff,Option.pure_def,Option.some.injEq] at h
    obtain ⟨d,hd,ds',hds,rfl⟩ := h
    obtain ⟨hall,rfl⟩ := ih hds
    have hc : isDigit c = true := by
      by_contra hno
      simp [decimalDigit,hno] at hd
    simp only [decimalDigit,hc,if_true,Option.some.injEq] at hd
    simpa [hc,hd] using hall

/-- A message whose framing is unambiguous: one header line at most is about it, and a
length that it declares is a number that fits, namely `contentLength`. -/
structure UnambiguousFraming (data : Bytes) (contentLength : Nat) : Prop where
  once : ((headLines data).filter (fun l => isFraming (lineName l))).length ≤ 1
  length : ∀ l ∈ headLines data, caseInsensitiveCompare (lineName l) (ascii "Content-Length") = true →
    lineValue l ≠ [] ∧ (∀ c ∈ lineValue l, isDigit c = true) ∧ decimalValue (lineValue l) ≤ sizeMax ∧
      contentLength = decimalValue (lineValue l)

theorem unambiguousFraming_of_accepted {kMaxLineSize : Nat} {line headerLines : ByteView}
    (hsplit : splitHead kMaxLineSize data = some (line,headerLines))
    (hparse : parseHeaderLines headerLines = (true,headers)) :
    UnambiguousFraming data.text ((contentLengthFromHeaders headers).getD 0) := by
  obtain ⟨headerEnd,lineEnd,he,hl,-,-,-,-,rfl⟩ := splitHead_accepted hsplit hparse
  obtain ⟨fs,⟨hfs,hall,-⟩,hreads⟩ := fields_of_parseHeaderLines hparse
  obtain ⟨honce,hread⟩ := fieldsAllowed_iff.mp ⟨hall,rfl⟩
  have hlines : headLines data.text =
      lines (data.sub (lineEnd+2) (headerEnd-(lineEnd+2))).text := by
    simp only [headLines,he,hl,View.sub_text,drop_take]
  rw [← hlines] at hfs
  have heq := fields_eq hfs
  constructor
  · rw [heq,filter_map,length_map] at honce
    exact honce
  · intro l hl' hcl
    have hmem : (lineName l,lineValue l) ∈ fs := by
      rw [heq]
      exact mem_map.mpr ⟨l,hl',rfl⟩
    have hfram (name : Bytes) (hname : caseInsensitiveCompare name (ascii "Content-Length") = true) :
        isFraming name = true := by simp [isFraming,hname]
    obtain ⟨honly,hfind⟩ := find_framing honce hmem (hfram _ hcl)
    obtain ⟨n,hn⟩ := Option.isSome_iff_exists.mp (hread _ hmem hcl)
    obtain ⟨hne,ds,hds,hvalue,hfits⟩ := parseUnsignedDecimal_eq_some_iff.mp hn
    obtain ⟨hdig,rfl⟩ := mapM_decimalDigit hds
    refine ⟨hne,hdig,hvalue.trans_le hfits,?_⟩
    have hkey : (fieldMap fs ∅)[lineName l]? = some (lineValue l) := by
      rw [fieldMap_getElem?,hfind]
      rfl
    obtain ⟨view,hview,htext⟩ := hreads.getHeader_some hkey hcl (fun k v hk hname => by
      rw [fieldMap_getElem?,Option.map_eq_some_iff] at hk
      obtain ⟨g,hg,-⟩ := hk
      have hgk : g.1 = k := by simpa using find?_some hg
      have hgm := mem_reverse.mp (mem_of_find?_eq_some hg)
      rw [← hgk,honly g hgm (hfram _ (hgk ▸ hname))])
    have htrim : HttpParser.trim (lineValue l) = lineValue l := trim_trim _ _
    rw [contentLengthFromHeaders,hview,Option.bind_some,htext,htrim,hn]
    exact hvalue.symm

theorem parseRequestHead_rejected {view : HttpRequestView}
    (h : parseRequestHead data = (false,view)) : view = .cleared := by
  unfold parseRequestHead at h
  split at h
  · cases h
    rfl
  · split at h
    · cases h
      rfl
    · split at h
      · cases h
        rfl
      · split at h
        · cases h
        · cases h

theorem parseResponseHead_rejected
    (h : parseResponseHead data = (false,view)) : view = .cleared := by
  unfold parseResponseHead at h
  split at h
  · cases h
    rfl
  · split at h
    · cases h
      rfl
    · split at h
      · cases h
        rfl
      · cases h

theorem parseRequest_rejected {view : HttpRequestView}
    (h : parseRequest data = (false,view)) : view = .cleared := by
  unfold parseRequest at h
  split at h
  · rename_i request hhead
    cases h
    exact parseRequestHead_rejected hhead
  · split at h
    · cases h
      rfl
    · cases h

theorem parseResponse_rejected
    (h : parseResponse data = (false,view)) : view = .cleared := by
  unfold parseResponse at h
  split at h
  · rename_i response hhead
    cases h
    exact parseResponseHead_rejected hhead
  · split at h
    · cases h
    · split at h
      · cases h
        rfl
      · cases h

/-- Accepted heads have an unambiguous framing, and rejected messages leave nothing. -/
theorem framing_unambiguous (data : ByteView) :
    (∀ view, parseRequestHead data = (true, view) →
      UnambiguousFraming data.text view.getContentLength) ∧
    (∀ view, parseResponseHead data = (true, view) →
      UnambiguousFraming data.text view.getContentLength) ∧
    (∀ view, parseRequestHead data = (false, view) → view = .cleared) ∧
    (∀ view, parseRequest data = (false, view) → view = .cleared) ∧
    (∀ view, parseResponseHead data = (false, view) → view = .cleared) ∧
    (∀ view, parseResponse data = (false, view) → view = .cleared) := by
  refine ⟨fun view h => ?_,fun view h => ?_,fun _ => parseRequestHead_rejected,
    fun _ => parseRequest_rejected,fun _ => parseResponseHead_rejected,fun _ => parseResponse_rejected⟩
  · obtain ⟨requestLine,headerLines,hsplit,-,hparse⟩ := parseRequestHead_spec h
    exact unambiguousFraming_of_accepted hsplit hparse
  · obtain ⟨statusLine,headerLines,n,hsplit,-,-,hparse⟩ := parseResponseHead_spec h
    exact unambiguousFraming_of_accepted hsplit hparse

end FastNet.HttpParser
