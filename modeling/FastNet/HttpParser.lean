import FastNet.Loop
import FastNet.Numerals

/-!
The message heads of `HttpParser`: the views it fills, the header lines, the
request line and the status line. A view remembers where it points, so that the
reader of a view can be asked what it reads after its storage has changed.
-/

namespace FastNet

open Text Ctype Numeral

abbrev ByteView := View UInt8
abbrev ByteMap (β : Type) := Std.ExtTreeMap Bytes β

/-- `std::map<std::string_view, std::string_view>`, ordered by the key's bytes at
the time of insertion; an entry keeps the view of the key it was made with. -/
abbrev ViewMap := ByteMap (ByteView × ByteView)

/-- `headers[name] = value`. -/
def ViewMap.assign (headers : ViewMap) (name value : ByteView) : ViewMap :=
  headers.insert name.text ((headers[name.text]?.map Prod.fst).getD name,value)

theorem ViewMap.getElem?_assign_self (headers : ViewMap) (name value : ByteView) :
    (headers.assign name value)[name.text]? =
      some ((headers[name.text]?.map Prod.fst).getD name,value) := by
  simp [ViewMap.assign]

theorem ViewMap.getElem?_assign_of_ne {headers : ViewMap} {name value : ByteView} {k : Bytes}
    (h : name.text ≠ k) : (headers.assign name value)[k]? = headers[k]? := by
  simp [ViewMap.assign,Std.ExtTreeMap.getElem?_insert,Std.LawfulEqCmp.compare_eq_iff_eq,h]

def crlf : Bytes := [13,10]
def crlfcrlf : Bytes := [13,10,13,10]

namespace HttpParser

variable {n : Nat} {headerLines : ByteView} {value : Bytes}

def kMaxHeaderSectionSize : Nat := 64*1024
def kMaxRequestLineSize : Nat := 4096
def kMaxStatusLineSize : Nat := 4096
def kMaxHeaderLineSize : Nat := 8192
def kMaxHeaderCount : Nat := 128
def kChunkedEncodeBlockSize : Nat := 8192

def isTokenCharacter (ch : UInt8) : Bool :=
  ch ∈ ascii "!#$%&'*+-.^_`|~" || isAlnum ch

def isValidHeaderName (headerName : Bytes) : Bool :=
  headerName ≠ [] && headerName.all isTokenCharacter

def isValidHttpVersion (version : Bytes) : Bool :=
  version.length = 8 && version.take 5 = ascii "HTTP/" &&
    (version[5]?.any isDigit && version[6]? = some 46 && version[7]?.any isDigit)

def trim (str : Bytes) : Bytes := Text.trim isSpace str

def caseInsensitiveCompare (a b : Bytes) : Bool := a.map toLower = b.map toLower

def parseUnsignedDecimal (value : Bytes) : Option Nat :=
  if value = [] then none else scanNumber decimalDigit 10 value 0

theorem parseUnsignedDecimal_eq_some_iff : parseUnsignedDecimal value = some n ↔ value ≠ [] ∧
        ∃ ds, value.mapM decimalDigit = some ds ∧ valueFrom 10 0 ds = n ∧ n ≤ sizeMax := by
  unfold parseUnsignedDecimal
  rw [← scanNumber_eq_some_iff (by decide) (fun _ _ => decimalDigit_lt) (by decide) _ _ _ (by decide)]
  by_cases hv : value = []
  · simp [hv]
  · simp [hv]

theorem stoull_of_parseUnsignedDecimal (h : parseUnsignedDecimal value = some n) : stoull 10 value = .ok n := by
  obtain ⟨hne,ds,hds,rfl,hmax⟩ := parseUnsignedDecimal_eq_some_iff.mp h
  exact stoull_decimal hds hne hmax

def parseHexSize (value : Bytes) : Option Nat :=
  let value := trim value
  if value = [] then none else scanNumber hexDigit 16 value 0

/-- `parseHexSize` accepts a trimmed, non-empty string of digits whose value fits. -/
theorem parseHexSize_eq_some_iff : parseHexSize value = some n ↔ trim value ≠ [] ∧
        ∃ ds, (trim value).mapM hexDigit = some ds ∧ valueFrom 16 0 ds = n ∧ n ≤ sizeMax := by
  unfold parseHexSize
  simp only
  rw [← scanNumber_eq_some_iff (by decide) (fun _ _ => hexDigit_lt) (by decide) _ _ _ (by decide)]
  by_cases hv : trim value = []
  · simp [hv]
  · simp [hv]

theorem parseHexSize_le (h : parseHexSize value = some n) : n ≤ sizeMax := by
  obtain ⟨-,ds,-,-,hn⟩ := parseHexSize_eq_some_iff.mp h
  exact hn

def containsToken (headerValue token : Bytes) : Bool :=
  (headerValue.splitOn 44).any (fun current => caseInsensitiveCompare (trim current) token)

/-- The state of `parseHeaderLines` at the head of its loop. -/
structure HeaderScan where
  offset : Nat
  headerCount : Nat
  sawContentLength : Bool
  sawTransferEncoding : Bool
  headers : ViewMap

/-- The checks on one header line, up to the assignment to the map: name and
value, and whether a framing header has been seen. -/
def checkHeaderLine (line : ByteView) (sawContentLength sawTransferEncoding : Bool) :
    Option (ByteView × ByteView × Bool × Bool) :=
  if line.text = [] ∨ kMaxHeaderLineSize < line.size ∨
      line.text.head? = some 32 ∨ line.text.head? = some 9 then none
  else
    match find [58] line.text 0 with
    | none => none
    | some 0 => none
    | some colon =>
      let name := (line.sub 0 colon).trim isSpace
      let value := (line.suffix (colon+1)).trim isSpace
      if !isValidHeaderName name.text then none
      else
        let isLength := caseInsensitiveCompare name.text (ascii "Content-Length")
        let isEncoding := !isLength && caseInsensitiveCompare name.text (ascii "Transfer-Encoding")
        if isLength && (sawContentLength || (parseUnsignedDecimal value.text).isNone) then none
        else if isEncoding && sawTransferEncoding then none
        else if (sawContentLength || isLength) && (sawTransferEncoding || isEncoding) then none
        else some (name,value,sawContentLength || isLength,sawTransferEncoding || isEncoding)

/-- The line at `offset`, up to its line end or to the end of the header lines. -/
def headerLineAt (headerLines : ByteView) (offset : Nat) : Option Nat → ByteView
  | none => headerLines.suffix offset
  | some lineEnd => headerLines.sub offset (lineEnd-offset)

def headerTurn (headerLines : ByteView) (s : HeaderScan) :
    Except Exn (Loop.Turn HeaderScan (Bool × ViewMap)) :=
  if s.offset < headerLines.size then
    let lineEnd := find crlf headerLines.text s.offset
    let line := headerLineAt headerLines s.offset lineEnd
    match checkHeaderLine line s.sawContentLength s.sawTransferEncoding with
    | none => .ok (.leave (false,s.headers))
    | some (name,value,sawContentLength,sawTransferEncoding) =>
      let headers := s.headers.assign name value
      if kMaxHeaderCount < s.headerCount+1 then .ok (.leave (false,headers))
      else
        match lineEnd with
        | none => .ok (.leave (true,headers))
        | some lineEnd => .ok (.again
            ⟨lineEnd+2,s.headerCount+1,sawContentLength,sawTransferEncoding,headers⟩)
  else .ok (.leave (true,s.headers))

def headerScanStart : HeaderScan := ⟨0,0,false,false,∅⟩

def parseHeaderLines (headerLines : ByteView) : Bool × ViewMap :=
  if headerLines.text = [] then (true,∅)
  else
    match Loop.run (headerTurn headerLines) (headerLines.size+1) headerScanStart with
    | .ret r => r
    | _ => (false,∅)

theorem headerTurn_advances {s s' : HeaderScan}
    (h : Loop.Goes (headerTurn headerLines) s s') :
    s.offset < s'.offset ∧ s'.offset ≤ headerLines.size := by
  unfold Loop.Goes headerTurn at h
  split at h
  · simp only at h
    split at h
    · cases h
    · split at h
      · cases h
      · split at h
        · cases h
        · rename_i e he
          cases h
          have hb := find_bounds (by decide) he
          simp only [crlf,List.length_cons,List.length_nil] at hb
          exact ⟨by simp only; omega,by simp only [View.size]; omega⟩
  · cases h

theorem parseHeaderLines_returns (h : headerLines.text ≠ []) :
    Loop.run (headerTurn headerLines) (headerLines.size+1) headerScanStart =
      .ret (parseHeaderLines headerLines) := by
  have hne : Loop.run (headerTurn headerLines) (headerLines.size+1) headerScanStart ≠ .hang := by
    have hstep : ∀ s s', s.offset ≤ headerLines.size → Loop.Goes (headerTurn headerLines) s s' →
        s'.offset ≤ headerLines.size ∧
          headerLines.size-s'.offset < headerLines.size-s.offset := by
      intro s s' hs hg
      have hadv := headerTurn_advances hg
      exact ⟨hadv.2,by omega⟩
    exact Loop.run_ne_hang_of_variant _ hstep (Nat.zero_le _) (by simp [headerScanStart])
  have hthrow : ∀ e, Loop.run (headerTurn headerLines) (headerLines.size+1) headerScanStart ≠
      .threw e := by
    intro e he
    obtain ⟨t,-,ht⟩ := Loop.visit_of_threw he
    unfold headerTurn at ht
    repeat' (first | split at ht | simp only at ht)
    all_goals cases ht
  unfold parseHeaderLines
  rw [if_neg h]
  cases hr : Loop.run (headerTurn headerLines) (headerLines.size+1) headerScanStart with
  | ret r => rfl
  | threw e => exact absurd hr (hthrow e)
  | hang => exact absurd hr hne

theorem checkHeaderLine_spec {line name value : ByteView} {length encoding length' encoding' : Bool}
    (h : checkHeaderLine line length encoding = some (name,value,length',encoding')) :
    isValidHeaderName name.text = true ∧
      (caseInsensitiveCompare name.text (ascii "Content-Length") = true →
        length = false ∧ (parseUnsignedDecimal value.text).isSome = true) ∧
      length' = (length || caseInsensitiveCompare name.text (ascii "Content-Length")) ∧
      encoding' = (encoding || (!caseInsensitiveCompare name.text (ascii "Content-Length") &&
        caseInsensitiveCompare name.text (ascii "Transfer-Encoding"))) ∧
      (length' && encoding') = false := by
  unfold checkHeaderLine at h
  split at h
  · cases h
  · split at h
    · cases h
    · cases h
    · simp only at h
      split at h
      · cases h
      · rename_i hname
        split at h
        · cases h
        · rename_i hlen
          split at h
          · cases h
          · split at h
            · cases h
            · rename_i hboth
              simp only [Option.some.injEq,Prod.mk.injEq] at h
              obtain ⟨rfl,rfl,rfl,rfl⟩ := h
              refine ⟨by simpa using hname,fun hc => ?_,rfl,rfl,by simpa using hboth⟩
              simp only [hc,Bool.true_and,Bool.not_eq_true,Bool.or_eq_false_iff] at hlen
              exact ⟨hlen.1,by simpa using hlen.2⟩

theorem parseHeaderLines_induction {P : ViewMap → Bool → Bool → Prop}
    (hempty : P ∅ false false)
    (hass : ∀ headers offset lineEnd length encoding name value length' encoding',
      P headers length encoding →
      checkHeaderLine (headerLineAt headerLines offset lineEnd) length encoding =
        some (name,value,length',encoding') →
      P (headers.assign name value) length' encoding')
    {headers : ViewMap}
    (h : parseHeaderLines headerLines = (true,headers)) :
    ∃ length encoding, P headers length encoding := by
  by_cases hnil : headerLines.text = []
  · simp only [parseHeaderLines,hnil,if_true,Prod.mk.injEq,true_and] at h
    rw [← h]
    exact ⟨_,_,hempty⟩
  · have hret := parseHeaderLines_returns hnil
    rw [h] at hret
    obtain ⟨s,hv,hl⟩ := Loop.visit_of_ret hret
    have hstep : ∀ s s', P s.headers s.sawContentLength s.sawTransferEncoding →
        Loop.Goes (headerTurn headerLines) s s' →
        P s'.headers s'.sawContentLength s'.sawTransferEncoding := by
      intro s s' hs hg
      unfold Loop.Goes headerTurn at hg
      split at hg
      · simp only at hg
        split at hg
        · cases hg
        · rename_i hc
          split at hg
          · cases hg
          · split at hg
            · cases hg
            · cases hg
              exact hass _ _ _ _ _ _ _ _ _ hs hc
      · cases hg
    have hs : P s.headers s.sawContentLength s.sawTransferEncoding :=
      Loop.visits_invariant hstep hempty hv
    unfold headerTurn at hl
    split at hl
    · simp only at hl
      split at hl
      · simp at hl
      · rename_i hc
        split at hl
        · simp at hl
        · split at hl
          · simp only [Except.ok.injEq,Loop.Turn.leave.injEq,Prod.mk.injEq,true_and] at hl
            rw [← hl]
            exact ⟨_,_,hass _ _ _ _ _ _ _ _ _ hs hc⟩
          · cases hl
    · simp only [Except.ok.injEq,Loop.Turn.leave.injEq,Prod.mk.injEq,true_and] at hl
      rw [← hl]
      exact ⟨_,_,hs⟩

def parseQueryString (query : Bytes) : ByteMap Bytes :=
  let query := if query.head? = some 63 then query.tail else query
  (query.splitOn 38).foldl (fun params pair =>
    if pair = [] then params
    else
      match find [61] pair 0 with
      | none => params.insert pair []
      | some equals => params.insert (pair.take equals) (pair.drop (equals+1))) ∅

end HttpParser

structure HttpRequestView where
  method : ByteView
  target : ByteView
  uri : ByteView
  queryString : ByteView
  version : ByteView
  headers : ViewMap
  body : ByteView
  queryParams : ByteMap Bytes

structure HttpResponseView where
  statusCode : Int
  statusMessage : ByteView
  version : ByteView
  headers : ViewMap
  body : ByteView

/-- `HttpRequestView::clear`. -/
def HttpRequestView.cleared : HttpRequestView where
  method := .null
  target := .null
  uri := .null
  queryString := .null
  version := .null
  headers := ∅
  body := .null
  queryParams := ∅

/-- `HttpResponseView::clear`. -/
def HttpResponseView.cleared : HttpResponseView where
  statusCode := 200
  statusMessage := .whole (ascii "OK")
  version := .null
  headers := ∅
  body := .null

/-- The first entry, in the order of the map, whose key reads as `name` up to
letter case. `rd` gives the bytes a view reads at the time of the call. -/
def ViewMap.getHeader (rd : ByteView → Bytes) (headers : ViewMap) (name : Bytes) :
    Option ByteView :=
  (headers.toList.find? (fun e => HttpParser.caseInsensitiveCompare (rd e.2.1) name)).map
    (fun e => e.2.2)

def ViewMap.toStrings (rd : ByteView → Bytes) (headers : ViewMap) : ByteMap Bytes :=
  headers.toList.foldl (fun copy e => copy.insert (rd e.2.1) (rd e.2.2)) ∅

theorem ViewMap.getHeader_eq_some {rd : ByteView → Bytes} {headers : ViewMap} {name : Bytes}
    {value : ByteView} (h : headers.getHeader rd name = some value) :
    ∃ (k : Bytes) (e : ByteView × ByteView), headers[k]? = some e ∧
      HttpParser.caseInsensitiveCompare (rd e.1) name = true ∧ e.2 = value := by
  unfold ViewMap.getHeader at h
  rw [Option.map_eq_some_iff] at h
  obtain ⟨⟨k,e⟩,he,rfl⟩ := h
  have hm := List.mem_of_find?_eq_some he
  have hp := List.find?_some he
  exact ⟨k,e,Std.ExtTreeMap.mem_toList_iff_getElem?_eq_some.mp hm,hp,rfl⟩

namespace HttpParser

variable {data value : ByteView} {mem : Bytes} {length encoding : Bool} {headerLines : ByteView} {headers : ViewMap}

/-- The first line of a head and its header lines, as both kinds of messages cut them out. -/
def splitHead (kMaxLineSize : Nat) (data : ByteView) : Option (ByteView × ByteView) :=
  if data.text = [] then none
  else
    match find crlfcrlf data.text 0 with
    | none => none
    | some headerEnd =>
      if kMaxHeaderSectionSize < headerEnd then none
      else
        match find crlf data.text 0 with
        | none => none
        | some lineEnd =>
          if kMaxLineSize < lineEnd then none
          else
            let headerLinesOffset := lineEnd+2
            some (data.sub 0 lineEnd,
              data.sub headerLinesOffset (sizeSub headerEnd headerLinesOffset))

def splitRequestLine (requestLine : ByteView) : Option (ByteView × ByteView × ByteView) :=
  match find [32] requestLine.text 0 with
  | none => none
  | some firstSpace =>
    if firstSpace = 0 then none
    else
      match find [32] requestLine.text (firstSpace+1) with
      | none => none
      | some secondSpace =>
        if secondSpace = firstSpace+1 then none
        else if (find [32] requestLine.text (secondSpace+1)).isSome then none
        else
          let method := requestLine.sub 0 firstSpace
          let target := requestLine.sub (firstSpace+1) (secondSpace-firstSpace-1)
          let version := requestLine.suffix (secondSpace+1)
          if !isValidHeaderName method.text || target.text = [] || !isValidHttpVersion version.text
          then none
          else some (method,target,version)

def splitTarget (target : ByteView) : ByteView × Option ByteView :=
  let targetWithoutFragment :=
    match find [35] target.text 0 with
    | none => target
    | some fragmentPos => target.sub 0 fragmentPos
  match find [63] targetWithoutFragment.text 0 with
  | none => (targetWithoutFragment,none)
  | some queryPos =>
    (targetWithoutFragment.sub 0 queryPos,some (targetWithoutFragment.suffix (queryPos+1)))

/-- `HttpParser::parseRequestHead`: whether the head is accepted, and the view it leaves. -/
def parseRequestHead (data : ByteView) : Bool × HttpRequestView :=
  match splitHead kMaxRequestLineSize data with
  | none => (false,.cleared)
  | some (requestLine,headerLines) =>
    match splitRequestLine requestLine with
    | none => (false,.cleared)
    | some (method,target,version) =>
      match parseHeaderLines headerLines with
      | (false,_) => (false,.cleared)
      | (true,headers) =>
        match splitTarget target with
        | (uri,none) => (true,⟨method,target,uri,.null,version,headers,.null,∅⟩)
        | (uri,some queryString) =>
          (true,⟨method,target,uri,queryString,version,headers,.null,
            parseQueryString queryString.text⟩)

def statusDigits (codeText : Bytes) : Option Nat :=
  codeText.foldl (fun code ch => code.bind fun code =>
    (decimalDigit ch).map fun digit => code*10+digit) (some 0)

def splitStatusLine (statusLine : ByteView) : Option (ByteView × Nat × ByteView) :=
  match find [32] statusLine.text 0 with
  | none => none
  | some firstSpace =>
    if firstSpace = 0 then none
    else
      match find [32] statusLine.text (firstSpace+1) with
      | none => none
      | some secondSpace =>
        if secondSpace = firstSpace+1 then none
        else
          let version := statusLine.sub 0 firstSpace
          let codeText := statusLine.sub (firstSpace+1) (secondSpace-firstSpace-1)
          let statusMessage := (statusLine.suffix (secondSpace+1)).trim isSpace
          if !isValidHttpVersion version.text || codeText.size ≠ 3 then none
          else (statusDigits codeText.text).map fun statusCode => (version,statusCode,statusMessage)

def parseResponseHead (data : ByteView) : Bool × HttpResponseView :=
  match splitHead kMaxStatusLineSize data with
  | none => (false,.cleared)
  | some (statusLine,headerLines) =>
    match splitStatusLine statusLine with
    | none => (false,.cleared)
    | some (version,statusCode,statusMessage) =>
      match parseHeaderLines headerLines with
      | (false,_) => (false,.cleared)
      | (true,headers) => (true,⟨statusCode,statusMessage,version,headers,.null⟩)

def contentLengthFromHeaders (headers : ViewMap) : Option Nat :=
  (headers.getHeader View.text (ascii "Content-Length")).bind
    (fun value => parseUnsignedDecimal (trim value.text))

def isChunkedEncoding (headers : ViewMap) : Bool :=
  headers.toList.any (fun e => caseInsensitiveCompare e.2.1.text (ascii "Transfer-Encoding") &&
    containsToken e.2.2.text (ascii "chunked"))

def hasNoResponseBody (statusCode : Int) : Bool :=
  (100 ≤ statusCode && statusCode < 200) || statusCode = 204 || statusCode = 304

def assignMessageBody (remaining : ByteView) (headers : ViewMap) : Option ByteView :=
  if isChunkedEncoding headers then some remaining
  else
    match contentLengthFromHeaders headers with
    | none => some remaining
    | some contentLength =>
      if remaining.size < contentLength then none else some (remaining.sub 0 contentLength)

def remainingOf (data : ByteView) : ByteView :=
  data.suffix (sizeAdd ((find crlfcrlf data.text 0).getD sizeMax) 4)

def parseRequest (data : ByteView) : Bool × HttpRequestView :=
  match parseRequestHead data with
  | (false,request) => (false,request)
  | (true,request) =>
    match assignMessageBody (remainingOf data) request.headers with
    | none => (false,.cleared)
    | some body => (true,{ request with body })

def parseResponse (data : ByteView) : Bool × HttpResponseView :=
  match parseResponseHead data with
  | (false,response) => (false,response)
  | (true,response) =>
    if hasNoResponseBody response.statusCode then (true,{ response with body := .null })
    else
      match assignMessageBody (remainingOf data) response.headers with
      | none => (false,.cleared)
      | some body => (true,{ response with body })

theorem parseRequestHead_spec {view : HttpRequestView}
    (h : parseRequestHead data = (true,view)) :
    ∃ requestLine headerLines, splitHead kMaxRequestLineSize data = some (requestLine,headerLines) ∧
      splitRequestLine requestLine = some (view.method,view.target,view.version) ∧
      parseHeaderLines headerLines = (true,view.headers) := by
  unfold parseRequestHead at h
  cases hs : splitHead kMaxRequestLineSize data with
  | none => simp [hs] at h
  | some lines =>
    obtain ⟨requestLine,headerLines⟩ := lines
    simp only [hs] at h
    cases hr : splitRequestLine requestLine with
    | none => simp [hr] at h
    | some parts =>
      obtain ⟨method,target,version⟩ := parts
      simp only [hr] at h
      split at h
      · simp at h
      · rename_i headers hh
        refine ⟨requestLine,headerLines,rfl,?_⟩
        split at h
        · cases h
          exact ⟨hr,hh⟩
        · cases h
          exact ⟨hr,hh⟩

theorem parseResponseHead_spec {view : HttpResponseView}
    (h : parseResponseHead data = (true,view)) :
    ∃ statusLine headerLines statusCode,
      splitHead kMaxStatusLineSize data = some (statusLine,headerLines) ∧
      splitStatusLine statusLine = some (view.version,statusCode,view.statusMessage) ∧
      view.statusCode = statusCode ∧ parseHeaderLines headerLines = (true,view.headers) := by
  unfold parseResponseHead at h
  cases hs : splitHead kMaxStatusLineSize data with
  | none => simp [hs] at h
  | some lines =>
    obtain ⟨statusLine,headerLines⟩ := lines
    simp only [hs] at h
    cases hr : splitStatusLine statusLine with
    | none => simp [hr] at h
    | some parts =>
      obtain ⟨version,statusCode,statusMessage⟩ := parts
      simp only [hr] at h
      split at h
      · simp at h
      · rename_i headers hh
        cases h
        exact ⟨statusLine,headerLines,statusCode,rfl,hr,rfl,hh⟩

/-- What the checks on the lines say about the map: an entry stands under the key it
names, a content length is a decimal number, and the two flags tell the framing headers. -/
structure FramingHeaders (headers : ViewMap) (length encoding : Bool) : Prop where
  keyed : ∀ (k : Bytes) (e : ByteView × ByteView), headers[k]? = some e → e.1.text = k
  decimal : ∀ (k : Bytes) (e : ByteView × ByteView), headers[k]? = some e →
    caseInsensitiveCompare k (ascii "Content-Length") = true →
    length = true ∧ (parseUnsignedDecimal e.2.text).isSome = true
  encoded : ∀ (k : Bytes) (e : ByteView × ByteView), headers[k]? = some e →
    caseInsensitiveCompare k (ascii "Transfer-Encoding") = true → encoding = true
  exclusive : (length && encoding) = false

theorem not_length_of_encoding {name : Bytes}
    (h : caseInsensitiveCompare name (ascii "Transfer-Encoding") = true) :
    caseInsensitiveCompare name (ascii "Content-Length") = false := by
  simp only [caseInsensitiveCompare,decide_eq_true_eq,decide_eq_false_iff_not] at *
  rw [h]
  decide

theorem parseHeaderLines_framing (h : parseHeaderLines headerLines = (true,headers)) :
    ∃ length encoding, FramingHeaders headers length encoding := by
  refine parseHeaderLines_induction ⟨by simp,by simp,by simp,rfl⟩ ?_ h
  intro headers offset lineEnd length encoding name value length' encoding' hs hc
  obtain ⟨-,hdec,rfl,rfl,hexcl⟩ := checkHeaderLine_spec hc
  refine ⟨fun k e he => ?_,fun k e he hk => ?_,fun k e he hk => ?_,hexcl⟩
  · by_cases hkey : name.text = k
    · subst hkey
      rw [ViewMap.getElem?_assign_self] at he
      cases he
      cases ho : headers[name.text]? with
      | none => rfl
      | some e => simpa using hs.keyed _ _ ho
    · rw [ViewMap.getElem?_assign_of_ne hkey] at he
      exact hs.keyed k e he
  · by_cases hkey : name.text = k
    · subst hkey
      rw [ViewMap.getElem?_assign_self] at he
      cases he
      exact ⟨by simp [hk],(hdec hk).2⟩
    · rw [ViewMap.getElem?_assign_of_ne hkey] at he
      obtain ⟨hl,hp⟩ := hs.decimal k e he hk
      exact ⟨by simp [hl],hp⟩
  · by_cases hkey : name.text = k
    · subst hkey
      simp [not_length_of_encoding hk,hk]
    · rw [ViewMap.getElem?_assign_of_ne hkey] at he
      simp [hs.encoded k e he hk]

theorem checkHeaderLine_within {line name : ByteView}
    {length' encoding' : Bool} (hline : line.Within mem)
    (h : checkHeaderLine line length encoding = some (name,value,length',encoding')) :
    name.Within mem ∧ value.Within mem := by
  unfold checkHeaderLine at h
  split at h
  · cases h
  · split at h
    · cases h
    · cases h
    · simp only [Option.ite_none_left_eq_some,Option.some.injEq,Prod.mk.injEq] at h
      obtain ⟨-,-,-,-,rfl,rfl,-⟩ := h
      exact ⟨(hline.sub _ _).trim _,(hline.suffix _).trim _⟩

theorem parseHeaderLines_within
    (hlines : headerLines.Within mem) (h : parseHeaderLines headerLines = (true,headers)) :
    ∀ (k : Bytes) (e : ByteView × ByteView), headers[k]? = some e →
      e.1.Within mem ∧ e.2.Within mem := by
  suffices hex : ∃ length encoding : Bool, ∀ (k : Bytes) (e : ByteView × ByteView),
      headers[k]? = some e → e.1.Within mem ∧ e.2.Within mem by
    obtain ⟨-,-,hex⟩ := hex
    exact hex
  refine parseHeaderLines_induction (P := fun headers _ _ => ∀ (k : Bytes)
    (e : ByteView × ByteView), headers[k]? = some e → e.1.Within mem ∧ e.2.Within mem)
    (by simp) ?_ h
  intro headers offset lineEnd length encoding name value length' encoding' hs hc k e he
  have hline : (headerLineAt headerLines offset lineEnd).Within mem := by
    cases lineEnd with
    | none => exact hlines.suffix _
    | some lineEnd => exact hlines.sub _ _
  obtain ⟨hname,hvalue⟩ := checkHeaderLine_within hline hc
  by_cases hkey : name.text = k
  · subst hkey
    rw [ViewMap.getElem?_assign_self] at he
    cases he
    cases ho : headers[name.text]? with
    | none => exact ⟨hname,hvalue⟩
    | some e => exact ⟨(hs _ _ ho).1,hvalue⟩
  · rw [ViewMap.getElem?_assign_of_ne hkey] at he
    exact hs k e he

def declaredLength (headers : ViewMap) : Option Nat :=
  (headers.getHeader View.text (ascii "Content-Length")).bind
    (fun value => parseUnsignedDecimal value.text)

theorem FramingHeaders.declared (h : FramingHeaders headers length encoding)
    (hv : headers.getHeader View.text (ascii "Content-Length") = some value) :
    length = true ∧ ∃ n, declaredLength headers = some n ∧ stoull 10 value.text = .ok n := by
  obtain ⟨k,e,he,hk,rfl⟩ := ViewMap.getHeader_eq_some hv
  rw [h.keyed k e he] at hk
  obtain ⟨hl,hp⟩ := h.decimal k e he hk
  obtain ⟨n,hn⟩ := Option.isSome_iff_exists.mp hp
  exact ⟨hl,n,by simp [declaredLength,hv,hn],stoull_of_parseUnsignedDecimal hn⟩

theorem FramingHeaders.no_length (h : FramingHeaders headers length encoding)
    (hv : headers.getHeader View.text (ascii "Transfer-Encoding") = some value) :
    headers.getHeader View.text (ascii "Content-Length") = none := by
  cases hc : headers.getHeader View.text (ascii "Content-Length") with
  | none => rfl
  | some value' =>
    obtain ⟨k,e,he,hk,rfl⟩ := ViewMap.getHeader_eq_some hv
    rw [h.keyed k e he] at hk
    have hex := h.exclusive
    simp [(h.declared hc).1,h.encoded k e he hk] at hex

/-- `std::to_chars` of an unsigned value in base 10 or 16. -/
def toChars (base value : Nat) : Bytes :=
  if value = 0 then [48]
  else (Nat.digits base value).reverse.map
    (fun d => UInt8.ofNat (if d < 10 then 48+d else 87+d))

def appendHeaderLine (name value : Bytes) : Bytes := name ++ ascii ": " ++ value ++ crlf

/-- `HttpParser::appendHeaders`: the header lines written for a map and a body. -/
def appendHeaders (headers : ByteMap Bytes) (body : Bytes) : Bytes :=
  let hasContentLength := headers.toList.any
    (fun e => caseInsensitiveCompare e.1 (ascii "Content-Length"))
  let hasTransferEncoding := headers.toList.any
    (fun e => !caseInsensitiveCompare e.1 (ascii "Content-Length") &&
      caseInsensitiveCompare e.1 (ascii "Transfer-Encoding"))
  headers.toList.flatMap (fun e => appendHeaderLine e.1 e.2) ++
    if !hasTransferEncoding && !hasContentLength then
      ascii "Content-Length: " ++ toChars 10 body.length ++ crlf
    else []

/-- `appendSignedDecimal`. -/
def toCharsSigned (value : Int) : Bytes :=
  if value < 0 then 45 :: toChars 10 value.natAbs else toChars 10 value.natAbs

def buildResponse (statusCode : Int) (statusMessage : Bytes) (headers : ByteMap Bytes)
    (body : Bytes) : Bytes :=
  ascii "HTTP/1.1 " ++ toCharsSigned statusCode ++ [32] ++ statusMessage ++ crlf ++
    appendHeaders headers body ++ crlf ++ body

end HttpParser

def HttpRequestView.getContentLength (view : HttpRequestView) : Nat :=
  (HttpParser.contentLengthFromHeaders view.headers).getD 0

def HttpResponseView.getContentLength (view : HttpResponseView) : Nat :=
  (HttpParser.contentLengthFromHeaders view.headers).getD 0

end FastNet
