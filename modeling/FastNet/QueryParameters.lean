import FastNet.RequestWire

/-!
Query parameters: how `HttpClientRequest` adds them to a path, and how the request that
the server builds carries them.
-/

namespace FastNet

open Text Ctype Numeral HttpParser List

namespace HttpParser

def isUnreserved (ch : UInt8) : Bool :=
  isAlnum ch || ch = 45 || ch = 95 || ch = 46 || ch = 126

def kHexDigitsUpper : Bytes := ascii "0123456789ABCDEF"

def encodeByte (ch : UInt8) : Bytes :=
  if isUnreserved ch then [ch]
  else [37,kHexDigitsUpper.getD (ch.toNat/16) 0,kHexDigitsUpper.getD (ch.toNat%16) 0]

def urlEncode (raw : Bytes) : Bytes := raw.flatMap encodeByte

def marks : Bytes := [13,32,35,38,61,63]

theorem hexDigit_upper : ∀ n < 16, hexDigit (kHexDigitsUpper.getD n 0) = some n ∧
    isUnreserved (kHexDigitsUpper.getD n 0) = true := by
  decide +kernel

theorem nibbles (ch : UInt8) : ch.toNat/16 < 16 ∧ ch.toNat%16 < 16 := by
  have hlt : ch.toNat < 256 := ch.toNat_lt
  omega

variable {ch c : UInt8}

theorem mem_encodeByte (h : c ∈ encodeByte ch) : isUnreserved c = true ∨ c = 37 := by
  obtain ⟨hhigh,hlow⟩ := nibbles ch
  unfold encodeByte at h
  split at h
  · rename_i hplain
    rw [mem_singleton.mp h]
    exact .inl hplain
  · simp only [mem_cons,not_mem_nil,or_false] at h
    rcases h with rfl | rfl | rfl
    · exact .inr rfl
    · exact .inl (hexDigit_upper _ hhigh).2
    · exact .inl (hexDigit_upper _ hlow).2

theorem not_mem_urlEncode (hc : c ∈ marks) (raw : Bytes) : c ∉ urlEncode raw := by
  have hmarks : ∀ c ∈ marks, isUnreserved c = false ∧ c ≠ 37 := by decide +kernel
  intro hmem
  obtain ⟨ch,-,hch⟩ := mem_flatMap.mp hmem
  rcases mem_encodeByte hch with hplain | hper
  · rw [(hmarks c hc).1] at hplain
    cases hplain
  · exact (hmarks c hc).2 hper

theorem urlDecode_cons (hc : c ≠ 37) (rest : Bytes) :
    urlDecode (c :: rest) = (if c = 43 then 32 else c) :: urlDecode rest := by
  rw [urlDecode]
  rintro a b r rfl
  exact absurd rfl hc

theorem isUnreserved_ne (h : isUnreserved ch = true) : ch ≠ 37 ∧ ch ≠ 43 := by
  constructor
  · rintro rfl
    exact absurd h (by decide)
  · rintro rfl
    exact absurd h (by decide)

theorem urlDecode_encodeByte (ch : UInt8) (rest : Bytes) :
    urlDecode (encodeByte ch ++ rest) = ch :: urlDecode rest := by
  unfold encodeByte
  split
  · rename_i hplain
    obtain ⟨hper,hplus⟩ := isUnreserved_ne hplain
    rw [singleton_append,urlDecode_cons hper,if_neg hplus]
  · have hhigh := (hexDigit_upper _ (nibbles ch).1).1
    have hlow := (hexDigit_upper _ (nibbles ch).2).1
    have hbyte : ch.toNat/16*16+ch.toNat%16 = ch.toNat := Nat.div_add_mod' ch.toNat 16
    simp only [cons_append,nil_append,urlDecode,hhigh,hlow,hbyte,UInt8.ofNat_toNat]

theorem urlDecode_urlEncode (raw : Bytes) : urlDecode (urlEncode raw) = raw := by
  induction raw with
  | nil => rfl
  | cons ch raw ih =>
    have hcons : urlEncode (ch :: raw) = encodeByte ch ++ urlEncode raw := rfl
    rw [hcons,urlDecode_encodeByte,ih]

theorem urlEncode_inj {a b : Bytes} : urlEncode a = urlEncode b ↔ a = b := by
  constructor
  · intro h
    rw [← urlDecode_urlEncode a,h,urlDecode_urlEncode]
  · exact congrArg urlEncode

def encodedPair (e : Bytes × Bytes) : Bytes := urlEncode e.1 ++ 61 :: urlEncode e.2

theorem not_mem_encodedPair (hc : c ∈ marks) (hne : c ≠ 61) (e : Bytes × Bytes) : c ∉ encodedPair e := by
  simp only [encodedPair,mem_append,mem_cons,not_or]
  exact ⟨not_mem_urlEncode hc e.1,hne,not_mem_urlEncode hc e.2⟩

def encodedQuery (params : List (Bytes × Bytes)) : Bytes :=
  [38].intercalate (params.map encodedPair)

theorem not_mem_encodedQuery (hc : c ∈ marks) (hne : c ≠ 61) (hne' : c ≠ 38)
    (params : List (Bytes × Bytes)) : c ∉ encodedQuery params := by
  intro hmem
  rcases Segments.mem_of_mem_intercalate hmem with rfl | ⟨pair,hpair,hin⟩
  · exact hne' rfl
  · obtain ⟨e,-,rfl⟩ := mem_map.mp hpair
    exact not_mem_encodedPair hc hne e hin

theorem parseQueryString_encoded {params : List (Bytes × Bytes)} (hne : params ≠ []) :
    parseQueryString (encodedQuery params) =
      params.foldl (fun m e => m.insert (urlEncode e.1) (urlEncode e.2)) ∅ := by
  have hfirst : (encodedQuery params).head? ≠ some 63 := fun h =>
    @not_mem_encodedQuery 63 (by decide) (by decide) (by decide) params (mem_of_mem_head? h)
  have hsplit : (encodedQuery params).splitOn 38 = params.map encodedPair := by
    refine splitOn_intercalate 38 ?_ (by simpa using hne)
    intro pair hpair
    obtain ⟨e,-,rfl⟩ := mem_map.mp hpair
    exact not_mem_encodedPair (by decide) (by decide) e
  simp only [parseQueryString,if_neg hfirst,hsplit,foldl_map]
  refine foldl_ext _ _ _ (fun m e _ => ?_)
  have hmark : find [61] (encodedPair e) 0 = some (urlEncode e.1).length :=
    find_mark (@not_mem_urlEncode 61 (by decide) e.1) (urlEncode e.2)
  rw [if_neg (by simp [encodedPair]),hmark]
  simp [encodedPair,← drop_drop]

theorem parseRequestHead_queryParams {data : ByteView} {view : HttpRequestView}
    (h : parseRequestHead data = (true,view)) :
    view.queryParams = parseQueryString view.queryString.text := by
  unfold parseRequestHead at h
  repeat' split at h
  all_goals
    first
    | cases h; rfl
    | simp at h

def lastValues (params : List (Bytes × Bytes)) : ByteMap Bytes :=
  params.foldl (fun m e => m.insert e.1 e.2) ∅

def decodeParams (encoded : ByteMap Bytes) : ByteMap Bytes :=
  encoded.toList.foldl (fun m e => m.insert (urlDecode e.1) (urlDecode e.2)) ∅

theorem decodeParams_encoded (params : List (Bytes × Bytes)) :
    decodeParams (params.foldl (fun m e => m.insert (urlEncode e.1) (urlEncode e.2)) ∅) =
      lastValues params := by
  obtain ⟨encoded,hdef⟩ : ∃ encoded : ByteMap Bytes,
    encoded = params.foldl (fun m e => m.insert (urlEncode e.1) (urlEncode e.2)) ∅ := ⟨_,rfl⟩
  have hget (k : Bytes) : encoded[k]? =
      (params.reverse.find? (fun e => urlEncode e.1 = k)).map (fun e => urlEncode e.2) := by
    rw [hdef,getElem?_foldl_insert (fun e : Bytes × Bytes => urlEncode e.1)
      (fun e => urlEncode e.2)]
    simp
  have hname (name : Bytes) : encoded[urlEncode name]? =
      ((lastValues params)[name]?).map urlEncode := by
    rw [hget,lastValues,getElem?_foldl_insert Prod.fst Prod.snd]
    simp only [urlEncode_inj]
    simp [Option.map_map,Function.comp_def]
  have hkey {k v : Bytes} (hk : encoded[k]? = some v) : urlEncode (urlDecode k) = k := by
    rw [hget] at hk
    obtain ⟨e,he,-⟩ := Option.map_eq_some_iff.mp hk
    have hek : urlEncode e.1 = k := by simpa using find?_some he
    rw [← hek,urlDecode_urlEncode]
  rw [← hdef]
  refine Std.ExtTreeMap.ext_getElem? fun name => ?_
  rw [decodeParams,getElem?_foldl_insert (fun e : Bytes × Bytes => urlDecode e.1)
    (fun e => urlDecode e.2)]
  -- the entry that is found is the one of the encoded name
  have hfound (e : Bytes × Bytes) (he : e ∈ encoded.toList) (hn : urlDecode e.1 = name) :
      encoded[urlEncode name]? = some e.2 := by
    have hentry := Std.ExtTreeMap.mem_toList_iff_getElem?_eq_some.mp he
    rw [← hn,hkey hentry,hentry]
  cases hf : encoded.toList.reverse.find? (fun e => urlDecode e.1 = name) with
  | none =>
    have hnone : encoded[urlEncode name]? = none := by
      rw [Option.eq_none_iff_forall_ne_some]
      intro v hv
      have hmem := Std.ExtTreeMap.mem_toList_iff_getElem?_eq_some.mpr hv
      have hno := find?_eq_none.mp hf _ (mem_reverse.mpr hmem)
      simp [urlDecode_urlEncode] at hno
    rw [hname,Option.map_eq_none_iff] at hnone
    simp [hnone]
  | some e =>
    have hmem := mem_reverse.mp (mem_of_find?_eq_some hf)
    have hn : urlDecode e.1 = name := by simpa using find?_some hf
    have hvalue := hfound e hmem hn
    rw [hname] at hvalue
    obtain ⟨v,hv,hve⟩ := Option.map_eq_some_iff.mp hvalue
    simp [hv,← hve,urlDecode_urlEncode]

end HttpParser

namespace HttpServer

theorem frontHead_parsed {state : ClientState} {headerBytes : Nat} {view : HttpRequestView}
    (h : frontHead state = some (headerBytes,view)) :
    ∃ data, parseRequestHead data = (true,view) := by
  unfold frontHead at h
  split at h
  · cases h
  · split at h
    · cases h
    · rename_i hparse
      cases h
      exact ⟨_,hparse⟩

theorem tryExtractRequest_queryParams {state : ClientState} {r : ParsedRequest}
    (h : tryExtractRequest state = .ret (some r)) (himm : r.immediateResponse = none) :
    r.request.queryParams = decodeParams (parseQueryString r.request.queryString) := by
  obtain ⟨-,⟨-,-,href⟩ | ⟨headerBytes,view,totalBytes,hfront,-,hfin⟩⟩ :=
    tryExtractRequest_some h
  · exact absurd himm href
  · obtain ⟨-,-,hbuilt⟩ := finishRequest_some hfin
    obtain ⟨method,-,hbuild⟩ := hbuilt himm
    obtain ⟨-,-,hstr,hpar⟩ := buildRequest_fields hbuild
    obtain ⟨_,hparse⟩ := frontHead_parsed hfront
    have hview := parseRequestHead_queryParams hparse
    rw [hpar,hstr]
    exact congrArg decodeParams hview

end HttpServer

namespace HttpClient

/-- `HttpClientRequest`. -/
structure HttpClientRequest where
  method : Bytes := ascii "GET"
  path : Bytes := [47]
  headers : ByteMap Bytes := ∅
  body : Bytes := []

def HttpClientRequest.addQuery (request : HttpClientRequest) (name value : Bytes) :
    HttpClientRequest :=
  let separator := if find [63] request.path 0 = none then 63 else 38
  { request with path := request.path ++ [separator] ++ urlEncode name ++ [61] ++ urlEncode value }

def HttpClientRequest.addQueries (request : HttpClientRequest) (params : List (Bytes × Bytes)) :
    HttpClientRequest :=
  params.foldl (fun request e => request.addQuery e.1 e.2) request

namespace HttpClientRequest

theorem addQuery_path (request : HttpClientRequest) (name value : Bytes) :
    (request.addQuery name value).path = request.path ++
      (if 63 ∈ request.path then 38 else 63) :: encodedPair (name,value) := by
  have hmark : find [63] request.path 0 = none ↔ 63 ∉ request.path := by
    constructor
    · intro h hmem
      rcases find_letter 63 request.path with ⟨hno,-⟩ | ⟨a,b,-,-,hsome⟩
      · exact hno hmem
      · rw [hsome] at h
        cases h
    · exact fun h => find_eq_none_of_not_mem h 0
  simp only [addQuery,encodedPair,hmark]
  by_cases hmem : 63 ∈ request.path <;> simp [hmem]

theorem addQueries_path_of_mem (params : List (Bytes × Bytes)) {request : HttpClientRequest}
    (h : 63 ∈ request.path) : (request.addQueries params).path =
      request.path ++ params.flatMap (fun e => 38 :: encodedPair e) := by
  induction params generalizing request with
  | nil => simp [addQueries]
  | cons e params ih =>
    have hpath := addQuery_path request e.1 e.2
    rw [if_pos h] at hpath
    have hrest := @ih (request.addQuery e.1 e.2) (by rw [hpath]; simp [h])
    rw [hpath] at hrest
    simpa [addQueries] using hrest

theorem addQueries_path {params : List (Bytes × Bytes)} {request : HttpClientRequest}
    (h : 63 ∉ request.path) (hne : params ≠ []) :
    (request.addQueries params).path = request.path ++ 63 :: encodedQuery params := by
  obtain ⟨e,params,rfl⟩ := exists_cons_of_ne_nil hne
  have hpath := addQuery_path request e.1 e.2
  rw [if_neg h] at hpath
  have hrest := @addQueries_path_of_mem params (request.addQuery e.1 e.2) (by rw [hpath]; simp)
  have hjoin : encodedPair e ++ params.flatMap (fun e => 38 :: encodedPair e) =
      encodedQuery (e :: params) := by
    clear hrest hpath hne
    induction params generalizing e with
    | nil => simp [encodedQuery]
    | cons e' params ih =>
      have hrest := ih e'
      simp only [encodedQuery,map_cons,intercalate_cons_cons] at hrest ⊢
      rw [← hrest]
      simp
  rw [hpath] at hrest
  have hfold : (request.addQueries (e :: params)) = (request.addQuery e.1 e.2).addQueries params := rfl
  rw [hfold,hrest,← hjoin]
  simp

end HttpClientRequest

theorem normalizeHttpPath_query {path : Bytes} (h : 63 ∉ path) (query : Bytes) :
    normalizeHttpPath (path ++ 63 :: query) = normalizeHttpPath path ++ 63 :: query := by
  have hcut : cutQuery (path ++ 63 :: query) = (path,63 :: query) := by
    simp [cutQuery,find_mark h query]
  have hcut' : cutQuery path = (path,[]) := by
    simp [cutQuery,find_eq_none_of_not_mem h 0]
  simp only [normalizeHttpPath,hcut,hcut',append_nil]

theorem mem_normalizeHttpPath {path : Bytes} (hslash : path.head? = some 47) (h : 63 ∉ path)
    {c : UInt8} (hc : c ∈ normalizeHttpPath path) : c = 47 ∨ c ∈ path := by
  obtain ⟨rest,rfl⟩ := eq_cons_of_slash hslash
  have hall : ∀ c ∈ rest, decide (c ≠ 63) = true := by
    intro c hc
    simpa using fun heq : c = 63 => h (heq ▸ mem_cons_of_mem _ hc)
  rw [normalizeHttpPath_slash,takeWhile_eq_self_iff.mpr hall,dropWhile_eq_nil_iff.mpr hall,append_nil] at hc
  rcases mem_cons.mp hc with hc | hc
  · exact .inl hc
  · rcases Segments.mem_of_mem_intercalate hc with hc | ⟨segment,hs,hc⟩
    · exact .inl hc
    · have hseg := mem_of_mem_filter (Segments.mem_of_mem_entered hs)
      have hin := @Segments.mem_intercalate_of_mem _ 47 _ _ _ hseg hc
      rw [intercalate_splitOn] at hin
      exact .inr (mem_cons_of_mem _ hin)

/-- A path to which parameters can be added so that the server reads them back. -/
structure BasePath (path : Bytes) : Prop where
  slash : path.head? = some 47
  plain : ∀ c ∈ path, c ≠ 63 ∧ c ≠ 35 ∧ c ≠ 32 ∧ c ≠ 13

structure QueryTarget (target : Bytes) (params : List (Bytes × Bytes)) : Prop where
  ne : target ≠ []
  plain : 13 ∉ target ∧ 32 ∉ target ∧ 35 ∉ target
  query : decodeParams (parseQueryString ((target.dropWhile (· ≠ 63)).drop 1)) = lastValues params

theorem BasePath.queryTarget {request : HttpClientRequest} (h : BasePath request.path)
    (params : List (Bytes × Bytes)) (currentPath : Bytes) :
    QueryTarget (buildRequestPath currentPath (request.addQueries params).path) params := by
  have hquery : 63 ∉ request.path := fun hc => (h.plain 63 hc).1 rfl
  have hfrag : 35 ∉ request.path := fun hc => (h.plain 35 hc).2.1 rfl
  have hmem {c : UInt8} (hc : c ∈ normalizeHttpPath request.path) :
      c ≠ 63 ∧ c ≠ 35 ∧ c ≠ 32 ∧ c ≠ 13 := by
    rcases mem_normalizeHttpPath h.slash hquery hc with rfl | hc
    · decide
    · exact h.plain c hc
  have hne : normalizeHttpPath request.path ≠ [] := by
    obtain ⟨rest,hrest⟩ := eq_cons_of_slash h.slash
    rw [hrest,normalizeHttpPath_slash]
    simp
  have hall : ∀ c ∈ normalizeHttpPath request.path, decide (c ≠ 63) = true := fun c hc => by
    simpa using (hmem hc).1
  by_cases hpar : params = []
  · subst hpar
    have hpath : buildRequestPath currentPath (request.addQueries []).path =
        normalizeHttpPath request.path := by
      have hnone := buildRequestPath_of_slash h.slash currentPath
      rwa [cutFragment_of_not_mem hfrag] at hnone
    rw [hpath]
    refine ⟨hne,⟨fun hc => (hmem hc).2.2.2 rfl,fun hc => (hmem hc).2.2.1 rfl,
      fun hc => (hmem hc).2.1 rfl⟩,?_⟩
    rw [dropWhile_eq_nil_iff.mpr hall]
    decide +kernel
  · have hadded := HttpClientRequest.addQueries_path hquery hpar
    have hslash : (request.addQueries params).path.head? = some 47 := by
      simp [hadded,h.slash]
    have hmark {c : UInt8} (hc : c ∈ marks) (hc' : c ≠ 61 ∧ c ≠ 38 ∧ c ≠ 63) :
        c ∉ 63 :: encodedQuery params := by
      simp only [mem_cons,not_or]
      exact ⟨hc'.2.2,not_mem_encodedQuery hc hc'.1 hc'.2.1 params⟩
    have hpath : buildRequestPath currentPath (request.addQueries params).path =
        normalizeHttpPath request.path ++ 63 :: encodedQuery params := by
      have hkept : 35 ∉ request.path ++ 63 :: encodedQuery params := by
        rw [mem_append,not_or]
        exact ⟨hfrag,hmark (by decide) (by decide)⟩
      rw [buildRequestPath_of_slash hslash,hadded,cutFragment_of_not_mem hkept,normalizeHttpPath_query hquery]
    rw [hpath]
    refine ⟨by simp,?_,?_⟩
    · simp only [mem_append,not_or]
      exact ⟨⟨fun hc => (hmem hc).2.2.2 rfl,hmark (by decide) (by decide)⟩,
        ⟨fun hc => (hmem hc).2.2.1 rfl,hmark (by decide) (by decide)⟩,
        ⟨fun hc => (hmem hc).2.1 rfl,hmark (by decide) (by decide)⟩⟩
    · rw [dropWhile_append_of_pos hall]
      have hdrop : ((63 :: encodedQuery params).dropWhile (fun c => decide (c ≠ 63))).drop 1 =
          encodedQuery params := by simp
      rw [hdrop,parseQueryString_encoded hpar,decodeParams_encoded]

end HttpClient

open HttpClient HttpServer in
/-- The parameters that are added to a path are those of the request that the server
builds: each name has the last value given for it, and no other name has one. -/
theorem query_parameters_survive {request : HttpClientRequest} {params : List (Bytes × Bytes)}
    {url : ParsedUrl} {useCompression : Bool} {rest : Bytes} {state : ClientState}
    (hbase : BasePath request.path)
    (hmethod : (tryStringToMethod request.method).isSome = true)
    (hfields : ∀ (k v : Bytes), request.headers[k]? = some v → PlainField (k, v))
    (hlimits : WithinLimits kMaxRequestLineSize
      (requestLine request.method (buildRequestPath url.path (request.addQueries params).path))
      (request.headers.toList ++ addedFields request.headers (buildHostHeader url))
      request.body.length)
    (hunread : unread state = buildClientRequest request.method
      (buildRequestPath url.path (request.addQueries params).path) request.headers request.body
      (buildHostHeader url) useCompression ++ rest)
    (hmemory : Addressable state.buffer) :
    (∃ r, tryExtractRequest state = .ret (some r) ∧ r.immediateResponse = none ∧
      ∀ name : Bytes, r.request.queryParams[name]? =
        (params.reverse.find? (fun e => e.1 = name)).map Prod.snd) ∧
    ∀ raw, urlDecode (urlEncode raw) = raw := by
  refine ⟨?_,urlDecode_urlEncode⟩
  obtain ⟨hne,⟨hret,hspace,hfrag⟩,hquery⟩ := hbase.queryTarget params url.path
  generalize buildRequestPath url.path (request.addQueries params).path = target at *
  obtain ⟨m,hm⟩ := Option.isSome_iff_exists.mp hmethod
  have hlen := congrArg List.length hunread
  have hle := unread_length_le state
  have heq := buildClientRequest_eq request.method target request.body (buildHostHeader url)
    useCompression (fun k v hk => (hfields k v hk).plain)
  rw [heq] at hunread hlen
  have hn : request.body.length ≤ sizeMax := by
    unfold Addressable at hmemory
    unfold sizeMax
    simp only [List.length_append] at hlen
    omega
  have hhead := writtenHead_of_fields hm hret hfields (buildHostHeader_solid url) hlimits hn
  obtain ⟨r,hr,himm,-,-,-,-,-,hstr,-,-⟩ :=
    tryExtractRequest_written hhead hm hne hspace hfrag hunread hmemory
  refine ⟨r,hr,himm,?_⟩
  intro name
  rw [tryExtractRequest_queryParams hr himm,hstr,hquery,lastValues,getElem?_foldl_insert Prod.fst Prod.snd]
  simp

open HttpClient HttpServer in
theorem query_parameters_survive_twice :
    ∃ r, tryExtractRequest ⟨buildClientRequest (ascii "GET")
        (buildRequestPath [47] (ascii "/find/?a%20b=&q=1&q=%26%3D")) ∅ []
        (buildHostHeader { protocol := ascii "http", port := 8080 }) true ++ ascii "GET",
        0, {}, false, false⟩ = .ret (some r) ∧
      r.immediateResponse = none ∧ r.request.queryParams[ascii "q"]? = some (ascii "&=") ∧
      r.request.queryParams[ascii "a b"]? = some [] := by
  obtain ⟨⟨r,hr,himm,hget⟩,-⟩ := @query_parameters_survive { path := ascii "/find/" }
    [(ascii "a b",[]),(ascii "q",ascii "1"),(ascii "q",ascii "&=")]
    { protocol := ascii "http", port := 8080 } true (ascii "GET") ⟨_,0,{},false,false⟩
    ⟨by decide +kernel,by decide +kernel⟩ (by decide +kernel) (by simp)
    ⟨by decide +kernel,by decide +kernel,by decide +kernel,by decide +kernel⟩ rfl
    (by unfold Addressable; decide +kernel)
  have hq := hget (ascii "q")
  have hab := hget (ascii "a b")
  refine ⟨r,hr,himm,?_,?_⟩
  · rw [hq]
    decide +kernel
  · rw [hab]
    decide +kernel

open HttpClient HttpServer in
def refusedWith (path : Bytes) (params : List (Bytes × Bytes)) : Option Int :=
  let request := HttpClientRequest.addQueries { path } params
  let buffer := buildClientRequest request.method (buildRequestPath [47] request.path)
    request.headers request.body (ascii "host") false
  match tryExtractRequest { buffer } with
  | .ret (some r) => r.immediateResponse.map HttpResponse.statusCode
  | _ => none

/-- The space of a path is written as it is, and the server then finds a line of four
parts. -/
theorem query_parameters_refused :
    refusedWith (ascii "/a b") [(ascii "q", ascii "1")] = some 400 := by
  decide +kernel

end FastNet
