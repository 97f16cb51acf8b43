import FastNet.Address
import FastNet.HeadWire
import FastNet.Segments

/-!
The URLs of `HttpClient`: paths in normal form, absolute URLs, redirect targets, and
the host header that belongs to a URL.
-/

namespace FastNet.HttpClient

open Text Ctype Numeral List HttpParser

/-- A URL that has been parsed. Its host is one that `Address::parse` has accepted. -/
structure ParsedUrl where
  protocol : Bytes := []
  host : Bytes := []
  port : Nat := 0
  path : Bytes := [47]
  solid : Address.Solid host := by simp [Address.Solid]

def cutQuery (value : Bytes) : Bytes × Bytes :=
  match find [63] value 0 with
  | none => (value,[])
  | some queryPos => (value.take queryPos,value.drop queryPos)

def cutFragment (value : Bytes) : Bytes :=
  match find [35] value 0 with
  | none => value
  | some fragmentPos => value.take fragmentPos

def pushSegment (segments : List Bytes) (segment : Bytes) : List Bytes :=
  if segment = [] ∨ segment = ascii "." then segments
  else if segment = ascii ".." then segments.dropLast
  else segments ++ [segment]

def normalizeHttpPath (value : Bytes) : Bytes :=
  let (value,queryPart) := cutQuery value
  let absolute := value = [] ∨ value.head? = some 47
  let segments := (value.splitOn 47).foldl pushSegment []
  let normalized := (if absolute then [47] else []) ++ [47].intercalate segments
  (if normalized = [] then [47] else normalized) ++ queryPart

def joinRelativePath (basePath relativePath : Bytes) : Bytes :=
  let basePath := (cutQuery basePath).1
  let basePath := if basePath.head? = some 47 then basePath else [47]
  normalizeHttpPath (basePath.rdropWhile (· ≠ 47) ++ relativePath)

def toLowerCopy (value : Bytes) : Bytes := value.map toLower

def queryBase (currentPath : Bytes) : Bytes :=
  let basePath := (cutQuery currentPath).1
  if basePath = [] then [47] else basePath

/-- `buildRequestPath`; `absolutePath` stands for the path of the argument when it
parses as an absolute URL. -/
def buildRequestPathWith (absolutePath : Bytes → Option Bytes) (currentPath path : Bytes) : Bytes :=
  let current := if currentPath = [] then [47] else currentPath
  if path = [] then current
  else if path = ascii "*" then ascii "*"
  else
    let path := cutFragment path
    if path = [] then current
    else if path.head? = some 63 then queryBase currentPath ++ path
    else
      match (if (find (ascii "://") path 0).isSome then absolutePath path else none) with
      | some absolute => absolute
      | none => normalizeHttpPath (if path.head? = some 47 then path else 47 :: path)

/-- The first position at or behind `pos` of a byte of `chars`. -/
def findFirstOf (chars data : Bytes) (pos : Nat) : Option Nat :=
  if pos ≤ data.length then ((data.drop pos).findIdx? (fun c => c ∈ chars)).map (pos+·) else none

/-- The target of a URL: what begins at `pathPos`, without its fragment. -/
def requestTarget (url : Bytes) (pathPos : Option Nat) : Bytes :=
  let target :=
    match pathPos with
    | none => [47]
    | some pathPos => cutFragment (url.drop pathPos)
  if target = [] then [47] else target

/-- `parseUrl`; `requestPath` stands for `buildRequestPath`. -/
def parseUrlWith (requestPath : Bytes → Bytes) (url : Bytes) : Option ParsedUrl :=
  let url := trim url
  match find (ascii "://") url 0 with
  | none => none
  | some protocolPos =>
    let protocol := toLowerCopy (url.take protocolPos)
    if protocol ≠ ascii "http" ∧ protocol ≠ ascii "https" then none
    else
      let authorityStart := protocolPos+3
      let pathPos := findFirstOf (ascii "/?#") url authorityStart
      let authority :=
        match pathPos with
        | none => url.drop authorityStart
        | some pathPos => (url.drop authorityStart).take (pathPos-authorityStart)
      if authority = [] then none
      else
        -- what stands before the last at sign is user information
        let authority := authority.rtakeWhile (· ≠ 64)
        match hp : Address.parse authority (if protocol = ascii "https" then 443 else 80) with
        | none => none
        | some address =>
          if address.port = 0 then none
          else
            let target := requestTarget url pathPos
            let path := if target.head? = some 63 then 47 :: target else requestPath target
            if address.normalizedHost = [] ∨ path = [] then none
            else some ⟨protocol,address.normalizedHost,address.port,path,Address.parse_solid hp⟩

/-- `HttpClient::Impl::parseUrl`, for a client whose current path is `currentPath`. The
call of `buildRequestPath` inside it is on a target that begins with a slash, which is
no absolute URL (`parseUrl_eq`). -/
def parseUrl (currentPath url : Bytes) : Option ParsedUrl :=
  parseUrlWith (buildRequestPathWith (fun _ => none) currentPath) url

def buildRequestPath (currentPath path : Bytes) : Bytes :=
  buildRequestPathWith (fun path => (parseUrl currentPath path).map ParsedUrl.path) currentPath path

def resolveRedirect (current : ParsedUrl) (location : Bytes) : Option ParsedUrl :=
  let location := cutFragment (trim location)
  if location = [] then some current
  else if (find (ascii "://") location 0).isSome then parseUrl current.path location
  else if ascii "//" <+: location then parseUrl current.path (current.protocol ++ [58] ++ location)
  else if location.head? = some 47 then some { current with path := normalizeHttpPath location }
  else if location.head? = some 63 then
    some { current with path := queryBase current.path ++ location }
  else some { current with path := joinRelativePath current.path location }

def buildHostHeader (url : ParsedUrl) : Bytes :=
  let defaultPort := (url.protocol = ascii "http" ∧ url.port = 80) ∨
    (url.protocol = ascii "https" ∧ url.port = 443)
  let renderedHost := if Address.isValidIPv6 url.host then [91] ++ url.host ++ [93] else url.host
  if defaultPort then renderedHost else renderedHost ++ [58] ++ toChars 10 url.port

variable {path text : Bytes}

theorem eq_cons_of_slash (hslash : path.head? = some 47) : ∃ rest, path = 47 :: rest := by
  cases path with
  | nil => cases hslash
  | cons c rest => exact ⟨rest,by simpa using hslash⟩

theorem cutQuery_eq (value : Bytes) :
    cutQuery value = (value.takeWhile (· ≠ 63),value.dropWhile (· ≠ 63)) := by
  rcases find_letter 63 value with ⟨hno,hf⟩ | ⟨a,b,rfl,ha,hf⟩
  · have hall : ∀ c ∈ value, decide (c ≠ 63) = true := by
      intro c hc
      simpa using fun heq : c = 63 => hno (heq ▸ hc)
    rw [cutQuery,hf,takeWhile_eq_self_iff.mpr hall,dropWhile_eq_nil_iff.mpr hall]
  · have hall : ∀ c ∈ a, decide (c ≠ 63) = true := by
      intro c hc
      simpa using fun heq : c = 63 => ha (heq ▸ hc)
    rw [cutQuery,hf,takeWhile_append_of_pos hall,dropWhile_append_of_pos hall]
    simp

theorem foldl_pushSegment (segments entered : List Bytes) :
    segments.foldl pushSegment entered =
      (Segments.named segments).foldl (Segments.enter (ascii ".") (ascii "..")) entered := by
  induction segments generalizing entered with
  | nil => rfl
  | cons segment segments ih =>
    rw [foldl_cons,ih]
    by_cases hs : segment = []
    · simp [pushSegment,Segments.named,hs]
    · simp [pushSegment,Segments.named,Segments.enter,hs]

theorem normalizeHttpPath_slash (rest : Bytes) :
    normalizeHttpPath (47 :: rest) =
      47 :: [47].intercalate ((Segments.named ((rest.takeWhile (· ≠ 63)).splitOn 47)).foldl
        (Segments.enter (ascii ".") (ascii "..")) []) ++ rest.dropWhile (· ≠ 63) := by
  have hcut : cutQuery (47 :: rest) =
      (47 :: rest.takeWhile (· ≠ 63),rest.dropWhile (· ≠ 63)) := by
    rw [cutQuery_eq]
    rfl
  simp only [normalizeHttpPath,hcut,Address.splitOn_cons_self,foldl_cons,foldl_pushSegment]
  simp [pushSegment]

theorem cutFragment_cons (c : UInt8) (t : Bytes) :
    cutFragment (c :: t) = if c = 35 then [] else c :: cutFragment t := by
  by_cases hc : c = 35
  · have hf : find [35] (35 :: t) 0 = some 0 := find_cut (a := []) (by simp) t
    simp [cutFragment,hc,hf]
  · have hskip : find [35] (c :: t) 0 = find [35] (c :: t) 1 := by
      refine find_skip (fun j hj hocc => hc ?_)
      obtain rfl : j = 0 := by omega
      simpa using hocc.head
    have hdrop := find_drop [35] (c :: t) 1 0 (by simp)
    rw [Nat.add_zero,drop_one,tail_cons] at hdrop
    rw [cutFragment,hskip,hdrop,cutFragment]
    cases find [35] t 0 with
    | none => simp [hc]
    | some i => simp [hc,Nat.add_comm 1]

def firstSegment (text : Bytes) : Bytes := text.takeWhile (fun c => c ≠ 47 ∧ c ≠ 63)

theorem mem_before_colon {n : Nat} (h : 58 ∉ firstSegment text)
    (hn : text[n]? = some 58) : ∃ c ∈ text.take n, c = 47 ∨ c = 63 := by
  by_contra hno
  have hall : ∀ c ∈ text.take n, decide (c ≠ 47 ∧ c ≠ 63) = true := by
    intro c hc
    simp only [decide_eq_true_eq]
    exact ⟨fun heq => hno ⟨c,hc,.inl heq⟩,fun heq => hno ⟨c,hc,.inr heq⟩⟩
  obtain ⟨hlt,hget⟩ := List.getElem?_eq_some_iff.mp hn
  have hsplit : text = text.take n ++ 58 :: text.drop (n+1) := by
    rw [← hget,← List.drop_eq_getElem_cons hlt,List.take_append_drop]
  rw [firstSegment,hsplit,List.takeWhile_append_of_pos hall] at h
  simp at h

theorem parseUrlWith_of_firstSegment (requestPath : Bytes → Bytes) {url : Bytes}
    (hhead : ∀ c ∈ url.head?, isSpace c = false) (h : 58 ∉ firstSegment url) :
    parseUrlWith requestPath url = none := by
  obtain ⟨rest,hrest⟩ : HttpParser.trim url <+: url := by
    have hdrop : url.dropWhile isSpace = url := by
      cases url with
      | nil => rfl
      | cons c t => exact List.dropWhile_cons_of_neg (by simp [hhead c (by simp)])
    rw [HttpParser.trim,Text.trim,hdrop]
    exact List.rdropWhile_prefix isSpace url
  unfold parseUrlWith
  cases hf : find (ascii "://") (HttpParser.trim url) 0 with
  | none => simp only [hf]
  | some n =>
    have hcolon : (HttpParser.trim url)[n]? = some 58 := (find_spec hf).2.2.1.head
    obtain ⟨hlt,-⟩ := List.getElem?_eq_some_iff.mp hcolon
    have htake : (HttpParser.trim url).take n = url.take n := by
      conv_rhs => rw [← hrest]
      rw [List.take_append_of_le_length (Nat.le_of_lt hlt)]
    rw [← @List.getElem?_append_left _ _ rest _ hlt,hrest] at hcolon
    obtain ⟨c,hc,hmark⟩ := mem_before_colon h hcolon
    have hprot (name : Bytes) (hname : 47 ∉ name ∧ 63 ∉ name) :
        toLowerCopy (url.take n) ≠ name := by
      rintro rfl
      have hmem : toLower c ∈ toLowerCopy (url.take n) := List.mem_map_of_mem hc
      rcases hmark with rfl | rfl
      · exact hname.1 hmem
      · exact hname.2 hmem
    simp only [hf,htake]
    exact if_pos ⟨hprot _ (by decide +kernel),hprot _ (by decide +kernel)⟩

theorem parseUrlWith_of_slash (requestPath : Bytes → Bytes) {url : Bytes}
    (h : url.head? = some 47) : parseUrlWith requestPath url = none := by
  obtain ⟨t,rfl⟩ := eq_cons_of_slash h
  refine parseUrlWith_of_firstSegment requestPath ?_ (by simp [firstSegment])
  intro c hc
  obtain rfl : 47 = c := by simpa using hc
  decide

theorem cutFragment_of_not_mem (h : 35 ∉ text) : cutFragment text = text := by
  simp [cutFragment,find_eq_none_of_not_mem h 0]

theorem buildRequestPath_of_slash (h : path.head? = some 47) (currentPath : Bytes) :
    buildRequestPath currentPath path = normalizeHttpPath (cutFragment path) := by
  have hstar : path ≠ ascii "*" := by
    rintro rfl
    exact absurd h (by decide +kernel)
  have hcut : (cutFragment path).head? = some 47 := by
    obtain ⟨t,rfl⟩ := eq_cons_of_slash h
    simp [cutFragment_cons]
  have habs : parseUrl currentPath (cutFragment path) = none := parseUrlWith_of_slash _ hcut
  obtain ⟨t,ht⟩ := eq_cons_of_slash hcut
  obtain ⟨u,rfl⟩ := eq_cons_of_slash h
  simp only [buildRequestPath,buildRequestPathWith,if_neg hstar,habs]
  simp [ht]

theorem head_requestTarget (url : Bytes) (start : Nat) :
    (requestTarget url (findFirstOf (ascii "/?#") url start)).head? = some 47 ∨
      (requestTarget url (findFirstOf (ascii "/?#") url start)).head? = some 63 := by
  cases hf : findFirstOf (ascii "/?#") url start with
  | none => exact .inl rfl
  | some pathPos =>
    obtain ⟨c,t,hdrop,hmem⟩ : ∃ c t, url.drop pathPos = c :: t ∧ c ∈ ascii "/?#" := by
      unfold findFirstOf at hf
      split at hf
      · obtain ⟨i,hi,rfl⟩ := Option.map_eq_some_iff.mp hf
        obtain ⟨hlt,hc,-⟩ := findIdx?_eq_some_iff_getElem.mp hi
        refine ⟨(url.drop start)[i],(url.drop start).drop (i+1),?_,by simpa using hc⟩
        rw [← drop_drop]
        exact drop_eq_getElem_cons hlt
      · cases hf
    have hmarks : c = 47 ∨ c = 63 ∨ c = 35 := by
      have hlist : ascii "/?#" = [47,63,35] := by decide +kernel
      simpa [hlist] using hmem
    rcases hmarks with hc | hc | hc <;> simp [requestTarget,hdrop,cutFragment_cons,hc]

theorem buildRequestPathWith_of_slash (p q : Bytes → Option Bytes) (currentPath : Bytes)
    {path : Bytes} (hp : ∀ t : Bytes, t.head? = some 47 → p t = none)
    (hq : ∀ t : Bytes, t.head? = some 47 → q t = none) (h : path.head? = some 47) :
    buildRequestPathWith p currentPath path = buildRequestPathWith q currentPath path := by
  have hcut : (cutFragment path).head? = some 47 := by
    obtain ⟨t,rfl⟩ := eq_cons_of_slash h
    simp [cutFragment_cons]
  simp only [buildRequestPathWith,hp _ hcut,hq _ hcut]

theorem parseUrl_eq (currentPath url : Bytes) :
    parseUrl currentPath url = parseUrlWith (buildRequestPath currentPath) url := by
  have hpath (start : Nat) (u : Bytes) :
      let target := requestTarget u (findFirstOf (ascii "/?#") u start)
      (if target.head? = some 63 then 47 :: target
        else buildRequestPathWith (fun _ => none) currentPath target) =
      (if target.head? = some 63 then 47 :: target else buildRequestPath currentPath target) := by
    intro target
    rcases head_requestTarget u start with ht | ht
    · rw [buildRequestPath]
      rw [buildRequestPathWith_of_slash (fun _ => none)
        (fun path => (parseUrl currentPath path).map ParsedUrl.path) currentPath (fun _ _ => rfl)
        (fun t ht => by rw [parseUrl,parseUrlWith_of_slash _ ht]; rfl) ht]
    · rw [if_pos ht,if_pos ht]
  simp only [parseUrl,parseUrlWith,hpath]

theorem toChars_solid (n : Nat) : Address.Solid (toChars 10 n) :=
  fun _ hc => not_isSpace_of_decimalDigit (mem_toChars hc)

theorem buildHostHeader_solid (url : ParsedUrl) : Address.Solid (buildHostHeader url) := by
  have hmark (c : UInt8) (hc : isSpace c = false) : Address.Solid [c] := by
    simpa [Address.Solid] using hc
  have hhost : Address.Solid
      (if Address.isValidIPv6 url.host then [91] ++ url.host ++ [93] else url.host) := by
    by_cases hv : Address.isValidIPv6 url.host = true
    · rw [if_pos hv]
      exact Address.solid_append (Address.solid_append (hmark 91 rfl) url.solid) (hmark 93 rfl)
    · rw [if_neg hv]
      exact url.solid
  simp only [buildHostHeader]
  split
  · exact hhost
  · exact Address.solid_append (Address.solid_append hhost (hmark 58 rfl)) (toChars_solid url.port)

end FastNet.HttpClient
