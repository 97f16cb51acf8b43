import FastNet.Segments
import FastNet.StaticFiles

/-!
How `HttpServer` finds the handler of a request. Handlers are registered under a
normalised path, and the path of a request is normalised by another function; static
files are registered under paths of which the longest one is used.
-/

namespace FastNet.HttpServer

open Text List

section Paths

variable {path : Bytes}

section

variable (h : path.head? = some 47)
include h

theorem normalizePath_of_slash : normalizePath path = withSlashes path := by
  have hstar : path ≠ ascii "*" := by
    rintro rfl
    revert h
    decide +kernel
  have hne : path ≠ [] := by
    rintro rfl
    cases h
  rw [normalizePath,if_neg hstar,if_neg hne]

theorem withSlashes_append_slashes (n : Nat) :
    withSlashes (path ++ replicate n 47) = withSlashes path := by
  have hhead : (path ++ replicate n 47).head? = some 47 := by
    rw [head?_append,h]
    rfl
  have hdrop := @Segments.rdropWhile_append_of_all UInt8 (· = 47) path (replicate n 47)
    (fun x hx => by simp [eq_of_mem_replicate hx])
  simp only [withSlashes,if_pos hhead,if_pos h,hdrop]

theorem withSlashes_eq :
    withSlashes path = if path.rdropWhile (· = 47) = [] then [47] else path.rdropWhile (· = 47) := by
  simp only [withSlashes,if_pos h]
  split
  · rename_i hnil
    rw [if_pos hnil]
  · rename_i hne
    rw [if_neg (fun hnil => hne hnil)]

theorem normalizeRequestPath_of_plain (hplain : find (ascii "://") path 0 = none) : normalizeRequestPath path = withSlashes path := by
  have hstar : path ≠ ascii "*" := by
    rintro rfl
    revert h
    decide +kernel
  have hne : path ≠ [] := by
    rintro rfl
    cases h
  simp only [normalizeRequestPath,if_neg hstar,hplain,if_neg hne]

theorem normalizeRequestPath_of_scheme {schemePos : Nat}
    (hsch : find (ascii "://") path 0 = some schemePos) :
    normalizeRequestPath path ≠ withSlashes path := by
  have hstar : path ≠ ascii "*" := by
    rintro rfl
    revert h
    decide +kernel
  obtain ⟨slashes,hsplit,hslas⟩ := @Segments.rdropWhile_split UInt8 (· = 47) path
  obtain ⟨kept,hkept⟩ : ∃ kept, kept = path.rdropWhile (· = 47) := ⟨_,rfl⟩
  rw [← hkept] at hsplit
  -- the colon of the scheme is not among the slashes at the end
  have hcolon : path[schemePos]? = some 58 := by
    have hocc := (find_spec hsch).2.2.1
    have hascii : ascii "://" = [58,47,47] := by decide +kernel
    rw [hascii] at hocc
    exact hocc.head
  have hlt : schemePos < kept.length := by
    by_contra hge
    rw [hsplit,getElem?_append_right (by omega)] at hcolon
    have hmem := mem_of_getElem? hcolon
    simpa using hslas 58 hmem
  have hlong : kept ≠ [47] := by
    intro heq
    have hzero : schemePos = 0 := by
      rw [heq] at hlt
      simpa using hlt
    rw [hzero,← head?_eq_getElem?,h] at hcolon
    cases hcolon
  have hwhole : withSlashes path = kept := by
    rw [withSlashes_eq h,← hkept,if_neg]
    rintro rfl
    simp at hlt
  have hroot : withSlashes [47] = [47] := by decide +kernel
  rw [hwhole]
  simp only [normalizeRequestPath,if_neg hstar,hsch]
  cases hfind : find [47] path (schemePos+3) with
  | none =>
    simp only [cons_ne_nil,if_false,hroot]
    exact hlong.symm
  | some pathPos =>
    obtain ⟨hpos,hlen,hocc,-⟩ := find_spec hfind
    have hhead : (path.drop pathPos).head? = some 47 := by
      rw [head?_drop]
      exact hocc.head
    have hne : path.drop pathPos ≠ [] := by
      intro hnil
      rw [hnil] at hhead
      cases hhead
    simp only [if_neg hne]
    rw [withSlashes_eq hhead]
    split
    · exact hlong.symm
    · intro heq
      have hdrop : (path.drop pathPos).rdropWhile (· = 47) = (kept.drop pathPos).rdropWhile (· = 47) := by
        rw [hsplit,drop_append]
        exact Segments.rdropWhile_append_of_all _ (fun x hx => hslas x (mem_of_mem_drop hx))
      have hle := ( rdropWhile_prefix (fun x : UInt8 => decide (x = 47)) (kept.drop pathPos)).length_le
      rw [← hdrop,heq,length_drop] at hle
      omega

end

end Paths

section Dispatch

structure RouteKey where
  method : HttpMethod
  path : Bytes
  deriving DecidableEq

/-- A handler writes to a response that has been prepared for it. -/
abbrev RequestHandler := HttpRequest → HttpResponse → HttpResponse

def Normal (path : Bytes) : Prop := normalizePath path = path

instance (path : Bytes) : Decidable (Normal path) := inferInstanceAs (Decidable (normalizePath path = path))

structure Routes where
  handlers : RouteKey → Option RequestHandler := fun _ => none
  defaultHandler : Option RequestHandler := none
  staticFileHandlers : ByteMap Bytes := ∅
  staticFileCacheLimit : Nat := 256*1024
  normal : ∀ pathPrefix directory, staticFileHandlers[pathPrefix]? = some directory → Normal pathPrefix :=
    by simp

theorem normal_normalizePath (path : Bytes) : Normal (normalizePath path) := by
  by_cases hstar : path = ascii "*"
  · rw [hstar]
    decide +kernel
  · by_cases hnil : path = []
    · rw [hnil]
      decide +kernel
    · have hslash : normalizePath path = normalizePath (if path.head? = some 47 then path else 47 :: path) := by
        split
        · rfl
        · rename_i hhead
          rw [@normalizePath_of_slash (47 :: path) rfl,normalizePath,if_neg hstar,if_neg hnil]
          simp [withSlashes,hhead]
      obtain ⟨slashed,hslas⟩ : ∃ slashed, slashed = if path.head? = some 47 then path else 47 :: path :=
        ⟨_,rfl⟩
      have hhead : slashed.head? = some 47 := by
        rw [hslas]
        split
        · assumption
        · rfl
      rw [hslash,← hslas,Normal,normalizePath_of_slash hhead,withSlashes_eq hhead]
      split
      · decide +kernel
      · rename_i hne
        have hkept : (slashed.rdropWhile (· = 47)).head? = some 47 := by
          obtain ⟨t,ht⟩ := rdropWhile_prefix (fun x : UInt8 => decide (x = 47)) slashed
          obtain ⟨c,kept,hkept⟩ := exists_cons_of_ne_nil hne
          rw [hkept] at ht ⊢
          rw [← ht] at hhead
          exact hhead
        rw [normalizePath_of_slash hkept,withSlashes_eq hkept,rdropWhile_idempotent,if_neg hne]

namespace Routes

def registerHandler (routes : Routes) (path : Bytes) (method : HttpMethod) (handler : RequestHandler) :
    Routes :=
  { routes with
    handlers := fun key => if key = ⟨method,normalizePath path⟩ then some handler else routes.handlers key }

/-- `registerStaticFileHandler`; the cache is cleared with it. -/
def registerStaticFileHandler (routes : Routes) (pathPrefix directory : Bytes) : Routes :=
  { routes with
    staticFileHandlers := routes.staticFileHandlers.insert (normalizePath pathPrefix) directory
    normal := by
      intro other directory' h
      rw [Std.ExtTreeMap.getElem?_insert] at h
      split at h
      · rename_i heq
        rw [← Std.LawfulEqCmp.eq_of_compare heq]
        exact normal_normalizePath pathPrefix
      · exact routes.normal other directory' h }

def setRequestHandler (routes : Routes) (handler : Option RequestHandler) : Routes :=
  { routes with defaultHandler := handler }

end Routes

def matchesPrefix (pathPrefix normalizedPath : Bytes) : Bool :=
  pathPrefix.isPrefixOf normalizedPath &&
    (pathPrefix = [47] || normalizedPath = pathPrefix || (pathPrefix ++ [47]).isPrefixOf normalizedPath)

def chooseStatic (normalizedPath : Bytes) (best : Option StaticFileHandlerBinding) (e : Bytes × Bytes) :
    Option StaticFileHandlerBinding :=
  if !matchesPrefix e.1 normalizedPath then best
  else
    match best with
    | none => some ⟨e.1,e.2⟩
    | some binding => if binding.pathPrefix.length < e.1.length then some ⟨e.1,e.2⟩ else some binding

namespace Routes

def staticFileHandler (routes : Routes) (normalizedPath : Bytes) : Option StaticFileHandlerBinding :=
  routes.staticFileHandlers.toList.foldl (chooseStatic normalizedPath) none

def prepared : HttpResponse :=
  { statusCode := 200, statusMessage := ascii "OK",
    headers := (∅ : ByteMap Bytes).insert (ascii "Server") (ascii "FastNet-HttpServer/2.0") }

/-- `HttpServer::Impl::dispatchRequest`; `none` is an exception of the file system. -/
def dispatchRequest (routes : Routes) (files : FileSystem) (cache : ByteMap StaticFileCacheEntry)
    (request : HttpRequest) : Option Reply :=
  let normalizedPath := normalizePath request.path
  match routes.handlers ⟨request.method,normalizedPath⟩ with
  | some exactHandler => some { response := exactHandler request prepared, cache }
  | none =>
    match routes.staticFileHandler normalizedPath with
    | some binding =>
      handleStaticFileRequest files routes.staticFileCacheLimit cache binding request prepared
    | none =>
      match routes.defaultHandler with
      | some defaultHandler => some { response := defaultHandler request prepared, cache }
      | none =>
        some { response := refuse prepared 404 (ascii "Not Found") (ascii "404 Not Found"), cache }

end Routes

theorem splitTarget_path {path : Bytes} (hquery : 63 ∉ path) (hfrag : 35 ∉ path) {query : Option Bytes}
    {target : ByteView} (h : target.text = path ++ query.elim [] (63 :: ·)) :
    (HttpParser.splitTarget target).1.text = path := by
  cases query with
  | none =>
    rw [Option.elim_none,append_nil] at h
    have hnone : find [35] target.text 0 = none := find_eq_none_of_not_mem (h ▸ hfrag) 0
    have hnone' : find [63] target.text 0 = none := find_eq_none_of_not_mem (h ▸ hquery) 0
    simp only [HttpParser.splitTarget,hnone,hnone']
    exact h
  | some query =>
    rw [Option.elim_some] at h
    simp only [HttpParser.splitTarget]
    cases hf : find [35] target.text 0 with
    | none =>
      have hcut : find [63] target.text 0 = some path.length := by
        rw [h]
        exact find_mark hquery query
      simp only [hcut]
      rw [View.sub_text,h,drop_zero,take_left]
    | some fragmentPos =>
      -- the fragment begins behind the question mark
      have hpos : path.length < fragmentPos := by
        have hocc := (find_spec hf).2.2.1.head
        rw [h] at hocc
        by_contra hle
        rcases Nat.lt_or_ge fragmentPos path.length with hlt | hge
        · rw [getElem?_append_left hlt] at hocc
          exact hfrag (mem_of_getElem? hocc)
        · obtain rfl : fragmentPos = path.length := by omega
          simp at hocc
      have htext : (target.sub 0 fragmentPos).text =
          path ++ 63 :: query.take (fragmentPos-path.length-1) := by
        rw [View.sub_text,drop_zero,h,take_append,take_of_length_le (by omega)]
        obtain ⟨k,hk⟩ : ∃ k, fragmentPos-path.length = k+1 := ⟨fragmentPos-path.length-1,by omega⟩
        rw [hk,take_succ_cons]
        rfl
      have hcut : find [63] (target.sub 0 fragmentPos).text 0 = some path.length := by
        rw [htext]
        exact find_mark hquery _
      simp only [hcut]
      rw [View.sub_text,htext,drop_zero,take_left]

/-- A handler is reached by its own path, with any slashes at the end and with any query,
exactly when no scheme is found in the path. -/
theorem own_path_reached_iff {path : Bytes} (hslash : path.head? = some 47) (hquery : 63 ∉ path)
    (hfragment : 35 ∉ path) (k n : Nat) (query : Option Bytes) :
    (normalizeRequestPath (path ++ List.replicate n 47) = normalizePath (path ++ List.replicate k 47) ∧
      ∀ (routes : Routes) (files : FileSystem) (cache : ByteMap StaticFileCacheEntry) (method : HttpMethod)
        (handler : RequestHandler) (view : HttpRequestView) (address : Address) (request : HttpRequest),
        view.target.text = path ++ List.replicate n 47 ++ query.elim [] (63 :: ·) →
        view.uri = (HttpParser.splitTarget view.target).1 → buildRequest view method address = .ret request →
        (routes.registerHandler (path ++ List.replicate k 47) method handler).dispatchRequest files cache
          request = some { response := handler request Routes.prepared, cache }) ↔
    find (ascii "://") (path ++ List.replicate n 47) 0 = none := by
  have hhead (n : Nat) : (path ++ List.replicate n 47).head? = some 47 := by
    rw [List.head?_append,hslash]
    rfl
  have hreg : normalizePath (path ++ List.replicate k 47) = withSlashes path := by
    rw [normalizePath_of_slash (hhead k),withSlashes_append_slashes hslash]
  constructor
  · rintro ⟨hsame,-⟩
    cases hfind : find (ascii "://") (path ++ List.replicate n 47) 0 with
    | none => rfl
    | some schemePos =>
      have hne := normalizeRequestPath_of_scheme (hhead n) hfind
      rw [withSlashes_append_slashes hslash,← hreg] at hne
      exact absurd hsame hne
  · intro hplain
    have hsame : normalizeRequestPath (path ++ List.replicate n 47) =
        normalizePath (path ++ List.replicate k 47) := by
      rw [normalizeRequestPath_of_plain (hhead n) hplain,withSlashes_append_slashes hslash,hreg]
    refine ⟨hsame,?_⟩
    intro routes files cache method handler view address request htar huri hbuild
    obtain ⟨hmet,hpath,-,-⟩ := buildRequest_fields hbuild
    have hslas {c : UInt8} (hc : c ≠ 47) (hnot : c ∉ path) : c ∉ path ++ List.replicate n 47 := by
      simp [hc,hnot]
    rw [huri,splitTarget_path (hslas (by decide) hquery) (hslas (by decide) hfragment) htar,hsame] at hpath
    have hkey : normalizePath request.path = normalizePath (path ++ List.replicate k 47) := by
      rw [hpath]
      exact normal_normalizePath _
    simp only [Routes.dispatchRequest,Routes.registerHandler,hmet,hkey,if_true]

theorem own_path_reached_api :
    normalizeRequestPath (ascii "/api/users//") = normalizePath (ascii "/api/users/") := by
  have h := (@own_path_reached_iff (ascii "/api/users") (by decide +kernel) (by decide +kernel)
    (by decide +kernel) 1 2 (some (ascii "id=1"))).mpr (by decide +kernel)
  have hone : ascii "/api/users" ++ List.replicate 1 47 = ascii "/api/users/" := by decide +kernel
  have htwo : ascii "/api/users" ++ List.replicate 2 47 = ascii "/api/users//" := by decide +kernel
  rw [hone,htwo] at h
  exact h.1

/-- A path with a URL in it: the request for the path that has been registered is
dispatched as one for what stands behind the host of that URL. -/
theorem own_path_missed :
    let path := ascii "/proxy/http://host/x"
    normalizePath path = path ∧ normalizeRequestPath path = ascii "/x" ∧
      ∀ (files : FileSystem) (handler : RequestHandler),
        ((Routes.registerHandler {} path .get handler).dispatchRequest files ∅
          { path := normalizeRequestPath path }).map (fun reply => reply.response.statusCode) = some 404 := by
  refine ⟨by decide +kernel,by decide +kernel,?_⟩
  intro files handler
  have hpath : normalizeRequestPath (ascii "/proxy/http://host/x") = ascii "/x" := by decide +kernel
  have hkey : normalizePath (ascii "/x") ≠ normalizePath (ascii "/proxy/http://host/x") := by decide +kernel
  have hstat : (∅ : ByteMap Bytes).toList.foldl (chooseStatic (normalizePath (ascii "/x"))) none = none := by
    decide +kernel
  simp [Routes.dispatchRequest,Routes.registerHandler,hpath,hkey,Routes.staticFileHandler,hstat,refuse]

end Dispatch

section StaticFiles

def segments (path : Bytes) : List Bytes := if path = [47] then [[]] else path.splitOn 47

def AtBoundary (pathPrefix path : Bytes) : Prop := segments pathPrefix <+: segments path

theorem Normal.cases {path : Bytes} (h : Normal path) : path = ascii "*" ∨ path.head? = some 47 := by
  by_cases hstar : path = ascii "*"
  · exact .inl hstar
  · right
    rw [Normal,normalizePath,if_neg hstar] at h
    split at h
    · rw [← h]
      rfl
    · unfold withSlashes at h
      simp only at h
      split at h
      · rw [← h]
        rfl
      · have hpre := rdropWhile_prefix (fun x : UInt8 => decide (x = 47))
          (if path.head? = some 47 then path else 47 :: path)
        rw [h] at hpre
        by_cases hhead : path.head? = some 47
        · exact hhead
        · -- a path to which a slash was added is longer than what is left of it
          rw [if_neg hhead] at hpre
          cases path with
          | nil => contradiction
          | cons c path =>
            rw [cons_prefix_cons] at hpre
            rw [hpre.1]
            rfl

theorem Normal.ne_nil {path : Bytes} (h : Normal path) : path ≠ [] := by
  rintro rfl
  revert h
  decide +kernel

theorem segments_cons {path : Bytes} (h : path.head? = some 47) : ∃ rest, segments path = [] :: rest := by
  obtain ⟨t,rfl⟩ : ∃ t, path = 47 :: t := by
    cases path with
    | nil => cases h
    | cons c t => exact ⟨t,by rw [Option.some.inj h]⟩
  unfold segments
  split
  · exact ⟨[],rfl⟩
  · exact ⟨_,Address.splitOn_cons_self 47 t⟩

theorem matchesPrefix_iff {pathPrefix path : Bytes} (hfront : Normal pathPrefix) (hpath : Normal path) :
    matchesPrefix pathPrefix path = true ↔ AtBoundary pathPrefix path := by
  unfold AtBoundary
  simp only [matchesPrefix,Bool.and_eq_true,Bool.or_eq_true,decide_eq_true_eq, isPrefixOf_iff_prefix]
  by_cases hroot : pathPrefix = [47]
  · subst hroot
    have hseg : segments [47] = [[]] := rfl
    rw [hseg]
    constructor
    · rintro ⟨hfront,-⟩
      obtain ⟨t,ht⟩ := hfront
      obtain ⟨rest,hrest⟩ := @segments_cons path (by rw [← ht]; rfl)
      rw [hrest]
      exact cons_prefix_cons.mpr ⟨rfl, nil_prefix⟩
    · intro hfront
      refine ⟨?_,.inl (.inl rfl)⟩
      rcases hpath.cases with rfl | hhead
      · revert hfront
        decide +kernel
      · obtain ⟨c,t,rfl⟩ := exists_cons_of_ne_nil hpath.ne_nil
        rw [head?_cons,Option.some.injEq] at hhead
        rw [hhead]
        exact cons_prefix_cons.mpr ⟨rfl, nil_prefix⟩
  · have hseg : segments pathPrefix = pathPrefix.splitOn 47 := if_neg hroot
    constructor
    · rintro ⟨-,(hroot' | rfl) | hfront⟩
      · exact absurd hroot' hroot
      · exact prefix_rfl
      · obtain ⟨t,rfl⟩ := hfront
        have hlong : pathPrefix ++ [47] ++ t ≠ [47] := by
          intro heq
          have hlen := congrArg length heq
          have hpos := length_pos_iff.mpr hfront.ne_nil
          simp only [length_append,length_cons,length_nil] at hlen
          omega
        have hlon : segments (pathPrefix ++ [47] ++ t) = pathPrefix.splitOn 47 ++ t.splitOn 47 := by
          rw [segments,if_neg hlong,append_assoc,singleton_append,splitOn_append_cons_self]
        rw [hlon,hseg]
        exact prefix_append _ _
    · intro hfront
      rw [hseg] at hfront
      obtain ⟨rest,hrest⟩ := hfront
      have hne : pathPrefix.splitOn 47 ≠ [] := splitOn_ne_nil _ _
      have hjoin : [47].intercalate (pathPrefix.splitOn 47 ++ rest) = path := by
        by_cases hpathRoot : path = [47]
        · -- the one segment of the root is the empty one, which no registered path has
          rw [hpathRoot] at hrest
          have hone : pathPrefix.splitOn 47 = [[]] := by
            have hlen := congrArg length hrest
            have hpos := length_pos_iff.mpr hne
            have hroot' : segments [47] = [[]] := rfl
            rw [hroot'] at hrest hlen
            simp only [length_append,length_cons,length_nil] at hlen
            have hnil : rest = [] := length_eq_zero_iff.mp (by omega)
            rwa [hnil,append_nil] at hrest
          have hempty := @intercalate_splitOn _ pathPrefix _ _ 47
          rw [hone] at hempty
          exact absurd hempty.symm hfront.ne_nil
        · rw [hrest,segments,if_neg hpathRoot,intercalate_splitOn]
      by_cases hnil : rest = []
      · rw [hnil,append_nil,intercalate_splitOn] at hjoin
        rw [hjoin]
        exact ⟨prefix_rfl,.inl (.inr rfl)⟩
      · rw [Segments.intercalate_append hne hnil,intercalate_splitOn] at hjoin
        refine ⟨?_,.inr ⟨_,hjoin⟩⟩
        rw [← hjoin,append_assoc]
        exact prefix_append _ _

structure Best (normalizedPath : Bytes) (seen : List (Bytes × Bytes))
    (best : Option StaticFileHandlerBinding) : Prop where
  found : ∀ binding, best = some binding →
    (binding.pathPrefix,binding.directory) ∈ seen ∧ matchesPrefix binding.pathPrefix normalizedPath = true
  longest : ∀ e ∈ seen, matchesPrefix e.1 normalizedPath = true →
    ∃ binding, best = some binding ∧ e.1.length ≤ binding.pathPrefix.length

theorem Best.step {normalizedPath : Bytes} {seen : List (Bytes × Bytes)}
    {best : Option StaticFileHandlerBinding} (h : Best normalizedPath seen best) (e : Bytes × Bytes) :
    Best normalizedPath (seen ++ [e]) (chooseStatic normalizedPath best e) := by
  unfold chooseStatic
  cases hmatch : matchesPrefix e.1 normalizedPath with
  | false =>
    refine ⟨fun binding hbest => ?_,fun e' he' hmatch' => ?_⟩
    · obtain ⟨hmem,hfront⟩ := h.found binding hbest
      exact ⟨mem_append_left _ hmem,hfront⟩
    · rcases mem_append.mp he' with he' | he'
      · exact h.longest e' he' hmatch'
      · rw [mem_singleton.mp he',hmatch] at hmatch'
        cases hmatch'
  | true =>
    cases best with
    | none =>
      refine ⟨fun binding hbest => ?_,fun e' he' hmatch' => ?_⟩
      · cases hbest
        exact ⟨by simp,hmatch⟩
      · rcases mem_append.mp he' with he' | he'
        · obtain ⟨binding,hbest,-⟩ := h.longest e' he' hmatch'
          cases hbest
        · rw [mem_singleton.mp he']
          exact ⟨_,rfl,Nat.le_refl _⟩
    | some binding =>
      obtain ⟨hmem,hfront⟩ := h.found binding rfl
      by_cases hlon : binding.pathPrefix.length < e.1.length
      · simp only [Bool.not_true,Bool.false_eq_true,if_false,if_pos hlon]
        refine ⟨fun binding' hbest => ?_,fun e' he' hmatch' => ?_⟩
        · cases hbest
          exact ⟨by simp,hmatch⟩
        · rcases mem_append.mp he' with he' | he'
          · obtain ⟨binding',hbest,hle⟩ := h.longest e' he' hmatch'
            cases hbest
            exact ⟨_,rfl,Nat.le_of_lt (Nat.lt_of_le_of_lt hle hlon)⟩
          · rw [mem_singleton.mp he']
            exact ⟨_,rfl,Nat.le_refl _⟩
      · simp only [Bool.not_true,Bool.false_eq_true,if_false,if_neg hlon]
        refine ⟨fun binding' hbest => ?_,fun e' he' hmatch' => ?_⟩
        · cases hbest
          exact ⟨mem_append_left _ hmem,hfront⟩
        · rcases mem_append.mp he' with he' | he'
          · exact h.longest e' he' hmatch'
          · rw [mem_singleton.mp he']
            exact ⟨binding,rfl,by omega⟩

theorem best_foldl (normalizedPath : Bytes) (registered : List (Bytes × Bytes)) :
    Best normalizedPath registered (registered.foldl (chooseStatic normalizedPath) none) := by
  induction registered using reverseRecOn with
  | nil => exact ⟨by simp,by simp⟩
  | append_singleton registered e ih =>
    rw [foldl_append]
    exact ih.step e

namespace Routes

variable {routes : Routes} {path : Bytes}

def Longest (routes : Routes) (path : Bytes) (binding : StaticFileHandlerBinding) : Prop :=
  routes.staticFileHandlers[binding.pathPrefix]? = some binding.directory ∧
    AtBoundary binding.pathPrefix path ∧
    ∀ (pathPrefix directory : Bytes), routes.staticFileHandlers[pathPrefix]? = some directory →
      AtBoundary pathPrefix path → pathPrefix.length ≤ binding.pathPrefix.length

theorem staticFileHandler_iff (hpath : Normal path) {binding : StaticFileHandlerBinding} :
    routes.staticFileHandler path = some binding ↔ routes.Longest path binding := by
  have hbest := best_foldl path routes.staticFileHandlers.toList
  have hmem {pathPrefix directory : Bytes} :
      (pathPrefix,directory) ∈ routes.staticFileHandlers.toList ↔
        routes.staticFileHandlers[pathPrefix]? = some directory :=
    Std.ExtTreeMap.mem_toList_iff_getElem?_eq_some
  constructor
  · intro h
    obtain ⟨hreg,hmatch⟩ := hbest.found binding h
    rw [hmem] at hreg
    refine ⟨hreg,(matchesPrefix_iff (routes.normal _ _ hreg) hpath).mp hmatch,?_⟩
    intro pathPrefix directory hother hboun
    obtain ⟨binding',hbin,hle⟩ := hbest.longest (pathPrefix,directory) (hmem.mpr hother)
      ((matchesPrefix_iff (routes.normal _ _ hother) hpath).mpr hboun)
    obtain rfl : binding' = binding := Option.some.inj (hbin.symm.trans h)
    exact hle
  · rintro ⟨hreg,hboun,hlon⟩
    have hmatch := (matchesPrefix_iff (routes.normal _ _ hreg) hpath).mpr hboun
    obtain ⟨found,hfound,hle⟩ := hbest.longest (binding.pathPrefix,binding.directory)
      (hmem.mpr hreg) hmatch
    obtain ⟨hre,hmatch'⟩ := hbest.found found hfound
    rw [hmem] at hre
    have hge := hlon _ _ hre ((matchesPrefix_iff (routes.normal _ _ hre) hpath).mp hmatch')
    -- two fronts of one path that are of one length are the same
    have hfront {pathPrefix : Bytes} (hm : matchesPrefix pathPrefix path = true) : pathPrefix <+: path := by
      simp only [matchesPrefix,Bool.and_eq_true, isPrefixOf_iff_prefix] at hm
      exact hm.1
    have hsame : found.pathPrefix = binding.pathPrefix :=
      (prefix_of_prefix_length_le (hfront hmatch') (hfront hmatch) hge).eq_of_length
        (Nat.le_antisymm hge hle)
    rw [hsame,hreg,Option.some.injEq] at hre
    have heq : found = binding := by
      cases found
      cases binding
      simp only [StaticFileHandlerBinding.mk.injEq]
      exact ⟨hsame,hre.symm⟩
    rw [← heq]
    exact hfound

/-- The static files that answer a request are those of the longest registered path, and a
file is served only from below the directory registered with it: its canonical path begins
with the components of the canonical directory, and no other file has any influence on the
answer. -/
theorem static_files_contained (routes : Routes) (files : FileSystem)
    (cache : ByteMap StaticFileCacheEntry) (request : HttpRequest) :
    (∀ binding, routes.staticFileHandler (normalizePath request.path) = some binding ↔
      routes.Longest (normalizePath request.path) binding) ∧
    (∀ reply file, routes.dispatchRequest files cache request = some reply → reply.file = some file →
      ∃ binding base, routes.Longest (normalizePath request.path) binding ∧
        files.weaklyCanonical binding.directory = some base ∧
        files.weaklyCanonical (requestedPath binding request) = some file ∧
        components base <+: components file) ∧
    (∀ files', (∀ binding, routes.Longest (normalizePath request.path) binding →
        SameBelow files files' binding.directory) →
      routes.dispatchRequest files' cache request = routes.dispatchRequest files cache request) := by
  have hlon (binding : StaticFileHandlerBinding) :=
    @staticFileHandler_iff routes _ (normal_normalizePath request.path) binding
  refine ⟨hlon,?_,?_⟩
  · intro reply file hreply hfile
    unfold dispatchRequest at hreply
    simp only at hreply
    split at hreply
    · cases hreply
      cases hfile
    · split at hreply
      · rename_i binding hbin
        obtain ⟨located,hloc,rfl⟩ := Option.map_eq_some_iff.mp hreply
        cases located with
        | error refused => cases hfile
        | ok canonicalPath =>
          cases hfile
          obtain ⟨base,hbase,hcan,hbelow⟩ := locateStaticFile_ok hloc
          exact ⟨binding,base,(hlon binding).mp hbin,hbase,hcan,hbelow⟩
      · split at hreply
        · cases hreply
          cases hfile
        · cases hreply
          cases hfile
  · intro files' hsame
    unfold dispatchRequest
    simp only
    split
    · rfl
    · cases hbin : routes.staticFileHandler (normalizePath request.path) with
      | none => rfl
      | some binding =>
        exact handleStaticFileRequest_congr (hsame binding ((hlon binding).mp hbin)) _ _ _ _

example :
    let files : FileSystem :=
      { weaklyCanonical := some, isRegularFile := fun _ => some true, lastWriteTime := fun _ => some 0,
        fileSize := fun _ => some 2, content := fun _ => some (ascii "hi"), formatFileTime := fun _ => [] }
    let routes := (registerStaticFileHandler {} (ascii "/") (ascii "/srv")).registerStaticFileHandler
      (ascii "/static/") (ascii "/var/www")
    (routes.dispatchRequest files ∅ { path := ascii "/static/a.txt" }).map
      (fun reply => (reply.file, reply.response.body)) = some (some (ascii "/var/www/a.txt"), ascii "hi") := by
  decide +kernel

end Routes

end StaticFiles

end FastNet.HttpServer
