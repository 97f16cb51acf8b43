import FastNet.StaticFiles

/-!
Requests for a part of a file, and requests with conditions.
-/

namespace FastNet.HttpServer

open Text Ctype Numeral List

/-! ### Ranges -/

def Decimal (digits : Bytes) (n : Nat) : Prop :=
  digits ≠ [] ∧ ∃ ds, digits.mapM decimalDigit = some ds ∧ valueFrom 10 0 ds = n ∧ n ≤ sizeMax

/-- A single range: from one place to another, from a place on, or as many bytes from the
end. -/
inductive ByteRange where
  | between (first last : Nat)
  | behind (first : Nat)
  | suffix (n : Nat)

namespace ByteRange

def Spells (text : Bytes) : ByteRange → Prop
  | .between first last => ∃ s t, Decimal s first ∧ Decimal t last ∧ text = s ++ 45 :: t
  | .behind first => ∃ s, Decimal s first ∧ text = s ++ [45]
  | .suffix n => ∃ t, Decimal t n ∧ text = 45 :: t

def Selects (fileSize p : Nat) : ByteRange → Prop
  | .between first last => first ≤ p ∧ p ≤ last ∧ p < fileSize
  | .behind first => first ≤ p ∧ p < fileSize
  | .suffix n => fileSize ≤ p+n ∧ p < fileSize

end ByteRange

variable {text digits : Bytes} {n fileSize : Nat} {range : ByteRange}

theorem Decimal.digit (h : Decimal digits n) {c : UInt8} (hc : c ∈ digits) : (decimalDigit c).isSome := by
  obtain ⟨-,ds,hds,-⟩ := h
  induction digits generalizing ds with
  | nil => cases hc
  | cons a digits ih =>
    cases ha : decimalDigit a with
    | none => simp [ha] at hds
    | some d =>
      cases hr : digits.mapM decimalDigit with
      | none => simp [ha,hr] at hds
      | some ds' =>
        rcases mem_cons.mp hc with rfl | hc
        · rw [ha]
          rfl
        · exact ih hc ds' hr

theorem Decimal.not_dash (h : Decimal digits n) : 45 ∉ digits :=
  fun hc => (ne_sign_of_decimalDigit (h.digit hc)).1 rfl

theorem Decimal.stoull (h : Decimal digits n) : stoull 10 digits = .ok n := by
  obtain ⟨hne,ds,hds,rfl,hmax⟩ := h
  exact stoull_decimal hds hne hmax

theorem ByteRange.Spells.mem (h : range.Spells text) {c : UInt8} (hc : c ∈ text) :
    (decimalDigit c).isSome ∨ c = 45 := by
  cases range with
  | between first last =>
    obtain ⟨s,t,hs,ht,rfl⟩ := h
    simp only [mem_append,mem_cons] at hc
    rcases hc with hc | hc | hc
    · exact .inl (hs.digit hc)
    · exact .inr hc
    · exact .inl (ht.digit hc)
  | behind first =>
    obtain ⟨s,hs,rfl⟩ := h
    simp only [mem_append,mem_singleton] at hc
    exact hc.imp_left hs.digit
  | suffix n =>
    obtain ⟨t,ht,rfl⟩ := h
    exact (mem_cons.mp hc).symm.imp_left ht.digit

theorem ByteRange.Spells.not_comma (h : range.Spells text) : 44 ∉ text := by
  intro hc
  rcases h.mem hc with hd | hd
  · revert hd
    decide
  · revert hd
    decide

theorem parseRangeHeader_spelled (h : range.Spells text) (hsize : fileSize ≠ 0) :
    parseRangeHeader (ascii "bytes=" ++ text) fileSize = parseRangeSpec text fileSize := by
  have hsolid : ∀ c ∈ ascii "bytes=" ++ text, isSpace c = false := by
    have hunit : ∀ c ∈ ascii "bytes=", isSpace c = false := by decide +kernel
    intro c hc
    rcases mem_append.mp hc with hc | hc
    · exact hunit c hc
    · rcases h.mem hc with hc | rfl
      · exact not_isSpace_of_decimalDigit hc
      · rfl
  have htrim : Text.trim isSpace (ascii "bytes=" ++ text) = ascii "bytes=" ++ text :=
    trim_eq_self _ (fun c hc => hsolid c (mem_of_mem_head? hc))
      (fun c hc => hsolid c (mem_of_mem_getLast? hc))
  have hunit : (ascii "bytes=").length = 6 := by decide +kernel
  have htake : (ascii "bytes=" ++ text).take 6 = ascii "bytes=" := take_left' hunit
  have hdrop : (ascii "bytes=" ++ text).drop 6 = text := drop_left' hunit
  have hguard : ¬ ((ascii "bytes=" ++ text).length < 6 ∨
      (!equalsAsciiIgnoreCase (ascii "bytes=") (ascii "bytes=")) = true) := by
    simp [hunit,equalsAsciiIgnoreCase]
  simp only [parseRangeHeader,htrim,if_neg hsize,htake,if_neg hguard,hdrop]

theorem parseRangeSpec_suffix {t : Bytes} (ht : Decimal t n) (hcomma : 44 ∉ 45 :: t) :
    parseRangeSpec (45 :: t) fileSize =
      if n = 0 then none else some (fileSize-min n fileSize,min n fileSize) := by
  have hfind : find [45] (45 :: t) 0 = some 0 := find_cut not_mem_nil t
  simp only [parseRangeSpec,if_neg hcomma,hfind,drop_one,tail_cons,ht.stoull]

theorem parseRangeSpec_behind {s t : Bytes} {start stop : Nat} (hs : Decimal s start)
    (ht : t = [] ∧ stop = fileSize-1 ∨ Decimal t stop) (hcomma : 44 ∉ s ++ 45 :: t) :
    parseRangeSpec (s ++ 45 :: t) fileSize =
      if fileSize ≤ start ∨ stop < start then none else some (start,min stop (fileSize-1)-start+1) := by
  obtain ⟨k,hk⟩ : ∃ k, s.length = k+1 := Nat.exists_eq_succ_of_ne_zero (by simpa using hs.1)
  have hfind : find [45] (s ++ 45 :: t) 0 = some (k+1) := by
    have hcut := @find_cut _ _ [] _ _ hs.not_dash t
    rwa [append_assoc,hk] at hcut
  have hrest : (s ++ 45 :: t).drop (k+1+1) = t := by
    rw [← hk,← drop_drop,drop_left]
    rfl
  have hstop : (if k+1+1 < (s ++ 45 :: t).length then stoull 10 t else .ok (fileSize-1)) = .ok stop := by
    rcases ht with ⟨rfl,rfl⟩ | ht
    · exact if_neg (by simp [hk])
    · have hpos := length_pos_iff_ne_nil.mpr ht.1
      rw [if_pos (by simp [hk]; omega),ht.stoull]
  simp only [parseRangeSpec,if_neg hcomma,hfind,hrest,hstop,take_left' hk,hs.stoull]

theorem parseRangeSpec_inside {offset length : Nat} (hsize : fileSize ≠ 0)
    (h : parseRangeSpec text fileSize = some (offset,length)) : 1 ≤ length ∧ offset+length ≤ fileSize := by
  unfold parseRangeSpec at h
  repeat' split at h
  all_goals simp only [reduceCtorEq,Option.some.injEq,Prod.mk.injEq] at h
  all_goals omega

/-- A range lies in the file, and a range that is spelled well is the one that it names;
there is none only when it names no place of the file. -/
theorem range_inside (fileSize : Nat) :
    (∀ header offset length, parseRangeHeader header fileSize = some (offset, length) →
      1 ≤ length ∧ offset+length ≤ fileSize) ∧
    ∀ (range : ByteRange) (text : Bytes), range.Spells text →
      match parseRangeHeader (ascii "bytes=" ++ text) fileSize with
      | some (offset, length) => ∀ p, range.Selects fileSize p ↔ offset ≤ p ∧ p < offset+length
      | none => ∀ p, ¬ range.Selects fileSize p := by
  refine ⟨fun header offset length h => ?_,fun range text h => ?_⟩
  · simp only [parseRangeHeader] at h
    split at h
    · cases h
    · rename_i hsize
      split at h
      · cases h
      · exact parseRangeSpec_inside hsize h
  · by_cases hsize : fileSize = 0
    · have hnone : parseRangeHeader (ascii "bytes=" ++ text) fileSize = none := if_pos hsize
      rw [hnone]
      cases range <;> simp [ByteRange.Selects,hsize]
    · rw [parseRangeHeader_spelled h hsize]
      have hcomma := h.not_comma
      cases range with
      | between first last =>
        obtain ⟨s,t,hs,ht,rfl⟩ := h
        rw [parseRangeSpec_behind hs (.inr ht) hcomma]
        by_cases hnone : fileSize ≤ first ∨ last < first
        · simp only [if_pos hnone,ByteRange.Selects]
          omega
        · simp only [if_neg hnone,ByteRange.Selects]
          omega
      | behind first =>
        obtain ⟨s,hs,rfl⟩ := h
        rw [parseRangeSpec_behind hs (.inl ⟨rfl,rfl⟩) hcomma]
        by_cases hnone : fileSize ≤ first ∨ fileSize-1 < first
        · simp only [if_pos hnone,ByteRange.Selects]
          omega
        · simp only [if_neg hnone,ByteRange.Selects]
          omega
      | suffix n =>
        obtain ⟨t,ht,rfl⟩ := h
        rw [parseRangeSpec_suffix ht hcomma]
        by_cases hnone : n = 0
        · simp only [if_pos hnone,ByteRange.Selects]
          omega
        · simp only [if_neg hnone,ByteRange.Selects]
          omega

/-! ### Conditions -/

def tagListed (ifNoneMatch etag : Bytes) : Bool :=
  (ifNoneMatch.splitOn 44).any fun candidate =>
    let token := Text.trim isSpace candidate
    token = ascii "*" || token = etag || token = ascii "W/" ++ etag

theorem serveRange_status (files : FileSystem) (limit : Nat) (request : HttpRequest) (response : HttpResponse)
    (path : Bytes) (fileSize : Nat) (range : Option (Nat × Nat)) :
    (serveRange files limit request response path fileSize range).statusCode ≠ 304 := by
  cases range with
  | none => simp [serveRange]
  | some range =>
    simp only [serveRange]
    repeat' split
    all_goals simp [withFileBody,failToRead,refuse]

/-- A file is asked for with `If-None-Match`. Whether the answer is 304 is a matter of the
tags alone just when a request for a range lists no tag of the file, and any other request
lists one or has not the date of the file in `If-Modified-Since`. -/
theorem none_match_decides_iff {files : FileSystem} {limit : Nat} {cache : ByteMap StaticFileCacheEntry}
    {request : HttpRequest} {response : HttpResponse} {path : Bytes} {time : Int} {fileSize : Nat}
    (htime : files.lastWriteTime path = some time) (hsize : files.fileSize path = some fileSize)
    (hasked : headerValueCaseInsensitiveView request.headers (ascii "If-None-Match") ≠ []) :
    let header := headerValueCaseInsensitiveView request.headers
    let listed := tagListed (header (ascii "If-None-Match")) (buildStaticFileEtag fileSize time)
    ((serveStaticFile files limit cache request response path).1.statusCode = 304 ↔ listed = true) ↔
      if header (ascii "Range") ≠ [] ∧ (request.method = .get ∨ request.method = .head) then listed = false
      else listed = true ∨ header (ascii "If-Modified-Since") = [] ∨
        header (ascii "If-Modified-Since") ≠ files.formatFileTime time := by
  intro header listed
  by_cases hrange : header (ascii "Range") ≠ [] ∧ (request.method = .get ∨ request.method = .head)
  · have hstatus : (serveStaticFile files limit cache request response path).1.statusCode ≠ 304 := by
      simp only [serveStaticFile,htime,hsize]
      rw [if_pos hrange]
      exact serveRange_status files limit request _ path fileSize _
    rw [if_pos hrange]
    simp [hstatus]
  · have hstatus : (serveStaticFile files limit cache request response path).1.statusCode = 304 ↔
        isNotModified request (buildStaticFileEtag fileSize time) (files.formatFileTime time) = true := by
      simp only [serveStaticFile,htime,hsize]
      rw [if_neg hrange]
      split
      · rename_i hnot
        simp [hnot]
      · rename_i hnot
        simp only [hnot]
        repeat' split
        all_goals simp [withFileBody,failToRead,refuse]
    rw [hstatus,if_neg hrange]
    simp only [isNotModified,listed,tagListed,header]
    grind

def oneFile : FileSystem where
  weaklyCanonical := some
  isRegularFile _ := some true
  lastWriteTime _ := some 7
  fileSize _ := some 2
  content _ := some (ascii "hi")
  formatFileTime _ := ascii "Mon"

def conditional (ifNoneMatch : Bytes) : HttpRequest where
  headers := ((∅ : ByteMap Bytes).insert (ascii "If-None-Match") ifNoneMatch).insert
    (ascii "If-Modified-Since") (ascii "Mon")

/-- The tag has changed, and the date has not. -/
theorem none_match_overruled :
    tagListed (ascii "\"1-6\"") (buildStaticFileEtag 2 7) = false ∧
      (serveStaticFile oneFile 0 ∅ (conditional (ascii "\"1-6\"")) {} (ascii "/a")).1.statusCode = 304 := by
  decide +kernel

theorem none_match_decides_listed :
    tagListed (ascii "x, W/\"2-7\"") (buildStaticFileEtag 2 7) = true ∧
      (serveStaticFile oneFile 0 ∅ (conditional (ascii "x, W/\"2-7\"")) {} (ascii "/a")).1.statusCode = 304 := by
  have hlisted : tagListed (ascii "x, W/\"2-7\"") (buildStaticFileEtag 2 7) = true := by decide +kernel
  refine ⟨hlisted,((@none_match_decides_iff oneFile 0 ∅ (conditional (ascii "x, W/\"2-7\"")) {} (ascii "/a") 7 2
    rfl rfl (by decide +kernel)).mpr (by decide +kernel)).mpr ?_⟩
  decide +kernel

end FastNet.HttpServer
