import FastNet.RelativeReference

/-!
Paths in normal form: what `normalizeHttpPath` makes of a path, and which paths
`buildRequestPath` sends as they are.
-/

namespace FastNet.HttpClient

open List Segments

variable {text query : Bytes} {segments : List Bytes}

structure Ordinary (segment : Bytes) : Prop where
  ne_nil : segment ≠ []
  ne_here : segment ≠ ascii "."
  ne_up : segment ≠ ascii ".."
  slash : 47 ∉ segment
  mark : 63 ∉ segment

/-- The segments of a path that are left when its dot segments have been followed. -/
def survivors (path : Bytes) : List Bytes :=
  (named (pathSegments path)).foldl (enter (ascii ".") (ascii "..")) []

theorem normalizeHttpPath_rooted (h : Rooted text) :
    normalizeHttpPath text = 47 :: [47].intercalate (survivors (pathOf text)) ++ queryOf text := by
  obtain ⟨rest,rfl⟩ := eq_cons_of_slash h
  exact normalizeHttpPath_slash rest

theorem mem_of_mem_pathSegments {path segment : Bytes} {c : UInt8} (hs : segment ∈ pathSegments path)
    (hc : c ∈ segment) : c ∈ path := by
  have hmem := @mem_intercalate_of_mem _ 47 _ _ _ hs hc
  rw [pathSegments,intercalate_splitOn] at hmem
  exact mem_of_mem_tail hmem

theorem ordinary_of_survivors {segment : Bytes} (h : segment ∈ survivors (pathOf text)) : Ordinary segment := by
  have hnamed := mem_of_mem_entered h
  have hsegment := mem_of_mem_filter hnamed
  obtain ⟨hhere,hup⟩ := ne_dots_of_mem_entered h
  refine ⟨by simpa using of_mem_filter hnamed,hhere,hup,not_mem_of_mem_splitOn hsegment,fun hmark => ?_⟩
  simpa using mem_takeWhile_imp (mem_of_mem_pathSegments hsegment hmark)

theorem survivors_of_named (h : ∀ s ∈ segments, Ordinary s) {path : Bytes}
    (hpath : named (pathSegments path) = segments) : survivors path = segments := by
  rw [survivors,hpath,foldl_enter_of_not_up (fun hup => (h _ hup).ne_up rfl),nil_append,filter_eq_self]
  exact fun s hs => by simpa using (h s hs).ne_here

def joinedPath (segments : List Bytes) (trailing : Bool) : Bytes :=
  47 :: [47].intercalate segments ++ if trailing then [47] else []

section

variable (h : ∀ s ∈ segments, Ordinary s)
include h

theorem survivors_joinedPath (trailing : Bool)
    (htrailing : trailing = true → segments ≠ []) : survivors (joinedPath segments trailing) = segments := by
  have hnamed : named segments = segments :=
    filter_eq_self.mpr (fun s hs => by simpa using (h s hs).ne_nil)
  refine survivors_of_named h ?_
  by_cases hne : segments = []
  · cases trailing with
    | false => simp [hne,joinedPath,pathSegments,named]
    | true => exact absurd hne (htrailing rfl)
  · have hsplit := splitOn_intercalate 47 (fun s hs => (h s hs).slash) hne
    cases trailing with
    | false => simpa [joinedPath,pathSegments,hsplit] using hnamed
    | true =>
      have hslash : ([47].intercalate segments ++ [47]).splitOn 47 = segments ++ [[]] := by
        rw [splitOn_append_cons_self,hsplit]
        rfl
      simpa [joinedPath,pathSegments,hslash,named_concat_nil] using hnamed

theorem cut_joinedPath (trailing : Bool) (hquery : query = [] ∨ query.head? = some 63) :
    pathOf (joinedPath segments trailing ++ query) = joinedPath segments trailing ∧
      queryOf (joinedPath segments trailing ++ query) = query := by
  have hmark : 63 ∉ joinedPath segments trailing := by
    have hjoined : 63 ∉ [47].intercalate segments := by
      intro hmem
      rcases mem_of_mem_intercalate hmem with hsep | ⟨s,hs,hmark⟩
      · cases hsep
      · exact (h s hs).mark hmark
    cases trailing <;> simpa [joinedPath] using hjoined
  obtain ⟨hpath,hrest⟩ := pathOf_append hmark query
  have hcut : pathOf query = [] ∧ queryOf query = query := by
    rcases hquery with rfl | hquery
    · exact ⟨rfl,rfl⟩
    · cases query with
      | nil => cases hquery
      | cons c query =>
        obtain rfl : c = 63 := by simpa using hquery
        exact ⟨rfl,rfl⟩
  exact ⟨by rw [hpath,hcut.1,append_nil],by rw [hrest,hcut.2]⟩

theorem normalizeHttpPath_joinedPath (trailing : Bool)
    (htrailing : trailing = true → segments ≠ []) (hquery : query = [] ∨ query.head? = some 63) :
    normalizeHttpPath (joinedPath segments trailing ++ query) = joinedPath segments false ++ query := by
  obtain ⟨hpath,hrest⟩ := cut_joinedPath h trailing hquery
  have hroot : Rooted (joinedPath segments trailing ++ query) := rfl
  rw [normalizeHttpPath_rooted hroot,hpath,hrest,survivors_joinedPath h trailing htrailing]
  simp [joinedPath]

end

/-- A path in normal form is sent as it is just when no slash stands at its end. -/
theorem request_path_kept_iff (currentPath : Bytes) {segments : List Bytes} {query : Bytes} (trailing : Bool)
    (h : ∀ s ∈ segments, Ordinary s) (htrailing : trailing = true → segments ≠ [])
    (hquery : query = [] ∨ query.head? = some 63) (hfragment : 35 ∉ joinedPath segments trailing ++ query) :
    buildRequestPath currentPath (joinedPath segments trailing ++ query) = joinedPath segments trailing ++ query ↔
      trailing = false := by
  have hroot : (joinedPath segments trailing ++ query).head? = some 47 := rfl
  rw [buildRequestPath_of_slash hroot,cutFragment_of_not_mem hfragment,
    normalizeHttpPath_joinedPath h trailing htrailing hquery,List.append_cancel_right_eq]
  cases trailing <;> simp [joinedPath]

/-- A URL in the query does no harm. -/
theorem request_path_kept_query :
    Ordinary (ascii "a") ∧
      buildRequestPath [47] (ascii "/a?u=http://b/../c/") = ascii "/a?u=http://b/../c/" := by
  have hordinary : Ordinary (ascii "a") := by
    constructor <;> decide +kernel
  have hpath : ascii "/a?u=http://b/../c/" = joinedPath [ascii "a"] false ++ ascii "?u=http://b/../c/" := by
    decide +kernel
  refine ⟨hordinary,?_⟩
  rw [hpath]
  exact (request_path_kept_iff [47] false (fun s hs => List.mem_singleton.mp hs ▸ hordinary) (by simp)
    (.inr (by decide +kernel)) (by decide +kernel)).mpr rfl

theorem request_path_cut : buildRequestPath [47] (ascii "/docs/") = ascii "/docs" := by
  decide +kernel

/-! ### Containment -/

/-- The directory of a base, as `joinRelativePath` takes it. -/
def directoryOf (base : Bytes) : Bytes :=
  (if (pathOf base).head? = some 47 then pathOf base else [47]).rdropWhile (· ≠ 47)

theorem joinRelativePath_eq (base reference : Bytes) :
    joinRelativePath base reference = normalizeHttpPath (directoryOf base ++ reference) := by
  unfold directoryOf pathOf
  simp only [joinRelativePath,cutQuery_eq]

theorem directoryOf_spec (base : Bytes) :
    Rooted (directoryOf base) ∧ 63 ∉ directoryOf base ∧ ∃ front, directoryOf base = front ++ [47] := by
  obtain ⟨path,hroot,hdir⟩ :
      ∃ path, Rooted path ∧ directoryOf base = (pathOf path).rdropWhile (· ≠ 47) := by
    unfold directoryOf
    by_cases hbase : (pathOf base).head? = some 47
    · rw [if_pos hbase]
      cases base with
      | nil => cases hbase
      | cons c rest =>
        by_cases hc : c = 63
        · simp [pathOf,hc] at hbase
        · exact ⟨c :: rest,by simpa [pathOf,hc,Rooted] using hbase,rfl⟩
    · rw [if_neg hbase]
      exact ⟨[47],rfl,rfl⟩
  obtain ⟨hrooted,hmark⟩ := rooted_directory hroot
  rw [hdir]
  have hlast : getLast _ hrooted.ne_nil = 47 := by
    simpa using rdropWhile_last_not (fun c => decide (c ≠ 47)) _ hrooted.ne_nil
  have hfront := dropLast_append_getLast hrooted.ne_nil
  rw [hlast] at hfront
  exact ⟨hrooted,hmark,_,hfront.symm⟩

theorem survivors_below {front : Bytes} (hroot : Rooted (front ++ [47])) {path : Bytes}
    (h : ascii ".." ∉ path.splitOn 47) : survivors (front ++ [47]) <+: survivors (front ++ [47] ++ path) := by
  have hup : ascii ".." ∉ named (path.splitOn 47) := fun hmem => h (mem_of_mem_filter hmem)
  cases front with
  | nil => exact nil_prefix
  | cons c front =>
    have hdir : pathSegments (c :: front ++ [47]) = front.splitOn 47 ++ [[]] := by
      simp [pathSegments,splitOn_append_cons_self]
    have hfull : pathSegments (c :: front ++ [47] ++ path) = front.splitOn 47 ++ path.splitOn 47 := by
      simp [pathSegments,splitOn_append_cons_self]
    have hnamed : named (front.splitOn 47 ++ path.splitOn 47) =
        named (front.splitOn 47) ++ named (path.splitOn 47) := filter_append ..
    rw [survivors,survivors,hdir,hfull,named_concat_nil,hnamed,foldl_append,foldl_enter_of_not_up hup]
    exact prefix_append _ _

theorem queryOf_shape (text : Bytes) : queryOf text = [] ∨ (queryOf text).head? = some 63 := by
  induction text with
  | nil => exact .inl rfl
  | cons c text ih =>
    by_cases hc : c = 63
    · simp [queryOf,hc]
    · simpa [queryOf,hc] using ih

/-- What `normalizeHttpPath` makes of a path from the root. -/
structure Normalized (text normal : Bytes) : Prop where
  segments : ∀ s ∈ survivors (pathOf text), Ordinary s
  order : (survivors (pathOf text)).Sublist (pathSegments (pathOf text))
  path : pathOf normal = joinedPath (survivors (pathOf text)) false
  query : queryOf normal = queryOf text
  again : normalizeHttpPath normal = normal

theorem normalized_of_rooted (h : Rooted text) : Normalized text (normalizeHttpPath text) := by
  have hordinary : ∀ s ∈ survivors (pathOf text), Ordinary s := fun _ => ordinary_of_survivors
  have hnormal : normalizeHttpPath text = joinedPath (survivors (pathOf text)) false ++ queryOf text := by
    simp [normalizeHttpPath_rooted h,joinedPath]
  obtain ⟨hpath,hquery⟩ := cut_joinedPath hordinary false (queryOf_shape text)
  constructor
  · exact hordinary
  · exact (entered_sublist _).trans filter_sublist
  · rw [hnormal,hpath]
  · rw [hnormal,hquery]
  · rw [hnormal,normalizeHttpPath_joinedPath hordinary false (by simp) (queryOf_shape text)]

theorem survivors_normalizeHttpPath (h : Rooted text) :
    survivors (pathOf (normalizeHttpPath text)) = survivors (pathOf text) := by
  have hnormal := normalized_of_rooted h
  rw [hnormal.path,survivors_joinedPath hnormal.segments false (by simp)]

/-- A path from the root is normalized for good, and a reference without a `..` of its own stays in the directory of
its base. -/
theorem normal_path_spec :
    (∀ text : Bytes, Rooted text → Normalized text (normalizeHttpPath text)) ∧
    ∀ base reference : Bytes, reference.head? ≠ some 47 → ascii ".." ∉ (pathOf reference).splitOn 47 →
      survivors (directoryOf base) <+: survivors (pathOf (joinRelativePath base reference)) := by
  refine ⟨fun text => normalized_of_rooted,fun base reference hrel hup => ?_⟩
  obtain ⟨hroot,hmark,front,hfront⟩ := directoryOf_spec base
  obtain ⟨hpath,-⟩ := pathOf_append hmark reference
  have hfull : Rooted (directoryOf base ++ reference) := by
    obtain ⟨rest,hrest⟩ := eq_cons_of_slash hroot
    rw [hrest]
    rfl
  rw [joinRelativePath_eq,survivors_normalizeHttpPath hfull,hpath,hfront]
  exact survivors_below (hfront ▸ hroot) hup

theorem normal_path_below :
    Rooted (ascii "/a//./b/../c") ∧ Normalized (ascii "/a//./b/../c") (normalizeHttpPath (ascii "/a//./b/../c")) ∧
      survivors (directoryOf (ascii "/a/b")) <+: survivors (pathOf (joinRelativePath (ascii "/a/b") (ascii "c?../"))) :=
  ⟨rfl,normal_path_spec.1 _ rfl,normal_path_spec.2 _ _ (by decide +kernel) (by decide +kernel)⟩

end FastNet.HttpClient
