import FastNet.Url

/-!
Redirects to a relative reference: what `resolveRedirect` makes of them, against the
resolution of references in terms of segments.
-/

namespace FastNet.HttpClient

open Text Ctype List

variable {text reference location currentPath : Bytes} {current : ParsedUrl} {path : Bytes}

/-- The reference of a `Location` value: the blanks around it and its fragment are no part
of it. -/
def referenceOf (location : Bytes) : Bytes := cutFragment (HttpParser.trim location)

/-- A reference without protocol and host: it begins with a single slash, with a question
mark, or with a segment in which no colon stands. -/
def RelativeReference (reference : Bytes) : Prop :=
  (reference.head? = some 47 ∧ ¬ ascii "//" <+: reference) ∨ reference.head? = some 63 ∨
    (firstSegment reference ≠ [] ∧ 58 ∉ firstSegment reference)

instance (reference : Bytes) : Decidable (RelativeReference reference) :=
  inferInstanceAs (Decidable (_ ∨ _ ∨ _))

def pathOf (text : Bytes) : Bytes := text.takeWhile (· ≠ 63)

def queryOf (text : Bytes) : Bytes := text.dropWhile (· ≠ 63)

def Rooted (path : Bytes) : Prop := path.head? = some 47

instance (path : Bytes) : Decidable (Rooted path) := inferInstanceAs (Decidable (_ = _))

/-- The path that a reference names, before its dot segments are removed: a path of its
own, or one from the directory of the current path. -/
def mergedPath (currentPath path : Bytes) : Bytes :=
  if path.head? = some 47 then path else (pathOf currentPath).rdropWhile (· ≠ 47) ++ path

def pathSegments (path : Bytes) : List Bytes := path.tail.splitOn 47

def removeDotSegments (path : Bytes) : Bytes :=
  47 :: [47].intercalate (Segments.removeDots (ascii ".") (ascii "..") (pathSegments path))

/-- Path and query of the URL that a reference names. Without a path it names another query
of the current path. -/
def resolvedPath (currentPath reference : Bytes) : Bytes :=
  (if pathOf reference = [] then pathOf currentPath
    else removeDotSegments (mergedPath currentPath (pathOf reference))) ++ queryOf reference

/-- No empty segment tells: the root is left of the path, or what is left has no empty
segment (so that it does not end with a slash), and the empty segments before made no
difference. -/
def EmptySegmentsIdle (path : Bytes) : Prop :=
  Segments.removeDots (ascii ".") (ascii "..") (pathSegments path) = [[]] ∨
    [] ∉ Segments.removeDots (ascii ".") (ascii "..") (pathSegments path) ∧
      Segments.removeDots (ascii ".") (ascii "..") (pathSegments path) =
        Segments.removeDots (ascii ".") (ascii "..") (Segments.named (pathSegments path))

instance (path : Bytes) : Decidable (EmptySegmentsIdle path) :=
  inferInstanceAs (Decidable (_ ∨ _ ∧ _))

theorem not_mem_of_mem_splitOn {sep : UInt8} {segment : Bytes}
    (h : segment ∈ text.splitOn sep) : sep ∉ segment := by
  induction text generalizing segment with
  | nil =>
    obtain rfl : segment = [] := by simpa using h
    exact not_mem_nil
  | cons c text ih =>
    by_cases hc : c = sep
    · subst hc
      rw [Address.splitOn_cons_self] at h
      rcases mem_cons.mp h with rfl | h
      · exact not_mem_nil
      · exact ih h
    · rw [Address.splitOn_cons_of_ne hc] at h
      obtain ⟨first,others,hsplit⟩ := exists_cons_of_ne_nil (splitOn_ne_nil sep text)
      rw [hsplit,modifyHead_cons] at h
      rcases mem_cons.mp h with rfl | h
      · rw [mem_cons,not_or]
        exact ⟨fun heq => hc heq.symm,ih (by rw [hsplit]; exact mem_cons_self)⟩
      · exact ih (by rw [hsplit]; exact mem_cons_of_mem _ h)

theorem normalizeHttpPath_eq_iff (hroot : Rooted text) :
    normalizeHttpPath text = removeDotSegments (pathOf text) ++ queryOf text ↔
      EmptySegmentsIdle (pathOf text) := by
  obtain ⟨rest,rfl⟩ := eq_cons_of_slash hroot
  have hpath : pathOf (47 :: rest) = 47 :: rest.takeWhile (· ≠ 63) := rfl
  have hquery : queryOf (47 :: rest) = rest.dropWhile (· ≠ 63) := rfl
  rw [normalizeHttpPath_slash,hpath,hquery,removeDotSegments,append_cancel_right_eq,
    cons.injEq,eq_self_iff_true,true_and,EmptySegmentsIdle,pathSegments,tail_cons,
    eq_comm]
  exact Segments.intercalate_removeDots_iff (by decide +kernel) (by decide +kernel)
    (fun _ hs => not_mem_of_mem_splitOn hs) (splitOn_ne_nil 47 _)

theorem head_referenceOf (location : Bytes) :
    ∀ c ∈ (referenceOf location).head?, isSpace c = false := by
  intro c hc
  have hends := (@trim_ends _ location isSpace).1
  unfold referenceOf HttpParser.trim at hc
  cases htrim : Text.trim isSpace location with
  | nil =>
    rw [htrim] at hc
    cases hc
  | cons a t =>
    rw [htrim,cutFragment_cons] at hc
    split at hc
    · cases hc
    · obtain rfl : a = c := by simpa using hc
      exact hends a (by rw [htrim]; rfl)

theorem RelativeReference.no_colon (h : RelativeReference reference) :
    58 ∉ firstSegment reference := by
  have hmark {c : UInt8} (hhead : reference.head? = some c) (hc : c = 47 ∨ c = 63) :
      58 ∉ firstSegment reference := by
    cases reference with
    | nil => cases hhead
    | cons a t =>
      obtain rfl : a = c := by simpa using hhead
      rcases hc with rfl | rfl <;> simp [firstSegment]
  rcases h with ⟨hslash,-⟩ | hques | ⟨-,hseg⟩
  · exact hmark hslash (.inl rfl)
  · exact hmark hques (.inr rfl)
  · exact hseg

theorem RelativeReference.ne_nil (h : RelativeReference reference) :
    reference ≠ [] := by
  rintro rfl
  rcases h with ⟨hslash,-⟩ | hques | ⟨hseg,-⟩
  · cases hslash
  · cases hques
  · exact hseg rfl

/-- A relative reference in which the separator of a protocol occurs is taken for an
absolute URL, and refused as such. -/
theorem resolveRedirect_of_mark
    (hrel : RelativeReference (referenceOf location))
    (hmark : (find (ascii "://") (referenceOf location) 0).isSome = true) :
    resolveRedirect current location = none := by
  have hparse : parseUrl current.path (referenceOf location) = none :=
    parseUrlWith_of_firstSegment _ (head_referenceOf location) hrel.no_colon
  have hne := hrel.ne_nil
  unfold referenceOf at hmark hne hparse
  simp only [resolveRedirect,if_neg hne,if_pos hmark,hparse]

theorem rooted_directory (h : Rooted path) :
    Rooted ((pathOf path).rdropWhile (· ≠ 47)) ∧ 63 ∉ (pathOf path).rdropWhile (· ≠ 47) := by
  obtain ⟨rest,rfl⟩ := eq_cons_of_slash h
  have hpath : pathOf (47 :: rest) = 47 :: rest.takeWhile (· ≠ 63) := rfl
  have hfront := rdropWhile_prefix (fun c => decide (c ≠ 47)) (pathOf (47 :: rest))
  refine ⟨?_,?_⟩
  · cases hd : (pathOf (47 :: rest)).rdropWhile (fun c => decide (c ≠ 47)) with
    | nil =>
      have hall := rdropWhile_eq_nil_iff.mp hd 47 (by rw [hpath]; exact mem_cons_self)
      simp at hall
    | cons c t =>
      rw [hd,hpath,cons_prefix_cons] at hfront
      rw [hfront.1]
      rfl
  · intro hmem
    have hin := mem_takeWhile_imp (hfront.subset hmem)
    simp at hin

theorem pathOf_append {dir : Bytes} (h : 63 ∉ dir) (reference : Bytes) :
    pathOf (dir ++ reference) = dir ++ pathOf reference ∧
      queryOf (dir ++ reference) = queryOf reference := by
  have hall : ∀ c ∈ dir, decide (c ≠ 63) = true := by
    intro c hc
    simpa using fun heq : c = 63 => h (heq ▸ hc)
  exact ⟨takeWhile_append_of_pos hall,dropWhile_append_of_pos hall⟩

/-- The path that the last three branches of `resolveRedirect` find. -/
def relativePath (currentPath location : Bytes) : Bytes :=
  if location.head? = some 47 then normalizeHttpPath location
  else if location.head? = some 63 then queryBase currentPath ++ location
  else joinRelativePath currentPath location

theorem resolveRedirect_of_relative
    (hrel : RelativeReference (referenceOf location))
    (hmark : find (ascii "://") (referenceOf location) 0 = none) :
    resolveRedirect current location =
      some { current with path := relativePath current.path (referenceOf location) } := by
  have hne := hrel.ne_nil
  have hslas : ¬ ascii "//" <+: referenceOf location := by
    rcases hrel with ⟨-,hsin⟩ | hques | ⟨hseg,-⟩
    · exact hsin
    · rintro ⟨t,ht⟩
      rw [← ht] at hques
      exact absurd hques (by simp [ascii])
    · rintro ⟨t,ht⟩
      rw [← ht] at hseg
      exact hseg rfl
  simp only [resolveRedirect,relativePath]
  unfold referenceOf at *
  rw [if_neg hne,hmark,if_neg (by simp),if_neg hslas]
  split
  · rfl
  · split <;> rfl

theorem rooted_pathOf (h : Rooted text) : Rooted (pathOf text) := by
  obtain ⟨rest,rfl⟩ := eq_cons_of_slash h
  rfl

theorem Rooted.ne_nil (h : Rooted path) : path ≠ [] := by
  rintro rfl
  cases h

theorem queryBase_of_rooted (h : Rooted path) : queryBase path = pathOf path := by
  have hne := (rooted_pathOf h).ne_nil
  unfold pathOf at hne ⊢
  simp only [queryBase,cutQuery_eq,if_neg hne]

theorem joinRelativePath_of_rooted (h : Rooted path) (reference : Bytes) : joinRelativePath path reference =
      normalizeHttpPath ((pathOf path).rdropWhile (· ≠ 47) ++ reference) := by
  have hroot : (pathOf path).head? = some 47 := rooted_pathOf h
  unfold pathOf at hroot ⊢
  simp only [joinRelativePath,cutQuery_eq,if_pos hroot]

theorem relativePath_eq_iff (hroot : Rooted currentPath)
    (hrel : RelativeReference reference) :
    relativePath currentPath reference = resolvedPath currentPath reference ↔
      (pathOf reference ≠ [] → EmptySegmentsIdle (mergedPath currentPath (pathOf reference))) := by
  by_cases hslash : reference.head? = some 47
  · have hpath := rooted_pathOf hslash
    have hmer : mergedPath currentPath (pathOf reference) = pathOf reference := if_pos hpath
    rw [relativePath,if_pos hslash,resolvedPath,if_neg hpath.ne_nil,hmer,normalizeHttpPath_eq_iff hslash]
    simp [hpath.ne_nil]
  · by_cases hques : reference.head? = some 63
    · obtain ⟨query,rfl⟩ : ∃ query, reference = 63 :: query := by
        cases reference with
        | nil => cases hques
        | cons c query => exact ⟨query,by simpa using hques⟩
      have hpath : pathOf (63 :: query) = [] := rfl
      have hquery : queryOf (63 :: query) = 63 :: query := rfl
      simp [relativePath,resolvedPath,hpath,hquery,queryBase_of_rooted hroot]
    · obtain ⟨hdir,hmark⟩ := rooted_directory hroot
      obtain ⟨hjoin,hquery⟩ := pathOf_append hmark reference
      obtain ⟨c,rest,hpath,hc⟩ : ∃ c rest, pathOf reference = c :: rest ∧ c ≠ 47 := by
        cases reference with
        | nil => exact absurd rfl hrel.ne_nil
        | cons c rest =>
          have hc : c ≠ 63 := by simpa using hques
          exact ⟨c,rest.takeWhile (· ≠ 63),takeWhile_cons_of_pos (by simpa using hc),
            by simpa using hslash⟩
      have hmer : mergedPath currentPath (pathOf reference) =
          (pathOf currentPath).rdropWhile (· ≠ 47) ++ pathOf reference := by
        rw [mergedPath,hpath,if_neg (by simpa using hc)]
      have hfull : Rooted ((pathOf currentPath).rdropWhile (· ≠ 47) ++ reference) := by
        obtain ⟨t,ht⟩ := eq_cons_of_slash hdir
        rw [ht]
        rfl
      have hiff := normalizeHttpPath_eq_iff hfull
      rw [hjoin,hquery] at hiff
      rw [relativePath,if_neg hslash,if_neg hques,joinRelativePath_of_rooted hroot,
        resolvedPath,hmer,if_neg (by simp [hpath]),hiff]
      simp [hpath]

/-- A relative reference is resolved as its path and query say just when the separator of
a protocol occurs nowhere in it, and no empty segment of its path tells. -/
theorem relative_redirect_resolved_iff {current : ParsedUrl} {location : Bytes}
    (hroot : Rooted current.path) (hrel : RelativeReference (referenceOf location)) :
    resolveRedirect current location =
        some { current with path := resolvedPath current.path (referenceOf location) } ↔
      find (ascii "://") (referenceOf location) 0 = none ∧
        (pathOf (referenceOf location) ≠ [] →
          EmptySegmentsIdle (mergedPath current.path (pathOf (referenceOf location)))) := by
  cases hmark : find (ascii "://") (referenceOf location) 0 with
  | some n =>
    rw [resolveRedirect_of_mark hrel (by rw [hmark]; rfl)]
    simp
  | none =>
    rw [resolveRedirect_of_relative hrel hmark,← relativePath_eq_iff hroot hrel]
    simp

theorem relative_redirect_resolved_up :
    (resolveRedirect { path := ascii "/a/b?x" } (ascii " ../c/./d?e=/f#g")).map ParsedUrl.path =
      some (ascii "/c/d?e=/f") := by
  have h := (@relative_redirect_resolved_iff { path := ascii "/a/b?x" }
    (ascii " ../c/./d?e=/f#g") (by decide +kernel) (by decide +kernel)).mpr (by decide +kernel)
  rw [h]
  decide +kernel

/-- A URL in the query makes the whole reference one that is refused, and the last slash of
a path is lost. -/
theorem relative_redirect_lost :
    RelativeReference (ascii "/login?next=http://host/") ∧
      (resolveRedirect {} (ascii "/login?next=http://host/")).isNone = true ∧
      RelativeReference (ascii "/docs/") ∧
      resolvedPath [47] (ascii "/docs/") = ascii "/docs/" ∧
      (resolveRedirect {} (ascii "/docs/")).map ParsedUrl.path = some (ascii "/docs") := by
  decide +kernel

end FastNet.HttpClient
