import FastNet.HttpParser

/-!
What `parseHeaderLines` does, said over the list of the lines: each line is a field, the
framing fields keep to their rules, and the map holds the last value of every name.
-/

namespace FastNet

open Text Ctype Loop List

def lines (text : Bytes) : List Bytes :=
  if text = [] then []
  else
    match find crlf text 0 with
    | none => [text]
    | some lineEnd => text.take lineEnd :: lines (text.drop (lineEnd+2))
  termination_by text.length
  decreasing_by
    have hpos := length_pos_iff.mpr ‹¬ text = []›
    simp only [length_drop]
    omega

@[simp] theorem lines_nil : lines [] = [] := by
  rw [lines]
  simp

theorem lines_of_none {text : Bytes} (hne : text ≠ []) (h : find crlf text 0 = none) :
    lines text = [text] := by
  rw [lines]
  simp [hne,h]

theorem lines_of_some {text : Bytes} {lineEnd : Nat} (h : find crlf text 0 = some lineEnd) :
    lines text = text.take lineEnd :: lines (text.drop (lineEnd+2)) := by
  have hne : text ≠ [] := by
    rintro rfl
    simp [find,findFrom,crlf] at h
  rw [lines]
  simp [hne,h]

theorem getElem?_foldl_insert {β γ : Type} (key : γ → Bytes) (val : γ → β) (l : List γ)
    (m : ByteMap β) (k : Bytes) :
    (l.foldl (fun m x => m.insert (key x) (val x)) m)[k]? =
      ((l.reverse.find? (fun x => key x = k)).map val).or m[k]? := by
  induction l using reverseRecOn with
  | nil => simp
  | append_singleton l x ih =>
    rw [foldl_append,reverse_append]
    by_cases hk : key x = k
    · subst hk
      simp
    · have hk' : compare (key x) k ≠ .eq := by
        simpa [Std.LawfulEqCmp.compare_eq_iff_eq] using hk
      simp [Std.ExtTreeMap.getElem?_insert,hk,hk',ih]

theorem getElem?_singleton {β : Type} {k k' : Bytes} {v v' : β} :
    ((∅ : ByteMap β).insert k v)[k']? = some v' ↔ k' = k ∧ v' = v := by
  rw [Std.ExtTreeMap.getElem?_insert]
  by_cases hk : k = k'
  · subst hk
    simp [eq_comm]
  · have hk' : compare k k' ≠ .eq := by
      simpa [Std.LawfulEqCmp.compare_eq_iff_eq] using hk
    simp [hk',eq_comm,hk]

namespace HttpParser

variable {line : ByteView} {headers : ViewMap} {strings : ByteMap Bytes} {fuel : Nat}
variable {s : HeaderScan} {f : Bytes × Bytes} {length encoding : Bool} {fs : List (Bytes × Bytes)}

theorem lines_drop {headerLines : ByteView} {offset : Nat} (h : offset < headerLines.size) :
    lines (headerLines.text.drop offset) =
      (headerLineAt headerLines offset (find crlf headerLines.text offset)).text ::
        match find crlf headerLines.text offset with
        | none => []
        | some lineEnd => lines (headerLines.text.drop (lineEnd+2)) := by
  have hfind := find_drop crlf headerLines.text offset 0 (Nat.le_of_lt h)
  rw [Nat.add_zero] at hfind
  rw [View.size] at h
  rw [hfind]
  cases hf : find crlf (headerLines.text.drop offset) 0 with
  | none =>
    have hne : headerLines.text.drop offset ≠ [] := by
      simpa [drop_eq_nil_iff] using h
    rw [lines_of_none hne hf]
    rfl
  | some e =>
    rw [lines_of_some hf,drop_drop]
    simp [headerLineAt,Nat.add_assoc]

def fieldOf (line : Bytes) : Option (Bytes × Bytes) :=
  if line = [] ∨ kMaxHeaderLineSize < line.length ∨ line.head? = some 32 ∨ line.head? = some 9 then none
  else
    match find [58] line 0 with
    | none => none
    | some 0 => none
    | some colon =>
      let name := trim (line.take colon)
      if isValidHeaderName name then some (name,trim (line.drop (colon+1))) else none

def lengthFlag (name : Bytes) (length : Bool) : Bool :=
  length || caseInsensitiveCompare name (ascii "Content-Length")

def encodingFlag (name : Bytes) (encoding : Bool) : Bool :=
  encoding || (!caseInsensitiveCompare name (ascii "Content-Length") &&
    caseInsensitiveCompare name (ascii "Transfer-Encoding"))

/-- A line may follow when the framing headers stay unique, readable and exclusive. -/
def FramingAllows (length encoding : Bool) (f : Bytes × Bytes) : Prop :=
  (caseInsensitiveCompare f.1 (ascii "Content-Length") = true →
    length = false ∧ (parseUnsignedDecimal f.2).isSome = true) ∧
  (caseInsensitiveCompare f.1 (ascii "Content-Length") = false →
    caseInsensitiveCompare f.1 (ascii "Transfer-Encoding") = true → encoding = false) ∧
  (lengthFlag f.1 length && encodingFlag f.1 encoding) = false

theorem fieldOf_eq_some {line : Bytes} (h : fieldOf line = some f) :
    ¬ (line = [] ∨ kMaxHeaderLineSize < line.length ∨ line.head? = some 32 ∨ line.head? = some 9) ∧
      ∃ colon, find [58] line 0 = some (colon+1) ∧ isValidHeaderName f.1 = true ∧
        f = (trim (line.take (colon+1)),trim (line.drop (colon+2))) := by
  unfold fieldOf at h
  split at h
  · cases h
  · rename_i hstart
    refine ⟨hstart,?_⟩
    split at h
    · cases h
    · cases h
    · rename_i colon hne hcolon
      obtain ⟨colon,rfl⟩ := Nat.exists_eq_succ_of_ne_zero hne
      simp only at h
      split at h
      · rename_i hname
        cases h
        exact ⟨colon,hcolon,hname,rfl⟩
      · cases h

theorem checkHeaderLine_of_field (hf : fieldOf line.text = some f) (hallow : FramingAllows length encoding f) :
    ∃ name value, checkHeaderLine line length encoding =
        some (name,value,lengthFlag f.1 length,encodingFlag f.1 encoding) ∧
      name.text = f.1 ∧ value.text = f.2 := by
  obtain ⟨hstart,colon,hcolon,hname,hfield⟩ := fieldOf_eq_some hf
  have hn : ((line.sub 0 (colon+1)).trim isSpace).text = f.1 := by
    rw [hfield]
    rfl
  have hv : ((line.suffix (colon+1+1)).trim isSpace).text = f.2 := by
    rw [hfield]
    rfl
  refine ⟨_,_,?_,hn,hv⟩
  unfold checkHeaderLine View.size
  rw [if_neg hstart,hcolon]
  obtain ⟨hL,hE,hboth⟩ := hallow
  simp only [lengthFlag,encodingFlag] at hboth ⊢
  simp only [hn,hv,hname,Bool.not_true,Bool.false_eq_true,if_false]
  cases hcl : caseInsensitiveCompare f.1 (ascii "Content-Length") with
  | true =>
    obtain ⟨rfl,hsome⟩ := hL hcl
    simp [hcl] at hboth ⊢
    simp [hboth]
    exact Option.isSome_iff_ne_none.mp hsome
  | false =>
    cases hte : caseInsensitiveCompare f.1 (ascii "Transfer-Encoding") with
    | true =>
      have := hE hcl hte
      subst this
      simp [hcl,hte] at hboth ⊢
      simp [hboth]
    | false =>
      simp [hcl,hte] at hboth ⊢
      simpa using hboth

theorem field_of_checkHeaderLine {name value : ByteView} {length' encoding' : Bool}
    (h : checkHeaderLine line length encoding = some (name,value,length',encoding')) :
    fieldOf line.text = some (name.text,value.text) ∧
      FramingAllows length encoding (name.text,value.text) ∧
      length' = lengthFlag name.text length ∧ encoding' = encodingFlag name.text encoding := by
  have hspec := checkHeaderLine_spec h
  obtain ⟨hname,hL,rfl,rfl,hboth⟩ := hspec
  refine ⟨?_,⟨hL,?_,hboth⟩,rfl,rfl⟩
  · unfold checkHeaderLine View.size at h
    unfold fieldOf
    split at h
    · cases h
    · rename_i hstart
      rw [if_neg hstart]
      split at h
      · cases h
      · cases h
      · rename_i colon hne hcolon
        simp only [Option.ite_none_left_eq_some,Option.some.injEq,Prod.mk.injEq] at h
        obtain ⟨-,-,-,-,rfl,rfl,-⟩ := h
        have hname' : isValidHeaderName (trim (line.text.take colon)) = true := hname
        simp only [hcolon,if_pos hname']
        rfl
  · intro hcl hte
    unfold checkHeaderLine at h
    split at h
    · cases h
    · split at h
      · cases h
      · cases h
      · simp only [Option.ite_none_left_eq_some,Option.some.injEq,Prod.mk.injEq] at h
        obtain ⟨-,-,hE,-,rfl,rfl,-⟩ := h
        simp only [hcl,hte] at hE
        simpa using hE

def FieldsAllowed : Bool → Bool → List (Bytes × Bytes) → Prop
  | _, _, [] => True
  | length, encoding, f :: fs => FramingAllows length encoding f ∧
      FieldsAllowed (lengthFlag f.1 length) (encodingFlag f.1 encoding) fs

def isFraming (name : Bytes) : Bool :=
  caseInsensitiveCompare name (ascii "Content-Length") ||
    caseInsensitiveCompare name (ascii "Transfer-Encoding")

def LengthReadable (f : Bytes × Bytes) : Prop :=
  caseInsensitiveCompare f.1 (ascii "Content-Length") = true → (parseUnsignedDecimal f.2).isSome = true

theorem fieldsAllowed_iff : FieldsAllowed length encoding fs ∧ (length && encoding) = false ↔
      (fs.filter (fun f => isFraming f.1)).length+length.toNat+encoding.toNat ≤ 1 ∧
        ∀ f ∈ fs, LengthReadable f := by
  induction fs generalizing length encoding with
  | nil => cases length <;> cases encoding <;> simp [FieldsAllowed]
  | cons f fs ih =>
    have hstep := @ih (lengthFlag f.1 length) (encodingFlag f.1 encoding)
    have hcount : ((f :: fs).filter (fun f => isFraming f.1)).length =
        (fs.filter (fun f => isFraming f.1)).length+(isFraming f.1).toNat := by
      cases hfram : isFraming f.1 <;> simp [hfram]
    rw [hcount,forall_mem_cons,FieldsAllowed]
    clear ih hcount
    generalize (fs.filter (fun f => isFraming f.1)).length = n at hstep
    generalize (∀ f ∈ fs, LengthReadable f) = readable at hstep
    generalize FieldsAllowed _ _ fs = allowed at hstep
    simp only [FramingAllows,LengthReadable,lengthFlag,encodingFlag,isFraming] at hstep ⊢
    generalize caseInsensitiveCompare f.1 (ascii "Content-Length") = isLength at hstep ⊢
    generalize caseInsensitiveCompare f.1 (ascii "Transfer-Encoding") = isEncoding at hstep ⊢
    cases isLength with
    | true =>
      cases length <;> cases encoding <;> simp at hstep ⊢
      rw [hstep]
      tauto
    | false =>
      cases isEncoding with
      | true =>
        cases length <;> cases encoding <;> simp at hstep ⊢
        exact hstep
      | false =>
        cases length <;> cases encoding <;> simp at hstep ⊢
        all_goals exact hstep

structure Reads (headers : ViewMap) (strings : ByteMap Bytes) : Prop where
  keyed : ∀ (k : Bytes) (e : ByteView × ByteView), headers[k]? = some e → e.1.text = k
  values : ∀ k : Bytes, headers[k]?.map (fun e => e.2.text) = strings[k]?

def fieldMap (fs : List (Bytes × Bytes)) (strings : ByteMap Bytes) : ByteMap Bytes :=
  fs.foldl (fun m f => m.insert f.1 f.2) strings

theorem reads_empty : Reads ∅ ∅ := ⟨by simp,by simp⟩

theorem Reads.assign (h : Reads headers strings)
    (name value : ByteView) :
    Reads (headers.assign name value) (strings.insert name.text value.text) := by
  constructor
  · intro k e he
    by_cases hk : name.text = k
    · subst hk
      rw [ViewMap.getElem?_assign_self] at he
      cases he
      cases ho : headers[name.text]? with
      | none => rfl
      | some e => simpa using h.keyed _ _ ho
    · rw [ViewMap.getElem?_assign_of_ne hk] at he
      exact h.keyed k e he
  · intro k
    by_cases hk : name.text = k
    · subst hk
      rw [ViewMap.getElem?_assign_self]
      simp
    · rw [ViewMap.getElem?_assign_of_ne hk,h.values,Std.ExtTreeMap.getElem?_insert,
        if_neg (by simpa [Std.LawfulEqCmp.compare_eq_iff_eq] using hk)]

theorem fieldMap_getElem? (fs : List (Bytes × Bytes)) (k : Bytes) :
    (fieldMap fs ∅)[k]? = (fs.reverse.find? (fun f => f.1 = k)).map Prod.snd := by
  rw [fieldMap,getElem?_foldl_insert Prod.fst Prod.snd]
  simp

theorem fieldMap_append (fs gs : List (Bytes × Bytes)) (strings : ByteMap Bytes) :
    fieldMap (fs ++ gs) strings = fieldMap gs (fieldMap fs strings) :=
  foldl_append

theorem fieldMap_toList (headers : ByteMap Bytes) : fieldMap headers.toList ∅ = headers := by
  apply Std.ExtTreeMap.ext_getElem?
  intro k
  rw [fieldMap_getElem?]
  cases hf : headers.toList.reverse.find? (fun f => f.1 = k) with
  | some f =>
    have hm := mem_reverse.mp (mem_of_find?_eq_some hf)
    have hk : f.1 = k := by simpa using find?_some hf
    have hv := Std.ExtTreeMap.mem_toList_iff_getElem?_eq_some.mp hm
    rw [← hk,hv]
    rfl
  | none =>
    cases hv : headers[k]? with
    | none => rfl
    | some v =>
      rw [find?_eq_none] at hf
      have hm := hf (k,v) (mem_reverse.mpr
        (Std.ExtTreeMap.mem_toList_iff_getElem?_eq_some.mpr hv))
      simp at hm

theorem Reads.getHeader_none
    (h : Reads headers strings) {name : Bytes}
    (hnone : ∀ (k v : Bytes), strings[k]? = some v → caseInsensitiveCompare k name = false) :
    headers.getHeader View.text name = none := by
  cases hg : headers.getHeader View.text name with
  | none => rfl
  | some value =>
    obtain ⟨k,e,he,hk,rfl⟩ := ViewMap.getHeader_eq_some hg
    have hv := h.values k
    rw [he,Option.map_some] at hv
    rw [h.keyed k e he,hnone k _ hv.symm] at hk
    cases hk

theorem Reads.getHeader_some
    (h : Reads headers strings) {name key value : Bytes} (hkey : strings[key]? = some value)
    (hname : caseInsensitiveCompare key name = true)
    (hunique : ∀ (k v : Bytes), strings[k]? = some v → caseInsensitiveCompare k name = true → k = key) :
    ∃ view, headers.getHeader View.text name = some view ∧ view.text = value := by
  have hv := h.values key
  rw [hkey,Option.map_eq_some_iff] at hv
  obtain ⟨e,he,hval⟩ := hv
  cases hg : headers.getHeader View.text name with
  | none =>
    unfold ViewMap.getHeader at hg
    rw [Option.map_eq_none_iff,find?_eq_none] at hg
    have hm := hg (key,e) (Std.ExtTreeMap.mem_toList_iff_getElem?_eq_some.mpr he)
    simp only [h.keyed key e he,hname] at hm
    exact absurd trivial hm
  | some view =>
    obtain ⟨k,e',he',hk,rfl⟩ := ViewMap.getHeader_eq_some hg
    have hv' := h.values k
    rw [he',Option.map_some] at hv'
    rw [h.keyed k e' he'] at hk
    have hkk := hunique k _ hv'.symm hk
    subst hkk
    rw [he] at he'
    cases he'
    exact ⟨_,rfl,hval⟩

theorem Reads.toStrings (h : Reads headers strings) :
    headers.toStrings View.text = strings := by
  apply Std.ExtTreeMap.ext_getElem?
  intro k
  have hmem : ∀ e ∈ headers.toList.reverse, headers[e.1]? = some e.2 ∧ e.2.1.text = e.1 := by
    intro e he
    have he' := Std.ExtTreeMap.mem_toList_iff_getElem?_eq_some.mp (mem_reverse.mp he)
    exact ⟨he',h.keyed _ _ he'⟩
  rw [ViewMap.toStrings,
    getElem?_foldl_insert (fun e : Bytes × ByteView × ByteView => e.2.1.text) (fun e => e.2.2.text),
    ← h.values k]
  cases hf : headers.toList.reverse.find? (fun e => e.2.1.text = k) with
  | some e =>
    obtain ⟨he,hkey⟩ := hmem e (mem_of_find?_eq_some hf)
    have hk : e.2.1.text = k := by simpa using find?_some hf
    rw [← hk,hkey,he]
    rfl
  | none =>
    cases hv : headers[k]? with
    | none => simp
    | some e =>
      rw [find?_eq_none] at hf
      have hm := hf (k,e) (mem_reverse.mpr
        (Std.ExtTreeMap.mem_toList_iff_getElem?_eq_some.mpr hv))
      simp [h.keyed k e hv] at hm

/-- The lines hold the given fields, and the fields may follow one another. -/
structure Fields (length encoding : Bool) (count : Nat) (lines : List Bytes)
    (fs : List (Bytes × Bytes)) : Prop where
  fields : lines.map fieldOf = fs.map some
  allowed : FieldsAllowed length encoding fs
  count : count+fs.length ≤ kMaxHeaderCount

variable {headerLines : ByteView}

theorem run_fields (hs : Reads s.headers strings)
    (hfiel : Fields s.sawContentLength s.sawTransferEncoding s.headerCount
      (lines (headerLines.text.drop s.offset)) fs)
    (hfuel : headerLines.size-s.offset < fuel) :
    ∃ headers, run (headerTurn headerLines) fuel s = .ret (true,headers) ∧
      Reads headers (fieldMap fs strings) := by
  induction fuel generalizing s strings fs with
  | zero => omega
  | succ fuel ih =>
    by_cases ho : s.offset < headerLines.size
    · obtain ⟨hf,hall,hcount⟩ := hfiel
      rw [lines_drop ho] at hf
      cases fs with
      | nil => simp at hf
      | cons f fs =>
        simp only [map_cons,cons.injEq] at hf
        obtain ⟨name,value,hcheck,hn,hv⟩ := checkHeaderLine_of_field hf.1 hall.1
        have hreads := hs.assign name value
        rw [hn,hv] at hreads
        simp only [length_cons] at hcount
        have hturn : headerTurn headerLines s = .ok (match find crlf headerLines.text s.offset with
            | none => .leave (true,s.headers.assign name value)
            | some lineEnd => .again ⟨lineEnd+2,s.headerCount+1,lengthFlag f.1 s.sawContentLength,
                encodingFlag f.1 s.sawTransferEncoding,s.headers.assign name value⟩) := by
          simp only [headerTurn,if_pos ho,hcheck]
          rw [if_neg (by omega)]
          cases find crlf headerLines.text s.offset <;> rfl
        cases hend : find crlf headerLines.text s.offset with
        | none =>
          simp only [hend,map_nil] at hf hturn
          obtain rfl : fs = [] := map_eq_nil_iff.mp hf.2.symm
          exact ⟨_,run_leave hturn fuel,hreads⟩
        | some lineEnd =>
          simp only [hend] at hf hturn
          have hb := find_bounds (by decide) hend
          rw [run_again hturn]
          have hrest := ih (s := ⟨lineEnd+2,s.headerCount+1,lengthFlag f.1 s.sawContentLength,
            encodingFlag f.1 s.sawTransferEncoding,s.headers.assign name value⟩) hreads
            ⟨hf.2,hall.2,by simp only; omega⟩ (by simp only; omega)
          exact hrest
    · have hturn : headerTurn headerLines s = .ok (.leave (true,s.headers)) := by
        simp only [headerTurn,if_neg ho]
      have hnil : headerLines.text.drop s.offset = [] :=
        drop_eq_nil_of_le (Nat.le_of_not_lt ho)
      have hf := hfiel.fields
      rw [hnil,lines_nil] at hf
      obtain rfl : fs = [] := map_eq_nil_iff.mp hf.symm
      exact ⟨_,run_leave hturn fuel,hs⟩

theorem fields_of_run
    (h : run (headerTurn headerLines) fuel s = .ret (true,headers))
    (hcount : s.headerCount ≤ kMaxHeaderCount) :
    ∃ fs, Fields s.sawContentLength s.sawTransferEncoding s.headerCount
      (lines (headerLines.text.drop s.offset)) fs := by
  induction fuel generalizing s with
  | zero => cases h
  | succ fuel ih =>
    by_cases ho : s.offset < headerLines.size
    · rw [lines_drop ho]
      cases hcheck : checkHeaderLine (headerLineAt headerLines s.offset
          (find crlf headerLines.text s.offset)) s.sawContentLength s.sawTransferEncoding with
      | none =>
        have hturn : headerTurn headerLines s = .ok (.leave (false,s.headers)) := by
          simp only [headerTurn,if_pos ho,hcheck]
        rw [run_leave hturn] at h
        cases h
      | some r =>
        obtain ⟨name,value,length',encoding'⟩ := r
        obtain ⟨hf,hallow,rfl,rfl⟩ := field_of_checkHeaderLine hcheck
        have hturn : headerTurn headerLines s =
            if kMaxHeaderCount < s.headerCount+1 then .ok (.leave (false,s.headers.assign name value))
            else .ok (match find crlf headerLines.text s.offset with
              | none => .leave (true,s.headers.assign name value)
              | some lineEnd => .again ⟨lineEnd+2,s.headerCount+1,
                  lengthFlag name.text s.sawContentLength,encodingFlag name.text s.sawTransferEncoding,
                  s.headers.assign name value⟩) := by
          simp only [headerTurn,if_pos ho,hcheck]
          cases find crlf headerLines.text s.offset <;> rfl
        split at hturn
        · rw [run_leave hturn] at h
          cases h
        · rename_i hbelow
          cases hend : find crlf headerLines.text s.offset with
          | none =>
            rw [hend] at hf
            exact ⟨[(name.text,value.text)],by simpa using hf,⟨hallow,trivial⟩,
              by simp only [length_singleton]; omega⟩
          | some lineEnd =>
            simp only [hend] at hturn
            rw [run_again hturn] at h
            obtain ⟨fs,hfs,hall,hle⟩ := ih h (by simp only; omega)
            rw [hend] at hf
            refine ⟨(name.text,value.text) :: fs,?_,⟨hallow,hall⟩,?_⟩
            · simp only [map_cons,hf]
              rw [hfs]
            · simp only [length_cons] at hle ⊢
              omega
    · have hnil : headerLines.text.drop s.offset = [] :=
        drop_eq_nil_of_le (Nat.le_of_not_lt ho)
      rw [hnil,lines_nil]
      exact ⟨[],rfl,trivial,hcount⟩

theorem parseHeaderLines_of_fields (h : Fields false false 0 (lines headerLines.text) fs) :
    ∃ headers, parseHeaderLines headerLines = (true,headers) ∧ Reads headers (fieldMap fs ∅) := by
  by_cases hnil : headerLines.text = []
  · have hf := h.fields
    rw [hnil,lines_nil] at hf
    obtain rfl : fs = [] := map_eq_nil_iff.mp hf.symm
    exact ⟨∅,by simp [parseHeaderLines,hnil],reads_empty⟩
  · obtain ⟨headers,hrun,hreads⟩ := run_fields (s := headerScanStart) reads_empty
      (by simpa [headerScanStart] using h)
      (show headerLines.size-headerScanStart.offset < headerLines.size+1 by simp [headerScanStart])
    rw [parseHeaderLines_returns hnil,Outcome.ret.injEq] at hrun
    exact ⟨headers,hrun,hreads⟩

theorem fields_of_parseHeaderLines
    (h : parseHeaderLines headerLines = (true,headers)) :
    ∃ fs, Fields false false 0 (lines headerLines.text) fs ∧ Reads headers (fieldMap fs ∅) := by
  have hfiel : ∃ fs, Fields false false 0 (lines headerLines.text) fs := by
    by_cases hnil : headerLines.text = []
    · rw [hnil,lines_nil]
      exact ⟨[],rfl,trivial,Nat.zero_le _⟩
    · have hret := parseHeaderLines_returns hnil
      rw [h] at hret
      simpa [headerScanStart] using fields_of_run hret (Nat.zero_le _)
  obtain ⟨fs,hfs⟩ := hfiel
  obtain ⟨headers',hparse,hreads⟩ := parseHeaderLines_of_fields hfs
  rw [h] at hparse
  cases hparse
  exact ⟨fs,hfs,hreads⟩

end HttpParser

end FastNet
