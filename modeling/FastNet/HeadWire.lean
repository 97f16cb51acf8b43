import FastNet.HeaderLines

/-!
Heads as they stand on the wire: lines without a carriage return, separated by line
ends. What `HttpParser` writes as header lines it reads back as the same fields.
-/

namespace FastNet

open Text Ctype Numeral Loop List

def sepLines : List Bytes → Bytes
  | [] => []
  | [line] => line
  | line :: lines => line ++ crlf ++ sepLines lines

theorem sepLines_cons (line l : Bytes) (ls : List Bytes) :
    sepLines (line :: l :: ls) = line ++ crlf ++ sepLines (l :: ls) := rfl

theorem sepLines_head (line : Bytes) (lines : List Bytes) (h : line ≠ []) :
    (sepLines (line :: lines)).head? = line.head? := by
  obtain ⟨c,line',rfl⟩ := exists_cons_of_ne_nil h
  cases lines with
  | nil => rfl
  | cons l ls => simp [sepLines_cons]

theorem sepLines_flatMap {lines : List Bytes} (h : lines ≠ []) :
    lines.flatMap (· ++ crlf) = sepLines lines ++ crlf := by
  induction lines with
  | nil => exact absurd rfl h
  | cons line lines ih =>
    cases lines with
    | nil => simp [sepLines]
    | cons l ls =>
      rw [flatMap_cons,ih (by simp),sepLines_cons line l ls]
      simp only [append_assoc]

theorem lines_sepLines {ls : List Bytes} (hcr : ∀ line ∈ ls, 13 ∉ line)
    (hnil : ∀ line ∈ ls, line ≠ []) : lines (sepLines ls) = ls := by
  induction ls with
  | nil => exact lines_nil
  | cons line ls ih =>
    have hline : 13 ∉ line := hcr line (by simp)
    cases ls with
    | nil => exact lines_of_none (hnil line (by simp)) (find_eq_none_of_not_mem hline 0)
    | cons l ls =>
      have hfind : find crlf (sepLines (line :: l :: ls)) 0 = some line.length := by
        rw [sepLines_cons line l ls]
        exact find_cut hline (sepLines (l :: ls))
      have hrest : (sepLines (line :: l :: ls)).drop (line.length+2) = sepLines (l :: ls) := by
        rw [sepLines_cons line l ls]
        exact drop_left' (by simp [crlf])
      rw [lines_of_some hfind,hrest,ih (fun x hx => hcr x (mem_cons_of_mem _ hx))
        (fun x hx => hnil x (mem_cons_of_mem _ hx)),sepLines_cons line l ls,append_assoc,
        take_left]

theorem find_blank_line {lines : List Bytes} (hne : lines ≠ [])
    (hcr : ∀ line ∈ lines, 13 ∉ line) (hnil : ∀ line ∈ lines.tail, line ≠ []) (rest : Bytes) :
    find crlfcrlf (sepLines lines ++ crlfcrlf ++ rest) 0 = some (sepLines lines).length := by
  induction lines with
  | nil => exact absurd rfl hne
  | cons line lines ih =>
    cases lines with
    | nil => exact find_cut (hcr line (by simp)) rest
    | cons l ls =>
      obtain ⟨below,hbelow⟩ : ∃ below, below = sepLines (l :: ls) ++ crlfcrlf ++ rest := ⟨_,rfl⟩
      have htext : sepLines (line :: l :: ls) ++ crlfcrlf ++ rest = line ++ crlf ++ below := by
        rw [hbelow,sepLines_cons line l ls]
        simp only [append_assoc]
      have hhead : below.head? ≠ some 13 := by
        have hl : l ≠ [] := hnil l (by simp)
        obtain ⟨c,l',rfl⟩ := exists_cons_of_ne_nil hl
        rw [hbelow,append_assoc,head?_append,sepLines_head _ _ hl]
        rintro ⟨⟩
        exact hcr (13 :: l') (by simp) (by simp)
      -- no occurrence begins in the first line or in its line end
      have hskip : ∀ j < (line ++ crlf).length, ¬ OccursAt crlfcrlf (line ++ crlf ++ below) j := by
        intro j hj hocc
        simp only [crlf,length_append,length_cons,length_nil] at hj
        have hfirst := hocc.head
        rcases Nat.lt_trichotomy j line.length with h | h | h
        · rw [append_assoc,getElem?_append_left h] at hfirst
          exact hcr line (by simp) (mem_of_getElem? hfirst)
        · subst h
          unfold OccursAt at hocc
          rw [append_assoc,drop_left,show crlfcrlf = crlf ++ crlf from rfl,prefix_append_right_inj] at hocc
          obtain ⟨t,ht⟩ := hocc
          rw [← ht] at hhead
          exact hhead rfl
        · have hj' : j = line.length+1 := by omega
          subst hj'
          simp [crlf] at hfirst
      have ih' := ih (by simp) (fun l hl => hcr l (mem_cons_of_mem _ hl))
        (fun l hl => hnil l (mem_of_mem_tail hl))
      rw [htext,find_skip hskip,← Nat.add_zero (line ++ crlf).length,
        find_drop _ _ _ _ (by simp),drop_left,hbelow,ih',sepLines_cons line l ls]
      simp only [Option.map_some,length_append]

theorem find_first_line {lines : List Bytes} {line : Bytes} (hcr : 13 ∉ line) (rest : Bytes) :
    find crlf (sepLines (line :: lines) ++ crlfcrlf ++ rest) 0 = some line.length := by
  cases lines with
  | nil =>
    have h := @find_cut _ 13 [10] line _ hcr (crlf ++ rest)
    simpa [sepLines,crlfcrlf,crlf] using h
  | cons l ls =>
    have h := @find_cut _ 13 [10] line _ hcr (sepLines (l :: ls) ++ crlfcrlf ++ rest)
    simpa [sepLines_cons,crlf] using h

namespace Numeral

theorem decimalDigit_ofNat {d : Nat} (h : d < 10) :
    decimalDigit (UInt8.ofNat (if d < 10 then 48+d else 87+d)) = some d := by
  interval_cases d <;> decide

theorem hexDigit_ofNat {d : Nat} (h : d < 16) :
    hexDigit (UInt8.ofNat (if d < 10 then 48+d else 87+d)) = some d := by
  interval_cases d <;> decide

theorem valueFrom_reverse (base : Nat) (ds : List Nat) :
    valueFrom base 0 ds.reverse = Nat.ofDigits base ds := by
  induction ds with
  | nil => rfl
  | cons d ds ih =>
    rw [reverse_cons,valueFrom_append,ih,Nat.ofDigits_cons]
    simp only [valueFrom,foldl_cons,foldl_nil]
    rw [Nat.mul_comm,Nat.add_comm]

end Numeral

namespace HttpParser

variable {n kMaxLineSize headerEnd : Nat} {c : UInt8} {version : Bytes} {f : Bytes × Bytes}
variable {headerLines data : ByteView} {fs : List (Bytes × Bytes)}

theorem isSome_of_mapM {α β : Type} {f : α → Option β} {l : List α} {l' : List β}
    (h : l.mapM f = some l') : ∀ a ∈ l, ∃ b, f a = some b := by
  induction l generalizing l' with
  | nil => simp
  | cons a l ih =>
    simp only [mapM_cons,Option.bind_eq_bind,Option.bind_eq_some_iff] at h
    obtain ⟨b,hb,bs,hbs,-⟩ := h
    intro x hx
    rcases mem_cons.mp hx with rfl | hx
    · exact ⟨b,hb⟩
    · exact ih hbs x hx

section ToChars

variable {digit : UInt8 → Option Nat} {base : Nat}

theorem mapM_digit (hdigit : ∀ d < base, digit (UInt8.ofNat (if d < 10 then 48+d else 87+d)) = some d)
    {ds : List Nat} (h : ∀ d ∈ ds, d < base) :
    (ds.map (fun d => UInt8.ofNat (if d < 10 then 48+d else 87+d))).mapM digit = some ds := by
  induction ds with
  | nil => rfl
  | cons d ds ih =>
    rw [map_cons,mapM_cons,hdigit d (h d (by simp)),ih (fun x hx => h x (mem_cons_of_mem _ hx))]
    rfl

theorem mapM_toChars (hbase : 1 < base)
    (hdigit : ∀ d < base, digit (UInt8.ofNat (if d < 10 then 48+d else 87+d)) = some d) (n : Nat) :
    toChars base n ≠ [] ∧ ∃ ds, (toChars base n).mapM digit = some ds ∧ valueFrom base 0 ds = n := by
  by_cases hz : n = 0
  · subst hz
    have hzero : [48].mapM digit = some [0] := @mapM_digit digit base hdigit [0] (by simp; omega)
    exact ⟨by simp [toChars],[0],by simpa [toChars] using hzero,by simp [valueFrom]⟩
  · refine ⟨by simp [toChars,hz,Nat.digits_eq_nil_iff_eq_zero],(Nat.digits base n).reverse,?_,?_⟩
    · rw [toChars,if_neg hz,mapM_digit hdigit]
      intro d hd
      exact Nat.digits_lt_base hbase (mem_reverse.mp hd)
    · rw [valueFrom_reverse,Nat.ofDigits_digits]

theorem digit_of_mem_toChars (hbase : 1 < base)
    (hdigit : ∀ d < base, digit (UInt8.ofNat (if d < 10 then 48+d else 87+d)) = some d) {n : Nat}
    {c : UInt8} (hc : c ∈ toChars base n) : (digit c).isSome = true := by
  obtain ⟨-,ds,hds,-⟩ := mapM_toChars hbase hdigit n
  exact Option.isSome_iff_exists.mpr (isSome_of_mapM hds c hc)

end ToChars

theorem parseUnsignedDecimal_toChars (hn : n ≤ sizeMax) :
    parseUnsignedDecimal (toChars 10 n) = some n := by
  obtain ⟨hne,ds,hds,hvalue⟩ := mapM_toChars (by decide) (fun _ => decimalDigit_ofNat) n
  exact parseUnsignedDecimal_eq_some_iff.mpr ⟨hne,ds,hds,hvalue,hn⟩

theorem mem_toChars (hc : c ∈ toChars 10 n) : (decimalDigit c).isSome = true :=
  digit_of_mem_toChars (by decide) (fun _ => decimalDigit_ofNat) hc

theorem isTokenCharacter_not_space (h : isTokenCharacter c = true) :
    isSpace c = false := by
  cases hs : isSpace c with
  | false => rfl
  | true =>
    have hc : c = 32 ∨ c = 9 ∨ c = 10 ∨ c = 11 ∨ c = 12 ∨ c = 13 := by
      simp only [isSpace,decide_eq_true_eq] at hs
      simp only [← UInt8.toNat_inj]
      simp
      omega
    rcases hc with rfl | rfl | rfl | rfl | rfl | rfl <;> revert h <;> decide

theorem isTokenCharacter_ne (h : isTokenCharacter c = true) : c ≠ 58 ∧ c ≠ 13 := by
  constructor <;> rintro rfl <;> revert h <;> decide

theorem isValidHeaderName_spec {name : Bytes} (h : isValidHeaderName name = true) :
    name ≠ [] ∧ ∀ c ∈ name, isTokenCharacter c = true := by
  simpa [isValidHeaderName] using h

theorem trim_name {name : Bytes} (h : isValidHeaderName name = true) :
    Text.trim isSpace name = name := by
  obtain ⟨-,htok⟩ := isValidHeaderName_spec h
  exact trim_eq_self _ (fun c hc => isTokenCharacter_not_space (htok c (mem_of_mem_head? hc)))
    (fun c hc => isTokenCharacter_not_space (htok c (mem_of_mem_getLast? hc)))

theorem isValidHttpVersion_iff :
    isValidHttpVersion version = true ↔
      ∃ a b, isDigit a = true ∧ isDigit b = true ∧ version = ascii "HTTP/" ++ [a,46,b] := by
  constructor
  · intro h
    simp only [isValidHttpVersion,Bool.and_eq_true,decide_eq_true_eq] at h
    obtain ⟨⟨hlen,htake⟩,⟨ha,hdot⟩,hb⟩ := h
    have hrest : (version.drop 5).length = 3 := by simp [hlen]
    obtain ⟨a,d,b,habd⟩ := length_eq_three.mp hrest
    have hver : version = ascii "HTTP/" ++ [a,d,b] := by
      rw [← take_append_drop 5 version,htake,habd]
    have hfive : (ascii "HTTP/").length = 5 := by decide +kernel
    rw [hver] at ha hdot hb
    rw [getElem?_append_right (by omega),hfive] at ha hdot hb
    simp only [Nat.sub_self,getElem?_cons_zero,Option.any_some,Nat.reduceSub,
      getElem?_cons_succ,Option.some.injEq] at ha hdot hb
    subst hdot
    exact ⟨a,b,ha,hb,hver⟩
  · rintro ⟨a,b,ha,hb,rfl⟩
    have hfive : (ascii "HTTP/").length = 5 := by decide +kernel
    simp [isValidHttpVersion,hfive,ha,hb]

theorem not_mem_version (h : isValidHttpVersion version = true)
    (hc : isSpace c = true) : c ∉ version := by
  obtain ⟨a,b,ha,hb,rfl⟩ := isValidHttpVersion_iff.mp h
  have hdigit (d : UInt8) (hd : isDigit d = true) : isSpace d = false :=
    not_isSpace_of_decimalDigit (by simp [decimalDigit,hd])
  have hname : ∀ d ∈ ascii "HTTP/", isSpace d = false := by decide +kernel
  intro hm
  have hno : isSpace c = false := by
    simp only [mem_append,mem_cons,not_mem_nil,or_false] at hm
    rcases hm with hm | rfl | rfl | rfl
    · exact hname c hm
    · exact hdigit _ ha
    · decide
    · exact hdigit _ hb
  rw [hc] at hno
  cases hno

def rawLine (f : Bytes × Bytes) : Bytes := f.1 ++ [58] ++ f.2

theorem rawLine_noReturn (hname : isValidHeaderName f.1 = true) (hvalue : 13 ∉ f.2) :
    13 ∉ rawLine f := by
  obtain ⟨-,htok⟩ := isValidHeaderName_spec hname
  intro hm
  simp only [rawLine,mem_append] at hm
  rcases hm with (hm | hm) | hm
  · exact (isTokenCharacter_ne (htok _ hm)).2 rfl
  · revert hm
    decide
  · exact hvalue hm

theorem fieldOf_rawLine (hname : isValidHeaderName f.1 = true)
    (hsize : (rawLine f).length ≤ kMaxHeaderLineSize) :
    fieldOf (rawLine f) = some (f.1,HttpParser.trim f.2) := by
  obtain ⟨hne,htok⟩ := isValidHeaderName_spec hname
  obtain ⟨c,rest,hcons⟩ := exists_cons_of_ne_nil hne
  have hspace : isSpace c = false := isTokenCharacter_not_space (htok c (by simp [hcons]))
  have hhead : (rawLine f).head? = some c := by
    simp [rawLine,hcons]
  have hstart : ¬ (rawLine f = [] ∨ kMaxHeaderLineSize < (rawLine f).length ∨
      (rawLine f).head? = some 32 ∨ (rawLine f).head? = some 9) := by
    rintro (h | h | h | h)
    · simp [h] at hhead
    · omega
    · rw [hhead] at h
      cases h
      revert hspace
      decide
    · rw [hhead] at h
      cases h
      revert hspace
      decide
  have hcolon : find [58] (rawLine f) 0 = some (rest.length+1) := by
    have h := @find_cut _ 58 [] f.1 _ (fun hm => (isTokenCharacter_ne (htok _ hm)).1 rfl) f.2
    rw [rawLine,h,hcons]
    rfl
  have hn : HttpParser.trim ((rawLine f).take (rest.length+1)) = f.1 := by
    rw [rawLine,append_assoc,take_left' (by simp [hcons])]
    exact trim_name hname
  have hv : (rawLine f).drop (rest.length+1+1) = f.2 := by
    rw [rawLine]
    exact drop_left' (by simp [hcons])
  unfold fieldOf
  rw [if_neg hstart,hcolon]
  simp only [hn,hv,hname,if_true]

def fieldLine (f : Bytes × Bytes) : Bytes := f.1 ++ ascii ": " ++ f.2

structure ValidField (f : Bytes × Bytes) : Prop where
  name : isValidHeaderName f.1 = true
  noReturn : 13 ∉ f.2
  trimmed : Text.trim isSpace f.2 = f.2
  size : (fieldLine f).length ≤ kMaxHeaderLineSize

theorem fieldLine_eq (f : Bytes × Bytes) : fieldLine f = rawLine (f.1,32 :: f.2) := by
  simp [fieldLine,rawLine,ascii]

theorem fieldLine_noReturn (h : ValidField f) : 13 ∉ fieldLine f := by
  rw [fieldLine_eq]
  exact rawLine_noReturn h.name (by simpa using h.noReturn)

theorem fieldLine_ne_nil (f : Bytes × Bytes) : fieldLine f ≠ [] := by
  simp [fieldLine,ascii]

theorem fieldOf_fieldLine (h : ValidField f) : fieldOf (fieldLine f) = some f := by
  have hsize := h.size
  rw [fieldLine_eq] at hsize ⊢
  have hname : isValidHeaderName (f.1,32 :: f.2).1 = true := h.name
  rw [fieldOf_rawLine hname hsize,HttpParser.trim,trim_cons_of_pos _ (by decide),h.trimmed]

theorem parseHeaderLines_fields
    (hvalid : ∀ f ∈ fs, ValidField f) (hallow : FieldsAllowed false false fs)
    (hcount : fs.length ≤ kMaxHeaderCount) (htext : headerLines.text = sepLines (fs.map fieldLine)) :
    ∃ headers, parseHeaderLines headerLines = (true,headers) ∧ Reads headers (fieldMap fs ∅) := by
  have hlines : lines headerLines.text = fs.map fieldLine := by
    rw [htext]
    refine lines_sepLines (fun line hline => ?_) (fun line hline => ?_)
    · obtain ⟨f,hf,rfl⟩ := mem_map.mp hline
      exact fieldLine_noReturn (hvalid f hf)
    · obtain ⟨f,-,rfl⟩ := mem_map.mp hline
      exact fieldLine_ne_nil f
  refine parseHeaderLines_of_fields ⟨?_,hallow,by omega⟩
  rw [hlines,map_map]
  exact map_congr_left (fun f hf => fieldOf_fieldLine (hvalid f hf))

theorem splitHead_lines {first : Bytes} {lines : List Bytes}
    (hne : lines ≠ []) (hcr : ∀ line ∈ first :: lines, 13 ∉ line)
    (hnil : ∀ line ∈ lines, line ≠ []) (hfirst : first.length ≤ kMaxLineSize)
    (hsize : (sepLines (first :: lines)).length ≤ kMaxHeaderSectionSize)
    {rest : Bytes} (htext : data.text = sepLines (first :: lines) ++ crlfcrlf ++ rest) :
    ∃ firstLine headerLines, splitHead kMaxLineSize data = some (firstLine,headerLines) ∧
      firstLine.text = first ∧ headerLines.text = sepLines lines := by
  have hblank := find_blank_line (by simp) hcr hnil rest
  have hline := @find_first_line lines first (hcr first (by simp)) rest
  rw [← htext] at hblank hline
  obtain ⟨l,ls,rfl⟩ := exists_cons_of_ne_nil hne
  have hdata : data.text ≠ [] := by
    rw [htext]
    simp [crlfcrlf]
  have hlen : (sepLines (first :: l :: ls)).length = first.length+2+(sepLines (l :: ls)).length := by
    rw [sepLines_cons first l ls]
    simp only [crlf,length_append,length_cons,length_nil]
  have hsub : sizeSub (sepLines (first :: l :: ls)).length (first.length+2) =
      (sepLines (l :: ls)).length := by
    unfold sizeSub
    unfold kMaxHeaderSectionSize at hsize
    omega
  refine ⟨data.sub 0 first.length,data.sub (first.length+2) (sepLines (l :: ls)).length,
    ?_,?_,?_⟩
  · simp only [splitHead,if_neg hdata,hblank,hline,hsub]
    rw [if_neg (by omega),if_neg (by omega)]
  · rw [View.sub_text,htext,sepLines_cons first l ls]
    simp
  · rw [View.sub_text,htext,sepLines_cons first l ls]
    simp [append_assoc,crlf]

theorem parseHeaderLines_of_blank (h : crlf <+: headerLines.text) :
    (parseHeaderLines headerLines).1 = false := by
  obtain ⟨t,ht⟩ := h
  have hne : headerLines.text ≠ [] := by simp [← ht,crlf]
  have hpos : (0 : Nat) < headerLines.size := length_pos_iff.mpr hne
  have hf : find crlf headerLines.text 0 = some 0 := by
    rw [← ht]
    exact @find_cut _ 13 [10] [] _ (by simp) t
  have hturn : headerTurn headerLines headerScanStart = .ok (.leave (false,∅)) := by
    simp [headerTurn,headerScanStart,hpos,hf,headerLineAt,checkHeaderLine]
  have hret := parseHeaderLines_returns hne
  rw [run_leave hturn,Outcome.ret.injEq] at hret
  rw [← hret]

theorem lineEnd_cases {data : Bytes} {lineEnd : Nat}
    (he : find crlfcrlf data 0 = some headerEnd) (hl : find crlf data 0 = some lineEnd) :
    lineEnd = headerEnd ∨ lineEnd+2 ≤ headerEnd := by
  obtain ⟨-,-,hblank,-⟩ := find_spec he
  obtain ⟨-,-,hline,hmin⟩ := find_spec hl
  have hcrlf : OccursAt crlf data headerEnd := (show crlf <+: crlfcrlf by decide).trans hblank
  have hle : lineEnd ≤ headerEnd := by
    by_contra hlt
    exact hmin headerEnd (Nat.zero_le _) (by omega) hcrlf
  by_contra hne
  obtain rfl : headerEnd = lineEnd+1 := by omega
  have hten : data[lineEnd+1]? = some 10 := by
    obtain ⟨t,ht⟩ := hline
    have hget := congrArg (fun l => l[1]?) ht
    simpa [crlf] using hget.symm
  have hret := hcrlf.head
  rw [hten] at hret
  cases hret

theorem sizeSub_eq {headerLinesOffset : Nat} (hle : headerLinesOffset ≤ headerEnd)
    (hsec : headerEnd ≤ kMaxHeaderSectionSize) :
    sizeSub headerEnd headerLinesOffset = headerEnd-headerLinesOffset := by
  unfold sizeSub
  unfold kMaxHeaderSectionSize at hsec
  omega

/-- The two parts of an accepted head. Without a header line between the first line and the
blank one, the blank line would be taken for the first header line. -/
theorem splitHead_accepted {line : ByteView} {headers : ViewMap}
    (h : splitHead kMaxLineSize data = some (line,headerLines))
    (hparse : parseHeaderLines headerLines = (true,headers)) :
    ∃ headerEnd lineEnd, find crlfcrlf data.text 0 = some headerEnd ∧
      find crlf data.text 0 = some lineEnd ∧ lineEnd+2 ≤ headerEnd ∧
      headerEnd ≤ kMaxHeaderSectionSize ∧ lineEnd ≤ kMaxLineSize ∧ line = data.sub 0 lineEnd ∧
      headerLines = data.sub (lineEnd+2) (headerEnd-(lineEnd+2)) := by
  unfold splitHead at h
  split at h
  · cases h
  cases he : find crlfcrlf data.text 0 with
  | none => simp [he] at h
  | some headerEnd =>
    cases hl : find crlf data.text 0 with
    | none => simp [he,hl] at h
    | some lineEnd =>
      simp only [he,hl,Option.ite_none_left_eq_some,Option.some.injEq,Prod.mk.injEq] at h
      obtain ⟨hsec,hline,rfl,rfl⟩ := h
      rcases lineEnd_cases he hl with heq | hle
      · subst heq
        have hbig : 2 ≤ sizeSub lineEnd (lineEnd+2) := by
          unfold sizeSub
          unfold kMaxHeaderSectionSize at hsec
          omega
        have hfront : crlf <+: (data.sub (lineEnd+2) (sizeSub lineEnd (lineEnd+2))).text := by
          obtain ⟨t,ht⟩ := (find_spec he).2.2.1
          rw [View.sub_text,← drop_drop,← ht]
          exact prefix_take_iff.mpr ⟨⟨t,rfl⟩,hbig⟩
        have hblank := parseHeaderLines_of_blank hfront
        rw [hparse] at hblank
        cases hblank
      · exact ⟨headerEnd,lineEnd,rfl,rfl,hle,by omega,by omega,rfl,
          by rw [sizeSub_eq hle (by omega)]⟩

def PlainName (name : Bytes) : Prop :=
  caseInsensitiveCompare name (ascii "Content-Length") = false ∧
    caseInsensitiveCompare name (ascii "Transfer-Encoding") = false

def lengthField (n : Nat) : Bytes × Bytes := (ascii "Content-Length",toChars 10 n)

theorem fieldsAllowed_of_plain (h : ∀ f ∈ fs, PlainName f.1)
    (hn : n ≤ sizeMax) : FieldsAllowed false false (fs ++ [lengthField n]) := by
  induction fs with
  | nil =>
    have hname : caseInsensitiveCompare (ascii "Content-Length") (ascii "Content-Length") = true := by
      decide +kernel
    simp [FieldsAllowed,FramingAllows,lengthFlag,encodingFlag,lengthField,hname,parseUnsignedDecimal_toChars hn]
  | cons f fs ih =>
    obtain ⟨hl,he⟩ := h f (by simp)
    have hrest := ih (fun g hg => h g (mem_cons_of_mem _ hg))
    rw [cons_append,FieldsAllowed]
    simpa [FramingAllows,lengthFlag,encodingFlag,hl,he] using hrest

theorem lengthField_valid (hn : (fieldLine (lengthField n)).length ≤ kMaxHeaderLineSize) :
    ValidField (lengthField n) := by
  have hdigit (c : UInt8) (hc : c ∈ toChars 10 n) : isSpace c = false :=
    not_isSpace_of_decimalDigit (mem_toChars hc)
  have hname : isValidHeaderName (ascii "Content-Length") = true := by decide +kernel
  refine ⟨hname,fun hm => absurd (hdigit 13 hm) (by decide),?_,hn⟩
  exact trim_eq_self _ (fun c hc => hdigit c (mem_of_mem_head? hc))
    (fun c hc => hdigit c (mem_of_mem_getLast? hc))

theorem parseHeaderLines_plain
    (hplain : ∀ f ∈ fs, PlainName f.1) (hvalid : ∀ f ∈ fs ++ [lengthField n], ValidField f)
    (hcount : fs.length+1 ≤ kMaxHeaderCount) (hn : n ≤ sizeMax)
    (htext : headerLines.text = sepLines ((fs ++ [lengthField n]).map fieldLine)) :
    ∃ headers, parseHeaderLines headerLines = (true,headers) ∧
      Reads headers (fieldMap (fs ++ [lengthField n]) ∅) ∧
      declaredLength headers = some n ∧
      headers.getHeader View.text (ascii "Transfer-Encoding") = none := by
  obtain ⟨headers,hparse,hreads⟩ := parseHeaderLines_fields hvalid
    (fieldsAllowed_of_plain hplain hn) (by simpa using hcount) htext
  have hkeys (k v : Bytes) (hk : (fieldMap (fs ++ [lengthField n]) ∅)[k]? = some v) :
      k = ascii "Content-Length" ∨ PlainName k := by
    rw [fieldMap_getElem?,Option.map_eq_some_iff] at hk
    obtain ⟨f,hf,-⟩ := hk
    have hname : f.1 = k := by simpa using find?_some hf
    have hm := mem_reverse.mp (mem_of_find?_eq_some hf)
    rcases mem_append.mp hm with hm | hm
    · exact .inr (hname ▸ hplain f hm)
    · rw [mem_singleton] at hm
      exact .inl (by rw [← hname,hm]; rfl)
  have hlen : (fieldMap (fs ++ [lengthField n]) ∅)[ascii "Content-Length"]? =
      some (toChars 10 n) := by
    rw [fieldMap_getElem?]
    simp [lengthField]
  obtain ⟨view,hview,htext'⟩ := hreads.getHeader_some hlen
    (show caseInsensitiveCompare _ (ascii "Content-Length") = true by decide +kernel)
    (fun k v hk hname => by
      rcases hkeys k v hk with h | h
      · exact h
      · rw [h.1] at hname
        cases hname)
  refine ⟨headers,hparse,hreads,?_,?_⟩
  · rw [declaredLength,hview,Option.bind_some,htext',parseUnsignedDecimal_toChars hn]
  · refine hreads.getHeader_none (fun k v hk => ?_)
    rcases hkeys k v hk with h | h
    · rw [h]
      decide +kernel
    · exact h.2

/-- A head as both writers make it, up to the blank line: a first line, plain fields and
the length of the body. -/
def headText (line : Bytes) (fs : List (Bytes × Bytes)) (n : Nat) : Bytes :=
  sepLines (line :: (fs ++ [lengthField n]).map fieldLine)

theorem headText_eq (line : Bytes) (fs : List (Bytes × Bytes)) (n : Nat) :
    headText line fs n ++ crlfcrlf =
      line ++ crlf ++ fs.flatMap (fun f => appendHeaderLine f.1 f.2) ++
        (ascii "Content-Length: " ++ toChars 10 n ++ crlf) ++ crlf := by
  have hlines := @sepLines_flatMap (line :: (fs ++ [lengthField n]).map fieldLine) (by simp)
  have hname : ascii "Content-Length: " = ascii "Content-Length" ++ ascii ": " := by decide +kernel
  rw [show crlfcrlf = crlf ++ crlf from rfl,← append_assoc,headText,← hlines]
  simp [flatMap_append,flatMap_map,lengthField,fieldLine,appendHeaderLine,hname]

structure WithinLimits (kMaxLineSize : Nat) (line : Bytes) (fs : List (Bytes × Bytes)) (n : Nat) :
    Prop where
  lineSize : line.length ≤ kMaxLineSize
  fieldSize : ∀ f ∈ fs ++ [lengthField n], (fieldLine f).length ≤ kMaxHeaderLineSize
  count : fs.length+1 ≤ kMaxHeaderCount
  size : (headText line fs n).length ≤ kMaxHeaderSectionSize

/-- A field whose value can stand on a line, and that says nothing about the framing. -/
structure PlainField (f : Bytes × Bytes) : Prop where
  name : isValidHeaderName f.1 = true
  plain : PlainName f.1
  noReturn : 13 ∉ f.2
  trimmed : Text.trim isSpace f.2 = f.2

structure WrittenHead (kMaxLineSize : Nat) (line : Bytes) (fs : List (Bytes × Bytes)) (n : Nat) :
    Prop extends WithinLimits kMaxLineSize line fs n where
  noReturn : 13 ∉ line
  fields : ∀ f ∈ fs, PlainField f
  length : n ≤ sizeMax

namespace WrittenHead

variable {kMaxLineSize : Nat} {line : Bytes} {fs : List (Bytes × Bytes)} {n : Nat}

theorem valid (h : WrittenHead kMaxLineSize line fs n) :
    ∀ f ∈ fs ++ [lengthField n], ValidField f := by
  intro f hf
  have hsize := h.fieldSize f hf
  rcases mem_append.mp hf with hf | hf
  · have hp := h.fields f hf
    exact ⟨hp.name,hp.noReturn,hp.trimmed,hsize⟩
  · obtain rfl := mem_singleton.mp hf
    exact lengthField_valid hsize

theorem lines_noReturn (h : WrittenHead kMaxLineSize line fs n) :
    ∀ l ∈ line :: (fs ++ [lengthField n]).map fieldLine, 13 ∉ l := by
  intro l hl
  rcases mem_cons.mp hl with rfl | hl
  · exact h.noReturn
  · obtain ⟨f,hf,rfl⟩ := mem_map.mp hl
    exact fieldLine_noReturn (h.valid f hf)

theorem lines_ne_nil (fs : List (Bytes × Bytes)) : ∀ l ∈ fs.map fieldLine, l ≠ [] := by
  intro l hl
  obtain ⟨f,-,rfl⟩ := mem_map.mp hl
  exact fieldLine_ne_nil f

theorem find_end (h : WrittenHead kMaxLineSize line fs n) (rest : Bytes) :
    find crlfcrlf (headText line fs n ++ crlfcrlf ++ rest) 0 = some (headText line fs n).length :=
  find_blank_line (by simp) h.lines_noReturn (lines_ne_nil _) rest

theorem split (h : WrittenHead kMaxLineSize line fs n) {data : ByteView} {rest : Bytes}
    (htext : data.text = headText line fs n ++ crlfcrlf ++ rest) :
    ∃ firstLine headerLines headers,
      splitHead kMaxLineSize data = some (firstLine,headerLines) ∧ firstLine.text = line ∧
      parseHeaderLines headerLines = (true,headers) ∧
      Reads headers (fieldMap (fs ++ [lengthField n]) ∅) ∧ declaredLength headers = some n ∧
      headers.getHeader View.text (ascii "Transfer-Encoding") = none := by
  obtain ⟨firstLine,headerLines,hsplit,hfirst,hlines⟩ := splitHead_lines (by simp)
    h.lines_noReturn (lines_ne_nil _) h.lineSize h.size htext
  obtain ⟨headers,hparse,hreads⟩ := parseHeaderLines_plain
    (fun f hf => (h.fields f hf).plain) h.valid h.count h.length hlines
  exact ⟨firstLine,headerLines,headers,hsplit,hfirst,hparse,hreads⟩

end WrittenHead

end HttpParser

end FastNet
