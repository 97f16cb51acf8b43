import FastNet.RequestWire
import FastNet.ResponseWire

/-!
Heads that say nothing about the length of a body, as both sides of an upgrade write them.
-/

namespace FastNet.HttpParser

open Text List

section Bare

variable {kMaxLineSize : Nat} {line : Bytes} {fs : List (Bytes × Bytes)}
variable {rest : Bytes} {data : ByteView}

def bareText (line : Bytes) (fs : List (Bytes × Bytes)) : Bytes := sepLines (line :: fs.map fieldLine)

theorem bareText_eq (line : Bytes) (fs : List (Bytes × Bytes)) :
    bareText line fs ++ crlfcrlf =
      line ++ crlf ++ fs.flatMap (fun f => appendHeaderLine f.1 f.2) ++ crlf := by
  have hlines := @sepLines_flatMap (line :: fs.map fieldLine) (by simp)
  rw [show crlfcrlf = crlf ++ crlf from rfl,← append_assoc,bareText,← hlines]
  simp [flatMap_map,fieldLine,appendHeaderLine]

theorem bareText_size (line : Bytes) (fs : List (Bytes × Bytes)) :
    (bareText line fs ++ crlfcrlf).length = (bareText line fs).length+4 := by
  rw [length_append]
  rfl

theorem bareText_sub {raw : ByteView} (htext : raw.text = bareText line fs ++ crlfcrlf ++ rest) :
    (raw.sub 0 ((bareText line fs).length+4)).text = bareText line fs ++ crlfcrlf ++ [] := by
  rw [View.sub_text,htext,drop_zero,← bareText_size,take_left',append_nil]
  rfl

structure BareHead (kMaxLineSize : Nat) (line : Bytes) (fs : List (Bytes × Bytes)) : Prop where
  lineSize : line.length ≤ kMaxLineSize
  fieldSize : ∀ f ∈ fs, (fieldLine f).length ≤ kMaxHeaderLineSize
  count : fs.length ≤ kMaxHeaderCount
  size : (bareText line fs).length ≤ kMaxHeaderSectionSize
  noReturn : 13 ∉ line
  fields : ∀ f ∈ fs, PlainField f
  nonempty : fs ≠ []

section

variable (h : BareHead kMaxLineSize line fs)
include h

theorem BareHead.valid : ∀ f ∈ fs, ValidField f := by
  intro f hf
  have hp := h.fields f hf
  exact ⟨hp.name,hp.noReturn,hp.trimmed,h.fieldSize f hf⟩

theorem BareHead.lines_noReturn : ∀ l ∈ line :: fs.map fieldLine, 13 ∉ l := by
  intro l hl
  rcases mem_cons.mp hl with rfl | hl
  · exact h.noReturn
  · obtain ⟨f,hf,rfl⟩ := mem_map.mp hl
    exact fieldLine_noReturn (h.valid f hf)

theorem BareHead.find_end (rest : Bytes) :
    find crlfcrlf (bareText line fs ++ crlfcrlf ++ rest) 0 = some (bareText line fs).length :=
  find_blank_line (by simp) h.lines_noReturn (WrittenHead.lines_ne_nil _) rest

end

theorem fieldsAllowed_plain (h : ∀ f ∈ fs, PlainName f.1) : FieldsAllowed false false fs := by
  induction fs with
  | nil => trivial
  | cons f fs ih =>
    obtain ⟨hl,he⟩ := h f (by simp)
    have hrest := ih (fun g hg => h g (mem_cons_of_mem _ hg))
    rw [FieldsAllowed]
    simpa [FramingAllows,lengthFlag,encodingFlag,hl,he] using hrest

theorem mem_of_fieldMap {k v : Bytes} (h : (fieldMap fs ∅)[k]? = some v) : (k,v) ∈ fs := by
  rw [fieldMap_getElem?,Option.map_eq_some_iff] at h
  obtain ⟨f,hf,rfl⟩ := h
  have hname : f.1 = k := by simpa using find?_some hf
  have hmem := mem_reverse.mp (mem_of_find?_eq_some hf)
  rwa [← hname]

theorem BareHead.split (h : BareHead kMaxLineSize line fs)
    (htext : data.text = bareText line fs ++ crlfcrlf ++ rest) :
    ∃ firstLine headerLines headers, splitHead kMaxLineSize data = some (firstLine,headerLines) ∧
      firstLine.text = line ∧ parseHeaderLines headerLines = (true,headers) ∧ Reads headers (fieldMap fs ∅) := by
  obtain ⟨firstLine,headerLines,hsplit,hfirst,hlines⟩ := splitHead_lines (by simpa using h.nonempty)
    h.lines_noReturn (WrittenHead.lines_ne_nil _) h.lineSize h.size htext
  obtain ⟨headers,hparse,hreads⟩ := parseHeaderLines_fields h.valid
    (fieldsAllowed_plain (fun f hf => (h.fields f hf).plain)) h.count hlines
  exact ⟨firstLine,headerLines,headers,hsplit,hfirst,hparse,hreads⟩

section Lookup

variable {headers : ViewMap}

theorem Reads.lookup (h : Reads headers (fieldMap fs ∅)) {name value : Bytes} (hmem : (name,value) ∈ fs)
    (hunique : ∀ f ∈ fs, caseInsensitiveCompare f.1 name = true → f = (name,value)) :
    (headers.getHeader View.text name).map View.text = some value := by
  have hself : caseInsensitiveCompare name name = true := by simp [caseInsensitiveCompare]
  have hkey : (fieldMap fs ∅)[name]? = some value := by
    rw [fieldMap_getElem?]
    cases hf : fs.reverse.find? (fun f => f.1 = name) with
    | none =>
      have hnone := find?_eq_none.mp hf (name,value) (mem_reverse.mpr hmem)
      simp at hnone
    | some f =>
      have hname : f.1 = name := by simpa using find?_some hf
      have hfs := mem_reverse.mp (mem_of_find?_eq_some hf)
      rw [hunique f hfs (hname ▸ hself)]
      rfl
  obtain ⟨view,hview,htext⟩ := h.getHeader_some hkey hself
    (fun k v hk hname => congrArg Prod.fst (hunique (k,v) (mem_of_fieldMap hk) hname))
  rw [hview,Option.map_some,htext]

theorem Reads.lookup_none (h : Reads headers (fieldMap fs ∅)) {name : Bytes}
    (hnone : ∀ f ∈ fs, caseInsensitiveCompare f.1 name = false) : headers.getHeader View.text name = none :=
  h.getHeader_none (fun k v hk => hnone (k,v) (mem_of_fieldMap hk))

end Lookup

theorem parseRequest_bare {method target : Bytes}
    (hhead : BareHead kMaxRequestLineSize (method ++ [32] ++ target ++ ascii " HTTP/1.1") fs)
    (hname : isValidHeaderName method = true) (hne : target ≠ []) (hspace : 32 ∉ target)
    (htext : data.text = bareText (method ++ [32] ++ target ++ ascii " HTTP/1.1") fs ++ crlfcrlf ++ rest) :
    ∃ view, parseRequest data = (true,view) ∧ Reads view.headers (fieldMap fs ∅) := by
  obtain ⟨firstLine,headerLines,headers,hsplit,hfirst,hparse,hreads⟩ := hhead.split htext
  have hver : ascii " HTTP/1.1" = [32] ++ ascii "HTTP/1.1" := by decide +kernel
  rw [hver,← append_assoc] at hfirst
  obtain ⟨m,t,v,hline,-,-,-⟩ := splitRequestLine_parts hname hne hspace (by decide +kernel) hfirst
  have hlen : contentLengthFromHeaders headers = none := by
    rw [contentLengthFromHeaders,hreads.lookup_none (fun f hf => (hhead.fields f hf).plain.1)]
    rfl
  have hbody (remaining : ByteView) : assignMessageBody remaining headers = some remaining := by
    rw [assignMessageBody,hlen]
    split <;> rfl
  simp only [parseRequest,parseRequestHead,hsplit,hline,hparse]
  cases hst : splitTarget t with
  | mk uri query =>
    cases query with
    | none =>
      simp only [hbody]
      exact ⟨_,rfl,hreads⟩
    | some query =>
      simp only [hbody]
      exact ⟨_,rfl,hreads⟩

theorem parseResponse_bare {n : Nat} (hn : 100 ≤ n) (hn' : n < 200) {reason : Bytes}
    (hhead : BareHead kMaxStatusLineSize (statusLine n reason) fs)
    (htext : data.text = bareText (statusLine n reason) fs ++ crlfcrlf ++ rest) :
    ∃ view, parseResponse data = (true,view) ∧ view.statusCode = n ∧ Reads view.headers (fieldMap fs ∅) := by
  obtain ⟨firstLine,headerLines,headers,hsplit,hfirst,hparse,hreads⟩ := hhead.split htext
  obtain ⟨hthree,hdig⟩ := statusDigits_toChars hn (by omega)
  obtain ⟨version,message,hline,-,-⟩ := splitStatusLine_parts (by decide +kernel) hthree hdig hfirst
  have hnob : hasNoResponseBody n = true := by
    simp only [hasNoResponseBody,Bool.or_eq_true,Bool.and_eq_true,decide_eq_true_eq]
    omega
  simp only [parseResponse,parseResponseHead,hsplit,hline,hparse,hnob,if_true]
  exact ⟨_,rfl,rfl,hreads⟩

end Bare

end FastNet.HttpParser
