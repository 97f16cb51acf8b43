import FastNet.WebSocketClient

/-!
The port in the address of a `WebSocketClient`, which `std::stoul` reads, against the port that
`Address::parse` reads digit by digit.
-/

namespace FastNet.WebSocketClient

open List Text Ctype Numeral

def authority (url : Bytes) : Bytes :=
  (url.drop (if (ascii "ws://").isPrefixOf url then 5 else 6)).takeWhile (fun c => c ≠ 47 ∧ c ≠ 63)

/-- Where both parsers look for the port. -/
def portText (authority : Bytes) : Option Bytes :=
  if authority.head? = some 91 then do
    let closingBracket ← find [93] authority 0
    if authority[closingBracket+1]? = some 58 then some (authority.drop (closingBracket+2)) else none
  else do
    let firstColon ← find [58] authority 0
    if 58 ∈ authority.drop (firstColon+1) then none else some (authority.drop (firstColon+1))

def portValue (text : Bytes) : Nat := valueFrom 10 0 (text.map (fun c => c.toNat-48))

variable {text url endpoint : Bytes} {target target' : Target} {port : Nat}

theorem mapM_decimalDigit (h : ∀ c ∈ text, isDigit c = true) :
    text.mapM decimalDigit = some (text.map (fun c => c.toNat-48)) := by
  induction text with
  | nil => rfl
  | cons c text ih =>
    have hrest := ih (fun c hc => h c (mem_cons_of_mem _ hc))
    simp [mapM_cons,decimalDigit,h c mem_cons_self,hrest]

/-- On digits `std::stoul` reads the value of the numeral, or refuses it. -/
theorem parsePort_digits (h : ∀ c ∈ text, isDigit c = true) (hport : parsePort text = some port) :
    text ≠ [] ∧ portValue text = port ∧ port ≤ 65535 := by
  have hne : text ≠ [] := by
    rintro rfl
    cases hport
  rw [parsePort,stoull_digits (mapM_decimalDigit h) hne,← portValue] at hport
  by_cases hmax : sizeMax < portValue text
  · rw [if_pos hmax] at hport
    cases hport
  · simp only [if_neg hmax,Option.ite_none_left_eq_some,Option.some.injEq,Nat.not_lt] at hport
    exact ⟨hne,hport.2,hport.2 ▸ hport.1⟩

theorem scanPort_digits {ds : List Nat} (h : text.mapM decimalDigit = some ds) {value : Nat}
    (hle : valueFrom 10 value ds ≤ 65535) : Address.scanPort text value = some (valueFrom 10 value ds) := by
  induction text generalizing ds value with
  | nil =>
    cases h
    rfl
  | cons c text ih =>
    simp only [mapM_cons,Option.pure_def,Option.bind_eq_bind,Option.bind_eq_some_iff] at h
    obtain ⟨d,hd,ds',hds,hcons⟩ := h
    obtain rfl := Option.some.inj hcons
    rw [valueFrom_cons] at hle ⊢
    have hstep := @le_valueFrom 10 (value*10+d) (by decide) ds'
    rw [Address.scanPort,hd]
    simp only
    rw [if_neg (by omega)]
    exact ih hds hle

theorem portText_cases (h : portText endpoint = some text) :
    (∃ k, endpoint.head? = some 91 ∧ find [93] endpoint 0 = some k ∧ k+1 < endpoint.length ∧
      endpoint[k+1]? = some 58 ∧ endpoint.drop (k+2) = text) ∨
    ∃ k, endpoint.head? ≠ some 91 ∧ find [58] endpoint 0 = some k ∧ 58 ∉ endpoint.drop (k+1) ∧
      endpoint.drop (k+1) = text := by
  unfold portText at h
  split at h
  · rename_i hhead
    obtain ⟨k,hfind,h⟩ := Option.bind_eq_some_iff.mp h
    rw [Option.ite_none_right_eq_some] at h
    obtain ⟨hlt,-⟩ := List.getElem?_eq_some_iff.mp h.1
    exact .inl ⟨k,hhead,hfind,hlt,h.1,Option.some.inj h.2⟩
  · rename_i hhead
    obtain ⟨k,hfind,h⟩ := Option.bind_eq_some_iff.mp h
    rw [Option.ite_none_left_eq_some] at h
    exact .inr ⟨k,hhead,hfind,h.1,Option.some.inj h.2⟩

theorem serverPort_withAddress {serverAddress : Bytes} (h : withAddress target serverAddress = some target') :
    target.serverPort = target'.serverPort := by
  rw [withAddress,Option.ite_none_left_eq_some] at h
  rw [← Option.some.inj h.2]

theorem parsePort_of_parseAuthority (h : parseAuthority target endpoint = some target')
    (hport : portText endpoint = some text) : parsePort text = some target'.serverPort := by
  rw [parseAuthority,Option.ite_none_left_eq_some] at h
  obtain ⟨-,h⟩ := h
  obtain ⟨k,hhead,hfind,hlt,hcolon,rfl⟩ | ⟨k,hhead,hfind,hsingle,rfl⟩ := portText_cases hport
  · simp only [hhead,if_true,hfind,Option.bind_eq_bind,Option.bind_some,if_pos hlt,getD_eq_getElem?_getD,hcolon,
      Option.getD_some,ne_eq,not_true_eq_false,if_false,Option.bind_eq_some_iff] at h
    obtain ⟨port,hread,h⟩ := h
    rw [hread,← serverPort_withAddress h]
  · simp only [hhead,if_false,hfind,hsingle,Option.bind_eq_bind,Option.bind_eq_some_iff] at h
    obtain ⟨port,hread,h⟩ := h
    rw [hread,← serverPort_withAddress h]

theorem splitEndpoint_port (hport : portText endpoint = some text) (defaultPort : Nat) :
    (Address.splitEndpoint endpoint defaultPort).map Prod.snd = Address.parsePortValue text := by
  obtain ⟨k,hhead,hfind,hlt,hcolon,rfl⟩ | ⟨k,hhead,hfind,hsingle,rfl⟩ := portText_cases hport
  · simp only [Address.splitEndpoint,hhead,if_true,hfind,if_pos hlt,hcolon,ne_eq,not_true_eq_false,if_false,Option.map_map]
    exact Option.map_id'
  · simp [Address.splitEndpoint,hhead,hfind,hsingle,Function.comp_def]

theorem parseAuthority_of_parseUrl (h : parseUrl url = some target) :
    ∃ start, parseAuthority start (authority url) = some target := by
  simp only [parseUrl] at h
  split at h
  · rename_i hws
    rw [authority,if_pos hws]
    exact ⟨_,h⟩
  · rename_i hws
    split at h
    · rw [authority,if_neg hws]
      exact ⟨_,h⟩
    · cases h

/-- The exact value of the port, which is not 0, is read, by `Address::parse` too when no white space
surrounds the authority, if, and only if, the port has digits only and what is read is not 0. -/
theorem port_exact_iff (h : parseUrl url = some target) (hport : portText (authority url) = some text) :
    (text ≠ [] ∧ (∀ c ∈ text, isDigit c = true) ∧ 1 ≤ portValue text ∧ portValue text ≤ 65535 ∧
      target.serverPort = portValue text ∧ (Text.trim isSpace (authority url) = authority url → ∀ defaultPort,
        (Address.splitEndpoint (Text.trim isSpace (authority url)) defaultPort).map Prod.snd =
          some target.serverPort)) ↔
      (∀ c ∈ text, isDigit c = true) ∧ target.serverPort ≠ 0 := by
  obtain ⟨start,hauth⟩ := parseAuthority_of_parseUrl h
  have hread := parsePort_of_parseAuthority hauth hport
  constructor
  · rintro ⟨-,hdigits,hpos,-,heq,-⟩
    exact ⟨hdigits,by omega⟩
  · rintro ⟨hdigits,hzero⟩
    obtain ⟨hne,hvalue,hle⟩ := parsePort_digits hdigits hread
    refine ⟨hne,hdigits,by omega,by omega,hvalue.symm,fun htrim defaultPort => ?_⟩
    rw [htrim,splitEndpoint_port hport,Address.parsePortValue,if_neg hne,← hvalue]
    exact scanPort_digits (mapM_decimalDigit hdigits) (hvalue.trans_le hle)

theorem port_exact_bracketed :
    (Address.splitEndpoint (Text.trim isSpace (authority (ascii "ws://[::1]:80/"))) 0).map Prod.snd = some 80 := by
  have hread : (parseUrl (ascii "ws://[::1]:80/")).map Target.serverPort = some 80 := by decide
  obtain ⟨target,h,hport⟩ := Option.map_eq_some_iff.mp hread
  rw [((@port_exact_iff (ascii "80") _ _ h (by decide)).mpr ⟨by decide +kernel,by omega⟩).2.2.2.2.2 (by decide),hport]

theorem port_tail_ignored :
    (parseUrl (ascii "ws://h:80x")).map Target.serverPort = some 80 ∧ Address.parse (ascii "h:80x") 0 = none ∧
      Address.parse (ascii "h:80") 0 = some ⟨ascii "h",80⟩ ∧
      (parseUrl (ascii "ws://h:0")).map Target.serverPort = some 0 := by
  decide

end FastNet.WebSocketClient
