import FastNet.Loop
import FastNet.Numerals

/-!
Network addresses: the textual forms of hosts that are accepted, and the parser of
endpoints. A host that has been accepted holds no white space.
-/

namespace FastNet

open Text Ctype Numeral Loop List

structure Address where
  ip : Bytes := []
  port : Nat := 0
  deriving DecidableEq, Repr

namespace Address

def stripBrackets (hostName : Bytes) : Bytes :=
  if 2 ≤ hostName.length ∧ hostName.head? = some 91 ∧ hostName.getLast? = some 93 then
    (hostName.drop 1).take (hostName.length-2)
  else hostName

def normalizedHost (address : Address) : Bytes := stripBrackets address.ip

def isValidIPv4Part (part : Bytes) : Bool :=
  part ≠ [] && part.length ≤ 3 && part.all isDigit &&
    valueFrom 10 0 (part.filterMap decimalDigit) ≤ 255

def isValidIPv4 (ipAddress : Bytes) : Bool :=
  (ipAddress.splitOn 46).all isValidIPv4Part && (ipAddress.splitOn 46).length = 4

/-- The state of `isValidIPv6` at the head of its loop; `rest` is what is left to read. -/
structure IPv6Scan where
  rest : Bytes
  groups : Nat
  compressed : Bool
  deriving DecidableEq, Repr

/-- One group or one colon. The loop leaves with `none` where the source returns
false, and else with the number of groups, and whether there was a compression
and an embedded IPv4 address. -/
def ipv6Turn (s : IPv6Scan) : Except Exn (Turn IPv6Scan (Option (Nat × Bool × Bool))) :=
  if s.rest = [] then .ok (.leave (some (s.groups,s.compressed,false)))
  else if s.rest.head? = some 58 then
    if s.rest.tail.head? = some 58 ∧ s.compressed = false then
      .ok (.again ⟨s.rest.drop 2,s.groups,true⟩)
    else .ok (.leave none)
  else
    let token := s.rest.takeWhile (· ≠ 58)
    let after := s.rest.dropWhile (· ≠ 58)
    if 46 ∈ token then
      if !isValidIPv4 token || after ≠ [] then .ok (.leave none)
      else .ok (.leave (some (s.groups+2,s.compressed,true)))
    else if token = [] ∨ 4 < token.length ∨ !token.all (fun ch => (hexDigit ch).isSome) then
      .ok (.leave none)
    else if 8 < s.groups+1 then .ok (.leave none)
    else if after.tail.head? = some 58 then
      if s.compressed then .ok (.leave none)
      else .ok (.again ⟨after.drop 2,s.groups+1,true⟩)
    else .ok (.again ⟨after.tail,s.groups+1,s.compressed⟩)

def isValidIPv6 (hostName : Bytes) : Bool :=
  let hostName := stripBrackets hostName
  if hostName = [] then false
  else
    match run ipv6Turn (hostName.length+1) ⟨hostName,0,false⟩ with
    | .ret (some (groups,compressed,sawIpv4Tail)) =>
      if sawIpv4Tail && 8 < groups then false
      else if compressed then groups < 8 else groups = 8
    | _ => false

/-- The loop of `isValidHostname`: the length of the last label, when all bytes pass. -/
def hostnameScan : Bytes → UInt8 → Nat → Option Nat
  | [], _, labelLength => some labelLength
  | ch :: rest, previous, labelLength =>
    if ch = 46 then
      if labelLength = 0 || previous = 45 then none else hostnameScan rest ch 0
    else if !(isAlnum ch || ch = 45) then none
    else if ch = 45 && labelLength = 0 then none
    else if 63 < labelLength+1 then none
    else hostnameScan rest ch (labelLength+1)

def isValidHostname (hostName : Bytes) : Bool :=
  hostName ≠ [] && hostName.length ≤ 253 &&
    match hostnameScan hostName 0 0 with
    | none => false
    | some labelLength =>
      labelLength ≠ 0 && hostName.head? ≠ some 46 && hostName.getLast? ≠ some 45

def isValidHost (hostName : Bytes) : Bool :=
  let hostName := stripBrackets hostName
  hostName ≠ [] && (hostName = ascii "localhost" || isValidIPv4 hostName ||
    isValidIPv6 hostName || isValidHostname hostName)

def scanPort : Bytes → Nat → Option Nat
  | [], value => some value
  | ch :: rest, value =>
    match decimalDigit ch with
    | none => none
    | some digit => if 65535 < value*10+digit then none else scanPort rest (value*10+digit)

def parsePortValue (portText : Bytes) : Option Nat :=
  if portText = [] then none else scanPort portText 0

def splitEndpoint (endpoint : Bytes) (defaultPort : Nat) : Option (Bytes × Nat) :=
  if endpoint.head? = some 91 then
    match find [93] endpoint 0 with
    | none => none
    | some closingBracket =>
      let hostPart := (endpoint.drop 1).take (closingBracket-1)
      if closingBracket+1 < endpoint.length then
        if endpoint[closingBracket+1]? ≠ some 58 then none
        else (parsePortValue (endpoint.drop (closingBracket+2))).map (fun port => (hostPart,port))
      else some (hostPart,defaultPort)
  else
    match find [58] endpoint 0 with
    | none => some (endpoint,defaultPort)
    | some firstColon =>
      if 58 ∉ endpoint.drop (firstColon+1) then
        (parsePortValue (endpoint.drop (firstColon+1))).map
          (fun port => (endpoint.take firstColon,port))
      else some (endpoint,defaultPort)

def parse (endpoint : Bytes) (defaultPort : Nat) : Option Address :=
  let endpoint := Text.trim isSpace endpoint
  if endpoint = [] then none
  else
    match splitEndpoint endpoint defaultPort with
    | none => none
    | some (hostPart,port) =>
      let hostPart := Text.trim isSpace hostPart
      if hostPart = [] then none
      else if !isValidHost hostPart then none
      else some ⟨hostPart,port⟩

def Solid (text : Bytes) : Prop := ∀ c ∈ text, isSpace c = false

theorem solid_nil : Solid [] := by simp [Solid]

theorem solid_append {a b : Bytes} (ha : Solid a) (hb : Solid b) : Solid (a ++ b) := by
  intro c hc
  rcases mem_append.mp hc with h | h
  · exact ha c h
  · exact hb c h

theorem splitOn_cons_self (sep : UInt8) (rest : Bytes) :
    (sep :: rest).splitOn sep = [] :: rest.splitOn sep := by
  simp [splitOn,splitOnP_cons_eq_if_modifyHead]

variable {c sep : UInt8} {text : Bytes}

theorem splitOn_cons_of_ne {a : UInt8} (h : a ≠ sep) (rest : Bytes) :
    (a :: rest).splitOn sep = (rest.splitOn sep).modifyHead (a :: ·) := by
  simp [splitOn,splitOnP_cons_eq_if_modifyHead,h]

theorem mem_of_splitOn {data : Bytes} (h : c ∈ data) : c = sep ∨ ∃ part ∈ data.splitOn sep, c ∈ part := by
  induction data with
  | nil => cases h
  | cons a rest ih =>
    by_cases ha : a = sep
    · subst ha
      rw [splitOn_cons_self]
      rcases mem_cons.mp h with rfl | h
      · exact .inl rfl
      · rcases ih h with h | ⟨part,hp,hc⟩
        · exact .inl h
        · exact .inr ⟨part,mem_cons_of_mem _ hp,hc⟩
    · rw [splitOn_cons_of_ne ha]
      cases hs : rest.splitOn sep with
      | nil => exact absurd hs (splitOnP_ne_nil _ _)
      | cons p ps =>
        rw [hs] at ih
        rcases mem_cons.mp h with rfl | h
        · exact .inr ⟨c :: p,mem_cons_self,mem_cons_self⟩
        · rcases ih h with h | ⟨part,hp,hc⟩
          · exact .inl h
          · rcases mem_cons.mp hp with rfl | hp
            · exact .inr ⟨a :: part,mem_cons_self,mem_cons_of_mem _ hc⟩
            · exact .inr ⟨part,mem_cons_of_mem _ hp,hc⟩

theorem isDigit_not_space (h : isDigit c = true) : isSpace c = false := by
  simp only [isDigit,isSpace,decide_eq_true_eq,decide_eq_false_iff_not] at *
  omega

theorem isAlnum_not_space (h : isAlnum c = true) : isSpace c = false := by
  simp only [isAlnum,isDigit,isUpper,isLower,isSpace,Bool.or_eq_true,decide_eq_true_eq,
    decide_eq_false_iff_not] at *
  omega

theorem solid_of_isValidIPv4 (h : isValidIPv4 text = true) : Solid text := by
  intro c hc
  simp only [isValidIPv4,Bool.and_eq_true,all_eq_true] at h
  rcases @mem_of_splitOn c 46 text hc with rfl | ⟨part,hp,hcp⟩
  · decide
  · have hpart := h.1 part hp
    simp only [isValidIPv4Part,Bool.and_eq_true,all_eq_true] at hpart
    exact isDigit_not_space (hpart.1.2 c hcp)

theorem solid_of_hostnameScan {previous : UInt8} {labelLength n : Nat}
    (h : hostnameScan text previous labelLength = some n) : Solid text := by
  induction text generalizing previous labelLength with
  | nil => exact fun c hc => absurd hc (by simp)
  | cons ch rest ih =>
    have hcons : ∀ {p l}, isSpace ch = false → hostnameScan rest p l = some n →
        Solid (ch :: rest) := by
      intro p l hch hr c hc
      rcases mem_cons.mp hc with rfl | hc
      · exact hch
      · exact ih hr c hc
    unfold hostnameScan at h
    split at h
    · rename_i hdot
      split at h
      · cases h
      · exact hcons (by rw [hdot]; decide) h
    · split at h
      · cases h
      · rename_i hch
        repeat' split at h
        all_goals first | cases h | refine hcons ?_ h
        simp only [Bool.not_eq_true,Bool.not_eq_false',Bool.or_eq_true,decide_eq_true_eq] at hch
        rcases hch with hch | rfl
        · exact isAlnum_not_space hch
        · decide

theorem solid_of_hexDigits (h : text.all (fun ch => (hexDigit ch).isSome) = true) : Solid text := by
  intro c hc
  exact not_isSpace_of_hexDigit (all_eq_true.mp h c hc)

theorem solid_of_after {rest : Bytes} {k : Nat} (hk : k ≤ 2)
    (hsec : k = 2 → (rest.dropWhile (· ≠ 58)).tail.head? = some 58)
    (h : Solid ((rest.dropWhile (· ≠ 58)).drop k)) : Solid (rest.dropWhile (· ≠ 58)) := by
  have hhead := head?_dropWhile_not (fun c : UInt8 => decide (c ≠ 58)) rest
  intro c hc
  cases hafter : rest.dropWhile (· ≠ 58) with
  | nil =>
    rw [hafter] at hc
    cases hc
  | cons a after =>
    rw [hafter] at hc h hsec hhead
    have ha : a = 58 := by simpa using hhead
    rcases mem_cons.mp hc with rfl | hc
    · rw [ha]
      decide
    · match k, hk with
      | 0, _ => exact h c (by simp [hc])
      | 1, _ => exact h c (by simpa using hc)
      | 2, _ =>
        cases after with
        | nil => cases hc
        | cons b after =>
          have hb : b = 58 := by simpa using hsec rfl
          rcases mem_cons.mp hc with rfl | hc
          · rw [hb]
            decide
          · exact h c (by simpa using hc)

theorem solid_of_ipv6Run {fuel : Nat} {s : IPv6Scan} {r : Nat × Bool × Bool}
    (h : run ipv6Turn fuel s = .ret (some r)) : Solid s.rest := by
  induction fuel generalizing s with
  | zero => cases h
  | succ fuel ih =>
    by_cases hnil : s.rest = []
    · exact fun c hc => absurd hc (by simp [hnil])
    obtain ⟨a,rest,hrest⟩ := exists_cons_of_ne_nil hnil
    by_cases hcolon : s.rest.head? = some 58
    · have ha : a = 58 := by simpa [hrest] using hcolon
      by_cases hcomp : s.rest.tail.head? = some 58 ∧ s.compressed = false
      · have hturn : ipv6Turn s = .ok (.again ⟨s.rest.drop 2,s.groups,true⟩) := by
          rw [ipv6Turn,if_neg hnil,if_pos hcolon,if_pos hcomp]
        rw [run_again hturn] at h
        have hr := ih h
        obtain ⟨b,rest',hrest'⟩ : ∃ b rest', rest = b :: rest' := by
          cases rest with
          | nil => simp [hrest] at hcomp
          | cons b rest' => exact ⟨b,rest',rfl⟩
        have hb : b = 58 := by simpa [hrest,hrest'] using hcomp.1
        rw [hrest,hrest',ha,hb] at hr ⊢
        intro c hc
        rcases mem_cons.mp hc with rfl | hc
        · decide
        · rcases mem_cons.mp hc with rfl | hc
          · decide
          · exact hr c hc
      · have hturn : ipv6Turn s = .ok (.leave none) := by
          rw [ipv6Turn,if_neg hnil,if_pos hcolon,if_neg hcomp]
        rw [run_leave hturn] at h
        cases h
    · -- a group: the token is checked, what follows it is left to the next turns
      have hsplit := @takeWhile_append_dropWhile _ (fun c : UInt8 => decide (c ≠ 58)) s.rest
      have hturn : ipv6Turn s = ipv6Turn s := rfl
      conv at hturn => rhs; simp only [ipv6Turn,if_neg hnil,if_neg hcolon]
      rw [← hsplit]
      split at hturn
      · split at hturn
        · rw [run_leave hturn] at h
          cases h
        · rename_i hv
          simp only [Bool.or_eq_true,Bool.not_eq_true',decide_eq_true_eq,not_or,Bool.not_eq_false,not_not] at hv
          rw [hv.2]
          exact solid_append (solid_of_isValidIPv4 hv.1) (fun c hc => absurd hc (by simp))
      · split at hturn
        · rw [run_leave hturn] at h
          cases h
        · rename_i htoken
          simp only [not_or,Bool.not_eq_true',Bool.not_eq_false] at htoken
          refine solid_append (solid_of_hexDigits htoken.2.2) ?_
          split at hturn
          · rw [run_leave hturn] at h
            cases h
          · split at hturn
            · rename_i hsec
              split at hturn
              · rw [run_leave hturn] at h
                cases h
              · rw [run_again hturn] at h
                exact solid_of_after (Nat.le_refl 2) (fun _ => hsec) (ih h)
            · rw [run_again hturn] at h
              have hr := ih h
              rw [← drop_one] at hr
              exact solid_of_after (by decide) (by omega) hr

theorem solid_of_stripBrackets (h : Solid (stripBrackets text)) : Solid text := by
  unfold stripBrackets at h
  split at h
  · rename_i hb
    obtain ⟨hlen,hhead,hlast⟩ := hb
    obtain ⟨a,rest,rfl⟩ := exists_cons_of_ne_nil
      (show text ≠ [] by rintro rfl; simp at hlen)
    have ha : a = 91 := by simpa using hhead
    have hne : rest ≠ [] := by
      rintro rfl
      simp at hlen
    have hsplit := dropLast_append_getLast hne
    have hl : rest.getLast hne = 93 := by
      rw [getLast?_eq_some_getLast (by simp),getLast_cons hne] at hlast
      exact Option.some.inj hlast
    have hmid : ((a :: rest).drop 1).take ((a :: rest).length-2) = rest.dropLast := by
      rw [dropLast_eq_take]
      simp
    rw [hmid] at h
    intro c hc
    rcases mem_cons.mp hc with rfl | hc
    · rw [ha]
      decide
    · rw [← hsplit,hl] at hc
      rcases mem_append.mp hc with hc | hc
      · exact h c hc
      · simp only [mem_singleton] at hc
        rw [hc]
        decide
  · exact h

theorem solid_of_isValidIPv6 (h : isValidIPv6 text = true) : Solid text := by
  refine solid_of_stripBrackets ?_
  simp only [isValidIPv6] at h
  split at h
  · cases h
  · split at h
    · rename_i hr
      exact solid_of_ipv6Run hr
    · cases h

theorem solid_of_isValidHostname (h : isValidHostname text = true) : Solid text := by
  simp only [isValidHostname,Bool.and_eq_true] at h
  cases hs : hostnameScan text 0 0 with
  | none => simp [hs] at h
  | some n => exact solid_of_hostnameScan hs

theorem parse_solid {endpoint : Bytes} {defaultPort : Nat} {address : Address}
    (h : parse endpoint defaultPort = some address) : Solid address.normalizedHost := by
  simp only [parse] at h
  split at h
  · cases h
  · split at h
    · cases h
    · split at h
      · cases h
      · split at h
        · cases h
        · rename_i hv
          cases h
          simp only [Bool.not_eq_true,Bool.not_eq_false',isValidHost,Bool.and_eq_true,
            Bool.or_eq_true,decide_eq_true_eq] at hv
          rcases hv.2 with ((hv | hv) | hv) | hv
          · rw [normalizedHost,hv]
            unfold Solid
            decide +kernel
          · exact solid_of_isValidIPv4 hv
          · exact solid_of_isValidIPv6 hv
          · exact solid_of_isValidHostname hv

end Address

end FastNet
