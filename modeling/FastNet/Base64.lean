import FastNet.Numerals

/-!
The encoder and the decoder of `base64.cpp`.
-/

namespace FastNet

open Ctype

def kBase64Alphabet : Bytes :=
  ascii "ABCDEFGHIJKLMNOPQRSTUVWXYZabcdefghijklmnopqrstuvwxyz0123456789+/"

/-- The digit of `triple` that begins at bit `shift`. -/
def base64Digit (triple shift : Nat) : UInt8 := kBase64Alphabet.getD (triple/2^shift%64) 61

/-- `encodeBytes`: three bytes make four digits, and what is missing at the end is
written as equals signs. -/
def base64Encode : Bytes → Bytes
  | [] => []
  | [a] =>
    let triple := a.toNat*65536
    [base64Digit triple 18,base64Digit triple 12,61,61]
  | [a,b] =>
    let triple := a.toNat*65536+b.toNat*256
    [base64Digit triple 18,base64Digit triple 12,base64Digit triple 6,61]
  | a :: b :: c :: rest =>
    let triple := a.toNat*65536+b.toNat*256+c.toNat
    [base64Digit triple 18,base64Digit triple 12,base64Digit triple 6,base64Digit triple 0] ++
      base64Encode rest

/-- The entry of the table for a byte; `none` stands for -1. -/
def base64DecodeTable (byte : UInt8) : Option Nat := kBase64Alphabet.idxOf? byte

def normalizeBase64 : Bytes → Option Bytes
  | [] => some []
  | ch :: encoded =>
    if isSpace ch then normalizeBase64 encoded
    else if ch ≠ 61 ∧ base64DecodeTable ch = none then none
    else (normalizeBase64 encoded).map (ch :: ·)

/-- A turn of the loop of `tryBase64Decode`: whether it goes on, and what it puts out. -/
def decodeQuartet (isLastQuartet : Bool) (c0 c1 c2 c3 : UInt8) : Bool × Bytes :=
  if c0 = 61 ∨ c1 = 61 then (false,[])
  else if isLastQuartet = false ∧ (c2 = 61 ∨ c3 = 61) then (false,[])
  else
    match base64DecodeTable c0, base64DecodeTable c1 with
    | some v0, some v1 =>
      if c2 = 61 then
        if isLastQuartet = false ∨ c3 ≠ 61 then (false,[]) else (true,[UInt8.ofNat (v0*4+v1/16)])
      else
        match base64DecodeTable c2 with
        | none => (false,[])
        | some v2 =>
          let output := [UInt8.ofNat (v0*4+v1/16),UInt8.ofNat (v1%16*16+v2/4)]
          if c3 = 61 then (isLastQuartet,output)
          else
            match base64DecodeTable c3 with
            | none => (false,output)
            | some v3 => (true,output ++ [UInt8.ofNat (v2%4*64+v3)])
    | _, _ => (false,[])

def decodeQuartets : Bytes → Bool × Bytes
  | c0 :: c1 :: c2 :: c3 :: rest =>
    match decodeQuartet (rest = []) c0 c1 c2 c3 with
    | (false,output) => (false,output)
    | (true,output) => ((decodeQuartets rest).1,output ++ (decodeQuartets rest).2)
  | _ => (true,[])

/-- Whether the text is accepted, and what is in `output` then. -/
def tryBase64Decode (encoded : Bytes) : Bool × Bytes :=
  match normalizeBase64 encoded with
  | none => (false,[])
  | some normalized =>
    if normalized = [] then (true,[])
    else if normalized.length%4 ≠ 0 then (false,[])
    else decodeQuartets normalized

/-! ### The accepted texts -/

def IsDigit (c : UInt8) : Prop := c ∈ kBase64Alphabet

/-- Groups of four digits, the last of which may end in one or two equals signs. -/
inductive Quartets : Bytes → Prop where
  | nil : Quartets []
  | four {c0 c1 c2 c3 : UInt8} {rest : Bytes} (h0 : IsDigit c0) (h1 : IsDigit c1) (h2 : IsDigit c2) (h3 : IsDigit c3)
      (h : Quartets rest) : Quartets (c0 :: c1 :: c2 :: c3 :: rest)
  | three {c0 c1 c2 : UInt8} (h0 : IsDigit c0) (h1 : IsDigit c1) (h2 : IsDigit c2) : Quartets [c0,c1,c2,61]
  | two {c0 c1 : UInt8} (h0 : IsDigit c0) (h1 : IsDigit c1) : Quartets [c0,c1,61,61]

/-- What is left of a text without its white space. -/
def withoutSpace (encoded : Bytes) : Bytes := encoded.filter (fun c => !isSpace c)

theorem not_isDigit_equals : ¬ IsDigit 61 := by
  unfold IsDigit
  decide +kernel

theorem table_eq_none_iff {c : UInt8} : base64DecodeTable c = none ↔ ¬ IsDigit c := List.idxOf?_eq_none_iff

theorem normalizeBase64_iff {encoded normalized : Bytes} :
    normalizeBase64 encoded = some normalized ↔
      withoutSpace encoded = normalized ∧ ∀ c ∈ normalized, c = 61 ∨ IsDigit c := by
  induction encoded generalizing normalized with
  | nil =>
    simp only [normalizeBase64,Option.some.injEq,withoutSpace,List.filter_nil]
    exact ⟨fun h => ⟨h,by simp [← h]⟩,And.left⟩
  | cons ch encoded ih =>
    rw [normalizeBase64]
    cases hspace : isSpace ch with
    | true => simpa [withoutSpace,hspace] using ih
    | false =>
      have hcut : withoutSpace (ch :: encoded) = ch :: withoutSpace encoded := by simp [withoutSpace,hspace]
      rw [if_neg (by simp),hcut]
      by_cases hch : ch = 61 ∨ IsDigit ch
      · have hgood : ¬ (ch ≠ 61 ∧ base64DecodeTable ch = none) := fun h =>
          hch.elim h.1 (table_eq_none_iff.mp h.2)
        rw [if_neg hgood,Option.map_eq_some_iff]
        constructor
        · rintro ⟨rest,hrest,rfl⟩
          obtain ⟨rfl,hall⟩ := ih.mp hrest
          exact ⟨rfl,List.forall_mem_cons.mpr ⟨hch,hall⟩⟩
        · rintro ⟨rfl,hall⟩
          exact ⟨_,ih.mpr ⟨rfl,(List.forall_mem_cons.mp hall).2⟩,rfl⟩
      · rw [not_or] at hch
        rw [if_pos ⟨hch.1,table_eq_none_iff.mpr hch.2⟩]
        refine ⟨nofun,?_⟩
        rintro ⟨rfl,hall⟩
        exact absurd (hall ch List.mem_cons_self) (not_or.mpr hch)

theorem Quartets.letters {text : Bytes} (h : Quartets text) :
    text.length%4 = 0 ∧ ∀ c ∈ text, c = 61 ∨ IsDigit c := by
  induction h with
  | nil => simp
  | four h0 h1 h2 h3 h ih => simpa [h0,h1,h2,h3,Nat.add_assoc] using ih
  | three h0 h1 h2 => simp [h0,h1,h2]
  | two h0 h1 => simp [h0,h1]

theorem decodeQuartet_iff {last : Bool} {c0 c1 c2 c3 : UInt8} :
    (decodeQuartet last c0 c1 c2 c3).1 = true ↔ IsDigit c0 ∧ IsDigit c1 ∧
      (IsDigit c2 ∧ IsDigit c3 ∨ last = true ∧ c3 = 61 ∧ (IsDigit c2 ∨ c2 = 61)) := by
  have hequals := not_isDigit_equals
  have htable : ∀ c, IsDigit c ↔ ∃ v, base64DecodeTable c = some v := fun c => by
    rw [← not_iff_not,← table_eq_none_iff,Option.eq_none_iff_forall_ne_some,not_exists]
  rw [decodeQuartet]
  grind

theorem decodeQuartets_iff {text : Bytes} (h : text.length%4 = 0) :
    (decodeQuartets text).1 = true ↔ Quartets text := by
  fun_induction decodeQuartets text with
  | case1 c0 c1 c2 c3 rest output hone =>
    have hfail : ¬ (decodeQuartet (rest = []) c0 c1 c2 c3).1 = true := by simp [hone]
    rw [decodeQuartet_iff] at hfail
    refine ⟨nofun,fun hquartets => absurd ?_ hfail⟩
    cases hquartets with
    | four h0 h1 h2 h3 h => exact ⟨h0,h1,.inl ⟨h2,h3⟩⟩
    | three h0 h1 h2 => exact ⟨h0,h1,.inr ⟨rfl,rfl,.inl h2⟩⟩
    | two h0 h1 => exact ⟨h0,h1,.inr ⟨rfl,rfl,.inr rfl⟩⟩
  | case2 c0 c1 c2 c3 rest output hone ih =>
    have hgood : (decodeQuartet (rest = []) c0 c1 c2 c3).1 = true := by simp [hone]
    obtain ⟨h0,h1,hends⟩ := decodeQuartet_iff.mp hgood
    rw [ih (by simpa [Nat.add_assoc] using h)]
    constructor
    · intro hrest
      rcases hends with ⟨h2,h3⟩ | ⟨hlast,rfl,h2 | rfl⟩
      · exact .four h0 h1 h2 h3 hrest
      · obtain rfl : rest = [] := by simpa using hlast
        exact .three h0 h1 h2
      · obtain rfl : rest = [] := by simpa using hlast
        exact .two h0 h1
    · intro hquartets
      cases hquartets with
      | four _ _ _ _ hrest => exact hrest
      | three => exact .nil
      | two => exact .nil
  | case3 text hshort =>
    match text, h, hshort with
    | [], _, _ => simp [Quartets.nil]
    | c0 :: c1 :: c2 :: c3 :: rest, _, hshort => exact absurd rfl (hshort c0 c1 c2 c3 rest)

theorem tryBase64Decode_iff (encoded : Bytes) :
    (tryBase64Decode encoded).1 = true ↔ Quartets (withoutSpace encoded) := by
  rw [tryBase64Decode]
  cases hnormal : normalizeBase64 encoded with
  | none =>
    refine ⟨nofun,fun h => ?_⟩
    rw [normalizeBase64_iff.mpr ⟨rfl,h.letters.2⟩] at hnormal
    cases hnormal
  | some normalized =>
    rw [(normalizeBase64_iff.mp hnormal).1]
    by_cases hnil : normalized = []
    · simp [hnil,Quartets.nil]
    · by_cases hlength : normalized.length%4 = 0
      · simpa [hnil,hlength] using decodeQuartets_iff hlength
      · simpa [hnil,hlength] using fun h : Quartets normalized => hlength h.letters.1

/-! ### What has been encoded -/

theorem table_digit (triple shift : Nat) : base64DecodeTable (base64Digit triple shift) = some (triple/2^shift%64) := by
  have hall : ∀ v < 64, base64DecodeTable (kBase64Alphabet.getD v 61) = some v := by decide +kernel
  exact hall _ (Nat.mod_lt _ (by decide))

theorem isDigit_digit (triple shift : Nat) : IsDigit (base64Digit triple shift) := by
  by_contra h
  have := table_digit triple shift
  rw [table_eq_none_iff.mpr h] at this
  cases this

theorem digit_ne_equals (triple shift : Nat) : base64Digit triple shift ≠ 61 :=
  fun h => not_isDigit_equals (h ▸ isDigit_digit triple shift)

/-- The bytes of a triple, put together again from its digits. -/
theorem regroup (a b c : UInt8) {triple : Nat} (h : triple = a.toNat*65536+b.toNat*256+c.toNat) :
    UInt8.ofNat (triple/2^18%64*4+triple/2^12%64/16) = a ∧
      UInt8.ofNat (triple/2^12%64%16*16+triple/2^6%64/4) = b ∧
      UInt8.ofNat (triple/2^6%64%4*64+triple/2^0%64) = c := by
  have := a.toNat_lt
  have := b.toNat_lt
  have := c.toNat_lt
  have hbyte : ∀ {n : Nat} {x : UInt8}, n = x.toNat → UInt8.ofNat n = x := fun hn => hn ▸ UInt8.ofNat_toNat
  exact ⟨hbyte (by omega),hbyte (by omega),hbyte (by omega)⟩

theorem base64Encode_quartets (data : Bytes) :
    Quartets (base64Encode data) ∧ decodeQuartets (base64Encode data) = (true,data) := by
  have hdigit := isDigit_digit
  fun_induction base64Encode data with
  | case1 => exact ⟨.nil,rfl⟩
  | case2 a triple =>
    obtain ⟨ha,-,-⟩ := regroup a 0 0 (show triple = _ by simp [triple])
    refine ⟨.two (hdigit ..) (hdigit ..),?_⟩
    simp only [decodeQuartets,decodeQuartet,digit_ne_equals,table_digit,ha]
    simp
  | case3 a b triple =>
    obtain ⟨ha,hb,-⟩ := regroup a b 0 (show triple = _ by simp [triple])
    refine ⟨.three (hdigit ..) (hdigit ..) (hdigit ..),?_⟩
    simp only [decodeQuartets,decodeQuartet,digit_ne_equals,table_digit,ha,hb]
    simp
  | case4 a b c rest triple ih =>
    obtain ⟨ha,hb,hc⟩ := regroup a b c (show triple = _ from rfl)
    refine ⟨.four (hdigit ..) (hdigit ..) (hdigit ..) (hdigit ..) ih.1,?_⟩
    simp only [List.cons_append,List.nil_append,decodeQuartets,decodeQuartet,digit_ne_equals,table_digit,ha,hb,hc,ih.2]
    simp

/-- What has been encoded is read back, whatever white space has been put in; and the texts that are read are those
made of groups. -/
theorem base64_round_trip :
    (∀ data encoded : Bytes, withoutSpace encoded = base64Encode data → tryBase64Decode encoded = (true, data)) ∧
      ∀ encoded : Bytes, (tryBase64Decode encoded).1 = true ↔ Quartets (withoutSpace encoded) := by
  refine ⟨fun data encoded hencoded => ?_,tryBase64Decode_iff⟩
  obtain ⟨hquartets,hdecode⟩ := base64Encode_quartets data
  obtain ⟨hlength,hall⟩ := hquartets.letters
  rw [tryBase64Decode,normalizeBase64_iff.mpr ⟨hencoded,hall⟩]
  by_cases hnil : base64Encode data = []
  · rw [hnil] at hdecode
    simp only [hnil,if_pos]
    exact hdecode
  · simpa [hnil,hlength] using hdecode

theorem base64_round_trip_hi :
    withoutSpace (ascii "aG k=\n") = base64Encode (ascii "hi") ∧ tryBase64Decode (ascii "aG k=\n") = (true, ascii "hi") :=
  ⟨by decide +kernel,base64_round_trip.1 _ _ (by decide +kernel)⟩

end FastNet
