import FastNet.Text

/-!
Characters and numerals of the C and C++ standard libraries: the character
classes of the C locale, `std::to_chars`, `std::stoull`, and the digit loops
that refuse a number as soon as it passes the range of `size_t`.
-/

namespace FastNet

abbrev Bytes := List UInt8

def ascii (s : String) : Bytes := s.toList.map (fun c => UInt8.ofNat c.toNat)

namespace Ctype

def isDigit (c : UInt8) : Bool := decide (48 ≤ c.toNat ∧ c.toNat ≤ 57)
def isUpper (c : UInt8) : Bool := decide (65 ≤ c.toNat ∧ c.toNat ≤ 90)
def isLower (c : UInt8) : Bool := decide (97 ≤ c.toNat ∧ c.toNat ≤ 122)
def isAlnum (c : UInt8) : Bool := isDigit c || isUpper c || isLower c
def isSpace (c : UInt8) : Bool := decide (c.toNat = 32 ∨ (9 ≤ c.toNat ∧ c.toNat ≤ 13))
def toLower (c : UInt8) : UInt8 := if isUpper c then c+32 else c

end Ctype

/-- Subtraction of two values of type `size_t`. -/
def sizeSub (a b : Nat) : Nat := (a+2^64-b) % 2^64

namespace Numeral

open Text Ctype Option

/-- `std::numeric_limits<size_t>::max()`. -/
def sizeMax : Nat := 2^64-1

/-- Addition of two values of type `size_t`. -/
def sizeAdd (a b : Nat) : Nat := (a+b) % 2^64

theorem sizeAdd_eq {a b : Nat} (h : a+b < 2^64) : sizeAdd a b = a+b := Nat.mod_eq_of_lt h

def decimalDigit (c : UInt8) : Option Nat := if isDigit c then some (c.toNat-48) else none

def hexDigit (c : UInt8) : Option Nat :=
  if 48 ≤ c.toNat ∧ c.toNat ≤ 57 then some (c.toNat-48)
  else if 65 ≤ c.toNat ∧ c.toNat ≤ 70 then some (c.toNat-65+10)
  else if 97 ≤ c.toNat ∧ c.toNat ≤ 102 then some (c.toNat-97+10)
  else none

variable {c : UInt8} {d base : Nat} {digits rest : Bytes} {ds : List Nat}

theorem decimalDigit_lt (h : decimalDigit c = some d) : d < 10 := by
  simp only [decimalDigit,isDigit,decide_eq_true_eq] at h
  split at h
  · simp only [some.injEq] at h
    omega
  · cases h

theorem hexDigit_lt (h : hexDigit c = some d) : d < 16 := by
  unfold hexDigit at h
  repeat' split at h
  all_goals simp only [some.injEq,reduceCtorEq] at h
  all_goals omega

theorem not_isSpace_of_hexDigit (h : (hexDigit c).isSome) : isSpace c = false := by
  unfold hexDigit at h
  simp only [isSpace,decide_eq_false_iff_not]
  repeat' split at h
  all_goals first | omega | simp at h

theorem ne_sign_of_hexDigit (h : (hexDigit c).isSome) : c ≠ 45 ∧ c ≠ 43 := by
  constructor <;> rintro rfl <;> revert h <;> decide

theorem ne_mark_of_hexDigit (h : (hexDigit c).isSome) : c ≠ 120 ∧ c ≠ 88 := by
  constructor <;> rintro rfl <;> revert h <;> decide

def valueFrom (base acc : Nat) (ds : List Nat) : Nat := ds.foldl (fun a d => a*base+d) acc

theorem valueFrom_cons (base acc d : Nat) (ds : List Nat) :
    valueFrom base acc (d :: ds) = valueFrom base (acc*base+d) ds := rfl

theorem valueFrom_append (base acc : Nat) (xs ys : List Nat) :
    valueFrom base acc (xs ++ ys) = valueFrom base (valueFrom base acc xs) ys := by
  simp [valueFrom]

theorem le_valueFrom {acc : Nat} (hb : 0 < base) (ds : List Nat) : acc ≤ valueFrom base acc ds := by
  induction ds generalizing acc with
  | nil => exact Nat.le_refl acc
  | cons d ds ih =>
    have h := @ih (acc*base+d)
    have hm := Nat.le_mul_of_pos_right acc hb
    rw [valueFrom_cons]
    omega

/-- The digit loop of the parsers: read every byte as a digit, refuse the
number before it leaves the range of `size_t`. -/
def scanNumber (digit : UInt8 → Option Nat) (base : Nat) : Bytes → Nat → Option Nat
  | [], result => some result
  | ch :: rest, result =>
    match digit ch with
    | none => none
    | some d =>
      if result > (sizeMax-d)/base then none else scanNumber digit base rest (result*base+d)

theorem guard_iff {result : Nat} (hb : 0 < base) (hd : d ≤ sizeMax) :
    result > (sizeMax-d)/base ↔ ¬ result*base+d ≤ sizeMax := by
  rw [gt_iff_lt,Nat.div_lt_iff_lt_mul hb]
  omega

theorem scanNumber_eq_some_iff {digit : UInt8 → Option Nat}
    (hb : 0 < base) (hd : ∀ c d, digit c = some d → d < base) (hbm : base ≤ sizeMax)
    (s : Bytes) (acc n : Nat) (hacc : acc ≤ sizeMax) :
    scanNumber digit base s acc = some n ↔
      ∃ ds, s.mapM digit = some ds ∧ valueFrom base acc ds = n ∧ n ≤ sizeMax := by
  induction s generalizing acc with
  | nil =>
    simp only [scanNumber,some.injEq,List.mapM_nil,pure_def]
    constructor
    · rintro rfl
      exact ⟨[],rfl,rfl,hacc⟩
    · rintro ⟨ds,h,hv,-⟩
      cases h
      exact hv
  | cons c rest ih =>
    simp only [scanNumber,List.mapM_cons]
    cases hc : digit c with
    | none => simp
    | some d =>
      have hdm : d ≤ sizeMax := by
        have := hd c d hc
        omega
      simp only [pure_def,bind_eq_bind,bind_some]
      by_cases hfit : acc*base+d ≤ sizeMax
      · rw [if_neg (by rw [guard_iff hb hdm]; simpa using hfit),ih _ hfit]
        constructor
        · rintro ⟨ds,hm,hv,hn⟩
          exact ⟨d :: ds,by simp [hm],hv,hn⟩
        · rintro ⟨ds,hm,hv,hn⟩
          cases hr : rest.mapM digit with
          | none => simp [hr] at hm
          | some ds' =>
            simp only [hr,bind_some,some.injEq] at hm
            subst hm
            exact ⟨ds',rfl,hv,hn⟩
      · rw [if_pos ((guard_iff hb hdm).mpr hfit)]
        simp only [reduceCtorEq,false_iff]
        rintro ⟨ds,hm,hv,hn⟩
        cases hr : rest.mapM digit with
        | none => simp [hr] at hm
        | some ds' =>
          simp only [hr,bind_some,some.injEq] at hm
          subst hm
          have := @le_valueFrom base (acc*base+d) hb ds'
          rw [valueFrom_cons] at hv
          omega

def stripSign (s : Bytes) : Bytes :=
  if s.head? = some 45 ∨ s.head? = some 43 then s.tail else s

/-- In base 16 a `0x` is skipped when a digit follows it. -/
def stripHexMark (base : Nat) (s : Bytes) : Bytes :=
  if base = 16 ∧ s.head? = some 48 ∧ (s.tail.head? = some 120 ∨ s.tail.head? = some 88) ∧
      (s.tail.tail.head?.bind hexDigit).isSome then s.tail.tail
  else s

def digitOf (base : Nat) : UInt8 → Option Nat := if base = 16 then hexDigit else decimalDigit

def digitRun (base : Nat) (s : Bytes) : List Nat :=
  (s.takeWhile (fun c => (digitOf base c).isSome)).filterMap (digitOf base)

/-- `std::stoull(s, nullptr, base)` for base 10 or 16: white space, a sign, in base 16 an
optional `0x`, then the longest run of digits. A minus sign negates modulo 2^64. -/
def stoull (base : Nat) (s : Bytes) : Except Exn Nat :=
  let s := s.dropWhile isSpace
  let ds := digitRun base (stripHexMark base (stripSign s))
  if ds = [] then .error .invalidArgument
  else if sizeMax < valueFrom base 0 ds then .error .outOfRange
  else .ok (if s.head? = some 45 then (2^64-valueFrom base 0 ds) % 2^64 else valueFrom base 0 ds)

theorem stoull_le {n : Nat} {s : Bytes} (h : stoull base s = .ok n) : n ≤ sizeMax := by
  simp only [stoull] at h
  split at h
  · cases h
  · split at h
    · cases h
    · rename_i hmax
      simp only [Except.ok.injEq] at h
      split at h
      · rw [← h]
        exact Nat.le_sub_one_of_lt (Nat.mod_lt _ (by decide))
      · rw [← h]
        exact Nat.not_lt.mp hmax

theorem digitRun_append (hd : digits.mapM (digitOf base) = some ds)
    (hrest : ∀ c ∈ rest.head?, digitOf base c = none) : digitRun base (digits ++ rest) = ds := by
  induction digits generalizing ds with
  | nil =>
    simp only [List.mapM_nil,pure_def,some.injEq] at hd
    subst hd
    cases rest with
    | nil => rfl
    | cons c rest => simp [digitRun,hrest c (by simp)]
  | cons c digits ih =>
    simp only [List.mapM_cons,pure_def,bind_eq_bind] at hd
    cases hc : digitOf base c with
    | none => simp [hc] at hd
    | some d =>
      cases hr : digits.mapM (digitOf base) with
      | none => simp [hr] at hd
      | some ds' =>
        simp only [hc,hr,bind_some,some.injEq] at hd
        subst hd
        have h := ih hr
        unfold digitRun at h ⊢
        simp [hc,h]

/-- `std::stoull` reads a numeral that white space may come before, and that is followed
by something that is neither a digit nor the mark of a hexadecimal number. -/
theorem stoull_hex {ws : Bytes} (hws : ∀ c ∈ ws, isSpace c = true)
    (hd : digits.mapM hexDigit = some ds) (hne : digits ≠ [])
    (hrest : ∀ c ∈ rest.head?, hexDigit c = none ∧ c ≠ 120 ∧ c ≠ 88)
    (hmax : valueFrom 16 0 ds ≤ sizeMax) :
    stoull 16 (ws ++ digits ++ rest) = .ok (valueFrom 16 0 ds) := by
  obtain ⟨c,digits',rfl⟩ := List.exists_cons_of_ne_nil hne
  have hc : (hexDigit c).isSome := by
    cases hc : hexDigit c with
    | none => simp [hc] at hd
    | some d => rfl
  have hskip : (ws ++ c :: digits' ++ rest).dropWhile isSpace = c :: digits' ++ rest := by
    rw [List.append_assoc,List.dropWhile_append_of_pos hws]
    simp [not_isSpace_of_hexDigit hc]
  have hsign : stripSign (c :: digits' ++ rest) = c :: digits' ++ rest := by
    have h := ne_sign_of_hexDigit hc
    simp [stripSign,h.1,h.2]
  have hmark : stripHexMark 16 (c :: digits' ++ rest) = c :: digits' ++ rest := by
    have hx : ∀ x ∈ (digits' ++ rest).head?, x ≠ 120 ∧ x ≠ 88 := by
      intro x hx
      cases digits' with
      | nil => exact (hrest x hx).2
      | cons y digits'' =>
        simp only [List.cons_append,List.head?_cons,mem_def,some.injEq] at hx
        subst hx
        refine ne_mark_of_hexDigit ?_
        cases hy : hexDigit y with
        | none =>
          cases hc' : hexDigit c <;> simp [hy,hc'] at hd
        | some d => rfl
    unfold stripHexMark
    rw [if_neg]
    rintro ⟨-,-,hm,-⟩
    rcases hm with hm | hm
    · exact (hx _ hm).1 rfl
    · exact (hx _ hm).2 rfl
  have hds : ds ≠ [] := by
    rintro rfl
    cases hc' : hexDigit c <;> cases hr : digits'.mapM hexDigit <;> simp [hc',hr] at hd
  have hneg : (c :: digits' ++ rest).head? ≠ some 45 := by
    have h := ne_sign_of_hexDigit hc
    simp [h.1]
  have hrun : digitRun 16 (c :: digits' ++ rest) = ds :=
    @digitRun_append 16 _ _ _ hd (fun c hc => (hrest c hc).1)
  simp only [stoull,hskip,hsign,hmark,hrun,hds,if_false,Nat.not_lt.mpr hmax,hneg]

theorem not_isSpace_of_decimalDigit (h : (decimalDigit c).isSome) : isSpace c = false := by
  simp only [decimalDigit,isDigit,decide_eq_true_eq] at h
  simp only [isSpace,decide_eq_false_iff_not]
  split at h
  · omega
  · simp at h

theorem ne_sign_of_decimalDigit (h : (decimalDigit c).isSome) : c ≠ 45 ∧ c ≠ 43 := by
  constructor <;> rintro rfl <;> revert h <;> decide

theorem stoull_digits (hd : digits.mapM decimalDigit = some ds) (hne : digits ≠ []) :
    stoull 10 digits = if sizeMax < valueFrom 10 0 ds then .error .outOfRange else .ok (valueFrom 10 0 ds) := by
  obtain ⟨c,digits',rfl⟩ := List.exists_cons_of_ne_nil hne
  have hc : (decimalDigit c).isSome := by
    cases hc : decimalDigit c with
    | none => simp [hc] at hd
    | some d => rfl
  have hskip : (c :: digits').dropWhile isSpace = c :: digits' := by
    simp [not_isSpace_of_decimalDigit hc]
  have hsign := ne_sign_of_decimalDigit hc
  have hstrip : stripSign (c :: digits') = c :: digits' := by
    simp [stripSign,hsign.1,hsign.2]
  have hmark : stripHexMark 10 (c :: digits') = c :: digits' := by
    simp [stripHexMark]
  have hrun : digitRun 10 (c :: digits') = ds := by
    have h := @digitRun_append 10 (c :: digits') [] ds hd (by simp)
    rwa [List.append_nil] at h
  have hds : ds ≠ [] := by
    rintro rfl
    cases hc' : decimalDigit c <;> cases hr : digits'.mapM decimalDigit <;> simp [hc',hr] at hd
  have hneg : (c :: digits').head? ≠ some 45 := by
    simp [hsign.1]
  simp only [stoull,hskip,hstrip,hmark,hrun,hds,if_false,hneg]

theorem stoull_decimal (hd : digits.mapM decimalDigit = some ds) (hne : digits ≠ [])
    (hmax : valueFrom 10 0 ds ≤ sizeMax) : stoull 10 digits = .ok (valueFrom 10 0 ds) := by
  rw [stoull_digits hd hne,if_neg (Nat.not_lt.mpr hmax)]

end Numeral

end FastNet
