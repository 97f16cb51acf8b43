import Mathlib

/-!
Rows of octets: numbers with the most significant octet first, fields that are written
into a row at a position, and a row that is masked with a repeating key.
-/

namespace FastNet.Octets

def value (l : List UInt8) : Nat := l.foldl (fun n b => n*256+b.toNat) 0

/-- The `k` low octets of a number. -/
def octets : Nat → Nat → List UInt8
  | 0, _ => []
  | k+1, n => UInt8.ofNat (n >>> (8*k)) :: octets k n

@[simp] theorem octets_length (k n : Nat) : (octets k n).length = k := by
  induction k with
  | zero => rfl
  | succ k ih => simp [octets,ih]

theorem value_concat (l : List UInt8) (b : UInt8) : value (l ++ [b]) = value l*256+b.toNat := by
  simp [value]

theorem foldl_eq (l : List UInt8) (n : Nat) :
    l.foldl (fun n b => n*256+b.toNat) n = n*256^l.length+value l := by
  induction l using List.reverseRecOn with
  | nil => simp [value]
  | append_singleton l b ih =>
    rw [value_concat,List.foldl_append,ih]
    simp only [List.foldl_cons,List.foldl_nil,List.length_append,List.length_cons,List.length_nil,
      Nat.zero_add,Nat.pow_succ]
    ring

theorem value_cons (b : UInt8) (l : List UInt8) : value (b :: l) = b.toNat*256^l.length+value l := by
  rw [value,List.foldl_cons,foldl_eq,Nat.zero_mul,Nat.zero_add]

theorem value_lt (l : List UInt8) : value l < 256^l.length := by
  induction l with
  | nil => simp [value]
  | cons b l ih =>
    have hb := b.toNat_lt
    rw [value_cons,List.length_cons,Nat.pow_succ]
    have hmul : (b.toNat+1)*256^l.length ≤ 256*256^l.length := Nat.mul_le_mul_right _ (by omega)
    rw [Nat.add_mul,Nat.one_mul] at hmul
    omega

theorem value_octets (k n : Nat) : value (octets k n) = n % 256^k := by
  induction k with
  | zero => simp [octets,value,Nat.mod_one]
  | succ k ih =>
    rw [octets,value_cons,octets_length,ih,Nat.pow_succ,Nat.mod_mul,UInt8.toNat_ofNat',
      Nat.shiftRight_eq_div_pow,Nat.pow_mul]
    ring

theorem value_inj {l l' : List UInt8} (hlen : l.length = l'.length) (h : value l = value l') :
    l = l' := by
  induction l generalizing l' with
  | nil => exact (List.eq_nil_of_length_eq_zero hlen.symm).symm
  | cons b l ih =>
    cases l' with
    | nil => simp at hlen
    | cons b' l' =>
      have hlen' : l.length = l'.length := by simpa using hlen
      have hlt := value_lt l
      have hlt' := value_lt l'
      rw [value_cons,value_cons,hlen'] at h
      rw [hlen'] at hlt
      have hpos : 0 < 256^l'.length := Nat.pow_pos (by decide)
      have hdiv := congrArg (· / 256^l'.length) h
      simp only [Nat.mul_comm _ (256^l'.length),Nat.mul_add_div hpos,Nat.div_eq_of_lt hlt,
        Nat.div_eq_of_lt hlt',Nat.add_zero] at hdiv
      rw [hdiv] at h
      rw [UInt8.toNat_inj.mp hdiv,ih hlen' (by omega)]

theorem octets_value (l : List UInt8) : octets l.length (value l) = l :=
  value_inj (octets_length _ _) (by rw [value_octets,Nat.mod_eq_of_lt (value_lt l)])

def shiftIn (l : List UInt8) : UInt64 := l.foldl (fun n b => (n <<< 8) ||| b.toUInt64) 0

theorem shiftIn_toNat {l : List UInt8} (h : l.length ≤ 8) : (shiftIn l).toNat = value l := by
  induction l using List.reverseRecOn with
  | nil => rfl
  | append_singleton l b ih =>
    have hl : l.length+1 ≤ 8 := by simpa using h
    have hlt : value l < 2^56 := by
      calc value l < 256^l.length := value_lt l
        _ ≤ 256^7 := Nat.pow_le_pow_right (by decide) (by omega)
        _ = 2^56 := by decide
    have hb := b.toNat_lt
    rw [value_concat,shiftIn,List.foldl_append,List.foldl_cons,List.foldl_nil,
      UInt64.toNat_or,UInt64.toNat_shiftLeft,← shiftIn,ih (by omega)]
    have hshift : value l <<< ((8 : UInt64).toNat % 64) % 2^64 = value l <<< 8 := by
      rw [show (8 : UInt64).toNat % 64 = 8 from rfl,Nat.shiftLeft_eq]
      omega
    rw [hshift,UInt8.toNat_toUInt64,← Nat.shiftLeft_add_eq_or_of_lt hb,Nat.shiftLeft_eq]

/-- The octets of `field` are written at a position of a row. -/
def store (row : List UInt8) (pos : Nat) (field : List UInt8) : List UInt8 :=
  row.take pos ++ field ++ row.drop (pos+field.length)

theorem store_blank (done field : List UInt8) (n : Nat) :
    store (done ++ List.replicate (field.length+n) 0) done.length field =
      done ++ field ++ List.replicate n 0 := by
  rw [store,List.take_left,← List.drop_drop,List.drop_left,List.drop_replicate,Nat.add_sub_cancel_left]

section Mask

/-- A key of four octets. -/
abbrev Key := Vector UInt8 4

def Key.at (key : Key) (i : Nat) : UInt8 :=
  key.get ⟨i &&& 3,Nat.lt_of_le_of_lt Nat.and_le_right (by decide)⟩

def applyMask (key : Key) (l : List UInt8) : List UInt8 := l.mapIdx (fun i b => b ^^^ key.at i)

@[simp] theorem applyMask_length (key : Key) (l : List UInt8) :
    (applyMask key l).length = l.length := by
  simp [applyMask]

@[simp] theorem applyMask_applyMask (key : Key) (l : List UInt8) :
    applyMask key (applyMask key l) = l := by
  refine List.ext_getElem (by simp) (fun i _ _ => ?_)
  simp [applyMask]

end Mask

end FastNet.Octets
