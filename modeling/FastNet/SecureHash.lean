import FastNet.Octets
import FastNet.WebSocketHandshake

/-!
SHA-1 as its standard defines it, and the `Sha1` class.
-/

namespace FastNet

open Octets List Nat

namespace SecureHash

def rotl (n x : UInt32) : UInt32 := (x <<< n) ||| (x >>> (32-n))

def ch (x y z : UInt32) : UInt32 := (x &&& y) ^^^ (~~~x &&& z)

def parity (x y z : UInt32) : UInt32 := x ^^^ y ^^^ z

def maj (x y z : UInt32) : UInt32 := (x &&& y) ^^^ (x &&& z) ^^^ (y &&& z)

def f (t : Nat) : UInt32 → UInt32 → UInt32 → UInt32 :=
  if t < 20 then ch else if t < 40 then parity else if t < 60 then maj else parity

def k (t : Nat) : UInt32 :=
  if t < 20 then 0x5A827999 else if t < 40 then 0x6ED9EBA1 else if t < 60 then 0x8F1BBCDC else 0xCA62C1D6

def word (block : List UInt8) (t : Nat) : UInt32 := UInt32.ofNat (value ((block.drop (4*t)).take 4))

/-- The words of the message schedule. -/
def w (block : List UInt8) (t : Nat) : UInt32 :=
  if t < 16 then word block t
  else rotl 1 (w block (t-3) ^^^ w block (t-8) ^^^ w block (t-14) ^^^ w block (t-16))
termination_by t
decreasing_by all_goals omega

structure Words where
  a : UInt32
  b : UInt32
  c : UInt32
  d : UInt32
  e : UInt32

def Words.toList (v : Words) : List UInt32 := [v.a,v.b,v.c,v.d,v.e]

def round (block : List UInt8) (v : Words) (t : Nat) : Words :=
  ⟨rotl 5 v.a+f t v.b v.c v.d+v.e+k t+w block t,v.a,rotl 30 v.b,v.c,v.d⟩

def compress (h : Words) (block : List UInt8) : Words :=
  let v := (range 80).foldl (round block) h
  ⟨v.a+h.a,v.b+h.b,v.c+h.c,v.d+h.d,v.e+h.e⟩

def start : Words := ⟨0x67452301,0xEFCDAB89,0x98BADCFE,0x10325476,0xC3D2E1F0⟩

def blockAt (message : List UInt8) (i : Nat) : List UInt8 := (message.drop (64*i)).take 64

/-- The hash value behind the whole blocks of a message. -/
def hashOf (message : List UInt8) : Words :=
  (range (message.length/64)).foldl (fun h i => compress h (blockAt message i)) start

variable {m x : List UInt8}

theorem blockAt_append {i : Nat} (h : i < m.length/64) (x : List UInt8) : blockAt (m ++ x) i = blockAt m i := by
  rw [blockAt,drop_append_of_le_length (by omega),take_append_of_le_length (by simp; omega),blockAt]

theorem foldl_blocks (m x : List UInt8) :
    (range (m.length/64)).foldl (fun h i => compress h (blockAt (m ++ x) i)) start = hashOf m :=
  foldl_ext _ _ _ (fun h i hi => by rw [blockAt_append (mem_range.mp hi)])

theorem hash_part (h : m.length%64+x.length < 64) : hashOf (m ++ x) = hashOf m := by
  rw [hashOf,length_append,show (m.length+x.length)/64 = m.length/64 by omega,foldl_blocks]

theorem hash_full (h : m.length%64+x.length = 64) :
    hashOf (m ++ x) = compress (hashOf m) (m.drop (64*(m.length/64)) ++ x) := by
  have hlast : blockAt (m ++ x) (m.length/64) = m.drop (64*(m.length/64)) ++ x := by
    rw [blockAt,drop_append_of_le_length (by omega),take_of_length_le]
    simp only [length_append,length_drop]
    omega
  rw [hashOf,length_append,show (m.length+x.length)/64 = m.length/64+1 by omega,range_succ,
    foldl_append,foldl_blocks,foldl_cons,foldl_nil,hlast]

end SecureHash

open SecureHash

namespace Sha1

theorem ch_eq (x y z : UInt32) : (x &&& y) ||| (~~~x &&& z) = ch x y z := by
  have hbit : ∀ a b c : Bool, (a && b || !a && c) = ((a && b) ^^ (!a && c)) := by decide
  apply UInt32.toBitVec_inj.mp
  ext i hi
  simpa [ch] using hbit x.toBitVec[i] y.toBitVec[i] z.toBitVec[i]

theorem maj_eq (x y z : UInt32) : (x &&& y) ||| (x &&& z) ||| (y &&& z) = maj x y z := by
  have hbit : ∀ a b c : Bool, (a && b || a && c || b && c) = ((a && b) ^^ (a && c) ^^ (b && c)) := by decide
  apply UInt32.toBitVec_inj.mp
  ext i hi
  simpa [maj] using hbit x.toBitVec[i] y.toBitVec[i] z.toBitVec[i]

theorem join_octets (a b c d : UInt8) :
    a.toUInt32 <<< 24 ||| b.toUInt32 <<< 16 ||| c.toUInt32 <<< 8 ||| d.toUInt32 =
      UInt32.ofNat (value [a,b,c,d]) := by
  have ha := a.toNat_lt
  have hb := b.toNat_lt
  have hc := c.toNat_lt
  have hd := d.toNat_lt
  have hor {n i : Nat} (x : Nat) (h : n < 2^i) : x*2^i ||| n = x*2^i+n := by
    rw [← Nat.shiftLeft_eq,Nat.shiftLeft_add_eq_or_of_lt h]
  apply UInt32.toNat_inj.mp
  simp only [UInt32.toNat_or,UInt32.toNat_shiftLeft,UInt8.toNat_toUInt32,UInt32.toNat_ofNat',Nat.or_assoc,
    Nat.shiftLeft_eq,UInt32.reduceToNat,Nat.reduceMod]
  rw [Nat.mod_eq_of_lt (show c.toNat*2^8 < 2^32 by omega),Nat.mod_eq_of_lt (show b.toNat*2^16 < 2^32 by omega),
    Nat.mod_eq_of_lt (show a.toNat*2^24 < 2^32 by omega),hor c.toNat hd,
    hor b.toNat (show c.toNat*2^8+d.toNat < 2^16 by omega),
    hor a.toNat (show b.toNat*2^16+(c.toNat*2^8+d.toNat) < 2^24 by omega)]
  simp only [value,foldl]
  omega

variable {block : Bytes}

theorem blockWord_eq (h : block.length = 64) {t : Nat} (ht : t < 16) : blockWord block t = word block t := by
  have hword : (block.drop (4*t)).take 4 =
      [block.getD (t*4) 0,block.getD (t*4+1) 0,block.getD (t*4+2) 0,block.getD (t*4+3) 0] := by
    rw [mul_comm 4 t]
    refine ext_getElem (by simp; omega) (fun i hi hi' => ?_)
    have hlt : i < 4 := by simpa using hi'
    have hin (j : Nat) (hj : j < 4) : t*4+j < block.length := by omega
    have hfirst := hin 0 (by decide)
    rw [add_zero] at hfirst
    interval_cases i <;> simp [hfirst,hin 1 (by decide),hin 2 (by decide),hin 3 (by decide)]
  rw [blockWord,join_octets,word,hword]

theorem schedule_eq (h : block.length = 64) : schedule block = (range 80).map (w block) := by
  have hsteps (n : Nat) : (range' 16 n).foldl (fun schedule i => schedule ++
      [leftRotate (schedule.getD (i-3) 0 ^^^ schedule.getD (i-8) 0 ^^^ schedule.getD (i-14) 0 ^^^
        schedule.getD (i-16) 0) 1]) ((range 16).map (blockWord block)) = (range (16+n)).map (w block) := by
    induction n with
    | zero =>
      refine map_congr_left (fun t ht => ?_)
      rw [w,if_pos (mem_range.mp ht),blockWord_eq h (mem_range.mp ht)]
    | succ n ih =>
      have hget {i : Nat} (hi : i < 16+n) : ((range (16+n)).map (w block)).getD i 0 = w block i := by
        simp [getD_eq_getElem?_getD,hi]
      rw [range'_concat,foldl_append,ih,← add_assoc,range_succ,map_append]
      simp only [foldl_cons,foldl_nil,map_cons,map_nil,one_mul]
      rw [hget (by omega),hget (by omega),hget (by omega),hget (by omega),w.eq_def block (16+n),if_neg (by omega)]
      rfl
  exact hsteps 64

theorem round_eq (block : Bytes) (v : Words) (t : Nat) :
    round t (w block t) (v.a,v.b,v.c,v.d,v.e) =
      let v := SecureHash.round block v t
      (v.a,v.b,v.c,v.d,v.e) := by
  simp only [round,SecureHash.round,f,k,ch_eq,maj_eq]
  split
  · rfl
  · split
    · rfl
    · split <;> rfl

theorem processBlock_eq (h : block.length = 64) (v : Words) :
    processBlock v.toList block = (compress v block).toList := by
  have hrounds (n : Nat) : (((range n).map (w block)).zipIdx).foldl (fun words x => round x.2 x.1 words)
      (v.a,v.b,v.c,v.d,v.e) =
        let v := (range n).foldl (SecureHash.round block) v
        (v.a,v.b,v.c,v.d,v.e) := by
    induction n with
    | zero => rfl
    | succ n ih =>
      rw [range_succ,map_append,zipIdx_append,foldl_append,ih,foldl_append]
      simpa using round_eq block _ n
  have hall := hrounds 80
  rw [← schedule_eq h] at hall
  simp only [processBlock,Words.toList,compress]
  rw [foldl_ext _ (fun words x => round x.2 x.1 words)]
  · simp only [getD_cons_zero,getD_cons_succ,hall,UInt32.add_comm]
  · exact fun _ _ _ => rfl

/-- The class has taken in a message. -/
structure Absorbed (sha1 : Sha1) (message : Bytes) : Prop where
  state : sha1.state = (hashOf message).toList
  block : sha1.block = message.drop (64*(message.length/64))

variable {sha1 : Sha1} {message x : Bytes}

theorem Absorbed.length (h : Absorbed sha1 message) : sha1.block.length = message.length%64 := by
  rw [h.block,length_drop]
  omega

theorem Absorbed.full (h : Absorbed sha1 message) (hx : sha1.block.length+x.length = 64) (bits : UInt64) :
    Absorbed { state := processBlock sha1.state (sha1.block ++ x), block := [], totalBits := bits } (message ++ x) := by
  rw [h.length] at hx
  constructor
  · have hblock : (message.drop (64*(message.length/64)) ++ x).length = 64 := by
      simp only [length_append,length_drop]
      omega
    simp only [h.state,h.block]
    rw [processBlock_eq hblock,hash_full hx]
  · simp only [length_append]
    rw [drop_eq_nil_of_le (by rw [length_append]; omega)]

theorem Absorbed.part (h : Absorbed sha1 message) (hx : sha1.block.length+x.length < 64) :
    Absorbed { sha1 with block := sha1.block ++ x } (message ++ x) := by
  rw [h.length] at hx
  constructor
  · rw [hash_part hx]
    exact h.state
  · simp only [h.block,length_append]
    rw [show (message.length+x.length)/64 = message.length/64 by omega,drop_append_of_le_length (by omega)]

end Sha1

end FastNet
