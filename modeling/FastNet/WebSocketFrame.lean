import FastNet.Numerals
import FastNet.Octets

/-!
The frames of `WebSocketProtocol.cpp`: the encoder, the decoder, and the rows of bytes
that the decoder accepts, which are the encodings of its results.
-/

namespace FastNet

open Numeral Octets List

inductive WSFrameType where
  | text | binary | close | ping | pong
  deriving DecidableEq, Repr

structure WSFrameMetadata where
  type : WSFrameType := .text
  final : Bool := true
  masked : Bool := false
  deriving DecidableEq, Repr

namespace WebSocketProtocol

def opcodeForType : WSFrameType → UInt8
  | .text => 0x01
  | .binary => 0x02
  | .close => 0x08
  | .ping => 0x09
  | .pong => 0x0A

def frameTypeFromOpcode (opcode : UInt8) : Option WSFrameType :=
  if opcode = 0x01 then some .text
  else if opcode = 0x02 then some .binary
  else if opcode = 0x08 then some .close
  else if opcode = 0x09 then some .ping
  else if opcode = 0x0A then some .pong
  else none

def isControlOpcode (opcode : UInt8) : Bool := opcode = 0x08 || opcode = 0x09 || opcode = 0x0A

def frameHeaderSize (payloadLength : Nat) (masked : Bool) : Nat :=
  let headerSize := 2
  let headerSize := if 126 ≤ payloadLength ∧ payloadLength ≤ 0xFFFF then headerSize+2
    else if 0xFFFF < payloadLength then headerSize+8 else headerSize
  if masked then headerSize+4 else headerSize

def maskBit (masked : Bool) : UInt8 := if masked then 0x80 else 0x00

/-- The bytes that `writePayloadLength` writes; it returns how many they are. -/
def writePayloadLength (payloadLength : Nat) (masked : Bool) : Bytes :=
  if payloadLength < 126 then [maskBit masked ||| UInt8.ofNat payloadLength]
  else if payloadLength ≤ 0xFFFF then
    [maskBit masked ||| 126,UInt8.ofNat (payloadLength >>> 8 &&& 0xFF),UInt8.ofNat (payloadLength &&& 0xFF)]
  else
    (maskBit masked ||| 127) :: [56,48,40,32,24,16,8,0].map
      (fun shift => UInt8.ofNat (payloadLength >>> shift &&& 0xFF))

/-- `encodeFrame`, with the key that `generateMaskKey` returns. -/
def encodeFrame (key : Key) (data : Bytes) (type : WSFrameType) (maskPayload : Bool) : Bytes :=
  let payloadLength := data.length
  let headerSize := frameHeaderSize payloadLength maskPayload
  let frame := replicate (headerSize+data.length) 0
  let frame := store frame 0 [0x80 ||| opcodeForType type]
  let length := writePayloadLength payloadLength maskPayload
  let frame := store frame 1 length
  let offset := 1+length.length
  if maskPayload then store (store frame offset key.toList) (offset+4) (applyMask key data)
  else store frame offset data

def isControlFrame (type : WSFrameType) : Bool := type = .close || type = .ping || type = .pong

def closeCode (payload : Bytes) : Nat := (payload.getD 0 0).toNat <<< 8 ||| (payload.getD 1 0).toNat

def isValidClosePayload (payload : Bytes) : Bool :=
  if payload.length = 0 then true
  else if payload.length = 1 then false
  else
    let code := closeCode payload
    if code < 1000 then false
    else if code = 1004 ∨ code = 1005 ∨ code = 1006 ∨ code = 1015 then false
    else if (1016 ≤ code ∧ code ≤ 1999) ∨ (2000 ≤ code ∧ code ≤ 2999) then false
    else true

/-- The part of `decodeFrame` that reads the length of the payload: the length, and where
the field ends. -/
def decodeLength (data : Bytes) (short : Nat) : Option (Nat × Nat) :=
  if short = 126 then
    if data.length < 2+2 then none
    else
      let payloadLength := (data.getD 2 0).toNat <<< 8 ||| (data.getD 3 0).toNat
      if payloadLength < 126 then none else some (payloadLength,4)
  else if short = 127 then
    if data.length < 2+8 then none
    else
      let payloadLength := shiftIn ((data.drop 2).take 8)
      if payloadLength.toNat ≤ 0xFFFF ∨ payloadLength &&& ((1 : UInt64) <<< 63) ≠ 0 then none
      else some (payloadLength.toNat,10)
  else some (short,2)

def maskAt (data : Bytes) (offset : Nat) : Key :=
  ⟨#[data.getD offset 0,data.getD (offset+1) 0,data.getD (offset+2) 0,data.getD (offset+3) 0],rfl⟩

/-- The part of `decodeFrame` behind the length field: the mask and the payload. -/
def decodePayload (data : Bytes) (masked : Bool) (payloadLength offset : Nat) : Option Bytes := do
  if masked ∧ data.length < offset+4 then none
  let mask := maskAt data offset
  let offset := if masked then offset+4 else offset
  if data.length < offset ∨ data.length-offset < payloadLength then none
  let payload := (data.drop offset).take payloadLength
  return if masked then applyMask mask payload else payload

/-- `decodeFrame`, for a payload in a string and in a buffer alike. -/
def decodeFrame (data : Bytes) : Option (Bytes × WSFrameMetadata) := do
  if data.length < 2 then none
  let firstByte := data.getD 0 0
  let secondByte := data.getD 1 0
  let fin : Bool := firstByte &&& 0x80 ≠ 0
  let opcode := firstByte &&& 0x0F
  if firstByte &&& 0x70 ≠ 0 then none
  let type ← frameTypeFromOpcode opcode
  let (payloadLength,offset) ← decodeLength data (secondByte &&& 0x7F).toNat
  let masked : Bool := secondByte &&& 0x80 ≠ 0
  if isControlOpcode opcode ∧ (!fin ∨ 125 < payloadLength) then none
  if sizeMax < payloadLength then none
  let payload ← decodePayload data masked payloadLength offset
  if type = .close ∧ !isValidClosePayload payload then none
  return (payload,{ type, final := fin, masked })

def decodeFinalFrame (data : Bytes) : Option (Bytes × WSFrameType) :=
  match decodeFrame data with
  | some (payload,metadata) => if metadata.final then some (payload,metadata.type) else none
  | none => none

def firstByteOf (fin : Bool) (type : WSFrameType) : UInt8 :=
  (if fin then 0x80 else 0x00) ||| opcodeForType type

def maskedPayload (masked : Bool) (key : Key) (payload : Bytes) : Bytes :=
  if masked then key.toList ++ applyMask key payload else payload

def frameOf (fin : Bool) (type : WSFrameType) (masked : Bool) (key : Key) (payload : Bytes) : Bytes :=
  firstByteOf fin type :: (writePayloadLength payload.length masked ++ maskedPayload masked key payload)

theorem writePayloadLength_short {n : Nat} (h : n < 126) (masked : Bool) :
    writePayloadLength n masked = [maskBit masked ||| UInt8.ofNat n] := by
  rw [writePayloadLength,if_pos h]

theorem and_low (b : UInt8) : b &&& 0xFF = b := by
  revert b
  decide +kernel

theorem writePayloadLength_middle {n : Nat} (h : 126 ≤ n) (h' : n ≤ 0xFFFF) (masked : Bool) :
    writePayloadLength n masked = (maskBit masked ||| 126) :: octets 2 n := by
  rw [writePayloadLength,if_neg (by omega),if_pos h']
  simp [and_low,octets]

theorem writePayloadLength_long {n : Nat} (h : 0xFFFF < n) (masked : Bool) :
    writePayloadLength n masked = (maskBit masked ||| 127) :: octets 8 n := by
  rw [writePayloadLength,if_neg (by omega),if_neg (by omega)]
  simp [and_low,octets]

theorem length_cases (n : Nat) : n < 126 ∨ (126 ≤ n ∧ n ≤ 0xFFFF) ∨ 0xFFFF < n := by omega

theorem writePayloadLength_length (n : Nat) (masked : Bool) :
    (writePayloadLength n masked).length+1+(if masked then 4 else 0) = frameHeaderSize n masked := by
  rcases length_cases n with h | ⟨h,h'⟩ | h
  · rw [writePayloadLength_short h,frameHeaderSize]
    grind [octets_length]
  · rw [writePayloadLength_middle h h',frameHeaderSize]
    grind [octets_length]
  · rw [writePayloadLength_long h,frameHeaderSize]
    grind [octets_length]

theorem maskedPayload_length (masked : Bool) (key : Key) (payload : Bytes) :
    (maskedPayload masked key payload).length = (if masked then 4 else 0)+payload.length := by
  cases masked with
  | false => simp [maskedPayload]
  | true => simp [maskedPayload]

theorem frameOf_length (fin : Bool) (type : WSFrameType) (masked : Bool) (key : Key) (payload : Bytes) :
    (frameOf fin type masked key payload).length = frameHeaderSize payload.length masked+payload.length := by
  simp only [frameOf,length_cons,length_append,maskedPayload_length,← writePayloadLength_length]
  omega

theorem encodeFrame_eq (key : Key) (data : Bytes) (type : WSFrameType) (maskPayload : Bool) :
    encodeFrame key data type maskPayload = frameOf true type maskPayload key data := by
  obtain ⟨length,hlen⟩ : ∃ l, l = writePayloadLength data.length maskPayload := ⟨_,rfl⟩
  have hsize := writePayloadLength_length data.length maskPayload
  rw [← hlen] at hsize
  have hframe : frameHeaderSize data.length maskPayload+data.length =
      1+(length.length+((if maskPayload then 4 else 0)+data.length)) := by omega
  obtain ⟨first,hbyte⟩ : ∃ b, b = 0x80 ||| opcodeForType type := ⟨_,rfl⟩
  have hfirst := store_blank [] [first] (length.length+((if maskPayload then 4 else 0)+data.length))
  have hsec := store_blank [first] length ((if maskPayload then 4 else 0)+data.length)
  simp only [length_cons,length_nil,nil_append,Nat.zero_add,cons_append] at hfirst hsec
  simp only [encodeFrame,frameOf,firstByteOf,if_true,← hlen,← hbyte,hframe,hfirst,hsec]
  cases maskPayload with
  | false =>
    have hpay := store_blank (first :: length) data 0
    simpa [Nat.add_comm,maskedPayload] using hpay
  | true =>
    have hkey := store_blank (first :: length) key.toList data.length
    have hpay := store_blank (first :: length ++ key.toList) (applyMask key data) 0
    simp only [length_cons,length_append,Vector.length_toList,applyMask_length,Nat.add_zero,
      replicate_zero,append_nil,cons_append,append_assoc] at hkey hpay
    simp only [if_true,maskedPayload,Nat.add_comm 1,hkey,hpay,Nat.add_right_comm _ 1 4]

variable {k : Nat} {l payload front : Bytes} {masked fin : Bool} {type : WSFrameType}

section Decoder

theorem first_iff (first : UInt8) (fin : Bool) (type : WSFrameType) :
    (first &&& 0x70 = 0 ∧ frameTypeFromOpcode (first &&& 0x0F) = some type ∧
      (!decide (first &&& 0x80 = 0)) = fin) ↔ first = firstByteOf fin type := by
  revert first
  cases fin with
  | false => cases type <;> decide +kernel
  | true => cases type <;> decide +kernel

theorem isControlOpcode_first (fin : Bool) (type : WSFrameType) :
    isControlOpcode (firstByteOf fin type &&& 0x0F) = isControlFrame type := by
  cases fin <;> cases type <;> rfl

theorem second_eq (second : UInt8) :
    second = maskBit (!decide (second &&& 0x80 = 0)) ||| UInt8.ofNat (second &&& 0x7F).toNat := by
  revert second
  decide +kernel

theorem second_short (h : k < 128) (masked : Bool) : ((maskBit masked ||| UInt8.ofNat k) &&& 0x7F).toNat = k ∧
      (!decide ((maskBit masked ||| UInt8.ofNat k) &&& 0x80 = 0)) = masked := by
  have hall : ∀ b : UInt8, b.toNat < 128 → ∀ masked, ((maskBit masked ||| b) &&& 0x7F).toNat = b.toNat ∧
      (!decide ((maskBit masked ||| b) &&& 0x80 = 0)) = masked := by decide +kernel
  have hk : (UInt8.ofNat k).toNat = k := UInt8.toNat_ofNat_of_lt (show k < 256 by omega)
  have h' := hall (UInt8.ofNat k) (by omega) masked
  rwa [hk] at h'

theorem writePayloadLength_cons (n : Nat) (masked : Bool) : ∃ second length,
    writePayloadLength n masked = second :: length ∧ (!decide (second &&& 0x80 = 0)) = masked := by
  rcases length_cases n with h | ⟨h,h'⟩ | h
  · exact ⟨_,_,writePayloadLength_short h masked,(second_short (by omega) masked).2⟩
  · exact ⟨_,_,writePayloadLength_middle h h' masked,(second_short (show 126 < 128 by decide) masked).2⟩
  · exact ⟨_,_,writePayloadLength_long h masked,(second_short (show 127 < 128 by decide) masked).2⟩

theorem toNat_and_top (n : UInt64) : n &&& ((1 : UInt64) <<< 63) = 0 ↔ n.toNat < 2^63 := by
  have hn := n.toNat_lt
  rw [← UInt64.toNat_inj,UInt64.toNat_and,show ((1 : UInt64) <<< 63).toNat = 2^63 by decide +kernel,
    Nat.and_two_pow,Nat.testBit_eq_decide_div_mod_eq,show (0 : UInt64).toNat = 0 from rfl]
  simp
  omega

theorem shift_or (a b : UInt8) : a.toNat <<< 8 ||| b.toNat = value [a,b] := by
  rw [← Nat.shiftLeft_add_eq_or_of_lt b.toNat_lt,Nat.shiftLeft_eq]
  simp [value]

section Length

variable {first second : UInt8} {tail : Bytes} {n offset : Nat}

theorem exists_field {P : Bytes → Prop} :
    (∃ field rest, l = field ++ rest ∧ field.length = k ∧ P field) ↔ k ≤ l.length ∧ P (l.take k) := by
  constructor
  · rintro ⟨field,rest,rfl,rfl,h⟩
    exact ⟨by simp,by rwa [take_left]⟩
  · rintro ⟨hk,h⟩
    exact ⟨l.take k,l.drop k,(take_append_drop k l).symm,by simpa using hk,h⟩

theorem decodeLength_middle : decodeLength (first :: second :: tail) 126 = some (n,offset) ↔
    ∃ field rest, tail = field ++ rest ∧ field.length = 2 ∧ value field = n ∧ 126 ≤ n ∧ offset = 4 := by
  rw [exists_field,decodeLength,if_pos rfl]
  match tail with
  | [] => simp
  | [a] => simp
  | a :: b :: rest =>
    simp only [length_cons,getD_cons_succ,getD_cons_zero,shift_or,take_succ_cons,take_zero]
    rw [if_neg (by omega)]
    split
    · simp only [reduceCtorEq,false_iff]
      omega
    · simp only [Option.some.injEq,Prod.mk.injEq]
      omega

theorem decodeLength_long : decodeLength (first :: second :: tail) 127 = some (n,offset) ↔
    ∃ field rest, tail = field ++ rest ∧ field.length = 8 ∧ value field = n ∧ 0xFFFF < n ∧ n < 2^63 ∧
      offset = 10 := by
  rw [exists_field,decodeLength,if_neg (by decide),if_pos rfl]
  simp only [length_cons,drop_succ_cons,drop_zero,ne_eq,toNat_and_top]
  rw [shiftIn_toNat (by simp)]
  split
  · simp only [reduceCtorEq,false_iff]
    omega
  · split
    · simp only [reduceCtorEq,false_iff]
      omega
    · simp only [Option.some.injEq,Prod.mk.injEq]
      omega

theorem decodeLength_iff : decodeLength (first :: second :: tail) (second &&& 0x7F).toNat = some (n,offset) ↔
    n < 2^63 ∧ ∃ rest, second :: tail =
      writePayloadLength n (!decide (second &&& 0x80 = 0)) ++ rest ∧
      offset = 1+(writePayloadLength n (!decide (second &&& 0x80 = 0))).length := by
  have hsec := second_eq second
  have hshort : (second &&& 0x7F).toNat < 128 := by
    revert second
    decide +kernel
  constructor
  · intro h
    generalize (!decide (second &&& 0x80 = 0)) = masked at *
    generalize (second &&& 0x7F).toNat = short at *
    by_cases h126 : short = 126
    · subst h126
      obtain ⟨field,rest,rfl,hfield,rfl,hge,rfl⟩ := decodeLength_middle.mp h
      have hlt := value_lt field
      have hoct := octets_value field
      rw [hfield] at hlt hoct
      rw [writePayloadLength_middle hge (by omega),hoct,hsec]
      exact ⟨by omega,rest,rfl,by simp [hfield]⟩
    · by_cases h127 : short = 127
      · subst h127
        obtain ⟨field,rest,rfl,hfield,rfl,hgt,hlt,rfl⟩ := decodeLength_long.mp h
        have hoct := octets_value field
        rw [hfield] at hoct
        rw [writePayloadLength_long hgt,hoct,hsec]
        exact ⟨hlt,rest,rfl,by simp [hfield]⟩
      · rw [decodeLength,if_neg h126,if_neg h127] at h
        cases h
        rw [writePayloadLength_short (by omega),hsec]
        exact ⟨by omega,tail,rfl,rfl⟩
  · rintro ⟨hn,rest,heq,rfl⟩
    generalize (!decide (second &&& 0x80 = 0)) = masked at *
    rcases length_cases n with h | ⟨h,h'⟩ | h
    · rw [writePayloadLength_short h] at heq ⊢
      cases heq
      rw [(second_short (by omega) masked).1,decodeLength,if_neg (by omega),if_neg (by omega)]
      rfl
    · rw [writePayloadLength_middle h h'] at heq ⊢
      cases heq
      have h126 := (second_short (show 126 < 128 by decide) masked).1
      rw [show UInt8.ofNat 126 = 126 from rfl] at h126
      rw [h126]
      refine decodeLength_middle.mpr ⟨octets 2 n,rest,rfl,by simp,?_,h,by simp⟩
      rw [value_octets,Nat.mod_eq_of_lt (by omega)]
    · rw [writePayloadLength_long h] at heq ⊢
      cases heq
      have h127 := (second_short (show 127 < 128 by decide) masked).1
      rw [show UInt8.ofNat 127 = 127 from rfl] at h127
      rw [h127]
      refine decodeLength_long.mpr ⟨octets 8 n,rest,rfl,by simp,?_,h,hn,by simp⟩
      rw [value_octets,Nat.mod_eq_of_lt (by omega)]

end Length

theorem key_eq (key : Key) : ∃ a b c d, key = ⟨#[a,b,c,d],rfl⟩ := by
  rcases key with ⟨⟨l⟩,hl⟩
  match l, hl with
  | [a,b,c,d], _ => exact ⟨a,b,c,d,rfl⟩

theorem exists_key (h : 4 ≤ l.length) : ∃ (key : Key) (rest : Bytes), l = key.toList ++ rest := by
  match l, h with
  | a :: b :: c :: d :: rest, _ => exact ⟨⟨#[a,b,c,d],rfl⟩,rest,rfl⟩

theorem maskAt_key (front rest : Bytes) (key : Key) :
    maskAt (front ++ (key.toList ++ rest)) front.length = key := by
  obtain ⟨a,b,c,d,rfl⟩ := key_eq key
  simp [maskAt]

theorem take_eq_iff {n : Nat} :
    (n ≤ l.length ∧ l.take n = payload) ↔ payload.length = n ∧ ∃ rest, l = payload ++ rest := by
  have hfield := @exists_field n l (· = payload)
  constructor
  · intro h
    obtain ⟨field,rest,hl,hn,rfl⟩ := hfield.mpr h
    exact ⟨hn,rest,hl⟩
  · rintro ⟨hn,rest,hl⟩
    exact hfield.mp ⟨payload,rest,hl,hn,rfl⟩

theorem decodePayload_masked {rest : Bytes} {key : Key} {n : Nat} :
    decodePayload (front ++ (key.toList ++ rest)) true n front.length = some payload ↔
      n ≤ rest.length ∧ rest.take n = applyMask key payload := by
  have hrest : (front ++ (key.toList ++ rest)).drop (front.length+4) = rest := by
    rw [← drop_drop,drop_left,drop_left' (by simp)]
  have hlen : (front ++ (key.toList ++ rest)).length = front.length+4+rest.length := by
    simp [Nat.add_assoc]
  have hmask : applyMask key (rest.take n) = payload ↔ rest.take n = applyMask key payload :=
    ⟨fun h => by rw [← h,applyMask_applyMask],fun h => by rw [h,applyMask_applyMask]⟩
  simp only [decodePayload,maskAt_key,if_true,hrest,hlen,← hmask]
  simp

theorem decodePayload_iff {tail : Bytes} {n : Nat} :
    decodePayload (front ++ tail) masked n front.length = some payload ↔
      payload.length = n ∧ ∃ key rest, tail = maskedPayload masked key payload ++ rest := by
  cases masked with
  | false =>
    have htake := @take_eq_iff tail payload n
    simpa [decodePayload,maskedPayload] using htake
  | true =>
    simp only [maskedPayload,if_true,append_assoc]
    constructor
    · intro h
      have hkey : 4 ≤ tail.length := by
        simp only [decodePayload] at h
        simp at h
        exact h.1
      obtain ⟨key,rest,rfl⟩ := exists_key hkey
      obtain ⟨hn,rest',rfl⟩ := take_eq_iff.mp (decodePayload_masked.mp h)
      exact ⟨by simpa using hn,key,rest',rfl⟩
    · rintro ⟨rfl,key,rest,rfl⟩
      exact decodePayload_masked.mpr (take_eq_iff.mpr ⟨by simp,rest,rfl⟩)

structure Acceptable (fin : Bool) (type : WSFrameType) (payload : Bytes) : Prop where
  size : payload.length < 2^63
  control : isControlFrame type = true → fin = true ∧ payload.length ≤ 125
  close : type = .close → isValidClosePayload payload = true

theorem decodeFrame_cons {first second : UInt8} {tail : Bytes} :
    decodeFrame (first :: second :: tail) = some (payload,{ type, final := fin, masked }) ↔
      (first &&& 0x70 = 0 ∧ frameTypeFromOpcode (first &&& 0x0F) = some type ∧
        (!decide (first &&& 0x80 = 0)) = fin) ∧ (!decide (second &&& 0x80 = 0)) = masked ∧
      ∃ n offset, decodeLength (first :: second :: tail) (second &&& 0x7F).toNat = some (n,offset) ∧
        (isControlOpcode (first &&& 0x0F) = true → fin = true ∧ n ≤ 125) ∧ n ≤ sizeMax ∧
        decodePayload (first :: second :: tail) masked n offset = some payload ∧
        (type = .close → isValidClosePayload payload = true) := by
  have hlen : ¬ (first :: second :: tail).length < 2 := by simp
  simp only [decodeFrame,hlen,if_false,getD_cons_zero,getD_cons_succ,Option.bind_eq_bind,
    Option.bind_none,Option.pure_def,Option.ite_none_left_eq_some,Option.bind_eq_some_iff,Prod.exists,
    Option.some.injEq,Prod.mk.injEq,WSFrameMetadata.mk.injEq,ne_eq,decide_not,not_not,not_and,not_or,
    Nat.not_lt]
  generalize (!decide (first &&& 0x80 = 0)) = bit
  generalize (!decide (second &&& 0x80 = 0)) = bit'
  constructor
  · rintro ⟨hres,_,htype,n,offset,hleng,hcon,hmax,_,hpay,hclose,rfl,rfl,rfl,rfl⟩
    exact ⟨⟨hres,htype,rfl⟩,rfl,n,offset,hleng,by simpa using hcon,hmax,hpay,
      by simpa using hclose⟩
  · rintro ⟨⟨hres,htype,rfl⟩,rfl,n,offset,hleng,hcon,hmax,hpay,hclose⟩
    exact ⟨hres,_,htype,n,offset,hleng,by simpa using hcon,hmax,_,hpay,
      by simpa using hclose,rfl,rfl,rfl,rfl⟩

theorem decodeFrame_iff {data : Bytes} : decodeFrame data = some (payload,{ type, final := fin, masked }) ↔
      Acceptable fin type payload ∧ ∃ key rest, data = frameOf fin type masked key payload ++ rest := by
  constructor
  · intro h
    match data with
    | [] => simp [decodeFrame] at h
    | [_] => simp [decodeFrame] at h
    | first :: second :: tail =>
      obtain ⟨hfirst,hmas,n,offset,hlen,hcon,hmax,hpay,hclose⟩ := decodeFrame_cons.mp h
      rw [first_iff] at hfirst
      subst hfirst
      obtain ⟨hn,rest,htail,rfl⟩ := decodeLength_iff.mp hlen
      rw [hmas] at htail hpay
      rw [isControlOpcode_first] at hcon
      rw [htail,← cons_append,Nat.add_comm,← length_cons,decodePayload_iff] at hpay
      obtain ⟨rfl,key,rest',rfl⟩ := hpay
      refine ⟨⟨hn,hcon,hclose⟩,key,rest',?_⟩
      rw [htail,frameOf,cons_append,append_assoc]
  · rintro ⟨hacc,key,rest,rfl⟩
    obtain ⟨second,length,hwrite,hbit⟩ := writePayloadLength_cons payload.length masked
    have hframe : frameOf fin type masked key payload ++ rest =
        firstByteOf fin type :: second :: (length ++ (maskedPayload masked key payload ++ rest)) := by
      rw [frameOf,hwrite,cons_append,cons_append,cons_append,append_assoc]
    rw [hframe,decodeFrame_cons,first_iff]
    refine ⟨rfl,hbit,payload.length,1+(second :: length).length,?_,?_,?_,?_,hacc.close⟩
    · rw [decodeLength_iff,hbit,hwrite]
      exact ⟨hacc.size,_,rfl,rfl⟩
    · rw [isControlOpcode_first]
      exact hacc.control
    · have hsize := hacc.size
      unfold sizeMax
      omega
    · have hpay := (@decodePayload_iff payload (firstByteOf fin type :: second :: length) masked
        (maskedPayload masked key payload ++ rest) payload.length).mpr ⟨rfl,key,rest,rfl⟩
      simpa [Nat.add_comm] using hpay

end Decoder

section Codec

def Encodable (type : WSFrameType) (payload : Bytes) : Prop :=
  (type = .text ∨ type = .binary) ∨ ((type = .ping ∨ type = .pong) ∧ payload.length ≤ 125) ∨
    (type = .close ∧ isValidClosePayload payload = true ∧ payload.length ≤ 125)

theorem acceptable_iff (h : payload.length < 2^63) : Acceptable true type payload ↔ Encodable type payload := by
  constructor
  · intro hacc
    have hcon := hacc.control
    have hclose := hacc.close
    cases type <;> simp_all [Encodable,isControlFrame]
  · intro henc
    refine ⟨h,fun hcon => ⟨rfl,?_⟩,fun hclose => ?_⟩
    · cases type <;> simp_all [Encodable,isControlFrame]
    · subst hclose
      simp_all [Encodable]

theorem maskAt_frameOf (fin : Bool) (type : WSFrameType) (key : Key) (payload rest : Bytes) :
    maskAt (frameOf fin type true key payload ++ rest) (frameHeaderSize payload.length true-4) = key := by
  have hlen := writePayloadLength_length payload.length true
  have hkey := maskAt_key (firstByteOf fin type :: writePayloadLength payload.length true)
    (applyMask key payload ++ rest) key
  simp only [if_true] at hlen
  rw [length_cons,show (writePayloadLength payload.length true).length+1 =
    frameHeaderSize payload.length true-4 by omega] at hkey
  simpa [frameOf,maskedPayload] using hkey

/-- The decoder undoes the encoder on the payloads that fit in one frame, and the encoder
undoes the decoder on final frames. -/
theorem frame_codec_inverse :
    (∀ (payload : Bytes) (type : WSFrameType) (masked : Bool) (key : Key) (rest : Bytes),
      payload.length < 2^63 →
        (decodeFrame (encodeFrame key payload type masked ++ rest) =
            some (payload, { type, final := true, masked }) ↔ Encodable type payload)) ∧
    ∀ (data payload : Bytes) (type : WSFrameType) (masked : Bool),
      decodeFrame data = some (payload, { type, final := true, masked }) →
        let headerSize := frameHeaderSize payload.length masked
        encodeFrame (maskAt data (headerSize-4)) payload type masked =
          data.take (headerSize+payload.length) ∧ headerSize+payload.length ≤ data.length := by
  constructor
  · intro payload type masked key rest hsize
    rw [decodeFrame_iff,encodeFrame_eq,acceptable_iff hsize]
    exact ⟨fun h => h.1,fun h => ⟨h,key,rest,rfl⟩⟩
  · intro data payload type masked h headerSize
    obtain ⟨-,key,rest,rfl⟩ := decodeFrame_iff.mp h
    have hlen := frameOf_length true type masked key payload
    rw [← hlen,List.take_left,encodeFrame_eq]
    refine ⟨?_,by simp⟩
    cases masked with
    | false => rfl
    | true => rw [maskAt_frameOf]

/-- A masked greeting with two bytes behind it. -/
theorem frame_codec_inverse_hello :
    let key : Key := ⟨#[0x37,0xFA,0x21,0x3D],rfl⟩
    decodeFrame (encodeFrame key (ascii "Hello") .text true ++ [0x81,0x00]) =
      some (ascii "Hello",{ type := .text, final := true, masked := true }) ∧
    encodeFrame key (ascii "Hello") .text true =
      [0x81,0x85,0x37,0xFA,0x21,0x3D,0x7F,0x9F,0x4D,0x51,0x58] :=
  ⟨(frame_codec_inverse.1 _ _ _ _ _ (by decide)).mpr (.inl (.inl rfl)),by decide +kernel⟩

end Codec

end WebSocketProtocol

end FastNet
