import FastNet.WebSocketFrame

/-!
The scan for the end of a frame, which the server and the client make before they decode:
`getFrameSize`. Its sum of header and payload is one of type `size_t`.
-/

namespace FastNet

open Numeral Octets WebSocketProtocol List

namespace WebSocketProtocol

/-- The body of both versions of `getFrameSize`, with the way in which the eight bytes of
a long length are put together. -/
def frameSize (join : Bytes → UInt64) (data : Bytes) : Nat :=
  if data.length < 2 then 0
  else
    let byte1 := data.getD 1 0
    let short := (byte1 &&& 0x7F).toNat
    let field : Option (Nat × Nat) :=
      if short = 126 then
        if data.length < 4 then none
        else some (2+2,(data.getD 2 0).toNat <<< 8 ||| (data.getD 3 0).toNat)
      else if short = 127 then
        if data.length < 10 then none else some (2+8,(join ((data.drop 2).take 8)).toNat)
      else some (2,short)
    match field with
    | none => 0
    | some (headerSize,payloadLength) =>
      let headerSize := if byte1 &&& 0x80 ≠ 0 then headerSize+4 else headerSize
      if data.length < sizeAdd headerSize payloadLength then 0 else sizeAdd headerSize payloadLength

def joinUnrolled (field : Bytes) : UInt64 :=
  (field.getD 0 0).toUInt64 <<< 56 ||| (field.getD 1 0).toUInt64 <<< 48 |||
    (field.getD 2 0).toUInt64 <<< 40 ||| (field.getD 3 0).toUInt64 <<< 32 |||
    (field.getD 4 0).toUInt64 <<< 24 ||| (field.getD 5 0).toUInt64 <<< 16 |||
    (field.getD 6 0).toUInt64 <<< 8 ||| (field.getD 7 0).toUInt64

end WebSocketProtocol

def WebSocketServer.getFrameSize : Bytes → Nat := frameSize shiftIn

def WebSocketClient.getFrameSize : Bytes → Nat := frameSize joinUnrolled

namespace WebSocketProtocol

theorem joinUnrolled_eq {field : Bytes} (h : field.length = 8) : joinUnrolled field = shiftIn field := by
  match field, h with
  | [a,b,c,d,e,f,g,i], _ =>
    simp (disch := decide) only [joinUnrolled,shiftIn,foldl_cons,foldl_nil,UInt64.shiftLeft_or,
      ← UInt64.shiftLeft_add,UInt64.reduceAdd,UInt64.zero_shiftLeft,UInt64.zero_or,getD_cons_zero,
      getD_cons_succ]

/-- The sizes that a row of bytes declares: of the header of a frame and of its payload. -/
def declaredSize : Bytes → Option (Nat × Nat)
  | _ :: second :: tail =>
    let mask := if 128 ≤ second.toNat then 4 else 0
    if second.toNat % 128 = 126 then
      if 2 ≤ tail.length then some (4+mask,value (tail.take 2)) else none
    else if second.toNat % 128 = 127 then
      if 8 ≤ tail.length then some (10+mask,value (tail.take 8)) else none
    else some (2+mask,second.toNat % 128)
  | _ => none

def wholeFrame (data : Bytes) : Nat :=
  match declaredSize data with
  | some (header,payload) => if header+payload ≤ data.length then header+payload else 0
  | none => 0

def SizeWraps (data : Bytes) : Prop :=
  ∃ header payload, declaredSize data = some (header,payload) ∧ 2^64 < header+payload ∧
    header+payload-2^64 ≤ data.length

theorem second_bits (second : UInt8) : (second &&& 0x7F).toNat = second.toNat % 128 ∧
    (second &&& 0x80 ≠ 0 ↔ 128 ≤ second.toNat) := by
  revert second
  decide +kernel

theorem frameSize_eq {join : Bytes → UInt64} (hjoin : ∀ field, field.length = 8 → join field = shiftIn field)
    (data : Bytes) : frameSize join data =
      match declaredSize data with
      | some (header,payload) =>
        if data.length < sizeAdd header payload then 0 else sizeAdd header payload
      | none => 0 := by
  match data with
  | [] => rfl
  | [_] => rfl
  | first :: second :: tail =>
    obtain ⟨hshort,hmask⟩ := second_bits second
    have hlen : ¬ (first :: second :: tail).length < 2 := by simp
    obtain ⟨mask,hhead⟩ : ∃ mask, ∀ n, (if 128 ≤ second.toNat then n+4 else n) = n+mask := by
      by_cases h : 128 ≤ second.toNat
      · exact ⟨4,fun n => if_pos h⟩
      · exact ⟨0,fun n => if_neg h⟩
    have hzero : (if 128 ≤ second.toNat then 4 else 0) = mask := by simpa using hhead 0
    simp only [frameSize,hlen,if_false,getD_cons_zero,getD_cons_succ,hshort,hmask,hzero,hhead,declaredSize]
    by_cases h126 : second.toNat % 128 = 126
    · match tail with
      | [] => simp [h126]
      | [_] => simp [h126]
      | a :: b :: rest =>
        have hlong : ¬ rest.length+1+1+1+1 < 4 := by omega
        simp [h126,shift_or,hlong]
    · by_cases h127 : second.toNat % 128 = 127
      · by_cases h8 : 8 ≤ tail.length
        · have hfield : (tail.take 8).length = 8 := by simpa using h8
          have hvalue : (join (tail.take 8)).toNat = value (tail.take 8) := by
            rw [hjoin _ hfield,shiftIn_toNat (by omega)]
          have hlong : ¬ tail.length+1+1 < 10 := by omega
          simp [h127,h8,hvalue,hlong]
        · have hlong : tail.length+1+1 < 10 := by omega
          simp [h127,h8,hlong]
      · simp [h126,h127]

theorem frameSize_agree (data : Bytes) :
    WebSocketServer.getFrameSize data = WebSocketClient.getFrameSize data := by
  rw [WebSocketServer.getFrameSize,WebSocketClient.getFrameSize,frameSize_eq (fun _ _ => rfl),
    frameSize_eq (fun _ => joinUnrolled_eq)]

section Prefixes

variable {data rest : Bytes} {header payload : Nat}

section

variable (h : declaredSize data = some (header, payload))
include h

theorem declaredSize_bounds :
    header ≤ 14 ∧ payload < 2^64 := by
  match data with
  | [] => cases h
  | [_] => cases h
  | first :: second :: tail =>
    have hmask : (if 128 ≤ second.toNat then 4 else 0) ≤ 4 := by
      split
      · exact Nat.le_refl 4
      · exact Nat.zero_le 4
    have htwo := value_lt (tail.take 2)
    have height := value_lt (tail.take 8)
    rw [length_take] at htwo height
    simp only [declaredSize] at h
    split at h
    · split at h
      · rename_i hlen
        cases h
        rw [Nat.min_eq_left hlen] at htwo
        omega
      · cases h
    · split at h
      · split at h
        · rename_i hlen
          cases h
          rw [Nat.min_eq_left hlen] at height
          omega
        · cases h
      · cases h
        omega

theorem declaredSize_append (rest : Bytes) :
    declaredSize (data ++ rest) = some (header,payload) := by
  match data with
  | [] => cases h
  | [_] => cases h
  | first :: second :: tail =>
    simp only [declaredSize,cons_append] at h ⊢
    split at h
    · rename_i h126
      split at h
      · rename_i hlen
        rw [if_pos h126,length_append,if_pos (by omega),take_append_of_le_length hlen]
        exact h
      · cases h
    · rename_i h126
      split at h
      · rename_i h127
        split at h
        · rename_i hlen
          rw [if_neg h126,if_pos h127,length_append,if_pos (by omega),take_append_of_le_length hlen]
          exact h
        · cases h
      · rename_i h127
        rw [if_neg h126,if_neg h127]
        exact h

theorem declaredSize_take (k : Nat) :
    declaredSize (data.take k) = some (header,payload) ∨ declaredSize (data.take k) = none := by
  cases hk : declaredSize (data.take k) with
  | none => exact .inr rfl
  | some sizes =>
    have happ := declaredSize_append hk (data.drop k)
    rw [take_append_drop,h] at happ
    exact .inl happ.symm

end

theorem second_declares {k : Nat} (h : k < 128) (masked : Bool) :
    (maskBit masked ||| UInt8.ofNat k).toNat % 128 = k ∧
      (if 128 ≤ (maskBit masked ||| UInt8.ofNat k).toNat then 4 else 0) = (if masked then 4 else 0) := by
  obtain ⟨hshort,hbit⟩ := second_short h masked
  obtain ⟨hmod,htop⟩ := second_bits (maskBit masked ||| UInt8.ofNat k)
  rw [hmod] at hshort
  generalize maskBit masked ||| UInt8.ofNat k = second at *
  have hmas : 128 ≤ second.toNat ↔ masked = true := by
    rw [← htop,← hbit]
    simp
  exact ⟨hshort,by simp only [hmas]⟩

theorem declaredSize_frameOf {payload : Bytes} (hsize : payload.length < 2^63) (fin : Bool)
    (type : WSFrameType) (masked : Bool) (key : Key) (rest : Bytes) :
    declaredSize (frameOf fin type masked key payload ++ rest) =
      some (frameHeaderSize payload.length masked,payload.length) := by
  rw [← writePayloadLength_length,frameOf,cons_append,append_assoc]
  generalize maskedPayload masked key payload ++ rest = tail
  rcases length_cases payload.length with h | ⟨h,h'⟩ | h
  · obtain ⟨hk,hmask⟩ := second_declares (show payload.length < 128 by omega) masked
    rw [writePayloadLength_short h]
    simp only [cons_append,nil_append,declaredSize,hk,hmask,length_cons,length_nil]
    rw [if_neg (by omega),if_neg (by omega)]
  · obtain ⟨hk,hmask⟩ := second_declares (show 126 < 128 by decide) masked
    rw [show UInt8.ofNat 126 = 126 from rfl] at hk hmask
    rw [writePayloadLength_middle h h']
    simp only [cons_append,declaredSize,hk,hmask,length_cons,octets_length,length_append]
    rw [if_true,if_pos (by omega),take_left' (octets_length _ _),value_octets,Nat.mod_eq_of_lt (by omega)]
  · obtain ⟨hk,hmask⟩ := second_declares (show 127 < 128 by decide) masked
    rw [show UInt8.ofNat 127 = 127 from rfl] at hk hmask
    rw [writePayloadLength_long h]
    simp only [cons_append,declaredSize,hk,hmask,length_cons,octets_length,length_append]
    rw [if_neg (by decide),if_true,if_pos (by omega),take_left' (octets_length _ _),value_octets,
      Nat.mod_eq_of_lt (by omega)]

theorem getFrameSize_eq (h : declaredSize data = some (header,payload)) :
    WebSocketServer.getFrameSize data =
      if data.length < sizeAdd header payload then 0 else sizeAdd header payload := by
  rw [WebSocketServer.getFrameSize,frameSize_eq (fun _ _ => rfl),h]

theorem getFrameSize_of_none (h : declaredSize data = none) : WebSocketServer.getFrameSize data = 0 := by
  rw [WebSocketServer.getFrameSize,frameSize_eq (fun _ _ => rfl),h]

theorem getFrameSize_frameOf {payload : Bytes} (hsize : payload.length < 2^63) (fin : Bool)
    (type : WSFrameType) (masked : Bool) (key : Key) (rest : Bytes) :
    WebSocketServer.getFrameSize (frameOf fin type masked key payload ++ rest) =
        (frameOf fin type masked key payload).length ∧
      ∀ k < (frameOf fin type masked key payload).length,
        WebSocketServer.getFrameSize ((frameOf fin type masked key payload ++ rest).take k) = 0 := by
  have hdec := declaredSize_frameOf hsize fin type masked key rest
  have hlen := frameOf_length fin type masked key payload
  have hhead := (declaredSize_bounds hdec).1
  have hadd := sizeAdd_eq (show frameHeaderSize payload.length masked+payload.length < 2^64 by omega)
  constructor
  · rw [getFrameSize_eq hdec,hadd,← hlen,if_neg (by simp)]
  · intro k hk
    rcases declaredSize_take hdec k with h | h
    · rw [getFrameSize_eq h,hadd,← hlen,if_pos]
      rw [length_take]
      omega
    · exact getFrameSize_of_none h

/-- The scans agree. They give the size of the frame when it is there and 0 otherwise,
but for frames whose declared size wraps around; a frame that the decoder accepts is none
of these. -/
theorem frame_size_exact_iff {d : Bytes} (hd : d.length ≤ sizeMax) :
    WebSocketServer.getFrameSize d = WebSocketClient.getFrameSize d ∧
    (WebSocketServer.getFrameSize d = wholeFrame d ↔ ¬ SizeWraps d) ∧
    ∀ payload metadata, decodeFrame d = some (payload, metadata) →
      WebSocketServer.getFrameSize d = frameHeaderSize payload.length metadata.masked+payload.length ∧
      ∀ k < WebSocketServer.getFrameSize d, WebSocketServer.getFrameSize (d.take k) = 0 := by
  refine ⟨frameSize_agree d,?_,?_⟩
  · cases h : declaredSize d with
    | none => simp [getFrameSize_of_none h,wholeFrame,SizeWraps,h]
    | some sizes =>
      obtain ⟨header,payload⟩ := sizes
      have hboun := declaredSize_bounds h
      have hwraps : SizeWraps d ↔ 2^64 < header+payload ∧ header+payload-2^64 ≤ d.length := by
        simp [SizeWraps,h]
      rw [getFrameSize_eq h,wholeFrame,h,hwraps]
      unfold sizeMax at hd
      rcases Nat.lt_or_ge (header+payload) (2^64) with hlt | hge
      · have hle : ¬ 2^64 < header+payload := by omega
        simp only [sizeAdd_eq hlt,hle,false_and,not_false_iff,iff_true]
        split
        · rw [if_neg (by omega)]
        · rw [if_pos (by omega)]
      · have hsum : sizeAdd header payload = header+payload-2^64 := by
          unfold sizeAdd
          omega
        have hlong : ¬ header+payload ≤ d.length := by omega
        simp only [hsum,hlong,if_false]
        split
        · simp only [true_iff]
          omega
        · omega
  · intro payload metadata hdec
    obtain ⟨hacc,key,rest,rfl⟩ := decodeFrame_iff.mp hdec
    obtain ⟨hwhole,hpart⟩ :=
      getFrameSize_frameOf hacc.size metadata.final metadata.type metadata.masked key rest
    rw [hwhole]
    exact ⟨frameOf_length _ _ _ _ _,hpart⟩

/-- A text frame with two letters. -/
theorem frame_size_exact_two_letters :
    let d : Bytes := [0x81,0x02,0x68,0x69]
    (WebSocketServer.getFrameSize d = wholeFrame d ↔ ¬ SizeWraps d) ∧ wholeFrame d = 4 :=
  ⟨(frame_size_exact_iff (by decide)).2.1,by decide +kernel⟩

/-- A declared length of 2^64-1 and a header of ten bytes make a frame of nine bytes. -/
theorem frame_size_wraps :
    let d : Bytes := [0x82,0x7F,0xFF,0xFF,0xFF,0xFF,0xFF,0xFF,0xFF,0xFF]
    declaredSize d = some (10,2^64-1) ∧ wholeFrame d = 0 ∧ WebSocketServer.getFrameSize d = 9 ∧
      WebSocketClient.getFrameSize d = 9 := by
  decide +kernel

end Prefixes

end WebSocketProtocol

end FastNet
