import FastNet.HttpParser

/-!
The three scanners of chunked bodies: the one that frames requests in the
server, the one that frames responses in the client, and the decoder of
`HttpParser`. They find a size line, skip the chunk, and go round again; all
positions are values of `size_t`, so every sum is taken modulo 2^64.
-/

namespace FastNet

open Text Numeral Loop

namespace Chunked

inductive At where
  | chunk : Nat → At
  | trailer : Nat → At
  deriving DecidableEq, Repr

def At.offset : At → Nat
  | .chunk offset => offset
  | .trailer offset => offset

def At.chunkAt : At → Option Nat
  | .chunk offset => some offset
  | .trailer _ => none

/-- One chunk, as both framing scanners read it. `read` turns the size line into
a size, `last` goes on behind a size line that reads as zero. -/
def sizeTurn {σ : Type} (read : Bytes → Option Nat)
    (last : Nat → Except Exn (Turn σ (Option Nat))) (next : Nat → σ)
    (data : Bytes) (offset : Nat) : Except Exn (Turn σ (Option Nat)) :=
  match find crlf data offset with
  | none => .ok (.leave none)
  | some lineEnd => do
    let line ← substr data offset (lineEnd-offset)
    match read line with
    | none => .ok (.leave (some 0))
    | some chunkSize =>
      let offset := sizeAdd lineEnd 2
      if chunkSize = 0 then last offset
      else if data.length < sizeAdd (sizeAdd offset chunkSize) 2 then .ok (.leave none)
      else do
        let mark ← substr data (sizeAdd offset chunkSize) 2
        if mark ≠ crlf then .ok (.leave (some 0))
        else .ok (.again (next (sizeAdd offset (sizeAdd chunkSize 2))))

def strictSize (line : Bytes) : Option Nat :=
  let sizeLine := HttpParser.trim line
  let sizeLine :=
    match find [59] sizeLine 0 with
    | none => sizeLine
    | some extensionPos => HttpParser.trim (sizeLine.take extensionPos)
  HttpParser.parseHexSize sizeLine

/-- A size line as `std::stoull(line, nullptr, 16)` reads it. -/
def looseSize (line : Bytes) : Option Nat := (stoull 16 line).toOption

end Chunked

open Chunked

namespace HttpServer

def lastChunk (data : Bytes) (offset : Nat) : Except Exn (Turn Nat (Option Nat)) :=
  if data.length < sizeAdd offset 2 then .ok (.leave none)
  else do
    let blank ← substr data offset 2
    if blank ≠ crlf then .ok (.leave (some 0)) else .ok (.leave (some (sizeAdd offset 2)))

def chunkTurn (data : Bytes) (offset : Nat) : Except Exn (Turn Nat (Option Nat)) :=
  sizeTurn looseSize (lastChunk data) id data offset

/-- `HttpServer::getChunkedMessageSize`. A call that never comes back is told from
one that does by a turn for every position (`getChunkedMessageSize_hang_iff`). -/
def getChunkedMessageSize (data : Bytes) : Outcome Exn (Option Nat) :=
  run (chunkTurn data) (data.length+1) 0

end HttpServer

namespace HttpClient

def trailerTurn (data : Bytes) (offset : Nat) : Except Exn (Turn At (Option Nat)) :=
  match find crlf data offset with
  | none => .ok (.leave none)
  | some trailerEnd => do
    let trailerLine ← substr data offset (trailerEnd-offset)
    let offset := sizeAdd trailerEnd 2
    if trailerLine = [] then .ok (.leave (some offset))
    else
      match find [58] trailerLine 0 with
      | none => .ok (.leave (some 0))
      | some 0 => .ok (.leave (some 0))
      | some _ => .ok (.again (.trailer offset))

def chunkTurn (data : Bytes) : At → Except Exn (Turn At (Option Nat))
  | .chunk offset => sizeTurn strictSize (fun o => .ok (.again (.trailer o))) .chunk data offset
  | .trailer offset => trailerTurn data offset

def getChunkedMessageSize (data : Bytes) : Outcome Exn (Option Nat) :=
  run (chunkTurn data) (2*data.length+2) (.chunk 0)

end HttpClient

namespace HttpParser

/-- `body.append(data.data() + offset, n)`. A count that reaches behind the end of
`data` can only be one that wrapped around in the check before; it is larger than
any string can be, and `append` refuses it. -/
def appendRange (body data : Bytes) (offset n : Nat) : Except Exn Bytes :=
  if offset+n ≤ data.length then .ok (body ++ (data.drop offset).take n) else .error .lengthError

def chunkedTurn (data : Bytes) : At × Bytes → Except Exn (Turn (At × Bytes) (Bool × Bytes))
  | (.chunk offset,body) =>
    if offset < data.length then
      match find crlf data offset with
      | none => .ok (.leave (false,body))
      | some lineEnd => do
        let line ← substr data offset (lineEnd-offset)
        match strictSize line with
        | none => .ok (.leave (false,body))
        | some chunkSize =>
          let offset := sizeAdd lineEnd 2
          if chunkSize = 0 then .ok (.again (.trailer offset,body))
          else if data.length < sizeAdd (sizeAdd offset chunkSize) 2 then
            .ok (.leave (false,body))
          else do
            let body ← appendRange body data offset chunkSize
            let offset := sizeAdd offset chunkSize
            let mark ← substr data offset 2
            if mark ≠ crlf then .ok (.leave (false,body))
            else .ok (.again (.chunk (sizeAdd offset 2),body))
    else .ok (.leave (false,body))
  | (.trailer offset,body) =>
    match find crlf data offset with
    | none => .ok (.leave (false,body))
    | some trailerEnd => do
      let trailerLine ← substr data offset (trailerEnd-offset)
      let offset := sizeAdd trailerEnd 2
      if trailerLine = [] then .ok (.leave (decide (offset = data.length),body))
      else
        match find [58] trailerLine 0 with
        | none => .ok (.leave (false,body))
        | some colon =>
          if !isValidHeaderName (trim (trailerLine.take colon)) then .ok (.leave (false,body))
          else .ok (.again (.trailer offset,body))

/-- `HttpParser::parseChunked`: whether the body is accepted, and what it decodes to. -/
def parseChunked (data : Bytes) : Outcome Exn (Bool × Bytes) :=
  run (chunkedTurn data) (data.length+1) (.chunk 0,[])

end HttpParser

/-- No object is larger than `PTRDIFF_MAX` bytes. -/
def Addressable (data : Bytes) : Prop := data.length < 2^63

instance (data : Bytes) : Decidable (Addressable data) :=
  inferInstanceAs (Decidable (data.length < 2^63))

theorem Addressable.of_length_le {data data' : Bytes} (h : Addressable data)
    (hle : data'.length ≤ data.length) : Addressable data' := Nat.lt_of_le_of_lt hle h

theorem Addressable.of_append {data rest : Bytes} (h : Addressable (data ++ rest)) :
    Addressable data := h.of_length_le (by simp)

theorem Addressable.drop {data : Bytes} (h : Addressable data) (n : Nat) :
    Addressable (data.drop n) := h.of_length_le (by simp)

namespace Chunked

variable {line : Bytes} {c offset start size pos lineEnd : Nat}

theorem strictSize_lt (h : strictSize line = some c) : c < 2^64 := by
  have hb := HttpParser.parseHexSize_le h
  unfold sizeMax at hb
  omega

theorem looseSize_lt (h : looseSize line = some c) : c < 2^64 := by
  unfold looseSize at h
  cases hs : stoull 16 line with
  | error e => simp [hs,Except.toOption] at h
  | ok n =>
    simp only [hs,Except.toOption,Option.some.injEq] at h
    have hb := stoull_le hs
    unfold sizeMax at hb
    omega

/-- The size line at `offset` reads as `size`; its chunk begins at `start`. -/
def SizeLine (read : Bytes → Option Nat) (data : Bytes) (offset start size : Nat) : Prop :=
  ∃ lineEnd, find crlf data offset = some lineEnd ∧
    read ((data.drop offset).take (lineEnd-offset)) = some size ∧ start = lineEnd+2

theorem SizeLine.bounds {read : Bytes → Option Nat} {data : Bytes}
    (h : SizeLine read data offset start size) : offset+2 ≤ start ∧ start ≤ data.length := by
  obtain ⟨lineEnd,hf,-,rfl⟩ := h
  have hb := find_bounds (by decide) hf
  simp only [crlf,List.length_cons,List.length_nil] at hb
  omega

theorem SizeLine.unique {read : Bytes → Option Nat} {data : Bytes}
    {start' size' : Nat} (h : SizeLine read data offset start size)
    (h' : SizeLine read data offset start' size') : start = start' ∧ size = size' := by
  obtain ⟨e,hf,hr,rfl⟩ := h
  obtain ⟨e',hf',hr',rfl⟩ := h'
  rw [hf] at hf'
  cases hf'
  rw [hr] at hr'
  cases hr'
  exact ⟨rfl,rfl⟩

theorem substr_two {data : Bytes} (h : pos ≤ data.length) :
    substr data pos 2 = .ok ((data.drop pos).take 2) := substr_ok h 2

theorem mark_eq_iff {data : Bytes} : (data.drop pos).take 2 = crlf ↔ OccursAt crlf data pos :=
  @occursAt_iff_take _ crlf data pos

theorem slice_eq_nil_iff {data : Bytes} (h : offset ≤ lineEnd ∧ lineEnd+2 ≤ data.length) :
    (data.drop offset).take (lineEnd-offset) = [] ↔ lineEnd = offset := by
  rw [← List.length_eq_zero_iff,List.length_take,List.length_drop]
  omega

section SizeTurn

variable {σ : Type} {read : Bytes → Option Nat} {last : Nat → Except Exn (Turn σ (Option Nat))}
  {next : Nat → σ} {data : Bytes}

/-- Where a turn leads when the size line can be read. The one sum that cannot be
used as a position is the one that passes 2^64 by the two bytes of the line end. -/
theorem sizeTurn_of_sizeLine (hd : Addressable data) {offset start size : Nat}
    (h : SizeLine read data offset start size) (hs : size < 2^64) :
    sizeTurn read last next data offset =
      if size = 0 then last start
      else if 2^64 ≤ start+size+2 ∧ start+size < 2^64 then .error .outOfRange
      else if data.length < (start+size)%2^64+2 then .ok (.leave none)
      else if OccursAt crlf data ((start+size)%2^64) then
        .ok (.again (next ((start+size)%2^64+2)))
      else .ok (.leave (some 0)) := by
  have hb := h.bounds
  obtain ⟨lineEnd,hf,hr,rfl⟩ := h
  unfold Addressable at hd
  have hadd : sizeAdd lineEnd 2 = lineEnd+2 := sizeAdd_eq (by omega)
  simp only [sizeTurn,hf,substr_ok (show offset ≤ data.length by omega),hr,hadd,bind,Except.bind]
  by_cases hz : size = 0
  · simp [hz]
  simp only [hz,if_false]
  by_cases hedge : 2^64 ≤ lineEnd+2+size+2 ∧ lineEnd+2+size < 2^64
  · have hp : sizeAdd (lineEnd+2) size = lineEnd+2+size := sizeAdd_eq hedge.2
    have hw : sizeAdd (lineEnd+2+size) 2 = lineEnd+2+size+2-2^64 := by
      unfold sizeAdd
      omega
    have hsub : substr data (lineEnd+2+size) 2 = .error .outOfRange := by
      simp only [substr]
      rw [if_neg (by omega)]
    simp only [hp,hw,hsub,if_pos hedge]
    rw [if_neg (by omega)]
  · have hp : sizeAdd (lineEnd+2) size = (lineEnd+2+size)%2^64 := rfl
    have hw : sizeAdd ((lineEnd+2+size)%2^64) 2 = (lineEnd+2+size)%2^64+2 := by
      unfold sizeAdd
      omega
    have hn : sizeAdd (lineEnd+2) (sizeAdd size 2) = (lineEnd+2+size)%2^64+2 := by
      unfold sizeAdd
      omega
    simp only [hp,hw,hn,if_neg hedge]
    by_cases hshort : data.length < (lineEnd+2+size)%2^64+2
    · simp only [hshort,if_true]
    · rw [substr_two (by omega)]
      simp only [hshort,if_false,ne_eq,mark_eq_iff,ite_not]

theorem sizeTurn_of_find_none (h : find crlf data offset = none) :
    sizeTurn read last next data offset = .ok (.leave none) := by
  simp [sizeTurn,h]

theorem sizeTurn_of_unreadable (h : find crlf data offset = some lineEnd)
    (hr : read ((data.drop offset).take (lineEnd-offset)) = none) :
    sizeTurn read last next data offset = .ok (.leave (some 0)) := by
  have hb := find_bounds (by decide) h
  simp [sizeTurn,h,substr_ok (show offset ≤ data.length by omega),hr,bind,Except.bind]

theorem sizeTurn_cases (offset : Nat) :
    sizeTurn read last next data offset = .ok (.leave none) ∨
      sizeTurn read last next data offset = .ok (.leave (some 0)) ∨
      ∃ start size, SizeLine read data offset start size := by
  cases hf : find crlf data offset with
  | none => exact .inl (sizeTurn_of_find_none hf)
  | some lineEnd =>
    cases hr : read ((data.drop offset).take (lineEnd-offset)) with
    | none => exact .inr (.inl (sizeTurn_of_unreadable hf hr))
    | some size => exact .inr (.inr ⟨lineEnd+2,size,lineEnd,hf,hr,rfl⟩)

/-- The end of the chunk, taken modulo 2^64, falls short of the end of the chunk:
either by the line end alone, or onto a line end somewhere else in the input. -/
def Overflows (data : Bytes) (start size : Nat) : Prop :=
  2^64 ≤ start+size+2 ∧ (start+size < 2^64 ∨ OccursAt crlf data (start+size-2^64))

theorem crlf_bound (h : OccursAt crlf data pos) : pos+2 ≤ data.length :=
  h.bound (by decide)

section

variable (hd : Addressable data)
include hd

theorem not_overflows {start size : Nat}
    (hm : OccursAt crlf data (start+size)) : ¬ Overflows data start size := by
  have := crlf_bound hm
  unfold Addressable at hd
  rintro ⟨hge,-⟩
  omega

theorem sizeTurn_of_fits {offset start size : Nat}
    (h : SizeLine read data offset start size) (hs : size < 2^64) (hz : size ≠ 0)
    (hfit : ¬ Overflows data start size) :
    sizeTurn read last next data offset =
      if OccursAt crlf data (start+size) then .ok (.again (next (start+size+2)))
      else if data.length < (start+size)%2^64+2 then .ok (.leave none)
      else .ok (.leave (some 0)) := by
  have hb := h.bounds
  rw [sizeTurn_of_sizeLine hd h hs,if_neg hz]
  unfold Addressable at hd
  unfold Overflows at hfit
  rw [if_neg (fun hedge => hfit ⟨hedge.1,.inl hedge.2⟩)]
  rcases Nat.lt_or_ge (start+size) (2^64) with hlt | hge
  · rw [Nat.mod_eq_of_lt hlt]
    by_cases hm : OccursAt crlf data (start+size)
    · have := crlf_bound hm
      simp only [hm,if_true]
      rw [if_neg (by omega)]
    · simp only [hm,if_false]
  · have hmod : (start+size)%2^64 = start+size-2^64 := by omega
    have hm : ¬ OccursAt crlf data (start+size-2^64) := fun hm => hfit ⟨by omega,.inr hm⟩
    have hm' : ¬ OccursAt crlf data (start+size) := fun hm' => by
      have := crlf_bound hm'
      omega
    simp only [hmod,hm,hm',if_false]

theorem sizeTurn_of_overflows {offset start size : Nat}
    (h : SizeLine read data offset start size) (hs : size < 2^64)
    (hover : Overflows data start size) :
    data.length < start+size+2 ∧ size ≠ 0 ∧
      (sizeTurn read last next data offset = .error .outOfRange ∨
        OccursAt crlf data (start+size-2^64) ∧
          sizeTurn read last next data offset = .ok (.again (next (start+size-2^64+2)))) := by
  have hb := h.bounds
  rw [sizeTurn_of_sizeLine hd h hs]
  unfold Addressable at hd
  obtain ⟨hge,hover⟩ := hover
  have hz : size ≠ 0 := by omega
  refine ⟨by omega,hz,?_⟩
  rw [if_neg hz]
  rcases Nat.lt_or_ge (start+size) (2^64) with hlt | hge'
  · exact .inl (if_pos ⟨hge,hlt⟩)
  · have hm : OccursAt crlf data (start+size-2^64) := hover.resolve_left (by omega)
    have hmod : (start+size)%2^64 = start+size-2^64 := by omega
    have := crlf_bound hm
    refine .inr ⟨hm,?_⟩
    rw [if_neg (by omega),hmod,if_neg (by omega),if_pos hm]

theorem sizeTurn_outcomes (hread : ∀ line c, read line = some c → c < 2^64)
    (offset : Nat) :
    (∃ r ∈ [none,some 0], sizeTurn read last next data offset = .ok (.leave r)) ∨
      ∃ start size, SizeLine read data offset start size ∧
        ((size = 0 ∧ sizeTurn read last next data offset = last start) ∨
          (size ≠ 0 ∧ OccursAt crlf data (start+size) ∧
            sizeTurn read last next data offset = .ok (.again (next (start+size+2)))) ∨
          (Overflows data start size ∧
            (sizeTurn read last next data offset = .error .outOfRange ∨
              OccursAt crlf data (start+size-2^64) ∧ sizeTurn read last next data offset =
                .ok (.again (next (start+size-2^64+2)))))) := by
  rcases sizeTurn_cases offset with hl | hl | ⟨start,size,hline⟩
  · exact .inl ⟨none,by simp,hl⟩
  · exact .inl ⟨some 0,by simp,hl⟩
  have hs : size < 2^64 := hread _ _ hline.choose_spec.2.1
  by_cases hz : size = 0
  · exact .inr ⟨start,size,hline,.inl
      ⟨hz,by rw [sizeTurn_of_sizeLine hd hline hs,if_pos hz]⟩⟩
  by_cases hover : Overflows data start size
  · obtain ⟨-,-,h⟩ := sizeTurn_of_overflows hd hline hs hover
    exact .inr ⟨start,size,hline,.inr (.inr ⟨hover,h⟩)⟩
  have hfit := @sizeTurn_of_fits _ _ last next _ hd _ _ _ hline hs hz hover
  split at hfit
  · rename_i hm
    exact .inr ⟨start,size,hline,.inr (.inl ⟨hz,hm,hfit⟩)⟩
  · split at hfit
    · exact .inl ⟨none,by simp,hfit⟩
    · exact .inl ⟨some 0,by simp,hfit⟩

end

end SizeTurn

end Chunked

namespace HttpServer

variable {data : Bytes}

theorem lastChunk_leaves (hd : Addressable data) {offset : Nat} (ho : offset ≤ data.length) :
    lastChunk data offset =
      .ok (.leave (if OccursAt crlf data offset then some (offset+2)
        else if data.length < offset+2 then none else some 0)) := by
  unfold Addressable at hd
  have hadd : sizeAdd offset 2 = offset+2 := sizeAdd_eq (by omega)
  unfold lastChunk
  simp only [hadd,substr_two ho,bind,Except.bind,ne_eq,mark_eq_iff,ite_not]
  by_cases hm : OccursAt crlf data offset
  · have := crlf_bound hm
    simp only [hm,if_true]
    rw [if_neg (by omega)]
  · simp only [hm,if_false]
    split
    · rfl
    · rfl

end HttpServer

namespace HttpClient

variable {data : Bytes}

def isTrailerLine (line : Bytes) : Bool := (find [58] line 0).any (0 < ·)

theorem trailerTurn_eq (hd : Addressable data) {offset lineEnd : Nat}
    (h : find crlf data offset = some lineEnd) :
    trailerTurn data offset =
      if lineEnd = offset then .ok (.leave (some (lineEnd+2)))
      else if isTrailerLine ((data.drop offset).take (lineEnd-offset)) then
        .ok (.again (.trailer (lineEnd+2)))
      else .ok (.leave (some 0)) := by
  have hb := find_bounds (by decide) h
  simp only [crlf,List.length_cons,List.length_nil] at hb
  unfold Addressable at hd
  have hadd : sizeAdd lineEnd 2 = lineEnd+2 := sizeAdd_eq (by omega)
  unfold trailerTurn isTrailerLine
  simp only [h,substr_ok (show offset ≤ data.length by omega),bind,Except.bind,hadd,slice_eq_nil_iff hb]
  split
  · rfl
  · cases hc : find [58] ((data.drop offset).take (lineEnd-offset)) 0 with
    | none => simp
    | some colon =>
      cases colon with
      | zero => simp
      | succ colon => simp

end HttpClient

namespace HttpParser

variable {data : Bytes}

theorem chunkedTurn_of_sizeLine (hd : Addressable data) {offset start size : Nat}
    (h : SizeLine strictSize data offset start size) (body : Bytes) :
    chunkedTurn data (.chunk offset,body) =
      if size = 0 then .ok (.again (.trailer start,body))
      else if data.length < (start+size+2)%2^64 then .ok (.leave (false,body))
      else if data.length < start+size+2 then .error .lengthError
      else if OccursAt crlf data (start+size) then
        .ok (.again (.chunk (start+size+2),body ++ (data.drop start).take size))
      else .ok (.leave (false,body ++ (data.drop start).take size)) := by
  have hb := h.bounds
  have hs : size < 2^64 := strictSize_lt h.choose_spec.2.1
  obtain ⟨lineEnd,hf,hr,rfl⟩ := h
  unfold Addressable at hd
  have hadd : sizeAdd lineEnd 2 = lineEnd+2 := sizeAdd_eq (by omega)
  have hsum : sizeAdd (sizeAdd (lineEnd+2) size) 2 = (lineEnd+2+size+2)%2^64 := by
    unfold sizeAdd
    omega
  simp only [chunkedTurn,if_pos (show offset < data.length by omega),hf,
    substr_ok (show offset ≤ data.length by omega),hr,hadd,hsum,bind,Except.bind]
  by_cases hz : size = 0
  · simp only [hz,if_true]
  by_cases hshort : data.length < (lineEnd+2+size+2)%2^64
  · simp only [hz,hshort,if_true,if_false]
  by_cases hlong : data.length < lineEnd+2+size+2
  · have happ : appendRange body data (lineEnd+2) size = .error .lengthError := by
      simp only [appendRange]
      rw [if_neg (by omega)]
    simp only [hz,hshort,hlong,if_true,if_false,happ]
  · have happ : appendRange body data (lineEnd+2) size =
        .ok (body ++ (data.drop (lineEnd+2)).take size) := by
      simp only [appendRange]
      rw [if_pos (by omega)]
    have hpos : sizeAdd (lineEnd+2) size = lineEnd+2+size := sizeAdd_eq (by omega)
    have hnext : (lineEnd+2+size+2)%2^64 = lineEnd+2+size+2 := Nat.mod_eq_of_lt (by omega)
    simp only [hz,hlong,if_false,happ,hpos,hnext,
      substr_two (show lineEnd+2+size ≤ data.length by omega),ne_eq,mark_eq_iff,ite_not]

theorem chunkedTurn_of_no_line {offset : Nat}
    (h : ∀ start size, ¬ SizeLine strictSize data offset start size) (body : Bytes) :
    chunkedTurn data (.chunk offset,body) = .ok (.leave (false,body)) := by
  simp only [chunkedTurn]
  split
  · rename_i hlt
    cases hf : find crlf data offset with
    | none => simp
    | some lineEnd =>
      have hr : strictSize ((data.drop offset).take (lineEnd-offset)) = none := by
        cases hr : strictSize ((data.drop offset).take (lineEnd-offset)) with
        | none => rfl
        | some size => exact absurd ⟨lineEnd,hf,hr,rfl⟩ (h (lineEnd+2) size)
      simp [substr_ok (Nat.le_of_lt hlt),hr,bind,Except.bind]
  · rfl

def isTrailerLine (line : Bytes) : Bool :=
  (find [58] line 0).any (fun colon => isValidHeaderName (trim (line.take colon)))

theorem trailerTurn_eq (hd : Addressable data) {offset lineEnd : Nat}
    (h : find crlf data offset = some lineEnd) (body : Bytes) :
    chunkedTurn data (.trailer offset,body) =
      if lineEnd = offset then .ok (.leave (decide (lineEnd+2 = data.length),body))
      else if isTrailerLine ((data.drop offset).take (lineEnd-offset)) then
        .ok (.again (.trailer (lineEnd+2),body))
      else .ok (.leave (false,body)) := by
  have hb := find_bounds (by decide) h
  simp only [crlf,List.length_cons,List.length_nil] at hb
  unfold Addressable at hd
  have hadd : sizeAdd lineEnd 2 = lineEnd+2 := sizeAdd_eq (by omega)
  unfold chunkedTurn isTrailerLine
  simp only [h,substr_ok (show offset ≤ data.length by omega),bind,Except.bind,hadd,slice_eq_nil_iff hb]
  split
  · rfl
  · cases hc : find [58] ((data.drop offset).take (lineEnd-offset)) 0 with
    | none => simp
    | some colon =>
      simp only [Option.any_some]
      by_cases hv : isValidHeaderName
          (trim (((data.drop offset).take (lineEnd-offset)).take colon)) = true
      · simp [hv]
      · simp [hv]

theorem client_isTrailerLine {line : Bytes} (h : isTrailerLine line = true) :
    HttpClient.isTrailerLine line = true := by
  unfold isTrailerLine at h
  unfold HttpClient.isTrailerLine
  cases hf : find [58] line 0 with
  | none => simp [hf] at h
  | some colon =>
    cases colon with
    | zero =>
      have hname : isValidHeaderName (trim []) = false := by decide
      simp [hf,hname] at h
    | succ colon => simp

end HttpParser

end FastNet
