import Mathlib

/-!
Buffers that are read from an offset: what has been read is left in front of the offset
for a while, and taken away when it is worth it.
-/

namespace FastNet.OffsetBuffer

variable {α : Type}

/-- What has been read is kept as long as it is less than `limit`, and less than one
part in `factor` of the buffer. -/
def compact (limit factor : Nat) (buffer : List α) (offset : Nat) : List α × Nat :=
  if offset = 0 then (buffer,offset)
  else if buffer.length ≤ offset then ([],0)
  else if offset < limit ∧ offset*factor < buffer.length then (buffer,offset)
  else (buffer.drop offset,0)

def append (buffer : List α) (offset : Nat) (data : List α) [DecidableEq α] : List α :=
  if offset = 0 ∧ buffer = [] then data else buffer ++ data

variable {limit factor offset : Nat} {buffer data : List α}

theorem drop_compact :
    (compact limit factor buffer offset).1.drop (compact limit factor buffer offset).2 =
      buffer.drop offset := by
  unfold compact
  split
  · rfl
  · split
    · rename_i h
      simp [List.drop_eq_nil_of_le h]
    · split
      · rfl
      · simp

theorem compact_le :
    (compact limit factor buffer offset).2 ≤ (compact limit factor buffer offset).1.length := by
  unfold compact
  split
  · rename_i h
    simp [h]
  · split
    · exact Nat.zero_le _
    · rename_i h
      split
      · exact Nat.le_of_lt (Nat.lt_of_not_le h)
      · exact Nat.zero_le _

variable [DecidableEq α]

theorem append_eq : append buffer offset data = buffer ++ data := by
  unfold append
  split
  · rename_i h
    simp [h.2]
  · rfl

theorem drop_append (h : offset ≤ buffer.length) :
    (append buffer offset data).drop offset = buffer.drop offset ++ data := by
  rw [append_eq,List.drop_append_of_le_length h]

theorem drop_append_length_le :
    ((append buffer offset data).drop offset).length ≤ (buffer.drop offset).length+data.length := by
  rw [append_eq]
  simp only [List.length_drop,List.length_append]
  omega

end FastNet.OffsetBuffer
