import Mathlib

/-!
Readers of a stream. A reader looks at the part of the stream it holds and either waits
for more or makes a move: it puts something out, drops letters from the front and goes on
in another state. When moves do not depend on what has not arrived yet, what a reader
puts out does not depend on how the stream is cut into pieces.
-/

namespace FastNet.Reader

structure Move (σ μ : Type) where
  state : σ
  out : List μ
  size : Nat

variable {σ α μ : Type} {next : σ → List α → Option (Move σ μ)} {ok : σ → List α → Prop}
  {s s₁ s₂ : σ} {d d₁ d₂ : List α} {out₁ out₂ : List μ}

/-- The reader comes from one state and stream to another, and puts `out` out meanwhile. -/
inductive Comes (next : σ → List α → Option (Move σ μ)) (s : σ) (d : List α) :
    List μ → σ → List α → Prop where
  | here : Comes next s d [] s d
  | move {out : List μ} {s' : σ} {d' : List α} {m : Move σ μ} : Comes next s d out s' d' →
      next s' d' = some m → Comes next s d (out ++ m.out) m.state (d'.drop m.size)

/-- Wherever the reader comes to, `ok` holds. -/
def Along (next : σ → List α → Option (Move σ μ)) (ok : σ → List α → Prop) (s : σ) (d : List α) :
    Prop :=
  ∀ out s' d', Comes next s d out s' d' → ok s' d'

/-- Where `ok` holds, moves stay within the stream and stay the same when more arrives. -/
structure Stable (next : σ → List α → Option (Move σ μ)) (ok : σ → List α → Prop) : Prop where
  le : ∀ {s d m}, ok s d → next s d = some m → m.size ≤ d.length
  append : ∀ {s d m} t, ok s (d ++ t) → next s d = some m → next s (d ++ t) = some m
  shorter : ∀ {s d t}, ok s (d ++ t) → ok s d

theorem Comes.head {s' : σ} {d' : List α} {out : List μ} (h : Comes next s d out s' d') :
    (out = [] ∧ s' = s ∧ d' = d) ∨
      ∃ m out', next s d = some m ∧ out = m.out ++ out' ∧
        Comes next m.state (d.drop m.size) out' s' d' := by
  induction h with
  | here => exact .inl ⟨rfl,rfl,rfl⟩
  | @move out s' d' m' _ hn ih =>
    right
    rcases ih with ⟨rfl,rfl,rfl⟩ | ⟨m,out',hm,rfl,h⟩
    · exact ⟨m',[],hn,by simp,.here⟩
    · exact ⟨m,out' ++ m'.out,hm,by simp,.move h hn⟩

theorem Comes.rest
    (h₁ : Comes next s d out₁ s₁ d₁) (h₂ : Comes next s d out₂ s₂ d₂) (hwait : next s₂ d₂ = none) :
    ∃ out, Comes next s₁ d₁ out s₂ d₂ ∧ out₂ = out₁ ++ out := by
  induction h₁ with
  | here => exact ⟨out₂,h₂,rfl⟩
  | @move out₁ s' d' m _ hn ih =>
    obtain ⟨out,h,rfl⟩ := ih
    rcases h.head with ⟨-,rfl,rfl⟩ | ⟨m',out',hm,rfl,h'⟩
    · rw [hn] at hwait
      cases hwait
    · rw [hn] at hm
      cases hm
      exact ⟨out',h',by simp⟩

theorem Comes.unique (h₁ : Comes next s d out₁ s₁ d₁) (hwait₁ : next s₁ d₁ = none)
    (h₂ : Comes next s d out₂ s₂ d₂) (hwait₂ : next s₂ d₂ = none) :
    out₁ = out₂ ∧ s₁ = s₂ ∧ d₁ = d₂ := by
  obtain ⟨out,h,rfl⟩ := h₁.rest h₂ hwait₂
  rcases h.head with ⟨rfl,rfl,rfl⟩ | ⟨m,out',hm,-,-⟩
  · simp
  · rw [hwait₁] at hm
    cases hm

theorem Along.here (h : Along next ok s d) : ok s d := h [] s d .here

theorem Along.cons (hok : ok s d)
    (h : ∀ m, next s d = some m → Along next ok m.state (d.drop m.size)) : Along next ok s d := by
  intro out s' d' hc
  rcases hc.head with ⟨-,rfl,rfl⟩ | ⟨m,out',hm,-,hc'⟩
  · exact hok
  · exact h m hm out' s' d' hc'

theorem Comes.append (hst : Stable next ok) {s s' : σ} {d d' t : List α} {out : List μ}
    (hok : Along next ok s (d ++ t)) (h : Comes next s d out s' d') :
    Comes next s (d ++ t) out s' (d' ++ t) := by
  induction h with
  | here => exact .here
  | @move out s' d' m _ hn ih =>
    have hok' := hok _ _ _ ih
    have hmove := Comes.move ih (hst.append t hok' hn)
    rwa [List.drop_append_of_le_length (hst.le (hst.shorter hok') hn)] at hmove

theorem Along.of_append (hst : Stable next ok) {s : σ} {d t : List α}
    (hok : Along next ok s (d ++ t)) : Along next ok s d :=
  fun _ _ _ h => hst.shorter (hok _ _ _ (h.append hst hok))

end FastNet.Reader
