/-
Computations that may fail, taken apart.

`unproved` forgets the proof that a parsing function returns along with the tokens it left over.
-/

import Mathlib.Data.List.Forall2
import Rulebook.Tokens

namespace Rulebook

variable {ε α β τ : Type}

theorem bind_eq_ok_iff {f : α → Except ε β} : x >>= f = .ok b ↔ ∃ a, x = .ok a ∧ f a = .ok b := by
  cases x with
  | error e => simp [bind, Except.bind]
  | ok a => simp [bind, Except.bind]

theorem bind_eq_error_iff {f : α → Except ε β} :
    x >>= f = .error e ↔ x = .error e ∨ ∃ a, x = .ok a ∧ f a = .error e := by
  cases x with
  | error e' => simp [bind, Except.bind]
  | ok a => simp [bind, Except.bind]

theorem map_eq_ok_iff {x : Except ε α} {b : β} : x.map f = .ok b ↔ ∃ a, x = .ok a ∧ f a = b := by
  cases x <;> simp [Except.map]

theorem map_eq_error_iff {x : Except ε α} {f : α → β} : x.map f = .error e ↔ x = .error e := by
  cases x <;> simp [Except.map]

@[simp] theorem ok_bind (a) (f : α → Except ε β) : (Except.ok a >>= f) = f a := rfl

@[simp] theorem error_bind (e) (f : α → Except ε β) :
    ((Except.error e : Except ε α) >>= f) = .error e := rfl

/-! ### Loops that collect results -/

section

variable {γ : Type} {f : α → Except ε β} {l : List α} {out : List β}

theorem exists_of_mapM_cons (h : (a :: l).mapM f = .ok out) :
    ∃ b bs, f a = .ok b ∧ l.mapM f = .ok bs ∧ out = b :: bs := by
  rw [List.mapM_cons, bind_eq_ok_iff] at h
  obtain ⟨b, hb, h⟩ := h
  obtain ⟨bs, hbs, h⟩ := bind_eq_ok_iff.mp h
  cases h
  exact ⟨b, bs, hb, hbs, rfl⟩

theorem exists_mapM {P : α → β → Prop} (h : ∀ a ∈ l, ∃ b, f a = .ok b ∧ P a b) :
    ∃ out, l.mapM f = .ok out ∧ List.Forall₂ P l out := by
  induction l with
  | nil => exact ⟨[], rfl, .nil⟩
  | cons a l ih =>
    obtain ⟨b, hb, hP⟩ := h a (.head _)
    obtain ⟨out, hout, hall⟩ := ih fun a ha => h a (.tail _ ha)
    refine ⟨b :: out, ?_, .cons hP hall⟩
    rw [List.mapM_cons, hb, ok_bind, hout]
    rfl

theorem exists_mapM_error (ha : a ∈ l) (h : ∃ e, f a = .error e) : ∃ e, l.mapM f = .error e := by
  obtain ⟨e, he⟩ := h
  induction ha with
  | head l => exact ⟨e, by rw [List.mapM_cons, he, error_bind]⟩
  | tail b _ ih =>
    obtain ⟨e', he'⟩ := ih
    rw [List.mapM_cons, he']
    cases f b with
    | error e => exact ⟨e, rfl⟩
    | ok b => exact ⟨e', rfl⟩

theorem mem_iff_of_mapM (h : l.mapM f = .ok out) (b) : b ∈ out ↔ ∃ a ∈ l, f a = .ok b := by
  induction l generalizing out with
  | nil =>
    cases h
    simp
  | cons a l ih =>
    obtain ⟨b', bs, hb', hbs, rfl⟩ := exists_of_mapM_cons h
    simp [ih hbs, hb', eq_comm]

theorem map_eq_of_mapM {k : α → γ} (hf : ∀ a b, f a = .ok b → g b = k a)
    (h : l.mapM f = .ok out) : out.map g = l.map k := by
  induction l generalizing out with
  | nil =>
    cases h
    rfl
  | cons a l ih =>
    obtain ⟨b, bs, hb, hbs, rfl⟩ := exists_of_mapM_cons h
    rw [List.map_cons, List.map_cons, hf a b hb, ih hbs]

end

/-! ### Results of parsing functions -/

/-- What a parsing function found and left over, without the proof about the latter. -/
def unproved {P : List τ → Prop} (r : Except ε (α × { rest : List τ // P rest })) :
    Except ε (α × List τ) :=
  r.map fun x => (x.1, x.2.val)

@[simp] theorem unproved_error {P : List τ → Prop} (e) :
    unproved (.error e : Except ε (α × { rest : List τ // P rest })) = .error e := rfl

@[simp] theorem unproved_ok {P : List τ → Prop} (x) :
    unproved (.ok x : Except ε (α × { rest : List τ // P rest })) = .ok (x.1, x.2.val) := rfl

theorem of_unproved_eq_ok {P : List τ → Prop} {r : Except ε (α × { rest : List τ // P rest })}
    (h : unproved r = .ok (a, rest)) : ∃ p : P rest, r = .ok (a, ⟨rest, p⟩) := by
  obtain ⟨⟨a', rest', p⟩, rfl, h⟩ := map_eq_ok_iff.mp h
  cases h
  exact ⟨p, rfl⟩

end Rulebook
