/-
Commands on workspaces, taken apart.

`Ends w action Q E` says how a command ends: with a value and a workspace of which `Q` holds, or with
a fault and a workspace of which `E` holds. A command made of others ends as its parts do.
-/

import Mathlib
import Rulebook.Workspace.Files

namespace Rulebook.Workspace

variable {α β γ : Type} {w : Workspace}

/-! ### Performing -/

@[simp] theorem perform_pure (a : α) : w.perform (pure a) = (.ok a, w) := rfl

@[simp] theorem perform_throw (f) : w.perform (throw f : Run α) = (.error f, w) := rfl

theorem perform_bind (x : Run α) (next : α → Run β) : w.perform (x >>= next) =
    match w.perform x with
    | (.ok a, w') => w'.perform (next a)
    | (.error f, w') => (.error f, w') := by
  unfold perform ExceptT.run StateT.run
  simp only [bind, ExceptT.bind, ExceptT.mk, StateT.bind]
  rcases x w with ⟨_ | a, w'⟩ <;> rfl

theorem perform_tryCatch (x : Run α) (handler : Fault → Run α) : w.perform (tryCatch x handler) =
    match w.perform x with
    | (.ok a, w') => (.ok a, w')
    | (.error f, w') => w'.perform (handler f) := by
  unfold perform ExceptT.run StateT.run
  simp only [tryCatch, tryCatchThe, MonadExceptOf.tryCatch, ExceptT.tryCatch, ExceptT.mk, bind,
    StateT.bind]
  rcases x w with ⟨_ | a, w'⟩ <;> rfl

/-! ### How commands end -/

/-- A command that starts in a workspace ends with a value and a workspace of which `Q` holds, or
with a fault and a workspace of which `E` holds. -/
def Ends (w : Workspace) (action : Run α) (Q : α → Workspace → Prop)
    (E : Fault → Workspace → Prop) : Prop :=
  match w.perform action with
  | (.ok a, w') => Q a w'
  | (.error f, w') => E f w'

variable {Q Q' : α → Workspace → Prop} {R : β → Workspace → Prop} {E E' : Fault → Workspace → Prop}

@[simp] theorem ends_pure (a) : Ends w (pure a) Q E ↔ Q a w := Iff.rfl

@[simp] theorem ends_throw (f) : Ends w (throw f) Q E ↔ E f w := Iff.rfl

@[simp] theorem ends_get {Q} : Ends w get Q E ↔ Q w w := Iff.rfl

@[simp] theorem ends_set {Q : Unit → Workspace → Prop} (w') :
    Ends w (set w') Q E ↔ Q () w' := Iff.rfl

@[simp] theorem ends_modify {Q : Unit → Workspace → Prop} (f) :
    Ends w (modify f) Q E ↔ Q () (f w) := Iff.rfl

theorem ends_lift (x : Except Fault α) : Ends w (liftM x) Q E ↔
    (∀ a, x = .ok a → Q a w) ∧ ∀ f, x = .error f → E f w := by
  cases x with
  | ok a =>
    change Q a w ↔ _
    simp
  | error f =>
    change E f w ↔ _
    simp

theorem ends_bind (x) (next : α → Run β) :
    Ends w (x >>= next) R E ↔ Ends w x (fun a w' => Ends w' (next a) R E) E := by
  rw [Ends, perform_bind, Ends]
  rcases w.perform x with ⟨_ | a, w'⟩ <;> rfl

theorem ends_tryCatch (x handler) :
    Ends w (tryCatch x handler) Q E ↔ Ends w x Q fun f w' => Ends w' (handler f) Q E := by
  rw [Ends, perform_tryCatch, Ends]
  rcases w.perform x with ⟨_ | a, w'⟩ <;> rfl

theorem Ends.imp (h : Ends w action Q E) (hQ : ∀ a w', Q a w' → Q' a w')
    (hE : ∀ f w', E f w' → E' f w') : Ends w action Q' E' := by
  rw [Ends] at h ⊢
  split at h
  · exact hQ _ _ h
  · exact hE _ _ h

theorem Ends.imp_ok (h : Ends w action Q fun _ _ => False)
    (hQ : ∀ a w', Q a w' → Q' a w') : Ends w action Q' E := by
  refine h.imp hQ ?_
  intro _ _ hfalse
  exact False.elim hfalse

theorem ends_of_forall (hQ : ∀ a w', Q a w') (hE : ∀ f w', E f w') : Ends w action Q E := by
  rw [Ends]
  split
  · exact hQ _ _
  · exact hE _ _

theorem ends_bind_of_forall {next : α → Run β}
    (h : ∀ a w', Ends w' (next a) R fun _ _ => True) : Ends w (x >>= next) R fun _ _ => True := by
  rw [ends_bind]
  exact ends_of_forall h fun _ _ => trivial

theorem Ends.of_perform (h : Ends w action Q E)
    (hrun : w.perform action = (.ok a, w')) : Q a w' := by
  rw [Ends, hrun] at h
  exact h

theorem perform_of_ends {x : Except Fault α}
    (h : Ends w action (fun a v => .ok a = x ∧ v = w') fun f v => .error f = x ∧ v = w') :
    w.perform action = (x, w') := by
  rw [Ends] at h
  split at h
  case h_1 heq => rw [heq, h.1, h.2]
  case h_2 heq => rw [heq, h.1, h.2]

theorem ends_map (f) (x : Run α) : Ends w (f <$> x) R E ↔ Ends w x (fun a w' => R (f a) w') E := by
  rw [map_eq_pure_bind, ends_bind]
  rfl

theorem ends_guarded (action handler) :
    Ends w (guarded action handler) Q E ↔ Ends w action Q fun f w' =>
      if f.isOrdinary then Ends w' (handler f) Q E else E f w' := by
  rw [guarded, ends_tryCatch]
  have hhandler : ∀ f w', Ends w' (if f.isOrdinary then handler f else throw f) Q E ↔
      if f.isOrdinary then Ends w' (handler f) Q E else E f w' := by
    intro f w'
    split <;> rfl
  simp [hhandler]

theorem ends_attempted {R} (action : Run α) :
    Ends w (attempted action) R E ↔ Ends w action (fun a w' => R (.ok a) w') fun f w' =>
      if f.isOrdinary then R (.error f) w' else E f w' := by
  rw [attempted, ends_guarded, ends_map]
  rfl

theorem ends_forIn {items : List γ} {start round}
    (hstart : R start w) (hround : ∀ x ∈ items, ∀ b w, R b w →
      Ends w (round x b) (fun s w' => ∃ b', s = .yield b' ∧ R b' w') E) :
    Ends w (forIn items start round) R E := by
  induction items generalizing start w with
  | nil => exact hstart
  | cons x items ih =>
    rw [List.forIn_cons, ends_bind]
    refine (hround x List.mem_cons_self start w hstart).imp ?_ fun _ _ h => h
    rintro _ w' ⟨b, rfl, hb⟩
    exact ih hb fun y hy => hround y (List.mem_cons_of_mem x hy)

end Rulebook.Workspace
