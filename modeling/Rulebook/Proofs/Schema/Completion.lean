/-
Completing records key by key.

A completion fills keys in turn, and the value of each follows by a rule from the record so far.
-/

import Rulebook.Proofs.Outcome
import Rulebook.Proofs.Record

open List

namespace Rulebook

/-- A step of completing a record: the key to fill and the rule for its value, which depends on
the values under some keys alone. -/
structure Fill where
  key : String
  reads : List String
  rule : Record → Except Fault Value
  rule_congr : ∀ {r r' : Record}, (∀ k ∈ reads, r.get k = r'.get k) → rule r = rule r'

namespace Fill

def apply (r : Record) (f : Fill) : Except Fault Record := (f.rule r).map (r.put f.key)

def run (fills : List Fill) (r : Record) : Except Fault Record := fills.foldlM apply r

def layout (fills : List Fill) : List (String × List String) := fills.map fun f => (f.key, f.reads)

def Ordered (steps : List (String × List String)) : Prop :=
  (∀ s ∈ steps, s.1 ∉ s.2) ∧ steps.Pairwise fun s t => t.1 ≠ s.1 ∧ t.1 ∉ s.2

instance (steps : List (String × List String)) : Decidable (Ordered steps) :=
  inferInstanceAs (Decidable (_ ∧ _))

variable {f : Fill} {fills : List Fill} {r r' : Record} {key : String}

theorem apply_eq_ok_iff : apply r f = .ok r' ↔ ∃ v, f.rule r = .ok v ∧ r.put f.key v = r' := by
  rw [apply, map_eq_ok_iff]

theorem run_cons (f fills r) : run (f :: fills) r = apply r f >>= run fills := by
  rfl

/-- **Frame.** A key that is not filled keeps its value. -/
theorem run_frame (h : run fills r = .ok r') (hkey : ∀ f ∈ fills, key ≠ f.key) :
    r'.get key = r.get key := by
  induction fills generalizing r with
  | nil =>
    obtain rfl : r = r' := by simpa [run, pure, Except.pure] using h
    rfl
  | cons f fills ih =>
    obtain ⟨r1, hstep, hrest⟩ := bind_eq_ok_iff.mp h
    obtain ⟨v, -, rfl⟩ := apply_eq_ok_iff.mp hstep
    rw [ih hrest fun g hg => hkey g (by simp [hg]), Record.get_put_of_ne (hkey f (by simp))]

/-- **The final record satisfies every rule.** -/
theorem run_satisfies (h : run fills r = .ok r') (ho : Ordered (layout fills)) :
    ∀ f ∈ fills, f.rule r' = .ok (r'.get f.key) := by
  induction fills generalizing r with
  | nil => simp
  | cons f fills ih =>
    obtain ⟨hself, hpair⟩ := ho
    obtain ⟨hlater, hpair⟩ := pairwise_cons.mp hpair
    obtain ⟨r1, hstep, hrest⟩ := bind_eq_ok_iff.mp h
    obtain ⟨v, hrule, rfl⟩ := apply_eq_ok_iff.mp hstep
    have hlayout : ∀ g ∈ fills, g.key ≠ f.key ∧ g.key ∉ f.reads := fun g hg =>
      hlater (g.key, g.reads) (mem_map_of_mem hg)
    have htail : ∀ s ∈ layout fills, s.1 ∉ s.2 := fun s hs => hself s (.tail _ hs)
    intro g hg
    rcases mem_cons.mp hg with rfl | hg
    · -- What the rule read and what it gave are not changed by the later steps.
      have hreads : ∀ k ∈ g.reads, r'.get k = r.get k := by
        intro k hk
        have hne : k ≠ g.key := fun heq => hself (g.key, g.reads) (by simp [layout]) (heq ▸ hk)
        rw [run_frame hrest fun f' hf' heq => (hlayout f' hf').2 (heq ▸ hk),
          Record.get_put_of_ne hne]
      have hvalue : r'.get g.key = v := by
        rw [run_frame hrest fun f' hf' => (hlayout f' hf').1.symm, Record.get_put_self]
      rw [g.rule_congr hreads, hrule, hvalue]
    · exact ih hrest ⟨htail, hpair⟩ g hg

/-- **Completions return** when some property of records ensures that each rule has a value and is
kept by filling it in. -/
theorem run_total {P : Record → Prop}
    (hstep : ∀ f ∈ fills, ∀ r, P r → ∃ v, f.rule r = .ok v ∧ P (r.put f.key v)) (hr : P r) :
    ∃ r', run fills r = .ok r' ∧ P r' := by
  induction fills generalizing r with
  | nil => exact ⟨r, rfl, hr⟩
  | cons f fills ih =>
    obtain ⟨v, hv, hput⟩ := hstep f (by simp) r hr
    obtain ⟨r', hrun, hr'⟩ := ih (fun g hg => hstep g (by simp [hg])) hput
    refine ⟨r', ?_, hr'⟩
    rw [run_cons, apply_eq_ok_iff.mpr ⟨v, hv, rfl⟩, ok_bind, hrun]

end Fill

end Rulebook
