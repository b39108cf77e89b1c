/-
Laws of records, and of other lists of items with keys.
-/

import Mathlib
import Rulebook.Value.Access

open List

namespace Rulebook

theorem lookup_eq_none_iff_notMem {α : Type} {l : List (String × α)} :
    l.lookup key = none ↔ key ∉ l.map Prod.fst := by
  grind

theorem lookup_of_mem {α : Type} {l : List (String × α)} {key a}
    (hl : (l.map Prod.fst).Nodup) (h : (key, a) ∈ l) : l.lookup key = some a := by
  obtain ⟨before, behind, rfl⟩ := append_of_mem h
  refine lookup_eq_some_iff.mpr ⟨before, behind, rfl, fun e he => ?_⟩
  simp only [map_append, nodup_append] at hl
  simpa using (hl.2.2 e.1 (mem_map_of_mem he) key (by simp)).symm

section

variable {α : Type} {key : α → String} {l : List α} {a b : α}

theorem mem_of_mem_putBy (h : b ∈ putBy key l a) : b = a ∨ b ∈ l := by
  induction l with
  | nil => exact .inl (mem_singleton.mp h)
  | cons c l ih => grind [putBy]

theorem mem_putBy_self : a ∈ putBy key l a := by
  induction l with
  | nil => exact mem_singleton_self a
  | cons c l ih =>
    rw [putBy]
    split
    · exact (.head _)
    · exact mem_cons_of_mem c ih

theorem putBy_of_notMem (h : key a ∉ l.map key) : putBy key l a = l ++ [a] := by
  induction l with
  | nil => rfl
  | cons c l ih =>
    simp only [map_cons, mem_cons, not_or] at h
    simp [putBy, Ne.symm h.1, ih h.2]

theorem mem_keys_putBy : k ∈ (putBy key l a).map key ↔ k = key a ∨ k ∈ l.map key := by
  induction l with
  | nil => simp [putBy]
  | cons c l ih => grind [putBy]

theorem nodup_keys_putBy (h : (l.map key).Nodup) : ((putBy key l a).map key).Nodup := by
  induction l with
  | nil => exact nodup_singleton _
  | cons c l ih => grind [nodup_cons, putBy, mem_keys_putBy]

theorem key_ne_of_mem_putBy (hl : (l.map key).Nodup) (h : b ∈ putBy key l a) (hne : b ≠ a) :
    key b ≠ key a := fun heq =>
  hne (inj_on_of_nodup_map (nodup_keys_putBy hl) h mem_putBy_self heq)

theorem foldl_putBy (h : ((l ++ items).map key).Nodup) :
    items.foldl (putBy key) l = l ++ items := by
  induction items generalizing l with
  | nil => simp
  | cons c items ih => grind [nodup_append, putBy_of_notMem]

end

namespace Record

variable {r : Record} {key key' : String} {v : Value}

theorem get?_put : (r.put key v).get? key' = if key' = key then some v else r.get? key' := by
  induction r with
  | nil => grind [put, putBy, get?, lookup]
  | cons e r ih => grind [put, putBy, get?, lookup]

@[simp] theorem get_put_self : (r.put key v).get key = v := by
  simp [get, getD, get?_put]

theorem get_put_of_ne (h : key' ≠ key) : (r.put key v).get key' = r.get key' := by
  simp [get, getD, get?_put, h]

theorem get?_of_mem (hr : r.keys.Nodup) (h : (key, v) ∈ r) : r.get? key = some v :=
  lookup_of_mem hr h

theorem mem_of_get? (h : r.get? key = some v) : (key, v) ∈ r := by
  obtain ⟨before, behind, hr, -⟩ := lookup_eq_some_iff.mp h
  rw [hr]
  exact mem_append_right before (.head _)

theorem mem_put (h : e ∈ r.put key v) : e = (key, v) ∨ e ∈ r :=
  mem_of_mem_putBy h

theorem nodup_keys_put (h : r.keys.Nodup) : (r.put key v).keys.Nodup := nodup_keys_putBy h

theorem put_of_get? (h : r.get? key = some v) : r.put key v = r := by
  induction r with
  | nil => simp [get?] at h
  | cons e r ih => grind [get?, lookup, put, putBy, beq_eq_false_iff_ne.mpr]

theorem ofEntries_eq_self {entries : List (String × Value)} (h : (keys entries).Nodup) :
    ofEntries entries = entries :=
  foldl_putBy h

end Record

theorem Value.equal_str_iff {v : Value} : v.equal (.str s) = true ↔ v = .str s := by
  cases v <;> simp [equal, equalAtom, number?]

end Rulebook
