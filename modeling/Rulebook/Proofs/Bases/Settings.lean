/-
Settings of a project, read and changed.
-/

import Rulebook.Bases.Catalog
import Rulebook.Proofs.Json.RoundTrip
import Rulebook.Proofs.Outcome

namespace Rulebook.Bases

open List Json Value

/-! ### Loops whose rounds do not fail -/

section

variable {α : Type} {p : α → Except Fault Bool} {q : α → Bool} {items : List α}

theorem findM?_eq_ok (h : ∀ a ∈ items, p a = .ok (q a)) : items.findM? p = .ok (items.find? q) := by
  induction items with
  | nil => rfl
  | cons a items ih =>
    rw [findM?, h a mem_cons_self, find?_cons,
      ih fun b hb => h b (mem_cons_of_mem a hb)]
    cases q a <;> rfl

theorem anyM_eq_ok (h : ∀ a ∈ items, p a = .ok (q a)) : items.anyM p = .ok (items.any q) := by
  induction items with
  | nil => rfl
  | cons a items ih =>
    rw [anyM, h a mem_cons_self, any_cons,
      ih fun b hb => h b (mem_cons_of_mem a hb)]
    cases q a <;> rfl

theorem filterM_eq_ok (h : ∀ a ∈ items, p a = .ok (q a)) :
    items.filterM p = .ok (items.filter q) := by
  have haux : ∀ out, items.filterAuxM p out = .ok ((items.filter q).reverse ++ out) := by
    induction items with
    | nil => exact fun out => rfl
    | cons a items ih =>
      intro out
      rw [filterAuxM, h a mem_cons_self]
      change items.filterAuxM p (bif q a then a :: out else out) = _
      rw [ih fun b hb => h b (mem_cons_of_mem a hb), filter_cons]
      cases q a <;> simp
  rw [filterM, haux, append_nil]
  change Except.ok (items.filter q).reverse.reverse = _
  rw [reverse_reverse]

end

/-! ### Settings -/

def named (name : String) (s : Value) : Bool := (s.entries.getD "Name" .null).equal (.str name)

def valueOf (settings : List Value) (name : String) : Value :=
  ((settings.find? (named name)).map fun s => s.entries.getD "Value" .null).getD .null

def assigned (name : String) (v : Value) : List Value → List Value
  | [] => [.dict [("Name", .str name), ("Value", v)]]
  | s :: rest =>
    if named name s then .dict (Record.put s.entries "Value" v) :: rest
    else s :: assigned name v rest

structure Configured (config : Value) (list : List Value) : Prop where
  stored : Stored config
  value : settingsValue config = .ok (.list list)
  tables : ∀ s ∈ list, ∃ r, s = .dict r

section

variable {s v : Value} {name' : String}

variable {config : Value} {list : List Value} {name : String}

theorem named_iff : named name s ↔ s.entries.getD "Name" .null = .str name :=
  equal_str_iff

theorem Configured.settings_eq (h : Configured config list) : settings config = .ok list := by
  rw [settings, h.value]
  rfl

theorem Configured.isNamed_eq (h : Configured config list) (name) :
    ∀ s ∈ list, isNamed (.str name) s = .ok (named name s) := by
  intro s hs
  obtain ⟨r, rfl⟩ := h.tables s hs
  rfl

theorem Configured.setting_eq (h : Configured config list) (name) :
    setting config (.str name) = .ok (valueOf list name) := by
  rw [setting, h.settings_eq, ok_bind, findM?_eq_ok (h.isNamed_eq name), valueOf]
  cases hfound : list.find? (named name) with
  | none => rfl
  | some s =>
    obtain ⟨r, rfl⟩ := h.tables s (mem_of_find?_eq_some hfound)
    rfl

theorem Configured.table (h : Configured config list) : ∃ entries, config = .dict entries := by
  have hvalue := h.value
  cases config with
  | dict entries => exact ⟨entries, rfl⟩
  | _ => cases hvalue

theorem Configured.active_eq (h : Configured config list) :
    active config = .ok (valueOf list "baseId") := h.setting_eq "baseId"

theorem withSettings_configured (h : Configured config list)
    (hstored : ∀ s ∈ list', Stored s) (htables : ∀ s ∈ list', ∃ r, s = .dict r) :
    Configured (withSettings config list') list' := by
  obtain ⟨entries, rfl⟩ := h.table
  refine ⟨h.stored.put (unpaired_of_isAscii (by decide)) (stored_list_iff.mpr hstored), ?_, htables⟩
  simp [settingsValue, withSettings, getOr, table, Record.getD, Record.get?_put,
    Except.map]

theorem Configured.stored_of_mem (h : Configured config list) (hs : s ∈ list) : Stored s := by
  obtain ⟨entries, rfl⟩ := h.table
  have hvalue : Record.getD entries settingsKey (.list []) = .list list := by
    simpa [settingsValue, Value.getOr, Value.table, Except.map] using h.value
  rw [Record.getD] at hvalue
  cases hget : Record.get? entries settingsKey with
  | none => grind
  | some v =>
    rw [hget] at hvalue
    exact stored_list_iff.mp (hvalue ▸ h.stored.get? hget) s hs

theorem Configured.stored_valueOf (h : Configured config list) (name) :
    Stored (valueOf list name) := by
  rw [valueOf]
  cases hfound : list.find? (named name) with
  | none => exact stored_null
  | some s =>
    have hs := mem_of_find?_eq_some hfound
    obtain ⟨r, rfl⟩ := h.tables s hs
    rw [Option.map_some, entries, Record.getD]
    cases hget : Record.get? r "Value" with
    | none => exact stored_null
    | some v => exact (h.stored_of_mem hs).get? hget

theorem Configured.withoutSetting_eq (h : Configured config list) (name) :
    withoutSetting config (.str name) =
      .ok (withSettings config (list.filter fun s => !named name s)) := by
  have hfilter : list.filterM (fun s => do return !(← isNamed (.str name) s)) =
      .ok (list.filter fun s => !named name s) := by
    refine filterM_eq_ok fun s hs => ?_
    rw [h.isNamed_eq name s hs]
    rfl
  rw [withoutSetting, h.settings_eq, ok_bind, hfilter]
  rfl

theorem assignFirst_eq (htables : ∀ s ∈ list, ∃ r, s = .dict r) (name v) :
    assignFirst (.str name) v list =
      .ok (if list.any (named name) then some (assigned name v list) else none) := by
  induction list with
  | nil => rfl
  | cons s list ih =>
    obtain ⟨r, rfl⟩ := htables s (.head _)
    have hnamed : isNamed (.str name) (.dict r) = .ok (named name (.dict r)) := rfl
    rw [assignFirst, hnamed, ih fun t ht => htables t (mem_cons_of_mem _ ht), assigned, any_cons]
    cases named name (.dict r) with
    | true => rfl
    | false => cases list.any (named name) <;> rfl

theorem assigned_of_not_any (h : ¬ list.any (named name)) :
    assigned name v list = list ++ [.dict [("Name", .str name), ("Value", v)]] := by
  induction list with
  | nil => rfl
  | cons s list ih =>
    rw [any_cons, Bool.or_eq_true, not_or] at h
    rw [assigned, if_neg h.1, ih h.2, cons_append]

theorem Configured.withSetting_eq (h : Configured config list) (name v) :
    withSetting config (.str name) v = .ok (withSettings config (assigned name v list)) := by
  rw [withSetting, h.settings_eq, ok_bind, assignFirst_eq h.tables]
  by_cases hany : list.any (named name)
  · rw [if_pos hany]
    rfl
  · rw [if_neg hany, h.value, assigned_of_not_any hany]
    rfl

/-! What an assignment does to the settings. -/

theorem named_put : named name (.dict (Record.put s.entries "Value" v)) = named name s := by
  rw [named, named, entries, Record.getD, Record.getD, Record.get?_put, if_neg (by decide)]

theorem named_new : named name' (.dict [("Name", .str name), ("Value", v)]) ↔ name = name' := by
  rw [named_iff]
  exact str.injEq _ _ ▸ Iff.rfl

theorem eq_of_named (h : named name s) (h' : named name' s) : name = name' := by
  rw [named_iff] at h h'
  rw [h] at h'
  exact str.inj h'

theorem valueOf_cons (s) : valueOf (s :: list) name =
    if named name s then s.entries.getD "Value" .null else valueOf list name := by
  rw [valueOf, find?_cons]
  cases named name s <;> rfl

theorem valueOf_assigned (v name') :
    valueOf (assigned name v list) name' = if name' = name then v else valueOf list name' := by
  induction list with
  | nil =>
    rw [assigned, valueOf_cons]
    by_cases hname : name' = name
    · rw [if_pos (named_new.mpr hname.symm), if_pos hname]
      rfl
    · rw [if_neg (mt named_new.mp (Ne.symm hname)), if_neg hname]
  | cons s list ih =>
    rw [assigned]
    by_cases hnamed : named name s
    · rw [if_pos hnamed, valueOf_cons, named_put, valueOf_cons]
      by_cases hname : name' = name
      · rw [if_pos (hname ▸ hnamed), if_pos hname]
        exact Record.get_put_self
      · have hother : ¬ named name' s := fun h => hname (eq_of_named h hnamed)
        rw [if_neg hother, if_neg hname, if_neg hother]
    · grind [valueOf_cons]

theorem filter_assigned (v) (hname : ∀ s, named name s → p s = false) :
    (assigned name v list).filter p = list.filter p := by
  induction list with
  | nil =>
    rw [assigned, filter_cons, hname _ (named_new.mpr rfl)]
    rfl
  | cons s list ih =>
    rw [assigned]
    split
    case isTrue hnamed =>
      rw [filter_cons, hname _ (named_put.trans hnamed), filter_cons, hname _ hnamed]
      rfl
    case isFalse =>
      rw [filter_cons, filter_cons, ih]

theorem valueOf_filter (h : name' ≠ name) :
    valueOf (list.filter fun s => !named name s) name' = valueOf list name' := by
  have hsame : (fun s => decide ((!named name s) = true ∧ named name' s = true)) = named name' := by
    funext s
    by_cases hnamed' : named name' s
    · have hnamed : named name s = false :=
        Bool.eq_false_iff.mpr fun hnamed => h (eq_of_named hnamed' hnamed)
      simp [hnamed]
    · simp [hnamed']
  rw [valueOf, find?_filter, hsame, valueOf]

theorem forall_assigned {P : Value → Prop} (h : ∀ s ∈ list, P s)
    (hnew : P (.dict [("Name", .str name), ("Value", v)]))
    (hput : ∀ s ∈ list, P (.dict (Record.put s.entries "Value" v))) :
    ∀ s ∈ assigned name v list, P s := by
  induction list with
  | nil => simpa [assigned] using hnew
  | cons s list ih => grind [assigned]

theorem stored_pair (hk : Unpaired k.toList) (hk' : Unpaired k'.toList)
    (hne : k ≠ k') (hv : Stored v) (hv' : Stored v') : Stored (.dict [(k, v), (k', v')]) := by
  refine stored_dict_iff.mpr ⟨?_, fun e he => ?_⟩
  · simpa [Record.keys] using hne
  · grind

/-- **An assignment gives a configuration of the same form.** -/
theorem Configured.withSetting_configured (h : Configured config list) (hv : Stored v)
    (hname : Unpaired name.toList) :
    Configured (withSettings config (assigned name v list)) (assigned name v list) := by
  have hvalue : Unpaired "Value".toList := unpaired_of_isAscii (by decide)
  refine withSettings_configured h (forall_assigned (fun s hs => h.stored_of_mem hs) ?_ ?_)
    (forall_assigned h.tables ⟨_, rfl⟩ fun s _ => ⟨_, rfl⟩)
  · exact stored_pair (unpaired_of_isAscii (by decide)) hvalue (by decide)
      (stored_str_iff.mpr hname) hv
  · intro s hs
    obtain ⟨r, rfl⟩ := h.tables s hs
    exact (h.stored_of_mem hs).put hvalue hv

theorem Configured.withoutSetting_configured (h : Configured config list) (name) :
    Configured (withSettings config (list.filter fun s => !named name s))
      (list.filter fun s => !named name s) :=
  withSettings_configured h (fun _ hs => h.stored_of_mem (mem_of_mem_filter hs))
    fun s hs => h.tables s (mem_of_mem_filter hs)

theorem Configured.put (h : Configured config list) {key} (hkey : key ≠ settingsKey)
    (hunpaired : Unpaired key.toList) {v} (hv : Stored v) :
    Configured (.dict (Record.put config.entries key v)) list := by
  obtain ⟨entries, rfl⟩ := h.table
  refine ⟨h.stored.put hunpaired hv, ?_, h.tables⟩
  have hvalue := h.value
  simpa [settingsValue, Value.getOr, Value.table, Value.entries, Except.map, Record.getD,
    Record.get?_put, hkey.symm] using hvalue

theorem stored_of_member {base key} (h : Stored base)
    (hv : base.member key = .ok v) : Stored v := by
  cases base with
  | dict entries =>
    rw [member] at hv
    split at hv
    case h_1 w hget =>
      cases hv
      exact h.get? hget
    case h_2 => cases hv
  | _ => cases hv

/-- **The configuration in which a base is active.** -/
theorem Configured.activated_eq (h : Configured config list) {base id name}
    (hid : base.member "id" = .ok id) (hname : base.member "name" = .ok name) (hbase : Stored base) :
    ∃ config', activated config base = .ok config' ∧
      Configured config' (assigned "project-name" name (assigned "baseId" id list)) := by
  have hactive := h.withSetting_configured (stored_of_member hbase hid)
    (unpaired_of_isAscii (by decide : "baseId".toList.all Text.isAscii))
  have hproject := hactive.withSetting_configured (stored_of_member hbase hname)
    (unpaired_of_isAscii (by decide : "project-name".toList.all Text.isAscii))
  refine ⟨_, ?_, @Configured.put _ _ hproject "Name" (by decide)
    (unpaired_of_isAscii (by decide)) _ (stored_of_member hbase hname)⟩
  rw [activated, hid, ok_bind, h.withSetting_eq, ok_bind, hname, ok_bind, hactive.withSetting_eq]
  rfl

/-! ### Other settings -/

def ownNames : List String := ["baseId", "project-name", "bases"]

def others (list : List Value) : List Value := list.filter fun s => !ownNames.any (named · s)

theorem others_assigned (h : name ∈ ownNames) (v) :
    others (assigned name v list) = others list := by
  refine filter_assigned v fun s hs => ?_
  rw [Bool.not_eq_false', any_eq_true]
  exact ⟨name, h, hs⟩

theorem others_filter (h : name ∈ ownNames) :
    others (list.filter fun s => !named name s) = others list := by
  rw [others, filter_filter]
  refine filter_congr fun s _ => ?_
  rw [Bool.and_eq_left_iff_imp, Bool.not_eq_true', any_eq_false]
  exact fun hnone => by simpa using hnone name h

end

end Rulebook.Bases
