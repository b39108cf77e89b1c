/-
Answering records with a compiled library, one record and one function at a time.

`Called` says which calls were made since a workspace, and so which replies are left.
-/

import Rulebook.Proofs.Outcome
import Rulebook.Proofs.Record
import Rulebook.Proofs.Workspace
import Rulebook.Substrate.Native

open List

namespace Rulebook.Workspace

def queue (w : Workspace) (function : String) : List LibraryReply :=
  ((w.services.library.getD []).lookup function).getD []

def replyAfter (w : Workspace) (calls : List LibraryCall) (function : String) : LibraryReply :=
  (w.queue function).getD (calls.countP (·.function = function)) .nothing

structure Called (start : Workspace) (calls : List LibraryCall) (w : Workspace) : Prop where
  recorded : w.asked.calls = start.asked.calls ++ calls
  waiting : ∀ f, w.queue f = (start.queue f).drop (calls.countP (·.function = f))

variable {start w : Workspace} {calls : List LibraryCall}

theorem Called.ends_say {x : Run α} (h : Called start calls w)
    (hx : ∀ w', Called start calls w' → Ends w' x Q E) :
    Ends w (do say line; x) Q E := by
  exact hx _ ⟨h.recorded, h.waiting⟩

theorem lookup_replace {α : Type} {l : List (String × α)} {f g a} :
    (l.map fun e => if e.1 = f then (e.1, a) else e).lookup g =
      if g = f then (l.lookup g).map fun _ => a else l.lookup g := by
  induction l with
  | nil => simp
  | cons e l ih =>
    grind [lookup]

theorem Called.ends_callLibrary (h : Called start calls w) (c) : Ends w (callLibrary c)
      (fun r w' => Called start (calls ++ [c]) w' ∧ r = start.replyAfter calls c.function ∧
        ∀ text, r ≠ .failure text)
      fun f w' => Called start (calls ++ [c]) w' ∧ f.isOrdinary = true ∧
        ∃ text, start.replyAfter calls c.function = .failure text := by
  have hreply : start.replyAfter calls c.function = (w.queue c.function).headD .nothing := by
    rw [replyAfter, h.waiting, headD_eq_head?_getD, head?_drop, getD_eq_getElem?_getD]
  have hcalled : Called start (calls ++ [c]) { w with
      services := { w.services with library := some ((w.services.library.getD []).map fun f =>
        if f.1 = c.function then (f.1, (w.queue c.function).tail) else f) }
      asked := { w.asked with calls := w.asked.calls ++ [c] } } := by
    refine ⟨by simp [h.recorded], fun g => ?_⟩
    rw [queue, Option.getD_some, lookup_replace, countP_append, ← drop_drop, ← h.waiting]
    by_cases hg : g = c.function
    · subst hg
      rw [queue]
      cases (w.services.library.getD []).lookup c.function <;> simp
    · simp [hg, Ne.symm hg, queue]
  simp only [callLibrary, ends_bind, ends_get, hreply]
  unfold queue at hcalled ⊢
  generalize ((w.services.library.getD []).lookup c.function).getD [] = replies at hcalled ⊢
  rcases replies with _ | ⟨_ | _ | _ | text, rest⟩
  all_goals exact ⟨hcalled, rfl, by simp⟩

end Rulebook.Workspace

namespace Rulebook.Substrate.Native

open Workspace
open Rulebook.Native (Entry Packed Shape)

def callOn (packed : Packed) (e : Entry) : LibraryCall := ⟨e.name, packed.bytes, packed.texts⟩

/-- The calls that are made for a record: each function, on what the record was packed to. -/
def callsFor (shape : Shape) (entries : List Entry) (record : Record) : List LibraryCall :=
  match Native.pack shape record with
  | .ok packed => entries.map (callOn packed)
  | .error _ => []

def given? (e : Entry) : LibraryReply → Option Value
  | .failure _ => none
  | reply => some (valueOf e.returns reply)

def Answered (start : Workspace) (earlier : List LibraryCall) (packed : Packed)
    (entries : List Entry) (record done : Record) : Prop :=
  (∀ key ∉ entries.map Entry.field, done.get? key = record.get? key) ∧
    ∀ j e, entries[j]? = some e → done.get? e.field =
      (given? e (start.replyAfter (earlier ++ (entries.take j).map (callOn packed)) e.name)).or
        (record.get? e.field)

/-- What becomes of a record: one that cannot be packed stays. -/
def Completed (start : Workspace) (earlier : List LibraryCall) (shape : Shape)
    (entries : List Entry) (record done : Record) : Prop :=
  match Native.pack shape record with
  | .error _ => done = record
  | .ok packed => Answered start earlier packed entries record done

variable {start w : Workspace} {earlier : List LibraryCall} {packed : Packed}
  {entries : List Entry}

theorem ends_call (h : Called start earlier w) (e) (record : Record)
    (line : Fault → String) :
    Ends w (guarded (do putMember e.field (← call e packed) (.dict record)) fun f => do
        say (line f)
        return .dict record)
      (fun v w' => Called start (earlier ++ [callOn packed e]) w' ∧
        ∃ done : Record, v = .dict done ∧ ∀ key, done.get? key = if key = e.field then
          (given? e (start.replyAfter earlier e.name)).or (record.get? key) else record.get? key)
      fun _ _ => False := by
  rw [ends_guarded, ends_bind, call, ends_bind]
  refine (h.ends_callLibrary (callOn packed e)).imp ?_ ?_
  · rintro reply w' ⟨hcalled, hreply, hne⟩
    have hgiven : given? e reply = some (valueOf e.returns reply) := by
      cases reply with
      | failure text => exact absurd rfl (hne text)
      | _ => rfl
    rw [show reply = start.replyAfter earlier e.name from hreply] at hgiven
    refine ⟨hcalled, _, rfl, fun key => ?_⟩
    rw [Record.get?_put, hgiven, hreply]
    rfl
  · rintro f w' ⟨hcalled, hordinary, text, hreply⟩
    have hgiven : given? e (start.replyAfter earlier e.name) = none := by
      rw [show start.replyAfter earlier e.name = _ from hreply, given?]
    rw [if_pos hordinary]
    refine hcalled.ends_say fun w'' hcalled'' => ⟨hcalled'', record, rfl, fun key => ?_⟩
    simp [hgiven]

theorem ends_entries (h : Called start earlier w) (hfields : (entries.map Entry.field).Nodup)
    (record : Record) (line : Entry → Fault → String) :
    Ends w (entries.foldlM (fun v e =>
        guarded (do putMember e.field (← call e packed) v) fun f => do
          say (line e f)
          return v) (.dict record))
      (fun v w' => Called start (earlier ++ entries.map (callOn packed)) w' ∧
        ∃ done, v = .dict done ∧ Answered start earlier packed entries record done)
      fun _ _ => False := by
  induction entries generalizing w earlier record with
  | nil => exact ⟨by simpa using h, record, rfl, by simp [Answered]⟩
  | cons e entries ih =>
    rw [map_cons, nodup_cons] at hfields
    rw [foldlM_cons, ends_bind]
    refine (ends_call h e record (line e)).imp_ok ?_
    rintro _ w' ⟨hcalled, record', rfl, hrecord'⟩
    refine (ih hcalled hfields.2 record').imp_ok ?_
    rintro _ w'' ⟨hcalled', done, rfl, hkeep, hdone⟩
    refine ⟨by simpa using hcalled', done, rfl, fun key hkey => ?_, fun j e' he' => ?_⟩
    · grind
    · cases j with
      | zero => grind
      | succ j => grind

theorem toInteger_ordinary {v : Value} (h : v.toInteger = .error f) : f.isOrdinary = true := by
  simp only [Value.toInteger.eq_def, Numeral.integer, Except.mapError] at h
  repeat' split at h
  all_goals cases h
  all_goals rfl

theorem add_ordinary {p : Packed} (h : p.add record field = .error f) : f.isOrdinary = true := by
  rw [Packed.add] at h
  split at h
  · cases h
  split at h
  · cases h
  · rcases bind_eq_error_iff.mp h with h | ⟨n, -, h⟩
    · exact toInteger_ordinary h
    rcases bind_eq_error_iff.mp h with h | ⟨bytes, -, h⟩
    · rw [Native.wordOf] at h
      split at h <;> cases h
      rfl
    · cases h
  · rcases bind_eq_error_iff.mp h with h | ⟨text, -, h⟩
    · rw [Text.encodable] at h
      split at h <;> cases h
      rfl
    · cases h

theorem pack_ordinary (h : Native.pack shape record = .error f) : f.isOrdinary = true := by
  rw [Native.pack] at h
  generalize (⟨replicate shape.total 0, []⟩ : Packed) = p at h
  generalize shape.fields = fields at h
  induction fields generalizing p with
  | nil => cases h
  | cons field fields ih =>
    rw [foldlM_cons, bind_eq_error_iff] at h
    rcases h with h | ⟨p', -, h⟩
    · exact add_ordinary h
    · exact ih p' h

theorem ends_completeRecord (h : Called start earlier w)
    (hfields : (entries.map Entry.field).Nodup) (index) (record : Record) :
    Ends w (completeRecord shape entries index (.dict record))
      (fun v w' => Called start (earlier ++ callsFor shape entries record) w' ∧
        ∃ done, v = .dict done ∧ Completed start earlier shape entries record done)
      fun _ _ => False := by
  rw [completeRecord, ends_guarded, ends_bind, ends_lift, packValue, callsFor]
  unfold Completed
  refine ⟨fun packed hpacked => ?_, fun f hf => ?_⟩
  · rw [hpacked]
    exact (ends_entries h hfields record _).imp_ok fun v w' h' => h'
  · rw [hf, if_pos (pack_ordinary hf)]
    exact h.ends_say fun w' h' => ⟨by simpa using h', record, rfl, rfl⟩

theorem ends_records {shape : Shape} (h : Called start earlier w)
    (hfields : (entries.map Entry.field).Nodup) (records : List Record) (n : Nat) :
    Ends w (((records.map Value.dict).zipIdx n).mapM fun (v, i) => completeRecord shape entries i v)
      (fun values w' => Called start (earlier ++ records.flatMap (callsFor shape entries)) w' ∧
        ∃ done : List Record, values = done.map .dict ∧ done.length = records.length ∧
          ∀ i record done', records[i]? = some record → done[i]? = some done' →
            Completed start (earlier ++ (records.take i).flatMap (callsFor shape entries)) shape
              entries record done') fun _ _ => False := by
  induction records generalizing w earlier n with
  | nil => exact ⟨by simpa using h, [], rfl, rfl, by simp⟩
  | cons record records ih =>
    rw [map_cons, zipIdx_cons, mapM_cons, ends_bind]
    refine (ends_completeRecord h hfields n record).imp_ok ?_
    rintro _ w' ⟨hcalled, done, rfl, hdone⟩
    rw [ends_bind]
    refine (ih hcalled (n + 1)).imp_ok ?_
    rintro _ w'' ⟨hcalled', rest, rfl, hlength, hrest⟩
    refine ⟨by simpa using hcalled', done :: rest, rfl, by simp [hlength], ?_⟩
    intro i record' done' hrecord' hdone'
    cases i with
    | zero => simp_all
    | succ i => simpa using hrest i record' done' hrecord' hdone'

/-- **One bad record or function does not affect the others.** All records come back, in order. For
each that can be packed every function is called once, on what the record was packed to at first. A
record that cannot be packed stays, and any other has changed at the fields of the functions only,
to the values of the replies to its own calls. -/
theorem completeRecords_isolates (w : Workspace) (shape : Shape) {entries : List Entry}
    (hfields : (entries.map Entry.field).Nodup) (records : List Record) :
    Ends w (completeRecords shape entries (records.map .dict)) (fun values w' => w'.asked.calls =
          w.asked.calls ++ records.flatMap (callsFor shape entries) ∧
        ∃ done : List Record, values = done.map .dict ∧ done.length = records.length ∧
          ∀ i record done', records[i]? = some record → done[i]? = some done' →
            Completed w ((records.take i).flatMap (callsFor shape entries)) shape entries record
              done') fun _ _ => False := by
  have hcalled : Called w [] w := ⟨by simp, by simp⟩
  exact (ends_records hcalled hfields records 0).imp_ok fun _ _ h => ⟨h.1.recorded, h.2⟩

def halfBroken : Workspace where
  root := ""
  here := ""
  services := { library := some [("eval_flag", [.failure "no memory"]), ("eval_label", [.text [65]])] }

theorem completeRecords_isolates_halfBroken :
    Ends halfBroken (completeRecords ⟨[⟨"count", .integer, 0, 8, "count"⟩], 8⟩
        [⟨"flag", "eval_flag", .truth⟩, ⟨"label", "eval_label", .text⟩]
        ([[("count", .list [])], [("count", .int 1)]].map .dict))
      (fun values _ => ∃ done : Record, values = [.dict [("count", .list [])], .dict done] ∧
        done.get? "flag" = none ∧ done.get? "label" = some (.str "A")) fun _ _ => False := by
  refine (completeRecords_isolates halfBroken _ (by decide) _).imp_ok ?_
  rintro _ w' ⟨-, done, rfl, hlength, hdone⟩
  obtain ⟨first, second, rfl⟩ := length_eq_two.mp hlength
  obtain rfl : first = [("count", .list [])] := hdone 0 _ _ rfl rfl
  have hsecond := (hdone 1 _ _ rfl rfl).2
  exact ⟨second, rfl, hsecond 0 _ rfl, hsecond 1 _ rfl⟩

end Rulebook.Substrate.Native
