/-
The files of a workspace.

A name joined to a path names a place below it, and what is written as JSON at one place is read
back from there, while all other files stay.
-/

import Rulebook.Proofs.Json.RoundTrip
import Rulebook.Proofs.Workspace

open List

namespace Rulebook

namespace Path

open Text

variable {name : String}

structure IsName (name : String) : Prop where
  noSlash : '/' ∉ name.toList
  nonempty : name ≠ ""
  noDot : name ≠ "."
  noDots : name ≠ ".."

instance (name) : Decidable (IsName name) :=
  decidable_of_iff ('/' ∉ name.toList ∧ name ≠ "" ∧ name ≠ "." ∧ name ≠ "..")
    ⟨fun h => ⟨h.1, h.2.1, h.2.2.1, h.2.2.2⟩, fun h => ⟨h.1, h.2, h.3, h.4⟩⟩

theorem walk_append (start a b) : walk start (a ++ b) = walk (walk start a) b := foldl_append

theorem walk_name (h : IsName name) (start) : walk start [name] = start ++ [name] := by
  simp [walk, h.nonempty, h.noDot, h.noDots]

theorem cut_slash (a b) : cut (a ++ "/" ++ b) "/" = cut a "/" ++ cut b "/" := by
  have happend := cutGo_append '/' [] a.toList b.toList
  simp only [cut, cutChars, String.toList_append, List.append_assoc]
  rw [show "/".toList ++ b.toList = '/' :: b.toList from rfl, show "/".toList = ['/'] from rfl,
    happend, map_append]

theorem cut_name (h : IsName name) : cut name "/" = [name] := by
  rw [cut, cutChars, show "/".toList = ['/'] from rfl, cutGo_of_notMem h.noSlash]
  simp

theorem startsWith_slash_append (h : a ≠ "") (b) : startsWith (a ++ b) "/" = startsWith a "/" := by
  obtain ⟨c, cs, hchars⟩ := List.exists_cons_of_ne_nil (mt String.toList_eq_nil_iff.mp h)
  rw [startsWith, startsWith, String.toList_append, hchars]
  simp [List.isPrefixOf]

theorem exists_of_endsWith_slash (h : endsWith a "/") : ∃ front, a = front ++ "/" := by
  obtain ⟨front, hfront⟩ := List.isSuffixOf_iff_suffix.mp h
  refine ⟨.ofList front, String.toList_inj.mp ?_⟩
  rw [String.toList_append, String.toList_ofList, hfront]

/-- **A name joined to a path names a place below.** -/
theorem place_join_name (h : IsName name) (here base) :
    place here (join base name) = place here base ++ [name] := by
  have hslash : startsWith name "/" = false := by
    obtain ⟨c, cs, hchars⟩ := List.exists_cons_of_ne_nil (mt String.toList_eq_nil_iff.mp h.nonempty)
    have hc : '/' ≠ c := fun heq => h.noSlash (by rw [hchars, heq]; exact List.mem_cons_self)
    rw [startsWith, hchars]
    simp [List.isPrefixOf, hc]
  have hbelow : ∀ base, base ≠ "" →
      place here (base ++ "/" ++ name) = place here base ++ [name] := by
    intro base hbase
    rw [place, place, String.append_assoc, startsWith_slash_append hbase, ← String.append_assoc,
      cut_slash, cut_name h, walk_append, walk_name h]
  rw [join, hslash, if_neg Bool.false_ne_true]
  split
  case isTrue hempty =>
    have hstay : place here base = walk [] (cut here "/") := by
      rw [Bool.or_eq_true, String.isEmpty_iff, decide_eq_true_eq] at hempty
      rcases hempty with rfl | rfl <;> rfl
    rw [hstay, place, hslash, if_neg Bool.false_ne_true, cut_name h, walk_name h]
  case isFalse hbase =>
    rw [Bool.or_eq_true, String.isEmpty_iff, not_or] at hbase
    rw [if_neg (by simp [h.nonempty, h.noDot])]
    split
    case isTrue hends =>
      obtain ⟨front, rfl⟩ := exists_of_endsWith_slash hends
      have hfront : cut (front ++ "/") "/" = cut front "/" ++ [""] := by
        have hempty := cut_slash front ""
        rw [String.append_empty] at hempty
        exact hempty
      rw [place, place, startsWith_slash_append hbase.1, cut_slash, hfront, cut_name h, walk_append,
        walk_append, walk_name h]
      rfl
    case isFalse => exact hbelow base hbase.1

end Path

namespace Workspace

variable {E : Fault → Workspace → Prop} {path : String} {v : Value}

variable {w : Workspace} {p q : Path.Place} {c : Content}

@[simp] theorem contentAt_withFile :
    (w.withFile p c).contentAt q = if q = p then some c else w.contentAt q := by
  rw [withFile]
  split
  case isTrue hany =>
    have hmap : ∀ files : List (Path.Place × Content),
        (files.map fun f => if f.1 = p then (p, c) else f).lookup q =
          if q = p then (if files.any (·.1 = p) then some c else none) else files.lookup q := by
      intro files
      induction files with
      | nil => simp
      | cons f files ih =>
        grind [lookup]
    simp [contentAt, hmap, hany]
  case isFalse hnone =>
    have hadd : ∀ files : List (Path.Place × Content), files.any (·.1 = p) = false →
        (files ++ [(p, c)]).lookup q = if q = p then some c else files.lookup q := by
      intro files hfiles
      induction files with
      | nil => grind [lookup]
      | cons f files ih =>
        grind [lookup]
    exact hadd _ (Bool.eq_false_iff.mpr hnone)

@[simp] theorem isDirectoryAt_withFile : (w.withFile p c).isDirectoryAt q = w.isDirectoryAt q := by
  rw [withFile]
  split <;> rfl

@[simp] theorem here_withFile : (w.withFile p c).here = w.here := by
  rw [withFile]
  split <;> rfl

@[simp] theorem root_withFile : (w.withFile p c).root = w.root := by
  rw [withFile]
  split <;> rfl

@[simp] theorem services_withFile : (w.withFile p c).services = w.services := by
  rw [withFile]
  split <;> rfl

/-! ### Reading and writing JSON -/

def found (w : Workspace) (path : String) : Except Fault Content :=
  if w.isDirectoryAt (Path.place w.here path) then .error (isDirectory path)
  else match w.contentAt (Path.place w.here path) with
    | some c => .ok c
    | none => .error (w.absence (Path.place w.here path) path)

theorem ends_content (path) : Ends w (content path) Q E ↔
      (∀ c, w.found path = .ok c → Q c w) ∧ ∀ f, w.found path = .error f → E f w := by
  rw [← ends_lift]
  simp only [content, locate, ends_bind, ends_get, ends_pure, found]
  split
  · rfl
  · cases w.contentAt (Path.place w.here path) <;> rfl

theorem ends_isThere (path) :
    Ends w (isThere path) Q E ↔ Q (w.hasAt (Path.place w.here path)) w := Iff.rfl

/-- The value in the file at a path, or why there is none. -/
def foundJson (w : Workspace) (path : String) : Except Fault Value :=
  match w.found path with
  | .ok (.text s) => Json.read (.ofList (lineFeeds s.toList))
  | .ok _ => .error ⟨.decoding, "'utf-8' codec can't decode byte"⟩
  | .error f => .error f

theorem ends_readJson (path) : Ends w (readJson path) Q E ↔
      (∀ v, w.foundJson path = .ok v → Q v w) ∧ ∀ f, w.foundJson path = .error f → E f w := by
  rw [readJson, readText, ends_bind, ends_bind, ends_content, foundJson]
  cases w.found path with
  | error f => simp
  | ok c =>
    cases c with
    | text s => simp [ends_lift]
    | book | data => simp

theorem foundJson_eq_ok_iff : w.foundJson path = .ok v ↔
    w.isDirectoryAt (Path.place w.here path) = false ∧
      ∃ s, w.contentAt (Path.place w.here path) = some (.text s) ∧
        Json.read (.ofList (lineFeeds s.toList)) = .ok v := by
  rw [foundJson, found]
  constructor
  · grind
  · rintro ⟨hdir, s, hs, hread⟩
    simp [hdir, hs, hread]

/-! ### Text in files -/

theorem lineFeeds_of_isPlain (h : ∀ c ∈ cs, Json.IsPlain c) : lineFeeds cs = cs := by
  induction cs with
  | nil => rfl
  | cons c cs ih =>
    have hc : c ≠ '\r' := by
      rintro rfl
      rcases h '\r' List.mem_cons_self with h | h
      · cases h
      · exact absurd h (by decide)
    rw [lineFeeds, ih fun d hd => h d (mem_cons_of_mem c hd)]
    · exact fun _ heq => absurd heq hc
    · exact hc

theorem encodable_of_isPlain (h : ∀ c ∈ s.toList, Json.IsPlain c) : Text.encodable s = .ok s := by
  have hclean : ∀ c ∈ s.toList, !Text.isStandIn c := by
    intro c hc
    have hlt : c.toNat ≤ 126 := by
      rcases h c hc with rfl | h
      · decide
      · exact h.2
    rw [Text.isStandIn, Json.codeOf_of_lt (by omega), Text.isSurrogate]
    simp
    omega
  have hdrop : s.toList.dropWhile (fun c => !Text.isStandIn c) = [] :=
    dropWhile_eq_nil_iff.mpr hclean
  rw [Text.encodable]
  simp [hdrop]

theorem hasTooLong_list :
    (Value.list items).hasTooLong = false ↔ ∀ v ∈ items, v.hasTooLong = false := by
  change Value.anyTooLong items = _ ↔ _
  induction items with
  | nil => simp [Value.anyTooLong]
  | cons v items ih => rw [Value.anyTooLong, Bool.or_eq_false_iff, ih, forall_mem_cons]

theorem hasTooLong_dict :
    (Value.dict entries).hasTooLong = false ↔ ∀ e ∈ entries, e.2.hasTooLong = false := by
  change Value.anyEntryTooLong entries = _ ↔ _
  induction entries with
  | nil => simp [Value.anyEntryTooLong]
  | cons e entries ih => rw [Value.anyEntryTooLong, Bool.or_eq_false_iff, ih, forall_mem_cons]

theorem hasTooLong_of_writable (h : Json.Writable v) : v.hasTooLong = false := by
  induction h with
  | int hn => exact hn
  | list _ ih => exact hasTooLong_list.mpr ih
  | dict _ _ _ ih => exact hasTooLong_dict.mpr ih
  | null | bool | float | nan | str => rfl

def admits (w : Workspace) (path : String) : Bool :=
  !w.isDirectoryAt (Path.place w.here path) && w.isDirectoryAt (Path.place w.here path).dropLast

def withJson (w : Workspace) (path : String) (v : Value) : Workspace :=
  w.withFile (Path.place w.here path) (.text (Json.write .pretty v))

theorem ends_writeJson (hv : v.hasTooLong = false)
    (hok : w.admits path → Q () (w.withJson path v)) (hfail : ¬ w.admits path → ∀ f, E f w) :
    Ends w (writeJson path v) Q E := by
  have htext : Text.encodable (Json.write .pretty v) = .ok (Json.write .pretty v) :=
    encodable_of_isPlain (Json.isPlain_writeAt Json.Style.regular_pretty rfl v 0)
  rw [writeJson, hv, if_neg Bool.false_ne_true, writeText]
  simp only [htext, writeContent, locate, ends_bind, ends_get, ends_pure]
  split
  case isTrue hdir => exact hfail (by simp [admits, hdir]) _
  case isFalse hdir =>
    split
    case isTrue hparent => exact hfail (by simp_all [admits]) _
    case isFalse hparent => exact hok (by simp_all [admits])

theorem foundJson_withJson (hv : Json.Stored v) (h : w.admits path) :
    (w.withJson path v).foundJson path = .ok v := by
  rw [admits, Bool.and_eq_true, Bool.not_eq_true'] at h
  have hplain : ∀ c ∈ (Json.write .pretty v).toList, Json.IsPlain c :=
    Json.isPlain_writeAt Json.Style.regular_pretty rfl v 0
  refine foundJson_eq_ok_iff.mpr ⟨?_, Json.write .pretty v, ?_, ?_⟩
  · simp [withJson, h.1]
  · simp [withJson]
  · rw [lineFeeds_of_isPlain hplain, String.ofList_toList]
    exact hv.read_write Json.Style.regular_pretty

theorem foundJson_withJson_of_ne
    (hne : Path.place w.here path' ≠ Path.place w.here path) (h : w.foundJson path' = .ok v') :
    (w.withJson path v).foundJson path' = .ok v' := by
  rw [foundJson_eq_ok_iff] at h ⊢
  simpa [withJson, hne] using h

/-! ### Commands that leave the files alone -/

/-- The workspaces agree on where things are and on what the files hold. -/
structure SameFiles (w w' : Workspace) : Prop where
  root : w'.root = w.root
  here : w'.here = w.here
  directories : w'.directories = w.directories
  files : w'.files = w.files

/-- Workspaces that differ at most in what was printed and in what the services were asked. -/
structure Quiet (w w' : Workspace) : Prop extends SameFiles w w' where
  remote : w'.services.remote = w.services.remote
  children : ∀ r ∈ w'.services.children, r ∈ w.services.children

variable {w' w'' : Workspace}

theorem Quiet.refl (w) : Quiet w w := ⟨⟨rfl, rfl, rfl, rfl⟩, rfl, fun _ h => h⟩

theorem Quiet.trans (h : Quiet w w') (h' : Quiet w' w'') : Quiet w w'' :=
  ⟨⟨h'.root.trans h.root, h'.here.trans h.here, h'.directories.trans h.directories,
    h'.files.trans h.files⟩, h'.remote.trans h.remote,
    fun r hr => h.children r (h'.children r hr)⟩

theorem SameFiles.foundJson (h : SameFiles w w') (path) : w'.foundJson path = w.foundJson path := by
  have hfound : w'.found path = w.found path := by
    simp only [found, isDirectoryAt, contentAt, absence, h.here, h.directories, h.files]
    rfl
  rw [Workspace.foundJson, hfound, Workspace.foundJson]

theorem SameFiles.admits (h : SameFiles w w') (path) : w'.admits path = w.admits path := by
  simp [Workspace.admits, isDirectoryAt, h.here, h.directories]

theorem quiet_say (line) : Ends w (say line) (fun _ w' => Quiet w w') fun _ w' => Quiet w w' :=
  ⟨⟨rfl, rfl, rfl, rfl⟩, rfl, fun _ h => h⟩

theorem quiet_complain (line) :
    Ends w (complain line) (fun _ w' => Quiet w w') fun _ w' => Quiet w w' := by
  rw [complain, ends_modify]
  split
  · exact ⟨⟨rfl, rfl, rfl, rfl⟩, rfl, fun _ h => h⟩
  · exact .refl w

theorem quiet_runChild (h : ∀ r ∈ w.services.children, r.writes = []) (command seconds) :
    Ends w (runChild command seconds) (fun _ w' => Quiet w w') fun _ w' => Quiet w w' := by
  simp only [runChild, ends_bind, ends_get]
  cases hchildren : w.services.children with
  | nil => exact ⟨⟨rfl, rfl, rfl, rfl⟩, rfl, by simp⟩
  | cons r rest =>
    have hwrites : r.writes = [] := h r (by simp [hchildren])
    have hsame : Quiet w { w with
        services := { w.services with children := rest }
        asked := { w.asked with commands := w.asked.commands ++ [command] } } :=
      ⟨⟨rfl, rfl, rfl, rfl⟩, rfl, fun s hs => hchildren ▸ mem_cons_of_mem r hs⟩
    simp only [hwrites]
    split <;> exact hsame

end Workspace

end Rulebook
