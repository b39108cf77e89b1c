/-
What commands do to files.

A disk is what a workspace holds, without what was printed and what services were asked.
-/

import Rulebook.Proofs.Workspace.Files

open List

namespace Rulebook.Workspace

open Bool

variable {text : String}

/-! ### Disks -/

structure Disk where
  here : String
  directories : List Path.Place
  content : Path.Place → Option Content

def disk (w : Workspace) : Disk := ⟨w.here, w.directories, w.contentAt⟩

namespace Disk

variable {source target : String}

def place (d : Disk) (path : String) : Path.Place := Path.place d.here path

def isDirectory (d : Disk) (p : Path.Place) : Bool := p.isEmpty || d.directories.contains p

def admits (d : Disk) (path : String) : Bool :=
  !d.isDirectory (d.place path) && d.isDirectory (d.place path).dropLast

def landing (d : Disk) (source target : String) : Path.Place :=
  if d.isDirectory (d.place target) then d.place (Path.join target (Path.name source))
  else d.place target

structure Holds (d : Disk) (path : String) (c : Content) : Prop where
  isFile : d.isDirectory (d.place path) = false
  content : d.content (d.place path) = some c

def set (d : Disk) (p : Path.Place) (c : Option Content) : Disk :=
  { d with content := Function.update d.content p c }

variable {d : Disk} {p q : Path.Place} {c c' : Option Content} {path : String}

@[simp] theorem place_set : (d.set p c).place path = d.place path := rfl

@[simp] theorem isDirectory_set : (d.set p c).isDirectory q = d.isDirectory q := rfl

@[simp] theorem landing_set : (d.set p c).landing source target = d.landing source target := rfl

theorem landing_of_file (h : d.isDirectory (d.place target) = false) :
    d.landing source target = d.place target := by
  rw [landing, h, if_neg Bool.false_ne_true]

@[simp] theorem content_set_self : (d.set p c).content p = c := by
  simp [set]

theorem content_set_of_ne (h : q ≠ p) : (d.set p c).content q = d.content q := by
  simp [set, Function.update_of_ne h]

@[simp] theorem set_set : (d.set p c).set p c' = d.set p c' := by
  rw [set, set, set, Function.update_idem]

theorem set_self : d.set p (d.content p) = d := by
  rw [set, Function.update_eq_self]

theorem admits_iff : d.admits path = true ↔
    d.isDirectory (d.place path) = false ∧ d.isDirectory (d.place path).dropLast = true := by
  rw [admits, and_eq_true, not_eq_true']

theorem Holds.set {c x} (h : d.Holds path c) (hne : d.place path ≠ p) : (d.set p x).Holds path c :=
  ⟨h.isFile, by rw [place_set, content_set_of_ne hne, h.content]⟩

theorem holds_set_self {c} (h : d.isDirectory (d.place path) = false) :
    (d.set (d.place path) (some c)).Holds path c :=
  ⟨h, content_set_self⟩

theorem Holds.unique {c c'} (h : d.Holds path c) (h' : d.Holds path c') : c = c' :=
  Option.some.inj (h.content.symm.trans h'.content)

theorem place_name (h : Path.IsName name) (d : Disk) : d.place name = d.place "" ++ [name] := by
  have hjoin : Path.join "" name = name := by
    rw [Path.join]
    split <;> rfl
  have hbelow := Path.place_join_name h d.here ""
  rwa [hjoin] at hbelow

theorem place_ne (ha : Path.IsName a) (hb : Path.IsName b) (h : a ≠ b) (d : Disk) :
    d.place a ≠ d.place b := by
  rw [place_name ha, place_name hb]
  intro heq
  exact h (singleton_inj.mp (append_cancel_left heq))

end Disk

theorem disk_withFile (w : Workspace) (p c) : (w.withFile p c).disk = w.disk.set p (some c) := by
  have hdirectories : (w.withFile p c).directories = w.directories := by
    rw [withFile]
    split <;> rfl
  have hcontent : (w.withFile p c).contentAt = Function.update w.contentAt p (some c) := by
    funext q
    rw [contentAt_withFile, Function.update_apply]
  rw [disk, here_withFile, hdirectories, hcontent]
  rfl

theorem disk_withoutFile (w : Workspace) (p) : (w.withoutFile p).disk = w.disk.set p none := by
  have hlookup : ∀ (files : List (Path.Place × Content)) (q : Path.Place),
      (files.filter (·.1 ≠ p)).lookup q = if q = p then none else files.lookup q := by
    intro files q
    induction files with
    | nil => simp
    | cons f files ih => grind [lookup]
  have hcontent : (w.withoutFile p).contentAt = Function.update w.contentAt p none := by
    funext q
    rw [Function.update_apply]
    exact hlookup w.files q
  rw [disk, hcontent]
  rfl

/-! ### Commands on disks -/

/-- On every workspace with a disk, a command ends with a value and a disk of which `Q` holds, or
with a fault and a disk of which `E` holds. -/
structure Does {α : Type} (d : Disk) (action : Run α) (Q : α → Disk → Prop) (E : Disk → Prop) :
    Prop where
  ends : ∀ w : Workspace, w.disk = d →
    Ends w action (fun a w' => Q a w'.disk) fun _ w' => E w'.disk

section

variable {α β : Type} {d : Disk} {Q Q' : α → Disk → Prop} {R : β → Disk → Prop} {E F : Disk → Prop}

theorem does_pure (h : Q a d) : Does d (pure a) Q E := by
  constructor
  rintro w rfl
  exact h

theorem does_throw (h : E d) : Does d (throw f) Q E := by
  constructor
  rintro w rfl
  exact h

theorem does_lift {x : Except Fault α} (hok : ∀ a, x = .ok a → Q a d)
    (herror : ∀ f, x = .error f → E d) : Does d (liftM x) Q E := by
  constructor
  rintro w rfl
  rw [ends_lift]
  exact ⟨hok, herror⟩

theorem Does.imp (h : Does d action Q E) (hQ : ∀ a d', Q a d' → Q' a d')
    (hE : ∀ d', E d' → F d') : Does d action Q' F := by
  constructor
  intro w hw
  exact (h.ends w hw).imp (fun a w' => hQ a w'.disk) fun _ w' => hE w'.disk

theorem does_bind {next : α → Run β}
    (h : Does d x (fun a d' => Does d' (next a) R E) E) : Does d (x >>= next) R E := by
  constructor
  intro w hw
  rw [ends_bind]
  exact (h.ends w hw).imp (fun a w' ha => ha.ends w' rfl) fun _ _ hf => hf

theorem does_say {line Q} (h : Q () d) : Does d (say line) Q E := by
  constructor
  rintro w rfl
  exact h

theorem does_say_bind {line next} (h : Does d (next ()) R E) : Does d (say line >>= next) R E :=
  does_bind (does_say h)

/-- **A command with a handler**: after a fault the handler goes on from what is left. -/
theorem does_tryCatch (h : Does d action Q F) (hhandler : ∀ f d', F d' → Does d' (handler f) Q E) :
    Does d (tryCatch action handler) Q E := by
  constructor
  intro w hw
  rw [ends_tryCatch]
  exact (h.ends w hw).imp (fun _ _ ha => ha) fun f w' hf => (hhandler f _ hf).ends w' rfl

/-- **A guarded command** has a handler for ordinary faults. -/
theorem does_guarded (h : Does d action Q F) (hhandler : ∀ f d', F d' → Does d' (handler f) Q E)
    (hE : ∀ d', F d' → E d') : Does d (guarded action handler) Q E := by
  apply does_tryCatch h
  intro f d' hf
  split
  · exact hhandler f d' hf
  · exact does_throw (hE d' hf)

theorem does_isThere {path Q}
    (h : Q (d.isDirectory (d.place path) || (d.content (d.place path)).isSome) d) :
    Does d (isThere path) Q E := by
  constructor
  rintro w rfl
  exact h

theorem does_isFolder {path Q}
    (h : Q (d.isDirectory (d.place path)) d) : Does d (isFolder path) Q E := by
  constructor
  rintro w rfl
  exact h

end

/-! ### Single commands -/

def Encodes (text : String) : Prop := ∀ c ∈ text.toList, Text.isStandIn c = false

theorem encodes_append : Encodes (a ++ b) ↔ Encodes a ∧ Encodes b := by
  rw [Encodes, String.toList_append, forall_mem_append]
  rfl

theorem encodes_of_isAscii (h : text.toList.all Text.isAscii) : Encodes text := by
  intro c hc
  have hlt : c.toNat < 128 := by simpa [Text.isAscii] using all_eq_true.mp h c hc
  rw [Text.isStandIn, Json.codeOf_of_lt (by omega), Text.isSurrogate]
  simp
  omega

theorem encodable_of_encodes (h : Encodes text) : Text.encodable text = .ok text := by
  have hclean : text.toList.dropWhile (fun c => !Text.isStandIn c) = [] := by
    rw [dropWhile_eq_nil_iff]
    intro c hc
    rw [h c hc, Bool.not_false]
  rw [Text.encodable]
  simp [hclean]

theorem encodable_of_not_encodes (h : ¬ Encodes text) : ∃ f, Text.encodable text = .error f := by
  rw [Text.encodable]
  split
  case h_2 => exact ⟨_, rfl⟩
  case h_1 hnone =>
    refine absurd ?_ h
    have hclean : text.toList.dropWhile (fun c => !Text.isStandIn c) = [] := by
      by_contra hne
      obtain ⟨c, rest, hrest⟩ := exists_cons_of_ne_nil hne
      have hhead := head_dropWhile_not (fun c => !Text.isStandIn c) hne
      simp only [hrest, head_cons, not_eq_eq_eq_not] at hhead
      rw [hrest, takeWhile_cons_of_pos hhead] at hnone
      cases hnone
    intro c hc
    have hmem := dropWhile_eq_nil_iff.mp hclean c hc
    rwa [not_eq_true'] at hmem

section

variable {Q : Unit → Disk → Prop} {s : String}

variable {d : Disk} {E : Disk → Prop} {path : String}

theorem does_writeContent (hok : d.admits path = true → Q () (d.set (d.place path) (some c)))
    (hfail : d.admits path = false → E d) : Does d (writeContent path c) Q E := by
  constructor
  rintro w rfl
  simp only [writeContent, locate, ends_bind, ends_get, ends_pure]
  split
  case isTrue hdir =>
    refine hfail (eq_false_iff.mpr fun hadmits => ?_)
    exact eq_false_iff.mp (Disk.admits_iff.mp hadmits).1 hdir
  case isFalse hdir =>
    split
    case isTrue hparent =>
      refine hfail (eq_false_iff.mpr fun hadmits => ?_)
      rw [not_eq_true'] at hparent
      exact eq_false_iff.mp hparent (Disk.admits_iff.mp hadmits).2
    case isFalse hparent =>
      rw [ends_set, disk_withFile]
      rw [not_eq_true', not_eq_false] at hparent
      exact hok (Disk.admits_iff.mpr ⟨eq_false_iff.mpr hdir, hparent⟩)

/-- **Writing text** leaves it in the file; if it cannot be encoded, at most that file changes. -/
theorem does_writeText
    (hok : d.admits path = true → Encodes text → Q () (d.set (d.place path) (some (.text text))))
    (hfail : ¬ (d.admits path = true ∧ Encodes text) → ∀ c, E (d.set (d.place path) c)) :
    Does d (writeText path text) Q E := by
  have hkept : ¬ (d.admits path = true ∧ Encodes text) → E d := by
    intro h
    have hsame := hfail h (d.content (d.place path))
    rwa [Disk.set_self] at hsame
  rw [writeText]
  by_cases hencodes : Encodes text
  · rw [encodable_of_encodes hencodes]
    apply does_writeContent
    · exact fun hadmits => hok hadmits hencodes
    · exact fun hadmits => hkept fun h => eq_false_iff.mp hadmits h.1
  · obtain ⟨f, hf⟩ := encodable_of_not_encodes hencodes
    rw [hf]
    apply does_bind
    apply does_writeContent
    · exact fun _ => does_throw (hfail (fun h => hencodes h.2) _)
    · exact fun _ => hkept fun h => hencodes h.2

theorem does_appendText (hs : d.content (d.place path) = some (.text s))
    (hok : d.admits path = true → Encodes (s ++ text) →
      Q () (d.set (d.place path) (some (.text (s ++ text)))))
    (hfail : ¬ (d.admits path = true ∧ Encodes (s ++ text)) → ∀ c, E (d.set (d.place path) c)) :
    Does d (appendText path text) Q E := by
  constructor
  intro w hw
  have hcontent : w.contentAt (Path.place w.here path) = some (.text s) := by
    rw [← hw] at hs
    exact hs
  simp only [appendText, locate, ends_bind, ends_get, ends_pure, hcontent]
  exact (does_writeText hok hfail).ends w hw

theorem does_removeFile
    (hok : d.isDirectory (d.place path) = false → Q () (d.set (d.place path) none))
    (hfail : (∀ c, ¬ d.Holds path c) → E d) : Does d (removeFile path) Q E := by
  constructor
  rintro w rfl
  simp only [removeFile, locate, ends_bind, ends_get, ends_pure]
  split
  case isTrue hdir => exact hfail fun c hc => eq_false_iff.mp hc.isFile hdir
  case isFalse hdir =>
    split
    case isTrue hnone =>
      refine hfail fun c hc => ?_
      rw [show w.contentAt (Path.place w.here path) = some c from hc.content] at hnone
      cases hnone
    case isFalse =>
      rw [ends_set, disk_withoutFile]
      exact hok (eq_false_iff.mpr hdir)

/-- **Reading a file** that is there. -/
theorem does_content_of {c Q} (hc : d.Holds path c) (h : Q c d) : Does d (content path) Q E := by
  constructor
  rintro w rfl
  have hfound : w.found path = .ok c := by
    rw [found, show w.isDirectoryAt (Path.place w.here path) = false from hc.isFile,
      if_neg Bool.false_ne_true, show w.contentAt (Path.place w.here path) = some c from hc.content]
  rw [ends_content, hfound]
  constructor
  · rintro _ ⟨⟩
    exact h
  · rintro _ ⟨⟩

theorem does_content {Q} (hok : ∀ c, d.Holds path c → Q c d)
    (hfail : (∀ c, ¬ d.Holds path c) → E d) : Does d (content path) Q E := by
  by_cases hfile : d.isDirectory (d.place path) = false
  · cases hc : d.content (d.place path) with
    | some c => exact does_content_of ⟨hfile, hc⟩ (hok c ⟨hfile, hc⟩)
    | none =>
      constructor
      rintro w rfl
      rw [ends_content, found, show w.isDirectoryAt (Path.place w.here path) = false from hfile,
        show w.contentAt (Path.place w.here path) = none from hc]
      exact ⟨fun _ h => (by cases h), fun _ _ => hfail fun c hholds => by
        cases hc.symm.trans hholds.content⟩
  · constructor
    rintro w rfl
    rw [ends_content, found, if_pos (not_eq_false _ ▸ hfile)]
    exact ⟨fun _ h => (by cases h), fun _ _ => hfail fun c hholds => hfile hholds.isFile⟩

theorem does_readText {Q} (hs : d.Holds path (.text s))
    (h : Q (.ofList (lineFeeds s.toList)) d) : Does d (readText path) Q E := by
  apply does_bind
  apply does_content_of hs
  exact does_pure h

theorem does_readJson {v Q} (hs : d.Holds path (.text s))
    (hv : Json.read (.ofList (lineFeeds s.toList)) = .ok v) (h : Q v d) :
    Does d (readJson path) Q E := by
  apply does_bind
  apply does_readText hs
  rw [hv]
  exact does_pure h

/-- **Moving a file** puts its content where it lands. -/
theorem does_moveFile (hok : ∀ c, d.Holds source c →
      Q () ((d.set (d.landing source target) (some c)).set (d.place source) none))
    (hfail : (d.admits target = true → ∀ c, ¬ d.Holds source c) → E d) :
    Does d (moveFile source target) Q E := by
  rw [moveFile, copyFile]
  simp only [bind_assoc]
  apply does_bind
  refine does_content (fun c hc => ?_) fun hnone => hfail fun _ => hnone
  apply does_bind
  apply does_isFolder
  apply does_bind
  apply does_writeContent
  · intro _
    have hlanding : d.place (if d.isDirectory (d.place target) then
        Path.join target (Path.name source) else target) = d.landing source target := by
      rw [Disk.landing]
      split <;> rfl
    rw [hlanding]
    apply does_removeFile
    · exact fun _ => hok c hc
    · intro hnone
      by_cases hsame : d.place source = d.landing source target
      · exact absurd ⟨hc.isFile, hsame ▸ Disk.content_set_self⟩ (hnone c)
      · exact absurd (hc.set hsame) (hnone c)
  · grind [Disk.admits_iff.mp]

end

/-! ### Commands that only print -/

def Prints {α : Type} (action : Run α) (x : Except Fault α) : Prop :=
  ∀ w : Workspace, (w.perform action).1 = x ∧ (w.perform action).2.disk = w.disk

def OnlyPrints {α : Type} (action : Run α) : Prop := ∃ x, Prints action x

section

variable {α β : Type}

theorem onlyPrints_pure (a : α) : OnlyPrints (pure a) := ⟨.ok a, fun _ => ⟨rfl, rfl⟩⟩

theorem onlyPrints_say (line) : OnlyPrints (say line) := ⟨.ok (), fun _ => ⟨rfl, rfl⟩⟩

theorem onlyPrints_lift (x : Except Fault α) : OnlyPrints (liftM x) := by
  refine ⟨x, fun w => ?_⟩
  cases x with
  | ok a => exact ⟨rfl, rfl⟩
  | error f => exact ⟨rfl, rfl⟩

theorem OnlyPrints.bind {next : α → Run β} (h : OnlyPrints action)
    (hnext : ∀ a, OnlyPrints (next a)) : OnlyPrints (action >>= next) := by
  obtain ⟨x, hx⟩ := h
  choose y hy using hnext
  refine ⟨x >>= y, fun w => ?_⟩
  obtain ⟨hresult, hdisk⟩ := hx w
  rw [perform_bind]
  rcases hrun : w.perform action with ⟨_ | a, w'⟩
  · rw [hrun] at hresult hdisk
    subst hresult
    exact ⟨rfl, hdisk⟩
  · rw [hrun] at hresult hdisk
    subst hresult
    exact ⟨(hy a w').1, (hy a w').2.trans hdisk⟩

theorem OnlyPrints.ite [Decidable c] {a b : Run α} (ha : OnlyPrints a)
    (hb : OnlyPrints b) : OnlyPrints (if c then a else b) := by
  split
  · exact ha
  · exact hb

theorem OnlyPrints.does (h : OnlyPrints action) (w : Workspace)
    {Q : α → Disk → Prop} (hok : ∀ a, (w.perform action).1 = .ok a → Q a d)
    (hfail : ∀ f, (w.perform action).1 = .error f → E d) : Does d action Q E := by
  obtain ⟨x, hx⟩ := h
  constructor
  rintro v rfl
  obtain ⟨hresult, hdisk⟩ := hx v
  rw [Ends]
  rcases hrun : v.perform action with ⟨f | a, w'⟩
  · rw [hrun] at hresult hdisk
    simp only [hdisk]
    exact hfail f ((hx w).1.trans hresult.symm)
  · rw [hrun] at hresult hdisk
    simp only [hdisk]
    exact hok a ((hx w).1.trans hresult.symm)

end

end Rulebook.Workspace
