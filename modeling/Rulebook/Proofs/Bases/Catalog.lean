/-
The known bases through any operations.

`Midway` says what holds between the steps of an operation, `Done` what holds at its end,
`Unfinished` what holds where it fails.
-/

import Rulebook.Proofs.Bases.Settings
import Rulebook.Proofs.Workspace.Files

namespace Rulebook.Bases

open List Json Workspace

variable {w : Workspace} {bases list : List Value}

/-! ### Lists of bases -/

def idOf (base : Value) : Value := base.entries.get "id"

structure Listing (bases : List Value) : Prop where
  stored : ∀ b ∈ bases, Stored b
  named : ∀ b ∈ bases, ∃ id, b.member "id" = .ok (.str id)
  distinct : (bases.map idOf).Nodup

section

variable {bases : List Value} {id : String}

theorem idOf_of_member (h : base.member "id" = .ok v) : idOf base = v := by
  cases base with
  | dict entries => grind [Value.member, idOf, Value.entries, Record.get, Record.getD]
  | _ => cases h

theorem table_of_member {base v : Value} (h : base.member key = .ok v) :
    ∃ entries, base = .dict entries := by
  cases base with
  | dict entries => exact ⟨entries, rfl⟩
  | _ => cases h

theorem listing_cons_iff : Listing (b :: bases) ↔
    Stored b ∧ (∃ id, b.member "id" = .ok (.str id)) ∧ idOf b ∉ bases.map idOf ∧ Listing bases := by
  constructor
  · intro h
    obtain ⟨hnew, hdistinct⟩ := nodup_cons.mp h.distinct
    exact ⟨h.stored b (.head _), h.named b (.head _), hnew,
      fun c hc => h.stored c (mem_cons_of_mem b hc),
      fun c hc => h.named c (mem_cons_of_mem b hc), hdistinct⟩
  · rintro ⟨hb, hnamed, hnew, h⟩
    exact ⟨forall_mem_cons.mpr ⟨hb, h.stored⟩, forall_mem_cons.mpr ⟨hnamed, h.named⟩,
      nodup_cons.mpr ⟨hnew, h.distinct⟩⟩

theorem Listing.hasId_eq (h : Listing bases) (id) :
    ∀ b ∈ bases, hasId (.str id) b = .ok ((idOf b).equal (.str id)) := by
  intro b hb
  obtain ⟨id', hid⟩ := h.named b hb
  rw [hasId, hid, idOf_of_member hid]
  rfl

theorem notMem_of_not_any (h : ¬ bases.any fun b => (idOf b).equal (.str id)) :
    .str id ∉ bases.map idOf := by
  intro hmem
  obtain ⟨b, hb, hid⟩ := mem_map.mp hmem
  exact h (any_eq_true.mpr ⟨b, hb, Value.equal_str_iff.mpr hid⟩)

theorem Listing.filter (h : Listing bases) (q) : Listing (bases.filter q) :=
  ⟨fun b hb => h.stored b (mem_of_mem_filter hb),
    fun b hb => h.named b (mem_of_mem_filter hb),
    h.distinct.sublist (filter_sublist.map idOf)⟩

theorem Listing.append (h : Listing bases) (hnew : .str id ∉ bases.map idOf)
    (hid : Unpaired id.toList) (hname : Stored name) :
    Listing (bases ++ [baseValue (.str id) name]) := by
  have hbase : Stored (baseValue (.str id) name) :=
    stored_pair (unpaired_of_isAscii (by decide)) (unpaired_of_isAscii (by decide)) (by decide)
      (stored_str_iff.mpr hid) hname
  refine ⟨forall_mem_append.mpr ⟨h.stored, forall_mem_singleton.mpr hbase⟩,
    forall_mem_append.mpr ⟨h.named, forall_mem_singleton.mpr ⟨id, rfl⟩⟩, ?_⟩
  have hdistinct := h.distinct.concat hnew
  rw [concat_eq_append] at hdistinct
  rwa [map_append]

theorem Listing.renameFirst_eq (h : Listing bases) (id)
    (hname : Stored name) : ∃ bases', renameFirst (.str id) name bases = .ok bases' ∧
      Listing bases' ∧ bases'.map idOf = bases.map idOf := by
  induction bases with
  | nil => exact ⟨[], rfl, h, rfl⟩
  | cons b rest ih =>
    obtain ⟨hb, hnamed, hnew, hrest⟩ := listing_cons_iff.mp h
    rw [renameFirst, h.hasId_eq id b mem_cons_self]
    cases (idOf b).equal (.str id) with
    | true =>
      obtain ⟨id', hid'⟩ := hnamed
      obtain ⟨entries, rfl⟩ := table_of_member hid'
      have hsame : ∀ entries : Record, (Value.dict (entries.put "name" name)).member "id" =
          (Value.dict entries).member "id" := by
        intro entries
        rw [Value.member, Value.member, Record.get?_put, if_neg (by decide)]
      have hid : idOf (.dict (Record.put entries "name" name)) = idOf (.dict entries) := by
        rw [idOf_of_member (hsame entries ▸ hid'), idOf_of_member hid']
      refine ⟨_, rfl, listing_cons_iff.mpr ⟨?_, ⟨id', (hsame entries).trans hid'⟩, ?_, hrest⟩, ?_⟩
      · exact hb.put (unpaired_of_isAscii (by decide)) hname
      · rw [Value.entries, hid]
        exact hnew
      · rw [map_cons, map_cons, Value.entries, hid]
    | false =>
      obtain ⟨rest', hrename, hlisting, hids⟩ := ih hrest
      refine ⟨b :: rest', ?_, listing_cons_iff.mpr ⟨hb, hnamed, hids ▸ hnew, hlisting⟩, ?_⟩
      · rw [hrename]
        rfl
      · rw [map_cons, map_cons, hids]

end

/-! ### Files -/

def configFile (w : Workspace) : String := Path.join w.root "ssotme.json"

def listFile (w : Workspace) : String := Path.joinAll w.root ["orchestration", "bases.json"]

def configContent (w : Workspace) : Option Content :=
  w.contentAt (Path.place w.here (configFile w))

theorem place_configFile (w) :
    Path.place w.here (configFile w) = Path.place w.here w.root ++ ["ssotme.json"] :=
  Path.place_join_name (by decide) w.here w.root

theorem place_listFile (w) : Path.place w.here (listFile w) =
    Path.place w.here w.root ++ ["orchestration"] ++ ["bases.json"] := by
  rw [← Path.place_join_name (by decide) w.here w.root,
    ← Path.place_join_name (by decide)]
  rfl

theorem place_ne (w) : Path.place w.here (configFile w) ≠ Path.place w.here (listFile w) := by
  intro h
  have hlength := congrArg List.length h
  simp [place_configFile, place_listFile] at hlength

@[simp] theorem configFile_withJson (w path v) : configFile (w.withJson path v) = configFile w := by
  rw [configFile, withJson, root_withFile, configFile]

@[simp] theorem listFile_withJson (w path v) : listFile (w.withJson path v) = listFile w := by
  rw [listFile, withJson, root_withFile, listFile]

section

variable {w : Workspace} {Q : String → Workspace → Prop} {E : Fault → Workspace → Prop}

theorem ends_configPath : Ends w configPath Q E ↔ Q (configFile w) w := Iff.rfl

theorem ends_listPath : Ends w listPath Q E ↔ Q (listFile w) w := Iff.rfl

end

def configIn (w : Workspace) : Except Fault Value := (w.perform loadConfig).1

def basesIn (w : Workspace) : Except Fault (List Value) := (w.perform (known loadConfig)).1

theorem perform_loadConfig (w : Workspace) :
    w.perform loadConfig = (w.foundJson (configFile w), w) := by
  refine perform_of_ends ?_
  rw [loadConfig, ends_bind, ends_configPath, ends_readJson]
  exact ⟨fun v hv => ⟨hv.symm, rfl⟩, fun f hf => ⟨hf.symm, rfl⟩⟩

theorem configIn_eq (w) : configIn w = w.foundJson (configFile w) := by
  rw [configIn, perform_loadConfig]

def storedList (w : Workspace) : Except Fault (Option (List Value)) :=
  if w.hasAt (Path.place w.here (listFile w)) then
    match w.foundJson (listFile w) with
    | .ok (.list bases) => .ok (some bases)
    | .ok _ => .ok none
    | .error f => if isUnusable f then .ok none else .error f
  else .ok none

theorem perform_storedBases (w) : w.perform storedBases = (storedList w, w) := by
  refine perform_of_ends ?_
  rw [storedBases, ends_bind, ends_listPath, ends_bind, ends_isThere, storedList]
  cases w.hasAt (Path.place w.here (listFile w)) with
  | false => exact ⟨rfl, rfl⟩
  | true =>
    rw [Bool.not_true, if_neg Bool.false_ne_true, ends_tryCatch, ends_bind, ends_readJson]
    constructor
    · intro v hv
      cases v <;> simp [hv]
    · intro f hf
      split <;> simp_all

theorem storedList_eq_some_iff :
    storedList w = .ok (some bases) ↔ w.foundJson (listFile w) = .ok (.list bases) := by
  rw [storedList]
  constructor
  · grind
  · intro h
    obtain ⟨-, s, hcontent, -⟩ := foundJson_eq_ok_iff.mp h
    rw [if_pos (by simp [hasAt, hcontent]), h]

/-! ### Loading and writing the list -/

section

variable {w w' : Workspace} {config : Value} {bases : List Value}

theorem ends_writeBases (h : Writable (.list bases))
    (hok : w.admits (listFile w) → Q () (w.withJson (listFile w) (.list bases)))
    (hfail : ¬ w.admits (listFile w) → ∀ f, E f w) : Ends w (writeBases bases) Q E := by
  rw [writeBases, ends_bind]
  exact ends_writeJson (hasTooLong_of_writable h) hok hfail

/-- How the bases are known: from their file, not at all, or from an older configuration, from
where they are moved to the file. -/
inductive Knows (w : Workspace) (config : Value) : List Value → Workspace → Prop
  | stored {bases : List Value} : storedList w = .ok (some bases) → Knows w config bases w
  | none : storedList w = .ok none → olderBases config = .ok none → Knows w config [] w
  | older {bases : List Value} : storedList w = .ok none → olderBases config = .ok (some bases) →
      w.admits (listFile w) → Knows w config bases (w.withJson (listFile w) (.list bases))

theorem perform_writeBases (h : Writable (.list bases)) : w.admits (listFile w) ∧
      w.perform (writeBases bases) = (.ok (), w.withJson (listFile w) (.list bases)) ∨
    ¬ w.admits (listFile w) ∧ ∃ f, w.perform (writeBases bases) = (.error f, w) := by
  have hends : Ends w (writeBases bases)
      (fun _ w' => w.admits (listFile w) ∧ w' = w.withJson (listFile w) (.list bases))
      fun _ w' => ¬ w.admits (listFile w) ∧ w' = w :=
    ends_writeBases h (fun hadmits => ⟨hadmits, rfl⟩) fun hadmits _ => ⟨hadmits, rfl⟩
  rw [Ends] at hends
  split at hends
  case h_1 heq => exact .inl ⟨hends.1, by rw [heq, hends.2]⟩
  case h_2 f _ heq => exact .inr ⟨hends.1, f, by rw [heq, hends.2]⟩

/-- **Which bases are known, and what is written when they are loaded.** -/
theorem perform_known_iff (hload : w.perform load = (.ok config, w))
    (hwritable : Writable (.list bases)) :
    w.perform (known load) = (.ok bases, w') ↔ Knows w config bases w' := by
  unfold known
  rw [perform_bind, perform_storedBases]
  cases hs : storedList w with
  | error f =>
    constructor
    · intro h
      cases h
    · intro h
      cases h <;> simp_all
  | ok found =>
    cases found with
    | some bs =>
      constructor
      · intro h
        cases h
        exact .stored hs
      · intro h
        cases h <;> simp_all
    | none =>
      dsimp only
      rw [perform_bind, hload]
      dsimp only
      cases ho : olderBases config with
      | error f =>
        constructor
        · intro h
          cases h
        · intro h
          cases h <;> simp_all
      | ok older =>
        cases older with
        | none =>
          constructor
          · intro h
            cases h
            exact .none hs ho
          · intro h
            cases h <;> simp_all
            rfl
        | some bs =>
          change w.perform (writeBases bs >>= fun _ => pure bs) = _ ↔ _
          rw [perform_bind]
          constructor
          · intro h
            split at h
            case h_1 heq =>
              cases h
              rcases perform_writeBases hwritable with ⟨hadmits, hwrite⟩ | ⟨-, f, hwrite⟩
              · rw [hwrite] at heq
                cases heq
                exact .older hs ho hadmits
              · rw [hwrite] at heq
                cases heq
            case h_2 => cases h
          · intro h
            cases h with
            | stored h => simp_all
            | none h h' => simp_all
            | older _ h hadmits =>
              rw [ho] at h
              cases h
              rcases perform_writeBases hwritable with ⟨-, hwrite⟩ | ⟨hnot, -⟩
              · rw [hwrite]
                rfl
              · exact absurd hadmits hnot

theorem perform_loadConfig_of_configIn (h : configIn w = .ok config) :
    w.perform loadConfig = (.ok config, w) := by
  rw [perform_loadConfig, ← configIn_eq, h]

theorem basesIn_eq_ok_iff (hconfig : configIn w = .ok config) (hwritable : Writable (.list bases)) :
    basesIn w = .ok bases ↔ ∃ w', Knows w config bases w' := by
  have hload := perform_loadConfig_of_configIn hconfig
  constructor
  · intro h
    exact ⟨_, (perform_known_iff hload hwritable).mp (Prod.ext h rfl)⟩
  · rintro ⟨w', h⟩
    rw [basesIn, (perform_known_iff hload hwritable).mpr h]

theorem configIn_of_sameFiles (h : SameFiles w w') : configIn w' = configIn w := by
  rw [configIn_eq, configIn_eq, configFile, configFile, h.root, h.foundJson]

theorem listFile_of_sameFiles (h : SameFiles w w') : listFile w' = listFile w := by
  rw [listFile, listFile, h.root]

theorem storedList_of_sameFiles (h : SameFiles w w') : storedList w' = storedList w := by
  have hplace : w'.hasAt (Path.place w'.here (listFile w')) =
      w.hasAt (Path.place w.here (listFile w)) := by
    simp [listFile_of_sameFiles h, hasAt, isDirectoryAt, contentAt, h.here, h.directories,
      h.files]
  rw [storedList, storedList, hplace, listFile_of_sameFiles h, h.foundJson]

theorem Knows.of_sameFiles (hknows : Knows w config bases v)
    (h : SameFiles w w') : ∃ v', Knows w' config bases v' := by
  cases hknows with
  | stored hstored => exact ⟨_, .stored ((storedList_of_sameFiles h).trans hstored)⟩
  | none hnone holder => exact ⟨_, .none ((storedList_of_sameFiles h).trans hnone) holder⟩
  | older hnone holder hadmits =>
    refine ⟨_, .older ((storedList_of_sameFiles h).trans hnone) holder ?_⟩
    rw [listFile_of_sameFiles h, h.admits]
    exact hadmits

end

/-! ### Midway through an operation -/

/-- Services whose child processes write nothing and whose answers are values that have a text. -/
structure Honest (services : Services) : Prop where
  children : ∀ r ∈ services.children, r.writes = []
  remote : ∀ e ∈ services.remote, ∀ v, e.2 = .body v → Stored v

def ActiveText (list : List Value) : Prop :=
  valueOf list "baseId" = .null ∨ ∃ id, valueOf list "baseId" = .str id

structure State (w : Workspace) (config : Value) (list bases : List Value) : Prop where
  loads : configIn w = .ok config
  configured : Configured config list
  text : ActiveText list
  lists : basesIn w = .ok bases
  listing : Listing bases

/-- Where an operation starts. -/
structure Opening where
  start : Workspace
  config : Value
  list : List Value
  bases : List Value

/-- What holds midway through an operation: the file of the configuration is as it was. -/
structure Midway (o : Opening) (bases : List Value) (w : Workspace) : Prop
    extends State w o.config o.list bases where
  file : configContent w = configContent o.start
  honest : Honest o.start.services
  remote : w.services.remote = o.start.services.remote
  children : ∀ r ∈ w.services.children, r ∈ o.start.services.children

section

variable {o : Opening} {w w' : Workspace} {config c : Value} {list bases list' bases' : List Value}

theorem Listing.writable (h : Listing bases) : Writable (.list bases) :=
  .list fun b hb => (h.stored b hb).writable

theorem Listing.stored_list (h : Listing bases) : Stored (.list bases) :=
  stored_list_iff.mpr h.stored

theorem State.of_sameFiles (h : State w config list bases) (hsame : SameFiles w w') :
    State w' config list bases := by
  have hconfig : configIn w' = .ok config := (configIn_of_sameFiles hsame).trans h.loads
  refine ⟨hconfig, h.configured, h.text, ?_, h.listing⟩
  obtain ⟨v, hknows⟩ := (basesIn_eq_ok_iff h.loads h.listing.writable).mp h.lists
  exact (basesIn_eq_ok_iff hconfig h.listing.writable).mpr (hknows.of_sameFiles hsame)

theorem Midway.of_quiet (h : Midway o bases w) (hsame : Quiet w w') : Midway o bases w' := by
  refine ⟨h.toState.of_sameFiles hsame.toSameFiles, ?_, h.honest, hsame.remote.trans h.remote,
    fun r hr => h.children r (hsame.children r hr)⟩
  rw [← h.file]
  simp [configContent, configFile, contentAt, hsame.here, hsame.root, hsame.files]

theorem Midway.withList (h : Midway o bases w) (hlisting : Listing bases')
    (hadmits : w.admits (listFile w)) : Midway o bases' (w.withJson (listFile w) (.list bases')) ∧
      storedList (w.withJson (listFile w) (.list bases')) = .ok (some bases') := by
  have hstored : storedList (w.withJson (listFile w) (.list bases')) = .ok (some bases') := by
    rw [storedList_eq_some_iff, listFile_withJson]
    exact foundJson_withJson hlisting.stored_list hadmits
  have hconfig : configIn (w.withJson (listFile w) (.list bases')) = .ok o.config := by
    rw [configIn_eq, configFile_withJson]
    exact foundJson_withJson_of_ne (place_ne w) (configIn_eq w ▸ h.loads)
  have hlists := (basesIn_eq_ok_iff hconfig hlisting.writable).mpr ⟨_, .stored hstored⟩
  have hservices : (w.withJson (listFile w) (.list bases')).services = w.services := by
    rw [withJson, services_withFile]
  refine ⟨⟨⟨hconfig, h.configured, h.text, hlists, hlisting⟩, ?_, h.honest, hservices ▸ h.remote,
    hservices ▸ h.children⟩, hstored⟩
  rw [← h.file, configContent, configFile_withJson, withJson, here_withFile, contentAt_withFile,
    if_neg (place_ne w)]
  rfl

theorem Midway.ends_loadConfig (h : Midway o bases w) :
    Ends w loadConfig (fun c w' => c = o.config ∧ Midway o bases w') fun _ _ => False := by
  rw [Ends, perform_loadConfig_of_configIn h.loads]
  exact ⟨rfl, h⟩

/-- Loading the list gives the bases and leaves them in their file, if there are any. The
configuration given may be another one once the list is in its file. -/
theorem Midway.ends_known (h : Midway o bases w)
    (hc : c = o.config ∨ storedList w = .ok (some bases)) : Ends w (known (pure c))
      (fun found w' => found = bases ∧ Midway o bases w' ∧
        (bases ≠ [] → storedList w' = .ok (some bases))) fun _ _ => False := by
  obtain ⟨w', hknows⟩ : ∃ w', Knows w c bases w' := by
    rcases hc with rfl | hstored
    · exact (basesIn_eq_ok_iff h.loads h.listing.writable).mp h.lists
    · exact ⟨w, .stored hstored⟩
  have hperform : w.perform (known (pure c)) = (.ok bases, w') :=
    (perform_known_iff rfl h.listing.writable).mpr hknows
  rw [Ends, hperform]
  refine ⟨rfl, ?_⟩
  cases hknows with
  | stored hstored => exact ⟨h, fun _ => hstored⟩
  | none => exact ⟨h, fun hne => absurd rfl hne⟩
  | older _ _ hadmits =>
    obtain ⟨hmidway, hstored⟩ := h.withList h.listing hadmits
    exact ⟨hmidway, fun _ => hstored⟩

theorem Midway.ends_accountKey (h : Midway o bases w) :
    Ends w accountKey (fun _ w' => Midway o bases w') fun _ w' => Midway o bases w' := by
  have hwrites : ∀ r ∈ w.services.children, r.writes = [] := fun r hr =>
    h.honest.children r (h.children r hr)
  rw [accountKey, ends_guarded, ends_bind]
  refine (quiet_runChild hwrites _ _).imp (fun _ w' hsame => h.of_quiet hsame) ?_
  intro f w' hsame
  split
  · rw [ends_bind]
    refine (quiet_complain _).imp ?_ ?_
    · intro _ w'' hsame'
      exact h.of_quiet (hsame.trans hsame')
    · intro _ w'' hsame'
      exact h.of_quiet (hsame.trans hsame')
  · exact h.of_quiet hsame

theorem stored_nameIn {id name reply} (hid : Stored id)
    (hreply : ∀ v, reply = .body v → Stored v) (h : nameIn id reply = .ok name) : Stored name := by
  cases reply with
  | body v =>
    cases v with
    | dict entries =>
      change Except.ok (Record.getD entries "name" id) = .ok name at h
      cases h
      rw [Record.getD]
      cases hget : Record.get? entries "name" with
      | none => exact hid
      | some w => exact (hreply _ rfl).get? hget
    | _ => cases h
  | status code =>
    unfold nameIn at h
    split at h
    case h_1 heq => cases heq
    all_goals cases h
  | failure text => cases h

theorem Midway.ends_nameOf (h : Midway o bases w) {id} (hid : Stored id) :
    Ends w (nameOf id) (fun name w' => Stored name ∧ Midway o bases w')
      fun _ w' => Midway o bases w' := by
  rw [nameOf, ends_bind]
  refine h.ends_accountKey.imp ?_ fun _ _ h => h
  intro key w' h
  split
  · exact h
  · rw [fetchName, ends_bind, ends_get, ends_lift]
    refine ⟨fun name hname => ⟨stored_nameIn hid (fun v hv => ?_) hname, h⟩, fun _ _ => h⟩
    rw [h.remote, replyAt] at hv
    cases hlookup : o.start.services.remote.lookup
        (((Text.cut (Text.trimEnd (address id)) "/").getLast?).getD "") with
    | none =>
      rw [hlookup] at hv
      cases hv
    | some reply =>
      rw [hlookup] at hv
      obtain ⟨before, behind, hremote, -⟩ := lookup_eq_some_iff.mp hlookup
      exact h.honest.remote _ (hremote ▸ mem_append_right before (.head _)) v hv

theorem Midway.ends_keepBases (h : Midway o bases w) (hc : Configured c list')
    (hlisting : Listing bases') : Ends w (keepBases c bases')
      (fun c' w' => c' = withSettings c (list'.filter fun s => !named "bases" s) ∧
        Midway o bases' w' ∧ storedList w' = .ok (some bases')) fun _ w' => Midway o bases w' := by
  rw [keepBases, ends_bind]
  refine ends_writeBases hlisting.writable (fun hadmits => ?_) fun _ _ => h
  rw [hc.withoutSetting_eq]
  exact ⟨rfl, h.withList hlisting hadmits⟩

theorem Midway.ends_saveConfig (h : Midway o bases w)
    (hstored : storedList w = .ok (some bases)) (hc : Configured c list') (htext : ActiveText list') :
    Ends w (saveConfig c) (fun _ w' => State w' c list' bases) fun _ w' => Midway o bases w' := by
  rw [saveConfig, ends_bind]
  refine ends_writeJson (hasTooLong_of_writable hc.stored.writable) (fun hadmits => ?_) fun _ _ => h
  have hloads : configIn (w.withJson (configFile w) c) = .ok c := by
    rw [configIn_eq, configFile_withJson]
    exact foundJson_withJson hc.stored hadmits
  have hlists : storedList (w.withJson (configFile w) c) = .ok (some bases) := by
    rw [storedList_eq_some_iff, listFile_withJson]
    exact foundJson_withJson_of_ne (place_ne w).symm (storedList_eq_some_iff.mp hstored)
  refine ⟨hloads, hc, htext, ?_, h.listing⟩
  exact (basesIn_eq_ok_iff hloads h.listing.writable).mpr ⟨_, .stored hlists⟩

/-- What the list of bases is made ready to: the active base is on it, and what is left of the
settings is what matters of them. -/
structure Ready (o : Opening) (c : Value) (list' bases' : List Value) (w : Workspace) : Prop where
  midway : Midway o bases' w
  configured : Configured c list'
  others : others list' = others o.list
  active : valueOf list' "baseId" = valueOf o.list "baseId"
  kept : o.bases.map idOf ⊆ bases'.map idOf

theorem ends_lift_ok {x : Except Fault α} (h : x = .ok a) : Ends w (liftM x) Q E ↔ Q a w := by
  subst h
  rfl

-- commands are taken apart by lemmas only: unfolding them is slow
attribute [local irreducible] Ends in
theorem Midway.ends_ensureActive (h : Midway o o.bases w) : Ends w (ensureActive o.config)
      (fun c w' => ∃ list' bases', Ready o c list' bases' w' ∧
        (c = o.config ∨ storedList w' = .ok (some bases'))) fun _ w' => Midway o o.bases w' := by
  have hc := h.configured
  have hstored := hc.stored_valueOf "baseId"
  rw [ensureActive, ends_bind, ends_lift_ok hc.active_eq]
  split
  case isTrue =>
    exact (ends_pure o.config).mpr ⟨_, _, ⟨h, hc, rfl, rfl, List.Subset.refl _⟩, .inl rfl⟩
  case isFalse htruthy =>
    obtain ⟨id, hid⟩ : ∃ id, valueOf o.list "baseId" = .str id := by
      rcases h.text with hnull | hid
      · rw [hnull] at htruthy
        exact absurd rfl htruthy
      · exact hid
    rw [hid] at hstored ⊢
    rw [ends_bind]
    refine (h.ends_known (.inl rfl)).imp_ok ?_
    rintro _ w1 ⟨heq, h, -⟩
    rw [heq, ends_bind, ends_lift_ok (anyM_eq_ok (h.listing.hasId_eq id))]
    split
    case isTrue =>
      exact (ends_pure o.config).mpr ⟨_, _, ⟨h, hc, rfl, rfl, List.Subset.refl _⟩, .inl rfl⟩
    case isFalse hnone =>
      rw [ends_bind]
      refine (h.ends_nameOf hstored).imp ?_ fun _ _ h => h
      rintro name w2 ⟨hname, h⟩
      have hnew := h.listing.append (notMem_of_not_any hnone) (stored_str_iff.mp hstored) hname
      refine (h.ends_keepBases hc hnew).imp ?_ fun _ _ h => h
      rintro _ w3 ⟨rfl, h, hfile⟩
      refine ⟨_, _, ⟨h, hc.withoutSetting_configured "bases", others_filter (by decide), ?_, ?_⟩,
        .inr hfile⟩
      · exact valueOf_filter (by decide)
      · rw [map_append]
        exact subset_append_left _ _

end

/-! ### Operations -/

/-- What an operation may do to the settings and the list: the other settings stay, and an active
base that is listed stays so. -/
structure Advances (list bases list' bases' : List Value) : Prop where
  others : others list' = others list
  listed : valueOf list "baseId" ∈ bases.map idOf → valueOf list' "baseId" ∈ bases'.map idOf

def Done (o : Opening) (w : Workspace) : Prop :=
  ∃ config list bases, State w config list bases ∧ Advances o.list o.bases list bases

structure Unfinished (o : Opening) (w : Workspace) : Prop where
  done : Done o w
  file : configContent w = configContent o.start

/-- The rest of an operation that keeps the state in order. -/
def Keeps {α : Type} (o : Opening) (w : Workspace) (action : Run α) : Prop :=
  Ends w action (fun _ w' => Done o w') fun _ w' => Unfinished o w'

section

variable {o : Opening} {w w' : Workspace} {c : Value} {list' bases' : List Value} {α : Type}

theorem Midway.unfinished (h : Midway o bases' w) (hkept : valueOf o.list "baseId" ∈
    o.bases.map idOf → valueOf o.list "baseId" ∈ bases'.map idOf) : Unfinished o w :=
  ⟨⟨_, _, bases', h.toState, rfl, hkept⟩, h.file⟩

theorem Done.keeps_say (h : Done o w) (line) : Keeps o w (say line) := by
  obtain ⟨config, list, bases, hstate, hadvances⟩ := h
  exact ⟨config, list, bases, hstate.of_sameFiles ⟨rfl, rfl, rfl, rfl⟩, hadvances⟩

theorem Done.keeps_say_pure (h : Done o w) (line) (a : α) :
    Keeps o w (do
      say line
      return a) := by
  rw [Keeps, ends_bind]
  exact h.keeps_say line

attribute [local irreducible] Ends in
theorem Midway.keeps_prepared (h : Midway o o.bases w) {next : Value → List Value → Run α}
    (hnext : ∀ c list' bases' w', Ready o c list' bases' w' →
      (bases' ≠ [] → storedList w' = .ok (some bases')) → Keeps o w' (next c bases')) :
    Keeps o w (do
      let config ← loadConfig
      let config ← ensureActive config
      let bases ← known (pure config)
      next config bases) := by
  rw [Keeps, ends_bind]
  refine h.ends_loadConfig.imp_ok ?_
  rintro _ w1 ⟨heq, h⟩
  rw [heq, ends_bind]
  refine h.ends_ensureActive.imp ?_ fun f w' h => h.unfinished id
  rintro c w2 ⟨list', bases', hready, hknown⟩
  rw [ends_bind]
  refine (hready.midway.ends_known hknown).imp_ok ?_
  rintro found w3 ⟨hfound, hmidway, hfile⟩
  subst hfound
  exact hnext c list' found w3 { hready with midway := hmidway } hfile

theorem Ready.unfinished (h : Ready o c list' bases' w) : Unfinished o w :=
  h.midway.unfinished fun hmem => h.kept hmem

theorem Ready.of_quiet (h : Ready o c list' bases' w) (hsame : Quiet w w') :
    Ready o c list' bases' w' :=
  { h with midway := h.midway.of_quiet hsame }

attribute [local irreducible] Ends in
/-- How the operations end that change the list: first the list is written, then the
configuration. -/
theorem Ready.keeps_kept (h : Ready o c list' bases' w)
    (hlisting : Listing bases'') (hkept : valueOf o.list "baseId" ∈ bases'.map idOf →
      valueOf o.list "baseId" ∈ bases''.map idOf)
    {next : Run α} (hnext : ∀ w', Done o w' → Keeps o w' next) :
    Keeps o w (do
      let config ← keepBases c bases''
      saveConfig config
      next) := by
  rw [Keeps, ends_bind]
  refine (h.midway.ends_keepBases h.configured hlisting).imp ?_ fun f w' hmidway =>
    hmidway.unfinished fun hmem => h.kept hmem
  rintro _ w1 ⟨rfl, hmidway, hfile⟩
  have hactive : valueOf (list'.filter fun s => !named "bases" s) "baseId" =
      valueOf o.list "baseId" := (valueOf_filter (by decide)).trans h.active
  have htext : ActiveText (list'.filter fun s => !named "bases" s) := by
    rw [ActiveText, hactive]
    exact h.midway.text
  rw [ends_bind]
  refine (hmidway.ends_saveConfig hfile (h.configured.withoutSetting_configured "bases")
    htext).imp ?_ fun f w' hmidway => hmidway.unfinished fun hmem => hkept (h.kept hmem)
  intro _ w2 hstate
  refine hnext w2 ⟨_, _, _, hstate, ?_, ?_⟩
  · rw [others_filter (by decide), h.others]
  · rw [hactive]
    exact fun hmem => hkept (h.kept hmem)

theorem member_name_of_activated (h : activated c base = .ok c') :
    ∃ name, base.member "name" = .ok name := by
  obtain ⟨id, -, h⟩ := bind_eq_ok_iff.mp h
  obtain ⟨c1, -, h⟩ := bind_eq_ok_iff.mp h
  obtain ⟨name, hname, -⟩ := bind_eq_ok_iff.mp h
  exact ⟨name, hname⟩

theorem Midway.keeps_sync (h : Midway o o.bases w) : Keeps o w sync := by
  rw [Keeps, sync, ends_bind]
  refine h.ends_loadConfig.imp_ok ?_
  rintro _ w1 ⟨heq, h⟩
  rw [heq, ends_bind]
  refine h.ends_ensureActive.imp ?_ fun f w' h => h.unfinished id
  rintro c w2 ⟨list', bases', hready, -⟩
  exact hready.unfinished.done.keeps_say _

/-- **Adding a base keeps the list and the configuration in order.** -/
theorem Midway.keeps_add (h : Midway o o.bases w) {id name}
    (hid : Unpaired id.toList) (hname : Stored name) : Keeps o w (add (.str id) name) := by
  refine h.keeps_prepared ?_
  intro c list' bases' w1 hready _
  have hlisting := hready.midway.listing
  rw [Keeps, ends_bind, ends_lift_ok (findM?_eq_ok (hlisting.hasId_eq id))]
  cases hfound : bases'.find? fun b => (idOf b).equal (.str id) with
  | none =>
    have hnew : .str id ∉ bases'.map idOf := by
      refine notMem_of_not_any ?_
      simpa using hfound
    refine hready.keeps_kept (hlisting.append hnew hid hname) ?_ fun w2 hdone =>
      hdone.keeps_say_pure _ _
    intro hmem
    rw [map_append]
    exact mem_append_left _ hmem
  | some base =>
    rw [ends_bind, ends_lift]
    refine ⟨fun old hold => ?_, fun f _ => hready.unfinished⟩
    split
    case isTrue => exact hready.unfinished.done.keeps_say_pure _ _
    case isFalse =>
      obtain ⟨bases'', hrename, hlisting', hids⟩ := hlisting.renameFirst_eq id hname
      rw [ends_bind, ends_lift_ok hrename]
      exact hready.keeps_kept hlisting' (fun hmem => hids ▸ hmem) fun w2 hdone =>
        hdone.keeps_say_pure _ _

/-- **Selecting a base keeps the list and the configuration in order.** -/
theorem Midway.keeps_select (h : Midway o o.bases w) (id) : Keeps o w (select (.str id)) := by
  refine h.keeps_prepared ?_
  intro c list' bases' w1 hready hfile
  have hlisting := hready.midway.listing
  rw [Keeps, ends_bind, ends_lift_ok (findM?_eq_ok (hlisting.hasId_eq id))]
  cases hfound : bases'.find? fun b => (idOf b).equal (.str id) with
  | none => exact hready.unfinished
  | some base =>
    have hbase := mem_of_find?_eq_some hfound
    obtain ⟨id', hid⟩ := hlisting.named base hbase
    rw [ends_bind, ends_lift]
    refine ⟨fun c' hc' => ?_, fun f _ => hready.unfinished⟩
    obtain ⟨name, hname⟩ := member_name_of_activated hc'
    obtain ⟨c'', hactivated, hconfigured⟩ :=
      hready.configured.activated_eq hid hname (hlisting.stored base hbase)
    obtain rfl : c'' = c' := Except.ok.inj (hactivated.symm.trans hc')
    have hactive : valueOf (assigned "project-name" name (assigned "baseId" (.str id') list'))
        "baseId" = .str id' := by
      rw [valueOf_assigned, if_neg (by decide), valueOf_assigned, if_pos rfl]
    rw [ends_bind]
    refine (hready.midway.ends_saveConfig (hfile (ne_nil_of_mem hbase)) hconfigured
      (.inr ⟨id', hactive⟩)).imp ?_ fun f w' hmidway =>
        hmidway.unfinished fun hmem => hready.kept hmem
    intro _ w2 hstate
    have hdone : Done o w2 := by
      refine ⟨_, _, _, hstate, ?_, fun _ => ?_⟩
      · rw [others_assigned (by decide), others_assigned (by decide), hready.others]
      · rw [hactive, ← idOf_of_member hid]
        exact mem_map_of_mem hbase
    exact hdone.keeps_say_pure _ _

theorem ends_printBase (id base) :
    Ends w (printBase id base) (fun _ w' => Quiet w w') fun _ w' => Quiet w w' := by
  rw [printBase, ends_bind, ends_lift]
  refine ⟨fun id' _ => ?_, fun _ _ => .refl w⟩
  rw [ends_bind, ends_lift]
  refine ⟨fun name _ => ?_, fun _ _ => .refl w⟩
  exact ⟨⟨rfl, rfl, rfl, rfl⟩, rfl, fun _ hr => hr⟩

theorem ends_printBases (id) (numbered : List (Value × Nat)) :
    Ends w (numbered.forM (printBase id)) (fun _ w' => Quiet w w') fun _ w' => Quiet w w' := by
  induction numbered generalizing w with
  | nil => exact .refl w
  | cons base numbered ih =>
    change Ends w (printBase id base >>= fun _ => numbered.forM (printBase id)) _ _
    rw [ends_bind]
    refine (ends_printBase id base).imp (fun _ w' hsame => ?_) fun _ _ hsame => hsame
    exact ih.imp (fun _ _ hsame' => hsame.trans hsame') fun _ _ hsame' => hsame.trans hsame'

theorem Midway.keeps_list (h : Midway o o.bases w) : Keeps o w Bases.list := by
  refine h.keeps_prepared ?_
  intro c list' bases' w1 hready _
  rw [Keeps, ends_bind, ends_lift_ok hready.configured.active_eq, ends_bind]
  refine (quiet_say _).imp (fun _ w2 hsame => ?_) fun _ _ hsame => (hready.of_quiet hsame).unfinished
  replace hready := hready.of_quiet hsame
  rw [ends_bind]
  refine (ends_printBases _ _).imp (fun _ w3 hsame => ?_) fun _ _ hsame =>
    (hready.of_quiet hsame).unfinished
  have hdone := (hready.of_quiet hsame).unfinished.done
  split
  · exact hdone.keeps_say_pure _ _
  · exact hdone

attribute [local irreducible] Ends in
/-- **Removing a base keeps the list and the configuration in order.** -/
theorem Midway.keeps_remove (h : Midway o o.bases w) (id) : Keeps o w (remove (.str id)) := by
  rw [Keeps, remove, ends_bind]
  refine h.ends_loadConfig.imp_ok ?_
  rintro _ w1 ⟨heq, h⟩
  rw [heq, ends_bind]
  refine (h.ends_known (.inl rfl)).imp_ok ?_
  rintro _ w2 ⟨heq, h, -⟩
  rw [heq]
  rw [ends_bind, ends_lift_ok h.configured.active_eq]
  have hready : Ready o o.config o.list o.bases w2 :=
    ⟨h, h.configured, rfl, rfl, List.Subset.refl _⟩
  split
  case isTrue => exact (ends_throw _).mpr hready.unfinished
  case isFalse hother =>
    have hleft : o.bases.filterM (fun b => do return !(← hasId (.str id) b)) =
        .ok (o.bases.filter fun b => !(idOf b).equal (.str id)) := by
      refine filterM_eq_ok fun b hb => ?_
      rw [h.listing.hasId_eq id b hb]
      rfl
    rw [ends_bind, ends_lift_ok hleft]
    split
    case isTrue => exact hready.unfinished.done.keeps_say _
    case isFalse =>
      refine hready.keeps_kept (h.listing.filter _) ?_ fun w3 hdone => hdone.keeps_say _
      intro hmem
      obtain ⟨b, hb, hid⟩ := mem_map.mp hmem
      refine mem_map.mpr ⟨b, mem_filter.mpr ⟨hb, ?_⟩, hid⟩
      rw [Bool.not_eq_true', Bool.eq_false_iff]
      intro hequal
      rw [← hid, Value.equal_str_iff.mp hequal] at hother
      exact hother (Value.equal_str_iff.mpr rfl)

end

/-! ### Sequences of operations -/

inductive Operation where
  | list
  | add (id : String) (name : Value)
  | select (id : String)
  | remove (id : String)
  | sync

def Operation.action : Operation → Run Unit
  | .list => do let _ ← Bases.list
  | .add id name => do let _ ← Bases.add (.str id) name
  | .select id => do let _ ← Bases.select (.str id)
  | .remove id => Bases.remove (.str id)
  | .sync => Bases.sync

/-- An operation and what the services answer while it runs. -/
structure Step where
  operation : Operation
  services : Services

def Step.perform (s : Step) (w : Workspace) : Except Fault Unit × Workspace :=
  { w with services := s.services }.perform s.operation.action

/-- The workspace after operations, whether they failed or not. -/
def performAll (w : Workspace) (steps : List Step) : Workspace :=
  steps.foldl (fun w s => (s.perform w).2) w

def Operation.Expressible : Operation → Prop
  | .add id name => Unpaired id.toList ∧ Stored name
  | _ => True

/-- An operation that can be asked for, with services that leave the files alone. -/
structure Step.Valid (s : Step) : Prop where
  expressible : s.operation.Expressible
  honest : Honest s.services

section

variable {w w' : Workspace} {config : Value} {list bases : List Value}

theorem Midway.keeps_action {o} (h : Midway o o.bases w) {operation : Operation}
    (hoperation : operation.Expressible) : Keeps o w operation.action := by
  have hdrop {α : Type} {action : Run α} (hkeeps : Keeps o w action) :
      Keeps o w (do let _ ← action) := by
    rw [Keeps, ends_bind]
    exact hkeeps
  cases operation with
  | list => exact hdrop h.keeps_list
  | add id name => exact hdrop (h.keeps_add hoperation.1 hoperation.2)
  | select id => exact hdrop (h.keeps_select id)
  | remove id => exact h.keeps_remove id
  | sync => exact h.keeps_sync

/-- **One operation** keeps the state in order, and leaves the configuration when it fails. -/
theorem State.step (h : State w config list bases) {s : Step} (hs : s.Valid) :
    (∃ config' list' bases', State (s.perform w).2 config' list' bases' ∧
      Advances list bases list' bases') ∧
      ∀ f w', s.perform w = (.error f, w') → configContent w' = configContent w := by
  have hserved : State { w with services := s.services } config list bases :=
    h.of_sameFiles ⟨rfl, rfl, rfl, rfl⟩
  have hmidway : Midway ⟨{ w with services := s.services }, config, list, bases⟩ bases
      { w with services := s.services } := ⟨hserved, rfl, hs.honest, rfl, fun _ hr => hr⟩
  have hends := hmidway.keeps_action hs.expressible
  rw [Step.perform]
  rw [Keeps, Ends] at hends
  split at hends
  case h_1 heq =>
    rw [heq]
    exact ⟨hends, fun f w' hw' => by cases hw'⟩
  case h_2 heq =>
    rw [heq]
    refine ⟨hends.done, fun f w' hw' => ?_⟩
    cases hw'
    exact hends.file

theorem Advances.trans
    (h : Advances list bases list' bases') (h' : Advances list' bases' list'' bases'') :
    Advances list bases list'' bases'' :=
  ⟨h'.others.trans h.others, fun hmem => h'.listed (h.listed hmem)⟩

/-- **Any number of operations** keep the state in order. -/
theorem State.run (h : State w config list bases)
    (hsteps : ∀ s ∈ steps, s.Valid) : ∃ config' list' bases',
      State (performAll w steps) config' list' bases' ∧ Advances list bases list' bases' := by
  induction steps generalizing w config list bases with
  | nil => exact ⟨config, list, bases, h, rfl, id⟩
  | cons s steps ih =>
    obtain ⟨config1, list1, bases1, hstate, hadvances⟩ := (h.step (hsteps s (.head _))).1
    obtain ⟨config2, list2, bases2, hrun, hadvances'⟩ :=
      ih hstate fun t ht => hsteps t (mem_cons_of_mem s ht)
    exact ⟨config2, list2, bases2, hrun, hadvances.trans hadvances'⟩

end

end Rulebook.Bases
