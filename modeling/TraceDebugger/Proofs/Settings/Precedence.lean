/-
Saved settings under an environment.

What is saved is loaded again, in any format that reads the sections that it writes.  Where the
environment sets a variable, its value comes before the one that was saved, and every other setting
is as it was saved.

* `named_toSection` — the settings make a section with names of its own;
* `find?_savedEntries` — the value that is saved for a setting;
* `revise_savedEntries` — the draft of the values that are given;
* `load_save` — the main result.
-/
import TraceDebugger.Proofs.Settings.Outcomes
import TraceDebugger.Proofs.Yaml.Sections

namespace TraceDebugger.Settings

open Yaml (Scalar Simple)

variable {format : Yaml.Format} {settings : Settings} {environment folder : List (String × String)}
  {path : Option String}

/-- The level exists, the depth is not negative, and no switch is null. -/
structure WellTyped (settings : Settings) : Prop where
  valid : settings.Valid
  useColors : settings.useColors.isSome
  checksumAddresses : settings.checksumAddresses.isSome

/-- A setting takes the text of a variable. -/
def Takes (text : String) : SettingName → Prop
  | .logLevel => (levelOf? text).isSome
  | .logFile => True
  | .useColors | .checksumAddresses => ∃ b, switch? (.str text) = some b
  | .initialFunctionDepth => ∃ n, number? (.str text) = some n ∧ 0 ≤ n

/-- Every variable that is set holds a text that its setting takes. -/
def Taken (environment : List (String × String)) : Prop :=
  ∀ name text, override? environment name = some text → Takes text name

/-- The settings with those of the environment in their place. -/
def overruled (settings : Settings) (environment : List (String × String)) : Settings where
  logLevel := (override? environment .logLevel).getD settings.logLevel
  logFile := (override? environment .logFile).or settings.logFile
  useColors := (override? environment .useColors).elim settings.useColors fun text =>
    switch? (.str text)
  checksumAddresses := (override? environment .checksumAddresses).elim settings.checksumAddresses
    fun text => switch? (.str text)
  initialFunctionDepth := ((override? environment .initialFunctionDepth).bind fun text =>
    number? (.str text)).getD settings.initialFunctionDepth

theorem overruled_of_no_override (settings : Settings)
    (h : ∀ name, override? environment name = none) :
    settings.overruled environment = settings := by
  simp only [overruled, h]
  rfl

/-! ### What is saved -/

/-- The value that is saved for a setting. -/
def saved (settings : Settings) : SettingName → Simple
  | .logLevel => .str settings.logLevel
  | .logFile => orNull .str settings.logFile
  | .useColors => orNull .bool settings.useColors
  | .checksumAddresses => orNull .bool settings.checksumAddresses
  | .initialFunctionDepth => .int settings.initialFunctionDepth

/-- The entries of the section that is saved. -/
def savedEntries (settings : Settings) : List (Scalar × Yaml) := settings.toSection.mapping

/-- The settings make a section with names of its own. -/
theorem named_toSection (settings : Settings) : settings.toSection.Named := by
  have hkey : ∀ name : SettingName, Yaml.IsKey name.text.toList := by
    intro name
    cases name <;> exact ⟨.of_all (by decide) (by decide), rfl⟩
  have hsection : Yaml.IsKey sectionName.toList := ⟨.of_all (by decide) (by decide), rfl⟩
  refine ⟨hsection, ?_, ?_, List.cons_ne_nil _ _⟩
  · simp only [toSection, List.forall_mem_cons]
    exact ⟨hkey _, hkey _, hkey _, hkey _, hkey _, nofun⟩
  · show (SettingName.all.map SettingName.text).Nodup
    decide

/-- Of the values for some names each is found under its own. -/
theorem find?_map_names (value : SettingName → Yaml) {name : SettingName} {names : List SettingName}
    (h : name ∈ names) :
    Yaml.find? (.str name.text) (names.map fun other => (.str other.text, value other))
      = some (value name) := by
  induction names with
  | nil => cases h
  | cons first names ih =>
    rw [List.map_cons, find?_text_cons]
    split
    case isTrue heq => rw [heq]
    case isFalse hne => exact ih ((List.mem_cons.mp h).resolve_left hne)

theorem find?_savedEntries (settings : Settings) (name : SettingName) :
    Yaml.find? (.str name.text) settings.savedEntries
      = some (.scalar (settings.saved name).scalar) := by
  have hentries : settings.savedEntries = SettingName.all.map fun other =>
      (.str other.text, .scalar (settings.saved other).scalar) := rfl
  rw [hentries]
  exact find?_map_names (fun other => .scalar (settings.saved other).scalar) name.mem_all

theorem entriesOfDocument_toDocument (file : String) (settings : Settings) :
    entriesOfDocument file settings.toSection.document = .ok settings.savedEntries := by
  rfl

theorem given?_savedEntries (settings : Settings) (environment : List (String × String))
    (name : SettingName) :
    given? environment settings.savedEntries name
      = some (((override? environment name).map Yaml.str).getD
        (.scalar (settings.saved name).scalar)) := by
  rw [given?, find?_savedEntries]
  cases override? environment name <;> rfl

/-- A value that is saved suits its setting. -/
theorem suits_saved (h : settings.WellTyped) (name : SettingName) :
    Suits name (.scalar (settings.saved name).scalar) := by
  have hswitch : ∀ {x : Option Bool}, x.isSome →
      ∃ b, switch? (.scalar (orNull Simple.bool x).scalar) = some b := by
    intro x hx
    obtain ⟨b, rfl⟩ := Option.isSome_iff_exists.mp hx
    exact ⟨b, rfl⟩
  refine .inr ?_
  cases name with
  | logLevel => trivial
  | logFile => trivial
  | useColors => exact hswitch h.useColors
  | checksumAddresses => exact hswitch h.checksumAddresses
  | initialFunctionDepth => exact ⟨settings.initialFunctionDepth, rfl⟩

/-- A text that a setting takes suits it. -/
theorem Takes.suits {text : String} {name : SettingName} (h : Takes text name) :
    Suits name (.str text) := by
  refine .inr ?_
  cases name with
  | logLevel => trivial
  | logFile => trivial
  | useColors => exact h
  | checksumAddresses => exact h
  | initialFunctionDepth =>
    obtain ⟨n, hn, -⟩ := h
    exact ⟨n, hn⟩

/-- Every value that is saved or set suits its setting. -/
theorem suited_savedEntries (h : settings.WellTyped) (htaken : Taken environment) :
    Suited environment settings.savedEntries where
  known := by
    simp only [AllKnown, savedEntries, Yaml.Section.mapping, toSection, List.map_cons,
      List.forall_mem_cons]
    exact ⟨⟨_, rfl⟩, ⟨_, rfl⟩, ⟨_, rfl⟩, ⟨_, rfl⟩, ⟨_, rfl⟩, List.forall_mem_nil _⟩
  suits name value hgiven := by
    rw [given?_savedEntries] at hgiven
    obtain rfl := Option.some.inj hgiven
    cases hover : override? environment name with
    | none => exact suits_saved h name
    | some text => exact (htaken name text hover).suits

/-! ### What is loaded -/

/-- The draft of the values that are given holds what is overruled and what was saved. -/
theorem revise_savedEntries (htaken : Taken environment) :
    Draft.revise {} (given? environment settings.savedEntries) = {
      logLevel := some (settings.overruled environment).logLevel
      logFile := (settings.overruled environment).logFile
      useColors := (settings.overruled environment).useColors
      checksumAddresses := (settings.overruled environment).checksumAddresses
      initialFunctionDepth := some (settings.overruled environment).initialFunctionDepth } := by
  -- both switches go one way: a text of the environment is read, and otherwise the saved one stands
  have hswitch : ∀ (name : SettingName) (x : Option Bool), settings.saved name = orNull .bool x →
      switchOf (((override? environment name).map Yaml.str).getD
        (.scalar (settings.saved name).scalar))
        = (override? environment name).elim x fun text => switch? (.str text) := by
    intro name x hsaved
    rw [hsaved]
    cases override? environment name with
    | none => cases x <;> rfl
    | some text => simp [switchOf, Yaml.str]
  simp only [Draft.revise, overruled, given?_savedEntries, Option.elim_some, Draft.mk.injEq]
  refine ⟨?_, ?_, hswitch _ _ rfl, hswitch _ _ rfl, ?_⟩
  · cases override? environment .logLevel <;> rfl
  · cases override? environment .logFile with
    | none =>
      rw [saved]
      cases settings.logFile <;> rfl
    | some text => rfl
  · cases hover : override? environment .initialFunctionDepth with
    | none => rfl
    | some text =>
      obtain ⟨n, hn, -⟩ := htaken _ _ hover
      rw [Option.bind_some, hn]
      exact hn

theorem valid_overruled (h : settings.Valid) (htaken : Taken environment) :
    (settings.overruled environment).Valid := by
  rw [Valid, overruled]
  refine ⟨?_, ?_⟩
  · cases hover : override? environment .logLevel with
    | none => exact h.1
    | some text => exact htaken _ _ hover
  · cases hover : override? environment .initialFunctionDepth with
    | none => exact h.2
    | some text =>
      obtain ⟨n, hn, hnonneg⟩ := htaken _ _ hover
      rw [Option.bind_some, hn]
      exact hnonneg

/-- No value that is saved or set for the depth is infinite. -/
theorem finiteDepth_savedEntries (settings : Settings) (environment : List (String × String)) :
    FiniteDepth (given? environment settings.savedEntries) := by
  refine finiteDepth_given? environment fun value hvalue => ?_
  obtain rfl := Option.some.inj ((find?_savedEntries settings _).symm.trans hvalue)
  rintro ⟨x, hx, -⟩
  cases hx

/-- **What is saved is loaded again, and the environment comes before it**, in every format that
reads the sections that it writes. -/
theorem load_save (hformat : format.ReadInvertsWrite) (h : settings.WellTyped)
    (htaken : Taken environment) {name : String}
    (hfile : (folder.find? fun entry => plainPath entry.1 == fileOf path)
      = some (name, settings.save format)) :
    load format folder path environment = .ok (settings.overruled environment) ∧
      ((∀ name, override? environment name = none) →
        load format folder path environment = .ok settings) := by
  have hnamed := named_toSection settings
  have hkeys : Yaml.DistinctKeys settings.savedEntries := Yaml.distinctKeys_mapping hnamed.distinct
  -- the format reads the section back, whose keys are distinct as those of the settings are
  have hdocumented : Documented format folder path settings.toSection.document := {
    reads := ⟨name, settings.save format, hfile, hformat _ hnamed⟩
    proper := by
      refine .map (List.pairwise_singleton _ _) (List.forall_mem_singleton.mpr (.map hkeys ?_))
      exact List.forall_mem_map.mpr fun entry _ => .scalar entry.2.scalar }
  have hload : load format folder path environment = .ok (settings.overruled environment) := by
    have hsuited := suited_savedEntries h htaken
    have hvalid := valid_overruled h.valid htaken
    rw [load_eq_ofDocument hdocumented, ofDocument]
    simp only [entriesOfDocument_toDocument]
    rw [bind_of_eq_ok rfl]
    -- nothing that is saved or taken from the environment fails to suit its setting
    rcases ofEntries_cases hkeys (finiteDepth_savedEntries settings environment)
        (some (fileOf path)) with ⟨htexts, -⟩ | ⟨-, hnot, -⟩ | ⟨-, -, heq⟩
    · exact absurd hsuited.known.allTexts htexts
    · exact absurd hsuited hnot
    · rw [revise_savedEntries htaken] at heq
      exact heq.trans (ofDraft_eq_ok rfl hvalid.1 rfl hvalid.2)
  refine ⟨hload, fun hnone => ?_⟩
  rw [hload, overruled_of_no_override settings hnone]

/-- Settings with a log file whose name has to be quoted. -/
def quotedSettings : Settings where
  logLevel := "debug"
  logFile := some "it's: #1"
  checksumAddresses := some true
  initialFunctionDepth := 3

/-- An environment that sets a level and a switch. -/
def quietEnvironment : List (String × String) :=
  [("SOLSTEP_LOG_LEVEL", "Warning"), ("SOLSTEP_USE_COLORS", " Off ")]

/-- The level and the switch come from the environment, and the rest is as it was saved. -/
theorem load_quotedSettings :
    Yaml.blockFormat.ReadInvertsWrite ∧ quotedSettings.WellTyped ∧ Taken quietEnvironment ∧
      load Yaml.blockFormat [("solstep.config.yaml", quotedSettings.save Yaml.blockFormat)] none
        quietEnvironment = .ok {
          logLevel := "Warning", logFile := some "it's: #1", useColors := some false
          checksumAddresses := some true, initialFunctionDepth := 3 } := by
  have hformat := Yaml.blockFormat_readInvertsWrite
  have hwellTyped : quotedSettings.WellTyped := ⟨⟨by decide, by decide⟩, rfl, rfl⟩
  -- the environment overrules two of the settings, each by a text that suits it
  have htaken : Taken quietEnvironment := by
    intro name text hover
    cases name with
    | logLevel =>
      obtain rfl := Option.some.inj hover
      show (levelOf? "Warning").isSome
      decide
    | logFile => trivial
    | useColors =>
      obtain rfl := Option.some.inj hover
      exact ⟨false, rfl⟩
    | checksumAddresses => cases hover
    | initialFunctionDepth => cases hover
  exact ⟨hformat, hwellTyped, htaken, (load_save hformat hwellTyped htaken rfl).1⟩

end TraceDebugger.Settings
