/-
How the loading of settings ends.

A document that is loaded ends in settings, or in a fault of settings, or in a fault of a value that
is not reported as one of settings.  The last happens in three cases: the section of the debugger
holds no entries, a key is no text, or the values suit their settings but one that is needed is
null.

* `reads_entriesOf` — a section holds entries, or its fault is passed on;
* `unknownFault?_cases` — the fault of keys that name no setting;
* `ofDraft_cases` — the settings of a draft, or its fault;
* `escapes_iff` — when the fault of a value escapes from entries;
* `load_outcomes` — the main result;
* `nullDepth_unreported` — a document whose fault is passed on.
-/
import TraceDebugger.Proofs.Settings.Drafts
import TraceDebugger.Yaml.Block

namespace TraceDebugger.Settings

open Yaml (Scalar)

variable {entries : List (Scalar × Yaml)} {source : Option String}
  {environment folder : List (String × String)} {path : Option String} {document : Yaml}
  {format : Yaml.Format}

/-- An item is a key with its value. -/
def IsPair : Yaml → Prop
  | .list items => ∃ key value, items = [.scalar key, value]
  | .map entries => entries.length = 2
  | .scalar (.str text) => text.toList.length = 2
  | .scalar (.bytes content) => content.length = 2
  | .scalar _ => False

/-- A section holds entries: it is a mapping, a list of pairs, or an empty text or byte string. -/
def IsSection : Yaml → Prop
  | .map _ => True
  | .list items => ∀ item ∈ items, IsPair item
  | .scalar value => value = .str "" ∨ value = .bytes []

/-- Every key is a text. -/
def AllTexts (entries : List (Scalar × Yaml)) : Prop :=
  ∀ entry ∈ entries, ∃ text, entry.1 = .str text

/-- The file that is read. -/
def fileOf (path : Option String) : String :=
  plainPath ((path.filter (· != "")).getD defaultFile)

/-- A file is read, and it holds a document, in which every mapping has each of its keys once. -/
structure Documented (format : Yaml.Format) (folder : List (String × String)) (path : Option String)
    (document : Yaml) : Prop where
  reads : ∃ name text,
    (folder.find? fun entry => plainPath entry.1 == fileOf path) = some (name, text) ∧
    format.read text = .ok document
  proper : document.Proper

/-- The depth that a document gives is no infinity. -/
def GivesFiniteDepth (file : String) (document : Yaml) : Prop :=
  ∀ entries, entriesOfDocument file document = .ok entries →
    FiniteDepth fun name => Yaml.find? (.str name.text) entries

/-- Environment and entries give every setting a value that suits it, and no others. -/
structure Suited (environment : List (String × String)) (entries : List (Scalar × Yaml)) :
    Prop where
  known : AllKnown entries
  suits : ∀ name value, given? environment entries name = some value → Suits name value

/-- The level that is given exists; without one it is the level of the defaults. -/
def LevelKnown (given : Option Yaml) : Prop :=
  ∀ value, given = some value → ∃ level, textOf value = some level ∧ (levelOf? level).isSome

/-- The level that is given is null, or it exists and the depth that is given is null. -/
def Unfilled (given : SettingName → Option Yaml) : Prop :=
  given .logLevel = some .null ∨
    LevelKnown (given .logLevel) ∧ given .initialFunctionDepth = some .null

/-- The fault of a value ends the loading of a document. -/
inductive Escapes (file : String) (environment : List (String × String)) (document : Yaml) : Prop
  /-- The section of the debugger holds no entries. -/
  | part {entries : List (Scalar × Yaml)} {part : Yaml} (hdocument : document = .map entries)
    (hpart : Yaml.find? (.str sectionName) entries = some part) (h : ¬ IsSection part)
  /-- A key is no text. -/
  | key {entries : List (Scalar × Yaml)} (hentries : entriesOfDocument file document = .ok entries)
    (h : ¬ AllTexts entries)
  /-- All values suit their settings, but one that is needed is null. -/
  | unfilled {entries : List (Scalar × Yaml)}
    (hentries : entriesOfDocument file document = .ok entries)
    (hsuited : Suited environment entries) (h : Unfilled (given? environment entries))

/-- A fault is that of a value, and not of settings. -/
def IsPassedOn (fault : Fault) : Prop :=
  fault.kind.name = "TypeError" ∨ fault.kind.name = "ValueError" ∨
    fault.kind.name = "AttributeError"

/-- Settings are as they should be, save that a switch is null where null is given for it. -/
structure AsGiven (given : SettingName → Option Yaml) (settings : Settings) : Prop where
  valid : settings.Valid
  useColors : settings.useColors = none ↔ given .useColors = some .null
  checksumAddresses : settings.checksumAddresses = none ↔ given .checksumAddresses = some .null

/-! ### Sections -/

theorem reads_pairOf (index : ℕ) (item : Yaml) :
    Reads (IsPair item) IsPassedOn (pairOf index item) := by
  cases item with
  | list items =>
    rcases items with _ | ⟨first, _ | ⟨second, _ | ⟨third, rest⟩⟩⟩
    · exact .inr ⟨by simp [IsPair], _, rfl, .inr (.inl rfl)⟩
    · exact .inr ⟨by simp [IsPair], _, rfl, .inr (.inl rfl)⟩
    · cases first with
      | scalar key => exact .inl ⟨⟨key, second, rfl⟩, _, rfl⟩
      | list items => exact .inr ⟨by simp [IsPair], _, rfl, .inl rfl⟩
      | map entries => exact .inr ⟨by simp [IsPair], _, rfl, .inl rfl⟩
    · exact .inr ⟨by simp [IsPair], _, rfl, .inr (.inl rfl)⟩
  | map entries =>
    rcases entries with _ | ⟨⟨first, _⟩, _ | ⟨⟨second, _⟩, _ | ⟨third, rest⟩⟩⟩
    · exact .inr ⟨by simp [IsPair], _, rfl, .inr (.inl rfl)⟩
    · exact .inr ⟨by simp [IsPair], _, rfl, .inr (.inl rfl)⟩
    · exact .inl ⟨rfl, _, rfl⟩
    · exact .inr ⟨by simp [IsPair], _, rfl, .inr (.inl rfl)⟩
  | scalar value =>
    cases value with
    | str text =>
      rw [pairOf, IsPair]
      rcases text.toList with _ | ⟨first, _ | ⟨second, _ | ⟨third, rest⟩⟩⟩
      · exact .inr ⟨by simp, _, rfl, .inr (.inl rfl)⟩
      · exact .inr ⟨by simp, _, rfl, .inr (.inl rfl)⟩
      · exact .inl ⟨rfl, _, rfl⟩
      · exact .inr ⟨by simp, _, rfl, .inr (.inl rfl)⟩
    | bytes content =>
      rcases content with _ | ⟨first, _ | ⟨second, _ | ⟨third, rest⟩⟩⟩
      · exact .inr ⟨by simp [IsPair], _, rfl, .inr (.inl rfl)⟩
      · exact .inr ⟨by simp [IsPair], _, rfl, .inr (.inl rfl)⟩
      · exact .inl ⟨rfl, _, rfl⟩
      · exact .inr ⟨by simp [IsPair], _, rfl, .inr (.inl rfl)⟩
    | null | bool b | int n | fraction x | day d | moment m => exact .inr ⟨id, _, rfl, .inl rfl⟩

theorem reads_entriesOf (part : Yaml) : Reads (IsSection part) IsPassedOn (entriesOf part) := by
  cases part with
  | map entries => exact .inl ⟨trivial, _, rfl⟩
  | list items =>
    have hpairs : Reads (∀ place ∈ items.zipIdx, IsPair place.1) IsPassedOn
        (items.zipIdx.mapM fun (item, index) => pairOf index item) :=
      Reads.mapM fun place _ => reads_pairOf place.2 place.1
    -- the numbers of the items only go into the fault of one that is no pair
    have hitems : (∀ place ∈ items.zipIdx, IsPair place.1) ↔ ∀ item ∈ items, IsPair item := by
      rw [← List.forall_mem_map (f := Prod.fst) (P := IsPair), List.zipIdx_map_fst]
    rcases hpairs.congr hitems with ⟨hall, pairs, hok⟩ | ⟨hbad, fault, hfault, hpassed⟩
    · exact .inl ⟨hall, Yaml.ofEntries pairs, by rw [entriesOf, hok]; rfl⟩
    · exact .inr ⟨hbad, fault, by rw [entriesOf, hfault]; rfl, hpassed⟩
  | scalar value =>
    cases value with
    | str text =>
      by_cases htext : text = ""
      · exact .inl ⟨.inl (congrArg Scalar.str htext), [], by rw [entriesOf, if_pos htext]⟩
      · refine .inr ⟨by simpa [IsSection] using htext, .unfit (.notAPair 0 1), ?_, .inr (.inl rfl)⟩
        rw [entriesOf, if_neg htext]
    | bytes content =>
      cases content with
      | nil => exact .inl ⟨.inr rfl, [], rfl⟩
      | cons b rest => exact .inr ⟨by simp [IsSection], _, rfl, .inl rfl⟩
    | null | bool b | int n | fraction x | day d | moment m =>
      exact .inr ⟨by simp [IsSection], _, rfl, .inl rfl⟩

/-- The entries of a section have distinct keys. -/
theorem distinctKeys_entriesOf {part : Yaml} (h : part.Proper)
    (hentries : entriesOf part = .ok entries) :
    Yaml.DistinctKeys entries := by
  cases h with
  | map hkeys => exact Except.ok.inj hentries ▸ hkeys
  | list =>
    obtain ⟨pairs, -, rfl⟩ := exists_of_map_eq_ok hentries
    exact Yaml.distinctKeys_ofEntries pairs
  | scalar value =>
    cases value with
    | str text | bytes content =>
      rw [entriesOf] at hentries
      split at hentries
      · exact Except.ok.inj hentries ▸ .nil
      · cases hentries
    | null | bool b | int n | fraction x | day d | moment m => cases hentries

theorem entriesOfDocument_of_falsy (h : ¬ document.truthy = true) (file : String) :
    entriesOfDocument file document = .ok [] := by
  unfold entriesOfDocument
  exact if_neg h

theorem entriesOfDocument_map (h : (Yaml.map entries).truthy = true) (file : String) :
    entriesOfDocument file (.map entries)
      = entriesOf ((Yaml.find? (.str sectionName) entries).getD (.map entries)) := by
  unfold entriesOfDocument
  exact if_pos h

/-- A document gives entries, or it is no mapping, or its section holds none. -/
theorem entriesOfDocument_cases (h : document.Proper) (file : String) :
    (∃ entries, entriesOfDocument file document = .ok entries ∧ Yaml.DistinctKeys entries) ∨
    ((∀ entries, document ≠ .map entries) ∧
      entriesOfDocument file document = .error (.notAMapping file)) ∨
    ∃ entries part fault, document = .map entries ∧
      Yaml.find? (.str sectionName) entries = some part ∧ ¬ IsSection part ∧
      entriesOfDocument file document = .error fault ∧ IsPassedOn fault := by
  -- what is empty, zero or false counts as a document without entries
  by_cases htruthy : document.truthy = true
  swap
  · exact .inl ⟨[], entriesOfDocument_of_falsy htruthy file, .nil⟩
  cases h with
  | scalar value =>
    refine .inr (.inl ⟨nofun, ?_⟩)
    unfold entriesOfDocument
    exact if_pos htruthy
  | list =>
    refine .inr (.inl ⟨nofun, ?_⟩)
    unfold entriesOfDocument
    exact if_pos htruthy
  | @map entries hkeys hall =>
    rw [entriesOfDocument_map htruthy]
    cases hpart : Yaml.find? (.str sectionName) entries with
    | none => exact .inl ⟨entries, rfl, hkeys⟩
    | some part =>
      rw [Option.getD_some]
      obtain ⟨entry, hentry, hvalue⟩ := Yaml.exists_of_find? hpart
      -- the section is a value of the document, and so its keys are distinct as well
      have hproper : part.Proper := hvalue ▸ hall entry hentry
      rcases reads_entriesOf part with ⟨-, found, hok⟩ | ⟨hbad, fault, hfault, hpassed⟩
      · exact .inl ⟨found, hok, distinctKeys_entriesOf hproper hok⟩
      · exact .inr (.inr ⟨entries, part, fault, rfl, hpart, hbad, hfault, hpassed⟩)

/-! ### Keys -/

theorem kind_of_comparisonFault? {a b : Scalar} {fault : ValueFault}
    (h : comparisonFault? a b = some fault) : fault.kind = .wrongType := by
  unfold comparisonFault? at h
  split at h
  · cases h
  · cases h
  · cases h
  · split at h
    · cases h
    · exact Option.some.inj h ▸ rfl
  · exact Option.some.inj h ▸ rfl
  · exact Option.some.inj h ▸ rfl
  · split at h
    · cases h
    · exact Option.some.inj h ▸ rfl

theorem kind_of_sortingFault? {keys : List Scalar} {fault : ValueFault}
    (h : sortingFault? keys = some fault) : fault.kind = .wrongType := by
  induction keys with
  | nil => cases h
  | cons first rest ih =>
    cases rest with
    | nil => cases h
    | cons second rest =>
      rw [sortingFault?, Option.or_eq_some_iff] at h
      rcases h with h | ⟨-, h⟩
      · exact kind_of_comparisonFault? h
      · exact ih h

theorem sortingFault?_of_texts {keys : List Scalar} (h : ∀ key ∈ keys, ∃ text, key = .str text) :
    sortingFault? keys = none := by
  induction keys with
  | nil => rfl
  | cons first rest ih =>
    cases rest with
    | nil => rfl
    | cons second rest =>
      obtain ⟨text, rfl⟩ := h _ List.mem_cons_self
      obtain ⟨text', rfl⟩ := h _ (List.mem_cons_of_mem _ List.mem_cons_self)
      exact ih fun key hkey => h key (List.mem_cons_of_mem _ hkey)

theorem textless?_eq_none_iff (index : ℕ) (keys : List Scalar) :
    textless? index keys = none ↔ ∀ key ∈ keys, ∃ text, key = .str text := by
  induction keys generalizing index with
  | nil => simp [textless?]
  | cons key rest ih => cases key <;> simp [textless?, ih]

/-- A key that is no text names no setting. -/
theorem allTexts_iff : AllTexts entries ↔ ∀ key ∈ unknownKeys entries, ∃ text, key = .str text := by
  have hkey : ∀ key, (∃ text, key = Scalar.str text) ↔
      ((nameOf? key).isNone = true → ∃ text, key = Scalar.str text) := by
    intro key
    cases key <;> simp [nameOf?]
  simp only [AllTexts, unknownKeys, List.mem_filter, and_imp, List.forall_mem_map, ← hkey]

theorem AllKnown.allTexts (h : AllKnown entries) : AllTexts entries := fun entry hentry => by
  obtain ⟨name, hname⟩ := h entry hentry
  exact ⟨name.text, hname⟩

/-- The fault of keys that name no setting: of settings if they are texts. -/
theorem unknownFault?_cases (source : Option String) (entries : List (Scalar × Yaml)) :
    (AllKnown entries ∧ unknownFault? source (unknownKeys entries) = none) ∨
    (¬ AllKnown entries ∧ AllTexts entries ∧
      ∃ fault, unknownFault? source (unknownKeys entries) = some fault ∧ fault.kind = .settings) ∨
    ¬ AllTexts entries ∧
      ∃ fault, unknownFault? source (unknownKeys entries) = some fault ∧ IsPassedOn fault := by
  rw [← unknownKeys_eq_nil_iff, allTexts_iff]
  generalize unknownKeys entries = keys
  by_cases hnil : keys = []
  · exact .inl ⟨hnil, by rw [hnil]; rfl⟩
  have hempty : ¬ keys.isEmpty = true := by simpa using hnil
  -- the keys are sorted before they are joined, which does not change whether all are texts
  have hsorted : (∀ key ∈ keys.mergeSort atMost, ∃ text, key = Scalar.str text) ↔
      ∀ key ∈ keys, ∃ text, key = Scalar.str text := by
    simp only [List.mem_mergeSort]
  right
  cases htext : textless? 0 (keys.mergeSort atMost) with
  | none =>
    have htexts := hsorted.mp ((textless?_eq_none_iff 0 _).mp htext)
    refine .inl ⟨hnil, htexts,
      .unknownSettings ((keys.mergeSort atMost).filterMap textOf?) source, ?_, rfl⟩
    rw [unknownFault?, if_neg hempty, sortingFault?_of_texts htexts]
    simp only [htext]
  | some place =>
    have hnot : ¬ ∀ key ∈ keys, ∃ text, key = Scalar.str text := fun h => by
      rw [(textless?_eq_none_iff 0 _).mpr (hsorted.mpr h)] at htext
      cases htext
    refine .inr ⟨hnot, ?_⟩
    rw [unknownFault?, if_neg hempty]
    simp only [htext]
    cases hsorting : sortingFault? keys with
    | none => exact ⟨_, rfl, .inl rfl⟩
    | some fault =>
      -- if they cannot even be sorted, that is the fault; its kind is the same
      refine ⟨_, rfl, .inl ?_⟩
      show fault.kind.name = "TypeError"
      rw [kind_of_sortingFault? hsorting]
      rfl

/-! ### Values -/

theorem textOf_eq_none_iff {value : Yaml} : textOf value = none ↔ value = .null := by
  cases value with
  | scalar value => cases value <;> simp [textOf, Yaml.null]
  | list items => simp [textOf, Yaml.null]
  | map entries => simp [textOf, Yaml.null]

theorem switchOf_eq_none_iff {value : Yaml} (h : value = .null ∨ ∃ b, switch? value = some b) :
    switchOf value = none ↔ value = .null := by
  by_cases hnull : value = .null
  · simp [hnull, switchOf, Yaml.null]
  · have hne : value = .scalar .null → False := hnull
    obtain ⟨b, hb⟩ := h.resolve_left hnull
    simp [switchOf, hb, hnull]

theorem numberOf_eq_none_iff {value : Yaml} (h : value = .null ∨ ∃ n, number? value = some n) :
    numberOf value = none ↔ value = .null := by
  by_cases hnull : value = .null
  · simp [hnull, numberOf, Yaml.null]
  · have hne : value = .scalar .null → False := hnull
    obtain ⟨n, hn⟩ := h.resolve_left hnull
    simp [numberOf, hn, hnull]

/-- A value that may be given is null if null is given, and its default is not null. -/
theorem elim_eq_none_iff {α : Type} {given : Option Yaml} {read : Yaml → Option α} {x : α}
    (h : ∀ value, given = some value → (read value = none ↔ value = .null)) :
    given.elim (some x) read = none ↔ given = some .null := by
  cases given with
  | none => simp
  | some value => simpa using h value rfl

/-! ### Drafts -/

/-- The level of a draft exists. -/
def Draft.HasLevel (draft : Draft) : Prop :=
  ∃ level, draft.logLevel = some level ∧ (levelOf? level).isSome

/-- The level of a draft is null, or it exists and the depth is null. -/
def Draft.Unfilled (draft : Draft) : Prop :=
  draft.logLevel = none ∨ draft.HasLevel ∧ draft.initialFunctionDepth = none

/-- A draft makes settings, or it is reported, or its level or its depth is null. -/
theorem ofDraft_cases (draft : Draft) :
    (draft.Unfilled ∧ ∃ fault, ofDraft draft = .error fault ∧ IsPassedOn fault) ∨
    (¬ draft.Unfilled ∧ ∃ settings, ofDraft draft = .ok settings ∧
      settings.useColors = draft.useColors ∧
      settings.checksumAddresses = draft.checksumAddresses) ∨
    (¬ draft.Unfilled ∧ ∃ fault, ofDraft draft = .error fault ∧ fault.kind = .settings) := by
  -- the level is looked at before the depth, so a null level is the fault whatever the depth is
  cases hlevel : draft.logLevel with
  | none => exact .inl ⟨.inl hlevel, _, by rw [ofDraft, hlevel], .inr (.inr rfl)⟩
  | some level =>
    by_cases hknown : (levelOf? level).isSome = true
    swap
    · have hnone : (levelOf? level).isNone = true := by simpa using hknown
      refine .inr (.inr ⟨by simp [Draft.Unfilled, Draft.HasLevel, hlevel, hknown],
        .unknownLevel level, ?_, rfl⟩)
      simp only [ofDraft, hlevel, if_pos hnone]
    have hsome : ¬ (levelOf? level).isNone = true := by
      rw [Option.isNone_eq_false_iff.mpr hknown]
      exact Bool.false_ne_true
    cases hdepth : draft.initialFunctionDepth with
    | none =>
      refine .inl ⟨.inr ⟨⟨level, hlevel, hknown⟩, hdepth⟩,
        .unfit (.notOrdered Json.null.kindName (Json.int 0).kindName), ?_, .inl rfl⟩
      simp only [ofDraft, hlevel, hdepth, if_neg hsome]
    | some depth =>
      have hfilled : ¬ draft.Unfilled := by simp [Draft.Unfilled, hlevel, hdepth]
      by_cases hneg : depth < 0
      · refine .inr (.inr ⟨hfilled, .negativeDepth, ?_, rfl⟩)
        simp only [ofDraft, hlevel, hdepth, if_neg hsome, if_pos hneg]
      · exact .inr (.inl ⟨hfilled, _, ofDraft_eq_ok hlevel hknown hdepth (Int.not_lt.mp hneg),
          rfl, rfl⟩)

section Given

variable {given : SettingName → Option Yaml}
  (hsuits : ∀ name value, given name = some value → Suits name value)

include hsuits

/-- The draft is unfilled if the values that are given leave it so. -/
theorem unfilled_revise_iff : (Draft.revise {} given).Unfilled ↔ Unfilled given := by
  have hlevel : (Draft.revise {} given).HasLevel ↔ LevelKnown (given .logLevel) := by
    rw [Draft.HasLevel, Draft.revise]
    cases given .logLevel with
    | none =>
      have hinfo : (levelOf? "INFO").isSome := by decide
      simp [LevelKnown, hinfo]
    | some value => simp [LevelKnown]
  rw [Draft.Unfilled, hlevel, Unfilled]
  refine or_congr ?_ (and_congr_right fun _ => ?_)
  · exact elim_eq_none_iff fun value _ => textOf_eq_none_iff
  · exact elim_eq_none_iff fun value hvalue => numberOf_eq_none_iff (hsuits _ value hvalue)

/-- The settings of a draft have a switch that is null only where null is given for it. -/
theorem asGiven_of_ofDraft {settings : Settings}
    (hok : ofDraft (Draft.revise {} given) = .ok settings)
    (hcolors : settings.useColors = (Draft.revise {} given).useColors)
    (hchecksum : settings.checksumAddresses = (Draft.revise {} given).checksumAddresses) :
    AsGiven given settings where
  valid := valid_of_ofDraft hok
  useColors := by
    rw [hcolors]
    exact elim_eq_none_iff fun value hvalue => switchOf_eq_none_iff (hsuits _ value hvalue)
  checksumAddresses := by
    rw [hchecksum]
    exact elim_eq_none_iff fun value hvalue => switchOf_eq_none_iff (hsuits _ value hvalue)

end Given

/-- Entries that name settings and suit them are put into a draft; others end in a fault. -/
theorem ofEntries_cases (hkeys : Yaml.DistinctKeys entries)
    (hfinite : FiniteDepth (given? environment entries)) (source : Option String) :
    (¬ AllTexts entries ∧ ∃ fault,
      ofEntries source (withEnvironment environment entries) = .error fault ∧ IsPassedOn fault) ∨
    (AllTexts entries ∧ ¬ Suited environment entries ∧ ∃ fault,
      ofEntries source (withEnvironment environment entries) = .error fault ∧
        fault.kind = .settings) ∨
    (AllTexts entries ∧ Suited environment entries ∧
      ofEntries source (withEnvironment environment entries)
        = ofDraft (Draft.revise {} (given? environment entries))) := by
  -- the keys are looked at before any value, and the environment adds none that is unknown
  unfold ofEntries
  rw [unknownKeys_withEnvironment]
  rcases unknownFault?_cases source entries with ⟨hknown, hnone⟩ |
    ⟨hknown, htexts, fault, hfault, hkind⟩ |
    ⟨htexts, fault, hfault, hpassed⟩
  · have htexts : AllTexts entries := hknown.allTexts
    rw [hnone]
    rcases setAll_withEnvironment hkeys hknown hfinite source {} with ⟨hsuits, hok⟩ |
      ⟨⟨name, value, hgiven, hbad⟩, fault, hfault, hkind⟩
    · refine .inr (.inr ⟨htexts, ⟨hknown, hsuits⟩, ?_⟩)
      dsimp only
      rw [hok]
      rfl
    · refine .inr (.inl ⟨htexts, fun hsuited => hbad (hsuited.suits name value hgiven), fault, ?_,
        hkind⟩)
      dsimp only
      rw [hfault]
      rfl
  · exact .inr (.inl ⟨htexts, fun hsuited => hknown hsuited.known, fault, by rw [hfault], hkind⟩)
  · exact .inl ⟨htexts, fault, by rw [hfault], hpassed⟩

/-! ### Documents -/

/-- A section that holds no entries gives none. -/
theorem not_isSection_of_ok {file : String} {part : Yaml} {found : List (Scalar × Yaml)}
    (hpart : Yaml.find? (.str sectionName) entries = some part)
    (hok : entriesOfDocument file (.map entries) = .ok found) : IsSection part := by
  have htruthy : (Yaml.map entries).truthy = true := by
    cases entries with
    | nil => cases hpart
    | cons entry rest => rfl
  rw [entriesOfDocument_map htruthy, hpart, Option.getD_some] at hok
  rcases reads_entriesOf part with ⟨hsection, -⟩ | ⟨-, fault, hfault, -⟩
  · exact hsection
  · rw [hfault] at hok
    cases hok

/-- When a document that gives entries lets the fault of a value escape. -/
theorem escapes_iff {file : String} (hok : entriesOfDocument file document = .ok entries) :
    Escapes file environment document ↔
      ¬ AllTexts entries ∨ Suited environment entries ∧ Unfilled (given? environment entries) := by
  constructor
  · rintro (⟨rfl, hpart, hbad⟩ | ⟨hentries, htexts⟩ | ⟨hentries, hsuited, hunfilled⟩)
    · exact absurd (not_isSection_of_ok hpart hok) hbad
    · obtain rfl := Except.ok.inj (hok.symm.trans hentries)
      exact .inl htexts
    · obtain rfl := Except.ok.inj (hok.symm.trans hentries)
      exact .inr ⟨hsuited, hunfilled⟩
  · rintro (htexts | ⟨hsuited, hunfilled⟩)
    · exact .key hok htexts
    · exact .unfilled hok hsuited hunfilled

/-- A document that is no mapping is reported. -/
theorem not_escapes_of_no_mapping {file : String} (h : ∀ entries, document ≠ .map entries)
    (hfault : entriesOfDocument file document = .error (.notAMapping file)) :
    ¬ Escapes file environment document := by
  rintro (⟨rfl, -, -⟩ | ⟨hentries, -⟩ | ⟨hentries, -, -⟩)
  · exact h _ rfl
  · cases hfault.symm.trans hentries
  · cases hfault.symm.trans hentries

/-- Entries end in settings or in a fault, which is passed on in some cases. -/
theorem ofEntries_outcomes {file : String} (hok : entriesOfDocument file document = .ok entries)
    (hkeys : Yaml.DistinctKeys entries) (hfinite : FiniteDepth (given? environment entries))
    (source : Option String) :
    (Escapes file environment document ∧ ∃ fault,
      ofEntries source (withEnvironment environment entries) = .error fault ∧ IsPassedOn fault) ∨
    ¬ Escapes file environment document ∧
      ((∃ settings, ofEntries source (withEnvironment environment entries) = .ok settings ∧
          AsGiven (given? environment entries) settings) ∨
        ∃ fault, ofEntries source (withEnvironment environment entries) = .error fault ∧
          fault.kind = .settings) := by
  rw [escapes_iff hok]
  rcases ofEntries_cases hkeys hfinite source with ⟨htexts, hpassed⟩ |
    ⟨htexts, hsuited, hreported⟩ | ⟨htexts, hsuited, heq⟩
  · exact .inl ⟨.inl htexts, hpassed⟩
  · refine .inr ⟨?_, .inr hreported⟩
    rintro (hkey | ⟨hall, -⟩)
    · exact hkey htexts
    · exact hsuited hall
  · -- everything is in the draft
    have hunfilled : (¬ AllTexts entries ∨
        Suited environment entries ∧ Unfilled (given? environment entries)) ↔
          (Draft.revise {} (given? environment entries)).Unfilled := by
      rw [unfilled_revise_iff hsuited.suits]
      exact ⟨fun h => (h.resolve_left (not_not.mpr htexts)).2, fun h => .inr ⟨hsuited, h⟩⟩
    rw [hunfilled, heq]
    rcases ofDraft_cases (Draft.revise {} (given? environment entries)) with h |
      ⟨hfilled, settings, hok', hcolors, hchecksum⟩ | ⟨hfilled, hreported⟩
    · exact .inl h
    · exact .inr ⟨hfilled, .inl
        ⟨settings, hok', asGiven_of_ofDraft hsuited.suits hok' hcolors hchecksum⟩⟩
    · exact .inr ⟨hfilled, .inr hreported⟩

theorem load_eq_ofDocument (h : Documented format folder path document)
    (environment : List (String × String)) :
    load format folder path environment = ofDocument (fileOf path) environment (some document) := by
  obtain ⟨name, text, hfile, hread⟩ := h.reads
  simp only [fileOf] at hfile ⊢
  simp only [load, hfile, hread]

/-- What the environment says is a text, and no infinity. -/
theorem finiteDepth_given? (environment : List (String × String))
    (h : FiniteDepth fun name => Yaml.find? (.str name.text) entries) :
    FiniteDepth (given? environment entries) := by
  intro value hvalue
  rw [given?] at hvalue
  split at hvalue
  · obtain rfl := Option.some.inj hvalue
    rintro ⟨x, hx, -⟩
    cases hx
  · exact h value hvalue

/-- **How the loading of a document ends**, whatever the format of the file.  If the section of the
debugger holds no entries, a key is no text, or the values suit but one that is needed is null, the
fault of a value is passed on.  In every other case there are settings whose level exists and whose
depth is not negative, with a switch null only where null is given for it, or the fault is one of
settings. -/
theorem load_outcomes (format : Yaml.Format) (environment : List (String × String))
    (h : Documented format folder path document)
    (hfinite : GivesFiniteDepth (fileOf path) document) :
    (Escapes (fileOf path) environment document →
      ∃ fault, load format folder path environment = .error fault ∧ IsPassedOn fault) ∧
    (¬ Escapes (fileOf path) environment document →
      (∃ entries settings, entriesOfDocument (fileOf path) document = .ok entries ∧
        load format folder path environment = .ok settings ∧
        AsGiven (given? environment entries) settings) ∨
      ∃ fault, load format folder path environment = .error fault ∧
        fault.kind.name = "ConfigError") := by
  rw [load_eq_ofDocument h, ofDocument]
  rcases entriesOfDocument_cases h.proper (fileOf path) with ⟨entries, hok, hkeys⟩ | ⟨hno, hfault⟩ |
    ⟨entries, part, fault, rfl, hpart, hbad, hfault, hpassed⟩
  · -- the document gives entries, and the values of these and of the environment decide
    have hdepth := finiteDepth_given? environment (hfinite entries hok)
    simp only [hok]
    rw [bind_of_eq_ok rfl]
    rcases ofEntries_outcomes hok hkeys hdepth (some (fileOf path)) with ⟨hescapes, hpassed⟩ |
      ⟨hnot, ⟨settings, hsettings, hgiven⟩ | ⟨fault, hfault, hkind⟩⟩
    · exact ⟨fun _ => hpassed, fun hnot => absurd hescapes hnot⟩
    · exact ⟨fun hescapes => absurd hescapes hnot,
        fun _ => .inl ⟨entries, settings, rfl, hsettings, hgiven⟩⟩
    · exact ⟨fun hescapes => absurd hescapes hnot,
        fun _ => .inr ⟨fault, hfault, by rw [hkind]; rfl⟩⟩
  · -- the document is no mapping, which is reported for the file
    have hnot : ¬ Escapes (fileOf path) environment document := not_escapes_of_no_mapping hno hfault
    exact ⟨fun hescapes => absurd hescapes hnot,
      fun _ => .inr ⟨.notAMapping (fileOf path), by rw [hfault]; rfl, rfl⟩⟩
  · -- the section holds no entries, and its fault is passed on as it is
    exact ⟨fun _ => ⟨fault, by rw [hfault]; rfl, hpassed⟩,
      fun hnot => absurd (.part rfl hpart hbad) hnot⟩

/-- In the block format, a file that is read holds such a document. -/
theorem documented_of_read {name text : String}
    (hfile : (folder.find? fun entry => plainPath entry.1 == fileOf path) = some (name, text))
    (hread : Yaml.parse text = .ok document) :
    Documented Yaml.blockFormat folder path document :=
  ⟨⟨name, text, hfile, hread⟩, Yaml.proper_parse hread⟩

/-- A folder whose file of settings gives null for the depth. -/
def nullDepthFolder : List (String × String) :=
  [("solstep.config.yaml", "initial_function_depth: ~\n")]

/-- The document in that file. -/
def nullDepthDocument : Yaml := .map [(.str "initial_function_depth", .null)]

theorem nullDepth_documented :
    Documented Yaml.blockFormat nullDepthFolder none nullDepthDocument :=
  documented_of_read rfl rfl

/-- The fault of a depth that is null is passed on, whatever level is given. -/
theorem nullDepth_passedOn :
    Documented Yaml.blockFormat nullDepthFolder none nullDepthDocument ∧
      GivesFiniteDepth (fileOf none) nullDepthDocument ∧
      ∃ fault, load Yaml.blockFormat nullDepthFolder none [("SOLSTEP_LOG_LEVEL", "debug")]
          = .error fault ∧ IsPassedOn fault := by
  have hfinite : GivesFiniteDepth (fileOf none) nullDepthDocument := by
    intro entries hentries value hvalue
    obtain rfl := Except.ok.inj hentries
    obtain rfl := Option.some.inj hvalue
    rintro ⟨x, hx, -⟩
    cases hx
  refine ⟨nullDepth_documented, hfinite, (load_outcomes Yaml.blockFormat
    [("SOLSTEP_LOG_LEVEL", "debug")] nullDepth_documented hfinite).1 ?_⟩
  -- its only value suits the setting, but the depth that it gives is null
  refine .unfilled rfl ⟨?_, ?_⟩ (.inr ⟨?_, rfl⟩)
  · exact List.forall_mem_singleton.mpr ⟨.initialFunctionDepth, rfl⟩
  · intro name value hgiven
    cases name with
    | logLevel => exact .inr trivial
    | logFile => exact .inr trivial
    | useColors => cases hgiven
    | checksumAddresses => cases hgiven
    | initialFunctionDepth => exact .inl (Option.some.inj hgiven).symm
  · rintro value hgiven
    obtain rfl := Option.some.inj hgiven
    exact ⟨"debug", rfl, by decide⟩

/-- With null for the depth there are neither settings nor a fault of settings. -/
theorem nullDepth_unreported :
    Documented Yaml.blockFormat nullDepthFolder none nullDepthDocument ∧
      ¬ ((∃ settings, load Yaml.blockFormat nullDepthFolder none [] = .ok settings ∧
          settings.Valid ∧ settings.useColors.isSome ∧ settings.checksumAddresses.isSome) ∨
        ∃ fault, load Yaml.blockFormat nullDepthFolder none [] = .error fault ∧
          fault.kind.name = "ConfigError") := by
  refine ⟨nullDepth_documented, ?_⟩
  have hload : load Yaml.blockFormat nullDepthFolder none []
      = .error (.unfit (.notOrdered "NoneType" "int")) := rfl
  rw [hload]
  rintro (⟨settings, hok, -⟩ | ⟨fault, hfault, hname⟩)
  · cases hok
  · obtain rfl := Except.error.inj hfault
    exact absurd hname (by decide)

end TraceDebugger.Settings
