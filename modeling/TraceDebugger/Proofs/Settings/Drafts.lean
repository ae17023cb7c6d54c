/-
Drafts of settings.

Each entry of a file and each variable of the environment puts its value into the draft under its
name, and the last value of a name is the only one that counts.  So the draft that entries make is
the one that holds, under each name, what the environment says or else what the file says.

* `set_eq_put`, `set_of_not_suits` — a value is put into a draft if it suits its setting;
* `setAll_cases` — the draft that entries make, or the fault of a value that does not suit;
* `find?_withEnvironment` — the environment comes before the file;
* `setAll_withEnvironment` — the draft that entries make in an environment.
-/
import TraceDebugger.Proofs.Readings
import TraceDebugger.Proofs.Yaml.Keys
import TraceDebugger.Settings.Document

namespace TraceDebugger

namespace SettingName

theorem text_inj {name other : SettingName} : name.text = other.text ↔ name = other := by
  cases name <;> cases other <;> decide

theorem ofText?_eq_some_iff {text : String} {name : SettingName} :
    ofText? text = some name ↔ text = name.text := by
  constructor
  · intro h
    exact (Text.name_of_named? h).symm
  · rintro rfl
    exact ofText?_text name

end SettingName

namespace Settings

open Yaml (Scalar)

variable {entries : List (Scalar × Yaml)} {name : SettingName} {value : Yaml} {draft : Draft}
  {source : Option String} {environment : List (String × String)}

/-- What the environment says for a setting. -/
def override? (environment : List (String × String)) (name : SettingName) : Option String :=
  (environment.find? fun entry => entry.1 == name.environmentName).map (·.2)

/-- The value that is given for a setting: by the environment, or else by the entries. -/
def given? (environment : List (String × String)) (entries : List (Scalar × Yaml))
    (name : SettingName) : Option Yaml :=
  match override? environment name with
  | some text => some (.str text)
  | none => Yaml.find? (.str name.text) entries

/-- The text in a value; null has none. -/
def textOf : Yaml → Option String
  | .scalar .null => none
  | value => some value.display

/-- The switch in a value; null has none. -/
def switchOf : Yaml → Option Bool
  | .scalar .null => none
  | value => switch? value

/-- The number in a value; null has none. -/
def numberOf : Yaml → Option Int
  | .scalar .null => none
  | value => number? value

/-- A value can be brought to the kind of a setting, or it is null. -/
def Suits (name : SettingName) (value : Yaml) : Prop :=
  value = .null ∨
    match name with
    | .logLevel | .logFile => True
    | .useColors | .checksumAddresses => ∃ b, switch? value = some b
    | .initialFunctionDepth => ∃ n, number? value = some n

/-- A value is an infinite number. -/
def IsInfinite (value : Yaml) : Prop :=
  ∃ x : Text.Fraction, value = .scalar (.fraction x) ∧ x.isInfinite = true

/-- A draft with another value under a name. -/
def Draft.put (draft : Draft) (value : Yaml) : SettingName → Draft
  | .logLevel => { draft with logLevel := textOf value }
  | .logFile => { draft with logFile := textOf value }
  | .useColors => { draft with useColors := switchOf value }
  | .checksumAddresses => { draft with checksumAddresses := switchOf value }
  | .initialFunctionDepth => { draft with initialFunctionDepth := numberOf value }

/-- A draft with other values under the names for which some are given. -/
def Draft.revise (draft : Draft) (given : SettingName → Option Yaml) : Draft where
  logLevel := (given .logLevel).elim draft.logLevel textOf
  logFile := (given .logFile).elim draft.logFile textOf
  useColors := (given .useColors).elim draft.useColors switchOf
  checksumAddresses := (given .checksumAddresses).elim draft.checksumAddresses switchOf
  initialFunctionDepth := (given .initialFunctionDepth).elim draft.initialFunctionDepth numberOf

/-- Every key is the name of a setting. -/
def AllKnown (entries : List (Scalar × Yaml)) : Prop :=
  ∀ entry ∈ entries, ∃ name : SettingName, entry.1 = .str name.text

/-! ### One value -/

/-- A value that is no integer has another kind, or it is a numeral that cannot be read. -/
theorem kind_of_toInt_eq_error (hfinite : ¬ IsInfinite value) {fault : Fault}
    (h : value.toInt = .error fault) : fault.kind = .wrongType ∨ fault.kind = .badValue := by
  cases value with
  | list items => exact .inl (Except.error.inj h ▸ rfl)
  | map entries => exact .inl (Except.error.inj h ▸ rfl)
  | scalar value =>
    rw [Yaml.toInt] at h
    cases value with
    | null | day d | moment m => exact .inl (Except.error.inj h ▸ rfl)
    | bool b => cases h
    | int n => cases h
    | fraction x =>
      -- a finite fraction is cut to an integer, so that there is no fault
      have hx : ¬ x.isInfinite = true := fun hinfinite => hfinite ⟨x, rfl, hinfinite⟩
      rw [Yaml.Scalar.toInt, Json.toInt, if_neg hx] at h
      cases h
    | str text =>
      rw [Yaml.Scalar.toInt, Json.toInt, Json.readInt] at h
      split at h
      · cases h
      · exact .inr (Except.error.inj h ▸ rfl)
    | bytes content =>
      rw [Yaml.Scalar.toInt] at h
      split at h
      · cases h
      · exact .inr (Except.error.inj h ▸ rfl)

theorem numberOrBad_of_some {n : Int} (h : number? value = some n) (name : SettingName)
    (source : Option String) : numberOrBad name value source = .ok (some n) := by
  rw [number?] at h
  rw [numberOrBad]
  split
  case h_1 n' hread =>
    rw [hread] at h
    exact congrArg Except.ok h
  case h_2 fault hread =>
    rw [hread] at h
    cases h

/-- A value that is no number is reported, save for an infinity. -/
theorem numberOrBad_of_none (hfinite : ¬ IsInfinite value) (h : number? value = none)
    (name : SettingName) (source : Option String) :
    numberOrBad name value source = .error (.badSetting name.text value.literal source) := by
  rw [number?] at h
  rw [numberOrBad]
  split
  case h_1 n hread =>
    rw [hread] at h
    cases h
  case h_2 fault hread =>
    have hkind := kind_of_toInt_eq_error hfinite hread
    rw [if_pos (by simpa using hkind)]

theorem set_null (source : Option String) (draft : Draft) (name : SettingName) :
    draft.set source name .null = .ok (draft.put .null name) := by
  cases name <;> rfl

/-- A value that suits its setting is put into the draft. -/
theorem set_eq_put (h : Suits name value) (source : Option String) (draft : Draft) :
    draft.set source name value = .ok (draft.put value name) := by
  by_cases hnull : value = .null
  · rw [hnull, set_null]
  · have hne : value = .scalar .null → False := hnull
    have hsuits := h.resolve_left hnull
    cases name with
    | logLevel => simp [Draft.set, Draft.put, textOf]
    | logFile => simp [Draft.set, Draft.put, textOf]
    | useColors =>
      obtain ⟨b, hb⟩ := hsuits
      simp [Draft.set, Draft.put, switchOf, hb, orBad, Except.map]
    | checksumAddresses =>
      obtain ⟨b, hb⟩ := hsuits
      simp [Draft.set, Draft.put, switchOf, hb, orBad, Except.map]
    | initialFunctionDepth =>
      obtain ⟨n, hn⟩ := hsuits
      simp [Draft.set, Draft.put, numberOf, hn, numberOrBad_of_some hn, Except.map]

/-- A value that does not suit its setting is reported with its name. -/
theorem set_of_not_suits (h : ¬ Suits name value)
    (hfinite : name = .initialFunctionDepth → ¬ IsInfinite value) (source : Option String)
    (draft : Draft) :
    draft.set source name value = .error (.badSetting name.text value.literal source) := by
  obtain ⟨hnull, hbad⟩ := not_or.mp h
  have hne : value = .scalar .null → False := hnull
  cases name with
  | logLevel => exact absurd trivial hbad
  | logFile => exact absurd trivial hbad
  | useColors =>
    have hnone := Option.eq_none_iff_forall_ne_some.mpr (not_exists.mp hbad)
    simp [Draft.set, hnone, orBad, Except.map]
  | checksumAddresses =>
    have hnone := Option.eq_none_iff_forall_ne_some.mpr (not_exists.mp hbad)
    simp [Draft.set, hnone, orBad, Except.map]
  | initialFunctionDepth =>
    have hnone := Option.eq_none_iff_forall_ne_some.mpr (not_exists.mp hbad)
    simp [Draft.set, numberOrBad_of_none (hfinite rfl) hnone, Except.map]

/-! ### All values -/

theorem nameOf?_eq_some_iff {key : Scalar} : nameOf? key = some name ↔ key = .str name.text := by
  cases key with
  | str text => simp [nameOf?, SettingName.ofText?_eq_some_iff]
  | null | bool b | int n | fraction x | bytes content | day d | moment m => simp [nameOf?]

/-- A value is put in first, and values for other names after it. -/
theorem put_revise {given given' : SettingName → Option Yaml} (hname : given name = none)
    (hgiven : ∀ other, given' other = if other = name then some value else given other) :
    (draft.put value name).revise given = draft.revise given' := by
  cases name <;> simp [Draft.put, Draft.revise, hgiven, hname]

theorem find?_text_cons {rest : List (Scalar × Yaml)} (other : SettingName) :
    Yaml.find? (.str other.text) ((.str name.text, value) :: rest)
      = if other = name then some value else Yaml.find? (.str other.text) rest := by
  rw [Yaml.find?]
  by_cases h : other = name
  · rw [if_pos h, if_pos (Yaml.sameKey_str_iff.mpr (by rw [h]))]
  · rw [if_neg h, if_neg fun hsame => h ?_]
    have heq := Yaml.sameKey_str_iff.mp hsame
    exact (SettingName.text_inj.mp (Scalar.str.inj heq)).symm

/-- The value under the name of the depth is no infinity. -/
def FiniteDepth (given : SettingName → Option Yaml) : Prop :=
  ∀ value, given .initialFunctionDepth = some value → ¬ IsInfinite value

/-- Of entries for settings, all suit and their values are in the draft, or one is reported. -/
theorem setAll_cases (hkeys : Yaml.DistinctKeys entries) (hknown : AllKnown entries)
    (hfinite : FiniteDepth fun name => Yaml.find? (.str name.text) entries) (source : Option String)
    (draft : Draft) :
    ((∀ name value, Yaml.find? (.str name.text) entries = some value → Suits name value) ∧
      draft.setAll source entries
        = .ok (draft.revise fun name => Yaml.find? (.str name.text) entries)) ∨
    (∃ name value, Yaml.find? (.str name.text) entries = some value ∧ ¬ Suits name value) ∧
      ∃ fault, draft.setAll source entries = .error fault ∧ fault.kind = .settings := by
  induction entries generalizing draft with
  | nil => exact .inl ⟨nofun, rfl⟩
  | cons entry rest ih =>
    obtain ⟨key, value⟩ := entry
    obtain ⟨name, hname⟩ := hknown _ List.mem_cons_self
    obtain rfl : key = .str name.text := hname
    obtain ⟨hfirst, hrest⟩ := List.pairwise_cons.mp hkeys
    -- the name does not come again
    have hlast : Yaml.find? (.str name.text) rest = none :=
      Yaml.find?_eq_none fun entry hentry heq => by
        have hsame := hfirst entry hentry
        rw [heq, Yaml.sameKey_self] at hsame
        cases hsame
    have hstep : draft.setAll source ((.str name.text, value) :: rest)
        = draft.set source name value >>= fun next => next.setAll source rest := by
      rw [Draft.setAll, List.foldlM_cons]
      simp only [nameOf?_eq_some_iff.mpr rfl]
      rfl
    have hvalue : name = .initialFunctionDepth → ¬ IsInfinite value := by
      rintro rfl
      exact hfinite value ((find?_text_cons _).trans (if_pos rfl))
    have hothers : FiniteDepth fun name => Yaml.find? (.str name.text) rest := by
      intro other (hother : Yaml.find? (.str SettingName.initialFunctionDepth.text) rest =
        some other)
      refine hfinite other (?_ : Yaml.find? _ ((.str name.text, value) :: rest) = some other)
      by_cases hname : SettingName.initialFunctionDepth = name
      · rw [hname, hlast] at hother
        cases hother
      · rwa [find?_text_cons, if_neg hname]
    rw [hstep]
    by_cases hsuits : Suits name value
    · rw [set_eq_put hsuits, bind_of_eq_ok rfl]
      rcases ih hrest (fun entry hentry => hknown entry (List.mem_cons_of_mem _ hentry)) hothers
          (draft.put value name) with ⟨hall, hok⟩ | ⟨⟨other, bad, hfind, hbad⟩, hfault⟩
      · left
        refine ⟨fun other found hfind => ?_, ?_⟩
        · rw [find?_text_cons] at hfind
          split at hfind
          case isTrue heq =>
            rw [heq, ← Option.some.inj hfind]
            exact hsuits
          case isFalse => exact hall other found hfind
        · rw [hok]
          exact congrArg Except.ok (put_revise hlast find?_text_cons)
      · refine .inr ⟨⟨other, bad, ?_, hbad⟩, hfault⟩
        rw [find?_text_cons, if_neg ?_]
        · exact hfind
        · rintro rfl
          rw [hlast] at hfind
          cases hfind
    · right
      refine ⟨⟨name, value, by rw [find?_text_cons, if_pos rfl], hsuits⟩,
        .badSetting name.text value.literal source, ?_, rfl⟩
      rw [set_of_not_suits hsuits hvalue]
      rfl

/-! ### The environment -/

/-- The entries with what the environment says for a setting. -/
def enter (environment : List (String × String)) (entries : List (Scalar × Yaml))
    (name : SettingName) : List (Scalar × Yaml) :=
  match override? environment name with
  | some text => Yaml.setKey (.str name.text) (.str text) entries
  | none => entries

theorem withEnvironment_eq (environment : List (String × String)) (entries : List (Scalar × Yaml)) :
    withEnvironment environment entries = SettingName.all.foldl (enter environment) entries := by
  unfold withEnvironment
  congr
  funext entries name
  rw [enter, override?]
  cases environment.find? fun entry => entry.1 == name.environmentName <;> rfl

theorem distinctKeys_enter (h : Yaml.DistinctKeys entries) (environment : List (String × String))
    (name : SettingName) : Yaml.DistinctKeys (enter environment entries name) := by
  unfold enter
  split
  · exact Yaml.distinctKeys_setKey h _ _
  · exact h

theorem distinctKeys_withEnvironment (h : Yaml.DistinctKeys entries)
    (environment : List (String × String)) :
    Yaml.DistinctKeys (withEnvironment environment entries) := by
  rw [withEnvironment_eq]
  generalize SettingName.all = names
  induction names generalizing entries with
  | nil => exact h
  | cons name names ih => exact ih (distinctKeys_enter h environment name)

theorem unknownKeys_cons (key : Scalar) (value : Yaml) (rest : List (Scalar × Yaml)) :
    unknownKeys ((key, value) :: rest)
      = if (nameOf? key).isNone then key :: unknownKeys rest else unknownKeys rest := by
  rw [unknownKeys, List.map_cons, List.filter_cons]
  rfl

theorem unknownKeys_setKey (name : SettingName) (value : Yaml) (entries : List (Scalar × Yaml)) :
    unknownKeys (Yaml.setKey (.str name.text) value entries) = unknownKeys entries := by
  have hname : (nameOf? (.str name.text)).isNone = false := by
    rw [nameOf?_eq_some_iff.mpr rfl]
    rfl
  induction entries with
  | nil =>
    rw [Yaml.setKey, unknownKeys_cons, hname]
    rfl
  | cons entry rest ih =>
    obtain ⟨key, old⟩ := entry
    rw [Yaml.setKey]
    split
    · rw [unknownKeys_cons, unknownKeys_cons]
    · rw [unknownKeys_cons, unknownKeys_cons, ih]

/-- The environment brings no keys that name no setting. -/
theorem unknownKeys_withEnvironment (environment : List (String × String))
    (entries : List (Scalar × Yaml)) :
    unknownKeys (withEnvironment environment entries) = unknownKeys entries := by
  rw [withEnvironment_eq]
  generalize SettingName.all = names
  induction names generalizing entries with
  | nil => rfl
  | cons name names ih =>
    rw [List.foldl_cons, ih, enter]
    split
    · exact unknownKeys_setKey name _ entries
    · rfl

/-- What is entered for a setting is found under its name, and nothing else changes. -/
theorem find?_enter (environment : List (String × String)) (entries : List (Scalar × Yaml))
    (name other : SettingName) :
    Yaml.find? (.str other.text) (enter environment entries name)
      = if other = name then given? environment entries other
        else Yaml.find? (.str other.text) entries := by
  rw [enter, given?]
  by_cases h : other = name
  · subst h
    cases override? environment other <;> simp [Yaml.find?_setKey]
  · have htext : other.text ≠ name.text := fun heq => h (SettingName.text_inj.mp heq)
    cases override? environment name <;> simp [Yaml.find?_setKey, h, htext]

theorem find?_foldl_enter (environment : List (String × String)) (names : List SettingName)
    (entries : List (Scalar × Yaml)) (name : SettingName) :
    Yaml.find? (.str name.text) (names.foldl (enter environment) entries)
      = if name ∈ names then given? environment entries name
        else Yaml.find? (.str name.text) entries := by
  induction names generalizing entries with
  | nil => rfl
  | cons first names ih =>
    rw [List.foldl_cons, ih]
    by_cases hfirst : name = first
    · -- entering it again makes no difference
      subst hfirst
      have hgiven : given? environment (enter environment entries name) name
          = given? environment entries name := by
        have hfound := find?_enter environment entries name name
        rw [if_pos rfl] at hfound
        rw [given?, given?] at *
        cases hover : override? environment name with
        | none => simpa [hover] using hfound
        | some text => rfl
      rw [hgiven, find?_enter, if_pos rfl, if_pos List.mem_cons_self, ite_self]
    · have hfound := find?_enter environment entries first name
      rw [if_neg hfirst] at hfound
      have hgiven : given? environment (enter environment entries first) name
          = given? environment entries name := by
        rw [given?, given?, hfound]
      rw [hgiven, hfound]
      simp [hfirst]

/-- What the environment says comes before what the entries say. -/
theorem find?_withEnvironment (environment : List (String × String))
    (entries : List (Scalar × Yaml)) (name : SettingName) :
    Yaml.find? (.str name.text) (withEnvironment environment entries)
      = given? environment entries name := by
  rw [withEnvironment_eq, find?_foldl_enter, if_pos name.mem_all]

theorem unknownKeys_eq_nil_iff : unknownKeys entries = [] ↔ AllKnown entries := by
  have hknown : ∀ key, ¬ (nameOf? key).isNone = true ↔
      ∃ name : SettingName, key = .str name.text := by
    intro key
    rw [Option.isNone_iff_eq_none, ← ne_eq, Option.ne_none_iff_exists']
    exact exists_congr fun name => nameOf?_eq_some_iff
  simp only [unknownKeys, List.filter_eq_nil_iff, List.forall_mem_map, hknown]
  rfl

/-- Of the values that environment and entries give, all suit and are in the draft, or one is
reported. -/
theorem setAll_withEnvironment (hkeys : Yaml.DistinctKeys entries) (hknown : AllKnown entries)
    (hfinite : FiniteDepth (given? environment entries)) (source : Option String) (draft : Draft) :
    ((∀ name value, given? environment entries name = some value → Suits name value) ∧
      draft.setAll source (withEnvironment environment entries)
        = .ok (draft.revise (given? environment entries))) ∨
    (∃ name value, given? environment entries name = some value ∧ ¬ Suits name value) ∧
      ∃ fault, draft.setAll source (withEnvironment environment entries) = .error fault ∧
        fault.kind = .settings := by
  have hall : AllKnown (withEnvironment environment entries) := by
    rw [← unknownKeys_eq_nil_iff, unknownKeys_withEnvironment, unknownKeys_eq_nil_iff]
    exact hknown
  have hdepth : FiniteDepth fun name =>
      Yaml.find? (.str name.text) (withEnvironment environment entries) := by
    intro value hvalue
    exact hfinite value ((find?_withEnvironment environment entries _).symm.trans hvalue)
  -- the environment is put over the entries before any of them is set
  have hcases :=
    setAll_cases (distinctKeys_withEnvironment hkeys environment) hall hdepth source draft
  simp only [find?_withEnvironment] at hcases
  exact hcases

/-! ### Settings of a draft -/

/-- A draft with a level that exists and a depth that is not negative makes settings. -/
theorem ofDraft_eq_ok {level : String} {depth : Int} (hlevel : draft.logLevel = some level)
    (hknown : (levelOf? level).isSome) (hdepth : draft.initialFunctionDepth = some depth)
    (hnonneg : 0 ≤ depth) :
    ofDraft draft = .ok {
      logLevel := level, logFile := draft.logFile, useColors := draft.useColors
      checksumAddresses := draft.checksumAddresses, initialFunctionDepth := depth } := by
  have hsome : ¬ (levelOf? level).isNone = true := by
    rw [Option.isNone_eq_false_iff.mpr hknown]
    exact Bool.false_ne_true
  simp only [ofDraft, hlevel, hdepth, if_neg hsome, if_neg (Int.not_lt.mpr hnonneg)]

end Settings

end TraceDebugger
