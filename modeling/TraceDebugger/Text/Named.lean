/-
Values that are known by their names.
-/

namespace TraceDebugger.Text

variable {α : Type} {name : α → String} {values : List α}

/-- The value of a name among some values. -/
def named? (name : α → String) (values : List α) (text : String) : Option α :=
  values.find? fun value => name value == text

theorem name_of_named? {text : String} {value : α} (h : named? name values text = some value) :
    name value = text := by
  have hfound := List.find?_some h
  exact beq_iff_eq.mp hfound

/-- Of values with different names each is found under its own. -/
theorem named?_name (hnames : (values.map name).Nodup) {value : α} (h : value ∈ values) :
    named? name values (name value) = some value := by
  induction values with
  | nil => cases h
  | cons first rest ih =>
    obtain ⟨hfirst, hrest⟩ := List.nodup_cons.mp hnames
    rw [named?, List.find?_cons]
    rcases List.mem_cons.mp h with rfl | hmem
    · rw [beq_self_eq_true]
    · have hne : name first ≠ name value := fun heq => hfirst (heq ▸ List.mem_map_of_mem hmem)
      rw [beq_false_of_ne hne]
      exact ih hrest hmem

/-- Names of no value are kept where there is a value for every name. -/
theorem name_getD_named? {other : String → α} (hother : ∀ text, name (other text) = text)
    (text : String) : name ((named? name values text).getD (other text)) = text := by
  cases h : named? name values text with
  | none => exact hother text
  | some value => exact name_of_named? h

end TraceDebugger.Text
