/-
Readings that may fail.

* `exists_of_map_eq_ok`, `exists_of_bind_eq_ok` — what a reading that succeeds was made of;
* `mapM_eq_ok_iff`, `exists_mapM` — a list is read if each of its entries is, and what was read is
  what was read off its entries (`exists_source`, `exists_target`);
* `Reads` — a reading succeeds on a condition; two in a row do on both (`Reads.bind`), and a list is
  read on those of its entries (`Reads.mapM`);
* `Finds` — a reading finds whatever another one finds, as one does that is given more room.
-/
import TraceDebugger.Fault.Basic
import Mathlib.Data.List.Forall2
import Mathlib.Tactic.Common

namespace TraceDebugger

variable {α β γ ε : Type}

/-! ### Successful computations -/

theorem exists_of_map_eq_ok {x : Except ε α} {f : α → β} {y : β} (h : x.map f = .ok y) :
    ∃ a, x = .ok a ∧ f a = y := by
  cases x with
  | error fault => cases h
  | ok a => exact ⟨a, rfl, Except.ok.inj h⟩

theorem eq_error_of_map {x : Except Fault α} {f : α → β} {fault : Fault}
    (h : x.map f = .error fault) : x = .error fault := by
  cases x with
  | error fault' => exact congrArg _ (Except.error.inj h)
  | ok a => cases h

theorem exists_of_bind_eq_ok {x : Except ε α} {f : α → Except ε β} {y : β}
    (h : x >>= f = .ok y) : ∃ a, x = .ok a ∧ f a = .ok y := by
  cases x with
  | error fault => cases h
  | ok a => exact ⟨a, rfl, h⟩

theorem bind_of_eq_ok {x : Except ε α} {a : α} (h : x = .ok a) (f : α → Except ε β) :
    x >>= f = f a := by
  rw [h]
  rfl

/-- What a reading finds; any value where it fails. -/
def found [Inhabited α] : Except Fault α → α
  | .ok a => a
  | .error _ => default

theorem eq_ok_found [Inhabited α] {x : Except Fault α} (h : x.isOk = true) : x = .ok (found x) := by
  cases x with
  | error fault => cases h
  | ok a => rfl

/-- A list is read if each of its entries is. -/
theorem mapM_eq_ok_iff {f : α → Except Fault β} {xs : List α} {ys : List β} :
    xs.mapM f = .ok ys ↔ List.Forall₂ (fun x y => f x = .ok y) xs ys := by
  induction xs generalizing ys with
  | nil =>
    rw [List.forall₂_nil_left_iff]
    exact ⟨fun h => (Except.ok.inj h).symm, fun h => h ▸ rfl⟩
  | cons x xs ih =>
    rw [List.mapM_cons, List.forall₂_cons_left_iff]
    constructor
    · intro h
      obtain ⟨y, hy, h⟩ := exists_of_bind_eq_ok h
      obtain ⟨rest, hrest, h⟩ := exists_of_bind_eq_ok h
      exact ⟨y, rest, hy, ih.mp hrest, (Except.ok.inj h).symm⟩
    · rintro ⟨y, rest, hy, hrest, rfl⟩
      rw [hy, ih.mpr hrest]
      rfl

theorem exists_mapM {f : α → Except Fault β} {xs : List α} (h : ∀ x ∈ xs, ∃ y, f x = .ok y) :
    ∃ ys, xs.mapM f = .ok ys := by
  induction xs with
  | nil => exact ⟨[], rfl⟩
  | cons x xs ih =>
    obtain ⟨y, hy⟩ := h x List.mem_cons_self
    obtain ⟨ys, hys⟩ := ih fun x hx => h x (List.mem_cons_of_mem _ hx)
    refine ⟨y :: ys, ?_⟩
    rw [List.mapM_cons, hy, hys]
    rfl

/-- Of lists that are related entry by entry, every entry of the second is related to. -/
theorem exists_of_forall₂ {R : α → β → Prop} {xs : List α} {ys : List β} (h : List.Forall₂ R xs ys)
    {y : β} (hy : y ∈ ys) : ∃ x ∈ xs, R x y := by
  induction h with
  | nil => cases hy
  | cons hrel _ ih =>
    obtain rfl | hy := List.mem_cons.mp hy
    · exact ⟨_, List.mem_cons_self, hrel⟩
    · obtain ⟨x, hx, hrel⟩ := ih hy
      exact ⟨x, List.mem_cons_of_mem _ hx, hrel⟩

/-- What was read of a list was read off one of its entries. -/
theorem exists_source {f : α → Except Fault β} {xs : List α} {ys : List β}
    (h : xs.mapM f = .ok ys) {y : β} (hy : y ∈ ys) : ∃ x ∈ xs, f x = .ok y :=
  exists_of_forall₂ (mapM_eq_ok_iff.mp h) hy

/-- What was read off an entry of a list was read off the list. -/
theorem exists_target {f : α → Except Fault β} {xs : List α} {ys : List β}
    (h : xs.mapM f = .ok ys) {x : α} (hx : x ∈ xs) : ∃ y ∈ ys, f x = .ok y :=
  exists_of_forall₂ (mapM_eq_ok_iff.mp h).flip hx

/-! ### Readings on a condition -/

/-- A reading succeeds if the condition holds, and else ends with such a fault. -/
def Reads (condition : Prop) (fails : Fault → Prop) (x : Except Fault α) : Prop :=
  (condition ∧ ∃ a, x = .ok a) ∨ (¬ condition ∧ ∃ fault, x = .error fault ∧ fails fault)

namespace Reads

variable {condition condition' : Prop} {fails : Fault → Prop} {x : Except Fault α}

theorem ok (a : α) : Reads True fails (.ok a) := .inl ⟨trivial, a, rfl⟩

theorem congr (h : Reads condition fails x) (hiff : condition ↔ condition') :
    Reads condition' fails x := by
  rwa [← propext hiff]

theorem weaken (h : Reads condition fails x) {fails' : Fault → Prop}
    (hweak : ∀ fault, fails fault → fails' fault) : Reads condition fails' x := by
  rcases h with hok | ⟨hbad, fault, hfault, hfails⟩
  · exact .inl hok
  · exact .inr ⟨hbad, fault, hfault, hweak fault hfails⟩

/-- Of two readings in a row, the second one is made if the first succeeds. -/
theorem bind (h : Reads condition fails x) {f : α → Except Fault β}
    (h' : ∀ a, x = .ok a → Reads condition' fails (f a)) :
    Reads (condition ∧ condition') fails (x >>= f) := by
  rcases h with ⟨hgood, a, ha⟩ | ⟨hbad, fault, hfault, hfails⟩
  · rw [bind_of_eq_ok ha]
    rcases h' a ha with ⟨hgood', hok⟩ | ⟨hbad', hfault⟩
    · exact .inl ⟨⟨hgood, hgood'⟩, hok⟩
    · exact .inr ⟨fun h => hbad' h.2, hfault⟩
  · exact .inr ⟨fun h => hbad h.1, fault, by rw [hfault]; rfl, hfails⟩

/-- A list is read if each of its entries is. -/
theorem mapM {good : α → Prop} {f : α → Except Fault β} {xs : List α}
    (h : ∀ x ∈ xs, Reads (good x) fails (f x)) : Reads (∀ x ∈ xs, good x) fails (xs.mapM f) := by
  induction xs with
  | nil => exact .inl ⟨nofun, [], rfl⟩
  | cons x xs ih =>
    have hrest := ih fun y hy => h y (List.mem_cons_of_mem _ hy)
    rw [List.mapM_cons, List.forall_mem_cons]
    refine (h x List.mem_cons_self).bind fun y _ => ?_
    have hdone : ∀ ys, Reads True fails (.ok (y :: ys)) := fun ys => ok (y :: ys)
    have htail := hrest.bind fun ys _ => hdone ys
    exact htail.congr (iff_of_eq (and_true _))

end Reads

/-! ### Readings with more room -/

/-- The second reading finds whatever the first finds. -/
def Finds (x y : Except Fault α) : Prop := ∀ a, x = .ok a → y = .ok a

namespace Finds

theorem refl (x : Except Fault α) : Finds x x := fun _ h => h

theorem trans {x y z : Except Fault α} (h : Finds x y) (h' : Finds y z) : Finds x z :=
  fun a ha => h' a (h a ha)

end Finds

end TraceDebugger
