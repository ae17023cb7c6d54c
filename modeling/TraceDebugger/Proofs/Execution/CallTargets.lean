/-
The targets of the calls in a trace.

A call tells its target in the second word from the top of its stack.  The targets are listed by one
pass over the trace, and a target that has been seen is not listed again.

* `Step.calls_iff` — which word tells the target of a step;
* `exists_callTargets_concat`, `callTargets_concat_of_not_calls` — what one more step makes of the
  list;
* `Listed.call`, `Listed.pass` — it stays a list of the targets;
* `listed_of_callTargets` — so the list of a trace has each target once, in the order in which they
  are called first.
-/
import TraceDebugger.Proofs.Execution.Checksum
import TraceDebugger.Proofs.Readings
import Mathlib.Data.List.Induction

namespace TraceDebugger

/-! ### Calls -/

/-- A step is a call, delegated or not, and a word stands right below the top of its stack. -/
def Step.Calls (step : Step) (word : String) : Prop :=
  (step.op = "CALL" ∨ step.op = "DELEGATECALL") ∧
    ∃ below top, step.stack = some (below ++ [word, top])

/-- An address is the target of the step at a position. -/
def CalledAt (checksum : Option Address.Checksum) (steps : List Step) (position : Nat)
    (target : String) : Prop :=
  ∃ step word, steps[position]? = some step ∧ step.Calls word ∧
    Address.ofText checksum word = .ok target

/-- An address is called before another one is called for the first time. -/
def CalledBefore (checksum : Option Address.Checksum) (steps : List Step)
    (first second : String) : Prop :=
  ∃ position, CalledAt checksum steps position first ∧
    ∀ earlier, earlier ≤ position → ¬ CalledAt checksum steps earlier second

/-- Some addresses are the targets of the calls in a trace, each once, in the order of their first
calls. -/
structure Listed (checksum : Option Address.Checksum) (steps : List Step)
    (addresses : List String) : Prop where
  nodup : addresses.Nodup
  mem_iff : ∀ target, target ∈ addresses ↔ ∃ position, CalledAt checksum steps position target
  ordered : addresses.Pairwise (CalledBefore checksum steps)

variable {checksum : Option Address.Checksum} {steps : List Step} {step : Step}
  {word target : String}
  {addresses : List String} {position : Nat}

theorem Step.belowTop_one_eq_some_iff {words : List String} :
    belowTop 1 words = some word ↔ ∃ below top, words = below ++ [word, top] := by
  rw [belowTop]
  constructor
  · intro h
    -- the words are counted from the top, which is the end of the list
    obtain ⟨top, rest, hrest⟩ : ∃ top rest, words.reverse = top :: word :: rest := by
      match hwords : words.reverse with
      | [] => simp [hwords] at h
      | [top] => simp [hwords] at h
      | top :: second :: rest =>
        rw [hwords] at h
        obtain rfl : second = word := Option.some.inj h
        exact ⟨top, rest, rfl⟩
    refine ⟨rest.reverse, top, ?_⟩
    rw [← List.reverse_reverse words, hrest]
    simp
  · rintro ⟨below, top, rfl⟩
    simp

theorem Step.calls_iff :
    step.Calls word ↔ Opcode.announcesTarget step.op = true ∧ step.targetWord? = some word := by
  rw [Calls, Opcode.announcesTarget, Bool.or_eq_true, beq_iff_eq, beq_iff_eq, targetWord?,
    Option.bind_eq_some_iff]
  simp only [belowTop_one_eq_some_iff]
  refine and_congr_right fun _ => ⟨?_, ?_⟩
  · rintro ⟨below, top, hstack⟩
    exact ⟨_, hstack, below, top, rfl⟩
  · rintro ⟨words, hstack, below, top, rfl⟩
    exact ⟨below, top, hstack⟩

/-- A step calls one address at most. -/
theorem Step.Calls.unique {other : String} (h : step.Calls word) (h' : step.Calls other) :
    word = other :=
  Option.some.inj ((calls_iff.mp h).2.symm.trans (calls_iff.mp h').2)

theorem CalledAt.lt_length (h : CalledAt checksum steps position target) :
    position < steps.length := by
  obtain ⟨step, word, hstep, -⟩ := h
  exact (List.getElem?_eq_some_iff.mp hstep).1

/-- In a trace with one more step what is called is what was called before, and the target of that
step. -/
theorem calledAt_concat_iff :
    CalledAt checksum (steps ++ [step]) position target ↔
      CalledAt checksum steps position target ∨
        position = steps.length ∧ ∃ word, step.Calls word ∧
          Address.ofText checksum word = .ok target := by
  constructor
  · rintro ⟨other, word, hother, hcalls, htarget⟩
    -- the position is an old one, or that of the new step; there is none beyond it
    rcases Nat.lt_trichotomy position steps.length with hlt | rfl | hlt
    · rw [List.getElem?_append_left hlt] at hother
      exact .inl ⟨other, word, hother, hcalls, htarget⟩
    · rw [List.getElem?_concat_length] at hother
      obtain rfl := Option.some.inj hother
      exact .inr ⟨rfl, word, hcalls, htarget⟩
    · have hbound := (List.getElem?_eq_some_iff.mp hother).1
      rw [List.length_append, List.length_singleton] at hbound
      omega
  · rintro (h | ⟨rfl, word, hcalls, htarget⟩)
    · have hlt := h.lt_length
      obtain ⟨other, word, hother, hcalls, htarget⟩ := h
      exact ⟨other, word, (List.getElem?_append_left hlt).trans hother, hcalls, htarget⟩
    · exact ⟨step, word, List.getElem?_concat_length, hcalls, htarget⟩

/-- What is called first is so also in a longer trace. -/
theorem CalledBefore.concat {first second : String}
    (h : CalledBefore checksum steps first second) (step : Step) :
    CalledBefore checksum (steps ++ [step]) first second := by
  obtain ⟨position, hfirst, hsecond⟩ := h
  have hlt := hfirst.lt_length
  refine ⟨position, calledAt_concat_iff.mpr (.inl hfirst), fun earlier hle hcalled => ?_⟩
  obtain hcalled | ⟨rfl, -⟩ := calledAt_concat_iff.mp hcalled
  · exact hsecond earlier hle hcalled
  · omega

/-! ### One more step -/

/-- The words that tell the targets of the calls in a trace. -/
def targetWords (steps : List Step) : List String :=
  (steps.filter fun step => Opcode.announcesTarget step.op).filterMap Step.targetWord?

theorem callTargets_eq (checksum : Option Address.Checksum) (steps : List Step) :
    callTargets checksum steps
      = ((targetWords steps).mapM (Address.ofText checksum)).map Address.dedupe := rfl

theorem targetWords_concat_of_calls (h : step.Calls word) :
    targetWords (steps ++ [step]) = targetWords steps ++ [word] := by
  obtain ⟨hannounces, hword⟩ := Step.calls_iff.mp h
  simp [targetWords, hannounces, hword]

theorem targetWords_concat_of_not_calls (h : ∀ word, ¬ step.Calls word) :
    targetWords (steps ++ [step]) = targetWords steps := by
  cases hannounces : Opcode.announcesTarget step.op with
  | false => simp [targetWords, hannounces]
  | true =>
    have hnone : step.targetWord? = none := by
      rw [Option.eq_none_iff_forall_ne_some]
      exact fun word hword => h word (Step.calls_iff.mpr ⟨hannounces, hword⟩)
    simp [targetWords, hannounces, hnone]

theorem callTargets_concat_of_not_calls (h : ∀ word, ¬ step.Calls word) :
    callTargets checksum (steps ++ [step]) = callTargets checksum steps := by
  rw [callTargets_eq, callTargets_eq, targetWords_concat_of_not_calls h]

/-- A value is kept at the end unless it is there. -/
theorem Address.dedupe_concat (values : List String) (value : String) :
    dedupe (values ++ [value])
      = if value ∈ dedupe values then dedupe values else dedupe values ++ [value] := by
  rw [dedupe_eq, dedupe_eq, List.foldl_concat, see]
  simp only [List.contains_iff_mem, List.mem_reverse]
  split
  · rfl
  · rw [List.reverse_cons]

theorem exists_callTargets_concat (hc : step.Calls word)
    (h : callTargets checksum (steps ++ [step]) = .ok addresses) :
    ∃ listed target, callTargets checksum steps = .ok listed ∧
      Address.ofText checksum word = .ok target ∧
      addresses = if target ∈ listed then listed else listed ++ [target] := by
  rw [callTargets_eq, targetWords_concat_of_calls hc] at h
  obtain ⟨all, hall, rfl⟩ := exists_of_map_eq_ok h
  rw [List.mapM_append] at hall
  obtain ⟨targets, htargets, hall⟩ := exists_of_bind_eq_ok hall
  obtain ⟨last, hlast, hall⟩ := exists_of_bind_eq_ok hall
  obtain rfl := Except.ok.inj hall
  -- the new step has one word, so that one address is read for it
  obtain ⟨target, rest, htarget, hrest, rfl⟩ :=
    List.forall₂_cons_left_iff.mp (mapM_eq_ok_iff.mp hlast)
  obtain rfl := List.forall₂_nil_left_iff.mp hrest
  refine ⟨Address.dedupe targets, target, ?_, htarget, Address.dedupe_concat targets target⟩
  rw [callTargets_eq, htargets]
  rfl

namespace Listed

theorem nil : Listed checksum [] [] where
  nodup := .nil
  mem_iff _ := ⟨fun h => absurd h List.not_mem_nil,
    fun ⟨_, h⟩ => absurd h.lt_length (Nat.not_lt_zero _)⟩
  ordered := .nil

variable (h : Listed checksum steps addresses)

include h

/-- A step that calls nothing adds nothing. -/
theorem pass (hc : ∀ word, ¬ step.Calls word) :
    Listed checksum (steps ++ [step]) addresses := by
  refine ⟨h.nodup, fun target => (h.mem_iff target).trans (exists_congr fun position => ?_),
    h.ordered.imp fun hbefore => hbefore.concat step⟩
  rw [calledAt_concat_iff]
  refine (or_iff_left ?_).symm
  rintro ⟨-, word, hcalls, -⟩
  exact hc word hcalls

/-- A call adds its target at the end, unless it is listed. -/
theorem call (hc : step.Calls word) (ht : Address.ofText checksum word = .ok target) :
    Listed checksum (steps ++ [step])
      (if target ∈ addresses then addresses else addresses ++ [target]) := by
  have hlast : ∀ other, (∃ word, step.Calls word ∧ Address.ofText checksum word = .ok other) ↔
      other = target := by
    intro other
    constructor
    · rintro ⟨word', hc', ht'⟩
      obtain rfl := hc.unique hc'
      exact Except.ok.inj (ht'.symm.trans ht)
    · rintro rfl
      exact ⟨word, hc, ht⟩
  have hmem : ∀ other, (∃ position, CalledAt checksum (steps ++ [step]) position other) ↔
      other ∈ addresses ∨ other = target := by
    intro other
    simp only [calledAt_concat_iff, hlast, exists_or, ← h.mem_iff, exists_eq_left]
  have hordered : addresses.Pairwise (CalledBefore checksum (steps ++ [step])) :=
    h.ordered.imp fun hbefore => hbefore.concat step
  split
  case isTrue hin =>
    refine ⟨h.nodup, fun other => ?_, hordered⟩
    rw [hmem]
    exact (or_iff_left_of_imp fun heq => heq ▸ hin).symm
  case isFalse hout =>
    refine ⟨?_, fun other => ?_, List.pairwise_append.mpr
      ⟨hordered, List.pairwise_singleton _ _, fun first hfirst second hsecond => ?_⟩⟩
    · refine List.nodup_append.mpr ⟨h.nodup, List.pairwise_singleton _ _, ?_⟩
      rintro first hfirst second hsecond rfl
      obtain rfl := List.mem_singleton.mp hsecond
      exact hout hfirst
    · rw [hmem, List.mem_append, List.mem_singleton]
    · -- the new target has not been called before
      obtain rfl := List.mem_singleton.mp hsecond
      obtain ⟨position, hposition⟩ := (h.mem_iff first).mp hfirst
      have hbefore : CalledBefore checksum steps first second :=
        ⟨position, hposition, fun earlier _ hcalled => hout ((h.mem_iff second).mpr ⟨_, hcalled⟩)⟩
      exact hbefore.concat step

end Listed

/-- **The targets of a trace are listed.** -/
theorem listed_of_callTargets (h : callTargets checksum steps = .ok addresses) :
    Listed checksum steps addresses := by
  -- on the steps from the last one, as what is listed depends on the steps before
  induction steps using List.reverseRecOn generalizing addresses with
  | nil =>
    obtain rfl : [] = addresses := Except.ok.inj h
    exact .nil
  | append_singleton steps step ih =>
    by_cases hc : ∃ word, step.Calls word
    · obtain ⟨word, hc⟩ := hc
      obtain ⟨listed, target, hlisted, htarget, rfl⟩ := exists_callTargets_concat hc h
      exact (ih hlisted).call hc htarget
    · have hc : ∀ word, ¬ step.Calls word := not_exists.mp hc
      rw [callTargets_concat_of_not_calls hc] at h
      exact (ih h).pass hc

end TraceDebugger
