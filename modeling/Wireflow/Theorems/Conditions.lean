/-
# The conditions of a status

`setCondition` keeps one condition for each type, in the order in which the types came. The time of
a condition is that of the last call that changed it in status or reason. A call that does not is
no transition, not even if it is the first one for a type that was there before.
-/

import Wireflow.Controller.Utils
import Wireflow.Semantics.Steps

namespace Wireflow.Controller

open Semantics List
open Wireflow.Api

def conditionOf (conditions : List Condition) (type : String) : Option Condition :=
  conditions.find? (·.type = type)

def timeOf (conditions : List Condition) (type : String) : Option ℕ :=
  (conditionOf conditions type).map (·.lastTransitionTime)

/-- The call makes a transition: what is stored differs in status or reason, or there is nothing. -/
def Changes (conditions : List Condition) (c : Condition) : Prop :=
  ∀ e, conditionOf conditions c.type = some e → ¬(e.status = c.status ∧ e.reason = c.reason)

/-- No call makes a transition of the type. -/
def Unchanging (type : String) : List Condition → List Condition → Prop :=
  AlongSteps setCondition fun conditions c => c.type = type → ¬Changes conditions c

/-- What a sequence of calls makes of a list of conditions. -/
structure Upserted (conditions calls result : List Condition) : Prop where
  distinct : (conditions.map (·.type)).Nodup → (result.map (·.type)).Nodup
  others : ∀ (i : ℕ) (e : Condition), conditions[i]? = some e →
    (∀ c ∈ calls, c.type ≠ e.type) → result[i]? = some e
  /-- The last call for a type is stored, up to the time, and may be repeated. -/
  stored : ∀ before c after, calls = before ++ c :: after → (∀ d ∈ after, d.type ≠ c.type) →
    (∃ time, conditionOf result c.type = some { c with lastTransitionTime := time }) ∧
    ∀ now, setCondition result { c with lastTransitionTime := now } = result
  /-- The time is that of the last transition. -/
  transition : ∀ before c after, calls = before ++ c :: after →
    Changes (before.foldl setCondition conditions) c →
    Unchanging c.type ((before ++ [c]).foldl setCondition conditions) after →
    timeOf result c.type = some c.lastTransitionTime
  kept : ∀ type, Unchanging type conditions calls → timeOf result type = timeOf conditions type

variable {conditions calls : List Condition} {c e : Condition} {type : String}

theorem conditionOf_setCondition (conditions : List Condition) (c : Condition) (type : String) :
    conditionOf (setCondition conditions c) type =
      if c.type = type then some ((conditionOf conditions type).elim c fun e =>
        if e.status = c.status ∧ e.reason = c.reason then
          { c with lastTransitionTime := e.lastTransitionTime } else c)
      else conditionOf conditions type := by
  induction conditions with
  | nil => by_cases htype : c.type = type <;> simp [setCondition, conditionOf, htype]
  | cons existing rest ih =>
    unfold conditionOf at ih ⊢
    by_cases hsame : existing.type = c.type
    · by_cases htype : c.type = type <;>
        by_cases hkept : existing.status = c.status ∧ existing.reason = c.reason <;>
        simp [setCondition, hsame, htype, hkept]
    · by_cases hfound : existing.type = type
      · subst hfound
        simp [setCondition, hsame, Ne.symm hsame]
      · simp [setCondition, hsame, hfound, ih]

/-- A call without a transition keeps the time. -/
theorem timeOf_setCondition (h : c.type = type → ¬Changes conditions c) :
    timeOf (setCondition conditions c) type = timeOf conditions type := by
  unfold timeOf
  rw [conditionOf_setCondition]
  split_ifs with htype
  · have hsame := h htype
    simp only [Changes, htype, not_forall, not_not] at hsame
    obtain ⟨e, he, hkept⟩ := hsame
    simp [he, hkept]
  · rfl

theorem timeOf_foldl (h : Unchanging type conditions calls) :
    timeOf (calls.foldl setCondition conditions) type = timeOf conditions type :=
  (h.invariant (I := fun l => timeOf l type = timeOf conditions type) (Q := fun _ _ => True)
    (fun _ _ hl hc => ⟨trivial, (timeOf_setCondition hc).trans hl⟩) rfl).2

/-- A condition of another type stays where it is. -/
theorem getElem?_setCondition {i : ℕ} (h : conditions[i]? = some e) (hne : c.type ≠ e.type) :
    (setCondition conditions c)[i]? = some e := by
  induction conditions generalizing i with
  | nil => cases h
  | cons existing rest ih =>
    rw [setCondition]
    cases i with
    | zero =>
      cases h
      simp [hne.symm]
    | succ i => split_ifs <;> simp_all

/-- The types stay, and a new one comes last. -/
theorem types_setCondition (conditions : List Condition) (c : Condition) :
    (setCondition conditions c).map (·.type) = if c.type ∈ conditions.map (·.type) then
      conditions.map (·.type) else conditions.map (·.type) ++ [c.type] := by
  induction conditions with
  | nil => rfl
  | cons existing rest ih =>
    by_cases hsame : existing.type = c.type
    · simp [setCondition, hsame, apply_ite Condition.type]
    · simp only [setCondition, hsame, if_false, map_cons, ih, mem_cons, Ne.symm hsame, false_or]
      split_ifs <;> rfl

/-- A call that brings nothing but another time changes nothing. -/
theorem setCondition_eq_self {time : ℕ}
    (h : conditionOf conditions c.type = some { c with lastTransitionTime := time }) (now : ℕ) :
    setCondition conditions { c with lastTransitionTime := now } = conditions := by
  induction conditions with
  | nil => cases h
  | cons existing rest ih =>
    by_cases hsame : existing.type = c.type
    · obtain rfl : existing = { c with lastTransitionTime := time } := by
        simpa [conditionOf, hsame] using h
      simp [setCondition]
    · rw [setCondition, if_neg hsame, ih]
      simpa [conditionOf, hsame] using h

/-- **Conditions over a sequence of calls.** -/
theorem setCondition_history (conditions calls : List Condition) :
    Upserted conditions calls (calls.foldl setCondition conditions) := by
  refine ⟨fun hdistinct => ?_, fun i e he hother => ?_, ?_, ?_, fun _ => timeOf_foldl⟩
  · refine foldlRecOn (motive := fun l => (l.map (·.type)).Nodup) calls setCondition hdistinct
      fun l hl c _ => ?_
    rw [types_setCondition]
    split_ifs with hmem
    · exact hl
    · exact nodup_append.mpr ⟨hl, nodup_singleton _, by simpa using hmem⟩
  · exact foldlRecOn (motive := fun l => l[i]? = some e) calls setCondition he
      fun l hl c hc => getElem?_setCondition hl (hother c hc)
  · rintro before c after rfl hlast
    suffices hstored : ∃ time, conditionOf ((before ++ c :: after).foldl setCondition conditions)
        c.type = some { c with lastTransitionTime := time } from
      ⟨hstored, setCondition_eq_self hstored.choose_spec⟩
    rw [foldl_append, foldl_cons]
    refine foldlRecOn (motive := fun l => ∃ time, conditionOf l c.type =
      some { c with lastTransitionTime := time }) after setCondition ?_ fun l hl d hd => ?_
    · rw [conditionOf_setCondition, if_pos rfl]
      cases conditionOf (before.foldl setCondition conditions) c.type with
      | none => exact ⟨_, rfl⟩
      | some e =>
        rw [Option.elim_some]
        split_ifs
        · exact ⟨_, rfl⟩
        · exact ⟨_, rfl⟩
    · rwa [conditionOf_setCondition, if_neg (hlast d hd)]
  · rintro before c after rfl hchanges hquiet
    rw [append_cons, foldl_append, timeOf_foldl hquiet, foldl_append, timeOf, foldl_cons, foldl_nil,
      conditionOf_setCondition, if_pos rfl]
    cases hstored : conditionOf (before.foldl setCondition conditions) c.type with
    | none => rfl
    | some e => simp [hchanges e hstored]

/-- The first call for a type that is there already is no transition. -/
theorem first_call_keeps_time :
    timeOf ([{ type := "t", status := .true, lastTransitionTime := 2 }].foldl setCondition
      [{ type := "t", status := .true, lastTransitionTime := 1 }]) "t" = some 1 := by
  decide

end Wireflow.Controller
