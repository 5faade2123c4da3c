import Mathlib.Data.List.Basic
import SherryAgent.Source.Summarization.Calls

/-!
# A dict with one key set

- `find_setField`: the key has the new value and every other key the old one
- `callName_withArgs`, `callArgs_withArgs`: what a call with new arguments reads as
-/

namespace SherryAgent.Contracts.Dicts

open SherryAgent.Source SherryAgent.Source.Transcript SherryAgent.Source.Summarization

theorem find_replaced (key other : String) (value : Json) (fields : List (String × Json)) :
    (fields.map fun field => if field.1 == key then (key, value) else field).find?
        (fun field => field.1 == other) =
      (fields.find? fun field => field.1 == other).map fun field =>
        if field.1 == key then (key, value) else field := by
  rw [List.find?_map]
  congr 2
  funext field
  by_cases same : field.1 = key
  · simp [same]
  · simp [same]

theorem find_setField (key other : String) (value : Json) (fields : List (String × Json)) :
    (setField key value fields).find? (fun field => field.1 == other) =
      if other = key then some (key, value) else fields.find? fun field => field.1 == other := by
  unfold setField
  by_cases present : fields.any (·.1 == key) = true
  · rw [if_pos present, find_replaced]
    by_cases same : other = key
    · subst same
      cases found : fields.find? fun field => field.1 == other with
      | none =>
        have absent := List.find?_eq_none.mp found
        obtain ⟨field, member, named⟩ := List.any_eq_true.mp present
        exact absurd named (absent field member)
      | some field =>
        have named := List.find?_some found
        rw [Option.map_some, if_pos named, if_pos rfl]
    · cases found : fields.find? fun field => field.1 == other with
      | none => simp [same]
      | some field =>
        have named := List.find?_some found
        have other_key : ¬(field.1 == key) = true := by
          rw [beq_iff_eq, beq_iff_eq.mp named]
          exact same
        rw [Option.map_some, if_neg other_key, if_neg same]
  · rw [if_neg present, List.find?_append]
    by_cases same : other = key
    · subst same
      have absent : fields.find? (fun field => field.1 == other) = none := by
        rw [List.find?_eq_none]
        intro field member named
        exact present (List.any_eq_true.mpr ⟨field, member, named⟩)
      simp [absent]
    · have apart : (key == other) = false := beq_eq_false_iff_ne.mpr fun equal => same equal.symm
      simp [same, apart]

/-- Another key reads as before. -/
theorem get_setField {key other : String} (apart : other ≠ key) (value : Json)
    (fields : List (String × Json)) :
    (Json.obj (setField key value fields)).get other = (Json.obj fields).get other := by
  simp only [Json.get, find_setField]
  rw [if_neg apart]

/-! ## The dict of a call -/

theorem callName_withArgs (newArgs call : Json) :
    callName (withArgs newArgs call) = callName call := by
  cases call with
  | obj fields =>
    simp only [callName, withArgs, getOr, find_setField]
    rw [if_neg (by decide)]
  | _ => rfl

theorem callArgs_withArgs (newArgs call : Json) : callArgs (withArgs newArgs call) = newArgs := by
  cases call with
  | obj fields => simp [callArgs, withArgs, getOr, find_setField]
  | _ => rfl

end SherryAgent.Contracts.Dicts
