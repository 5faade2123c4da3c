import SherryAgent.Contracts.HumanInTheLoop

/-!
# The hardline blocklist

The blocklist and the deny rules are looked at by the terminal handler, which every call
named `terminal` meets first. An edit answered on the card of a configured tool names a
new tool and new arguments, and nothing looks at them again.

* `barred_held_back_iff` — no barred command is let through exactly when no edit puts one
  forward.
* `edited_call_bypasses_blocklist` — an edit that does.
-/

namespace SherryAgent.Guarantees.Hardline

open SherryAgent.Source SherryAgent.Source.HumanInTheLoop SherryAgent.Contracts.HumanInTheLoop
open SherryAgent.Source.Transcript (AiMessage Message)
open SherryAgent.Library.Reruns

/-- No card takes an edit into a terminal command that is barred. -/
def EditsClear (ctx : ApprovalContext) (log : List (Card × HITLResponse)) : Prop :=
  ∀ pair ∈ log, ∀ action, editOf pair.1 pair.2 = some action →
    ¬Barred ctx (action.name.getD pair.1.name) (action.args.getD pair.1.args)

section

variable {ctx : ApprovalContext} {messages : List Message} {state after : HookState}
  {log : List (Card × HITLResponse)} {outcome : ApprovalOutcome}

/-- What is let through, whatever is recorded and whatever the human answers. -/
theorem barred_held_back_iff
    (run : ((afterModel ctx messages) state).Ends log after (some outcome)) :
    (∀ call ∈ outcome.revisedToolCalls, ¬Barred ctx call.name call.args) ↔ EditsClear ctx log := by
  obtain ⟨-, calls, -, reviewed⟩ := afterModel_ends run
  constructor
  · intro clear pair member action edit
    obtain ⟨k, call, here, owner⟩ := reviewed.owner member
    obtain ⟨part, ruling, found, dispatched, whole⟩ := reviewed.part here
    have own := (whole pair).mpr ⟨member, owner⟩
    have shows := dispatched.shows own
    have through := dispatched.edits own edit
    subst through
    have revised := mem_revisedToolCalls.mpr (List.mem_of_getElem? found)
    have clean := clear _ revised
    rw [shows.name, shows.args]
    exact clean
  · intro clear through revised
    obtain ⟨k, inside, found⟩ := List.mem_iff_getElem.mp (mem_revisedToolCalls.mp revised)
    have bound : k < calls.length := reviewed.length ▸ inside
    obtain ⟨part, ruling, same, dispatched, whole⟩ := reviewed.part (List.getElem?_eq_getElem bound)
    have approved : ruling = .approve through := by
      rw [List.getElem?_eq_getElem inside, found] at same
      exact (Option.some.inj same).symm
    subst approved
    rcases dispatched.through with ⟨rfl, safe⟩ | ⟨pair, own, action, edit, rfl⟩
    · exact safe
    · have shows := dispatched.shows own
      have clean := clear pair ((whole pair).mp own).1 action edit
      rw [shows.name, shows.args] at clean
      exact clean

end

/-! ## A configured tool and the blocklist -/

/-- `deploy` asks before every use; of the blocklist only `mkfs` matters here. -/
def deployCtx : ApprovalContext where
  config := { interruptedTools := [("deploy", .flag true)] }
  hardlinePatterns := [⟨"\\bmkfs\\b", fun command => PyText.contains "mkfs" (PyText.lower command)⟩]
  dangerousPatterns := []
  clawhubPatterns := []
  sessionId := "main"
  operator := some "main"
  argsHash := fun _ => "99914b932bd37a50b983c5e7c90ae93b"
  writeId := fun _ => "w"

def deployCall : AiMessage :=
  { toolCalls := [ToolCall.toJson { id := some "call_1", name := "deploy", args := [] }] }

/-- `deploy`, and a terminal command that the blocklist refuses. -/
def formatCalls : AiMessage :=
  { toolCalls := [ToolCall.toJson { id := some "call_1", name := "deploy", args := [] },
      ToolCall.toJson
        { id := some "call_2", name := "terminal", args := [("commands", .str "mkfs /dev/sda")] }] }

def formatEdit : Decision :=
  { type := .edit
    editedAction := some { name := some "terminal", args := some [("commands", .str "mkfs /dev/sda")] } }

/-- The call of `deploy` is approved, and alone let through. -/
theorem barred_held_back_approved :
    ∃ log after outcome,
      ((afterModel deployCtx [.ai formatCalls]) {}).Ends log after (some outcome) ∧
        (formatCalls.toolCalls.length = 2 ∧
          outcome.revisedToolCalls.map (·.name) = ["deploy"]) ∧
          ∀ call ∈ outcome.revisedToolCalls, ¬Barred deployCtx call.name call.args := by
  obtain ⟨log, after, result, run, passed⟩ :=
    Run.exists_of_returns ((afterModel deployCtx [.ai formatCalls]) {})
      [.decisions [{ type := .approve }]]
      (fun log outcome => log.all (fun pair => (editOf pair.1 pair.2).isNone) &&
        outcome.any fun outcome => outcome.revisedToolCalls.map (·.name) == ["deploy"])
      (by decide +kernel)
  cases result with
  | none => simp at passed
  | some outcome =>
    simp only [Bool.and_eq_true, List.all_eq_true, Option.any_some, beq_iff_eq] at passed
    refine ⟨log, after, outcome, run, ⟨rfl, passed.2⟩, (barred_held_back_iff run).mpr ?_⟩
    intro pair member action edit
    have unedited := passed.1 pair member
    rw [edit] at unedited
    cases unedited

/-- A call of `deploy`, edited into `mkfs` on its card, is let through. -/
theorem edited_call_bypasses_blocklist :
    ∃ log after outcome,
      ((afterModel deployCtx [.ai deployCall]) {}).Ends log after (some outcome) ∧
        ∃ call ∈ outcome.revisedToolCalls, Barred deployCtx call.name call.args := by
  obtain ⟨log, after, result, run, passed⟩ :=
    Run.exists_of_returns ((afterModel deployCtx [.ai deployCall]) {})
      [.decisions [formatEdit]]
      (fun _ outcome => outcome.any fun outcome =>
        outcome.revisedToolCalls.any fun call => decide (Barred deployCtx call.name call.args))
      (by decide +kernel)
  cases result with
  | none => cases passed
  | some outcome =>
    obtain ⟨call, member, barred⟩ := List.any_eq_true.mp passed
    exact ⟨log, after, outcome, run, call, member, of_decide_eq_true barred⟩

end SherryAgent.Guarantees.Hardline
