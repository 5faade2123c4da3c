import SherryAgent.Library.Occurrences
import SherryAgent.Source.PyText

/-!
# The stream guard

`safety_filter/stream_guard.py` with `scan` and `apply_replacements` of `rules.py`, for
rules of type `contains` that do not change while one answer is streamed. A text is the
list of its characters; `message` is the configured safe replacement.
-/

namespace SherryAgent.Source.SafetyFilter

open SherryAgent.Library SherryAgent.Source

abbrev Text := List Char

inductive RuleAction where
  | block | replace | warn
  deriving DecidableEq, Repr

inductive RuleScope where
  | input | output | both
  deriving DecidableEq, Repr

/-- `CompiledRule` of type `contains`. -/
structure CompiledRule where
  pattern : Text
  action : RuleAction := .block
  replacement : Text := []
  scope : RuleScope := .both
  deriving DecidableEq

structure FilterHit where
  pattern : Text
  matchedText : Text
  action : RuleAction
  replacement : Text
  scope : RuleScope
  deriving DecidableEq

/-- `CompiledRule.search`. -/
def CompiledRule.search (rule : CompiledRule) (text : Text) : Option Text :=
  if rule.pattern <:+: text then some rule.pattern else none

/-- The hit of one rule, if it matches. -/
def CompiledRule.hit (rule : CompiledRule) (text : Text) (scope : RuleScope) : Option FilterHit :=
  if rule.scope ≠ scope ∧ rule.scope ≠ .both then none
  else (rule.search text).bind fun matched =>
    if matched = [] then none
    else some {
      pattern := rule.pattern
      matchedText := matched
      action := rule.action
      replacement := rule.replacement
      scope := rule.scope }

/-- `scan`. -/
def scan (rules : List CompiledRule) (text : Text) (scope : RuleScope) : List FilterHit :=
  if text = [] then [] else rules.filterMap (·.hit text scope)

section Guard

variable (rules : List CompiledRule) (message : Text)

/-- `hit.replacement or SAFETY_FILTER["safe_replacement_message"]`. -/
def FilterHit.rewrite (hit : FilterHit) : Text :=
  if hit.replacement = [] then message else hit.replacement

/-- `text.replace`. -/
def replaceText (old new text : Text) : Text := PyText.replaceChars old new text.length text

/-- `apply_replacements`. -/
def applyReplacements : Text → List FilterHit → Text
  | text, [] => text
  | text, hit :: rest =>
    if hit.action ≠ .replace then applyReplacements text rest
    else applyReplacements (replaceText hit.matchedText (hit.rewrite message) text) rest

/-- What the loop over the replace hits does with the buffer. -/
inductive Found where
  | rewrite (start stop : Nat) (replacement : Text)
  | hold (start : Nat)
  | nothing
  deriving DecidableEq

/-- The loop over the replace hits, in `_apply_replaces`. -/
def findReplace (buffer : Text) (cut : Nat) : List FilterHit → Found
  | [] => .nothing
  | hit :: rest =>
    match findFirst hit.matchedText buffer with
    | none => findReplace buffer cut rest
    | some start =>
      let stop := start + hit.matchedText.length
      if stop ≤ cut then
        if hit.pattern <:+: hit.rewrite message then findReplace buffer cut rest
        else .rewrite start stop (hit.rewrite message)
      else if start < cut ∧ cut < stop then .hold start
      else findReplace buffer cut rest

def replaceHits (buffer : Text) : List FilterHit :=
  (scan rules buffer .output).filter (·.action == .replace)

def rewritten (buffer : Text) (start stop : Nat) (replacement : Text) : Text :=
  buffer.take start ++ (replacement ++ buffer.drop stop)

/-- `_apply_replaces`; the fuel is `_MAX_REPLACEMENTS_PER_RELEASE`. -/
def applyReplaces : (fuel : Nat) → (buffer : Text) → (cut : Nat) → Text × Nat
  | 0, buffer, cut => (buffer, cut)
  | fuel + 1, buffer, cut =>
    match findReplace message buffer cut (replaceHits rules buffer) with
    | .rewrite start stop replacement =>
      applyReplaces fuel (rewritten buffer start stop replacement)
        (cut + replacement.length - (stop - start))
    | .hold start => (buffer, start)
    | .nothing => (buffer, cut)

structure StreamTextGuard where
  window : Nat
  blocked : Bool := false
  hits : List FilterHit := []
  pending : Text := []

/-- `_release`. -/
def StreamTextGuard.release (guard : StreamTextGuard) : StreamTextGuard × Text :=
  let buffer := guard.pending
  if buffer.length ≤ guard.window then (guard, [])
  else
    let hits := scan rules buffer .output
    let guard := { guard with hits := guard.hits ++ hits }
    if hits.any (·.action == .block) then ({ guard with blocked := true, pending := [] }, [])
    else
      let released := applyReplaces rules message 50 buffer (buffer.length - guard.window)
      ({ guard with pending := released.1.drop released.2 }, released.1.take released.2)

/-- `feed`. -/
def StreamTextGuard.feed (guard : StreamTextGuard) (text : Text) : StreamTextGuard × Text :=
  if guard.blocked ∨ text = [] then (guard, [])
  else { guard with pending := guard.pending ++ text }.release rules message

/-- `flush`. -/
def StreamTextGuard.flush (guard : StreamTextGuard) : StreamTextGuard × Text :=
  if guard.blocked ∨ guard.pending = [] then (guard, [])
  else
    let buffer := guard.pending
    let hits := scan rules buffer .output
    let guard := { guard with pending := [], hits := guard.hits ++ hits }
    if hits.any (·.action == .block) then ({ guard with blocked := true }, [])
    else (guard, applyReplacements message buffer hits)

/-- All that the feed calls and the flush after them return. -/
def StreamTextGuard.stream (guard : StreamTextGuard) : List Text → Text
  | [] => (guard.flush rules message).2
  | text :: rest =>
    (guard.feed rules message text).2 ++ (guard.feed rules message text).1.stream rest

end Guard

end SherryAgent.Source.SafetyFilter
