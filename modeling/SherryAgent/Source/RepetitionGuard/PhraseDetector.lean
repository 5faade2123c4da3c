import SherryAgent.Source.PyText

/-!
# The phrase detector of the repetition guard

`PhraseRepetitionDetector.detect` of
`agent/middlewares/output_repetition_guard/repetition_detectors.py`.
-/

namespace SherryAgent.Source.RepetitionGuard

/-- `re.sub(r"[ \t]+", "", content)`. -/
def withoutBlanks (content : List Char) : List Char :=
  content.filter fun c => c != ' ' && c != '\t'

/-- `content[start:stop]`. -/
def slice (content : List Char) (start stop : Nat) : List Char :=
  (content.drop start).take (stop - start)

/-- The greedy loop: `repeats` blocks are counted so far and the next one starts at `pos`. A block
advances `pos`, so the length of the text bounds the loop. -/
def countRepeats (content pattern : List Char) (plen : Nat) :
    (fuel : Nat) → (pos repeats : Nat) → Nat
  | 0, _, repeats => repeats
  | fuel + 1, pos, repeats =>
    if pos + plen ≤ content.length ∧ slice content pos (pos + plen) = pattern then
      countRepeats content pattern plen fuel (pos + plen) (repeats + 1)
    else repeats

/-- The body of the two `for` loops. -/
def repeatsAt (content : List Char) (minRepeats plen start : Nat) : Bool :=
  let pattern := slice content start (start + plen)
  if PyText.stripChars PyText.isSpace pattern = [] then false
  else
    decide (minRepeats ≤ countRepeats content pattern plen content.length (start + plen) 1)

/-- `detect`; `range(a, b)` is `List.range' a (b - a)`. -/
def detect (content : List Char) (minRepeats maxPhrase : Nat) : Bool :=
  let content := withoutBlanks content
  let n := content.length
  if n < 2 * minRepeats then false
  else
    let upper := min maxPhrase (n / minRepeats)
    (List.range' 2 (upper + 1 - 2)).any fun plen =>
      let limit := n - plen * minRepeats
      (List.range (min plen (limit + 1))).any fun start =>
        repeatsAt content minRepeats plen start

end SherryAgent.Source.RepetitionGuard
