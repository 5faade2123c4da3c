import SherryAgent.Source.PyText

/-!
# The streaming reasoning scrubber (`agent/security/think_scrub.py`)

Strings are lists of characters. `_recovered` is kept joined.
-/

namespace SherryAgent.Source.Security

/-- `INLINE_REASONING_TAGS`. -/
inductive ReasoningTag where
  | think
  | thinking
  | reasoning
  deriving DecidableEq

def ReasoningTag.name : ReasoningTag → List Char
  | .think => "think".toList
  | .thinking => "thinking".toList
  | .reasoning => "reasoning".toList

def inlineReasoningTags : List ReasoningTag := [.think, .thinking, .reasoning]

/-- `f"<{tag}>"`. -/
def ReasoningTag.opening (tag : ReasoningTag) : List Char := '<' :: tag.name ++ ['>']

/-- `f"</{tag}>"`. -/
def ReasoningTag.closing (tag : ReasoningTag) : List Char := '<' :: '/' :: tag.name ++ ['>']

/-- `text.lower()`. -/
def lowered (text : List Char) : List Char := text.flatMap PyText.lowerChar

/-- `text.find(needle)` for a needle that is not empty. -/
def find (needle : List Char) : List Char → Option Nat
  | [] => none
  | c :: rest =>
    if needle.isPrefixOf (c :: rest) then some 0 else (find needle rest).map (· + 1)

structure Scrubber where
  held : List Char := []
  inside : Option ReasoningTag := none
  recovered : List Char := []

/-- `_longest_partial_suffix`; the sizes come from the longest down. -/
def longestPartialSuffix (text : List Char) (candidates : List (List Char)) : List Char :=
  let low := lowered text
  let longest := (candidates.map List.length).foldl max 0
  let sizes := (List.range' 1 (min text.length (longest - 1))).reverse
  match sizes.find? fun size =>
    candidates.any fun candidate => (low.drop (low.length - size)).isPrefixOf (lowered candidate) with
  | some size => text.drop (text.length - size)
  | none => []

/-- One tag of the loop in `_next_opening_tag`. -/
def earlierTag (low : List Char) (best : Option (Nat × ReasoningTag)) (tag : ReasoningTag) :
    Option (Nat × ReasoningTag) :=
  match find tag.opening low with
  | none => best
  | some index =>
    match best with
    | none => some (index, tag)
    | some (first, _) => if index < first then some (index, tag) else best

/-- `_next_opening_tag`. -/
def nextOpeningTag (text : List Char) : Option (Nat × ReasoningTag) :=
  inlineReasoningTags.foldl (earlierTag (lowered text)) none

/-- What the loop does when the held text has no complete tag: all but a partial tag goes out. -/
def Scrubber.settle (scrubber : Scrubber) (out : List Char) (candidates : List (List Char)) :
    Scrubber × List Char :=
  let kept := longestPartialSuffix scrubber.held candidates
  let text := scrubber.held.take (scrubber.held.length - kept.length)
  match scrubber.inside with
  | some _ => ({ scrubber with held := kept, recovered := scrubber.recovered ++ text }, out)
  | none => ({ scrubber with held := kept }, out ++ text)

/-- The `while self._held` loop. Every turn but the last drops a tag, so the length of the held text
bounds it. -/
def Scrubber.scan : (fuel : Nat) → Scrubber → (out : List Char) → Scrubber × List Char
  | 0, scrubber, out => (scrubber, out)
  | fuel + 1, scrubber, out =>
    if scrubber.held = [] then (scrubber, out)
    else
      match scrubber.inside with
      | some tag =>
        match find tag.closing (lowered scrubber.held) with
        | some index =>
          scan fuel
            { held := scrubber.held.drop (index + tag.closing.length)
              inside := none
              recovered := scrubber.recovered ++ scrubber.held.take index }
            out
        | none => scrubber.settle out [tag.closing]
      | none =>
        match nextOpeningTag scrubber.held with
        | some (index, tag) =>
          scan fuel
            { scrubber with
              held := scrubber.held.drop (index + tag.opening.length)
              inside := some tag }
            (out ++ scrubber.held.take index)
        | none => scrubber.settle out (inlineReasoningTags.map (·.opening))

/-- `feed`. -/
def Scrubber.feed (scrubber : Scrubber) (chunk : List Char) : Scrubber × List Char :=
  if chunk = [] then (scrubber, [])
  else
    let held := scrubber.held ++ chunk
    scan (held.length + 1) { scrubber with held := held } []

/-- `take_reasoning`. -/
def Scrubber.takeReasoning (scrubber : Scrubber) : Scrubber × List Char :=
  ({ scrubber with recovered := [] }, scrubber.recovered)

/-- `flush`. -/
def Scrubber.flush (scrubber : Scrubber) : Scrubber × List Char :=
  match scrubber.inside with
  | some _ =>
    ({ held := [], inside := none, recovered := scrubber.recovered ++ scrubber.held }, [])
  | none => ({ scrubber with held := [] }, scrubber.held)

/-- What a caller gets that feeds the chunks one by one, takes the reasoning each time, and flushes:
the visible text and the reasoning. -/
def Scrubber.stream (scrubber : Scrubber) : List (List Char) → List Char × List Char
  | [] =>
    let (flushed, visible) := scrubber.flush
    (visible, flushed.takeReasoning.2)
  | chunk :: chunks =>
    let (fed, visible) := scrubber.feed chunk
    let (drained, reasoning) := fed.takeReasoning
    let (laterVisible, laterReasoning) := drained.stream chunks
    (visible ++ laterVisible, reasoning ++ laterReasoning)

end SherryAgent.Source.Security
