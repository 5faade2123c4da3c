import SherryAgent.Contracts.Dicts
import SherryAgent.Source.Summarization.Calls
import SherryAgent.Source.Summarization.Estimate

/-!
# Truncated tool-call arguments

- `args_truncation_iff`: the pass shortens, counts right and settles exactly when of every call it
  rewrites the characters that the settings keep, with the notice, fit into `min_args_chars`
- `pipeline_never_settles`: with the shipped settings those of no call do
- `overlapping_slices`: a call of 612 characters, of which the notice says that -588 are omitted
-/

namespace SherryAgent.Guarantees.TruncatedArgs

open SherryAgent.Source SherryAgent.Source.Transcript SherryAgent.Source.Summarization
open SherryAgent.Contracts.Dicts

variable {config : ArgsConfig} {messages : List Message} {call : Json}

/-- The pass rewrites the call. -/
def Rewritten (config : ArgsConfig) (messages : List Message) (call : Json) : Prop :=
  ∃ message : AiMessage, .ai message ∈ messages.take (keepUntil config messages) ∧
    call ∈ message.toolCalls ∧ rewrites config call = true

/-- The new arguments are no longer than the old ones, and the notice stands for exactly the
characters between a prefix and a suffix of them. -/
structure Clipped (config : ArgsConfig) (call : Json) : Prop where
  shorter : (truncatedArgs config call).dumps.toList.length ≤ (argsStr call).length
  slices : ∃ dropped, argsStr call = argsHead config (argsStr call) ++ dropped ++
    argsTail config (argsStr call) ∧ argsOmitted config (argsStr call) = dropped.length

/-- Every rewritten call is clipped, and the result of the pass has nothing to rewrite. -/
structure Tidy (estimateText : String → Nat) (config : ArgsConfig) (messages : List Message) :
    Prop where
  clipped : ∀ call, Rewritten config messages call → Clipped config call
  settled : ∀ call,
    ¬Rewritten config (truncateToolArgs estimateText config messages).1 call

/-! ## What the settings keep -/

/-- How many characters of arguments of some length the settings keep at the front. -/
def headKept (config : ArgsConfig) (length : Nat) : Nat :=
  if 0 ≤ config.headChars then min config.headChars.toNat length
  else length - (-config.headChars).toNat

/-- How many at the end; `text[-0:]` is the whole text. -/
def tailKept (config : ArgsConfig) (length : Nat) : Nat :=
  if 0 < config.tailChars then min config.tailChars.toNat length
  else length - (-config.tailChars).toNat

/-- What characters take in a JSON string: two for a quote or a backslash. -/
def jsonWidth (text : List Char) : Nat := (text.map fun c => (Json.escapeChar c).length).sum

/-- The kept characters, the digits of the count, and 61 characters for the notice around it and for
`{"_truncated_args": "..."}`. -/
def keptWidth (config : ArgsConfig) (args : List Char) : Nat :=
  jsonWidth (args.take (headKept config args.length)) +
    jsonWidth (args.drop (args.length - tailKept config args.length)) +
    (toString ((args.length : Int) - headKept config args.length -
      tailKept config args.length)).toList.length + 61

/-! ## Slices -/

theorem sliceTo_prefix (stop : Int) (text : List Char) : sliceTo stop text <+: text := by
  unfold sliceTo
  split <;> exact List.take_prefix _ _

theorem sliceFrom_suffix (start : Int) (text : List Char) : sliceFrom start text <:+ text := by
  unfold sliceFrom
  split <;> exact List.drop_suffix _ _

/-- A prefix and a suffix that are not longer than the text do not overlap. -/
theorem exists_between {head tail text : List Char} (front : head <+: text) (back : tail <:+ text)
    (apart : head.length + tail.length ≤ text.length) :
    ∃ dropped, text = head ++ dropped ++ tail := by
  obtain ⟨rest, rfl⟩ := front
  have inside : tail <:+ rest := by
    apply List.suffix_of_suffix_length_le back (List.suffix_append head rest)
    rw [List.length_append] at apart
    omega
  obtain ⟨dropped, rfl⟩ := inside
  exact ⟨dropped, by rw [List.append_assoc]⟩

/-! ## The text of the new arguments -/

theorem length_escapeChar (c : Char) : 1 ≤ (Json.escapeChar c).length := by
  unfold Json.escapeChar
  split_ifs <;> simp

theorem length_le_escape (text : List Char) : text.length ≤ (Json.escape text).length := by
  induction text with
  | nil => simp
  | cons c rest ih =>
    have first := length_escapeChar c
    simp only [Json.escape, List.flatMap_cons, List.length_append, List.length_cons] at ih ⊢
    omega

theorem length_dumpsStr (text : String) :
    (Json.dumpsStr text).toList.length = (Json.escape text.toList).length + 2 := by
  simp [Json.dumpsStr, String.toList_append]

theorem argsHead_eq (config : ArgsConfig) (args : List Char) :
    argsHead config args = args.take (headKept config args.length) := by
  unfold argsHead sliceTo headKept
  split
  · rw [List.take_eq_take_iff]
    omega
  · rfl

theorem argsTail_eq (config : ArgsConfig) (args : List Char) :
    argsTail config args = args.drop (args.length - tailKept config args.length) := by
  unfold argsTail sliceFrom tailKept
  by_cases positive : 0 < config.tailChars
  · rw [if_neg (by omega), if_pos positive]
    congr 1
    omega
  · rw [if_pos (by omega), if_neg positive, List.drop_eq_drop_iff]
    omega

theorem argsOmitted_eq (config : ArgsConfig) (args : List Char) :
    argsOmitted config args =
      (args.length : Int) - headKept config args.length - tailKept config args.length := by
  have front : headKept config args.length ≤ args.length := by
    unfold headKept
    split <;> omega
  have back : tailKept config args.length ≤ args.length := by
    unfold tailKept
    split <;> omega
  unfold argsOmitted
  rw [argsHead_eq, argsTail_eq, List.length_take, List.length_drop]
  omega

theorem length_escape (text : List Char) : (Json.escape text).length = jsonWidth text := by
  rw [Json.escape, List.length_flatMap, jsonWidth]

theorem jsonWidth_append (front back : List Char) :
    jsonWidth (front ++ back) = jsonWidth front + jsonWidth back := by
  simp [jsonWidth]

theorem length_le_jsonWidth (text : List Char) : text.length ≤ jsonWidth text := by
  rw [← length_escape]
  exact length_le_escape text

theorem escapeChar_of_isDigit {c : Char} (digit : c.isDigit = true) : Json.escapeChar c = [c] := by
  rw [Char.isDigit, Bool.and_eq_true, decide_eq_true_eq, decide_eq_true_eq] at digit
  have low : 48 ≤ c.toNat := digit.1
  have high : c.toNat ≤ 57 := digit.2
  unfold Json.escapeChar
  rw [if_neg, if_neg, if_neg, if_neg, if_neg, if_neg (by omega), if_neg (by omega),
    if_neg (by omega)]
  all_goals
    rintro rfl
    revert low high
    decide

theorem jsonWidth_digits (n : Nat) :
    jsonWidth (toString n).toList = (toString n).toList.length := by
  have digits : (toString n).toList = Nat.toDigits 10 n := by
    simp [toString]
  have single : ∀ c ∈ Nat.toDigits 10 n, (Json.escapeChar c).length = 1 := by
    intro c member
    rw [escapeChar_of_isDigit (Nat.isDigit_of_mem_toDigits (by decide) (by decide) member)]
    rfl
  rw [digits, jsonWidth, List.map_congr_left single]
  simp

/-- Neither the digits of a number nor its sign are escaped. -/
theorem jsonWidth_toString (n : Int) :
    jsonWidth (toString n).toList = (toString n).toList.length := by
  cases n with
  | ofNat n => exact jsonWidth_digits n
  | negSucc n =>
    have sign : toString (Int.negSucc n) = "-" ++ toString (n + 1) := rfl
    have dash : jsonWidth "-".toList = "-".toList.length := by decide
    rw [sign, String.toList_append, jsonWidth_append, jsonWidth_digits, dash, List.length_append]

/-- The width of a text between two constant ones. -/
theorem jsonWidth_between {front back : String} {m n : Nat}
    (opening : jsonWidth front.toList = m) (closing : jsonWidth back.toList = n)
    (middle : String) :
    jsonWidth (front ++ middle ++ back).toList = m + jsonWidth middle.toList + n := by
  rw [String.toList_append, String.toList_append, jsonWidth_append, jsonWidth_append, opening,
    closing]

theorem jsonWidth_argsNotice (omitted : Int) :
    jsonWidth (argsNotice omitted).toList = (toString omitted).toList.length + 38 := by
  have opening : jsonWidth "...[args truncated, omitted ".toList = 28 := by decide
  have closing : jsonWidth " chars]...".toList = 10 := by decide
  have notice : jsonWidth (argsNotice omitted).toList =
      28 + jsonWidth (toString omitted).toList + 10 :=
    jsonWidth_between opening closing (toString omitted)
  have digits := jsonWidth_toString omitted
  omega

/-- The new arguments are as long as the settings and the old ones say. -/
theorem length_truncatedArgs (config : ArgsConfig) (call : Json) :
    (truncatedArgs config call).dumps.toList.length = keptWidth config (argsStr call) := by
  have key : (Json.dumpsStr "_truncated_args").toList.length = 17 := by decide
  have opening : "\x7b".toList.length = 1 := by decide
  have separator : ": ".toList.length = 2 := by decide
  have closing : "\x7d".toList.length = 1 := by decide
  simp only [truncatedArgs, Json.dumps, Json.dumpsFields, String.toList_append,
    List.length_append, key, length_dumpsStr, String.toList_ofList]
  rw [length_escape, truncateArgsStr, jsonWidth_append, jsonWidth_append, jsonWidth_argsNotice,
    argsHead_eq, argsTail_eq, argsOmitted_eq, keptWidth]
  omega

theorem slices_le_width (config : ArgsConfig) (args : List Char) :
    (argsHead config args).length + (argsTail config args).length + 61 ≤
      keptWidth config args := by
  have front := length_le_jsonWidth (argsHead config args)
  have back := length_le_jsonWidth (argsTail config args)
  rw [argsHead_eq] at front ⊢
  rw [argsTail_eq] at back ⊢
  rw [keptWidth]
  omega

/-- Arguments that fit into `min_args_chars` are clipped: the slices of longer ones are apart. -/
theorem clipped_of_fits (long : config.minArgsChars < (argsStr call).length)
    (fits : (keptWidth config (argsStr call) : Int) ≤ config.minArgsChars) :
    Clipped config call := by
  have slices := slices_le_width config (argsStr call)
  have front : argsHead config (argsStr call) <+: argsStr call := sliceTo_prefix _ _
  have back : argsTail config (argsStr call) <:+ argsStr call := sliceFrom_suffix _ _
  constructor
  · rw [length_truncatedArgs]
    omega
  · obtain ⟨dropped, whole⟩ := exists_between front back (by omega)
    refine ⟨dropped, whole, ?_⟩
    have lengths := congrArg List.length whole
    simp only [List.length_append] at lengths
    simp only [argsOmitted]
    omega

/-! ## A second application -/

theorem rewrites_iff : rewrites config call = true ↔
    callName call ∉ config.protectedTools ∧ config.minArgsChars < (argsStr call).length := by
  simp [rewrites]

/-- A rewritten call is rewritten again unless its new arguments fit. -/
theorem rewrites_again (rewritten : rewrites config call = true) :
    rewrites config (truncateCall config call) = true ↔
      config.minArgsChars < keptWidth config (argsStr call) := by
  have unprotected := (rewrites_iff.mp rewritten).1
  rw [truncateCall, if_pos rewritten, rewrites_iff, callName_withArgs, argsStr, callArgs_withArgs,
    length_truncatedArgs]
  exact ⟨fun again => again.2, fun long => ⟨unprotected, long⟩⟩

theorem keepUntil_truncated (estimateText : String → Nat) (config : ArgsConfig)
    (messages : List Message) :
    (truncateToolArgs estimateText config messages).1.take
        (keepUntil config (truncateToolArgs estimateText config messages).1) =
      (messages.take (keepUntil config messages)).map (truncateCalls config) := by
  have older : (messages.take (keepUntil config messages)).length = keepUntil config messages := by
    rw [List.length_take, keepUntil]
    omega
  have kept : keepUntil config (truncateToolArgs estimateText config messages).1 =
      keepUntil config messages := by
    simp only [truncateToolArgs, keepUntil, List.length_append, List.length_map, List.length_take,
      List.length_drop]
    omega
  rw [kept]
  simp only [truncateToolArgs]
  rw [List.take_append_of_le_length (by rw [List.length_map, older])]
  rw [List.take_of_length_le (by rw [List.length_map, older])]

/-- What the second application rewrites, in terms of the first. -/
theorem rewritten_again {estimateText : String → Nat} :
    (∃ again, Rewritten config (truncateToolArgs estimateText config messages).1 again) ↔
      ∃ call, Rewritten config messages call ∧
        config.minArgsChars < keptWidth config (argsStr call) := by
  unfold Rewritten
  rw [keepUntil_truncated]
  constructor
  · rintro ⟨again, message, member, inside, rewritten⟩
    obtain ⟨old, stood, truncated⟩ := List.mem_map.mp member
    cases old with
    | plain => cases truncated
    | tool => cases truncated
    | ai old =>
      cases truncated
      obtain ⟨call, called, rfl⟩ := List.mem_map.mp inside
      by_cases first : rewrites config call = true
      · exact ⟨call, ⟨old, stood, called, first⟩, (rewrites_again first).mp rewritten⟩
      · rw [truncateCall, if_neg first] at rewritten
        exact absurd rewritten first
  · rintro ⟨call, ⟨message, stood, called, first⟩, long⟩
    refine ⟨truncateCall config call,
      { message with toolCalls := message.toolCalls.map (truncateCall config) }, ?_, ?_, ?_⟩
    · exact List.mem_map.mpr ⟨.ai message, stood, rfl⟩
    · exact List.mem_map.mpr ⟨call, called, rfl⟩
    · exact (rewrites_again first).mpr long

/-- The pass does what it says exactly when of every call that it rewrites the characters that the
settings keep, with the notice, fit into `min_args_chars`. -/
theorem args_truncation_iff (estimateText : String → Nat) (config : ArgsConfig)
    (messages : List Message) :
    Tidy estimateText config messages ↔
      ∀ call, Rewritten config messages call →
        (keptWidth config (argsStr call) : Int) ≤ config.minArgsChars := by
  constructor
  · intro tidy call rewritten
    by_cases long : config.minArgsChars < keptWidth config (argsStr call)
    · obtain ⟨again, rewrites⟩ := rewritten_again.mpr ⟨call, rewritten, long⟩
      exact absurd rewrites (tidy.settled again)
    · omega
  · intro fits
    constructor
    · intro call rewritten
      obtain ⟨message, stood, called, first⟩ := rewritten
      exact clipped_of_fits (rewrites_iff.mp first).2 (fits call ⟨message, stood, called, first⟩)
    · intro again rewrites
      obtain ⟨call, rewritten, long⟩ := rewritten_again.mp ⟨again, rewrites⟩
      have := fits call rewritten
      omega

/-! ## The shipped settings -/

theorem argsHead_pipeline (text : List Char) :
    argsHead pipelineArgsConfig text = text.take 600 := by
  simp [argsHead, sliceTo, pipelineArgsConfig]

theorem argsTail_pipeline (text : List Char) :
    argsTail pipelineArgsConfig text = text.drop (text.length - 600) := by
  simp [argsTail, sliceFrom, pipelineArgsConfig]

theorem pipeline_slices {call : Json} (long : 500 < (argsStr call).length) :
    500 < (argsHead pipelineArgsConfig (argsStr call)).length +
      (argsTail pipelineArgsConfig (argsStr call)).length := by
  rw [argsHead_pipeline, argsTail_pipeline, List.length_take, List.length_drop]
  omega

/-- Head and tail of 600 characters do not fit into 500. -/
theorem pipeline_never_settles (estimateText : String → Nat)
    (rewritten : Rewritten pipelineArgsConfig messages call) :
    ¬Tidy estimateText pipelineArgsConfig messages := by
  intro tidy
  obtain ⟨message, stood, called, first⟩ := rewritten
  have long : (500 : Int) < (argsStr call).length := (rewrites_iff.mp first).2
  have slices := pipeline_slices (by omega : 500 < (argsStr call).length)
  have width := slices_le_width pipelineArgsConfig (argsStr call)
  have too_long :
      pipelineArgsConfig.minArgsChars < keptWidth pipelineArgsConfig (argsStr call) := by
    change (500 : Int) < _
    omega
  obtain ⟨again, rewrites⟩ :=
    rewritten_again.mpr ⟨call, ⟨message, stood, called, first⟩, too_long⟩
  exact tidy.settled again rewrites

/-- A call with one argument of `n` letters. -/
def letterCall (n : Nat) : Json :=
  .obj [("name", .str "write_file"), ("id", .str "a"),
    ("args", .obj [("text", .str (String.ofList (List.replicate n 'a')))])]

/-- The call, and six messages behind it that the pass leaves alone. -/
def letterTranscript (n : Nat) : List Message :=
  .ai { toolCalls := [letterCall n] } :: List.replicate 6 (.ai { content := .text "done" })

theorem argsStr_letterCall (n : Nat) : (argsStr (letterCall n)).length = n + 12 := by
  have letters : Json.escape (List.replicate n 'a') = List.replicate n 'a' := by
    have letter : Json.escapeChar 'a' = ['a'] := by decide
    induction n with
    | zero => rfl
    | succ n ih =>
      simp only [Json.escape, List.replicate_succ, List.flatMap_cons, letter] at ih ⊢
      rw [ih]
      rfl
  have args : callArgs (letterCall n) =
      .obj [("text", .str (String.ofList (List.replicate n 'a')))] := rfl
  have key : (Json.dumpsStr "text").toList.length = 6 := by decide
  have opening : "\x7b".toList.length = 1 := by decide
  have separator : ": ".toList.length = 2 := by decide
  have closing : "\x7d".toList.length = 1 := by decide
  rw [argsStr, args]
  simp only [Json.dumps, Json.dumpsFields, String.toList_append, List.length_append,
    length_dumpsStr, String.toList_ofList, letters, List.length_replicate, key]
  omega

theorem rewritten_letterCall (n : Nat) (long : 488 < n) :
    Rewritten pipelineArgsConfig (letterTranscript n) (letterCall n) := by
  refine ⟨{ toolCalls := [letterCall n] }, ?_, List.mem_singleton_self _, ?_⟩
  · exact List.mem_cons_self
  · rw [rewrites_iff, argsStr_letterCall]
    constructor
    · have named : callName (letterCall n) = "write_file" := rfl
      rw [named]
      decide
    · change (500 : Int) < _
      omega

/-- 612 characters of arguments are kept twice, and the notice says that -588 are omitted. -/
theorem overlapping_slices :
    argsOmitted pipelineArgsConfig (argsStr (letterCall 600)) = -588 ∧
      ¬Tidy estimateTextTokens pipelineArgsConfig (letterTranscript 600) := by
  constructor
  · have length := argsStr_letterCall 600
    rw [argsOmitted, argsHead_pipeline, argsTail_pipeline, List.length_take, List.length_drop,
      length]
    rfl
  · exact pipeline_never_settles _ (rewritten_letterCall 600 (by omega))

end SherryAgent.Guarantees.TruncatedArgs
