import Mathlib.Data.Finset.Card
import Mathlib.Data.Finset.Range
import Mathlib.Logic.Relation
import SherryAgent.Source.SafetyFilter.StreamGuard

/-!
# What the stream guard lets out

A release stops at the first rule whose match is split, a release rewrites at most fifty
matches, and a rewrite can form a match with the text beside it.

* `guard_output_clean` — when no rewriting of the text forms a match, and no release comes to a
  split match behind one of a later rule or to more than fifty matches, nothing forbidden is
  returned, however the text is cut;
* `stable_of_foreign` — replacements of other characters never form a match;
* `split_match_releases_another` — a match before a split one leaves unreplaced.
-/

namespace SherryAgent.Guarantees.StreamGuard

open SherryAgent.Library SherryAgent.Source SherryAgent.Source.SafetyFilter

variable {rules : List CompiledRule} {message : Text} {rule : CompiledRule}
  {out buffer after x r y : Text} {i cut : Nat}

/-- The rules whose patterns may not be returned. -/
def forbidden (rules : List CompiledRule) : List CompiledRule :=
  rules.filter fun rule => rule.scope != .input && rule.action != .warn

/-- Those that are rewritten. -/
def replacing (rules : List CompiledRule) : List CompiledRule :=
  rules.filter fun rule => rule.scope != .input && rule.action == .replace

/-- `rule.replacement or SAFETY_FILTER["safe_replacement_message"]`. -/
def rewriteOf (message : Text) (rule : CompiledRule) : Text :=
  if rule.replacement = [] then message else rule.replacement

/-- Non-empty patterns that fit the window, and no pattern in a replacement. -/
structure Admissible (rules : List CompiledRule) (message : Text) (window : Nat) : Prop where
  nonempty : ∀ rule ∈ rules, rule.pattern ≠ []
  fits : ∀ rule ∈ rules, rule.pattern.length ≤ window
  apart : ∀ rule ∈ rules, ∀ other ∈ rules, ¬ other.pattern <:+: rewriteOf message rule

/-! ## The condition -/

/-- One match of a replace rule is rewritten, somewhere. -/
inductive Rewrites (rules : List CompiledRule) (message : Text) : Text → Text → Prop
  | one {rule : CompiledRule} (x y : Text) (member : rule ∈ replacing rules) :
    Rewrites rules message (x ++ (rule.pattern ++ y)) (x ++ (rewriteOf message rule ++ y))

/-- No forbidden pattern touches the replacement `r` between `x` and `y`. -/
def Untouched (rules : List CompiledRule) (x r y : Text) : Prop :=
  ∀ rule ∈ forbidden rules, ∀ i, OccursAt rule.pattern (x ++ (r ++ y)) i →
    i + rule.pattern.length ≤ x.length ∨ x.length + r.length ≤ i

/-- However matches of the text are rewritten, no rewrite forms a forbidden pattern. -/
def Stable (rules : List CompiledRule) (message text : Text) : Prop :=
  ∀ after, Relation.ReflTransGen (Rewrites rules message) text after →
    ∀ rule ∈ replacing rules, ∀ x y, after = x ++ (rule.pattern ++ y) →
      Untouched rules x (rewriteOf message rule) y

/-- Before a match that the release point splits, no match of a later rule starts. -/
def Uncrossed (rules : List CompiledRule) (buffer : Text) (cut : Nat) : Prop :=
  (replacing rules).Pairwise fun split other =>
    ∀ start < cut, cut < start + split.pattern.length → OccursAt split.pattern buffer start →
      ∀ i < start, ¬ OccursAt other.pattern buffer i

/-- The positions before the release point at which something is to be rewritten. -/
def starts (rules : List CompiledRule) (buffer : Text) (cut : Nat) : Finset Nat :=
  (Finset.range cut).filter fun i => ∃ rule ∈ replacing rules, OccursAt rule.pattern buffer i

/-- A feed that releases nothing, or comes to no split match behind one of a later rule and to no
more than fifty matches. -/
def Calm (rules : List CompiledRule) (guard : StreamTextGuard) (text : Text) : Prop :=
  guard.blocked = true ∨ text = [] ∨ (guard.pending ++ text).length ≤ guard.window ∨
    (∃ rule ∈ forbidden rules, rule.action = .block ∧ rule.pattern <:+: guard.pending ++ text) ∨
      (Uncrossed rules (guard.pending ++ text) ((guard.pending ++ text).length - guard.window) ∧
        (starts rules (guard.pending ++ text)
          ((guard.pending ++ text).length - guard.window)).card ≤ 50)

/-- Every feed is calm. -/
def StreamCalm (rules : List CompiledRule) (message : Text) (guard : StreamTextGuard) :
    List Text → Prop
  | [] => True
  | text :: rest =>
    Calm rules guard text ∧ StreamCalm rules message (guard.feed rules message text).1 rest

/-! ## What a scan finds -/

theorem mem_rules_of_forbidden (member : rule ∈ forbidden rules) : rule ∈ rules :=
  (List.mem_filter.mp member).1

theorem mem_replacing :
    rule ∈ replacing rules ↔ rule ∈ forbidden rules ∧ rule.action = .replace := by
  simp only [replacing, forbidden, List.mem_filter, Bool.and_eq_true, bne_iff_ne, beq_iff_eq, ne_eq]
  constructor
  · rintro ⟨held, scope, action⟩
    exact ⟨⟨held, scope, by rw [action]; decide⟩, action⟩
  · rintro ⟨⟨held, scope, -⟩, action⟩
    exact ⟨held, scope, action⟩

/-- A hit is its rule, whose pattern is in the text. -/
theorem hit_eq_some {hit : FilterHit} (hits : rule.hit buffer .output = some hit) :
    rule.scope ≠ .input ∧ hit.pattern = rule.pattern ∧ hit.matchedText = rule.pattern ∧
      hit.action = rule.action ∧ hit.replacement = rule.replacement ∧
        rule.pattern <:+: buffer := by
  unfold CompiledRule.hit at hits
  split at hits
  · cases hits
  · rename_i applies
    obtain ⟨matched, searched, made⟩ := Option.bind_eq_some_iff.mp hits
    unfold CompiledRule.search at searched
    split at searched
    · rename_i inside
      cases searched
      split at made
      · cases made
      · cases made
        refine ⟨?_, rfl, rfl, rfl, rfl, inside⟩
        intro input
        exact applies (by rw [input]; decide)
    · cases searched

theorem mem_scan {hit : FilterHit} (found : hit ∈ scan rules buffer .output) :
    ∃ rule ∈ rules, rule.hit buffer .output = some hit := by
  unfold scan at found
  split at found
  · cases found
  · exact List.mem_filterMap.mp found

/-- A forbidden pattern in the text is hit. -/
theorem scan_of_inside (member : rule ∈ forbidden rules) (nonempty : rule.pattern ≠ [])
    (inside : rule.pattern <:+: buffer) :
    ∃ hit ∈ scan rules buffer .output, hit.action = rule.action ∧
      hit.matchedText = rule.pattern := by
  obtain ⟨held, watched⟩ := List.mem_filter.mp member
  have applies : ¬ (rule.scope ≠ .output ∧ rule.scope ≠ .both) := by
    simp only [Bool.and_eq_true, bne_iff_ne, ne_eq] at watched
    cases scope : rule.scope with
    | input => exact absurd scope watched.1
    | output => simp
    | both => simp
  have text : buffer ≠ [] := by
    intro empty
    rw [empty] at inside
    exact nonempty (List.eq_nil_of_infix_nil inside)
  refine ⟨{
    pattern := rule.pattern
    matchedText := rule.pattern
    action := rule.action
    replacement := rule.replacement
    scope := rule.scope }, ?_, rfl, rfl⟩
  unfold scan
  rw [if_neg text]
  apply List.mem_filterMap.mpr
  refine ⟨rule, held, ?_⟩
  unfold CompiledRule.hit CompiledRule.search
  rw [if_neg applies, if_pos inside]
  simp [nonempty]

theorem blocked_of_inside (member : rule ∈ forbidden rules) (nonempty : rule.pattern ≠ [])
    (block : rule.action = .block) (inside : rule.pattern <:+: buffer) :
    (scan rules buffer .output).any (·.action == .block) = true := by
  obtain ⟨hit, found, action, -⟩ := scan_of_inside member nonempty inside
  rw [List.any_eq_true]
  refine ⟨hit, found, ?_⟩
  rw [action, block]
  rfl

theorem replace_of_forbidden (member : rule ∈ forbidden rules) (unblocked : rule.action ≠ .block) :
    rule.action = .replace := by
  obtain ⟨-, watched⟩ := List.mem_filter.mp member
  simp only [Bool.and_eq_true, bne_iff_ne, ne_eq] at watched
  cases action : rule.action with
  | block => exact absurd action unblocked
  | replace => rfl
  | warn => exact absurd action watched.2

/-! ## Rewriting a text -/

section Rewriting

variable {text p : Text}

theorem Rewrites.within (step : Rewrites rules message buffer after) (x y : Text) :
    Rewrites rules message (x ++ buffer ++ y) (x ++ after ++ y) := by
  cases step with
  | @one rule before behind member =>
    have moved := @Rewrites.one rules message rule (x ++ before) (behind ++ y) member
    simpa using moved

theorem reaches_within (steps : Relation.ReflTransGen (Rewrites rules message) buffer after)
    (x y : Text) :
    Relation.ReflTransGen (Rewrites rules message) (x ++ buffer ++ y) (x ++ after ++ y) :=
  Relation.ReflTransGen.lift (fun text => x ++ text ++ y)
    (fun _ _ (step : Rewrites rules message _ _) => step.within x y) _ _ steps

theorem Stable.reaches (stable : Stable rules message text)
    (steps : Relation.ReflTransGen (Rewrites rules message) text after) :
    Stable rules message after :=
  fun later more => stable later (steps.trans more)

/-- A part of the front is stable as well. -/
theorem Stable.left (stable : Stable rules message (text ++ y)) : Stable rules message text := by
  intro after steps rule member x z same other held i occurs
  have steps : Relation.ReflTransGen (Rewrites rules message) (text ++ y) (after ++ y) := by
    simpa using reaches_within steps [] y
  apply stable (after ++ y) steps rule member x (z ++ y) (by rw [same]; simp) other held i
  have longer := occurs.extend y
  simpa using longer

theorem Untouched.inner (untouched : Untouched rules (out ++ x) r y) : Untouched rules x r y := by
  intro rule member i occurs
  have moved : OccursAt rule.pattern (out ++ x ++ (r ++ y)) (out.length + i) := by
    rw [List.append_assoc]
    apply (occursAt_append_right (by omega)).mpr
    rwa [Nat.add_sub_cancel_left]
  have apart := untouched rule member _ moved
  rw [List.length_append] at apart
  omega

/-- A match behind a rewrite was there before. -/
theorem Untouched.occurs (untouched : Untouched rules x r y) (member : rule ∈ forbidden rules)
    (occurs : OccursAt rule.pattern (x ++ (r ++ y)) i) (p : Text) :
    (i + rule.pattern.length ≤ x.length ∧ OccursAt rule.pattern (x ++ (p ++ y)) i) ∨
      (x.length + r.length ≤ i ∧
        OccursAt rule.pattern (x ++ (p ++ y)) (i - r.length + p.length)) := by
  rcases untouched rule member i occurs with before | behind
  · exact .inl ⟨before, occurs.before_rewrite before (p ++ y)⟩
  · exact .inr ⟨behind, occurs.after_rewrite behind p⟩

/-- A rewrite before the release point crosses no matches. -/
theorem Uncrossed.rewrite (untouched : Untouched rules x r y)
    (nonempty : ∀ rule ∈ rules, rule.pattern ≠ []) (fits : x.length + p.length ≤ cut)
    (uncrossed : Uncrossed rules (x ++ (p ++ y)) cut) :
    Uncrossed rules (x ++ (r ++ y)) (cut + r.length - p.length) := by
  apply List.Pairwise.imp_of_mem _ uncrossed
  intro split other split_member other_member clear start before splits occurs i earlier crosses
  obtain ⟨split_forbidden, -⟩ := mem_replacing.mp split_member
  obtain ⟨other_forbidden, -⟩ := mem_replacing.mp other_member
  have long := List.length_pos_iff.mpr (nonempty other (mem_rules_of_forbidden other_forbidden))
  have longer := List.length_pos_iff.mpr (nonempty split (mem_rules_of_forbidden split_forbidden))
  rcases untouched.occurs split_forbidden occurs p with ⟨ahead, there⟩ | ⟨behind, there⟩
  · omega
  · rcases untouched.occurs other_forbidden crosses p with ⟨front, here⟩ | ⟨back, here⟩
    · exact clear _ (by omega) (by omega) there i (by omega) here
    · exact clear _ (by omega) (by omega) there _ (by omega) here

theorem card_starts_le : (starts rules buffer cut).card ≤ cut :=
  (Finset.card_filter_le _ _).trans (Finset.card_range cut).le

/-- A rewrite leaves fewer matches. -/
theorem starts_rewrite (untouched : Untouched rules x r y)
    (nonempty : ∀ rule ∈ rules, rule.pattern ≠ []) (member : rule ∈ replacing rules)
    (fits : x.length + rule.pattern.length ≤ cut) :
    (starts rules (x ++ (r ++ y)) (cut + r.length - rule.pattern.length)).card <
      (starts rules (x ++ (rule.pattern ++ y)) cut).card := by
  have long := List.length_pos_iff.mpr
    (nonempty rule (mem_rules_of_forbidden (mem_replacing.mp member).1))
  have here : x.length ∈ starts rules (x ++ (rule.pattern ++ y)) cut := by
    refine Finset.mem_filter.mpr ⟨Finset.mem_range.mpr (by omega), rule, member, ?_⟩
    unfold OccursAt
    rw [List.drop_left]
    exact List.prefix_append _ _
  rw [← Finset.card_erase_add_one here, Nat.lt_succ_iff]
  apply Finset.card_le_card_of_injOn
    (fun i => if i < x.length then i else i - r.length + rule.pattern.length)
  · intro i found
    obtain ⟨early, other, other_member, occurs⟩ := Finset.mem_filter.mp found
    have early := Finset.mem_range.mp early
    obtain ⟨other_forbidden, -⟩ := mem_replacing.mp other_member
    have positive := List.length_pos_iff.mpr
      (nonempty other (mem_rules_of_forbidden other_forbidden))
    apply Finset.mem_coe.mpr
    dsimp only
    rcases untouched.occurs other_forbidden occurs rule.pattern with ⟨front, there⟩ | ⟨back, there⟩
    · rw [if_pos (by omega)]
      refine Finset.mem_erase.mpr ⟨by omega, Finset.mem_filter.mpr ⟨?_, other, other_member, there⟩⟩
      exact Finset.mem_range.mpr (by omega)
    · rw [if_neg (by omega)]
      refine Finset.mem_erase.mpr ⟨by omega, Finset.mem_filter.mpr ⟨?_, other, other_member, there⟩⟩
      exact Finset.mem_range.mpr (by omega)
  · intro i found j found' same
    have apart (k : Nat) (inside : k ∈ starts rules (x ++ (r ++ y))
        (cut + r.length - rule.pattern.length)) : k < x.length ∨ x.length + r.length ≤ k := by
      obtain ⟨-, other, other_member, occurs⟩ := Finset.mem_filter.mp inside
      obtain ⟨other_forbidden, -⟩ := mem_replacing.mp other_member
      have positive := List.length_pos_iff.mpr
        (nonempty other (mem_rules_of_forbidden other_forbidden))
      have side := untouched other other_forbidden k occurs
      omega
    have side_i := apart i (Finset.mem_coe.mp found)
    have side_j := apart j (Finset.mem_coe.mp found')
    dsimp only at same
    split at same <;> split at same <;> omega

end Rewriting

/-! ## A release -/

section Hits

variable {hits : List FilterHit} {start stop : Nat} {replacement : Text}

/-- What is rewritten is the first match of a hit, and ends before the release point. -/
theorem findReplace_rewrite
    (found : findReplace message buffer cut hits = .rewrite start stop replacement) :
    ∃ hit ∈ hits, OccursAt hit.matchedText buffer start ∧
      stop = start + hit.matchedText.length ∧ stop ≤ cut ∧ replacement = hit.rewrite message := by
  induction hits with
  | nil => cases found
  | cons hit rest ih =>
    have later : findReplace message buffer cut rest = .rewrite start stop replacement →
        ∃ hit' ∈ hit :: rest, OccursAt hit'.matchedText buffer start ∧
          stop = start + hit'.matchedText.length ∧ stop ≤ cut ∧
            replacement = hit'.rewrite message := by
      intro found
      obtain ⟨hit', member, shape⟩ := ih found
      exact ⟨hit', List.mem_cons_of_mem _ member, shape⟩
    unfold findReplace at found
    split at found
    · exact later found
    · rename_i first there
      dsimp only at found
      split at found
      · rename_i fits
        split at found
        · exact later found
        · cases found
          exact ⟨hit, List.mem_cons_self, (findFirst_some there).1, rfl, fits, rfl⟩
      · split at found
        · cases found
        · exact later found

/-- The loop leaves a buffer alone only if no match starts before the release point. -/
theorem findReplace_nothing (found : findReplace message buffer cut hits = .nothing)
    (apart : ∀ hit ∈ hits, ¬ hit.pattern <:+: hit.rewrite message)
    (nonempty : ∀ hit ∈ hits, hit.matchedText ≠ []) :
    ∀ hit ∈ hits, ∀ i < cut, ¬ OccursAt hit.matchedText buffer i := by
  induction hits with
  | nil =>
    intro hit member
    cases member
  | cons head rest ih =>
    have later : findReplace message buffer cut rest = .nothing →
        ∀ hit ∈ rest, ∀ i < cut, ¬ OccursAt hit.matchedText buffer i := by
      intro nothing
      exact ih nothing (fun hit member => apart hit (List.mem_cons_of_mem _ member))
        fun hit member => nonempty hit (List.mem_cons_of_mem _ member)
    unfold findReplace at found
    intro hit member i before
    split at found
    · rename_i missing
      rcases List.mem_cons.mp member with same | old
      · subst same
        intro occurs
        exact findFirst_none missing (infix_iff_occursAt.mpr ⟨i, occurs⟩)
      · exact later found hit old i before
    · rename_i first there
      dsimp only at found
      split at found
      · rw [if_neg (apart head List.mem_cons_self)] at found
        cases found
      · rename_i beyond
        split at found
        · cases found
        · rename_i whole
          rcases List.mem_cons.mp member with same | old
          · subst same
            apply (findFirst_some there).2
            have positive := List.length_pos_iff.mpr (nonempty hit List.mem_cons_self)
            omega
          · exact later found hit old i before

/-- The loop stops at the first split match, and no match starts before that. -/
theorem findReplace_hold (found : findReplace message buffer cut hits = .hold start)
    (apart : ∀ hit ∈ hits, ¬ hit.pattern <:+: hit.rewrite message)
    (nonempty : ∀ hit ∈ hits, hit.matchedText ≠ [])
    (uncrossed : hits.Pairwise fun split other =>
      ∀ start < cut, cut < start + split.matchedText.length →
        OccursAt split.matchedText buffer start →
          ∀ i < start, ¬ OccursAt other.matchedText buffer i) :
    start < cut ∧ ∀ hit ∈ hits, ∀ i < start, ¬ OccursAt hit.matchedText buffer i := by
  induction hits with
  | nil => cases found
  | cons head rest ih =>
    rw [List.pairwise_cons] at uncrossed
    have later : findReplace message buffer cut rest = .hold start → start < cut ∧
        ∀ hit ∈ rest, ∀ i < start, ¬ OccursAt hit.matchedText buffer i := by
      intro hold
      exact ih hold (fun hit member => apart hit (List.mem_cons_of_mem _ member))
        (fun hit member => nonempty hit (List.mem_cons_of_mem _ member)) uncrossed.2
    unfold findReplace at found
    split at found
    · rename_i missing
      obtain ⟨early, others⟩ := later found
      refine ⟨early, ?_⟩
      intro hit member i before occurs
      cases member with
      | head => exact findFirst_none missing (infix_iff_occursAt.mpr ⟨i, occurs⟩)
      | tail _ member => exact others hit member i before occurs
    · rename_i first there
      obtain ⟨occurs_first, earliest⟩ := findFirst_some there
      dsimp only at found
      split at found
      · rw [if_neg (apart head List.mem_cons_self)] at found
        cases found
      · rename_i beyond
        split at found
        · rename_i splits
          cases found
          refine ⟨splits.1, ?_⟩
          intro hit member i before occurs
          cases member with
          | head => exact earliest i before occurs
          | tail _ member =>
            exact uncrossed.1 hit member start splits.1 splits.2 occurs_first i before occurs
        · rename_i whole
          obtain ⟨early, others⟩ := later found
          refine ⟨early, ?_⟩
          have positive := List.length_pos_iff.mpr (nonempty head List.mem_cons_self)
          intro hit member i before occurs
          cases member with
          | head => exact earliest i (by omega) occurs
          | tail _ member => exact others hit member i before occurs

end Hits

theorem rule_of_scan {hit : FilterHit} (found : hit ∈ scan rules buffer .output)
    (replaces : hit.action = .replace) :
    ∃ rule ∈ replacing rules, hit.pattern = rule.pattern ∧ hit.matchedText = rule.pattern ∧
      hit.rewrite message = rewriteOf message rule := by
  obtain ⟨rule, held, hits⟩ := mem_scan found
  obtain ⟨scope, pattern, matched, action, replacement, -⟩ := hit_eq_some hits
  refine ⟨rule, List.mem_filter.mpr ⟨held, ?_⟩, pattern, matched, ?_⟩
  · rw [← action, replaces]
    simpa using scope
  · rw [FilterHit.rewrite, replacement]
    rfl

theorem mem_replaceHits {hit : FilterHit} :
    hit ∈ replaceHits rules buffer ↔ hit ∈ scan rules buffer .output ∧ hit.action = .replace := by
  rw [replaceHits, List.mem_filter, beq_iff_eq]

/-- A match of a replace rule is a hit. -/
theorem replaceHit_of_occurs (nonempty : ∀ rule ∈ rules, rule.pattern ≠ [])
    (member : rule ∈ replacing rules) (occurs : OccursAt rule.pattern buffer i) :
    ∃ hit ∈ replaceHits rules buffer, hit.matchedText = rule.pattern := by
  obtain ⟨watched, replaces⟩ := mem_replacing.mp member
  obtain ⟨hit, found, action, matched⟩ := scan_of_inside watched
    (nonempty rule (mem_rules_of_forbidden watched)) (infix_iff_occursAt.mpr ⟨i, occurs⟩)
  exact ⟨hit, mem_replaceHits.mpr ⟨found, action.trans replaces⟩, matched⟩

/-- The hits are in the order of their rules. -/
theorem uncrossed_hits (uncrossed : Uncrossed rules buffer cut) :
    (replaceHits rules buffer).Pairwise fun split other =>
      ∀ start < cut, cut < start + split.matchedText.length →
        OccursAt split.matchedText buffer start →
          ∀ i < start, ¬ OccursAt other.matchedText buffer i := by
  have watched : ∀ rule : CompiledRule, ∀ hit, rule.hit buffer .output = some hit →
      (hit.action == .replace) = true →
        (rule.scope != .input && rule.action == .replace) = true ∧
          hit.matchedText = rule.pattern := by
    intro rule hit hits replaces
    obtain ⟨scope, -, matched, action, -, -⟩ := hit_eq_some hits
    refine ⟨?_, matched⟩
    rw [← action, replaces]
    simpa using scope
  unfold replaceHits scan
  rw [List.pairwise_filter]
  split
  · exact List.Pairwise.nil
  · rw [List.pairwise_filterMap]
    unfold Uncrossed replacing at uncrossed
    rw [List.pairwise_filter] at uncrossed
    apply List.Pairwise.imp _ uncrossed
    intro first second clear split splits other others replaces replaced
    obtain ⟨first_watched, first_pattern⟩ := watched first split splits replaces
    obtain ⟨second_watched, second_pattern⟩ := watched second other others replaced
    rw [first_pattern, second_pattern]
    exact clear first_watched second_watched

/-! ## The loop -/

/-- What the loop keeps: no blocked pattern anywhere, and none that starts in what is out. -/
structure Clear (rules : List CompiledRule) (out buffer : Text) : Prop where
  unblocked : ∀ rule ∈ forbidden rules, rule.action = .block →
    ∀ i, ¬ OccursAt rule.pattern (out ++ buffer) i
  free : ∀ rule ∈ forbidden rules, ∀ i < out.length, ¬ OccursAt rule.pattern (out ++ buffer) i

theorem Clear.rewrite {p : Text} (clear : Clear rules out (x ++ (p ++ y)))
    (untouched : Untouched rules (out ++ x) r y) : Clear rules out (x ++ (r ++ y)) := by
  constructor
  · intro rule member block i occurs
    rw [← List.append_assoc] at occurs
    rcases untouched.occurs member occurs p with ⟨-, there⟩ | ⟨-, there⟩ <;>
      rw [List.append_assoc] at there <;>
      exact clear.unblocked rule member block _ there
  · intro rule member i before occurs
    rw [← List.append_assoc] at occurs
    rcases untouched.occurs member occurs p with ⟨-, there⟩ | ⟨behind, -⟩
    · rw [List.append_assoc] at there
      exact clear.free rule member i before there
    · rw [List.length_append] at behind
      omega

/-- Where no match of a replace rule starts before the release point, none of any rule does. -/
theorem Clear.released (clear : Clear rules out buffer)
    (unmatched : ∀ rule ∈ replacing rules, ∀ i < cut, ¬ OccursAt rule.pattern buffer i) :
    ∀ rule ∈ forbidden rules, ∀ i < out.length + cut,
      ¬ OccursAt rule.pattern (out ++ buffer) i := by
  intro rule member i before occurs
  by_cases past : i < out.length
  · exact clear.free rule member i past occurs
  · by_cases block : rule.action = .block
    · exact clear.unblocked rule member block i occurs
    · have inside := (occursAt_append_right (by omega)).mp occurs
      exact unmatched rule (mem_replacing.mpr ⟨member, replace_of_forbidden member block⟩) _
        (by omega) inside

theorem replaceHit_apart {window : Nat} {hit : FilterHit} (adm : Admissible rules message window)
    (member : hit ∈ replaceHits rules buffer) :
    ¬ hit.pattern <:+: hit.rewrite message ∧ hit.matchedText ≠ [] := by
  obtain ⟨found, replaces⟩ := mem_replaceHits.mp member
  obtain ⟨rule, watched, pattern, matched, rewrite⟩ :=
    @rule_of_scan rules message buffer hit found replaces
  have held := mem_rules_of_forbidden (mem_replacing.mp watched).1
  rw [pattern, matched, rewrite]
  exact ⟨adm.apart rule held rule held, adm.nonempty rule held⟩

/-- One turn of the loop that rewrites. -/
theorem rewritten_eq {start stop : Nat} {replacement : Text}
    (nonempty : ∀ rule ∈ rules, rule.pattern ≠ [])
    (found : findReplace message buffer cut (replaceHits rules buffer) =
      .rewrite start stop replacement) :
    ∃ rule ∈ replacing rules, ∃ x y, buffer = x ++ (rule.pattern ++ y) ∧
      rewritten buffer start stop replacement = x ++ (rewriteOf message rule ++ y) ∧
        x.length + rule.pattern.length = stop ∧ stop ≤ cut ∧ stop - start = rule.pattern.length ∧
          replacement = rewriteOf message rule := by
  obtain ⟨hit, member, there, ends, fits, same⟩ := findReplace_rewrite found
  obtain ⟨scanned, replaces⟩ := mem_replaceHits.mp member
  obtain ⟨rule, watched, -, matched, rewrite⟩ :=
    @rule_of_scan rules message buffer hit scanned replaces
  rw [matched] at there ends
  rw [rewrite] at same
  subst same ends
  have size := there.fits (nonempty rule (mem_rules_of_forbidden (mem_replacing.mp watched).1))
  refine ⟨rule, watched, buffer.take start, buffer.drop (start + rule.pattern.length), ?_, rfl, ?_,
    fits, by omega, rfl⟩
  · obtain ⟨later, split⟩ := there
    rw [← List.drop_drop, ← split, List.drop_left, split, List.take_append_drop]
  · rw [List.length_take]
    omega

/-- What leaves in a calm release starts no forbidden pattern. -/
theorem applyReplaces_clear {window : Nat} (adm : Admissible rules message window) (fuel : Nat)
    (clear : Clear rules out buffer) (held : cut + window ≤ buffer.length)
    (stable : Stable rules message (out ++ buffer)) (uncrossed : Uncrossed rules buffer cut)
    (few : (starts rules buffer cut).card ≤ fuel) :
    (applyReplaces rules message fuel buffer cut).2 + window ≤
        (applyReplaces rules message fuel buffer cut).1.length ∧
      (∀ rule ∈ forbidden rules,
        ∀ i < out.length + (applyReplaces rules message fuel buffer cut).2,
          ¬ OccursAt rule.pattern (out ++ (applyReplaces rules message fuel buffer cut).1) i) ∧
      Relation.ReflTransGen (Rewrites rules message) buffer
        (applyReplaces rules message fuel buffer cut).1 := by
  induction fuel generalizing buffer cut with
  | zero =>
    refine ⟨held, clear.released ?_, .refl⟩
    intro rule member i before occurs
    have none_left := Finset.card_eq_zero.mp (Nat.le_zero.mp few)
    have inside : i ∈ starts rules buffer cut :=
      Finset.mem_filter.mpr ⟨Finset.mem_range.mpr before, rule, member, occurs⟩
    rw [none_left] at inside
    exact absurd inside (Finset.notMem_empty i)
  | succ fuel ih =>
    unfold applyReplaces
    generalize found : findReplace message buffer cut (replaceHits rules buffer) = next
    cases next with
    | rewrite start stop replacement =>
      dsimp only
      obtain ⟨rule, member, x, y, whole, rewrites, ends, fits, width, rfl⟩ :=
        rewritten_eq adm.nonempty found
      rw [rewrites, width]
      subst whole
      have early : x.length + rule.pattern.length ≤ cut := by omega
      have step := @Rewrites.one rules message rule x y member
      have untouched : Untouched rules (out ++ x) (rewriteOf message rule) y :=
        stable _ .refl rule member (out ++ x) y (List.append_assoc out x _).symm
      have onward : Relation.ReflTransGen (Rewrites rules message)
          (out ++ (x ++ (rule.pattern ++ y))) (out ++ (x ++ (rewriteOf message rule ++ y))) := by
        simpa using reaches_within (.single step) out []
      obtain ⟨size, released, steps⟩ := ih (clear.rewrite untouched) (by
          simp only [List.length_append] at held ⊢
          omega) (stable.reaches onward)
        (uncrossed.rewrite untouched.inner adm.nonempty early) (by
          have fewer := starts_rewrite untouched.inner adm.nonempty member early
          exact Nat.le_of_lt_succ (Nat.lt_of_lt_of_le fewer few))
      exact ⟨size, released, steps.head step⟩
    | hold start =>
      dsimp only
      obtain ⟨short, unmatched⟩ := findReplace_hold found
        (fun hit member => (replaceHit_apart adm member).1)
        (fun hit member => (replaceHit_apart adm member).2) (uncrossed_hits uncrossed)
      refine ⟨by omega, clear.released ?_, .refl⟩
      intro rule member i before occurs
      obtain ⟨hit, replaced, matched⟩ := replaceHit_of_occurs adm.nonempty member occurs
      exact unmatched hit replaced i before (by rwa [matched])
    | nothing =>
      dsimp only
      refine ⟨held, clear.released ?_, .refl⟩
      intro rule member i before occurs
      obtain ⟨hit, replaced, matched⟩ := replaceHit_of_occurs adm.nonempty member occurs
      have none_left := findReplace_nothing found
        (fun hit member => (replaceHit_apart adm member).1)
        (fun hit member => (replaceHit_apart adm member).2) hit replaced i before
      exact none_left (by rwa [matched])

/-! ## The flush -/

/-- The patterns of the replace hits. -/
def patterns (hits : List FilterHit) : List Text :=
  (hits.filter (·.action == .replace)).map (·.matchedText)

/-- What is left to find: patterns of rules still to come, and the current one behind what
the pass has done. -/
def Pending (rules : List CompiledRule) (out done rest old : Text) (later : List Text) : Prop :=
  ∀ rule ∈ forbidden rules, ∀ i, OccursAt rule.pattern (out ++ done ++ rest) i →
    out.length ≤ i ∧ (rule.pattern ∈ later ∨
      (rule.pattern = old ∧ out.length + done.length ≤ i))

/-- Every forbidden pattern of the text belongs to a rule still to come. -/
def Remaining (rules : List CompiledRule) (out text : Text) (later : List Text) : Prop :=
  ∀ rule ∈ forbidden rules, ∀ i, OccursAt rule.pattern (out ++ text) i →
    out.length ≤ i ∧ rule.pattern ∈ later

section Flush

variable {old new text done rest : Text} {later : List Text}

theorem Pending.rewrite {tail : Text} (pending : Pending rules out done rest old later)
    (nonempty : old ≠ []) (here : rest = old ++ tail)
    (untouched : Untouched rules (out ++ done) new tail) :
    Pending rules out (done ++ new) tail old later := by
  intro rule member i occurs
  rw [← List.append_assoc out done new, List.append_assoc (out ++ done)] at occurs
  have length : (done ++ new).length = done.length + new.length := List.length_append
  have front : (out ++ done).length = out.length + done.length := List.length_append
  have positive := List.length_pos_iff.mpr nonempty
  rcases untouched.occurs member occurs old with ⟨ahead, there⟩ | ⟨behind, there⟩
  · obtain ⟨past, found⟩ := pending rule member i (by rw [here]; exact there)
    refine ⟨past, ?_⟩
    rcases found with waits | ⟨same, beyond⟩
    · exact .inl waits
    · rw [same] at ahead
      omega
  · obtain ⟨-, found⟩ := pending rule member _ (by rw [here]; exact there)
    refine ⟨by omega, ?_⟩
    rcases found with waits | ⟨same, beyond⟩
    · exact .inl waits
    · exact .inr ⟨same, by omega⟩

theorem Pending.skip {c : Char} (pending : Pending rules out done (c :: rest) old later)
    (absent : ¬ old <+: c :: rest) : Pending rules out (done ++ [c]) rest old later := by
  intro rule member i occurs
  have same_text : out ++ (done ++ [c]) ++ rest = out ++ done ++ c :: rest := by simp
  rw [same_text] at occurs
  obtain ⟨past, found⟩ := pending rule member i occurs
  refine ⟨past, ?_⟩
  rcases found with waits | ⟨same, beyond⟩
  · exact .inl waits
  · right
    refine ⟨same, ?_⟩
    have length : (done ++ [c]).length = done.length + 1 := by simp
    by_cases exact_end : i = out.length + done.length
    · exfalso
      apply absent
      have inside := (occursAt_append_right (by simp [exact_end])).mp occurs
      have start : i - (out ++ done).length = 0 := by simp [exact_end]
      rw [start, same] at inside
      exact inside
    · omega

theorem Pending.finish (pending : Pending rules out done [] old later) (nonempty : old ≠ []) :
    Remaining rules out done later := by
  intro rule member i occurs
  obtain ⟨past, found⟩ := pending rule member i (by rw [List.append_nil]; exact occurs)
  refine ⟨past, ?_⟩
  rcases found with waits | ⟨same, beyond⟩
  · exact waits
  · rw [same] at occurs
    have fits := occurs.fits nonempty
    have positive := List.length_pos_iff.mpr nonempty
    rw [List.length_append] at fits
    omega

/-- A pass rewrites, and leaves only patterns that a later pass looks for. -/
theorem Pending.pass {fuel : Nat} (pending : Pending rules out done rest rule.pattern later)
    (member : rule ∈ replacing rules) (nonempty : rule.pattern ≠ []) (enough : rest.length ≤ fuel)
    (stable : Stable rules message (out ++ done ++ rest)) :
    Remaining rules out
        (done ++ PyText.replaceChars rule.pattern (rewriteOf message rule) fuel rest) later ∧
      Stable rules message
        (out ++ (done ++ PyText.replaceChars rule.pattern (rewriteOf message rule) fuel rest)) := by
  induction fuel generalizing done rest with
  | zero =>
    have empty : rest = [] := List.length_eq_zero_iff.mp (by omega)
    subst empty
    rw [PyText.replaceChars, ← List.append_assoc]
    exact ⟨by rw [List.append_nil]; exact pending.finish nonempty, stable⟩
  | succ fuel ih =>
    cases rest with
    | nil =>
      rw [PyText.replaceChars, ← List.append_assoc]
      · exact ⟨by rw [List.append_nil]; exact pending.finish nonempty, stable⟩
      · exact Nat.succ_ne_zero _
    | cons c rest =>
      unfold PyText.replaceChars
      by_cases here : rule.pattern.isPrefixOf (c :: rest) = true
      · rw [if_pos here, ← List.append_assoc]
        obtain ⟨tail, split⟩ := List.isPrefixOf_iff_prefix.mp here
        have dropped : (c :: rest).drop rule.pattern.length = tail := by
          rw [← split, List.drop_left]
        rw [dropped]
        rw [← split] at stable
        have step := @Rewrites.one rules message rule (out ++ done) tail member
        have untouched := stable _ .refl rule member (out ++ done) tail rfl
        have sizes := congrArg List.length split
        rw [List.length_append] at sizes
        have positive := List.length_pos_iff.mpr nonempty
        apply ih
        · exact pending.rewrite nonempty split.symm untouched
        · omega
        · have onward := stable.reaches (.single step)
          simpa using onward
      · rw [if_neg here]
        have shape : done ++ c ::
              PyText.replaceChars rule.pattern (rewriteOf message rule) fuel rest =
            done ++ [c] ++ PyText.replaceChars rule.pattern (rewriteOf message rule) fuel rest := by
          simp
        rw [shape]
        apply ih
        · apply pending.skip
          intro found
          exact here (List.isPrefixOf_iff_prefix.mpr found)
        · simpa using enough
        · simpa using stable

end Flush

theorem patterns_replace {hit : FilterHit} {rest : List FilterHit}
    (replaces : hit.action = .replace) :
    patterns (hit :: rest) = hit.matchedText :: patterns rest := by
  unfold patterns
  rw [List.filter_cons_of_pos (by rw [replaces]; rfl), List.map_cons]

theorem patterns_other {hit : FilterHit} {rest : List FilterHit} (other : hit.action ≠ .replace) :
    patterns (hit :: rest) = patterns rest := by
  unfold patterns
  rw [List.filter_cons_of_neg (by simpa using other)]

theorem applyReplacements_clean {hits : List FilterHit} {text : Text}
    (nonempty : ∀ rule ∈ rules, rule.pattern ≠ [])
    (ruled : ∀ hit ∈ hits, hit.action = .replace → ∃ rule ∈ replacing rules,
      hit.matchedText = rule.pattern ∧ hit.rewrite message = rewriteOf message rule)
    (remaining : Remaining rules out text (patterns hits))
    (stable : Stable rules message (out ++ text)) :
    Remaining rules out (applyReplacements message text hits) [] := by
  induction hits generalizing text with
  | nil => exact remaining
  | cons hit rest ih =>
    have later := fun other member => ruled other (List.mem_cons_of_mem hit member)
    unfold applyReplacements
    split
    · rename_i other
      rw [patterns_other other] at remaining
      exact ih later remaining stable
    · rename_i replaces
      rw [not_not] at replaces
      obtain ⟨rule, member, matched, rewrite⟩ := ruled hit List.mem_cons_self replaces
      have starts : Pending rules out [] text rule.pattern (patterns rest) := by
        intro watched there i occurs
        rw [List.append_nil] at occurs
        obtain ⟨past, found⟩ := remaining watched there i occurs
        rw [patterns_replace replaces, matched] at found
        refine ⟨past, ?_⟩
        rcases List.mem_cons.mp found with same | waits
        · exact .inr ⟨same, past⟩
        · exact .inl waits
      rw [matched, rewrite]
      obtain ⟨left, onward⟩ := @Pending.pass rules message rule out [] text (patterns rest) _
        starts member (nonempty rule (mem_rules_of_forbidden (mem_replacing.mp member).1))
        (Nat.le_refl _) (by rwa [List.append_nil])
      exact ih later left onward

/-! ## The stream -/

/-- A guard beside what is out: nothing forbidden starts there, and too much is held back for
one to be completed. -/
structure Holds (rules : List CompiledRule) (window : Nat) (guard : StreamTextGuard) (out : Text) :
    Prop where
  width : guard.window = window
  free : ∀ rule ∈ forbidden rules, ∀ i < out.length,
    ¬ OccursAt rule.pattern (out ++ guard.pending) i
  long : out = [] ∨ window ≤ guard.pending.length ∨ guard.blocked = true

section Stream

variable {window : Nat} {guard : StreamTextGuard} {text : Text}

/-- More text completes nothing that has started to leave. -/
theorem Holds.extend (holds : Holds rules window guard out) (adm : Admissible rules message window)
    (unlatched : guard.blocked = false) (text : Text) :
    ∀ rule ∈ forbidden rules, ∀ i < out.length,
      ¬ OccursAt rule.pattern (out ++ (guard.pending ++ text)) i := by
  intro rule member i before occurs
  have short := adm.fits rule (mem_rules_of_forbidden member)
  rcases holds.long with empty | long | blocked
  · rw [empty] at before
    exact absurd before (Nat.not_lt_zero _)
  · rw [← List.append_assoc] at occurs
    apply holds.free rule member i before
    exact (occursAt_append_left (by rw [List.length_append]; omega)).mp occurs
  · rw [unlatched] at blocked
    cases blocked

/-- What is out is clean. -/
theorem Holds.clean (holds : Holds rules window guard out) (adm : Admissible rules message window)
    (member : rule ∈ forbidden rules) : ¬ rule.pattern <:+: out := by
  intro inside
  obtain ⟨i, occurs⟩ := infix_iff_occursAt.mp inside
  have nonempty := adm.nonempty rule (mem_rules_of_forbidden member)
  have fits := occurs.fits nonempty
  have positive := List.length_pos_iff.mpr nonempty
  apply holds.free rule member i (by omega)
  exact (occursAt_append_left fits).mpr occurs

theorem unblocked_scan (adm : Admissible rules message window)
    (passes : (scan rules buffer .output).any (·.action == .block) = false)
    (free : ∀ rule ∈ forbidden rules, ∀ i < out.length, ¬ OccursAt rule.pattern (out ++ buffer) i) :
    Clear rules out buffer := by
  constructor
  · intro rule member block i occurs
    by_cases past : i < out.length
    · exact free rule member i past occurs
    · have inside := (occursAt_append_right (by omega)).mp occurs
      have hit := blocked_of_inside member (adm.nonempty rule (mem_rules_of_forbidden member)) block
        (infix_iff_occursAt.mpr ⟨_, inside⟩)
      rw [passes] at hit
      cases hit
  · exact free

/-- A calm feed that releases something comes to no split match behind one of a later rule. -/
theorem Calm.releases (calm : Calm rules guard text) (adm : Admissible rules message window)
    (unlatched : guard.blocked = false) (something : text ≠ [])
    (full : ¬(guard.pending ++ text).length ≤ guard.window)
    (passes : (scan rules (guard.pending ++ text) .output).any (·.action == .block) = false) :
    Uncrossed rules (guard.pending ++ text) ((guard.pending ++ text).length - guard.window) ∧
      (starts rules (guard.pending ++ text)
        ((guard.pending ++ text).length - guard.window)).card ≤ 50 := by
  rcases calm with blocked | empty | short | hit | loop
  · rw [unlatched] at blocked
    cases blocked
  · exact absurd empty something
  · exact absurd short full
  · obtain ⟨rule, member, block, inside⟩ := hit
    rw [blocked_of_inside member (adm.nonempty rule (mem_rules_of_forbidden member)) block
      inside] at passes
    cases passes
  · exact loop

theorem Holds.feed (holds : Holds rules window guard out) (adm : Admissible rules message window)
    {rest : Text} (calm : Calm rules guard text)
    (stable : guard.blocked = true ∨
      Stable rules message (out ++ (guard.pending ++ (text ++ rest)))) :
    Holds rules window (guard.feed rules message text).1
        (out ++ (guard.feed rules message text).2) ∧
      ((guard.feed rules message text).1.blocked = true ∨ Stable rules message
        (out ++ (guard.feed rules message text).2 ++
          ((guard.feed rules message text).1.pending ++ rest))) := by
  unfold StreamTextGuard.feed
  split
  · rename_i idle
    rw [List.append_nil]
    refine ⟨holds, ?_⟩
    rcases stable with blocked | stable
    · exact .inl blocked
    · rcases idle with blocked | empty
      · exact .inl blocked
      · rw [empty, List.nil_append] at stable
        exact .inr stable
  rename_i fed
  simp only [not_or, Bool.not_eq_true] at fed
  have free := holds.extend adm fed.1 text
  have stable : Stable rules message (out ++ (guard.pending ++ text) ++ rest) := by
    rcases stable with blocked | stable
    · rw [fed.1] at blocked
      cases blocked
    · simpa using stable
  unfold StreamTextGuard.release
  dsimp only
  split
  · rename_i short
    rw [List.append_nil]
    refine ⟨⟨holds.width, free, ?_⟩, .inr (by simpa using stable)⟩
    rcases holds.long with empty | long | blocked
    · exact .inl empty
    · right
      left
      rw [List.length_append]
      omega
    · exact .inr (.inr blocked)
  rename_i full
  split
  · rw [List.append_nil]
    refine ⟨⟨holds.width, ?_, .inr (.inr rfl)⟩, .inl rfl⟩
    intro rule member i before occurs
    rw [List.append_nil] at occurs
    have nonempty := adm.nonempty rule (mem_rules_of_forbidden member)
    apply free rule member i before
    exact (occursAt_append_left (occurs.fits nonempty)).mpr occurs
  · rename_i unblocked
    have passes : (scan rules (guard.pending ++ text) .output).any (·.action == .block) =
        false := by
      simpa using unblocked
    have clear := unblocked_scan adm passes free
    have loop := calm.releases adm fed.1 fed.2 full passes
    have held : (guard.pending ++ text).length - guard.window + window ≤
        (guard.pending ++ text).length := by
      rw [holds.width] at full ⊢
      omega
    obtain ⟨size, released, steps⟩ :=
      applyReplaces_clear adm 50 clear held stable.left loop.1 loop.2
    refine ⟨⟨holds.width, ?_, .inr (.inl ?_)⟩, .inr ?_⟩
    · intro rule member i before occurs
      dsimp only at occurs before
      rw [List.append_assoc, List.take_append_drop] at occurs
      rw [List.length_append, List.length_take] at before
      exact released rule member i (by omega) occurs
    · dsimp only
      rw [List.length_drop]
      omega
    · have onward := stable.reaches (reaches_within steps out rest)
      dsimp only
      rwa [List.append_assoc out, ← List.append_assoc _ _ rest, List.take_append_drop,
        ← List.append_assoc]

theorem Holds.flush (holds : Holds rules window guard out) (adm : Admissible rules message window)
    (stable : guard.blocked = true ∨ Stable rules message (out ++ guard.pending))
    (member : rule ∈ forbidden rules) :
    ¬ rule.pattern <:+: out ++ (guard.flush rules message).2 := by
  unfold StreamTextGuard.flush
  split
  · rw [List.append_nil]
    exact holds.clean adm member
  rename_i flushed
  simp only [not_or, Bool.not_eq_true] at flushed
  have stable : Stable rules message (out ++ guard.pending) := by
    rcases stable with blocked | stable
    · rw [flushed.1] at blocked
      cases blocked
    · exact stable
  dsimp only
  split
  · rw [List.append_nil]
    exact holds.clean adm member
  · rename_i unblocked
    have passes : (scan rules guard.pending .output).any (·.action == .block) = false := by
      simpa using unblocked
    have clear := unblocked_scan adm passes holds.free
    have remaining : Remaining rules out guard.pending
        (patterns (scan rules guard.pending .output)) := by
      intro watched there i occurs
      have past : out.length ≤ i := by
        by_contra before
        exact clear.free watched there i (by omega) occurs
      refine ⟨past, ?_⟩
      have inside := (occursAt_append_right past).mp occurs
      have replaces : watched.action = .replace := by
        apply replace_of_forbidden there
        intro block
        exact clear.unblocked watched there block i occurs
      obtain ⟨hit, found, matched⟩ := replaceHit_of_occurs adm.nonempty
        (mem_replacing.mpr ⟨there, replaces⟩) inside
      rw [← matched]
      exact List.mem_map_of_mem found
    intro inside
    obtain ⟨i, occurs⟩ := infix_iff_occursAt.mp inside
    have none_left := applyReplacements_clean adm.nonempty (fun hit found replaces => by
      obtain ⟨source, held, -, matched, rewrite⟩ :=
        @rule_of_scan rules message guard.pending hit found replaces
      exact ⟨source, held, matched, rewrite⟩) remaining stable rule member i occurs
    cases none_left.2

theorem Holds.stream (adm : Admissible rules message window) (texts : List Text)
    (holds : Holds rules window guard out)
    (stable : guard.blocked = true ∨
      Stable rules message (out ++ (guard.pending ++ texts.flatten)))
    (calm : StreamCalm rules message guard texts) (member : rule ∈ forbidden rules) :
    ¬ rule.pattern <:+: out ++ guard.stream rules message texts := by
  induction texts generalizing guard out with
  | nil =>
    rw [List.flatten_nil, List.append_nil] at stable
    exact holds.flush adm stable member
  | cons text rest ih =>
    unfold StreamTextGuard.stream
    rw [← List.append_assoc]
    obtain ⟨onward, still⟩ := holds.feed adm calm.1 stable
    exact ih onward still calm.2

end Stream

/-- When no rewriting of the text forms a match and every feed is calm, nothing forbidden is
returned, however the text is cut into feed calls. -/
theorem guard_output_clean (rules : List CompiledRule) (message : Text) (window : Nat)
    (texts : List Text) (adm : Admissible rules message window)
    (stable : Stable rules message texts.flatten)
    (calm : StreamCalm rules message { window } texts) :
    ∀ rule ∈ forbidden rules,
      ¬ rule.pattern <:+: StreamTextGuard.stream rules message { window } texts := by
  intro rule member
  have fresh : Holds rules window { window } [] := by
    constructor
    · rfl
    · intro watched there i before
      exact absurd before (Nat.not_lt_zero _)
    · exact .inl rfl
  have clean := fresh.stream adm texts (.inr stable) calm member
  exact clean

/-! ## Replacements of other characters -/

/-- A pattern that touches the replacement shares a character with it. -/
theorem untouched_of_foreign (something : r ≠ [])
    (foreign : ∀ rule ∈ forbidden rules, rule.pattern ≠ [] ∧ ∀ c ∈ rule.pattern, c ∉ r) :
    Untouched rules x r y := by
  intro rule member i occurs
  obtain ⟨nonempty, other⟩ := foreign rule member
  have positive := List.length_pos_iff.mpr nonempty
  have some_length := List.length_pos_iff.mpr something
  by_contra touches
  rw [not_or] at touches
  -- The first position that both have.
  obtain ⟨k, same⟩ : ∃ k, k = max i x.length - i := ⟨_, rfl⟩
  have inside : k < rule.pattern.length := by omega
  have there : rule.pattern[k] ∈ r := by
    obtain ⟨later, whole⟩ := occurs
    have read : (rule.pattern ++ later)[k]? = some rule.pattern[k] := by
      rw [List.getElem?_append_left inside, List.getElem?_eq_getElem inside]
    rw [whole, List.getElem?_drop, List.getElem?_append_right (by omega),
      List.getElem?_append_left (by omega)] at read
    exact List.mem_of_getElem? read
  exact other _ (List.getElem_mem inside) there

theorem stable_of_foreign (text : Text)
    (foreign : ∀ rule ∈ replacing rules, rewriteOf message rule ≠ [] ∧
      ∀ other ∈ forbidden rules, other.pattern ≠ [] ∧
        ∀ c ∈ other.pattern, c ∉ rewriteOf message rule) : Stable rules message text := by
  intro after _ rule member x y _
  obtain ⟨something, apart⟩ := foreign rule member
  exact untouched_of_foreign something apart

/-- A block rule, and a replace rule with a replacement of other characters. -/
def starred : List CompiledRule :=
  [{ pattern := ['b', 'a', 'd'] },
    { pattern := ['c', 'a', 't'], action := .replace, replacement := ['*', '*', '*'] }]

/-- `a cat` is fed, then ` sat`. -/
def fed : List Text := [['a', ' ', 'c', 'a', 't'], [' ', 's', 'a', 't']]

theorem guard_output_clean_starred :
    StreamTextGuard.stream starred [] { window := 3 } fed =
        ['a', ' ', '*', '*', '*', ' ', 's', 'a', 't'] ∧
      ∀ rule ∈ forbidden starred,
        ¬ rule.pattern <:+: StreamTextGuard.stream starred [] { window := 3 } fed := by
  have adm : Admissible starred [] 3 := by
    constructor <;> decide
  have stable : Stable starred [] fed.flatten := by
    apply stable_of_foreign
    simp [replacing, forbidden, starred, rewriteOf]
  have calm : StreamCalm starred [] { window := 3 } fed := by
    refine ⟨?_, ?_, trivial⟩
    · refine .inr (.inr (.inr (.inr ⟨?_, card_starts_le.trans ?_⟩)))
      · unfold Uncrossed
        decide
      · change 2 ≤ 50
        decide
    · refine .inr (.inr (.inr (.inr ⟨?_, card_starts_le.trans ?_⟩)))
      · unfold Uncrossed
        decide
      · change 4 ≤ 50
        decide
  exact ⟨by decide, guard_output_clean starred [] 3 fed adm stable calm⟩

/-- Two replace rules; the match of the first is split by the release point. -/
def splitting : List CompiledRule :=
  [{ pattern := ['c', 'd'], action := .replace, replacement := ['*'] },
    { pattern := ['a'], action := .replace, replacement := ['*'] }]

/-- `acdz` is fed to a window of two: `a` leaves as it came. -/
theorem split_match_releases_another :
    Admissible splitting [] 2 ∧
      ∃ rule ∈ forbidden splitting, rule.pattern <:+:
        StreamTextGuard.stream splitting [] { window := 2 } [['a', 'c', 'd', 'z']] := by
  constructor
  · constructor <;> decide
  · decide

end SherryAgent.Guarantees.StreamGuard
