import Mathlib.Data.Prod.Lex
import SherryAgent.Library.Solo
import SherryAgent.Source.Effects.IntentLog

/-!
# Reaching the intents that have a handler

A tick fetches the first fifty due intents and passes over those whose kind has
no handler, which stay pending and due. It therefore claims a handled intent
exactly when one of them is among the first fifty.

* `claims_iff` — a tick that has the log to itself claims a due intent with a
  handler, if there is one, exactly when fewer than fifty due intents come before
  some such intent;
* `unhandled_head_starves` — fifty intents without a handler hide the next one.
-/

namespace SherryAgent.Guarantees.HandledIntents

open SherryAgent.Source.Effects SherryAgent.Library SherryAgent.Library.Resumption

/-- The process around one tick: what its clock, its settings and its handlers answer. -/
structure Process where
  clock : List (Event effects) → Rat
  setting : Setting → Int
  /-- The kinds with a registered handler. -/
  registered : String → Bool
  outcome : List (Event effects) → IntentRow → Except String EffectResult

namespace Process

variable (process : Process)

def input (h : List (Event effects)) : Op → Input
  | .clock => .time (process.clock h)
  | .hasHandler kind => .registered (process.registered kind)
  | .setting name => .value (process.setting name)
  | .handler row => .outcome (process.outcome h row)
  | _ => .tick

/-- The time at which the tick fetches. -/
def now : Rat := process.clock []

/-- A program that has the log to itself. -/
def alone {α : Type} (program : Prog effects α) (h : List (Event effects)) (table : IntentTable) :
    Option (α × List (Event effects) × IntentTable) :=
  program.solo exec process.input h table

theorem alone_perform {α : Type} {op : Op} {ans : op.Ans} {next : op.Ans → Prog effects α}
    {h : List (Event effects)} {table after : IntentTable}
    (executed : exec op table (process.input h op) = some (ans, after)) :
    process.alone (perform op >>= next) h table =
      process.alone (next ans) (h ++ [⟨op, ans⟩]) after :=
  Prog.solo_perform_bind executed

theorem enabled (op : Op) (h : List (Event effects)) (table : IntentTable) :
    (exec op table (process.input h op)).isSome = true := by
  cases op <;> rfl

end Process

/-- Due and pending. -/
def waiting (now : Rat) (row : IntentRow) : Bool :=
  row.status == .pending && decide (row.dueAt ≤ now)

/-- The statement that claims the row, with the answer that it hit. -/
def claimOf (row : IntentRow) : Event effects := ⟨.markInFlight row.id row.generation, true⟩

/-- The tick returns, and it has claimed a due intent with a handler. -/
def ClaimsOne (process : Process) (table : IntentTable) : Prop :=
  ∃ done h after, process.alone tick [] table = some (done, h, after) ∧
    ∃ row ∈ table.rows, waiting process.now row = true ∧ process.registered row.kind = true ∧
      claimOf row ∈ h

/-- A due intent with a handler. -/
def HandledDue (process : Process) (table : IntentTable) : Prop :=
  ∃ row ∈ table.rows, waiting process.now row = true ∧ process.registered row.kind = true

/-- A due intent with a handler is among the first fifty due intents, itself included. -/
def Reached (process : Process) (table : IntentTable) : Prop :=
  ∃ row ∈ table.rows, waiting process.now row = true ∧ process.registered row.kind = true ∧
    Table.rank (waiting process.now) IntentTable.dueFirst table.rows row ≤ 50

/-! ## One intent -/

variable {process : Process} {table : IntentTable} {h : List (Event effects)} {row : IntentRow}

/-- No statement of the rest of `serve` claims an intent. -/
def NoClaim (_ : List (Event effects)) : Op → Prop
  | .markInFlight _ _ => False
  | _ => True

theorem retry_claims_none (row : IntentRow) (retryAfterS : Option Rat) :
    (retry row retryAfterS).Issues NoClaim (fun _ _ => True) h := by
  cases retryAfterS with
  | none =>
    exact ⟨trivial, fun _ => ⟨trivial, fun _ => ⟨trivial, fun _ => ⟨trivial, fun _ => trivial⟩⟩⟩⟩
  | some delay => exact ⟨trivial, fun _ => ⟨trivial, fun _ => ⟨trivial, fun _ => trivial⟩⟩⟩

/-- Once the intent is claimed, the rest of `serve`. -/
def settle (row : IntentRow) : Prog effects Unit := do
  if (← perform (.setting .maxAttempts)) ≤ row.attempts then
    let _ ← perform (.markAbandoned row.id row.generation)
  else
    match ← perform (.handler row) with
    | .error _ => retry row none
    | .ok result =>
      if result.done then
        let _ ← perform (.markDone row.id row.generation)
      else if result.abandon then
        let _ ← perform (.markAbandoned row.id row.generation)
      else retry row result.retryAfterS

theorem settle_claims_none (row : IntentRow) :
    (settle row).Issues NoClaim (fun _ _ => True) h := by
  refine (Prog.issues_perform_bind _ _ _).mpr ⟨trivial, fun (limit : Int) => ?_⟩
  split
  · exact ⟨trivial, fun _ => trivial⟩
  · refine (Prog.issues_perform_bind _ _ _).mpr ⟨trivial, fun outcome => ?_⟩
    cases outcome with
    | error text => exact retry_claims_none row none
    | ok result =>
      dsimp only
      split
      · exact ⟨trivial, fun _ => trivial⟩
      · split
        · exact ⟨trivial, fun _ => trivial⟩
        · exact retry_claims_none row result.retryAfterS

theorem claim_eq {row other : IntentRow} {hit : Bool}
    (same : claimOf other = ⟨.markInFlight row.id row.generation, hit⟩) :
    claimOf row = claimOf other := by
  unfold claimOf at same ⊢
  injection same with op
  injection op with id generation
  rw [id, generation]

/-- All that serving one intent does. -/
structure Served (process : Process) (row : IntentRow) (later : List (Event effects))
    (table after : IntentTable) : Prop where
  skipped : process.registered row.kind = false → after = table
  only : ∀ other, claimOf other ∈ later →
    claimOf row = claimOf other ∧ process.registered row.kind = true
  claimed : process.registered row.kind = true → row ∈ table.rows → row.status = .pending →
    claimOf row ∈ later

theorem serve_eq (row : IntentRow) :
    serve row = perform (.hasHandler row.kind) >>= fun found =>
      if !found then pure () else perform (.markInFlight row.id row.generation) >>= fun acquired =>
        if !acquired then pure () else settle row := rfl

/-- A tick serves every intent to its end, whatever the handlers answer. -/
theorem serve_alone (row : IntentRow) (h : List (Event effects)) (table : IntentTable) :
    ∃ later after, process.alone (serve row) h table = some ((), h ++ later, after) ∧
      Served process row later table after := by
  have asked : exec (.hasHandler row.kind) table (process.input h (.hasHandler row.kind)) =
      some (process.registered row.kind, table) := rfl
  rw [serve_eq, process.alone_perform asked]
  cases known : process.registered row.kind with
  | false =>
    refine ⟨[⟨.hasHandler row.kind, false⟩], table, rfl, fun _ => rfl, ?_, ?_⟩
    · intro other member
      cases List.mem_singleton.mp member
    · intro registered
      rw [known] at registered
      cases registered
  | true =>
    let h₁ := h ++ [(⟨.hasHandler row.kind, true⟩ : Event effects)]
    let marked := table.compareAndSet row.id row.generation .pending ({ · with status := .inFlight })
    have tried : exec (.markInFlight row.id row.generation) table
        (process.input h₁ (.markInFlight row.id row.generation)) = some (marked.1, marked.2) := rfl
    change ∃ later after, process.alone (perform (.markInFlight row.id row.generation) >>= _) h₁
      table = some ((), h ++ later, after) ∧ _
    rw [process.alone_perform tried]
    cases acquired : marked.1 with
    | false =>
      refine ⟨[⟨.hasHandler row.kind, true⟩, ⟨.markInFlight row.id row.generation, false⟩],
        marked.2, by simp [h₁, Process.alone], ?_, ?_, ?_⟩
      · intro unknown
        rw [known] at unknown
        cases unknown
      · intro other member
        rcases List.mem_cons.mp member with same | member
        · cases same
        · exact ⟨claim_eq (List.mem_singleton.mp member), known⟩
      · intro _ inside pending
        have hit : marked.1 = true := List.any_eq_true.mpr
          ⟨row, inside, by simp [IntentTable.guarded, pending]⟩
        rw [acquired] at hit
        cases hit
    | true =>
      have returns := Prog.solo_isSome (fun op h table => process.enabled op h table) (settle row)
        (h₁ ++ [⟨.markInFlight row.id row.generation, true⟩]) marked.2
      obtain ⟨⟨done, h₂, after⟩, ran⟩ := Option.isSome_iff_exists.mp returns
      obtain ⟨-, rest, rfl, quiet⟩ := (settle_claims_none row).solo ran
      refine ⟨⟨.hasHandler row.kind, true⟩ :: ⟨.markInFlight row.id row.generation, true⟩ :: rest,
        after, ?_, ?_, ?_, ?_⟩
      · simpa [h₁, Process.alone] using ran
      · intro unknown
        rw [known] at unknown
        cases unknown
      · intro other member
        rcases List.mem_cons.mp member with same | member
        · cases same
        · rcases List.mem_cons.mp member with same | member
          · exact ⟨claim_eq same, known⟩
          · obtain ⟨past, claims⟩ := quiet _ member
            exact claims.elim
      · intro _ _ _
        exact List.mem_cons_of_mem _ List.mem_cons_self

/-- What a tick has done to the intents it has passed. -/
structure Passed (process : Process) (start : IntentTable) (rows : List IntentRow)
    (h : List (Event effects)) (table : IntentTable) : Prop where
  /-- Only fetched intents with a handler are claimed. -/
  only : ∀ row, claimOf row ∈ h → ∃ fetched ∈ rows, claimOf fetched = claimOf row ∧
    process.registered fetched.kind = true
  /-- Until the first of them, the table is as it was; from then on, one is claimed. -/
  first : (table = start ∧ ∀ row ∈ rows, process.registered row.kind = false) ∨
    ∃ row ∈ rows, process.registered row.kind = true ∧ claimOf row ∈ h

theorem Passed.serve {start : IntentTable} {rows : List IntentRow}
    (passed : Passed process start rows h table)
    (inside : row ∈ start.rows) (pending : row.status = .pending) :
    ∃ value h' after, process.alone (serve row) h table = some (value, h', after) ∧
      Passed process start (rows ++ [row]) h' after := by
  obtain ⟨later, after, ran, served⟩ := @serve_alone process row h table
  refine ⟨(), h ++ later, after, ran, ?_, ?_⟩
  · intro other member
    rcases List.mem_append.mp member with old | new
    · obtain ⟨fetched, among, same, registered⟩ := passed.only other old
      exact ⟨fetched, by simp [among], same, registered⟩
    · obtain ⟨same, registered⟩ := served.only other new
      exact ⟨row, by simp, same, registered⟩
  · rcases passed.first with ⟨rfl, unknown⟩ | ⟨other, among, registered, claimed⟩
    · cases known : process.registered row.kind with
      | false =>
        refine .inl ⟨served.skipped known, ?_⟩
        simpa [or_imp, forall_and, known] using unknown
      | true =>
        refine .inr ⟨row, by simp, known, ?_⟩
        simp [served.claimed known inside pending]
    · exact .inr ⟨other, by simp [among], registered, by simp [claimed]⟩

/-! ## One tick -/

/-- The first fifty due intents. -/
def window (process : Process) (table : IntentTable) : List IntentRow :=
  Table.selectWhere (waiting process.now) IntentTable.dueFirst 50 table.rows

/-- The tick fetches its window and serves it from one end to the other. -/
theorem tick_alone (process : Process) (table : IntentTable) :
    ∃ h after, process.alone tick [] table = some ((), h, after) ∧
      Passed process table (window process table) h after := by
  have read : exec .clock table (process.input [] .clock) = some (process.now, table) := rfl
  have fetched : exec (.fetchPending process.now 50) table
      (process.input [⟨.clock, process.now⟩] (.fetchPending process.now 50)) =
        some (window process table, table) := rfl
  have unfolded : tick = perform .clock >>= fun now => perform (.fetchPending now 50) >>=
      fun rows : List IntentRow => rows.mapM serve >>= fun _ => pure () := rfl
  rw [unfolded, process.alone_perform read]
  change ∃ h after, process.alone (perform (.fetchPending process.now 50) >>= _)
    [⟨.clock, process.now⟩] table = _ ∧ _
  rw [process.alone_perform fetched]
  let start : List (Event effects) :=
    [⟨.clock, process.now⟩, ⟨.fetchPending process.now 50, window process table⟩]
  have passed : Passed process table [] start table := by
    refine ⟨?_, .inl ⟨rfl, by simp⟩⟩
    intro row member
    simp [start, claimOf] at member
  obtain ⟨done, h, after, ran, passed⟩ :=
    @Prog.solo_mapM effects IntentTable _ _ _ exec process.input _ _ serve
      (Passed process table) (window process table) (fun finished row rest split h now passed => by
        have among : row ∈ window process table := by simp [split]
        obtain ⟨inside, due⟩ := Table.mem_of_mem_selectWhere among
        refine passed.serve inside ?_
        simp only [waiting, Bool.and_eq_true, beq_iff_eq] at due
        exact due.1) passed
  refine ⟨h, after, ?_, passed⟩
  change Prog.solo exec process.input ((window process table).mapM serve >>= fun _ => pure ()) start
    table = _
  rw [Prog.solo_bind, ran]
  rfl

/-! ## The order of the window -/

/-- What `ORDER BY due_at ASC, id ASC` compares. -/
def dueKey (row : IntentRow) : ℚ ×ₗ ℕ := toLex (row.dueAt, row.id)

theorem dueFirst_iff (a b : IntentRow) : IntentTable.dueFirst a b = true ↔ dueKey a ≤ dueKey b := by
  simp [IntentTable.dueFirst, dueKey, Prod.Lex.toLex_le_toLex]

theorem mem_window (distinct : (table.rows.map (·.id)).Nodup) :
    row ∈ window process table ↔ row ∈ table.rows ∧ waiting process.now row = true ∧
      Table.rank (waiting process.now) IntentTable.dueFirst table.rows row ≤ 50 := by
  apply Table.mem_selectWhere_iff dueFirst_iff
  apply List.Nodup.of_map fun key => (ofLex key).2
  rw [List.map_map]
  exact distinct

/-! ## The guarantee -/

theorem claims_of_reached (distinct : (table.rows.map (·.id)).Nodup)
    (reached : Reached process table) : ClaimsOne process table := by
  obtain ⟨row, inside, due, registered, early⟩ := reached
  have among := (mem_window distinct).mpr ⟨inside, due, early⟩
  obtain ⟨h, after, ran, passed⟩ := tick_alone process table
  rcases passed.first with ⟨-, unknown⟩ | ⟨first, among', registered', claimed⟩
  · rw [unknown row among] at registered
    cases registered
  · obtain ⟨inside', due', -⟩ := (mem_window distinct).mp among'
    exact ⟨(), h, after, ran, first, inside', due', registered', claimed⟩

theorem reached_of_claims (distinct : (table.rows.map (·.id)).Nodup)
    (claims : ClaimsOne process table) : Reached process table := by
  obtain ⟨done, h, after, ran, row, inside, due, registered, claimed⟩ := claims
  obtain ⟨h', after', ran', passed⟩ := tick_alone process table
  rw [ran] at ran'
  obtain ⟨rfl, rfl⟩ : h = h' ∧ after = after' := by simpa using ran'
  obtain ⟨fetched, among, -, registered'⟩ := passed.only row claimed
  obtain ⟨inside', due', early⟩ := (mem_window distinct).mp among
  exact ⟨fetched, inside', due', registered', early⟩

/-- For every state of the log (its ids are a primary key), clock and set of
handlers: a tick claims a due intent with a handler, if there is one, exactly when
the fiftieth due intent is not before all of them. -/
theorem claims_iff (process : Process) (table : IntentTable)
    (distinct : (table.rows.map (·.id)).Nodup) :
    (HandledDue process table → ClaimsOne process table) ↔
      (HandledDue process table → Reached process table) := by
  constructor
  · intro claims handled
    exact reached_of_claims distinct (claims handled)
  · intro reached handled
    exact claims_of_reached distinct (reached handled)

/-! ## Fifty intents without a handler -/

/-- An intent that was due at time zero. -/
def dueRow (id : Nat) (kind : String) : IntentRow where
  id
  kind
  key := toString id
  payload := "{}"
  generation := 1
  status := .pending
  attempts := 0
  dueAt := 0

/-- Fifty intents of a kind nobody handles, and one of a kind that has a handler. -/
def crowded : IntentTable where
  rows := (List.range 50).map (fun n => dueRow (n + 1) "cron") ++ [dueRow 51 "reply"]
  sequence := 51

/-- A process that handles one kind, and whose handlers succeed. -/
def replying : Process where
  clock _ := 0
  setting _ := 5
  registered kind := kind == "reply"
  outcome _ _ := .ok { done := true }

/-- The fifty rows at the head are served and left, at every tick: the intent with a
handler is never claimed. -/
theorem unhandled_head_starves :
    HandledDue replying crowded ∧ ¬ClaimsOne replying crowded := by
  constructor
  · exact ⟨dueRow 51 "reply", by simp [crowded], by decide, by decide⟩
  · intro claims
    obtain ⟨row, inside, due, registered, early⟩ := reached_of_claims (by decide +kernel) claims
    revert row
    decide +kernel

/-- With one of the fifty out of the way, it is. -/
theorem shorter_head_reached :
    HandledDue replying { crowded with rows := crowded.rows.tail } ∧
      ClaimsOne replying { crowded with rows := crowded.rows.tail } := by
  have handled : HandledDue replying { crowded with rows := crowded.rows.tail } :=
    ⟨dueRow 51 "reply", by simp [crowded], by decide, by decide⟩
  constructor
  · exact handled
  · apply (claims_iff _ _ (by decide +kernel)).mpr _ handled
    intro _
    exact ⟨dueRow 51 "reply", by simp [crowded], by decide, by decide, by decide +kernel⟩

end SherryAgent.Guarantees.HandledIntents
