import SherryAgent.Guarantees.IntentLog
import SherryAgent.Library.Machine
import SherryAgent.Source.Effects.IntentLog

/-!
# How often a handler runs for one intent

A failed attempt is counted when the worker puts the intent back. An intent that was in flight when
the process went down is put back by the replay, and no attempt is counted for it.

- `invocations_bounded`: the attempts allowed, and one more for each replay that caught the intent in
  flight
- `restart_runs_again`: one attempt allowed, one restart, two invocations
-/

namespace SherryAgent.Guarantees.HandlerAttempts

open SherryAgent.Source.Effects SherryAgent.Library SherryAgent.Library.Resumption
open SherryAgent.Guarantees.IntentLog

/-! ## Counting -/

/-- The row stands for this generation of the intent. -/
def ofIntent (kind key : String) (generation : Nat) (row : IntentRow) : Bool :=
  row.kind == kind && row.key == key && row.generation == generation

def isInvocation (kind key : String) (generation : Nat) : Entry → Bool
  | .invoked row => ofIntent kind key generation row
  | .replayed _ => false

def isInterruption (kind key : String) (generation : Nat) : Entry → Bool
  | .invoked _ => false
  | .replayed caught => caught.any (ofIntent kind key generation)

/-- How often the handler has run for the intent. -/
def invocations (kind key : String) (generation : Nat) (log : List Entry) : Nat :=
  log.countP (isInvocation kind key generation)

/-- How many replays have caught the intent in flight. -/
def interruptions (kind key : String) (generation : Nat) (log : List Entry) : Nat :=
  log.countP (isInterruption kind key generation)

/-- Every reading of the setting is within the limit. -/
def ReadsAtMost (limit : Nat) (server : Server) : Move → Prop
  | .advances (.value n) =>
    ∀ next h, server.worker = some (.call (.setting .maxAttempts) next, h) → n ≤ limit
  | _ => True

/-- Runs of the server in which `max_attempts` is at most the limit. -/
def Runs (limit : Nat) : Server → Server → Prop :=
  Machine.Runs Server.step (ReadsAtMost limit)

/-! ## What a tick performs -/

/-- The tick has just claimed the generation. -/
def JustClaimed (h : Record) (id generation : Nat) : Prop :=
  ∃ earlier, h = earlier ++ [⟨.markInFlight id generation, true⟩] ∨
    ∃ n : Int, h = earlier ++
      [⟨.markInFlight id generation, true⟩, ⟨.setting .maxAttempts, n⟩]

/-- The tick has put no generation of the row back. -/
def Unretried (h : Record) (id : Nat) : Prop :=
  ∀ generation due hit, (⟨.markRetry id generation due, hit⟩ : Event effects) ∉ h

/-- Every fetch answered rows with distinct ids. -/
def FetchesDistinct (h : Record) : Prop :=
  ∀ now limit rows, (⟨.fetchPending now limit, rows⟩ : Event effects) ∈ h →
    ((rows : List IntentRow).map (·.id)).Nodup

/-- The handler runs only for a row the tick fetched, claimed and has attempts left for; no other
statement than these is issued. -/
def MayRun (h : Record) : Op → Prop
  | .handler row => Fetched h row ∧ (FetchesDistinct h → Unretried h row.id) ∧
    ∃ earlier, ∃ n : Int, h = earlier ++ [⟨.markInFlight row.id row.generation, true⟩,
      ⟨.setting .maxAttempts, n⟩] ∧ row.attempts < n
  | .markInFlight id generation => ∃ row, Fetched h row ∧ row.id = id ∧ row.generation = generation ∧
    (FetchesDistinct h → Unretried h id)
  | .upsert .. => False
  | .selectUpserted .. => False
  | .resetInFlight _ => False
  | _ => True

variable {h h₀ : Record} {row : IntentRow} {id generation : Nat}

theorem FetchesDistinct.of_append {later : Record} (distinct : FetchesDistinct (h ++ later)) :
    FetchesDistinct h :=
  fun now limit rows member => distinct now limit rows (List.mem_append_left _ member)

theorem Unretried.append {event : Event effects} (unretried : Unretried h id)
    (other : ∀ generation due, event.op ≠ .markRetry id generation due) :
    Unretried (h ++ [event]) id := by
  intro generation due hit member
  rcases List.mem_append.mp member with old | new
  · exact unretried generation due hit old
  · rw [List.mem_singleton] at new
    exact other generation due (by rw [← new])

/-- Of the rows put back since, all are this one. -/
def RetriesOf (h₀ h : Record) (id : Nat) : Prop :=
  ∀ id' generation due hit, (⟨.markRetry id' generation due, hit⟩ : Event effects) ∈ h →
    (⟨.markRetry id' generation due, hit⟩ : Event effects) ∈ h₀ ∨ id' = id

theorem RetriesOf.append {event : Event effects} (retries : RetriesOf h₀ h id)
    (own : ∀ id' generation due, event.op = .markRetry id' generation due → id' = id) :
    RetriesOf h₀ (h ++ [event]) id := by
  intro id' generation due hit member
  rcases List.mem_append.mp member with old | new
  · exact retries id' generation due hit old
  · rw [List.mem_singleton] at new
    exact .inr (own id' generation due (by rw [← new]))

theorem retry_runs (retryAfterS : Option Rat) (retries : RetriesOf h₀ h row.id) :
    (retry row retryAfterS).Issues MayRun (fun h' _ => RetriesOf h₀ h' row.id) h := by
  have own : ∀ due id' generation due', Op.markRetry row.id row.generation due =
      .markRetry id' generation due' → id' = row.id := by
    intro due id' generation due' same
    injection same with same_id
    exact same_id.symm
  cases retryAfterS with
  | some delay =>
    refine ⟨trivial, fun cap => ⟨trivial, fun now => ⟨trivial, fun hit => ?_⟩⟩⟩
    have capped := @RetriesOf.append _ _ _ ⟨.setting .retryMaxS, cap⟩ retries nofun
    exact (@RetriesOf.append _ _ _ ⟨.clock, now⟩ capped nofun).append (own _)
  | none =>
    refine ⟨trivial, fun initial => ⟨trivial, fun cap => ⟨trivial, fun now => ⟨trivial, fun hit => ?_⟩⟩⟩⟩
    have delayed := @RetriesOf.append _ _ _ ⟨.setting .retryInitialS, initial⟩ retries nofun
    have capped := @RetriesOf.append _ _ _ ⟨.setting .retryMaxS, cap⟩ delayed nofun
    exact (@RetriesOf.append _ _ _ ⟨.clock, now⟩ capped nofun).append (own _)

theorem serve_runs (fetched : Fetched h row) (fresh : FetchesDistinct h → Unretried h row.id) :
    (serve row).Issues MayRun (fun h' _ => RetriesOf h h' row.id) h := by
  have start : RetriesOf h h row.id := fun id' generation due hit member => .inl member
  refine (Prog.issues_perform_bind _ _ _).mpr ⟨trivial, fun registered => ?_⟩
  let h₁ := h ++ [(⟨.hasHandler row.kind, registered⟩ : Event effects)]
  have retries₁ : RetriesOf h h₁ row.id := start.append nofun
  have fetched₁ : Fetched h₁ row := fetched.mono (List.subset_append_left _ _)
  have fresh₁ : FetchesDistinct h₁ → Unretried h₁ row.id := fun distinct =>
    (fresh distinct.of_append).append nofun
  cases registered with
  | false => exact retries₁
  | true =>
    refine (Prog.issues_perform_bind _ _ _).mpr
      ⟨⟨row, fetched₁, rfl, rfl, fresh₁⟩, fun acquired => ?_⟩
    let h₂ := h₁ ++ [(⟨.markInFlight row.id row.generation, acquired⟩ : Event effects)]
    have retries₂ : RetriesOf h h₂ row.id := retries₁.append nofun
    have fetched₂ : Fetched h₂ row := fetched₁.mono (List.subset_append_left _ _)
    have fresh₂ : FetchesDistinct h₂ → Unretried h₂ row.id := fun distinct =>
      (fresh₁ distinct.of_append).append nofun
    cases acquired with
    | false => exact retries₂
    | true =>
      refine (Prog.issues_perform_bind _ _ _).mpr ⟨trivial, fun (limit : Int) => ?_⟩
      let h₃ := h₂ ++ [(⟨.setting .maxAttempts, limit⟩ : Event effects)]
      have retries₃ : RetriesOf h h₃ row.id := retries₂.append nofun
      have fetched₃ : Fetched h₃ row := fetched₂.mono (List.subset_append_left _ _)
      have fresh₃ : FetchesDistinct h₃ → Unretried h₃ row.id := fun distinct =>
        (fresh₂ distinct.of_append).append nofun
      split
      · exact ⟨trivial, fun _ => retries₃.append nofun⟩
      · rename_i left
        have claimed : h₃ = h₁ ++ [⟨.markInFlight row.id row.generation, true⟩,
            ⟨.setting .maxAttempts, limit⟩] := by
          simp [h₃, h₂]
        refine (Prog.issues_perform_bind _ _ _).mpr
          ⟨⟨fetched₃, fresh₃, h₁, limit, claimed, lt_of_not_ge left⟩, fun outcome => ?_⟩
        have retries₄ : RetriesOf h (h₃ ++ [⟨.handler row, outcome⟩]) row.id :=
          retries₃.append nofun
        cases outcome with
        | error text => exact retry_runs none retries₄
        | ok result =>
          dsimp only
          split
          · exact ⟨trivial, fun _ => retries₄.append nofun⟩
          · split
            · exact ⟨trivial, fun _ => retries₄.append nofun⟩
            · exact retry_runs result.retryAfterS retries₄

theorem tick_runs : tick.Issues MayRun (fun _ _ => True) [] := by
  refine ⟨trivial, fun now => ⟨trivial, fun (rows : List IntentRow) => ?_⟩⟩
  let fetch : Event effects := ⟨.fetchPending now 50, rows⟩
  have served : (rows.mapM serve).Issues MayRun (fun _ _ => True) [⟨.clock, now⟩, fetch] := by
    refine (Prog.issues_mapM serve (fun h finished _ => fetch ∈ h ∧
      ∀ id generation due hit, (⟨.markRetry id generation due, hit⟩ : Event effects) ∈ h →
        ∃ row ∈ finished, row.id = id) rows _ ?_ ?_).mono (fun _ _ _ => id) (fun _ _ _ _ => trivial)
    · refine ⟨by simp, ?_⟩
      intro id generation due hit member
      simp [fetch] at member
    · intro finished row rest split h _ passed
      obtain ⟨fetch_ran, retried⟩ := passed
      have fetched : Fetched h row := ⟨now, 50, rows, fetch_ran, by simp [split]⟩
      have fresh : FetchesDistinct h → Unretried h row.id := by
        intro distinct generation due hit member
        have ids := distinct now 50 rows fetch_ran
        obtain ⟨other, before, same⟩ := retried row.id generation due hit member
        rw [split, List.map_append, List.nodup_append] at ids
        exact ids.2.2 other.id (List.mem_map_of_mem before) row.id (by simp) same
      refine (serve_runs fetched fresh).mono (fun _ _ _ => id) ?_
      intro h' _ extended retries
      refine ⟨extended.subset fetch_ran, ?_⟩
      intro id generation due hit member
      rcases retries id generation due hit member with old | own
      · obtain ⟨other, before, same⟩ := retried id generation due hit old
        exact ⟨other, List.mem_append_left _ before, same⟩
      · exact ⟨row, by simp, own.symm⟩
  change Prog.Issues _ _ (rows.mapM serve >>= fun _ => pure ()) _
  exact (Prog.issues_bind _ _ _).mpr (served.mono (fun _ _ _ => id) fun _ _ _ _ => trivial)

/-! ## What every move keeps -/

/-- A row that is not pending may have been handled once more than it has counted. -/
def slack (status : IntentStatus) : Nat := if status = .pending then 0 else 1

/-- The log is within the bounds that the table keeps. -/
structure Counted (limit : Nat) (table : IntentTable) (log : List Entry) : Prop where
  ids : (table.rows.map (·.id)).Nodup
  bounded : ∀ row ∈ table.rows, row.id ≤ table.sequence
  pairs : ∀ row ∈ table.rows, ∀ other ∈ table.rows,
    row.kind = other.kind → row.key = other.key → row = other
  total : ∀ kind key generation, invocations kind key generation log ≤
    limit + interruptions kind key generation log
  current : ∀ row ∈ table.rows, invocations row.kind row.key row.generation log ≤
    row.attempts + interruptions row.kind row.key row.generation log + slack row.status
  future : ∀ kind key generation,
    (∀ row ∈ table.rows, row.kind = kind → row.key = key → row.generation < generation) →
      invocations kind key generation log = 0

/-- The tick in progress agrees with the table. -/
structure InTick (limit : Nat) (table : IntentTable) (log : List Entry) (rest : Prog effects Unit)
    (h : Record) : Prop where
  runs : rest.Issues MayRun (fun _ _ => True) h
  limits : ∀ n : Int, (⟨.setting .maxAttempts, n⟩ : Event effects) ∈ h → n ≤ limit
  distinct : FetchesDistinct h
  reads : ∀ read, Fetched h read → ∃ row ∈ table.rows, row.id = read.id ∧ row.kind = read.kind ∧
    row.key = read.key ∧ read.generation ≤ row.generation ∧
      (row.generation = read.generation → Unretried h read.id → row.attempts = read.attempts)
  claimed : ∀ read, Fetched h read → JustClaimed h read.id read.generation →
    Unretried h read.id →
      invocations read.kind read.key read.generation log ≤
          read.attempts + interruptions read.kind read.key read.generation log ∧
        ∀ row ∈ table.rows, row.id = read.id → row.generation = read.generation →
          row.status ≠ .pending

structure Sound (limit : Nat) (server : Server) : Prop where
  counted : Counted limit server.table server.log
  inTick : ∀ rest h, server.worker = some (rest, h) →
    InTick limit server.table server.log rest h

variable {limit : Nat} {table table' : IntentTable} {log : List Entry} {rest : Prog effects Unit}

theorem sound_initial : Sound limit {} where
  counted :=
    { ids := List.nodup_nil
      bounded := nofun
      pairs := nofun
      total := fun _ _ _ => Nat.zero_le _
      current := nofun
      future := fun _ _ _ _ => rfl }
  inTick := nofun

/-! ### Statements that write a status -/

/-- A write that leaves the identity of the rows alone. -/
structure Keeps (f : IntentRow → IntentRow) : Prop where
  same : ∀ row, (f row).id = row.id ∧ (f row).kind = row.kind ∧ (f row).key = row.key ∧
    (f row).generation = row.generation

variable {p : IntentRow → Bool} {f : IntentRow → IntentRow}

/-- Where the rows of an updated table come from. -/
theorem Keeps.source (keeps : Keeps f) {row : IntentRow}
    (member : row ∈ Table.updateWhere p f table.rows) :
    ∃ old ∈ table.rows, row = (if p old then f old else old) ∧ row.id = old.id ∧
      row.kind = old.kind ∧ row.key = old.key ∧ row.generation = old.generation := by
  rcases Table.mem_updateWhere.mp member with ⟨old, inside, hit, rfl⟩ | ⟨inside, miss⟩
  · have ⟨id, kind, key, generation⟩ := keeps.same old
    exact ⟨old, inside, by rw [if_pos hit], id, kind, key, generation⟩
  · exact ⟨row, inside, by simp [miss], rfl, rfl, rfl, rfl⟩

theorem Counted.update (counted : Counted limit table log) (keeps : Keeps f)
    (bound : ∀ row ∈ table.rows, p row = true →
      invocations row.kind row.key row.generation log ≤
        (f row).attempts + interruptions row.kind row.key row.generation log +
          slack (f row).status) :
    Counted limit { table with rows := Table.updateWhere p f table.rows } log := by
  constructor
  · rw [Table.map_updateWhere (·.id) fun row _ => (keeps.same row).1]
    exact counted.ids
  · intro row member
    obtain ⟨old, inside, -, id, -⟩ := keeps.source member
    rw [id]
    exact counted.bounded old inside
  · intro row member other member' kinds keys
    obtain ⟨old, inside, rfl, -, kind, key, -⟩ := keeps.source member
    obtain ⟨old', inside', rfl, -, kind', key', -⟩ := keeps.source member'
    rw [counted.pairs old inside old' inside' (by rw [← kind, ← kind', kinds])
      (by rw [← key, ← key', keys])]
  · exact counted.total
  · intro row member
    obtain ⟨old, inside, same, -, kind, key, generation⟩ := keeps.source member
    rw [kind, key, generation, same]
    split
    · rename_i hit
      exact bound old inside hit
    · exact counted.current old inside
  · intro kind key generation later
    apply counted.future
    intro old inside same_kind same_key
    have target := Table.mem_updateWhere_of_mem (p := p) (f := f) inside
    have ⟨_, f_kind, f_key, f_generation⟩ := keeps.same old
    have below := later _ target
    split at below
    · rw [f_kind, f_key, f_generation] at below
      exact below same_kind same_key
    · exact below same_kind same_key

/-! ### Enqueues -/

section Upsert

variable {kind key payload : String} {dueAt : Rat}

/-- The row of a pair that is enqueued again. -/
def renewed (payload : String) (dueAt : Rat) (row : IntentRow) : IntentRow :=
  { row with payload, generation := row.generation + 1, status := .pending, attempts := 0, dueAt }

/-- A row after an enqueue is an old one, the renewed row of the pair, or a new one. -/
theorem mem_upsert {row : IntentRow} (member : row ∈ (table.upsert kind key payload dueAt).rows) :
    (row ∈ table.rows ∧ ¬(row.kind = kind ∧ row.key = key)) ∨
      (∃ old ∈ table.rows, old.kind = kind ∧ old.key = key ∧ row = renewed payload dueAt old) ∨
      (row.id = table.sequence + 1 ∧ row.kind = kind ∧ row.key = key ∧ row.attempts = 0 ∧
        row.status = .pending ∧ ∀ old ∈ table.rows, old.kind = kind → old.key ≠ key) := by
  unfold IntentTable.upsert at member
  split at member
  · rcases Table.mem_updateWhere.mp member with ⟨old, inside, hit, rfl⟩ | ⟨inside, miss⟩
    · rw [Bool.and_eq_true, beq_iff_eq, beq_iff_eq] at hit
      exact .inr (.inl ⟨old, inside, hit.1, hit.2, rfl⟩)
    · exact .inl ⟨inside, by simpa using miss⟩
  · rename_i absent
    have fresh : ∀ old ∈ table.rows, old.kind = kind → old.key ≠ key := by
      intro old inside same_kind same_key
      exact absent (List.any_eq_true.mpr ⟨old, inside, by simp [same_kind, same_key]⟩)
    rcases List.mem_append.mp member with old | new
    · exact .inl ⟨old, fun both => fresh row old both.1 both.2⟩
    · rw [List.mem_singleton] at new
      subst new
      exact .inr (.inr ⟨rfl, rfl, rfl, rfl, rfl, fresh⟩)

/-- A row before an enqueue is kept, or it is the renewed one. -/
theorem mem_upsert_of_mem {old : IntentRow} (inside : old ∈ table.rows) :
    ∃ row ∈ (table.upsert kind key payload dueAt).rows,
      row = old ∨ (old.kind = kind ∧ old.key = key ∧ row = renewed payload dueAt old) := by
  unfold IntentTable.upsert
  split
  · refine ⟨_, Table.mem_updateWhere_of_mem inside, ?_⟩
    split
    · rename_i hit
      rw [Bool.and_eq_true, beq_iff_eq, beq_iff_eq] at hit
      exact .inr ⟨hit.1, hit.2, rfl⟩
    · exact .inl rfl
  · exact ⟨old, List.mem_append_left _ inside, .inl rfl⟩

theorem upsert_ids (counted : Counted limit table log) :
    ((table.upsert kind key payload dueAt).rows.map (·.id)).Nodup ∧
      ∀ row ∈ (table.upsert kind key payload dueAt).rows,
        row.id ≤ (table.upsert kind key payload dueAt).sequence := by
  unfold IntentTable.upsert
  split
  · constructor
    · have same : (Table.updateWhere (fun row => row.kind == kind && row.key == key)
          (renewed payload dueAt) table.rows).map (·.id) = table.rows.map (·.id) :=
        Table.map_updateWhere (fun row : IntentRow => row.id) fun row _ => rfl
      exact (congrArg List.Nodup same).mpr counted.ids
    · intro row member
      rcases Table.mem_updateWhere.mp member with ⟨old, inside, -, rfl⟩ | ⟨inside, -⟩
      · exact Nat.le_succ_of_le (counted.bounded old inside)
      · exact Nat.le_succ_of_le (counted.bounded row inside)
  · constructor
    · rw [List.map_append, List.nodup_append]
      refine ⟨counted.ids, by simp, ?_⟩
      intro id old id' new same
      obtain ⟨row, inside, rfl⟩ := List.mem_map.mp old
      have within := counted.bounded row inside
      simp at new
      omega
    · intro row member
      rcases List.mem_append.mp member with old | new
      · have within := counted.bounded row old
        dsimp only
        omega
      · rw [List.mem_singleton.mp new]

theorem Counted.upsert (counted : Counted limit table log) :
    Counted limit (table.upsert kind key payload dueAt) log := by
  have kept_pair : ∀ row ∈ (table.upsert kind key payload dueAt).rows,
      row.kind = kind → row.key = key → row.attempts = 0 ∧ row.status = .pending ∧
        ∀ old ∈ table.rows, old.kind = kind → old.key = key → old.generation < row.generation := by
    intro row member same_kind same_key
    rcases mem_upsert member with ⟨-, other⟩ | ⟨old, inside, old_kind, old_key, rfl⟩ |
      ⟨-, -, -, attempts, status, fresh⟩
    · exact absurd ⟨same_kind, same_key⟩ other
    · refine ⟨rfl, rfl, ?_⟩
      intro other inside' other_kind other_key
      rw [counted.pairs other inside' old inside (by rw [other_kind, old_kind])
        (by rw [other_key, old_key])]
      exact Nat.lt_succ_self _
    · exact ⟨attempts, status, fun old inside old_kind old_key =>
        absurd old_key (fresh old inside old_kind)⟩
  constructor
  · exact (upsert_ids counted).1
  · exact (upsert_ids counted).2
  · intro row member other member' kinds keys
    rcases mem_upsert member with ⟨inside, apart⟩ | ⟨old, inside, old_kind, old_key, rfl⟩ |
      ⟨id, new_kind, new_key, -, -, fresh⟩
    · rcases mem_upsert member' with ⟨inside', -⟩ | ⟨old', -, old_kind', old_key', rfl⟩ |
        ⟨-, new_kind', new_key', -⟩
      · exact counted.pairs row inside other inside' kinds keys
      · exact absurd ⟨kinds.trans old_kind', keys.trans old_key'⟩ apart
      · exact absurd ⟨kinds.trans new_kind', keys.trans new_key'⟩ apart
    · rcases mem_upsert member' with ⟨-, apart'⟩ | ⟨old', inside', old_kind', old_key', rfl⟩ |
        ⟨-, -, -, -, -, fresh⟩
      · exact absurd ⟨kinds.symm.trans old_kind, keys.symm.trans old_key⟩ apart'
      · rw [counted.pairs old inside old' inside' kinds keys]
      · exact absurd old_key (fresh old inside old_kind)
    · rcases mem_upsert member' with ⟨-, apart'⟩ | ⟨old', inside', old_kind', old_key', rfl⟩ |
        ⟨id', -⟩
      · exact absurd ⟨kinds.symm.trans new_kind, keys.symm.trans new_key⟩ apart'
      · exact absurd old_key' (fresh old' inside' old_kind')
      · exact List.inj_on_of_nodup_map (upsert_ids counted).1 member member' (id.trans id'.symm)
  · exact counted.total
  · intro row member
    by_cases pair : row.kind = kind ∧ row.key = key
    · obtain ⟨-, -, later⟩ := kept_pair row member pair.1 pair.2
      have unused := counted.future row.kind row.key row.generation (by
        rw [pair.1, pair.2]
        exact later)
      omega
    · rcases mem_upsert member with ⟨inside, -⟩ | ⟨old, -, old_kind, old_key, rfl⟩ |
        ⟨-, new_kind, new_key, -⟩
      · exact counted.current row inside
      · exact absurd ⟨old_kind, old_key⟩ pair
      · exact absurd ⟨new_kind, new_key⟩ pair
  · intro kind' key' generation later
    apply counted.future
    intro old inside same_kind same_key
    obtain ⟨row, member, rfl | ⟨-, -, rfl⟩⟩ :=
      @mem_upsert_of_mem table kind key payload dueAt old inside
    · exact later row member same_kind same_key
    · exact Nat.lt_of_succ_lt (later _ member same_kind same_key)

theorem InTick.upsert (inTick : InTick limit table log rest h) (counted : Counted limit table log) :
    InTick limit (table.upsert kind key payload dueAt) log rest h where
  runs := inTick.runs
  limits := inTick.limits
  distinct := inTick.distinct
  reads := by
    intro read fetched
    obtain ⟨old, inside, id, same_kind, same_key, generation, attempts⟩ := inTick.reads read fetched
    obtain ⟨row, member, rfl | ⟨-, -, rfl⟩⟩ :=
      @mem_upsert_of_mem table kind key payload dueAt old inside
    · exact ⟨row, member, id, same_kind, same_key, generation, attempts⟩
    · refine ⟨_, member, id, same_kind, same_key, Nat.le_succ_of_le generation, ?_⟩
      intro same
      change old.generation + 1 = read.generation at same
      omega
  claimed := by
    intro read fetched just unretried
    obtain ⟨within, status⟩ := inTick.claimed read fetched just unretried
    refine ⟨within, ?_⟩
    intro row member same_id same_generation
    obtain ⟨source, inside, id, -, -, generation, -⟩ := inTick.reads read fetched
    rcases mem_upsert member with ⟨old, -⟩ | ⟨old, old_inside, -, -, rfl⟩ | ⟨new_id, -⟩
    · exact status row old same_id same_generation
    · have same : old = source :=
        List.inj_on_of_nodup_map counted.ids old_inside inside (same_id.trans id.symm)
      change old.generation + 1 = read.generation at same_generation
      rw [same] at same_generation
      omega
    · have within_sequence := counted.bounded source inside
      omega

end Upsert

/-! ### Replays -/

theorem interruptions_append (kind key : String) (generation : Nat) (entries : List Entry) :
    interruptions kind key generation log ≤ interruptions kind key generation (log ++ entries) := by
  unfold interruptions
  rw [List.countP_append]
  exact Nat.le_add_right _ _

theorem ofIntent_self (row : IntentRow) :
    ofIntent row.kind row.key row.generation row = true := by
  simp [ofIntent]

/-- A row that a replay puts back. -/
def revived (now : Rat) (row : IntentRow) : IntentRow :=
  { row with status := .pending, dueAt := now }

/-- A replay counts itself for every row it puts back. -/
theorem Counted.replay (counted : Counted limit table log) (now : Rat) :
    Counted limit
      { table with
        rows := Table.updateWhere (fun row => row.status == .inFlight) (revived now) table.rows }
      (log ++ [.replayed (table.rows.filter fun row => row.status == .inFlight)]) := by
  let entry := Entry.replayed (table.rows.filter fun row => row.status == .inFlight)
  have unchanged : ∀ kind key generation,
      invocations kind key generation (log ++ [entry]) = invocations kind key generation log := by
    intro kind key generation
    simp [invocations, entry, isInvocation]
  have before : Counted limit table (log ++ [entry]) := by
    refine { ids := counted.ids, bounded := counted.bounded, pairs := counted.pairs, total := ?_,
             current := ?_, future := ?_ }
    · intro kind key generation
      have more := @interruptions_append log kind key generation [entry]
      have bound := counted.total kind key generation
      rw [unchanged]
      omega
    · intro row member
      have more := @interruptions_append log row.kind row.key row.generation [entry]
      have bound := counted.current row member
      rw [unchanged]
      omega
    · intro kind key generation later
      rw [unchanged]
      exact counted.future kind key generation later
  refine before.update ⟨fun row => ⟨rfl, rfl, rfl, rfl⟩⟩ ?_
  intro row member caught
  have bound := counted.current row member
  have counts : interruptions row.kind row.key row.generation (log ++ [entry]) =
      interruptions row.kind row.key row.generation log + 1 := by
    have inside : (table.rows.filter fun row => row.status == .inFlight).any
        (ofIntent row.kind row.key row.generation) = true :=
      List.any_eq_true.mpr ⟨row, List.mem_filter.mpr ⟨member, caught⟩, ofIntent_self row⟩
    have hit : isInterruption row.kind row.key row.generation entry = true := inside
    rw [interruptions, List.countP_append, List.countP_singleton, if_pos hit]
    rfl
  have small : slack row.status ≤ 1 := by
    unfold slack
    split <;> omega
  rw [unchanged, counts]
  change _ ≤ row.attempts + _ + slack .pending
  omega

/-! ### Statements of the tick -/

variable {op : Op} {ans : op.Ans} {next : op.Ans → Prog effects Unit}

/-- A claim stays the last but for the reading of the limit. -/
theorem justClaimed_append (just : JustClaimed (h ++ [⟨op, ans⟩]) id generation) :
    (⟨op, ans⟩ : Event effects) = ⟨.markInFlight id generation, true⟩ ∨
      (∃ n : Int, (⟨op, ans⟩ : Event effects) = ⟨.setting .maxAttempts, n⟩) ∧
        JustClaimed h id generation := by
  obtain ⟨earlier, claim | ⟨n, read⟩⟩ := just
  · left
    exact (List.append_inj' claim rfl).2 |> List.singleton_inj.mp
  · right
    have split : h ++ [(⟨op, ans⟩ : Event effects)] =
        (earlier ++ [⟨.markInFlight id generation, true⟩]) ++ [⟨.setting .maxAttempts, n⟩] := by
      simpa using read
    obtain ⟨same, last⟩ := List.append_inj' split rfl
    exact ⟨⟨n, List.singleton_inj.mp last⟩, earlier, .inl same⟩

theorem Unretried.of_append {later : Record} (unretried : Unretried (h ++ later) id) :
    Unretried h id :=
  fun generation due hit member => unretried generation due hit (List.mem_append_left _ member)

/-- A statement that answers no rows. -/
def NoFetch : Op → Prop
  | .fetchPending .. => False
  | _ => True

theorem fetched_of_append {read : IntentRow} (other : NoFetch op)
    (fetched : Fetched (h ++ [⟨op, ans⟩]) read) : Fetched h read := by
  rcases fetched_append fetched with old | ⟨now, limit, rows, rfl, -⟩
  · exact old
  · exact other.elim

theorem distinct_append (other : NoFetch op) (distinct : FetchesDistinct h) :
    FetchesDistinct (h ++ [⟨op, ans⟩]) := by
  intro now limit rows member
  rcases List.mem_append.mp member with old | new
  · exact distinct now limit rows old
  · cases List.mem_singleton.mp new
    exact other.elim

theorem limits_append (limits : ∀ n : Int, (⟨.setting .maxAttempts, n⟩ : Event effects) ∈ h → n ≤ limit)
    (bounded : ∀ n : Int, (⟨op, ans⟩ : Event effects) = ⟨.setting .maxAttempts, n⟩ → n ≤ limit)
    (n : Int) (member : (⟨.setting .maxAttempts, n⟩ : Event effects) ∈ h ++ [⟨op, ans⟩]) :
    n ≤ limit := by
  rcases List.mem_append.mp member with old | new
  · exact limits n old
  · exact bounded n (List.mem_singleton.mp new).symm

/-- A statement that answers something about the process around the log. -/
theorem InTick.asks (inTick : InTick limit table log (.call op next) h) (other : NoFetch op)
    (bounded : ∀ n : Int, (⟨op, ans⟩ : Event effects) = ⟨.setting .maxAttempts, n⟩ → n ≤ limit)
    (no_claim : ∀ id generation, op ≠ .markInFlight id generation) :
    InTick limit table log (next ans) (h ++ [⟨op, ans⟩]) where
  runs := inTick.runs.2 ans
  limits := limits_append inTick.limits bounded
  distinct := distinct_append other inTick.distinct
  reads := by
    intro read fetched
    obtain ⟨row, inside, id, kind, key, generation, attempts⟩ :=
      inTick.reads read (fetched_of_append other fetched)
    exact ⟨row, inside, id, kind, key, generation, fun same unretried =>
      attempts same unretried.of_append⟩
  claimed := by
    intro read fetched just unretried
    rcases justClaimed_append just with claim | ⟨-, before⟩
    · injection claim with same
      exact absurd same (no_claim _ _)
    · exact inTick.claimed read (fetched_of_append other fetched) before unretried.of_append

/-- The fetch answers rows of the table. -/
theorem InTick.fetches {now : Rat} {size : Nat} {rows : List IntentRow}
    {next : List IntentRow → Prog effects Unit}
    (inTick : InTick limit table log (.call (.fetchPending now size) next) h)
    (inside : ∀ row ∈ rows, row ∈ table.rows) (distinct : (rows.map (·.id)).Nodup) :
    InTick limit table log (next rows) (h ++ [⟨.fetchPending now size, rows⟩]) where
  runs := inTick.runs.2 rows
  limits := limits_append inTick.limits nofun
  distinct := by
    intro now' size' rows' member
    rcases List.mem_append.mp member with old | new
    · exact inTick.distinct now' size' rows' old
    · cases List.mem_singleton.mp new
      exact distinct
  reads := by
    intro read fetched
    rcases fetched_append fetched with old | ⟨now', size', rows', same, equal, member⟩
    · obtain ⟨row, there, id, kind, key, generation, attempts⟩ := inTick.reads read old
      exact ⟨row, there, id, kind, key, generation, fun same unretried =>
        attempts same unretried.of_append⟩
    · cases same
      cases equal
      exact ⟨read, inside read member, rfl, rfl, rfl, le_rfl, fun _ _ => rfl⟩
  claimed := by
    intro read fetched just unretried
    rcases justClaimed_append just with claim | ⟨⟨n, setting⟩, -⟩
    · injection claim with same
      cases same
    · injection setting with same
      cases same

/-- A status is written; attempts only with a retry. -/
theorem InTick.reads_write (inTick : InTick limit table log (.call op next) h) (other : NoFetch op)
    (keeps : Keeps f)
    (attempts : ∀ row, p row = true → Unretried (h ++ [⟨op, ans⟩]) row.id →
      (f row).attempts = row.attempts) {read : IntentRow}
    (fetched : Fetched (h ++ [⟨op, ans⟩]) read) :
    ∃ row ∈ Table.updateWhere p f table.rows, row.id = read.id ∧ row.kind = read.kind ∧
      row.key = read.key ∧ read.generation ≤ row.generation ∧
        (row.generation = read.generation → Unretried (h ++ [⟨op, ans⟩]) read.id →
          row.attempts = read.attempts) := by
  obtain ⟨old, inside, id, kind, key, generation, counted⟩ :=
    inTick.reads read (fetched_of_append other fetched)
  have ⟨f_id, f_kind, f_key, f_generation⟩ := keeps.same old
  refine ⟨_, Table.mem_updateWhere_of_mem inside, ?_⟩
  split
  · rename_i hit
    refine ⟨f_id.trans id, f_kind.trans kind, f_key.trans key, by rwa [f_generation], ?_⟩
    intro same unretried
    rw [attempts old hit (id ▸ unretried)]
    exact counted (f_generation.symm.trans same) unretried.of_append
  · exact ⟨id, kind, key, generation, fun same unretried => counted same unretried.of_append⟩

/-- A write that claims nothing. -/
theorem InTick.writes (inTick : InTick limit table log (.call op next) h) (other : NoFetch op)
    (keeps : Keeps f)
    (attempts : ∀ row, p row = true → Unretried (h ++ [⟨op, ans⟩]) row.id →
      (f row).attempts = row.attempts)
    (no_claim : ∀ id generation, (⟨op, ans⟩ : Event effects) ≠ ⟨.markInFlight id generation, true⟩)
    (no_setting : ∀ n : Int, (⟨op, ans⟩ : Event effects) ≠ ⟨.setting .maxAttempts, n⟩) :
    InTick limit { table with rows := Table.updateWhere p f table.rows } log (next ans)
      (h ++ [⟨op, ans⟩]) where
  runs := inTick.runs.2 ans
  limits := limits_append inTick.limits fun n same => absurd same (no_setting n)
  distinct := distinct_append other inTick.distinct
  reads := fun _ fetched => inTick.reads_write other keeps attempts fetched
  claimed := by
    intro read fetched just unretried
    rcases justClaimed_append just with claim | ⟨⟨n, setting⟩, -⟩
    · exact absurd claim (no_claim _ _)
    · exact absurd setting (no_setting n)

/-- A row that is claimed. -/
def inFlight (row : IntentRow) : IntentRow := { row with status := .inFlight }

theorem keeps_inFlight : Keeps inFlight := ⟨fun _ => ⟨rfl, rfl, rfl, rfl⟩⟩

/-- A claim finds the row pending, with the attempts that the tick read. -/
theorem InTick.claims {next : Bool → Prog effects Unit}
    (inTick : InTick limit table log (.call (.markInFlight id generation) next) h)
    (counted : Counted limit table log)
    (hit : table.rows.any (IntentTable.guarded id generation .pending) = true) :
    InTick limit
      { table with
        rows := Table.updateWhere (IntentTable.guarded id generation .pending) inFlight table.rows }
      log (next true) (h ++ [⟨.markInFlight id generation, true⟩]) where
  runs := inTick.runs.2 true
  limits := by
    apply limits_append inTick.limits
    intro n same
    cases same
  distinct := distinct_append trivial inTick.distinct
  reads := fun _ fetched => inTick.reads_write trivial keeps_inFlight (fun _ _ _ => rfl) fetched
  claimed := by
    intro read fetched just unretried
    rcases justClaimed_append just with claim | ⟨⟨n, setting⟩, -⟩
    · injection claim with same
      injection same with same_id same_generation
      subst same_id same_generation
      obtain ⟨row, inside, guarded⟩ := List.any_eq_true.mp hit
      rw [IntentTable.guarded, Bool.and_eq_true, Bool.and_eq_true, beq_iff_eq, beq_iff_eq,
        beq_iff_eq] at guarded
      obtain ⟨⟨own_id, own_generation⟩, pending⟩ := guarded
      obtain ⟨source, there, source_id, kind, key, -, attempts⟩ :=
        inTick.reads read (@fetched_of_append _ (.markInFlight ..) _ _ trivial fetched)
      obtain rfl : row = source :=
        List.inj_on_of_nodup_map counted.ids inside there (own_id.trans source_id.symm)
      have bound := counted.current row inside
      rw [attempts own_generation unretried.of_append, kind, key, own_generation, pending] at bound
      refine ⟨bound, ?_⟩
      intro other member other_id other_generation
      rcases Table.mem_updateWhere.mp member with ⟨old, -, -, rfl⟩ | ⟨old, miss⟩
      · intro still
        cases still
      · intro still
        have found : IntentTable.guarded read.id read.generation .pending other = true := by
          simp [IntentTable.guarded, other_id, other_generation, still]
        rw [found] at miss
        cases miss
    · injection setting with same
      cases same

/-- The handler runs: the log grows, the table does not change. -/
theorem InTick.handled {row : IntentRow} {next : Except String EffectResult → Prog effects Unit}
    (inTick : InTick limit table log (.call (.handler row) next) h)
    (outcome : Except String EffectResult) :
    InTick limit table (log ++ [.invoked row]) (next outcome) (h ++ [⟨.handler row, outcome⟩]) where
  runs := inTick.runs.2 outcome
  limits := limits_append inTick.limits nofun
  distinct := distinct_append trivial inTick.distinct
  reads := by
    intro read fetched
    obtain ⟨old, inside, id, kind, key, generation, attempts⟩ :=
      inTick.reads read (@fetched_of_append _ (.handler row) _ _ trivial fetched)
    exact ⟨old, inside, id, kind, key, generation, fun same unretried =>
      attempts same unretried.of_append⟩
  claimed := by
    intro read fetched just unretried
    rcases justClaimed_append just with claim | ⟨⟨n, setting⟩, -⟩
    · injection claim with same
      cases same
    · injection setting with same
      cases same

theorem invocations_invoked (kind key : String) (generation : Nat) (row : IntentRow) :
    invocations kind key generation (log ++ [.invoked row]) =
      invocations kind key generation log + if ofIntent kind key generation row then 1 else 0 := by
  unfold invocations
  rw [List.countP_append, List.countP_singleton]
  rfl

theorem interruptions_invoked (kind key : String) (generation : Nat) (row : IntentRow) :
    interruptions kind key generation (log ++ [.invoked row]) =
      interruptions kind key generation log := by
  simp [interruptions, isInterruption]

/-- An invocation stays within the bounds: the tick has claimed the intent with attempts left. -/
theorem Counted.invoke {row : IntentRow} {next : Except String EffectResult → Prog effects Unit}
    (counted : Counted limit table log)
    (inTick : InTick limit table log (.call (.handler row) next) h) :
    Counted limit table (log ++ [.invoked row]) := by
  obtain ⟨fetched, fresh, earlier, n, whole, left⟩ := inTick.runs.1
  have unretried := fresh inTick.distinct
  have allowed : n ≤ limit := inTick.limits n (by simp [whole])
  obtain ⟨within, busy⟩ := inTick.claimed row fetched ⟨earlier, .inr ⟨n, whole⟩⟩ unretried
  obtain ⟨source, inside, id, kind, key, generation, attempts⟩ := inTick.reads row fetched
  refine { ids := counted.ids, bounded := counted.bounded, pairs := counted.pairs, total := ?_,
           current := ?_, future := ?_ }
  · intro kind' key' generation'
    rw [invocations_invoked, interruptions_invoked]
    by_cases own : ofIntent kind' key' generation' row = true
    · rw [if_pos own]
      simp only [ofIntent, Bool.and_eq_true, beq_iff_eq] at own
      obtain ⟨⟨rfl, rfl⟩, rfl⟩ := own
      omega
    · rw [if_neg own]
      exact counted.total kind' key' generation'
  · intro other member
    rw [invocations_invoked, interruptions_invoked]
    by_cases own : ofIntent other.kind other.key other.generation row = true
    · rw [if_pos own]
      simp only [ofIntent, Bool.and_eq_true, beq_iff_eq] at own
      obtain ⟨⟨own_kind, own_key⟩, own_generation⟩ := own
      obtain rfl : other = source := counted.pairs other member source inside
        (own_kind.symm.trans kind.symm) (own_key.symm.trans key.symm)
      have not_pending := busy other inside id own_generation.symm
      rw [attempts own_generation.symm unretried, slack, if_neg not_pending, ← own_kind, ← own_key,
        ← own_generation]
      omega
    · rw [if_neg own]
      exact counted.current other member
  · intro kind' key' generation' later
    have unused := counted.future kind' key' generation' later
    rw [invocations_invoked, unused, if_neg]
    simp only [ofIntent, Bool.and_eq_true, beq_iff_eq]
    rintro ⟨⟨rfl, rfl⟩, rfl⟩
    have below := later source inside kind key
    omega

/-! ### One statement of the tick -/

theorem guarded_status {status : IntentStatus} {row : IntentRow}
    (guarded : IntentTable.guarded id generation status row = true) :
    row.id = id ∧ row.status = status := by
  rw [IntentTable.guarded, Bool.and_eq_true, Bool.and_eq_true, beq_iff_eq, beq_iff_eq,
    beq_iff_eq] at guarded
  exact ⟨guarded.1.1, guarded.2⟩

/-- A final status or a retry: the row was in flight. -/
theorem Counted.settle (counted : Counted limit table log) (keeps : Keeps f)
    (enough : ∀ row, row.attempts + 1 ≤ (f row).attempts + slack (f row).status) :
    Counted limit
      { table with rows := Table.updateWhere (IntentTable.guarded id generation .inFlight) f table.rows }
      log := by
  apply counted.update keeps
  intro row member hit
  have bound := counted.current row member
  have room := enough row
  rw [(guarded_status hit).2, slack, if_neg (by decide)] at bound
  omega

theorem Sound.advance {server : Server} {input : Input} {after : IntentTable}
    (sound : Sound limit server) (running : server.worker = some (.call op next, h))
    (executed : exec op server.table input = some (ans, after))
    (bounded : ∀ n : Int, (⟨op, ans⟩ : Event effects) = ⟨.setting .maxAttempts, n⟩ → n ≤ limit) :
    Sound limit
      { table := after, log := server.log ++ Server.entries op
        worker := some (next ans, h ++ [⟨op, ans⟩]) } := by
  have inTick := sound.inTick _ _ running
  have counted := sound.counted
  have only : ∀ {table log rest h}, InTick limit table log rest h → ∀ rest' h',
      some (rest, h) = some (rest', h') → InTick limit table log rest' h' := by
    intro table log rest h holds rest' h' same
    cases same
    exact holds
  cases op with
  | clock =>
    cases input with
    | time now =>
      cases executed
      simp only [Server.entries, List.append_nil]
      exact ⟨counted, only (inTick.asks trivial bounded nofun)⟩
    | _ => cases executed
  | hasHandler kind =>
    cases input with
    | registered found =>
      cases executed
      simp only [Server.entries, List.append_nil]
      exact ⟨counted, only (inTick.asks trivial bounded nofun)⟩
    | _ => cases executed
  | setting name =>
    cases input with
    | value n =>
      cases executed
      simp only [Server.entries, List.append_nil]
      exact ⟨counted, only (inTick.asks trivial bounded nofun)⟩
    | _ => cases executed
  | handler row =>
    cases input with
    | outcome result =>
      cases executed
      exact ⟨counted.invoke inTick, only (inTick.handled _)⟩
    | _ => cases executed
  | fetchPending now size =>
    cases executed
    simp only [Server.entries, List.append_nil]
    have inside : ∀ row ∈ Table.selectWhere
        (fun row => row.status == .pending && decide (row.dueAt ≤ now)) IntentTable.dueFirst size
        server.table.rows, row ∈ server.table.rows :=
      fun row member => (Table.mem_of_mem_selectWhere member).1
    exact ⟨counted, only (inTick.fetches inside (Table.nodup_selectWhere counted.ids))⟩
  | markInFlight id generation =>
    cases executed
    simp only [Server.entries, List.append_nil]
    constructor
    · apply counted.update keeps_inFlight
      intro row member hit
      have bound := counted.current row member
      rw [(guarded_status hit).2, slack, if_pos rfl] at bound
      exact Nat.le_add_right_of_le bound
    · apply only
      cases hit : server.table.rows.any (IntentTable.guarded id generation .pending) with
      | true => exact inTick.claims counted hit
      | false =>
        apply inTick.writes trivial keeps_inFlight (fun _ _ _ => rfl)
        · intro id' generation' same
          injection same with _ answered
          cases answered
        · exact nofun
  | markDone id generation =>
    cases executed
    simp only [Server.entries, List.append_nil]
    have keeps : Keeps fun row => { row with status := .done } := ⟨fun _ => ⟨rfl, rfl, rfl, rfl⟩⟩
    exact ⟨counted.settle keeps fun _ => le_rfl,
      only (inTick.writes trivial keeps (fun _ _ _ => rfl) nofun nofun)⟩
  | markAbandoned id generation =>
    cases executed
    simp only [Server.entries, List.append_nil]
    have keeps : Keeps fun row => { row with status := .abandoned } :=
      ⟨fun _ => ⟨rfl, rfl, rfl, rfl⟩⟩
    exact ⟨counted.settle keeps fun _ => le_rfl,
      only (inTick.writes trivial keeps (fun _ _ _ => rfl) nofun nofun)⟩
  | markRetry id generation due =>
    cases executed
    simp only [Server.entries, List.append_nil]
    have keeps : Keeps fun row =>
        { row with status := .pending, attempts := row.attempts + 1, dueAt := due } :=
      ⟨fun _ => ⟨rfl, rfl, rfl, rfl⟩⟩
    refine ⟨counted.settle keeps fun _ => le_rfl, only (inTick.writes trivial keeps ?_ nofun nofun)⟩
    intro row hit unretried
    rw [(guarded_status hit).1] at unretried
    exact absurd (List.mem_append_right h List.mem_cons_self) (unretried generation due _)
  | upsert => exact inTick.runs.1.elim
  | selectUpserted => exact inTick.runs.1.elim
  | resetInFlight => exact inTick.runs.1.elim

theorem Sound.step {server server' : Server} {move : Move} (sound : Sound limit server)
    (allowed : ReadsAtMost limit server move) (moved : server.step move = some server') :
    Sound limit server' := by
  cases move with
  | enqueued kind key payload dueAt =>
    obtain rfl := Option.some.inj moved
    exact ⟨sound.counted.upsert, fun rest h running =>
      (sound.inTick rest h running).upsert sound.counted⟩
  | ticks =>
    simp only [Server.step] at moved
    split at moved
    · obtain rfl := Option.some.inj moved
      refine ⟨sound.counted, ?_⟩
      intro rest h running
      cases running
      have nothing : ∀ read, ¬Fetched [] read := by
        intro read fetched
        obtain ⟨now, size, rows, member, -⟩ := fetched
        cases member
      exact
        { runs := tick_runs
          limits := nofun
          distinct := nofun
          reads := fun read fetched => absurd fetched (nothing read)
          claimed := fun read fetched => absurd fetched (nothing read) }
    · cases moved
  | advances input =>
    simp only [Server.step] at moved
    split at moved
    · rename_i op next h running
      obtain ⟨⟨ans, after⟩, executed, rfl⟩ := Option.map_eq_some_iff.mp moved
      apply sound.advance running executed
      intro n same
      cases same
      cases input with
      | value m =>
        cases executed
        exact allowed next h running
      | _ => cases executed
    · cases moved
  | finishes =>
    simp only [Server.step] at moved
    split at moved
    · obtain rfl := Option.some.inj moved
      exact ⟨sound.counted, nofun⟩
    · cases moved
  | interrupted =>
    obtain rfl := Option.some.inj moved
    exact ⟨sound.counted, nofun⟩
  | replays now =>
    simp only [Server.step] at moved
    split at moved
    · rename_i idle
      obtain ⟨⟨ans, after⟩, executed, rfl⟩ := Option.map_eq_some_iff.mp moved
      cases executed
      refine ⟨sound.counted.replay now, ?_⟩
      intro rest h running
      rw [idle] at running
      cases running
    · cases moved

/-- The handler runs for a generation of an intent at most `max_attempts` times, and once more for
each replay that caught the generation in flight. -/
theorem invocations_bounded {limit : Nat} {server : Server} (run : Runs limit {} server)
    (kind key : String) (generation : Nat) :
    invocations kind key generation server.log ≤
      limit + interruptions kind key generation server.log :=
  (Machine.Runs.invariant (Sound limit) run sound_initial
    fun _ _ _ sound allowed moved => sound.step allowed moved).counted.total kind key generation

/-! ## One restart -/

/-- `max_attempts` is 1. -/
def readsOne (_ : Server) : Move → Bool
  | .advances (.value n) => n == 1
  | _ => true

/-- A tick up to the end of the handler. -/
def handling (now : Rat) : List Move :=
  [.ticks, .advances (.time now), .advances .tick, .advances (.registered true), .advances .tick,
    .advances (.value 1), .advances (.outcome (.ok { done := true }))]

/-- The process dies before the outcome is recorded; the next one replays the log. -/
def restarted : List Move :=
  .enqueued "reply" "s1" "\x7b\x7d" 0 :: handling 0 ++ [.interrupted, .replays 1] ++ handling 1

theorem restarted_run : ∃ server, Runs 1 {} server ∧ invocations "reply" "s1" 1 server.log = 2 := by
  have played : (Machine.play Server.step readsOne {} restarted).any
      (fun server => invocations "reply" "s1" 1 server.log == 2) = true := by
    decide +kernel
  obtain ⟨server, run, twice⟩ := Machine.Runs.exists_of_play played
  refine ⟨server, run.mono ?_, by simpa using twice⟩
  intro server move reads
  unfold ReadsAtMost
  split
  · rename_i n
    intro next h _
    have one : n = 1 := by simpa [readsOne] using reads
    rw [one]
    exact le_rfl
  · trivial

/-- One attempt is allowed, and the handler runs twice. -/
theorem restart_runs_again : ¬∀ limit server, Runs limit {} server → ∀ kind key generation,
    invocations kind key generation server.log ≤ limit := by
  intro bounded
  obtain ⟨server, run, twice⟩ := restarted_run
  have once := bounded 1 server run "reply" "s1" 1
  omega

/-- One restart, one invocation more. -/
theorem restarted_within_bound : ∃ server, Runs 1 {} server ∧
    invocations "reply" "s1" 1 server.log ≤ 1 + interruptions "reply" "s1" 1 server.log := by
  obtain ⟨server, run, -⟩ := restarted_run
  exact ⟨server, run, invocations_bounded run "reply" "s1" 1⟩

end SherryAgent.Guarantees.HandlerAttempts
