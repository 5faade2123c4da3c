import SherryAgent.Source.Effects.IntentLog

/-!
# The outcome of an intent is its own

Enqueues, worker ticks and restarts interleave statement by statement. A row's
generation counts the enqueues of its pair, a worker keeps the payload of the
generation it fetched, and every final status is set under that generation.

* `finished_intents_are_their_own` — a finished row carries the payload its
  generation enqueued, and `done` means the handler was done with that payload.
-/

namespace SherryAgent.Guarantees.IntentLog

open SherryAgent.Source.Effects SherryAgent.Library SherryAgent.Library.Resumption

/-- The statements in the order they ran. -/
abbrev Record := List (Event effects)

abbrev LogWorld := World effects (IntentTable × Record) Call Reply

/-- The payloads enqueued for a pair, first enqueue first. -/
def enqueues (kind key : String) (record : Record) : List String :=
  seen (E := effects) (fun op _ => match op with
    | Op.upsert kind' key' payload _ => if kind' = kind ∧ key' = key then some payload else none
    | _ => none) record

/-- Some fetch returned the row. -/
def Fetched (record : Record) (row : IntentRow) : Prop :=
  ∃ now limit rows, (⟨.fetchPending now limit, rows⟩ : Event effects) ∈ record ∧ row ∈ rows

/-- The handler ran on the fetched row with this result. -/
def Handled (record : Record) (row : IntentRow) (result : EffectResult) : Prop :=
  Fetched record row ∧ (⟨.handler row, .ok result⟩ : Event effects) ∈ record

/-- The row has used up its attempts. -/
def Exhausted (record : Record) (row : IntentRow) : Prop :=
  Fetched record row ∧
    ∃ limit : Int, (⟨.setting .maxAttempts, limit⟩ : Event effects) ∈ record ∧ limit ≤ row.attempts

/-- The handler was done with this generation of the intent. -/
def DoneWith (record : Record) (id generation : Nat) : Prop :=
  ∃ read result, Handled record read result ∧ result.done = true ∧
    read.id = id ∧ read.generation = generation

/-- A worker gave this generation of the intent up. -/
def GivenUp (record : Record) (id generation : Nat) : Prop :=
  ∃ read, (Exhausted record read ∨ ∃ result, Handled record read result ∧ result.abandon = true) ∧
    read.id = id ∧ read.generation = generation

/-! ## What a call performs -/

/-- A final status is written only for a generation the program itself fetched and
settled. -/
def MayPerform (h : Record) : Op → Prop
  | .handler row => Fetched h row
  | .markDone id generation => DoneWith h id generation
  | .markAbandoned id generation => GivenUp h id generation
  | _ => True

variable {record record' : Record} {row : IntentRow} {id generation : Nat}

theorem Fetched.mono (fetched : Fetched record row) (sub : record ⊆ record') :
    Fetched record' row := by
  obtain ⟨now, limit, rows, member, inside⟩ := fetched
  exact ⟨now, limit, rows, sub member, inside⟩

theorem Handled.mono {result : EffectResult} (handled : Handled record row result)
    (sub : record ⊆ record') : Handled record' row result :=
  ⟨handled.1.mono sub, sub handled.2⟩

theorem DoneWith.mono (settled : DoneWith record id generation) (sub : record ⊆ record') :
    DoneWith record' id generation := by
  obtain ⟨read, result, handled, rest⟩ := settled
  exact ⟨read, result, handled.mono sub, rest⟩

theorem GivenUp.mono (given : GivenUp record id generation) (sub : record ⊆ record') :
    GivenUp record' id generation := by
  obtain ⟨read, cause, rest⟩ := given
  refine ⟨read, ?_, rest⟩
  rcases cause with ⟨fetched, limit, member, reached⟩ | ⟨result, handled, gives_up⟩
  · exact .inl ⟨fetched.mono sub, limit, sub member, reached⟩
  · exact .inr ⟨result, handled.mono sub, gives_up⟩

theorem MayPerform.mono {op : Op} (may : MayPerform record op) (sub : record ⊆ record') :
    MayPerform record' op := by
  cases op with
  | handler row => exact Fetched.mono may sub
  | markDone id generation => exact DoneWith.mono may sub
  | markAbandoned id generation => exact GivenUp.mono may sub
  | _ => trivial

/-- `_retry` only puts the intent back. -/
theorem retry_issues (row : IntentRow) (retryAfterS : Option Rat) (h : Record) :
    (retry row retryAfterS).Issues MayPerform (fun _ _ => True) h := by
  cases retryAfterS with
  | none =>
    exact ⟨trivial, fun _ => ⟨trivial, fun _ => ⟨trivial, fun _ => ⟨trivial, fun _ => trivial⟩⟩⟩⟩
  | some delay => exact ⟨trivial, fun _ => ⟨trivial, fun _ => ⟨trivial, fun _ => trivial⟩⟩⟩

/-- One fetched intent is served as `MayPerform` allows. -/
theorem serve_issues {h : Record} (fetched : Fetched h row) :
    (serve row).Issues MayPerform (fun _ _ => True) h := by
  refine (Prog.issues_perform_bind _ _ _).mpr ⟨trivial, fun registered => ?_⟩
  cases registered with
  | false => exact trivial
  | true =>
    refine (Prog.issues_perform_bind _ _ _).mpr ⟨trivial, fun acquired => ?_⟩
    cases acquired with
    | false => exact trivial
    | true =>
      refine (Prog.issues_perform_bind _ _ _).mpr ⟨trivial, fun (limit : Int) => ?_⟩
      split
      · rename_i reached
        exact ⟨⟨row, .inl ⟨fetched.mono (by simp), limit, by simp, reached⟩, rfl, rfl⟩,
          fun _ => trivial⟩
      · refine (Prog.issues_perform_bind _ _ _).mpr ⟨fetched.mono (by simp), fun outcome => ?_⟩
        cases outcome with
        | error text => exact retry_issues row none _
        | ok result =>
          dsimp only
          split
          · rename_i is_done
            exact ⟨⟨row, result, ⟨fetched.mono (by simp), by simp⟩, is_done, rfl, rfl⟩,
              fun _ => trivial⟩
          · split
            · rename_i gives_up
              exact ⟨⟨row, .inr ⟨result, ⟨fetched.mono (by simp), by simp⟩, gives_up⟩, rfl, rfl⟩,
                fun _ => trivial⟩
            · exact retry_issues row result.retryAfterS _

theorem tick_issues : tick.Issues MayPerform (fun _ _ => True) [] := by
  refine ⟨trivial, fun now => ⟨trivial, fun (rows : List IntentRow) => ?_⟩⟩
  have served : (rows.mapM serve).Issues MayPerform (fun h _ => ∀ row ∈ rows, Fetched h row)
      [⟨.clock, now⟩, ⟨.fetchPending now 50, rows⟩] := by
    refine Prog.issues_mapM serve (fun h _ _ => ∀ row ∈ rows, Fetched h row) rows _ ?_ ?_
    · intro row member
      exact ⟨now, 50, rows, by simp, member⟩
    · intro finished row rest split h _ fetched
      have member : row ∈ rows := by simp [split]
      refine (serve_issues (fetched row member)).mono (fun _ _ _ => id) ?_
      intro h' _ extended _ other inside
      exact (fetched other inside).mono extended.subset
  change Prog.Issues _ _ (rows.mapM serve >>= fun _ => pure ()) _
  exact (Prog.issues_bind _ _ _).mpr (served.mono (fun _ _ _ => id) fun _ _ _ _ => trivial)

/-- Every call of the system. -/
theorem code_issues (call : Call) : (code call).Issues MayPerform (fun _ _ => True) [] := by
  cases call with
  | enqueue kind key payload dueAt =>
    refine ⟨trivial, fun _ => ⟨trivial, fun _ => ⟨trivial, fun found => ?_⟩⟩⟩
    cases found <;> exact trivial
  | tick =>
    change Prog.Issues _ _ (tick >>= fun _ => pure _) _
    exact (Prog.issues_bind _ _ _).mpr (tick_issues.mono (fun _ _ _ => id) fun _ _ _ _ => trivial)
  | replay => exact ⟨trivial, fun _ => ⟨trivial, fun _ => ⟨trivial, fun _ => ⟨trivial, fun _ => trivial⟩⟩⟩⟩

/-! ## What every statement keeps -/

/-- The table agrees with the statements that have run. -/
structure Kept (table : IntentTable) (record : Record) : Prop where
  ids : (table.rows.map (·.id)).Nodup
  bounded : ∀ row ∈ table.rows, row.id ≤ table.sequence
  /-- The generation counts the enqueues of the pair, the last of them wrote the payload. -/
  content : ∀ row ∈ table.rows, ∃ earlier,
    enqueues row.kind row.key record = earlier ++ [row.payload] ∧
      row.generation = earlier.length + 1
  unlisted : ∀ kind key, (∀ row ∈ table.rows, row.kind = kind → row.key ≠ key) →
    enqueues kind key record = []
  /-- A fetched row stays what its generation enqueued. -/
  reads : ∀ read, Fetched record read → ∃ row ∈ table.rows,
    row.id = read.id ∧ row.kind = read.kind ∧ row.key = read.key ∧ 1 ≤ read.generation ∧
      (enqueues read.kind read.key record)[read.generation - 1]? = some read.payload
  done : ∀ row ∈ table.rows, row.status = .done → DoneWith record row.id row.generation
  abandoned : ∀ row ∈ table.rows, row.status = .abandoned → GivenUp record row.id row.generation

theorem kept_initial : Kept {} [] where
  ids := List.nodup_nil
  bounded := by simp
  content := by simp
  unlisted := by simp [enqueues]
  reads := by
    rintro read ⟨now, limit, rows, member, -⟩
    exact absurd member List.not_mem_nil
  done := by simp
  abandoned := by simp

variable {table : IntentTable}

/-- An update of the status, attempts and due time, final only for a settled generation. -/
theorem Kept.update (kept : Kept table record) {p : IntentRow → Bool} {f : IntentRow → IntentRow}
    (same : ∀ row, (f row).id = row.id ∧ (f row).kind = row.kind ∧ (f row).key = row.key ∧
      (f row).payload = row.payload ∧ (f row).generation = row.generation)
    (is_done : ∀ row ∈ table.rows, p row = true → (f row).status = .done →
      DoneWith record row.id row.generation)
    (gives_up : ∀ row ∈ table.rows, p row = true → (f row).status = .abandoned →
      GivenUp record row.id row.generation) :
    Kept { table with rows := Table.updateWhere p f table.rows } record := by
  have source : ∀ row ∈ Table.updateWhere p f table.rows, ∃ old ∈ table.rows,
      row.id = old.id ∧ row.kind = old.kind ∧ row.key = old.key ∧ row.payload = old.payload ∧
        row.generation = old.generation := by
    intro row member
    rcases Table.mem_updateWhere.mp member with ⟨old, inside, -, rfl⟩ | ⟨inside, -⟩
    · exact ⟨old, inside, same old⟩
    · exact ⟨row, inside, rfl, rfl, rfl, rfl, rfl⟩
  have target : ∀ old ∈ table.rows, ∃ row ∈ Table.updateWhere p f table.rows,
      row.id = old.id ∧ row.kind = old.kind ∧ row.key = old.key := by
    intro old inside
    refine ⟨_, Table.mem_updateWhere_of_mem inside, ?_⟩
    have ⟨id, kind, key, _⟩ := same old
    split <;> simp [id, kind, key]
  refine { ids := ?_, bounded := ?_, content := ?_, unlisted := ?_, reads := ?_, done := ?_,
           abandoned := ?_ }
  · rw [Table.map_updateWhere (·.id) fun row _ => (same row).1]
    exact kept.ids
  · intro row member
    obtain ⟨old, inside, id, -⟩ := source row member
    rw [id]
    exact kept.bounded old inside
  · intro row member
    obtain ⟨old, inside, -, kind, key, payload, generation⟩ := source row member
    rw [kind, key, payload, generation]
    exact kept.content old inside
  · intro kind key absent
    refine kept.unlisted kind key fun old inside same_kind same_key => ?_
    obtain ⟨row, member, -, kind', key'⟩ := target old inside
    exact absent row member (kind'.trans same_kind) (key'.trans same_key)
  · intro read fetched
    obtain ⟨old, inside, id, kind, key, enqueued⟩ := kept.reads read fetched
    obtain ⟨row, member, id', kind', key'⟩ := target old inside
    exact ⟨row, member, id'.trans id, kind'.trans kind, key'.trans key, enqueued⟩
  · intro row member status
    rcases Table.mem_updateWhere.mp member with ⟨old, inside, hit, rfl⟩ | ⟨inside, -⟩
    · rw [(same old).1, (same old).2.2.2.2]
      exact is_done old inside hit status
    · exact kept.done row inside status
  · intro row member status
    rcases Table.mem_updateWhere.mp member with ⟨old, inside, hit, rfl⟩ | ⟨inside, -⟩
    · rw [(same old).1, (same old).2.2.2.2]
      exact gives_up old inside hit status
    · exact kept.abandoned row inside status

/-- A longer record with the same enqueues; a new fetch answered rows of the table. -/
theorem Kept.extend (kept : Kept table record) (sub : record ⊆ record')
    (enqueued : ∀ kind key, enqueues kind key record' = enqueues kind key record)
    (fetches : ∀ read, Fetched record' read → Fetched record read ∨ read ∈ table.rows) :
    Kept table record' := by
  refine { ids := kept.ids, bounded := kept.bounded, content := ?_, unlisted := ?_, reads := ?_,
           done := ?_, abandoned := ?_ }
  · intro row member
    rw [enqueued]
    exact kept.content row member
  · intro kind key absent
    rw [enqueued]
    exact kept.unlisted kind key absent
  · intro read fetched
    rw [enqueued]
    rcases fetches read fetched with old | member
    · exact kept.reads read old
    · obtain ⟨earlier, written, generation⟩ := kept.content read member
      refine ⟨read, member, rfl, rfl, rfl, ?_, ?_⟩
      · omega
      · rw [written, generation]
        simp
  · exact fun row member status => (kept.done row member status).mono sub
  · exact fun row member status => (kept.abandoned row member status).mono sub

theorem enqueues_append (kind key : String) (op : Op) (ans : op.Ans) :
    enqueues kind key (record ++ [⟨op, ans⟩]) = enqueues kind key record ++
      (match op with
        | .upsert kind' key' payload _ => if kind' = kind ∧ key' = key then [payload] else []
        | _ => []) := by
  rw [enqueues, seen_append]
  congr 1
  cases op with
  | upsert kind' key' payload dueAt =>
    by_cases pair : kind' = kind ∧ key' = key <;> simp [pair]
  | _ => rfl

theorem fetched_append {op : Op} {ans : op.Ans} {read : IntentRow}
    (fetched : Fetched (record ++ [⟨op, ans⟩]) read) :
    Fetched record read ∨ ∃ now limit rows, op = .fetchPending now limit ∧ HEq ans rows ∧
      read ∈ (rows : List IntentRow) := by
  obtain ⟨now, limit, rows, member, inside⟩ := fetched
  rcases List.mem_append.mp member with old | new
  · exact .inl ⟨now, limit, rows, old, inside⟩
  · cases List.mem_singleton.mp new
    exact .inr ⟨now, limit, rows, rfl, HEq.rfl, inside⟩

section Upsert

variable {kind key payload : String} {dueAt : Rat}

theorem enqueues_upsert (kind' key' : String) :
    enqueues kind' key' (record ++ [⟨.upsert kind key payload dueAt, ()⟩]) =
      enqueues kind' key' record ++ if kind = kind' ∧ key = key' then [payload] else [] :=
  enqueues_append kind' key' (.upsert kind key payload dueAt) ()

theorem fetched_upsert {read : IntentRow}
    (fetched : Fetched (record ++ [⟨.upsert kind key payload dueAt, ()⟩]) read) :
    Fetched record read := by
  rcases fetched_append fetched with old | ⟨_, _, _, impossible, -⟩
  · exact old
  · cases impossible

/-- The payload a generation enqueued stays at its place. -/
theorem enqueued_upsert {kind' key' written : String} {n : Nat}
    (found : (enqueues kind' key' record)[n]? = some written) :
    (enqueues kind' key' (record ++ [⟨.upsert kind key payload dueAt, ()⟩]))[n]? = some written := by
  have inside := (List.getElem?_eq_some_iff.mp found).1
  rw [enqueues_upsert, List.getElem?_append_left inside, found]

/-- A second enqueue of a pair: the row takes its payload and counts it. -/
theorem Kept.replace (kept : Kept table record)
    (listed : ∃ row ∈ table.rows, row.kind = kind ∧ row.key = key) :
    Kept
      { rows := Table.updateWhere (fun row => row.kind == kind && row.key == key)
          (fun row => { row with payload, generation := row.generation + 1, status := .pending
                                 attempts := 0, dueAt }) table.rows
        sequence := table.sequence + 1 }
      (record ++ [⟨.upsert kind key payload dueAt, ()⟩]) := by
  have sub : record ⊆ record ++ [⟨.upsert kind key payload dueAt, ()⟩] :=
    List.subset_append_left _ _
  have target : ∀ old ∈ table.rows, ∃ row ∈ Table.updateWhere
      (fun row => row.kind == kind && row.key == key)
      (fun row => { row with payload, generation := row.generation + 1, status := .pending
                             attempts := 0, dueAt }) table.rows,
      row.id = old.id ∧ row.kind = old.kind ∧ row.key = old.key := by
    intro old inside
    refine ⟨_, Table.mem_updateWhere_of_mem inside, ?_⟩
    split <;> exact ⟨rfl, rfl, rfl⟩
  refine { ids := ?_, bounded := ?_, content := ?_, unlisted := ?_, reads := ?_, done := ?_,
           abandoned := ?_ }
  · refine Eq.mpr ?_ kept.ids
    exact congrArg List.Nodup (Table.map_updateWhere (fun row : IntentRow => row.id) fun _ _ => rfl)
  · intro row member
    rcases Table.mem_updateWhere.mp member with ⟨old, inside, -, rfl⟩ | ⟨inside, -⟩
    · exact Nat.le_succ_of_le (kept.bounded old inside)
    · exact Nat.le_succ_of_le (kept.bounded row inside)
  · intro row member
    rcases Table.mem_updateWhere.mp member with ⟨old, inside, hit, rfl⟩ | ⟨inside, miss⟩
    · obtain ⟨rfl, rfl⟩ : old.kind = kind ∧ old.key = key := by simpa using hit
      obtain ⟨earlier, before, generation⟩ := kept.content old inside
      refine ⟨earlier ++ [old.payload], ?_, by simp [generation]⟩
      rw [enqueues_upsert, before]
      simp
    · have other : ¬(kind = row.kind ∧ key = row.key) := by
        rintro ⟨rfl, rfl⟩
        simp at miss
      rw [enqueues_upsert, if_neg other, List.append_nil]
      exact kept.content row inside
  · intro kind' key' absent
    have gone : ∀ row ∈ table.rows, row.kind = kind' → row.key ≠ key' := by
      intro old inside same_kind same_key
      obtain ⟨row, member, -, kind'', key''⟩ := target old inside
      exact absent row member (kind''.trans same_kind) (key''.trans same_key)
    have other : ¬(kind = kind' ∧ key = key') := by
      rintro ⟨rfl, rfl⟩
      obtain ⟨row, inside, same_kind, same_key⟩ := listed
      exact gone row inside same_kind same_key
    rw [enqueues_upsert, if_neg other, List.append_nil]
    exact kept.unlisted kind' key' gone
  · intro read fetched
    obtain ⟨old, inside, id, kind', key', positive, enqueued⟩ :=
      kept.reads read (fetched_upsert fetched)
    obtain ⟨row, member, id', kind'', key''⟩ := target old inside
    exact ⟨row, member, id'.trans id, kind''.trans kind', key''.trans key', positive,
      enqueued_upsert enqueued⟩
  · intro row member status
    rcases Table.mem_updateWhere.mp member with ⟨old, -, -, rfl⟩ | ⟨inside, -⟩
    · cases status
    · exact (kept.done row inside status).mono sub
  · intro row member status
    rcases Table.mem_updateWhere.mp member with ⟨old, -, -, rfl⟩ | ⟨inside, -⟩
    · cases status
    · exact (kept.abandoned row inside status).mono sub

/-- The first enqueue of a pair: a new row under a new id. -/
theorem Kept.insert (kept : Kept table record)
    (absent : ∀ row ∈ table.rows, row.kind = kind → row.key ≠ key) :
    Kept
      { rows := table.rows ++
          [{ id := table.sequence + 1, kind, key, payload, generation := 1, status := .pending
             attempts := 0, dueAt }]
        sequence := table.sequence + 1 }
      (record ++ [⟨.upsert kind key payload dueAt, ()⟩]) := by
  have sub : record ⊆ record ++ [⟨.upsert kind key payload dueAt, ()⟩] :=
    List.subset_append_left _ _
  refine { ids := ?_, bounded := ?_, content := ?_, unlisted := ?_, reads := ?_, done := ?_,
           abandoned := ?_ }
  · rw [List.map_append, List.nodup_append]
    refine ⟨kept.ids, by simp, ?_⟩
    intro id member new eq
    obtain ⟨row, inside, rfl⟩ := List.mem_map.mp member
    have bound := kept.bounded row inside
    simp only [List.map_cons, List.map_nil, List.mem_singleton] at eq
    omega
  · intro row member
    rcases List.mem_append.mp member with old | new
    · exact Nat.le_succ_of_le (kept.bounded row old)
    · simp [List.mem_singleton.mp new]
  · intro row member
    rcases List.mem_append.mp member with old | new
    · have other : ¬(kind = row.kind ∧ key = row.key) := fun same =>
        absent row old same.1.symm same.2.symm
      rw [enqueues_upsert, if_neg other, List.append_nil]
      exact kept.content row old
    · rw [List.mem_singleton.mp new]
      refine ⟨[], ?_, rfl⟩
      rw [enqueues_upsert, kept.unlisted kind key absent]
      simp
  · intro kind' key' unlisted
    have other : ¬(kind = kind' ∧ key = key') := by
      rintro ⟨rfl, rfl⟩
      exact unlisted _ (List.mem_append_right _ List.mem_cons_self) rfl rfl
    rw [enqueues_upsert, if_neg other, List.append_nil]
    exact kept.unlisted kind' key' fun row inside => unlisted row (List.mem_append_left _ inside)
  · intro read fetched
    obtain ⟨row, inside, id, kind', key', positive, enqueued⟩ :=
      kept.reads read (fetched_upsert fetched)
    exact ⟨row, List.mem_append_left _ inside, id, kind', key', positive, enqueued_upsert enqueued⟩
  · intro row member status
    rcases List.mem_append.mp member with old | new
    · exact (kept.done row old status).mono sub
    · rw [List.mem_singleton.mp new] at status
      cases status
  · intro row member status
    rcases List.mem_append.mp member with old | new
    · exact (kept.abandoned row old status).mono sub
    · rw [List.mem_singleton.mp new] at status
      cases status

end Upsert

/-- A statement that is neither an enqueue nor a fetch. -/
theorem Kept.other (kept : Kept table record) {op : Op} (ans : op.Ans)
    (not_enqueue : ∀ kind key payload dueAt, op ≠ .upsert kind key payload dueAt)
    (not_fetch : ∀ now limit, op ≠ .fetchPending now limit) :
    Kept table (record ++ [⟨op, ans⟩]) := by
  refine kept.extend (List.subset_append_left _ _) ?_ ?_
  · intro kind key
    rw [enqueues_append]
    cases op with
    | upsert kind' key' payload dueAt => exact absurd rfl (not_enqueue kind' key' payload dueAt)
    | _ => simp
  · intro read fetched
    rcases fetched_append fetched with old | ⟨now, limit, _, impossible, -⟩
    · exact .inl old
    · exact absurd impossible (not_fetch now limit)

/-- A compare-and-set on an intent of one generation. -/
theorem Kept.compareAndSet (kept : Kept table record) (id generation : Nat)
    (before : IntentStatus) (set : IntentRow → IntentRow)
    (same : ∀ row, (set row).id = row.id ∧ (set row).kind = row.kind ∧ (set row).key = row.key ∧
      (set row).payload = row.payload ∧ (set row).generation = row.generation)
    (is_done : ∀ row, (set row).status = .done → DoneWith record id generation)
    (gives_up : ∀ row, (set row).status = .abandoned → GivenUp record id generation) :
    Kept (table.compareAndSet id generation before set).2 record := by
  have guarded : ∀ row, IntentTable.guarded id generation before row = true →
      row.id = id ∧ row.generation = generation := by
    intro row hit
    simp only [IntentTable.guarded, Bool.and_eq_true, beq_iff_eq] at hit
    exact hit.1
  refine kept.update same ?_ ?_
  · intro row _ hit status
    obtain ⟨rfl, rfl⟩ := guarded row hit
    exact is_done row status
  · intro row _ hit status
    obtain ⟨rfl, rfl⟩ := guarded row hit
    exact gives_up row status

/-- Every statement a call may perform keeps the table in agreement. -/
theorem kept_exec {op : Op} {ans : op.Ans} {after : IntentTable} {input : Input}
    (kept : Kept table record) (may : MayPerform record op)
    (executed : exec op table input = some (ans, after)) :
    Kept after (record ++ [⟨op, ans⟩]) := by
  cases op with
  | upsert kind key payload dueAt =>
    cases executed
    unfold IntentTable.upsert
    split
    · rename_i listed
      exact kept.replace (by simpa using listed)
    · rename_i absent
      exact kept.insert (by simpa using absent)
  | fetchPending now limit =>
    cases executed
    refine kept.extend (List.subset_append_left _ _) (fun _ _ => by simp [enqueues_append]) ?_
    intro read fetched
    rcases fetched_append fetched with old | ⟨_, _, rows, -, same, inside⟩
    · exact .inl old
    · rw [← eq_of_heq same] at inside
      exact .inr (Table.mem_of_mem_selectWhere inside).1
  | markInFlight id generation =>
    cases executed
    have claimed := kept.compareAndSet id generation .pending ({ · with status := .inFlight })
      (fun _ => ⟨rfl, rfl, rfl, rfl, rfl⟩) (fun _ impossible => by cases impossible)
      (fun _ impossible => by cases impossible)
    exact claimed.other _ (by simp) (by simp)
  | markDone id generation =>
    cases executed
    have finished := kept.compareAndSet id generation .inFlight ({ · with status := .done })
      (fun _ => ⟨rfl, rfl, rfl, rfl, rfl⟩) (fun _ _ => may) (fun _ impossible => by cases impossible)
    exact finished.other _ (by simp) (by simp)
  | markRetry id generation nextDueAt =>
    cases executed
    have put_back := kept.compareAndSet id generation .inFlight
      (fun row => { row with status := .pending, attempts := row.attempts + 1, dueAt := nextDueAt })
      (fun _ => ⟨rfl, rfl, rfl, rfl, rfl⟩) (fun _ impossible => by cases impossible)
      (fun _ impossible => by cases impossible)
    exact put_back.other _ (by simp) (by simp)
  | markAbandoned id generation =>
    cases executed
    have given_up := kept.compareAndSet id generation .inFlight ({ · with status := .abandoned })
      (fun _ => ⟨rfl, rfl, rfl, rfl, rfl⟩) (fun _ impossible => by cases impossible) (fun _ _ => may)
    exact given_up.other _ (by simp) (by simp)
  | resetInFlight now =>
    cases executed
    have reset := kept.update (p := fun row => row.status == .inFlight)
      (f := ({ · with status := .pending, dueAt := now }))
      (fun _ => ⟨rfl, rfl, rfl, rfl, rfl⟩) (fun _ _ _ impossible => by cases impossible)
      (fun _ _ _ impossible => by cases impossible)
    exact reset.other _ (by simp) (by simp)
  | selectUpserted kind key =>
    cases executed
    exact kept.other _ (by simp) (by simp)
  | clock =>
    cases input <;> cases executed
    exact kept.other _ (by simp) (by simp)
  | hasHandler kind =>
    cases input <;> cases executed
    exact kept.other _ (by simp) (by simp)
  | setting name =>
    cases input <;> cases executed
    exact kept.other _ (by simp) (by simp)
  | handler row =>
    cases input <;> cases executed
    exact kept.other _ (by simp) (by simp)

/-! ## Every run -/

structure Sound (w : LogWorld) : Prop where
  honours : w.Honours (fun _ => MayPerform) fun _ _ _ => True
  recorded : ∀ t ∈ w.threads, ∀ event ∈ t.history, event ∈ w.store.2
  kept : Kept w.store.1 w.store.2

theorem sound_step {w w' : LogWorld} {choice : Choice Call Input} (sound : Sound w)
    (stepped : system.recorded.step w choice = some w') : Sound w' := by
  refine ⟨System.honours_step code_issues sound.honours stepped,
    System.recorded_step sound.recorded stepped, ?_⟩
  rcases system.recorded.step_cases stepped with
    ⟨call, -, same, -⟩ | ⟨i, input, thread, op, ans, -, fires⟩
  · rw [same]
    exact sound.kept
  · obtain ⟨⟨answered, executed⟩, grown⟩ := fires.recorded
    have may : MayPerform thread.history op := fires.issued sound.honours
    rw [grown]
    exact kept_exec sound.kept (may.mono (sound.recorded thread fires.mem)) executed

/-- The empty log. -/
def initialWorld : LogWorld := ⟨({}, []), []⟩

theorem sound_initial : Sound initialWorld where
  honours := fun _ member => absurd member List.not_mem_nil
  recorded := fun _ member => absurd member List.not_mem_nil
  kept := kept_initial

/-- In every interleaving of enqueues, worker ticks and restarts: a row that is done or
abandoned carries the payload of the enqueue its generation counts; a done one was handled
to a done result with exactly that payload, and an abandoned one was given up in that
generation. -/
theorem finished_intents_are_their_own {w : LogWorld}
    (run : system.recorded.Runs (fun _ _ => True) initialWorld w) :
    ∀ row ∈ w.store.1.rows, row.status = .done ∨ row.status = .abandoned →
      (0 < row.generation ∧
        (enqueues row.kind row.key w.store.2)[row.generation - 1]? = some row.payload) ∧
      (row.status = .done → ∃ read result, Handled w.store.2 read result ∧ result.done = true ∧
        read.id = row.id ∧ read.generation = row.generation ∧ read.payload = row.payload) ∧
      (row.status = .abandoned → GivenUp w.store.2 row.id row.generation) := by
  have sound : Sound w := run.invariant Sound sound_initial
    fun _ _ _ sound _ stepped => sound_step sound stepped
  intro row member _
  obtain ⟨earlier, written, generation⟩ := sound.kept.content row member
  have payload : (enqueues row.kind row.key w.store.2)[row.generation - 1]? = some row.payload := by
    rw [written, generation]
    simp
  refine ⟨⟨by omega, payload⟩, ?_, sound.kept.abandoned row member⟩
  intro status
  obtain ⟨read, result, handled, is_done, same_id, same_generation⟩ :=
    sound.kept.done row member status
  refine ⟨read, result, handled, is_done, same_id, same_generation, ?_⟩
  obtain ⟨owner, inside, id, kind, key, -, enqueued⟩ := sound.kept.reads read handled.1
  have same : owner = row := Table.eq_of_key_eq sound.kept.ids inside member (id.trans same_id)
  rw [← kind, ← key, same, same_generation, payload] at enqueued
  exact (Option.some.inj enqueued).symm

/-- A slow tick whose intent is enqueued again while its handler runs, then a second tick. -/
def reenqueued : List (Choice Call Input) :=
  [.start (.enqueue "k" "a" "p1" none), .run 0 (.time 0), .run 0 .tick, .run 0 .tick,
   .start .tick, .run 1 (.time 1), .run 1 .tick, .run 1 (.registered true), .run 1 .tick,
   .start (.enqueue "k" "a" "p2" none), .run 2 (.time 2), .run 2 .tick, .run 2 .tick,
   .run 1 (.value 3), .run 1 (.outcome (.ok { done := true })), .run 1 .tick,
   .start .tick, .run 3 (.time 3), .run 3 .tick, .run 3 (.registered true), .run 3 .tick,
   .run 3 (.value 3), .run 3 (.outcome (.ok { done := true })), .run 3 .tick]

/-- The outcome of the first enqueue leaves the row alone; the second one's finishes it. -/
theorem reenqueued_intent_is_its_own :
    ∃ w row, system.recorded.Runs (fun _ _ => True) initialWorld w ∧ row ∈ w.store.1.rows ∧
      row.status = .done ∧ row.generation = 2 ∧
      ∃ read result, Handled w.store.2 read result ∧ result.done = true ∧ read.id = row.id ∧
        read.generation = row.generation ∧ read.payload = row.payload := by
  have played : (system.recorded.play (fun _ _ => true) initialWorld reenqueued).any
      (fun w => w.store.1.rows.any fun row =>
        row.status == .done && row.generation == 2) = true := by
    decide +kernel
  obtain ⟨w, run, found⟩ := System.Runs.exists_of_play played
  obtain ⟨row, member, settled⟩ := List.any_eq_true.mp found
  simp only [Bool.and_eq_true, beq_iff_eq] at settled
  have run : system.recorded.Runs (fun _ _ => True) initialWorld w := run.mono fun _ _ _ => trivial
  have own := finished_intents_are_their_own run row member (.inl settled.1)
  exact ⟨w, row, run, member, settled.1, settled.2, own.2.1 settled.1⟩

end SherryAgent.Guarantees.IntentLog
