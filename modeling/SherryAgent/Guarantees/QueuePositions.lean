import Mathlib.Data.Prod.Lex
import Mathlib.Data.String.Basic
import SherryAgent.Guarantees.InputQueue

/-!
# Queue positions and the order of the claims

`enqueue` answers with the rank of the row among the QUEUED rows of its session,
whether they have expired or not; `claim_next` passes over the expired ones. The
two agree exactly when no expired row stands at or before the row.

* `position_iff` — after any operations, the position is the number of claims
  after which the row is claimed exactly when every QUEUED row of the session at or
  before it has not expired;
* `expired_row_counted` — a row that expired while queued is counted and never claimed.
-/

namespace SherryAgent.Guarantees.QueuePositions

open SherryAgent.Source.Server SherryAgent.Source.Server.QueueRepository
  SherryAgent.Source.Server.UserInputQueue SherryAgent.Guarantees.InputQueue
  SherryAgent.Library

/-- The table after `n` claims that each returned a row, with the clock at `now`. -/
def claimTimes (sessionId : String) (now : Rat) : Nat → QueueTable → Option QueueTable
  | 0, table => some table
  | n + 1, table =>
    match writeTransaction (claimNext sessionId now) table with
    | (.ok (some _), after) => claimTimes sessionId now n after
    | _ => none

/-- The row has the status in the table. -/
def Stands (status : UserInputQueueStatus) (row : UserInputQueueRow) (table : QueueTable) : Prop :=
  ∃ stored ∈ table, stored.id = row.id ∧ stored.status = status

/-- The row is claimed after so many claims on its session, and not before. -/
def ClaimedAfter (now : Rat) (row : UserInputQueueRow) (position : Nat) (table : QueueTable) :
    Prop :=
  (∃ after, claimTimes row.sessionId now position table = some after ∧
    Stands .claimed row after) ∧
  ∀ n < position, ∀ after, claimTimes row.sessionId now n table = some after →
    Stands .queued row after

/-- No expired row of the session is queued at or before the row. -/
def Unobstructed (now : Rat) (row : UserInputQueueRow) (table : QueueTable) : Prop :=
  row.status = .queued → ∀ other ∈ table, other.queuedIn row.sessionId = true →
    claimsBefore other row = true → now < other.expiresAt

/-- The rows a claim may take. -/
def live (sessionId : String) (now : Rat) (row : UserInputQueueRow) : Bool :=
  row.queuedIn sessionId && decide (now < row.expiresAt)

/-- What a claim does to the row it takes. -/
def claimed (now : Rat) (row : UserInputQueueRow) : UserInputQueueRow :=
  { row with status := .claimed, updatedAt := now }

variable {sessionId : String} {now : Rat} {table after : QueueTable}
  {row chosen : UserInputQueueRow}

/-! ## The order of the claims -/

/-- What `ORDER BY priority DESC, created_at ASC, id ASC` compares. -/
def claimKey (row : UserInputQueueRow) : ℤᵒᵈ ×ₗ ℚ ×ₗ String :=
  toLex (OrderDual.toDual row.priority, toLex (row.createdAt, row.id))

theorem claimsBefore_iff (a b : UserInputQueueRow) :
    claimsBefore a b = true ↔ claimKey a ≤ claimKey b := by
  simp [claimsBefore, claimKey, Prod.Lex.toLex_le_toLex]

theorem nodup_claimKey (distinct : (table.map (·.id)).Nodup) : (table.map claimKey).Nodup := by
  apply List.Nodup.of_map fun key => (ofLex (ofLex key).2).2
  rw [List.map_map]
  exact distinct

theorem mem_next (distinct : (table.map (·.id)).Nodup) :
    row ∈ Table.selectWhere (live sessionId now) claimsBefore 1 table ↔
      row ∈ table ∧ live sessionId now row = true ∧
        Table.rank (live sessionId now) claimsBefore table row ≤ 1 :=
  Table.mem_selectWhere_iff claimsBefore_iff (nodup_claimKey distinct)

/-! ## One claim -/

theorem update_run {p : UserInputQueueRow → Bool} {f : UserInputQueueRow → UserInputQueueRow}
    (distinct : Distinct (Table.updateWhere p f table)) :
    (update p f).run.run table = (.ok ((table.filter p).map f), Table.updateWhere p f table) := by
  have wrote : (write (Table.updateWhere p f table)).run.run table =
      (.ok (), Table.updateWhere p f table) := by
    unfold write
    rw [if_neg (not_not.mpr distinct.ids), if_neg (not_not.mpr distinct.keys)]
    rfl
  change (write (Table.updateWhere p f table) >>= fun _ =>
    pure ((table.filter p).map f)).run.run table = _
  rw [ExceptT.run_bind, StateT.run_bind, wrote]
  rfl

theorem update_head {p : UserInputQueueRow → Bool} {f : UserInputQueueRow → UserInputQueueRow}
    (distinct : Distinct (Table.updateWhere p f table)) :
    writeTransaction (update p f >>= fun rows => pure rows.head?) table =
      (.ok ((table.filter p).map f).head?, Table.updateWhere p f table) := by
  unfold writeTransaction
  rw [ExceptT.run_bind, StateT.run_bind, update_run distinct]
  rfl

/-- The rows a claim with the chosen row hits: that row, as ids are distinct. -/
def hits (chosen row : UserInputQueueRow) : Bool := row.id == chosen.id

theorem hits_iff (distinct : (table.map (·.id)).Nodup) (inside : chosen ∈ table) :
    ∀ row ∈ table, hits chosen row = true ↔ row = chosen := by
  intro row member
  rw [hits, beq_iff_eq]
  constructor
  · exact Table.eq_of_key_eq distinct member inside
  · rintro rfl
    rfl

theorem queued_of_live (waits : live sessionId now row = true) : row.status = .queued := by
  simp only [live, UserInputQueueRow.queuedIn, Bool.and_eq_true, beq_iff_eq] at waits
  exact waits.1.2

theorem not_live_claimed (row : UserInputQueueRow) : live sessionId now (claimed now row) = false := by
  simp [live, claimed, UserInputQueueRow.queuedIn]

/-- A claim breaks neither the primary key nor the unique index. -/
theorem distinct_claim (distinct : Distinct table) (inside : chosen ∈ table)
    (queued : chosen.status = .queued) :
    Distinct (Table.updateWhere (hits chosen) (claimed now) table) where
  ids := by
    have same : (Table.updateWhere (hits chosen) (claimed now) table).map (·.id) =
        table.map (·.id) := Table.map_updateWhere _ fun _ _ => rfl
    rw [same]
    exact distinct.ids
  keys := by
    have same : (Table.updateWhere (hits chosen) (claimed now) table).filterMap dedupKey =
        table.filterMap dedupKey := by
      rw [Table.updateWhere, List.filterMap_map]
      refine List.filterMap_congr fun row member => ?_
      cases hit : hits chosen row with
      | false => simp [hit]
      | true =>
        obtain rfl := (hits_iff distinct.ids inside row member).mp hit
        simp [hit, claimed, dedupKey, UserInputQueueRow.active, UserInputQueueStatus.active, queued]
    rw [same]
    exact distinct.keys

/-- All a claim does: it finds no live row, or it takes the first one. -/
theorem claim_cases (distinct : Distinct table) :
    (∀ row ∈ table, live sessionId now row = false) ∧
      writeTransaction (claimNext sessionId now) table = (.ok none, table) ∨
    ∃ chosen, Table.selectWhere (live sessionId now) claimsBefore 1 table = [chosen] ∧
      writeTransaction (claimNext sessionId now) table =
        (.ok (some (claimed now chosen)), Table.updateWhere (hits chosen) (claimed now) table) := by
  have ran : ∀ next, Table.selectWhere (live sessionId now) claimsBefore 1 table = next →
      writeTransaction (claimNext sessionId now) table = writeTransaction
        (update (fun row => next.any fun chosen => hits chosen row) (claimed now) >>=
          fun rows => pure rows.head?) table := by
    rintro next rfl
    rfl
  cases listed : Table.selectWhere (live sessionId now) claimsBefore 1 table with
  | nil =>
    have untouched : Table.updateWhere (fun _ => false) (claimed now) table = table :=
      Table.updateWhere_eq_self fun _ _ => rfl
    refine .inl ⟨Table.selectWhere_eq_nil listed, ?_⟩
    rw [ran [] listed]
    change writeTransaction (update (fun _ => false) (claimed now) >>= _) table = _
    rw [update_head (untouched.symm ▸ distinct), untouched, List.filter_false]
    rfl
  | cons chosen rest =>
    have single : rest = [] := by
      have bound : (Table.selectWhere (live sessionId now) claimsBefore 1 table).length ≤ 1 :=
        List.length_take_le _ _
      rw [listed, List.length_cons] at bound
      exact List.length_eq_zero_iff.mp (by omega)
    subst single
    have among : chosen ∈ Table.selectWhere (live sessionId now) claimsBefore 1 table := by
      simp [listed]
    obtain ⟨inside, waits⟩ := Table.mem_of_mem_selectWhere among
    have alone : table.filter (hits chosen) = [chosen] := only_row distinct.ids inside
    refine .inr ⟨chosen, rfl, ?_⟩
    rw [ran [chosen] listed]
    have tested : (fun row => [chosen].any fun chosen => hits chosen row) = hits chosen := by
      funext row
      simp
    rw [tested, update_head (distinct_claim distinct inside (queued_of_live waits)), alone]
    rfl

/-! ## Claims one after the other -/

/-- A row with the id of the row is the row as the table has it. -/
theorem stands_iff {status : UserInputQueueStatus} (distinct : (table.map (·.id)).Nodup)
    (inside : row ∈ table) : Stands status row table ↔ row.status = status := by
  constructor
  · rintro ⟨stored, member, same, stands⟩
    rw [← stands, Table.eq_of_key_eq distinct member inside same]
  · intro stands
    exact ⟨row, inside, rfl, stands⟩

/-- A claim leaves every row but the chosen one. -/
theorem mem_claim_of_ne (distinct : (table.map (·.id)).Nodup) (chosen_in : chosen ∈ table)
    (inside : row ∈ table) (other : row ≠ chosen) :
    row ∈ Table.updateWhere (hits chosen) (claimed now) table := by
  refine Table.mem_updateWhere.mpr (.inr ⟨inside, ?_⟩)
  rw [Bool.eq_false_iff, Ne, hits_iff distinct chosen_in row inside]
  exact other

/-- A row that no claim may take stays as it is. -/
theorem kept_of_not_live (distinct : Distinct table) (inside : row ∈ table)
    (idle : live sessionId now row = false) (n : Nat)
    (ran : claimTimes sessionId now n table = some after) : Distinct after ∧ row ∈ after := by
  induction n generalizing table with
  | zero =>
    obtain rfl : table = after := by simpa [claimTimes] using ran
    exact ⟨distinct, inside⟩
  | succ n ih =>
    unfold claimTimes at ran
    rcases @claim_cases sessionId now _ distinct with
      ⟨-, empty⟩ | ⟨chosen, listed, taken⟩
    · rw [empty] at ran
      cases ran
    · rw [taken] at ran
      have among : chosen ∈ Table.selectWhere (live sessionId now) claimsBefore 1 table := by
        simp [listed]
      obtain ⟨chosen_in, waits⟩ := Table.mem_of_mem_selectWhere among
      refine ih (distinct_claim distinct chosen_in (queued_of_live waits)) ?_ ran
      refine mem_claim_of_ne distinct.ids chosen_in inside ?_
      rintro rfl
      rw [idle] at waits
      cases waits

/-- The claim that a live row sees: of itself, when it is the first one, or of a row
before it, after which it is one place nearer. -/
theorem claim_live (distinct : Distinct table) (inside : row ∈ table)
    (waits : live sessionId now row = true) :
    ∃ chosen taken after, writeTransaction (claimNext sessionId now) table = (.ok (some taken), after) ∧
      Distinct after ∧ after = Table.updateWhere (hits chosen) (claimed now) table ∧
      (Table.rank (live sessionId now) claimsBefore table row = 1 ∧ chosen = row ∨
        row ∈ after ∧ Table.rank (live sessionId now) claimsBefore after row + 1 =
          Table.rank (live sessionId now) claimsBefore table row ∧
        Table.rank (live sessionId now) claimsBefore table row ≠ 1) := by
  rcases @claim_cases sessionId now _ distinct with
    ⟨idle, -⟩ | ⟨chosen, listed, taken⟩
  · rw [idle row inside] at waits
    cases waits
  · have among : chosen ∈ Table.selectWhere (live sessionId now) claimsBefore 1 table := by
      simp [listed]
    obtain ⟨chosen_in, chosen_waits⟩ := Table.mem_of_mem_selectWhere among
    refine ⟨chosen, _, _, taken, distinct_claim distinct chosen_in (queued_of_live chosen_waits),
      rfl, ?_⟩
    have first_iff := @mem_next sessionId now _ row distinct.ids
    rw [listed, List.mem_singleton] at first_iff
    have ranked := Table.rank_pos inside waits ((claimsBefore_iff row row).mpr le_rfl)
    by_cases first : row = chosen
    · obtain ⟨-, -, early⟩ := first_iff.mp first
      exact .inl ⟨by omega, first.symm⟩
    · refine .inr ⟨mem_claim_of_ne distinct.ids chosen_in inside first, ?_, ?_⟩
      · exact Table.rank_updateWhere distinct.ids.of_map chosen_in (hits_iff distinct.ids chosen_in)
          chosen_waits (not_live_claimed chosen)
          (Table.first_before claimsBefore_iff among inside waits)
      · intro one
        exact first (first_iff.mpr ⟨inside, waits, one.le⟩)

/-- A live row waits for the live rows before it, and is then claimed. -/
theorem waits_its_rank (distinct : Distinct table) (inside : row ∈ table)
    (waits : live sessionId now row = true) (k : Nat)
    (ranked : Table.rank (live sessionId now) claimsBefore table row = k + 1) :
    (∃ after, claimTimes sessionId now (k + 1) table = some after ∧
      Distinct after ∧ Stands .claimed row after) ∧
      ∀ n ≤ k, ∀ after, claimTimes sessionId now n table = some after → Stands .queued row after := by
  have standing : Stands .queued row table := ⟨row, inside, rfl, queued_of_live waits⟩
  induction k generalizing table with
  | zero =>
    obtain ⟨chosen, taken, after, ran, distinct', written, first | later⟩ :=
      claim_live distinct inside waits
    · obtain ⟨-, rfl⟩ := first
      refine ⟨⟨after, by simp [claimTimes, ran], distinct', claimed now chosen, ?_, rfl, rfl⟩, ?_⟩
      · have here := Table.mem_updateWhere_of_mem (p := hits chosen) (f := claimed now) inside
        rw [written]
        simpa [hits] using here
      · intro n none_before end_table ran'
        obtain rfl : n = 0 := by omega
        obtain rfl : table = end_table := by simpa [claimTimes] using ran'
        exact standing
    · exact absurd ranked later.2.2
  | succ k ih =>
    obtain ⟨chosen, taken, after, ran, distinct', written, first | later⟩ :=
      claim_live distinct inside waits
    · omega
    · obtain ⟨inside', nearer, -⟩ := later
      obtain ⟨⟨done, ran', ended⟩, before⟩ :=
        ih distinct' inside' (by omega) ⟨row, inside', rfl, queued_of_live waits⟩
      refine ⟨⟨done, by simpa [claimTimes, ran] using ran', ended⟩, ?_⟩
      intro n early end_table ran''
      cases n with
      | zero =>
        obtain rfl : table = end_table := by simpa [claimTimes] using ran''
        exact standing
      | succ n =>
        refine before n (by omega) end_table ?_
        simpa [claimTimes, ran] using ran''

/-! ## The position -/

/-- The rank `queued_position` counts, expired rows included. -/
def positionOf (row : UserInputQueueRow) (table : QueueTable) : Nat :=
  Table.rank (·.queuedIn row.sessionId) claimsBefore table row

/-- The position is the rank among the live rows and one for each expired row before. -/
theorem positionOf_eq (now : Rat) (row : UserInputQueueRow) (table : QueueTable) :
    positionOf row table = Table.rank (live row.sessionId now) claimsBefore table row +
      Table.rank (fun other => other.queuedIn row.sessionId && !decide (now < other.expiresAt))
        claimsBefore table row :=
  Table.rank_split (fun other : UserInputQueueRow => decide (now < other.expiresAt)) table

theorem unobstructed_iff (queued : row.status = .queued) :
    Unobstructed now row table ↔
      Table.rank (fun other => other.queuedIn row.sessionId && !decide (now < other.expiresAt))
        claimsBefore table row = 0 := by
  rw [Table.rank, List.countP_eq_zero]
  unfold Unobstructed
  constructor
  · intro free other member counted
    simp only [Bool.and_eq_true, Bool.not_eq_true', decide_eq_false_iff_not] at counted
    exact counted.1.2 (free queued other member counted.1.1 counted.2)
  · intro none_expired _ other member listed before
    by_contra expired
    exact none_expired other member (by simp [listed, before, expired])

/-- For a queued row the two orders agree exactly when nothing before it has expired. -/
theorem claimedAfter_iff (distinct : Distinct table) (inside : row ∈ table)
    (queued : row.status = .queued) :
    ClaimedAfter now row (positionOf row table) table ↔ Unobstructed now row table := by
  have counted := positionOf_eq now row table
  have itself : live row.sessionId now row = false → 0 < Table.rank
      (fun other => other.queuedIn row.sessionId && !decide (now < other.expiresAt))
      claimsBefore table row := by
    intro idle
    refine Table.rank_pos inside ?_ ((claimsBefore_iff row row).mpr le_rfl)
    have listed : row.queuedIn row.sessionId = true := by
      simp [UserInputQueueRow.queuedIn, queued]
    rw [live, listed, Bool.true_and] at idle
    rw [listed, idle]
    rfl
  rw [unobstructed_iff queued]
  generalize Table.rank (fun other => other.queuedIn row.sessionId && !decide (now < other.expiresAt))
    claimsBefore table row = expired at counted itself ⊢
  cases waits : live row.sessionId now row with
  | true =>
    obtain ⟨k, ranked⟩ := Nat.exists_eq_succ_of_ne_zero
      (Table.rank_pos inside waits ((claimsBefore_iff row row).mpr le_rfl)).ne'
    obtain ⟨⟨after, ran, distinct', member, stored, same, status⟩, before⟩ :=
      waits_its_rank distinct inside waits k ranked
    constructor
    · rintro ⟨-, still⟩
      by_contra some_expired
      obtain ⟨other, member', same', status'⟩ := still (k + 1) (by omega) after ran
      have one : other = member :=
        Table.eq_of_key_eq distinct'.ids member' stored (same'.trans same.symm)
      rw [one, status] at status'
      cases status'
    · rintro rfl
      have exact_rank : positionOf row table = k + 1 := by omega
      rw [exact_rank]
      refine ⟨⟨after, ran, member, stored, same, status⟩, fun n early => ?_⟩
      exact before n (by omega)
  | false =>
    constructor
    · rintro ⟨⟨after, ran, member, stored, same, status⟩, -⟩
      obtain ⟨distinct', inside'⟩ := kept_of_not_live distinct inside waits _ ran
      have one : member = row := Table.eq_of_key_eq distinct'.ids stored inside' same
      rw [one, queued] at status
      cases status
    · intro none_expired
      exact absurd (itself waits) (by omega)

/-! ## What `enqueue` answers -/

theorem queuedPosition_eq {position : Nat}
    (committed : (queuedPosition row).run.run table = (.ok position, after)) :
    position = if row.status = .queued then positionOf row table else 0 := by
  unfold queuedPosition at committed
  split at committed
  · rename_i idle
    rw [if_neg idle]
    exact (pure_ok committed).1
  · rename_i queued
    rw [if_pos (not_not.mp queued)]
    obtain ⟨seen, working, got, answered⟩ := bind_ok committed
    obtain ⟨rfl, rfl⟩ := get_ok got
    exact (pure_ok answered).1

theorem fetchById_mem {rowId : String}
    (committed : (fetchById rowId).run.run table = (.ok row, after)) :
    row ∈ table ∧ row.id = rowId := by
  obtain ⟨seen, working, got, answered⟩ := bind_ok committed
  obtain ⟨rfl, rfl⟩ := get_ok got
  split at answered
  · cases answered
  · rename_i found stored
    obtain ⟨rfl, -⟩ := pure_ok answered
    exact ⟨List.mem_of_find?_eq_some stored, by simpa using List.find?_some stored⟩

theorem activeDuplicate_mem {clientMsgId : Option String}
    (committed : (activeDuplicate clientMsgId).run.run table = (.ok (some row), after)) :
    row ∈ table ∧ row.active = true := by
  cases clientMsgId with
  | none => cases (pure_ok committed).1
  | some clientMsgId =>
    obtain ⟨seen, working, got, answered⟩ := bind_ok committed
    obtain ⟨rfl, rfl⟩ := get_ok got
    obtain ⟨found, -⟩ := pure_ok answered
    obtain ⟨inside, held⟩ := Table.mem_of_mem_selectWhere (List.mem_of_mem_head? found.symm)
    exact ⟨inside, (Bool.and_eq_true_iff.mp held).2⟩

theorem committed_of_ok {α : Type} {block : Txn α} {value : α}
    (ended : writeTransaction block table = (.ok value, after)) :
    block.run.run table = (.ok value, after) := by
  unfold writeTransaction at ended
  rcases result : block.run.run table with ⟨outcome, working⟩
  rw [result] at ended
  cases outcome with
  | ok committed =>
    cases ended
    rfl
  | error error => cases ended

/-- The row and the position `enqueue` answers with, in the table it leaves; what it adds
to the table is that row, which expires a day later. -/
structure Answered (now : Rat) (table after : QueueTable) (row : UserInputQueueRow)
    (position : Nat) : Prop where
  inside : row ∈ after
  active : row.active = true
  position : position = if row.status = .queued then positionOf row after else 0
  kept : ∀ other ∈ table, other ∈ after
  added : ∀ other ∈ after, other ∈ table ∨ other.expiresAt = now + expirySeconds

theorem enqueue_answered {submission : Submission} {rowId : String} {position : Nat}
    (enqueued : enqueue submission now rowId table = (.ok (row, position), after)) :
    Answered now table after row position := by
  unfold enqueue at enqueued
  cases known : InputSource.ofText submission.source with
  | none =>
    rw [known] at enqueued
    cases enqueued
  | some source =>
    rw [known] at enqueued
    have committed := committed_of_ok enqueued
    obtain ⟨existing, working, looked_up, rest⟩ := bind_ok committed
    obtain rfl := activeDuplicate_ok looked_up
    cases existing with
    | some held =>
      obtain ⟨inside, active⟩ := activeDuplicate_mem looked_up
      obtain ⟨rank, working', ranked, answered⟩ := bind_ok rest
      obtain ⟨same, rfl⟩ := pure_ok answered
      obtain ⟨rfl, rfl⟩ := Prod.mk.inj same
      obtain rfl := queuedPosition_ok ranked
      exact ⟨inside, active, queuedPosition_eq ranked, fun _ => id, fun _ => .inl⟩
    | none =>
      obtain ⟨-, distinct, rest⟩ := insert_ok (submission.row source rowId now .queued) rest
      obtain ⟨stored, read, fetched, rest⟩ := bind_ok rest
      obtain ⟨rank, working', ranked, answered⟩ := bind_ok rest
      obtain ⟨same, rfl⟩ := pure_ok answered
      obtain ⟨rfl, rfl⟩ := Prod.mk.inj same
      obtain ⟨inside, named⟩ := fetchById_mem fetched
      obtain rfl := fetchById_ok fetched
      obtain rfl := queuedPosition_ok ranked
      have new : row = submission.row source rowId now .queued :=
        Table.eq_of_key_eq distinct.ids inside (by simp) named
      refine ⟨inside, ?_, queuedPosition_eq ranked, fun _ => List.mem_append_left _, ?_⟩
      · rw [new]
        rfl
      · intro other member
        rcases List.mem_append.mp member with old | added
        · exact .inl old
        · rw [List.mem_singleton.mp added]
          exact .inr rfl

theorem claimedAfter_zero (distinct : (table.map (·.id)).Nodup) (inside : row ∈ table) :
    ClaimedAfter now row 0 table ↔ row.status = .claimed := by
  unfold ClaimedAfter
  simp [claimTimes, stands_iff distinct inside]

/-- After any operations, with any clock: the position `enqueue` answers with is the number
of claims on the session after which the row is claimed, and before which it is not, exactly
when the row is claimed already or no expired row is queued at or before it. -/
theorem position_iff (requests : List Request) (submission : Submission) (now : Rat)
    (rowId : String) (row : UserInputQueueRow) (position : Nat) (after : QueueTable)
    (enqueued : enqueue submission now rowId (run requests []) = (.ok (row, position), after)) :
    ClaimedAfter now row position after ↔ Unobstructed now row (run requests []) := by
  have answered := enqueue_answered enqueued
  have sound := sound_run sound_initial requests
  have distinct : Distinct after := by
    have change : Change (.enqueue submission) (run requests [])
        (enqueue submission now rowId (run requests [])).2 :=
      enqueue_change submission now rowId (run requests [])
    rw [enqueued] at change
    exact (sound_change sound change).toDistinct
  by_cases queued : row.status = .queued
  · have ranked := answered.position
    rw [if_pos queued] at ranked
    rw [ranked, claimedAfter_iff distinct answered.inside queued]
    unfold Unobstructed
    constructor
    · exact fun free still other member => free still other (answered.kept other member)
    · intro free still other member listed before
      rcases answered.added other member with old | fresh
      · exact free still other old listed before
      · rw [fresh]
        exact lt_add_of_pos_right now (by decide)
  · have claimed : row.status = .claimed := by
      have active := answered.active
      simp only [UserInputQueueRow.active, UserInputQueueStatus.active, Bool.or_eq_true,
        beq_iff_eq] at active
      exact active.resolve_left queued
    have ranked := answered.position
    rw [if_neg queued] at ranked
    rw [ranked, claimedAfter_zero distinct.ids answered.inside]
    simp [Unobstructed, claimed]

/-! ## Two submissions a day apart -/

def typed (text : String) : Submission where
  sessionId := "s"
  payload := text
  source := "user"

/-- A message that waits in the queue while its day passes. -/
def waitingMessage : List Request := [⟨.enqueue (typed "first"), 0, "a"⟩]

/-- A minute later it is claimed first, and the new message after it. -/
theorem second_claimed_second : ∃ row after,
    enqueue (typed "second") 60 "b" (run waitingMessage []) = (.ok (row, 2), after) ∧
      ClaimedAfter 60 row 2 after := by
  refine ⟨(typed "second").row .user "b" 60 .queued, _, rfl, ?_⟩
  refine (position_iff waitingMessage (typed "second") 60 "b" _ 2 _ rfl).mpr ?_
  intro _
  decide +kernel

/-- A day later it has expired: the new message is told position 2, and the first claim
takes it. -/
theorem expired_row_counted : ∃ row after,
    enqueue (typed "second") 100000 "b" (run waitingMessage []) = (.ok (row, 2), after) ∧
      ¬ClaimedAfter 100000 row 2 after := by
  refine ⟨(typed "second").row .user "b" 100000 .queued, _, rfl, ?_⟩
  rintro ⟨⟨after, claimed_twice, -⟩, -⟩
  have stuck : claimTimes "s" 100000 2
      (run waitingMessage [] ++ [(typed "second").row .user "b" 100000 .queued]) = none := by
    decide +kernel
  cases stuck.symm.trans claimed_twice

end SherryAgent.Guarantees.QueuePositions
