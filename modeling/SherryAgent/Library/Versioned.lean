import Mathlib.Order.Lattice

/-!
# Optimistic concurrency on one versioned row

A row is replaced only by rows of a larger version, and readers keep what they
read. A reader whose expected version is the row's, and not above the version it
read, has read the row itself: the row was not changed behind its back.
-/

namespace SherryAgent.Library.Versioned

variable {α ν : Type} [LinearOrder ν] (version : α → ν)

/-- `value` was the row at some earlier moment or still is. -/
def Snapshot (row : Option α) (value : α) : Prop :=
  ∃ current, row = some current ∧ version value ≤ version current ∧
    (version value = version current → value = current)

variable {version} {row : α} {value : α}

theorem Snapshot.of_read : Snapshot version (some row) row :=
  ⟨row, rfl, le_refl _, fun _ => rfl⟩

/-- A newer row keeps every snapshot. -/
theorem Snapshot.newer {before : Option α} {after : α} (snapshot : Snapshot version before value)
    (newer : ∀ row, before = some row → version row < version after) :
    Snapshot version (some after) value := by
  obtain ⟨current, eq, le, -⟩ := snapshot
  have below : version value < version after := lt_of_le_of_lt le (newer current eq)
  exact ⟨after, rfl, le_of_lt below, fun same => absurd same (ne_of_lt below)⟩

/-- The compare-and-swap argument: a matching expected version that is not above
the version read means the row read is the row replaced. -/
theorem Snapshot.current {expected : ν} (snapshot : Snapshot version (some row) value)
    (matching : version row = expected) (bound : expected ≤ version value) : value = row := by
  obtain ⟨current, eq, le, same⟩ := snapshot
  obtain rfl := Option.some.inj eq
  exact same (le_antisymm le (matching ▸ bound))

end SherryAgent.Library.Versioned
