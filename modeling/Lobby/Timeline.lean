/-
# Values in time

A value that changes at certain moments, with the values it had before and the times during
which it had them.  Two values that follow each other both hold at the moment of the change.
-/
import Mathlib

namespace Timelines

/-- A value of the past. -/
structure Era (α : Type*) where
  since : ℕ
  upTo : ℕ
  value : α

/-- A value, the moment it holds since, and the past. -/
structure Timeline (α : Type*) where
  current : α
  clock : ℕ
  past : List (Era α)

namespace Timeline

variable {α : Type*}

def start (clock : ℕ) (a : α) : Timeline α := ⟨a, clock, []⟩

/-- The value changes at the moment `now`. -/
def next (l : Timeline α) (now : ℕ) (a : α) : Timeline α :=
  ⟨a, now, ⟨l.clock, now, l.current⟩ :: l.past⟩

/-- The value was this one at the moment. -/
def HeldAt (l : Timeline α) (moment : ℕ) (a : α) : Prop :=
  (l.clock ≤ moment ∧ a = l.current)
    ∨ ∃ era ∈ l.past, era.since ≤ moment ∧ moment ≤ era.upTo ∧ era.value = a

/-- Something held of the value at some moment not longer before `now` than `ttl`. -/
def HeldWithin (l : Timeline α) (ttl now : ℕ) (P : α → Prop) : Prop :=
  ∃ moment a, now ≤ moment + ttl ∧ moment ≤ now ∧ l.HeldAt moment a ∧ P a

variable {l : Timeline α} {moment now ttl : ℕ} {a b : α} {P : α → Prop}

theorem heldAt_current (h : l.clock ≤ moment) : l.HeldAt moment l.current :=
  Or.inl ⟨h, rfl⟩

/-- What held up to now belongs to the past after a change. -/
theorem HeldAt.next (h : l.HeldAt moment a) (hle : moment ≤ now) (b : α) :
    (l.next now b).HeldAt moment a := by
  right
  rcases h with ⟨hsince, rfl⟩ | ⟨era, hera, hheld⟩
  · exact ⟨⟨l.clock, now, l.current⟩, List.mem_cons_self, hsince, hle, rfl⟩
  · exact ⟨era, List.mem_cons_of_mem _ hera, hheld⟩

/-- After the past is over, the value is the present one. -/
theorem HeldAt.eq (h : l.HeldAt moment a) (hpast : ∀ era ∈ l.past, era.upTo < moment) :
    a = l.current := by
  rcases h with ⟨-, ha⟩ | ⟨era, hera, -, hupTo, -⟩
  · exact ha
  · exact absurd hupTo (not_le.mpr (hpast era hera))

theorem HeldAt.within (h : l.HeldAt moment a) (hfrom : now ≤ moment + ttl) (hto : moment ≤ now)
    (ha : P a) : l.HeldWithin ttl now P :=
  ⟨moment, a, hfrom, hto, h, ha⟩

theorem heldWithin_current (h : l.clock ≤ now) (ha : P l.current) : l.HeldWithin ttl now P :=
  (heldAt_current h).within (Nat.le_add_right now ttl) le_rfl ha

end Timeline

end Timelines
