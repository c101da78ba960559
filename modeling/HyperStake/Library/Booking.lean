import Mathlib.Data.Set.BooleanAlgebra
import Mathlib.Order.CompletePartialOrder
import Mathlib.Order.Interval.Set.Basic

/-!
# Bookings

A booking takes an interval of slots for an interval of time.  Two bookings conflict when their
slots and their times both meet, which is decided by comparing ends; a plan is a family of bookings
without conflicts.  The main fact is `Plan.disjoint_uses`: at any time, the slots in use by two
bookings of a plan are disjoint.

The ends of an interval need not be in order.  The comparison of ends then says nothing about common
points any more, but it still has no false negatives.
-/

namespace Booking

/-- A closed interval given by its two ends, which need not be in order. -/
structure Interval (α : Type*) where
  lo : α
  hi : α

namespace Interval

variable {α : Type*}

/-- The points between the ends. -/
def points [Preorder α] (I : Interval α) : Set α := Set.Icc I.lo I.hi

/-- No interval lies wholly beside the other, by a comparison of their ends. -/
def Meets [LE α] (I J : Interval α) : Prop := I.lo ≤ J.hi ∧ J.lo ≤ I.hi

instance [LE α] [DecidableLE α] (I J : Interval α) : Decidable (I.Meets J) :=
  inferInstanceAs (Decidable (_ ∧ _))

lemma Meets.symm [LE α] {I J : Interval α} (h : I.Meets J) : J.Meets I := And.symm h

/-- Intervals with a common point meet. -/
lemma meets_of_mem [Preorder α] {I J : Interval α} {x : α} (hI : x ∈ I.points)
    (hJ : x ∈ J.points) : I.Meets J :=
  ⟨hI.1.trans hJ.2, hJ.1.trans hI.2⟩

end Interval

end Booking

/-- Slots that are taken for a period of time. -/
structure Booking (α τ : Type*) where
  slots : Booking.Interval α
  period : Booking.Interval τ

namespace Booking

variable {ι α τ : Type*}

/-- The slots and the periods of the two bookings both meet. -/
def Conflicts [LE α] [LE τ] (a b : Booking α τ) : Prop :=
  a.slots.Meets b.slots ∧ a.period.Meets b.period

instance [LE α] [LE τ] [DecidableLE α] [DecidableLE τ] (a b : Booking α τ) :
    Decidable (a.Conflicts b) :=
  inferInstanceAs (Decidable (_ ∧ _))

variable {a b : Booking α τ}

lemma Conflicts.symm [LE α] [LE τ] (h : a.Conflicts b) : b.Conflicts a :=
  ⟨h.1.symm, h.2.symm⟩

/-- The slots that a booking uses at a time. -/
def uses [Preorder α] [Preorder τ] (b : Booking α τ) (t : τ) : Set α :=
  {x | x ∈ b.slots.points ∧ t ∈ b.period.points}

/-- Bookings without a conflict never use a slot at the same time. -/
lemma disjoint_uses [Preorder α] [Preorder τ] (h : ¬ a.Conflicts b) (t : τ) :
    Disjoint (a.uses t) (b.uses t) := by
  rw [Set.disjoint_left]
  rintro x ⟨hxa, hta⟩ ⟨hxb, htb⟩
  exact h ⟨Interval.meets_of_mem hxa hxb, Interval.meets_of_mem hta htb⟩

/-- A partial family of bookings of which no two conflict. -/
structure Plan (ι α τ : Type*) [LE α] [LE τ] where
  entry : ι → Option (Booking α τ)
  compatible : ∀ {i j a b}, i ≠ j → entry i = some a → entry j = some b → ¬ a.Conflicts b

namespace Plan

/-- At any time, two bookings of a plan use disjoint sets of slots. -/
lemma disjoint_uses [Preorder α] [Preorder τ] (p : Plan ι α τ) {i j : ι}
    (hij : i ≠ j) (hi : p.entry i = some a) (hj : p.entry j = some b) (t : τ) :
    Disjoint (a.uses t) (b.uses t) :=
  Booking.disjoint_uses (p.compatible hij hi hj) t

end Plan

end Booking
