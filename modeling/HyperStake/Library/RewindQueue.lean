import Mathlib.Tactic.Common

/-!
# A queue that can be rewound

A queue of tokens of which the ones already taken are kept for a while, so that reading can go back
over them.  `kept` are the tokens that were taken and are still there, `unread` those that were not
taken yet.

`ofBuffer buf pos` is the queue that a buffer with a read position stands for.  One lemma for each
way of changing the buffer or the position says what it does to the queue, so that an
implementation with a cursor is compared with the queue without any arithmetic on positions.
-/

/-- A queue together with the tokens taken from it that are still there. -/
structure RewindQueue (α : Type*) where
  /-- The tokens taken and still there, the last one last. -/
  kept : List α
  /-- The tokens not taken yet, the next one first. -/
  unread : List α

namespace RewindQueue

variable {α : Type*}

/-- The queue without any token. -/
def empty : RewindQueue α := ⟨[], []⟩

/-- Put tokens at the end. -/
def put (xs : List α) (q : RewindQueue α) : RewindQueue α := ⟨q.kept, q.unread ++ xs⟩

/-- Take `n` tokens and keep them. -/
def shift (n : ℕ) (q : RewindQueue α) : RewindQueue α :=
  ⟨q.kept ++ q.unread.take n, q.unread.drop n⟩

/-- Take `n` tokens; a queue that has been read to its end keeps nothing. -/
def advance (n : ℕ) (q : RewindQueue α) : RewindQueue α :=
  if n < q.unread.length then q.shift n else empty

/-- Put tokens in front of the unread token with index `k`. -/
def insertAt (k : ℕ) (xs : List α) (q : RewindQueue α) : RewindQueue α :=
  ⟨q.kept, q.unread.take k ++ xs ++ q.unread.drop k⟩

/-- Put tokens in front, in the place of as many kept ones. -/
def insertInRoom (xs : List α) (q : RewindQueue α) : RewindQueue α :=
  ⟨q.kept.take (q.kept.length - xs.length), xs ++ q.unread⟩

/-- Take the unread tokens with index from `k` up to `l` out. -/
def eraseRange (k l : ℕ) (q : RewindQueue α) : RewindQueue α :=
  ⟨q.kept, q.unread.take k ++ q.unread.drop l⟩

/-- Put the last `n` kept tokens back in front. -/
def rewind (n : ℕ) (q : RewindQueue α) : RewindQueue α :=
  ⟨q.kept.take (q.kept.length - n), q.kept.drop (q.kept.length - n) ++ q.unread⟩

/-- Keep nothing. -/
def forget (q : RewindQueue α) : RewindQueue α := ⟨[], q.unread⟩

/-- What is unread after `n` tokens were taken. -/
@[simp] lemma advance_unread (n : ℕ) (q : RewindQueue α) :
    (q.advance n).unread = q.unread.drop n := by
  rw [advance]
  split
  · rfl
  · next h => exact (List.drop_of_length_le (Nat.le_of_not_lt h)).symm

/-! ## A buffer with a read position -/

/-- The queue that a buffer stands for when everything before `pos` has been taken. -/
def ofBuffer (buf : List α) (pos : ℕ) : RewindQueue α := ⟨buf.take pos, buf.drop pos⟩

variable {buf : List α} {pos : ℕ}

@[simp] lemma ofBuffer_nil : ofBuffer ([] : List α) pos = empty := by
  simp [ofBuffer, empty]

@[simp] lemma ofBuffer_kept : (ofBuffer buf pos).kept = buf.take pos := rfl

@[simp] lemma ofBuffer_unread : (ofBuffer buf pos).unread = buf.drop pos := rfl

/-- Appending to the buffer puts tokens at the end. -/
lemma ofBuffer_append (h : pos ≤ buf.length) (xs : List α) :
    ofBuffer (buf ++ xs) pos = (ofBuffer buf pos).put xs := by
  simp only [ofBuffer, put, List.take_append_of_le_length h, List.drop_append_of_le_length h]

/-- Moving the position forward takes tokens. -/
lemma ofBuffer_add (n : ℕ) : ofBuffer buf (pos + n) = (ofBuffer buf pos).shift n := by
  simp only [ofBuffer, shift, List.take_add, List.drop_drop]

/-- Changing the buffer behind the position changes unread tokens. -/
lemma ofBuffer_take_append {k : ℕ} (h : pos + k ≤ buf.length) (xs : List α) :
    ofBuffer (buf.take (pos + k) ++ xs) pos = ⟨buf.take pos, (buf.drop pos).take k ++ xs⟩ := by
  have hlen : pos ≤ (buf.take (pos + k)).length := by
    rw [List.length_take_of_le h]
    exact Nat.le_add_right pos k
  have htake : (buf.take (pos + k)).take pos = buf.take pos := by
    rw [List.take_take, Nat.min_eq_left (Nat.le_add_right pos k)]
  have hdrop : (buf.take (pos + k)).drop pos = (buf.drop pos).take k := by
    rw [List.drop_take, Nat.add_sub_cancel_left]
  simp only [ofBuffer, List.take_append_of_le_length hlen, List.drop_append_of_le_length hlen, htake,
    hdrop]

/-- Inserting behind the position puts tokens in front of an unread one. -/
lemma ofBuffer_insert {k : ℕ} (h : pos + k ≤ buf.length) (xs : List α) :
    ofBuffer (buf.take (pos + k) ++ xs ++ buf.drop (pos + k)) pos
      = (ofBuffer buf pos).insertAt k xs := by
  rw [List.append_assoc, ofBuffer_take_append h, ← List.append_assoc, ← List.drop_drop]
  rfl

/-- Overwriting what lies before the position puts tokens in front, in the place of kept ones. -/
lemma ofBuffer_overwrite {xs : List α} (h : pos ≤ buf.length) :
    ofBuffer (buf.take (pos - xs.length) ++ xs ++ buf.drop pos) (pos - xs.length)
      = (ofBuffer buf pos).insertInRoom xs := by
  have hlen : (buf.take (pos - xs.length)).length = pos - xs.length :=
    List.length_take_of_le (Nat.le_trans (Nat.sub_le pos xs.length) h)
  have hkept : (buf.take pos).take (pos - xs.length) = buf.take (pos - xs.length) := by
    rw [List.take_take, Nat.min_eq_left (Nat.sub_le pos xs.length)]
  simp only [ofBuffer, insertInRoom, List.append_assoc, List.take_left' hlen,
    List.drop_left' hlen, List.length_take_of_le h, hkept]

/-- Erasing a part of the buffer behind the position takes unread tokens out. -/
lemma ofBuffer_erase {k l : ℕ} (h : pos + k ≤ buf.length) :
    ofBuffer (buf.take (pos + k) ++ buf.drop (pos + l)) pos
      = (ofBuffer buf pos).eraseRange k l := by
  rw [ofBuffer_take_append h, ← List.drop_drop]
  rfl

/-- Moving the position back puts kept tokens back. -/
lemma ofBuffer_sub {n : ℕ} (h : pos ≤ buf.length) :
    ofBuffer buf (pos - n) = (ofBuffer buf pos).rewind n := by
  have hkept : (buf.take pos).take (pos - n) = buf.take (pos - n) := by
    rw [List.take_take, Nat.min_eq_left (Nat.sub_le pos n)]
  have hsplit : buf.drop (pos - n) = (buf.take pos).drop (pos - n) ++ buf.drop pos := by
    have hlen : pos - n ≤ (buf.take pos).length := by
      rw [List.length_take_of_le h]
      exact Nat.sub_le pos n
    rw [← List.drop_append_of_le_length hlen, List.take_append_drop]
  simp only [ofBuffer, rewind, List.length_take_of_le h, hkept, ← hsplit]

/-- Cutting off what lies before the position keeps nothing. -/
lemma ofBuffer_drop : ofBuffer (buf.drop pos) 0 = (ofBuffer buf pos).forget := by
  simp only [ofBuffer, forget, List.take_zero, List.drop_zero]

end RewindQueue
