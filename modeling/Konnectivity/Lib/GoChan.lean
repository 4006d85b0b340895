/-!
# Go channels

A channel with room for `cap` values. `send` and `recv` return `none` where
the goroutine blocks. A send on a closed channel and a second `close` panic,
and a receive from a closed channel answers `none` once the buffer is empty,
which is what ends a `range` loop.

A channel without room is a rendezvous of two goroutines and is modelled
where it is used: the sender posts an offer and the receiver takes it.
-/

namespace Konnectivity.Lib

inductive ChanPanic where
  | closeOfClosedChannel
  | sendOnClosedChannel
  deriving DecidableEq, Repr

structure GoChan (α : Type) where
  cap : Nat
  buf : List α := []
  closed : Bool := false
  deriving DecidableEq, Repr

namespace GoChan

variable {α : Type}

/-- `ch <- v`. -/
def send (ch : GoChan α) (v : α) : Option (Except ChanPanic (GoChan α)) :=
  if ch.closed then some (.error .sendOnClosedChannel)
  else if ch.buf.length < ch.cap then some (.ok { ch with buf := ch.buf ++ [v] })
  else none

/-- `v, ok := <-ch`. -/
def recv (ch : GoChan α) : Option (Option α × GoChan α) :=
  match ch.buf with
  | v :: buf => some (some v, { ch with buf := buf })
  | [] => if ch.closed then some (none, ch) else none

/-- `close(ch)`. -/
def close (ch : GoChan α) : Except ChanPanic (GoChan α) :=
  if ch.closed then .error .closeOfClosedChannel else .ok { ch with closed := true }

theorem send_closed {ch ch' : GoChan α} {v : α}
    (h : ch.send v = some (.ok ch')) : ch'.closed = ch.closed := by
  unfold send at h
  repeat' split at h
  all_goals cases h
  rfl

theorem recv_closed {ch ch' : GoChan α} {v : Option α}
    (h : ch.recv = some (v, ch')) : ch'.closed = ch.closed := by
  unfold recv at h
  repeat' split at h
  all_goals cases h
  all_goals rfl

theorem send_buf {ch ch' : GoChan α} {v : α} (h : ch.send v = some (.ok ch')) :
    ch'.buf = ch.buf ++ [v] := by
  unfold send at h
  repeat' split at h
  all_goals cases h
  rfl

/-- A receive takes the first value, or finds the channel closed and empty. -/
theorem recv_cases {ch ch' : GoChan α} {x : Option α} (h : ch.recv = some (x, ch')) :
    (∃ v buf, ch.buf = v :: buf ∧ x = some v ∧ ch' = { ch with buf := buf }) ∨
      (ch.buf = [] ∧ ch.closed = true ∧ x = none ∧ ch' = ch) := by
  unfold recv at h
  split at h
  · next v buf hbuf =>
      cases h
      exact Or.inl ⟨v, buf, hbuf, rfl, rfl⟩
  · next hbuf =>
      split at h
      · next hclosed =>
          cases h
          exact Or.inr ⟨hbuf, hclosed, rfl, rfl⟩
      · cases h

theorem recv_buf {ch ch' : GoChan α} {v : α} (h : ch.recv = some (some v, ch')) :
    ch.buf = v :: ch'.buf := by
  rcases recv_cases h with ⟨w, buf, hbuf, hv, rfl⟩ | ⟨-, -, hnone, -⟩
  · cases hv
    exact hbuf
  · cases hnone

theorem recv_of_cons {ch : GoChan α} {v : α} {buf : List α} (h : ch.buf = v :: buf) :
    ch.recv = some (some v, { ch with buf := buf }) := by
  unfold recv
  rw [h]

end GoChan

end Konnectivity.Lib
