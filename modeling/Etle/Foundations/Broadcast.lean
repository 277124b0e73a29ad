import Mathlib.Data.List.Basic

/-!
# Broadcast channels

Everybody who listens on a channel receives what is sent from then on.  The channel keeps a bounded
number of messages; a receiver that is further behind is told how many it has missed.
-/

namespace Etle

/-- What a receiver gets. -/
inductive Received (Message : Type*) where
  | message (value : Message)
  | lagged (skipped : Nat)

/-- The next thing a receiver gets at a position in what was sent, and its position afterwards.
Without one it waits. -/
def recv {Message : Type*} (capacity : Nat) (sent : List Message) (position : Nat) :
    Option (Received Message × Nat) :=
  if position + capacity < sent.length then
    some (.lagged (sent.length - capacity - position), sent.length - capacity)
  else
    sent[position]?.map fun value => (.message value, position + 1)

variable {Message : Type*} {capacity position after : Nat} {sent : List Message}

theorem recv_eq_message {value : Message} :
    recv capacity sent position = some (.message value, after) ↔
      sent.length ≤ position + capacity ∧ sent[position]? = some value ∧ after = position + 1 := by
  unfold recv
  split
  next behind => simp [Nat.not_le.mpr behind]
  next near =>
      rw [and_iff_right (Nat.not_lt.mp near)]
      cases sent[position]? with
      | none => simp
      | some kept => simp [eq_comm]

/-- A receiver is told exactly how many messages are skipped, and goes on with the oldest one that
is kept. -/
theorem recv_eq_lagged {skipped : Nat} :
    recv capacity sent position = some (.lagged skipped, after) ↔
      0 < skipped ∧ position + skipped = after ∧ after + capacity = sent.length := by
  unfold recv
  split
  next behind =>
      simp only [Option.some.injEq, Prod.mk.injEq, Received.lagged.injEq]
      omega
  next near =>
      constructor
      · intro given
        simp at given
      · omega

/-- What a receiver has been told since it has started to listen: the messages in their order, and
for each gap how many messages are missing. -/
inductive Follows (sent : List Message) (start : Nat) : List (Received Message) → Nat → Prop where
  | started : Follows sent start [] start
  | message {told : List (Received Message)} {position : Nat} {value : Message}
      (earlier : Follows sent start told position) (next : sent[position]? = some value) :
      Follows sent start (told ++ [.message value]) (position + 1)
  | lagged {told : List (Received Message)} {position skipped : Nat}
      (earlier : Follows sent start told position) (missing : 0 < skipped)
      (within : position + skipped ≤ sent.length) :
      Follows sent start (told ++ [.lagged skipped]) (position + skipped)

namespace Follows

variable {start : Nat} {told : List (Received Message)}

/-- A receiver is told one thing after another. -/
theorem recv {received : Received Message} (follows : Follows sent start told position)
    (got : recv capacity sent position = some (received, after)) :
    Follows sent start (told ++ [received]) after := by
  cases received with
  | message value =>
      obtain ⟨-, next, rfl⟩ := recv_eq_message.mp got
      exact follows.message next
  | lagged skipped =>
      obtain ⟨missing, rfl, kept⟩ := recv_eq_lagged.mp got
      exact follows.lagged missing (by omega)

/-- What has been told does not depend on what is sent later. -/
theorem sent_append (follows : Follows sent start told position) (more : List Message) :
    Follows (sent ++ more) start told position := by
  induction follows with
  | started => exact .started
  | message earlier next ih =>
      refine ih.message ?_
      rw [List.getElem?_append_left (List.getElem?_eq_some_iff.mp next).1, next]
  | lagged earlier missing within ih =>
      refine ih.lagged missing ?_
      rw [List.length_append]
      omega

/-- Without a gap the messages are told as they were sent. -/
theorem eq_map_message (follows : Follows sent start told position)
    (whole : ∀ skipped, .lagged skipped ∉ told) :
    position = start + told.length ∧ told = ((sent.drop start).take told.length).map .message := by
  induction follows with
  | started => simp
  | @message told position value earlier next ih =>
      obtain ⟨rfl, same⟩ := ih fun skipped member => whole skipped (by simp [member])
      refine ⟨by simp [Nat.add_assoc], ?_⟩
      have next : (sent.drop start)[told.length]? = some value := by
        rw [List.getElem?_drop, next]
      rw [List.length_append, List.length_singleton, List.take_add_one, next, Option.toList_some,
        List.map_append, ← same, List.map_singleton]
  | @lagged told position skipped earlier missing within ih =>
      exact absurd List.mem_concat_self (whole skipped)

end Follows

end Etle
