import Etle.Foundations.Bytes
import Etle.Foundations.Outcome

/-!
# Byte streams that may end or break

A reader is the bytes that will still arrive and what a read past them reports; a writer is the
bytes it has taken and how many more it takes before it breaks.  Cutting one transfer into pieces
changes neither its outcome nor the state it leaves.
-/

namespace Etle

variable {κ ε : Type}

/-- The receiving end of a byte stream. -/
structure Reader (κ : Type) where
  /-- The bytes still to arrive. -/
  bytes : Bytes
  /-- What a read beyond them reports. -/
  ending : κ

/-- The sending end of a byte stream. -/
structure Writer (κ : Type) where
  /-- The bytes taken so far. -/
  written : Bytes
  /-- How many more bytes are taken and what is reported afterwards; `none` means all. -/
  room : Option (Nat × κ)

/-- Read exactly so many bytes; a shorter stream is used up. -/
def readExact (embed : κ → ε) (width : Nat) : EStateM ε (Reader κ) Bytes := fun reader =>
  match takeExact width reader.bytes with
  | some (front, rest) => .ok front { reader with bytes := rest }
  | none => .error (embed reader.ending) { reader with bytes := [] }

/-- Write all the bytes; a writer that breaks has taken those it had room for. -/
def writeAll (embed : κ → ε) (bytes : Bytes) : EStateM ε (Writer κ) Unit := fun writer =>
  match writer.room with
  | none => .ok () { writer with written := writer.written ++ bytes }
  | some (room, broken) =>
      if bytes.length ≤ room then
        .ok () { written := writer.written ++ bytes, room := some (room - bytes.length, broken) }
      else
        .error (embed broken)
          { written := writer.written ++ bytes.take room, room := some (0, broken) }

theorem run_readExact_append (embed : κ → ε) {front : Bytes} {width : Nat}
    (width_eq : front.length = width) (rest : Bytes) (ending : κ) :
    (readExact embed width).run ⟨front ++ rest, ending⟩ = .ok front ⟨rest, ending⟩ := by
  simp [readExact, EStateM.run, takeExact_append width_eq]

theorem run_readExact_eq_ok {embed : κ → ε} {width : Nat} {before after : Reader κ}
    {front : Bytes} :
    (readExact embed width).run before = .ok front after ↔
      front.length = width ∧ before.bytes = front ++ after.bytes ∧
        after.ending = before.ending := by
  constructor
  · intro run
    simp only [readExact, EStateM.run] at run
    split at run
    · rename_i found rest taken
      obtain ⟨rfl, rfl⟩ := by simpa using run
      obtain ⟨width_eq, bytes_eq⟩ := takeExact_eq_some.mp taken
      exact ⟨width_eq, bytes_eq, rfl⟩
    · cases run
  · rintro ⟨width_eq, bytes_eq, ending_eq⟩
    obtain ⟨bytes, ending⟩ := before
    obtain ⟨rest, otherEnding⟩ := after
    obtain rfl : otherEnding = ending := ending_eq
    obtain rfl : bytes = front ++ rest := bytes_eq
    exact run_readExact_append embed width_eq rest otherEnding

theorem run_readExact_short (embed : κ → ε) {width : Nat} {reader : Reader κ}
    (short : reader.bytes.length < width) :
    (readExact embed width).run reader =
      .error (embed reader.ending) { reader with bytes := [] } := by
  simp [readExact, EStateM.run, takeExact, Nat.not_le.mpr short]

@[simp]
theorem readExact_zero (embed : κ → ε) : readExact embed 0 = pure [] := by
  funext reader
  simp [readExact, takeExact, pure, EStateM.pure]

/-- Reading in two pieces is reading at once. -/
theorem readExact_add (embed : κ → ε) (first second : Nat) :
    readExact embed (first + second) = (do
      let front ← readExact embed first
      let back ← readExact embed second
      return front ++ back) := by
  funext reader
  obtain ⟨bytes, ending⟩ := reader
  change (readExact embed (first + second)).run ⟨bytes, ending⟩ = EStateM.run _ ⟨bytes, ending⟩
  by_cases enough : first + second ≤ bytes.length
  · have cut : bytes = bytes.take first ++ ((bytes.drop first).take second ++
        (bytes.drop first).drop second) := by
      rw [List.take_append_drop, List.take_append_drop]
    have front_width : (bytes.take first).length = first :=
      List.length_take_of_le (by omega)
    have back_width : ((bytes.drop first).take second).length = second := by
      apply List.length_take_of_le
      rw [List.length_drop]
      omega
    rw [cut, EStateM.run_bind, run_readExact_append embed front_width]
    simp only [EStateM.run_bind, run_readExact_append embed back_width]
    rw [← List.append_assoc, run_readExact_append embed (by rw [List.length_append]; omega)]
    rfl
  · have whole : (readExact embed (first + second)).run ⟨bytes, ending⟩ =
        .error (embed ending) ⟨[], ending⟩ := by
      simp [readExact, EStateM.run, takeExact, enough]
    rw [whole, EStateM.run_bind]
    by_cases some_enough : first ≤ bytes.length
    · have rest_short : ¬second ≤ bytes.length - first := by omega
      simp [readExact, EStateM.run, takeExact, some_enough, rest_short, bind, EStateM.bind]
    · simp [readExact, EStateM.run, takeExact, some_enough]

@[simp]
theorem writeAll_nil (embed : κ → ε) : writeAll embed [] = pure () := by
  funext writer
  obtain ⟨written, room⟩ := writer
  cases room <;> simp [writeAll, pure, EStateM.pure]

/-- Writing in two pieces is writing at once. -/
theorem writeAll_append (embed : κ → ε) (front back : Bytes) :
    writeAll embed (front ++ back) = (do
      writeAll embed front
      writeAll embed back) := by
  funext writer
  obtain ⟨written, room⟩ := writer
  cases room with
  | none => simp [writeAll, bind, EStateM.bind]
  | some limit =>
      obtain ⟨room, broken⟩ := limit
      by_cases front_fits : front.length ≤ room
      · by_cases back_fits : back.length ≤ room - front.length
        · have both_fit : front.length + back.length ≤ room := by omega
          simp [writeAll, bind, EStateM.bind, front_fits, back_fits, both_fit, Nat.sub_add_eq]
        · have too_much : ¬front.length + back.length ≤ room := by omega
          simp [writeAll, bind, EStateM.bind, front_fits, back_fits, too_much,
            List.take_append, List.take_of_length_le front_fits]
      · have too_much : ¬front.length + back.length ≤ room := by omega
        have none_left : room - front.length = 0 := by omega
        simp [writeAll, bind, EStateM.bind, front_fits, too_much, List.take_append, none_left]

theorem written_of_writeAll {embed : κ → ε} {bytes : Bytes} {before after : Writer κ}
    (run : (writeAll embed bytes).run before = .ok () after) :
    after.written = before.written ++ bytes := by
  obtain ⟨written, room⟩ := before
  simp only [writeAll, EStateM.run] at run
  split at run
  · obtain rfl := by simpa using run
    rfl
  · split at run
    · obtain rfl := by simpa using run
      rfl
    · cases run

theorem error_of_writeAll {embed : κ → ε} {bytes : Bytes} {before after : Writer κ} {failure : ε}
    (run : (writeAll embed bytes).run before = .error failure after) :
    ∃ broken, failure = embed broken := by
  obtain ⟨written, room⟩ := before
  simp only [writeAll, EStateM.run] at run
  split at run
  · cases run
  · split at run
    · cases run
    · obtain ⟨rfl, -⟩ := by simpa using run
      exact ⟨_, rfl⟩

end Etle
