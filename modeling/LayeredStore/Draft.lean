import LayeredStore.Action
import LayeredStore.Record

namespace LayeredStore

/-!
# Drafts

A draft is a file that is being written. It has its full length from the start,
its capacity, and a write that would pass the end is refused. When it is done it
is cut to the bytes that were written.

* `Draft.write` — bytes put at an offset, giving the offset behind them;
* `Draft.writeAll` — several fields one behind the other;
* `Draft.writeEntry`, `Draft.writeSlot` — a record, and a slot of an offsets file;
* `Draft.finish` — the draft at its final length;
* `Draft.write_ok_iff`, `Draft.write_error_iff` — where bytes can be put, and what they leave.
-/

/-- The content of a file that is being written; its length is the capacity. -/
abbrev Draft := Bytes

namespace Draft

/-- A draft of the given capacity, all zeros. The file system takes lengths as signed
    numbers and refuses what is beyond them. -/
def create (capacity : Nat) : Except Fault Draft :=
  if capacity < Word.signedLimit then .ok (Bytes.zeros capacity)
  else .error (.system .invalidInput)

/-- Puts `bytes` at `offset` and answers with the offset behind them. Where they
    do not fit nothing is written. -/
def write (offset : Nat) (bytes : Bytes) : Action Draft Nat := fun draft =>
  match Word.add offset bytes.length with
  | .error fault => .error fault draft
  | .ok stop =>
    if draft.length < stop then .error (.exhausted stop draft.length) draft
    else .ok stop (Bytes.overwrite draft offset bytes)

/-- Puts `fields` one behind the other from `offset` on, up to the first that does
    not fit. -/
def writeAll (offset : Nat) : List Bytes → Action Draft Nat
  | [] => pure offset
  | field :: fields => do writeAll (← write offset field) fields

/-- Puts the record of an entry at `offset`. -/
def writeEntry (offset : Nat) (e : Entry) : Action Draft Nat :=
  writeAll offset e.fields

/-- Puts the word `value` at `offset`. -/
def writeWord (offset value : Nat) : Action Draft Nat :=
  write offset (Word.encode value)

/-- Puts the signed number `value` at `offset`. -/
def writeSigned (offset : Nat) (value : Int) : Action Draft Nat :=
  writeWord offset (Word.ofInt value)

/-- Puts the slot of a record that begins at `recordAt` into an offsets file, at
    `offset`. -/
def writeSlot (offset recordAt : Nat) : Action Draft Nat :=
  writeWord offset recordAt

/-- The draft at its final length: cut, or filled up with zeros. -/
def finish (written : Nat) : Action Draft Unit := fun draft =>
  if written = draft.length then .ok () draft
  else if written < Word.signedLimit then .ok () (draft.resize written)
  else .error (.system .invalidInput) draft

/-! ### What a write leaves -/

variable {offset stop : Nat} {bytes : Bytes} {draft after : Draft} {fault : Fault}

theorem write_eq (offset : Nat) (bytes : Bytes) (draft : Draft) :
    write offset bytes draft
      = if Word.limit ≤ offset + bytes.length then .error (.overflow .sum) draft
        else if draft.length < offset + bytes.length then
          .error (.exhausted (offset + bytes.length) draft.length) draft
        else .ok (offset + bytes.length) (Bytes.overwrite draft offset bytes) := by
  rw [write, Word.add]
  by_cases hlimit : offset + bytes.length < Word.limit
  · rw [if_pos hlimit, if_neg (by omega)]
  · rw [if_neg hlimit, if_pos (by omega)]

/-- Bytes are put exactly where they end inside the draft. -/
theorem write_ok_iff : write offset bytes draft = .ok stop after ↔
    offset + bytes.length < Word.limit ∧ offset + bytes.length ≤ draft.length
      ∧ stop = offset + bytes.length ∧ after = Bytes.overwrite draft offset bytes := by
  rw [write_eq]
  split
  · simp; omega
  · split
    · simp; omega
    · simp only [EStateM.Result.ok.injEq]
      constructor
      · rintro ⟨rfl, rfl⟩
        exact ⟨by omega, by omega, rfl, rfl⟩
      · rintro ⟨-, -, rfl, rfl⟩
        exact ⟨rfl, rfl⟩

/-- Bytes that would end behind the draft are refused, and it stays as it is. -/
theorem write_error_iff : write offset bytes draft = .error fault after ↔
    after = draft ∧ ((Word.limit ≤ offset + bytes.length ∧ fault = .overflow .sum)
      ∨ (offset + bytes.length < Word.limit ∧ draft.length < offset + bytes.length
        ∧ fault = .exhausted (offset + bytes.length) draft.length)) := by
  rw [write_eq]
  split
  · simp only [EStateM.Result.error.injEq]
    constructor
    · rintro ⟨rfl, rfl⟩
      exact ⟨rfl, .inl ⟨by assumption, rfl⟩⟩
    · rintro ⟨rfl, ⟨-, rfl⟩ | ⟨hlt, -, -⟩⟩
      · exact ⟨rfl, rfl⟩
      · omega
  · split
    · simp only [EStateM.Result.error.injEq]
      constructor
      · rintro ⟨rfl, rfl⟩
        exact ⟨rfl, .inr ⟨by omega, by assumption, rfl⟩⟩
      · rintro ⟨rfl, ⟨hge, -⟩ | ⟨-, -, rfl⟩⟩
        · omega
        · exact ⟨rfl, rfl⟩
    · simp; omega

end Draft

end LayeredStore
