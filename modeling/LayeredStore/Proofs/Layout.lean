import LayeredStore.Proofs.Grammar
import LayeredStore.Table.Cursor

namespace LayeredStore

/-!
# The layout of a generation

What the two files of a generation hold when a sequence of entries was written, and
that reading the files gives the entries back.

* `Generation.records`, `Generation.slots` — the contents of the two files;
* `Table.Holds` — a table whose regions are those of a sequence of entries;
* `Table.Holds.entryAt`, `Table.Holds.keyAt` — record by record, such a table gives
  back the entries and their keys.
-/

/-! ### The two files -/

namespace Generation

/-- The content of the values file: the records one behind the other. -/
def records (entries : List Entry) : Bytes :=
  entries.flatMap Entry.encode

/-- The slots of entries whose first record begins at `start`. -/
def slotsFrom (start : Nat) : List Entry → Bytes
  | [] => []
  | e :: entries => Word.encode start ++ slotsFrom (start + e.recordSize) entries

/-- The content of the offsets file: where each record begins. -/
def slots (entries : List Entry) : Bytes :=
  slotsFrom 0 entries

@[simp] theorem records_nil : records [] = [] := rfl

@[simp] theorem records_cons (e : Entry) (entries : List Entry) :
    records (e :: entries) = e.encode ++ records entries := rfl

@[simp] theorem records_append (left right : List Entry) :
    records (left ++ right) = records left ++ records right :=
  List.flatMap_append

/-- Every record takes sixteen bytes at least. -/
theorem length_le_records (entries : List Entry) :
    16 * entries.length ≤ (records entries).length := by
  induction entries with
  | nil => simp
  | cons e entries ih =>
    rw [records_cons, List.length_append, List.length_cons, Entry.length_encode,
      Entry.recordSize, recordHeaderSize, Word.size]
    omega

@[simp] theorem length_slotsFrom (start : Nat) (entries : List Entry) :
    (slotsFrom start entries).length = 8 * entries.length := by
  induction entries generalizing start with
  | nil => rfl
  | cons e entries ih =>
    rw [slotsFrom, List.length_append, Word.length_encode, ih, List.length_cons]
    omega

@[simp] theorem length_slots (entries : List Entry) : (slots entries).length = 8 * entries.length :=
  length_slotsFrom 0 entries

/-- The slots of a sequence are those of its beginning and then, from where the
    beginning's records end, those of the rest. -/
theorem slotsFrom_append (start : Nat) (left right : List Entry) :
    slotsFrom start (left ++ right)
      = slotsFrom start left ++ slotsFrom (start + (records left).length) right := by
  induction left generalizing start with
  | nil => rfl
  | cons e left ih =>
    rw [List.cons_append, slotsFrom, slotsFrom, ih, records_cons, List.length_append,
      Entry.length_encode, List.append_assoc, Nat.add_assoc]

end Generation

/-! ### Tables that hold a sequence of entries -/

/-- The table's regions are what is written for a sequence of entries, and short
    enough for a file. -/
structure Table.Holds (table : Table) (entries : List Entry) : Prop where
  values : table.values = Generation.records entries
  offsets : table.offsets = Generation.slots entries
  fits : (Generation.records entries).length < Word.signedLimit

namespace Table.Holds

variable {table : Table} {entries before after : List Entry} {e : Entry}

/-- The table has one record for each entry. -/
theorem count_eq (h : table.Holds entries) : table.count = entries.length := by
  rw [count, Region.slotCount, h.offsets, Generation.length_slots, slotSize, Word.size]
  omega

/-- A slot tells where its record begins. -/
theorem recordAt_eq (h : table.Holds (before ++ e :: after)) :
    table.recordAt before.length = .ok (Generation.records before).length := by
  have hfits := h.fits
  have hcount := Generation.length_le_records (before ++ e :: after)
  rw [Generation.records_append, List.length_append] at hfits hcount
  rw [List.length_append, List.length_cons] at hcount
  have hlimit : Word.signedLimit < Word.limit := by decide
  have hmul : Word.mul before.length slotSize = .ok (before.length * slotSize) :=
    Word.mul_of_lt (by rw [slotSize, Word.size]; omega)
  -- the slot stands behind those of the entries before, and says where their records end
  have hslots : table.offsets
      = Generation.slotsFrom 0 before ++ Word.encode (Generation.records before).length
          ++ Generation.slotsFrom ((Generation.records before).length + e.recordSize) after := by
    rw [h.offsets, Generation.slots, Generation.slotsFrom_append, Nat.zero_add,
      Generation.slotsFrom, List.append_assoc]
  rw [recordAt, Region.readSlot, hmul]
  show table.offsets.readWord (before.length * slotSize) = _
  have hlength : table.offsets.length < Word.limit := by
    rw [h.offsets, Generation.length_slots, List.length_append, List.length_cons]
    omega
  refine (Region.readWord_ok_iff hlength).mpr ⟨by omega, Region.standsAt_middle hslots ?_⟩
  rw [Generation.length_slotsFrom, slotSize, Word.size, Nat.mul_comm]

/-- Where the record of an entry stands among the records. -/
theorem values_eq (h : table.Holds (before ++ e :: after)) :
    table.values = Generation.records before ++ e.encode ++ Generation.records after := by
  rw [h.values, Generation.records_append, Generation.records_cons, List.append_assoc]

/-- The values of a table are short enough to be read. -/
theorem values_lt (h : table.Holds entries) : table.values.length < Word.limit := by
  rw [h.values]
  exact Word.lt_limit h.fits

/-- A record gives back the key of its entry. -/
theorem keyAt_eq (h : table.Holds (before ++ e :: after)) :
    table.keyAt before.length = .ok e.key := by
  rw [keyAt, h.recordAt_eq]
  exact Region.readKey_of_standsAt h.values_lt (Region.standsAt_middle h.values_eq rfl)

/-- A record gives back its entry. -/
theorem entryAt_eq (h : table.Holds (before ++ e :: after)) :
    table.entryAt before.length = .ok e := by
  have hfits := h.fits
  rw [← h.values, h.values_eq, List.length_append, List.length_append, Entry.length_encode] at hfits
  rw [entryAt, h.recordAt_eq]
  refine (Region.readEntry_ok_iff h.values_lt).mpr
    ⟨Region.standsAt_middle h.values_eq rfl, fun value hvalue => ?_⟩
  have hle := Entry.length_value_le hvalue
  omega

/-- A record gives back the entry at its index. -/
theorem entryAt_getElem (h : table.Holds entries) {i : Nat} (hi : i < entries.length) :
    table.entryAt i = .ok entries[i] := by
  have hsplit : entries.take i ++ entries[i] :: entries.drop (i + 1) = entries := by
    rw [← List.drop_eq_getElem_cons hi, List.take_append_drop]
  have hentry := (show table.Holds (_ ++ entries[i] :: _) from hsplit.symm ▸ h).entryAt_eq
  rwa [List.length_take_of_le (by omega)] at hentry

end Table.Holds

end LayeredStore
