import LayeredStore.Proofs.Answers
import LayeredStore.Record

namespace LayeredStore

/-!
# The grammar of records

Which bytes are a record, and what is wrong with bytes that are none, said without
reading them. A record has up to four fields: the length of the key, the key, the
length of the value and the value.

* `Region.StandsAt` — a byte string stands at an offset of a region;
* `Region.overrun` — the report of a field that does not fit in the region;
* `Region.BadKey`, `Region.BadTail` — the first field that is wrong lies in one half of
  the record, and is reported so;
* `Region.readKey_ok_iff`, `Region.readKey_error_iff` — what reading a key answers;
* `Region.readTail_ok_iff`, `Region.readTail_error_iff` — what reading the rest answers;
* `Region.readEntry_exact` — reading accepts exactly the records, and reports the first
  field that is wrong of everything else.
-/

namespace Entry

variable {e : Entry} {value : Bytes}

/-- What follows the key in an entry's record. -/
def tail (e : Entry) : Bytes :=
  match e.value with
  | none => Word.encode (Word.ofInt tombstoneLength)
  | some value => Word.encode (Word.ofInt value.length) ++ value

theorem encode_eq (e : Entry) : e.encode = Word.encode e.key.length ++ e.key ++ e.tail := by
  obtain ⟨key, value⟩ := e
  cases value <;> simp [encode, fields, tail]

/-- A value is no longer than the record that it is in. -/
theorem length_value_le (h : value ∈ e.value) : value.length ≤ e.recordSize := by
  obtain ⟨key, found⟩ := e
  cases h
  show value.length ≤ recordHeaderSize + (key.length + value.length)
  omega

end Entry

namespace Region

variable {region : Region} {offset length : Nat} {bytes left right before middle after key : Bytes}
  {e : Entry} {fault : Fault}

/-! ### Bytes at an offset -/

/-- The byte string stands in the region from `offset` on. -/
def StandsAt (region : Region) (offset : Nat) (bytes : Bytes) : Prop :=
  bytes <+: region.drop offset

instance : Decidable (region.StandsAt offset bytes) :=
  inferInstanceAs (Decidable (bytes <+: region.drop offset))

/-- What is written between two strings stands where the first ends. -/
theorem standsAt_middle (hregion : region = before ++ middle ++ after)
    (hoffset : offset = before.length) : region.StandsAt offset middle := by
  subst hregion hoffset
  rw [StandsAt, List.append_assoc, List.drop_left]
  exact List.prefix_append middle after

/-- Of two strings in a row the second stands where the first ends. -/
theorem standsAt_append :
    region.StandsAt offset (left ++ right) ↔
      region.StandsAt offset left ∧ region.StandsAt (offset + left.length) right := by
  unfold StandsAt
  rw [← List.drop_drop]
  generalize region.drop offset = rest
  constructor
  · rintro ⟨after, rfl⟩
    refine ⟨⟨right ++ after, by simp⟩, after, ?_⟩
    rw [List.append_assoc, List.drop_left]
  · rintro ⟨⟨after, rfl⟩, hright⟩
    rw [List.drop_left] at hright
    exact (List.prefix_append_right_inj left).mpr hright

/-- A string that stands inside a region ends inside it. -/
theorem StandsAt.le_length (h : region.StandsAt offset bytes) (hstart : offset ≤ region.length) :
    offset + bytes.length ≤ region.length := by
  have hlength := h.length_le
  rw [List.length_drop] at hlength
  omega

/-- A word is not empty, so it stands and ends inside. -/
theorem StandsAt.word_le_length {n : Nat} (h : region.StandsAt offset (Word.encode n)) :
    offset + 8 ≤ region.length := by
  have hlength := h.length_le
  rw [List.length_drop, Word.length_encode] at hlength
  omega

/-! ### Fields that do not fit -/

/-- The report of a field of `length` bytes at `offset` that does not fit in the region. -/
def overrun (region : Region) (offset length : Nat) : Fault :=
  .corrupt offset (if Word.limit ≤ offset + length then .unaddressable
    else .pastEnd length region.length)

/-- A stretch is read exactly where it fits in the region, as what stands there. -/
theorem slice_ok_iff (hregion : region.length < Word.limit) :
    region.slice offset length = .ok bytes ↔
      offset + length ≤ region.length ∧ region.StandsAt offset bytes ∧ bytes.length = length := by
  rw [slice_eq_ok_iff]
  constructor
  · rintro ⟨-, hfits, rfl⟩
    refine ⟨hfits, List.take_prefix length _, ?_⟩
    rw [Bytes.length_slice]
    omega
  · rintro ⟨hfits, hstands, rfl⟩
    exact ⟨by omega, hfits, (List.prefix_iff_eq_take.mp hstands).symm⟩

/-- A stretch is reported exactly where it does not fit. -/
theorem slice_error_iff (hregion : region.length < Word.limit) :
    region.slice offset length = .error fault ↔
      region.length < offset + length ∧ fault = region.overrun offset length := by
  unfold slice overrun
  by_cases hlimit : Word.limit ≤ offset + length
  · have hshort : region.length < offset + length := by omega
    rw [if_pos hlimit, if_pos hlimit, Except.error.injEq, eq_comm]
    exact ⟨fun h => ⟨hshort, h⟩, And.right⟩
  · rw [if_neg hlimit, if_neg hlimit]
    by_cases hshort : region.length < offset + length
    · rw [if_pos hshort, Except.error.injEq, eq_comm]
      exact ⟨fun h => ⟨hshort, h⟩, And.right⟩
    · rw [if_neg hshort]
      exact ⟨fun h => (nomatch h), fun h => absurd h.1 hshort⟩

/-! ### Words -/

theorem readWord_ok_iff (hregion : region.length < Word.limit) {n : Nat} :
    region.readWord offset = .ok n ↔
      n < Word.limit ∧ region.StandsAt offset (Word.encode n) := by
  rw [readWord, Answer.map_eq_ok_iff]
  constructor
  · rintro ⟨bytes, hslice, rfl⟩
    obtain ⟨-, hstands, hlength⟩ := (slice_ok_iff hregion).mp hslice
    rw [Word.encode_value hlength]
    have hvalue := Word.value_lt bytes
    rw [hlength, Word.span_size] at hvalue
    exact ⟨hvalue, hstands⟩
  · rintro ⟨hn, hstands⟩
    have hslice : region.slice offset Word.size = .ok (Word.encode n) :=
      (slice_ok_iff hregion).mpr ⟨hstands.word_le_length, hstands, Word.length_encode n⟩
    exact ⟨Word.encode n, hslice, Word.value_encode hn⟩

theorem readWord_error_iff (hregion : region.length < Word.limit) :
    region.readWord offset = .error fault ↔
      region.length < offset + 8 ∧ fault = region.overrun offset 8 := by
  rw [readWord, Answer.map_eq_error_iff]
  exact slice_error_iff hregion

theorem readSigned_ok_iff (hregion : region.length < Word.limit) {n : Int} :
    region.readSigned offset = .ok n ↔
      Word.IsSigned n ∧ region.StandsAt offset (Word.encode (Word.ofInt n)) := by
  rw [readSigned, Answer.map_eq_ok_iff]
  constructor
  · rintro ⟨word, hword, rfl⟩
    obtain ⟨hlimit, hstands⟩ := (readWord_ok_iff hregion).mp hword
    rw [Word.ofInt_toInt hlimit]
    exact ⟨Word.isSigned_toInt hlimit, hstands⟩
  · rintro ⟨hn, hstands⟩
    exact ⟨Word.ofInt n, (readWord_ok_iff hregion).mpr ⟨Word.ofInt_lt n, hstands⟩,
      Word.toInt_ofInt hn⟩

theorem readSigned_error_iff (hregion : region.length < Word.limit) :
    region.readSigned offset = .error fault ↔
      region.length < offset + 8 ∧ fault = region.overrun offset 8 := by
  rw [readSigned, Answer.map_eq_error_iff]
  exact readWord_error_iff hregion

/-! ### Keys -/

/-- In a region no sum that reading a key takes leaves the range of a word. -/
theorem readKey_eq (hregion : region.length < Word.limit) :
    region.readKey offset
      = region.readWord offset >>= fun length => region.slice (offset + 8) length := by
  rw [readKey]
  cases hword : region.readWord offset with
  | error fault => rfl
  | ok length =>
    have hfits := ((readWord_ok_iff hregion).mp hword).2.word_le_length
    have hadd : Word.add offset Word.size = .ok (offset + 8) :=
      Word.add_of_lt (by rw [Word.size]; omega)
    show (Word.add offset Word.size >>= fun start => region.slice start length) = _
    rw [hadd]
    rfl

/-- The first field that is wrong is the length of the key or the key, and the report
    says so: what stands before that field, and that the field does not fit. -/
inductive BadKey (region : Region) (offset : Nat) : Fault → Prop
  | keyLength (hshort : region.length < offset + 8) : BadKey region offset (region.overrun offset 8)
  | key {length : Nat} (hlimit : length < Word.limit)
      (hbefore : region.StandsAt offset (Word.encode length))
      (hshort : region.length < offset + 8 + length) :
      BadKey region offset (region.overrun (offset + 8) length)

/-- A key is read exactly where it stands behind its length. -/
theorem readKey_ok_iff (hregion : region.length < Word.limit) :
    region.readKey offset = .ok key ↔
      region.StandsAt offset (Word.encode key.length ++ key) := by
  rw [readKey_eq hregion, Answer.bind_eq_ok_iff, standsAt_append, Word.length_encode]
  constructor
  · rintro ⟨length, hword, hslice⟩
    obtain ⟨-, hkey, rfl⟩ := (slice_ok_iff hregion).mp hslice
    exact ⟨((readWord_ok_iff hregion).mp hword).2, hkey⟩
  · rintro ⟨hlength, hkey⟩
    have hfits : offset + 8 + key.length ≤ region.length := hkey.le_length hlength.word_le_length
    exact ⟨key.length, (readWord_ok_iff hregion).mpr ⟨by omega, hlength⟩,
      (slice_ok_iff hregion).mpr ⟨hfits, hkey, rfl⟩⟩

/-- A key is not read exactly where one of its two fields is wrong. -/
theorem readKey_error_iff (hregion : region.length < Word.limit) :
    region.readKey offset = .error fault ↔ region.BadKey offset fault := by
  rw [readKey_eq hregion, Answer.bind_eq_error_iff]
  constructor
  · rintro (hword | ⟨length, hword, hslice⟩)
    · obtain ⟨hshort, rfl⟩ := (readWord_error_iff hregion).mp hword
      exact .keyLength hshort
    · obtain ⟨hlimit, hbefore⟩ := (readWord_ok_iff hregion).mp hword
      obtain ⟨hshort, rfl⟩ := (slice_error_iff hregion).mp hslice
      exact .key hlimit hbefore hshort
  · rintro (⟨hshort⟩ | ⟨hlimit, hbefore, hshort⟩)
    · exact .inl ((readWord_error_iff hregion).mpr ⟨hshort, rfl⟩)
    · exact .inr ⟨_, (readWord_ok_iff hregion).mpr ⟨hlimit, hbefore⟩,
        (slice_error_iff hregion).mpr ⟨hshort, rfl⟩⟩

/-- A key that was read ends inside the region. -/
theorem end_of_readKey (hregion : region.length < Word.limit)
    (hkey : region.readKey offset = .ok key) : offset + 8 + key.length ≤ region.length := by
  obtain ⟨hlength, hstands⟩ := standsAt_append.mp ((readKey_ok_iff hregion).mp hkey)
  rw [Word.length_encode] at hstands
  exact hstands.le_length hlength.word_le_length

/-! ### Behind the key -/

/-- The entry of a record whose key was read and whose value's length stands at `start`. -/
def readTail (region : Region) (key : Bytes) (start : Nat) : Except Fault Entry :=
  region.readSigned start >>= fun length =>
    if length = tombstoneLength then .ok (.tombstone key)
    else if length < 0 then .error (.corrupt start (.negativeLength length))
    else (region.slice (start + 8) length.toNat).map (.live key)

/-- The first field that is wrong behind the key is the length of the value or the value, and
    the report says so: what stands before that field, and that the field does not fit, or
    that the length is negative and not the mark of a tombstone. -/
inductive BadTail (region : Region) (start : Nat) : Fault → Prop
  | valueLength (hshort : region.length < start + 8) : BadTail region start (region.overrun start 8)
  | negative {length : Int} (hsigned : Word.IsSigned length) (hneg : length < 0)
      (hmark : length ≠ tombstoneLength)
      (hlength : region.StandsAt start (Word.encode (Word.ofInt length))) :
      BadTail region start (.corrupt start (.negativeLength length))
  | value {length : Nat} (hsigned : length < Word.signedLimit)
      (hbefore : region.StandsAt start (Word.encode (Word.ofInt length)))
      (hshort : region.length < start + 8 + length) :
      BadTail region start (region.overrun (start + 8) length)

theorem standsAt_tail_live {value : Bytes} :
    region.StandsAt offset (Entry.live key value).tail ↔
      region.StandsAt offset (Word.encode (Word.ofInt value.length))
        ∧ region.StandsAt (offset + 8) value := by
  show region.StandsAt offset (Word.encode (Word.ofInt value.length) ++ value) ↔ _
  rw [standsAt_append, Word.length_encode]

/-- Behind a key an entry is read exactly where the rest of its record stands. -/
theorem readTail_ok_iff (hregion : region.length < Word.limit) :
    region.readTail key offset = .ok e ↔ e.key = key ∧ region.StandsAt offset e.tail
      ∧ ∀ value ∈ e.value, value.length < Word.signedLimit := by
  rw [readTail, Answer.bind_eq_ok_iff]
  constructor
  · rintro ⟨length, hlength, hvalue⟩
    obtain ⟨hsigned, hstands⟩ := (readSigned_ok_iff hregion).mp hlength
    split at hvalue
    next hmark =>
      cases hvalue
      rw [hmark] at hstands
      exact ⟨rfl, hstands, by simp [Entry.tombstone]⟩
    next hmark =>
      split at hvalue
      next hneg => cases hvalue
      next hneg =>
        obtain ⟨value, hslice, rfl⟩ := Answer.map_eq_ok_iff.mp hvalue
        obtain ⟨-, hvalueStands, hvalueLength⟩ := (slice_ok_iff hregion).mp hslice
        have hsame : length = value.length := by omega
        rw [hsame] at hsigned hstands
        refine ⟨rfl, standsAt_tail_live.mpr ⟨hstands, hvalueStands⟩, ?_⟩
        simpa [Entry.live] using Word.isSigned_natCast.mp hsigned
  · rintro ⟨rfl, hstands, hsigned⟩
    obtain ⟨key, value⟩ := e
    cases value with
    | none =>
      have hmark : region.readSigned offset = .ok tombstoneLength :=
        (readSigned_ok_iff hregion).mpr ⟨⟨by decide, by decide⟩, hstands⟩
      exact ⟨tombstoneLength, hmark, if_pos rfl⟩
    | some value =>
      obtain ⟨hlengthStands, hvalueStands⟩ := standsAt_tail_live.mp hstands
      have hlength : region.readSigned offset = .ok (value.length : Int) :=
        (readSigned_ok_iff hregion).mpr
          ⟨Word.isSigned_natCast.mpr (hsigned value rfl), hlengthStands⟩
      have hvalue : region.slice (offset + 8) value.length = .ok value :=
        (slice_ok_iff hregion).mpr
          ⟨hvalueStands.le_length hlengthStands.word_le_length, hvalueStands, rfl⟩
      refine ⟨value.length, hlength, ?_⟩
      rw [if_neg (by rw [tombstoneLength]; omega), if_neg (by omega), Int.toNat_natCast, hvalue]
      rfl

/-- Behind a key no entry is read exactly where one of the two fields is wrong. -/
theorem readTail_error_iff (hregion : region.length < Word.limit) :
    region.readTail key offset = .error fault ↔ region.BadTail offset fault := by
  rw [readTail, Answer.bind_eq_error_iff]
  constructor
  · rintro (hlength | ⟨length, hlength, hvalue⟩)
    · obtain ⟨hshort, rfl⟩ := (readSigned_error_iff hregion).mp hlength
      exact .valueLength hshort
    · obtain ⟨hsigned, hstands⟩ := (readSigned_ok_iff hregion).mp hlength
      split at hvalue
      next hmark => cases hvalue
      next hmark =>
        split at hvalue
        next hneg =>
          cases hvalue
          exact .negative hsigned hneg hmark hstands
        next hneg =>
          obtain ⟨n, rfl⟩ := Int.eq_ofNat_of_zero_le (Int.not_lt.mp hneg)
          rw [Answer.map_eq_error_iff, Int.toNat_natCast, slice_error_iff hregion] at hvalue
          obtain ⟨hshort, rfl⟩ := hvalue
          exact .value (Word.isSigned_natCast.mp hsigned) hstands hshort
  · rintro (⟨hshort⟩ | ⟨hsigned, hneg, hmark, hstands⟩ | ⟨hsigned, hstands, hshort⟩)
    · exact .inl ((readSigned_error_iff hregion).mpr ⟨hshort, rfl⟩)
    · refine .inr ⟨_, (readSigned_ok_iff hregion).mpr ⟨hsigned, hstands⟩, ?_⟩
      rw [if_neg hmark, if_pos hneg]
    · refine .inr ⟨_, (readSigned_ok_iff hregion).mpr
        ⟨Word.isSigned_natCast.mpr hsigned, hstands⟩, ?_⟩
      rw [if_neg (by rw [tombstoneLength]; omega), if_neg (by omega), Answer.map_eq_error_iff]
      exact (slice_error_iff hregion).mpr ⟨hshort, rfl⟩

/-! ### Records -/

/-- In a region no sum that reading a record takes leaves the range of a word. -/
theorem readEntry_eq (hregion : region.length < Word.limit) :
    region.readEntry offset
      = region.readKey offset >>= fun key => region.readTail key (offset + 8 + key.length) := by
  rw [readEntry]
  cases hkey : region.readKey offset with
  | error fault => rfl
  | ok key =>
    have hend := end_of_readKey hregion hkey
    have hsize : Word.add offset Word.size = .ok (offset + 8) :=
      Word.add_of_lt (by rw [Word.size]; omega)
    have hlengthAt : Word.add (offset + 8) key.length = .ok (offset + 8 + key.length) :=
      Word.add_of_lt (by omega)
    simp only [readTail, bind, Except.bind, hsize, hlengthAt]
    cases hlength : region.readSigned (offset + 8 + key.length) with
    | error fault => rfl
    | ok length =>
      have hfits := ((readSigned_ok_iff hregion).mp hlength).2.word_le_length
      have hvalueAt : Word.add (offset + 8 + key.length) Word.size
          = .ok (offset + 8 + key.length + 8) :=
        Word.add_of_lt (by rw [Word.size]; omega)
      simp only [hvalueAt]
      rfl

/-- The record of an entry stands where its key does and, where that ends, the rest. -/
theorem standsAt_encode :
    region.StandsAt offset e.encode ↔
      region.StandsAt offset (Word.encode e.key.length ++ e.key)
        ∧ region.StandsAt (offset + 8 + e.key.length) e.tail := by
  rw [Entry.encode_eq, standsAt_append, List.length_append, Word.length_encode, Nat.add_assoc]

/-- Where the record of an entry stands its key is read. -/
theorem readKey_of_standsAt (hregion : region.length < Word.limit)
    (h : region.StandsAt offset e.encode) : region.readKey offset = .ok e.key :=
  (readKey_ok_iff hregion).mpr (standsAt_encode.mp h).1

/-- An entry is read exactly where its record stands, with a value that is no longer than
    a signed word can say. -/
theorem readEntry_ok_iff (hregion : region.length < Word.limit) :
    region.readEntry offset = .ok e ↔
      region.StandsAt offset e.encode ∧ ∀ value ∈ e.value, value.length < Word.signedLimit := by
  rw [readEntry_eq hregion, Answer.bind_eq_ok_iff, standsAt_encode]
  constructor
  · rintro ⟨key, hkey, htail⟩
    obtain ⟨rfl, hstands, hsigned⟩ := (readTail_ok_iff hregion).mp htail
    exact ⟨⟨(readKey_ok_iff hregion).mp hkey, hstands⟩, hsigned⟩
  · rintro ⟨⟨hkey, hstands⟩, hsigned⟩
    exact ⟨e.key, (readKey_ok_iff hregion).mpr hkey,
      (readTail_ok_iff hregion).mpr ⟨rfl, hstands, hsigned⟩⟩

/-- The first field that is wrong is one behind the key, which stands. -/
def BadValue (region : Region) (offset : Nat) (fault : Fault) : Prop :=
  ∃ key : Bytes, region.StandsAt offset (Word.encode key.length ++ key)
    ∧ region.BadTail (offset + 8 + key.length) fault

/-- An entry is not read exactly where a field of its record is wrong. -/
theorem readEntry_error_iff (hregion : region.length < Word.limit) :
    region.readEntry offset = .error fault ↔
      region.BadKey offset fault ∨ region.BadValue offset fault := by
  rw [readEntry_eq hregion, Answer.bind_eq_error_iff, readKey_error_iff hregion]
  refine or_congr_right (exists_congr fun key => ?_)
  rw [readKey_ok_iff hregion, readTail_error_iff hregion]

theorem BadKey.exists_corrupt (h : region.BadKey offset fault) :
    ∃ place cause, fault = .corrupt place cause := by
  cases h <;> exact ⟨_, _, rfl⟩

theorem BadTail.exists_corrupt (h : region.BadTail offset fault) :
    ∃ place cause, fault = .corrupt place cause := by
  cases h <;> exact ⟨_, _, rfl⟩

/-- **Reading accepts exactly the records.** In every region and at every offset, an entry
    is read exactly where its record stands; everything else is reported as corrupt, with
    the place of the first field that does not fit or is the length of nothing. The key
    alone is read as the record's key, and reported exactly where one of its own fields is
    wrong, by the same report. -/
theorem readEntry_exact (region : Region) (offset : Nat) (hregion : region.length < Word.limit) :
    (∀ e, region.readEntry offset = .ok e ↔
        region.StandsAt offset e.encode ∧ ∀ value ∈ e.value, value.length < Word.signedLimit)
      ∧ (∀ fault, region.readEntry offset = .error fault ↔
          region.BadKey offset fault ∨ region.BadValue offset fault)
      ∧ (∀ fault, region.readEntry offset = .error fault →
          ∃ place cause, fault = .corrupt place cause)
      ∧ (∀ e, region.readEntry offset = .ok e → region.readKey offset = .ok e.key)
      ∧ ∀ fault, region.readKey offset = .error fault ↔ region.BadKey offset fault := by
  refine ⟨fun e => readEntry_ok_iff hregion, fun fault => readEntry_error_iff hregion, ?_, ?_,
    fun fault => readKey_error_iff hregion⟩
  · intro fault h
    rcases (readEntry_error_iff hregion).mp h with hkey | ⟨_, _, htail⟩
    · exact hkey.exists_corrupt
    · exact htail.exists_corrupt
  · intro e h
    exact readKey_of_standsAt hregion ((readEntry_ok_iff hregion).mp h).1

/-- A region with a byte that belongs to nothing, a record, and a key that the length `-2`
    follows: the record is read, the length is reported, and behind it a key is missed. -/
theorem readEntry_exact_middle :
    let region : Region := 7 :: (Entry.live [1, 2] [3]).encode
      ++ (Word.encode 1 ++ [9] ++ Word.encode (Word.ofInt (-2)))
    region.length < Word.limit
      ∧ region.readEntry 1 = .ok (.live [1, 2] [3])
      ∧ region.readEntry 20 = .error (.corrupt 29 (.negativeLength (-2)))
      ∧ region.readEntry 30 = .error (.corrupt 30 (.pastEnd 8 37))
      ∧ region.readKey 30 = .error (.corrupt 30 (.pastEnd 8 37)) := by
  intro region
  have hregion : region.length < Word.limit := by decide
  have hkeyStands : region.StandsAt 20 (Word.encode ([9] : Bytes).length ++ [9]) := by
    decide +kernel
  have hlength : region.StandsAt 29 (Word.encode (Word.ofInt (-2))) := by decide +kernel
  have hnegative : region.BadValue 20 (.corrupt 29 (.negativeLength (-2))) :=
    ⟨[9], hkeyStands, .negative ⟨by decide, by decide⟩ (by decide) (by decide) hlength⟩
  have hshort : region.BadKey 30 (.corrupt 30 (.pastEnd 8 37)) := .keyLength (by decide)
  obtain ⟨hread, -, -, -, -⟩ := readEntry_exact region 1 hregion
  obtain ⟨-, hreported, -, -, -⟩ := readEntry_exact region 20 hregion
  obtain ⟨-, hmissed, -, -, hkey⟩ := readEntry_exact region 30 hregion
  exact ⟨hregion, (hread _).mpr ⟨by decide +kernel, by decide +kernel⟩,
    (hreported _).mpr (.inr hnegative), (hmissed _).mpr (.inl hshort), (hkey _).mpr hshort⟩

end Region

end LayeredStore
