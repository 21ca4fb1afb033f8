import LayeredStore.Proofs.Mapping
import Mathlib.Data.List.Induction

namespace LayeredStore

/-!
# Spellings of a number

A file belongs to the generation whose number its name spells, and zeros may stand before the
number. A generation is mapped under the names without such zeros. So what is discovered can
be mapped if no name has zeros to spare, and else a file that is there may not be found.

* `Generation.digits_eq` — digits are the decimal of a number, behind some zeros;
* `Generation.spelling`, `Generation.index?_eq_some_iff` — the names of a generation's file;
* `Generation.exists_spelling` — what is discovered is there, in some spelling;
* `Store.missing_of_load` — what is missing where no file is found in loading;
* `Store.load_of_spellings` — all of it.
-/

namespace Generation

/-! ### Digits -/

/-- A digit is the one of a number below ten. -/
theorem exists_digitChar {c : Char} (h : c.isDigit = true) : ∃ d < 10, c = Nat.digitChar d := by
  have hbounds : 48 ≤ c.toNat ∧ c.toNat ≤ 57 := Char.isDigit_iff_toNat.mp h
  have hless : c.toNat - 48 < 10 := by omega
  refine ⟨c.toNat - 48, hless, Char.toNat_inj.mp ?_⟩
  rw [Nat.toNat_digitChar_of_lt_ten hless]
  omega

/-- Digits are the decimal of the number that they spell, behind some zeros. -/
theorem digits_eq {digits : List Char} (hne : digits ≠ [])
    (hdigits : ∀ c ∈ digits, c.isDigit = true) :
    ∃ zeros, digits
      = List.replicate zeros '0' ++ Nat.toDigits 10 (Nat.ofDigitChars 10 digits 0) := by
  -- on the digits from behind: the number of all is ten times that of those before, and one more
  induction digits using List.reverseRecOn with
  | nil => exact absurd rfl hne
  | append_singleton front c ih =>
    obtain ⟨d, hd, rfl⟩ := exists_digitChar (hdigits c (by simp))
    have hvalue : Nat.ofDigitChars 10 (front ++ [Nat.digitChar d]) 0
        = 10 * Nat.ofDigitChars 10 front 0 + d := by
      rw [Nat.ofDigitChars_append, Nat.ofDigitChars_cons_digitChar_of_lt_ten hd,
        Nat.ofDigitChars_nil]
    rw [hvalue]
    by_cases hempty : front = []
    · subst hempty
      refine ⟨0, ?_⟩
      simp [Nat.toDigits_of_lt_base hd]
    · obtain ⟨zeros, hfront⟩ := ih hempty fun c hc => hdigits c (List.mem_append_left _ hc)
      generalize Nat.ofDigitChars 10 front 0 = n at hfront ⊢
      rcases Nat.eq_zero_or_pos n with rfl | hpos
      · -- in front there are zeros only, and the last of them is one to spare here
        refine ⟨zeros + 1, ?_⟩
        rw [hfront, Nat.toDigits_zero, Nat.mul_zero, Nat.zero_add, Nat.toDigits_of_lt_base hd,
          List.replicate_succ']
      · refine ⟨zeros, ?_⟩
        rw [← Nat.toDigits_append_toDigits (by decide) hpos hd, Nat.toDigits_of_lt_base hd,
          ← List.append_assoc, ← hfront]

/-- Zeros before digits do not change the number. -/
theorem ofDigitChars_replicate (zeros : Nat) (digits : List Char) :
    Nat.ofDigitChars 10 (List.replicate zeros '0' ++ digits) 0 = Nat.ofDigitChars 10 digits 0 := by
  induction zeros with
  | zero => rfl
  | succ zeros ih =>
    rw [List.replicate_succ, List.cons_append, Nat.ofDigitChars_cons]
    exact ih

/-! ### Names -/

variable {label name : String} {zeros n : Nat}

/-- The name of a generation's file, with zeros before its number. -/
def spelling (label : String) (zeros n : Nat) : String :=
  label ++ String.ofList (List.replicate zeros '0') ++ Nat.repr n

theorem spelling_zero (label : String) (n : Nat) : spelling label 0 n = fileName label n := by
  simp [spelling, fileName]

/-- A file belongs to a generation if its name spells the number, which is a word. -/
theorem index?_eq_some_iff :
    index? label name = some n ↔ n < Word.limit ∧ ∃ zeros, name = spelling label zeros n := by
  rw [index?_iff_spells]
  refine and_congr_right fun _ => ⟨?_, ?_⟩
  · rintro ⟨digits, rfl, hspells⟩
    obtain ⟨zeros, heq⟩ := digits_eq hspells.ne_nil hspells.isDigit
    rw [hspells.value_eq] at heq
    exact ⟨zeros, String.toList_injective (by simp [heq, spelling, Nat.toList_repr])⟩
  · rintro ⟨zeros, rfl⟩
    refine ⟨List.replicate zeros '0' ++ Nat.toDigits 10 n,
      String.toList_injective (by simp [spelling, Nat.toList_repr]),
      by simp [Nat.toDigits_ne_nil], fun c hc => ?_, ?_⟩
    · rcases List.mem_append.mp hc with hc | hc
      · rw [List.eq_of_mem_replicate hc]
        rfl
      · exact Nat.isDigit_of_mem_toDigits (by decide) (by decide) hc
    · rw [ofDigitChars_replicate, Nat.ofDigitChars_toDigits (by decide) (by decide)]

/-! ### What is discovered -/

variable {disk : Disk} {folder : Path} {numbers : List Nat}

/-- Generations are discovered only in a folder that is found. -/
theorem hasFolder_of_discover (h : discover disk folder = .ok numbers) (hn : n ∈ numbers) :
    ∃ home, disk.HasFolder folder home := by
  by_contra hnone
  have hfolder : disk.find folder ≠ .ok .folder := fun heq => hnone (Disk.find_folder_iff.mp heq)
  by_cases hmissing : disk.find folder = .error .notFound
  · rw [discover_of_missing hmissing] at h
    cases h
    cases hn
  · obtain ⟨fault, hfault⟩ := discover_of_fault hfolder hmissing
    rw [hfault] at h
    cases h

/-- What is discovered has a file of either kind, in some spelling. -/
theorem exists_spelling (h : discover disk folder = .ok numbers) (hn : n ∈ numbers)
    (hlabel : label ∈ labels) : ∃ zeros content,
      disk.find (folder.child (spelling label zeros n)) = .ok (.file content) := by
  obtain ⟨home, hfolder⟩ := hasFolder_of_discover h hn
  rw [of_discover_ok hfolder h label hlabel, mem_numbersOf] at hn
  obtain ⟨name, content, hfile, hindex⟩ := hn
  obtain ⟨-, zeros, rfl⟩ := index?_eq_some_iff.mp hindex
  exact ⟨zeros, content, Disk.find_child_file (plain_of_index? hlabel hindex) hfolder hfile⟩

/-- A folder that is missing has no generations, and anything else that cannot be listed is
    told by another fault. -/
theorem discover_ne_notFound (disk : Disk) (folder : Path) :
    discover disk folder ≠ .error (.system .notFound) := by
  have hindices : ∀ label, indices disk folder label ≠ .error (.system .notFound) := by
    intro label h
    unfold indices files at h
    cases hlisting : disk.listing folder with
    | ok listing =>
      rw [hlisting] at h
      cases h
    | error fault =>
      rw [hlisting] at h
      cases fault <;> cases h
  intro h
  rcases Answer.bind_eq_error_iff.mp h with hvalues | ⟨values, -, h⟩
  · exact hindices _ hvalues
  · rcases Answer.bind_eq_error_iff.mp h with hoffsets | ⟨offsets, -, h⟩
    · exact hindices _ hoffsets
    · dsimp only at h
      split at h
      · cases h
      · split at h <;> cases h

end Generation

/-! ### What is not found in loading -/

namespace Store

open Generation

variable {disk : Disk} {folder : Path} {order : KeyOrder} {numbers : List Nat} {n : Nat}

/-- Of generations that are not all mapped there is one that is not. -/
theorem of_openTables_error {fault : Fault}
    (h : openTables disk folder order numbers = .error fault) :
    ∃ n ∈ numbers, openTable disk folder order n = .error fault := by
  induction numbers with
  | nil => cases h
  | cons n numbers ih =>
    rcases Answer.bind_eq_error_iff.mp h with htable | ⟨table, -, h⟩
    · exact ⟨n, List.mem_cons_self, htable⟩
    · rcases Answer.bind_eq_error_iff.mp h with hrest | ⟨_, -, h⟩
      · obtain ⟨later, hlater, herror⟩ := ih hrest
        exact ⟨later, List.mem_cons_of_mem _ hlater, herror⟩
      · cases h

/-- A generation is not found where there is nothing under one of its two names. -/
theorem missing_of_openTable (h : openTable disk folder order n = .error (.system .notFound)) :
    ∃ label ∈ labels, disk.find (folder.child (fileName label n)) = .error .notFound := by
  have hmissing : ∀ label, (disk.mapFile (folder.child (fileName label n))).mapError Fault.system
      = .error (.system .notFound) →
        disk.find (folder.child (fileName label n)) = .error .notFound := by
    intro label hmap
    unfold Disk.mapFile at hmap
    cases hfind : disk.find (folder.child (fileName label n)) with
    | error fault =>
      rw [hfind] at hmap
      cases hmap
      rfl
    | ok node =>
      rw [hfind] at hmap
      cases node <;> cases hmap
  rcases Answer.bind_eq_error_iff.mp h with hvalues | ⟨values, -, h⟩
  · exact ⟨_, values_mem_labels, hmissing _ hvalues⟩
  · rcases Answer.bind_eq_error_iff.mp h with hoffsets | ⟨offsets, -, h⟩
    · exact ⟨_, offsets_mem_labels, hmissing _ hoffsets⟩
    · rw [Table.ofRegions] at h
      split at h <;> cases h

/-- In loading nothing is missing but a file of a generation that was discovered. -/
theorem missing_of_load (h : load disk folder order = .error (.system .notFound)) :
    ∃ numbers, discover disk folder = .ok numbers ∧ ∃ n ∈ numbers, ∃ label ∈ labels,
      disk.find (folder.child (fileName label n)) = .error .notFound := by
  have htables : loadTables disk folder order = .error (.system .notFound) := by
    rw [load] at h
    split at h
    · rcases Answer.bind_eq_error_iff.mp h with htables | ⟨_, -, h⟩
      · exact htables
      · cases h
    · cases h
  rcases Answer.bind_eq_error_iff.mp htables with hdiscover | ⟨numbers, hdiscover, hopen⟩
  · exact absurd hdiscover (discover_ne_notFound disk folder)
  · obtain ⟨n, hn, htable⟩ := of_openTables_error hopen
    exact ⟨numbers, hdiscover, n, List.mem_reverse.mp hn, missing_of_openTable htable⟩

/-- **What is discovered is there in its own spelling.** A generation that is discovered has a
    file of either kind, whose name may have zeros before the number. Unless it has only such
    files of a kind, its file is the one that is opened. So in loading no file is missing
    but that of a generation which only has names with zeros to spare, and where there are
    no such names, none is. -/
theorem load_of_spellings (disk : Disk) (folder : Path) :
    (∀ numbers, discover disk folder = .ok numbers → ∀ n ∈ numbers, ∀ label ∈ labels,
        (∃ zeros content,
          disk.find (folder.child (spelling label zeros n)) = .ok (.file content))
        ∧ ((∀ zeros content,
            disk.find (folder.child (spelling label (zeros + 1) n)) ≠ .ok (.file content)) →
          ∃ content, disk.find (folder.child (fileName label n)) = .ok (.file content)))
      ∧ ∀ order, load disk folder order = .error (.system .notFound) →
        ∃ numbers, discover disk folder = .ok numbers ∧ ∃ n ∈ numbers, ∃ label ∈ labels,
          disk.find (folder.child (fileName label n)) = .error .notFound
          ∧ ∃ zeros content,
            disk.find (folder.child (spelling label (zeros + 1) n)) = .ok (.file content) := by
  constructor
  · intro numbers h n hn label hlabel
    obtain ⟨zeros, content, hfile⟩ := exists_spelling h hn hlabel
    refine ⟨⟨zeros, content, hfile⟩, fun hspare => ?_⟩
    cases zeros with
    | zero => exact ⟨content, spelling_zero label n ▸ hfile⟩
    | succ zeros => exact absurd hfile (hspare zeros content)
  · intro order h
    obtain ⟨numbers, hnumbers, n, hn, label, hlabel, hmissing⟩ := missing_of_load h
    obtain ⟨zeros, content, hfile⟩ := exists_spelling hnumbers hn hlabel
    refine ⟨numbers, hnumbers, n, hn, label, hlabel, hmissing, ?_⟩
    cases zeros with
    | zero =>
      rw [spelling_zero, hmissing] at hfile
      cases hfile
    | succ zeros => exact ⟨zeros, content, hfile⟩

/-- Two files with zeros before the number are discovered as a generation, and when that is
    opened its files are missing, though the folder is there. -/
theorem load_of_spellings_padded :
    let disk := (Disk.empty.put ["values007"] (.file [])).put ["offsets007"] (.file [])
    let folder : Path := .ofText [] "/"
    discover disk folder = .ok [7]
      ∧ disk.find (folder.child (spelling valuesLabel 2 7)) = .ok (.file [])
      ∧ disk.find (folder.child (spelling offsetsLabel 2 7)) = .ok (.file [])
      ∧ disk.find (folder.child (fileName valuesLabel 7)) = .error .notFound
      ∧ disk.find (folder.child (fileName offsetsLabel 7)) = .error .notFound
      ∧ load disk folder .lexicographic = .error (.system .notFound) := by
  intro disk folder
  refine ⟨by decide +kernel, by decide +kernel, by decide +kernel, by decide +kernel,
    by decide +kernel, ?_⟩
  have hfault : (match load disk folder .lexicographic with
      | .ok _ => none
      | .error fault => some fault) = some (.system .notFound) := by decide +kernel
  cases hload : load disk folder .lexicographic with
  | ok store => rw [hload] at hfault; cases hfault
  | error fault => rw [hload] at hfault; cases hfault; rfl

end Store

end LayeredStore
