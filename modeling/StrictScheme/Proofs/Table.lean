/-
# Laws of tables

What putting an entry under a name does to the entries that are found and to those
that are held, and what is left of a table when a function is applied to each of its
entries.  Names and their order never depend on the entries.  The part of a table
under some of the names changes with these names only.
-/

import StrictScheme.Table

namespace StrictScheme
namespace Table

variable {α β : Type} {table : Table α} {name : String}

/-- The table with a function applied to each entry. -/
def map (f : α → β) (table : Table α) : Table β :=
  ⟨table.entries.map fun entry => (entry.1, f entry.2)⟩

/-- The entries under some of the names. -/
def only (keep : String → Bool) (table : Table α) : Table α :=
  ⟨table.entries.filter (keep ·.1)⟩

/-! ### Entries that are found -/

/-- What a lookup finds is one of the entries. -/
theorem lookup_mem {v : α} {entries : List (String × α)} (h : lookup name entries = some v) :
    v ∈ entries.map (·.2) := by
  induction entries with
  | nil => simp [lookup] at h
  | cons entry rest ih =>
    obtain ⟨key, held⟩ := entry
    unfold lookup at h
    split at h
    · simp [Option.some.inj h]
    · exact List.mem_cons_of_mem _ (ih h)

/-- What is found under a name is held. -/
theorem mem_values_of_get? {v : α} (h : table.get? name = some v) : v ∈ table.values :=
  lookup_mem h

/-- A name under which something is found is one of the table's. -/
theorem mem_names_of_get? {v : α} (h : table.get? name = some v) : name ∈ table.names := by
  obtain ⟨entries⟩ := table
  induction entries with
  | nil => exact absurd h nofun
  | cons entry rest ih =>
    obtain ⟨key, held⟩ := entry
    simp only [get?, lookup] at h
    split at h
    · next hkey => exact hkey ▸ List.mem_cons_self ..
    · exact List.mem_cons_of_mem _ (ih h)

/-- Something is found under just the names of the table. -/
theorem mem_names_iff : name ∈ table.names ↔ (table.get? name).isSome = true := by
  refine ⟨fun h => ?_, fun h => ?_⟩
  · obtain ⟨entries⟩ := table
    induction entries with
    | nil => exact absurd h List.not_mem_nil
    | cons entry rest ih =>
      obtain ⟨key, held⟩ := entry
      simp only [get?, lookup]
      split
      · rfl
      · next hkey => exact ih ((List.mem_cons.1 h).resolve_left (Ne.symm hkey))
  · obtain ⟨v, hv⟩ := Option.isSome_iff_exists.1 h
    exact mem_names_of_get? hv

/-- What is found after an entry was put under a name. -/
theorem get?_insert (table : Table α) (name : String) (new : α) (key : String) :
    (table.insert name new).get? key = if name = key then some new else table.get? key := by
  obtain ⟨entries⟩ := table
  induction entries with
  | nil => simp [insert, get?, put, lookup]
  | cons entry rest ih =>
    obtain ⟨found, held⟩ := entry
    simp only [insert, get?, put] at ih ⊢
    by_cases hname : found = name
    · rw [if_pos hname, lookup, lookup, hname]
      split <;> rfl
    · rw [if_neg hname, lookup, lookup, ih]
      by_cases hkey : found = key
      · rw [if_pos hkey, if_pos hkey, if_neg fun heq => hname (hkey.trans heq.symm)]
      · rw [if_neg hkey, if_neg hkey]

/-- Putting an entry into a list of them adds no other one. -/
theorem mem_put {v new : α} {entries : List (String × α)}
    (h : v ∈ (put name new entries).map (·.2)) : v = new ∨ v ∈ entries.map (·.2) := by
  induction entries with
  | nil => simpa [put] using h
  | cons entry rest ih =>
    obtain ⟨key, held⟩ := entry
    unfold put at h
    split at h
    · rcases List.mem_cons.1 h with rfl | h
      · exact .inl rfl
      · exact .inr (List.mem_cons_of_mem _ h)
    · rcases List.mem_cons.1 h with rfl | h
      · exact .inr (by simp)
      · exact (ih h).imp_right (List.mem_cons_of_mem _)

/-- Putting an entry adds no other one. -/
theorem mem_values_insert {v new : α} (h : v ∈ (table.insert name new).values) :
    v = new ∨ v ∈ table.values :=
  mem_put h

/-- Putting an entry adds no other name. -/
theorem mem_names_insert {key : String} {new : α} (h : key ∈ (table.insert name new).names) :
    key = name ∨ key ∈ table.names := by
  obtain ⟨entries⟩ := table
  induction entries with
  | nil => exact .inl (List.mem_singleton.1 h)
  | cons entry rest ih =>
    obtain ⟨found, held⟩ := entry
    simp only [insert, names, put] at ih h ⊢
    split at h
    · exact .inr h
    · rcases List.mem_cons.1 h with rfl | h
      · exact .inr (List.mem_cons_self ..)
      · exact (ih h).imp_right (List.mem_cons_of_mem _)

/-- What is put under a name is held. -/
theorem mem_values_insert_self (table : Table α) (name : String) (new : α) :
    new ∈ (table.insert name new).values := by
  obtain ⟨entries⟩ := table
  induction entries with
  | nil => exact List.mem_singleton_self new
  | cons entry rest ih =>
    obtain ⟨key, held⟩ := entry
    simp only [insert, values, put] at ih ⊢
    split
    · exact List.mem_cons_self ..
    · exact List.mem_cons_of_mem _ ih

/-- Putting several entries adds no others. -/
theorem mem_values_insertAll {v : α} :
    ∀ {table : Table α} {names : List String} {entries : List α},
      v ∈ (table.insertAll names entries).values → v ∈ entries ∨ v ∈ table.values
  | _, [], _, h => .inr (by simpa [insertAll] using h)
  | _, _ :: _, [], h => .inr (by simpa [insertAll] using h)
  | table, name :: names, entry :: entries, h => by
    rw [insertAll] at h
    rcases mem_values_insertAll h with h | h
    · exact .inl (List.mem_cons_of_mem _ h)
    · rcases mem_values_insert h with rfl | h
      · exact .inl (List.mem_cons_self ..)
      · exact .inr h

/-- A table that was filled from a list holds what is on the list. -/
theorem mem_of_mem_values_insertAll {v : α} {names : List String} {entries : List α}
    (h : v ∈ (({} : Table α).insertAll names entries).values) : v ∈ entries :=
  (mem_values_insertAll h).resolve_right List.not_mem_nil

/-- Putting many entries adds none but their names. -/
theorem mem_names_insertAll {key : String} :
    ∀ {table : Table α} {names : List String} {entries : List α},
      key ∈ (table.insertAll names entries).names → key ∈ names ∨ key ∈ table.names
  | _, [], _, h => .inr (by simpa [insertAll] using h)
  | _, _ :: _, [], h => .inr (by simpa [insertAll] using h)
  | table, name :: names, entry :: entries, h => by
    rw [insertAll] at h
    rcases mem_names_insertAll h with h | h
    · exact .inl (List.mem_cons_of_mem _ h)
    · rcases mem_names_insert h with rfl | h
      · exact .inl (List.mem_cons_self ..)
      · exact .inr h

/-- **Entries put under different names** are found under the name at the same place. -/
theorem get?_insertAll {names : List String} (hnames : names.Nodup) (table : Table α)
    (entries : List α) (key : String) :
    (table.insertAll names entries).get? key =
      ((names.zip entries).lookup key).or (table.get? key) := by
  induction names generalizing table entries with
  | nil => rfl
  | cons name names ih =>
    obtain ⟨hname, hnames⟩ := List.nodup_cons.1 hnames
    cases entries with
    | nil => rfl
    | cons entry entries =>
      rw [insertAll, ih hnames, get?_insert, List.zip_cons_cons, List.lookup_cons]
      by_cases hkey : key = name
      · subst hkey
        have hnone : (names.zip entries).lookup key = none := by
          refine List.lookup_eq_none_iff.2 fun pair hpair => bne_iff_ne.2 ?_
          rintro rfl
          exact hname (List.of_mem_zip hpair).1
        simp [hnone]
      · rw [if_neg (Ne.symm hkey), beq_false_of_ne hkey]

/-- Removing an entry adds none. -/
theorem mem_values_erase {v : α} (h : v ∈ (table.erase name).values) : v ∈ table.values := by
  obtain ⟨entry, hentry, rfl⟩ := List.mem_map.1 h
  exact List.mem_map_of_mem (List.mem_filter.1 hentry).1

/-! ### Applying a function to each entry -/

/-- A function that changes nothing leaves the table. -/
@[simp] theorem map_id (table : Table α) : table.map (fun v => v) = table := by
  simp [map]

/-- Functions that agree on what is held make the same table. -/
theorem map_congr {f g : α → β} (h : ∀ v ∈ table.values, f v = g v) :
    table.map f = table.map g := by
  refine congrArg mk (List.map_congr_left fun entry hentry => ?_)
  rw [h entry.2 (List.mem_map_of_mem hentry)]

/-- A function that leaves what is held leaves the table. -/
theorem map_eq_self {f : α → α} (h : ∀ v ∈ table.values, f v = v) : table.map f = table :=
  (map_congr h).trans (map_id table)

/-- The names stay. -/
@[simp] theorem names_map (f : α → β) (table : Table α) : (table.map f).names = table.names := by
  simp [map, names]

/-- What is found is what the function makes of what was found. -/
@[simp] theorem get?_map (f : α → β) (table : Table α) (name : String) :
    (table.map f).get? name = (table.get? name).map f := by
  obtain ⟨entries⟩ := table
  induction entries with
  | nil => rfl
  | cons entry rest ih =>
    simp only [get?, map, List.map_cons, lookup] at ih ⊢
    split
    · rfl
    · exact ih

/-- An entry may be put before or after the function is applied. -/
theorem map_insert (f : α → β) (table : Table α) (name : String) (v : α) :
    (table.insert name v).map f = (table.map f).insert name (f v) := by
  obtain ⟨entries⟩ := table
  induction entries with
  | nil => rfl
  | cons entry rest ih =>
    simp only [insert, map, List.map_cons, put, mk.injEq] at ih ⊢
    split
    · simp
    · simp [ih]

/-- So may many entries. -/
theorem map_insertAll (f : α → β) :
    ∀ (table : Table α) (names : List String) (entries : List α),
      (table.insertAll names entries).map f = (table.map f).insertAll names (entries.map f)
  | _, [], _ => by simp [insertAll]
  | _, _ :: _, [] => by simp [insertAll]
  | table, name :: names, entry :: entries => by
    rw [insertAll, map_insertAll f, map_insert, List.map_cons, insertAll]

/-- What is held is what the function makes of what was held. -/
@[simp] theorem values_map (f : α → β) (table : Table α) :
    (table.map f).values = table.values.map f := by
  simp [map, values]

/-- An entry may be taken out before or after the function is applied. -/
theorem map_erase (f : α → β) (table : Table α) (name : String) :
    (table.erase name).map f = (table.map f).erase name := by
  simp [map, erase, List.filter_map, Function.comp_def]

/-! ### Entries under some of the names -/

variable {keep : String → Bool}

/-- All names together are the whole table. -/
@[simp] theorem only_true (table : Table α) : table.only (fun _ => true) = table := by
  rw [only, List.filter_eq_self.2 fun _ _ => rfl]

/-- Under a name that is kept, the same is found. -/
theorem get?_only (h : keep name = true) (table : Table α) :
    (table.only keep).get? name = table.get? name := by
  obtain ⟨entries⟩ := table
  induction entries with
  | nil => rfl
  | cons entry rest ih =>
    obtain ⟨key, held⟩ := entry
    simp only [get?, only, lookup] at ih ⊢
    by_cases hkey : key = name
    · rw [List.filter_cons_of_pos (by rw [hkey]; exact h), lookup, if_pos hkey, if_pos hkey]
    · rw [if_neg hkey, ← ih, List.filter_cons]
      split
      · rw [lookup, if_neg hkey]
      · rfl

/-- An entry under a name that is kept may be put before or after. -/
theorem only_insert_of_keep (h : keep name = true) (table : Table α) (v : α) :
    (table.insert name v).only keep = (table.only keep).insert name v := by
  obtain ⟨entries⟩ := table
  induction entries with
  | nil => simp [insert, only, put, h]
  | cons entry rest ih =>
    obtain ⟨key, held⟩ := entry
    simp only [insert, only, mk.injEq, put] at ih ⊢
    by_cases hkey : key = name
    · subst hkey
      simp [h, put]
    · rw [if_neg hkey, List.filter_cons, List.filter_cons, ih]
      split
      · rw [put, if_neg hkey]
      · rfl

/-- An entry under another name makes no difference. -/
theorem only_insert_of_not_keep (h : keep name = false) (table : Table α) (v : α) :
    (table.insert name v).only keep = table.only keep := by
  obtain ⟨entries⟩ := table
  induction entries with
  | nil => simp [insert, only, put, h]
  | cons entry rest ih =>
    obtain ⟨key, held⟩ := entry
    simp only [insert, only, mk.injEq, put] at ih ⊢
    by_cases hkey : key = name
    · subst hkey
      simp [h]
    · rw [if_neg hkey, List.filter_cons, List.filter_cons, ih]

/-- An entry may be taken out before or after. -/
theorem only_erase (table : Table α) (name : String) :
    (table.erase name).only keep = (table.only keep).erase name := by
  simp only [only, erase, List.filter_filter, Bool.and_comm]

/-- Taking out an entry under another name makes no difference. -/
theorem only_erase_of_not_keep (h : keep name = false) (table : Table α) :
    (table.erase name).only keep = table.only keep := by
  simp only [only, erase, List.filter_filter, mk.injEq]
  refine List.filter_congr fun entry _ => ?_
  by_cases hkey : entry.1 = name <;> simp [hkey, h]

/-- Every entry is under one of the names or under one of the others. -/
theorem mem_values_only {v : α} :
    v ∈ table.values ↔ v ∈ (table.only keep).values ∨ v ∈ (table.only (!keep ·)).values := by
  simp only [values, only, List.mem_map, List.mem_filter]
  constructor
  · rintro ⟨entry, hentry, rfl⟩
    cases hkeep : keep entry.1 with
    | true => exact .inl ⟨entry, ⟨hentry, hkeep⟩, rfl⟩
    | false => exact .inr ⟨entry, ⟨hentry, by simp [hkeep]⟩, rfl⟩
  · rintro (⟨entry, hentry, rfl⟩ | ⟨entry, hentry, rfl⟩)
    · exact ⟨entry, hentry.1, rfl⟩
    · exact ⟨entry, hentry.1, rfl⟩

end Table
end StrictScheme
