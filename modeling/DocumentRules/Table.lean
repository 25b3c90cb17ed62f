/-!
# Tables keyed by text

An object's fields and the documents of an evaluation are both finite maps from text, and both are
*shown*: a printed object lists its keys, and an evaluation lists its documents. The order shown is
the order of the keys' code points (which is also the order of their UTF-8 bytes), so a table is an
association list kept in that order, and two tables with the same entries are the same list.

Reading is `List.lookup`. Writing is `put`, and its shape is deliberate: it asks first whether the
key is present and then either replaces *in place* or adds in order. A one-pass ordered insertion
does the same on an ordered list, but goes astray on one that is not; with `put` the laws of reading
after writing (`lookup_put_self`, `lookup_put_of_ne`) hold of every list, so no caller ever has to
carry a proof that its table is ordered just to read back what it wrote.
-/

set_option autoImplicit false

namespace DocumentRules.Table

variable {α : Type}

/-- Gives the first entry under `key` the value `value`, and moves nothing. -/
def replace (key : String) (value : α) : List (String × α) → List (String × α)
  | [] => []
  | (k, v) :: rest =>
    if k = key then (k, value) :: rest else (k, v) :: replace key value rest

/-- Adds an entry before the first one with a greater key. -/
def add (key : String) (value : α) : List (String × α) → List (String × α)
  | [] => [(key, value)]
  | (k, v) :: rest =>
    if key < k then (key, value) :: (k, v) :: rest else (k, v) :: add key value rest

/-- Whether some entry stands under `key`. -/
def contains (key : String) (table : List (String × α)) : Bool :=
  (table.lookup key).isSome

/-- The table in which `key` holds `value`: replaced where it stands, or added in order. -/
def put (key : String) (value : α) (table : List (String × α)) : List (String × α) :=
  if contains key table then replace key value table else add key value table

/-- The table of a list of entries; of two entries under one key the later wins. -/
def ofEntries (entries : List (String × α)) : List (String × α) :=
  entries.foldl (fun table entry => put entry.1 entry.2 table) []

/-- The keys, in the order of the table. -/
def keys (table : List (String × α)) : List String :=
  table.map Prod.fst

/-! ## Reading after writing -/

theorem lookup_replace_self {key : String} {value : α} {table : List (String × α)}
    (h : contains key table = true) : (replace key value table).lookup key = some value := by
  induction table with
  | nil => simp [contains] at h
  | cons entry rest ih =>
    obtain ⟨k, v⟩ := entry
    by_cases hk : k = key
    · simp [replace, hk]
    · have hne : (key == k) = false := by simpa using fun e => hk e.symm
      simp only [contains, List.lookup_cons, hne] at h
      simp [replace, hk, List.lookup_cons, hne, ih h]

theorem lookup_replace_of_ne {key other : String} (value : α) (table : List (String × α))
    (h : other ≠ key) : (replace key value table).lookup other = table.lookup other := by
  induction table with
  | nil => rfl
  | cons entry rest ih =>
    obtain ⟨k, v⟩ := entry
    by_cases hk : k = key
    · subst hk
      have hne : (other == k) = false := by simpa using h
      simp [replace, List.lookup_cons, hne]
    · simp only [replace, hk, if_false, List.lookup_cons, ih]

theorem lookup_add_self {key : String} (value : α) {table : List (String × α)}
    (h : contains key table = false) : (add key value table).lookup key = some value := by
  induction table with
  | nil => simp [add]
  | cons entry rest ih =>
    obtain ⟨k, v⟩ := entry
    cases hk : key == k with
    | true => simp [contains, List.lookup_cons, hk] at h
    | false =>
      simp only [contains, List.lookup_cons, hk] at h
      simp only [add]
      split
      · simp
      · simp only [List.lookup_cons, hk]
        exact ih h

theorem lookup_add_of_ne {key other : String} (value : α) (table : List (String × α))
    (h : other ≠ key) : (add key value table).lookup other = table.lookup other := by
  have hne : (other == key) = false := by simpa using h
  induction table with
  | nil => simp [add, List.lookup_cons, hne]
  | cons entry rest ih =>
    obtain ⟨k, v⟩ := entry
    simp only [add]
    split
    · simp [List.lookup_cons, hne]
    · simp only [List.lookup_cons, ih]

/-- What was put is found. -/
@[simp] theorem lookup_put_self (key : String) (value : α) (table : List (String × α)) :
    (put key value table).lookup key = some value := by
  unfold put
  split
  · next h => exact lookup_replace_self h
  · next h => exact lookup_add_self value (by simpa using h)

/-- A write under one key is not seen under another. -/
theorem lookup_put_of_ne {key other : String} (value : α) (table : List (String × α))
    (h : other ≠ key) : (put key value table).lookup other = table.lookup other := by
  unfold put
  split
  · exact lookup_replace_of_ne value table h
  · exact lookup_add_of_ne value table h

theorem contains_put (key : String) (value : α) (table : List (String × α)) (other : String) :
    contains other (put key value table) = (other == key || contains other table) := by
  by_cases hother : other = key
  · simp [hother, contains]
  · simp [hother, contains, lookup_put_of_ne value table hother]

theorem lookup_foldl_put (entries table : List (String × α)) (key : String) :
    (entries.foldl (fun table entry => put entry.1 entry.2 table) table).lookup key =
      (entries.reverse.lookup key).or (table.lookup key) := by
  induction entries generalizing table with
  | nil => rfl
  | cons entry rest ih =>
    obtain ⟨k, v⟩ := entry
    rw [List.foldl_cons, ih, List.reverse_cons, List.lookup_append, Option.or_assoc]
    by_cases hk : key = k
    · simp [hk]
    · have hne : (key == k) = false := by simpa using hk
      simp [lookup_put_of_ne v table hk, List.lookup_cons, hne]

/-- A table of entries holds the last entry under each key. -/
theorem lookup_ofEntries (entries : List (String × α)) (key : String) :
    (ofEntries entries).lookup key = entries.reverse.lookup key := by
  rw [ofEntries, lookup_foldl_put, List.lookup_nil, Option.or_none]

/-! ## Keys -/

theorem mem_keys_iff {key : String} {table : List (String × α)} :
    key ∈ keys table ↔ contains key table = true := by
  induction table with
  | nil => simp [keys, contains]
  | cons entry rest ih =>
    obtain ⟨k, v⟩ := entry
    rw [keys, List.map_cons, List.mem_cons, ← keys, ih, contains, contains, List.lookup_cons]
    cases hk : key == k with
    | true => simp [beq_iff_eq.mp hk]
    | false => simp [beq_eq_false_iff_ne.mp hk]

theorem keys_replace (key : String) (value : α) (table : List (String × α)) :
    keys (replace key value table) = keys table := by
  induction table with
  | nil => rfl
  | cons entry rest ih =>
    obtain ⟨k, v⟩ := entry
    simp only [keys] at ih
    by_cases hk : k = key
    · simp [keys, replace, hk]
    · simp [keys, replace, hk, ih]

/-- A write under a key that is there adds none. -/
theorem keys_put {key : String} (value : α) {table : List (String × α)}
    (h : contains key table = true) : keys (put key value table) = keys table := by
  rw [put, if_pos h, keys_replace]

/-! ## Writing again -/

theorem replace_replace (key : String) (first second : α) (table : List (String × α)) :
    replace key second (replace key first table) = replace key second table := by
  induction table with
  | nil => rfl
  | cons entry rest ih =>
    obtain ⟨k, v⟩ := entry
    by_cases hk : k = key
    · simp [replace, hk]
    · simp only [replace, hk, if_false, ih]

theorem replace_add {key : String} (first second : α) {table : List (String × α)}
    (h : contains key table = false) :
    replace key second (add key first table) = add key second table := by
  induction table with
  | nil => simp [add, replace]
  | cons entry rest ih =>
    obtain ⟨k, v⟩ := entry
    have hk : k ≠ key := by
      rintro rfl
      simp [contains] at h
    have hne : (key == k) = false := by simpa using hk.symm
    simp only [contains, List.lookup_cons, hne] at h
    simp only [add]
    split
    · simp [replace]
    · simp only [replace, hk, if_false]
      rw [ih h]

theorem replace_of_lookup {key : String} {value : α} {table : List (String × α)}
    (h : table.lookup key = some value) : replace key value table = table := by
  induction table with
  | nil => rfl
  | cons entry rest ih =>
    obtain ⟨k, v⟩ := entry
    by_cases hk : k = key
    · have hself : (key == k) = true := by simpa using hk.symm
      simp only [List.lookup_cons, hself, Option.some.injEq] at h
      simp [replace, hk, h]
    · have hne : (key == k) = false := by simpa using fun e => hk e.symm
      simp only [List.lookup_cons, hne] at h
      simp only [replace, hk, if_false, ih h]

/-- Of two writes under one key the second stays, where a single write would have put it. -/
@[simp] theorem put_put (key : String) (first second : α) (table : List (String × α)) :
    put key second (put key first table) = put key second table := by
  have hthere : contains key (put key first table) = true := by simp [contains_put]
  cases h : contains key table with
  | true =>
    simp only [put, h, if_true] at hthere ⊢
    simp only [hthere, if_true, replace_replace]
  | false =>
    simp only [put, h] at hthere ⊢
    simp only [hthere, if_true]
    exact replace_add first second h

/-- Writing what is there changes nothing. -/
theorem put_of_lookup {key : String} {value : α} {table : List (String × α)}
    (h : table.lookup key = some value) : put key value table = table := by
  have hthere : contains key table = true := by
    rw [contains, h]
    rfl
  rw [put, if_pos hthere, replace_of_lookup h]

/-! ## Writing under two keys -/

section Commute

variable {key other : String}

theorem replace_comm (h : key ≠ other) (first second : α) (table : List (String × α)) :
    replace key first (replace other second table) =
      replace other second (replace key first table) := by
  induction table with
  | nil => rfl
  | cons entry rest ih =>
    obtain ⟨k, v⟩ := entry
    by_cases hkey : k = key
    · subst hkey
      simp [replace, h]
    · by_cases hother : k = other
      · simp [replace, hother, h.symm]
      · simp only [replace, hkey, hother, if_false, ih]

theorem replace_add_comm (h : key ≠ other) (first second : α) (table : List (String × α)) :
    replace key first (add other second table) =
      add other second (replace key first table) := by
  induction table with
  | nil => simp [replace, add, h.symm]
  | cons entry rest ih =>
    obtain ⟨k, v⟩ := entry
    by_cases hlt : other < k
    · by_cases hkey : k = key
      · subst hkey
        simp [replace, add, hlt, h.symm]
      · simp [replace, add, hlt, hkey, h.symm]
    · by_cases hkey : k = key
      · subst hkey
        simp [replace, add, hlt]
      · simp only [replace, add, hlt, hkey, if_false, ih]

/-- Of two keys that are added the smaller comes first, whichever is added first. -/
theorem add_add_of_lt (h : key < other) (first second : α) (table : List (String × α)) :
    add key first (add other second table) = add other second (add key first table) := by
  have hnot : ¬ other < key := String.lt_asymm h
  induction table with
  | nil => simp [add, h, hnot]
  | cons entry rest ih =>
    obtain ⟨k, v⟩ := entry
    by_cases hother : other < k
    · have hkey : key < k := String.lt_trans h hother
      simp [add, h, hnot, hother, hkey]
    · by_cases hkey : key < k
      · simp [add, hnot, hother, hkey]
      · simp only [add, hother, hkey, if_false, ih]

theorem add_comm (h : key ≠ other) (first second : α) (table : List (String × α)) :
    add key first (add other second table) = add other second (add key first table) := by
  by_cases hlt : key < other
  · exact add_add_of_lt hlt first second table
  · have hle : other ≤ key := String.not_lt.mp hlt
    have hgt : other < key := by
      apply String.not_le.mp
      intro hge
      exact h (String.le_antisymm hge hle)
    exact (add_add_of_lt hgt second first table).symm

/-- Behind a write under another key, a write does what it would have done without it. -/
theorem put_put_of_ne (h : key ≠ other) (first second : α) (table : List (String × α)) :
    put key first (put other second table) =
      if contains key table then replace key first (put other second table)
      else add key first (put other second table) := by
  have hkey : contains key (put other second table) = contains key table := by
    simp [contains_put, h]
  rw [put, hkey]

/-- Writes under two keys may be made in either order. -/
theorem put_comm (h : key ≠ other) (first second : α) (table : List (String × α)) :
    put key first (put other second table) = put other second (put key first table) := by
  rw [put_put_of_ne h, put_put_of_ne h.symm]
  unfold put
  cases contains key table with
  | true =>
    cases contains other table with
    | true => exact replace_comm h first second table
    | false => exact replace_add_comm h first second table
  | false =>
    cases contains other table with
    | true => exact (replace_add_comm h.symm second first table).symm
    | false => exact add_comm h first second table

end Commute

end DocumentRules.Table
