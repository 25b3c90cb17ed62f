import DocumentRules.Json.Reader
import DocumentRules.Pointer.Access
import Mathlib.Data.List.Sort
import Mathlib.Data.String.Basic

/-!
# Objects with their keys in order

An object is shown with its keys in order and none of them twice. The type of documents does not say
so, since a value cannot be asked about its own fields while it is being made. It is a property of
the values that there are (`Json.Ordered`), at every depth: what is read from a text has it
(`Json.ordered_of_read?`), what stands at a path of a value that has it does too, and a write keeps
it (`Json.Ordered.set`).
-/

set_option autoImplicit false

namespace DocumentRules

/-! ## Tables in order -/

namespace Table

variable {α : Type} {key : String} {table : List (String × α)}

/-- The keys are in order, and none stands twice. -/
def Ordered (table : List (String × α)) : Prop :=
  (keys table).Pairwise (· < ·)

theorem Ordered.add (h : Ordered table) (value : α) (hnew : contains key table = false) :
    Ordered (add key value table) := by
  induction table with
  | nil => exact List.pairwise_singleton _ key
  | cons entry rest ih =>
    obtain ⟨k, v⟩ := entry
    obtain ⟨hfirst, hrest⟩ := List.pairwise_cons.mp h
    have hne : (key == k) = false := by
      rw [contains, List.lookup_cons] at hnew
      cases hk : key == k with
      | true => simp [hk] at hnew
      | false => rfl
    have hnewRest : contains key rest = false := by
      rwa [contains, List.lookup_cons, hne] at hnew
    rw [Table.add]
    split
    · next hlt =>
      refine List.pairwise_cons.mpr ⟨fun other hother => ?_, h⟩
      rcases List.mem_cons.mp hother with rfl | hother
      · exact hlt
      · exact hlt.trans (hfirst other hother)
    · next hlt =>
      refine List.pairwise_cons.mpr ⟨fun other hother => ?_, ih hrest hnewRest⟩
      have hput : Table.add key value rest = put key value rest := by simp [put, hnewRest]
      have hmem : other == key || contains other rest := by
        rw [← contains_put key value rest other, ← hput]
        exact mem_keys_iff.mp hother
      rcases Bool.or_eq_true_iff.mp hmem with hkey | hin
      · rw [beq_iff_eq.mp hkey]
        exact lt_of_le_of_ne (not_lt.mp hlt) (beq_eq_false_iff_ne.mp hne).symm
      · exact hfirst other (mem_keys_iff.mpr hin)

theorem Ordered.put (h : Ordered table) (key : String) (value : α) :
    Ordered (put key value table) := by
  cases hkey : contains key table with
  | true =>
    rw [Ordered, keys_put value hkey]
    exact h
  | false =>
    rw [Table.put, hkey]
    exact h.add value hkey

/-- Tables that are made by writing entry after entry are in order. -/
theorem ordered_ofEntries (entries : List (String × α)) : Ordered (ofEntries entries) := by
  suffices hfrom : ∀ table : List (String × α), Ordered table →
      Ordered (entries.foldl (fun table entry => put entry.1 entry.2 table) table) from
    hfrom [] List.Pairwise.nil
  induction entries with
  | nil => exact fun table h => h
  | cons entry rest ih => exact fun table h => ih (put entry.1 entry.2 table) (h.put _ _)

theorem Ordered.replace (h : Ordered table) (key : String) (value : α) :
    Ordered (replace key value table) := by
  rw [Ordered, keys_replace]
  exact h

/-! Putting a value under a key brings no other value in. -/

variable {P : String × α → Prop} {value : α}

theorem forall_replace (h : ∀ entry ∈ table, P entry) (hvalue : P (key, value)) :
    ∀ entry ∈ Table.replace key value table, P entry := by
  induction table with
  | nil => exact h
  | cons entry rest ih =>
    obtain ⟨k, v⟩ := entry
    obtain ⟨hfirst, hrest⟩ := List.forall_mem_cons.mp h
    rw [Table.replace]
    split
    · next hkey => exact List.forall_mem_cons.mpr ⟨hkey ▸ hvalue, hrest⟩
    · exact List.forall_mem_cons.mpr ⟨hfirst, ih hrest⟩

theorem forall_add (h : ∀ entry ∈ table, P entry) (hvalue : P (key, value)) :
    ∀ entry ∈ Table.add key value table, P entry := by
  induction table with
  | nil => exact List.forall_mem_singleton.mpr hvalue
  | cons entry rest ih =>
    obtain ⟨k, v⟩ := entry
    obtain ⟨hfirst, hrest⟩ := List.forall_mem_cons.mp h
    rw [Table.add]
    split
    · exact List.forall_mem_cons.mpr ⟨hvalue, h⟩
    · exact List.forall_mem_cons.mpr ⟨hfirst, ih hrest⟩

theorem forall_put (h : ∀ entry ∈ table, P entry) (hvalue : P (key, value)) :
    ∀ entry ∈ Table.put key value table, P entry := by
  unfold Table.put
  split
  · exact forall_replace h hvalue
  · exact forall_add h hvalue

theorem forall_ofEntries {entries : List (String × α)} (h : ∀ entry ∈ entries, P entry) :
    ∀ entry ∈ ofEntries entries, P entry := by
  suffices hfrom : ∀ table : List (String × α), (∀ entry ∈ table, P entry) →
      ∀ entry ∈ entries.foldl (fun table entry => put entry.1 entry.2 table) table, P entry from
    hfrom [] (List.forall_mem_nil P)
  induction entries with
  | nil => exact fun table h => h
  | cons entry rest ih =>
    obtain ⟨hfirst, hrest⟩ := List.forall_mem_cons.mp h
    exact fun table htable => ih hrest _ (forall_put htable hfirst)

end Table

namespace Json

/-- In every object, however deep, the keys are in order and none stands twice. -/
inductive Ordered : Json → Prop
  | null : Ordered .null
  | bool (value : Bool) : Ordered (.bool value)
  | num (value : Number) : Ordered (.num value)
  | str (text : String) : Ordered (.str text)
  | arr {items : List Json} (values : ∀ item ∈ items, item.Ordered) : Ordered (.arr items)
  | obj {fields : List (String × Json)} (keys : Table.Ordered fields)
      (values : ∀ field ∈ fields, field.2.Ordered) : Ordered (.obj fields)

/-! ## What is read -/

namespace Reader

variable {α : Type} {P : α → Prop}

/-- All that a reader of members finds is what the reader of one member may find. -/
theorem forall_members {member : Reads α} (h : ∀ cs a rest, member cs = some (a, rest) → P a)
    (close : Char) (bound : Nat) : ∀ (cs : List Char) {found : List α} {rest : List Char},
      members member close bound cs = some (found, rest) → ∀ a ∈ found, P a := by
  induction bound with
  | zero =>
    intro cs found rest hfound
    cases hfound
  | succ bound ih =>
    intro cs found rest hfound
    rw [members] at hfound
    obtain ⟨⟨first, afterFirst⟩, hfirst, hmore⟩ := Option.bind_eq_some_iff.mp hfound
    dsimp only at hmore
    split at hmore
    · obtain ⟨⟨others, afterOthers⟩, hothers, hall⟩ := Option.bind_eq_some_iff.mp hmore
      cases hall
      exact List.forall_mem_cons.mpr ⟨h _ _ _ hfirst, ih _ hothers⟩
    · split at hmore
      · cases hmore
        exact List.forall_mem_singleton.mpr (h _ _ _ hfirst)
      · cases hmore
    · cases hmore

theorem forall_container {member : Reads α} (h : ∀ cs a rest, member cs = some (a, rest) → P a)
    (close : Char) {cs : List Char} {found : List α} {rest : List Char}
    (hfound : container member close cs = some (found, rest)) : ∀ a ∈ found, P a := by
  unfold container at hfound
  split at hfound
  · cases hfound
  · split at hfound
    · cases hfound
      exact List.forall_mem_nil P
    · exact forall_members h close _ _ hfound

theorem ordered_of_scalar {cs : List Char} {v : Json} {rest : List Char}
    (h : scalar cs = some (v, rest)) : v.Ordered := by
  unfold scalar at h
  split at h
  · cases h
    exact .null
  · cases h
    exact .bool true
  · cases h
    exact .bool false
  · obtain ⟨⟨text, rest⟩, -, hv⟩ := Option.map_eq_some_iff.mp h
    cases hv
    exact .str text
  · obtain ⟨⟨n, rest⟩, -, hv⟩ := Option.map_eq_some_iff.mp h
    cases hv
    exact .num n

theorem ordered_of_field {value : Reads Json}
    (h : ∀ cs v rest, value cs = some (v, rest) → v.Ordered) (cs : List Char)
    (entry : String × Json) (rest : List Char) (hentry : field value cs = some (entry, rest)) :
    entry.2.Ordered := by
  unfold field at hentry
  obtain ⟨⟨key, afterKey⟩, -, hrest⟩ := Option.bind_eq_some_iff.mp hentry
  dsimp only at hrest
  split at hrest
  · obtain ⟨⟨item, afterItem⟩, hitem, hall⟩ := Option.bind_eq_some_iff.mp hrest
    cases hall
    exact h _ _ _ hitem
  · cases hrest

theorem ordered_of_value (depth : Nat) : ∀ (cs : List Char) (v : Json) (rest : List Char),
    value depth cs = some (v, rest) → v.Ordered := by
  induction depth with
  | zero => exact fun cs v rest h => ordered_of_scalar h
  | succ depth ih =>
    intro cs v rest h
    unfold value at h
    split at h
    · obtain ⟨⟨items, rest⟩, hitems, hv⟩ := Option.map_eq_some_iff.mp h
      cases hv
      exact .arr (forall_container ih ']' hitems)
    · obtain ⟨⟨fields, rest⟩, hfields, hv⟩ := Option.map_eq_some_iff.mp h
      cases hv
      refine .obj (Table.ordered_ofEntries fields) ?_
      have hentries : ∀ entry ∈ fields, entry.2.Ordered :=
        forall_container (ordered_of_field ih) '\x7d' hfields
      exact Table.forall_ofEntries hentries
    · exact ordered_of_scalar h

end Reader

/-- **A document that is read has the keys of all its objects in order.** -/
theorem ordered_of_read? {text : String} {v : Json} (h : read? text = some v) : v.Ordered := by
  unfold read? at h
  split at h
  · next found rest hvalue =>
    split at h
    · cases h
      exact Reader.ordered_of_value _ _ _ _ hvalue
    · cases h
  · cases h

/-! ## What is written -/

variable {doc child value : Json} {token : String} {old : Option Json}

theorem mem_of_lookup {fields : List (String × Json)} (h : fields.lookup token = some child) :
    (token, child) ∈ fields := by
  induction fields with
  | nil => cases h
  | cons entry rest ih =>
    obtain ⟨k, v⟩ := entry
    rw [List.lookup_cons] at h
    cases hk : token == k with
    | true =>
      rw [hk, Option.some.injEq] at h
      rw [beq_iff_eq.mp hk, h]
      exact List.mem_cons_self
    | false =>
      rw [hk] at h
      exact List.mem_cons_of_mem _ (ih h)

theorem Ordered.step? (h : doc.Ordered) (hstep : doc.step? token = some child) : child.Ordered := by
  cases h with
  | null | bool value | num value | str text => cases hstep
  | arr values =>
    unfold Json.step? at hstep
    dsimp only at hstep
    split at hstep
    · exact values child (List.mem_of_getElem? hstep)
    · cases hstep
  | obj keys values => exact values _ (mem_of_lookup hstep)

/-- What stands at a path of a document in order is in order. -/
theorem Ordered.get? : ∀ {path : List String} {doc : Json}, doc.Ordered →
    doc.get? path = some value → value.Ordered
  | [], doc, h, hget => by
    obtain rfl := Option.some.inj hget
    exact h
  | token :: rest, doc, h, hget => by
    unfold Json.get? at hget
    split at hget
    · next child hstep => exact (h.step? hstep).get? hget
    · cases hget

theorem Ordered.arr_set {items : List Json} (h : ∀ item ∈ items, item.Ordered) (i : Nat)
    (hvalue : value.Ordered) : (Json.arr (items.set i value)).Ordered := by
  refine .arr fun item hitem => ?_
  rcases List.mem_or_eq_of_mem_set hitem with hold | rfl
  · exact h item hold
  · exact hvalue

theorem Ordered.replaceChild (h : doc.Ordered) (hchild : child.Ordered) :
    (doc.replaceChild token child).Ordered := by
  cases h with
  | null => exact .null
  | bool value => exact .bool value
  | num value => exact .num value
  | str text => exact .str text
  | arr values =>
    unfold Json.replaceChild
    dsimp only
    split
    · exact .arr_set values _ hchild
    · exact .arr values
  | obj keys values => exact .obj (keys.replace _ _) (Table.forall_replace values hchild)

theorem Ordered.setChild {parent : Json} (h : parent.Ordered) (hvalue : value.Ordered)
    (hset : parent.setChild token value = .ok (old, doc)) : doc.Ordered := by
  cases h with
  | null | bool value | num value | str text => cases hset
  | @arr items values =>
    have happend : (Json.arr (items ++ [value])).Ordered :=
      .arr (List.forall_mem_append.mpr ⟨values, List.forall_mem_singleton.mpr hvalue⟩)
    unfold Json.setChild at hset
    dsimp only at hset
    split at hset
    · cases hset
      exact happend
    · split at hset
      · cases hset
      · split at hset
        · cases hset
          exact .arr_set values _ hvalue
        · split at hset
          · cases hset
            exact happend
          · cases hset
  | obj keys values =>
    cases hset
    exact .obj (keys.put _ _) (Table.forall_put values hvalue)

theorem Ordered.set? {result : Json} : ∀ {path : List String} {doc : Json} {old : Option Json},
    doc.Ordered → value.Ordered → doc.set? path value = .ok (old, result) → result.Ordered := by
  intro path
  induction path generalizing result with
  | nil =>
    intro doc old _ hvalue hset
    cases hset
    exact hvalue
  | cons token rest ih =>
    intro doc old h hvalue hset
    cases rest with
    | nil => exact h.setChild hvalue hset
    | cons next rest =>
      unfold Json.set? at hset
      split at hset
      · cases hset
      · next child hstep =>
        split at hset
        · cases hset
        · next hchild =>
          cases hset
          exact h.replaceChild (ih (h.step? hstep) hvalue hchild)

/-- **A write keeps the keys of all objects in order**, if the value that is written has them so. -/
theorem Ordered.set {path : List String} {result : Json} (h : doc.Ordered) (hvalue : value.Ordered)
    (hset : doc.set path value = .ok (old, result)) : result.Ordered := by
  unfold Json.set at hset
  cases hresult : doc.set? path value with
  | error fault =>
    rw [hresult] at hset
    cases hset
  | ok written =>
    rw [hresult] at hset
    cases hset
    exact h.set? hvalue hresult

/-- The fields of an object in order. -/
theorem Ordered.fields {fields : List (String × Json)} (h : (Json.obj fields).Ordered) :
    Table.Ordered fields := by
  cases h with
  | obj keys values => exact keys

end Json

end DocumentRules
