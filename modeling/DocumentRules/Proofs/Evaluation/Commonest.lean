import DocumentRules.Evaluation.Aggregate
import Mathlib.Data.List.Count
import Mathlib.Data.List.Induction

/-!
# The commonest text of an array

The mode is found by counting while the texts go by, and the text that passes all others takes the
lead. It is not obvious that this counts anything but the past: a text that leads early may be
caught up with, and of two that end level either may have been in front for most of the way. What
decides is when each got to the greatest count. A text that only draws level does not take the lead,
so of the texts that end level the one leads whose last occurrence comes first.

`Leads` says that of the texts so far, and `tally_leads` is that it holds after each of them. At the
end it is the theorem on the aggregate (`Aggregate.mode_leads`), and since no two texts can lead, it
fixes the answer.
-/

set_option autoImplicit false

namespace DocumentRules

/-- The position at which a text gets to a count: that of its `count`-th occurrence. -/
def reachedAt (texts : List String) (text : String) (count : Nat) : Nat :=
  texts.idxOfNth text (count - 1)

/-- A text leads among texts: it is one of them, none is more frequent, and of those that are as
frequent it is the first to get to that count. -/
structure Leads (texts : List String) (lead : String) : Prop where
  mem : lead ∈ texts
  most : ∀ text, texts.count text ≤ texts.count lead
  first : ∀ text, text ≠ lead → texts.count text = texts.count lead →
    reachedAt texts lead (texts.count lead) < reachedAt texts text (texts.count lead)

variable {texts : List String} {text lead other : String}

/-! ## Where a count is reached -/

theorem reachedAt_lt_length {count : Nat} (hpos : 0 < count) (hcount : count ≤ texts.count text) :
    reachedAt texts text count < texts.length :=
  List.idxOfNth_lt_length_of_lt_count (by omega)

theorem reachedAt_append {count : Nat} (hpos : 0 < count) (hcount : count ≤ texts.count text)
    (more : List String) : reachedAt (texts ++ more) text count = reachedAt texts text count := by
  unfold reachedAt
  have hlt : count - 1 < texts.count text := by omega
  clear hcount
  generalize count - 1 = n at hlt ⊢
  induction texts generalizing n with
  | nil => simp at hlt
  | cons other texts ih => grind

theorem reachedAt_append_self (texts : List String) (text : String) :
    reachedAt (texts ++ [text]) text (texts.count text + 1) = texts.length := by
  unfold reachedAt
  rw [Nat.add_sub_cancel]
  induction texts with
  | nil => simp
  | cons other texts ih => grind

/-! ## Leading -/

theorem Leads.count_pos (h : Leads texts lead) : 0 < texts.count lead :=
  List.count_pos_iff.mpr h.mem

theorem Leads.unique (h : Leads texts lead) (h' : Leads texts other) : other = lead := by
  have hcount : texts.count other = texts.count lead :=
    Nat.le_antisymm (h.most other) (h'.most lead)
  by_contra hne
  have hlt := h.first other hne hcount
  have hgt := h'.first lead (Ne.symm hne) hcount.symm
  rw [hcount] at hgt
  exact Nat.lt_asymm hlt hgt

/-- The first text leads. -/
theorem leads_singleton (text : String) : Leads [text] text where
  mem := List.mem_singleton_self text
  most := fun other => by
    rw [List.count_singleton_self]
    exact List.count_le_length
  first := fun other hne hcount => by
    rw [List.count_singleton_self, List.count_eq_zero_of_not_mem (by simpa using hne)] at hcount
    omega

/-- A text that passes the leader takes the lead: nothing else can be as frequent. -/
theorem Leads.passed (h : Leads texts lead) (hpass : texts.count lead < texts.count text + 1) :
    Leads (texts ++ [text]) text := by
  have hself : (texts ++ [text]).count text = texts.count text + 1 := by simp
  have hother : ∀ other, other ≠ text → (texts ++ [text]).count other < texts.count text + 1 := by
    intro other hne
    have hcount : (texts ++ [text]).count other = texts.count other := by
      simp [List.count_append, hne.symm]
    have hmost := h.most other
    omega
  refine ⟨by simp, fun other => ?_, fun other hne hcount => ?_⟩
  · by_cases hne : other = text
    · subst hne
      exact Nat.le_refl _
    · rw [hself]
      exact Nat.le_of_lt (hother other hne)
  · rw [hself] at hcount
    exact absurd hcount (Nat.ne_of_lt (hother other hne))

/-- A text that does not pass the leader leaves it in the lead: if it draws level, it does so only
now. -/
theorem Leads.kept (h : Leads texts lead) (hkeep : texts.count text + 1 ≤ texts.count lead) :
    Leads (texts ++ [text]) lead := by
  have hne : text ≠ lead := by
    rintro rfl
    omega
  have hlead : (texts ++ [text]).count lead = texts.count lead := by
    simp [List.count_append, hne]
  have hthere : reachedAt (texts ++ [text]) lead (texts.count lead) =
      reachedAt texts lead (texts.count lead) := reachedAt_append h.count_pos (Nat.le_refl _) [text]
  refine ⟨List.mem_append_left _ h.mem, fun other => ?_, fun other hother hcount => ?_⟩
  · rw [hlead, List.count_append, List.count_singleton]
    have hmost := h.most other
    split
    · next heq =>
      rw [← beq_iff_eq.mp heq]
      exact hkeep
    · exact hmost
  · rw [hlead] at hcount ⊢
    rw [hthere]
    by_cases heq : other = text
    · have hlevel : texts.count text + 1 = texts.count lead := by
        rw [← hcount, heq]
        simp
      calc reachedAt texts lead (texts.count lead) < texts.length :=
            reachedAt_lt_length h.count_pos (Nat.le_refl _)
        _ = reachedAt (texts ++ [text]) other (texts.count lead) := by
            rw [heq, ← hlevel, reachedAt_append_self]
    · have hsame : (texts ++ [text]).count other = texts.count other := by
        simp [List.count_append, Ne.symm heq]
      rw [hsame] at hcount
      rw [reachedAt_append h.count_pos (Nat.le_of_eq hcount.symm) [text]]
      exact h.first other hother hcount

/-! ## Counting -/

/-- What counting has come to after some texts: all of them are seen, and the one that leads is
recorded with its count. -/
structure Tally.After (tally : Tally) (texts : List String) (lead : String) : Prop where
  seen : tally.seen = texts.reverse
  leader : tally.leader = some (lead, texts.count lead)
  leads : Leads texts lead

/-- Counting one more text keeps the record right. -/
theorem Tally.After.add {tally : Tally} (h : tally.After texts lead) (text : String) :
    ∃ next, (tally.add text).After (texts ++ [text]) next := by
  have hcount : tally.seen.count text = texts.count text := by
    rw [h.seen, List.count_reverse]
  have hseen : (tally.add text).seen = (texts ++ [text]).reverse := by
    rw [Tally.add, h.seen, List.reverse_concat]
  have hleader : (tally.add text).leader =
      if texts.count lead < texts.count text + 1 then some (text, texts.count text + 1)
      else some (lead, texts.count lead) := by
    simp only [Tally.add, h.leader, hcount, decide_eq_true_eq]
  split at hleader
  · next hpass =>
    refine ⟨text, hseen, ?_, h.leads.passed hpass⟩
    rw [hleader, List.count_append, List.count_singleton_self]
  · next hkeep =>
    have hkeep : texts.count text + 1 ≤ texts.count lead := Nat.le_of_not_lt hkeep
    refine ⟨lead, hseen, ?_, h.leads.kept hkeep⟩
    have hne : text ≠ lead := by
      rintro rfl
      omega
    rw [hleader, List.count_append, List.count_singleton, if_neg (by simpa using hne), Nat.add_zero]

/-- After any texts but none, the one that leads is recorded. -/
theorem tally_leads (first : String) (rest : List String) :
    ∃ lead, ((first :: rest).foldl Tally.add ⟨[], none⟩).After (first :: rest) lead := by
  induction rest using List.reverseRecOn with
  | nil => exact ⟨first, rfl, by simp [Tally.add], leads_singleton first⟩
  | append_singleton rest text ih =>
    obtain ⟨lead, hafter⟩ := ih
    obtain ⟨next, hnext⟩ := hafter.add text
    refine ⟨next, ?_⟩
    rw [← List.cons_append, List.foldl_append]
    exact hnext

theorem exists_commonest (first : String) (rest : List String) :
    ∃ lead, commonest (first :: rest) = some lead ∧ Leads (first :: rest) lead := by
  obtain ⟨lead, hafter⟩ := tally_leads first rest
  refine ⟨lead, ?_, hafter.leads⟩
  rw [commonest, hafter.leader]
  rfl

/-- **The mode is the text that leads.** Of an array that is not empty it is the canonical text of
an item; none of these texts is more frequent, and those as frequent get to that count further back
in the array. No other text has these properties. -/
theorem Aggregate.mode_leads (first : Json) (rest : List Json) :
    ∃ lead, Aggregate.mode.apply (.ofItems (first :: rest)) = .ok (.ofText lead) ∧
      ∀ text, Leads ((first :: rest).map Json.text) text ↔ text = lead := by
  have htexts : (first :: rest).map Json.text =
      ((Value.json first :: rest.map .json).map Value.text) := by
    rw [List.map_cons, List.map_cons, List.map_map]
    rfl
  obtain ⟨lead, hcommonest, hleads⟩ :=
    exists_commonest (Value.json first).text ((rest.map Value.json).map Value.text)
  rw [← List.map_cons, ← htexts] at hleads
  refine ⟨lead, ?_, fun text => ⟨hleads.unique, fun heq => heq ▸ hleads⟩⟩
  show Aggregate.mode.ofValues (.json first) (rest.map .json) = _
  rw [← List.map_cons] at hcommonest
  simp only [Aggregate.ofValues, hcommonest]

/-- Three texts end level, and the mode is the one that is there twice before the others are. It is
the text of a number as well as of a string. -/
example : Aggregate.mode.apply
    (.ofItems [.str "a", .num (.int 1), .null, .str "1", .null, .str "a"]) = .ok (.ofText "1") := by
  rfl

end DocumentRules
