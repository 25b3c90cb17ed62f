import DocumentRules.Proofs.Pointer.Overwrite

/-!
# Writes in either order

Two writes at paths apart do not get in each other's way. That they leave the same document in
either order is more than what is read after them: the fields of an object stand in an order, and a
field that is added finds its place in it whether the other one is there already or not
(`Table.put_comm`). The paths run together down to the container where they part. There each of the
two writes is one under a token of its own, whatever it goes on to do below it (`Json.setBelow`),
and two such writes commute.

A write that makes an array longer is left out. The position it fills depends on how long the array
is, and so on what was appended before.
-/

set_option autoImplicit false

namespace DocumentRules.Json

/-! ## Writes that make an array longer -/

/-- A write under `token` adds to an array: the token names the next position, or appends. -/
def Grows (parent : Json) (token : String) : Prop :=
  ∃ items, parent = .arr items ∧ (token = "-" ∨ token = toString items.length)

/-- A write at `path` adds to an array. -/
def GrowsAt (doc : Json) (path : List String) : Prop :=
  ∃ parent token found, path = parent ++ [token] ∧ doc.get? parent = some found ∧ found.Grows token

section Growing

variable {doc child : Json} {token : String}

theorem growsAt_concat {parent : List String} : doc.GrowsAt (parent ++ [token]) ↔
    ∃ found, doc.get? parent = some found ∧ found.Grows token := by
  constructor
  · intro h
    obtain ⟨parent', token', found, hpath, hget, hgrows⟩ := h
    obtain ⟨hparent, htoken⟩ := List.append_singleton_inj.mp hpath
    exact ⟨found, hparent ▸ hget, htoken ▸ hgrows⟩
  · intro h
    obtain ⟨found, hget, hgrows⟩ := h
    exact ⟨parent, token, found, rfl, hget, hgrows⟩

theorem growsAt_singleton : doc.GrowsAt [token] ↔ doc.Grows token := by
  rw [← List.nil_append [token], growsAt_concat]
  simp [get?]

theorem GrowsAt.of_child {path : List String} (hstep : doc.step? token = some child)
    (h : child.GrowsAt path) : doc.GrowsAt (token :: path) := by
  obtain ⟨parent, last, found, hpath, hget, hgrows⟩ := h
  refine ⟨token :: parent, last, found, by rw [hpath, List.cons_append], ?_, hgrows⟩
  rw [get?_cons, hstep]
  exact hget

/-- A token that leads to an item does not make the array longer. -/
theorem not_grows_of_step? (hstep : doc.step? token = some child) : ¬ doc.Grows token := by
  intro h
  obtain ⟨items, hdoc, hdash | hlast⟩ := h
  · rw [hdoc, hdash, step?, Pointer.index?_dash] at hstep
    cases hstep
  · rw [hdoc, hlast, step?_arr_toString, List.getElem?_eq_none (Nat.le_refl _)] at hstep
    cases hstep

theorem childSlot_of_not_grows (h : ¬ doc.Grows token) : doc.childSlot token = token :=
  childSlot_eq_self fun items hdoc hdash => h ⟨items, hdoc, .inl hdash⟩

/-- A write in an array that does not get longer sets an item that is there. -/
theorem setChild_arr_of_not_grows {items : List Json} {value parent : Json} {old : Option Json}
    (h : (Json.arr items).setChild token value = .ok (old, parent))
    (hgrows : ¬ (Json.arr items).Grows token) :
    ∃ i < items.length, token = toString i ∧ old = items[i]? ∧
      parent = .arr (items.set i value) := by
  obtain ⟨i, hi, hslot, hold, hparent⟩ := setChild_arr h
  rw [childSlot_of_not_grows hgrows] at hslot
  have hne : i ≠ items.length := by
    intro hlast
    exact hgrows ⟨items, rfl, .inr (hlast ▸ hslot)⟩
  have hlt : i < items.length := Nat.lt_of_le_of_ne hi hne
  exact ⟨i, hlt, hslot, hold, by rw [hparent, fill_of_lt hlt]⟩

end Growing

/-! ## Where the paths part -/

/-- Writes under two tokens may be made in either order. -/
theorem setChild_comm {doc afterA afterB v w : Json} {a b : String} {oldA oldB : Option Json}
    (hne : a ≠ b) (ha : doc.setChild a v = .ok (oldA, afterA))
    (hb : doc.setChild b w = .ok (oldB, afterB)) (hgrowsA : ¬ doc.Grows a)
    (hgrowsB : ¬ doc.Grows b) :
    ∃ both, afterA.setChild b w = .ok (oldB, both) ∧ afterB.setChild a v = .ok (oldA, both) := by
  cases doc with
  | obj fields =>
    simp only [setChild, Except.ok.injEq, Prod.mk.injEq] at ha hb
    obtain ⟨hoa, ha⟩ := ha
    obtain ⟨hob, hb⟩ := hb
    refine ⟨.obj (Table.put b w (Table.put a v fields)), ?_, ?_⟩
    · rw [← ha, setChild, Table.lookup_put_of_ne v fields hne.symm, hob]
    · rw [← hb, setChild, Table.lookup_put_of_ne w fields hne, hoa, Table.put_comm hne]
  | arr items =>
    obtain ⟨i, hi, hai, hoa, hafterA⟩ := setChild_arr_of_not_grows ha hgrowsA
    obtain ⟨j, hj, hbj, hob, hafterB⟩ := setChild_arr_of_not_grows hb hgrowsB
    have hij : i ≠ j := by
      intro hij
      exact hne (by rw [hai, hbj, hij])
    refine ⟨.arr ((items.set i v).set j w), ?_, ?_⟩
    · have hj' : j < (items.set i v).length := by simpa using hj
      rw [hafterA, hbj, setChild_toString (Nat.le_of_lt hj'), fill_of_lt hj', hob,
        List.getElem?_set_ne hij]
    · have hi' : i < (items.set j w).length := by simpa using hi
      rw [hafterB, hai, setChild_toString (Nat.le_of_lt hi'), fill_of_lt hi', hoa,
        List.getElem?_set_ne hij.symm, List.set_comm v w hij]
  | _ => simp [setChild] at ha

/-! ## A whole write, from its first token -/

/-- What the rest of a write makes of the child that its first token leads to. With no more tokens
the value takes the place of the child, which need not be there. -/
def setBelow (child : Option Json) (rest : List String) (value : Json) :
    Except WriteFault (Option Json × Json) :=
  match rest, child with
  | [], child => .ok (child, value)
  | _ :: _, none => .error .noParent
  | next :: rest, some child => child.set? (next :: rest) value

theorem set?_cons_eq_ok {doc after value : Json} {token : String} {rest : List String}
    {old : Option Json} : doc.set? (token :: rest) value = .ok (old, after) ↔
      ∃ new, setBelow (doc.step? token) rest value = .ok (old, new) ∧
        doc.setChild token new = .ok (doc.step? token, after) := by
  cases rest with
  | nil =>
    rw [set?]
    constructor
    · intro h
      have hold := old_of_setChild h
      rw [hold] at h ⊢
      exact ⟨value, rfl, h⟩
    · intro h
      obtain ⟨new, hbelow, hset⟩ := h
      simp only [setBelow, Except.ok.injEq, Prod.mk.injEq] at hbelow
      rw [← hbelow.1, hbelow.2]
      exact hset
  | cons next rest =>
    constructor
    · intro h
      obtain ⟨child, child', hstep, hset, hafter⟩ := set?_cons_cons h
      refine ⟨child', ?_, ?_⟩
      · rw [hstep]
        exact hset
      · rw [hstep, hafter, setChild_eq_replaceChild hstep]
    · intro h
      obtain ⟨new, hbelow, hset⟩ := h
      cases hstep : doc.step? token with
      | none =>
        rw [hstep] at hbelow
        cases hbelow
      | some child =>
        rw [hstep] at hbelow
        rw [setChild_eq_replaceChild hstep, Except.ok.injEq, Prod.mk.injEq] at hset
        rw [← hset.2]
        exact set?_of_step? (by simp) hstep hbelow

/-- The first token of a write makes no array longer, unless it is the last one too. -/
theorem not_grows_of_set? {doc after value : Json} {token : String} {rest : List String}
    {old : Option Json} (h : doc.set? (token :: rest) value = .ok (old, after))
    (hgrows : ¬ doc.GrowsAt (token :: rest)) : ¬ doc.Grows token := by
  cases rest with
  | nil =>
    rwa [growsAt_singleton] at hgrows
  | cons next rest =>
    obtain ⟨child, -, hstep, -⟩ := set?_cons_cons h
    exact not_grows_of_step? hstep

section Commute

variable {doc afterP afterQ v w : Json} {a b : String} {p q : List String}
  {oldP oldQ : Option Json}

/-- Two writes that part at the first token. -/
theorem set?_comm_of_ne (hne : a ≠ b) (hp : doc.set? (a :: p) v = .ok (oldP, afterP))
    (hq : doc.set? (b :: q) w = .ok (oldQ, afterQ)) (hgrowsA : ¬ doc.Grows a)
    (hgrowsB : ¬ doc.Grows b) :
    ∃ both, afterP.set? (b :: q) w = .ok (oldQ, both) ∧
      afterQ.set? (a :: p) v = .ok (oldP, both) := by
  obtain ⟨x, hx, hsetA⟩ := set?_cons_eq_ok.mp hp
  obtain ⟨y, hy, hsetB⟩ := set?_cons_eq_ok.mp hq
  obtain ⟨both, hA, hB⟩ := setChild_comm hne hsetA hsetB hgrowsA hgrowsB
  -- Neither write has changed the child that the other one goes down to.
  have hstepB : afterP.step? b = doc.step? b := by
    apply step?_setChild_of_ne hsetA
    rw [childSlot_of_not_grows hgrowsA]
    exact hne.symm
  have hstepA : afterQ.step? a = doc.step? a := by
    apply step?_setChild_of_ne hsetB
    rw [childSlot_of_not_grows hgrowsB]
    exact hne
  refine ⟨both, ?_, ?_⟩
  · rw [set?_cons_eq_ok, hstepB]
    exact ⟨y, hy, hA⟩
  · rw [set?_cons_eq_ok, hstepA]
    exact ⟨x, hx, hB⟩

/-- Two writes below one child that may be made in either order in the child. -/
theorem set?_comm_of_child {child childP childQ both : Json} (hpath : p ≠ []) (hpath' : q ≠ [])
    (hstep : doc.step? a = some child) (hP : childP.set? q w = .ok (oldQ, both))
    (hQ : childQ.set? p v = .ok (oldP, both)) :
    (doc.replaceChild a childP).set? (a :: q) w = .ok (oldQ, doc.replaceChild a both) ∧
      (doc.replaceChild a childQ).set? (a :: p) v = .ok (oldP, doc.replaceChild a both) := by
  constructor
  · rw [set?_of_step? hpath' (step?_replaceChild_self hstep) hP, replaceChild_replaceChild]
  · rw [set?_of_step? hpath (step?_replaceChild_self hstep) hQ, replaceChild_replaceChild]

end Commute

theorem set?_comm {p : List String} {v w : Json} {oldP oldQ : Option Json} :
    ∀ {q : List String} {doc afterP afterQ : Json}, Apart p q →
      doc.set? p v = .ok (oldP, afterP) → doc.set? q w = .ok (oldQ, afterQ) →
      ¬ doc.GrowsAt p → ¬ doc.GrowsAt q →
        ∃ both, afterP.set? q w = .ok (oldQ, both) ∧ afterQ.set? p v = .ok (oldP, both) := by
  induction p with
  | nil =>
    intro q doc afterP afterQ happart
    exact absurd happart (not_apart_nil_left q)
  | cons a p ih =>
    intro q doc afterP afterQ happart hp hq hgrowsP hgrowsQ
    cases q with
    | nil => exact absurd happart (not_apart_nil_right _)
    | cons b q =>
      by_cases hab : a = b
      · rw [← hab] at happart hq hgrowsQ ⊢
        have hbelow : Apart p q := apart_cons_iff.mp happart rfl
        cases p with
        | nil => exact absurd hbelow (not_apart_nil_left q)
        | cons nextP restP =>
          cases q with
          | nil => exact absurd hbelow (not_apart_nil_right _)
          | cons nextQ restQ =>
            obtain ⟨child, childP, hstep, hchildP, hafterP⟩ := set?_cons_cons hp
            obtain ⟨child', childQ, hstep', hchildQ, hafterQ⟩ := set?_cons_cons hq
            have hsame : child' = child := Option.some.inj (hstep'.symm.trans hstep)
            rw [hsame] at hchildQ
            obtain ⟨both, hP, hQ⟩ := ih hbelow hchildP hchildQ
              (fun h => hgrowsP (h.of_child hstep)) (fun h => hgrowsQ (h.of_child hstep))
            rw [hafterP, hafterQ]
            exact ⟨_, set?_comm_of_child (by simp) (by simp) hstep hP hQ⟩
      · exact set?_comm_of_ne hab hp hq (not_grows_of_set? hp hgrowsP)
          (not_grows_of_set? hq hgrowsQ)

/-! ## The write with its pointer errors -/

/-- **Writes at paths apart may be made in either order**, if neither makes an array longer: both go
through in both orders, they leave the same document, and each answers with the same old value. -/
theorem set_comm {doc afterP afterQ v w : Json} {p q : List String} {oldP oldQ : Option Json}
    (happart : Apart p q) (hp : doc.set p v = .ok (oldP, afterP))
    (hq : doc.set q w = .ok (oldQ, afterQ)) (hgrowsP : ¬ doc.GrowsAt p)
    (hgrowsQ : ¬ doc.GrowsAt q) :
    ∃ both, afterP.set q w = .ok (oldQ, both) ∧ afterQ.set p v = .ok (oldP, both) := by
  obtain ⟨both, hP, hQ⟩ := set?_comm happart (set?_of_set hp) (set?_of_set hq) hgrowsP hgrowsQ
  exact ⟨both, mapError_eq_ok.mpr hP, mapError_eq_ok.mpr hQ⟩

/-- Two fields are added below one item of an array, the one behind and the one before the field
that is there. -/
theorem addedFields_comm :
    let doc : Json := .arr [.obj [("m", .null)]]
    Apart ["0", "z"] ["0", "a"] ∧ ¬ doc.GrowsAt ["0", "z"] ∧ ¬ doc.GrowsAt ["0", "a"] ∧
      doc.set ["0", "z"] (.bool true) =
        .ok (none, .arr [.obj [("m", .null), ("z", .bool true)]]) ∧
      doc.set ["0", "a"] (.bool false) =
        .ok (none, .arr [.obj [("a", .bool false), ("m", .null)]]) ∧
      ∃ both,
        (Json.arr [.obj [("m", .null), ("z", .bool true)]]).set ["0", "a"] (.bool false) =
          .ok (none, both) ∧
        (Json.arr [.obj [("a", .bool false), ("m", .null)]]).set ["0", "z"] (.bool true) =
          .ok (none, both) := by
  intro doc
  have happart : Apart ["0", "z"] ["0", "a"] := by simp [Apart]
  have hgrows : ∀ token, ¬ doc.GrowsAt (["0"] ++ [token]) := by
    intro token h
    obtain ⟨found, hget, items, hfound, -⟩ := growsAt_concat.mp h
    rw [hfound] at hget
    cases hget
  have hz : doc.set ["0", "z"] (.bool true) =
      .ok (none, .arr [.obj [("m", .null), ("z", .bool true)]]) := rfl
  have ha : doc.set ["0", "a"] (.bool false) =
      .ok (none, .arr [.obj [("a", .bool false), ("m", .null)]]) := rfl
  exact ⟨happart, hgrows "z", hgrows "a", hz, ha, set_comm happart hz ha (hgrows "z") (hgrows "a")⟩

end DocumentRules.Json
