import DocumentRules.Proofs.Decimal.Rank
import DocumentRules.Proofs.Json.Ordered
import DocumentRules.Value.Equality
import Mathlib.Data.List.Perm.Subperm

/-!
# Strict equality is an equivalence

Strict equality is structural equality in which numbers are compared by what they are worth. So
there is one comparison of values for every comparison of numbers (`Json.eqBy`), and it is as good
as that one: an equivalence if that is an equivalence, and wider if that is wider. Numbers are never
NaN and have a rank, so comparing them by what they are worth is comparing ranks, and is wider than
telling integers and doubles apart.

Objects are compared place by place. That this finds the same as looking up the fields of the one in
the other is a matter of order and number: if no key stands twice, and each key of the first stands
in the second, which has no more, then the two have the same keys; and if both have them in order,
they have them at the same places (`Json.strictEq_obj_iff`). Objects of documents that are read have
them in order wherever they stand (`Json.strictEq_obj_iff_of_read?`).
-/

set_option autoImplicit false

namespace DocumentRules

/-! ## Numbers -/

namespace Number

/-- The same number of the same kind. -/
def same : Number → Number → Bool
  | .int m, .int n => m == n
  | .double x _, .double y _ => x == y
  | _, _ => false

/-- Numbers are worth the same if they stand at one place among the doubles. -/
theorem sameWorth_iff {m n : Number} :
    m.sameWorth n = true ↔ Double.rank? m.toFloat = Double.rank? n.toFloat := by
  obtain ⟨r, hr⟩ := Double.exists_rank m.isNaN_toFloat
  have hworth : m.sameWorth n = (m.toFloat == n.toFloat) := rfl
  rw [hworth, Double.beq_iff, hr]
  simp [eq_comm]

theorem sameWorth_refl (n : Number) : n.sameWorth n = true :=
  sameWorth_iff.mpr rfl

theorem sameWorth_symm (m n : Number) (h : m.sameWorth n = true) : n.sameWorth m = true :=
  sameWorth_iff.mpr (sameWorth_iff.mp h).symm

theorem sameWorth_trans (l m n : Number) (h : l.sameWorth m = true) (h' : m.sameWorth n = true) :
    l.sameWorth n = true :=
  sameWorth_iff.mpr ((sameWorth_iff.mp h).trans (sameWorth_iff.mp h'))

theorem sameWorth_of_same {m n : Number} (h : m.same n = true) : m.sameWorth n = true := by
  cases m with
  | int m =>
    cases n with
    | int n =>
      obtain rfl : m = n := beq_iff_eq.mp h
      exact sameWorth_refl (.int m)
    | double y hy => cases h
  | double x hx =>
    cases n with
    | int n => cases h
    | double y hy => exact h

end Number

/-! ## One comparison of values for each comparison of numbers -/

namespace Json

mutual

/-- Structural equality, with numbers compared as given. -/
def eqBy (same : Number → Number → Bool) : Json → Json → Bool
  | .null, .null => true
  | .bool p, .bool q => p == q
  | .num m, .num n => same m n
  | .str s, .str t => s == t
  | .arr vs, .arr ws => itemsEqBy same vs ws
  | .obj vs, .obj ws => fieldsEqBy same vs ws
  | _, _ => false
termination_by structural v => v

/-- The same number of items, equal in pairs. -/
def itemsEqBy (same : Number → Number → Bool) : List Json → List Json → Bool
  | [], [] => true
  | v :: vs, w :: ws => eqBy same v w && itemsEqBy same vs ws
  | _, _ => false
termination_by structural vs => vs

/-- The same keys, holding equal values. -/
def fieldsEqBy (same : Number → Number → Bool) :
    List (String × Json) → List (String × Json) → Bool
  | [], [] => true
  | (k, v) :: vs, (l, w) :: ws => k == l && eqBy same v w && fieldsEqBy same vs ws
  | _, _ => false
termination_by structural vs => vs

end

mutual

theorem strictEq_eq_eqBy : ∀ v w : Json, v.strictEq w = v.eqBy Number.sameWorth w
  | .arr vs, w => by
    cases w with
    | arr ws => exact itemsEq_eq_itemsEqBy vs ws
    | _ => rfl
  | .obj vs, w => by
    cases w with
    | obj ws => exact fieldsEq_eq_fieldsEqBy vs ws
    | _ => rfl
  | .null, w | .bool _, w | .num _, w | .str _, w => by cases w <;> rfl

theorem itemsEq_eq_itemsEqBy : ∀ vs ws : List Json,
    itemsEq vs ws = itemsEqBy Number.sameWorth vs ws
  | [], ws => by cases ws <;> rfl
  | v :: vs, [] => rfl
  | v :: vs, w :: ws => congrArg₂ (· && ·) (strictEq_eq_eqBy v w) (itemsEq_eq_itemsEqBy vs ws)

theorem fieldsEq_eq_fieldsEqBy : ∀ vs ws : List (String × Json),
    fieldsEq vs ws = fieldsEqBy Number.sameWorth vs ws
  | [], ws => by cases ws <;> rfl
  | (k, v) :: vs, [] => rfl
  | (k, v) :: vs, (l, w) :: ws =>
    congrArg₂ (· && ·) (congrArg (k == l && ·) (strictEq_eq_eqBy v w))
      (fieldsEq_eq_fieldsEqBy vs ws)

end

section Laws

variable {same : Number → Number → Bool}

theorem itemsEqBy_cons_iff {v w : Json} {vs ws : List Json} :
    itemsEqBy same (v :: vs) (w :: ws) = true ↔
      v.eqBy same w = true ∧ itemsEqBy same vs ws = true :=
  Bool.and_eq_true_iff

theorem fieldsEqBy_cons_iff {k l : String} {v w : Json} {vs ws : List (String × Json)} :
    fieldsEqBy same ((k, v) :: vs) ((l, w) :: ws) = true ↔
      k = l ∧ v.eqBy same w = true ∧ fieldsEqBy same vs ws = true := by
  have hfield : fieldsEqBy same ((k, v) :: vs) ((l, w) :: ws) =
      (k == l && v.eqBy same w && fieldsEqBy same vs ws) := rfl
  rw [hfield, Bool.and_eq_true_iff, Bool.and_eq_true_iff, beq_iff_eq, and_assoc]

mutual

theorem eqBy_refl (hrefl : ∀ n, same n n = true) : ∀ v : Json, v.eqBy same v = true
  | .null => rfl
  | .bool p => beq_self_eq_true p
  | .num n => hrefl n
  | .str s => beq_self_eq_true s
  | .arr vs => itemsEqBy_refl hrefl vs
  | .obj vs => fieldsEqBy_refl hrefl vs

theorem itemsEqBy_refl (hrefl : ∀ n, same n n = true) :
    ∀ vs : List Json, itemsEqBy same vs vs = true
  | [] => rfl
  | v :: vs => itemsEqBy_cons_iff.mpr ⟨eqBy_refl hrefl v, itemsEqBy_refl hrefl vs⟩

theorem fieldsEqBy_refl (hrefl : ∀ n, same n n = true) :
    ∀ vs : List (String × Json), fieldsEqBy same vs vs = true
  | [] => rfl
  | (_, v) :: vs => fieldsEqBy_cons_iff.mpr ⟨rfl, eqBy_refl hrefl v, fieldsEqBy_refl hrefl vs⟩

end

mutual

theorem eqBy_symm (hsymm : ∀ m n, same m n = true → same n m = true) :
    ∀ {v w : Json}, v.eqBy same w = true → w.eqBy same v = true
  | .null, .null, _ => rfl
  | .bool _, .bool _, h => BEq.symm h
  | .num m, .num n, h => hsymm m n h
  | .str _, .str _, h => BEq.symm h
  | .arr _, .arr _, h => itemsEqBy_symm hsymm h
  | .obj _, .obj _, h => fieldsEqBy_symm hsymm h

theorem itemsEqBy_symm (hsymm : ∀ m n, same m n = true → same n m = true) :
    ∀ {vs ws : List Json}, itemsEqBy same vs ws = true → itemsEqBy same ws vs = true
  | [], [], _ => rfl
  | _ :: _, _ :: _, h => by
    obtain ⟨hitem, hitems⟩ := itemsEqBy_cons_iff.mp h
    exact itemsEqBy_cons_iff.mpr ⟨eqBy_symm hsymm hitem, itemsEqBy_symm hsymm hitems⟩

theorem fieldsEqBy_symm (hsymm : ∀ m n, same m n = true → same n m = true) :
    ∀ {vs ws : List (String × Json)}, fieldsEqBy same vs ws = true → fieldsEqBy same ws vs = true
  | [], [], _ => rfl
  | (_, _) :: _, (_, _) :: _, h => by
    obtain ⟨hkey, hvalue, hfields⟩ := fieldsEqBy_cons_iff.mp h
    exact fieldsEqBy_cons_iff.mpr
      ⟨hkey.symm, eqBy_symm hsymm hvalue, fieldsEqBy_symm hsymm hfields⟩

end

mutual

/-- Two comparisons of numbers, one after the other, make a third. -/
theorem eqBy_trans {p q r : Number → Number → Bool}
    (htrans : ∀ l m n, p l m = true → q m n = true → r l n = true) :
    ∀ {u v w : Json}, u.eqBy p v = true → v.eqBy q w = true → u.eqBy r w = true
  | .null, .null, .null, _, _ => rfl
  | .bool _, .bool _, .bool _, h, h' => BEq.trans h h'
  | .num l, .num m, .num n, h, h' => htrans l m n h h'
  | .str _, .str _, .str _, h, h' => BEq.trans h h'
  | .arr _, .arr _, .arr _, h, h' => itemsEqBy_trans htrans h h'
  | .obj _, .obj _, .obj _, h, h' => fieldsEqBy_trans htrans h h'

theorem itemsEqBy_trans {p q r : Number → Number → Bool}
    (htrans : ∀ l m n, p l m = true → q m n = true → r l n = true) :
    ∀ {us vs ws : List Json}, itemsEqBy p us vs = true → itemsEqBy q vs ws = true →
      itemsEqBy r us ws = true
  | [], [], [], _, _ => rfl
  | _ :: _, _ :: _, _ :: _, h, h' => by
    obtain ⟨hitem, hitems⟩ := itemsEqBy_cons_iff.mp h
    obtain ⟨hitem', hitems'⟩ := itemsEqBy_cons_iff.mp h'
    exact itemsEqBy_cons_iff.mpr
      ⟨eqBy_trans htrans hitem hitem', itemsEqBy_trans htrans hitems hitems'⟩

theorem fieldsEqBy_trans {p q r : Number → Number → Bool}
    (htrans : ∀ l m n, p l m = true → q m n = true → r l n = true) :
    ∀ {us vs ws : List (String × Json)}, fieldsEqBy p us vs = true →
      fieldsEqBy q vs ws = true → fieldsEqBy r us ws = true
  | [], [], [], _, _ => rfl
  | (_, _) :: _, (_, _) :: _, (_, _) :: _, h, h' => by
    obtain ⟨hkey, hvalue, hfields⟩ := fieldsEqBy_cons_iff.mp h
    obtain ⟨hkey', hvalue', hfields'⟩ := fieldsEqBy_cons_iff.mp h'
    exact fieldsEqBy_cons_iff.mpr ⟨hkey.trans hkey', eqBy_trans htrans hvalue hvalue',
      fieldsEqBy_trans htrans hfields hfields'⟩

end

end Laws

/-! ## Strict equality -/

theorem strictEq_refl (v : Json) : v.strictEq v = true := by
  rw [strictEq_eq_eqBy]
  exact eqBy_refl Number.sameWorth_refl v

theorem strictEq_symm {v w : Json} (h : v.strictEq w = true) : w.strictEq v = true := by
  rw [strictEq_eq_eqBy] at h ⊢
  exact eqBy_symm Number.sameWorth_symm h

theorem strictEq_trans {u v w : Json} (h : u.strictEq v = true) (h' : v.strictEq w = true) :
    u.strictEq w = true := by
  rw [strictEq_eq_eqBy] at h h' ⊢
  exact eqBy_trans Number.sameWorth_trans h h'

theorem strictEq_of_same {v w : Json} (h : v.eqBy Number.same w = true) : v.strictEq w = true := by
  have hself : w.eqBy Number.sameWorth w = true := eqBy_refl Number.sameWorth_refl w
  have hnumbers : ∀ l m n : Number, l.same m = true → m.sameWorth n = true →
      l.sameWorth n = true := by
    intro l m n hsame hworth
    exact Number.sameWorth_trans l m n (Number.sameWorth_of_same hsame) hworth
  rw [strictEq_eq_eqBy]
  exact eqBy_trans hnumbers h hself

/-! ## Objects by their keys -/

theorem fieldsEq_cons_iff {k l : String} {v w : Json} {vs ws : List (String × Json)} :
    fieldsEq ((k, v) :: vs) ((l, w) :: ws) = true ↔
      k = l ∧ v.strictEq w = true ∧ fieldsEq vs ws = true := by
  rw [fieldsEq_eq_fieldsEqBy, fieldsEqBy_cons_iff, strictEq_eq_eqBy, fieldsEq_eq_fieldsEqBy]

/-- Every field of the first object is in the second, with an equal value. -/
def FoundIn (vs ws : List (String × Json)) : Prop :=
  ∀ k v, vs.lookup k = some v → ∃ w, ws.lookup k = some w ∧ v.strictEq w = true

theorem foundIn_of_fieldsEq : ∀ {vs ws : List (String × Json)}, fieldsEq vs ws = true →
    vs.length = ws.length ∧ FoundIn vs ws
  | [], [], _ => ⟨rfl, fun _ _ h => nomatch h⟩
  | (l, v) :: vs, (l', w) :: ws, h => by
    obtain ⟨rfl, hvalue, hrest⟩ := fieldsEq_cons_iff.mp h
    obtain ⟨hlength, hfound⟩ := foundIn_of_fieldsEq hrest
    refine ⟨congrArg (· + 1) hlength, fun k u hu => ?_⟩
    rw [List.lookup_cons] at hu ⊢
    cases hk : k == l with
    | true =>
      rw [hk, Option.some.injEq] at hu
      exact ⟨w, rfl, hu ▸ hvalue⟩
    | false =>
      rw [hk] at hu
      exact hfound k u hu

/-- With as many keys, all of which are found, and both in order, the keys are the same. -/
theorem keys_eq_of_foundIn {vs ws : List (String × Json)} (hvs : Table.Ordered vs)
    (hws : Table.Ordered ws) (hlength : vs.length = ws.length) (hfound : FoundIn vs ws) :
    Table.keys vs = Table.keys ws := by
  have hsubset : Table.keys vs ⊆ Table.keys ws := by
    intro k hk
    rw [Table.mem_keys_iff, Table.contains] at hk ⊢
    obtain ⟨v, hv⟩ := Option.isSome_iff_exists.mp hk
    obtain ⟨w, hw, -⟩ := hfound k v hv
    rw [hw]
    rfl
  have hnodup : (Table.keys vs).Nodup := hvs.imp fun hlt => hlt.ne
  have hperm : (Table.keys vs).Perm (Table.keys ws) := by
    refine (hnodup.subperm hsubset).perm_of_length_le ?_
    simp [Table.keys, hlength]
  exact hperm.eq_of_pairwise (fun k l _ _ hkl hlk => absurd hlk hkl.asymm) hvs hws

theorem fieldsEq_of_keys_eq : ∀ {vs ws : List (String × Json)}, Table.Ordered ws →
    Table.keys vs = Table.keys ws → FoundIn vs ws → fieldsEq vs ws = true
  | [], [], _, _, _ => rfl
  | (k, v) :: vs, (l, w) :: ws, hordered, hkeys, hfound => by
    obtain ⟨hkey, hrest⟩ := List.cons_eq_cons.mp hkeys
    obtain rfl : k = l := hkey
    obtain ⟨hfirst, hordered⟩ := List.pairwise_cons.mp hordered
    refine fieldsEq_cons_iff.mpr ⟨rfl, ?_, fieldsEq_of_keys_eq hordered hrest fun k' u hu => ?_⟩
    · obtain ⟨w', hw', hvalue⟩ := hfound k v List.lookup_cons_self
      rw [List.lookup_cons_self, Option.some.injEq] at hw'
      rwa [hw']
    · -- the key of the first field stands in front of the others and is none of them
      have hmem : k' ∈ Table.keys vs := by
        rw [Table.mem_keys_iff, Table.contains, hu]
        rfl
      have hne : (k' == k) = false := beq_eq_false_iff_ne.mpr (hfirst k' (hrest ▸ hmem)).ne'
      have hu' : ((k, v) :: vs).lookup k' = some u := by
        rw [List.lookup_cons, hne]
        exact hu
      obtain ⟨w', hw', hvalue⟩ := hfound k' u hu'
      rw [List.lookup_cons, hne] at hw'
      exact ⟨w', hw', hvalue⟩

theorem strictEq_obj_iff {vs ws : List (String × Json)} (hvs : Table.Ordered vs)
    (hws : Table.Ordered ws) :
    (obj vs).strictEq (obj ws) = true ↔ vs.length = ws.length ∧ FoundIn vs ws := by
  constructor
  · exact foundIn_of_fieldsEq
  · rintro ⟨hlength, hfound⟩
    exact fieldsEq_of_keys_eq hws (keys_eq_of_foundIn hvs hws hlength hfound) hfound

/-- Of any two objects that stand in documents that are read, strict equality finds what looking up
the fields would find. -/
theorem strictEq_obj_iff_of_read? {text text' : String} {doc doc' : Json} {path path' : List String}
    {vs ws : List (String × Json)} (hread : read? text = some doc)
    (hread' : read? text' = some doc') (hvs : doc.get? path = some (.obj vs))
    (hws : doc'.get? path' = some (.obj ws)) :
    (obj vs).strictEq (obj ws) = true ↔ vs.length = ws.length ∧ FoundIn vs ws :=
  strictEq_obj_iff ((ordered_of_read? hread).get? hvs).fields
    ((ordered_of_read? hread').get? hws).fields

end Json

namespace Value

/-- Structural equality of values, with numbers compared as given. -/
def eqBy (same : Number → Number → Bool) : Value → Value → Bool
  | .undefined, .undefined => true
  | .json v, .json w => v.eqBy same w
  | _, _ => false

/-- **Strict equality is an equivalence** on all values, nothing included, and holds
wherever structural equality does, which tells integers and doubles apart. Two objects with
their keys in order are equal exactly if they have the same number of fields and those of
the one are found in the other. -/
theorem strictEq_equivalence :
    Equivalence (fun a b : Value => a.strictEq b = true) ∧
      (∀ a b : Value, a.eqBy Number.same b = true → a.strictEq b = true) ∧
      ∀ vs ws : List (String × Json), Table.Ordered vs → Table.Ordered ws →
        ((json (.obj vs)).strictEq (.json (.obj ws)) = true ↔
          vs.length = ws.length ∧ Json.FoundIn vs ws) := by
  refine ⟨⟨?refl, ?symm, ?trans⟩, ?structural, fun vs ws hvs hws => Json.strictEq_obj_iff hvs hws⟩
  case refl =>
    intro a
    cases a with
    | undefined => rfl
    | json v => exact v.strictEq_refl
  case symm =>
    intro a b h
    cases a with
    | undefined => cases b with
      | undefined => rfl
      | json w => cases h
    | json v => cases b with
      | undefined => cases h
      | json w => exact Json.strictEq_symm h
  case trans =>
    intro a b c h h'
    cases b with
    | undefined =>
      cases a with
      | undefined => exact h'
      | json u => cases h
    | json v =>
      cases a with
      | undefined => cases h
      | json u => cases c with
        | undefined => cases h'
        | json w => exact Json.strictEq_trans h h'
  case structural =>
    intro a b h
    cases a with
    | undefined => cases b with
      | undefined => rfl
      | json w => cases h
    | json v => cases b with
      | undefined => cases h
      | json w => exact Json.strictEq_of_same h

/-- Two objects with the same fields, given in another order and in other numbers. -/
theorem givenInAnyOrder_found :
    let vs := Table.ofEntries [("b", .num (.double 1 rfl)), ("a", .null)]
    let ws := Table.ofEntries [("a", .null), ("b", .num (.int 1))]
    Table.Ordered vs ∧ Table.Ordered ws ∧ (json (.obj vs)).strictEq (.json (.obj ws)) = true ∧
      vs.length = ws.length ∧ Json.FoundIn vs ws := by
  intro vs ws
  have hvs : Table.Ordered vs := Table.ordered_ofEntries _
  have hws : Table.Ordered ws := Table.ordered_ofEntries _
  have hequal : (json (.obj vs)).strictEq (.json (.obj ws)) = true := by decide +kernel
  exact ⟨hvs, hws, hequal, (strictEq_equivalence.2.2 vs ws hvs hws).mp hequal⟩

end Value

end DocumentRules
