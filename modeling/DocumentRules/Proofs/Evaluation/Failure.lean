import DocumentRules.Proofs.Documents
import DocumentRules.Proofs.Evaluation.History
import DocumentRules.Proofs.Evaluation.Invariant
import DocumentRules.Proofs.Evaluation.Opening
import DocumentRules.Proofs.Evaluation.Visibility

/-!
# What a run can fail with

The reasons for a fault are many, and most of them cannot arise in a run. A point may lack a trail,
but the points that a run makes are spelled. A document may be unknown, but the current one is
always one of those that there are. A rule without a path may have no point to work at, but only as
long as no rule has followed a path. Where the first rule has one, what is left is a value of the
wrong sort, a path whose own text is at fault or that leads above the root, and a place that cannot
be written (`Evaluator.fault_of_runTimes`).

The three facts are one invariant, `Invariant.grounded`, and the faults are part of it.
-/

set_option autoImplicit false

namespace DocumentRules

/-! ## The faults that are left -/

/-- What may be wrong with a path itself: its text, or how far up it leads. -/
def PointerError.OfPath (path : String) : PointerError → Prop
  | .invalidEscape pointer => pointer = path
  | .pointerTooLong | .pathTooLong | .aboveRoot => True
  | .notFound _ | .invalidIndex _ | .notContainer _ | .cycle _ => False

/-- What may be wrong with a write: its path, or the place that the path leads to. -/
def WriteFailure.OfPath (path : String) : WriteFailure → Prop
  | .place (.badPath path' cause) => path' = path ∧ cause.OfPath path
  | .place (.unknownDocument _) => False
  | .pointer (.notFound _) | .pointer (.invalidIndex _) | .pointer (.notContainer _) => True
  | .pointer _ => False

/-- A fault of a run that always has a point and a document to work in. -/
def Fault.OfRun : Fault → Prop
  | .domain (.cannotSet path cause) => cause.OfPath path
  | .domain (.unknownDocument _) => False
  | .domain _ => True
  | .badPath path cause => cause.OfPath path
  | _ => False

theorem Fault.OfValue.ofRun {fault : Fault} (h : fault.OfValue) : fault.OfRun := by
  cases fault with
  | domain about => cases about <;> first | exact trivial | exact h.elim
  | _ => exact h.elim

/-! ## Paths that cannot be followed -/

namespace Pointer

variable {path : String} {error : PointerError}

theorem error_of_parse (h : parse path = .error error) : error.OfPath path := by
  unfold parse at h
  rcases bind_eq_error.mp h with hvalidate | ⟨_, -, hrest⟩
  · unfold validate at hvalidate
    split at hvalidate
    · cases hvalidate
      trivial
    · split at hvalidate
      · cases hvalidate
      · cases hvalidate
        rfl
  · rcases bind_eq_error.mp hrest with hlength | ⟨_, -, hpure⟩
    · unfold validatePath at hlength
      split at hlength
      · cases hlength
        trivial
      · cases hlength
    · cases hpure

theorem error_of_walk {tokens : List String} :
    ∀ {above : List Point} {p : Point}, walk tokens above p = .error error →
      error = .aboveRoot := by
  induction tokens with
  | nil =>
    intro above p h
    cases h
  | cons token rest ih =>
    intro above p h
    unfold walk at h
    split at h
    · cases above with
      | nil =>
        cases h
        rfl
      | cons point above => exact ih h
    · exact ih h

theorem error_of_resolve {tokens : List String} {trail : List Point}
    (h : resolve tokens trail = .error error) : error = .aboveRoot := by
  unfold resolve at h
  split at h
  · exact error_of_walk h
  · exact error_of_walk h

end Pointer

namespace Session

variable {s : Session} {path : String}

theorem error_of_follow {trail : List Point} {fault : LocationFault}
    (hcurrent : s.documents.contains s.current = true) (h : s.follow path trail = .error fault) :
    ∃ cause, fault = .badPath path cause ∧ cause.OfPath path := by
  have hresolve : ∀ {tokens : List String} {trail : List Point} {document : String}
      {next : Point → Except LocationFault (String × Point)},
      (∀ point, next point = .ok (document, point)) →
      ((Pointer.resolve tokens trail).mapError (.badPath path) >>= next) = .error fault →
        ∃ cause, fault = .badPath path cause ∧ cause.OfPath path := by
    intro tokens trail document next hnext hfault
    rcases bind_eq_error.mp hfault with hfault | ⟨point, -, hpoint⟩
    · obtain ⟨error, herror, rfl⟩ := mapError_eq_error.mp hfault
      rw [Pointer.error_of_resolve herror]
      exact ⟨.aboveRoot, rfl, trivial⟩
    · rw [hnext] at hpoint
      cases hpoint
  unfold follow at h
  rcases bind_eq_error.mp h with hparse | ⟨tokens, hparse, hrest⟩
  · obtain ⟨error, herror, rfl⟩ := mapError_eq_error.mp hparse
    exact ⟨error, rfl, Pointer.error_of_parse herror⟩
  · -- The document is there: either it is the current one, or it has been found by its name.
    rw [namedDocument_eq (mapError_eq_ok.mp hparse)] at hrest
    cases hnamed : (Pointer.opening? path).filter s.documents.contains with
    | none =>
      simp only [hnamed, Option.map_none, hcurrent, if_true] at hrest
      exact hresolve (fun _ => rfl) hrest
    | some id =>
      have hid := (Option.filter_eq_some_iff.mp hnamed).2
      simp only [hnamed, Option.map_some, hid, if_true] at hrest
      exact hresolve (fun _ => rfl) hrest

theorem error_of_locate {point : Option Point} {fault : Fault}
    (hcurrent : s.documents.contains s.current = true)
    (hpoint : ∀ p, point = some p → p.Spelled) (h : s.locate path point = .error fault) :
    ∃ cause, fault = .badPath path cause ∧ cause.OfPath path := by
  obtain ⟨trail, htrail⟩ := exists_trailOf hpoint
  unfold locate at h
  rcases bind_eq_error.mp h with hfault | ⟨trail', htrail', hrest⟩
  · rw [htrail] at hfault
    cases hfault
  · rw [htrail] at htrail'
    cases htrail'
    rcases bind_eq_error.mp hrest with hfault | ⟨⟨document, target⟩, hfollow, hrest⟩
    · obtain ⟨fault', hfollow, rfl⟩ := mapError_eq_error.mp hfault
      obtain ⟨cause, rfl, hcause⟩ := error_of_follow hcurrent hfollow
      refine ⟨cause, ?_, hcause⟩
      cases cause with
      | cycle => exact hcause.elim
      | _ => rfl
    · have htarget := Session.spelled_of_follow (mapError_eq_ok.mp hfollow)
        (spelled_of_trailOf hpoint htrail)
      simp only [htarget.trail] at hrest
      cases hrest

theorem error_of_write {point : Point} {value : Json} {fault : Fault}
    (hcurrent : s.documents.contains s.current = true) (hpoint : point.Spelled)
    (h : s.write path point value = .error fault) :
    ∃ cause, fault = .domain (.cannotSet path cause) ∧ cause.OfPath path := by
  unfold write at h
  rw [hpoint.trail, mapError_ok] at h
  rcases bind_eq_error.mp h with hfault | ⟨_, htrail, hrest⟩
  · cases hfault
  cases htrail
  rcases bind_eq_error.mp hrest with hfault | ⟨⟨document, target⟩, hfollow, hrest⟩
  · obtain ⟨fault', hfollow, rfl⟩ := mapError_eq_error.mp hfault
    obtain ⟨cause, rfl, hcause⟩ := error_of_follow hcurrent hfollow
    exact ⟨_, rfl, rfl, hcause⟩
  · have hthere := contains_of_follow (mapError_eq_ok.mp hfollow)
    rw [Documents.contains_eq_isSome] at hthere
    obtain ⟨doc, hdoc⟩ := Option.isSome_iff_exists.mp hthere
    simp only [hdoc] at hrest
    rcases bind_eq_error.mp hrest with hfault | ⟨_, -, hpure⟩
    · obtain ⟨error, hset, rfl⟩ := mapError_eq_error.mp hfault
      obtain ⟨reason, -, rfl⟩ := mapError_eq_error.mp hset
      refine ⟨_, rfl, ?_⟩
      cases reason <;> trivial
    · cases hpure

end Session

/-! ## Runs with a point and a document -/

/-- The documents keep their names, the current one is among them, and there is a point. -/
def Invariant.grounded (start : Documents) : Invariant where
  sessions s := (∀ id, s.documents.contains id = start.contains id) ∧
    start.contains s.current = true
  points point := ∃ p, point = some p ∧ p.Spelled
  faults := Fault.OfRun

theorem Invariant.grounded_lawful (start : Documents) :
    (Invariant.grounded start).Lawful (fun _ => True) (fun _ => True) where
  restored hs ht := ⟨ht.1, hs.2⟩
  located := by
    rintro path _ s place - ⟨p, rfl, hp⟩ hs hplace
    have hspelled := Session.spelled_of_locate hplace fun q hq => by
      cases hq
      exact hp
    obtain ⟨doc, hdoc⟩ := Session.get?_of_locate hplace
    refine ⟨⟨place.point, rfl, hspelled⟩, hs.1, ?_⟩
    exact (hs.1 place.document).symm.trans (Documents.contains_of_get? hdoc)
  unlocated := by
    rintro path _ s fault - ⟨p, rfl, hp⟩ hs hfault
    obtain ⟨cause, rfl, hcause⟩ := Session.error_of_locate ((hs.1 _).trans hs.2)
      (fun q hq => by cases hq; exact hp) hfault
    exact hcause
  pointless := by
    rintro ⟨p, hp, -⟩
    cases hp
  trailless := by
    rintro _ fault ⟨p, hp, hspelled⟩ hfault
    cases hp
    rw [trailOf_some_eq_ok.mpr hspelled.trail] at hfault
    cases hfault
  carrying := by
    rintro _ ⟨p, hp, hspelled⟩ value
    cases hp
    exact ⟨_, rfl, hspelled.carrying value⟩
  descend := by
    rintro _ ⟨p, hp, hspelled⟩ key origin
    cases hp
    exact ⟨_, rfl, hspelled.descend key origin⟩
  written := by
    rintro path p s t value - - ⟨hnames, hcurrent⟩ hwrite
    obtain ⟨_, _, _, _, _, _, -, -, -, -, ht⟩ := Session.write_eq_ok.mp hwrite
    refine ⟨fun id => (Session.contains_of_write hwrite id).trans (hnames id), ?_⟩
    rw [ht]
    exact hcurrent
  unwritten := by
    rintro path _ s value fault - ⟨p, hp, hspelled⟩ hs hfault
    cases hp
    obtain ⟨cause, rfl, hcause⟩ := Session.error_of_write ((hs.1 _).trans hs.2) hspelled hfault
    exact hcause
  operator h := h.ofRun

theorem Session.follow_root (s : Session) (path : String) :
    s.follow path [.documentRoot] = s.follow path [] := by
  have hresolve : ∀ tokens, Pointer.resolve tokens [.documentRoot] = Pointer.resolve tokens [] :=
    fun _ => rfl
  unfold follow
  cases Pointer.parse path with
  | error error => rfl
  | ok tokens =>
    simp only [mapError_ok, bind, Except.bind]
    cases s.namedDocument path tokens with
    | none => simp only [hresolve]
    | some named => rfl

/-- A path leads to the same place from the root of a document and from no point at all. -/
theorem Session.locate_root (s : Session) (path : String) :
    s.locate path (some .documentRoot) = s.locate path none := by
  have hroot : trailOf (some .documentRoot) = .ok [.documentRoot] :=
    trailOf_some_eq_ok.mpr (show Point.documentRoot.Spelled from trivial).trail
  have hnone : trailOf none = .ok [] := rfl
  simp only [locate, hroot, hnone, bind, Except.bind, s.follow_root]

theorem Rule.run_root {rule : Rule} {path : String} (h : rule.path? = some path) (cascade : Value) :
    rule.run none cascade = rule.run (some .documentRoot) cascade := by
  have hreading : takeReading (some path) none cascade =
      takeReading (some path) (some .documentRoot) cascade := by
    funext s
    show (takeReading (some path) none cascade).on s =
      (takeReading (some path) (some .documentRoot) cascade).on s
    rw [takeReading_path_on, takeReading_path_on, s.locate_root]
  cases rule with
  | group operator rules => cases h
  | path own =>
    cases h
    simp only [Rule.run, hreading]
  | action own action =>
    cases h
    simp only [Rule.run, hreading]

/-- **What the runs of an evaluator can fail with**, if the first rule has a path: a value or a
write for which a domain fault stands, or a path that is refused or leads above the root. No
document is unknown in such a run, no point repeats the text of another one, and no rule lacks a
point, neither as a fault of its own nor as the cause of a failed write. -/
theorem Evaluator.fault_of_runTimes {rules : List Rule} {docs : List Json} {primary : Option String}
    {evaluator : Evaluator} (hnew : Evaluator.new rules docs primary = .ok evaluator)
    {first : Rule} {rest : List Rule} {path : String} (hrules : rules = first :: rest)
    (hpath : first.path? = some path) (runs : Nat) :
    ∀ step ∈ evaluator.runTimes runs, ∀ fault, step.1 = .error fault →
      ((∃ about, fault = .domain about) ∨
        ∃ path cause, fault = .badPath path cause ∧ (cause = .invalidEscape path ∨
          cause = .pointerTooLong ∨ cause = .pathTooLong ∨ cause = .aboveRoot)) ∧
      fault.OfRun := by
  obtain ⟨-, hown, -, -⟩ := Evaluator.new_eq_ok.mp hnew
  have hstart : Rule.runAll evaluator.rules ⟨.undefined, none⟩ =
      Rule.runAll evaluator.rules ⟨.undefined, some .documentRoot⟩ := by
    rw [hown, hrules, Rule.runAll, Rule.runAll, Rule.run_root hpath]
  intro step hstep fault hfault
  have hof : fault.OfRun := ((Invariant.grounded_lawful evaluator.documents).runTimes
    (Rule.allWithin_true _) ⟨.documentRoot, rfl, trivial⟩ hstart
    ⟨fun _ => rfl, Evaluator.contains_primary hnew⟩ runs step hstep).2 fault hfault
  refine ⟨?_, hof⟩
  cases fault with
  | domain about => exact .inl ⟨about, rfl⟩
  | badPath path cause =>
    refine .inr ⟨path, cause, rfl, ?_⟩
    cases cause with
    | invalidEscape pointer => exact .inl (congrArg _ hof)
    | pointerTooLong => exact .inr (.inl rfl)
    | pathTooLong => exact .inr (.inr (.inl rfl))
    | aboveRoot => exact .inr (.inr (.inr rfl))
    | _ => exact hof.elim
  | _ => exact hof.elim

/-- Goes to an array, and up too far from there in a group. -/
def Evaluator.climbing : Evaluator where
  rules := [.path "/xs", .group .and [.path "0", .path "../.."]]
  primary := "D"
  documents := ⟨"D", [("$vars", .obj []),
    ("D", .obj [("$id", .str "D"), ("xs", .arr [.ofInt 1])])]⟩

theorem Evaluator.climbing_fault :
    Evaluator.new Evaluator.climbing.rules
        [.obj [("$id", .str "D"), ("xs", .arr [.ofInt 1])]] none = .ok .climbing ∧
      (∃ rest, Evaluator.climbing.rules = .path "/xs" :: rest) ∧
      (Rule.path "/xs").path? = some "/xs" ∧
      Evaluator.climbing.run.1 = .error (.badPath "../.." .aboveRoot) ∧
      ∀ step ∈ Evaluator.climbing.runTimes 2, ∀ fault, step.1 = .error fault → fault.OfRun := by
  have hnew : Evaluator.new Evaluator.climbing.rules
      [.obj [("$id", .str "D"), ("xs", .arr [.ofInt 1])]] none = .ok .climbing := rfl
  refine ⟨hnew, ⟨_, rfl⟩, rfl, rfl, ?_⟩
  intro step hstep fault hfault
  exact (Evaluator.fault_of_runTimes hnew rfl rfl 2 step hstep fault hfault).2

end DocumentRules
