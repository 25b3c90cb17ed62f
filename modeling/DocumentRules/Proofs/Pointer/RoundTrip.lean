import DocumentRules.Proofs.Pointer.Segments

/-!
# Pointers and paths are two spellings of one thing

`Pointer.parse` reads a pointer and `Pointer.format` writes a path. Each undoes the other, as far as
it can. A pointer may leave its first slash out, and `format` always writes it; the empty pointer
and a lone slash are both the empty path, so the path of one empty token has no pointer of its own.
Nothing else is lost (`Pointer.parse_format_and_format_parse`).

The two directions meet in the components between the slashes. A token comes back from its component
whatever it is, while a component comes back from its token only if all its escapes are good and no
slash is in it, which is what validation and splitting at slashes see to.
-/

set_option autoImplicit false

namespace DocumentRules.Pointer

/-! ## Components -/

theorem replacePair_pair (digit replacement : Char) (rest : List Char) :
    replacePair digit replacement ('~' :: digit :: rest) =
      replacement :: replacePair digit replacement rest := by
  simp [replacePair]

theorem replacePair_cons {c : Char} (h : c ≠ '~') (digit replacement : Char) (rest : List Char) :
    replacePair digit replacement (c :: rest) = c :: replacePair digit replacement rest := by
  cases rest with
  | nil => simp [replacePair]
  | cons d rest => simp [replacePair, h]

/-- The pass for `~1` leaves `~0` alone, since no pair of its own begins with the `0`. -/
theorem unescapeChars_zero (rest : List Char) :
    unescapeChars ('~' :: '0' :: rest) = '~' :: unescapeChars rest := by
  have hfirst : replacePair '1' '/' ('~' :: '0' :: rest) =
      '~' :: '0' :: replacePair '1' '/' rest := by
    rw [replacePair, if_neg (by decide), replacePair_cons (by decide)]
  rw [unescapeChars, hfirst, replacePair_pair, unescapeChars]

theorem unescapeChars_one (rest : List Char) :
    unescapeChars ('~' :: '1' :: rest) = '/' :: unescapeChars rest := by
  rw [unescapeChars, replacePair_pair, replacePair_cons (by decide), unescapeChars]

theorem unescapeChars_cons {c : Char} (h : c ≠ '~') (rest : List Char) :
    unescapeChars (c :: rest) = c :: unescapeChars rest := by
  rw [unescapeChars, replacePair_cons h, replacePair_cons h, unescapeChars]

theorem escapeChars_tilde (cs : List Char) :
    escapeChars ('~' :: cs) = '~' :: '0' :: escapeChars cs := rfl

theorem escapeChars_slash (cs : List Char) :
    escapeChars ('/' :: cs) = '~' :: '1' :: escapeChars cs := rfl

theorem escapeChars_cons {c : Char} (htilde : c ≠ '~') (hslash : c ≠ '/') (cs : List Char) :
    escapeChars (c :: cs) = c :: escapeChars cs := by
  simp [escapeChars, escapeChar, htilde, hslash]

/-- A token comes back from its component. -/
theorem unescapeChars_escapeChars (cs : List Char) : unescapeChars (escapeChars cs) = cs := by
  induction cs with
  | nil => rfl
  | cons c cs ih =>
    by_cases htilde : c = '~'
    · rw [htilde, escapeChars_tilde, unescapeChars_zero, ih]
    · by_cases hslash : c = '/'
      · rw [hslash, escapeChars_slash, unescapeChars_one, ih]
      · rw [escapeChars_cons htilde hslash, unescapeChars_cons htilde, ih]

/-- A component comes back from its token, unless a `~` in it is no escape or a slash stands in it
unescaped. -/
theorem escapeChars_unescapeChars {cs : List Char} (hvalid : escapesValid cs = true)
    (hslash : '/' ∉ cs) : escapeChars (unescapeChars cs) = cs := by
  fun_induction escapesValid cs with
  | case1 => rfl
  | case2 rest ih =>
    have hrest : '/' ∉ rest := fun h => hslash (by simp [h])
    rw [unescapeChars_zero, escapeChars_tilde, ih hvalid hrest]
  | case3 rest ih =>
    have hrest : '/' ∉ rest := fun h => hslash (by simp [h])
    rw [unescapeChars_one, escapeChars_slash, ih hvalid hrest]
  | case4 c rest _ _ ih =>
    simp only [Bool.and_eq_true, bne_iff_ne] at hvalid
    have hc : c ≠ '/' := fun h => hslash (by simp [h])
    have hrest : '/' ∉ rest := fun h => hslash (by simp [h])
    rw [unescapeChars_cons hvalid.1, escapeChars_cons hvalid.1 hc, ih hvalid.2 hrest]

theorem escapesValid_escapeChars (cs : List Char) : escapesValid (escapeChars cs) = true := by
  induction cs with
  | nil => rfl
  | cons c cs ih =>
    by_cases htilde : c = '~'
    · rw [htilde, escapeChars_tilde]
      exact ih
    · by_cases hslash : c = '/'
      · rw [hslash, escapeChars_slash]
        exact ih
      · rw [escapeChars_cons htilde hslash]
        simp [escapesValid, htilde, ih]

theorem slash_not_mem_escapeChars (cs : List Char) : '/' ∉ escapeChars cs := by
  intro h
  obtain ⟨c, -, hc⟩ := List.mem_flatMap.mp h
  unfold escapeChar at hc
  split at hc
  · simp at hc
  · split at hc
    · simp at hc
    · next hslash => exact hslash (List.mem_singleton.mp hc).symm

/-! ## Components between slashes -/

theorem escapesValid_intercalate {parts : List (List Char)} (h : parts ≠ []) :
    escapesValid (['/'].intercalate parts) = parts.all escapesValid := by
  induction parts with
  | nil => exact absurd rfl h
  | cons part rest ih =>
    cases rest with
    | nil => simp
    | cons next rest =>
      rw [List.intercalate_cons_of_ne_nil (by simp), List.append_assoc, List.singleton_append,
        escapesValid_append_slash, ih (by simp), List.all_cons (l := next :: rest)]

theorem slash_not_mem_of_mem_splitOn {cs : List Char} :
    ∀ part ∈ cs.splitOn '/', '/' ∉ part := by
  induction cs with
  | nil => simp
  | cons c cs ih =>
    intro part hpart
    rw [List.splitOn_cons_eq_if_modifyHead] at hpart
    split at hpart
    · rcases List.mem_cons.mp hpart with rfl | hpart
      · simp
      · exact ih part hpart
    · next hc =>
      obtain ⟨first, rest, hparts⟩ := List.exists_cons_of_ne_nil (List.splitOn_ne_nil '/' cs)
      rw [hparts] at hpart ih
      rcases List.mem_cons.mp hpart with rfl | hpart
      · have hfirst := ih first List.mem_cons_self
        have hslash : '/' ≠ c := fun h => hc (by simp [← h])
        simp [hslash, hfirst]
      · exact ih part (List.mem_cons_of_mem _ hpart)

/-- Slashes between components and one before them are a slash before each. -/
theorem slash_cons_intercalate {parts : List (List Char)} (h : parts ≠ []) :
    '/' :: ['/'].intercalate parts = parts.flatMap ('/' :: ·) := by
  induction parts with
  | nil => exact absurd rfl h
  | cons part rest ih =>
    cases rest with
    | nil => simp
    | cons next rest =>
      rw [List.intercalate_cons_of_ne_nil (by simp), List.append_assoc, List.singleton_append,
        ih (by simp)]
      rfl

theorem toList_format {path : List String} (h : path ≠ []) :
    (format path).toList =
      '/' :: ['/'].intercalate (path.map fun token => escapeChars token.toList) := by
  rw [slash_cons_intercalate (by simpa using h), List.flatMap_map, format, String.toList_join,
    List.flatMap_map]
  simp [escape]

/-! ## There and back -/

theorem escapesValid_format (path : List String) : escapesValid (format path).toList = true := by
  by_cases h : path = []
  · rw [h]
    rfl
  · rw [toList_format h, ← List.nil_append ('/' :: _), escapesValid_append_slash,
      escapesValid_intercalate (by simpa using h)]
    simp [escapesValid, escapesValid_escapeChars]

/-- The tokens of the pointer of a path are the path, but for the path of one empty token. -/
theorem tokens_format (path : List String) :
    tokens (format path).toList = if path = [""] then [] else path := by
  by_cases hnil : path = []
  · rw [hnil]
    rfl
  have hsplit : (['/'].intercalate (path.map fun token => escapeChars token.toList)).splitOn '/' =
      path.map fun token => escapeChars token.toList := by
    refine List.splitOn_intercalate '/' ?_ (by simpa using hnil)
    intro part hpart
    obtain ⟨token, -, rfl⟩ := List.mem_map.mp hpart
    exact slash_not_mem_escapeChars token.toList
  rw [toList_format hnil, tokens, body]
  split
  · next htext =>
    -- Nothing behind the slash: there is one token, and its component is empty.
    rw [htext, List.splitOn_nil] at hsplit
    obtain ⟨token, rfl, htoken⟩ := List.map_eq_singleton_iff.mp hsplit.symm
    have hempty : token.toList = [] := by rw [← unescapeChars_escapeChars token.toList, htoken]; rfl
    rw [if_pos (by rw [String.toList_eq_nil_iff.mp hempty])]
  · next c rest htext =>
    have hne : path ≠ [""] := by
      intro hone
      rw [hone] at htext
      simp [escapeChars] at htext
    rw [← htext, hsplit, List.map_map, if_neg hne]
    simp [Function.comp_def, unescapeChars_escapeChars]

theorem escapesValid_body (cs : List Char) : escapesValid (body cs) = escapesValid cs := by
  unfold body
  split
  · rw [← List.nil_append ('/' :: _), escapesValid_append_slash]
    rfl
  · rfl

theorem slash_cons_body (cs : List Char) :
    '/' :: body cs = if cs.head? = some '/' then cs else '/' :: cs := by
  unfold body
  split
  · rfl
  · next hslash =>
    cases cs with
    | nil => rfl
    | cons c rest =>
      have hc : c ≠ '/' := fun h => hslash rest (by rw [h])
      simp [hc]

/-- The pointer of a pointer's tokens is the text behind its first slash, with a slash before it. -/
theorem toList_format_tokens {cs : List Char} (hvalid : escapesValid cs = true)
    (hbody : body cs ≠ []) : (format (tokens cs)).toList = '/' :: body cs := by
  obtain ⟨c, rest, htext⟩ := List.exists_cons_of_ne_nil hbody
  have htokens : tokens cs =
      ((body cs).splitOn '/').map fun part => String.ofList (unescapeChars part) := by
    rw [tokens, htext]
  have hparts : ∀ part ∈ (body cs).splitOn '/', escapeChars (unescapeChars part) = part := by
    intro part hpart
    have hall : ((body cs).splitOn '/').all escapesValid = true := by
      rw [← escapesValid_intercalate (List.splitOn_ne_nil '/' _), List.intercalate_splitOn,
        escapesValid_body]
      exact hvalid
    exact escapeChars_unescapeChars (List.all_eq_true.mp hall part hpart)
      (slash_not_mem_of_mem_splitOn part hpart)
  have hsame : (tokens cs).map (fun token => escapeChars token.toList) =
      (body cs).splitOn '/' := by
    rw [htokens, List.map_map]
    refine (List.map_congr_left fun part hpart => ?_).trans (List.map_id _)
    simpa using hparts part hpart
  rw [toList_format (by simp [htokens]), hsame, List.intercalate_splitOn]

/-- **Pointers and paths come back.** The pointer of a path is read as that path, unless it is too
long or the path is one empty token, which is read as no token at all. The path of a pointer, other
than the two that stand for the empty path, is written as that pointer with its first slash. -/
theorem parse_format_and_format_parse :
    (∀ path : List String, path.length ≤ 256 → (format path).utf8ByteSize ≤ 1024 →
      parse (format path) = .ok (if path = [""] then [] else path)) ∧
    ∀ (pointer : String) (path : List String), parse pointer = .ok path →
      pointer ≠ "" → pointer ≠ "/" →
        format path = if pointer.toList.head? = some '/' then pointer else "/" ++ pointer := by
  constructor
  · intro path hlength hsize
    have hread : (if path = [""] then [] else path).length ≤ maxPathLength := by
      split
      · exact Nat.zero_le _
      · exact hlength
    exact parse_eq_ok.mpr ⟨hsize, escapesValid_format path, hread, tokens_format path⟩
  · intro pointer path hparse hempty hroot
    obtain ⟨-, hescapes, -, rfl⟩ := parse_eq_ok.mp hparse
    have hbody : body pointer.toList ≠ [] := by
      intro h
      have hslash := slash_cons_body pointer.toList
      rw [h] at hslash
      split at hslash
      · exact hroot (String.toList_injective hslash.symm)
      · exact hempty (String.toList_eq_nil_iff.mp (List.cons.inj hslash).2.symm)
    apply String.toList_injective
    rw [toList_format_tokens hescapes hbody, slash_cons_body]
    split
    · rfl
    · simp

/-- The path `a~b`, the empty token, `/`, and the pointer of two tokens without its first slash. -/
theorem spelled_both_ways :
    parse (format ["a~b", "", "/"]) = .ok ["a~b", "", "/"] ∧ format ["a", "/~"] = "/a/~1~0" :=
  ⟨parse_format_and_format_parse.1 ["a~b", "", "/"] (by decide) (by decide),
    parse_format_and_format_parse.2 "a/~1~0" ["a", "/~"] (by rfl) (by decide) (by decide)⟩

end DocumentRules.Pointer
