import DocumentRules.Proofs.Pointer.RoundTrip

/-!
# Components are decoded in one pass

`Pointer.unescape` replaces twice, first all `~1` and then all `~0`, and each replacement goes over
the whole component. `Pointer.decode` is what a reader would do instead: it goes from left to right
once, takes an escape for what it stands for, and keeps any other character. The two are the same on
every text, those that validation refuses included (`Pointer.unescapeChars_eq_decode`).

What could set them apart is a `~` that is no escape. It stays where it is, and the first
replacement might leave a `0` behind it for the second one to find. It never does: the text behind
such a `~` begins with no `0`, and a replacement puts a slash in front or leaves the first character
alone (`head?_replacePair`).
-/

set_option autoImplicit false

namespace DocumentRules.Pointer

/-- The token that a component spells, read from left to right in one pass. A `~` that no `0` or `1`
follows stands for itself. -/
def decode : List Char → List Char
  | '~' :: '1' :: rest => '/' :: decode rest
  | '~' :: '0' :: rest => '~' :: decode rest
  | c :: rest => c :: decode rest
  | [] => []

/-- A replacement brings only its own replacement to the front. -/
theorem head?_replacePair {c digit replacement : Char} (hc : c ≠ replacement) {cs : List Char}
    (h : cs.head? ≠ some c) : (replacePair digit replacement cs).head? ≠ some c := by
  fun_cases replacePair digit replacement cs with
  | case1 => exact h
  | case2 d => exact h
  | case3 d e rest hpair =>
    rw [List.head?_cons]
    intro heq
    exact hc (Option.some.inj heq).symm
  | case4 d e rest hpair => exact h

/-- A `~` stays when the second character is not the digit of the pair. -/
theorem replacePair_tilde {digit : Char} (replacement : Char) {cs : List Char}
    (h : cs.head? ≠ some digit) :
    replacePair digit replacement ('~' :: cs) = '~' :: replacePair digit replacement cs := by
  cases cs with
  | nil => simp [replacePair]
  | cons d rest =>
    have hd : d ≠ digit := by simpa using h
    simp [replacePair, hd]

/-- A `~` that is no escape is kept by both replacements. -/
theorem unescapeChars_tilde {cs : List Char} (hone : cs.head? ≠ some '1')
    (hzero : cs.head? ≠ some '0') : unescapeChars ('~' :: cs) = '~' :: unescapeChars cs := by
  have hbehind : (replacePair '1' '/' cs).head? ≠ some '0' := head?_replacePair (by simp) hzero
  rw [unescapeChars, replacePair_tilde '/' hone, replacePair_tilde '~' hbehind, unescapeChars]

/-- Two replacements over the whole component are one pass from left to right. -/
theorem unescapeChars_eq_decode (cs : List Char) : unescapeChars cs = decode cs := by
  fun_induction decode cs with
  | case1 rest ih => rw [unescapeChars_one, ih]
  | case2 rest ih => rw [unescapeChars_zero, ih]
  | case3 c rest hone hzero ih =>
    rw [← ih]
    by_cases htilde : c = '~'
    · subst htilde
      apply unescapeChars_tilde
      · intro hhead
        obtain ⟨more, rfl⟩ := List.head?_eq_some_iff.mp hhead
        exact hone more rfl rfl
      · intro hhead
        obtain ⟨more, rfl⟩ := List.head?_eq_some_iff.mp hhead
        exact hzero more rfl rfl
    · exact unescapeChars_cons htilde rest
  | case4 => rfl

/-- **Components are decoded in one pass, and every token has a component.** The two replacements
are the one decoding on all texts. A token comes back from its component, whatever characters are in
it, and the component has no slash and is refused for nothing but its size. -/
theorem unescape_decodes_and_escape_spells :
    (∀ component : String, unescape component = String.ofList (decode component.toList)) ∧
      ∀ token : String, unescape (escape token) = token ∧ '/' ∉ (escape token).toList ∧
        validate (escape token) =
          if (escape token).utf8ByteSize ≤ 1024 then .ok () else .error .pointerTooLong := by
  constructor
  · intro component
    rw [unescape, unescapeChars_eq_decode]
  · intro token
    refine ⟨?_, ?_, ?_⟩
    · rw [unescape, escape, String.toList_ofList, unescapeChars_escapeChars, String.ofList_toList]
    · rw [escape, String.toList_ofList]
      exact slash_not_mem_escapeChars token.toList
    · have hvalid : escapesValid (escape token).toList = true := by
        rw [escape, String.toList_ofList]
        exact escapesValid_escapeChars token.toList
      unfold validate maxPointerSize
      rw [hvalid]
      by_cases hsize : (escape token).utf8ByteSize ≤ 1024
      · rw [if_neg (Nat.not_lt.mpr hsize), if_pos hsize, if_pos rfl]
      · rw [if_pos (Nat.lt_of_not_le hsize), if_neg hsize]

/-- A run of tildes before an escape, and an escape whose token looks like another escape. -/
example : decode "~~10~01~".toList = "~/0~1~".toList := by decide

end DocumentRules.Pointer
