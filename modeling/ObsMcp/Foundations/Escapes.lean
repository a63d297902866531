import Mathlib.Data.List.DropRight

/-!
# Tokens with quotes and backslashes

`token` reads a text up to the first stop character that is neither quoted nor behind a backslash. A
backslash makes the next character literal, a quote begins a run that is literal up to the next
quote, and blanks at the two ends are removed unless they are literal.

`Spells` says that a text is read as some characters whatever stands behind it. Spelled texts may be
appended (`Spells.append`), a plain character and a character behind a backslash are spelled, and
`token_of_spells` is the token of a spelled text in front of the end or a stop.
-/

namespace ObsMcp.Foundations.Escapes

open List

/-! ### Tokens -/

/-- The blanks that are removed at the ends of a token. -/
def isBlank (c : Char) : Bool :=
  c == ' ' || c == '\n' || c == '\t' || c == '\r'

/-- A character that is read, and whether it is literal. -/
abbrev Marked := Char × Bool

/-- The characters up to the first stop, and the text from there on; the flag says that a quoted run
is open. -/
def scan (stop : Char → Bool) : Bool → List Char → List Marked × List Char
  | _, [] => ([], [])
  | true, c :: cs =>
    if c = '\'' then scan stop false cs
    else
      let later := scan stop true cs
      ((c, true) :: later.1, later.2)
  | false, ['\\'] => ([('\\', false)], [])
  | false, '\\' :: c :: cs =>
    let later := scan stop false cs
    ((c, true) :: later.1, later.2)
  | false, c :: cs =>
    if stop c then ([], c :: cs)
    else if c = '\'' then scan stop true cs
    else
      let later := scan stop false cs
      ((c, false) :: later.1, later.2)

/-- A blank that is not literal. -/
def isLoose (marked : Marked) : Bool :=
  !marked.2 && isBlank marked.1

/-- The token at the beginning of a text, and the text behind it. -/
def token (stop : Char → Bool) (text : List Char) : List Char × List Char :=
  let read := scan stop false (text.dropWhile isBlank)
  ((read.1.rdropWhile isLoose).map Prod.fst, read.2)

theorem length_scan_le (stop : Char → Bool) (quoted : Bool) (text : List Char) :
    (scan stop quoted text).2.length ≤ text.length := by
  fun_induction scan stop quoted text with
  | case1 => exact le_rfl
  | case2 _ ih => exact ih.trans (Nat.le_succ _)
  | case3 _ _ _ _ ih => exact ih.trans (Nat.le_succ _)
  | case4 => exact Nat.zero_le _
  | case5 _ _ _ ih => exact ih.trans ((Nat.le_succ _).trans (Nat.le_succ _))
  | case6 => exact le_rfl
  | case7 _ _ _ _ ih => exact ih.trans (Nat.le_succ _)
  | case8 _ _ _ _ _ _ _ ih => exact ih.trans (Nat.le_succ _)

/-- Nothing is added to what stands behind a token. -/
theorem length_token_le (stop : Char → Bool) (text : List Char) :
    (token stop text).2.length ≤ text.length :=
  (length_scan_le stop false _).trans (length_dropWhile_le _ _)

/-! ### Spelled texts -/

/-- A text that is read as the given characters, whatever stands behind it. -/
def Spells (stop : Char → Bool) (text : List Char) (marked : List Marked) : Prop :=
  ∀ rest, scan stop false (text ++ rest) =
    (marked ++ (scan stop false rest).1, (scan stop false rest).2)

/-- A character without a meaning of its own. -/
def Plain (stop : Char → Bool) (c : Char) : Prop :=
  c ≠ '\\' ∧ c ≠ '\'' ∧ stop c = false

variable {stop : Char → Bool} {c : Char} {text other rest : List Char} {marked more : List Marked}

theorem scan_plain (hplain : Plain stop c) (cs : List Char) :
    scan stop false (c :: cs) = ((c, false) :: (scan stop false cs).1, (scan stop false cs).2) := by
  obtain ⟨hbackslash, hquote, hstop⟩ := hplain
  rw [scan.eq_def]
  split
  · rename_i heq
    cases heq
  · exact absurd ‹false = true› Bool.false_ne_true
  · rename_i _ heq
    exact absurd (cons.inj heq).1 hbackslash
  · rename_i _ heq
    exact absurd (cons.inj heq).1 hbackslash
  · rename_i heq
    cases heq
    rw [hstop, if_neg Bool.false_ne_true, if_neg hquote]

theorem scan_stop (hstop : stop c = true) (hbackslash : c ≠ '\\') (cs : List Char) :
    scan stop false (c :: cs) = ([], c :: cs) := by
  rw [scan.eq_def]
  split
  · rename_i heq
    cases heq
  · exact absurd ‹false = true› Bool.false_ne_true
  · rename_i _ heq
    exact absurd (cons.inj heq).1 hbackslash
  · rename_i _ heq
    exact absurd (cons.inj heq).1 hbackslash
  · rename_i heq
    cases heq
    rw [if_pos hstop]

theorem spells_nil : Spells stop [] [] := fun _ ↦ rfl

theorem Spells.append (htext : Spells stop text marked) (hother : Spells stop other more) :
    Spells stop (text ++ other) (marked ++ more) := by
  intro rest
  rw [append_assoc, htext, hother, append_assoc]

theorem spells_plain (hplain : Plain stop c) : Spells stop [c] [(c, false)] :=
  fun rest ↦ scan_plain hplain rest

/-- A backslash makes the next character literal. -/
theorem spells_escaped (c : Char) : Spells stop ['\\', c] [(c, true)] := fun _ ↦ rfl

/-- A text of plain characters is read as it stands. -/
theorem spells_of_plain (hplain : ∀ c ∈ text, Plain stop c) :
    Spells stop text (text.map fun c ↦ (c, false)) := by
  induction text with
  | nil => exact spells_nil
  | cons c cs ih =>
    obtain ⟨hc, hcs⟩ := forall_mem_cons.mp hplain
    exact (spells_plain hc).append (ih hcs)

/-- A stop, or nothing, behind a token. -/
def Ends (stop : Char → Bool) (rest : List Char) : Prop :=
  ∀ c, rest.head? = some c → stop c = true ∧ c ≠ '\\'

theorem ends_nil : Ends stop [] := fun _ hnone ↦ nomatch hnone

theorem ends_cons (hstop : stop c = true) (hbackslash : c ≠ '\\') : Ends stop (c :: rest) := by
  intro other hother
  cases hother
  exact ⟨hstop, hbackslash⟩

theorem scan_of_ends (hends : Ends stop rest) : scan stop false rest = ([], rest) := by
  cases rest with
  | nil => rfl
  | cons c cs =>
    obtain ⟨hstop, hbackslash⟩ := hends c rfl
    exact scan_stop hstop hbackslash cs

/-- A spelled text in front of a stop or the end is a token, when its ends need no trimming. -/
theorem token_of_spells (hspells : Spells stop text marked) (hends : Ends stop rest)
    (hfirst : ∀ c, text.head? = some c → isBlank c = false)
    (hlast : ∀ last, marked.getLast? = some last → isLoose last = false)
    (hsome : text ≠ []) : token stop (text ++ rest) = (marked.map Prod.fst, rest) := by
  have hdrop : (text ++ rest).dropWhile isBlank = text ++ rest := by
    cases text with
    | nil => exact absurd rfl hsome
    | cons c cs => exact dropWhile_cons_of_neg (by rw [hfirst c rfl]; exact Bool.false_ne_true)
  have htrim : marked.rdropWhile isLoose = marked := by
    rw [rdropWhile_eq_self_iff]
    intro hne
    rw [hlast _ (getLast?_eq_some_getLast hne)]
    exact Bool.false_ne_true
  rw [token, hdrop, hspells, scan_of_ends hends, append_nil]
  simp only [htrim]

/-- A text of plain characters without blanks is a token as it stands. -/
theorem token_of_plain (hplain : ∀ c ∈ text, Plain stop c ∧ isBlank c = false)
    (hends : Ends stop rest) (hsome : text ≠ []) : token stop (text ++ rest) = (text, rest) := by
  rw [token_of_spells (spells_of_plain fun c hc ↦ (hplain c hc).1) hends
    (fun c hc ↦ (hplain c (mem_of_mem_head? hc)).2) ?_ hsome, map_map]
  · exact congrArg (·, rest) (map_id text)
  · intro last hlast
    rw [getLast?_map] at hlast
    obtain ⟨c, hc, rfl⟩ := Option.map_eq_some_iff.mp hlast
    exact (hplain c (mem_of_getLast? hc)).2

end ObsMcp.Foundations.Escapes
