import ObsMcp.Foundations.Escapes
import ObsMcp.Trim.Evidence

/-!
# The path of an audio evidence file in a filter graph

The sampling command tells FFmpeg in the text of a filter graph where to write the silences of a
track. FFmpeg reads this text at two levels. At the graph level a name and its arguments are tokens
that end at a bracket, a comma or a semicolon; at the option level the arguments are keys with
values, and a value is a token that ends at a colon. Both levels have the quotes, backslashes and
blanks of `Escapes`.

`audioEvidenceFilterPath` escapes a path once for both. `escaped_spells` says that the graph level
reads an escaped path as the text `optionText`, and `optionText_spells` that the option level reads
this text as the path. `evidence_path_contained` follows the whole filter text.
-/

namespace ObsMcp.Media

open Foundations Escapes Trim List

/-! ### The filter text -/

/-- A character of a path, escaped for both levels. -/
def escapeChar (c : Char) : Except TrimError (List Char) :=
  match c with
  | '\\' => .ok ['\\', '\\', '\\', '\\']
  | '\'' => .ok ['\\', '\\', '\\', '\'']
  | ':' => .ok ['\\', '\\', ':']
  | ',' | '[' | ']' | ';' => .ok ['\\', c]
  | '\x00' | '\n' | '\r' =>
    .error ⟨.unsafePath, "Audio evidence path contains unsupported characters"⟩
  | _ => .ok [c]

/-- Escapes a path, which is absent when it is not UTF-8. -/
def audioEvidenceFilterPath (path : Option (List Char)) : Except TrimError (List Char) :=
  match path with
  | none => .error ⟨.unsafePath, "Audio evidence path is not UTF-8"⟩
  | some text => text.foldlM (fun escaped c ↦ (escapeChar c).map fun image ↦ escaped ++ image) []

/-- The text of a printed number. -/
structure NumberText where
  text : List Char
  printed : ∀ c ∈ text, c.isAlphanum = true ∨ c = '.' ∨ c = '-'

/-- The filters of the sampling command for one track. -/
def samplingFilter (minIdleSeconds : NumberText) (escaped : List Char) : List Char :=
  "ametadata=mode=delete,silencedetect=n=-50dB:d=".toList ++ minIdleSeconds.text ++
    ",ametadata=mode=print:file=".toList ++ escaped

/-! ### How FFmpeg reads it -/

/-- What ends the arguments of a filter. -/
def endsArguments (c : Char) : Bool :=
  c == '[' || c == ']' || c == ',' || c == ';'

/-- What ends the name of a filter. -/
def endsName (c : Char) : Bool :=
  c == '=' || c == ',' || c == ';' || c == '['

/-- What ends the value of an option. -/
def endsValue (c : Char) : Bool :=
  c == ':'

structure Filter where
  name : List Char
  arguments : List Char

/-- The filters of a chain, and the text behind it. -/
def filters (text : List Char) : List Filter × List Char :=
  let name := token endsName text
  match _hname : name.2 with
  | '=' :: rest =>
    let arguments := token endsArguments rest
    match _harguments : arguments.2 with
    | ',' :: more =>
      let later := filters more
      (⟨name.1, arguments.1⟩ :: later.1, later.2)
    | rest => ([⟨name.1, arguments.1⟩], rest)
  | ',' :: more =>
    let later := filters more
    (⟨name.1, []⟩ :: later.1, later.2)
  | rest => ([⟨name.1, []⟩], rest)
  termination_by text.length
  decreasing_by
    · have hfirst := length_token_le endsName text
      have hsecond := length_token_le endsArguments rest
      rw [_hname, length_cons] at hfirst
      rw [_harguments, length_cons] at hsecond
      omega
    · have hfirst := length_token_le endsName text
      rw [_hname, length_cons] at hfirst
      omega

/-- The options of a filter, when its arguments are keys with values. -/
def options (text : List Char) : Option (List (List Char × List Char)) :=
  match _hkey : text.dropWhile (· != '=') with
  | '=' :: rest =>
    let value := token endsValue rest
    match _hvalue : value.2 with
    | [] => some [(text.takeWhile (· != '='), value.1)]
    | _ :: more => (options more).map ((text.takeWhile (· != '='), value.1) :: ·)
  | _ => none
  termination_by text.length
  decreasing_by
    have hdrop := length_dropWhile_le (· != '=') text
    have htoken := length_token_le endsValue rest
    rw [_hkey, length_cons] at hdrop
    rw [_hvalue, length_cons] at htoken
    omega

/-! ### The two levels -/

/-- The path as the option level is given it. -/
def optionText (path : List Char) : List Char :=
  path.flatMap fun c ↦ if c = '\\' ∨ c = '\'' ∨ c = ':' then ['\\', c] else [c]

/-- A path without the characters that are refused. -/
def Supported (path : List Char) : Prop :=
  ∀ c ∈ path, c ≠ '\x00' ∧ c ≠ '\n' ∧ c ≠ '\r'

variable {c : Char} {path escaped image : List Char} {seconds : NumberText}

/-- Marked characters that are a text and end like another. -/
structure Marks (marked : List Marked) (text source : List Char) : Prop where
  text : marked.map Prod.fst = text
  last : marked.getLast?.map Prod.fst = source.getLast?

variable {key text value : List Char} {marked : List Marked} {name source : List Char}

theorem Marks.append {more : List Marked} {other next : List Char}
    (hmarked : Marks marked text source) (hmore : Marks more other next) (hsome : next ≠ []) :
    Marks (marked ++ more) (text ++ other) (source ++ next) := by
  have hlast := hmore.last
  obtain ⟨last, hnext⟩ := Option.isSome_iff_exists.mp (getLast?_isSome.mpr hsome)
  rw [hnext] at hlast
  obtain ⟨mark, hmark, hfst⟩ := Option.map_eq_some_iff.mp hlast
  refine ⟨by rw [map_append, hmarked.text, hmore.text], ?_⟩
  rw [getLast?_append, getLast?_append, hmark, hnext]
  exact congrArg some hfst

theorem marks_plain (text : List Char) : Marks (text.map fun c ↦ (c, false)) text text := by
  constructor
  · rw [map_map]
    exact map_id text
  · rw [getLast?_map, Option.map_map]
    exact Option.map_id'

/-- What the graph level reads an escaped character as. -/
theorem escapeChar_spells (hescape : escapeChar c = .ok image) :
    ∃ marked, Spells endsArguments image marked ∧ Marks marked (optionText [c]) [c] := by
  rw [escapeChar.eq_def] at hescape
  split at hescape <;> try cases hescape
  · exact ⟨_, (spells_escaped '\\').append (spells_escaped '\\'), rfl, rfl⟩
  · exact ⟨_, (spells_escaped '\\').append (spells_escaped '\''), rfl, rfl⟩
  · exact ⟨_, (spells_escaped '\\').append (spells_plain ⟨by decide, by decide, rfl⟩), rfl, rfl⟩
  · exact ⟨_, spells_escaped ',', rfl, rfl⟩
  · exact ⟨_, spells_escaped '[', rfl, rfl⟩
  · exact ⟨_, spells_escaped ']', rfl, rfl⟩
  · exact ⟨_, spells_escaped ';', rfl, rfl⟩
  · rename_i hbackslash hquote hcolon hcomma hopen hclose hsemicolon _ _ _
    have hstop : endsArguments c = false := by
      simp only [endsArguments, Bool.or_eq_false_iff, beq_eq_false_iff_ne, ne_eq]
      exact ⟨⟨⟨hopen, hclose⟩, hcomma⟩, hsemicolon⟩
    refine ⟨_, spells_plain ⟨hbackslash, hquote, hstop⟩, ?_, rfl⟩
    simp only [optionText, flatMap_singleton]
    rw [if_neg (by simp only [not_or]; exact ⟨hbackslash, hquote, hcolon⟩)]
    rfl

/-- What the option level reads the text of a character as. -/
theorem optionText_char_spells (c : Char) :
    ∃ marked, Spells endsValue (optionText [c]) marked ∧ Marks marked [c] [c] := by
  simp only [optionText, flatMap_singleton]
  split_ifs with hspecial
  · exact ⟨_, spells_escaped c, rfl, rfl⟩
  · simp only [not_or] at hspecial
    refine ⟨_, spells_plain ⟨hspecial.1, hspecial.2.1, ?_⟩, rfl, rfl⟩
    simpa [endsValue] using hspecial.2.2

/-- The option level reads the text of a path as the path. -/
theorem optionText_spells (path : List Char) :
    ∃ marked, Spells endsValue (optionText path) marked ∧ Marks marked path path := by
  induction path using List.reverseRecOn with
  | nil => exact ⟨[], spells_nil, rfl, rfl⟩
  | append_singleton path c ih =>
    obtain ⟨marked, hspells, hmarks⟩ := ih
    obtain ⟨more, hchar, hmore⟩ := optionText_char_spells c
    refine ⟨marked ++ more, ?_, hmarks.append hmore (cons_ne_nil _ _)⟩
    rw [optionText, flatMap_append]
    exact hspells.append hchar

/-- One character more of a path. -/
theorem filterPath_append (path : List Char) (c : Char) :
    audioEvidenceFilterPath (some (path ++ [c])) =
      (audioEvidenceFilterPath (some path)).bind fun escaped ↦
        (escapeChar c).map fun image ↦ escaped ++ image := by
  rw [audioEvidenceFilterPath, foldlM_append]
  show (audioEvidenceFilterPath (some path)).bind _ = _
  refine congrArg _ (funext fun escaped ↦ ?_)
  rw [foldlM_cons]
  cases escapeChar c <;> rfl

/-- The graph level reads an escaped path as the text of the path. -/
theorem escaped_spells (hescape : audioEvidenceFilterPath (some path) = .ok escaped) :
    ∃ marked, Spells endsArguments escaped marked ∧ Marks marked (optionText path) path := by
  induction path using List.reverseRecOn generalizing escaped with
  | nil =>
    cases hescape
    exact ⟨[], spells_nil, rfl, rfl⟩
  | append_singleton path c ih =>
    rw [filterPath_append] at hescape
    obtain ⟨before, hbefore, hmap⟩ := bind_eq_ok_iff.mp hescape
    obtain ⟨image, himage, rfl⟩ := map_eq_ok_iff.mp hmap
    obtain ⟨marked, hspells, hmarks⟩ := ih hbefore
    obtain ⟨more, hchar, hmore⟩ := escapeChar_spells himage
    refine ⟨marked ++ more, hspells.append hchar, ?_⟩
    rw [optionText, flatMap_append]
    exact hmarks.append hmore (cons_ne_nil _ _)

/-- A character is escaped unless it is refused. -/
theorem escapeChar_ok_iff :
    (∃ image, escapeChar c = .ok image) ↔ c ≠ '\x00' ∧ c ≠ '\n' ∧ c ≠ '\r' := by
  rw [escapeChar.eq_def]
  split <;> simp_all

/-- A path is escaped when all of its characters are. -/
theorem filterPath_ok_iff (path : List Char) :
    (∃ escaped, audioEvidenceFilterPath (some path) = .ok escaped) ↔ Supported path := by
  induction path using List.reverseRecOn with
  | nil => exact ⟨fun _ _ hc ↦ absurd hc not_mem_nil, fun _ ↦ ⟨[], rfl⟩⟩
  | append_singleton path c ih =>
    have hsplit : Supported (path ++ [c]) ↔ Supported path ∧ c ≠ '\x00' ∧ c ≠ '\n' ∧ c ≠ '\r' := by
      simp only [Supported, forall_mem_append, forall_mem_singleton]
    rw [hsplit, ← ih, ← escapeChar_ok_iff, filterPath_append]
    constructor
    · rintro ⟨escaped, hescape⟩
      obtain ⟨before, hbefore, hmap⟩ := bind_eq_ok_iff.mp hescape
      obtain ⟨image, himage, -⟩ := map_eq_ok_iff.mp hmap
      exact ⟨⟨before, hbefore⟩, image, himage⟩
    · rintro ⟨⟨before, hbefore⟩, image, himage⟩
      exact ⟨before ++ image, by rw [hbefore, himage]; rfl⟩

/-! ### The whole filter text -/

section

variable (hname : ∀ c ∈ name, Plain endsName c ∧ isBlank c = false) (hsome : name ≠ [])
include hname hsome

/-- A filter in front of others. -/
theorem filters_next {more : List Char} (hvalue : token endsArguments text = (value, ',' :: more)) :
    filters (name ++ '=' :: text) =
      (⟨name, value⟩ :: (filters more).1, (filters more).2) := by
  rw [filters, token_of_plain hname (ends_cons rfl (by decide)) hsome]
  simp only
  split
  · rename_i others hothers
    rw [hvalue] at hothers ⊢
    obtain rfl := (List.cons.inj hothers).2
    rfl
  · rename_i hnone
    exact absurd (congrArg Prod.snd hvalue) (hnone more)

/-- The last filter of a text. -/
theorem filters_last (hvalue : token endsArguments text = (value, [])) :
    filters (name ++ '=' :: text) = ([⟨name, value⟩], []) := by
  rw [filters, token_of_plain hname (ends_cons rfl (by decide)) hsome]
  simp only
  split
  · rename_i others hothers
    rw [hvalue] at hothers
    cases hothers
  · rw [hvalue]

end

/-- What stands before and behind the first equals sign. -/
theorem split_key (text : List Char) (hkey : ∀ c ∈ key, (c != '=') = true) :
    (key ++ '=' :: text).takeWhile (· != '=') = key ∧
      (key ++ '=' :: text).dropWhile (· != '=') = '=' :: text := by
  rw [takeWhile_append_of_pos hkey, dropWhile_append_of_pos hkey]
  exact ⟨append_nil key, rfl⟩

/-- An option in front of others. -/
theorem options_next {more : List Char} (hkey : ∀ c ∈ key, (c != '=') = true)
    (hvalue : token endsValue text = (value, c :: more)) :
    options (key ++ '=' :: text) = (options more).map ((key, value) :: ·) := by
  obtain ⟨htake, hdrop⟩ := split_key text hkey
  rw [options, htake]
  split
  · rename_i rest hrest
    obtain rfl := (List.cons.inj (hdrop.symm.trans hrest)).2
    dsimp only
    split
    · rename_i hnone
      rw [hvalue] at hnone
      cases hnone
    · rename_i others hothers
      rw [hvalue] at hothers ⊢
      obtain rfl := (List.cons.inj hothers).2
      rfl
  · rename_i hnone
    exact absurd hdrop (hnone text)

/-- The last option of the arguments. -/
theorem options_last (hkey : ∀ c ∈ key, (c != '=') = true)
    (hvalue : token endsValue text = (value, [])) :
    options (key ++ '=' :: text) = some [(key, value)] := by
  obtain ⟨htake, hdrop⟩ := split_key text hkey
  rw [options, htake]
  split
  · rename_i rest hrest
    obtain rfl := (List.cons.inj (hdrop.symm.trans hrest)).2
    dsimp only
    split
    · rw [hvalue]
    · rename_i others hothers
      rw [hvalue] at hothers
      cases hothers
  · rename_i hnone
    exact absurd hdrop (hnone text)

local instance decidableForall (chars : List Char) (p : Char → Prop) [DecidablePred p] :
    Decidable (∀ c ∈ chars, p c) :=
  List.decidableBAll p chars

/-- A printed number is plain at the graph level. -/
theorem NumberText.plain (seconds : NumberText) :
    ∀ c ∈ seconds.text, Plain endsArguments c ∧ isBlank c = false := by
  intro c hc
  have hnot : ∀ other ∈ ['\\', '\'', '[', ']', ',', ';', ' ', '\n', '\t', '\r'], c ≠ other := by
    have hother : ∀ other ∈ ['\\', '\'', '[', ']', ',', ';', ' ', '\n', '\t', '\r'],
        other.isAlphanum = false ∧ other ≠ '.' ∧ other ≠ '-' := by decide
    rintro other hmem rfl
    obtain ⟨halnum, hdot, hdash⟩ := hother c hmem
    rcases seconds.printed c hc with hprinted | hprinted | hprinted
    · rw [halnum] at hprinted
      exact Bool.false_ne_true hprinted
    · exact hdot hprinted
    · exact hdash hprinted
  simp only [forall_mem_cons] at hnot
  obtain ⟨hbackslash, hquote, hopen, hclose, hcomma, hsemicolon, hspace, hfeed, htab, hreturn, -⟩ :=
    hnot
  refine ⟨⟨hbackslash, hquote, ?_⟩, ?_⟩
  · simp only [endsArguments, Bool.or_eq_false_iff, beq_eq_false_iff_ne, ne_eq]
    exact ⟨⟨⟨hopen, hclose⟩, hcomma⟩, hsemicolon⟩
  · simp only [isBlank, Bool.or_eq_false_iff, beq_eq_false_iff_ne, ne_eq]
    exact ⟨⟨⟨hspace, hfeed⟩, htab⟩, hreturn⟩

instance (stop : Char → Bool) (c : Char) : Decidable (Plain stop c) :=
  inferInstanceAs (Decidable (c ≠ '\\' ∧ c ≠ '\'' ∧ stop c = false))

/-- A text with a nonblank end is not trimmed at its end. -/
theorem Marks.tight (hmarks : Marks marked text source)
    (hend : ∀ c, source.getLast? = some c → isBlank c = false) :
    ∀ last, marked.getLast? = some last → isLoose last = false := by
  intro last hlast
  have hsource := hmarks.last
  rw [hlast] at hsource
  rw [isLoose, hend _ hsource.symm, Bool.and_false]

/-- The graph level reads the arguments with an escaped path as one token. -/
theorem arguments_contained (hsome : path ≠ [])
    (hend : ∀ c, path.getLast? = some c → isBlank c = false)
    (hescape : audioEvidenceFilterPath (some path) = .ok escaped) :
    token endsArguments ("mode=print:file=".toList ++ escaped) =
      ("mode=print:file=".toList ++ optionText path, []) := by
  obtain ⟨marked, hspells, hmarks⟩ := escaped_spells hescape
  have hfront : Spells endsArguments "mode=print:file=".toList _ := spells_of_plain (by decide)
  have hwhole := (marks_plain "mode=print:file=".toList).append hmarks hsome
  have htight : ∀ c, ("mode=print:file=".toList ++ path).getLast? = some c → isBlank c = false := by
    intro c hc
    obtain ⟨last, hlast⟩ := Option.isSome_iff_exists.mp (getLast?_isSome.mpr hsome)
    rw [getLast?_append, hlast] at hc
    exact hend c (hlast.trans hc)
  have hfirst : ∀ c, ("mode=print:file=".toList ++ escaped).head? = some c → isBlank c = false := by
    intro c hc
    cases hc
    rfl
  have htoken := token_of_spells (hfront.append hspells) ends_nil hfirst (hwhole.tight htight)
    (cons_ne_nil _ _)
  rw [append_nil, hwhole.text] at htoken
  exact htoken

/-- The option level reads the whole text of a path as the value of its option. -/
theorem value_contained (habsolute : path.head? = some '/')
    (hend : ∀ c, path.getLast? = some c → isBlank c = false) :
    options ("mode=print:file=".toList ++ optionText path) =
      some [("mode".toList, "print".toList), ("file".toList, path)] := by
  obtain ⟨marked, hspells, hmarks⟩ := optionText_spells path
  obtain ⟨tail, rfl⟩ : ∃ tail, path = '/' :: tail := by
    cases path with
    | nil => cases habsolute
    | cons c tail => exact ⟨tail, by rw [Option.some.inj habsolute]⟩
  have hvalue : token endsValue (optionText ('/' :: tail)) = ('/' :: tail, []) := by
    have htoken := token_of_spells hspells ends_nil
      (fun c hc ↦ by obtain rfl := Option.some.inj hc; rfl) (hmarks.tight hend)
      (cons_ne_nil _ _)
    rw [append_nil, hmarks.text] at htoken
    exact htoken
  have hmode : token endsValue ("print:file=".toList ++ optionText ('/' :: tail)) =
      ("print".toList, ':' :: ("file=".toList ++ optionText ('/' :: tail))) :=
    token_of_plain (show ∀ c ∈ "print".toList, _ by decide) (ends_cons rfl (by decide)) (by decide)
  have hlast : options ("file".toList ++ '=' :: optionText ('/' :: tail)) = _ :=
    options_last (by decide) hvalue
  have hnext : options ("mode".toList ++
      '=' :: ("print:file=".toList ++ optionText ('/' :: tail))) = _ :=
    options_next (by decide) hmode
  have hrest : options ("file=".toList ++ optionText ('/' :: tail)) = _ := hlast
  rw [hrest] at hnext
  exact hnext

/-- The arguments in front of the printed number, and the number, are one token. -/
theorem token_detect (seconds : NumberText) (more : List Char) :
    token endsArguments ("n=-50dB:d=".toList ++ seconds.text ++ ',' :: more) =
      ("n=-50dB:d=".toList ++ seconds.text, ',' :: more) := by
  have hplain : ∀ c ∈ "n=-50dB:d=".toList, Plain endsArguments c ∧ isBlank c = false := by decide
  refine token_of_plain (fun c hc ↦ ?_) (ends_cons rfl (by decide)) (cons_ne_nil _ _)
  rcases mem_append.mp hc with hc | hc
  · exact hplain c hc
  · exact seconds.plain c hc

theorem samplingFilter_eq (seconds : NumberText) (escaped : List Char) :
    samplingFilter seconds escaped =
      "ametadata".toList ++ '=' :: ("mode=delete".toList ++ ',' :: ("silencedetect".toList ++
        '=' :: ("n=-50dB:d=".toList ++ seconds.text ++
          ',' :: ("ametadata".toList ++ '=' :: ("mode=print:file=".toList ++ escaped))))) := by
  unfold samplingFilter
  simp

/-- The filters of the sampling command, when the last arguments are one token. -/
theorem filters_sampling
    (hvalue : token endsArguments ("mode=print:file=".toList ++ escaped) = (value, [])) :
    filters (samplingFilter seconds escaped) =
      ([⟨"ametadata".toList, "mode=delete".toList⟩,
        ⟨"silencedetect".toList, "n=-50dB:d=".toList ++ seconds.text⟩,
        ⟨"ametadata".toList, value⟩], []) := by
  let print := "ametadata".toList ++ '=' :: ("mode=print:file=".toList ++ escaped)
  let detect := "silencedetect".toList ++
    '=' :: ("n=-50dB:d=".toList ++ seconds.text ++ ',' :: print)
  have hprint : filters print = _ := filters_last (by decide) (by decide) hvalue
  have hdetect : filters detect = _ :=
    filters_next (by decide) (by decide) (token_detect seconds print)
  have hdelete : token endsArguments ("mode=delete".toList ++ ',' :: detect) =
      ("mode=delete".toList, ',' :: detect) :=
    token_of_plain (by decide) (ends_cons rfl (by decide)) (by decide)
  have hwhole : filters ("ametadata".toList ++
      '=' :: ("mode=delete".toList ++ ',' :: detect)) = _ :=
    filters_next (by decide) (by decide) hdelete
  have hsplit : samplingFilter seconds escaped =
      "ametadata".toList ++ '=' :: ("mode=delete".toList ++ ',' :: detect) :=
    samplingFilter_eq seconds escaped
  rw [hsplit, hwhole, hdetect, hprint]

/-- Every path that is absolute and does not end with a blank is refused exactly for a NUL or an end
of a line, or escaped so that FFmpeg reads the filter text of the sampling command as its three
filters and nothing behind them, the last one with the path as the value of its option. Two paths
are not escaped alike. -/
theorem evidence_path_contained (seconds : NumberText) (path : List Char)
    (habsolute : path.head? = some '/') (hend : ∀ c, path.getLast? = some c → isBlank c = false) :
    ((∃ error, audioEvidenceFilterPath (some path) = .error error) ↔
      ∃ c ∈ path, c = '\x00' ∨ c = '\n' ∨ c = '\r') ∧
    (∀ escaped, audioEvidenceFilterPath (some path) = .ok escaped →
      ∃ value, token endsArguments ("mode=print:file=".toList ++ escaped) = (value, []) ∧
        filters (samplingFilter seconds escaped) =
          ([⟨"ametadata".toList, "mode=delete".toList⟩,
            ⟨"silencedetect".toList, "n=-50dB:d=".toList ++ seconds.text⟩,
            ⟨"ametadata".toList, value⟩], []) ∧
        options value = some [("mode".toList, "print".toList), ("file".toList, path)]) ∧
    ∀ other, other.head? = some '/' → (∀ c, other.getLast? = some c → isBlank c = false) →
      ∀ escaped, audioEvidenceFilterPath (some path) = .ok escaped →
        audioEvidenceFilterPath (some other) = .ok escaped → path = other := by
  have hsome : ∀ text : List Char, text.head? = some '/' → text ≠ [] := by
    rintro _ hhead rfl
    cases hhead
  refine ⟨?_, fun escaped hescape ↦ ?_, fun other hroot hlast escaped hpath hother ↦ ?_⟩
  · have hiff := not_congr (filterPath_ok_iff path)
    have herror : (∃ error, audioEvidenceFilterPath (some path) = .error error) ↔
        ¬∃ escaped, audioEvidenceFilterPath (some path) = .ok escaped := by
      cases audioEvidenceFilterPath (some path) <;> simp
    rw [herror, hiff]
    simp only [Supported, not_forall, exists_prop]
    exact exists_congr fun c ↦ and_congr_right fun _ ↦ by tauto
  · refine ⟨_, arguments_contained (hsome path habsolute) hend hescape, ?_,
      value_contained habsolute hend⟩
    exact filters_sampling (arguments_contained (hsome path habsolute) hend hescape)
  · have hsame := (arguments_contained (hsome path habsolute) hend hpath).symm.trans
      (arguments_contained (hsome other hroot) hlast hother)
    have hvalue := value_contained habsolute hend
    rw [(Prod.mk.inj hsame).1, value_contained hroot hlast] at hvalue
    simpa using hvalue.symm

/-- A path with every character that has a meaning at one of the levels. -/
theorem evidence_path_contained_special :
    ∃ escaped, audioEvidenceFilterPath (some "/it's:[1],2;3\\".toList) = .ok escaped ∧
      (filters (samplingFilter ⟨"0.5".toList, by decide⟩ escaped)).2 = [] := by
  have hpath : ∀ c, "/it's:[1],2;3\\".toList.getLast? = some c → isBlank c = false :=
    fun c hc ↦ by obtain rfl := Option.some.inj hc; rfl
  obtain ⟨escaped, hescape⟩ : ∃ escaped,
      audioEvidenceFilterPath (some "/it's:[1],2;3\\".toList) = .ok escaped := ⟨_, rfl⟩
  obtain ⟨-, hescaped, -⟩ := evidence_path_contained ⟨"0.5".toList, by decide⟩
    "/it's:[1],2;3\\".toList rfl hpath
  obtain ⟨value, -, hfilters, -⟩ := hescaped escaped hescape
  exact ⟨escaped, hescape, congrArg Prod.snd hfilters⟩

end ObsMcp.Media
