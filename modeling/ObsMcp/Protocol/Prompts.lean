import ObsMcp.Foundations.Fallible
import ObsMcp.Foundations.Text
import ObsMcp.Protocol.Session

/-!
# The prompt catalog

The prompts of `prompt_catalog.rs`. A prompt is found in the checked asset, its arguments are
checked, and its template is expanded: `expand` replaces the first marker that occurs, again and
again. Slices of a text answer nothing where the source would panic, and so does an expansion that
does not end; `getText_returns` says that neither happens, because the markers of the asset are not
empty (`Catalog.marker_ne`).

The asset, the parser of decimal numbers and the encoder come from outside (`Catalog`).
-/

namespace ObsMcp.Protocol

open Foundations Option List

/-- The asset of the catalog, with the parser of decimal numbers (nothing inside for a number that
is not finite) and the encoder. No marker of the asset is empty. -/
structure Catalog where
  asset : Json
  parseF64 : String → Option (Option ℚ)
  encode : Json → String
  marker_ne : ∀ group key marker,
    (((asset.index "replacements").index group).index key).asStr = some marker → marker ≠ ""

namespace Catalog

/-- The white space of `config::trim`. -/
def trimmed (c : Char) : Bool :=
  let n := c.toNat
  (0x9 ≤ n && n ≤ 0xd) || n == 0x20 || n == 0xa0 || n == 0x1680 || (0x2000 ≤ n && n ≤ 0x200a) ||
    n == 0x2028 || n == 0x2029 || n == 0x202f || n == 0x205f || n == 0x3000 || n == 0xfeff

/-- The value of a digit of a base. -/
def digit (base : ℕ) (c : Char) : Option ℕ :=
  let value :=
    if '0' ≤ c && c ≤ '9' then c.toNat - '0'.toNat
    else if 'a' ≤ c && c ≤ 'z' then c.toNat - 'a'.toNat + 10
    else if 'A' ≤ c && c ≤ 'Z' then c.toNat - 'A'.toNat + 10
    else base
  if value < base then some value else none

def radix (text : List Char) (base : ℕ) : Option ℕ :=
  if text.isEmpty || text.any (fun c ↦ (digit base c).isNone) then
    none
  else
    let value := text.foldl (fun value c ↦ value * base + (digit base c).getD 0) 0
    if value < 2 ^ 64 then some value else none

variable (catalog : Catalog)

/-- A decimal number that is a whole number up to a bound. -/
def decimal (text : List Char) (max : ℕ) : Option ℕ := do
  let number ← (← catalog.parseF64 (.ofList text))
  if number.den ≠ 1 || number < 1 || (max : ℚ) < number then
    none
  else
    return number.num.toNat

/-- The base that the first two characters of a number name. -/
def base : List Char → Option ℕ
  | ['0', 'x'] => some 16
  | ['0', 'o'] => some 8
  | ['0', 'b'] => some 2
  | _ => none

def integer (text : String) (max : ℕ) : Option (Option ℕ) :=
  let text := Text.trimMatches trimmed text.toList
  let front := ((Text.takeBytes 2 text).getD []).map Char.toLower
  let bounded := fun result : Option ℕ ↦ result.filter (fun value ↦ 0 < value && value ≤ max)
  match base front with
  | some base => do
    let digits ← Text.dropBytes 2 text
    return bounded (radix digits base)
  | none => some (bounded (catalog.decimal text max))

/-- A marker with its replacement. -/
abbrev Replacement := List Char × List Char

/-- The first of the markers that occur, with its offset. -/
def nextMarker (remaining : List Char) (replacements : List Replacement) :
    Option (ℕ × Replacement) :=
  (replacements.filterMap (fun entry ↦
    (Text.findBytes entry.1 remaining).map (fun offset ↦ (offset, entry)))).foldl
      (fun best entry ↦
        match best with
        | some found => if entry.1 < found.1 then some entry else some found
        | none => some entry)
      none

/-- The loop of the expansion, with as many turns as it is allowed. -/
def expandLoop (replacements : List Replacement) : ℕ → List Char → Option (List Char)
  | 0, _ => none
  | turns + 1, remaining =>
    match nextMarker remaining replacements with
    | none => some remaining
    | some (offset, marker, replacement) => do
      let before ← Text.takeBytes offset remaining
      let rest ← Text.dropBytes (offset + Text.size marker) remaining
      let expanded ← expandLoop replacements turns rest
      return before ++ replacement ++ expanded

def expand (template : String) (replacements : List (String × String)) : Option String :=
  (expandLoop (replacements.map (fun entry ↦ (entry.1.toList, entry.2.toList)))
    (template.toList.length + 1) template.toList).map String.ofList

def message (text : String) : Members :=
  [("messages", .array [.ofMembers [("role", .string "user"),
    ("content", .ofMembers [("type", .string "text"), ("text", .string text)])]])]

/-- A marker of a group of the asset. -/
def marker (group key : String) : Option String :=
  (((catalog.asset.index "replacements").index group).index key).asStr

def template (key : String) : Option String :=
  ((catalog.asset.index "templates").index key).asStr

def text (arguments : Members) (key : String) : Option String :=
  (arguments.get key).bind Json.asStr

/-- The longest duration and the default one. -/
def durations : Option (ℕ × String) := do
  let recipe := catalog.asset.index "recipe"
  let longest ← (recipe.index "maxDurationSeconds").asU64
  let fallback ← (recipe.index "defaultMaxDurationSeconds").asU64
  return (longest.toNat, toString fallback.toNat)

/-- The replacements of the software prompt. -/
def softwareReplacements (arguments : Members) (duration : ℕ) :
    Option (List (String × String)) := do
  let quoted := fun key ↦ (text arguments key).map (fun value ↦ catalog.encode (.string value))
  return [(← catalog.marker "software" "collection", ← quoted "sceneCollection"),
    (← catalog.marker "software" "scene", ← quoted "sceneName"),
    (← catalog.marker "software" "input", ← quoted "inputName"),
    (← catalog.marker "software" "duration", s!"maxDurationSeconds:{duration}")]

/-- The lines of the steps, trimmed and without the empty ones. -/
def stepLines (steps : Option String) : String :=
  let lines := (steps.getD "").toList.splitOn '\n'
  String.join (((lines.map (Text.trimMatches trimmed)).filter (fun line ↦ !line.isEmpty)).map
    (fun line ↦ "   - " ++ String.ofList line ++ "\n"))

/-- The replacements of the recording prompt. -/
def recordReplacements (arguments : Members) (steps : Option String) :
    Option (List (String × String)) := do
  return [(← catalog.marker "record" "window", ← text arguments "window"),
    (← catalog.marker "record" "scene", (text arguments "scene").getD "Demo"),
    (← catalog.marker "record" "seconds", (text arguments "seconds").getD "30"),
    (← catalog.marker "record" "steps", stepLines steps)]

/-- A template with its replacements, when the asset and the arguments have them. -/
def expanded (template : Option String) (replacements : Option (List (String × String))) :
    Option (Option Members) :=
  match replacements, template with
  | some replacements, some template => do
    let text ← expand template replacements
    return some (message text)
  | _, _ => some none

def renderSoftware (arguments : Members) : Option (Option Members) :=
  match catalog.durations with
  | none => some none
  | some (longest, fallback) => do
    match ← catalog.integer ((text arguments "maxDurationSeconds").getD fallback) longest with
    | none => return none
    | some duration =>
      expanded (catalog.template "software") (catalog.softwareReplacements arguments duration)

def renderRecord (arguments : Members) : Option (Option Members) :=
  let steps := (text arguments "steps").filter (fun steps ↦ !steps.isEmpty)
  expanded (catalog.template (if steps.isSome then "steps" else "record"))
    (catalog.recordReplacements arguments steps)

/-- The prompt with its arguments, before the bound on its length. -/
def rendered (name : String) (arguments : Members) : Option (Option Members) :=
  match name with
  | "pre-stream-check" =>
    some (((catalog.asset.index "templates").index "preStream").asObject)
  | "software-demo" => catalog.renderSoftware arguments
  | "record-demo" => catalog.renderRecord arguments
  | _ => some none

def promptBytes : ℕ := 4 * 1024 * 1024

def render (name : String) (arguments : Members) : Option (Option Members) := do
  let result ← catalog.rendered name arguments
  return result.filter
    (fun result ↦ (Receipts.utf8 (catalog.encode (.object result))).length ≤ promptBytes)

/-- The required arguments that are missing. -/
def missing (definition : Json) (arguments : Members) : List String :=
  (((((definition.index "arguments").asArray.getD []).filter
    (fun argument ↦ argument.index "required" == .bool true)).filterMap
      (fun argument ↦ (argument.index "name").asStr)).filter
        (fun name ↦ !arguments.containsKey name)).map
          (fun name ↦ s!"{name}: Invalid input: expected string, received undefined")

/-- The duration of the software prompt is not a number it takes. -/
def badDuration (name : String) (arguments : Members) : Option (Option Bool) :=
  if name = "software-demo" then
    match catalog.durations with
    | none => some none
    | some (longest, fallback) => do
      let duration ← catalog.integer ((text arguments "maxDurationSeconds").getD fallback) longest
      return some duration.isNone
  else
    some (some false)

/-- `prompt_catalog::get` on arguments that are all texts. -/
def getText (name : String) (arguments : Members) :
    Option (Option (Except (Int64 × String) Members)) :=
  match ((catalog.asset.index "listing").index "prompts").asArray with
  | none => some none
  | some prompts =>
    match prompts.find? (fun prompt ↦ (prompt.index "name").asStr == some name) with
    | none => some (some (.error (-32602, s!"Prompt {name} not found")))
    | some definition =>
      let missing := missing definition arguments
      if !missing.isEmpty then
        let names := ", ".intercalate missing
        some (some (.error (-32602, s!"Invalid arguments for prompt {name}: {names}")))
      else do
        match ← catalog.badDuration name arguments with
        | none => return none
        | some true =>
          return some (.error (-32603, "maxDurationSeconds must be an integer from 1 to 3600"))
        | some false =>
          match ← catalog.render name arguments with
          | some result => return some (.ok result)
          | none => return some (.error (-32000, "Native prompt output capacity exceeded"))

/-! ### The catalog returns -/

variable {catalog}

theorem integer_returns (catalog : Catalog) (text : String) (max : ℕ) :
    Returns (catalog.integer text max) := by
  unfold integer
  simp only
  cases hbase : base (((Text.takeBytes 2 (Text.trimMatches trimmed text.toList)).getD []).map
      Char.toLower) with
  | none => exact returns_some _
  | some found =>
    cases htake : Text.takeBytes 2 (Text.trimMatches trimmed text.toList) with
    | none => simp [htake, base] at hbase
    | some front =>
      obtain ⟨rest, hsplit, hsize⟩ := Text.takeBytes_eq_some htake
      rw [hsplit, ← hsize, Text.dropBytes_append]
      exact returns_some _

/-- The first marker is one of the markers, at an offset where it occurs. -/
theorem nextMarker_eq_some {remaining : List Char} {replacements : List Replacement} {offset : ℕ}
    {entry : Replacement} (hnext : nextMarker remaining replacements = some (offset, entry)) :
    entry ∈ replacements ∧ Text.findBytes entry.1 remaining = some offset := by
  have hfold : ∀ (found : List (ℕ × Replacement)) (best : Option (ℕ × Replacement)),
      found.foldl (fun best entry ↦
        match best with
        | some found => if entry.1 < found.1 then some entry else some found
        | none => some entry) best = some (offset, entry) →
      (offset, entry) ∈ found ∨ best = some (offset, entry) := by
    intro found
    induction found with
    | nil => exact fun best hbest ↦ .inr hbest
    | cons head found ih =>
      intro best hbest
      rcases ih _ hbest with hmem | hbest
      · exact .inl (mem_cons_of_mem _ hmem)
      · cases best with
        | none =>
          cases hbest
          exact .inl mem_cons_self
        | some best =>
          simp only at hbest
          split_ifs at hbest
          · cases hbest
            exact .inl mem_cons_self
          · exact .inr hbest
  rcases hfold _ _ hnext with hmem | hnone
  · obtain ⟨found, hfound, hentry⟩ := mem_filterMap.mp hmem
    obtain ⟨place, hplace, hsame⟩ := map_eq_some_iff.mp hentry
    cases hsame
    exact ⟨hfound, hplace⟩
  · cases hnone

/-- The loop ends, since each turn cuts off a marker. -/
theorem expandLoop_returns {replacements : List Replacement}
    (hmarkers : ∀ entry ∈ replacements, entry.1 ≠ []) {turns : ℕ} {remaining : List Char}
    (hturns : remaining.length < turns) : Returns (expandLoop replacements turns remaining) := by
  induction turns generalizing remaining with
  | zero => simp at hturns
  | succ turns ih =>
    rw [expandLoop]
    cases hnext : nextMarker remaining replacements with
    | none => exact returns_some _
    | some next =>
      obtain ⟨offset, marker, replacement⟩ := next
      obtain ⟨hentry, hfound⟩ := nextMarker_eq_some hnext
      obtain ⟨before, after, rfl, rfl⟩ := Text.findBytes_eq_some hfound
      have hmarker : 0 < marker.length := length_pos_of_ne_nil (hmarkers _ hentry)
      have hlength : after.length < turns := by
        simp only [length_append] at hturns
        omega
      have hbefore : Text.takeBytes (Text.size before) (before ++ marker ++ after) =
          some before := by
        rw [append_assoc, Text.takeBytes_append]
      simp only [hbefore, ← Text.size_append, Text.dropBytes_append, bind_eq_bind,
        bind_some]
      exact returns_bind (ih hlength) fun expanded _ ↦ returns_some _

theorem expand_returns {template : String} {replacements : List (String × String)}
    (hmarkers : ∀ entry ∈ replacements, entry.1 ≠ "") : Returns (expand template replacements) := by
  unfold expand
  obtain ⟨expanded, hexpanded⟩ := @expandLoop_returns
    (replacements.map (fun entry ↦ (entry.1.toList, entry.2.toList)))
    (by
      intro entry hentry
      obtain ⟨found, hfound, rfl⟩ := mem_map.mp hentry
      simpa using hmarkers found hfound)
    (template.toList.length + 1) template.toList (Nat.lt_succ_self _)
  rw [hexpanded]
  exact returns_some _

theorem marker_ne_empty {group key marker : String}
    (hmarker : catalog.marker group key = some marker) :
    marker ≠ "" :=
  catalog.marker_ne group key marker hmarker

theorem softwareReplacements_ne {arguments : Members} {duration : ℕ}
    {replacements : List (String × String)}
    (hfound : catalog.softwareReplacements arguments duration = some replacements) :
    ∀ entry ∈ replacements, entry.1 ≠ "" := by
  obtain ⟨collection, hcollection, hfound⟩ := bind_eq_some_iff.mp hfound
  obtain ⟨_, -, hfound⟩ := bind_eq_some_iff.mp hfound
  obtain ⟨scene, hscene, hfound⟩ := bind_eq_some_iff.mp hfound
  obtain ⟨_, -, hfound⟩ := bind_eq_some_iff.mp hfound
  obtain ⟨input, hinput, hfound⟩ := bind_eq_some_iff.mp hfound
  obtain ⟨_, -, hfound⟩ := bind_eq_some_iff.mp hfound
  obtain ⟨length, hlength, hfound⟩ := bind_eq_some_iff.mp hfound
  cases hfound
  simp [marker_ne_empty hcollection, marker_ne_empty hscene, marker_ne_empty hinput,
    marker_ne_empty hlength]

theorem recordReplacements_ne {arguments : Members} {steps : Option String}
    {replacements : List (String × String)}
    (hfound : catalog.recordReplacements arguments steps = some replacements) :
    ∀ entry ∈ replacements, entry.1 ≠ "" := by
  obtain ⟨window, hwindow, hfound⟩ := bind_eq_some_iff.mp hfound
  obtain ⟨_, -, hfound⟩ := bind_eq_some_iff.mp hfound
  obtain ⟨scene, hscene, hfound⟩ := bind_eq_some_iff.mp hfound
  obtain ⟨seconds, hseconds, hfound⟩ := bind_eq_some_iff.mp hfound
  obtain ⟨lines, hlines, hfound⟩ := bind_eq_some_iff.mp hfound
  cases hfound
  simp [marker_ne_empty hwindow, marker_ne_empty hscene, marker_ne_empty hseconds,
    marker_ne_empty hlines]

theorem expanded_returns {template : Option String} {replacements : Option (List (String × String))}
    (hmarkers : ∀ found, replacements = some found → ∀ entry ∈ found, entry.1 ≠ "") :
    Returns (expanded template replacements) := by
  cases replacements with
  | none => exact returns_some _
  | some found =>
    cases template with
    | none => exact returns_some _
    | some template =>
      exact returns_bind (expand_returns (hmarkers found rfl)) fun text _ ↦ returns_some _

theorem renderSoftware_returns (catalog : Catalog) (arguments : Members) :
    Returns (catalog.renderSoftware arguments) := by
  unfold renderSoftware
  cases catalog.durations with
  | none => exact returns_some _
  | some durations =>
    refine returns_bind (catalog.integer_returns _ _) fun duration _ ↦ ?_
    cases duration with
    | none => exact returns_some _
    | some duration => exact expanded_returns fun found hfound ↦ softwareReplacements_ne hfound

section

variable (catalog : Catalog) (name : String) (arguments : Members)

theorem render_returns : Returns (catalog.render name arguments) := by
  refine returns_bind ?_ fun result _ ↦ returns_some _
  unfold rendered
  split
  · exact returns_some _
  · exact catalog.renderSoftware_returns arguments
  · exact expanded_returns fun found hfound ↦ recordReplacements_ne hfound
  · exact returns_some _

theorem badDuration_returns : Returns (catalog.badDuration name arguments) := by
  unfold badDuration
  split_ifs
  · cases catalog.durations with
    | none => exact returns_some _
    | some durations =>
      exact returns_bind (catalog.integer_returns _ _) fun duration _ ↦ returns_some _
  · exact returns_some _

/-- A prompt is answered without a panic and in finitely many turns. -/
theorem getText_returns : Returns (catalog.getText name arguments) := by
  unfold getText
  split
  · exact returns_some _
  · split
    · exact returns_some _
    · simp only
      split_ifs
      · exact returns_some _
      · refine returns_bind (catalog.badDuration_returns name arguments) fun bad _ ↦ ?_
        cases bad with
        | none => exact returns_some _
        | some found =>
          cases found with
          | true => exact returns_some _
          | false =>
            refine returns_bind (catalog.render_returns name arguments) fun result _ ↦ ?_
            cases result with
            | some result => exact returns_some _
            | none => exact returns_some _

end

/-- The host with the prompts of the catalog. -/
def host (catalog : Catalog) : Host where
  listing := ((catalog.asset.index "listing").asObject).getD []
  resourceTemplates := ((catalog.asset.index "resourceTemplates").asObject).getD []
  prompt name arguments := (catalog.getText name arguments).getD none
  encodedLength value := (Receipts.utf8 (catalog.encode value)).length

end Catalog

end ObsMcp.Protocol
