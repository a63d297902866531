import ObsMcp.Transform.Grammar

/-!
# What the scanner accepts

The scanner of `ordered_transform.rs` finds the end of exactly the values of the grammar, up to its
depth and its number of values. `value_sound` says that a span it returns spells a tree, and
`value_reads` that it returns every span that spells one. The loop over the items of an array or an
object is treated once, for any kind of item (`Reads`, `Sound`).

A text spells at most one tree (`spells_unique`): the spans of its parts are what the scanner finds.
-/

namespace ObsMcp.Transform

open Foundations Scanner List

open Session (ProjectionError)

/-! ### Blanks and tokens -/

section Tokens

variable {blank rest text token : List Char} {c : Char}

theorem ws_append (hblank : Blank blank) (rest : List Char) : ws (blank ++ rest) = ws rest := by
  induction blank with
  | nil => rfl
  | cons c blank ih =>
    have hhead : isBlank c = true := hblank c mem_cons_self
    have htail : Blank blank := fun d hd ↦ hblank d (mem_cons_of_mem _ hd)
    rw [cons_append, ws, dropWhile_cons_of_pos hhead]
    exact ih htail

theorem ws_cons (hc : isBlank c = false) (rest : List Char) : ws (c :: rest) = c :: rest := by
  rw [ws, dropWhile_cons_of_neg (by simp [hc])]

theorem exists_blank_ws (rest : List Char) : ∃ blank, Blank blank ∧ rest = blank ++ ws rest :=
  ⟨rest.takeWhile isBlank, fun _ hc ↦ mem_takeWhile_imp hc, takeWhile_append_dropWhile.symm⟩

theorem take_append (hblank : Blank blank) (hc : isBlank c = false) (rest : List Char) :
    take c (blank ++ c :: rest) = .ok rest := by
  unfold Scanner.take
  rw [ws_append hblank, ws_cons hc]
  simp

theorem of_take (htake : take c rest = .ok text) :
    ∃ blank, Blank blank ∧ rest = blank ++ c :: text := by
  obtain ⟨blank, hblank, hrest⟩ := exists_blank_ws rest
  unfold Scanner.take at htake
  cases hws : ws rest with
  | nil =>
    rw [hws] at htake
    cases htake
  | cons d tail =>
    rw [hws] at htake hrest
    simp only at htake
    split_ifs at htake with hsame
    cases htake
    exact ⟨blank, hblank, by rw [hrest, hsame]⟩

/-- A text that starts with no blank has no blanks before its token. -/
theorem blank_eq_nil (hblank : Blank blank) (hshape : c :: rest = blank ++ text)
    (hc : isBlank c = false) : blank = [] := by
  cases blank with
  | nil => rfl
  | cons b blank =>
    obtain ⟨rfl, -⟩ := cons.inj hshape
    rw [hblank c mem_cons_self] at hc
    cases hc

theorem slice_append (text rest : List Char) : slice (text ++ rest) rest = text := by
  rw [slice, length_append, Nat.add_sub_cancel, take_left']
  rfl

theorem string_append (hblank : Blank blank) (htoken : IsString token) (rest : List Char) :
    string (blank ++ token ++ rest) = .ok (token, rest) := by
  obtain ⟨body, hbody, rfl⟩ := htoken
  have hshape : blank ++ ('"' :: body ++ ['"']) ++ rest =
      blank ++ '"' :: (body ++ '"' :: rest) := by
    simp
  have hslice : slice ('"' :: (body ++ '"' :: rest)) rest = '"' :: body ++ ['"'] := by
    have hsplit : '"' :: (body ++ '"' :: rest) = ('"' :: body ++ ['"']) ++ rest := by simp
    rw [hsplit, slice_append]
  unfold string
  rw [hshape, take_append hblank (by decide)]
  simp only [ok_bind, quoted_of_quotable hbody, hslice]

theorem of_string (hstring : string rest = .ok (token, text)) :
    ∃ blank, Blank blank ∧ IsString token ∧ rest = blank ++ token ++ text := by
  unfold string at hstring
  obtain ⟨start, htake, hquoted⟩ := bind_eq_ok_iff.mp hstring
  obtain ⟨blank, hblank, rfl⟩ := of_take htake
  cases hend : quoted start with
  | none =>
    rw [hend] at hquoted
    cases hquoted
  | some tail =>
    rw [hend] at hquoted
    obtain ⟨body, hbody, rfl⟩ := quotable_of_quoted hend
    have hsplit : '"' :: (body ++ '"' :: tail) = ('"' :: body ++ ['"']) ++ tail := by simp
    simp only [hsplit, slice_append, Except.ok.injEq, Prod.mk.injEq] at hquoted
    obtain ⟨rfl, rfl⟩ := hquoted
    exact ⟨blank, hblank, ⟨body, hbody, rfl⟩, by simp⟩

end Tokens

/-! ### Number tokens -/

/-- No character of a number token can follow. -/
def Stops (rest : List Char) : Prop :=
  ∀ c ∈ rest.head?, isNumberChar c = false

theorem isNumberChar_of_isDigit {c : Char} (hc : c.isDigit = true) : isNumberChar c = true := by
  simp [isNumberChar, hc]

variable {token : List Char}

theorem IsNumber.all (htoken : IsNumber token) : ∀ c ∈ token, isNumberChar c = true := by
  obtain ⟨sign, whole, fraction, exponent, rfl, hsign, hwhole, hfraction, hexponent⟩ := htoken
  intro c hc
  simp only [mem_append] at hc
  rcases hc with ((hc | hc) | hc) | hc
  · rcases hsign with rfl | rfl
    · cases hc
    · obtain rfl := mem_singleton.mp hc
      rfl
  · rcases hwhole with rfl | ⟨⟨-, hdigits⟩, -⟩
    · obtain rfl := mem_singleton.mp hc
      rfl
    · exact isNumberChar_of_isDigit (hdigits c hc)
  · rcases hfraction with rfl | ⟨digits, ⟨-, hdigits⟩, rfl⟩
    · cases hc
    · rcases mem_cons.mp hc with rfl | hc
      · rfl
      · exact isNumberChar_of_isDigit (hdigits c hc)
  · rcases hexponent with rfl | ⟨e, sign, digits, he, hsign, ⟨-, hdigits⟩, rfl⟩
    · cases hc
    · rw [cons_append, mem_cons, mem_append] at hc
      rcases hc with rfl | hc | hc
      · rcases he with rfl | rfl <;> rfl
      · rcases hsign with rfl | rfl | rfl
        · cases hc
        · obtain rfl := mem_singleton.mp hc
          rfl
        · obtain rfl := mem_singleton.mp hc
          rfl
      · exact isNumberChar_of_isDigit (hdigits c hc)

/-- A number starts with a sign or a digit. -/
theorem IsNumber.head (htoken : IsNumber token) :
    ∃ c rest, token = c :: rest ∧ (c = '-' ∨ c.isDigit = true) := by
  obtain ⟨sign, whole, fraction, exponent, rfl, hsign, hwhole, -, -⟩ := htoken
  rcases hsign with rfl | rfl
  · rcases hwhole with rfl | ⟨⟨hne, hdigits⟩, -⟩
    · exact ⟨'0', fraction ++ exponent, by simp, .inr rfl⟩
    · obtain ⟨c, tail, rfl⟩ := exists_cons_of_ne_nil hne
      exact ⟨c, tail ++ fraction ++ exponent, by simp, .inr (hdigits c mem_cons_self)⟩
  · exact ⟨'-', whole ++ fraction ++ exponent, by simp, .inl rfl⟩

theorem takeWhile_number {rest : List Char} (htoken : ∀ c ∈ token, isNumberChar c = true)
    (hrest : Stops rest) : (token ++ rest).takeWhile isNumberChar = token ∧
      (token ++ rest).dropWhile isNumberChar = rest := by
  have htail : rest.takeWhile isNumberChar = [] ∧ rest.dropWhile isNumberChar = rest := by
    cases rest with
    | nil => exact ⟨rfl, rfl⟩
    | cons c tail =>
      have hc : isNumberChar c = false := hrest c rfl
      simp [hc]
  rw [takeWhile_append_of_pos htoken, dropWhile_append_of_pos htoken, htail.1, htail.2]
  exact ⟨append_nil token, rfl⟩

/-! ### Rows of items -/

section Items

variable {α : Type} {close : Char} {item : Scanner → Except ProjectionError (α × Scanner)}

/-- An item is found at a text: whatever blanks stand before it and whatever follows, the item scans
the text and uses up its number of values. -/
def Reads (item : Scanner → Except ProjectionError (α × Scanner)) (a : α) (text : List Char)
    (count : ℕ) : Prop :=
  ∀ blank rest nodes, Blank blank → Stops rest → count ≤ nodes →
    item { rest := blank ++ text ++ rest, nodes } = .ok (a, { rest, nodes := nodes - count })

/-- What an item that was found has scanned. -/
def Sound (item : Scanner → Except ProjectionError (α × Scanner))
    (Found : α → List Char → ℕ → Prop) : Prop :=
  ∀ scan a next, item scan = .ok (a, next) → ∃ blank text count, Blank blank ∧
    scan.rest = blank ++ text ++ next.rest ∧ Found a text count ∧ scan.nodes = next.nodes + count

/-- A character that closes a row: it is no part of a number, no blank and no comma. -/
structure Closes (close : Char) : Prop where
  notNumber : isNumberChar close = false
  notBlank : isBlank close = false
  notComma : close ≠ ','

theorem closes_array : Closes ']' := ⟨by decide, by decide, by decide⟩

theorem closes_object : Closes '\x7d' := ⟨by decide, by decide, by decide⟩

variable {c : Char} {nodes turns : ℕ} {next scan : Scanner}

theorem isNumberChar_of_isBlank (hc : isBlank c = true) : isNumberChar c = false := by
  simp only [isBlank, mem_cons, not_mem_nil, or_false, decide_eq_true_eq] at hc
  rcases hc with rfl | rfl | rfl | rfl <;> decide

theorem stops_append {blank rest : List Char} (hblank : Blank blank) (hc : isNumberChar c = false) :
    Stops (blank ++ c :: rest) := by
  intro d hd
  cases blank with
  | nil =>
    cases hd
    exact hc
  | cons b blank =>
    obtain rfl := Option.some.inj hd
    exact isNumberChar_of_isBlank (hblank b mem_cons_self)

variable {body : List Char} {texts : List (List Char)}

/-- A row of texts that are separated is found item by item. -/
theorem loop_reads (hclose : Closes close) {entries : List (α × List Char × ℕ)}
    (hreads : ∀ entry ∈ entries, Reads item entry.1 entry.2.1 entry.2.2) (hne : entries ≠ [])
    (hbody : Separated (entries.map fun entry ↦ entry.2.1) body) (hturns : entries.length ≤ turns)
    (hnodes : (entries.map fun entry ↦ entry.2.2).sum ≤ nodes) (rest : List Char) :
    loop close item turns { rest := body ++ close :: rest, nodes } =
      .ok (entries.map Prod.fst,
        { rest, nodes := nodes - (entries.map fun entry ↦ entry.2.2).sum }) := by
  induction entries generalizing body turns nodes with
  | nil => exact absurd rfl hne
  | cons entry entries ih =>
    obtain ⟨a, text, count⟩ := entry
    have hhead := hreads _ mem_cons_self
    cases turns with
    | zero => exact absurd hturns (by simp)
    | succ turns =>
      rw [map_cons, sum_cons] at hnodes
      cases entries with
      | nil =>
        rw [map_cons, map_nil] at hbody
        cases hbody with
        | @last before _ after hbefore hafter =>
          have hitem := hhead before (after ++ close :: rest) nodes hbefore
            (stops_append hafter hclose.notNumber) (by simpa using hnodes)
          simp only [← append_assoc] at hitem
          rw [loop, hitem]
          simp only [ok_bind, ws_append hafter, ws_cons hclose.notBlank]
          simp [hclose.notComma]
      | cons next entries =>
        rw [map_cons, map_cons] at hbody
        cases hbody with
        | @more before _ after body' _ _ hbefore hafter hbody' =>
          have hitem := hhead before (after ++ ',' :: (body' ++ close :: rest)) nodes hbefore
            (stops_append hafter (by decide)) (by omega)
          have hshort : (next :: entries).length ≤ turns := by simpa using hturns
          have hleft : ((next :: entries).map fun entry ↦ entry.2.2).sum ≤ nodes - count := by
            simp only at hnodes
            omega
          have hrest := ih (fun e he ↦ hreads e (mem_cons_of_mem _ he)) (by simp) hbody'
            hshort hleft
          have hshape : before ++ text ++ after ++ ',' :: body' ++ close :: rest =
              before ++ text ++ (after ++ ',' :: (body' ++ close :: rest)) := by simp
          simp only at hitem
          rw [loop, hshape, hitem]
          simp only [ok_bind, ws_append hafter, ws_cons (c := ',') (by decide)]
          simp only [if_true, hrest]
          simp [Nat.sub_sub]

/-- A text starts with a character that is no blank and does not close the row. -/
def Starts (close : Char) (text : List Char) : Prop :=
  ∃ c rest, text = c :: rest ∧ isBlank c = false ∧ c ≠ close

/-- The blanks before a row belong to its first text. -/
theorem separated_ws {text : List Char} (hbody : Separated (text :: texts) body)
    (hstarts : Starts close text) (tail : List Char) :
    ∃ c rest, c ≠ close ∧ ws (body ++ tail) = c :: rest ++ tail ∧
      Separated (text :: texts) (c :: rest) := by
  obtain ⟨c, rest, rfl, hblank, hclose⟩ := hstarts
  cases hbody with
  | @last before _ after hbefore hafter =>
    refine ⟨c, rest ++ after, hclose, ?_, ?_⟩
    · rw [append_assoc, append_assoc, ws_append hbefore, cons_append, ws_cons hblank]
      simp
    · have hsame : c :: (rest ++ after) = [] ++ c :: rest ++ after := rfl
      rw [hsame]
      exact .last blank_nil hafter
  | @more before _ after body next texts hbefore hafter hbody =>
    refine ⟨c, rest ++ after ++ ',' :: body, hclose, ?_, ?_⟩
    · simp only [append_assoc, ws_append hbefore, cons_append, ws_cons hblank]
    · have hsame : c :: (rest ++ after ++ ',' :: body) =
          [] ++ c :: rest ++ after ++ ',' :: body := rfl
      rw [hsame]
      exact .more blank_nil hafter hbody

theorem Separated.length_le (hbody : Separated texts body) (hne : ∀ text ∈ texts, text ≠ []) :
    texts.length ≤ body.length := by
  induction hbody with
  | none => simp
  | @last before text after =>
    have hpos := length_pos_iff.mpr (hne text mem_cons_self)
    simp only [length_append, length_singleton]
    omega
  | more _ _ _ ih =>
    have hrest := ih fun text htext ↦ hne text (mem_cons_of_mem _ htext)
    simp only [length_append, length_cons] at hrest ⊢
    omega

/-- The items of an array or an object are found, whether there are any or not. -/
theorem enclosed_reads (hclose : Closes close) {entries : List (α × List Char × ℕ)}
    (hall : ∀ entry ∈ entries, Reads item entry.1 entry.2.1 entry.2.2 ∧ Starts close entry.2.1)
    (hbody : Separated (entries.map fun entry ↦ entry.2.1) body)
    (hnodes : (entries.map fun entry ↦ entry.2.2).sum ≤ nodes) (rest : List Char) :
    enclosed close item { rest := body ++ close :: rest, nodes } =
      .ok (entries.map Prod.fst,
        { rest, nodes := nodes - (entries.map fun entry ↦ entry.2.2).sum }) := by
  unfold enclosed
  cases entries with
  | nil =>
    cases hbody with
    | none hblank => simp [ws_append hblank, ws_cons hclose.notBlank]
  | cons entry entries =>
    rw [map_cons] at hbody
    obtain ⟨c, start, hc, hws, hbody⟩ := separated_ws hbody (hall entry mem_cons_self).2
      (close :: rest)
    have hne : ∀ text ∈ (entry :: entries).map fun entry ↦ entry.2.1, text ≠ [] := by
      intro text htext
      obtain ⟨other, hother, rfl⟩ := mem_map.mp htext
      obtain ⟨d, tail, hshape, -⟩ := (hall other hother).2
      rw [hshape]
      exact cons_ne_nil d tail
    have hlength : (entry :: entries).length ≤ (c :: start).length := by
      simpa using hbody.length_le hne
    simp only [hws]
    rw [if_neg (by simpa using hc)]
    refine loop_reads hclose (fun other h ↦ (hall other h).1) (by simp) hbody ?_ hnodes rest
    simp only [length_append, length_cons] at hlength ⊢
    omega

/-- What a loop over items has scanned. -/
theorem loop_sound {Found : α → List Char → ℕ → Prop} (hitem : Sound item Found) {as : List α}
    (hloop : loop close item turns scan = .ok (as, next)) :
    ∃ entries : List (α × List Char × ℕ), entries.map Prod.fst = as ∧ entries ≠ [] ∧
      (∀ entry ∈ entries, Found entry.1 entry.2.1 entry.2.2) ∧
      (∃ body, Separated (entries.map fun entry ↦ entry.2.1) body ∧
        scan.rest = body ++ close :: next.rest) ∧
      scan.nodes = next.nodes + (entries.map fun entry ↦ entry.2.2).sum := by
  induction turns generalizing scan as with
  | zero => cases hloop
  | succ turns ih =>
    rw [loop] at hloop
    obtain ⟨⟨a, mid⟩, hturn, hrest⟩ := bind_eq_ok_iff.mp hloop
    obtain ⟨before, text, count, hbefore, hshape, hfound, hnodes⟩ := hitem scan a mid hturn
    obtain ⟨after, hafter, hmid⟩ := exists_blank_ws mid.rest
    simp only at hrest
    split at hrest
    · cases hrest
    · rename_i c tail hws
      rw [hws] at hmid
      split_ifs at hrest with hcomma hend
      · obtain ⟨⟨others, last⟩, hothers, hpair⟩ := map_eq_ok_iff.mp hrest
        cases hpair
        obtain ⟨entries, rfl, hne, hall, ⟨body, hbody, htail⟩, hsum⟩ := ih hothers
        obtain ⟨entry, entries, rfl⟩ := exists_cons_of_ne_nil hne
        refine ⟨(a, text, count) :: entry :: entries, rfl, by simp, ?_,
          ⟨before ++ text ++ after ++ ',' :: body, ?_, ?_⟩, ?_⟩
        · exact forall_mem_cons.mpr ⟨hfound, hall⟩
        · exact .more hbefore hafter hbody
        · simp only at htail
          rw [hshape, hmid, hcomma, htail]
          simp
        · simp only [map_cons, sum_cons] at hsum ⊢
          omega
      · cases hrest
        refine ⟨[(a, text, count)], rfl, by simp, ?_, ⟨before ++ text ++ after, ?_, ?_⟩, ?_⟩
        · simpa using hfound
        · exact .last hbefore hafter
        · rw [hshape, hmid, hend]
          simp
        · simpa using hnodes

theorem Separated.blank_append {before : List Char} (hbefore : Blank before)
    (hbody : Separated texts body) : Separated texts (before ++ body) := by
  have happend : ∀ {blank : List Char}, Blank blank → Blank (before ++ blank) := by
    intro blank hblank c hc
    rcases mem_append.mp hc with hc | hc
    · exact hbefore c hc
    · exact hblank c hc
  cases hbody with
  | none hblank => exact .none (happend hblank)
  | last hfirst hafter =>
    rw [← append_assoc, ← append_assoc]
    exact .last (happend hfirst) hafter
  | more hfirst hafter hrest =>
    rw [← append_assoc, ← append_assoc, ← append_assoc]
    exact .more (happend hfirst) hafter hrest

/-- What an array or an object has scanned behind its opening character. -/
theorem enclosed_sound {Found : α → List Char → ℕ → Prop} (hitem : Sound item Found) {as : List α}
    (henclosed : enclosed close item scan = .ok (as, next)) :
    ∃ entries : List (α × List Char × ℕ), entries.map Prod.fst = as ∧
      (∀ entry ∈ entries, Found entry.1 entry.2.1 entry.2.2) ∧
      (∃ body, Separated (entries.map fun entry ↦ entry.2.1) body ∧
        scan.rest = body ++ close :: next.rest) ∧
      scan.nodes = next.nodes + (entries.map fun entry ↦ entry.2.2).sum := by
  obtain ⟨blank, hblank, hshape⟩ := exists_blank_ws scan.rest
  unfold enclosed at henclosed
  simp only at henclosed
  split_ifs at henclosed with hhead
  · cases henclosed
    refine ⟨[], rfl, by simp, ⟨blank, .none hblank, ?_⟩, by simp⟩
    obtain ⟨tail, htail⟩ := head?_eq_some_iff.mp hhead
    rw [htail] at hshape ⊢
    exact hshape
  · obtain ⟨entries, hentries, -, hall, ⟨body, hbody, hrest⟩, hsum⟩ := loop_sound hitem henclosed
    refine ⟨entries, hentries, hall, ⟨blank ++ body, hbody.blank_append hblank, ?_⟩, hsum⟩
    rw [hshape, append_assoc]
    simp only at hrest
    rw [hrest]

end Items

section Members

variable {κ : Type} {readKey : List Char → Option κ}
  {value : Scanner → Except ProjectionError (List Char × Scanner)}

/-- A member is found when its key is read and its value is found. -/
theorem member_reads {span text : List Char} {key : κ} {count : ℕ} (htoken : IsString token)
    (hkey : readKey token = some key) (htext : MemberText (token, span) text)
    (hvalue : Reads value span span count) :
    Reads (member readKey value) (key, span) text count := by
  obtain ⟨before, after, hbefore, hafter, rfl⟩ := htext
  intro blank rest nodes hblank hrest hnodes
  have hshape : blank ++ (token ++ before ++ ':' :: after ++ span) ++ rest =
      blank ++ token ++ (before ++ ':' :: (after ++ span ++ rest)) := by simp
  unfold member
  simp only [hshape, string_append hblank htoken, ok_bind, hkey,
    take_append hbefore (show isBlank ':' = false by decide),
    hvalue after rest nodes hafter hrest hnodes]
  rfl

/-- What a member has scanned. -/
theorem member_sound {Found : List Char → List Char → ℕ → Prop} (hvalue : Sound value Found) :
    Sound (member readKey value) fun entry text count ↦
      ∃ token span, readKey token = some entry.1 ∧ IsString token ∧
        MemberText (token, span) text ∧ Found entry.2 span count := by
  intro scan entry next hmember
  unfold member at hmember
  obtain ⟨⟨token, rest⟩, hstring, hmember⟩ := bind_eq_ok_iff.mp hmember
  obtain ⟨blank, hblank, htoken, hshape⟩ := of_string hstring
  simp only at hmember
  split at hmember
  · cases hmember
  · rename_i key hkey
    obtain ⟨tail, htake, hmember⟩ := bind_eq_ok_iff.mp hmember
    obtain ⟨before, hbefore, htail⟩ := of_take htake
    obtain ⟨⟨found, last⟩, hspan, hpair⟩ := bind_eq_ok_iff.mp hmember
    rw [pure_eq_ok_iff] at hpair
    cases hpair
    obtain ⟨after, span, count, hafter, hrest, hfound, hnodes⟩ := hvalue _ _ _ hspan
    simp only at hrest hnodes
    refine ⟨blank, token ++ before ++ ':' :: after ++ span, count, hblank, ?_,
      ⟨token, span, hkey, htoken, ⟨before, after, hbefore, hafter, rfl⟩, hfound⟩, hnodes⟩
    rw [hshape, htail, hrest]
    simp

end Members

/-! ### Values -/

section Values

variable {numbers : Numbers} {levels : ℕ}

/-- A span is one of a tree with some nesting and some number of values. -/
def Spans (numbers : Numbers) (levels : ℕ) (span text : List Char) (count : ℕ) : Prop :=
  span = text ∧ ∃ tree, Spells numbers tree text ∧ tree.depth ≤ levels ∧ tree.count = count

/-- The items of an array whose texts are spans. -/
theorem exists_items {entries : List (List Char × List Char × ℕ)}
    (hall : ∀ entry ∈ entries, Spans numbers levels entry.1 entry.2.1 entry.2.2) :
    ∃ items, List.Forall₂ (Spells numbers) items (entries.map fun entry ↦ entry.2.1) ∧
      (∀ item ∈ items, item.depth ≤ levels) ∧
        (items.map Tree.count).sum = (entries.map fun entry ↦ entry.2.2).sum := by
  induction entries with
  | nil => exact ⟨[], .nil, by simp, rfl⟩
  | cons entry entries ih =>
    obtain ⟨⟨-, tree, hspells, hdepth, hcount⟩, hrest⟩ := forall_mem_cons.mp hall
    obtain ⟨items, hitems, hdepths, hsum⟩ := ih hrest
    refine ⟨tree :: items, .cons hspells hitems, forall_mem_cons.mpr ⟨hdepth, hdepths⟩, ?_⟩
    rw [map_cons, map_cons, sum_cons, sum_cons, hcount, hsum]

variable {κ : Type} {tree : Tree}

/-- The members of an object whose values are spans. -/
theorem exists_members {readKey : List Char → Option κ}
    {rows : List ((κ × List Char) × List Char × ℕ)}
    (hall : ∀ row ∈ rows, ∃ token span, readKey token = some row.1.1 ∧ IsString token ∧
      MemberText (token, span) row.2.1 ∧ Spans numbers levels row.1.2 span row.2.2) :
    ∃ members entries, SpellsMembers numbers members entries ∧
      List.Forall₂ MemberText entries (rows.map fun row ↦ row.2.1) ∧
      List.Forall₂ (fun member row ↦ readKey member.1 = some row.1.1) members rows ∧
      (∀ member ∈ members, member.2.depth ≤ levels) ∧
        (members.map fun member ↦ member.2.count).sum = (rows.map fun row ↦ row.2.2).sum := by
  induction rows with
  | nil => exact ⟨[], [], rfl, .nil, .nil, by simp, rfl⟩
  | cons row rows ih =>
    obtain ⟨⟨key, span⟩, text, count⟩ := row
    obtain ⟨⟨token, _, hkey, htoken, htext, rfl, tree, hspells, hdepth, hcount⟩, hrest⟩ :=
      forall_mem_cons.mp hall
    obtain ⟨members, entries, hmembers, htexts, hkeys, hdepths, hsum⟩ := ih hrest
    refine ⟨(token, tree) :: members, (token, span) :: entries,
      ⟨_, _, rfl, htoken, hspells, hmembers⟩, .cons htext htexts, .cons hkey hkeys,
      forall_mem_cons.mpr ⟨hdepth, hdepths⟩, ?_⟩
    simp only [map_cons, sum_cons, hcount, hsum]

variable {first : Char}

/-- The words start with their letters. -/
theorem literal_mem_words (hfirst : first = 't' ∨ first = 'f' ∨ first = 'n') :
    literal first ∈ words := by
  rcases hfirst with rfl | rfl | rfl <;> decide

theorem valueEnd_sound {inner : Scanner → Except ProjectionError (List Char × Scanner)}
    (hinner : Sound inner (Spans numbers levels)) {rest : List Char} {nodes : ℕ} {next : Scanner}
    (hend : valueEnd numbers inner first { rest := first :: rest, nodes } = .ok next) :
    ∃ tree text, Spells numbers tree text ∧ tree.depth ≤ levels + 1 ∧
      first :: rest = text ++ next.rest ∧ nodes + 1 = next.nodes + tree.count := by
  unfold valueEnd at hend
  split_ifs at hend with hquote hbrace hbracket hword hprefixed hnumber haccepts
  · obtain ⟨⟨token, tail⟩, hstring, hpair⟩ := bind_eq_ok_iff.mp hend
    rw [pure_eq_ok_iff] at hpair
    obtain ⟨blank, hblank, htoken, hshape⟩ := of_string hstring
    obtain rfl : blank = [] :=
      blank_eq_nil hblank (hshape.trans (append_assoc _ _ _)) (by rw [hquote]; decide)
    subst hpair
    exact ⟨.string token, token, ⟨rfl, htoken⟩, by simp [Tree.depth], hshape, by simp [Tree.count]⟩
  · obtain ⟨⟨found, last⟩, henclosed, hpair⟩ := bind_eq_ok_iff.mp hend
    rw [pure_eq_ok_iff] at hpair
    subst hpair
    obtain ⟨entries, rfl, hall, ⟨body, hbody, hrest⟩, hsum⟩ :=
      enclosed_sound (member_sound hinner) henclosed
    obtain ⟨members, _, hmembers, htexts, -, hdepths, hcount⟩ := exists_members hall
    refine ⟨.object members, '\x7b' :: body ++ ['\x7d'],
      ⟨_, _, body, hmembers, htexts, hbody, rfl⟩, ?_, ?_, ?_⟩
    · rw [Tree.depth, Nat.add_comm, Nat.add_le_add_iff_right, Tree.depthMembers_le_iff]
      exact hdepths
    · simp only [tail_cons] at hrest
      rw [hbrace, hrest]
      simp
    · simp only at hsum
      rw [Tree.count, Tree.countMembers_eq, hcount]
      omega
  · obtain ⟨⟨found, last⟩, henclosed, hpair⟩ := bind_eq_ok_iff.mp hend
    rw [pure_eq_ok_iff] at hpair
    subst hpair
    obtain ⟨entries, rfl, hall, ⟨body, hbody, hrest⟩, hsum⟩ := enclosed_sound hinner henclosed
    obtain ⟨items, hitems, hdepths, hcount⟩ := exists_items hall
    refine ⟨.array items, '[' :: body ++ [']'],
      ⟨_, body, spellsItems_iff.mpr hitems, hbody, rfl⟩, ?_, ?_, ?_⟩
    · rw [Tree.depth, Nat.add_comm, Nat.add_le_add_iff_right, Tree.depthItems_le_iff]
      exact hdepths
    · simp only [tail_cons] at hrest
      rw [hbracket, hrest]
      simp
    · simp only at hsum
      rw [Tree.count, Tree.countItems_eq, hcount]
      omega
  · cases hend
    obtain ⟨tail, htail⟩ := isPrefixOf_iff_prefix.mp hprefixed
    simp only at htail
    refine ⟨.literal (literal first), literal first, ⟨rfl, literal_mem_words hword⟩,
      by simp [Tree.depth], ?_, by simp [Tree.count]⟩
    simp only [← htail, drop_left]
  · cases hend
    exact ⟨.number _, _, ⟨rfl, haccepts⟩, by simp [Tree.depth],
      takeWhile_append_dropWhile.symm, by simp [Tree.count]⟩

/-- A span that the scanner returns spells a tree, within the depth and the number of values that
the scanner had. -/
theorem value_sound (numbers : Numbers) (levels : ℕ) :
    Sound (value numbers levels) (Spans numbers levels) := by
  induction levels with
  | zero =>
    intro scan span next hvalue
    cases hvalue
  | succ levels ih =>
    intro scan span next hvalue
    obtain ⟨blank, hblank, hshape⟩ := exists_blank_ws scan.rest
    rw [value] at hvalue
    split_ifs at hvalue with hnodes
    split at hvalue
    · cases hvalue
    · rename_i first rest hws
      obtain ⟨found, hend, hpair⟩ := bind_eq_ok_iff.mp hvalue
      rw [pure_eq_ok_iff] at hpair
      cases hpair
      obtain ⟨tree, text, hspells, hdepth, htext, hcount⟩ := valueEnd_sound ih hend
      refine ⟨blank, text, tree.count, hblank, ?_, ⟨?_, tree, hspells, hdepth, rfl⟩, ?_⟩
      · rw [hshape, hws, htext, append_assoc]
      · rw [htext, slice_append]
      · omega

/-- The first character of a value decides its kind; none of them is a blank or closes a row. -/
theorem spells_head {text : List Char} (hspells : Spells numbers tree text) :
    ∃ first rest, text = first :: rest ∧ isBlank first = false ∧ first ≠ ']' ∧ first ≠ '\x7d' := by
  cases tree with
  | literal word =>
    obtain ⟨rfl, hword⟩ := hspells
    simp only [words, mem_cons, not_mem_nil, or_false] at hword
    rcases hword with rfl | rfl | rfl
    · exact ⟨'t', _, rfl, by decide, by decide, by decide⟩
    · exact ⟨'f', _, rfl, by decide, by decide, by decide⟩
    · exact ⟨'n', _, rfl, by decide, by decide, by decide⟩
  | number token =>
    obtain ⟨rfl, haccepts⟩ := hspells
    obtain ⟨first, rest, rfl, hfirst⟩ := (numbers.isNumber_of_accepts haccepts).head
    refine ⟨first, rest, rfl, ?_, ?_, ?_⟩
    · rw [← Bool.not_eq_true]
      intro hblank
      simp only [isBlank, mem_cons, not_mem_nil, or_false, decide_eq_true_eq] at hblank
      rcases hblank with rfl | rfl | rfl | rfl <;> revert hfirst <;> decide
    · rintro rfl
      revert hfirst
      decide
    · rintro rfl
      revert hfirst
      decide
  | string token =>
    obtain ⟨rfl, body, -, rfl⟩ := hspells
    exact ⟨'"', _, rfl, by decide, by decide, by decide⟩
  | array items =>
    obtain ⟨spans, body, -, -, rfl⟩ := hspells
    exact ⟨'[', _, rfl, by decide, by decide, by decide⟩
  | object members =>
    obtain ⟨entries, texts, body, -, -, -, rfl⟩ := hspells
    exact ⟨'\x7b', _, rfl, by decide, by decide, by decide⟩

/-- A value is found when its end is. -/
theorem reads_of_end {tail : List Char} {count : ℕ} (hfirst : isBlank first = false)
    (hend : ∀ rest nodes, Stops rest → count ≤ nodes →
      valueEnd numbers (value numbers levels) first { rest := first :: tail ++ rest, nodes } =
        .ok { rest, nodes := nodes - count }) :
    Reads (value numbers (levels + 1)) (first :: tail) (first :: tail) (1 + count) := by
  intro blank rest nodes hblank hrest hnodes
  have hws : ws (blank ++ first :: tail ++ rest) = first :: (tail ++ rest) := by
    rw [append_assoc, ws_append hblank, cons_append, ws_cons hfirst]
  have hspan : slice (first :: (tail ++ rest)) rest = first :: tail :=
    slice_append (first :: tail) rest
  have hfound := hend rest (nodes - 1) hrest (by omega)
  rw [cons_append] at hfound
  rw [value, if_neg (show ¬ nodes = 0 by omega)]
  simp only [hws, hfound, ok_bind, hspan]
  rw [Nat.sub_sub]
  rfl

/-- The rows of an array, with the values that each text has. -/
theorem reads_items {items : List Tree} {spans : List (List Char)}
    (hspells : List.Forall₂ (Spells numbers) items spans)
    (hreads : ∀ item ∈ items, ∀ text, Spells numbers item text →
      Reads (value numbers levels) text text item.count) :
    ∃ entries : List (List Char × List Char × ℕ), entries.map Prod.fst = spans ∧
      (entries.map fun entry ↦ entry.2.1) = spans ∧
      (∀ entry ∈ entries, Reads (value numbers levels) entry.1 entry.2.1 entry.2.2 ∧
        Starts ']' entry.2.1) ∧
      (entries.map fun entry ↦ entry.2.2).sum = (items.map Tree.count).sum := by
  induction hspells with
  | nil => exact ⟨[], rfl, rfl, by simp, rfl⟩
  | @cons item span items spans hspan hspans ih =>
    obtain ⟨entries, hfst, htexts, hall, hsum⟩ :=
      ih fun other hother ↦ hreads other (mem_cons_of_mem _ hother)
    obtain ⟨first, rest, hshape, hblank, hclose, -⟩ := spells_head hspan
    refine ⟨(span, span, item.count) :: entries, by simp [hfst], by simp [htexts],
      forall_mem_cons.mpr ⟨⟨hreads item mem_cons_self span hspan, ?_⟩, hall⟩,
      by simp [hsum]⟩
    exact ⟨first, rest, hshape, hblank, hclose⟩

/-- The rows of an object, with the keys read in a way that reads them all. -/
theorem reads_members {readKey : List Char → Option κ} {members : List (List Char × Tree)}
    {entries : List (List Char × List Char)} {texts : List (List Char)} {keys : List κ}
    (hspells : SpellsMembers numbers members entries)
    (htexts : List.Forall₂ MemberText entries texts)
    (hkeys : List.Forall₂ (fun entry key ↦ readKey entry.1 = some key) entries keys)
    (hreads : ∀ member ∈ members, ∀ text, Spells numbers member.2 text →
      Reads (value numbers levels) text text member.2.count) :
    ∃ rows : List ((κ × List Char) × List Char × ℕ),
      rows.map Prod.fst = keys.zip (entries.map Prod.snd) ∧
      (rows.map fun row ↦ row.2.1) = texts ∧
      (∀ row ∈ rows, Reads (member readKey (value numbers levels)) row.1 row.2.1 row.2.2 ∧
        Starts '\x7d' row.2.1) ∧
      (rows.map fun row ↦ row.2.2).sum = (members.map fun member ↦ member.2.count).sum := by
  induction members generalizing entries texts keys with
  | nil =>
    obtain rfl := hspells
    cases htexts
    cases hkeys
    exact ⟨[], rfl, rfl, by simp, rfl⟩
  | cons member members ih =>
    obtain ⟨span, rest, rfl, htoken, hspan, hrest⟩ := hspells
    cases htexts with
    | @cons _ text _ texts htext htexts =>
      cases hkeys with
      | @cons _ key _ keys hkey hkeys =>
        obtain ⟨rows, hfst, hsnd, hall, hsum⟩ := ih hrest htexts hkeys
          fun other hother ↦ hreads other (mem_cons_of_mem _ hother)
        have hvalue := hreads member mem_cons_self span hspan
        refine ⟨((key, span), text, member.2.count) :: rows, by simp [hfst], by simp [hsnd],
          forall_mem_cons.mpr ⟨⟨member_reads htoken hkey htext hvalue, ?_⟩, hall⟩,
          by simp [hsum]⟩
        obtain ⟨body, -, hbody⟩ := htoken
        obtain ⟨before, after, -, -, hshape⟩ := htext
        refine ⟨'"', body ++ ['"'] ++ before ++ ':' :: after ++ span, ?_, by decide, by decide⟩
        simp only at hshape
        rw [hshape, hbody]
        simp

theorem forall₂_some (entries : List (List Char × List Char)) :
    List.Forall₂ (fun entry key ↦ some entry.1 = some key) entries (entries.map Prod.fst) := by
  induction entries with
  | nil => exact .nil
  | cons entry entries ih => exact .cons rfl ih

theorem exists_levels {levels : ℕ} (hdepth : tree.depth ≤ levels) : ∃ left, levels = left + 1 := by
  have hpos := tree.depth_pos
  exact ⟨levels - 1, by omega⟩

/-- The first character of a number starts no other value. -/
theorem ne_of_number_head (hfirst : first = '-' ∨ first.isDigit = true) :
    isBlank first = false ∧ first ≠ '"' ∧ first ≠ '\x7b' ∧ first ≠ '[' ∧
      ¬ (first = 't' ∨ first = 'f' ∨ first = 'n') := by
  have hother : ∀ c : Char, c ≠ '-' → c.isDigit = false → first ≠ c := by
    rintro c hminus hdigit rfl
    rcases hfirst with rfl | hfirst
    · exact hminus rfl
    · rw [hdigit] at hfirst
      cases hfirst
  refine ⟨?_, hother _ (by decide) (by decide), hother _ (by decide) (by decide),
    hother _ (by decide) (by decide), ?_⟩
  · rw [← Bool.not_eq_true]
    intro hblank
    simp only [isBlank, mem_cons, not_mem_nil, or_false, decide_eq_true_eq] at hblank
    rcases hblank with hblank | hblank | hblank | hblank <;>
      exact hother _ (by decide) (by decide) hblank
  · rintro (hword | hword | hword) <;> exact hother _ (by decide) (by decide) hword

/-- The scanner finds every text that spells a tree. Assumes: enough levels for its depth. -/
theorem value_reads (tree : Tree) : ∀ {levels : ℕ} {text : List Char}, Spells numbers tree text →
    tree.depth ≤ levels → Reads (value numbers levels) text text tree.count := by
  induction tree using Tree.induct with
  | literal word =>
    intro levels text hspells hdepth
    obtain ⟨rfl, hword⟩ := hspells
    obtain ⟨levels, rfl⟩ := exists_levels hdepth
    have hend : ∀ first tail, (first = 't' ∨ first = 'f' ∨ first = 'n') →
        literal first = first :: tail → isBlank first = false →
          Reads (value numbers (levels + 1)) (first :: tail) (first :: tail) (1 + 0) := by
      intro first tail hfirst hliteral hblank
      refine reads_of_end hblank fun rest nodes _ _ ↦ ?_
      have hquote : first ≠ '"' ∧ first ≠ '\x7b' ∧ first ≠ '[' := by
        rcases hfirst with rfl | rfl | rfl <;> decide
      unfold valueEnd
      rw [if_neg hquote.1, if_neg hquote.2.1, if_neg hquote.2.2, if_pos hfirst, hliteral,
        if_pos ( isPrefixOf_iff_prefix.mpr (prefix_append _ _))]
      simp only [drop_left, Nat.sub_zero]
    simp only [words, mem_cons, not_mem_nil, or_false] at hword
    rcases hword with rfl | rfl | rfl
    · exact hend 't' _ (.inl rfl) rfl (by decide)
    · exact hend 'f' _ (.inr (.inl rfl)) rfl (by decide)
    · exact hend 'n' _ (.inr (.inr rfl)) rfl (by decide)
  | number token =>
    intro levels text hspells hdepth
    obtain ⟨rfl, haccepts⟩ := hspells
    obtain ⟨levels, rfl⟩ := exists_levels hdepth
    have hnumber := numbers.isNumber_of_accepts haccepts
    have hall := hnumber.all
    obtain ⟨first, tail, rfl, hfirst⟩ := hnumber.head
    obtain ⟨hblank, hquote, hbrace, hbracket, hword⟩ := ne_of_number_head hfirst
    have hreads : Reads (value numbers (levels + 1)) (first :: tail) (first :: tail) (1 + 0) := by
      refine reads_of_end hblank fun rest nodes hrest _ ↦ ?_
      obtain ⟨htake, hdrop⟩ := takeWhile_number hall hrest
      unfold valueEnd
      rw [if_neg hquote, if_neg hbrace, if_neg hbracket, if_neg hword, if_pos hfirst]
      simp only [htake, haccepts, hdrop, if_true, Nat.sub_zero]
    exact hreads
  | string token =>
    intro levels text hspells hdepth
    obtain ⟨rfl, htoken⟩ := hspells
    obtain ⟨levels, rfl⟩ := exists_levels hdepth
    have hstring := fun rest ↦ string_append blank_nil htoken rest
    obtain ⟨body, -, rfl⟩ := htoken
    have hreads : Reads (value numbers (levels + 1)) ('"' :: (body ++ ['"']))
        ('"' :: (body ++ ['"'])) (1 + 0) := by
      refine reads_of_end (by decide) fun rest nodes _ _ ↦ ?_
      have hfound := hstring rest
      rw [nil_append, cons_append] at hfound
      unfold valueEnd
      rw [if_pos rfl]
      simp only [hfound, ok_bind]
      rfl
    exact hreads
  | array items ih =>
    intro levels text hspells hdepth
    obtain ⟨spans, body, hspans, hbody, rfl⟩ := hspells
    obtain ⟨levels, rfl⟩ := exists_levels hdepth
    rw [Tree.depth, Nat.add_comm, Nat.add_le_add_iff_right, Tree.depthItems_le_iff] at hdepth
    obtain ⟨entries, -, htexts, hall, hsum⟩ := reads_items (spellsItems_iff.mp hspans)
      fun item hitem text hspells ↦ ih item hitem hspells (hdepth item hitem)
    rw [Tree.count, Tree.countItems_eq, ← hsum]
    have hreads : Reads (value numbers (levels + 1)) ('[' :: (body ++ [']']))
        ('[' :: (body ++ [']'])) (1 + (entries.map fun entry ↦ entry.2.2).sum) := by
      refine reads_of_end (by decide) fun rest nodes _ hnodes ↦ ?_
      have hfound := enclosed_reads closes_array hall (htexts ▸ hbody) hnodes rest
      have hshape : body ++ [']'] ++ rest = body ++ ']' :: rest := by simp
      unfold valueEnd
      rw [if_neg (by decide), if_neg (by decide), if_pos rfl]
      simp only [cons_append, tail_cons, hshape, hfound, ok_bind]
      rfl
    exact hreads
  | object members ih =>
    intro levels text hspells hdepth
    obtain ⟨entries, texts, body, hmembers, htexts, hbody, rfl⟩ := hspells
    obtain ⟨levels, rfl⟩ := exists_levels hdepth
    rw [Tree.depth, Nat.add_comm, Nat.add_le_add_iff_right, Tree.depthMembers_le_iff] at hdepth
    obtain ⟨rows, -, hrows, hall, hsum⟩ := reads_members hmembers htexts (forall₂_some entries)
      fun member hmember text hspells ↦ ih member hmember hspells (hdepth member hmember)
    rw [Tree.count, Tree.countMembers_eq, ← hsum]
    have hreads : Reads (value numbers (levels + 1)) ('\x7b' :: (body ++ ['\x7d']))
        ('\x7b' :: (body ++ ['\x7d'])) (1 + (rows.map fun row ↦ row.2.2).sum) := by
      refine reads_of_end (by decide) fun rest nodes _ hnodes ↦ ?_
      have hfound := enclosed_reads closes_object hall (hrows ▸ hbody) hnodes rest
      have hshape : body ++ ['\x7d'] ++ rest = body ++ '\x7d' :: rest := by simp
      unfold valueEnd
      rw [if_neg (by decide), if_pos rfl]
      simp only [cons_append, tail_cons, hshape, hfound, ok_bind]
      rfl
    exact hreads

end Values

/-! ### A text spells one tree -/

section Unique

variable {numbers : Numbers}

/-- The kinds of values, by their first characters. -/
inductive Kind
  | literal | number | string | array | object
  deriving DecidableEq

def Kind.ofChar (first : Char) : Kind :=
  if first = '"' then .string
  else if first = '\x7b' then .object
  else if first = '[' then .array
  else if first = 't' ∨ first = 'f' ∨ first = 'n' then .literal
  else .number

def Tree.kind : Tree → Kind
  | .literal _ => .literal
  | .number _ => .number
  | .string _ => .string
  | .array _ => .array
  | .object _ => .object

variable {first : Char} {items : List Tree} {spans : List (List Char)}
  {entries : List (List Char × List Char)} {members : List (List Char × Tree)}

theorem kind_of_spells {tree : Tree} {rest : List Char}
    (hspells : Spells numbers tree (first :: rest)) : tree.kind = Kind.ofChar first := by
  cases tree with
  | literal word =>
    obtain ⟨rfl, hword⟩ := hspells
    simp only [words, mem_cons, not_mem_nil, or_false] at hword
    rcases hword with hword | hword | hword <;> obtain ⟨rfl, -⟩ := cons.inj hword <;> rfl
  | number token =>
    obtain ⟨rfl, haccepts⟩ := hspells
    obtain ⟨c, tail, hshape, hc⟩ := (numbers.isNumber_of_accepts haccepts).head
    obtain ⟨rfl, -⟩ := cons.inj hshape
    obtain ⟨-, hquote, hbrace, hbracket, hword⟩ := ne_of_number_head hc
    rw [Kind.ofChar, if_neg hquote, if_neg hbrace, if_neg hbracket, if_neg hword]
    rfl
  | string token =>
    obtain ⟨rfl, body, -, hshape⟩ := hspells
    obtain ⟨rfl, -⟩ := cons.inj hshape
    rfl
  | array items =>
    obtain ⟨spans, body, -, -, hshape⟩ := hspells
    obtain ⟨rfl, -⟩ := cons.inj hshape
    rfl
  | object members =>
    obtain ⟨entries, texts, body, -, -, -, hshape⟩ := hspells
    obtain ⟨rfl, -⟩ := cons.inj hshape
    rfl

variable {body : List Char}

theorem body_eq {last : Char} {other : List Char}
    (hsame : first :: body ++ [last] = first :: other ++ [last]) : body = other := by
  rw [cons_append, cons_append] at hsame
  exact append_cancel_right (cons.inj hsame).2

/-- A body is cut in one way. -/
theorem fst_eq_of_separated {α : Type} {item : Scanner → Except ProjectionError (α × Scanner)}
    {close : Char} (hclose : Closes close) {rows rows' : List (α × List Char × ℕ)}
    (hall : ∀ row ∈ rows, Reads item row.1 row.2.1 row.2.2 ∧ Starts close row.2.1)
    (hall' : ∀ row ∈ rows', Reads item row.1 row.2.1 row.2.2 ∧ Starts close row.2.1)
    (hbody : Separated (rows.map fun row ↦ row.2.1) body)
    (hbody' : Separated (rows'.map fun row ↦ row.2.1) body) :
    rows.map Prod.fst = rows'.map Prod.fst := by
  have hrun := enclosed_reads hclose hall hbody
    (Nat.le_max_left _ (rows'.map fun row ↦ row.2.2).sum) []
  have hrun' := enclosed_reads hclose hall' hbody'
    (Nat.le_max_right (rows.map fun row ↦ row.2.2).sum _) []
  have hsame := hrun.symm.trans hrun'
  rw [Except.ok.injEq, Prod.mk.injEq] at hsame
  exact hsame.1

/-- The texts of the items of an array are those that the scanner cuts it into. -/
theorem spans_unique {others : List Tree} {found : List (List Char)}
    (hitems : List.Forall₂ (Spells numbers) items spans) (hbody : Separated spans body)
    (hothers : List.Forall₂ (Spells numbers) others found) (hfound : Separated found body) :
    spans = found := by
  have hreads : ∀ {trees : List Tree}, Tree.depthItems trees ≤
      max (Tree.depthItems items) (Tree.depthItems others) → ∀ tree ∈ trees, ∀ text,
        Spells numbers tree text → Reads (value numbers (max (Tree.depthItems items)
          (Tree.depthItems others))) text text tree.count := by
    intro trees hdepth tree htree text hspells
    exact value_reads tree hspells (Tree.depthItems_le_iff.mp hdepth tree htree)
  obtain ⟨entries, hfst, htexts, hall, -⟩ := reads_items hitems (hreads (Nat.le_max_left _ _))
  obtain ⟨entries', hfst', htexts', hall', -⟩ := reads_items hothers (hreads (Nat.le_max_right _ _))
  rw [← hfst, ← hfst']
  exact fst_eq_of_separated closes_array hall hall' (htexts ▸ hbody) (htexts' ▸ hfound)

theorem zip_fst_snd {α β : Type} (entries : List (α × β)) :
    (entries.map Prod.fst).zip (entries.map Prod.snd) = entries := by
  have hzip := zip_unzip entries
  rwa [unzip_eq_map] at hzip

/-- The keys and the texts of the values of an object are those that the scanner cuts it into. -/
theorem entries_unique {others : List (List Char × Tree)} {found : List (List Char × List Char)}
    {texts texts' : List (List Char)} (hmembers : SpellsMembers numbers members entries)
    (htexts : List.Forall₂ MemberText entries texts) (hbody : Separated texts body)
    (hothers : SpellsMembers numbers others found) (htexts' : List.Forall₂ MemberText found texts')
    (hbody' : Separated texts' body) : entries = found := by
  have hreads : ∀ {trees : List (List Char × Tree)}, Tree.depthMembers trees ≤
      max (Tree.depthMembers members) (Tree.depthMembers others) → ∀ member ∈ trees, ∀ text,
        Spells numbers member.2 text → Reads (value numbers (max (Tree.depthMembers members)
          (Tree.depthMembers others))) text text member.2.count := by
    intro trees hdepth member hmember text hspells
    exact value_reads member.2 hspells (Tree.depthMembers_le_iff.mp hdepth member hmember)
  obtain ⟨rows, hfst, hrows, hall, -⟩ :=
    reads_members hmembers htexts (forall₂_some entries) (hreads (Nat.le_max_left _ _))
  obtain ⟨rows', hfst', hrows', hall', -⟩ :=
    reads_members hothers htexts' (forall₂_some found) (hreads (Nat.le_max_right _ _))
  rw [← zip_fst_snd entries, ← zip_fst_snd found, ← hfst, ← hfst']
  exact fst_eq_of_separated closes_object hall hall' (hrows ▸ hbody) (hrows' ▸ hbody')

theorem items_unique {others : List Tree}
    (hunique : ∀ item ∈ items, ∀ {other : Tree} {text : List Char}, Spells numbers item text →
      Spells numbers other text → item = other) (hitems : List.Forall₂ (Spells numbers) items spans)
    (hothers : List.Forall₂ (Spells numbers) others spans) : items = others := by
  induction hitems generalizing others with
  | nil =>
    cases hothers
    rfl
  | @cons item span items spans hspan _ ih =>
    cases hothers with
    | cons hother hothers =>
      rw [hunique item mem_cons_self hspan hother,
        ih (fun item hitem ↦ hunique item (mem_cons_of_mem _ hitem)) hothers]

theorem members_unique {others : List (List Char × Tree)}
    (hunique : ∀ member ∈ members, ∀ {other : Tree} {text : List Char},
      Spells numbers member.2 text → Spells numbers other text → member.2 = other)
    (hmembers : SpellsMembers numbers members entries)
    (hothers : SpellsMembers numbers others entries) : members = others := by
  induction members generalizing others entries with
  | nil =>
    obtain rfl := hmembers
    cases others with
    | nil => rfl
    | cons other others =>
      obtain ⟨span, rest, hshape, -⟩ := hothers
      cases hshape
  | cons member members ih =>
    obtain ⟨span, rest, rfl, -, hspan, hrest⟩ := hmembers
    cases others with
    | nil => cases hothers
    | cons other others =>
      obtain ⟨span', rest', hshape, -, hspan', hrest'⟩ := hothers
      obtain ⟨hhead, rfl⟩ := cons.inj hshape
      obtain ⟨hkey, rfl⟩ := Prod.mk.inj hhead
      rw [ih (fun member hmember ↦ hunique member (mem_cons_of_mem _ hmember)) hrest hrest',
        Prod.ext hkey (hunique member mem_cons_self hspan hspan')]

/-- A text spells at most one tree. -/
theorem spells_unique (tree : Tree) : ∀ {other : Tree} {text : List Char},
    Spells numbers tree text → Spells numbers other text → tree = other := by
  have hkind : ∀ {tree other : Tree} {text : List Char}, Spells numbers tree text →
      Spells numbers other text → tree.kind = other.kind := by
    intro tree other text htree hother
    obtain ⟨first, rest, rfl, -⟩ := spells_head htree
    rw [kind_of_spells htree, kind_of_spells hother]
  induction tree using Tree.induct with
  | literal word =>
    intro other text htree hother
    cases other with
    | literal word' => rw [← htree.1, hother.1]
    | _ => cases hkind htree hother
  | number token =>
    intro other text htree hother
    cases other with
    | number token' => rw [← htree.1, hother.1]
    | _ => cases hkind htree hother
  | string token =>
    intro other text htree hother
    cases other with
    | string token' => rw [← htree.1, hother.1]
    | _ => cases hkind htree hother
  | array items ih =>
    intro other text htree hother
    cases other with
    | array others =>
      obtain ⟨spans, body, hspans, hbody, rfl⟩ := htree
      obtain ⟨found, body', hfound, hbody', hshape⟩ := hother
      obtain rfl := body_eq hshape
      rw [spellsItems_iff] at hspans hfound
      obtain rfl := spans_unique hspans hbody hfound hbody'
      rw [items_unique ih hspans hfound]
    | _ => cases hkind htree hother
  | object members ih =>
    intro other text htree hother
    cases other with
    | object others =>
      obtain ⟨entries, texts, body, hmembers, htexts, hbody, rfl⟩ := htree
      obtain ⟨found, texts', body', hfound, htexts', hbody', hshape⟩ := hother
      obtain rfl := body_eq hshape
      obtain rfl := entries_unique hmembers htexts hbody hfound htexts' hbody'
      rw [members_unique ih hmembers hfound]
    | _ => cases hkind htree hother

end Unique

end ObsMcp.Transform
