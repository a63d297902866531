import ObsMcp.Transform.Scanning

/-!
# What the writer writes

`canon` is the canonical form of a tree: numbers rendered, strings written anew, and in each object
the last value of each key with the array indices first. The writer does not see the tree. It cuts
the span of an object or an array into the spans of its parts (`object_reads`, `array_reads`) and
writes each of them. `emit_emits` says that what is written of a span is the text without blanks of
the canonical form of the tree that the span spells, for every output that texts are written to one
after the other, and that the writer fails when there is no canonical form, no values are left or
the output takes no more.
-/

namespace ObsMcp.Transform

open Foundations Scanner List Option

open Session (ProjectionError)

variable {numbers : Numbers}

/-! ### The canonical tree -/

/-- The members of an object with their keys decoded. -/
def decodeKeys (members : List (List Char × Tree)) : Option (List (List Char × Tree)) :=
  members.mapM fun member ↦ (decode member.1).map (·, member.2)

/-- Entries as JavaScript holds them: one for each key, the array indices first. -/
def arranged {α : Type} (entries : List (List Char × α)) : List (List Char × α) :=
  LastWins.arrange index (LastWins.collect entries)

theorem arranged_map {α β : Type} (f : α → β) (entries : List (List Char × α)) :
    arranged (entries.map (Prod.map id f)) = (arranged entries).map (Prod.map id f) := by
  rw [arranged, LastWins.collect_map, LastWins.arrange_map]
  rfl

section Canon

variable (numbers)

mutual

/-- The canonical form of a tree: numbers rendered, strings written anew, and in each object the
last value of each key, the array indices first. None when a token cannot be read. -/
def canon : Tree → Option Tree
  | .literal word => some (.literal word)
  | .number token => (numbers.read token).map fun x ↦ .number (numbers.render x)
  | .string token => (decode token).map fun s ↦ .string (encode s)
  | .array items => (canonItems items).map .array
  | .object members =>
    (canonMembers members).bind fun entries ↦
      ((arranged entries).mapM fun (entry : List Char × Option Tree) ↦
        entry.2.map (encode entry.1, ·)).map .object

def canonItems : List Tree → Option (List Tree)
  | [] => some []
  | item :: items =>
    (canon item).bind fun item ↦ (canonItems items).map (item :: ·)

/-- The decoded keys of the members with the canonical forms of their values. -/
def canonMembers : List (List Char × Tree) → Option (List (List Char × Option Tree))
  | [] => some []
  | (token, value) :: members =>
    (decode token).bind fun key ↦ (canonMembers members).map ((key, canon value) :: ·)

end

variable {numbers}

theorem canonItems_eq (items : List Tree) :
    canonItems numbers items = items.mapM (canon numbers) := by
  induction items with
  | nil => rfl
  | cons item items ih =>
    rw [canonItems, ih, mapM_cons]
    cases canon numbers item with
    | none => rfl
    | some item => cases items.mapM (canon numbers) <;> rfl

theorem canonMembers_eq (members : List (List Char × Tree)) :
    canonMembers numbers members =
      (decodeKeys members).map (List.map (Prod.map id (canon numbers))) := by
  induction members with
  | nil => rfl
  | cons member members ih =>
    rw [canonMembers, ih, decodeKeys, decodeKeys, mapM_cons]
    cases decode member.1 with
    | none => rfl
    | some key =>
      cases members.mapM fun member ↦ (decode member.1).map (·, member.2) <;> rfl

theorem canon_object (members : List (List Char × Tree)) :
    canon numbers (.object members) = (decodeKeys members).bind fun entries ↦
      ((arranged entries).mapM fun entry ↦
        (canon numbers entry.2).map (encode entry.1, ·)).map .object := by
  rw [canon, canonMembers_eq]
  cases decodeKeys members with
  | none => rfl
  | some entries =>
    rw [Option.map_some, bind_some, bind_some, arranged_map, mapM_map]
    rfl

end Canon

/-! ### What is emitted -/

section Emission

variable {σ α : Type} {out : Writer σ}

/-- A step of the writer writes a text and uses up a number of values, or fails when it has no
result, no values are left or the output takes no more. -/
def Emits (out : Writer σ) (step : σ × ℕ → Except ProjectionError (σ × ℕ))
    (result : Option (List Char × ℕ)) : Prop :=
  ∀ state nodes next, step (state, nodes) = .ok next ↔
    ∃ text count written, result = some (text, count) ∧ count ≤ nodes ∧
      out.write state text = some written ∧ next = (written, nodes - count)

variable {state : σ}

theorem write_eq_ok_iff {next : σ} {text : List Char} :
    write out state text = .ok next ↔ out.write state text = some next := by
  unfold write
  cases out.write state text <;> simp

/-- The text of two steps is that of the first and then that of the second. -/
theorem write_append_iff {next : σ} {first second : List Char} :
    out.write state (first ++ second) = some next ↔
      ∃ mid, out.write state first = some mid ∧ out.write mid second = some next := by
  rw [out.write_append, bind_eq_some_iff]

/-- A row of steps writes their texts with commas between them. -/
theorem emitRow_emits {piece : α → σ × ℕ → Except ProjectionError (σ × ℕ)}
    {result : α → Option (List Char × ℕ)} {as : List α}
    (hpieces : ∀ a ∈ as, Emits out (piece a) (result a)) (turn : ℕ) :
    Emits out (emitRow out piece turn as)
      ((as.mapM result).map fun rows ↦
        (row turn (rows.map Prod.fst), (rows.map Prod.snd).sum)) := by
  induction as generalizing turn with
  | nil =>
    intro state nodes next
    rw [emitRow]
    simp [row, out.write_nil, eq_comm]
  | cons a as ih =>
    intro state nodes next
    have hcomma : ∀ mid, comma out turn state = .ok mid ↔
        out.write state (if turn ≠ 0 then [','] else []) = some mid := by
      intro mid
      unfold comma
      by_cases hturn : turn ≠ 0
      · rw [if_pos hturn, if_pos hturn, write_eq_ok_iff]
      · rw [if_neg hturn, if_neg hturn, out.write_nil, Except.ok.injEq, Option.some.injEq]
    have hpiece := hpieces a mem_cons_self
    have hrest := ih (fun b hb ↦ hpieces b (mem_cons_of_mem _ hb)) (turn + 1)
    rw [emitRow, bind_eq_ok_iff]
    constructor
    · rintro ⟨mid, hmid, hrun⟩
      obtain ⟨⟨mid', nodes'⟩, hturn, hrun⟩ := bind_eq_ok_iff.mp hrun
      obtain ⟨text, count, written, hresult, hcount, hwrite, hpair⟩ := (hpiece mid nodes _).mp hturn
      cases hpair
      obtain ⟨texts, total, last, hresults, htotal, hlast, rfl⟩ := (hrest _ _ _).mp hrun
      obtain ⟨rows, hrows, hpair⟩ := map_eq_some_iff.mp hresults
      cases hpair
      have hall : (a :: as).mapM result = some ((text, count) :: rows) := by
        rw [mapM_cons, hresult, hrows]
        rfl
      refine ⟨row turn (((text, count) :: rows).map Prod.fst),
        (((text, count) :: rows).map Prod.snd).sum, last, ?_, ?_, ?_, ?_⟩
      · rw [hall, Option.map_some]
      · simp only [map_cons, sum_cons]
        omega
      · rw [map_cons, row, write_append_iff]
        exact ⟨_, write_append_iff.mpr ⟨mid, (hcomma mid).mp hmid, hwrite⟩, hlast⟩
      · simp only [map_cons, sum_cons, Nat.sub_sub]
    · rintro ⟨text, count, written, hresult, hcount, hwrite, rfl⟩
      rw [mapM_cons] at hresult
      obtain ⟨rows, hrows, hpair⟩ := map_eq_some_iff.mp hresult
      obtain ⟨⟨first, used⟩, hfirst, hrows⟩ := bind_eq_some_iff.mp hrows
      obtain ⟨others, hothers, hcons⟩ := bind_eq_some_iff.mp hrows
      cases hcons
      cases hpair
      simp only [map_cons, sum_cons] at hcount hwrite ⊢
      rw [row, write_append_iff] at hwrite
      obtain ⟨mid', hstart, hend⟩ := hwrite
      obtain ⟨mid, hmid, hpieceText⟩ := write_append_iff.mp hstart
      refine ⟨mid, (hcomma mid).mpr hmid, bind_eq_ok_iff.mpr ⟨(mid', nodes - used),
        (hpiece _ _ _).mpr ⟨first, used, mid', hfirst, by omega, hpieceText, rfl⟩, ?_⟩⟩
      refine (hrest _ _ _).mpr ⟨row (turn + 1) (others.map Prod.fst), (others.map Prod.snd).sum,
        written, ?_, ?_, hend, ?_⟩
      · rw [hothers, Option.map_some]
      · omega
      · rw [Nat.sub_sub]

/-- A member is emitted as its key, a colon and its value. -/
theorem emitField_emits {emit : List Char → σ × ℕ → Except ProjectionError (σ × ℕ)}
    {field : List Char × List Char} {result : Option (List Char × ℕ)}
    (hvalue : Emits out (emit field.2) result) :
    Emits out (emitField out emit field)
      (result.map fun found ↦ (encode field.1 ++ ':' :: found.1, found.2)) := by
  intro state nodes next
  unfold emitField
  rw [bind_eq_ok_iff]
  constructor
  · rintro ⟨mid, hkey, hrun⟩
    obtain ⟨mid', hcolon, hrun⟩ := bind_eq_ok_iff.mp hrun
    obtain ⟨text, count, written, rfl, hcount, hwrite, rfl⟩ := (hvalue _ _ _).mp hrun
    refine ⟨_, count, written, rfl, hcount, ?_, rfl⟩
    rw [append_cons, write_append_iff]
    exact ⟨mid', write_append_iff.mpr ⟨mid, write_eq_ok_iff.mp hkey, write_eq_ok_iff.mp hcolon⟩,
      hwrite⟩
  · rintro ⟨text, count, written, hresult, hcount, hwrite, rfl⟩
    obtain ⟨⟨found, used⟩, rfl, hpair⟩ := map_eq_some_iff.mp hresult
    cases hpair
    rw [append_cons, write_append_iff] at hwrite
    obtain ⟨mid', hstart, hend⟩ := hwrite
    obtain ⟨mid, hkey, hcolon⟩ := write_append_iff.mp hstart
    exact ⟨mid, write_eq_ok_iff.mpr hkey, bind_eq_ok_iff.mpr ⟨mid', write_eq_ok_iff.mpr hcolon,
      (hvalue _ _ _).mpr ⟨found, used, written, rfl, hcount, hend, rfl⟩⟩⟩

/-- The text of an array or an object: its row between two characters. -/
theorem enclosed_emits {first last : Char} {inner : σ × ℕ → Except ProjectionError (σ × ℕ)}
    {result : Option (List Char × ℕ)} (hinner : Emits out inner result) {nodes : ℕ}
    (hnodes : nodes ≠ 0) {next : σ × ℕ} :
    (do
        let state ← write out state [first]
        let (state, nodes) ← inner (state, nodes - 1)
        let state ← write out state [last]
        return (state, nodes)) = .ok next ↔
      ∃ text count written,
        (result.map fun found ↦ (first :: found.1 ++ [last], 1 + found.2)) = some (text, count) ∧
          count ≤ nodes ∧ out.write state text = some written ∧
            next = (written, nodes - count) := by
  rw [bind_eq_ok_iff]
  constructor
  · rintro ⟨mid, hfirst, hrun⟩
    obtain ⟨⟨mid', nodes'⟩, hbody, hrun⟩ := bind_eq_ok_iff.mp hrun
    obtain ⟨written, hlast, hpair⟩ := bind_eq_ok_iff.mp hrun
    rw [pure_eq_ok_iff] at hpair
    subst hpair
    obtain ⟨text, count, inside, rfl, hcount, hwrite, hsame⟩ := (hinner _ _ _).mp hbody
    cases hsame
    refine ⟨first :: text ++ [last], 1 + count, written, rfl, by omega, ?_, ?_⟩
    · rw [← singleton_append, write_append_iff]
      exact ⟨mid', write_append_iff.mpr ⟨mid, write_eq_ok_iff.mp hfirst, hwrite⟩,
        write_eq_ok_iff.mp hlast⟩
    · rw [Nat.sub_sub]
  · rintro ⟨text, count, written, hresult, hcount, hwrite, rfl⟩
    obtain ⟨⟨found, used⟩, rfl, hpair⟩ := map_eq_some_iff.mp hresult
    cases hpair
    rw [← singleton_append, write_append_iff] at hwrite
    obtain ⟨mid', hstart, hlast⟩ := hwrite
    obtain ⟨mid, hfirst, hbody⟩ := write_append_iff.mp hstart
    simp only at hcount
    refine ⟨mid, write_eq_ok_iff.mpr hfirst, bind_eq_ok_iff.mpr ⟨(mid', nodes - 1 - used),
      (hinner _ _ _).mpr ⟨found, used, mid', rfl, by omega, hbody, rfl⟩, ?_⟩⟩
    refine bind_eq_ok_iff.mpr ⟨written, write_eq_ok_iff.mpr hlast, ?_⟩
    rw [Nat.sub_sub]
    rfl

theorem emitRow_map {α β : Type} (piece : β → σ × ℕ → Except ProjectionError (σ × ℕ)) (f : α → β)
    (turn : ℕ) (as : List α) :
    emitRow out piece turn (as.map f) = emitRow out (fun a ↦ piece (f a)) turn as := by
  induction as generalizing turn with
  | nil => rfl
  | cons a as ih =>
    funext state
    rw [map_cons, emitRow, emitRow, ih]

end Emission

/-! ### The parts of a span -/

section Parts

variable {α κ : Type} {members : List (List Char × Tree)}

variable {β : Type} {body : List Char} {keys : List κ} {readKey : List Char → Option κ}

theorem mapM_map_option {γ : Type} (f : α → Option β) (g : β → γ) (as : List α) :
    (as.mapM fun a ↦ (f a).map g) = (as.mapM f).map (List.map g) := by
  induction as with
  | nil => rfl
  | cons a as ih =>
    rw [mapM_cons, mapM_cons, ih]
    cases f a with
    | none => rfl
    | some b => cases as.mapM f <;> rfl

theorem exists_pairs {R : α → β → Prop} {as : List α} {bs : List β}
    (hrelated : List.Forall₂ R as bs) :
    ∃ pairs : List (α × β), pairs.map Prod.fst = as ∧ pairs.map Prod.snd = bs ∧
      ∀ pair ∈ pairs, R pair.1 pair.2 := by
  induction hrelated with
  | nil => exact ⟨[], rfl, rfl, by simp⟩
  | @cons a b as bs hab _ ih =>
    obtain ⟨pairs, rfl, rfl, hall⟩ := ih
    exact ⟨(a, b) :: pairs, rfl, rfl, forall_mem_cons.mpr ⟨hab, hall⟩⟩

/-- An array is cut into the texts of its items. -/
theorem array_reads {items : List Tree} {spans : List (List Char)}
    (hspans : List.Forall₂ (Spells numbers) items spans) (hbody : Separated spans body)
    (hdepth : Tree.depthItems items ≤ maxDepth)
    (hcount : Tree.countItems items ≤ maxIncomingBytes) :
    array numbers ('[' :: body ++ [']']) = .ok spans := by
  obtain ⟨entries, hfst, htexts, hall, hsum⟩ := reads_items hspans fun item hitem text hspells ↦
    value_reads item hspells (Tree.depthItems_le_iff.mp hdepth item hitem)
  rw [Tree.countItems_eq, ← hsum] at hcount
  have hfound := enclosed_reads closes_array hall (htexts ▸ hbody) hcount []
  have htake := take_append blank_nil (show isBlank '[' = false by decide) (body ++ [']'])
  unfold array
  rw [nil_append] at htake
  simp only [Scanner.new, cons_append, htake, ok_bind, hfound, hfst]
  rfl

/-- An object is cut into the keys and the texts of the values of its members. -/
theorem object_reads {entries : List (List Char × List Char)} {texts : List (List Char)}
    (hmembers : SpellsMembers numbers members entries)
    (htexts : List.Forall₂ MemberText entries texts) (hbody : Separated texts body)
    (hkeys : List.Forall₂ (fun entry key ↦ readKey entry.1 = some key) entries keys)
    (hdepth : Tree.depthMembers members ≤ maxDepth)
    (hcount : Tree.countMembers members ≤ maxIncomingBytes) :
    object numbers readKey ('\x7b' :: body ++ ['\x7d']) =
      .ok (keys.zip (entries.map Prod.snd)) := by
  obtain ⟨rows, hfst, hrows, hall, hsum⟩ := reads_members hmembers htexts hkeys
    fun member hmember text hspells ↦
      value_reads member.2 hspells (Tree.depthMembers_le_iff.mp hdepth member hmember)
  rw [Tree.countMembers_eq, ← hsum] at hcount
  have hfound := enclosed_reads closes_object hall (hrows ▸ hbody) hcount []
  have htake := take_append blank_nil (show isBlank '\x7b' = false by decide) (body ++ ['\x7d'])
  unfold object
  rw [nil_append] at htake
  simp only [Scanner.new, cons_append, htake, ok_bind, hfound, hfst]
  rfl

theorem blank_of_finish {scan : Scanner} (hfinish : finish scan = .ok ()) : Blank scan.rest := by
  obtain ⟨blank, hblank, hshape⟩ := exists_blank_ws scan.rest
  unfold finish at hfinish
  split_ifs at hfinish with hws
  rwa [hshape, hws, append_nil]

/-- A text that ends with no blank has no blanks behind its closing character. -/
theorem tail_eq_nil {first second tail : List Char} {close : Char} (htail : Blank tail)
    (hshape : first ++ [close] = second ++ close :: tail) (hclose : isBlank close = false) :
    tail = [] := by
  rcases eq_nil_or_concat tail with hnil | ⟨init, c, rfl⟩
  · exact hnil
  · have hlast := congrArg List.getLast? hshape
    have hassoc : second ++ close :: init.concat c = (second ++ close :: init) ++ [c] := by simp
    rw [hassoc, getLast?_concat, getLast?_concat] at hlast
    cases hlast
    have hblank := htail close (by simp)
    rw [hclose] at hblank
    cases hblank

/-- An object that is cut has keys that are read. -/
theorem keys_of_object {raw : List Char} {found : List (κ × List Char)}
    (hspells : Spells numbers (.object members) raw)
    (hobject : object numbers readKey raw = .ok found) :
    ∃ keys, List.Forall₂ (fun member key ↦ readKey member.1 = some key) members keys := by
  have hraw := hspells
  obtain ⟨entries, texts, body, -, -, -, rfl⟩ := hspells
  unfold object at hobject
  obtain ⟨rest, htake, hobject⟩ := bind_eq_ok_iff.mp hobject
  obtain ⟨blank, hblank, hshape⟩ := of_take htake
  obtain rfl : blank = [] := blank_eq_nil hblank hshape (by decide)
  obtain ⟨⟨entries', scan⟩, henclosed, hobject⟩ := bind_eq_ok_iff.mp hobject
  obtain ⟨⟨⟩, hfinish, -⟩ := bind_eq_ok_iff.mp hobject
  obtain ⟨rows, -, hall, ⟨body', hbody', hrest⟩, -⟩ :=
    enclosed_sound (member_sound (value_sound numbers maxDepth)) henclosed
  obtain ⟨others, entries'', hothers, htexts', hkeys, -, -⟩ := exists_members hall
  have htail : scan.rest = [] := by
    have hbodies : body ++ ['\x7d'] = body' ++ '\x7d' :: scan.rest :=
      (cons.inj hshape).2.trans hrest
    exact tail_eq_nil (blank_of_finish hfinish) hbodies (by decide)
  simp only [htail] at hrest
  have hother : Spells numbers (.object others) ('\x7b' :: body ++ ['\x7d']) := by
    refine ⟨entries'', _, body', hothers, htexts', hbody', ?_⟩
    rw [hshape, hrest]
    rfl
  obtain rfl := Tree.object.inj (spells_unique _ hraw hother)
  exact ⟨rows.map fun row ↦ row.1.1, forall₂_map_right_iff.mpr hkeys⟩

theorem decodeKeys_eq_some_iff {entries : List (List Char × Tree)} :
    decodeKeys members = some entries ↔
      List.Forall₂ (fun member entry ↦ decode member.1 = some entry.1 ∧ member.2 = entry.2)
        members entries := by
  unfold decodeKeys
  induction members generalizing entries with
  | nil => simp [eq_comm]
  | cons member members ih =>
    rw [mapM_cons, forall₂_cons_left_iff]
    constructor
    · intro hmap
      obtain ⟨entry, hentry, hmap⟩ := bind_eq_some_iff.mp hmap
      obtain ⟨rest, hrest, hcons⟩ := bind_eq_some_iff.mp hmap
      obtain ⟨key, hkey, rfl⟩ := map_eq_some_iff.mp hentry
      exact ⟨(key, member.2), rest, ⟨hkey, rfl⟩, ih.mp hrest, (some.inj hcons).symm⟩
    · rintro ⟨entry, rest, ⟨hkey, hvalue⟩, hrest, rfl⟩
      rw [hkey, ih.mpr hrest, hvalue]
      rfl

/-- The decoded members of an object, each with its text and its tree. -/
theorem decoded_entries {decoded : List (List Char × Tree)} {entries : List (List Char × List Char)}
    (hmembers : SpellsMembers numbers members entries)
    (hdecoded : List.Forall₂ (fun member entry ↦ decode member.1 = some entry.1 ∧
      member.2 = entry.2) members decoded) :
    ∃ parts : List (List Char × List Char × Tree), parts.map (Prod.map id Prod.snd) = decoded ∧
      (decoded.map Prod.fst).zip (entries.map Prod.snd) = parts.map (Prod.map id Prod.fst) ∧
      List.Forall₂ (fun entry key ↦ decode entry.1 = some key) entries (decoded.map Prod.fst) ∧
      ∀ part ∈ parts, (∃ member ∈ members, member.2 = part.2.2) ∧
        Spells numbers part.2.2 part.2.1 := by
  induction hdecoded generalizing entries with
  | nil =>
    obtain rfl := hmembers
    exact ⟨[], rfl, rfl, .nil, by simp⟩
  | @cons member entry members decoded hentry _ ih =>
    obtain ⟨span, rest, rfl, -, hspan, hrest⟩ := hmembers
    obtain ⟨parts, hdecoded, hzip, hkeys, hall⟩ := ih hrest
    refine ⟨(entry.1, span, member.2) :: parts, ?_, ?_, .cons hentry.1 hkeys,
      forall_mem_cons.mpr ⟨⟨⟨member, mem_cons_self, rfl⟩, hspan⟩, ?_⟩⟩
    · rw [map_cons, hdecoded, hentry.2]
      rfl
    · rw [map_cons, map_cons, map_cons, zip_cons_cons, hzip]
      rfl
    · intro part hpart
      obtain ⟨⟨other, hother, hsame⟩, hspells⟩ := hall part hpart
      exact ⟨⟨other, mem_cons_of_mem _ hother, hsame⟩, hspells⟩

theorem forall₂_pair
    (hkeys : List.Forall₂ (fun member key ↦ readKey member.1 = some key) members keys) :
    List.Forall₂ (fun member entry ↦ readKey member.1 = some entry.1 ∧ member.2 = entry.2)
      members (keys.zip (members.map Prod.snd)) := by
  induction hkeys with
  | nil => exact .nil
  | cons hkey _ ih => exact .cons ⟨hkey, rfl⟩ ih

theorem mem_of_mem_arranged {entries : List (List Char × α)} {entry : List Char × α}
    (hmem : entry ∈ arranged entries) : entry ∈ entries :=
  LastWins.mem_of_mem_collect ((LastWins.arrange_perm index _).mem_iff.mp hmem)

end Parts

/-! ### The writer -/

section Writing

variable {σ : Type} {out : Writer σ}

/-- What is written of a tree: its text without blanks, with its number of values. -/
def printed (tree : Option Tree) : Option (List Char × ℕ) :=
  tree.map fun tree ↦ (compact tree, tree.count)

/-- A scalar is written at once. -/
theorem leaf_emits {text : List Char} {state : σ} {nodes : ℕ} (hnodes : nodes ≠ 0) {next : σ × ℕ} :
    (do
        let state ← write out state text
        return (state, nodes - 1)) = .ok next ↔
      ∃ found count written, some (text, 1) = some (found, count) ∧ count ≤ nodes ∧
        out.write state found = some written ∧ next = (written, nodes - count) := by
  rw [bind_eq_ok_iff]
  constructor
  · rintro ⟨written, hwrite, hpair⟩
    rw [pure_eq_ok_iff] at hpair
    exact ⟨text, 1, written, rfl, by omega, write_eq_ok_iff.mp hwrite, hpair.symm⟩
  · rintro ⟨found, count, written, hsame, -, hwrite, rfl⟩
    cases hsame
    exact ⟨written, write_eq_ok_iff.mpr hwrite, rfl⟩

/-- The rows of an array: its items, each printed. -/
theorem items_emit {items : List Tree} {spans : List (List Char)}
    {emit : List Char → σ × ℕ → Except ProjectionError (σ × ℕ)}
    (hspans : List.Forall₂ (Spells numbers) items spans)
    (hitems : ∀ item ∈ items, ∀ text, Spells numbers item text →
      Emits out (emit text) (printed (canon numbers item))) :
    Emits out (emitRow out emit 0 spans) ((canonItems numbers items).map fun items ↦
      (row 0 (compactItems items), Tree.countItems items)) := by
  obtain ⟨pairs, rfl, rfl, hall⟩ := exists_pairs hspans
  have hpieces : ∀ pair ∈ pairs, Emits out (emit pair.2) (printed (canon numbers pair.1)) :=
    fun pair hpair ↦ hitems pair.1 (mem_map_of_mem hpair) pair.2 (hall pair hpair)
  have hrow := emitRow_emits hpieces 0
  rw [← emitRow_map emit Prod.snd] at hrow
  have hresult : (pairs.mapM fun pair ↦ printed (canon numbers pair.1)) =
      ((pairs.map Prod.fst).mapM (canon numbers)).map
        (List.map fun tree ↦ (compact tree, tree.count)) := by
    rw [mapM_map]
    exact mapM_map_option (fun pair ↦ canon numbers pair.1) _ pairs
  rw [hresult] at hrow
  rw [canonItems_eq]
  cases hcanon : (pairs.map Prod.fst).mapM (canon numbers) with
  | none =>
    rw [hcanon] at hrow
    exact hrow
  | some trees =>
    rw [hcanon] at hrow
    simp only [Option.map_some, List.map_map] at hrow ⊢
    rw [compactItems_eq, Tree.countItems_eq]
    exact hrow

/-- The rows of an object: its members as JavaScript holds them, each printed. -/
theorem fields_emit {parts : List (List Char × List Char × Tree)}
    {emit : List Char → σ × ℕ → Except ProjectionError (σ × ℕ)}
    (hparts : ∀ part ∈ parts, Emits out (emit part.2.1) (printed (canon numbers part.2.2))) :
    Emits out (emitRow out (emitField out emit) 0 (arranged (parts.map (Prod.map id Prod.fst))))
      (((arranged (parts.map (Prod.map id Prod.snd))).mapM fun entry ↦
        (canon numbers entry.2).map (encode entry.1, ·)).map fun members ↦
          (row 0 (compactMembers members), Tree.countMembers members)) := by
  have hpieces : ∀ part ∈ arranged parts, Emits out (emitField out emit (part.1, part.2.1))
      ((printed (canon numbers part.2.2)).map fun found ↦
        (encode part.1 ++ ':' :: found.1, found.2)) :=
    fun part hpart ↦ emitField_emits (hparts part (mem_of_mem_arranged hpart))
  have hrow := emitRow_emits hpieces 0
  have hresult : ((arranged parts).mapM fun part ↦
    (printed (canon numbers part.2.2)).map fun found ↦
      (encode part.1 ++ ':' :: found.1, found.2)) =
        ((arranged parts).mapM fun part ↦
          (canon numbers part.2.2).map fun tree ↦ (encode part.1, tree)).map
            (List.map fun member ↦ (member.1 ++ ':' :: compact member.2, member.2.count)) := by
    rw [← mapM_map_option]
    congr 1
    funext part
    cases canon numbers part.2.2 <;> rfl
  rw [hresult] at hrow
  rw [arranged_map, arranged_map, mapM_map, emitRow_map]
  change Emits out _ (((arranged parts).mapM fun part ↦
    (canon numbers part.2.2).map fun tree ↦ (encode part.1, tree)).map _)
  cases hcanon : (arranged parts).mapM fun part ↦
      (canon numbers part.2.2).map fun tree ↦ (encode part.1, tree) with
  | none =>
    rw [hcanon] at hrow
    exact hrow
  | some members =>
    rw [hcanon] at hrow
    simp only [Option.map_some, List.map_map] at hrow ⊢
    rw [compactMembers_eq, Tree.countMembers_eq]
    exact hrow

/-- Without a value left nothing is written. -/
theorem emits_of_ne_zero {levels : ℕ} {first : Char} {rest : List Char} {tree : Option Tree}
    (hemit : ∀ state nodes next, nodes ≠ 0 →
      (emit out numbers (levels + 1) (first :: rest) (state, nodes) = .ok next ↔
        ∃ text count written, printed tree = some (text, count) ∧ count ≤ nodes ∧
          out.write state text = some written ∧ next = (written, nodes - count))) :
    Emits out (emit out numbers (levels + 1) (first :: rest)) (printed tree) := by
  intro state nodes next
  by_cases hnodes : nodes = 0
  · subst hnodes
    rw [emit, if_pos rfl]
    constructor
    · intro hfail
      cases hfail
    · rintro ⟨text, count, written, hprinted, hcount, -⟩
      obtain ⟨found, -, hpair⟩ := map_eq_some_iff.mp hprinted
      obtain ⟨-, rfl⟩ := Prod.mk.inj hpair
      have hpos := found.count_pos
      omega
  · exact hemit state nodes next hnodes

/-- The writer writes the canonical form of the tree that its span spells, and fails when there is
none. Assumes: enough levels for the depth of the tree, and no more values than a scanner visits. -/
theorem emit_emits (tree : Tree) : ∀ {levels : ℕ} {raw : List Char}, Spells numbers tree raw →
    tree.depth ≤ levels → levels ≤ maxDepth + 1 → tree.count ≤ maxIncomingBytes + 1 →
      Emits out (emit out numbers levels raw) (printed (canon numbers tree)) := by
  induction tree using Tree.induct with
  | literal word =>
    intro levels raw hspells hdepth _ _
    obtain ⟨levels, rfl⟩ := exists_levels hdepth
    obtain ⟨rfl, hword⟩ := hspells
    have hwrite : ∀ first rest, (first = 't' ∨ first = 'f' ∨ first = 'n') →
        Emits out (emit out numbers (levels + 1) (first :: rest))
          (printed (canon numbers (.literal (first :: rest)))) := by
      intro first rest hfirst
      refine emits_of_ne_zero fun state nodes next hnodes ↦ ?_
      have hother : first ≠ '\x7b' ∧ first ≠ '[' ∧ first ≠ '"' := by
        rcases hfirst with rfl | rfl | rfl <;> decide
      rw [emit, if_neg hnodes]
      simp only [hother.1, hother.2.1, hother.2.2, hfirst, if_true, if_false]
      exact leaf_emits hnodes
    simp only [words, mem_cons, not_mem_nil, or_false] at hword
    rcases hword with rfl | rfl | rfl
    · exact hwrite 't' _ (.inl rfl)
    · exact hwrite 'f' _ (.inr (.inl rfl))
    · exact hwrite 'n' _ (.inr (.inr rfl))
  | number token =>
    intro levels raw hspells hdepth _ _
    obtain ⟨levels, rfl⟩ := exists_levels hdepth
    obtain ⟨rfl, haccepts⟩ := hspells
    obtain ⟨first, rest, rfl, hfirst⟩ := (numbers.isNumber_of_accepts haccepts).head
    obtain ⟨-, hquote, hbrace, hbracket, hword⟩ := ne_of_number_head hfirst
    refine emits_of_ne_zero fun state nodes next hnodes ↦ ?_
    rw [emit, if_neg hnodes]
    simp only [hquote, hbrace, hbracket, hword, if_false]
    rw [canon]
    cases hread : numbers.read (first :: rest) with
    | none => simp [printed]
    | some x => exact leaf_emits hnodes
  | string token =>
    intro levels raw hspells hdepth _ _
    obtain ⟨levels, rfl⟩ := exists_levels hdepth
    obtain ⟨rfl, body, -, rfl⟩ := hspells
    refine emits_of_ne_zero fun state nodes next hnodes ↦ ?_
    rw [canon, cons_append, emit, if_neg hnodes]
    cases hdecode : decode ('"' :: (body ++ ['"'])) with
    | none => simp [printed]
    | some text => exact leaf_emits hnodes
  | array items ih =>
    intro levels raw hspells hdepth hlevels hcount
    obtain ⟨levels, rfl⟩ := exists_levels hdepth
    obtain ⟨spans, body, hspans, hbody, rfl⟩ := hspells
    rw [Tree.depth, Nat.add_comm, Nat.add_le_add_iff_right] at hdepth
    rw [Tree.count, Nat.add_comm, Nat.add_le_add_iff_right] at hcount
    rw [spellsItems_iff] at hspans
    have hitems := items_emit hspans fun item hitem text htext ↦ ih item hitem htext
      (Tree.depthItems_le_iff.mp hdepth item hitem) (by omega)
      ((Tree.count_le_countItems hitem).trans (by omega))
    have harray := array_reads hspans hbody (by omega) hcount
    have hprinted : printed (canon numbers (.array items)) =
        ((canonItems numbers items).map fun items ↦
          (row 0 (compactItems items), Tree.countItems items)).map fun found ↦
            ('[' :: found.1 ++ [']'], 1 + found.2) := by
      rw [canon]
      cases canonItems numbers items <;> rfl
    rw [cons_append] at harray ⊢
    refine emits_of_ne_zero fun state nodes next hnodes ↦ ?_
    rw [emit, if_neg hnodes, if_neg (by decide), if_pos rfl, harray, ok_bind, hprinted]
    exact enclosed_emits hitems hnodes
  | object members ih =>
    intro levels raw hspells hdepth hlevels hcount
    obtain ⟨levels, rfl⟩ := exists_levels hdepth
    have hraw := hspells
    obtain ⟨entries, texts, body, hmembers, htexts, hbody, rfl⟩ := hspells
    rw [Tree.depth, Nat.add_comm, Nat.add_le_add_iff_right] at hdepth
    rw [Tree.count, Nat.add_comm, Nat.add_le_add_iff_right] at hcount
    rw [cons_append] at hraw ⊢
    refine emits_of_ne_zero fun state nodes next hnodes ↦ ?_
    rw [emit, if_neg hnodes, if_pos rfl, canon_object]
    cases hdecoded : decodeKeys members with
    | none =>
      constructor
      · intro hrun
        obtain ⟨opened, -, hrest⟩ := bind_eq_ok_iff.mp hrun
        obtain ⟨found, hfields, -⟩ := bind_eq_ok_iff.mp hrest
        obtain ⟨decoded, hobject, -⟩ := bind_eq_ok_iff.mp hfields
        obtain ⟨keys, hkeys⟩ := keys_of_object hraw hobject
        have hsome := decodeKeys_eq_some_iff.mpr (forall₂_pair hkeys)
        rw [hdecoded] at hsome
        cases hsome
      · rintro ⟨text, count, written, hprinted, -⟩
        cases hprinted
    | some decoded =>
      obtain ⟨parts, rfl, hzip, hkeys, hall⟩ :=
        decoded_entries hmembers (decodeKeys_eq_some_iff.mp hdecoded)
      have hobject := object_reads hmembers htexts hbody hkeys (by omega) hcount
      rw [cons_append, hzip] at hobject
      have hparts : ∀ part ∈ parts,
          Emits out (emit out numbers levels part.2.1) (printed (canon numbers part.2.2)) := by
        intro part hpart
        obtain ⟨⟨member, hmember, hsame⟩, hspells⟩ := hall part hpart
        rw [← hsame] at hspells ⊢
        exact ih member hmember hspells (Tree.depthMembers_le_iff.mp hdepth member hmember)
          (by omega) ((Tree.count_le_countMembers hmember).trans (by omega))
      have hfields : fields numbers ('\x7b' :: (body ++ ['\x7d'])) =
          .ok (arranged (parts.map (Prod.map id Prod.fst))) := by
        unfold fields
        rw [hobject]
        rfl
      have hprinted : ∀ found : Option (List (List Char × Tree)), printed (found.map .object) =
          (found.map fun members ↦ (row 0 (compactMembers members), Tree.countMembers members)).map
            fun found ↦ ('\x7b' :: found.1 ++ ['\x7d'], 1 + found.2) := by
        intro found
        cases found <;> rfl
      simp only [bind_some, hfields, ok_bind, hprinted]
      exact enclosed_emits (fields_emit hparts) hnodes

end Writing

end ObsMcp.Transform
