import ObsMcp.Transform.KeyOrder

/-!
# The canonical form

What the canonical text of a span is, told apart from how it is computed. `Accepted` is a span that
the scanner hands out, and `accepted_iff` says that it spells a tree within the bounds of the
scanner. The canonical tree means the same as the tree of the span (`meaning_canon`), its objects
are in the order of JavaScript at every level (`inKeyOrder_canon`), its text without blanks spells
it (`spells_canon`), and it is its own canonical form (`canon_canon`). `canonical_text` says this
of the texts that `canonical` returns, and that the pass which counts and the pass which writes
agree on the number of bytes.
-/

namespace ObsMcp.Transform

open Foundations Scanner List Option

open Session (ProjectionError)

variable {numbers : Numbers}

/-! ### The parts of a canonical tree -/

/-- The members whose keys are written anew. -/
def encodeKeys (entries : List (List Char × Tree)) : List (List Char × Tree) :=
  entries.map (Prod.map encode id)

theorem decodeKeys_encodeKeys (entries : List (List Char × Tree)) :
    decodeKeys (encodeKeys entries) = some entries := by
  rw [decodeKeys_eq_some_iff, encodeKeys, forall₂_map_left_iff, forall₂_same]
  exact fun entry _ ↦ ⟨decode_encode entry.1, rfl⟩

variable {out tree : Tree} {members : List (List Char × Tree)}

theorem canon_array_eq_some_iff {items : List Tree} :
    canon numbers (.array items) = some out ↔ ∃ others,
      List.Forall₂ (fun item other ↦ canon numbers item = some other) items others ∧
        out = .array others := by
  rw [canon, canonItems_eq, map_eq_some_iff]
  constructor
  · rintro ⟨others, hothers, rfl⟩
    exact ⟨others, mapM_eq_some_iff.mp hothers, rfl⟩
  · rintro ⟨others, hothers, rfl⟩
    exact ⟨others, mapM_eq_some_iff.mpr hothers, rfl⟩

/-- A canonical object holds the arranged entries of the object, each in its canonical form. -/
theorem canon_object_eq_some_iff :
    canon numbers (.object members) = some out ↔ ∃ entries others,
      decodeKeys members = some entries ∧
        List.Forall₂ (fun entry other ↦ entry.1 = other.1 ∧ canon numbers entry.2 = some other.2)
          (arranged entries) others ∧ out = .object (encodeKeys others) := by
  have hmapM : ∀ entries : List (List Char × Tree),
      (entries.mapM fun entry ↦ (canon numbers entry.2).map (encode entry.1, ·)) =
        (entries.mapM fun entry ↦ (canon numbers entry.2).map (entry.1, ·)).map encodeKeys := by
    intro entries
    unfold encodeKeys
    rw [← mapM_map_option]
    congr 1
    funext entry
    cases canon numbers entry.2 <;> rfl
  have hpart : ∀ entry other : List Char × Tree,
      (canon numbers entry.2).map (entry.1, ·) = some other ↔
        entry.1 = other.1 ∧ canon numbers entry.2 = some other.2 := by
    intro entry other
    rw [map_eq_some_iff]
    constructor
    · rintro ⟨tree, htree, rfl⟩
      exact ⟨rfl, htree⟩
    · rintro ⟨hkey, htree⟩
      exact ⟨other.2, htree, Prod.ext hkey rfl⟩
  rw [canon_object, bind_eq_some_iff]
  constructor
  · rintro ⟨entries, hentries, hout⟩
    obtain ⟨found, hfound, rfl⟩ := map_eq_some_iff.mp hout
    rw [hmapM] at hfound
    obtain ⟨others, hothers, rfl⟩ := map_eq_some_iff.mp hfound
    exact ⟨entries, others, hentries,
      (mapM_eq_some_iff.mp hothers).imp fun entry other ↦ (hpart entry other).mp, rfl⟩
  · rintro ⟨entries, others, hentries, hothers, rfl⟩
    refine ⟨entries, hentries, ?_⟩
    rw [hmapM, mapM_eq_some_iff.mpr (hothers.imp fun entry other ↦ (hpart entry other).mpr)]
    rfl

/-- The values of the decoded entries are those of the members. -/
theorem exists_member {entries : List (List Char × Tree)} {entry : List Char × Tree}
    (hentries : decodeKeys members = some entries) (hmem : entry ∈ arranged entries) :
    ∃ member ∈ members, member.2 = entry.2 := by
  obtain ⟨pairs, rfl, rfl, hall⟩ := exists_pairs (decodeKeys_eq_some_iff.mp hentries)
  obtain ⟨pair, hpair, rfl⟩ := mem_map.mp (mem_of_mem_arranged hmem)
  exact ⟨pair.1, mem_map_of_mem hpair, (hall pair hpair).2⟩

/-- An object whose entries are arranged, with the canonical members side by side: an entry has the
key of its canonical member and the value of a member of the object. -/
structure Sides (members entries : List (List Char × Tree))
    (pairs : List ((List Char × Tree) × (List Char × Tree))) : Prop where
  decoded : decodeKeys members = some entries
  arranged : pairs.map Prod.fst = arranged entries
  key : ∀ pair ∈ pairs, pair.1.1 = pair.2.1
  source : ∀ pair ∈ pairs, ∃ member ∈ members, member.2 = pair.1.2

section Induction

variable {motive : Tree → Tree → Prop} (literal : ∀ word, motive (.literal word) (.literal word))
  (number : ∀ token x, numbers.read token = some x →
    motive (.number token) (.number (numbers.render x)))
  (string : ∀ token s, decode token = some s → motive (.string token) (.string (encode s)))
  (array : ∀ pairs : List (Tree × Tree), (∀ pair ∈ pairs, motive pair.1 pair.2) →
    motive (.array (pairs.map Prod.fst)) (.array (pairs.map Prod.snd)))
  (object : ∀ members entries pairs, Sides members entries pairs →
    (∀ pair ∈ pairs, motive pair.1.2 pair.2.2) →
      motive (.object members) (.object (encodeKeys (pairs.map Prod.snd))))

include literal number string array object

/-- Induction over a tree and its canonical form. -/
theorem canon_induct (tree : Tree) :
    ∀ {out : Tree}, canon numbers tree = some out → motive tree out := by
  induction tree using Tree.induct with
  | literal word =>
    intro out hcanon
    rw [canon] at hcanon
    cases hcanon
    exact literal word
  | number token =>
    intro out hcanon
    rw [canon] at hcanon
    obtain ⟨x, hread, rfl⟩ := map_eq_some_iff.mp hcanon
    exact number token x hread
  | string token =>
    intro out hcanon
    rw [canon] at hcanon
    obtain ⟨s, hdecode, rfl⟩ := map_eq_some_iff.mp hcanon
    exact string token s hdecode
  | array items ih =>
    intro out hcanon
    obtain ⟨others, hothers, rfl⟩ := canon_array_eq_some_iff.mp hcanon
    obtain ⟨pairs, rfl, rfl, hall⟩ := exists_pairs hothers
    exact array pairs fun pair hpair ↦ ih _ (mem_map_of_mem hpair) (hall pair hpair)
  | object members ih =>
    intro out hcanon
    obtain ⟨entries, others, hentries, hothers, rfl⟩ := canon_object_eq_some_iff.mp hcanon
    obtain ⟨pairs, hfst, rfl, hall⟩ := exists_pairs hothers
    have hsource : ∀ pair ∈ pairs, ∃ member ∈ members, member.2 = pair.1.2 :=
      fun pair hpair ↦ exists_member hentries (hfst ▸ mem_map_of_mem hpair)
    refine object members entries pairs ⟨hentries, hfst, fun pair hpair ↦ (hall pair hpair).1,
      hsource⟩ fun pair hpair ↦ ?_
    obtain ⟨member, hmember, hsame⟩ := hsource pair hpair
    exact hsame ▸ ih member hmember (hsame ▸ (hall pair hpair).2)

end Induction

/-- The decoded keys of the canonical members are those of the arranged entries. -/
theorem Sides.keys {entries : List (List Char × Tree)}
    {pairs : List ((List Char × Tree) × (List Char × Tree))}
    (hsides : Sides members entries pairs) :
    (pairs.map Prod.snd).map Prod.fst = (Transform.arranged entries).map Prod.fst := by
  rw [← hsides.arranged, List.map_map, List.map_map]
  exact List.map_congr_left fun pair hpair ↦ (hsides.key pair hpair).symm

/-! ### Bounds -/

/-- The canonical form is nested no deeper. -/
theorem depth_canon (hcanon : canon numbers tree = some out) : out.depth ≤ tree.depth := by
  refine canon_induct (motive := fun tree out ↦ out.depth ≤ tree.depth) (fun _ ↦ le_rfl)
    (fun _ _ _ ↦ le_rfl) (fun _ _ _ ↦ le_rfl) ?_ ?_ tree hcanon
  · intro pairs ih
    rw [Tree.depth, Tree.depth, Nat.add_le_add_iff_left, Tree.depthItems_le_iff]
    intro other hother
    obtain ⟨pair, hpair, rfl⟩ := mem_map.mp hother
    exact (ih pair hpair).trans (Tree.depthItems_le_iff.mp le_rfl _ (mem_map_of_mem hpair))
  · intro members entries pairs hsides ih
    rw [Tree.depth, Tree.depth, Nat.add_le_add_iff_left, Tree.depthMembers_le_iff]
    intro found hfound
    obtain ⟨other, hother, rfl⟩ := mem_map.mp hfound
    obtain ⟨pair, hpair, rfl⟩ := mem_map.mp hother
    obtain ⟨member, hmember, hsame⟩ := hsides.source pair hpair
    have hmemberDepth := Tree.depthMembers_le_iff.mp le_rfl member hmember
    rw [hsame] at hmemberDepth
    exact (ih pair hpair).trans hmemberDepth

/-- The canonical form has no more values. -/
theorem count_canon (hcanon : canon numbers tree = some out) : out.count ≤ tree.count := by
  refine canon_induct (motive := fun tree out ↦ out.count ≤ tree.count) (fun _ ↦ le_rfl)
    (fun _ _ _ ↦ le_rfl) (fun _ _ _ ↦ le_rfl) ?_ ?_ tree hcanon
  · intro pairs ih
    rw [Tree.count, Tree.count, Nat.add_le_add_iff_left, Tree.countItems_eq, Tree.countItems_eq,
      List.map_map, List.map_map]
    exact List.sum_le_sum ih
  · intro members entries pairs hsides ih
    have hmembers : (members.map fun member ↦ member.2.count) =
        entries.map fun entry ↦ entry.2.count := by
      obtain ⟨sources, rfl, rfl, hall⟩ := exists_pairs (decodeKeys_eq_some_iff.mp hsides.decoded)
      rw [List.map_map, List.map_map]
      exact List.map_congr_left fun source hsource ↦ congrArg Tree.count (hall source hsource).2
    rw [Tree.count, Tree.count, Nat.add_le_add_iff_left, Tree.countMembers_eq,
      Tree.countMembers_eq]
    calc
      ((encodeKeys (pairs.map Prod.snd)).map fun member ↦ member.2.count).sum
          = (pairs.map fun pair ↦ pair.2.2.count).sum := by
        rw [encodeKeys, List.map_map, List.map_map]
        rfl
      _ ≤ (pairs.map fun pair ↦ pair.1.2.count).sum := List.sum_le_sum ih
      _ = ((arranged entries).map fun entry ↦ entry.2.count).sum := by
        rw [← hsides.arranged, List.map_map]
        rfl
      _ ≤ (entries.map fun entry ↦ entry.2.count).sum := sum_arranged_le Tree.count entries
      _ = (members.map fun member ↦ member.2.count).sum := by rw [hmembers]

/-! ### The text -/

theorem SpellsMembers.exists_text {entries : List (List Char × List Char)}
    (hmembers : SpellsMembers numbers members entries) {member : List Char × Tree}
    (hmember : member ∈ members) : ∃ text, Spells numbers member.2 text := by
  obtain ⟨pairs, rfl, -, hall⟩ := exists_pairs (spellsMembers_iff.mp hmembers)
  obtain ⟨pair, hpair, rfl⟩ := mem_map.mp hmember
  exact ⟨pair.2.2, (hall pair hpair).2.2⟩

/-- The text without blanks spells the canonical form. -/
theorem spells_canon (hcanon : canon numbers tree = some out) :
    (∃ raw, Spells numbers tree raw) → Spells numbers out (compact out) := by
  refine canon_induct (motive := fun tree out ↦ (∃ raw, Spells numbers tree raw) →
    Spells numbers out (compact out)) ?_ ?_ ?_ ?_ ?_ tree hcanon
  · rintro word ⟨raw, rfl, hword⟩
    exact ⟨rfl, hword⟩
  · intro token x _ _
    exact ⟨rfl, numbers.accepts_render x⟩
  · intro token s _ _
    exact ⟨rfl, isString_encode s⟩
  · rintro pairs ih ⟨raw, spans, body, hspans, -, -⟩
    obtain ⟨found, hfst, -, hall⟩ := exists_pairs (spellsItems_iff.mp hspans)
    refine ⟨compactItems (pairs.map Prod.snd), _, ?_, separated_row _, rfl⟩
    rw [spellsItems_iff, compactItems_eq, forall₂_map_right_iff, forall₂_same]
    intro other hother
    obtain ⟨pair, hpair, rfl⟩ := mem_map.mp hother
    have hitem : pair.1 ∈ found.map Prod.fst := hfst ▸ mem_map_of_mem hpair
    obtain ⟨source, hsource, hsame⟩ := mem_map.mp hitem
    exact ih pair hpair ⟨source.2, hsame ▸ hall source hsource⟩
  · rintro members entries pairs hsides ih ⟨raw, spans, texts, body, hmembers, -, -, -⟩
    refine ⟨(encodeKeys (pairs.map Prod.snd)).map (Prod.map id compact),
      compactMembers (encodeKeys (pairs.map Prod.snd)), _, ?_, ?_, separated_row _, rfl⟩
    · rw [spellsMembers_iff, forall₂_map_right_iff, forall₂_same]
      intro found hfound
      obtain ⟨other, hother, rfl⟩ := mem_map.mp hfound
      obtain ⟨pair, hpair, rfl⟩ := mem_map.mp hother
      obtain ⟨member, hmember, hsame⟩ := hsides.source pair hpair
      exact ⟨rfl, isString_encode _, ih pair hpair (hsame ▸ hmembers.exists_text hmember)⟩
    · rw [compactMembers_eq, forall₂_map_left_iff, forall₂_map_right_iff,
        forall₂_same]
      intro found _
      exact ⟨[], [], blank_nil, blank_nil, by simp⟩

/-! ### The meaning -/

/-- The number of a token as the renderer maps it: read, rendered and read again. -/
def Numbers.rendered (numbers : Numbers) (token : List Char) : Option numbers.Float :=
  (numbers.read token).bind fun x ↦ numbers.read (numbers.render x)

/-- The canonical form means the same, with the numbers as the renderer maps them. -/
theorem meaning_canon (hcanon : canon numbers tree = some out) :
    meaning numbers.read out = meaning numbers.rendered tree := by
  refine canon_induct
    (motive := fun tree out ↦ meaning numbers.read out = meaning numbers.rendered tree)
    (fun word ↦ ?_) ?_ ?_ ?_ ?_ tree hcanon
  · rw [meaning, meaning]
  · intro token x hread
    rw [meaning, meaning, Numbers.rendered, hread, bind_some]
  · intro token s hdecode
    rw [meaning, meaning, decode_encode, hdecode]
  · intro pairs ih
    rw [meaning, meaning, meaningItems_eq, meaningItems_eq, List.map_map, List.map_map]
    exact congrArg Value.array (List.map_congr_left ih)
  · intro members entries pairs hsides ih
    rw [meaning, meaning]
    refine congrArg Value.object (funext fun key ↦ ?_)
    rw [meaningMembers_eq _ (decodeKeys_eq_some_iff.mp (decodeKeys_encodeKeys _)),
      meaningMembers_eq _ (decodeKeys_eq_some_iff.mp hsides.decoded), ← last_arranged entries,
      ← LastWins.last_map, ← LastWins.last_map, ← hsides.arranged, List.map_map, List.map_map]
    refine congrArg (LastWins.last · key) (List.map_congr_left fun pair hpair ↦ ?_)
    exact Prod.ext (hsides.key pair hpair).symm (ih pair hpair)

/-! ### The order of the keys -/

/-- A tree is written in the order of JavaScript: at every level, the keys of an object stand in the
order that JavaScript gives to the keys of the object as it was written. -/
inductive InKeyOrder : Tree → Tree → Prop
  | literal (word : List Char) : InKeyOrder (.literal word) (.literal word)
  | number (token found : List Char) : InKeyOrder (.number token) (.number found)
  | string (token found : List Char) : InKeyOrder (.string token) (.string found)
  | array {items others : List Tree} (hitems : List.Forall₂ InKeyOrder items others) :
      InKeyOrder (.array items) (.array others)
  | object {members found entries others : List (List Char × Tree)}
      (hwritten : decodeKeys members = some entries) (hfound : decodeKeys found = some others)
      (hkeys : KeyOrder (entries.map Prod.fst) (others.map Prod.fst))
      (hvalues : ∀ key value other, LastWins.last entries key = some value →
        (key, other) ∈ others → InKeyOrder value other) :
      InKeyOrder (.object members) (.object found)

/-- The canonical form is in the order of JavaScript. -/
theorem inKeyOrder_canon (hcanon : canon numbers tree = some out) : InKeyOrder tree out := by
  refine canon_induct .literal (fun token _ _ ↦ .number token _) (fun token _ _ ↦ .string token _)
    ?_ ?_ tree hcanon
  · intro pairs ih
    refine .array ?_
    rw [forall₂_map_left_iff, forall₂_map_right_iff, forall₂_same]
    exact ih
  · intro members entries pairs hsides ih
    refine .object hsides.decoded (decodeKeys_encodeKeys _)
      (hsides.keys ▸ keyOrder_arranged entries)
      fun key value other hlast hother ↦ ?_
    obtain ⟨pair, hpair, hsame⟩ := mem_map.mp hother
    have hmem : (key, pair.1.2) ∈ arranged entries := by
      rw [← hsides.arranged]
      refine mem_map.mpr ⟨pair, hpair, Prod.ext ?_ rfl⟩
      rw [hsides.key pair hpair, hsame]
    rw [← last_arranged, LastWins.last_of_mem (nodup_keys_arranged entries) hmem] at hlast
    have hvalue := ih pair hpair
    rw [some.inj hlast, hsame] at hvalue
    exact hvalue

/-! ### The canonical form of a canonical form -/

/-- Assumes: the renderer is a fixed point on its own output. The canonical form is its own
canonical form. -/
theorem canon_canon
    (hfixed : ∀ x, (numbers.read (numbers.render x)).map numbers.render = some (numbers.render x))
    (hcanon : canon numbers tree = some out) : canon numbers out = some out := by
  refine canon_induct (motive := fun _ out ↦ canon numbers out = some out) ?_ ?_ ?_ ?_ ?_
    tree hcanon
  · intro word
    rw [canon]
  · intro token x _
    obtain ⟨y, hread, hrender⟩ := map_eq_some_iff.mp (hfixed x)
    rw [canon, hread, map_some, hrender]
  · intro token s _
    rw [canon, decode_encode, map_some]
  · intro pairs ih
    refine canon_array_eq_some_iff.mpr ⟨_, ?_, rfl⟩
    rw [forall₂_map_left_iff, forall₂_map_right_iff, forall₂_same]
    exact ih
  · intro members entries pairs hsides ih
    refine canon_object_eq_some_iff.mpr
      ⟨_, pairs.map Prod.snd, decodeKeys_encodeKeys _, ?_, rfl⟩
    rw [arranged_eq_self hsides.keys, forall₂_map_left_iff, forall₂_map_right_iff,
      forall₂_same]
    exact fun pair hpair ↦ ⟨rfl, ih pair hpair⟩

/-! ### The spans of the scanner -/

/-- A span that the scanner hands out as a value, with at most the levels and the values that it
allows. -/
def Accepted (numbers : Numbers) (raw : List Char) : Prop :=
  ∃ levels scan next, levels ≤ maxDepth + 1 ∧ scan.nodes ≤ maxIncomingBytes ∧
    value numbers levels scan = .ok (raw, next)

/-- The scanner hands out the texts of the trees within its bounds. -/
theorem accepted_iff {raw : List Char} : Accepted numbers raw ↔ ∃ tree, Spells numbers tree raw ∧
    tree.depth ≤ maxDepth + 1 ∧ tree.count ≤ maxIncomingBytes := by
  constructor
  · rintro ⟨levels, scan, next, hlevels, hnodes, hvalue⟩
    obtain ⟨-, text, count, -, -, ⟨rfl, tree, hspells, hdepth, rfl⟩, hcount⟩ :=
      value_sound numbers levels _ _ _ hvalue
    exact ⟨tree, hspells, hdepth.trans hlevels, by omega⟩
  · rintro ⟨tree, hspells, hdepth, hcount⟩
    have hread := value_reads tree hspells hdepth [] [] maxIncomingBytes blank_nil
      (fun c hc ↦ (nomatch hc)) hcount
    rw [nil_append, append_nil] at hread
    exact ⟨maxDepth + 1, _, _, le_rfl, le_rfl, hread⟩

section Passes

variable {tree : Tree} {raw : List Char} (hspells : Spells numbers tree raw)
  (hdepth : tree.depth ≤ maxDepth + 1) (hcount : tree.count ≤ maxIncomingBytes)

include hspells hdepth hcount

variable {limit : ℕ}

/-- The pass that counts finds the bytes of the canonical text, when there are no more than may be
written. -/
theorem countPass_iff {bytes : ℕ} :
    (∃ count nodes, countPass numbers raw limit = .ok (count, nodes) ∧ count.used = bytes) ↔
      ∃ out, canon numbers tree = some out ∧ out.count ≤ limit ∧ Text.size (compact out) ≤ limit ∧
        bytes = Text.size (compact out) := by
  have hemits : Emits Count.writer (emit Count.writer numbers (maxDepth + 1) raw)
      (printed (canon numbers tree)) :=
    emit_emits tree hspells hdepth le_rfl (hcount.trans (Nat.le_succ _))
  constructor
  · rintro ⟨count, nodes, hpass, rfl⟩
    obtain ⟨text, total, written, hprinted, htotal, hwrite, hnext⟩ := (hemits _ _ _).mp hpass
    obtain ⟨out, hout, hpair⟩ := map_eq_some_iff.mp hprinted
    cases hpair
    obtain ⟨rfl, -⟩ := Prod.mk.inj hnext
    simp only [Count.writer, Nat.zero_add] at hwrite
    split_ifs at hwrite with hsize
    cases hwrite
    exact ⟨out, hout, htotal, hsize, rfl⟩
  · rintro ⟨out, hout, htotal, hsize, rfl⟩
    refine ⟨⟨Text.size (compact out), limit, hsize⟩, limit - out.count, (hemits _ _ _).mpr
      ⟨compact out, out.count, _, by rw [hout, printed, map_some], htotal, ?_, rfl⟩, rfl⟩
    simp only [Count.writer, Nat.zero_add, hsize, dite_true]

/-- The pass that writes keeps the canonical text. -/
theorem writePass_iff {nodes : ℕ} {text : List Char} :
    writePass numbers raw limit = .ok (text, nodes) ↔
      ∃ out, canon numbers tree = some out ∧ out.count ≤ limit ∧ text = compact out ∧
        nodes = limit - out.count := by
  have hemits : Emits textWriter (emit textWriter numbers (maxDepth + 1) raw)
      (printed (canon numbers tree)) :=
    emit_emits tree hspells hdepth le_rfl (hcount.trans (Nat.le_succ _))
  constructor
  · intro hpass
    obtain ⟨found, total, written, hprinted, htotal, hwrite, hnext⟩ := (hemits _ _ _).mp hpass
    obtain ⟨out, hout, hpair⟩ := map_eq_some_iff.mp hprinted
    cases hpair
    cases hnext
    exact ⟨out, hout, htotal, (some.inj hwrite).symm, rfl⟩
  · rintro ⟨out, hout, htotal, rfl, rfl⟩
    exact (hemits _ _ _).mpr ⟨compact out, out.count, compact out,
      by rw [hout, printed, map_some], htotal, rfl, rfl⟩

/-- The canonical text is the text without blanks of the canonical tree, when it has no more values
and bytes than may be written and no more bytes than the pool has free. -/
theorem canonical_iff {free : ℕ} {text : List Char} :
    canonical numbers raw limit free = .ok text ↔
      ∃ out, canon numbers tree = some out ∧ out.count ≤ limit ∧ Text.size (compact out) ≤ limit ∧
        Text.size (compact out) ≤ free ∧ text = compact out := by
  unfold canonical
  rw [bind_eq_ok_iff]
  constructor
  · rintro ⟨⟨count, nodes⟩, hpass, hrun⟩
    obtain ⟨out, hout, htotal, hsize, hused⟩ :=
      (countPass_iff hspells hdepth hcount).mp ⟨count, nodes, hpass, rfl⟩
    simp only at hrun
    split_ifs at hrun with hfree
    obtain ⟨⟨found, nodes'⟩, hwrite, hpair⟩ := bind_eq_ok_iff.mp hrun
    rw [pure_eq_ok_iff] at hpair
    obtain ⟨other, hother, -, rfl, -⟩ := (writePass_iff hspells hdepth hcount).mp hwrite
    cases hout.symm.trans hother
    exact ⟨out, hout, htotal, hsize, by omega, hpair.symm⟩
  · rintro ⟨out, hout, htotal, hsize, hfree, rfl⟩
    obtain ⟨count, nodes, hpass, hused⟩ :=
      (countPass_iff hspells hdepth hcount).mpr ⟨out, hout, htotal, hsize, rfl⟩
    have hwrite := (writePass_iff hspells hdepth hcount).mpr ⟨out, hout, htotal, rfl, rfl⟩
    refine ⟨(count, nodes), hpass, ?_⟩
    simp only
    rw [if_neg (by omega), hwrite]
    rfl

end Passes

/-- A span that the scanner accepts spells one tree. The pass that counts succeeds with a number of
bytes exactly when the pass that writes succeeds with so many, no more than may be written. A text
is returned exactly when the tree has a canonical form and there is room for it. Each text that is
returned spells, without blanks, a tree that means the same with the last member of each key and
the numbers as the renderer maps them, its keys are in the order of JavaScript at every level, and
it is accepted in its turn and, when the renderer is a fixed point on its own output, returned as
it is. -/
theorem canonical_text (numbers : Numbers) (raw : {raw : List Char // Accepted numbers raw})
    (limit free : ℕ) :
    ∃ tree, (∀ other, Spells numbers other raw ↔ other = tree) ∧
      (∀ bytes,
        (∃ count nodes, countPass numbers raw limit = .ok (count, nodes) ∧ count.used = bytes) ↔
          bytes ≤ limit ∧
            ∃ text nodes, writePass numbers raw limit = .ok (text, nodes) ∧
              Text.size text = bytes) ∧
      ((∃ text, canonical numbers raw limit free = .ok text) ↔
        ∃ out, canon numbers tree = some out ∧ out.count ≤ limit ∧
          Text.size (compact out) ≤ limit ∧ Text.size (compact out) ≤ free) ∧
      (∀ text, canonical numbers raw limit free = .ok text → ∃ out, Spells numbers out text ∧
        text = compact out ∧ meaning numbers.read out = meaning numbers.rendered tree ∧
          InKeyOrder tree out ∧ Accepted numbers text ∧
            ((∀ x, (numbers.read (numbers.render x)).map numbers.render =
                some (numbers.render x)) →
              canonical numbers text limit free = .ok text)) ∧
      (∀ key n, index key = some n ↔ key = (toString n).toList ∧ n ≤ 2 ^ 32 - 2) := by
  obtain ⟨raw, hraw⟩ := raw
  obtain ⟨tree, hspells, hdepth, hcount⟩ := accepted_iff.mp hraw
  refine ⟨tree, fun other ↦ ⟨fun hother ↦ spells_unique other hother hspells, ?_⟩, ?_, ?_, ?_,
    fun key n ↦ index_eq_some_iff⟩
  · rintro rfl
    exact hspells
  · intro bytes
    rw [countPass_iff hspells hdepth hcount]
    constructor
    · rintro ⟨out, hout, htotal, hsize, rfl⟩
      exact ⟨hsize, compact out, limit - out.count,
        (writePass_iff hspells hdepth hcount).mpr ⟨out, hout, htotal, rfl, rfl⟩, rfl⟩
    · rintro ⟨hsize, text, nodes, hwrite, rfl⟩
      obtain ⟨out, hout, htotal, rfl, -⟩ := (writePass_iff hspells hdepth hcount).mp hwrite
      exact ⟨out, hout, htotal, hsize, rfl⟩
  · constructor
    · rintro ⟨text, htext⟩
      obtain ⟨out, hout, htotal, hsize, hfree, -⟩ :=
        (canonical_iff hspells hdepth hcount).mp htext
      exact ⟨out, hout, htotal, hsize, hfree⟩
    · rintro ⟨out, hout, htotal, hsize, hfree⟩
      exact ⟨compact out, (canonical_iff hspells hdepth hcount).mpr
        ⟨out, hout, htotal, hsize, hfree, rfl⟩⟩
  · intro text htext
    obtain ⟨out, hout, htotal, hsize, hfree, rfl⟩ :=
      (canonical_iff hspells hdepth hcount).mp htext
    have htextSpells := spells_canon hout ⟨raw, hspells⟩
    have htextDepth := (depth_canon hout).trans hdepth
    have htextCount := (count_canon hout).trans hcount
    refine ⟨out, htextSpells, rfl, meaning_canon hout, inKeyOrder_canon hout,
      accepted_iff.mpr ⟨out, htextSpells, htextDepth, htextCount⟩, fun hfixed ↦ ?_⟩
    exact (canonical_iff htextSpells htextDepth htextCount).mpr
      ⟨out, canon_canon hfixed hout, htotal, hsize, hfree, rfl⟩

end ObsMcp.Transform
