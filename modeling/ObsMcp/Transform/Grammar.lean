import ObsMcp.Transform.Scanner

/-!
# The texts of JSON documents

The grammar of JSON and the meaning of its texts, independent of the scanner. A `Tree` is a document
as it is written: the tokens of its numbers, strings and keys, and the members of its objects with
duplicates and in their order. `Spells` says that a text spells a tree, with any blanks between the
tokens, and `compact` is the text of a tree without blanks.

`meaning` is what a parser makes of a tree. The last member of a key wins, and an object is the map
of its keys, so that two documents with one meaning may differ in the order of their members.
-/

namespace ObsMcp.Transform

open Foundations Scanner List

/-! ### Trees -/

/-- A JSON document as it is written. -/
inductive Tree
  | literal (word : List Char)
  | number (token : List Char)
  | string (token : List Char)
  | array (items : List Tree)
  | object (members : List (List Char × Tree))

namespace Tree

section Induction

variable {motive : Tree → Prop} (literal : ∀ word, motive (literal word))
  (number : ∀ token, motive (number token)) (string : ∀ token, motive (string token))
  (array : ∀ items, (∀ item ∈ items, motive item) → motive (array items))
  (object : ∀ members : List (List Char × Tree), (∀ member ∈ members, motive member.2) →
    motive (object members))

include literal number string array object

/-- Induction over a tree: arrays and objects know the hypothesis of each of their parts. -/
theorem induct (tree : Tree) : motive tree := by
  refine @Tree.rec motive (fun items ↦ ∀ item ∈ items, motive item)
    (fun members ↦ ∀ member ∈ members, motive member.2) (fun member ↦ motive member.2)
    literal number string array object ?_ ?_ ?_ ?_ ?_ tree
  · simp
  · intro item items hitem hitems other hother
    rcases mem_cons.mp hother with rfl | hother
    · exact hitem
    · exact hitems other hother
  · simp
  · intro member members hmember hmembers other hother
    rcases mem_cons.mp hother with rfl | hother
    · exact hmember
    · exact hmembers other hother
  · intro key value hvalue
    exact hvalue

end Induction

mutual

/-- The nesting of a tree; a leaf has depth one. -/
def depth : Tree → ℕ
  | array items => 1 + depthItems items
  | object members => 1 + depthMembers members
  | _ => 1

def depthItems : List Tree → ℕ
  | [] => 0
  | item :: items => max (depth item) (depthItems items)

def depthMembers : List (List Char × Tree) → ℕ
  | [] => 0
  | (_, value) :: members => max (depth value) (depthMembers members)

end

mutual

/-- The number of values in a tree. -/
def count : Tree → ℕ
  | array items => 1 + countItems items
  | object members => 1 + countMembers members
  | _ => 1

def countItems : List Tree → ℕ
  | [] => 0
  | item :: items => count item + countItems items

def countMembers : List (List Char × Tree) → ℕ
  | [] => 0
  | (_, value) :: members => count value + countMembers members

end

variable {items : List Tree} {levels : ℕ} {members : List (List Char × Tree)}

theorem depthItems_le_iff : depthItems items ≤ levels ↔ ∀ item ∈ items, item.depth ≤ levels := by
  induction items with
  | nil => simp [depthItems]
  | cons item items ih => rw [depthItems, Nat.max_le, ih, forall_mem_cons]

theorem depthMembers_le_iff :
    depthMembers members ≤ levels ↔ ∀ member ∈ members, member.2.depth ≤ levels := by
  induction members with
  | nil => simp [depthMembers]
  | cons member members ih => rw [depthMembers, Nat.max_le, ih, forall_mem_cons]

theorem depth_pos (tree : Tree) : 0 < tree.depth := by
  cases tree with
  | array items => exact Nat.add_pos_left Nat.one_pos _
  | object members => exact Nat.add_pos_left Nat.one_pos _
  | _ => exact Nat.one_pos

theorem count_pos (tree : Tree) : 0 < tree.count := by
  cases tree with
  | array items => exact Nat.add_pos_left Nat.one_pos _
  | object members => exact Nat.add_pos_left Nat.one_pos _
  | _ => exact Nat.one_pos

theorem countItems_eq (items : List Tree) : countItems items = (items.map count).sum := by
  induction items with
  | nil => rfl
  | cons item items ih => rw [countItems, ih, map_cons, sum_cons]

theorem count_le_countItems {item : Tree} (hitem : item ∈ items) :
    item.count ≤ countItems items := by
  induction items with
  | nil => cases hitem
  | cons other items ih =>
    rw [countItems]
    rcases mem_cons.mp hitem with rfl | hitem
    · exact Nat.le_add_right _ _
    · exact (ih hitem).trans (Nat.le_add_left _ _)

theorem countMembers_eq (members : List (List Char × Tree)) :
    countMembers members = (members.map fun member ↦ member.2.count).sum := by
  induction members with
  | nil => rfl
  | cons member members ih => rw [countMembers, ih, map_cons, sum_cons]

theorem count_le_countMembers {member : List Char × Tree} (hmember : member ∈ members) :
    member.2.count ≤ countMembers members := by
  induction members with
  | nil => cases hmember
  | cons other members ih =>
    rw [countMembers]
    rcases mem_cons.mp hmember with rfl | hmember
    · exact Nat.le_add_right _ _
    · exact (ih hmember).trans (Nat.le_add_left _ _)

end Tree

/-! ### Texts -/

/-- A text of blanks. -/
def Blank (text : List Char) : Prop :=
  ∀ c ∈ text, isBlank c = true

/-- A text is made of given texts, separated by commas, with blanks around each. -/
inductive Separated : List (List Char) → List Char → Prop
  | none {blank : List Char} (hblank : Blank blank) : Separated [] blank
  | last {before text after : List Char} (hbefore : Blank before) (hafter : Blank after) :
      Separated [text] (before ++ text ++ after)
  | more {before text after body next : List Char} {texts : List (List Char)}
      (hbefore : Blank before) (hafter : Blank after) (hbody : Separated (next :: texts) body) :
      Separated (text :: next :: texts) (before ++ text ++ after ++ ',' :: body)

/-- The text of a member of an object: the token of its key, a colon and the span of its value. -/
def MemberText (entry : List Char × List Char) (text : List Char) : Prop :=
  ∃ before after, Blank before ∧ Blank after ∧
    text = entry.1 ++ before ++ ':' :: after ++ entry.2

/-- The words of the language. -/
def words : List (List Char) :=
  [literal 't', literal 'f', literal 'n']

section Spelling

variable (numbers : Numbers)

mutual

/-- A text spells a tree. -/
def Spells : Tree → List Char → Prop
  | .literal word, text => text = word ∧ word ∈ words
  | .number token, text => text = token ∧ numbers.accepts token = true
  | .string token, text => text = token ∧ IsString token
  | .array items, text => ∃ spans body, SpellsItems items spans ∧ Separated spans body ∧
      text = '[' :: body ++ [']']
  | .object members, text => ∃ entries texts body, SpellsMembers members entries ∧
      List.Forall₂ MemberText entries texts ∧ Separated texts body ∧
        text = '\x7b' :: body ++ ['\x7d']

/-- Each text spells its item. -/
def SpellsItems : List Tree → List (List Char) → Prop
  | [], spans => spans = []
  | item :: items, spans => ∃ span rest, spans = span :: rest ∧ Spells item span ∧
      SpellsItems items rest

/-- Each entry has the token of its member's key and spells its value. -/
def SpellsMembers : List (List Char × Tree) → List (List Char × List Char) → Prop
  | [], entries => entries = []
  | (key, value) :: members, entries => ∃ span rest, entries = (key, span) :: rest ∧
      IsString key ∧ Spells value span ∧ SpellsMembers members rest

end

variable {numbers}

theorem spellsItems_iff {items : List Tree} {spans : List (List Char)} :
    SpellsItems numbers items spans ↔ List.Forall₂ (Spells numbers) items spans := by
  induction items generalizing spans with
  | nil => simp [SpellsItems]
  | cons item items ih =>
    rw [SpellsItems, forall₂_cons_left_iff]
    constructor
    · rintro ⟨span, rest, rfl, hspan, hrest⟩
      exact ⟨span, rest, hspan, ih.mp hrest, rfl⟩
    · rintro ⟨span, rest, hspan, hrest, rfl⟩
      exact ⟨span, rest, rfl, hspan, ih.mpr hrest⟩

theorem spellsMembers_iff {members : List (List Char × Tree)}
    {entries : List (List Char × List Char)} :
    SpellsMembers numbers members entries ↔
      List.Forall₂ (fun member entry ↦ entry.1 = member.1 ∧ IsString member.1 ∧
        Spells numbers member.2 entry.2) members entries := by
  induction members generalizing entries with
  | nil => simp [SpellsMembers]
  | cons member members ih =>
    rw [SpellsMembers, forall₂_cons_left_iff]
    constructor
    · rintro ⟨span, rest, rfl, hkey, hspan, hrest⟩
      exact ⟨(member.1, span), rest, ⟨rfl, hkey, hspan⟩, ih.mp hrest, rfl⟩
    · rintro ⟨⟨key, span⟩, rest, ⟨rfl, hkey, hspan⟩, hrest, rfl⟩
      exact ⟨span, rest, rfl, hkey, hspan, ih.mpr hrest⟩

end Spelling

/-! ### Texts without blanks -/

/-- The given texts, with a comma before each but the first. -/
def row : ℕ → List (List Char) → List Char
  | _, [] => []
  | turn, text :: texts => (if turn ≠ 0 then [','] else []) ++ text ++ row (turn + 1) texts

mutual

/-- The text of a tree without blanks. -/
def compact : Tree → List Char
  | .literal word => word
  | .number token => token
  | .string token => token
  | .array items => '[' :: row 0 (compactItems items) ++ [']']
  | .object members => '\x7b' :: row 0 (compactMembers members) ++ ['\x7d']

def compactItems : List Tree → List (List Char)
  | [] => []
  | item :: items => compact item :: compactItems items

def compactMembers : List (List Char × Tree) → List (List Char)
  | [] => []
  | (key, value) :: members => (key ++ ':' :: compact value) :: compactMembers members

end

theorem compactItems_eq (items : List Tree) : compactItems items = items.map compact := by
  induction items with
  | nil => rfl
  | cons item items ih => rw [compactItems, ih, map_cons]

theorem compactMembers_eq (members : List (List Char × Tree)) :
    compactMembers members = members.map fun member ↦ member.1 ++ ':' :: compact member.2 := by
  induction members with
  | nil => rfl
  | cons member members ih => rw [compactMembers, ih, map_cons]

theorem blank_nil : Blank [] := fun _ hmem ↦ (nomatch hmem)

/-- Every turn but the first writes the same. -/
theorem row_turn (turn : ℕ) (texts : List (List Char)) : row (turn + 1) texts = row 1 texts := by
  induction texts generalizing turn with
  | nil => rfl
  | cons text texts ih =>
    rw [row, row, ih, ih 1, if_pos (Nat.succ_ne_zero turn), if_pos Nat.one_ne_zero]

theorem row_succ (turn : ℕ) (text : List Char) (texts : List (List Char)) :
    row (turn + 1) (text :: texts) = ',' :: row 0 (text :: texts) := by
  rw [row, row, if_pos (Nat.succ_ne_zero turn), if_neg (not_not_intro rfl), row_turn, row_turn 0]
  rfl

/-- A row of texts with nothing but commas between them is separated. -/
theorem separated_row (texts : List (List Char)) : Separated texts (row 0 texts) := by
  induction texts with
  | nil => exact .none blank_nil
  | cons text texts ih =>
    cases texts with
    | nil =>
      have hrow : row 0 [text] = [] ++ text ++ [] := rfl
      rw [hrow]
      exact .last blank_nil blank_nil
    | cons next texts =>
      have hrow : row 0 (text :: next :: texts) =
          [] ++ text ++ [] ++ ',' :: row 0 (next :: texts) := by
        rw [row, if_neg (not_not_intro rfl), row_succ, append_nil]
      rw [hrow]
      exact .more blank_nil blank_nil ih

/-! ### Meaning -/

/-- A JSON value: an object is the map of its keys. A token that no string or number is read from
has a value of its own. -/
inductive Value (N : Type)
  | literal (word : List Char)
  | number (x : N)
  | string (s : Option (List Char))
  | array (items : List (Value N))
  | object (members : List Char → Option (Value N))

section Meaning

variable {N : Type} (readNumber : List Char → N)

mutual

/-- The value of a tree, with its number tokens read in some way. -/
def meaning : Tree → Value N
  | .literal word => .literal word
  | .number token => .number (readNumber token)
  | .string token => .string (decode token)
  | .array items => .array (meaningItems items)
  | .object members => .object (meaningMembers members)

def meaningItems : List Tree → List (Value N)
  | [] => []
  | item :: items => meaning item :: meaningItems items

/-- The value of a key among the members: the last member of the key wins. -/
def meaningMembers : List (List Char × Tree) → List Char → Option (Value N)
  | [], _ => none
  | (token, value) :: members, key =>
    (meaningMembers members key).or
      (if decode token = some key then some (meaning value) else none)

end

theorem meaningItems_eq (items : List Tree) :
    meaningItems readNumber items = items.map (meaning readNumber) := by
  induction items with
  | nil => rfl
  | cons item items ih => rw [meaningItems, ih, map_cons]

/-- Assumes: keys that decode. The members mean the entries of the decoded keys. -/
theorem meaningMembers_eq {members : List (List Char × Tree)} {entries : List (List Char × Tree)}
    (hkeys : List.Forall₂ (fun member entry ↦ decode member.1 = some entry.1 ∧ member.2 = entry.2)
      members entries) (key : List Char) :
    meaningMembers readNumber members key =
      (LastWins.last entries key).map (meaning readNumber) := by
  induction hkeys with
  | nil => rfl
  | @cons member entry members entries hkey hrest ih =>
    rw [meaningMembers, LastWins.last, ih, hkey.1, hkey.2]
    by_cases hsame : entry.1 = key
    · cases LastWins.last entries key <;> simp [hsame]
    · cases LastWins.last entries key <;> simp [hsame]

end Meaning

end ObsMcp.Transform
