/-!
# Blank characters

The Unicode `White_Space` property: the characters that separate tokens in a
condition and that are cut from both ends of a query literal. Core's
`Char.isWhitespace` knows only ASCII blanks; conditions may hold no-break
spaces, ideographic spaces and the other blanks of this table, so the table
is written out here.

Main statements: `isBlank_of_isWhitespace` (every blank core knows is in
the table) and `dropBlank_head` (after stripping, no blank leads).
-/

namespace ColumnDb.Text

/-- The code points of the Unicode `White_Space` property, in ascending order. -/
def blankCodes : List Nat :=
  [0x09, 0x0A, 0x0B, 0x0C, 0x0D, 0x20, 0x85, 0xA0, 0x1680,
   0x2000, 0x2001, 0x2002, 0x2003, 0x2004, 0x2005, 0x2006, 0x2007, 0x2008, 0x2009, 0x200A,
   0x2028, 0x2029, 0x202F, 0x205F, 0x3000]

/-- A character is blank when its code point carries the `White_Space` property. -/
def isBlank (c : Char) : Bool :=
  blankCodes.contains c.toNat

/-- Drops the leading blanks of a character list. -/
def dropBlank : List Char → List Char
  | [] => []
  | c :: cs => if isBlank c then dropBlank cs else c :: cs

/-- Cuts blanks from both ends of a text. -/
def trimBlank (s : String) : String :=
  String.ofList (dropBlank (dropBlank s.toList).reverse).reverse

/-- Whether a text holds nothing but blanks. -/
def allBlank (s : String) : Bool :=
  s.toList.all isBlank

theorem blankCodes_length : blankCodes.length = 25 := rfl

theorem isBlank_of_isWhitespace (c : Char) (h : c.isWhitespace = true) : isBlank c = true := by
  simp only [Char.isWhitespace, Bool.or_eq_true, decide_eq_true_eq] at h
  rcases h with ((h | h) | h) | h <;> simp [isBlank, blankCodes, h]

/-- After `dropBlank`, the list starts with no blank. -/
theorem dropBlank_head (cs : List Char) :
    ∀ c ∈ (dropBlank cs).head?, isBlank c = false := by
  induction cs with
  | nil => simp [dropBlank]
  | cons c cs ih =>
    by_cases h : isBlank c
    · simpa [dropBlank, h] using ih
    · simp [dropBlank, h]

end ColumnDb.Text
