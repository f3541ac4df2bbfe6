/-!
# Styled text

Printed text is made of pieces, each in one style. A style is either ignored or
turned into terminal codes around the piece.

Names may hold any characters, so what is printed as one line may come out as
several rows. On the way to the rows

* the characters that would move the cursor are dropped,
* a line break ends the row, within its piece,
* a tab is filled with spaces up to the next tab stop, counted from the start of
  the row over all its pieces.
-/

namespace SimplyTyped.Display

/-! ### Pieces -/

inductive Style where
  | dim
  | cyan
  | green
  | yellow
  | magenta
  | white
  | brightBlue
  | brightWhite
  | dimRed
  | boldRed
  deriving DecidableEq, Repr

/-- The parameters that select a style on a terminal. -/
def Style.code : Style → String
  | dim => "2"
  | cyan => "36"
  | green => "32"
  | yellow => "33"
  | magenta => "35"
  | white => "37"
  | brightBlue => "94"
  | brightWhite => "97"
  | dimRed => "2;31"
  | boldRed => "1;31"

structure Piece where
  style : Style
  text : String
  deriving DecidableEq, Repr

namespace Piece

/-- A piece between the terminal codes that switch its style on and off. An empty
    piece needs no codes. -/
def coloured (p : Piece) : String :=
  if p.text.isEmpty then "" else "\x1b[" ++ p.style.code ++ "m" ++ p.text ++ "\x1b[0m"

end Piece

/-! ### Rows -/

/-- The characters that are dropped: bell, backspace, vertical tab, form feed and
    carriage return. -/
def isDropped (c : Char) : Bool := [0x07, 0x08, 0x0b, 0x0c, 0x0d].contains c.toNat

/-- A piece without the characters that are dropped. -/
def Piece.cleaned (p : Piece) : Piece :=
  ⟨p.style, String.ofList (p.text.toList.filter fun c => !isDropped c)⟩

/-- The parts of a piece between its line breaks, all in its style. -/
def Piece.broken (p : Piece) : List Piece := (p.text.splitOn "\n").map (Piece.mk p.style)

/-- How many columns a character takes. Control characters take none. -/
def columnsOf (c : Char) : Nat :=
  if c.toNat < 0x20 || (0x7f ≤ c.toNat && c.toNat < 0xa0) then 0 else 1

def tabWidth : Nat := 8

/-- Fills the tabs of a text that starts in the given column. Returns the column
    after the text too. -/
def fillTabs : Nat → List Char → Nat × List Char
  | column, [] => (column, [])
  | column, c :: rest =>
    if c = '\t' then
      let gap := tabWidth - column % tabWidth
      let (last, filled) := fillTabs (column + gap) rest
      (last, List.replicate gap ' ' ++ filled)
    else
      let (last, filled) := fillTabs (column + columnsOf c) rest
      (last, c :: filled)

/-- The pieces that stand side by side on a terminal. -/
abbrev Row := List Piece

/-- Fills the tabs of a row whose first piece starts in the given column. -/
def fillRow : Nat → Row → Row
  | _, [] => []
  | column, p :: rest =>
    let (last, filled) := fillTabs column p.text.toList
    ⟨p.style, String.ofList filled⟩ :: fillRow last rest

/-- Continues the last of some rows with the first of others. -/
def joinRows : List Row → List Row → List Row
  | [], rows => rows
  | [last], row :: rows => (last ++ row) :: rows
  | [last], [] => [last]
  | row :: rest, rows => row :: joinRows rest rows

/-- Breaks a line at its line breaks. There is always at least one row. -/
def breakRows (line : List Piece) : List Row :=
  line.foldr (fun p rows => joinRows (p.broken.map ([·])) rows) [[]]

def rows (line : List Piece) : List Row :=
  (breakRows (line.map Piece.cleaned)).map (fillRow 0)

def plainRow (row : Row) : String := String.join (row.map Piece.text)

def colouredRow (row : Row) : String := String.join (row.map Piece.coloured)

end SimplyTyped.Display
