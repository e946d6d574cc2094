import QueryPlan.Text.Follower

/-!
# Display width

How many columns of a terminal a text takes. The characters are added up from
the right, since what follows a character has a say in its width. A control
character other than a line feed takes one column. A colour sequence, from an
escape and a bracket to the letter m, is not shown.
-/

namespace QueryPlan.Text

/-- Columns of some characters, and the context that they are to a character
before them. -/
def scan : List Char → Int × Context
  | [] => (0, .empty)
  | char :: rest =>
    let (columns, context) := scan rest
    let (added, context) := context.before char
    (columns + added, context)

/-- Columns that colour sequences do not show, one for each of their characters
that is visible when it stands alone; the escape itself is shown. An escape
before anything but a bracket starts no sequence, nor does the character after
it. The first character may stand inside a sequence. -/
def hiddenColumns : (inSequence : Bool) → List Char → Nat
  | _, [] => 0
  | false, '\x1b' :: '[' :: rest => 1 + hiddenColumns true rest
  | false, '\x1b' :: _ :: rest => hiddenColumns false rest
  | false, _ :: rest => hiddenColumns false rest
  | true, char :: rest => min 1 (charWidth char) + hiddenColumns (char != 'm') rest

/-- A line that hides more columns than it has. -/
structure Overdrawn where
  line : String
  columns : Nat
  hidden : Nat
  deriving DecidableEq, Repr

/-- Number of columns of a line. -/
def width (line : String) : Except Overdrawn Nat :=
  let columns := (scan line.toList).1.toNat
  let hidden := hiddenColumns false line.toList
  if columns < hidden then .error ⟨line, columns, hidden⟩ else .ok (columns - hidden)

/-- Basic Latin characters do not look at what follows them. -/
theorem scan_of_forall_le {chars : List Char}
    (latin : ∀ char ∈ chars, char ≤ '\u00a0' ∧ char ≠ '\n') :
    scan chars = ((chars.length : Int), Context.empty) := by
  induction chars with
  | nil => rfl
  | cons char rest ih =>
    have later := ih fun other member => latin other (List.mem_cons_of_mem _ member)
    have first := latin char List.mem_cons_self
    simp [scan, later, Context.before, Context.empty, Context.beforeUnstyled, first]

/-- Without an escape nothing is hidden. -/
theorem hiddenColumns_eq_zero {chars : List Char} (shown : '\x1b' ∉ chars) :
    hiddenColumns false chars = 0 := by
  induction chars with
  | nil => rfl
  | cons char rest ih =>
    simp only [List.mem_cons, not_or] at shown
    unfold hiddenColumns
    split
    all_goals simp_all

/-- A basic Latin line takes as many columns as it has characters. -/
theorem width_eq_length {line : String}
    (latin : ∀ char ∈ line.toList, char ≤ '\u00a0' ∧ char ≠ '\n' ∧ char ≠ '\x1b') :
    width line = .ok line.length := by
  have shown : hiddenColumns false line.toList = 0 :=
    hiddenColumns_eq_zero fun member => (latin _ member).2.2 rfl
  have columns := scan_of_forall_le fun char member =>
    And.intro (latin char member).1 (latin char member).2.1
  simp [width, shown, columns, String.length_toList]

end QueryPlan.Text
