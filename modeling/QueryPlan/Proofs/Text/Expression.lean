import QueryPlan.Expr.Basic
import QueryPlan.Proofs.Text.Words

/-!
# Reading the text of an expression

The text of an expression shows everything but the declared types of columns, if
calls have at least two arguments, literals are no floats, and strings have no
single quotes. The first character tells the kind of the expression, and its end
is found by reading it from the left: a column or a number goes on as long as
there are digits, a string up to the second quote, and a call up to the closing
parenthesis after its last argument.
-/

namespace QueryPlan

/-- Whether the text of a literal can be read. -/
inductive Literal.Legible : Literal → Prop
  | boolean (value : Bool) : Legible (.boolean value)
  | int64 (value : Int64) : Legible (.int64 value)
  | utf8 {value : String} : '\'' ∉ value.toList → Legible (.utf8 value)

namespace Expr

/-- Whether the text of an expression can be read. -/
inductive Legible : Expr → Prop
  | column (index : Nat) (type : ScalarType) : Legible (.column index type)
  | literal {value : Literal} : value.Legible → Legible (.literal value)
  | call (op : ScalarOp) {args : List Expr} : 2 ≤ args.length → (∀ arg ∈ args, Legible arg) →
      Legible (.call op args)

theorem Legible.binary (op : ScalarOp) {left right : Expr} (leftLegible : left.Legible)
    (rightLegible : right.Legible) : (Expr.binary op left right).Legible :=
  .call op (Nat.le_refl 2) (by simp [leftLegible, rightLegible])

mutual
/-- The expression with all its columns declared to be of one type. -/
def redeclare (type : ScalarType) : Expr → Expr
  | column index _ => .column index type
  | literal value => .literal value
  | call op args => .call op (redeclareAll type args)

/-- The expressions with all their columns declared to be of one type. -/
def redeclareAll (type : ScalarType) : List Expr → List Expr
  | [] => []
  | arg :: args => arg.redeclare type :: redeclareAll type args
end

variable {type : ScalarType}

@[simp] theorem redeclareAll_eq_map (args : List Expr) :
    redeclareAll type args = args.map (redeclare type) := by
  induction args with
  | nil => rfl
  | cons arg args ih => simp [redeclareAll, ih]

/-- The text does not show how columns are declared. -/
theorem text_redeclare (expr : Expr) : (expr.redeclare type).text = expr.text := by
  induction expr using Expr.induct with
  | column index declared => simp only [redeclare, text]
  | literal value => simp only [redeclare]
  | call op args ih =>
      have texts : (args.map (redeclare type)).map text = args.map text := by
        rw [List.map_map]
        exact List.map_congr_left ih
      simp only [redeclare, redeclareAll_eq_map, text, textAll_eq_map, texts]

section Kinds

/-- What the first character of a text tells. -/
inductive Kind where
  | column
  | boolean
  | number
  | string
  | call
  deriving DecidableEq

/-- The kind of expression whose text begins with a character. -/
def Kind.ofFirst (first : Char) : Kind :=
  if first = '$' then column
  else if first = 't' ∨ first = 'f' then boolean
  else if first = '\'' then string
  else if first = '(' then call
  else number

/-- The kind of a legible expression. -/
def kind : Expr → Kind
  | column .. => .column
  | literal (.boolean _) => .boolean
  | literal (.utf8 _) => .string
  | literal _ => .number
  | call .. => .call

/-- The characters of numbers. -/
def isNumeral (c : Char) : Bool := c.isDigit || c == '-'

theorem isNumeral_of_mem_nat {index : Nat} {c : Char} (member : c ∈ (toString index).toList) :
    isNumeral c = true := by
  rw [Nat.toString_eq_ofList_toDigits, String.toList_ofList] at member
  rw [isNumeral, Nat.isDigit_of_mem_toDigits (by decide) (by decide) member, Bool.true_or]

theorem isNumeral_of_mem_int {value : Int} {c : Char} (member : c ∈ (toString value).toList) :
    isNumeral c = true := by
  rw [Int.toString_eq_repr, Int.repr_eq_if] at member
  split at member
  · exact isNumeral_of_mem_nat member
  · rw [String.toList_append, List.mem_append] at member
    rcases member with sign | digit
    · rw [List.mem_singleton.mp sign]
      rfl
    · exact isNumeral_of_mem_nat digit

theorem Kind.ofFirst_of_isNumeral {first : Char} (numeral : isNumeral first = true) :
    ofFirst first = number := by
  have apart {c : Char} (other : isNumeral c = false) : first ≠ c := by
    rintro rfl
    rw [numeral] at other
    exact nomatch other
  simp [ofFirst, apart (c := '$') rfl, apart (c := 't') rfl, apart (c := 'f') rfl,
    apart (c := '\'') rfl, apart (c := '(') rfl]

/-- The first character of a text tells the kind. -/
theorem exists_first {expr : Expr} (legible : expr.Legible) :
    ∃ first rest, expr.text.toList = first :: rest ∧ Kind.ofFirst first = expr.kind := by
  cases legible with
  | column index type => exact ⟨'$', (toString index).toList, by simp [text], rfl⟩
  | call op _ _ => exact ⟨'(', _, by simp [text, callText]; rfl, rfl⟩
  | literal legible =>
      cases legible with
      | boolean value => cases value <;> exact ⟨_, _, rfl, rfl⟩
      | @utf8 value _ => exact ⟨'\'', value.toList ++ ['\''], by simp [text, Literal.text], rfl⟩
      | int64 value =>
          have nonempty : (toString value.toInt).toList ≠ [] := by
            rw [Int.toString_eq_repr, Int.repr_eq_if]
            split <;> simp
          obtain ⟨first, rest, shape⟩ := List.exists_cons_of_ne_nil nonempty
          have member : first ∈ (toString value.toInt).toList := by
            rw [shape]
            exact List.mem_cons_self
          exact ⟨first, rest, shape, Kind.ofFirst_of_isNumeral (isNumeral_of_mem_int member)⟩

end Kinds

section Reading

/-- What may stand after an argument: the end of the text, a blank, or the
parenthesis that closes a call. -/
def Follows (rest : List Char) : Prop := ∀ next ∈ rest.head?, next = ' ' ∨ next = ')'

theorem Follows.stops {rest : List Char} (follows : Follows rest) : Stops isNumeral rest := by
  intro next isNext
  rcases follows next isNext with rfl | rfl <;> rfl

/-- Whether an expression is known from a text that begins with its own, and its
end with it. -/
def Readable (type : ScalarType) (left : Expr) : Prop :=
  ∀ right : Expr, right.Legible → ∀ rest other, Follows rest → Follows other →
    left.text.toList ++ rest = right.text.toList ++ other →
    left.redeclare type = right.redeclare type ∧ rest = other

/-- Numbers end where their digits do. -/
theorem eq_of_numerals {left right : String} {rest other : List Char}
    (leftNumeral : ∀ c ∈ left.toList, isNumeral c = true)
    (rightNumeral : ∀ c ∈ right.toList, isNumeral c = true) (restFollows : Follows rest)
    (otherFollows : Follows other) (same : left.toList ++ rest = right.toList ++ other) :
    left = right ∧ rest = other := by
  obtain ⟨numbers, rests⟩ := eq_of_append_eq leftNumeral rightNumeral restFollows.stops
    otherFollows.stops same
  exact ⟨String.toList_injective numbers, rests⟩

/-- A natural number is known from its digits. -/
theorem nat_eq_of_toString_eq {left right : Nat} (same : toString left = toString right) :
    left = right := by
  have values := congrArg (fun digits => Nat.ofDigitChars 10 digits.toList 0) same
  simpa using values

/-- A text with a sign is not one of digits only. -/
theorem toString_nat_ne_signed (index : Nat) (digits : String) :
    toString index ≠ "-" ++ digits := by
  intro same
  have sign : '-' ∈ (toString index).toList := by
    rw [same, String.toList_append]
    exact List.mem_append_left _ List.mem_cons_self
  rw [Nat.toString_eq_ofList_toDigits, String.toList_ofList] at sign
  exact Bool.noConfusion (Nat.isDigit_of_mem_toDigits (by decide) (by decide) sign)

/-- An integer is known from its sign and digits. -/
theorem int_eq_of_toString_eq {left right : Int} (same : toString left = toString right) :
    left = right := by
  rw [Int.toString_eq_repr, Int.toString_eq_repr, Int.repr_eq_if, Int.repr_eq_if] at same
  split at same <;> split at same
  · have values := nat_eq_of_toString_eq same
    omega
  · exact absurd same (toString_nat_ne_signed _ _)
  · exact absurd same.symm (toString_nat_ne_signed _ _)
  · have values := nat_eq_of_toString_eq ((String.append_right_inj "-").mp same)
    omega

/-- Texts that begin alike are of one kind. -/
theorem kind_eq_of_append_eq {left right : Expr} (leftLegible : left.Legible)
    (rightLegible : right.Legible) {rest other : List Char}
    (same : left.text.toList ++ rest = right.text.toList ++ other) : left.kind = right.kind := by
  obtain ⟨first, _, leftText, leftKind⟩ := exists_first leftLegible
  obtain ⟨second, _, rightText, rightKind⟩ := exists_first rightLegible
  rw [leftText, rightText] at same
  obtain rfl : first = second := (List.cons.inj same).1
  exact leftKind.symm.trans rightKind

theorem readable_column (index : Nat) (declared : ScalarType) :
    Readable type (.column index declared) := by
  intro right legible rest other restFollows otherFollows same
  have kinds := kind_eq_of_append_eq (.column index declared) legible same
  match right, kinds with
  | .column otherIndex otherDeclared, _ =>
      simp only [text, String.toList_append, List.append_assoc] at same
      obtain ⟨indexes, rests⟩ := eq_of_numerals (fun c => isNumeral_of_mem_nat)
        (fun c => isNumeral_of_mem_nat) restFollows otherFollows (List.append_cancel_left same)
      obtain rfl : index = otherIndex := nat_eq_of_toString_eq indexes
      exact ⟨by simp only [redeclare], rests⟩

theorem readable_literal {value : Literal} (valueLegible : value.Legible) :
    Readable type (.literal value) := by
  intro right legible rest other restFollows otherFollows same
  have kinds := kind_eq_of_append_eq (.literal valueLegible) legible same
  cases valueLegible with
  | boolean value =>
      match right, kinds with
      | .literal (.boolean otherValue), _ =>
          cases value <;> cases otherValue <;> simp_all [text, Literal.text, redeclare]
  | int64 value =>
      match right, legible, kinds with
      | .literal (.int64 otherValue), _, _ =>
          simp only [text, Literal.text] at same
          obtain ⟨numbers, rests⟩ := eq_of_numerals (fun c => isNumeral_of_mem_int)
            (fun c => isNumeral_of_mem_int) restFollows otherFollows same
          obtain rfl : value = otherValue := Int64.toInt_inj.mp (int_eq_of_toString_eq numbers)
          exact ⟨rfl, rests⟩
  | @utf8 value unquoted =>
      match right, legible, kinds with
      | .literal (.utf8 otherValue), .literal (.utf8 otherUnquoted), _ =>
          simp only [text, Literal.text, String.toList_append, List.append_assoc] at same
          have passes {value : String} (unquoted : '\'' ∉ value.toList) :
              ∀ c ∈ value.toList, (c != '\'') = true := by
            intro c member
            rw [bne_iff_ne]
            rintro rfl
            exact unquoted member
          obtain ⟨values, rests⟩ := eq_of_append_eq (passes unquoted) (passes otherUnquoted)
            (stops_cons.mpr rfl) (stops_cons.mpr rfl) (List.append_cancel_left same)
          obtain rfl : value = otherValue := String.toList_injective values
          exact ⟨rfl, (List.cons.inj rests).2⟩

/-- The texts of the arguments after the first one, each behind the operator. -/
def furtherText (op : ScalarOp) (args : List Expr) : List Char :=
  args.flatMap fun arg => ' ' :: (op.symbol.toList ++ ' ' :: arg.text.toList)

theorem toList_text_call (op : ScalarOp) (first : Expr) (args : List Expr) :
    (Expr.call op (first :: args)).text.toList =
      '(' :: (first.text.toList ++ (furtherText op args ++ [')'])) := by
  have further : (String.intercalate (" " ++ op.symbol ++ " ") ((first :: args).map text)).toList =
      first.text.toList ++ furtherText op args := by
    induction args generalizing first with
    | nil => simp [furtherText]
    | cons second args ih =>
        rw [List.map_cons, List.map_cons, String.intercalate_cons_cons, ← List.map_cons,
          String.toList_append, ih]
        simp [furtherText]
  rw [text, callText, textAll_eq_map, String.toList_append, String.toList_append, further]
  simp

theorem follows_furtherText (op : ScalarOp) (args : List Expr) (rest : List Char) :
    Follows (furtherText op args ++ ')' :: rest) := by
  cases args with
  | nil => simp [furtherText, Follows]
  | cons arg args => simp [furtherText, Follows]

/-- The arguments of calls of one operator are read one after the other. -/
theorem further_of_append_eq {op : ScalarOp} {lefts rights : List Expr}
    (readable : ∀ left ∈ lefts, Readable type left) (legible : ∀ right ∈ rights, right.Legible)
    {rest other : List Char}
    (same : furtherText op lefts ++ ')' :: rest = furtherText op rights ++ ')' :: other) :
    lefts.map (redeclare type) = rights.map (redeclare type) ∧ rest = other := by
  induction lefts generalizing rights with
  | nil =>
      cases rights with
      | nil => exact ⟨rfl, (List.cons.inj same).2⟩
      | cons right rights => simp [furtherText] at same
  | cons left lefts ih =>
      cases rights with
      | nil => simp [furtherText] at same
      | cons right rights =>
          obtain ⟨leftReadable, leftsReadable⟩ := List.forall_mem_cons.mp readable
          obtain ⟨rightLegible, rightsLegible⟩ := List.forall_mem_cons.mp legible
          have texts : left.text.toList ++ (furtherText op lefts ++ ')' :: rest) =
              right.text.toList ++ (furtherText op rights ++ ')' :: other) := by
            simpa [furtherText] using same
          obtain ⟨equal, later⟩ := leftReadable right rightLegible _ _ (follows_furtherText _ _ _)
            (follows_furtherText _ _ _) texts
          obtain ⟨equals, rests⟩ := ih leftsReadable rightsLegible later
          exact ⟨by rw [List.map_cons, List.map_cons, equal, equals], rests⟩

/-- The operator of a call stands before its second argument. -/
theorem op_of_append_eq {op otherOp : ScalarOp} {left right : Expr} {lefts rights : List Expr}
    {rest other : List Char}
    (same : furtherText op (left :: lefts) ++ rest = furtherText otherOp (right :: rights) ++ other) :
    op = otherOp := by
  cases op <;> cases otherOp <;> simp [furtherText, ScalarOp.symbol] at same ⊢

theorem readable_call {op : ScalarOp} {args : List Expr} (several : 2 ≤ args.length)
    (legible : ∀ arg ∈ args, arg.Legible) (readable : ∀ arg ∈ args, Readable type arg) :
    Readable type (.call op args) := by
  intro right rightLegible rest other restFollows otherFollows same
  have kinds := kind_eq_of_append_eq (.call op several legible) rightLegible same
  match args, several, right, rightLegible, kinds with
  | first :: second :: args, _, .call otherOp (otherFirst :: otherSecond :: others),
      .call _ _ othersLegible, _ =>
      obtain ⟨firstReadable, argsReadable⟩ := List.forall_mem_cons.mp readable
      obtain ⟨otherFirstLegible, othersLegible⟩ := List.forall_mem_cons.mp othersLegible
      rw [toList_text_call, toList_text_call] at same
      have texts : first.text.toList ++ (furtherText op (second :: args) ++ ')' :: rest) =
          otherFirst.text.toList ++ (furtherText otherOp (otherSecond :: others) ++ ')' :: other) := by
        simpa using same
      obtain ⟨equal, later⟩ := firstReadable otherFirst otherFirstLegible _ _
        (follows_furtherText _ _ _) (follows_furtherText _ _ _) texts
      obtain rfl := op_of_append_eq later
      obtain ⟨equals, rests⟩ := further_of_append_eq argsReadable othersLegible later
      refine ⟨?_, rests⟩
      simp only [redeclare, redeclareAll_eq_map]
      rw [List.map_cons, equal, equals, ← List.map_cons]

theorem Legible.readable {expr : Expr} (legible : expr.Legible) : Readable type expr := by
  induction legible with
  | column index declared => exact readable_column index declared
  | literal legible => exact readable_literal legible
  | call op several legible ih => exact readable_call several legible ih

end Reading

/-- Texts of expressions are equal exactly when the expressions are, but for the
declared types of their columns. -/
theorem text_eq_iff {left right : Expr} (leftLegible : left.Legible) (rightLegible : right.Legible)
    (type : ScalarType) : left.text = right.text ↔ left.redeclare type = right.redeclare type := by
  constructor
  · intro same
    have texts : left.text.toList ++ [] = right.text.toList ++ [] := by rw [same]
    have atEnd : Follows [] := nofun
    exact (leftLegible.readable right rightLegible [] [] atEnd atEnd texts).1
  · intro same
    calc left.text = (left.redeclare type).text := (text_redeclare left).symm
      _ = (right.redeclare type).text := by rw [same]
      _ = right.text := text_redeclare right

/-- A call of one argument does not show its operator. -/
example : (call .equals [.column 0 .boolean]).text = (call .and [.column 0 .boolean]).text := by
  decide

/-- `text_eq_iff` for two join conditions whose columns are declared differently. -/
theorem text_eq_iff_condition :
    let condition (type : ScalarType) :=
      ((column 0 type).equal (.column 13 type)).and ((column 1 .utf8).equal (.literal (.utf8 "(= F")))
    (condition .int64).text = (condition .float64).text ∧
      (condition .int64).text ≠ ((column 0 .int64).equal (.column 13 .int64)).text := by
  intro condition
  have equality (type : ScalarType) : ((column 0 type).equal (.column 13 type)).Legible :=
    .binary .equals (.column 0 type) (.column 13 type)
  have legible (type : ScalarType) : (condition type).Legible :=
    .binary .and (equality type)
      (.binary .equals (.column 1 .utf8) (.literal (.utf8 (by decide))))
  refine ⟨(text_eq_iff (legible .int64) (legible .float64) .utf8).mpr rfl, ?_⟩
  intro same
  have equal := (text_eq_iff (legible .int64) (equality .int64) .utf8).mp same
  simp [condition, Expr.and, Expr.equal, Expr.binary, redeclare] at equal

end Expr

end QueryPlan
