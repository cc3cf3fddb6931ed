import Registrar.Filter.Basic
import Registrar.Text.LowerCase
import Registrar.Text.Segments

/-!
# What a filter means

A path reaches values: it goes down into documents, and in a list into each document of the list.
A comparison looks at the **candidates** of its path, which are the values reached and the items of
those that are lists, or null when nothing is reached. It holds when some candidate compares as
told, and a negated comparison holds when none does. Texts are searched without regard to case.

* `Value.reach`: the values that a path reaches.
* `Value.equalTo`, `Value.orderTo?`: comparison of a candidate with an operand.
* `Filter.holds`: whether a document meets a filter.
-/

namespace Registrar

namespace Value

/-! ### Candidates -/

/-- **The values reached** by the segments of a path. -/
def reach : List String → Value → List Value
  | [], v => [v]
  | s :: r, .document d =>
    match Document.value? d s with
    | some v => reach r v
    | none => []
  | s :: r, .array items =>
    items.flatMap fun item =>
      match item with
      | .document d =>
        match Document.value? d s with
        | some v => reach r v
        | none => []
      | _ => []
  | _ :: _, _ => []

/-- A value and, before it, its items when it is a list. -/
def withItems : Value → List Value
  | .array items => items ++ [.array items]
  | v => [v]

end Value

namespace Document

/-- The values that a path reaches in a document. -/
def reached (d : Document) (path : String) : List Value :=
  Value.reach (Text.segments path) (.document d)

/-- **The candidates of a comparison.** -/
def candidates (d : Document) (path : String) : List Value :=
  match (reached d path).flatMap Value.withItems with
  | [] => [.null]
  | vs => vs

end Document

namespace Value

/-! ### Comparing -/

/-- Equality of values without parts: null and undefined are one value, numbers go by value, and
binary values by their bytes. Kinds that searches do not know are equal to nothing. -/
def scalarEqualTo : Value → Value → Bool
  | .null, .null | .null, .undefined | .undefined, .null | .undefined, .undefined => true
  | .bool a, .bool b => a == b
  | .dateTime a, .dateTime b => a == b
  | .string a, .string b => a == b
  | .binary _ a, .binary _ b => a == b
  | a, b =>
    match a.number?, b.number? with
    | some x, some y => x.same y
    | _, _ => false

mutual

/-- **Equality of a candidate and an operand.** -/
def equalTo : Value → Value → Bool
  | .array as, .array bs => itemsEqualTo as bs
  | .document fs, .document gs => fs.length == gs.length && fieldsEqualTo fs gs
  | a, b => scalarEqualTo a b

def itemsEqualTo : List Value → List Value → Bool
  | [], [] => true
  | a :: as, b :: bs => equalTo a b && itemsEqualTo as bs
  | _, _ => false

/-- Every field on the left has its like on the right. -/
def fieldsEqualTo : List (String × Value) → Document → Bool
  | [], _ => true
  | (k, v) :: r, gs =>
    (match Document.value? gs k with
      | some w => equalTo v w
      | none => false) && fieldsEqualTo r gs

end

/-- **The order of a candidate and an operand** of one kind. -/
def orderTo? : Value → Value → Option Ordering
  | .bool a, .bool b => some (compare a.toNat b.toNat)
  | .dateTime a, .dateTime b => some (compare a.toInt b.toInt)
  | .string a, .string b => some (compare a b)
  | .binary _ a, .binary _ b => some (compareBytes a b)
  | a, b =>
    match a.number?, b.number? with
    | some x, some y => x.compare? y
    | _, _ => none

/-- Whether a text occurs somewhere in another one. -/
def occursIn (needle : List Char) : List Char → Bool
  | [] => needle.isEmpty
  | c :: cs => needle.isPrefixOf (c :: cs) || occursIn needle cs

/-- Whether a text is found in another one, the test saying where. -/
def textFound (test : Comparison) (haystack needle : List Char) : Bool :=
  match test with
  | .startsWith => needle.isPrefixOf haystack
  | .endsWith => needle.isSuffixOf haystack
  | .eqIgnoreCase => haystack == needle
  | _ => occursIn needle haystack

/-- A text test of a candidate, without regard to case. -/
def matchesText (test : Comparison) (needle : String) : Value → Bool
  | .string s => textFound test (Text.lower s).toList (Text.lower needle).toList
  | _ => false

/-- A text test when the operand is a text, equality otherwise. -/
def textTest (test : Comparison) (operand candidate : Value) : Bool :=
  match operand with
  | .string needle => candidate.matchesText test needle
  | _ => candidate.equalTo operand

/-- Whether a test of order accepts an outcome. -/
def accepts (test : Comparison) : Option Ordering → Bool
  | some .gt => test == .gt || test == .gte
  | some .eq => test == .gte || test == .lte
  | some .lt => test == .lt || test == .lte
  | none => false

/-- The operands of a membership test. -/
def options : Value → List Value
  | .array items => items
  | v => [v]

end Value

/-! ### Filters -/

/-- **Whether a comparison holds** of the candidates. -/
def Comparison.holds (test : Comparison) (operand : Value) (candidates : List Value) : Bool :=
  match test with
  | .eq => candidates.any (·.equalTo operand)
  | .ne => !candidates.any (·.equalTo operand)
  | .gt | .gte | .lt | .lte => candidates.any fun c => Value.accepts test (c.orderTo? operand)
  | .eqIgnoreCase | .startsWith | .endsWith | .contains =>
    candidates.any (Value.textTest test operand)
  | .notContains => !candidates.any (Value.textTest .contains operand)
  | .anyOf => candidates.any fun c => operand.options.any fun o => o.equalTo c
  | .noneOf => !candidates.any fun c => operand.options.any fun o => o.equalTo c

namespace Filter

mutual

/-- **Whether a document meets a filter.** -/
def holds (d : Document) : Filter → Bool
  | .and parts => holdsAll d parts
  | .or parts => holdsAny d parts
  | .not f => !holds d f
  | .present path expected => !(d.reached path).isEmpty == expected
  | .compare path test operand => test.holds operand (d.candidates path)

def holdsAll (d : Document) : List Filter → Bool
  | [] => true
  | f :: fs => holds d f && holdsAll d fs

def holdsAny (d : Document) : List Filter → Bool
  | [] => false
  | f :: fs => holds d f || holdsAny d fs

end

/-- Whether a document meets a filter, no filter being met by all. -/
def admits (f? : Option Filter) (d : Document) : Bool :=
  match f? with
  | some f => holds d f
  | none => true

end Filter

end Registrar
