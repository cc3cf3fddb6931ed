import Registrar.Dialect.Key
import Registrar.Filter.Basic
import Registrar.Outcome

/-!
# Filters in the query language of MongoDB

A filter becomes a document of the server's query language. Tests of texts become regular
expressions that ignore case, the text in them being escaped and anchored as the test asks. A
negation becomes the operator for "none of", because the language negates only below a field.

* `regexEscape`: a text as a regular expression for itself.
* `condition`: the query document of a filter.
-/

namespace Registrar.Dialect

/-- The characters with a meaning in regular expressions. -/
def isMeta (c : Char) : Bool := c ∈ "\\.+*?()|[]\x7b\x7d^$#&-~".toList

/-- A text as a regular expression that matches it alone. -/
def regexEscape (cs : List Char) : List Char :=
  cs.flatMap fun c => if isMeta c then ['\\', c] else [c]

/-- The regular expression for a test of texts. -/
def regexFor (test : Comparison) (text : String) : String :=
  let escaped := regexEscape text.toList
  String.ofList (match test with
    | .startsWith => '^' :: escaped
    | .endsWith => escaped ++ ['$']
    | .eqIgnoreCase => '^' :: (escaped ++ ['$'])
    | _ => escaped)

/-- The condition for a test of texts when the operand is a text. -/
def pattern? (test : Comparison) : Value → Option Document
  | .string s => some [("$regex", .string (regexFor test s)), ("$options", .string "i")]
  | _ => none

/-- The operands of a membership test as a list. -/
def operandList : Value → Value
  | .array items => .array items
  | v => .array [v]

/-- The refusal of an operand that is no text. -/
def needsText (test : Comparison) (path : String) : StoreError :=
  .invalidQuery (test.name ++ " on '" ++ path ++ "' requires a string value")

/-- **The condition below a field** for a comparison with an operand. -/
def fieldCondition (path : String) (test : Comparison) (operand : Value) :
    Except StoreError Document :=
  match test with
  | .eq => .ok [("$eq", operand)]
  | .ne => .ok [("$ne", operand)]
  | .gt => .ok [("$gt", operand)]
  | .gte => .ok [("$gte", operand)]
  | .lt => .ok [("$lt", operand)]
  | .lte => .ok [("$lte", operand)]
  | .contains | .eqIgnoreCase => .ok ((pattern? test operand).getD [("$eq", operand)])
  | .startsWith | .endsWith =>
    match pattern? test operand with
    | some p => .ok p
    | none => .error (needsText test path)
  | .notContains =>
    .ok (match pattern? test operand with
      | some p => [("$not", .document p)]
      | none => [("$ne", operand)])
  | .anyOf => .ok [("$in", operandList operand)]
  | .noneOf => .ok [("$nin", operandList operand)]

mutual

/-- **The query document of a filter.** Of no alternatives none can hold, which is said by asking
for a document without the key that all documents have. -/
def condition : Filter → Except StoreError Document
  | .and [] => .ok []
  | .and (f :: fs) => do return [("$and", .array (← conditions (f :: fs)))]
  | .or [] => .ok [("_id", .document [("$exists", .bool false)])]
  | .or (f :: fs) => do return [("$or", .array (← conditions (f :: fs)))]
  | .not f => do return [("$nor", .array [.document (← condition f)])]
  | .present path expected => .ok [(escapePath path, .document [("$exists", .bool expected)])]
  | .compare path test operand => do
    return [(escapePath path, .document (← fieldCondition path test operand))]

def conditions : List Filter → Except StoreError (List Value)
  | [] => .ok []
  | f :: fs => do
    let d ← condition f
    let ds ← conditions fs
    return .document d :: ds

end

/-- The query document of an optional filter; no filter is met by all. -/
def conditionOrAll : Option Filter → Except StoreError Document
  | some f => condition f
  | none => .ok []

end Registrar.Dialect
