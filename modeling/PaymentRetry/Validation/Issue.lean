/-!
# What is wrong with an input

An input that does not fit its form is answered with a list of issues: what is wrong, where, and in which words.
-/

namespace PaymentRetry.Validation

/-- One step of the way to a value: a member of an object, or an item of a list. -/
inductive Place where
  | field (name : String)
  | index (n : Nat)
  deriving DecidableEq, Repr

/-- What is wrong with a value. -/
inductive Complaint where
  | missing
  | extraForbidden
  | stringType
  | stringUnicode
  | stringTooShort (least : Nat)
  | stringTooLong (most : Nat)
  | integerType
  | integerParsing
  | integerParsingSize
  | integerFromFloat
  | floatType
  | floatParsing
  | boolType
  | boolParsing
  | listType
  | objectType
  | decimalType
  | decimalParsing
  | finiteNumber
  | decimalDigits (most : Nat)
  | decimalPlaces (most : Nat)
  | decimalWholeDigits (most : Nat)
  | notGreater (bound : Nat)
  | uuidType
  | uuidParsing (reason : String)
  | datetimeType
  | datetimeParsing (reason : String)
  | datetimeFromDate (reason : String)
  | modelType (name : String)
  | modelAttributes
  | value (reason : String)
  | syntaxError
  deriving DecidableEq, Repr

namespace Complaint

/-- A number of characters. -/
private def characters (n : Nat) : String := toString n ++ (if n = 1 then " character" else " characters")

/-- The word by which programs tell complaints apart. -/
def type : Complaint → String
  | missing => "missing"
  | extraForbidden => "extra_forbidden"
  | stringType => "string_type"
  | stringUnicode => "string_unicode"
  | stringTooShort _ => "string_too_short"
  | stringTooLong _ => "string_too_long"
  | integerType => "int_type"
  | integerParsing => "int_parsing"
  | integerParsingSize => "int_parsing_size"
  | integerFromFloat => "int_from_float"
  | floatType => "float_type"
  | floatParsing => "float_parsing"
  | boolType => "bool_type"
  | boolParsing => "bool_parsing"
  | listType => "list_type"
  | objectType => "dict_type"
  | decimalType => "decimal_type"
  | decimalParsing => "decimal_parsing"
  | finiteNumber => "finite_number"
  | decimalDigits _ => "decimal_max_digits"
  | decimalPlaces _ => "decimal_max_places"
  | decimalWholeDigits _ => "decimal_whole_digits"
  | notGreater _ => "greater_than"
  | uuidType => "uuid_type"
  | uuidParsing _ => "uuid_parsing"
  | datetimeType => "datetime_type"
  | datetimeParsing _ => "datetime_parsing"
  | datetimeFromDate _ => "datetime_from_date_parsing"
  | modelType _ => "model_type"
  | modelAttributes => "model_attributes_type"
  | value _ => "value_error"
  | syntaxError => "json_invalid"

/-- The wording of a complaint. -/
def message : Complaint → String
  | missing => "Field required"
  | extraForbidden => "Extra inputs are not permitted"
  | stringType => "Input should be a valid string"
  | stringUnicode => "Input should be a valid string, unable to parse raw data as a unicode string"
  | stringTooShort least => "String should have at least " ++ characters least
  | stringTooLong most => "String should have at most " ++ characters most
  | integerType => "Input should be a valid integer"
  | integerParsing => "Input should be a valid integer, unable to parse string as an integer"
  | integerParsingSize => "Unable to parse input string as an integer, exceeded maximum size"
  | integerFromFloat => "Input should be a valid integer, got a number with a fractional part"
  | floatType => "Input should be a valid number"
  | floatParsing => "Input should be a valid number, unable to parse string as a number"
  | boolType => "Input should be a valid boolean"
  | boolParsing => "Input should be a valid boolean, unable to interpret input"
  | listType => "Input should be a valid list"
  | objectType => "Input should be a valid dictionary"
  | decimalType => "Decimal input should be an integer, float, string or Decimal object"
  | decimalParsing => "Input should be a valid decimal"
  | finiteNumber => "Input should be a finite number"
  | decimalDigits most => "Decimal input should have no more than " ++ toString most ++ " digits in total"
  | decimalPlaces most => "Decimal input should have no more than " ++ toString most ++ " decimal places"
  | decimalWholeDigits most =>
    "Decimal input should have no more than " ++ toString most ++ " digits before the decimal point"
  | notGreater bound => "Input should be greater than " ++ toString bound
  | uuidType => "UUID input should be a string, bytes or UUID object"
  | uuidParsing reason => "Input should be a valid UUID, " ++ reason
  | datetimeType => "Input should be a valid datetime"
  | datetimeParsing reason => "Input should be a valid datetime, " ++ reason
  | datetimeFromDate reason => "Input should be a valid datetime or date, " ++ reason
  | modelType name => "Input should be a valid dictionary or instance of " ++ name
  | modelAttributes => "Input should be a valid dictionary or object to extract fields from"
  | value reason => "Value error, " ++ reason
  | syntaxError => "JSON decode error"

end Complaint

/-- One thing that is wrong, and where. -/
structure Issue where
  /-- The way to the value. -/
  location : List Place
  /-- What is wrong with it. -/
  complaint : Complaint
  deriving DecidableEq, Repr

/-- The issue at a place further out. -/
def Issue.within (place : Place) (i : Issue) : Issue := { i with location := place :: i.location }

/-- The result of a check: a value, or everything that is wrong. -/
abbrev Checked (α : Type) := Except (List Issue) α

/-- A value refused as a whole. -/
def refuse {α : Type} (c : Complaint) : Checked α := .error [⟨[], c⟩]

/-- A check whose issues lie at a place. -/
def under {α : Type} (place : Place) (c : Checked α) : Checked α :=
  match c with
  | .ok a => .ok a
  | .error issues => .error (issues.map (Issue.within place))

/-- Two checks of which both are carried out, so that the issues of both are found. -/
def both {α β γ : Type} (f : α → β → γ) (a : Checked α) (b : Checked β) : Checked γ :=
  match a, b with
  | .ok a, .ok b => .ok (f a b)
  | .error i, .ok _ => .error i
  | .ok _, .error j => .error j
  | .error i, .error j => .error (i ++ j)

/-- Supply one more checked argument to a constructor; the issues of all arguments are found, in their order. -/
def also {α β : Type} (a : Checked α) (f : Checked (α → β)) : Checked β := both (fun f a => f a) f a

/-- Check every item of a list at its index. -/
def each {α β : Type} (check : α → Checked β) (n : Nat) : List α → Checked (List β)
  | [] => .ok []
  | x :: xs => both List.cons (under (.index n) (check x)) (each check (n + 1) xs)

end PaymentRetry.Validation
