import PaymentRetry.Json.Printer
import PaymentRetry.Validation.Lax

/-!
# Orders

An order asks for a payment to be made.  `Order.ofJson` reads one from the members of an object and finds everything
that is wrong with them; `Order.render` writes one.
-/

namespace PaymentRetry.Api

/-- A request for a payment. -/
structure Order where
  key : String
  transaction : String
  /-- The amount to charge: positive, with at most twelve digits, two of them after the point. -/
  amount : Decimal
  currency : String
  /-- What is sent along. -/
  properties : List (String × String)
  deriving DecidableEq

namespace Order

/-- The name of an order in complaints. -/
def modelName : String := "PaymentCreate"

/-- The properties as structured values. -/
def propertyMembers (o : Order) : List (String × Json) := o.properties.map fun (key, value) => (key, .text value)

section

open Validation

/-- Read an order from the members of an object. -/
def ofMembers (j : Json) : Checked Order :=
  .ok Order.mk
    |> also (required j "payment_external_key" (boundedText 1 128))
    |> also (required j "transaction_external_key" (boundedText 1 128))
    |> also (required j "amount" (positiveDecimal 12 2))
    |> also (required j "currency" (boundedText 3 3))
    |> also (optional j "properties" [] texts)

/-- Read an order. -/
def ofJson (j : Json) : Checked Order :=
  match j with
  | .object _ => ofMembers j
  | _ => refuse (.modelType modelName)

end

/-- An order as a structured value. -/
def toJson (o : Order) : Json :=
  .object [("payment_external_key", .text o.key), ("transaction_external_key", .text o.transaction),
    ("amount", .text o.amount.text), ("currency", .text o.currency), ("properties", .object o.propertyMembers)]

/-- The text of an order. -/
def render (o : Order) : String := o.toJson.render .compact

end Order

end PaymentRetry.Api
