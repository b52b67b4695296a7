import SeriesAlarm.Text.Environment
import SeriesAlarm.Text.LetterCase

/-!
# Webhooks

The address, method and headers of a request, with the variables of the environment filled in.
-/

namespace SeriesAlarm

open Text

/-- Why a webhook cannot be set up. -/
inductive WebhookError
  | badMethod (text : String)
  | reference (cause : ReferenceError)
  deriving DecidableEq, Repr

def WebhookError.message : WebhookError → String
  | .badMethod text => "invalid HTTP method: " ++ text
  | .reference cause => cause.message

structure Webhook where
  url : String
  method : String
  headers : List (String × String)
  deriving DecidableEq, Repr

namespace Webhook

/-- The characters of a method: ASCII letters, digits and some marks. -/
def isMethodChar (c : Char) : Bool := c.isAlphanum || "!#$%&'*+-.^_`|~".toList.contains c

def method? (text : String) : Option String :=
  let m := upperCase text
  if m ≠ "" ∧ m.toList.all isMethodChar then some m else none

def expandValues (env : Environment) :
    List (String × String) → Except ReferenceError (List (String × String))
  | [] => .ok []
  | (k, v) :: ms => do
    let v ← env.expand v
    let ms ← expandValues env ms
    return (k, v) :: ms

/-- Checks the method, which is `POST` by default, then fills in the header values and the
address. -/
def ofConfig (env : Environment) (url : String) (method : Option String)
    (headers : List (String × String)) : Except WebhookError Webhook :=
  match method.elim (some "POST") method? with
  | none => .error (.badMethod (method.getD ""))
  | some m =>
    match expandValues env headers with
    | .error e => .error (.reference e)
    | .ok headers =>
      match env.expand url with
      | .error e => .error (.reference e)
      | .ok url => .ok { url, method := m, headers }

end Webhook
end SeriesAlarm
