import SeriesAlarm.Delivery.Notification
import SeriesAlarm.Delivery.Shell
import SeriesAlarm.Delivery.Webhook

/-!
# Channels

Where the notifications of an action go, and what becomes of an attempt to deliver one.
-/

namespace SeriesAlarm

open Text

/-- A program that reads the notification as JSON, with the milliseconds it may take. -/
structure Hook where
  program : String
  args : List String
  timeout : Nat := 30000
  deriving DecidableEq, Repr

inductive DeliveryError
  | config (message : String)
  | hook (message : String)
  | template
  | http
  deriving DecidableEq, Repr

def DeliveryError.message : DeliveryError → String
  | .config message => "Configuration error: " ++ message
  | .hook message => "Process delivery failed: " ++ message
  | .template => "Template rendering failed: <template>"
  | .http => "HTTP request failed: <http>"

namespace Hook

def ofConfig (program : String) (args : List String) : Except DeliveryError Hook :=
  if trimChars program.toList = [] then .error (.config "process delivery needs a command")
  else .ok { program, args }

/-- A time with its largest fitting unit, as `30ms`, `1.5s` or `0ns`. -/
def timeText (millis : Nat) : String :=
  if millis = 0 then "0ns"
  else if millis < 1000 then Nat.repr millis ++ "ms"
  else
    let fraction := (zeroPad 3 (millis % 1000)).toList.reverse.dropWhile (· == '0')
    Nat.repr (millis / 1000) ++
      (if fraction = [] then "" else "." ++ String.ofList fraction.reverse) ++ "s"

def ownVariables (n : Notification) : Environment :=
  [("TSALARM_SUBJECT", n.subject), ("TSALARM_ACTION_ID", (n.fact? "action_id").getD "")]

def pipeSize : Nat := 65536

/-- Runs the program on the notification. It fails if it cannot be started, takes too long, ends
with an error, or leaves more than a pipe holds unread. -/
def deliver (h : Hook) (env : Environment) (n : Notification) :
    Except DeliveryError Unit × List (String × String) :=
  let input := n.json.compact
  match Shell.Run.program? { env := ownVariables n ++ env, input } h.program h.args with
  | none =>
    (.error (.hook ("failed to spawn " ++ h.program ++ ": No such file or directory (os error 2)")),
      [])
  | some r =>
    let outcome :=
      if h.timeout ≤ r.millis then
        .error (.hook (h.program ++ " did not finish within " ++ timeText h.timeout))
      else if !r.ending.succeeded then
        .error (.hook (h.program ++ " exited with " ++ r.ending.message ++ ": " ++ trim r.errors))
      else if !r.inputRead && pipeSize < input.utf8ByteSize then
        .error (.hook (h.program ++ " did not read the notification: Broken pipe (os error 32)"))
      else .ok ()
    (outcome, r.files)

end Hook

/-- A recorder only keeps what it is given. -/
inductive Channel
  | log
  | webhook (target : Webhook)
  | hook (command : Hook)
  | recorder
  deriving DecidableEq, Repr

namespace Channel

def name : Channel → String
  | .log => "log"
  | .webhook _ => "webhook"
  | .hook _ => "process"
  | .recorder => "recorder"

/-- Delivers where no network can be reached: requests fail, commands run, all else is kept. -/
def deliverOffline (env : Environment) (n : Notification) : Channel → Except DeliveryError Unit
  | .log | .recorder => .ok ()
  | .webhook _ => .error .http
  | .hook command => (command.deliver env n).1

def written (env : Environment) (n : Notification) : Channel → List (String × String)
  | .hook command => (command.deliver env n).2
  | _ => []

end Channel
end SeriesAlarm
