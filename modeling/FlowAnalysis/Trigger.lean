import FlowAnalysis.Options
import FlowAnalysis.Script.FlowClass
import FlowAnalysis.Script.Parsed
import FlowAnalysis.Text.Pattern

/-!
# Triggers

A flow says which event starts it by the type argument of its base class, and a flow that runs
on a schedule names the schedule in a field.  Where the class does not say either, the text of
the script is searched for it.
-/

namespace FlowAnalysis

open Script

/-- The events that can start a flow. -/
inductive Event
  | webhook
  | schedule
  | mention
  | message
  | email
  deriving DecidableEq, Repr, Inhabited

namespace Event

/-- The name of an event, as a type argument gives it. -/
def name : Event → String
  | webhook => "webhook/http"
  | schedule => "schedule/cron"
  | mention => "slack/bot_mentioned"
  | message => "slack/message_received"
  | email => "gmail/email_received"

/-- The name of the type of an event's payload. -/
def typeName : Event → String
  | webhook => "WebhookEvent"
  | schedule => "CronEvent"
  | mention => "SlackMentionEvent"
  | message => "SlackMessageEvent"
  | email => "GmailEmailEvent"

/-- Every event. -/
def all : List Event := [webhook, schedule, mention, message, email]

/-- The event of a name. -/
def ofName? (name : String) : Option Event := all.find? fun e => e.name == name

/-- The event with a payload type of a name. -/
def ofTypeName? (name : String) : Option Event := all.find? fun e => e.typeName == name

end Event

/-- What starts a flow. -/
structure Trigger where
  /-- The name of an event, known or not. -/
  type : String
  schedule : Option String
  deriving DecidableEq, Repr, Inhabited

namespace Trigger

/-- A trigger as JSON. -/
def toJson (t : Trigger) : Json :=
  .record [("type", some (.str t.type)), ("cronSchedule", t.schedule.map .str)]

/-- The event that the type argument of the base class names. -/
def declaredType? (c : FlowClass) : Option String := do
  let argument ← c.typeArgument
  let literal ←
    match argument.kind with
    | .literalType => argument.part?
    | .string => some argument
    | _ => none
  if literal.kind == .string then return Text.unquote literal.text else none

/-- Single and double quotes. -/
def isPlainQuote (c : Char) : Bool := c == '\'' || c == '"'

/-- A base class with a quoted type argument, which is group 1. -/
def typePattern (base : String) : Text.Pattern :=
  .all [.text "extends", .run true 1 Text.isBlank, .text base, .blanks, .text "<", .blanks,
    .one isPlainQuote, .group 1 (.run true 1 fun c => !isPlainQuote c), .one isPlainQuote,
    .blanks, .text ">"]

/-- A field with a quoted schedule, which is group 1. -/
def schedulePattern : Text.Pattern :=
  .all [.text "cronSchedule", .blanks,
    .optional (.all [.text ":", .blanks, .text "string", .blanks]),
    .text "=", .blanks, .one Text.isQuote, .group 1 (.run true 1 fun c => !Text.isQuote c),
    .one Text.isQuote]

/-- The schedule in the field of the class. -/
def declaredSchedule? (c : FlowClass) : Option String := do
  let value ← c.fieldValue? "cronSchedule"
  if value.kind == .string || (value.kind == .templateString && !value.hasSubstitution) then
    return Text.unquote value.text
  else none

/-- The first alternative if there is one, otherwise what the text of the script gives. -/
def orFound (declared : Option String) (pattern : Text.Pattern) (source : String) :
    Option String :=
  match declared with
  | some s => some s
  | none => (pattern.first? source).bind (·.lookup 1)

/-- What starts the flow of a script. -/
def extract? (p : ParsedScript) (options : Options) : Option Trigger := do
  let flow := (FlowClass.all options.flowBaseClass p.root).head?
  let type ← orFound (flow.bind declaredType?) (typePattern options.flowBaseClass) p.source
  if type == Event.schedule.name then
    return ⟨type, orFound (flow.bind declaredSchedule?) schedulePattern p.source⟩
  else return ⟨type, none⟩

end Trigger

end FlowAnalysis
