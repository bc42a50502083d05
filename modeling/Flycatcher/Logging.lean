import Flycatcher.HandOver
import Mathlib.Data.List.Basic

namespace Flycatcher.Logging

open Library.TextStreams HandOver

inductive Level
  | trace
  | debug
  | info
  | warn
  | error
deriving DecidableEq

def Level.value : Level → Nat
  | .trace => 0
  | .debug => 1
  | .info => 2
  | .warn => 3
  | .error => 4

def Level.logPrefix : Level → Str
  | .error => " [ERROR] ".toList
  | .warn => " [WARN] ".toList
  | .info => " [INFO] ".toList
  | .debug => " [DEBUG] ".toList
  | .trace => " [TRACE] ".toList

def createLog (timestamp message : Str) (level : Level) (name : Str) : Str :=
  timestamp ++ level.logPrefix ++ "[".toList ++ name ++ "] ".toList ++ message ++ ['\n']

/-- What a sink is given, and whether it is a status line of the LogProcessor. -/
structure Line where
  text : Str
  own : Bool
deriving DecidableEq

abbrev Output := List Line

/-- The overloads of log, which are the same for the three loggers but for the
sink. -/
def log (text : Str) (own : Bool) (output : Output) : Output := output ++ [⟨text, own⟩]

def logAt (cutoff : Level) (text : Str) (level : Level) (own : Bool) (output : Output) : Output :=
  if level.value < cutoff.value then output else log text own output

def logNamed (cutoff : Level) (timestamp message : Str) (level : Level) (name : Str) (own : Bool)
    (output : Output) : Output :=
  if level.value < cutoff.value then output
  else log (createLog timestamp message level name) own output

structure Entry where
  timestamp : Str
  message : Str
  name : Str
deriving DecidableEq

def enqueueAt (cutoff level : Level) (entry : Entry) (queue : SafeQueue Str) : SafeQueue Str :=
  if cutoff.value > level.value then queue
  else queue.enqueue (createLog entry.timestamp entry.message level entry.name)

def trace (cutoff : Level) : Entry → SafeQueue Str → SafeQueue Str := enqueueAt cutoff .trace

def debug (cutoff : Level) : Entry → SafeQueue Str → SafeQueue Str := enqueueAt cutoff .debug

def info (cutoff : Level) : Entry → SafeQueue Str → SafeQueue Str := enqueueAt cutoff .info

def warn (cutoff : Level) : Entry → SafeQueue Str → SafeQueue Str := enqueueAt cutoff .warn

/-- Not cut off. -/
def error (entry : Entry) (queue : SafeQueue Str) : SafeQueue Str :=
  queue.enqueue (createLog entry.timestamp entry.message .error entry.name)

structure Call where
  level : Level
  entry : Entry
deriving DecidableEq

def Call.perform (cutoff : Level) (call : Call) (queue : SafeQueue Str) : SafeQueue Str :=
  match call.level with
  | .trace => trace cutoff call.entry queue
  | .debug => debug cutoff call.entry queue
  | .info => info cutoff call.entry queue
  | .warn => warn cutoff call.entry queue
  | .error => error call.entry queue

def Call.text (call : Call) : Str :=
  createLog call.entry.timestamp call.entry.message call.level call.entry.name

def messages (cutoff : Level) (calls : List Call) : List Str :=
  (calls.filter fun call => cutoff.value ≤ call.level.value).map Call.text

theorem createLog_ne_nil (timestamp message : Str) (level : Level) (name : Str) :
    createLog timestamp message level name ≠ [] := by
  simp [createLog]

theorem enqueueAt_eq (cutoff level : Level) (entry : Entry) (queue : SafeQueue Str) :
    enqueueAt cutoff level entry queue = queue ++ messages cutoff [⟨level, entry⟩] := by
  rw [enqueueAt, messages]
  by_cases h : cutoff.value ≤ level.value
  · rw [if_neg (by omega)]
    simp [h, SafeQueue.enqueue, Call.text]
  · rw [if_pos (by omega)]
    simp [h]

theorem error_eq (cutoff : Level) (entry : Entry) (queue : SafeQueue Str) :
    error entry queue = queue ++ messages cutoff [⟨.error, entry⟩] := by
  have h : cutoff.value ≤ Level.error.value := by cases cutoff <;> decide
  simp [error, messages, h, SafeQueue.enqueue, Call.text]

theorem perform_eq (cutoff : Level) (call : Call) (queue : SafeQueue Str) :
    call.perform cutoff queue = queue ++ messages cutoff [call] := by
  obtain ⟨level, entry⟩ := call
  cases level with
  | trace | debug | info | warn => exact enqueueAt_eq cutoff _ entry queue
  | error => exact error_eq cutoff entry queue

theorem messages_append (cutoff : Level) (calls calls' : List Call) :
    messages cutoff (calls ++ calls') = messages cutoff calls ++ messages cutoff calls' := by
  simp [messages]

theorem mem_messages_ne_nil {cutoff : Level} {calls : List Call} {text : Str}
    (h : text ∈ messages cutoff calls) : text ≠ [] := by
  obtain ⟨call, -, rfl⟩ := List.mem_map.mp h
  exact createLog_ne_nil _ _ _ _

end Flycatcher.Logging
