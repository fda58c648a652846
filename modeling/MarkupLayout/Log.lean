/-!
# Log levels and entries
-/

namespace MarkupLayout

/-- How much is logged; each level includes those before it. -/
inductive LogLevel where
  | off
  | error
  | warn
  | info
  | debug
  | trace
deriving DecidableEq, Repr

namespace LogLevel

def all : List LogLevel := [off, error, warn, info, debug, trace]

def rank : LogLevel → Nat
  | off => 0
  | error => 1
  | warn => 2
  | info => 3
  | debug => 4
  | trace => 5

def name : LogLevel → String
  | off => "off"
  | error => "error"
  | warn => "warn"
  | info => "info"
  | debug => "debug"
  | trace => "trace"

def ofName? (name : String) : Option LogLevel :=
  all.find? (·.name == name)

def next : LogLevel → LogLevel
  | off => error
  | error => warn
  | warn => info
  | info => debug
  | debug => trace
  | trace => trace

def raised (level : LogLevel) : Nat → LogLevel
  | 0 => level
  | steps + 1 => level.next.raised steps

end LogLevel

structure LogEntry where
  level : LogLevel
  message : String
deriving DecidableEq, Repr

def renderLog (level : LogLevel) (entries : List LogEntry) : String :=
  let shown := entries.filter fun entry => decide (entry.level.rank ≤ level.rank)
  String.join (shown.map fun entry => entry.level.name ++ ": " ++ entry.message ++ "\n")

end MarkupLayout
