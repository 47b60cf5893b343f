/-
How severe a log record is, and how a threshold is spelled.

A threshold may be spelled by any beginning of a level's name, in any case: the
long names are tried in order, then the short ones. `OFF` is tried first but is
no level, so what begins it spells nothing. What spells nothing stands for
`info`.
-/
import LowPass.Text.LowerCase
import LowPass.Text.Words
import LowPass.Text.Utf8

namespace LowPass

inductive Level where
  | critical
  | error
  | warning
  | info
  | debug
  | trace
  deriving DecidableEq

namespace Level

/-- Greater for less severe. -/
def rank : Level → Nat
  | .critical => 1
  | .error => 2
  | .warning => 3
  | .info => 4
  | .debug => 5
  | .trace => 6

def longName : Level → String
  | .critical => "CRITICAL"
  | .error => "ERROR"
  | .warning => "WARNING"
  | .info => "INFO"
  | .debug => "DEBUG"
  | .trace => "TRACE"

def shortName : Level → String
  | .critical => "CRIT"
  | .error => "ERRO"
  | .warning => "WARN"
  | .info => "INFO"
  | .debug => "DEBG"
  | .trace => "TRCE"

/-- All levels, the most severe first. -/
def all : List Level := [.critical, .error, .warning, .info, .debug, .trace]

/-- Whether a record of a level passes a threshold. -/
def passes (level threshold : Level) : Bool := level.rank ≤ threshold.rank

/-- Whether a text, in lower case, is a beginning of a name. -/
def begins (typed : List Char) (name : String) : Bool :=
  typed.isPrefixOf (name.toList.map Char.toLower)

/-- What a text in lower case spells by a table of names: nothing, or `OFF`, or
a level. -/
def spelled? (nameOf : Level → String) (typed : List Char) : Option (Option Level) :=
  if begins typed "OFF" then some none
  else (all.find? fun level => begins typed (nameOf level)).map some

/-- The level that a text spells, blanks around it and case aside. -/
def named? (s : String) : Option Level :=
  let typed := lower (trim s.toList)
  if typed = [] then none
  else ((spelled? longName typed).or (spelled? shortName typed)).join

/-- The threshold that a text stands for. -/
def ofText (s : String) : Level := (named? s).getD .info

end Level
end LowPass
