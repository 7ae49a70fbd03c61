import Propositional.CommandLine.Options

/-!
# Usage and help texts

Both texts are laid out for a terminal of 80 columns, as argparse does it for the options of the
Veritas specification (section 6, CLI).
-/

namespace Propositional.CommandLine

/-- The name by which the program speaks of itself. -/
def programName : String := "run_simplify.py"

/-- The form of a command line, in front of help and of every complaint. -/
def usageLines : List String := [
  "usage: run_simplify.py [-h] [--table | --table-only] [--no-simplify]",
  "                       [--case-sensitive]",
  "                       [--sort \x7bDEFAULT,TRUE_FIRST,FALSE_FIRST\x7d]",
  "                       [--hide \x7bNONE,TRUE,FALSE\x7d] [--hide-intermediate]",
  "                       [--lang LANG] [--json] [-v] [--debug]",
  "                       expression"]

/-- What is printed where help is asked for. -/
def helpLines : List String := usageLines ++ [
  "",
  "Veritas boolean expression simplifier",
  "",
  "positional arguments:",
  "  expression            Boolean expression to process",
  "",
  "options:",
  "  -h, --help            show this help message and exit",
  "  --table               Also print a truth table of the result",
  "  --table-only          Only tabulate the expression as written, without",
  "                        simplifying",
  "  --no-simplify         Validate and parse only",
  "  --case-sensitive      Treat variables differing in case as different",
  "                        variables",
  "  --sort \x7bDEFAULT,TRUE_FIRST,FALSE_FIRST\x7d",
  "                        Truth table row order",
  "  --hide \x7bNONE,TRUE,FALSE\x7d",
  "                        Hide truth table rows whose result is TRUE or FALSE",
  "  --hide-intermediate   Only tabulate variables and the whole expression",
  "  --lang LANG           Language of error messages (en or nb)",
  "  --json                Print the result as JSON",
  "  -v, --verbose         Enable verbose output",
  "  --debug               Enable debug output (overrides --verbose)",
  "",
  "Examples:",
  "  python run_simplify.py \"A and not A\"",
  "  python run_simplify.py \"A -> B\" --table --case-sensitive",
  "  python run_simplify.py \"(A | B) & C\" --table-only --hide-intermediate",
  "  python run_simplify.py \"A & B\" --table --sort TRUE_FIRST --json",
  "",
  "Operators:",
  "  not: ¬ ! ~ not      and: ⋀ & && ∧ and",
  "  or:  ⋁ | || ∨ or    implies: ➔ -> => → ⇒ implies",
  "        "]

/-- The lines, each with its line feed. -/
def unlines (lines : List String) : String := String.join (lines.map (· ++ "\n"))

/-- What is printed where a command line could not be read. -/
def UsageError.report (e : UsageError) : String :=
  unlines (usageLines ++ [programName ++ ": error: " ++ e.message])

end Propositional.CommandLine
