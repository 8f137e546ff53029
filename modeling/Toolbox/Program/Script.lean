import Toolbox.Text.Affix

/-!
# Completion scripts

The shells for which completion can be set up, and the script that sets it up. For bash, fish and
zsh the script asks `dot __complete` at every key, so that menus always show the commands as they
are; it takes the response apart at its tags and unit separators. For the other shells the menus
are fixed when the script is made.
-/

namespace Toolbox

open Text

/-- A shell that completion can be set up for. -/
inductive Shell where
  | bash
  | elvish
  | fish
  | powershell
  | zsh
  deriving DecidableEq, Repr

namespace Shell

def all : List Shell :=
  [bash, elvish, fish, powershell, zsh]

def name : Shell → String
  | bash => "bash"
  | elvish => "elvish"
  | fish => "fish"
  | powershell => "powershell"
  | zsh => "zsh"

/-- The shell that goes by a name, in this very spelling. -/
def ofName? (s : String) : Option Shell :=
  all.find? fun shell => shell.name = s

def bashScript : String :=
  lines [
    "# bash completion for dot. Install with:",
    "#   source <(dot completions bash)",
    "",
    "_dot() \x7b",
    "  local line=\"$\x7bCOMP_LINE:0:COMP_POINT\x7d\"",
    "  local -a words",
    "  read -r -a words <<< \"$line\"",
    "",
    "  # Re-split from the raw line so '--flag=value' stays one word.",
    "  local cur=\"\"",
    "  if [[ \"$line\" != *[[:space:]] ]]; then",
    "    cur=\"$\x7bwords[$\x7b#words[@]\x7d-1]\x7d\"",
    "  fi",
    "",
    "  local prefix=\"\"",
    "  if [[ \"$cur\" == --*=* && \"$COMP_WORDBREAKS\" != *=* ]]; then",
    "    prefix=\"$\x7bcur%%=*\x7d=\"",
    "  fi",
    "",
    "  COMPREPLY=()",
    "  local out insert",
    "  while IFS= read -r out; do",
    "    case \"$out\" in",
    "      COLOR$'\\t'*|NOTE$'\\t'*|HEADER$'\\t'*) continue ;;",
    "    esac",
    "    [[ \"$out\" == *$'\\x1f'* ]] || continue",
    "    insert=\"$\x7bout%%$'\\x1f'*\x7d\"",
    "    COMPREPLY+=(\"$\x7bprefix\x7d$\x7binsert\x7d\")",
    "  done < <(command dot __complete bash --cur=\"$cur\" -- \"$\x7bwords[@]\x7d\" 2>/dev/null)",
    "\x7d",
    "",
    "complete -o default -F _dot dot"]

def fishScript : String :=
  lines [
    "# fish completion for dot. Install with:",
    "#   dot completions fish | source",
    "",
    "function __dot_complete",
    "    set -l tokens (commandline -opc)",
    "    set -l cur (commandline -ct)",
    "",
    "    set -l prefix ''",
    "    if string match -q -- '--*=*' $cur",
    "        set prefix (string replace -r '=.*$' '=' -- $cur)",
    "    end",
    "",
    "    command dot __complete fish --cur=$cur -- $tokens $cur 2>/dev/null | while read -l line",
    "        if string match -q -r '^(COLOR|NOTE|HEADER)\\t' -- $line",
    "            continue",
    "        end",
    "        set -l parts (string split -m 1 \\x1f -- $line)",
    "        if test (count $parts) -lt 2",
    "            continue",
    "        end",
    "        set -l rest (string sub -s (math (string length -- $parts[1]) + 1) -- $parts[2])",
    "        set -l desc (string replace -r '^\\s*-- ' '' -- $rest | string trim)",
    "        if test -n \"$desc\"",
    "            printf '%s%s\\t%s\\n' $prefix $parts[1] $desc",
    "        else",
    "            printf '%s%s\\n' $prefix $parts[1]",
    "        end",
    "    end",
    "end",
    "",
    "complete -c dot -e",
    "complete -c dot -a '(__dot_complete)'"]

def zshScript : String :=
  lines [
    "#compdef dot",
    "# zsh completion for dot. Install with:",
    "#   source <(dot completions zsh)",
    "",
    "_dot() \x7b",
    "  local -a lines inserts menu",
    "  local line cur color note header",
    "  cur=\"$\x7bwords[CURRENT]\x7d\"",
    "",
    "  lines=(\"$\x7b(@f)$(command dot __complete zsh --cur=\"$cur\" -- " ++
      "\"$\x7b(@)words[1,CURRENT]\x7d\" 2>/dev/null)\x7d\")",
    "",
    "  for line in \"$\x7blines[@]\x7d\"; do",
    "    case \"$line\" in",
    "      COLOR$'\\t'*)  color=\"$\x7bline#*$'\\t'\x7d\" ;;",
    "      NOTE$'\\t'*)   note=\"$\x7bline#*$'\\t'\x7d\" ;;",
    "      HEADER$'\\t'*) header=\"$\x7bline#*$'\\t'\x7d\" ;;",
    "      *$'\\x1f'*)",
    "        inserts+=(\"$\x7bline%%$'\\x1f'*\x7d\")",
    "        menu+=(\"$\x7bline#*$'\\x1f'\x7d\")",
    "        ;;",
    "    esac",
    "  done",
    "",
    "  if [[ -n \"$color\" ]]; then",
    "    [[ -n \"$header\" ]] && header=\"%F\x7b$color\x7d$\x7bheader\x7d%f\"",
    "    [[ -n \"$note\" ]] && note=\"%F\x7b$color\x7d$\x7bnote\x7d%f\"",
    "  fi",
    "",
    "  if [[ -n \"$note\" ]]; then",
    "    _message -r \"$note\"",
    "  fi",
    "",
    "  (( $\x7b#inserts\x7d )) || return 1",
    "",
    "  # Inline flag values (--network=d) complete only the part after '='.",
    "  if [[ \"$cur\" == --*=* ]]; then",
    "    compset -P '*='",
    "  fi",
    "",
    "  compadd -l -V dot -X \"$header\" -d menu -- \"$\x7binserts[@]\x7d\"",
    "\x7d",
    "",
    "if [[ \"$funcstack[1]\" == \"_dot\" ]]; then",
    "  _dot \"$@\"",
    "else",
    "  compdef _dot dot",
    "fi"]

/-- The script that asks for menus at run time. There is none for the shells whose menus are
fixed. -/
def script? : Shell → Option String
  | bash => some bashScript
  | fish => some fishScript
  | zsh => some zshScript
  | elvish | powershell => none

/-- What a script with fixed menus opens with: the modules that it uses. -/
def opening : Shell → String
  | elvish => lines ["", "use builtin;", "use str;", ""]
  | powershell =>
    lines ["", "using namespace System.Management.Automation",
      "using namespace System.Management.Automation.Language", ""]
  | bash | fish | zsh => ""

def setup (shell : Shell) : String :=
  shell.script?.getD shell.opening

end Shell

end Toolbox
