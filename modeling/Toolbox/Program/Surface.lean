import Toolbox.Program.Script
import Toolbox.Surface.Command

/-!
# The commands of `dot`

The command line that `dot` declares: discovering and fetching content, setting up projects, working
with accounts, and completion scripts.
-/

namespace Toolbox.Program

open Surface Text

/-! ## Parameters -/

/-- The flag `--verbose`, for the program as a whole. -/
def verbose : Parameter :=
  { id := "verbose", long := some "verbose", short := some 'v', action := .setTrue
    help := some "Enable verbose logging" }

/-- The flag `--json`, for every command. -/
def json : Parameter :=
  { id := "json", long := some "json", action := .setTrue, isGlobal := true
    help := some "Emit JSON output instead of human-readable text" }

/-- The option `--format`, for lists. -/
def format : Parameter :=
  { id := "format", long := some "format", short := some 'f', valueName := "FORMAT"
    values := .choice [{ name := "json" }, { name := "csv" }, { name := "human" }]
    help := some "Output format" }

/-- The flag `--env-only`, for projects. -/
def envOnly : Parameter :=
  { id := "env_only", long := some "env-only", action := .setTrue
    conflicts := ["template_only"]
    help := some "Only set up environment (skip template files)" }

/-- The flag `--template-only`, for projects. -/
def templateOnly : Parameter :=
  { id := "template_only", long := some "template-only", action := .setTrue
    help := some "Only fetch template files (skip env setup)" }

/-- The option `--network`, for smart contracts. -/
def network : Parameter :=
  { id := "network", long := some "network", short := some 'n', valueName := "NETWORK"
    values := .choice [{ name := "dev" }, { name := "test" }]
    help := some "Network the project is wired to" }

def directory (help : String) : Parameter :=
  { id := "dir", valueName := "DIR", values := .path, required := true, help := some help }

def identifier (help : String) : Parameter :=
  { id := "id", valueName := "ID", required := true, help := some help }

def passthrough : Parameter :=
  { id := "passthrough", valueName := "ARGS", action := .append, takesRest := true
    help := some "Arguments passed through to the key generator unchanged" }

def shell : Parameter :=
  { id := "shell", valueName := "SHELL", required := true
    values := .choice (Shell.all.map fun s => { name := s.name })
    help := some "Target shell for completion script generation" }

/-! ## Commands -/

def leaf (name about : String) (parameters : List Parameter) : Command :=
  { name, about, parameters }

/-- What closes the page of a command: examples of calls, each under a comment. -/
def examples (calls : List (String × String)) : Option String :=
  some ("EXAMPLES:\n" ++ joinWith "\n\n" (calls.map fun c => "    # " ++ c.1 ++ "\n    " ++ c.2))

/-- The command `dot list`, with one command below it for each source. -/
def list : Command :=
  { name := "list", aliases := [{ name := "ls" }], needsSubcommand := true
    about := "Discover templates, tutorials, devcontainers, and dynamic sources"
    afterHelp := examples [
      ("List project templates", "dot list templates"),
      ("Emit machine-readable output", "dot list tutorials --format json")]
    subcommands := [
      leaf "templates" "List available project templates" [format],
      leaf "tutorials" "List curated tutorials" [format],
      leaf "devcontainers" "List first-party devcontainers" [format],
      leaf "accounts" "List locally known accounts (or from a managed registry)" [format]] }

/-- A framework for smart contracts, under `dot init contracts`. -/
def framework (name about : String) : Command :=
  leaf name about [directory "Target project directory", network]

/-- The command `dot init contracts`, with one command below it for each framework. -/
def contracts : Command :=
  { name := "contracts", about := "Initialize a smart-contracts project", needsSubcommand := true
    parameters := [envOnly, templateOnly]
    subcommands := [
      framework "hardhat" "Initialize a Hardhat smart-contracts project",
      framework "foundry" "Initialize a Foundry smart-contracts project",
      framework "ink" "Initialize an ink! smart-contracts project"] }

/-- A project that is set up as a whole, under `dot init`. -/
def project (name about : String) : Command :=
  leaf name about [directory "Target project directory", envOnly, templateOnly]

/-- The command `dot init`, with one command below it for each kind of project. -/
def init : Command :=
  { name := "init", needsSubcommand := true
    about := "Initialize a project from a template and set up its environment"
    afterHelp := examples [
      ("Scaffold a Hardhat project against the dev network",
        "dot init contracts hardhat ./flipper --network dev"),
      ("Only fetch template files", "dot init dapp ./my-dapp --template-only")]
    subcommands := [
      contracts,
      project "dapp" "Initialize a dapp project",
      project "pallet" "Initialize a pallet project"] }

/-- A kind of content, under `dot fetch`. -/
def content (name about : String) : Command :=
  leaf name about [identifier "Content id", directory "Destination directory"]

/-- The command `dot fetch`, with one command below it for each kind of content. -/
def fetch : Command :=
  { name := "fetch", needsSubcommand := true
    about := "Fetch content by id into a destination directory"
    afterHelp := examples [
      ("Fetch a template", "dot fetch template hardhat-flipper ./flipper"),
      ("Fetch a binary", "dot fetch binary subkey ./bin")]
    subcommands := [
      content "template" "Fetch a template by id",
      content "binary" "Fetch a binary by id (e.g., subkey, nodes)"] }

/-- A command on one account, under `dot account`. -/
def onAccount (name about : String) : Command :=
  leaf name about [identifier "Account, address, or alias"]

/-- The command `dot account`, with the commands on accounts below it. -/
def account : Command :=
  { name := "account", about := "Keypair utilities and on-chain lookups", needsSubcommand := true
    afterHelp := examples [
      ("Generate a keypair (arguments pass through to subkey)",
        "dot account generate --scheme sr25519"),
      ("Show an account's balance", "dot account balance alice")]
    subcommands := [
      leaf "generate" "Generate a new keypair (delegates to subkey under the hood)" [passthrough],
      onAccount "info" "Show metadata for an account",
      onAccount "balance" "Show on-chain balance for an account",
      onAccount "configure" "Configure a locally known account (labels, defaults, network)"] }

/-- The command `dot completions`. -/
def completions : Command :=
  { name := "completions", about := "Generate shell completion scripts"
    longAbout := some "Print a completion shim that asks `dot` for candidates at runtime."
    afterHelp := examples [
      ("Enable zsh completions for this session", "source <(dot completions zsh)"),
      ("Enable fish completions", "dot completions fish | source")]
    parameters := [shell] }

def dot : Command :=
  { name := "dot", version := some "0.1.0", needsSubcommand := true
    about := "Polkadot toolbox: a unified, wide-thin wrapper over core ecosystem tools"
    parameters := [verbose, json]
    subcommands := [list, init, fetch, account, completions] }

end Toolbox.Program
