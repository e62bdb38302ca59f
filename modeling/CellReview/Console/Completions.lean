import CellReview.Console.Arguments
import CellReview.Text.Line

/-!
# Completions for shells

The wording of the usage and of the scripts is this library's own, and no result rests on it.

* `usage` — how the program is called;
* `completions` — a script that teaches a shell the words of a command line.
-/

namespace CellReview.Console

/-- The name of the program. -/
def programName : String := "cellpilot"

/-- How the program is called. -/
def usage : String :=
  Text.joinLines
    ["Chat with a model about a code cell and review its edits",
     "",
     "Usage: " ++ programName ++ " [--json] [-v|--verbose] [--workspace <DIR>] <TASK>",
     "",
     "Tasks:",
     "  chat --cell <FILE>              talk about the cell in a file",
     "  diff [--patch] <BEFORE> <AFTER> compare two files",
     "  config                          show the settings",
     "  completions <SHELL>             print the completions of a shell",
     "  help                            print this text",
     ""]

/-- The names of the tasks. -/
def taskNames : List String := ["chat", "diff", "config", "completions", "help"]

/-- The long names of switches and options, in the order of the usage. -/
def optionNames : List String := ["json", "verbose", "workspace", "cell", "patch", "help"]

/-- All words of a command line. -/
def commandWords : List String :=
  taskNames ++ optionNames.map fun name => "--" ++ name

/-- Words with a space between neighbours. -/
def spaced (words : List String) : String :=
  " ".intercalate words

/-- A script that completes the words of a command line. -/
def completions : Shell → String
  | .bash => "complete -o default -W '" ++ spaced commandWords ++ "' " ++ programName ++ "\n"
  | .zsh =>
    "#compdef " ++ programName ++ "\ncompadd -- " ++ spaced commandWords ++ "\n_files\n"
  | .fish =>
    String.join (taskNames.map fun name =>
      "complete -c " ++ programName ++ " -n __fish_use_subcommand -a " ++ name ++ "\n") ++
    String.join (optionNames.map fun name =>
      "complete -c " ++ programName ++ " -l " ++ name ++ "\n")
  | .elvish =>
    "set edit:completion:arg-completer[" ++ programName ++ "] = \x7b|@words| put " ++
      spaced commandWords ++ " \x7d\n"
  | .powershell =>
    "Register-ArgumentCompleter -Native -CommandName " ++ programName ++
      " -ScriptBlock \x7b param($word) " ++
      ", ".intercalate (commandWords.map fun word => "'" ++ word ++ "'") ++
      " | Where-Object \x7b $_ -like \"$word*\" \x7d \x7d\n"

end CellReview.Console
