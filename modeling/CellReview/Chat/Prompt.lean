import CellReview.Chat.Message
import CellReview.Json.Text
import CellReview.Text.Line

/-!
# Prompts

The texts that ask a model for a change, for a correction and for an explanation of
the code in the active cell.

* `Variable` — a variable that is defined beside the cell;
* `basicPrompt` — a task;
* `debugPrompt` — a correction;
* `explainPrompt` — an explanation.
-/

namespace CellReview.Chat

/-! ## Variables -/

/-- A variable that is defined beside the cell. -/
structure Variable where
  name : String
  typeName : String
  value : Json
  deriving DecidableEq, Repr, Inhabited

namespace Variable

/-- A variable as JSON. -/
def toJson (v : Variable) : Json :=
  .object [("name", .string v.name), ("type", .string v.typeName), ("value", v.value)]

/-- Read a variable. -/
def read : Reader Variable :=
  Reader.record
    [.of "name" .required Reader.string fun s v => { v with name := s },
     .of "type" .required Reader.string fun s v => { v with typeName := s },
     .of "value" .required Reader.any fun j v => { v with value := j }]
    default

end Variable

/-! ## Fixed parts -/

/-- How a reply should be written. -/
def rules : String := Text.joinLines
  ["When responding:",
   "- Do not use the word \"I\"",
   "- Do not recreate variables that already exist",
   "- Keep as much of the original code as possible"]

/-- A task with its variables, its code and a reply to it. -/
def workedExample : String := Text.joinLines
  ["<Example>",
   "",
   "Defined Variables:",
   "\x7b",
   "    'loan_multiplier': 1.5,",
   "    'sales_df': pd.DataFrame(\x7b",
   "        'transaction_date': ['2024-01-02', '2024-01-02', '2024-01-02', '2024-01-02', " ++
     "'2024-01-03'],",
   "        'price_per_unit': [10, 9.99, 13.99, 21.00, 100],",
   "        'units_sold': [1, 2, 1, 4, 5],",
   "        'total_price': [10, 19.98, 13.99, 84.00, 500]",
   "    \x7d)",
   "\x7d",
   "",
   "Code in the active code cell:",
   "```python",
   "import pandas as pd",
   "sales_df = pd.read_csv('./sales.csv')",
   "```",
   "",
   "Your task: convert the transaction_date column to datetime and then multiply the " ++
     "total_price column by the loan_multiplier.",
   "",
   "Output:",
   "",
   "```python",
   "import pandas as pd",
   "sales_df = pd.read_csv('./sales.csv')",
   "sales_df['transaction_date'] = pd.to_datetime(sales_df['transaction_date'])",
   "sales_df['total_price'] = sales_df['total_price'] * loan_multiplier",
   "```",
   "",
   "Converted the `transaction_date` column to datetime using the built-in pd.to_datetime " ++
     "function and multiplied the `total_price` column by the `loan_multiplier` variable.",
   "",
   "</Example>"]

/-! ## Prompts -/

/-- A code between fence lines. -/
def fenced (language code : String) : String :=
  "```" ++ language ++ "\n" ++ code ++ "\n```"

/-- The variables and the code that a prompt is about. -/
def context (vars : List Variable) (code language : String) : String :=
  "Defined Variables:\n\n" ++
    String.join (vars.map fun v => v.toJson.pretty ++ "\n") ++
    "\nCode in the active code cell:\n\n" ++ fenced language code ++ "\n\n"

/-- The prompt for a task on the active cell. -/
def basicPrompt (vars : List Variable) (code input language : String) : String :=
  "You are an expert " ++ language ++ " programmer writing a script in a Jupyter notebook. " ++
    "You are given a set of variables, existing code, and a task.\n\n" ++
    "Respond with the updated active code cell and a short explanation of the changes " ++
    "you made.\n\n" ++
    rules ++ "\n\n" ++ workedExample ++ "\n\n" ++ context vars code language ++
    "Your task: " ++ input

/-- The prompt for a correction of the active cell. -/
def debugPrompt (vars : List Variable) (code error language : String) : String :=
  "You are an expert " ++ language ++ " programmer debugging a Jupyter notebook. " ++
    "Running the active code cell raised an error.\n\n" ++
    "Respond with the complete corrected code cell in a single fenced code block, " ++
    "followed by a short explanation of what caused the error.\n\n" ++
    rules ++ "\n\n" ++ context vars code language ++
    "Error:\n\n" ++ fenced "" error ++ "\n\nYour task: fix the error."

/-- The prompt for an explanation of the active cell. -/
def explainPrompt (code language : String) : String :=
  "You are an expert " ++ language ++ " programmer. Explain what the following code does " ++
    "in plain language, step by step. Do not rewrite the code.\n\n" ++ fenced language code

end CellReview.Chat
