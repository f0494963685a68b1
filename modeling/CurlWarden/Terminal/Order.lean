/-!
# Orders

What the program is asked to do on its command line. The first word names a command, and the words
after it are the text that the command works on; a single dash stands for the text on standard
input. The switch for debug records may stand anywhere.
-/

namespace CurlWarden.Terminal

inductive Order where
  /-- Nothing. -/
  | nothing
  /-- To run the command that a text asks for. -/
  | probe (text : String)
  /-- To tell whether the command that a text asks for would be run. -/
  | check (text : String)
  /-- To list the flags. -/
  | flags
  /-- To describe the tools. -/
  | tools
  /-- To tell whether the program that commands run is there. -/
  | health
  /-- To work on a text, without being given one. -/
  | textless (command : String)
  /-- Something else. -/
  | unknown (command : String)
  deriving DecidableEq, Repr

def debugSwitch : String := "--debug"

def wantsDebug (arguments : List String) : Bool := arguments.contains debugSwitch

namespace Order

/-- The text that a command is given. -/
def textOf (input : String) (words : List String) : String :=
  if words = ["-"] then input else " ".intercalate words

/-- An order that needs a text. -/
def onText (order : String → Order) (command text : String) : Order :=
  if text.isEmpty then .textless command else order text

/-- The order that words give, where `input` is what stands on standard input. -/
def ofWords (input : String) : List String → Order
  | [] => .nothing
  | command :: words =>
    if command = "probe" then onText .probe command (textOf input words)
    else if command = "check" then onText .check command (textOf input words)
    else if command = "flags" then .flags
    else if command = "tools" then .tools
    else if command = "health" then .health
    else .unknown command

/-- The order that a command line gives: one switch for debug records is set aside. -/
def ofArguments (input : String) (arguments : List String) : Order :=
  ofWords input (arguments.erase debugSwitch)

example : ofArguments "" ["check", "curl", "--debug", "-s"] = .check "curl -s" := by decide +kernel
example : ofArguments "x" ["probe", "-"] = .probe "x" := by decide +kernel
example : ofArguments "" ["--debug", "--debug"] = .unknown "--debug" := by decide +kernel

end Order

end CurlWarden.Terminal
