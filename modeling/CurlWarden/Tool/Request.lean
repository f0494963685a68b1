import CurlWarden.Tool.Basic

/-!
# The request tool

The tool that makes requests, as it is offered to agents: it is read off the function behind it.
-/

namespace CurlWarden.Tool

def requestDocumentation : String :=
  "\n    Run one curl probe under the command policy.\n" ++
  "\n    command: Actual finalized curl command, or text with a curl\x60\x60\x60...\x60\x60\x60 block" ++
  "\n    evidence: Short description of what the request is meant to show\n" ++
  "\n    Returns:" ++
  "\n        ActionResult whose data holds \x7b\"success\", \"apiResponse\"\x7d\n    "

/-- What comes of offering the function that makes requests as a tool. -/
def offer : Except Complaint Tool :=
  ofFunction "make_request" "Execute a curl command to make HTTP requests and return the response"
    (some requestDocumentation)
    [{ name := "command", annotation := .text },
     { name := "evidence", annotation := .text, default := some { value := .text "" } }]
    .medium
    ["make_request(\"curl -s https://httpbin.org/json\")",
     "make_request(\"curl -v -H 'Accept: application/json' https://api.github.com\")",
     "make_request(\"curl\x60\x60\x60-I https://example.com\x60\x60\x60\")"]

/-- Makes one request by running a checked command. -/
def request : Tool := offer.toOption.get rfl

end CurlWarden.Tool
