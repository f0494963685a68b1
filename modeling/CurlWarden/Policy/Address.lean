import CurlWarden.Limits
import CurlWarden.Policy.Violation
import CurlWarden.Url.Parts

/-!
# Acceptable URLs

A URL is acceptable if it is absolute, of scheme `http` or `https`, names a host and no
credentials, stands for itself alone, and is not too long. The first condition that fails, in the
order of `checkUrl`, is the one reported.
-/

namespace CurlWarden.Policy

/-- How much of a URL a violation shows, in characters. -/
def shownLength : Nat := 200

def malformedUrl (url : String) : Violation :=
  ⟨.invalidUrl, some (String.ofList (url.toList.take shownLength))⟩

def schemes : List String := ["http", "https"]

/-- Accepts the URL, or says what is wrong with it first. -/
def checkUrl (limits : Limits) (url : String) : Except Violation Unit :=
  match Url.Parts.split? url.toList with
  | none => .error (malformedUrl url)
  | some parts =>
    if parts.scheme.isEmpty then .error (malformedUrl url)
    else if !schemes.contains (String.ofList parts.scheme) then .error ⟨.unsupportedScheme, none⟩
    else if parts.hasCredentials then .error ⟨.urlCredentials, none⟩
    else if parts.host.isEmpty then .error (malformedUrl url)
    else if parts.isPattern then .error (malformedUrl url)
    else if limits.maxUrlLength < url.length then .error ⟨.urlTooLong, none⟩
    else .ok ()

end CurlWarden.Policy
